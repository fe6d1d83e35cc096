import Mathlib.Data.List.Perm.Basic

/-!
# Read, modify and write under a row lock

Transactions that each select one row `FOR UPDATE`, compute a new value from what they read
and an argument of their own, write it, and commit.  The select waits until no other
transaction holds the row, and then reads the last committed value; the lock is held until
the transaction commits or is rolled back.  A written value is visible to others only after
the commit.

Whatever the interleaving, the row is what the committed transactions make of it one after
the other, in the order of their commits.
-/

namespace Sql

inductive TxStage (ρ : Type) where
  | begun
  | locked (read : ρ)
  | written (updated : ρ)
  | committed
  | rolledBack

structure Tx (ρ δ : Type) where
  arg : δ
  stage : TxStage ρ

def Tx.isCommitted {ρ δ : Type} (tx : Tx ρ δ) : Bool :=
  match tx.stage with
  | .committed => true
  | _ => false

/-- A row: its committed value, the transaction that holds its lock, the transactions, and
the arguments of the committed ones in the order of their commits. -/
structure LockedRow (ρ δ : Type) where
  value : ρ
  holder : Option Nat := none
  txs : List (Tx ρ δ)
  log : List δ := []

inductive TxMove where
  | select (i : Nat)
  | update (i : Nat)
  | commit (i : Nat)
  | fail (i : Nat)

namespace LockedRow

variable {ρ δ : Type} {f : ρ → δ → ρ} {initial : ρ} {r : LockedRow ρ δ}

def start (initial : ρ) (args : List δ) : LockedRow ρ δ where
  value := initial
  txs := args.map fun arg => ⟨arg, .begun⟩

def setStage (r : LockedRow ρ δ) (i : Nat) (arg : δ) (stage : TxStage ρ) : LockedRow ρ δ :=
  { r with txs := r.txs.set i ⟨arg, stage⟩ }

/-- One move; a select waits while the row is locked. -/
def move (f : ρ → δ → ρ) (r : LockedRow ρ δ) : TxMove → LockedRow ρ δ
  | .select i =>
    match r.txs[i]? with
    | some ⟨arg, .begun⟩ =>
      if r.holder = none then
        { r.setStage i arg (.locked r.value) with holder := some i }
      else
        r
    | _ => r
  | .update i =>
    match r.txs[i]? with
    | some ⟨arg, .locked read⟩ => r.setStage i arg (.written (f read arg))
    | _ => r
  | .commit i =>
    match r.txs[i]? with
    | some ⟨arg, .written updated⟩ =>
      { r.setStage i arg .committed with
        value := updated, holder := none, log := r.log ++ [arg] }
    | _ => r
  | .fail i =>
    match r.txs[i]? with
    | some ⟨arg, .begun⟩ => r.setStage i arg .rolledBack
    | some ⟨arg, .locked _⟩ | some ⟨arg, .written _⟩ =>
      { r.setStage i arg .rolledBack with holder := none }
    | _ => r

def run (f : ρ → δ → ρ) (r : LockedRow ρ δ) (moves : List TxMove) : LockedRow ρ δ :=
  moves.foldl (move f) r

def committedArgs (r : LockedRow ρ δ) : List δ :=
  (r.txs.filter Tx.isCommitted).map Tx.arg

/-- The stage agrees with the row: a transaction between its select and its end holds the
lock, and has what the row's value gives. -/
def Agrees (f : ρ → δ → ρ) (value : ρ) (holder : Option Nat) (i : Nat) (tx : Tx ρ δ) : Prop :=
  match tx.stage with
  | .locked read => holder = some i ∧ read = value
  | .written updated => holder = some i ∧ updated = f value tx.arg
  | _ => True

structure Serial (f : ρ → δ → ρ) (initial : ρ) (r : LockedRow ρ δ) : Prop where
  value : r.value = r.log.foldl f initial
  agrees : ∀ (i : Nat) (tx : Tx ρ δ), r.txs[i]? = some tx → Agrees f r.value r.holder i tx
  log : r.log.Perm r.committedArgs

theorem Agrees.of_not_held {value value' : ρ} {holder holder' : Option Nat} {i : Nat}
    {tx : Tx ρ δ} (h : Agrees f value holder i tx) (hfree : holder ≠ some i) :
    Agrees f value' holder' i tx := by
  unfold Agrees at h ⊢
  cases hstage : tx.stage with
  | locked read | written updated => simp [hstage, hfree] at h
  | _ => trivial

/-- One transaction moves on; the others agree with the row as before, or do not hold it. -/
theorem agrees_set {value' : ρ} {holder' : Option Nat} {i : Nat} {tx' : Tx ρ δ}
    (h : Serial f initial r)
    (hfree : ∀ k, k ≠ i → r.holder ≠ some k ∨ holder' = r.holder ∧ value' = r.value)
    (hnew : Agrees f value' holder' i tx') (j : Nat) (tx : Tx ρ δ)
    (hj : (r.txs.set i tx')[j]? = some tx) : Agrees f value' holder' j tx := by
  by_cases hij : j = i
  · subst hij
    rw [List.getElem?_set_self'] at hj
    obtain ⟨_, -, rfl⟩ := Option.map_eq_some_iff.mp hj
    exact hnew
  · rw [List.getElem?_set_ne (Ne.symm hij)] at hj
    rcases hfree j hij with hfree | ⟨rfl, rfl⟩
    · exact (h.agrees j tx hj).of_not_held hfree
    · exact h.agrees j tx hj

theorem committedArgs_set {i : Nat} {arg : δ} {stage : TxStage ρ}
    (hi : r.txs[i]? = some ⟨arg, stage⟩) (hbefore : (Tx.mk arg stage).isCommitted = false)
    (stage' : TxStage ρ) :
    (((r.txs.set i ⟨arg, stage'⟩).filter Tx.isCommitted).map Tx.arg).Perm
      (if (Tx.mk arg stage').isCommitted then arg :: r.committedArgs else r.committedArgs) := by
  obtain ⟨hlt, hget⟩ := List.getElem?_eq_some_iff.mp hi
  have hsplit : r.txs = r.txs.take i ++ ⟨arg, stage⟩ :: r.txs.drop (i + 1) := by
    rw [← hget, List.getElem_cons_drop, List.take_append_drop]
  have hargs : r.committedArgs =
      ((r.txs.take i).filter Tx.isCommitted).map Tx.arg ++
        ((r.txs.drop (i + 1)).filter Tx.isCommitted).map Tx.arg := by
    rw [committedArgs]
    conv_lhs => rw [hsplit]
    rw [List.filter_append, List.filter_cons_of_neg (by simp [hbefore]), List.map_append]
  rw [List.set_eq_take_append_cons_drop, if_pos hlt, List.filter_append, List.map_append, hargs]
  cases hafter : (Tx.mk arg stage').isCommitted with
  | true =>
    rw [List.filter_cons_of_pos (by simp [hafter]), List.map_cons, if_pos rfl]
    exact List.perm_middle
  | false =>
    rw [List.filter_cons_of_neg (by simp [hafter])]
    exact List.Perm.refl _

theorem serial_start (f : ρ → δ → ρ) (initial : ρ) (args : List δ) :
    Serial f initial (start initial args) where
  value := rfl
  agrees i tx htx := by
    obtain ⟨arg, -, rfl⟩ := List.mem_map.mp (List.mem_of_getElem? htx)
    trivial
  log := by simp [start, committedArgs, List.filter_map, Function.comp_def, Tx.isCommitted]

theorem Serial.setStage (h : Serial f initial r) {i : Nat} {arg : δ} {stage stage' : TxStage ρ}
    {holder' : Option Nat} (hi : r.txs[i]? = some ⟨arg, stage⟩)
    (hopen : (Tx.mk arg stage).isCommitted = false)
    (hopen' : (Tx.mk arg stage').isCommitted = false)
    (hfree : ∀ k, k ≠ i → r.holder ≠ some k ∨ holder' = r.holder)
    (hnew : Agrees f r.value holder' i ⟨arg, stage'⟩) :
    Serial f initial { r.setStage i arg stage' with holder := holder' } where
  value := h.value
  agrees := agrees_set h (fun k hk => (hfree k hk).imp_right fun hsame => ⟨hsame, rfl⟩) hnew
  log := by
    have hargs := committedArgs_set hi hopen stage'
    rw [if_neg (by simp [hopen'])] at hargs
    exact h.log.trans hargs.symm

theorem Serial.commit (h : Serial f initial r) {i : Nat} {arg : δ} {updated : ρ}
    (hi : r.txs[i]? = some ⟨arg, .written updated⟩) :
    Serial f initial { r.setStage i arg .committed with
      value := updated, holder := none, log := r.log ++ [arg] } := by
  obtain ⟨hholder, hupdated⟩ := h.agrees i _ hi
  refine ⟨?_, agrees_set h (fun k hk => .inl ?_) trivial, ?_⟩
  · rw [List.foldl_append, ← h.value]
    exact hupdated
  · rw [hholder]
    exact fun heq => hk (Option.some.inj heq).symm
  · refine (List.perm_append_singleton arg r.log).trans ((h.log.cons arg).trans ?_)
    exact (committedArgs_set hi rfl .committed).symm

theorem Serial.move (h : Serial f initial r) (m : TxMove) : Serial f initial (r.move f m) := by
  have hother : ∀ i, r.holder = some i → ∀ k, k ≠ i →
      r.holder ≠ some k ∨ (none : Option Nat) = r.holder := by
    intro i hholder k hk
    rw [hholder]
    exact .inl fun heq => hk (Option.some.inj heq).symm
  cases m with
  | select i =>
    simp only [LockedRow.move]
    split
    · next arg hi =>
      split
      · next hfree => exact h.setStage hi rfl rfl (fun k _ => .inl (by simp [hfree])) ⟨rfl, rfl⟩
      · exact h
    · exact h
  | update i =>
    simp only [LockedRow.move]
    split
    · next arg read hi =>
      obtain ⟨hholder, rfl⟩ := h.agrees i _ hi
      exact h.setStage hi rfl rfl (fun _ _ => .inr rfl) ⟨hholder, rfl⟩
    · exact h
  | commit i =>
    simp only [LockedRow.move]
    split
    · next arg updated hi => exact h.commit hi
    · exact h
  | fail i =>
    simp only [LockedRow.move]
    split
    · next arg hi => exact h.setStage hi rfl rfl (fun _ _ => .inr rfl) trivial
    · next arg read hi => exact h.setStage hi rfl rfl (hother i (h.agrees i _ hi).1) trivial
    · next arg updated hi => exact h.setStage hi rfl rfl (hother i (h.agrees i _ hi).1) trivial
    · exact h

/-- Every run is serial: the value is what the committed transactions make of the initial
one, in the order of their commits. -/
theorem serial_run (f : ρ → δ → ρ) (initial : ρ) (args : List δ) (moves : List TxMove) :
    Serial f initial ((start initial args).run f moves) := by
  have hrun : ∀ r, Serial f initial r → Serial f initial (r.run f moves) := by
    induction moves with
    | nil => exact fun r h => h
    | cons m moves ih => exact fun r h => ih _ (h.move m)
  exact hrun _ (serial_start f initial args)

end LockedRow

end Sql
