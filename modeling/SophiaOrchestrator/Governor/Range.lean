import Mathlib.Logic.Relation
import SophiaOrchestrator.Effects.Histories
import SophiaOrchestrator.Effects.Quiet
import SophiaOrchestrator.Governor.Spawn

/-!
# The range of the counter

A release is not covered by the advisory lock of the acquires, so the counter can change
between the read of an acquire and its update.  But it can only fall in between, and the
update raises the version that it finds, not the one that was read.
-/

namespace SophiaOrchestrator.Governor

open Effects Prog

/-! ## The atomic counter -/

namespace Counter

/-- One slot is taken below the limit, or one is given back. -/
inductive Step (max : Int) : Int → Int → Prop where
  | acquire {n : Int} (h : n < max) : Step max n (n + 1)
  | release {n : Int} : Step max n (Max.max (n - 1) 0)

def InRange (max n : Int) : Prop :=
  0 ≤ n ∧ n ≤ max

instance (max n : Int) : Decidable (InRange max n) :=
  inferInstanceAs (Decidable (_ ∧ _))

theorem InRange.step {max n n' : Int} (h : InRange max n) (hstep : Step max n n') :
    InRange max n' := by
  obtain ⟨hlow, hhigh⟩ := h
  cases hstep with
  | acquire hlt => exact ⟨by omega, by omega⟩
  | release => exact ⟨le_max_right _ _, max_le (by omega) (by omega)⟩

theorem InRange.run {max n n' : Int} (h : InRange max n)
    (hrun : Relation.ReflTransGen (Step max) n n') : InRange max n' := by
  induction hrun with
  | refl => exact h
  | tail _ hstep ih => exact ih.step hstep

end Counter

/-! ## What a call has done in its transaction -/

abbrev History : Type := List (Ev Op Op.Ret)

inductive View where
  | closed
  | opened (tx : TxID)
  | locked (tx : TxID)
  | reading (tx : TxID) (active : Int)
  | written (tx : TxID)

def View.tx : View → Option TxID
  | .closed => none
  | .opened tx | .locked tx | .reading tx _ | .written tx => some tx

/-- The newest operation tells how far the call is. -/
def Ev.view : Ev Op Op.Ret → View
  | ⟨.begin, .ok tx⟩ => .opened tx
  | ⟨.advisoryLock tx, .ok _⟩ => .locked tx
  | ⟨.advisoryLock tx, .error _⟩ => .opened tx
  | ⟨.selectActive tx, .ok active⟩ => .reading tx active
  | ⟨.selectActive tx, .error _⟩ => .locked tx
  | ⟨.updateActive tx _, _⟩ => .written tx
  | _ => .closed

def view : History → View
  | [] => .closed
  | ev :: _ => Ev.view ev

def Explains (max : Int) (past : History) : Op → Prop
  | .advisoryLock tx => view past = .opened tx
  | .selectActive tx => view past = .locked tx
  | .updateActive tx max' => max' = max ∧ ∃ active, view past = .reading tx active ∧ active < max
  | .commit tx | .rollback tx => (view past).tx = some tx
  | _ => view past = .closed

def Good {max : Int} (_ : Call max) : History → Prop
  | [] => True
  | ev :: past => Explains max past ev.op

def Ended {max : Int} (_ : Call max) (h : History) : Prop :=
  view h = .closed

abbrev Keeps {α : Type} {max : Int} (call : Call max) (R : α → History → Prop) (p : Program α)
    (h : History) : Prop :=
  p.wp (histSem fun _ _ => True) (Good call) R h

section Programs

variable {max : Int} {call : Call max}

/-- The function in the transaction leaves it open. -/
theorem acquireIn_keeps {tx : TxID} {h : History} (hview : view h = .opened tx) :
    Keeps call (fun _ h' => (view h').tx = some tx) (acquireIn max tx) h := by
  refine wp_perform_bind (fun _ _ => hview) fun answer _ => ?_
  cases answer with
  | error err => rfl
  | ok _ =>
    refine wp_perform_bind (fun _ _ => rfl) fun answer _ => ?_
    cases answer with
    | error err => rfl
    | ok active =>
      dsimp only
      split
      · rfl
      · next hbelow =>
        refine wp_perform_bind (fun _ _ => ⟨rfl, active, rfl, not_le.mp hbelow⟩) ?_
        intro answer _
        cases answer with
        | error err | ok _ => rfl

theorem acquire_keeps {h : History} (hview : view h = .closed) :
    Keeps call (fun _ h' => view h' = .closed) (SpawnGovernorRepo.acquire max) h := by
  refine wp_perform_bind (fun _ _ => hview) fun answer _ => ?_
  cases answer with
  | error err => rfl
  | ok tx =>
    refine wp_bind (wp_mono (acquireIn_keeps rfl) (fun _ hgood => hgood) ?_)
    intro result h' htx
    cases result with
    | error err => exact wp_perform_bind (fun _ _ => htx) fun _ _ => rfl
    | ok value =>
      refine wp_perform_bind (fun _ _ => htx) fun answer _ => ?_
      cases answer with
      | error err | ok _ => rfl

theorem poll_keeps {cfg : SpawnGovernorConfig} (hmax : cfg.max = max) (deadline : Int)
    (polls : Nat) {h : History} (hview : view h = .closed) :
    Keeps call (fun _ h' => view h' = .closed) (poll cfg deadline polls) h := by
  induction polls generalizing h with
  | zero => exact hview
  | succ polls ih =>
    subst hmax
    refine wp_bind (wp_mono (acquire_keeps hview) (fun _ hgood => hgood) ?_)
    intro result h' hclosed
    match result with
    | .error err => exact hclosed
    | .ok (true, _) =>
      refine wp_bind (wp_perform_bind (fun _ _ => hclosed) fun _ _ => ?_)
      exact (wp_hist_call _ _ _).mpr fun _ _ => ⟨rfl, rfl⟩
    | .ok (false, _) =>
      refine wp_perform_bind (fun _ _ => hclosed) fun time _ => ?_
      split
      · rfl
      · refine wp_perform_bind (fun _ _ => rfl) fun answer _ => ?_
        cases answer with
        | error text => rfl
        | ok _ => exact ih rfl

theorem main_keeps (call : Call max) :
    (main call).wp (histSem fun _ _ => True) (Good call) (fun _ h => Ended call h) [] := by
  cases call with
  | acquire gov polls =>
    refine wp_bind (wp_perform_bind (fun _ _ => rfl) fun start _ => ?_)
    exact poll_keeps gov.max_eq _ polls rfl
  | release => exact wp_perform_bind (fun _ _ => rfl) fun _ _ => rfl

end Programs

/-! ## The invariant -/

/-- What a call can rely on: the holder of the advisory lock finds no version of another
transaction, and what it has read is not below the counter. -/
def View.Holds (s : State) : View → Prop
  | .locked tx => s.advisory = some tx ∧ s.version = none
  | .reading tx active => s.advisory = some tx ∧ s.version = none ∧ s.activeCount ≤ active
  | _ => True

/-- It is still true while the lock is kept and the counter does not rise. -/
theorem View.Holds.keep {s s' : State} {w : View} (h : w.Holds s)
    (hlock : ∀ tx, w.tx = some tx → s.advisory = some tx → s'.advisory = some tx)
    (hversion : s.version = none → s'.version = none) (hcount : s'.activeCount ≤ s.activeCount) :
    w.Holds s' := by
  cases w with
  | locked tx => exact ⟨hlock tx rfl h.1, hversion h.2⟩
  | reading tx active => exact ⟨hlock tx rfl h.1, hversion h.2.1, hcount.trans h.2.2⟩
  | _ => trivial

structure Serialized (max start : Int) (views : Nat → View) (s : State) : Prop where
  fresh : ∀ u tx, (views u).tx = some tx → tx.raw < s.next
  sole : ∀ u u' tx, (views u).tx = some tx → (views u').tx = some tx → u = u'
  holds : ∀ u, (views u).Holds s
  writer : ∀ v, s.version = some v → s.advisory = some v.tx ∧ ∃ u, views u = .written v.tx
  raised : ∀ v, s.version = some v → v.activeCount = s.activeCount + 1 ∧ s.activeCount < max
  nonneg : 0 ≤ s.activeCount
  counter : Relation.ReflTransGen (Counter.Step max) start s.activeCount

namespace Serialized

variable {max start : Int} {views : Nat → View} {s s' : State} {tid : Nat} {tx : TxID}

theorem closed (hversion : s.version = none) (hnonneg : 0 ≤ s.activeCount)
    (hcounter : Relation.ReflTransGen (Counter.Step max) start s.activeCount) :
    Serialized max start (fun _ => .closed) s where
  fresh := fun _ _ htx => by cases htx
  sole := fun _ _ _ htx => by cases htx
  holds := fun _ => trivial
  writer := fun v hv => by rw [hversion] at hv; cases hv
  raised := fun v hv => by rw [hversion] at hv; cases hv
  nonneg := hnonneg
  counter := hcounter

/-- One call takes a step: what is to be shown of it and of the others. -/
theorem step (h : Serialized max start views s) {w : View} (hnext : s.next ≤ s'.next)
    (hopen : ∀ tx, w.tx = some tx → tx.raw < s'.next ∧ ∀ u, u ≠ tid → (views u).tx ≠ some tx)
    (hown : w.Holds s') (hothers : ∀ u, u ≠ tid → (views u).Holds s → (views u).Holds s')
    (hwriter : ∀ v, s'.version = some v →
      s'.advisory = some v.tx ∧ (w = .written v.tx ∨ ∃ u, u ≠ tid ∧ views u = .written v.tx))
    (hraised : ∀ v, s'.version = some v →
      v.activeCount = s'.activeCount + 1 ∧ s'.activeCount < max)
    (hnonneg : 0 ≤ s'.activeCount)
    (hcounter : Relation.ReflTransGen (Counter.Step max) start s'.activeCount) :
    Serialized max start (Function.update views tid w) s' where
  fresh := by
    intro u tx hu
    by_cases hut : u = tid
    · subst hut
      rw [Function.update_self] at hu
      exact (hopen tx hu).1
    · rw [Function.update_of_ne hut] at hu
      exact (h.fresh u tx hu).trans_le hnext
  sole := by
    intro u u' tx hu hu'
    by_cases hut : u = tid <;> by_cases hut' : u' = tid
    · rw [hut, hut']
    · subst hut
      rw [Function.update_self] at hu
      rw [Function.update_of_ne hut'] at hu'
      exact absurd hu' ((hopen tx hu).2 u' hut')
    · subst hut'
      rw [Function.update_self] at hu'
      rw [Function.update_of_ne hut] at hu
      exact absurd hu ((hopen tx hu').2 u hut)
    · rw [Function.update_of_ne hut] at hu
      rw [Function.update_of_ne hut'] at hu'
      exact h.sole u u' tx hu hu'
  holds := by
    intro u
    by_cases hut : u = tid
    · subst hut
      rw [Function.update_self]
      exact hown
    · rw [Function.update_of_ne hut]
      exact hothers u hut (h.holds u)
  writer := by
    intro v hv
    obtain ⟨hadvisory, hw | ⟨u, hut, hu⟩⟩ := hwriter v hv
    · exact ⟨hadvisory, tid, by rw [Function.update_self, hw]⟩
    · exact ⟨hadvisory, u, by rw [Function.update_of_ne hut, hu]⟩
  raised := hraised
  nonneg := hnonneg
  counter := hcounter

theorem others (h : Serialized max start views s) (htx : (views tid).tx = some tx) :
    tx.raw < s.next ∧ ∀ u, u ≠ tid → (views u).tx ≠ some tx :=
  ⟨h.fresh tid tx htx, fun u hut hu => hut (h.sole u tid tx hu htx)⟩

/-- While a call holds the lock, the others rely on nothing. -/
theorem others_hold (h : Serialized max start views s) (htx : (views tid).tx = some tx) {u : Nat}
    (hut : u ≠ tid) (hadvisory : s.advisory = some tx) (s' : State) : (views u).Holds s' := by
  have hholds := h.holds u
  have hne : (views u).tx ≠ some tx := (h.others htx).2 u hut
  cases hview : views u with
  | locked tx' | reading tx' active =>
    rw [hview] at hholds hne
    exact absurd (hholds.1.symm.trans hadvisory) hne
  | _ => trivial

theorem version_tx (h : Serialized max start views s) (htx : (views tid).tx = some tx)
    (hunwritten : views tid ≠ .written tx) {v : Version} (hv : s.version = some v) : v.tx ≠ tx := by
  rintro rfl
  obtain ⟨-, u, hu⟩ := h.writer v hv
  have hsame : u = tid := h.sole u tid v.tx (by rw [hu]; rfl) htx
  exact hunwritten (hsame ▸ hu)

/-! ### The steps -/

theorem idle (h : Serialized max start views s) {w : View} {n : Nat} (hn : s.next ≤ n)
    (hopen : ∀ tx, w.tx = some tx → tx.raw < n ∧ ∀ u, u ≠ tid → (views u).tx ≠ some tx)
    (hown : w.Holds s) (hunwritten : ∀ tx, views tid ≠ .written tx) :
    Serialized max start (Function.update views tid w) { s with next := n } := by
  refine h.step hn hopen (hown.keep (fun _ _ hheld => hheld) (fun hnone => hnone) le_rfl)
    (fun u _ hu => hu.keep (fun _ _ hheld => hheld) (fun hnone => hnone) le_rfl) ?_
    h.raised h.nonneg
    h.counter
  intro v hv
  obtain ⟨hadvisory, u, hu⟩ := h.writer v hv
  refine ⟨hadvisory, .inr ⟨u, ?_, hu⟩⟩
  rintro rfl
  exact hunwritten _ hu

theorem begin (h : Serialized max start views s) (hclosed : views tid = .closed) :
    Serialized max start (Function.update views tid (.opened ⟨s.next⟩))
      { s with next := s.next + 1 } := by
  refine h.idle (Nat.le_succ _) ?_ trivial (by simp [hclosed])
  intro tx hw
  cases hw
  exact ⟨Nat.lt_succ_self _, fun u _ hu => lt_irrefl _ (h.fresh u _ hu)⟩

/-- The advisory lock is granted; its reply may be lost. -/
theorem lock (h : Serialized max start views s) (hopened : views tid = .opened tx)
    (hfree : s.advisoryFree tx = true) {w : View} (hw : w = .locked tx ∨ w = .opened tx) :
    Serialized max start (Function.update views tid w) { s with advisory := some tx } := by
  have htx : (views tid).tx = some tx := by rw [hopened]; rfl
  have hholder : ∀ tx', s.advisory = some tx' → tx' = tx := by
    intro tx' hadvisory
    simpa [State.advisoryFree, hadvisory] using hfree
  have hversion : s.version = none := by
    rw [Option.eq_none_iff_forall_ne_some]
    intro v hv
    exact h.version_tx htx (by rw [hopened]; simp) hv (hholder _ (h.writer v hv).1)
  refine h.step le_rfl ?_ ?_
    (fun u _ hu => hu.keep (fun tx' _ hheld => by rw [hholder tx' hheld]) (fun hnone => hnone)
      le_rfl)
    ?_ h.raised h.nonneg h.counter
  · intro tx' hw'
    have hsame : tx' = tx := by
      rcases hw with rfl | rfl <;> exact (Option.some.inj hw').symm
    rw [hsame]
    exact h.others htx
  · rcases hw with rfl | rfl
    · exact ⟨rfl, hversion⟩
    · trivial
  · intro v hv
    rw [hversion] at hv
    cases hv

theorem raise (h : Serialized max start views s) {active : Int}
    (hreading : views tid = .reading tx active) (hbelow : active < max) (maxCount : Int) :
    Serialized max start (Function.update views tid (.written tx))
      { s with version := some ⟨tx, s.visible tx + 1, maxCount⟩ } := by
  have htx : (views tid).tx = some tx := by rw [hreading]; rfl
  have hholds := h.holds tid
  rw [hreading] at hholds
  obtain ⟨hadvisory, hversion, hread⟩ := hholds
  refine h.step le_rfl ?_ trivial (fun u hut _ => h.others_hold htx hut hadvisory _) ?_ ?_ h.nonneg
    h.counter
  · intro tx' hw
    cases hw
    exact h.others htx
  · intro v hv
    cases hv
    exact ⟨hadvisory, .inl rfl⟩
  · intro v hv
    cases hv
    exact ⟨by simp [State.visible, hversion], hread.trans_lt hbelow⟩

theorem unlock (h : Serialized max start views s) (htx : (views tid).tx = some tx) :
    Serialized max start (Function.update views tid .closed) (s.unlock tx) := by
  have hversion : ∀ v, (s.unlock tx).version = some v → s.version = some v ∧ v.tx ≠ tx := by
    intro v hv
    simp only [State.unlock] at hv
    split at hv
    · cases hv
    · next hfree => exact ⟨hv, by simpa [State.rowFree, hv] using hfree⟩
  have hadvisory : ∀ tx', tx' ≠ tx → s.advisory = some tx' →
      (s.unlock tx).advisory = some tx' := by
    intro tx' hne hheld
    simp [State.unlock, hheld, hne]
  refine h.step le_rfl (fun tx' hw => by cases hw) trivial (fun u hut hu => ?_) ?_ ?_ h.nonneg
    h.counter
  · refine hu.keep (fun tx' hu' => hadvisory tx' ?_) (fun hnone => ?_) le_rfl
    · rintro rfl
      exact (h.others htx).2 u hut hu'
    · simp [State.unlock, State.rowFree, hnone]
  · intro v hv
    obtain ⟨hold, hne⟩ := hversion v hv
    obtain ⟨hlock, u, hu⟩ := h.writer v hold
    refine ⟨hadvisory v.tx hne hlock, .inr ⟨u, ?_, hu⟩⟩
    rintro rfl
    rw [hu] at htx
    exact hne (Option.some.inj htx)
  · exact fun v hv => h.raised v (hversion v hv).1

/-- A commit raises the counter below the limit, or changes nothing. -/
theorem commit (h : Serialized max start views s) (htx : (views tid).tx = some tx) :
    Serialized max start (Function.update views tid .closed) (s.commit tx) := by
  unfold State.commit
  split
  · next v hv =>
    split
    · next hown =>
      subst hown
      obtain ⟨hadvisory, -⟩ := h.writer v hv
      obtain ⟨hcount, hbelow⟩ := h.raised v hv
      have hnone : (s.unlock v.tx).version = none := by
        simp [State.unlock, State.rowFree, hv]
      refine h.step le_rfl (fun tx' hw => by cases hw) trivial
        (fun u hut _ => h.others_hold htx hut hadvisory _) ?_ ?_ ?_ ?_
      · intro v' hv'
        cases hnone.symm.trans hv'
      · intro v' hv'
        cases hnone.symm.trans hv'
      · show 0 ≤ v.activeCount
        have hnonneg := h.nonneg
        omega
      · show Relation.ReflTransGen _ _ v.activeCount
        rw [hcount]
        exact h.counter.tail (.acquire hbelow)
    · exact h.unlock htx
  · exact h.unlock htx

theorem release (h : Serialized max start views s) (hfree : s.version = none) :
    Serialized max start (Function.update views tid .closed) s.lower := by
  -- The counter can only have fallen since it was read.
  have hfalls : s.lower.activeCount ≤ s.activeCount := max_le (by omega) h.nonneg
  refine h.step le_rfl (fun tx' hw => by cases hw) trivial
    (fun u _ hu => hu.keep (fun _ _ hheld => hheld) (fun hnone => hnone) hfalls) ?_ ?_
    (le_max_right _ _) (h.counter.tail .release)
  · intro v hv
    cases hfree.symm.trans hv
  · intro v hv
    cases hfree.symm.trans hv

theorem perform (h : Serialized max start views s) {past : History} {op : Op} {ch : Choice}
    (hview : views tid = view past) (hjust : Explains max past op)
    (henabled : enabled op ch s = true) :
    Serialized max start (Function.update views tid (Ev.view ⟨op, (handle op ch s).1⟩))
      (handle op ch s).2 := by
  have hsame : ∀ {w : View}, (w.tx = none ∨ w.tx = (views tid).tx) → w.Holds s →
      (∀ tx, views tid ≠ .written tx) → Serialized max start (Function.update views tid w) s :=
    fun htx hown hunwritten => h.idle le_rfl
      (fun _ hw => htx.elim (fun hnone => by cases hnone.symm.trans hw)
        fun hsame => h.others (hsame.symm.trans hw)) hown hunwritten
  obtain ⟨fault, time, waited, extra⟩ := ch
  cases op with
  | begin =>
    have hclosed : views tid = .closed := hview.trans hjust
    cases fault with
    | none => exact h.begin hclosed
    | before | after =>
      exact h.idle (Nat.le_succ _) (fun _ hw => by cases hw) trivial (by simp [hclosed])
  | advisoryLock tx =>
    have hopened : views tid = .opened tx := hview.trans hjust
    cases fault with
    | none => exact h.lock hopened (by simpa [enabled] using henabled) (.inl rfl)
    | before => exact hsame (.inr (by rw [hopened]; rfl)) trivial (by simp [hopened])
    | after => exact h.lock hopened (by simpa [enabled] using henabled) (.inr rfl)
  | selectActive tx =>
    have hlocked : views tid = .locked tx := hview.trans hjust
    have hholds := h.holds tid
    rw [hlocked] at hholds
    have htx : some tx = (views tid).tx := by rw [hlocked]; rfl
    cases fault with
    | none =>
      refine hsame (.inr htx) ⟨hholds.1, hholds.2, ?_⟩ (by simp [hlocked])
      simp [State.visible, hholds.2]
    | before | after => exact hsame (.inr htx) hholds (by simp [hlocked])
  | updateActive tx max' =>
    obtain ⟨-, active, hreading, hbelow⟩ := hjust
    have hread : views tid = .reading tx active := hview.trans hreading
    have hrefused : Serialized max start (Function.update views tid (.written tx)) s :=
      hsame (.inr (by rw [hread]; rfl)) trivial (by simp [hread])
    simp only [handle, State.raise]
    cases fault with
    | none | after =>
      split
      · exact h.raise hread hbelow _
      · exact hrefused
    | before => split <;> exact hrefused
  | commit tx =>
    have htx : (views tid).tx = some tx := hview ▸ hjust
    cases fault with
    | none | after => exact h.commit htx
    | before => exact h.unlock htx
  | rollback tx =>
    have htx : (views tid).tx = some tx := hview ▸ hjust
    exact h.unlock htx
  | release =>
    have hclosed : views tid = .closed := hview.trans hjust
    cases fault with
    | none | after => exact h.release (by simpa [enabled] using henabled)
    | before => exact hsame (.inl rfl) trivial (by simp [hclosed])
  | now | wait d | jitter span | sleep d =>
    exact hsame (.inl rfl) trivial (by simp [hview.trans hjust])

end Serialized

/-! ## Runs -/

abbrev GovernorPool (max : Int) : Type := Pool Op Op.Ret (Call max) State

def reach {max : Int} (s : State) (moves : List (Move (Call max) Choice)) : GovernorPool max :=
  (Pool.init s).run handler main moves

open Classical in
noncomputable def views (hs : Nat → History) (L : Nat → Prop) : Nat → View :=
  fun u => if L u then view (hs u) else .closed

theorem views_update {hs : Nat → History} {L L' : Nat → Prop} {tid : Nat} {ev : Ev Op Op.Ret}
    (hothers : ∀ u, u ≠ tid → (L' u ↔ L u)) (hend : L' tid ∨ Ev.view ev = .closed) :
    views (Function.update hs tid (ev :: hs tid)) L' =
      Function.update (views hs L) tid (Ev.view ev) := by
  funext u
  by_cases hut : u = tid
  · subst hut
    rw [Function.update_self]
    by_cases hlive : L' u
    · simp [views, hlive, view]
    · simp [views, hlive, hend.resolve_left hlive]
  · have hsame : L' u = L u := propext (hothers u hut)
    simp only [views, Function.update_of_ne hut]
    rw [hsame]

/-- Any interleaving of the statements moves the counter by steps of the atomic one. -/
theorem reach_serialized {max : Int} {s : State} (hnonneg : 0 ≤ s.activeCount)
    (hquiet : s.isQuiet = true) (moves : List (Move (Call max) Choice)) :
    Pool.HistoryInv (fun _ _ => True) Good Ended
      (fun hs L s' => Serialized max s.activeCount (views hs L) s') (reach s moves) := by
  have hversion : s.version = none := by
    simp only [State.isQuiet, Bool.and_eq_true, Option.isNone_iff_eq_none] at hquiet
    exact hquiet.2
  have hnone : ∀ hs, views hs (fun _ => False) = fun _ => .closed :=
    fun hs => funext fun u => by simp [views]
  refine Pool.history_induction (fun _ _ _ => trivial) main_keeps ?start ?crash ?step ?init moves
    (Pool.meets_true _ _)
  case start =>
    intro π call tid L' _ hnew hold hnewer hinv
    have hsame : views π.hists L' = views π.hists π.Live := by
      funext u
      by_cases hu : π.Live u
      · simp [views, hu, hold u hu]
      · by_cases hu' : L' u
        · obtain rfl := (hnewer u hu').resolve_left hu
          simp [views, hu, hu', hnew, view]
        · simp [views, hu, hu']
    rw [hsame]
    exact hinv
  case crash =>
    intro π _ hinv
    rw [hnone]
    exact .closed rfl hinv.nonneg hinv.counter
  case step =>
    intro π tid ch call op next L' hperforms _ _ hothers hend hinv
    rw [views_update hothers hend]
    refine hinv.perform ?_ hperforms.just hperforms.enabled
    simp [views, hperforms.live]
  case init =>
    rw [hnone]
    exact .closed hversion hnonneg .refl

/-- The persisted counter stays between zero and the limit: for any number of instances with
the same limit, in any interleaving of the statements of their acquires and releases, with
any statement failing and transactions being rolled back. -/
theorem activeCount_inRange (max : Int) (s : State) (hquiet : s.isQuiet = true)
    (hstart : Counter.InRange max s.activeCount) (moves : List (Move (Call max) Choice)) :
    Counter.InRange max (reach s moves).state.activeCount :=
  hstart.run (reach_serialized hstart.1 hquiet moves).holds.counter

/-- Two acquires with a release between the read and the update of the first. -/
def releasedInBetween : List (Move (Call 4) Choice) :=
  [.start (.acquire defaultGovernor 1), .start (.acquire defaultGovernor 1), .start .release,
    .step 0 {}, .step 0 {}, .step 0 {}, .step 0 {}, .step 1 {}, .step 1 {}, .step 1 {}, .step 2 {},
    .step 0 {}, .step 0 {}, .step 1 {}, .step 1 {}, .step 1 {}, .step 1 {}]

theorem activeCount_releasedInBetween :
    Counter.InRange 4 3 ∧ (reach { activeCount := 3 } releasedInBetween).state.activeCount = 4 ∧
      Counter.InRange 4 (reach { activeCount := 3 } releasedInBetween).state.activeCount :=
  ⟨by decide, by decide +kernel,
    activeCount_inRange 4 { activeCount := 3 } rfl (by decide) releasedInBetween⟩

end SophiaOrchestrator.Governor
