import Mathlib.Algebra.GroupWithZero.Nat
import SophiaOrchestrator.Effects.Histories

/-!
# How many running threads hold a unit of a resource

A semaphore is a counter in the shared state, and the history of a thread says whether the
thread holds a unit of it.  A crash stops the holders and leaves the counter; what is kept is
that the running holders are at most what the counter says and at most its limit.
-/

namespace Effects

namespace Pool

variable {Op : Type} {Ret : Op → Type} {Call Ch σ : Type}

variable {H : Handler Op Ret Ch σ} {tid : Nat} {call : Call} {op : Op}
  {next : Ret op → Prog Op Ret Unit} {hist : List (Ev Op Ret)}

/-- The number of threads with operations left whose history is one that `held` admits. -/
def holders (held : List (Ev Op Ret) → Bool) (π : Pool Op Ret Call σ) : Nat :=
  π.threads.countP fun t => !t.prog.isDone && held t.hist

section Holders

variable {held : List (Ev Op Ret) → Bool} {π : Pool Op Ret Call σ}

theorem holders_start (main : Call → Prog Op Ret Unit) (call : Call) (hnil : held [] = false) :
    holders held { π with threads := π.threads ++ [Thread.spawn main call] } =
      holders held π := by
  simp [holders, List.countP_append, hnil]

theorem holders_crash (s : σ) :
    holders held (⟨s, π.threads.map Thread.stop⟩ : Pool Op Ret Call σ) = 0 := by
  simp [holders, List.countP_eq_zero]

/-- A count of threads after an operation: only the performing thread may count otherwise than
before. -/
theorem countP_perform (f : Thread Op Ret Call → Bool) (choice : Ch)
    (h : π.threads[tid]? = some ⟨call, .call op next, hist⟩) :
    (π.perform H tid call op next hist choice).threads.countP f +
        (f ⟨call, .call op next, hist⟩).toNat =
      π.threads.countP f + (f ⟨call, next (H.run op choice π.state).1,
        ⟨op, (H.run op choice π.state).1⟩ :: hist⟩).toNat := by
  obtain ⟨hlt, hthread⟩ := List.getElem?_eq_some_iff.mp h
  have hpos : f ⟨call, .call op next, hist⟩ = true → 0 < π.threads.countP f := fun hcounts =>
    List.countP_pos_iff.mpr ⟨_, List.mem_of_getElem? h, hcounts⟩
  simp only [perform, List.countP_set hlt, hthread]
  cases hold : f ⟨call, .call op next, hist⟩ with
  | false => cases f ⟨call, _, _⟩ <;> simp
  | true =>
    have hcount := hpos hold
    cases f ⟨call, _, _⟩ <;> simp <;> omega

/-- The holders after an operation: the performing thread counts as it did before, or as its
new history says if it has operations left. -/
theorem holders_perform (held : List (Ev Op Ret) → Bool) (choice : Ch)
    (h : π.threads[tid]? = some ⟨call, .call op next, hist⟩) :
    holders held (π.perform H tid call op next hist choice) + (held hist).toNat ≤
      holders held π + (held (⟨op, (H.run op choice π.state).1⟩ :: hist)).toNat := by
  have hcount := countP_perform (fun t => !t.prog.isDone && held t.hist) (H := H) choice h
  simp only [Prog.isDone_call, Bool.not_false, Bool.true_and] at hcount
  have hle : (!(next (H.run op choice π.state).1).isDone &&
      held (⟨op, (H.run op choice π.state).1⟩ :: hist)).toNat ≤
      (held (⟨op, (H.run op choice π.state).1⟩ :: hist)).toNat := by
    cases (next (H.run op choice π.state).1).isDone <;> simp
  unfold holders
  omega

end Holders

/-- The running holders are at most what the counter says and at most the limit. -/
structure Limited (held : List (Ev Op Ret) → Bool) (count : σ → Nat) (limit : Nat)
    (π : Pool Op Ret Call σ) : Prop where
  counted : holders held π ≤ count π.state
  bounded : holders held π ≤ limit

inductive Metered (limit before after : Nat) : Bool → Bool → Prop where
  | same (held : Bool) (h : before ≤ after) : Metered limit before after held held
  | take (hfree : before < limit) (h : before + 1 ≤ after) : Metered limit before after false true
  | give (h : before ≤ after + 1) : Metered limit before after true false

section Limited

variable {held : List (Ev Op Ret) → Bool} {count : σ → Nat} {limit : Nat}
  {π : Pool Op Ret Call σ}

theorem Limited.step (hinv : Limited held count limit π) {choice : Ch}
    (h : π.threads[tid]? = some ⟨call, .call op next, hist⟩)
    (hmeter : Metered limit (count π.state) (count (H.run op choice π.state).2) (held hist)
      (held (⟨op, (H.run op choice π.state).1⟩ :: hist))) :
    Limited held count limit (π.perform H tid call op next hist choice) := by
  obtain ⟨hcounted, hbounded⟩ := hinv
  have hholders := holders_perform held (H := H) choice h
  generalize held hist = old at hmeter hholders
  generalize held (⟨op, (H.run op choice π.state).1⟩ :: hist) = new at hmeter hholders
  have hstate : (π.perform H tid call op next hist choice).state =
      (H.run op choice π.state).2 := rfl
  cases hmeter with
  | same _ hle => exact ⟨by rw [hstate]; omega, by omega⟩
  | take hfree hle | give hle =>
    simp only [Bool.toNat_false, Bool.toNat_true] at hholders
    exact ⟨by rw [hstate]; omega, by omega⟩

theorem Limited.reset (hnone : holders held π = 0) {choice : Ch}
    (h : π.threads[tid]? = some ⟨call, .call op next, hist⟩)
    (hsame : held (⟨op, (H.run op choice π.state).1⟩ :: hist) = held hist) :
    Limited held count limit (π.perform H tid call op next hist choice) := by
  have hholders := holders_perform held (H := H) choice h
  rw [hsame, hnone] at hholders
  exact ⟨by omega, by omega⟩

theorem Limited.start (hinv : Limited held count limit π) (main : Call → Prog Op Ret Unit)
    (call : Call) (hnil : held [] = false) :
    Limited held count limit { π with threads := π.threads ++ [Thread.spawn main call] } :=
  ⟨by rw [holders_start main call hnil]; exact hinv.counted,
    by rw [holders_start main call hnil]; exact hinv.bounded⟩

theorem limited_crash (s : σ) :
    Limited held count limit (⟨s, π.threads.map Thread.stop⟩ : Pool Op Ret Call σ) :=
  ⟨by rw [holders_crash]; exact Nat.zero_le _, by rw [holders_crash]; exact Nat.zero_le _⟩

theorem limited_init (s : σ) :
    Limited held count limit (init s : Pool Op Ret Call σ) :=
  ⟨Nat.zero_le _, Nat.zero_le _⟩

end Limited

theorem sum_filter_le {α : Type} {p : α → Bool} {f : α → Nat} {n : Nat} {l : List α}
    (hone : ∀ (i j : Nat) (a b : α), l[i]? = some a → l[j]? = some b → p a = true → p b = true →
      i = j)
    (hle : ∀ a ∈ l, f a ≤ n) : ((l.filter p).map f).sum ≤ n := by
  induction l with
  | nil => exact Nat.zero_le n
  | cons a rest ih =>
    by_cases ha : p a = true
    · have hrest : rest.filter p = [] := by
        refine List.filter_eq_nil_iff.mpr fun b hb hpb => ?_
        obtain ⟨j, hj⟩ := List.mem_iff_getElem?.mp hb
        have := hone 0 (j + 1) a b rfl hj ha hpb
        omega
      simpa [ha, hrest] using hle a List.mem_cons_self
    · rw [List.filter_cons_of_neg ha]
      refine ih (fun i j b c hb hc hpb hpc => ?_) fun b hb => hle b (List.mem_cons_of_mem a hb)
      have := hone (i + 1) (j + 1) b c hb hc hpb hpc
      omega

/-- A count is at most the number of classes that cover it, times what each class counts. -/
theorem countP_le_mul {α β : Type} {p : α → Bool} {q : β → α → Bool} {xs : List β} {n : Nat}
    {l : List α} (hcover : ∀ a ∈ l, p a = true → ∃ b ∈ xs, q b a = true)
    (hle : ∀ b ∈ xs, l.countP (q b) ≤ n) : l.countP p ≤ xs.length * n := by
  induction xs generalizing p with
  | nil =>
    refine le_of_eq ((List.countP_eq_zero.mpr fun a ha hp => ?_).trans (Nat.zero_mul n).symm)
    obtain ⟨b, hb, -⟩ := hcover a ha hp
    cases hb
  | cons b rest ih =>
    -- The elements of the class `b`, and the others.
    have hsplit := List.countP_eq_countP_filter_add l p (q b)
    have hclass : (l.filter (q b)).countP p ≤ n :=
      List.countP_le_length.trans (List.countP_eq_length_filter ▸ hle b List.mem_cons_self)
    have hothers : (l.filter fun a => !q b a).countP p ≤ rest.length * n := by
      rw [List.countP_filter]
      refine ih (fun a ha hpa => ?_) fun b' hb' => hle b' (List.mem_cons_of_mem b hb')
      obtain ⟨hp, hnot⟩ := Bool.and_eq_true_iff.mp hpa
      obtain ⟨b', hb', hq⟩ := hcover a ha hp
      rcases List.mem_cons.mp hb' with rfl | hrest
      · simp [hq] at hnot
      · exact ⟨b', hrest, hq⟩
    have hlength : (b :: rest).length * n = rest.length * n + n := by
      rw [List.length_cons, Nat.succ_mul]
    omega

end Pool

end Effects
