import Mathlib.Algebra.BigOperators.Group.Finset.Basic
import Mathlib.Algebra.Order.BigOperators.Group.Finset
import SophiaOrchestrator.Effects.Histories
import SophiaOrchestrator.Effects.Sequential

/-!
# Counting what the threads hold

A counter in the shared state says how much of a resource is taken, and the history of a
thread says how much of it the thread holds.  If every operation changes both by the same
amount and every thread ends with nothing, the counter is the sum of what the threads hold,
and it is zero when nothing runs.
-/

namespace Effects

namespace Pool

variable {Op : Type} {Ret : Op → Type} {Call Ch σ : Type}

/-- The counter is the sum of what the threads hold, and a thread without operations left
holds nothing. -/
structure Tally (held : List (Ev Op Ret) → Nat) (count : σ → Nat)
    (hs : Nat → List (Ev Op Ret)) (L : Nat → Prop) (s : σ) : Prop where
  total : ∃ n, (∀ u, n ≤ u → hs u = []) ∧ count s = ∑ u ∈ Finset.range n, held (hs u)
  free : ∀ u, ¬L u → held (hs u) = 0

section Tally

variable {held : List (Ev Op Ret) → Nat} {count : σ → Nat} {hs : Nat → List (Ev Op Ret)}
  {L : Nat → Prop} {s : σ}

theorem Tally.held_le (h : Tally held count hs L s) (hnil : held [] = 0) (u : Nat) :
    held (hs u) ≤ count s := by
  obtain ⟨n, hempty, hcount⟩ := h.total
  rcases Nat.lt_or_ge u n with hlt | hge
  · rw [hcount]
    exact Finset.single_le_sum (f := fun u => held (hs u)) (fun _ _ => Nat.zero_le _)
      (Finset.mem_range.mpr hlt)
  · rw [hempty u hge, hnil]
    exact Nat.zero_le _

theorem Tally.held_eq_zero (h : Tally held count hs L s) (hnil : held [] = 0)
    (hzero : count s = 0) (u : Nat) : held (hs u) = 0 :=
  Nat.le_zero.mp (hzero ▸ h.held_le hnil u)

theorem sum_update (hnil : held [] = 0) {n : Nat} (hempty : ∀ u, n ≤ u → hs u = []) (tid : Nat)
    (h' : List (Ev Op Ret)) :
    ∑ u ∈ Finset.range (max n (tid + 1)), held (Function.update hs tid h' u) + held (hs tid) =
      ∑ u ∈ Finset.range n, held (hs u) + held h' := by
  have hmem : tid ∈ Finset.range (max n (tid + 1)) := by simp
  have hgrow : ∑ u ∈ Finset.range n, held (hs u) =
      ∑ u ∈ Finset.range (max n (tid + 1)), held (hs u) := by
    refine Finset.sum_subset (by simp) fun u _ hu => ?_
    rw [hempty u (by simpa using hu), hnil]
  have hothers : ∑ u ∈ (Finset.range (max n (tid + 1))).erase tid,
        held (Function.update hs tid h' u) =
      ∑ u ∈ (Finset.range (max n (tid + 1))).erase tid, held (hs u) := by
    refine Finset.sum_congr rfl fun u hu => ?_
    rw [Function.update_of_ne (Finset.ne_of_mem_erase hu)]
  rw [hgrow, ← Finset.sum_erase_add _ _ hmem, ← Finset.sum_erase_add _ _ hmem, hothers,
    Function.update_self]
  omega

theorem Tally.step {L' : Nat → Prop} {s' : σ} {tid : Nat} {h' : List (Ev Op Ret)}
    (h : Tally held count hs L s) (hnil : held [] = 0)
    (hcount : count s' + held (hs tid) = count s + held h')
    (hothers : ∀ i, i ≠ tid → (L' i ↔ L i)) (hend : L' tid ∨ held h' = 0) :
    Tally held count (Function.update hs tid h') L' s' := by
  obtain ⟨n, hempty, htotal⟩ := h.total
  refine ⟨⟨max n (tid + 1), fun u hu => ?_, ?_⟩, fun u hu => ?_⟩
  · have hne : u ≠ tid := by omega
    rw [Function.update_of_ne hne]
    exact hempty u (by omega)
  · have hsum := sum_update hnil hempty tid h'
    omega
  · by_cases heq : u = tid
    · subst heq
      rw [Function.update_self]
      exact hend.resolve_left hu
    · rw [Function.update_of_ne heq]
      exact h.free u fun hlive => hu ((hothers u heq).mpr hlive)

end Tally

/-- The induction over a run: every operation changes the counter by what it changes of the
thread, a thread ends with nothing, and the process crashes only when nothing is taken. -/
theorem tally_induction {H : Handler Op Ret Ch σ} {main : Call → Prog Op Ret Unit}
    {ans : (op : Op) → Ret op → Prop} {I Q : Call → List (Ev Op Ret) → Prop}
    {ok : Pool Op Ret Call σ → Move Call Ch → Bool} {held : List (Ev Op Ret) → Nat}
    {count : σ → Nat} (hans : ∀ op choice s, ans op (H.run op choice s).1)
    (hmain : ∀ call, (main call).wp (Prog.histSem ans) (I call) (fun _ h => Q call h) [])
    (hnil : held [] = 0) (hend : ∀ call h, Q call h → held h = 0)
    (hcrash : ∀ π : Pool Op Ret Call σ, ok π .crash = true →
      count π.state = 0 ∧ count (H.crash π.state) = 0)
    (hstep : ∀ (π : Pool Op Ret Call σ) tid choice call op next,
      Performs H I π tid choice call op next → ok π (.step tid choice) = true →
      held (π.hists tid) ≤ count π.state →
      count (H.run op choice π.state).2 + held (π.hists tid) =
        count π.state + held (⟨op, (H.run op choice π.state).1⟩ :: π.hists tid))
    {s : σ} (hinit : count s = 0) (moves : List (Move Call Ch))
    (hok : (init s : Pool Op Ret Call σ).Meets H main ok moves = true) :
    Tally held count ((init s : Pool Op Ret Call σ).run H main moves).hists
      ((init s : Pool Op Ret Call σ).run H main moves).Live
      ((init s : Pool Op Ret Call σ).run H main moves).state := by
  refine (history_induction hans hmain ?start ?crash ?step ?init moves hok).holds
  case init =>
    exact ⟨⟨0, fun _ _ => rfl, by simpa using hinit⟩, fun _ _ => hnil⟩
  case start =>
    intro π call tid L' _ _ hlive _ htally
    exact ⟨htally.total, fun u hu => htally.free u fun hold => hu (hlive u hold)⟩
  case crash =>
    intro π hmove htally
    obtain ⟨hbefore, hafter⟩ := hcrash π hmove
    obtain ⟨n, hempty, htotal⟩ := htally.total
    exact ⟨⟨n, hempty, hafter.trans (hbefore.symm.trans htotal)⟩,
      fun u _ => htally.held_eq_zero hnil hbefore u⟩
  case step =>
    intro π tid choice call op next L' hperforms _ hmove hothers hlast htally
    exact htally.step hnil
      (hstep π tid choice call op next hperforms hmove (htally.held_le hnil tid)) hothers
      (hlast.imp_right (hend call _))

theorem Tally.count_of_idle {held : List (Ev Op Ret) → Nat} {count : σ → Nat}
    {π : Pool Op Ret Call σ} (h : Tally held count π.hists π.Live π.state)
    (hidle : π.idle = true) : count π.state = 0 := by
  obtain ⟨n, -, htotal⟩ := h.total
  rw [htotal]
  exact Finset.sum_eq_zero fun u _ => h.free u (not_live_of_idle hidle u)

end Pool

end Effects
