import Mathlib.Algebra.Order.Ring.Int
import Mathlib.Data.List.Infix
import Mathlib.Logic.Function.Basic

/-!
# The rate guard of the bootstrap trigger

For each project the guard keeps the instants of the calls that it has let pass, and at each
call it forgets those before the window.  An instant is a whole number of nanoseconds, and so
is the window.  While the clock does not go back, what is forgotten is never asked for again:
the guard answers as if it had kept every call (`RateGuard.allow_eq`).
-/

namespace SophiaOrchestrator.Bootstrap

structure RateGuard where
  limit : Int
  window : Int

/-- The instants the guard keeps for each project; a project without an entry has none. -/
abbrev Entries : Type := String → List Int

structure GuardCall where
  projectID : String
  now : Int

structure Answered extends GuardCall where
  allowed : Bool

/-- `Allow`: the expired instants are dropped, and the call is let pass if fewer than `limit`
are left. -/
def RateGuard.allow (g : RateGuard) (entries : Entries) (c : GuardCall) : Bool × Entries :=
  let cutoff := c.now - g.window
  let valid := (entries c.projectID).filter fun t => decide (¬ t < cutoff)
  if g.limit ≤ valid.length then (false, Function.update entries c.projectID valid)
  else (true, Function.update entries c.projectID (valid ++ [c.now]))

def RateGuard.run (g : RateGuard) (entries : Entries) : List GuardCall → List Answered
  | [] => []
  | c :: calls => ⟨c, (g.allow entries c).1⟩ :: g.run (g.allow entries c).2 calls

def passed (past : List Answered) (projectID : String) : List Int :=
  (past.filter fun r => r.allowed && r.projectID == projectID).map fun r => r.now

/-- How many calls of a project were let pass in a closed interval. -/
def passedWithin (past : List Answered) (projectID : String) (start stop : Int) : Nat :=
  (passed past projectID).countP fun t => decide (start ≤ t ∧ t ≤ stop)

variable {g : RateGuard} {entries entries' : Entries} {past : List Answered} {c : GuardCall}
  {p : String}

/-- For every window that can still be asked for, the entries are as good as the whole past. -/
def Keeps (g : RateGuard) (past : List Answered) (entries : Entries) : Prop :=
  ∀ p now, (∀ r ∈ past, r.now ≤ now) →
    (entries p).filter (fun t => decide (¬ t < now - g.window)) =
      (passed past p).filter fun t => decide (¬ t < now - g.window)

theorem passed_append (r : Answered) : passed (past ++ [r]) p =
    passed past p ++ if r.allowed = true ∧ r.projectID = p then [r.now] else [] := by
  by_cases h : r.allowed = true ∧ r.projectID = p <;> simp [passed, h]

theorem le_of_mem_passed {t now : Int} (h : t ∈ passed past p) (hnow : ∀ r ∈ past, r.now ≤ now) :
    t ≤ now := by
  obtain ⟨r, hr, rfl⟩ := List.mem_map.mp h
  exact hnow r (List.mem_filter.mp hr).1

theorem RateGuard.allow_eq (h : Keeps g past entries) (hnow : ∀ r ∈ past, r.now ≤ c.now) :
    (g.allow entries c).1 =
      decide (passedWithin past c.projectID (c.now - g.window) c.now < g.limit) := by
  have hcount : ((passed past c.projectID).filter
      fun t => decide (¬ t < c.now - g.window)).length =
        passedWithin past c.projectID (c.now - g.window) c.now := by
    rw [← List.countP_eq_length_filter, passedWithin]
    refine List.countP_congr fun t ht => ?_
    simp only [decide_eq_true_eq, not_lt, le_of_mem_passed ht hnow, and_true]
  simp only [allow, h _ _ hnow, hcount]
  split <;> simp_all

theorem Keeps.step (h : Keeps g past entries) (hclock : ∀ r ∈ past, r.now ≤ c.now) :
    Keeps g (past ++ [⟨c, (g.allow entries c).1⟩]) (g.allow entries c).2 := by
  intro p now hnow
  by_cases hp : c.projectID = p
  · subst hp
    have hlater : c.now ≤ now := hnow _ (List.mem_append_right _ (List.mem_singleton_self _))
    -- What is forgotten now is before the later window as well.
    have hforgotten : ∀ t : Int, (decide (¬ t < now - g.window) &&
        decide (¬ t < c.now - g.window)) = decide (¬ t < now - g.window) := by
      intro t
      rw [← Bool.decide_and, decide_eq_decide]
      omega
    simp only [RateGuard.allow, h _ _ hclock, passed_append]
    split <;> simp only [Function.update_self, List.filter_append, List.filter_filter, hforgotten]
      <;> simp
  · have hentries : (g.allow entries c).2 p = entries p := by
      simp only [RateGuard.allow]
      split <;> simp [Function.update_of_ne (Ne.symm hp)]
    rw [hentries, passed_append, if_neg (by simp [hp]), List.append_nil]
    exact h p now fun r hr => hnow r (by simp [hr])

structure Limited (g : RateGuard) (past : List Answered) : Prop where
  atMost : ∀ p start, (passedWithin past p start (start + g.window) : Int) ≤ max g.limit 0
  refused : ∀ before r, before ++ [r] <+: past → r.allowed = false →
    g.limit ≤ passedWithin before r.projectID (r.now - g.window) r.now

theorem Limited.step (hlimited : Limited g past) (h : Keeps g past entries)
    (hclock : ∀ r ∈ past, r.now ≤ c.now) : Limited g (past ++ [⟨c, (g.allow entries c).1⟩]) := by
  have hanswer := RateGuard.allow_eq h hclock
  constructor
  · intro p start
    have hold := hlimited.atMost p start
    rw [passedWithin, passed_append, List.countP_append]
    by_cases hin : ((g.allow entries c).1 = true ∧ c.projectID = p) ∧
        start ≤ c.now ∧ c.now ≤ start + g.window
    · obtain ⟨⟨hallowed, rfl⟩, hin⟩ := hin
      -- The interval is part of the window before the call, which was not full.
      have hfree : (passedWithin past c.projectID (c.now - g.window) c.now : Int) < g.limit :=
        of_decide_eq_true (hanswer.symm.trans hallowed)
      have hsub : (passed past c.projectID).countP
          (fun t => decide (start ≤ t ∧ t ≤ start + g.window)) ≤
            passedWithin past c.projectID (c.now - g.window) c.now := by
        refine List.countP_mono_left fun t ht hin' => ?_
        have hlast := le_of_mem_passed ht hclock
        simp only [decide_eq_true_eq] at hin' ⊢
        omega
      simp only [hallowed, and_self, if_true, List.countP_singleton, hin, decide_true]
      omega
    · have hnone : (if (g.allow entries c).1 = true ∧ c.projectID = p then [c.now] else []).countP
          (fun t => decide (start ≤ t ∧ t ≤ start + g.window)) = 0 := by
        split <;> simp_all
      rw [hnone]
      exact hold
  · intro before r hprefix hrefused
    rcases List.prefix_concat_iff.mp hprefix with heq | hold
    · obtain ⟨rfl, rfl⟩ := List.append_singleton_inj.mp heq
      rw [hanswer] at hrefused
      simpa using hrefused
    · exact hlimited.refused before r hold hrefused

theorem limited_run (calls : List GuardCall) (hlimited : Limited g past)
    (h : Keeps g past entries)
    (hclock : (past.map (fun r => r.now) ++ calls.map GuardCall.now).Pairwise (· ≤ ·)) :
    Limited g (past ++ g.run entries calls) := by
  induction calls generalizing past entries with
  | nil => simpa [RateGuard.run] using hlimited
  | cons c calls ih =>
    have hnow : ∀ r ∈ past, r.now ≤ c.now := fun r hr =>
      (List.pairwise_append.mp hclock).2.2 _ (List.mem_map_of_mem hr) _ (by simp)
    have hrest := ih (hlimited.step h hnow) (h.step hnow) (by simpa using hclock)
    simpa [RateGuard.run] using hrest

/-- Only the calls and the entries of a project matter for its answers. -/
theorem run_filter (calls : List GuardCall) (hentries : entries p = entries' p) :
    (g.run entries calls).filter (fun r => r.projectID == p) =
      g.run entries' (calls.filter fun c => c.projectID == p) := by
  induction calls generalizing entries entries' with
  | nil => rfl
  | cons c calls ih =>
    by_cases hp : c.projectID = p
    · subst hp
      have hsame : (g.allow entries c).1 = (g.allow entries' c).1 ∧
          (g.allow entries c).2 c.projectID = (g.allow entries' c).2 c.projectID := by
        simp only [RateGuard.allow, hentries]
        split <;> simp
      simp [RateGuard.run, hsame.1, ih hsame.2]
    · have hother : (g.allow entries c).2 p = entries' p := by
        simp only [RateGuard.allow]
        split <;> simp [Function.update_of_ne (Ne.symm hp), hentries]
      simp [RateGuard.run, hp, ih hother]

/-- In every sequence of calls in which the clock does not go back, an interval of the length of
the window has at most `limit` passed calls of a project, a call is refused only if the window
before it has that many, and the answers for a project do not depend on the other calls. -/
theorem rateGuard_limits (g : RateGuard) (calls : List GuardCall)
    (hclock : (calls.map GuardCall.now).Pairwise (· ≤ ·)) :
    (∀ p start, (passedWithin (g.run (fun _ => []) calls) p start (start + g.window) : Int) ≤
        max g.limit 0) ∧
      (∀ before r, before ++ [r] <+: g.run (fun _ => []) calls → r.allowed = false →
        g.limit ≤ passedWithin before r.projectID (r.now - g.window) r.now) ∧
      ∀ p, (g.run (fun _ => []) calls).filter (fun r => r.projectID == p) =
        g.run (fun _ => []) (calls.filter fun c => c.projectID == p) := by
  have hlimited : Limited g ([] ++ g.run (fun _ => []) calls) :=
    limited_run calls ⟨by simp [passedWithin, passed], by simp⟩
      (fun p now _ => by simp [passed]) hclock
  exact ⟨hlimited.atMost, hlimited.refused, fun p => run_filter calls rfl⟩

/-- Two calls pass, a third one in the same window is refused and one of another project is
not; the first call is in the closed window of the last one, which is refused, too. -/
theorem rateGuard_limits_sample :
    (RateGuard.run ⟨2, 10⟩ (fun _ => [])
        [⟨"a", 0⟩, ⟨"a", 5⟩, ⟨"a", 5⟩, ⟨"b", 6⟩, ⟨"a", 10⟩]).map Answered.allowed =
      [true, true, false, true, false] ∧
    (passedWithin (RateGuard.run ⟨2, 10⟩ (fun _ => [])
        [⟨"a", 0⟩, ⟨"a", 5⟩, ⟨"a", 5⟩, ⟨"b", 6⟩, ⟨"a", 10⟩]) "a" 0 (0 + 10) : Int) ≤ max 2 0 :=
  ⟨by decide, (rateGuard_limits ⟨2, 10⟩ _ (by decide)).1 "a" 0⟩

end SophiaOrchestrator.Bootstrap
