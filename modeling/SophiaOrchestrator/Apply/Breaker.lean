import SophiaOrchestrator.Apply.Changes

/-!
# The quota circuit breaker

The breaker of an `Execute` counts the quota outcomes since the last success.  When the
count reaches the threshold it trips and calls the cancel function of the context.
-/

namespace SophiaOrchestrator.Apply

open Effects

variable {threshold : Nat}

/-! ## Calls -/

inductive BreakerCall where
  | quota (err : QuotaErr)
  | success
  deriving DecidableEq

variable {calls : List BreakerCall}

def BreakerCall.isQuota : BreakerCall → Bool
  | .quota _ => true
  | .success => false

/-- What a call does: its answer, whether it calls the cancel function, and the breaker
after it. -/
structure BreakerStep where
  returned : Bool := false
  cancels : Bool := false
  breaker : QuotaBreaker

namespace QuotaBreaker

def recordQuotaOutcome (b : QuotaBreaker) (err : QuotaErr) : BreakerStep :=
  if b.tripped then
    { breaker := b }
  else
    let b := { b with streak := b.streak + 1, lastQuotaErr := some err }
    if b.threshold ≤ b.streak then
      { returned := true, cancels := true, breaker := { b with tripped := true } }
    else
      { breaker := b }

def recordSuccess (b : QuotaBreaker) : BreakerStep :=
  { breaker := { b with streak := 0 } }

def step (b : QuotaBreaker) : BreakerCall → BreakerStep
  | .quota err => b.recordQuotaOutcome err
  | .success => b.recordSuccess

def after (b : QuotaBreaker) (calls : List BreakerCall) : QuotaBreaker :=
  calls.foldl (fun b call => (b.step call).breaker) b

def steps (b : QuotaBreaker) : List BreakerCall → List BreakerStep
  | [] => []
  | call :: calls => b.step call :: (b.step call).breaker.steps calls

theorem after_concat (b : QuotaBreaker) (calls : List BreakerCall) (call : BreakerCall) :
    b.after (calls ++ [call]) = ((b.after calls).step call).breaker := by
  simp [after]

theorem steps_concat (b : QuotaBreaker) (calls : List BreakerCall) (call : BreakerCall) :
    b.steps (calls ++ [call]) = b.steps calls ++ [(b.after calls).step call] := by
  induction calls generalizing b with
  | nil => rfl
  | cons c calls ih => simp [steps, after, ih]

end QuotaBreaker

/-! ## The calls on an Execute -/

def Exec.afterCall (e : Exec) (call : BreakerCall) : Exec :=
  { e with
    breaker := (e.breaker.step call).breaker
    cancelled := e.cancelled || (e.breaker.step call).cancels }

theorem recordQuotaOutcome_eq (e : Exec) (err : QuotaErr) :
    e.recordQuotaOutcome err =
      ((e.breaker.recordQuotaOutcome err).returned, e.afterCall (.quota err)) := by
  unfold Exec.recordQuotaOutcome Exec.afterCall QuotaBreaker.step QuotaBreaker.recordQuotaOutcome
  by_cases htripped : e.breaker.tripped = true
  · simp [htripped]
  · simp only [htripped, Bool.false_eq_true, if_false]
    split
    · simp
    · simp

theorem recordSuccess_eq (e : Exec) : e.recordSuccess = e.afterCall .success := by
  simp [Exec.recordSuccess, Exec.afterCall, QuotaBreaker.step, QuotaBreaker.recordSuccess]

/-! ## The history of the calls -/

/-- The calls contain as many quota outcomes as the threshold, with no success between
them. -/
def Exhausted (threshold : Nat) (calls : List BreakerCall) : Prop :=
  ∃ block, block <:+: calls ∧ block.length = threshold ∧ ∀ call ∈ block, call.isQuota = true

/-- The number of quota outcomes since the last success. -/
def trailing (calls : List BreakerCall) : Nat :=
  calls.foldl (fun n call => if call.isQuota then n + 1 else 0) 0

theorem trailing_concat (calls : List BreakerCall) (call : BreakerCall) :
    trailing (calls ++ [call]) = if call.isQuota then trailing calls + 1 else 0 := by
  simp [trailing]

theorem le_trailing_iff {n : Nat} :
    n ≤ trailing calls ↔
      ∃ block, block <:+ calls ∧ block.length = n ∧ ∀ call ∈ block, call.isQuota = true := by
  induction calls using List.reverseRecOn generalizing n with
  | nil =>
    constructor
    · intro hle
      exact ⟨[], List.suffix_rfl, (Nat.le_zero.mp hle).symm, by simp⟩
    · rintro ⟨block, hblock, rfl, -⟩
      simp [List.suffix_nil.mp hblock]
  | append_singleton calls call ih =>
    rw [trailing_concat]
    constructor
    · intro hle
      cases n with
      | zero => exact ⟨[], List.nil_suffix, rfl, by simp⟩
      | succ n =>
        by_cases hquota : call.isQuota = true
        · rw [if_pos hquota] at hle
          obtain ⟨block, hblock, hlength, hall⟩ := ih.mp (Nat.le_of_succ_le_succ hle)
          refine ⟨block ++ [call], ?_, by simp [hlength], ?_⟩
          · exact List.suffix_concat_iff.mpr (.inr ⟨block, rfl, hblock⟩)
          · intro c hc
            rcases List.mem_append.mp hc with hc | hc
            · exact hall c hc
            · rwa [List.mem_singleton.mp hc]
        · rw [if_neg hquota] at hle
          exact absurd hle (Nat.not_succ_le_zero n)
    · rintro ⟨block, hblock, rfl, hall⟩
      rcases List.suffix_concat_iff.mp hblock with rfl | ⟨older, rfl, holder⟩
      · exact Nat.zero_le _
      · have hquota : call.isQuota = true := hall call (by simp)
        rw [if_pos hquota, List.length_append, List.length_singleton]
        refine Nat.succ_le_succ (ih.mpr ⟨older, holder, rfl, fun c hc => hall c ?_⟩)
        exact List.mem_append_left _ hc

/-- A further call exhausts the threshold if it was exhausted before, or by the quota
outcomes since the last success. -/
theorem exhausted_concat_iff {call : BreakerCall} :
    Exhausted threshold (calls ++ [call]) ↔
      Exhausted threshold calls ∨ threshold ≤ trailing (calls ++ [call]) := by
  rw [le_trailing_iff]
  constructor
  · rintro ⟨block, hblock, hrest⟩
    rcases List.infix_concat_iff.mp hblock with hsuffix | hinfix
    · exact .inr ⟨block, hsuffix, hrest⟩
    · exact .inl ⟨block, hinfix, hrest⟩
  · rintro (⟨block, hblock, hrest⟩ | ⟨block, hblock, hrest⟩)
    · exact ⟨block, List.infix_concat_iff.mpr (.inr hblock), hrest⟩
    · exact ⟨block, hblock.isInfix, hrest⟩

theorem Exhausted.append (h : Exhausted threshold calls) (later : List BreakerCall) :
    Exhausted threshold (calls ++ later) := by
  obtain ⟨block, hblock, hrest⟩ := h
  exact ⟨block, hblock.trans (List.infix_append' [] calls later), hrest⟩

/-! ## One trip -/

structure Counted (threshold : Nat) (calls : List BreakerCall) (b : QuotaBreaker) : Prop where
  threshold_eq : b.threshold = threshold
  tripped_iff : b.tripped = true ↔ Exhausted threshold calls
  streak_eq : b.tripped = false → b.streak = trailing calls

/-- What one call does, in terms of the calls before it. -/
structure TripStep (threshold : Nat) (before : List BreakerCall) (call : BreakerCall)
    (st : BreakerStep) : Prop where
  counted : Counted threshold (before ++ [call]) st.breaker
  cancels_iff : st.cancels = true ↔
    ¬Exhausted threshold before ∧ Exhausted threshold (before ++ [call])
  returned_eq : st.returned = st.cancels

section

variable {b : QuotaBreaker}

theorem counted_nil (hpos : 0 < threshold) :
    Counted threshold [] ({ threshold := threshold } : QuotaBreaker) where
  threshold_eq := rfl
  tripped_iff := by
    simp only [Bool.false_eq_true, false_iff]
    rintro ⟨block, hblock, hlength, -⟩
    rw [List.infix_nil.mp hblock, List.length_nil] at hlength
    omega
  streak_eq _ := rfl

theorem Counted.step_of_tripped (h : Counted threshold calls b) (htripped : b.tripped = true)
    (call : BreakerCall) : TripStep threshold calls call (b.step call) := by
  have hexhausted := h.tripped_iff.mp htripped
  have hlater : Exhausted threshold (calls ++ [call]) := hexhausted.append [call]
  have hstep : (b.step call).breaker.tripped = true ∧
      (b.step call).breaker.threshold = b.threshold ∧ (b.step call).cancels = false ∧
      (b.step call).returned = false := by
    cases call with
    | quota err => simp [QuotaBreaker.step, QuotaBreaker.recordQuotaOutcome, htripped]
    | success => exact ⟨htripped, rfl, rfl, rfl⟩
  obtain ⟨hstays, hthreshold, hcancels, hreturned⟩ := hstep
  refine ⟨⟨hthreshold.trans h.threshold_eq, ?_, ?_⟩, ?_, ?_⟩
  · simp [hstays, hlater]
  · rw [hstays]
    intro hfalse
    cases hfalse
  · simp [hcancels, hexhausted]
  · rw [hreturned, hcancels]

theorem Counted.step_quota (h : Counted threshold calls b) (htripped : b.tripped = false)
    (err : QuotaErr) : TripStep threshold calls (.quota err) (b.step (.quota err)) := by
  have hfresh : ¬Exhausted threshold calls := by
    rw [← h.tripped_iff, htripped]
    exact Bool.false_ne_true
  have htrailing : trailing (calls ++ [.quota err]) = b.streak + 1 := by
    rw [trailing_concat, h.streak_eq htripped]
    rfl
  have hexhausted : Exhausted threshold (calls ++ [.quota err]) ↔ b.threshold ≤ b.streak + 1 := by
    rw [exhausted_concat_iff, htrailing, h.threshold_eq]
    exact or_iff_right hfresh
  by_cases hreached : b.threshold ≤ b.streak + 1
  · have hstep : b.step (.quota err) =
      ⟨true, true, ⟨b.streak + 1, b.threshold, true, some err⟩⟩ := by
      simp [QuotaBreaker.step, QuotaBreaker.recordQuotaOutcome, htripped, hreached]
    rw [hstep]
    refine ⟨⟨h.threshold_eq, ?_, ?_⟩, ?_, rfl⟩
    · simp [hexhausted, hreached]
    · intro hfalse
      cases hfalse
    · simp [hexhausted, hreached, hfresh]
  · have hstep : b.step (.quota err) =
        ⟨false, false, ⟨b.streak + 1, b.threshold, b.tripped, some err⟩⟩ := by
      simp [QuotaBreaker.step, QuotaBreaker.recordQuotaOutcome, htripped, hreached]
    rw [hstep]
    refine ⟨⟨h.threshold_eq, ?_, fun _ => htrailing.symm⟩, ?_, rfl⟩
    · simp [hexhausted, hreached, htripped]
    · simp [hexhausted, hreached]

theorem Counted.step_success (h : Counted threshold calls b) (hpos : 0 < threshold) :
    TripStep threshold calls .success (b.step .success) := by
  have htrailing : trailing (calls ++ [.success]) = 0 := by
    rw [trailing_concat]
    rfl
  have hexhausted : Exhausted threshold (calls ++ [.success]) ↔ Exhausted threshold calls := by
    rw [exhausted_concat_iff, htrailing]
    exact or_iff_left (Nat.not_le.mpr hpos)
  refine ⟨⟨h.threshold_eq, ?_, fun _ => htrailing.symm⟩, ?_, rfl⟩
  · rw [hexhausted]
    exact h.tripped_iff
  · rw [hexhausted]
    simp [QuotaBreaker.step, QuotaBreaker.recordSuccess]

theorem Counted.step (h : Counted threshold calls b) (hpos : 0 < threshold) (call : BreakerCall) :
    TripStep threshold calls call (b.step call) := by
  cases htripped : b.tripped with
  | true => exact h.step_of_tripped htripped call
  | false =>
    cases call with
    | quota err => exact h.step_quota htripped err
    | success => exact h.step_success hpos

theorem counted_after (hpos : 0 < threshold) (calls : List BreakerCall) :
    Counted threshold calls (QuotaBreaker.after { threshold := threshold } calls) := by
  induction calls using List.reverseRecOn with
  | nil => exact counted_nil hpos
  | append_singleton calls call ih =>
    rw [QuotaBreaker.after_concat]
    exact (ih.step hpos call).counted

open Classical in
/-- The cancel function is called once if the threshold was exhausted, and not at all if it
was not. -/
theorem countP_cancels (hpos : 0 < threshold) (calls : List BreakerCall) :
    (QuotaBreaker.steps { threshold := threshold } calls).countP BreakerStep.cancels =
      if Exhausted threshold calls then 1 else 0 := by
  induction calls using List.reverseRecOn with
  | nil =>
    have hfresh := (counted_nil hpos).tripped_iff
    rw [if_neg (by rw [← hfresh]; exact Bool.false_ne_true)]
    rfl
  | append_singleton calls call ih =>
    have hcall := (counted_after hpos calls).step hpos call
    rw [QuotaBreaker.steps_concat, List.countP_append, List.countP_singleton, ih]
    by_cases hbefore : Exhausted threshold calls
    · have hno : ¬(((QuotaBreaker.after { threshold := threshold } calls).step call).cancels =
          true) := by
        rw [hcall.cancels_iff]
        exact fun hnew => hnew.1 hbefore
      rw [if_pos hbefore, if_neg hno, if_pos (hbefore.append [call])]
    · rw [if_neg hbefore, Nat.zero_add]
      refine if_congr ?_ rfl rfl
      rw [hcall.cancels_iff]
      exact and_iff_right hbefore

end

theorem countP_returned (hpos : 0 < threshold) (calls : List BreakerCall) :
    (QuotaBreaker.steps { threshold := threshold } calls).countP BreakerStep.returned =
      (QuotaBreaker.steps { threshold := threshold } calls).countP BreakerStep.cancels := by
  induction calls using List.reverseRecOn with
  | nil => rfl
  | append_singleton calls call ih =>
    rw [QuotaBreaker.steps_concat, List.countP_append, List.countP_append, ih,
      List.countP_singleton, List.countP_singleton,
      ((counted_after hpos calls).step hpos call).returned_eq]

/-- For every positive threshold and every sequence of calls: the breaker has tripped exactly
if the calls contain as many quota outcomes as the threshold with no success between them;
the call that first completes such a block, and no other one, calls the cancel function and
answers true, so both happen exactly once if there is such a block and never otherwise; and
whatever is called later, the breaker stays tripped. -/
theorem breaker_trips_once (threshold : Nat) (hpos : 0 < threshold) (calls : List BreakerCall) :
    let b : QuotaBreaker := { threshold := threshold }
    ((b.after calls).tripped = true ↔ Exhausted threshold calls) ∧
      (∀ before call later, calls = before ++ call :: later →
        let st := (b.after before).step call
        (st.cancels = true ↔
          ¬Exhausted threshold before ∧ Exhausted threshold (before ++ [call])) ∧
        st.returned = st.cancels ∧ (st.cancels = true → st.breaker.tripped = true)) ∧
      (Exhausted threshold calls →
        (b.steps calls).countP BreakerStep.cancels = 1 ∧
        (b.steps calls).countP BreakerStep.returned = 1) ∧
      (¬Exhausted threshold calls →
        (b.steps calls).countP BreakerStep.cancels = 0 ∧
        (b.steps calls).countP BreakerStep.returned = 0) ∧
      ∀ later, (b.after calls).tripped = true → (b.after (calls ++ later)).tripped = true := by
  intro b
  have hcount := countP_cancels hpos calls
  have hreturned := countP_returned hpos calls
  refine ⟨(counted_after hpos calls).tripped_iff, ?_, ?_, ?_, ?_⟩
  · rintro before call later -
    have hcall := (counted_after hpos before).step hpos call
    refine ⟨hcall.cancels_iff, hcall.returned_eq, fun hcancels => ?_⟩
    exact hcall.counted.tripped_iff.mpr (hcall.cancels_iff.mp hcancels).2
  · intro hexhausted
    rw [if_pos hexhausted] at hcount
    exact ⟨hcount, hreturned.trans hcount⟩
  · intro hfresh
    rw [if_neg hfresh] at hcount
    exact ⟨hcount, hreturned.trans hcount⟩
  · intro later htripped
    rw [(counted_after hpos calls).tripped_iff] at htripped
    exact (counted_after hpos (calls ++ later)).tripped_iff.mpr (htripped.append later)

def sampleQuotaErr : QuotaErr :=
  ⟨"provider", "model", 60, "429"⟩

/-- A success between two quota outcomes, and calls after the trip. -/
def sampleCalls : List BreakerCall :=
  [.quota sampleQuotaErr, .success, .quota sampleQuotaErr, .quota sampleQuotaErr, .success,
    .quota sampleQuotaErr]

theorem breaker_trips_once_sampleCalls :
    0 < 2 ∧ Exhausted 2 sampleCalls ∧
      (QuotaBreaker.steps { threshold := 2 } sampleCalls).map BreakerStep.cancels =
        [false, false, false, true, false, false] ∧
      (QuotaBreaker.steps { threshold := 2 } sampleCalls).countP BreakerStep.returned = 1 := by
  have hall := breaker_trips_once 2 Nat.two_pos sampleCalls
  have hexhausted : Exhausted 2 sampleCalls := hall.1.mp rfl
  exact ⟨Nat.two_pos, hexhausted, rfl, (hall.2.2.1 hexhausted).2⟩

end SophiaOrchestrator.Apply
