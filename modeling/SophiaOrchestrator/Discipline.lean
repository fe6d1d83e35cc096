import SophiaOrchestrator.Domain.Phase

/-!
# Discipline: the envelope validator and the Iron Law checker

The validator decides whether an agent's envelope is acceptable as the result
of a phase; it lowers a `DONE` below the confidence threshold to
`DONE_WITH_CONCERNS`.  The checker reports the Iron Laws that an action would
break, given the latest persisted row of every phase type.
-/

namespace SophiaOrchestrator

inductive ValidationErr where
  | envelope (err : EnvelopeErr)
  | phaseMismatch
  deriving Repr

/-- Parse, cross-check the phase, and apply the confidence coercion. -/
def validateEnvelope (raw : RawEnvelope) (expected : PhaseType) :
    Except ValidationErr Envelope :=
  match Envelope.parse raw with
  | .error err => .error (.envelope err)
  | .ok e =>
    if e.phase ≠ expected.toString then
      .error .phaseMismatch
    else if e.status = .done ∧ e.confidence < expected.confidenceThreshold then
      .ok { e with status := .doneWithConcerns }
    else
      .ok e

/-- The envelope differs from the other one at most in its status. -/
def Envelope.Amends (e₀ e : Envelope) : Prop :=
  e = { e₀ with status := e.status }

theorem Envelope.Amends.trans {e₀ e e' : Envelope} (h : e₀.Amends e) (h' : e.Amends e') :
    e₀.Amends e' := by
  unfold Envelope.Amends at h h' ⊢
  rw [h', h]

theorem Envelope.Amends.artifactsSaved {e₀ e : Envelope} (h : e₀.Amends e) :
    e.artifactsSaved = e₀.artifactsSaved := by
  rw [h]

/-- The validator returns the decoded envelope, possibly with another status. -/
theorem amends_of_validateEnvelope {raw : RawEnvelope} {expected : PhaseType} {e : Envelope}
    (h : validateEnvelope raw expected = .ok e) : ∃ e₀, raw = .json e₀ ∧ e₀.Amends e := by
  unfold validateEnvelope at h
  cases raw with
  | empty | invalid => cases h
  | json e₀ =>
    refine ⟨e₀, rfl, ?_⟩
    simp only [Envelope.parse] at h
    cases hval : e₀.validate with
    | error err =>
      rw [hval] at h
      cases h
    | ok u =>
      rw [hval] at h
      simp only at h
      split_ifs at h with hphase hlow
      · cases h
        rfl
      · cases h
        rfl

/-- An envelope the validator returns is for the expected phase, has a status of
the closed set and a confidence in the unit interval, and reaches the
confidence threshold when it says `DONE`. -/
theorem validateEnvelope_eq_ok {raw : RawEnvelope} {expected : PhaseType}
    {e : Envelope} (h : validateEnvelope raw expected = .ok e) :
    e.phase = expected.toString ∧ e.status.isValid = true ∧
      (0 ≤ e.confidence ∧ e.confidence ≤ 1) ∧
      (e.status = .done → expected.confidenceThreshold ≤ e.confidence) := by
  unfold validateEnvelope at h
  cases hparse : Envelope.parse raw with
  | error err =>
    rw [hparse] at h
    cases h
  | ok e' =>
    obtain ⟨hvalid, hrange⟩ := Envelope.parse_eq_ok hparse
    rw [hparse] at h
    simp only at h
    split_ifs at h with hphase hlow
    · cases h
      exact ⟨not_not.mp hphase, rfl, hrange, by simp⟩
    · cases h
      refine ⟨not_not.mp hphase, hvalid, hrange, ?_⟩
      intro hdone
      by_contra hlt
      exact hlow ⟨hdone, not_le.mp hlt⟩

inductive EnvelopeStatus.Matches : EnvelopeStatus → PhaseStatus → Prop where
  | done : Matches .done .done
  | doneWithConcerns : Matches .doneWithConcerns .doneWithConcerns
  | blocked : Matches .blocked .blocked
  | needsContext : Matches .needsContext .needsContext

theorem EnvelopeStatus.matches_statusOf {status : EnvelopeStatus} (h : status.isValid = true) :
    status.Matches (Phase.statusOf status) := by
  cases status with
  | done => exact .done
  | doneWithConcerns => exact .doneWithConcerns
  | blocked => exact .blocked
  | needsContext => exact .needsContext
  | unknown raw => cases h

theorem status_ne_done_of_low {e₀ e : Envelope} {expected : PhaseType}
    (h : validateEnvelope (.json e₀) expected = .ok e)
    (hlow : e₀.confidence < expected.confidenceThreshold) : e.status ≠ .done := by
  intro hdone
  obtain ⟨e₁, hraw, hamends⟩ := amends_of_validateEnvelope h
  cases hraw
  have hreach : expected.confidenceThreshold ≤ e.confidence :=
    (validateEnvelope_eq_ok h).2.2.2 hdone
  have hconfidence : e.confidence = e₀.confidence := by rw [hamends]
  exact absurd hlow (not_lt.mpr (hconfidence ▸ hreach))

/-- What the validator accepts for a phase type, `Complete` accepts on every running phase of
that type, as returned and after the critic has upgraded a `DONE`; the phase ends in the
status of the envelope, and not in done when the raw `DONE` was below the threshold. -/
theorem complete_of_validateEnvelope (raw : RawEnvelope) (pt : PhaseType) (e : Envelope)
    (p : Phase) (concerns : List Concern) (now : Time) (hvalid : validateEnvelope raw pt = .ok e)
    (hrunning : p.status = .running) (htype : p.pType = pt) :
    (∃ p', p.complete (some e) now = .ok p' ∧ p'.envelope = some e ∧
      e.status.Matches p'.status) ∧
    (e.status = .done →
      ∃ p', (p.setConcerns concerns).complete (some { e with status := .doneWithConcerns }) now =
          .ok p' ∧ p'.status = .doneWithConcerns) ∧
    ∀ e₀, raw = .json e₀ → e₀.status = .done → e₀.confidence < pt.confidenceThreshold →
      ∀ p', p.complete (some e) now = .ok p' → p'.status ≠ .done := by
  subst htype
  obtain ⟨hphase, hstatus, -, hreach⟩ := validateEnvelope_eq_ok hvalid
  refine ⟨⟨_, Phase.complete_eq_ok_iff.mpr ⟨hrunning, hphase, ?_, rfl⟩, rfl,
    EnvelopeStatus.matches_statusOf hstatus⟩, fun hdone => ⟨_, Phase.complete_eq_ok_iff.mpr
      ⟨hrunning, hphase, by simp, rfl⟩, rfl⟩, ?_⟩
  · rintro ⟨hdone, hlow⟩
    exact absurd hlow (not_lt.mpr (hreach hdone))
  · rintro e₀ rfl - hlow p' hcomplete hdone
    obtain ⟨-, -, -, rfl⟩ := Phase.complete_eq_ok_iff.mp hcomplete
    have hne : e.status ≠ .done := status_ne_done_of_low hvalid hlow
    revert hdone
    cases hs : e.status <;> simp_all [Phase.statusOf]

def unsureDone : Envelope where
  schemaVersion := schemaVersionV1
  phase := "spec"
  changeName := "c"
  project := "p"
  status := .done
  confidence := 0
  executiveSummary := ""

def runningSpec : Phase where
  id := ⟨1⟩
  changeID := ⟨1⟩
  pType := .spec
  status := .running
  confidence := 0
  retryBudget := 1
  attempts := 1

/-- The unsure `DONE` completes the running phase, but not as done. -/
theorem complete_unsureDone :
    ∃ p', runningSpec.complete (some { unsureDone with status := .doneWithConcerns }) 2 = .ok p' ∧
      p'.status ≠ .done := by
  have hreturned : validateEnvelope (.json unsureDone) .spec =
      .ok { unsureDone with status := .doneWithConcerns } := rfl
  obtain ⟨⟨p', hcomplete, -, -⟩, -, hlow⟩ :=
    complete_of_validateEnvelope (.json unsureDone) .spec
      { unsureDone with status := .doneWithConcerns } runningSpec [] 2 hreturned rfl rfl
  exact ⟨p', hcomplete, hlow unsureDone rfl rfl (by decide) p' hcomplete⟩

/-! ## Iron Laws -/

inductive IronLawAction where
  | startPhase
  | completePhase
  | runApply
  | runArchive
  | dispatch
  deriving DecidableEq, Repr

inductive IronLaw where
  | il2
  | il3
  | il4
  | il5
  deriving DecidableEq, Repr

/-- The projection of a phase row that the checker reads. -/
structure PhasePredicate where
  status : PhaseStatus
  confidence : ℚ
  deriving DecidableEq, Repr

abbrev PriorPhases : Type := List (PhaseType × PhasePredicate)

def PriorPhases.get? (prior : PriorPhases) (pt : PhaseType) : Option PhasePredicate :=
  (prior.find? fun entry => entry.1 = pt).map (·.2)

structure IronLawContext where
  action : IronLawAction
  priorPhases : PriorPhases
  hasGovernanceDecision : Bool
  taskAttempts : Nat

structure Violation where
  law : IronLaw
  description : String
  deriving DecidableEq, Repr

/-- The phase has been run, is done, and reached its confidence threshold. -/
def PriorPhases.doneWithConfidence (prior : PriorPhases) (pt : PhaseType) : Bool :=
  match prior.get? pt with
  | none => false
  | some pred => pred.status = .done ∧ ¬ pred.confidence < pt.confidenceThreshold

theorem PriorPhases.exists_of_doneWithConfidence {prior : PriorPhases} {pt : PhaseType}
    (h : prior.doneWithConfidence pt = true) :
    ∃ pred, (pt, pred) ∈ prior ∧ pred.status = .done ∧
      pt.confidenceThreshold ≤ pred.confidence := by
  unfold PriorPhases.doneWithConfidence at h
  cases hget : prior.get? pt with
  | none => simp [hget] at h
  | some pred =>
    simp only [hget, decide_eq_true_eq, not_lt] at h
    obtain ⟨entry, hentry, rfl⟩ := Option.map_eq_some_iff.mp hget
    have htype : entry.1 = pt := by simpa using List.find?_some hentry
    refine ⟨entry.2, ?_, h.1, h.2⟩
    rw [← htype]
    exact List.mem_of_find?_eq_some hentry

/-- Run every applicable law and list the violations. -/
def checkIronLaws (ctx : IronLawContext) : List Violation :=
  -- IL2: no apply without tasks done.
  (if ctx.action = .runApply ∧ ctx.priorPhases.doneWithConfidence .tasks = false then
    [⟨.il2, "tasks phase not DONE with confidence ≥ threshold"⟩] else []) ++
  -- IL3: no archive without verify done.
  (if ctx.action = .runArchive ∧ ctx.priorPhases.doneWithConfidence .verify = false then
    [⟨.il3, "verify phase not DONE with confidence ≥ threshold"⟩] else []) ++
  -- IL4: no runtime call without a governance decision.
  (if ctx.action = .dispatch ∧ ctx.hasGovernanceDecision = false then
    [⟨.il4, "no governance decision recorded for dispatch"⟩] else []) ++
  -- IL5: no fourth attempt without escalation.
  (if 3 ≤ ctx.taskAttempts then
    [⟨.il5, "task attempts already at 3; escalate, do not retry"⟩] else [])

/-- The check passes exactly when each law applicable to the action is met. -/
theorem checkIronLaws_eq_nil_iff (ctx : IronLawContext) :
    checkIronLaws ctx = [] ↔
      (ctx.action = .runApply → ctx.priorPhases.doneWithConfidence .tasks = true) ∧
      (ctx.action = .runArchive → ctx.priorPhases.doneWithConfidence .verify = true) ∧
      (ctx.action = .dispatch → ctx.hasGovernanceDecision = true) ∧
      ctx.taskAttempts < 3 := by
  unfold checkIronLaws
  simp only [List.append_eq_nil_iff, ite_eq_right_iff, imp_false,
    not_and, Bool.not_eq_false, not_le, List.cons_ne_nil]
  tauto

end SophiaOrchestrator
