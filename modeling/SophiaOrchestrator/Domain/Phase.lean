import SophiaOrchestrator.Domain.Envelope

/-!
# The Phase aggregate

One execution of a phase of the canonical lifecycle

  init → explore → proposal → spec → design → tasks → apply → verify → archive

with its state machine, its retry budget and its confidence gate.  Every
transition of the aggregate either returns the new phase or refuses and leaves
the phase as it is.
-/

namespace SophiaOrchestrator

inductive PhaseType where
  | init
  | explore
  | proposal
  | spec
  | design
  | tasks
  | apply
  | verify
  | archive
  deriving DecidableEq, Repr

namespace PhaseType

def all : List PhaseType :=
  [.init, .explore, .proposal, .spec, .design, .tasks, .apply, .verify, .archive]

def toString : PhaseType → String
  | .init => "init"
  | .explore => "explore"
  | .proposal => "proposal"
  | .spec => "spec"
  | .design => "design"
  | .tasks => "tasks"
  | .apply => "apply"
  | .verify => "verify"
  | .archive => "archive"

def nextValid : PhaseType → List PhaseType
  | .init => [.explore]
  | .explore => [.proposal]
  | .proposal => [.spec]
  | .spec => [.design]
  | .design => [.tasks]
  | .tasks => [.apply]
  | .apply => [.verify]
  | .verify => [.archive]
  | .archive => []

def confidenceThreshold : PhaseType → ℚ
  | .explore => mkRat 1 2
  | .proposal | .design | .apply => mkRat 7 10
  | .spec | .tasks => mkRat 8 10
  | .verify | .archive => mkRat 9 10
  | .init => 0

def rank : PhaseType → Nat
  | .init => 0
  | .explore => 1
  | .proposal => 2
  | .spec => 3
  | .design => 4
  | .tasks => 5
  | .apply => 6
  | .verify => 7
  | .archive => 8

theorem rank_injective : Function.Injective rank := by
  intro a b h
  cases a <;> cases b <;> first | rfl | cases h

/-- The lifecycle is strictly sequential: a successor is one step further. -/
theorem rank_of_mem_nextValid {current next : PhaseType}
    (h : next ∈ current.nextValid) : next.rank = current.rank + 1 := by
  cases current <;> simp only [nextValid, List.mem_singleton, List.not_mem_nil] at h <;>
    subst h <;> rfl

end PhaseType

inductive PhaseStatus where
  | pending
  | running
  | done
  | doneWithConcerns
  | blocked
  | needsContext
  | interrupted
  deriving DecidableEq, Repr

namespace PhaseStatus

/-- No further transition is allowed.  `needsContext` and `interrupted` are not
terminal: the phase may be retried or resumed. -/
def isTerminal : PhaseStatus → Bool
  | .done | .doneWithConcerns | .blocked => true
  | _ => false

def advanceAllowed : PhaseStatus → Bool
  | .done | .doneWithConcerns => true
  | _ => false

theorem advanceAllowed_iff {status : PhaseStatus} :
    status.advanceAllowed = true ↔ status = .done ∨ status = .doneWithConcerns := by
  cases status <;> decide

end PhaseStatus

structure Concern where
  severity : String
  category : String
  message : String
  evidence : String
  deriving DecidableEq, Repr

/-- The values that a confidence takes, with the test against a threshold. -/
class Confidence (F : Type) where
  zero : F
  below : F → ℚ → Bool

instance : Confidence ℚ where
  zero := 0
  below confidence threshold := decide (confidence < threshold)

structure Phase (F : Type := ℚ) where
  id : PhaseID
  changeID : ChangeID
  pType : PhaseType
  status : PhaseStatus
  envelope : Option (Envelope F) := none
  confidence : F
  retryBudget : Nat
  attempts : Nat
  startedAt : Option Time := none
  completedAt : Option Time := none
  concerns : List Concern := []
  deriving Repr

inductive PhaseErr where
  | terminal
  | notRunning
  | budgetExhausted
  | belowThreshold
  | envelopeNil
  | envelopeMismatch
  | notBlocked
  deriving DecidableEq, Repr

namespace Phase

variable {F : Type}

def setConcerns (p : Phase F) (concerns : List Concern) : Phase F :=
  { p with concerns := concerns }

/-- Enter `running` and consume one attempt. -/
def start (p : Phase F) (now : Time) : Except PhaseErr (Phase F) :=
  if p.status.isTerminal then
    .error .terminal
  else if p.retryBudget ≤ p.attempts then
    .error .budgetExhausted
  else
    .ok { p with status := .running, attempts := p.attempts + 1, startedAt := some now }

/-- The status that an accepted envelope leads to.  A status outside the closed
set matches no case of the switch and leaves the phase running. -/
def statusOf : EnvelopeStatus → PhaseStatus
  | .done => .done
  | .doneWithConcerns => .doneWithConcerns
  | .blocked => .blocked
  | .needsContext => .needsContext
  | .unknown _ => .running

/-- Finish a running phase with an envelope.  The envelope must be for this
phase type, and a `done` envelope must reach the confidence threshold. -/
def complete [Confidence F] (p : Phase F) (e : Option (Envelope F)) (now : Time) :
    Except PhaseErr (Phase F) :=
  if p.status ≠ .running then
    .error .notRunning
  else
    match e with
    | none => .error .envelopeNil
    | some e =>
      if e.phase ≠ p.pType.toString then
        .error .envelopeMismatch
      else if e.status = .done ∧ Confidence.below e.confidence p.pType.confidenceThreshold then
        .error .belowThreshold
      else
        .ok { p with
          envelope := some e
          confidence := e.confidence
          completedAt := some now
          status := statusOf e.status }

def markInterrupted (p : Phase F) : Except PhaseErr (Phase F) :=
  if p.status.isTerminal then .error .terminal else .ok { p with status := .interrupted }

/-- Take a blocked phase back to `running`, consuming one attempt and clearing
the outcome of the previous one. -/
def restart [Confidence F] (p : Phase F) (now : Time) : Except PhaseErr (Phase F) :=
  if p.status ≠ .blocked then
    if p.status.isTerminal then .error .terminal else .error .notBlocked
  else if p.retryBudget ≤ p.attempts then
    .error .budgetExhausted
  else
    .ok { p with
      status := .running
      attempts := p.attempts + 1
      startedAt := some now
      completedAt := none
      envelope := none
      confidence := Confidence.zero }

/-! ## What the transitions can do -/

theorem start_eq_ok_iff {p p' : Phase F} {now : Time} :
    p.start now = .ok p' ↔
      p.status.isTerminal = false ∧ p.attempts < p.retryBudget ∧
        p' = { p with status := .running, attempts := p.attempts + 1,
                      startedAt := some now } := by
  unfold start
  by_cases hterm : p.status.isTerminal = true
  · simp [hterm]
  · by_cases hbudget : p.retryBudget ≤ p.attempts
    · simp [hterm, hbudget]
    · have hlt : p.attempts < p.retryBudget := by omega
      simp [hterm, hbudget, hlt, eq_comm]

theorem complete_some_eq_ok_iff [Confidence F] {p p' : Phase F} {e : Envelope F} {now : Time} :
    p.complete (some e) now = .ok p' ↔
      p.status = .running ∧ e.phase = p.pType.toString ∧
        ¬ (e.status = .done ∧ Confidence.below e.confidence p.pType.confidenceThreshold) ∧
        p' = { p with envelope := some e, confidence := e.confidence,
                      completedAt := some now, status := statusOf e.status } := by
  unfold complete
  by_cases hrun : p.status = .running
  · by_cases hphase : e.phase = p.pType.toString
    · by_cases hlow : e.status = .done ∧ Confidence.below e.confidence p.pType.confidenceThreshold
      · simp [hrun, hphase, hlow]
      · rw [if_neg (not_not.mpr hrun)]
        simp only [hphase, ne_eq, not_true, if_false, hrun, true_and,
          Except.ok.injEq, not_false_eq_true, hlow]
        exact eq_comm
    · simp [hrun, hphase]
  · simp [hrun]

theorem complete_eq_ok_iff {p p' : Phase} {e : Envelope} {now : Time} :
    p.complete (some e) now = .ok p' ↔
      p.status = .running ∧ e.phase = p.pType.toString ∧
        ¬ (e.status = .done ∧ e.confidence < p.pType.confidenceThreshold) ∧
        p' = { p with envelope := some e, confidence := e.confidence,
                      completedAt := some now, status := statusOf e.status } := by
  rw [complete_some_eq_ok_iff]
  simp only [Confidence.below, decide_eq_true_eq]

theorem restart_eq_ok_iff [Confidence F] {p p' : Phase F} {now : Time} :
    p.restart now = .ok p' ↔
      p.status = .blocked ∧ p.attempts < p.retryBudget ∧
        p' = { p with status := .running, attempts := p.attempts + 1,
                      startedAt := some now, completedAt := none,
                      envelope := none, confidence := Confidence.zero } := by
  unfold restart
  by_cases hblocked : p.status = .blocked
  · by_cases hbudget : p.retryBudget ≤ p.attempts
    · simp [hblocked, hbudget]
    · have hlt : p.attempts < p.retryBudget := by omega
      simp [hblocked, hbudget, hlt, eq_comm]
  · by_cases hterm : p.status.isTerminal = true
    · simp [hblocked, hterm]
    · simp [hblocked, hterm]

theorem complete_key {p p' : Phase} {e : Envelope} {now : Time}
    (h : p.complete (some e) now = .ok p') :
    p'.id = p.id ∧ p'.changeID = p.changeID ∧ p'.pType = p.pType ∧
      p'.attempts = p.attempts := by
  obtain ⟨-, -, -, rfl⟩ := complete_eq_ok_iff.mp h
  exact ⟨rfl, rfl, rfl, rfl⟩

end Phase

end SophiaOrchestrator
