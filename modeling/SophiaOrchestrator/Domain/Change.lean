import SophiaOrchestrator.Domain.Phase

/-!
# The Change aggregate and the outbox event

A change is the unit of work driven through the nine phases.  It owns its
lifecycle status and the pointer to the last completed phase.  The outbox event
is the durable record of the `phase.archived` webhook.
-/

namespace SophiaOrchestrator

inductive ChangeStatus where
  | active
  | completed
  | aborted
  deriving DecidableEq, Repr

def ChangeStatus.isTerminal : ChangeStatus → Bool
  | .completed | .aborted => true
  | .active => false

inductive ArtifactStoreMode where
  | memoryEngine
  | openspec
  | hybrid
  | none
  deriving DecidableEq, Repr

structure Change where
  id : ChangeID
  name : String
  project : String
  status : ChangeStatus
  currentPhase : PhaseType
  artifactStore : ArtifactStoreMode
  baseRef : String
  createdAt : Time
  updatedAt : Time
  deriving DecidableEq, Repr

inductive ChangeErr where
  | alreadyTerminal
  | invalidTransition
  | emptyName
  | emptyProject
  deriving DecidableEq, Repr

namespace Change

/-- A fresh change: active, with the pointer at `init`. -/
def new (id : ChangeID) (name project : String) (store : ArtifactStoreMode)
    (baseRef : String) (createdAt : Time) : Except ChangeErr Change :=
  if name = "" then
    .error .emptyName
  else if project = "" then
    .error .emptyProject
  else
    .ok {
      id := id, name := name, project := project
      status := .active, currentPhase := .init
      artifactStore := store, baseRef := baseRef
      createdAt := createdAt, updatedAt := createdAt }

/-- Move the pointer to a valid successor of the current phase. -/
def advancePhase (c : Change) (next : PhaseType) (now : Time) : Except ChangeErr Change :=
  if c.status.isTerminal then
    .error .alreadyTerminal
  else if next ∈ c.currentPhase.nextValid then
    .ok { c with currentPhase := next, updatedAt := now }
  else
    .error .invalidTransition

def markCompleted (c : Change) (now : Time) : Except ChangeErr Change :=
  if c.status.isTerminal then
    .error .alreadyTerminal
  else
    .ok { c with status := .completed, updatedAt := now }

/-- Abort the change; the reason is not recorded on the aggregate. -/
def abort (c : Change) (_reason : String) (now : Time) : Except ChangeErr Change :=
  if c.status.isTerminal then
    .error .alreadyTerminal
  else
    .ok { c with status := .aborted, updatedAt := now }

theorem advancePhase_eq_ok_iff {c c' : Change} {next : PhaseType} {now : Time} :
    c.advancePhase next now = .ok c' ↔
      c.status = .active ∧ next ∈ c.currentPhase.nextValid ∧
        c' = { c with currentPhase := next, updatedAt := now } := by
  unfold advancePhase
  cases hstatus : c.status with
  | active =>
    by_cases hnext : next ∈ c.currentPhase.nextValid
    · simp [ChangeStatus.isTerminal, hnext, eq_comm]
    · simp [ChangeStatus.isTerminal, hnext]
  | completed | aborted => simp [ChangeStatus.isTerminal]

theorem markCompleted_eq_ok_iff {c c' : Change} {now : Time} :
    c.markCompleted now = .ok c' ↔
      c.status = .active ∧ c' = { c with status := .completed, updatedAt := now } := by
  unfold markCompleted
  cases hstatus : c.status <;> simp [ChangeStatus.isTerminal, eq_comm]

theorem abort_eq_ok_iff {c c' : Change} {reason : String} {now : Time} :
    c.abort reason now = .ok c' ↔
      c.status = .active ∧ c' = { c with status := .aborted, updatedAt := now } := by
  unfold abort
  cases hstatus : c.status <;> simp [ChangeStatus.isTerminal, eq_comm]

end Change

/-! ## The outbox event -/

inductive OutboxStatus where
  | pending
  | delivered
  deriving DecidableEq, Repr

inductive OutboxEventType where
  | phaseArchived
  deriving DecidableEq, Repr

structure PhaseArchivedPayload where
  changeID : ChangeID
  changeName : String
  phaseType : PhaseType
  archivedAt : Time
  deriving DecidableEq, Repr

/-- One durable outbound delivery record.  The body is carried verbatim. -/
structure OutboxEvent (Body : Type) where
  id : OutboxID
  eventType : OutboxEventType
  payload : Body
  status : OutboxStatus
  attempts : Nat
  nextAttemptAt : Time
  createdAt : Time
  deliveredAt : Option Time
  deriving DecidableEq, Repr

def OutboxEvent.new {Body : Type} (id : OutboxID) (eventType : OutboxEventType)
    (payload : Body) (createdAt : Time) : OutboxEvent Body where
  id := id
  eventType := eventType
  payload := payload
  status := .pending
  attempts := 0
  nextAttemptAt := createdAt
  createdAt := createdAt
  deliveredAt := none

/-! ## A change for concrete runs -/

def sampleChange (current : PhaseType) : Change where
  id := ⟨1⟩
  name := "add-login"
  project := "web"
  status := .active
  currentPhase := current
  artifactStore := .memoryEngine
  baseRef := "main"
  createdAt := 0
  updatedAt := 0

end SophiaOrchestrator
