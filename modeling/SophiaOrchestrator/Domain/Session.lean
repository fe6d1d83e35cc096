import SophiaOrchestrator.Domain.Phase

/-!
# Agent sessions

One session is one invocation of an agent: it starts pending, runs, and ends
with the outcome of the dispatch.
-/

namespace SophiaOrchestrator

structure SessionID where
  raw : Nat
  deriving DecidableEq, Repr

inductive SessionStatus where
  | pending
  | running
  | done
  | failed
  | timeout
  deriving DecidableEq, Repr

def SessionStatus.isTerminal : SessionStatus → Bool
  | .done | .failed | .timeout => true
  | .pending | .running => false

inductive AgentRole where
  | teamLead
  | implement
  deriving DecidableEq, Repr

inductive SessionErr where
  | invalidProvider
  | emptyCommand
  | terminal
  | notRunning
  deriving DecidableEq, Repr

structure Session where
  id : SessionID
  changeID : ChangeID
  phaseID : PhaseID
  role : AgentRole
  command : String
  status : SessionStatus
  exitCode : Option Int := none
  envelope : Option Envelope := none
  startedAt : Time
  endedAt : Option Time := none

namespace Session

/-- `session.New`.  The hash of a prompt is never empty. -/
def new (id : SessionID) (changeID : ChangeID) (phaseID : PhaseID) (role : AgentRole)
    (validProvider : Bool) (command : String) (startedAt : Time) : Except SessionErr Session :=
  if validProvider = false then
    .error .invalidProvider
  else if command = "" then
    .error .emptyCommand
  else
    .ok {
      id := id
      changeID := changeID
      phaseID := phaseID
      role := role
      command := command
      status := .pending
      startedAt := startedAt }

def markRunning (s : Session) : Except SessionErr Session :=
  if s.status ≠ .pending then
    .error .terminal
  else
    .ok { s with status := .running }

def recordOutcome (s : Session) (env : Envelope) (exit : Int) (endedAt : Time) :
    Except SessionErr Session :=
  if s.status ≠ .running then
    .error .notRunning
  else
    .ok { s with
      envelope := some env
      exitCode := some exit
      endedAt := some endedAt
      status := if exit = 0 then .done else .failed }

end Session

end SophiaOrchestrator
