import SophiaOrchestrator.Phase.Ops
import SophiaOrchestrator.Apply.Store
import SophiaOrchestrator.Apply.TasksList

/-!
# The state of the apply service

An `Execute` starts one goroutine for each group of its board, and the team-lead
of a group one for each task.  They share memory: the contexts and the quota
breaker of the `Execute`, its dependency channels and group slots, its wait group
and the map of results, and for each team-lead its implement slots, wait group
and task outcomes.  All of it is lost in a crash; the database and the counter of
the spawn governor are not.

A goroutine is numbered when it is started, and a team-lead's memory is found
under the number of its goroutine.
-/

namespace SophiaOrchestrator.Apply

open Sql

structure RunConfig where
  maxParallelGroups : Nat := 2
  maxParallelImplementsPerGroup : Nat := 2
  worktreeRoot : String := "/tmp/sophia/worktrees"
  sourceRepoPath : String := ""
  worktreeInitEmpty : Bool := false
  targetPath : String := ""
  fallbackModel : String := ""
  quotaBreakerThreshold : Int := 0
  validProvider : Bool := true
  spawnMax : Nat := 6

/-! ## Errors -/

inductive GroupErr where
  | ctx
  | unknownDep (dep : GroupID)
  | dependencyTimeout (dep : GroupID)
  | saturated
  | governor (text : String)
  | groupStart (err : BoardErr)
  | saveGroup (err : RepoErr)
  | session (text : String)
  | groupFailed
  deriving DecidableEq, Repr

structure QuotaErr where
  provider : String
  model : String
  retryAfterSeconds : Int
  evidence : String
  deriving DecidableEq, Repr

/-! ## Shared memory -/

structure GroupOutcome where
  failed : Bool
  err : Option GroupErr := none
  tasksDone : Nat := 0
  deriving DecidableEq, Repr

/-- The value that a group signals to its dependents. -/
structure GroupResult where
  failed : Bool
  err : Option GroupErr
  deriving DecidableEq, Repr

/-- A dependency channel with room for one value. -/
inductive Channel where
  | absent
  | empty
  | full (result : GroupResult)
  deriving DecidableEq, Repr

structure QuotaBreaker where
  streak : Nat := 0
  threshold : Nat
  tripped : Bool := false
  lastQuotaErr : Option QuotaErr := none

/-- The memory of one `Execute`.  A wait group is the list of the goroutines that
were added to it and are not done. -/
structure Exec where
  /-- The context that was passed in is done. -/
  parentDone : Bool := false
  /-- The context of the `Execute` was cancelled by its breaker. -/
  cancelled : Bool := false
  breaker : QuotaBreaker := { threshold := 0 }
  channels : GroupID → Channel := fun _ => .absent
  groupSlots : Nat := 0
  outstanding : List Nat := []
  results : GroupID → Option GroupOutcome := fun _ => none

structure Team where
  implSlots : Nat := 0
  outstanding : List Nat := []
  outcomes : List (TaskID × Bool) := []

inductive Goroutine where
  | group (x index : Nat) (c : Change) (p : Phase) (g : Group)
  | task (x team : Nat) (c : Change) (p : Phase) (g : Group) (t : Task)

structure State where
  db : BoardStore := .empty
  sessions : SessionTable := .empty
  /-- The persisted counter of the spawn governor. -/
  active : Nat := 0
  execs : Nat → Exec := fun _ => {}
  nextExec : Nat := 0
  teams : Nat → Team := fun _ => {}
  /-- Every goroutine ever started, by its number. -/
  posted : List Goroutine := []
  ready : List Nat := []
  begun : List Nat := []
  running : List Nat := []
  /-- The field of the service that every `Execute` overwrites. -/
  priorPhasesStatus : List (PhaseType × String) := []

namespace State

def modifyExec (s : State) (x : Nat) (f : Exec → Exec) : State :=
  { s with execs := Function.update s.execs x (f (s.execs x)) }

def modifyTeam (s : State) (k : Nat) (f : Team → Team) : State :=
  { s with teams := Function.update s.teams k (f (s.teams k)) }

def spawn (s : State) (gr : Goroutine) : State :=
  let k := s.posted.length
  let s := { s with posted := s.posted ++ [gr], ready := s.ready ++ [k] }
  match gr with
  | .group x _ _ _ _ => s.modifyExec x fun e => { e with outstanding := e.outstanding ++ [k] }
  | .task _ team _ _ _ _ =>
    s.modifyTeam team fun m => { m with outstanding := m.outstanding ++ [k] }

def finish (s : State) (k : Nat) : State :=
  { s with begun := s.begun.filter (· ≠ k) }

/-- After a crash nothing runs; no thread is left to read the rest of the memory. -/
def crash (s : State) : State :=
  { s with ready := [], begun := [], running := [] }

end State

/-- The context a call is made with: the one passed to `Execute`, or its own. -/
inductive Ctx where
  | parent (x : Nat)
  | exec (x : Nat)
  deriving DecidableEq, Repr

def State.ctxDone (s : State) : Ctx → Bool
  | .parent x => (s.execs x).parentDone
  | .exec x => (s.execs x).parentDone || (s.execs x).cancelled

/-! ## The quota breaker -/

def Exec.recordQuotaOutcome (e : Exec) (err : QuotaErr) : Bool × Exec :=
  if e.breaker.tripped then
    (false, e)
  else
    let breaker := { e.breaker with streak := e.breaker.streak + 1, lastQuotaErr := some err }
    if breaker.threshold ≤ breaker.streak then
      (true, { e with breaker := { breaker with tripped := true }, cancelled := true })
    else
      (false, { e with breaker := breaker })

def Exec.recordSuccess (e : Exec) : Exec :=
  { e with breaker := { e.breaker with streak := 0 } }

/-! ## Task outcomes -/

def Team.setOutcome (m : Team) (id : TaskID) (success : Bool) : Team :=
  { m with outcomes := (m.outcomes.filter fun entry => decide (entry.1 ≠ id)) ++ [(id, success)] }

end SophiaOrchestrator.Apply
