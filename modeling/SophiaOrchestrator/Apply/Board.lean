import SophiaOrchestrator.Domain.Session
import Mathlib.Logic.Function.Basic

/-!
# The apply board

The aggregates of the apply phase.  A board holds groups, a group holds tasks,
and groups depend on each other by id.  A transition of the source that changes
its receiver and also returns an error is a function to a pair here.
-/

namespace SophiaOrchestrator.Apply

structure BoardID where
  raw : Nat
  deriving DecidableEq, Repr

structure GroupID where
  raw : Nat
  deriving DecidableEq, Repr

structure TaskID where
  raw : Nat
  deriving DecidableEq, Repr

inductive BoardStatus where
  | building
  | running
  | completed
  | failed
  deriving DecidableEq, Repr

inductive GroupStatus where
  | pending
  | running
  | completed
  | failed
  deriving DecidableEq, Repr

/-- The build gate of a group, orthogonal to its status. -/
inductive GroupBuildStatus where
  | pending
  | skipped
  | passed
  | failed
  deriving DecidableEq, Repr

inductive TaskStatus where
  | pending
  | claimed
  | running
  | done
  | failed
  | blocked
  deriving DecidableEq, Repr

inductive BoardErr where
  | invalidBoardTransition
  | invalidGroupTransition
  | invalidGroupBuildTransition
  | invalidTaskTransition
  | escalationRequired
  | buildBudgetExhausted
  | cycle
  | emptyDescription
  | emptyFilesPattern
  deriving DecidableEq, Repr

/-- Three failures, and a task is blocked. -/
def maxAttempts : Nat := 3

/-! ## Tasks -/

structure Task where
  id : TaskID
  groupID : GroupID
  description : String
  filesPattern : List String
  status : TaskStatus
  claimedBy : Option SessionID := none
  attempts : Nat := 0
  envelope : Option Envelope := none

namespace Task

def new (id : TaskID) (groupID : GroupID) (description : String)
    (filesPattern : List String) : Except BoardErr Task :=
  if description = "" then
    .error .emptyDescription
  else if filesPattern = [] then
    .error .emptyFilesPattern
  else
    .ok {
      id := id
      groupID := groupID
      description := description
      filesPattern := filesPattern
      status := .pending }

theorem eq_of_new {id : TaskID} {groupID : GroupID} {description : String}
    {filesPattern : List String} {t : Task} (h : new id groupID description filesPattern = .ok t) :
    t = { id, groupID, description, filesPattern, status := .pending } := by
  unfold new at h
  split at h
  · cases h
  · split at h
    · cases h
    · exact (Except.ok.inj h).symm

/-- Claimed or running back to pending, without a claimer. -/
def release (t : Task) : Except BoardErr Task :=
  if t.status ≠ .claimed ∧ t.status ≠ .running then
    .error .invalidTaskTransition
  else
    .ok { t with status := .pending, claimedBy := none }

/-- Running to done, with the recorded envelope. -/
def complete (t : Task) (env : Envelope) : Except BoardErr Task :=
  if t.status ≠ .running then
    .error .invalidTaskTransition
  else
    .ok { t with envelope := some env, status := .done }

/-- Count an attempt.  The third failure blocks the task. -/
def recordAttempt (t : Task) (success : Bool) : Task × Option BoardErr :=
  if success then
    ({ t with attempts := t.attempts + 1, status := .done }, none)
  else if maxAttempts ≤ t.attempts + 1 then
    ({ t with attempts := t.attempts + 1, status := .blocked }, some .escalationRequired)
  else
    ({ t with attempts := t.attempts + 1, status := .failed }, none)

end Task

/-! ## Groups -/

structure GroupRow where
  id : GroupID
  boardID : BoardID
  name : String
  dependsOn : List GroupID
  status : GroupStatus
  worktreePath : String := ""
  branchName : String := ""
  buildStatus : GroupBuildStatus := .pending
  buildAttempts : Nat := 0
  deriving DecidableEq, Repr

/-- What a group keeps for its whole life: its id, its board and its name. -/
def GroupRow.key (row : GroupRow) : GroupID × BoardID × String :=
  (row.id, row.boardID, row.name)

structure Group extends GroupRow where
  tasks : List Task := []

namespace Group

def new (id : GroupID) (boardID : BoardID) (name : String) (dependsOn : List GroupID) :
    Group :=
  { id := id, boardID := boardID, name := name, dependsOn := dependsOn, status := .pending }

/-- Tasks are added to a pending group only. -/
def addTask (g : Group) (t : Task) : Except BoardErr Group :=
  if g.status ≠ .pending then
    .error .invalidGroupTransition
  else
    .ok { g with tasks := g.tasks ++ [t] }

theorem eq_of_addTask {g g' : Group} {t : Task} (h : g.addTask t = .ok g') :
    g' = { g with tasks := g.tasks ++ [t] } := by
  unfold addTask at h
  split at h
  · cases h
  · exact (Except.ok.inj h).symm

def assignWorktree (g : Group) (path branch : String) : Group :=
  { g with worktreePath := path, branchName := branch }

def start (g : Group) : Except BoardErr Group :=
  if g.status ≠ .pending then
    .error .invalidGroupTransition
  else
    .ok { g with status := .running }

/-- Running to completed; the build gate is not looked at again. -/
def complete (g : Group) : Except BoardErr Group :=
  if g.status ≠ .running then
    .error .invalidGroupTransition
  else
    .ok { g with status := .completed }

def fail (g : Group) : Except BoardErr Group :=
  if g.status = .completed ∨ g.status = .failed then
    .error .invalidGroupTransition
  else
    .ok { g with status := .failed }

def skipBuild (g : Group) : Except BoardErr Group :=
  if g.buildStatus ≠ .pending then
    .error .invalidGroupBuildTransition
  else
    .ok { g with buildStatus := .skipped }

/-- Count a build.  The last failure of the budget fails the gate. -/
def recordBuildAttempt (g : Group) (success : Bool) : Group × Option BoardErr :=
  if success then
    ({ g with buildAttempts := g.buildAttempts + 1, buildStatus := .passed }, none)
  else if maxAttempts ≤ g.buildAttempts + 1 then
    ({ g with buildAttempts := g.buildAttempts + 1, buildStatus := .failed },
      some .buildBudgetExhausted)
  else
    ({ g with buildAttempts := g.buildAttempts + 1 }, none)

end Group

/-! ## Dependencies -/

inductive VisitMark where
  | unseen
  | visiting
  | done
  deriving DecidableEq

/-- The group that `byID` holds for an id; a repeated id keeps the last group. -/
def groupByID (groups : List Group) (id : GroupID) : Option Group :=
  groups.reverse.find? fun g => decide (g.id = id)

/-- `visit` of `ValidateDAG`.  The first argument bounds the depth of the search.
A search that is deeper than the number of groups is inside a group that it is
still visiting, so the bound is never what ends it. -/
def visit (groups : List Group) :
    Nat → (GroupID → VisitMark) → Group → Except BoardErr (GroupID → VisitMark)
  | 0, _, _ => .error .cycle
  | depth + 1, state, g =>
    match state g.id with
    | .visiting => .error .cycle
    | .done => .ok state
    | .unseen => do
      let state ← g.dependsOn.foldlM
        (fun state depID =>
          match groupByID groups depID with
          | none => .ok state
          | some dep => visit groups depth state dep)
        (Function.update state g.id .visiting)
      pure (Function.update state g.id .done)

/-- `ValidateDAG`: refuse a cycle among the listed groups; dependencies on other
ids are ignored. -/
def validateDAG (groups : List Group) : Except BoardErr Unit := do
  let _ ← groups.foldlM (visit groups (groups.length + 1)) (fun _ => .unseen)

/-! ## Boards -/

structure BoardRow where
  id : BoardID
  phaseID : PhaseID
  status : BoardStatus
  deriving DecidableEq, Repr

structure Board extends BoardRow where
  groups : List Group := []

namespace Board

def new (id : BoardID) (phaseID : PhaseID) : Board :=
  { id := id, phaseID := phaseID, status := .building }

def addGroup (b : Board) (g : Group) : Except BoardErr Board :=
  if b.status ≠ .building then
    .error .invalidBoardTransition
  else
    .ok { b with groups := b.groups ++ [g] }

theorem eq_of_addGroup {b b' : Board} {g : Group} (h : b.addGroup g = .ok b') :
    b' = { b with groups := b.groups ++ [g] } := by
  unfold addGroup at h
  split at h
  · cases h
  · exact (Except.ok.inj h).symm

def start (b : Board) : Except BoardErr Board :=
  if b.status ≠ .building then
    .error .invalidBoardTransition
  else
    .ok { b with status := .running }

def complete (b : Board) : Except BoardErr Board :=
  if b.status ≠ .running then
    .error .invalidBoardTransition
  else
    .ok { b with status := .completed }

def fail (b : Board) : Except BoardErr Board :=
  if b.status = .completed ∨ b.status = .failed then
    .error .invalidBoardTransition
  else
    .ok { b with status := .failed }

end Board

end SophiaOrchestrator.Apply
