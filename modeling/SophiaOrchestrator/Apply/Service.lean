import SophiaOrchestrator.Filepath
import SophiaOrchestrator.Apply.TeamLead

/-!
# Execute

`RunService.Execute`: it loads the tasks list, builds the board or takes up the
one of an earlier `Execute` of the phase, starts a goroutine for every group, waits
for all of them and turns the map of their results into an envelope.

The calls of the model are an `Execute`, a started goroutine beginning to run, and
the cancellation of the context that was passed to an `Execute`.
-/

namespace SophiaOrchestrator.Apply

open Effects Prog

/-! ## Paths -/

def changeIDText (id : ChangeID) : String :=
  toString id.raw

variable (cfg : RunConfig) (x : Nat) (c : Change) (p : Phase)

def worktreePath (name : String) : String :=
  Filepath.join [cfg.worktreeRoot, changeIDText c.id, name]

def materializeTarget (name : String) : String :=
  Filepath.join [cfg.targetPath, name]

def branchName (name : String) : String :=
  "sophia/" ++ c.name ++ "/" ++ name

/-! ## Pre-flight -/

def TasksErr.text : TasksErr → String
  | .noTasksList => "apply: tasks list missing in memory"
  | .invalidTasksList => "apply: tasks list malformed"

def loadTasksList : Program (Except String TasksList) := do
  match ← perform (Op.memoryGet x c .tasks) with
  | .error .notFound => pure (.error TasksErr.noTasksList.text)
  | .error (.other text) => pure (.error text)
  | .ok content =>
    match parseTasksList content with
    | .error err => pure (.error err.text)
    | .ok tl => pure (.ok tl)

/-- One artifact of `loadPriorContext`; a missing one is left out. -/
def loadPriorArtifact (artifact : Artifact) : Program (Except String Unit) := do
  match ← perform (Op.memoryGet x c artifact) with
  | .error (.other text) => pure (.error text)
  | _ => pure (.ok ())

def loadPriorContext : Program (Except String Unit) := do
  match ← loadPriorArtifact x c .spec with
  | .error text => pure (.error text)
  | .ok () => loadPriorArtifact x c .design

/-! ## The board -/

def loadGroups : List GroupRow → Program (Except RepoErr (List Group))
  | [] => pure (.ok [])
  | row :: rest => do
    match ← perform (Op.findTasks x row.id) with
    | .error err => pure (.error err)
    | .ok tasks =>
      match ← loadGroups rest with
      | .error err => pure (.error err)
      | .ok groups => pure (.ok ({ toGroupRow := row, tasks := tasks } :: groups))

def findBoardByPhaseID (pid : PhaseID) : Program (Except RepoErr Board) := do
  match ← perform (Op.findBoard x pid) with
  | .error err => pure (.error err)
  | .ok row =>
    match ← perform (Op.findGroups x row.id) with
    | .error err => pure (.error err)
    | .ok rows =>
      match ← loadGroups x rows with
      | .error err => pure (.error err)
      | .ok groups => pure (.ok { toBoardRow := row, groups := groups })

/-- The first loop of `buildBoard`: an id for every entry.  The map from names to
ids is a list with the newest entry first, so a repeated name finds its last id. -/
def newGroupIDs : List TaskGroupSpec → List (String × GroupID) →
    Program (Except String (List (String × GroupID)))
  | [], idByName => pure (.ok idByName)
  | gs :: rest, idByName => do
    match ← perform Op.newGroupID with
    | .error err => pure (.error ("group id: " ++ err))
    | .ok gid => newGroupIDs rest ((gs.name, gid) :: idByName)

def addTasks (groupName : String) (gid : GroupID) :
    List TaskItemSpec → Group → Program (Except String Group)
  | [], group => pure (.ok group)
  | ts :: rest, group => do
    match ← perform Op.newTaskID with
    | .error err => pure (.error ("group id: " ++ err))
    | .ok tid =>
      match Task.new tid gid ts.description
          (stripGroupPrefix groupName ts.filesPattern) with
      | .error err => pure (.error ("new task: " ++ err.text))
      | .ok task =>
        match group.addTask task with
        | .error err => pure (.error err.text)
        | .ok group => addTasks groupName gid rest group

def saveTasks : List Task → Program (Except RepoErr Unit)
  | [] => pure (.ok ())
  | t :: rest => do
    match ← perform (Op.saveTask x t) with
    | .error err => pure (.error err)
    | .ok () => saveTasks rest

/-- The second loop of `buildBoard`: create, check and save every group. -/
def addGroups (bid : BoardID) (idByName : List (String × GroupID)) :
    List TaskGroupSpec → Board → Program (Except String Board)
  | [], board => pure (.ok board)
  | gs :: rest, board => do
    let gid := (idByName.lookup gs.name).getD ⟨0⟩
    let deps := gs.dependsOn.filterMap fun name => idByName.lookup name
    match ← addTasks gs.name gid gs.tasks (Group.new gid bid gs.name deps) with
    | .error text => pure (.error text)
    | .ok group =>
      match validateDAG (board.groups ++ [group]) with
      | .error err => pure (.error err.text)
      | .ok () =>
        match board.addGroup group with
        | .error err => pure (.error err.text)
        | .ok board =>
          match ← perform (Op.saveGroup x group.toGroupRow) with
          | .error err => pure (.error ("save group: " ++ err.text))
          | .ok () =>
            match ← saveTasks x group.tasks with
            | .error err => pure (.error ("save task: " ++ err.text))
            | .ok () => addGroups bid idByName rest board

/-- The part of `buildBoard` without an existing board. -/
def newBoard (tl : TasksList) : Program (Except String Board) := do
  match ← perform Op.newBoardID with
  | .error err => pure (.error ("board id: " ++ err))
  | .ok bid =>
    match ← perform (Op.saveBoard (.exec x) (Board.new bid p.id).toBoardRow) with
    | .error err => pure (.error ("save board (initial): " ++ err.text))
    | .ok () =>
      match ← newGroupIDs tl.groups [] with
      | .error text => pure (.error text)
      | .ok idByName => addGroups x bid idByName tl.groups (Board.new bid p.id)

/-- `buildBoard`: any failure to find the board of the phase leads to a new one. -/
def buildBoard (tl : TasksList) : Program (Except String Board) := do
  match ← findBoardByPhaseID x p.id with
  | .ok existing => pure (.ok existing)
  | .error _ => newBoard x p tl

/-! ## Worktrees -/

/-- Create a worktree; failures are only published. -/
def prepareWorktree (group : Group) : Program Unit := do
  match ← runtimeExecute (.exec x) (.mkdir group.worktreePath) with
  | .error _ => publishEvent p (.worktreeError group.id)
  | .ok _ =>
    if cfg.worktreeInitEmpty = false ∧ cfg.sourceRepoPath ≠ "" then
      match ← runtimeExecute (.exec x)
          (.copy (cfg.sourceRepoPath ++ "/.") (group.worktreePath ++ "/")) with
      | .error _ => publishEvent p (.worktreeError group.id)
      | .ok _ => pure ()
    else
      pure ()

/-- `createWorktrees`: returns the groups with their worktrees assigned. -/
def createWorktrees : List Group → Program (Except String (List Group))
  | [] => pure (.ok [])
  | g :: rest => do
    let group := g.assignWorktree (worktreePath cfg c g.name) (branchName c g.name)
    match ← perform (Op.saveGroup x group.toGroupRow) with
    | .error err => pure (.error ("persist worktree assignment: " ++ err.text))
    | .ok () => do
      prepareWorktree cfg x p group
      match ← createWorktrees rest with
      | .error text => pure (.error text)
      | .ok groups => pure (.ok (group :: groups))

/-! ## The goroutine of a group -/

inductive WaitErr where
  | unknownDep (dep : GroupID)
  | upstreamFailed (dep : GroupID) (cause : Option GroupErr)
  | ctx
  | timeout (dep : GroupID)

/-- `DAGCoordinator.Wait`: a received result is published again. -/
def dagWait : List GroupID → Program (Except WaitErr Unit)
  | [] => pure (.ok ())
  | dep :: rest => do
    match ← perform (Op.receive x dep) with
    | .unknownDep => pure (.error (.unknownDep dep))
    | .ctxDone => pure (.error .ctx)
    | .timeout => pure (.error (.timeout dep))
    | .result r => do
      perform (Op.signal x dep r)
      if r.failed then pure (.error (.upstreamFailed dep r.err)) else dagWait rest

/-- The group ends without its team-lead having run. -/
def failGroup (group : Group) (err : GroupErr) : Program Unit := do
  perform (Op.signal x group.id ⟨true, some err⟩)
  perform (Op.setResult x group.id { failed := true, err := some err })

def runInSlot (k x : Nat) (c : Change) (p : Phase) (group : Group) : Program Unit := do
  match ← acquireWithSaturationRetries x with
  | .error err => failGroup x group err
  | .ok () => do
    let outcome ← runTeamLead cfg k x c p group
    let _ ← perform (Op.spawnRelease x)
    perform (Op.setResult x group.id outcome)
    perform (Op.signal x group.id ⟨outcome.failed, outcome.err⟩)
    if outcome.failed then
      publishEvent p (.groupFailed group.id)
    else
      publishEvent p (.groupCompleted group.id outcome.tasksDone)

/-- The goroutine after its dependencies.  If the context is done before a slot is
taken, dependents are told, but there is no entry in the map of results. -/
def runAfterDeps (k x : Nat) (c : Change) (p : Phase) (group : Group) : Program Unit := do
  match ← perform (Op.takeGroupSlot x) with
  | .ctxDone => perform (Op.signal x group.id ⟨true, some .ctx⟩)
  | .taken => do
    runInSlot cfg k x c p group
    perform (Op.releaseGroupSlot x)

/-- A wait that ends with the context, its timer or an unknown group. -/
def failAfterWait (group : Group) (err : GroupErr) : Program Unit := do
  failGroup x group err
  publishEvent p (.groupFailed group.id)

/-- The body of the goroutine of a group.  A failed dependency does not stop it. -/
def runGroup (k x : Nat) (c : Change) (p : Phase) (group : Group) : Program Unit := do
  if group.status = .completed then do
    perform (Op.signal x group.id ⟨false, none⟩)
    perform (Op.setResult x group.id { failed := false, tasksDone := group.tasks.length })
  else
    match ← dagWait x group.dependsOn with
    | .ok () => runAfterDeps cfg k x c p group
    | .error (.upstreamFailed dep _) => do
      publishEvent p (.groupDegraded group.id dep)
      runAfterDeps cfg k x c p group
    | .error (.unknownDep dep) => failAfterWait x p group (.unknownDep dep)
    | .error .ctx => failAfterWait x p group .ctx
    | .error (.timeout dep) => failAfterWait x p group (.dependencyTimeout dep)

def groupGoroutine (k x : Nat) (c : Change) (p : Phase) (group : Group) : Program Unit := do
  runGroup cfg k x c p group
  perform (Op.groupDone x k)

/-! ## The end of Execute -/

def failEnv (reason : String) (err : Option String) : ExecuteReturn :=
  ⟨applyEnvelope c .blocked 0 reason, err⟩

/-- Whether the map of results says that the group has failed.  A group without an
entry reads as the zero outcome, which has not. -/
def resultFailed (results : GroupID → Option GroupOutcome) (g : Group) : Bool :=
  ((results g.id).getD { failed := false }).failed

def totalDone (results : GroupID → Option GroupOutcome) (groups : List Group) : Nat :=
  ((groups.filter fun g => !resultFailed results g).map fun g =>
    ((results g.id).getD { failed := false }).tasksDone).sum

def finalSummary (results : GroupID → Option GroupOutcome) (groups : List Group) : String :=
  let failedGroups := groups.countP (resultFailed results)
  if 0 < failedGroups then
    "Apply phase: " ++ toString failedGroups ++ "/" ++ toString groups.length ++
      " groups failed"
  else
    "Apply phase: " ++ toString groups.length ++ " groups, " ++
      toString (totalDone results groups) ++ "/" ++
      toString (groups.map fun g => g.tasks.length).sum ++ " tasks done"

def finalEnvelope (succeeded : Bool) (summary : String) : Envelope :=
  { applyEnvelope c (if succeeded then .done else .blocked)
      (if succeeded then mkRat 85 100 else 0) summary with
    artifactsSaved := [⟨"sdd/" ++ c.name ++ "/apply-progress", "sdd_apply_progress"⟩] }

/-- `materializeWorktrees`: returns the number of groups that were copied. -/
def materializeFrom (results : GroupID → Option GroupOutcome) : List Group → Nat → Program Nat
  | [], count => pure count
  | g :: rest, count => do
    if (results g.id).all (fun outcome => outcome.failed) = true ∨ g.worktreePath = "" then
      materializeFrom results rest count
    else
      let target := materializeTarget cfg g.name
      match ← runtimeExecute (.parent x) (.mkdir target) with
      | .error _ => do
        publishEvent p (.materializeError g.id)
        materializeFrom results rest count
      | .ok _ =>
        match ← runtimeExecute (.parent x)
            (.copy (g.worktreePath ++ "/.") (target ++ "/")) with
        | .error _ => do
          publishEvent p (.materializeError g.id)
          materializeFrom results rest count
        | .ok _ => materializeFrom results rest (count + 1)

def materializeWorktrees (board : Board)
    (results : GroupID → Option GroupOutcome) : Program Unit := do
  publishEvent p (.materializeStarted cfg.targetPath)
  let count ← materializeFrom cfg x p results board.groups 0
  publishEvent p (.materializeCompleted cfg.targetPath count)

def finalize (board : Board) : Program ExecuteReturn := do
  let results ← perform (Op.readResults x)
  let succeeded := !board.groups.any (resultFailed results)
  let ended := ((if succeeded then board.complete else board.fail).toOption.getD board)
  match ← perform (Op.saveBoard (.parent x) ended.toBoardRow) with
  | .error _ => publishEvent p .boardSaveFailed
  | .ok () => pure ()
  perform (Op.appendAudit p.id "apply.finalized")
  if cfg.targetPath ≠ "" then
    materializeWorktrees cfg x p ended results
  pure ⟨finalEnvelope c succeeded (finalSummary results board.groups), none⟩

def quotaAborted (threshold : Nat) (c : Change) (p : Phase) : Program ExecuteReturn := do
  let snapshot ← perform (Op.breakerSnapshot x)
  publishEvent p (.phaseQuotaAborted threshold snapshot.1 snapshot.2)
  pure (failEnv c
    ("provider quota exhausted; resets 1st of month 00:00 UTC, " ++
      "or set SOPHIA_DISPATCHER_FALLBACK_MODEL to a model with quota") none)

/-! ## Execute -/

def startGroups : Nat → List Group → Program Unit
  | _, [] => pure ()
  | i, g :: rest => do
    let _ ← perform (Op.go (.group x i c p g))
    startGroups (i + 1) rest

def runAllGroups (threshold : Nat) (c : Change) (p : Phase)
    (board : Board) : Program ExecuteReturn := do
  perform (Op.newDAG x (board.groups.map fun g => g.id))
  startGroups x c p 0 board.groups
  perform (Op.waitGroups x)
  if (← perform (Op.breakerTripped x)) = true then
    quotaAborted x threshold c p
  else
    finalize cfg x c p board

def startBoard (board : Board) : Program (Except String Board) := do
  if board.status = .building then
    match board.start with
    | .error err => pure (.error ("board start: " ++ err.text))
    | .ok board =>
      match ← perform (Op.saveBoard (.exec x) board.toBoardRow) with
      | .error err => pure (.error ("save board: " ++ err.text))
      | .ok () => pure (.ok board)
  else
    pure (.ok board)

/-- `Execute` after the tasks list was loaded. -/
def executeTasks (threshold : Nat) (c : Change) (p : Phase)
    (tl : TasksList) : Program ExecuteReturn := do
  match ← loadPriorContext x c with
  | .error text => pure (failEnv c ("load prior context: " ++ text) (some text))
  | .ok () =>
    match ← buildBoard x p tl with
    | .error text => pure (failEnv c ("build board: " ++ text) (some text))
    | .ok board =>
      match ← createWorktrees cfg x c p board.groups with
      | .error text => pure (failEnv c ("create worktrees: " ++ text) (some text))
      | .ok groups =>
        match ← startBoard x { board with groups := groups } with
        | .error text => pure (failEnv c text (some text))
        | .ok board => do
          publishEvent p (.boardCreated board.id board.groups.length)
          runAllGroups cfg x threshold c p board

def breakerThreshold : Nat :=
  if cfg.quotaBreakerThreshold ≤ 0 then 3 else cfg.quotaBreakerThreshold.toNat

def executeIn : Program ExecuteReturn := do
  match ← loadTasksList x c with
  | .error text => pure (failEnv c ("load tasks: " ++ text) (some text))
  | .ok tl =>
    if tl.groups.isEmpty then
      pure (failEnv c "tasks list has no groups" (some TasksErr.invalidTasksList.text))
    else
      executeTasks cfg x (breakerThreshold cfg) c p tl

def execute (priorPhasesStatus : List (PhaseType × String)) : Program Unit := do
  perform (Op.setPriorPhasesStatus priorPhasesStatus)
  let x ← perform (Op.newExec (breakerThreshold cfg))
  let res ← executeIn cfg x c p
  perform (Op.returned x res)

/-! ## Calls -/

inductive Call where
  | execute (c : Change) (p : Phase) (priorPhasesStatus : List (PhaseType × String))
  | goroutine (k : Nat)
  | cancel (x : Nat)

def main : Call → Program Unit
  | .execute c p status => execute cfg c p status
  | .goroutine k => do
    match ← perform (Op.beginGoroutine k) with
    | none => pure ()
    | some (.group x _ c p g) => groupGoroutine cfg k x c p g
    | some (.task x team c p g t) => taskGoroutine cfg k x team c p g t
  | .cancel x => perform (Op.cancelParent x)

end SophiaOrchestrator.Apply
