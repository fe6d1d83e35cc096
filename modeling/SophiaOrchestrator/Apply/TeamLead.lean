import SophiaOrchestrator.Apply.Ops

/-!
# The team-lead of a group

`runTeamLead` and everything below it, as programs over the operations of the
apply service: the attempts of an implement-agent at one task with the quota
fallback, and the build gate of a group with its repair attempts.

The group and the task objects of the source are changed in place; here they are
values that a program takes and returns.
-/

namespace SophiaOrchestrator.Apply

open Effects Prog

/-! ## Texts of errors -/

def BoardErr.text : BoardErr → String
  | .invalidBoardTransition => "apply.board: invalid transition"
  | .invalidGroupTransition => "apply.group: invalid transition"
  | .invalidGroupBuildTransition => "apply.group: invalid build-gate transition"
  | .invalidTaskTransition => "apply.task: invalid transition"
  | .escalationRequired => "apply.task: escalation required (3 failures)"
  | .buildBudgetExhausted => "apply.group: build budget exhausted (3 failures)"
  | .cycle => "apply.dag: cycle detected"
  | .emptyDescription => "apply.task: empty description"
  | .emptyFilesPattern => "apply.task: files_pattern empty"

def sessionErrText : SessionErr → String
  | .invalidProvider => "session: invalid provider"
  | .emptyCommand => "session: empty command"
  | .terminal => "session: already terminal"
  | .notRunning => "session: not running"

/-! ## Shared helpers -/

variable (cfg : RunConfig) (x : Nat) (c : Change) (p : Phase)

def publishEvent (event : ApplyEvent) : Program Unit :=
  perform (Op.publishEvent p.id event)

def appendAuditErr (operation : String) : Program Unit :=
  perform (Op.appendAudit p.id operation)

def saveGroupOrAudit (group : Group) : Program Unit := do
  match ← perform (Op.saveGroup x group.toGroupRow) with
  | .error _ => appendAuditErr p "BoardRepo.SaveGroup"
  | .ok () => pure ()

def saveTaskOrAudit (task : Task) : Program Unit := do
  match ← perform (Op.saveTask x task) with
  | .error _ => appendAuditErr p "BoardRepo.SaveTask"
  | .ok () => pure ()

def saveSessionOrAudit (sess : Session) : Program Unit := do
  match ← perform (Op.saveSession x sess) with
  | .error _ => appendAuditErr p "SessionRepo.Save"
  | .ok () => pure ()

def runtimeExecute (ctx : Ctx) (command : RuntimeCommand) : Program (Except String Receipt) := do
  match ← perform (Op.runtimeExecute ctx command) with
  | .error err => pure (.error err)
  | .ok result => pure (.ok result.receipt)

/-- A refused transition leaves the value as it is and is only recorded. -/
def transitionOrAudit {α ε : Type} (p : Phase) (operation : String) (old : α)
    (new : Except ε α) : Program α := do
  match new with
  | .ok value => pure value
  | .error _ => do
    appendAuditErr p operation
    pure old

def makeSession (role : AgentRole) (command : String) : Program (Except String Session) := do
  match ← perform Op.newSessionID with
  | .error err => pure (.error ("session id: " ++ err))
  | .ok sid => do
    let now ← perform Op.now
    match Session.new sid c.id p.id role cfg.validProvider command now with
    | .error err => pure (.error ("new session: " ++ sessionErrText err))
    | .ok sess =>
      match ← perform (Op.saveSession x sess) with
      | .error err => pure (.error ("save session: " ++ err.text))
      | .ok () => pure (.ok sess)

/-! ## The spawn governor -/

def saturationRetryBudget : Nat := 9

def acquireFrom : Nat → Program (Except GroupErr Unit)
  | 0 => pure (.error .saturated)
  | n + 1 => do
    match ← perform (Op.spawnAcquire x) with
    | .ok () => pure (.ok ())
    | .error (.other text) => pure (.error (.governor text))
    | .error .saturated =>
      match ← perform (Op.backoff x (saturationRetryBudget - (n + 1))) with
      | .ctxDone => pure (.error .ctx)
      | .taken => acquireFrom n

def acquireWithSaturationRetries : Program (Except GroupErr Unit) :=
  acquireFrom x saturationRetryBudget

/-! ## One dispatch of an implement-agent -/

/-- What one dispatch leaves: whether it succeeded, whether the provider had no
quota, and the task and the session after it. -/
structure Attempt where
  success : Bool
  quota : Option QuotaErr
  task : Task
  sess : Session

/-- `synthesizeEnvelopeFromGit` with its call of the runtime, which is not made without a path. -/
def synthesizeEnvelope (worktreePath : String) : Program (Except SynthesizeErr RawEnvelope) := do
  if worktreePath = "" then
    pure (.error .emptyPath)
  else
    let answer ← perform (Op.gitStatus x worktreePath)
    pure (synthesizeEnvelopeFromGit worktreePath answer)

/-- The envelope of the agent.  An adapter that edits in place leaves none, and it
is made up from the state of the worktree. -/
def agentEnvelope (worktreePath : String) (res : AgentResult) : Program RawEnvelope := do
  match res.envelopeRaw with
  | .empty =>
    if res.adapterID = "aider" then
      match ← synthesizeEnvelope x worktreePath with
      | .ok raw => pure raw
      | .error _ => pure .empty
    else
      pure .empty
  | raw => pure raw

def acceptImplement (task : Task) (sess : Session) (raw : RawEnvelope)
    (exitCode : Int) : Program Attempt := do
  match validateEnvelope raw .apply with
  | .error _ => do
    publishEvent p (.envelopeValidationFailed task.id)
    pure ⟨false, none, task, sess⟩
  | .ok env => do
    let now ← perform Op.now
    let sess ← transitionOrAudit p "sess.RecordOutcome" sess
      (sess.recordOutcome env exitCode now)
    saveSessionOrAudit x p sess
    let task ← transitionOrAudit p "task.Complete" task (task.complete env)
    saveTaskOrAudit x p task
    pure ⟨decide (env.status = .done ∨ env.status = .doneWithConcerns), none, task, sess⟩

def dispatchWith (group : Group) (task : Task)
    (sess : Session) (modelOverride : String) : Program Attempt := do
  let _ ← perform (Op.memoryGet x c .applyProgress)
  let status ← perform Op.readPriorPhasesStatus
  match ← perform (Op.buildPrompt c task group.worktreePath status) with
  | .error _ => pure ⟨false, none, task, sess⟩
  | .ok () => do
    let sess ← transitionOrAudit p "sess.MarkRunning" sess sess.markRunning
    match ← perform (Op.dispatch x
        { target := .implement task.id
          worktreePath := group.worktreePath
          modelOverride := modelOverride }) with
    | .error (.quota err) => pure ⟨false, some err, task, sess⟩
    | .error (.dispatchFailed _) => do
      publishEvent p (.runtimeDispatchFailed task.id)
      pure ⟨false, none, task, sess⟩
    | .error (.other _) => do
      publishEvent p (.dispatchError (.implement task.id))
      pure ⟨false, none, task, sess⟩
    | .ok res => do
      let raw ← agentEnvelope x group.worktreePath res
      acceptImplement x p task sess raw res.exitCode

def dispatchImplement (group : Group) (task : Task) (sess : Session) : Program Attempt :=
  dispatchWith x c p group task sess ""

def dispatchImplementWithOverride (group : Group)
    (task : Task) (sess : Session) (modelOverride : String) : Program Attempt :=
  dispatchWith x c p group task sess modelOverride

/-! ## The attempts at a task -/

/-- The provider has no quota left: release the task, without counting an attempt. -/
def quotaFailFast (task : Task) (err : QuotaErr) : Program Bool := do
  let task ← transitionOrAudit p "task.Release" task task.release
  saveTaskOrAudit x p task
  publishEvent p (.providerQuotaExceeded task.id err)
  let _ ← perform (Op.recordQuotaOutcome x err)
  pure false

def quotaFallback (group : Group)
    (task : Task) (sess : Session) (err : QuotaErr) : Program Bool := do
  if cfg.fallbackModel = "" then
    quotaFailFast x p task err
  else do
    let second ← dispatchImplementWithOverride x c p group task sess cfg.fallbackModel
    if second.quota.isNone ∧ second.success then do
      publishEvent p (.providerFallbackUsed task.id cfg.fallbackModel err)
      let recorded := second.task.recordAttempt true
      saveTaskOrAudit x p recorded.1
      if recorded.2.isSome then
        pure false
      else do
        perform (Op.recordSuccess x)
        pure true
    else
      quotaFailFast x p second.task err

def releaseImplement : Program Unit := do
  match ← perform (Op.spawnRelease x) with
  | .error _ => appendAuditErr p "SpawnGov.Release"
  | .ok () => pure ()

/-- Count the attempt; `again` is the rest of the loop.  Without quota nothing is
counted, and the fallback decides. -/
def recordOutcomeOf (group : Group)
    (first : Attempt) (again : Task → Session → Program Bool) : Program Bool := do
  match first.quota with
  | some err => quotaFallback cfg x c p group first.task first.sess err
  | none => do
    let recorded := first.task.recordAttempt first.success
    saveTaskOrAudit x p recorded.1
    if first.success then do
      perform (Op.recordSuccess x)
      pure true
    else if recorded.2.isSome then do
      publishEvent p (.taskEscalated recorded.1.id recorded.1.attempts)
      pure false
    else do
      publishEvent p (.taskRetry recorded.1.id recorded.1.attempts)
      again recorded.1 first.sess

def attempts (group : Group) : Nat → Task → Session → Program Bool
  | 0, _, _ => pure false
  | n + 1, task, sess => do
    if (← perform (Op.ctxErr x)) = true then
      pure false
    else
      match ← acquireWithSaturationRetries x with
      | .error _ => do
        publishEvent p (.implementSpawnGovernorError task.id)
        pure false
      | .ok () => do
        let first ← dispatchImplement x c p group task sess
        releaseImplement x p
        recordOutcomeOf cfg x c p group first (attempts group n)

def runImplementWithRetry (group : Group) (task : Task) : Program Bool := do
  if task.status = .done then
    pure true
  else
    match ← makeSession cfg x c p .implement task.description with
    | .error _ => do
      publishEvent p (.implementSpawnFailed task.id)
      pure false
    | .ok sess =>
      match ← perform (Op.claimTask x task.id sess.id) with
      | .ok true => do
        publishEvent p (.taskClaimed task.id sess.id)
        attempts cfg x c p group maxAttempts task sess
      | _ => do
        publishEvent p (.taskClaimSkipped task.id)
        pure false

/-- The goroutine of a task.  A task whose slot is not taken before the context is
done leaves no outcome. -/
def taskGoroutine (k x team : Nat) (c : Change) (p : Phase)
    (group : Group) (task : Task) : Program Unit := do
  match ← perform (Op.takeImplSlot x team) with
  | .ctxDone => perform (Op.taskDone team k)
  | .taken => do
    let success ← runImplementWithRetry cfg x c p group task
    perform (Op.setTaskOutcome team task.id success)
    perform (Op.releaseImplSlot team)
    perform (Op.taskDone team k)

/-! ## Build manifests -/

def defaultBuildTimeoutMS : Nat := 600000

def fileExistsInWorktree (cwd file : String) : Program (Except String Bool) := do
  match ← runtimeExecute (.exec x) (.testFile cwd file) with
  | .error err => pure (.error ("shell.exec test: " ++ err))
  | .ok receipt => pure (.ok (decide (receipt.exitCode = 0)))

def readFileInWorktree (cwd file : String) : Program (Except String Output) := do
  match ← runtimeExecute (.exec x) (.cat cwd file) with
  | .error err => pure (.error ("shell.exec cat: " ++ err))
  | .ok receipt =>
    if receipt.exitCode ≠ 0 then
      pure (.error ("cat " ++ file ++ " exited " ++ toString receipt.exitCode))
    else
      pure (.ok receipt.stdout)

def goBuild : BuildPlan :=
  ⟨"go.mod", "go", ["build", "./..."], defaultBuildTimeoutMS⟩

def goModRule (cwd : String) : Program (Except String (Option BuildPlan)) := do
  match ← fileExistsInWorktree x cwd "go.mod" with
  | .error err => pure (.error ("go.mod probe: " ++ err))
  | .ok false => pure (.ok none)
  | .ok true => pure (.ok (some goBuild))

/-- Whether the document decodes to a manifest with a build script.  A value that is
not a string makes the whole document malformed, and a malformed one has none. -/
def hasBuildScript (doc : Option Json) : Bool :=
  let scripts := Json.Decoder.object fun field => Json.Decoder.map .string (field "scripts")
  match doc.bind fun doc => scripts [doc] with
  | some entries => entries.any fun entry => decide (entry.1 = "build")
  | none => false

def npmBuild : BuildPlan :=
  ⟨"package.json", "npm", ["run", "build"], defaultBuildTimeoutMS⟩

def packageJSONRule (cwd : String) : Program (Except String (Option BuildPlan)) := do
  match ← fileExistsInWorktree x cwd "package.json" with
  | .error err => pure (.error ("package.json probe: " ++ err))
  | .ok false => pure (.ok none)
  | .ok true =>
    match ← readFileInWorktree x cwd "package.json" with
    | .error err => pure (.error ("package.json read: " ++ err))
    | .ok raw => pure (.ok (if hasBuildScript raw.doc then some npmBuild else none))

def mentionsFlutter (text : String) : Bool :=
  decide ("sdk: flutter".toList <:+: text.toList) ||
    decide ("flutter_sdk".toList <:+: text.toList)

/-- `isFlutterProject`: a failing probe counts as no marker. -/
def isFlutterProject (cwd : String) : Program Bool := do
  match ← fileExistsInWorktree x cwd ".flutter-plugins" with
  | .ok true => pure true
  | _ =>
    match ← readFileInWorktree x cwd "pubspec.yaml" with
    | .error _ => pure false
    | .ok raw => pure (mentionsFlutter raw.text)

def flutterBuild : BuildPlan :=
  ⟨"pubspec.yaml", "flutter", ["build", "apk", "--release"], defaultBuildTimeoutMS⟩

def dartBuild : BuildPlan :=
  ⟨"pubspec.yaml", "dart", ["compile", "exe", "lib/main.dart"], defaultBuildTimeoutMS⟩

def pubspecRule (cwd : String) : Program (Except String (Option BuildPlan)) := do
  match ← fileExistsInWorktree x cwd "pubspec.yaml" with
  | .error err => pure (.error ("pubspec.yaml probe: " ++ err))
  | .ok false => pure (.ok none)
  | .ok true => do
    if (← isFlutterProject x cwd) = true then
      pure (.ok (some flutterBuild))
    else
      match ← fileExistsInWorktree x cwd "lib/main.dart" with
      | .error err => pure (.error ("dart entrypoint probe: " ++ err))
      | .ok false => pure (.ok none)
      | .ok true => pure (.ok (some dartBuild))

def detectFrom : List (Program (Except String (Option BuildPlan))) →
    Program (Except String (Option BuildPlan))
  | [] => pure (.ok none)
  | rule :: rest => do
    match ← rule with
    | .error err => pure (.error err)
    | .ok (some plan) => pure (.ok (some plan))
    | .ok none => detectFrom rest

def detectBuildPlan (cwd : String) : Program (Except String (Option BuildPlan)) :=
  detectFrom [goModRule x cwd, packageJSONRule x cwd, pubspecRule x cwd]

/-! ## The build gate -/

structure BuildEnd where
  failed : Bool
  group : Group

def dispatchBuildRepair (group : Group) : Program Unit := do
  match ← perform (Op.dispatch x
      { target := .buildRepair group.id, worktreePath := group.worktreePath }) with
  | .error _ => publishEvent p (.dispatchError (.buildRepair group.id))
  | .ok res => do
    let _ ← agentEnvelope x group.worktreePath res

/-- `executeBuild`: a failing call counts as a failed build. -/
def executeBuild (plan : BuildPlan) (group : Group) : Program Int := do
  match ← runtimeExecute (.exec x) (.build plan group.worktreePath) with
  | .error _ => pure (-1)
  | .ok receipt => pure receipt.exitCode

def buildOnce (plan : BuildPlan) (group : Group)
    (again : Group → Program BuildEnd) : Program BuildEnd := do
  let attempt := group.buildAttempts + 1
  publishEvent p (.buildStarted group.id plan attempt)
  let exitCode ← executeBuild x plan group
  if exitCode = 0 then do
    let recorded := group.recordBuildAttempt true
    saveGroupOrAudit x p recorded.1
    publishEvent p (.buildPassed group.id plan attempt)
    pure ⟨false, recorded.1⟩
  else do
    let recorded := group.recordBuildAttempt false
    saveGroupOrAudit x p recorded.1
    publishEvent p (.buildFailed group.id plan attempt exitCode)
    if recorded.2 = some .buildBudgetExhausted then
      pure ⟨true, recorded.1⟩
    else do
      dispatchBuildRepair x p recorded.1
      again recorded.1

/-- The build loop.  The number bounds the further rounds; a round after which none
remains has exhausted the budget of the group. -/
def buildLoop (plan : BuildPlan) : Nat → Group → Program BuildEnd
  | 0, group => buildOnce x p plan group fun group => pure ⟨true, group⟩
  | n + 1, group => buildOnce x p plan group (buildLoop plan n)

/-- `runGroupBuildFeedbackLoop`.  A failed detection counts as no manifest. -/
def runGroupBuildFeedbackLoop (group : Group) : Program BuildEnd := do
  match ← detectBuildPlan x group.worktreePath with
  | .error _ => do
    publishEvent p (.worktreeError group.id)
    skip group
  | .ok none => skip group
  | .ok (some plan) => buildLoop x p plan (maxAttempts - 1 - group.buildAttempts) group
where
  skip (group : Group) : Program BuildEnd := do
    match group.skipBuild with
    | .error _ => pure ⟨true, group⟩
    | .ok group => do
      saveGroupOrAudit x p group
      pure ⟨false, group⟩

/-! ## The team-lead -/

def startTasks (team : Nat) (c : Change) (p : Phase) (group : Group) : List Task → Program Unit
  | [] => pure ()
  | task :: rest => do
    let _ ← perform (Op.go (.task x team c p group task))
    startTasks team c p group rest

/-- The session of the team-lead gets a synthetic envelope. -/
def teamLeadEnvelope (group : Group) (done : Nat) (hadFailure : Bool) : Envelope :=
  applyEnvelope c (if hadFailure then .blocked else .done)
    (if hadFailure then 0 else mkRat 85 100)
    ("group " ++ group.name ++ ": " ++ toString done ++ "/" ++ toString group.tasks.length ++
      " tasks done")

def recordTeamLead (group : Group) (sess : Session)
    (done : Nat) (hadFailure : Bool) : Program Unit := do
  let now ← perform Op.now
  let sess ← transitionOrAudit p "teamLeadSess.RecordOutcome" sess
    (sess.recordOutcome (teamLeadEnvelope c group done hadFailure)
      (if hadFailure then 1 else 0) now)
  saveSessionOrAudit x p sess

def aggregate (group : Group) (sess : Session)
    (outcomes : List (TaskID × Bool)) : Program GroupOutcome := do
  let done := outcomes.countP fun entry => entry.2
  let hadFailure := outcomes.any fun entry => !entry.2
  if hadFailure then do
    let group ← transitionOrAudit p "group.Fail" group group.fail
    saveGroupOrAudit x p group
    recordTeamLead x c p group sess done true
    pure { failed := true, err := some .groupFailed, tasksDone := done }
  else do
    let built ← runGroupBuildFeedbackLoop x p group
    if built.failed then do
      let group ← transitionOrAudit p "group.Fail" built.group built.group.fail
      saveGroupOrAudit x p group
      pure { failed := true, err := some .groupFailed, tasksDone := done }
    else do
      let group ← transitionOrAudit p "group.Complete" built.group built.group.complete
      saveGroupOrAudit x p group
      recordTeamLead x c p group sess done false
      pure { failed := false, tasksDone := done }

def runTeamLead (k x : Nat) (c : Change) (p : Phase) (group : Group) : Program GroupOutcome := do
  match group.start with
  | .error err => pure { failed := true, err := some (.groupStart err) }
  | .ok group =>
    match ← perform (Op.saveGroup x group.toGroupRow) with
    | .error err => pure { failed := true, err := some (.saveGroup err) }
    | .ok () =>
      match ← makeSession cfg x c p .teamLead
          ("team-lead orchestrating " ++ group.name) with
      | .error text => pure { failed := true, err := some (.session text) }
      | .ok sess => do
        publishEvent p (.teamLeadSpawned sess.id group.id)
        startTasks x k c p group group.tasks
        perform (Op.waitTasks k)
        let outcomes ← perform (Op.readTaskOutcomes k)
        aggregate x c p group sess outcomes

end SophiaOrchestrator.Apply
