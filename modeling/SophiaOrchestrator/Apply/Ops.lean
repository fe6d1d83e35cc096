import SophiaOrchestrator.Effects.Log
import SophiaOrchestrator.Apply.State
import SophiaOrchestrator.Apply.GitStatus

/-!
# The operations of the apply service

Everything the goroutines of the apply service do to the shared memory, the
database and the other services.  An operation on the shared memory is one that
the source makes under a mutex, on a channel or on a wait group.  A call to the
database fails when its context is done; every other way for a call to fail is a
choice of the environment.

The operations that can block are a receive from a dependency channel, taking a
slot, waiting for a wait group, and an accepted acquire of the spawn governor.
-/

namespace SophiaOrchestrator.Apply

open Effects

/-! ## Data of the ports -/

inductive Artifact where
  | tasks
  | spec
  | design
  | applyProgress
  deriving DecidableEq, Repr

def Artifact.topic (c : Change) : Artifact → String
  | .tasks => "sdd/" ++ c.name ++ "/tasks"
  | .spec => "sdd/" ++ c.name ++ "/spec"
  | .design => "sdd/" ++ c.name ++ "/design"
  | .applyProgress => "sdd/" ++ c.name ++ "/apply-progress"

inductive MemoryErr where
  | notFound
  | other (text : String)
  deriving DecidableEq, Repr

inductive DispatchTarget where
  | implement (t : TaskID)
  | buildRepair (g : GroupID)
  deriving DecidableEq, Repr

structure DispatchRequest where
  target : DispatchTarget
  worktreePath : String
  modelOverride : String := ""
  deriving DecidableEq, Repr

structure AgentResult where
  envelopeRaw : RawEnvelope
  adapterID : String := ""
  exitCode : Int := 0

inductive DispatchErr where
  | quota (err : QuotaErr)
  | dispatchFailed (text : String)
  | other (text : String)
  deriving DecidableEq, Repr

structure BuildPlan where
  manifest : String
  command : String
  args : List String
  timeoutMS : Nat
  deriving DecidableEq, Repr

/-- The commands that apply runs through the runtime.  A probe is made in the
worktree `cwd`. -/
inductive RuntimeCommand where
  | mkdir (path : String)
  | copy (source target : String)
  | testFile (cwd file : String)
  | cat (cwd file : String)
  | build (plan : BuildPlan) (worktreePath : String)
  deriving DecidableEq, Repr

/-- What a command prints: the text, and the document it is if it is valid JSON. -/
structure Output where
  text : String := ""
  doc : Option Json := none

/-- The result of a receipt as the runtime sends it: the exit code is optional. -/
structure WireResult where
  status : ReceiptStatus := .success
  exitCode : Option Int := some 0
  stdout : Output := {}
  stderr : String := ""

structure Receipt where
  status : ReceiptStatus
  exitCode : Int
  stdout : Output
  stderr : String

/-- The end of `Client.Execute`: a missing exit code becomes zero. -/
def WireResult.receipt (w : WireResult) : Receipt where
  status := w.status
  exitCode := w.exitCode.getD 0
  stdout := w.stdout
  stderr := w.stderr

inductive SpawnErr where
  | saturated
  | other (text : String)
  deriving DecidableEq, Repr

/-- The events that apply publishes, without the texts of their errors. -/
inductive ApplyEvent where
  | boardCreated (id : BoardID) (groups : Nat)
  | boardSaveFailed
  | worktreeError (g : GroupID)
  | groupCompleted (g : GroupID) (tasksDone : Nat)
  | groupFailed (g : GroupID)
  | groupDegraded (g failedDep : GroupID)
  | teamLeadSpawned (sid : SessionID) (g : GroupID)
  | implementSpawnFailed (t : TaskID)
  | implementSpawnGovernorError (t : TaskID)
  | taskClaimed (t : TaskID) (sid : SessionID)
  | taskClaimSkipped (t : TaskID)
  | taskEscalated (t : TaskID) (attempts : Nat)
  | taskRetry (t : TaskID) (attempts : Nat)
  | providerQuotaExceeded (t : TaskID) (err : QuotaErr)
  | providerFallbackUsed (t : TaskID) (model : String) (err : QuotaErr)
  | phaseQuotaAborted (threshold streak : Nat) (last : Option QuotaErr)
  | dispatchError (target : DispatchTarget)
  | runtimeDispatchFailed (t : TaskID)
  | envelopeValidationFailed (t : TaskID)
  | buildStarted (g : GroupID) (plan : BuildPlan) (attempt : Nat)
  | buildPassed (g : GroupID) (plan : BuildPlan) (attempt : Nat)
  | buildFailed (g : GroupID) (plan : BuildPlan) (attempt : Nat) (exitCode : Int)
  | materializeStarted (path : String)
  | materializeError (g : GroupID)
  | materializeCompleted (path : String) (groups : Nat)
  deriving DecidableEq, Repr

structure ExecuteReturn where
  envelope : Envelope
  err : Option String

/-- How a `select` ends: with the operation it waits for, with the context, or
with its timer. -/
inductive Branch where
  | ready
  | ctxDone
  | timeout
  deriving DecidableEq, Repr

inductive Received where
  | result (r : GroupResult)
  | unknownDep
  | ctxDone
  | timeout
  deriving DecidableEq, Repr

inductive Slot where
  | taken
  | ctxDone
  deriving DecidableEq, Repr

/-! ## Operations -/

/-- The operations of the apply service.  `x` numbers the `Execute` and `team` the
goroutine of the team-lead whose memory is meant. -/
inductive Op where
  -- contexts and the breaker
  | newExec (threshold : Nat)
  | cancelParent (x : Nat)
  | ctxErr (x : Nat)
  | recordQuotaOutcome (x : Nat) (err : QuotaErr)
  | recordSuccess (x : Nat)
  | breakerTripped (x : Nat)
  | breakerSnapshot (x : Nat)
  -- goroutines
  | go (gr : Goroutine)
  | beginGoroutine (k : Nat)
  | groupDone (x k : Nat)
  | waitGroups (x : Nat)
  | taskDone (team k : Nat)
  | waitTasks (team : Nat)
  -- dependencies, slots and results
  | newDAG (x : Nat) (ids : List GroupID)
  | signal (x : Nat) (g : GroupID) (r : GroupResult)
  | receive (x : Nat) (dep : GroupID)
  | takeGroupSlot (x : Nat)
  | releaseGroupSlot (x : Nat)
  | takeImplSlot (x team : Nat)
  | releaseImplSlot (team : Nat)
  | setResult (x : Nat) (g : GroupID) (outcome : GroupOutcome)
  | readResults (x : Nat)
  | setTaskOutcome (team : Nat) (t : TaskID) (success : Bool)
  | readTaskOutcomes (team : Nat)
  | setPriorPhasesStatus (status : List (PhaseType × String))
  | readPriorPhasesStatus
  -- repositories
  | findBoard (x : Nat) (pid : PhaseID)
  | findGroups (x : Nat) (bid : BoardID)
  | findTasks (x : Nat) (g : GroupID)
  | saveBoard (ctx : Ctx) (row : BoardRow)
  | saveGroup (x : Nat) (row : GroupRow)
  | saveTask (x : Nat) (t : Task)
  | claimTask (x : Nat) (t : TaskID) (sid : SessionID)
  | saveSession (x : Nat) (sess : Session)
  | spawnAcquire (x : Nat)
  | backoff (x attempt : Nat)
  | spawnRelease (x : Nat)
  | appendAudit (id : PhaseID) (operation : String)
  | publishEvent (id : PhaseID) (event : ApplyEvent)
  -- other services
  | newBoardID
  | newGroupID
  | newTaskID
  | newSessionID
  | now
  | memoryGet (x : Nat) (c : Change) (artifact : Artifact)
  | buildPrompt (c : Change) (t : Task) (worktreePath : String)
      (priorPhasesStatus : List (PhaseType × String))
  | dispatch (x : Nat) (req : DispatchRequest)
  | gitStatus (x : Nat) (worktreePath : String)
  | runtimeExecute (ctx : Ctx) (command : RuntimeCommand)
  | returned (x : Nat) (res : ExecuteReturn)

@[reducible] def Op.Ret : Op → Type
  | .newExec _ => Nat
  | .ctxErr _ => Bool
  | .recordQuotaOutcome _ _ => Bool
  | .breakerTripped _ => Bool
  | .breakerSnapshot _ => Nat × Option QuotaErr
  | .go _ => Nat
  | .beginGoroutine _ => Option Goroutine
  | .receive _ _ => Received
  | .takeGroupSlot _ => Slot
  | .takeImplSlot _ _ => Slot
  | .readResults _ => GroupID → Option GroupOutcome
  | .readTaskOutcomes _ => List (TaskID × Bool)
  | .readPriorPhasesStatus => List (PhaseType × String)
  | .findBoard _ _ => Except RepoErr BoardRow
  | .findGroups _ _ => Except RepoErr (List GroupRow)
  | .findTasks _ _ => Except RepoErr (List Task)
  | .saveBoard _ _ => Except RepoErr Unit
  | .saveGroup _ _ => Except RepoErr Unit
  | .saveTask _ _ => Except RepoErr Unit
  | .claimTask _ _ _ => Except RepoErr Bool
  | .saveSession _ _ => Except RepoErr Unit
  | .spawnAcquire _ => Except SpawnErr Unit
  | .backoff _ _ => Slot
  | .spawnRelease _ => Except RepoErr Unit
  | .newBoardID => Except String BoardID
  | .newGroupID => Except String GroupID
  | .newTaskID => Except String TaskID
  | .newSessionID => Except String SessionID
  | .now => Time
  | .memoryGet _ _ _ => Except MemoryErr Content
  | .buildPrompt _ _ _ _ => Except String Unit
  | .dispatch _ _ => Except DispatchErr AgentResult
  | .gitStatus _ _ => Except String (ReceiptStatus × List UInt8)
  | .runtimeExecute _ _ => Except String WireResult
  | _ => Unit

abbrev Program (α : Type) : Type := Prog Op Op.Ret α

abbrev Event : Type := Ev Op Op.Ret

/-- The answered operations of a goroutine, newest first. -/
abbrev History : Type := List Event

/-! ## The environment -/

/-- The environment's part of one operation.  Each operation reads the field it
needs. -/
structure Choice where
  fault : Fault := .none
  branch : Branch := .ready
  id : Except String Nat := .ok 0
  now : Time := 0
  acquire : Except SpawnErr Unit := .ok ()
  memory : Except MemoryErr Content := .error .notFound
  prompt : Except String Unit := .ok ()
  dispatch : Except DispatchErr AgentResult := .error (.other "")
  gitStatus : Except String (ReceiptStatus × List UInt8) := .error ""
  receipt : Except String WireResult := .ok {}

def State.read {α : Type} (s : State) (ctx : Ctx) (fault : Fault) (answer : Except RepoErr α) :
    Except RepoErr α :=
  if s.ctxDone ctx then .error .unavailable else fault.read answer

def State.write (s : State) (ctx : Ctx) (fault : Fault) (effect : Except RepoErr State) :
    Except RepoErr Unit × State :=
  if s.ctxDone ctx then (.error .unavailable, s) else fault.write s effect

def State.withDb (s : State) (db : BoardStore) : State :=
  { s with db := db }

/-- `ClaimTask` with a context: a lost reply leaves the claim in place. -/
def State.claim (s : State) (ctx : Ctx) (fault : Fault) (id : TaskID) (sid : SessionID) :
    Except RepoErr Bool × State :=
  if s.ctxDone ctx then
    (.error .unavailable, s)
  else
    match fault with
    | .none => (.ok (s.db.claimTask id sid).1, s.withDb (s.db.claimTask id sid).2)
    | .before => (.error .unavailable, s)
    | .after => (.error .unavailable, s.withDb (s.db.claimTask id sid).2)

/-- One attempt of the spawn governor.  The reply of a granted slot can be lost. -/
def State.acquire (s : State) (cfg : RunConfig) (ctx : Ctx) (ch : Choice) :
    Except SpawnErr Unit × State :=
  match ch.acquire with
  | .ok () => (.ok (), { s with active := s.active + 1 })
  | .error err =>
    if ch.fault = .after ∧ s.active < cfg.spawnMax ∧ s.ctxDone ctx = false then
      (.error err, { s with active := s.active + 1 })
    else
      (.error err, s)

def State.receiveFrom (s : State) (x : Nat) (dep : GroupID) (branch : Branch) :
    Received × State :=
  match (s.execs x).channels dep, branch with
  | .absent, _ => (.unknownDep, s)
  | .full r, .ready =>
    (.result r, s.modifyExec x fun e => { e with
      channels := Function.update e.channels dep .empty })
  | _, .ctxDone => (.ctxDone, s)
  | _, _ => (.timeout, s)

/-- `Signal`: a full or missing channel drops the value. -/
def Exec.signal (e : Exec) (g : GroupID) (r : GroupResult) : Exec :=
  match e.channels g with
  | .empty => { e with channels := Function.update e.channels g (.full r) }
  | _ => e

def handle (cfg : RunConfig) (op : Op) (ch : Choice) (s : State) : op.Ret × State :=
  match op with
  | .newExec threshold =>
    (s.nextExec, { s with
      execs := Function.update s.execs s.nextExec { breaker := { threshold := threshold } }
      nextExec := s.nextExec + 1
      running := s.nextExec :: s.running })
  | .cancelParent x => ((), s.modifyExec x fun e => { e with parentDone := true })
  | .ctxErr x => (s.ctxDone (.exec x), s)
  | .recordQuotaOutcome x err =>
    (((s.execs x).recordQuotaOutcome err).1, s.modifyExec x fun e => (e.recordQuotaOutcome err).2)
  | .recordSuccess x => ((), s.modifyExec x Exec.recordSuccess)
  | .breakerTripped x => ((s.execs x).breaker.tripped, s)
  | .breakerSnapshot x => (((s.execs x).breaker.streak, (s.execs x).breaker.lastQuotaErr), s)
  | .go gr => (s.posted.length, s.spawn gr)
  | .beginGoroutine k =>
    (s.posted[k]?, { s with ready := s.ready.erase k, begun := k :: s.begun })
  | .groupDone x k =>
    ((), (s.modifyExec x fun e => { e with
      outstanding := e.outstanding.filter (· ≠ k) }).finish k)
  | .waitGroups _ => ((), s)
  | .taskDone team k =>
    ((), (s.modifyTeam team fun m => { m with
      outstanding := m.outstanding.filter (· ≠ k) }).finish k)
  | .waitTasks _ => ((), s)
  | .newDAG x ids =>
    ((), s.modifyExec x fun e => { e with
      channels := fun g => if g ∈ ids then .empty else .absent })
  | .signal x g r => ((), s.modifyExec x fun e => e.signal g r)
  | .receive x dep => s.receiveFrom x dep ch.branch
  | .takeGroupSlot x =>
    if ch.branch = .ready then
      (.taken, s.modifyExec x fun e => { e with groupSlots := e.groupSlots + 1 })
    else
      (.ctxDone, s)
  | .releaseGroupSlot x =>
    ((), s.modifyExec x fun e => { e with groupSlots := e.groupSlots - 1 })
  | .takeImplSlot _ team =>
    if ch.branch = .ready then
      (.taken, s.modifyTeam team fun m => { m with implSlots := m.implSlots + 1 })
    else
      (.ctxDone, s)
  | .releaseImplSlot team =>
    ((), s.modifyTeam team fun m => { m with implSlots := m.implSlots - 1 })
  | .setResult x g outcome =>
    ((), s.modifyExec x fun e => { e with
      results := Function.update e.results g (some outcome) })
  | .readResults x => ((s.execs x).results, s)
  | .setTaskOutcome team t success => ((), s.modifyTeam team fun m => m.setOutcome t success)
  | .readTaskOutcomes team => ((s.teams team).outcomes, s)
  | .setPriorPhasesStatus status => ((), { s with priorPhasesStatus := status })
  | .readPriorPhasesStatus => (s.priorPhasesStatus, s)
  | .findBoard x pid => (s.read (.exec x) ch.fault (s.db.findBoard pid), s)
  | .findGroups x bid => (s.read (.exec x) ch.fault (.ok (s.db.findGroups bid)), s)
  | .findTasks x g => (s.read (.exec x) ch.fault (.ok (s.db.findTasks g)), s)
  | .saveBoard ctx row => s.write ctx ch.fault ((s.db.saveBoard row).map s.withDb)
  | .saveGroup x row => s.write (.exec x) ch.fault ((s.db.saveGroup row).map s.withDb)
  | .saveTask x t => s.write (.exec x) ch.fault ((s.db.saveTask t).map s.withDb)
  | .claimTask x t sid => s.claim (.exec x) ch.fault t sid
  | .saveSession x sess =>
    s.write (.exec x) ch.fault
      ((s.sessions.save sess).map fun sessions => { s with sessions := sessions })
  | .spawnAcquire x => s.acquire cfg (.exec x) ch
  | .backoff _ _ => (if ch.branch = .ctxDone then .ctxDone else .taken, s)
  | .spawnRelease x =>
    s.write (.exec x) ch.fault (.ok { s with active := s.active - 1 })
  | .appendAudit _ _ => ((), s)
  | .publishEvent _ _ => ((), s)
  | .newBoardID => (ch.id.map BoardID.mk, s)
  | .newGroupID => (ch.id.map GroupID.mk, s)
  | .newTaskID => (ch.id.map TaskID.mk, s)
  | .newSessionID => (ch.id.map SessionID.mk, s)
  | .now => (ch.now, s)
  | .memoryGet _ _ _ => (ch.memory, s)
  | .buildPrompt _ _ _ _ => (ch.prompt, s)
  | .dispatch _ _ => (ch.dispatch, s)
  | .gitStatus _ _ => (ch.gitStatus, s)
  | .runtimeExecute _ _ => (ch.receipt, s)
  | .returned x _ => ((), { s with running := s.running.filter (· ≠ x) })

def slotEnabled (branch : Branch) (free done : Bool) : Bool :=
  match branch with
  | .ready => free
  | .ctxDone => done
  | .timeout => false

def enabled (cfg : RunConfig) (op : Op) (ch : Choice) (s : State) : Bool :=
  match op with
  | .beginGoroutine k => decide (k ∈ s.ready)
  | .waitGroups x => (s.execs x).outstanding.isEmpty
  | .waitTasks team => (s.teams team).outstanding.isEmpty
  | .receive x dep =>
    match (s.execs x).channels dep, ch.branch with
    | .absent, _ => true
    | .empty, .ready => false
    | .full _, .ready => true
    | _, .ctxDone => s.ctxDone (.exec x)
    | _, .timeout => true
  | .takeGroupSlot x =>
    slotEnabled ch.branch (decide ((s.execs x).groupSlots < cfg.maxParallelGroups))
      (s.ctxDone (.exec x))
  | .takeImplSlot x team =>
    slotEnabled ch.branch
      (decide ((s.teams team).implSlots < cfg.maxParallelImplementsPerGroup))
      (s.ctxDone (.exec x))
  | .spawnAcquire x =>
    match ch.acquire with
    | .ok () => decide (s.active < cfg.spawnMax) && !s.ctxDone (.exec x)
    | .error _ => true
  | .backoff x _ => !decide (ch.branch = .ctxDone) || s.ctxDone (.exec x)
  | _ => true

def handler (cfg : RunConfig) : Handler Op Op.Ret Choice State where
  run := handle cfg
  enabled := enabled cfg
  crash := State.crash

end SophiaOrchestrator.Apply
