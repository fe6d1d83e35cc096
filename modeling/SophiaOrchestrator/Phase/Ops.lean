import SophiaOrchestrator.Effects.Pool
import SophiaOrchestrator.Pg.Store
import SophiaOrchestrator.Discipline

/-!
# The operations of the phase service

Everything the phase and change services ask of the outside: the statements of
the repositories, each executed atomically on the connection pool, and the
calls to the other services.  The environment settles each operation by a
`Choice`: whether a database call fails, and what the other services answer.

A failing database call either has no effect or has its full effect and loses
only its reply.  `LockByChange` is a single statement outside any transaction,
so its transaction-scoped advisory lock is released when the statement ends and
the operation has no lasting effect.
-/

namespace SophiaOrchestrator

open Effects

/-! ## Data of the inbound and outbound ports -/

/-- The decision values of the governance service; the wire format is a string,
so a value outside the closed set can be received. -/
inductive GovernanceDecisionType where
  | allow
  | allowWithConstraints
  | requireApproval
  | deny
  | unknown (text : String)
  deriving DecidableEq, Repr

structure GovernanceDecision where
  decision : GovernanceDecisionType
  reason : String := ""
  deriving DecidableEq, Repr

structure RunPhaseInput where
  changeID : ChangeID
  phaseType : PhaseType
  taskDescription : String := ""
  contextOverrides : Json := .null
  retryBudget : Int := 0

structure DispatchResult where
  envelopeRaw : RawEnvelope
  exitCode : Int := 0

/-- What `persistArtifactsToMemory` hands to the memory engine.  The content is the
encoding of the whole envelope, and the source names the change and the phase;
what is the same in every write is left out. -/
structure IngestMemoryInput where
  tags : List String
  content : Envelope
  summary : String
  topicKey : String
  projectID : String
  sessionID : ChangeID
  source : ChangeID × PhaseID

/-- What the apply executor returns, together with the number of implement
agents it dispatched while it ran. -/
structure ExecuteResult where
  envelope : Option Envelope
  err : Option String
  implementDispatches : Nat

inductive ApplyOutcome where
  | finalized (allSucceeded : Bool) (summary : String) (dispatches : Nat)
  | aborted (reason : String) (dispatches : Nat)
  | preflightFailed (reason : String)

inductive SvcErr where
  | findChange (err : RepoErr)
  | invalidTransition (current next : PhaseType)
  | lockChange (err : RepoErr)
  | checkRunning (err : RepoErr)
  | phaseRunning (running : PhaseType)
  | generateID (err : String)
  | phase (err : PhaseErr)
  | savePhase (err : RepoErr)
  | findPhase (err : RepoErr)
  | alreadyTerminal (status : PhaseStatus)
  | approverRequired
  | auditLookup (err : RepoErr)
  | phaseNotGated
  | gateAlreadyDecided
  | change (err : ChangeErr)
  | saveChange (err : RepoErr)
  | listRunning (err : RepoErr)
  deriving DecidableEq, Repr

inductive Reply where
  | scheduled (cid : ChangeID) (id : PhaseID) (status : PhaseStatus)
  | acknowledged
  deriving DecidableEq, Repr

/-! ## Operations -/

inductive Op where
  | changeFindByID (id : ChangeID)
  | changeSave (c : Change)
  | phaseFindByID (id : PhaseID)
  | phaseFindByChangeAndType (cid : ChangeID) (pt : PhaseType)
  | phaseFindRunningByChange (cid : ChangeID)
  | phaseFindAllRunning
  | phaseLockByChange (cid : ChangeID)
  | phaseSave (p : Phase)
  | saveCompletedWithOutbox (c : Change) (ev : OutboxRow)
  | auditAppend (ev : AuditEvent)
  | auditHasEventForPhase (id : PhaseID) (eventType : EventType)
  | publishEvent (id : Option PhaseID) (eventType : EventType)
  | sessionSave (id : PhaseID)
  | newPhaseID
  | newSessionID
  | newOutboxID
  | now
  | evaluatePhase (cid : ChangeID) (pt : PhaseType) (taskDescription : String)
  | initRun (c : Change)
  | applyExecute (c : Change) (p : Phase) (prior : Option PriorPhases)
  | buildPrompt (c : Change) (p : Phase) (inp : RunPhaseInput) (prior : PriorPhases)
  | spawnAcquire
  | spawnRelease
  | dispatch (p : Phase)
  | memoryGet (topic : String)
  | memoryIngest (input : IngestMemoryInput)
  | criticReview (cid : ChangeID) (pt : PhaseType) (env : Envelope)
  | returned (reply : Except SvcErr Reply)

@[reducible] def Op.Ret : Op → Type
  | .changeFindByID _ => Except RepoErr Change
  | .changeSave _ => Except RepoErr Unit
  | .phaseFindByID _ => Except RepoErr Phase
  | .phaseFindByChangeAndType _ _ => Except RepoErr Phase
  | .phaseFindRunningByChange _ => Except RepoErr Phase
  | .phaseFindAllRunning => Except RepoErr (List Phase)
  | .phaseLockByChange _ => Except RepoErr Unit
  | .phaseSave _ => Except RepoErr Unit
  | .saveCompletedWithOutbox _ _ => Except RepoErr Unit
  | .auditAppend _ => Except RepoErr Unit
  | .auditHasEventForPhase _ _ => Except RepoErr Bool
  | .publishEvent _ _ => Unit
  | .sessionSave _ => Except RepoErr Unit
  | .newPhaseID => Except String PhaseID
  | .newSessionID => Except String Unit
  | .newOutboxID => Except String OutboxID
  | .now => Time
  | .evaluatePhase _ _ _ => Except String GovernanceDecision
  | .initRun _ => Except String (Option Envelope)
  | .applyExecute _ _ _ => ExecuteResult
  | .buildPrompt _ _ _ _ => Except String Unit
  | .spawnAcquire => Except String Unit
  | .spawnRelease => Except String Unit
  | .dispatch _ => Except String DispatchResult
  | .memoryGet _ => RawEnvelope
  | .memoryIngest _ => Except String Unit
  | .criticReview _ _ _ => Except String (List Concern)
  | .returned _ => Unit

def Op.isWrite : Op → Bool
  | .changeSave _ | .phaseSave _ | .saveCompletedWithOutbox _ _ => true
  | _ => false

/-! ## The calls of the ports -/

abbrev Program (α : Type) : Type := Prog Op Op.Ret α

abbrev ChangeRepo.findByID (id : ChangeID) : Program (Except RepoErr Change) :=
  Prog.perform (Op.changeFindByID id)

abbrev ChangeRepo.save (c : Change) : Program (Except RepoErr Unit) :=
  Prog.perform (Op.changeSave c)

abbrev PhaseRepo.findByID (id : PhaseID) : Program (Except RepoErr Phase) :=
  Prog.perform (Op.phaseFindByID id)

abbrev PhaseRepo.findByChangeAndType (cid : ChangeID) (pt : PhaseType) :
    Program (Except RepoErr Phase) :=
  Prog.perform (Op.phaseFindByChangeAndType cid pt)

abbrev PhaseRepo.findRunningByChange (cid : ChangeID) : Program (Except RepoErr Phase) :=
  Prog.perform (Op.phaseFindRunningByChange cid)

abbrev PhaseRepo.findAllRunning : Program (Except RepoErr (List Phase)) :=
  Prog.perform Op.phaseFindAllRunning

abbrev PhaseRepo.lockByChange (cid : ChangeID) : Program (Except RepoErr Unit) :=
  Prog.perform (Op.phaseLockByChange cid)

abbrev PhaseRepo.save (p : Phase) : Program (Except RepoErr Unit) :=
  Prog.perform (Op.phaseSave p)

abbrev OutboxEnqueuer.saveCompletedWithOutbox (c : Change) (ev : OutboxRow) :
    Program (Except RepoErr Unit) :=
  Prog.perform (Op.saveCompletedWithOutbox c ev)

abbrev Audit.append (ev : AuditEvent) : Program (Except RepoErr Unit) :=
  Prog.perform (Op.auditAppend ev)

abbrev Audit.hasEventForPhase (id : PhaseID) (eventType : EventType) :
    Program (Except RepoErr Bool) :=
  Prog.perform (Op.auditHasEventForPhase id eventType)

abbrev Events.publish (id : Option PhaseID) (eventType : EventType) : Program Unit :=
  Prog.perform (Op.publishEvent id eventType)

abbrev SessionRepo.save (id : PhaseID) : Program (Except RepoErr Unit) :=
  Prog.perform (Op.sessionSave id)

abbrev IDGen.newPhaseID : Program (Except String PhaseID) :=
  Prog.perform Op.newPhaseID

abbrev IDGen.newSessionID : Program (Except String Unit) :=
  Prog.perform Op.newSessionID

abbrev IDGen.newOutboxID : Program (Except String OutboxID) :=
  Prog.perform Op.newOutboxID

abbrev Clock.now : Program Time :=
  Prog.perform Op.now

abbrev Governance.evaluatePhase (cid : ChangeID) (pt : PhaseType)
    (taskDescription : String) : Program (Except String GovernanceDecision) :=
  Prog.perform (Op.evaluatePhase cid pt taskDescription)

abbrev InitService.run (c : Change) : Program (Except String (Option Envelope)) :=
  Prog.perform (Op.initRun c)

abbrev ApplyExecutor.execute (c : Change) (p : Phase) (prior : Option PriorPhases) :
    Program ExecuteResult :=
  Prog.perform (Op.applyExecute c p prior)

abbrev Prompts.build (c : Change) (p : Phase) (inp : RunPhaseInput)
    (prior : PriorPhases) : Program (Except String Unit) :=
  Prog.perform (Op.buildPrompt c p inp prior)

abbrev SpawnGov.acquire : Program (Except String Unit) :=
  Prog.perform Op.spawnAcquire

abbrev SpawnGov.release : Program (Except String Unit) :=
  Prog.perform Op.spawnRelease

abbrev Dispatcher.dispatch (p : Phase) : Program (Except String DispatchResult) :=
  Prog.perform (Op.dispatch p)

abbrev Memory.get (topic : String) : Program RawEnvelope :=
  Prog.perform (Op.memoryGet topic)

abbrev Memory.ingest (input : IngestMemoryInput) : Program (Except String Unit) :=
  Prog.perform (Op.memoryIngest input)

abbrev Critic.review (cid : ChangeID) (pt : PhaseType) (env : Envelope) :
    Program (Except String (List Concern)) :=
  Prog.perform (Op.criticReview cid pt env)

abbrev returnReply (reply : Except SvcErr Reply) : Program Unit :=
  Prog.perform (Op.returned reply)

/-! ## The environment -/

/-- The environment's part of one operation.  Each operation reads the field it
needs. -/
structure Choice where
  fault : Fault := .none
  now : Time := 0
  phaseID : Except String PhaseID := .ok ⟨0⟩
  sessionID : Except String Unit := .ok ()
  outboxID : Except String OutboxID := .ok ⟨0⟩
  governance : Except String GovernanceDecision := .ok { decision := .allow }
  init : Except String (Option Envelope) := .ok none
  apply : ApplyOutcome := .finalized true "" 0
  prompt : Except String Unit := .ok ()
  acquire : Except String Unit := .ok ()
  release : Except String Unit := .ok ()
  dispatch : Except String DispatchResult := .ok { envelopeRaw := .empty }
  memory : RawEnvelope := .empty
  ingest : Except String Unit := .ok ()
  critic : Except String (List Concern) := .ok []

def applyEnvelope (c : Change) (status : EnvelopeStatus) (confidence : ℚ)
    (summary : String) : Envelope where
  schemaVersion := schemaVersionV1
  phase := PhaseType.apply.toString
  changeName := c.name
  project := c.project
  status := status
  confidence := confidence
  executiveSummary := summary

/-- `RunService.Execute`, seen from the phase service. -/
def ApplyOutcome.result (c : Change) : ApplyOutcome → ExecuteResult
  | .finalized allSucceeded summary dispatches =>
    { envelope := some
        { applyEnvelope c (if allSucceeded then .done else .blocked)
            (if allSucceeded then mkRat 85 100 else 0) summary with
          artifactsSaved :=
            [⟨"sdd/" ++ c.name ++ "/apply-progress", "sdd_apply_progress"⟩] }
      err := none
      implementDispatches := dispatches }
  | .aborted reason dispatches =>
    { envelope := some (applyEnvelope c .blocked 0 reason)
      err := none
      implementDispatches := dispatches }
  | .preflightFailed reason =>
    { envelope := some (applyEnvelope c .blocked 0 reason)
      err := some reason
      implementDispatches := 0 }

def handle (op : Op) (ch : Choice) (s : Store) : op.Ret × Store :=
  match op with
  | .changeFindByID id => (ch.fault.read (s.findChange id), s)
  | .changeSave c => ch.fault.write s (s.saveChange c)
  | .phaseFindByID id => (ch.fault.read (s.findPhase id), s)
  | .phaseFindByChangeAndType cid pt => (ch.fault.read (s.findByChangeAndType cid pt), s)
  | .phaseFindRunningByChange cid => (ch.fault.read (s.findRunningByChange cid), s)
  | .phaseFindAllRunning => (ch.fault.read (.ok s.findAllRunning), s)
  | .phaseLockByChange _ => (ch.fault.read (.ok ()), s)
  | .phaseSave p => ch.fault.write s (s.savePhase p)
  | .saveCompletedWithOutbox c ev => ch.fault.write s (s.saveCompletedWithOutbox c ev)
  | .auditAppend ev => ch.fault.write s (.ok (s.appendAudit ev))
  | .auditHasEventForPhase id eventType =>
    (ch.fault.read (.ok (s.hasEventForPhase id eventType)), s)
  | .publishEvent _ _ => ((), s)
  | .sessionSave _ => ch.fault.write s (.ok s)
  | .newPhaseID => (ch.phaseID, s)
  | .newSessionID => (ch.sessionID, s)
  | .newOutboxID => (ch.outboxID, s)
  | .now => (ch.now, s)
  | .evaluatePhase _ _ _ => (ch.governance, s)
  | .initRun _ => (ch.init, s)
  | .applyExecute c _ _ => (ch.apply.result c, s)
  | .buildPrompt _ _ _ _ => (ch.prompt, s)
  | .spawnAcquire => (ch.acquire, s)
  | .spawnRelease => (ch.release, s)
  | .dispatch _ => (ch.dispatch, s)
  | .memoryGet _ => (ch.memory, s)
  | .memoryIngest _ => (ch.ingest, s)
  | .criticReview _ _ _ => (ch.critic, s)
  | .returned _ => ((), s)

def handler : Handler Op Op.Ret Choice Store where
  run := handle

@[simp] theorem handler_run (op : Op) (ch : Choice) (s : Store) :
    handler.run op ch s = handle op ch s := rfl

/-! ## What an operation can change -/

theorem handle_of_not_isWrite {op : Op} (h : op.isWrite = false) (ch : Choice)
    (s : Store) :
    (handle op ch s).2.changes = s.changes ∧ (handle op ch s).2.phases = s.phases ∧
      (handle op ch s).2.outbox = s.outbox := by
  cases op with
  | changeSave c | phaseSave p | saveCompletedWithOutbox c ev => cases h
  | auditAppend ev | sessionSave id =>
    simp only [handle]
    cases ch.fault <;> exact ⟨rfl, rfl, rfl⟩
  | _ => exact ⟨rfl, rfl, rfl⟩

end SophiaOrchestrator
