import SophiaOrchestrator.Phase.Ops

/-!
# The phase service

`Run`, `Resume`, `Approve` and `Reject` of the phase service, `Abort` of the
change service and the recovery sweep of the boot sequence, as programs over
the operations of the previous module.

`Run` and `Resume` have a synchronous part and an asynchronous one.  When the
synchronous part succeeds the call returns its reply and the scheduler starts
`runAsync` on the change and the phase loaded by it; both parts are one program
here, with the operation `returned` between them.
-/

namespace SophiaOrchestrator

open Effects Prog

structure ServiceConfig where
  hasInit : Bool := true
  hasApplyExecutor : Bool := true
  hasOutboxEnqueuer : Bool := true
  hasCritic : Bool := true
  deriving DecidableEq, Repr

/-! ## Texts of errors -/

def PhaseErr.text : PhaseErr → String
  | .terminal => "phase: already terminal"
  | .notRunning => "phase: not running"
  | .budgetExhausted => "phase: retry budget exhausted"
  | .belowThreshold => "phase: confidence below threshold"
  | .envelopeNil => "phase: envelope nil"
  | .envelopeMismatch => "phase: envelope phase mismatch"
  | .notBlocked => "phase: not blocked"

def ValidationErr.text : ValidationErr → String
  | .envelope .invalidJSON => "envelope: invalid json"
  | .envelope (.unsupportedSchemaVersion _) => "envelope: unsupported schema_version"
  | .envelope .emptyPhase => "envelope: empty phase"
  | .envelope (.invalidStatus _) => "envelope: invalid status"
  | .envelope (.confidenceOutOfRange _) => "envelope: confidence must be in [0,1]"
  | .envelope .emptyChangeName => "envelope: empty change_name"
  | .envelope .emptyProject => "envelope: empty project"
  | .phaseMismatch => "validator: envelope phase does not match expected phase"

/-! ## Helpers without writes -/

/-- `isNextValidTransition`: re-running the current phase type is allowed. -/
def isNextValidTransition (current next : PhaseType) : Bool :=
  decide (current = next) || decide (next ∈ current.nextValid)

def actionForPhase : PhaseType → IronLawAction
  | .apply => .runApply
  | .archive => .runArchive
  | _ => .startPhase

def eventTypeForStatus : PhaseStatus → EventType
  | .done => .phaseCompleted
  | .doneWithConcerns => .phaseCompletedWithConcerns
  | .blocked => .phaseFailed
  | .needsContext => .phaseNeedsContext
  | _ => .phaseCompleted

/-- `parseScopeCriticEnabled`: a missing key or a value of another type means
that the critic is off. -/
def parseScopeCriticEnabled (overrides : Json) : Bool :=
  match (overrides.get? "scope").bind (·.get? "critic_enabled") with
  | some (.bool enabled) => enabled
  | _ => false

/-- `detectTasksSchemaMismatch`: a flat `tasks` array without `groups`. -/
def detectTasksSchemaMismatch (data : Json) : Option String :=
  if (data.get? "tasks").isSome ∧ (data.get? "groups").isNone then
    some "tasks output must use data.groups[] not a flat tasks array (schema_mismatch)"
  else
    none

/-- `appendAudit`: a failing append is ignored. -/
def appendAudit (cid : Option ChangeID) (pid : PhaseID) (eventType : EventType) :
    Program Unit := do
  let _ ← Audit.append ⟨cid, some pid, eventType⟩

def publishEvent (pid : Option PhaseID) (eventType : EventType) : Program Unit :=
  Events.publish pid eventType

def loadPriorPhasesFrom (cid : ChangeID) :
    List PhaseType → PriorPhases → Program (Except RepoErr PriorPhases)
  | [], out => pure (.ok out)
  | pt :: rest, out => do
    match ← PhaseRepo.findByChangeAndType cid pt with
    | .error .notFound => loadPriorPhasesFrom cid rest out
    | .error err => pure (.error err)
    | .ok p => loadPriorPhasesFrom cid rest (out ++ [(pt, ⟨p.status, p.confidence⟩)])

def loadPriorPhases (cid : ChangeID) : Program (Except RepoErr PriorPhases) :=
  loadPriorPhasesFrom cid PhaseType.all []

variable (cfg : ServiceConfig) (c : Change) (p : Phase) (inp : RunPhaseInput)

/-- `reviewConcerns`: an error of the critic is swallowed. -/
def reviewConcerns (env : Envelope) (overrides : Json) : Program (List Concern) := do
  if cfg.hasCritic ∧ parseScopeCriticEnabled overrides then
    match ← Critic.review c.id p.pType env with
    | .error _ => pure []
    | .ok concerns => pure concerns
  else
    pure []

/-- Save the agent session; a failure is only recorded in the audit log. -/
def saveSession : Program Unit := do
  match ← SessionRepo.save p.id with
  | .error _ => appendAudit (some c.id) p.id .errorDiscarded
  | .ok () => pure ()

def artifactInput (env : Envelope) (ref : ArtifactRef) : IngestMemoryInput where
  tags := ["sdd", p.pType.toString, ref.type]
  content := env
  summary := env.executiveSummary
  topicKey := ref.topicKey
  projectID := c.project
  sessionID := c.id
  source := (c.id, p.id)

/-- The loop of `persistArtifactsToMemory`: entries without a topic key are
skipped and a failing write is only published. -/
def persistArtifacts (env : Envelope) : List ArtifactRef → Program Unit
  | [] => pure ()
  | ref :: rest => do
    if ref.topicKey = "" then
      persistArtifacts env rest
    else
      match ← Memory.ingest (artifactInput c p env ref) with
      | .error err => do
        publishEvent (some p.id) (.memoryArtifactPersistFailed ref.topicKey ref.type err)
        persistArtifacts env rest
      | .ok () => persistArtifacts env rest

/-! ## The outcome of a phase -/

/-- How the part of `runAsync` before the first write ends. -/
inductive AsyncOutcome where
  /-- The phase waits for an approval and its row stays as it is. -/
  | gated
  | failed (reason : String)
  /-- The phase has an envelope.  `label` opens the reasons of later failures,
  and `persist` says whether the declared artifacts are written to memory. -/
  | enveloped (env : Envelope) (concerns : List Concern) (label : String)
      (persist : Bool)

def initOutcome : Program AsyncOutcome := do
  match ← InitService.run c with
  | .error err => pure (.failed ("init service: " ++ err))
  | .ok none => pure (.failed "init service returned nil envelope")
  | .ok (some env) =>
    match validateEnvelope (.json env) p.pType with
    | .error err => pure (.failed ("init: envelope validation: " ++ err.text))
    | .ok env => pure (.enveloped env [] "init: " false)

def applyOutcome (prior : Option PriorPhases) : Program AsyncOutcome := do
  let result ← ApplyExecutor.execute c p prior
  match result.envelope, result.err with
  | none, some err => pure (.failed ("apply executor: " ++ err))
  | none, none => pure (.failed "apply executor returned nil envelope")
  | some env, _ => do
    let concerns ← reviewConcerns cfg c p env inp.contextOverrides
    pure (.enveloped env concerns "" false)

/-- Validate what the agent left behind and let the critic review it. -/
def acceptEnvelope (raw : RawEnvelope) : Program AsyncOutcome := do
  match validateEnvelope raw p.pType with
  | .error err => do
    saveSession c p
    pure (.failed ("envelope validation: " ++ err.text))
  | .ok env =>
    match (if p.pType = .tasks then detectTasksSchemaMismatch env.data else none) with
    | some mismatch => do
      saveSession c p
      pure (.failed mismatch)
    | none => do
      saveSession c p
      publishEvent (some p.id) .agentEnvelopeReceived
      let concerns ← reviewConcerns cfg c p env inp.contextOverrides
      pure (.enveloped env concerns "" true)

def releaseSpawn : Program Unit := do
  match ← SpawnGov.release with
  | .error _ => appendAudit (some c.id) p.id .errorDiscarded
  | .ok () => pure ()

/-- Dispatch the agent and read its envelope, falling back to memory when the
agent left none. -/
def dispatchAgent : Program AsyncOutcome := do
  match ← SpawnGov.acquire with
  | .error err => pure (.failed ("spawn governor: " ++ err))
  | .ok () => do
    let result ← Dispatcher.dispatch p
    releaseSpawn c p
    match result with
    | .error err => do
      saveSession c p
      pure (.failed ("dispatch: " ++ err))
    | .ok ⟨.empty, _⟩ => do
      let raw ← Memory.get ("sdd/" ++ c.name ++ "/" ++ p.pType.toString)
      acceptEnvelope cfg c p inp raw
    | .ok ⟨raw, _⟩ => acceptEnvelope cfg c p inp raw

/-- The single-agent flow: Iron Laws, prompt, session, dispatch. -/
def agentOutcome : Program AsyncOutcome := do
  match ← loadPriorPhases c.id with
  | .error err => pure (.failed ("load prior phases: " ++ err.text))
  | .ok prior =>
    let violations := checkIronLaws {
      action := actionForPhase p.pType
      priorPhases := prior
      hasGovernanceDecision := true
      taskAttempts := p.attempts - 1 }
    if violations ≠ [] then
      pure (.failed ("iron law violations: " ++ toString violations.length))
    else
      match ← Prompts.build c p inp prior with
      | .error err => pure (.failed ("prompt build: " ++ err))
      | .ok () =>
        match ← IDGen.newSessionID with
        | .error err => pure (.failed ("generate session id: " ++ err))
        | .ok () =>
          match ← SessionRepo.save p.id with
          | .error err => pure (.failed ("save session: " ++ err.text))
          | .ok () => do
            publishEvent (some p.id) .agentDispatched
            dispatchAgent cfg c p inp

/-- The phase types other than `init`: governance first, then the apply executor
or the single-agent flow. -/
def governedOutcome : Program AsyncOutcome := do
  match ← Governance.evaluatePhase c.id p.pType inp.taskDescription with
  | .error err => pure (.failed ("governance error: " ++ err))
  | .ok decision => do
    publishEvent (some p.id) .governanceDecision
    match decision.decision with
    | .deny => pure (.failed ("governance denied: " ++ decision.reason))
    | .requireApproval => do
      appendAudit (some c.id) p.id .approvalRequired
      publishEvent (some p.id) .approvalRequired
      pure .gated
    | _ =>
      if p.pType = .apply ∧ cfg.hasApplyExecutor then do
        let prior ← loadPriorPhases c.id
        applyOutcome cfg c p inp prior.toOption
      else
        agentOutcome cfg c p inp

/-- The part of `runAsync` before the first write. -/
def phaseOutcome : Program AsyncOutcome :=
  if p.pType = .init ∧ cfg.hasInit then
    initOutcome c p
  else
    governedOutcome cfg c p inp

/-! ## Settling a phase -/

def blockedEnvelope (summary : String) : Envelope where
  schemaVersion := schemaVersionV1
  phase := p.pType.toString
  changeName := c.name
  project := c.project
  status := .blocked
  confidence := 0
  executiveSummary := summary

/-- Save the phase if its completion was accepted; a failing save is ignored. -/
def saveIfCompleted : Except PhaseErr Phase → Program Unit
  | .error _ => pure ()
  | .ok p => do
    let _ ← PhaseRepo.save p

/-- Start a phase that is not running; a refusal is ignored. -/
def ensureRunning : Program Phase := do
  if p.status ≠ .running then
    let now ← Clock.now
    match p.start now with
    | .ok p' => pure p'
    | .error _ => pure p
  else
    pure p

/-- `failPhase`: persist a `BLOCKED` envelope.  A phase that is not running is
started first, and every failure on the way is ignored. -/
def failPhase (reason : String) : Program Unit := do
  match ← ChangeRepo.findByID p.changeID with
  | .error _ => pure ()
  | .ok c => do
    let p ← ensureRunning p
    let now ← Clock.now
    saveIfCompleted (p.complete (some (blockedEnvelope c p reason)) now)
    appendAudit (some c.id) p.id .phaseFailed
    publishEvent (some p.id) .phaseFailed

def publishArchived : Program Unit := do
  match ← PhaseRepo.findByChangeAndType c.id .archive with
  | .ok p => publishEvent (some p.id) .phaseArchived
  | .error _ => publishEvent none .phaseArchived

/-- The archive path of `advanceChange`, on the already advanced change. -/
def completeChange : Program Unit := do
  let now ← Clock.now
  match c.markCompleted now with
  | .error _ => pure ()
  | .ok c => do
    let archivedAt ← Clock.now
    let payload : PhaseArchivedPayload := {
      changeID := c.id
      changeName := c.name
      phaseType := .archive
      archivedAt := archivedAt }
    if cfg.hasOutboxEnqueuer then
      match ← IDGen.newOutboxID with
      | .error _ => pure ()
      | .ok evID =>
        match ← OutboxEnqueuer.saveCompletedWithOutbox c
            (OutboxEvent.new evID .phaseArchived payload archivedAt) with
        | .error _ => pure ()
        | .ok () => publishArchived c
    else
      match ← ChangeRepo.save c with
      | .error _ => pure ()
      | .ok () => publishArchived c

/-- `advanceChange`: move the pointer of the change as the run holds it, and
save it. -/
def advanceChange (completed : PhaseType) : Program Unit := do
  let now ← Clock.now
  match c.advancePhase completed now with
  | .error _ => pure ()
  | .ok c =>
    if completed = .archive then
      completeChange cfg c
    else do
      let _ ← ChangeRepo.save c

def afterSave (env : Envelope) (persist : Bool) : Program Unit := do
  (if persist then persistArtifacts c p env env.artifactsSaved else pure ())
  (if p.status.advanceAllowed then advanceChange cfg c p.pType else pure ())
  appendAudit (some c.id) p.id (eventTypeForStatus p.status)
  publishEvent (some p.id) (eventTypeForStatus p.status)

def completePhase (env : Envelope) (label : String) (persist : Bool) : Program Unit := do
  let now ← Clock.now
  match p.complete (some env) now with
  | .error err => failPhase p (label ++ "phase complete: " ++ err.text)
  | .ok p =>
    match ← PhaseRepo.save p with
    | .error err => failPhase p (label ++ "save phase: " ++ err.text)
    | .ok () => afterSave cfg c p env persist

/-- Concerns of the critic turn a `DONE` envelope into `DONE_WITH_CONCERNS` and
are attached to the phase; no other envelope is touched. -/
def withConcerns (env : Envelope) (p : Phase) (concerns : List Concern) :
    Envelope × Phase :=
  if concerns ≠ [] ∧ env.status = .done then
    ({ env with status := .doneWithConcerns }, p.setConcerns concerns)
  else
    (env, p)

def runAsync : Program Unit := do
  match ← phaseOutcome cfg c p inp with
  | .gated => pure ()
  | .failed reason => failPhase p reason
  | .enveloped env concerns label persist =>
    completePhase cfg c (withConcerns env p concerns).2 (withConcerns env p concerns).1
      label persist

/-! ## Inbound calls -/

/-- The retry budget of a run; a budget that is not positive means three. -/
def effectiveBudget (budget : Int) : Nat :=
  if budget ≤ 0 then 3 else budget.toNat

/-- The attempts already made, when the latest row of the type lets a new run
start a new attempt. -/
def priorAttempts : Except RepoErr Phase → Nat
  | .ok prior =>
    if prior.status.isTerminal ∨ prior.status = .needsContext then prior.attempts else 0
  | .error _ => 0

def newPhase (pid : PhaseID) (prior : Except RepoErr Phase) : Phase where
  id := pid
  changeID := inp.changeID
  pType := inp.phaseType
  status := .pending
  confidence := 0
  retryBudget := effectiveBudget inp.retryBudget
  attempts := priorAttempts prior

def runSync : Program (Except SvcErr (Change × Phase)) := do
  match ← ChangeRepo.findByID inp.changeID with
  | .error err => pure (.error (.findChange err))
  | .ok c =>
    if isNextValidTransition c.currentPhase inp.phaseType = false then
      pure (.error (.invalidTransition c.currentPhase inp.phaseType))
    else
      match ← PhaseRepo.lockByChange inp.changeID with
      | .error err => pure (.error (.lockChange err))
      | .ok () =>
        match ← PhaseRepo.findRunningByChange inp.changeID with
        | .ok running => pure (.error (.phaseRunning running.pType))
        | .error .notFound => startPhase c
        | .error err => pure (.error (.checkRunning err))
where
  startPhase (c : Change) : Program (Except SvcErr (Change × Phase)) := do
    match ← IDGen.newPhaseID with
    | .error err => pure (.error (.generateID err))
    | .ok pid => do
      let prior ← PhaseRepo.findByChangeAndType inp.changeID inp.phaseType
      let now ← Clock.now
      match (newPhase inp pid prior).start now with
      | .error err => pure (.error (.phase err))
      | .ok p =>
        match ← PhaseRepo.save p with
        | .error err => pure (.error (.savePhase err))
        | .ok () => do
          appendAudit (some inp.changeID) pid .phaseStarted
          publishEvent (some pid) .phaseStarted
          pure (.ok (c, p))

/-- Return the reply of the synchronous part and, if it succeeded, start
`runAsync`. -/
def schedule (sync : Except SvcErr (Change × Phase)) : Program Unit :=
  match sync with
  | .error err => returnReply (.error err)
  | .ok (c, p) => do
    returnReply (.ok (.scheduled p.changeID p.id p.status))
    runAsync cfg c p inp

def run : Program Unit := do
  schedule cfg inp (← runSync inp)

/-- A terminal phase cannot be resumed, except for a blocked apply phase. -/
def resumable : Bool :=
  !p.status.isTerminal || decide (p.status = .blocked ∧ p.pType = .apply)

/-- `Resume` takes an interrupted phase back with `Start` and a blocked apply
phase with `Restart`; any other phase is left as it was loaded. -/
def resumed (now : Time) : Option (Except PhaseErr Phase) :=
  if p.status = .interrupted then
    some (p.start now)
  else if p.status = .blocked ∧ p.pType = .apply then
    some (p.restart now)
  else
    none

def resumeSync (id : PhaseID) : Program (Except SvcErr (Change × Phase)) := do
  match ← PhaseRepo.findByID id with
  | .error err => pure (.error (.findPhase err))
  | .ok p =>
    if resumable p = false then
      pure (.error (.alreadyTerminal p.status))
    else
      match ← ChangeRepo.findByID p.changeID with
      | .error err => pure (.error (.findChange err))
      | .ok c => do
        let now ← Clock.now
        match resumed p now with
        | none => pure (.ok (c, p))
        | some (.error err) => pure (.error (.phase err))
        | some (.ok p) =>
          match ← PhaseRepo.save p with
          | .error err => pure (.error (.savePhase err))
          | .ok () => pure (.ok (c, p))

def resumedInput : RunPhaseInput where
  changeID := c.id
  phaseType := p.pType
  retryBudget := p.retryBudget

def resume (id : PhaseID) : Program Unit := do
  match ← resumeSync id with
  | .error err => returnReply (.error err)
  | .ok (c, p) => schedule cfg (resumedInput c p) (.ok (c, p))

def checkGateState (id : PhaseID) : Program (Except SvcErr Unit) := do
  match ← Audit.hasEventForPhase id .approvalRequired with
  | .error err => pure (.error (.auditLookup err))
  | .ok false => pure (.error .phaseNotGated)
  | .ok true =>
    match ← Audit.hasEventForPhase id .approvalResolved with
    | .error err => pure (.error (.auditLookup err))
    | .ok true => pure (.error .gateAlreadyDecided)
    | .ok false => pure (.ok ())

/-- The checks that `Approve` and `Reject` share. -/
def gatedPhase (id : PhaseID) (approver : String) : Program (Except SvcErr Phase) := do
  if approver = "" then
    pure (.error .approverRequired)
  else
    match ← PhaseRepo.findByID id with
    | .error err => pure (.error (.findPhase err))
    | .ok p =>
      if p.status.isTerminal then
        pure (.error (.alreadyTerminal p.status))
      else
        match ← checkGateState id with
        | .error err => pure (.error err)
        | .ok () => pure (.ok p)

/-- `Approve`: record the approval; the caller resumes the phase separately. -/
def approve (id : PhaseID) (approver : String) : Program Unit := do
  match ← gatedPhase id approver with
  | .error err => returnReply (.error err)
  | .ok _ => do
    appendAudit none id .approvalResolved
    publishEvent (some id) .approvalResolved
    returnReply (.ok .acknowledged)

def rejectPhase (approver reason : String) : Program (Except SvcErr Reply) := do
  match ← ChangeRepo.findByID p.changeID with
  | .error err => pure (.error (.findChange err))
  | .ok c => do
    let now ← Clock.now
    match (if p.status ≠ .running then p.start now else .ok p) with
    | .error err => pure (.error (.phase err))
    | .ok p => do
      let now ← Clock.now
      let env := blockedEnvelope c p ("Rejected by " ++ approver ++ ": " ++ reason)
      match p.complete (some env) now with
      | .error err => pure (.error (.phase err))
      | .ok p =>
        match ← PhaseRepo.save p with
        | .error err => pure (.error (.savePhase err))
        | .ok () => do
          appendAudit none p.id .approvalResolved
          publishEvent (some p.id) .approvalResolved
          pure (.ok .acknowledged)

def reject (id : PhaseID) (approver reason : String) : Program Unit := do
  match ← gatedPhase id approver with
  | .error err => returnReply (.error err)
  | .ok p => do
    let reply ← rejectPhase p approver reason
    returnReply reply

def abort (cid : ChangeID) (reason : String) : Program Unit := do
  match ← ChangeRepo.findByID cid with
  | .error err => returnReply (.error (.findChange err))
  | .ok c => do
    let now ← Clock.now
    match c.abort reason now with
    | .error err => returnReply (.error (.change err))
    | .ok c =>
      match ← ChangeRepo.save c with
      | .error err => returnReply (.error (.saveChange err))
      | .ok () => returnReply (.ok .acknowledged)

/-- The loop of the recovery sweep: a failing save is logged and skipped. -/
def markInterruptedAll : List Phase → Program Unit
  | [] => pure ()
  | p :: rest => do
    saveIfCompleted p.markInterrupted
    markInterruptedAll rest

/-- `MarkStuckInterrupted`, run at boot. -/
def recover : Program Unit := do
  match ← PhaseRepo.findAllRunning with
  | .error err => returnReply (.error (.listRunning err))
  | .ok stuck => do
    markInterruptedAll stuck
    returnReply (.ok .acknowledged)

inductive Call where
  | run (inp : RunPhaseInput)
  | resume (id : PhaseID)
  | approve (id : PhaseID) (approver : String)
  | reject (id : PhaseID) (approver reason : String)
  | abort (cid : ChangeID) (reason : String)
  | recover

def main : Call → Program Unit
  | .run inp => run cfg inp
  | .resume id => resume cfg id
  | .approve id approver => approve id approver
  | .reject id approver reason => reject id approver reason
  | .abort cid reason => abort cid reason
  | .recover => recover

end SophiaOrchestrator
