import SophiaOrchestrator.Effects.Protocol
import SophiaOrchestrator.Phase.Justified

/-!
# The protocol of a call

Where a call stands between two of its operations, and which operations lead on from there.  The
programs of the service are walked through once, in the order of the source: `main_follows` says
that every call keeps to the protocol, whatever its operations answer.
-/

namespace SophiaOrchestrator

open Effects Prog

/-! ## Stages -/

inductive Stage where
  | begun
  /-- `Run` or `Abort` has loaded its change. -/
  | found (cid : ChangeID) (c : Change)
  /-- `Run` has found no running phase of the change, -/
  | free (inp : RunPhaseInput) (c : Change)
  /-- has an id for the new phase, -/
  | named (inp : RunPhaseInput) (c : Change) (pid : PhaseID)
  /-- and has looked for the latest row of its type. -/
  | informed (inp : RunPhaseInput) (c : Change) (pid : PhaseID) (prior : Except RepoErr Phase)
  /-- `Resume`, `Approve` or `Reject` has loaded its phase, -/
  | fetched (id : PhaseID) (p : Phase)
  /-- and the change of the phase. -/
  | matched (id : PhaseID) (c : Change) (p : Phase)
  /-- The phase is running, and its row is saved. -/
  | ready (c : Change) (p : Phase)
  /-- `runAsync` has been started. -/
  | working (c : Change) (p : Phase)
  /-- The init service has answered. -/
  | initialised (c : Change) (p : Phase) (answer : Except String (Option Envelope))
  /-- Governance has answered, and some latest rows have been read. -/
  | reading (c : Change) (p : Phase) (d : GovernanceDecision) (prior : PriorPhases)
  /-- The apply executor has returned. -/
  | executed (c : Change) (p : Phase) (result : ExecuteResult)
  /-- The run holds a spawn slot, -/
  | staffed (c : Change) (p : Phase) (prior : PriorPhases)
  /-- and the agent has been dispatched. -/
  | sent (c : Change) (p : Phase) (result : Except String DispatchResult)
  /-- The slot is given back, and this is what the agent left behind. -/
  | back (c : Change) (p : Phase) (raw : RawEnvelope)
  /-- The completed phase `q` could not be saved. -/
  | lost (c : Change) (p q : Phase)
  /-- A failure is to be recorded for the phase `p₁`, whose change is loaded again. -/
  | failing (c : Change) (p p₁ : Phase) (c' : Change)
  /-- The save of a blocked phase has been tried. -/
  | blocked (c : Change) (p q : Phase)
  /-- The phase is saved with its envelope, and these artifacts are still to be written.  The flag
  says that the write of the change has been tried. -/
  | saved (c : Change) (p q : Phase) (env : Envelope) (refs : List ArtifactRef) (moved : Bool)
  /-- The write of an artifact has failed. -/
  | unstored (c : Change) (p q : Phase) (env : Envelope) (ref : ArtifactRef)
      (refs : List ArtifactRef) (err : String)
  /-- `Abort` has saved its change. -/
  | aborted (c : Change)
  /-- The recovery sweep has listed the running phases. -/
  | sweeping (stuck : List Phase)
  /-- The call has only its reply to give. -/
  | served
  | ended

namespace Stage

def onOk (s : Stage) : Except RepoErr Unit → Stage
  | .ok _ => s
  | .error _ => .served

def run : Stage → Option (Change × Phase)
  | .working c p | .initialised c p _ | .reading c p _ _ | .executed c p _ | .back c p _ =>
    some (c, p)
  | _ => none

def pending : Stage → Bool
  | .begun | .found _ _ | .free _ _ | .named _ _ _ | .informed _ _ _ _ => true
  | .fetched _ _ | .matched _ _ _ | .aborted _ | .sweeping _ | .served => true
  | _ => false

/-- The stage has an envelope for the phase, and the flag says whether its artifacts are to be
written to memory. -/
inductive Offers (c : Change) (p : Phase) : Stage → Envelope → Bool → Prop where
  | init {env₀ env : Envelope} (htype : p.pType = .init)
      (hvalid : validateEnvelope (.json env₀) p.pType = .ok env) :
      Offers c p (.initialised c p (.ok (some env₀))) env false
  | apply {result : ExecuteResult} {env : Envelope} (htype : p.pType = .apply)
      (henv : result.envelope = some env) : Offers c p (.executed c p result) env false
  | agent {raw : RawEnvelope} {env : Envelope}
      (hvalid : validateEnvelope raw p.pType = .ok env) : Offers c p (.back c p raw) env true

theorem Offers.run {c : Change} {p : Phase} {s : Stage} {env : Envelope} {persist : Bool}
    (hoffers : s.Offers c p env persist) : s.run = some (c, p) := by
  cases hoffers <;> rfl

inductive Drops (c : Change) (p : Phase) : Stage → Phase → Prop where
  | outcome {s : Stage} (hrun : s.run = some (c, p)) : Drops c p s p
  | refused {s : Stage} {env : Envelope} {persist : Bool} (concerns : List Concern)
      (hoffers : s.Offers c p env persist) : Drops c p s (withConcerns env p concerns).2
  | lost {q : Phase} : Drops c p (.lost c p q) q

end Stage

def GovernanceDecision.Permits (d : GovernanceDecision) : Prop :=
  d.decision ≠ .deny ∧ d.decision ≠ .requireApproval

def Revived (p₁ p₂ : Phase) : Prop :=
  p₂ = p₁ ∨ (p₁.status ≠ .running ∧ ∃ now, p₁.start now = .ok p₂)

def rawOf : Except String DispatchResult → RawEnvelope
  | .ok result => result.envelopeRaw
  | .error _ => .empty

def toStore (env : Envelope) (persist : Bool) : List ArtifactRef :=
  if persist then env.artifactsSaved.filter fun ref => ref.topicKey ≠ "" else []

section

variable (cfg : ServiceConfig) (call : Call)

/-- The moves of a call.  The premises are the tests that the program makes. -/
inductive CallMove : Protocol Op Op.Ret Stage where
  | stay {op s answer} (hidle : op.idle = true) :
      CallMove s ⟨op, answer⟩ s
  | noChange {s cid err} :
      CallMove s ⟨.changeFindByID cid, .error err⟩ s
  | noPhase {s pid err} :
      CallMove s ⟨.phaseFindByID pid, .error err⟩ s
  /-- The call replies. -/
  | refuses {s err} (hpending : s.pending = true) :
      CallMove s ⟨.returned (.error err), ()⟩ .ended
  | acknowledges {s} (hpending : s.pending = true)
      (habort : ∀ cid reason, call = .abort cid reason → ∃ c, s = .aborted c) :
      CallMove s ⟨.returned (.ok .acknowledged), ()⟩ .ended
  /-- `Run` starts a phase. -/
  | loads {cid c} :
      CallMove .begun ⟨.changeFindByID cid, .ok c⟩ (.found cid c)
  | frees {inp c} (hcall : call = .run inp)
      (hvalid : isNextValidTransition c.currentPhase inp.phaseType = true) :
      CallMove (.found inp.changeID c)
        ⟨.phaseFindRunningByChange inp.changeID, .error .notFound⟩ (.free inp c)
  | names {inp c pid} :
      CallMove (.free inp c) ⟨.newPhaseID, .ok pid⟩ (.named inp c pid)
  | informs {inp c pid prior} :
      CallMove (.named inp c pid)
        ⟨.phaseFindByChangeAndType inp.changeID inp.phaseType, prior⟩ (.informed inp c pid prior)
  | starts {inp c pid prior now p answer} (hcall : call = .run inp)
      (hvalid : isNextValidTransition c.currentPhase inp.phaseType = true)
      (hstart : (newPhase inp pid prior).start now = .ok p) :
      CallMove (.informed inp c pid prior) ⟨.phaseSave p, answer⟩
        (.onOk (.ready c p) answer)
  /-- `Resume` takes a phase back. -/
  | fetches {pid p} :
      CallMove .begun ⟨.phaseFindByID pid, .ok p⟩ (.fetched pid p)
  | joins {pid p c} :
      CallMove (.fetched pid p) ⟨.changeFindByID p.changeID, .ok c⟩ (.matched pid c p)
  | restarts {pid p now p' c answer} (hcall : call = .resume pid) (hresumable : resumable p = true)
      (hrestart : resumed p now = some (.ok p')) :
      CallMove (.matched pid c p) ⟨.phaseSave p', answer⟩ (.onOk (.ready c p') answer)
  | continues {pid p now c} (hcall : call = .resume pid)
      (hresumable : resumable p = true) (hkept : resumed p now = none) :
      CallMove (.matched pid c p)
        ⟨.returned (.ok (.scheduled p.changeID p.id p.status)), ()⟩ (.working c p)
  | schedules {c p} :
      CallMove (.ready c p)
        ⟨.returned (.ok (.scheduled p.changeID p.id p.status)), ()⟩ (.working c p)
  /-- `Reject` blocks a phase. -/
  | rejects {pid approver reason p p₁ c summary now q answer}
      (hcall : call = .reject pid approver reason)
      (hopen : p.status.isTerminal = false) (hrevived : Revived p p₁)
      (hcomplete : p₁.complete (some (blockedEnvelope c p₁ summary)) now = .ok q) :
      CallMove (.matched pid c p) ⟨.phaseSave q, answer⟩ .served
  | aborts {cid reason c now c' answer} (hcall : call = .abort cid reason)
      (habort : c.abort reason now = .ok c') :
      CallMove (.found cid c) ⟨.changeSave c', answer⟩ (.onOk (.aborted c') answer)
  /-- The recovery sweep. -/
  | lists {stuck} (hcall : call = .recover) :
      CallMove .begun ⟨.phaseFindAllRunning, .ok stuck⟩ (.sweeping stuck)
  | interrupts {p stuck answer} (hmem : p ∈ stuck) :
      CallMove (.sweeping stuck) ⟨.phaseSave { p with status := .interrupted }, answer⟩
        (.sweeping stuck)
  /-- The outcome of a phase. -/
  | initialises {c p answer} :
      CallMove (.working c p) ⟨.initRun c, answer⟩ (.initialised c p answer)
  | ungoverned {c p text err} :
      CallMove (.working c p) ⟨.evaluatePhase c.id p.pType text, .error err⟩ (.working c p)
  | governs {c p text d} :
      CallMove (.working c p) ⟨.evaluatePhase c.id p.pType text, .ok d⟩
        (.reading c p d [])
  | suspends {c p d prior} :
      CallMove (.reading c p d prior) ⟨.publishEvent (some p.id) .approvalRequired, ()⟩
        .ended
  | reads {c p d prior pt row} :
      CallMove (.reading c p d prior) ⟨.phaseFindByChangeAndType c.id pt, .ok row⟩
        (.reading c p d (prior ++ [(pt, ⟨row.status, row.confidence⟩)]))
  | executes {d p c prior prior' result} (hpermits : d.Permits)
      (htype : p.pType = .apply) (hwired : cfg.hasApplyExecutor = true) :
      CallMove (.reading c p d prior) ⟨.applyExecute c p prior', result⟩
        (.executed c p result)
  | unstaffed {c p d prior err} :
      CallMove (.reading c p d prior) ⟨.spawnAcquire, .error err⟩ (.reading c p d prior)
  | staffs {d p prior c}
      (hpermits : d.Permits) (hlaws : checkIronLaws (ironLawContext p prior) = []) :
      CallMove (.reading c p d prior) ⟨.spawnAcquire, .ok ()⟩ (.staffed c p prior)
  | sends {p prior c result}
      (hlaws : checkIronLaws (ironLawContext p prior) = []) :
      CallMove (.staffed c p prior) ⟨.dispatch p, result⟩ (.sent c p result)
  | releases {c p result answer} :
      CallMove (.sent c p result) ⟨.spawnRelease, answer⟩ (.back c p (rawOf result))
  | recalls {c p topic raw} :
      CallMove (.back c p .empty) ⟨.memoryGet topic, raw⟩ (.back c p raw)
  /-- The outcome is recorded. -/
  | completes {s c p env persist concerns now q} (hoffers : s.Offers c p env persist)
      (hcomplete : (withConcerns env p concerns).2.complete (some (withConcerns env p concerns).1)
        now = .ok q) :
      CallMove s ⟨.phaseSave q, .ok ()⟩ (.saved c p q (withConcerns env p concerns).1
        (toStore (withConcerns env p concerns).1 persist) false)
  | loses {s c p env persist concerns now q err} (hoffers : s.Offers c p env persist)
      (hcomplete : (withConcerns env p concerns).2.complete (some (withConcerns env p concerns).1)
        now = .ok q) :
      CallMove s ⟨.phaseSave q, .error err⟩ (.lost c p q)
  | fails {s c p p₁ c'} (hdrops : s.Drops c p p₁) :
      CallMove s ⟨.changeFindByID p₁.changeID, .ok c'⟩ (.failing c p p₁ c')
  | givesUp {s c p p₁ err} (hdrops : s.Drops c p p₁) :
      CallMove s ⟨.changeFindByID p₁.changeID, .error err⟩ .ended
  | blocks {p₁ p₂ c' reason now q c p answer} (hrevived : Revived p₁ p₂)
      (hcomplete : p₂.complete (some (blockedEnvelope c' p₂ reason)) now = .ok q) :
      CallMove (.failing c p p₁ c') ⟨.phaseSave q, answer⟩ (.blocked c p q)
  | announces {c p q} :
      CallMove (.blocked c p q) ⟨.publishEvent (some q.id) .phaseFailed, ()⟩ .ended
  | announcesOnly {p₁ p₂ c' reason now err c p}
      (hrevived : Revived p₁ p₂)
      (hrefused : p₂.complete (some (blockedEnvelope c' p₂ reason)) now = .error err) :
      CallMove (.failing c p p₁ c') ⟨.publishEvent (some p₂.id) .phaseFailed, ()⟩ .ended
  /-- What follows the save of a completed phase. -/
  | stores {c p q env ref refs} :
      CallMove (.saved c p q env (ref :: refs) false)
        ⟨.memoryIngest (artifactInput c q env ref), .ok ()⟩ (.saved c p q env refs false)
  | missesStore {c p q env ref refs err} :
      CallMove (.saved c p q env (ref :: refs) false)
        ⟨.memoryIngest (artifactInput c q env ref), .error err⟩ (.unstored c p q env ref refs err)
  | reports {c p q env ref refs err} :
      CallMove (.unstored c p q env ref refs err)
        ⟨.publishEvent (some q.id) (.memoryArtifactPersistFailed ref.topicKey ref.type err), ()⟩
        (.saved c p q env refs false)
  | advances {q c now c' p env answer} (hallowed : q.status.advanceAllowed = true)
      (harchive : q.pType ≠ .archive) (hadvance : c.advancePhase q.pType now = .ok c') :
      CallMove (.saved c p q env [] false) ⟨.changeSave c', answer⟩
        (.saved c p q env [] true)
  | archives {q c now c₁ now' c' p env answer} (hallowed : q.status.advanceAllowed = true)
      (harchive : q.pType = .archive) (hadvance : c.advancePhase q.pType now = .ok c₁)
      (hcompleted : c₁.markCompleted now' = .ok c') (hwired : cfg.hasOutboxEnqueuer = false) :
      CallMove (.saved c p q env [] false) ⟨.changeSave c', answer⟩
        (.saved c p q env [] true)
  | archivesWithOutbox {q c now c₁ now' c' p env evID archivedAt answer}
      (hallowed : q.status.advanceAllowed = true) (harchive : q.pType = .archive)
      (hadvance : c.advancePhase q.pType now = .ok c₁)
      (hcompleted : c₁.markCompleted now' = .ok c') (hwired : cfg.hasOutboxEnqueuer = true) :
      CallMove (.saved c p q env [] false)
        ⟨.saveCompletedWithOutbox c'
          (.new evID .phaseArchived ⟨c'.id, c'.name, .archive, archivedAt⟩ archivedAt), answer⟩
        (.saved c p q env [] true)
  | closes {c p q env moved} :
      CallMove (.saved c p q env [] moved)
        ⟨.publishEvent (some q.id) (eventTypeForStatus q.status), ()⟩ .ended

end

/-! ## The outcome of a phase -/

section Follows

variable {c c₁ : Change} {p p₁ q : Phase} {env : Envelope} {persist : Bool} {inp : RunPhaseInput}
  {cfg : ServiceConfig} {call : Call} {now : Time} {reason approver : String}

variable {α β : Type} {s : Stage} {R : β → Stage → Prop} {raw : RawEnvelope} {prior : PriorPhases}
  {d : GovernanceDecision} {refs : List ArtifactRef} {moved : Bool}

theorem follows_idle_bind {Q : α → Prop} {prog : Program α} {f : α → Program β}
    (hidle : prog.Uses (fun _ _ => True) (fun op => op.idle = true) Q)
    (hf : ∀ value, Q value → (f value).Follows (CallMove cfg call) R s) :
    (prog >>= f).Follows (CallMove cfg call) R s :=
  follows_stay_bind hidle (fun _ _ hop => .stay hop) hf

theorem follows_idle {op : Op} {f : op.Ret → Program β} (hidle : op.idle = true)
    (hf : ∀ answer, (f answer).Follows (CallMove cfg call) R s) :
    (perform op >>= f).Follows (CallMove cfg call) R s :=
  follows_perform fun answer => ⟨s, .stay hidle, hf answer⟩

def Reached (c : Change) (p : Phase) (outcome : AsyncOutcome) (s : Stage) : Prop :=
  match outcome with
  | .gated => s = .ended
  | .failed _ => s.run = some (c, p)
  | .enveloped env _ _ persist => s.Offers c p env persist

theorem loadPriorPhasesFrom_follows (types : List PhaseType) (prior : PriorPhases) :
    (loadPriorPhasesFrom c.id types prior).Follows (CallMove cfg call)
      (fun result s => ∃ prior', s = .reading c p d prior' ∧
        ∀ out, result = .ok out → out = prior') (.reading c p d prior) := by
  induction types generalizing prior with
  | nil => exact ⟨prior, rfl, fun out heq => (Except.ok.inj heq).symm⟩
  | cons pt rest ih =>
    refine follows_perform fun answer => ?_
    rcases answer with (_ | _ | _ | _ | _) | row
    case error.notFound => exact ⟨_, .stay rfl, ih prior⟩
    case ok => exact ⟨_, .reads, ih _⟩
    all_goals exact ⟨_, .stay rfl, prior, rfl, fun _ heq => nomatch heq⟩

theorem acceptEnvelope_idle :
    (acceptEnvelope cfg c p inp raw).Uses (fun _ _ => True) (fun op => op.idle = true)
      fun outcome => Reached c p outcome (.back c p raw) := by
  unfold acceptEnvelope
  cases hvalid : validateEnvelope raw p.pType with
  | error err => exact uses_bind (saveSession_uses id) fun _ _ => rfl
  | ok env =>
    simp only
    split
    · exact uses_bind (saveSession_uses id) fun _ _ => rfl
    · refine uses_bind (saveSession_uses id) fun _ _ => ?_
      refine uses_bind (publishEvent_uses rfl) fun _ _ => ?_
      exact uses_bind (reviewConcerns_uses id) fun _ _ => .agent hvalid

theorem acceptEnvelope_follows :
    (acceptEnvelope cfg c p inp raw).Follows (CallMove cfg call) (Reached c p)
      (.back c p raw) := by
  refine follows_mono (follows_stay acceptEnvelope_idle fun _ _ hop => .stay hop) ?_
  rintro outcome _ ⟨hreached, rfl⟩
  exact hreached

theorem dispatchAgent_follows (hpermits : d.Permits)
    (hlaws : checkIronLaws (ironLawContext p prior) = []) :
    (dispatchAgent cfg c p inp).Follows (CallMove cfg call) (Reached c p)
      (.reading c p d prior) := by
  refine follows_perform fun answer => ?_
  match answer with
  | .error err => exact ⟨_, .unstaffed, rfl⟩
  | .ok () =>
    refine ⟨_, .staffs hpermits hlaws, follows_perform fun result => ⟨_, .sends hlaws, ?_⟩⟩
    have hrelease : (releaseSpawn c p).Follows (CallMove cfg call)
        (fun _ s => s = .back c p (rawOf result)) (.sent c p result) := by
      refine follows_perform fun answer => ⟨_, .releases, ?_⟩
      cases answer with
      | error err => exact fun _ => ⟨_, .stay rfl, rfl⟩
      | ok _ => rfl
    refine follows_bind hrelease ?_
    rintro _ _ rfl
    match result with
    | .error err => exact follows_idle_bind (saveSession_uses id) fun _ _ => rfl
    | .ok ⟨.empty, exitCode⟩ =>
      exact follows_perform fun raw => ⟨_, .recalls, acceptEnvelope_follows⟩
    | .ok ⟨.invalid, exitCode⟩ => exact acceptEnvelope_follows
    | .ok ⟨.json env, exitCode⟩ => exact acceptEnvelope_follows

theorem agentOutcome_follows (hpermits : d.Permits) :
    (agentOutcome cfg c p inp).Follows (CallMove cfg call) (Reached c p) (.reading c p d []) := by
  refine follows_bind (loadPriorPhasesFrom_follows _ []) ?_
  rintro result _ ⟨prior, rfl, hprior⟩
  cases result with
  | error err => rfl
  | ok out =>
    obtain rfl := hprior out rfl
    simp only
    split
    · rfl
    next hlaws =>
      refine follows_idle rfl fun answer => ?_
      match answer with
      | .error err => rfl
      | .ok () =>
        refine follows_idle rfl fun answer => ?_
        match answer with
        | .error err => rfl
        | .ok () =>
          refine follows_idle rfl fun answer => ?_
          match answer with
          | .error err => rfl
          | .ok () =>
            refine follows_idle_bind (publishEvent_uses rfl) fun _ _ => ?_
            exact dispatchAgent_follows hpermits (not_not.mp hlaws)

theorem applyOutcome_follows {prior' : Option PriorPhases} (hpermits : d.Permits)
    (htype : p.pType = .apply) (hwired : cfg.hasApplyExecutor = true) :
    (applyOutcome cfg c p inp prior').Follows (CallMove cfg call) (Reached c p)
      (.reading c p d prior) := by
  refine follows_perform fun result => ⟨_, .executes hpermits htype hwired, ?_⟩
  cases henv : result.envelope with
  | none => cases result.err <;> rfl
  | some env => exact follows_idle_bind (reviewConcerns_uses id) fun _ _ => .apply htype henv

theorem governedOutcome_follows :
    (governedOutcome cfg c p inp).Follows (CallMove cfg call) (Reached c p) (.working c p) := by
  refine follows_perform fun answer => ?_
  match answer with
  | .error err => exact ⟨_, .ungoverned, rfl⟩
  | .ok d =>
    refine ⟨_, .governs, follows_idle_bind (publishEvent_uses rfl) fun _ _ => ?_⟩
    have hproceed : d.Permits → (if p.pType = .apply ∧ cfg.hasApplyExecutor = true then do
          let prior ← loadPriorPhases c.id
          applyOutcome cfg c p inp prior.toOption
        else
          agentOutcome cfg c p inp).Follows (CallMove cfg call) (Reached c p)
          (.reading c p d []) := by
      intro hpermits
      split
      next happly =>
        refine follows_bind (loadPriorPhasesFrom_follows _ []) ?_
        rintro result _ ⟨prior, rfl, -⟩
        exact applyOutcome_follows hpermits happly.1 happly.2
      next => exact agentOutcome_follows hpermits
    cases hdecision : d.decision with
    | deny => rfl
    | requireApproval =>
      refine follows_idle_bind (appendAudit_uses id) fun _ _ => ?_
      exact follows_perform fun _ => ⟨_, .suspends, rfl⟩
    | allow | allowWithConstraints | unknown text =>
      exact hproceed (by simp [GovernanceDecision.Permits, hdecision])

theorem initOutcome_follows (htype : p.pType = .init) :
    (initOutcome c p).Follows (CallMove cfg call) (Reached c p) (.working c p) := by
  refine follows_perform fun answer => ⟨_, .initialises, ?_⟩
  match answer with
  | .error err => rfl
  | .ok none => rfl
  | .ok (some env) =>
    simp only
    cases hvalid : validateEnvelope (.json env) p.pType with
    | error err => rfl
    | ok env' => exact .init htype hvalid

theorem phaseOutcome_follows :
    (phaseOutcome cfg c p inp).Follows (CallMove cfg call) (Reached c p) (.working c p) := by
  unfold phaseOutcome
  split
  next hinit => exact initOutcome_follows hinit.1
  next => exact governedOutcome_follows

/-! ## Settling a phase -/

abbrev Closes (cfg : ServiceConfig) (call : Call) (prog : Program Unit) (s : Stage) : Prop :=
  prog.Follows (CallMove cfg call) (fun _ s' => s' = .ended) s

theorem failPhase_follows (hdrops : s.Drops c p p₁) :
    Closes cfg call (failPhase p₁ reason) s := by
  refine follows_perform fun answer => ?_
  match answer with
  | .error err => exact ⟨_, .givesUp hdrops, rfl⟩
  | .ok c' =>
    refine ⟨_, .fails hdrops, follows_idle_bind (ensureRunning_uses id) fun p₂ hrevived => ?_⟩
    refine follows_idle rfl fun now => ?_
    cases hcomplete : p₂.complete (some (blockedEnvelope c' p₂ reason)) now with
    | error err =>
      change Closes cfg call (appendAudit _ _ _ >>= _) _
      refine follows_idle_bind (appendAudit_uses id) fun _ _ => ?_
      exact fun _ => ⟨_, .announcesOnly hrevived hcomplete, rfl⟩
    | ok q =>
      obtain ⟨hid, -⟩ := Phase.complete_key hcomplete
      refine follows_perform fun _ => ⟨_, .blocks hrevived hcomplete, ?_⟩
      refine follows_idle_bind (appendAudit_uses id) fun _ _ => ?_
      exact fun _ => ⟨_, hid ▸ .announces, rfl⟩

theorem persistArtifacts_follows (refs : List ArtifactRef) :
    (persistArtifacts c q env refs).Follows (CallMove cfg call)
      (fun _ s => s = .saved c p q env [] false)
      (.saved c p q env (refs.filter fun ref => ref.topicKey ≠ "") false) := by
  induction refs with
  | nil => rfl
  | cons ref rest ih =>
    unfold persistArtifacts
    split
    next hempty => simpa [hempty] using ih
    next hnamed =>
      rw [List.filter_cons_of_pos (by simpa using hnamed)]
      refine follows_perform fun answer => ?_
      cases answer with
      | error err => exact ⟨_, .missesStore, follows_perform fun _ => ⟨_, .reports, ih⟩⟩
      | ok _ => exact ⟨_, .stores, ih⟩

theorem completeChange_follows (hallowed : q.status.advanceAllowed = true)
    (harchive : q.pType = .archive) (hadvance : c.advancePhase q.pType now = .ok c₁) :
    (completeChange cfg c₁).Follows (CallMove cfg call)
      (fun _ s => ∃ moved, s = .saved c p q env [] moved) (.saved c p q env [] false) := by
  refine follows_idle rfl fun now' => ?_
  cases hcompleted : c₁.markCompleted now' with
  | error err => exact ⟨false, rfl⟩
  | ok c' =>
    have hpublish : (publishArchived c').Follows (CallMove cfg call)
        (fun _ s => ∃ moved, s = .saved c p q env [] moved) (.saved c p q env [] true) := by
      refine follows_mono (follows_stay (publishArchived_uses id) fun _ _ hop => .stay hop) ?_
      exact fun _ _ hstay => ⟨true, hstay.2⟩
    refine follows_idle rfl fun archivedAt => ?_
    simp only
    split
    next hwired =>
      refine follows_idle rfl fun answer => ?_
      match answer with
      | .error err => exact ⟨false, rfl⟩
      | .ok evID =>
        refine follows_perform fun answer =>
          ⟨_, .archivesWithOutbox hallowed harchive hadvance hcompleted hwired, ?_⟩
        cases answer with
        | error err => exact ⟨true, rfl⟩
        | ok _ => exact hpublish
    next hwired =>
      refine follows_perform fun answer =>
        ⟨_, .archives hallowed harchive hadvance hcompleted (by simpa using hwired), ?_⟩
      cases answer with
      | error err => exact ⟨true, rfl⟩
      | ok _ => exact hpublish

theorem advanceChange_follows (hallowed : q.status.advanceAllowed = true) :
    (advanceChange cfg c q.pType).Follows (CallMove cfg call)
      (fun _ s => ∃ moved, s = .saved c p q env [] moved) (.saved c p q env [] false) := by
  refine follows_idle rfl fun now => ?_
  cases hadvance : c.advancePhase q.pType now with
  | error err => exact ⟨false, rfl⟩
  | ok c' =>
    simp only
    split
    next harchive => exact completeChange_follows hallowed harchive hadvance
    next harchive =>
      exact follows_perform fun _ => ⟨_, .advances hallowed harchive hadvance, true, rfl⟩

theorem afterSave_follows :
    Closes cfg call (afterSave cfg c q env persist)
      (.saved c p q env (toStore env persist) false) := by
  have hpersist : (if persist = true then persistArtifacts c q env env.artifactsSaved
      else pure ()).Follows (CallMove cfg call) (fun _ s => s = .saved c p q env [] false)
      (.saved c p q env (toStore env persist) false) := by
    cases persist with
    | true => exact persistArtifacts_follows env.artifactsSaved
    | false => rfl
  have hadvance : (if q.status.advanceAllowed = true then advanceChange cfg c q.pType
      else pure ()).Follows (CallMove cfg call)
      (fun _ s => ∃ moved, s = .saved c p q env [] moved) (.saved c p q env [] false) := by
    split
    next hallowed => exact advanceChange_follows hallowed
    next => exact ⟨false, rfl⟩
  refine follows_bind hpersist ?_
  rintro _ _ rfl
  refine follows_bind hadvance ?_
  rintro _ _ ⟨moved, rfl⟩
  refine follows_idle_bind (appendAudit_uses id) fun _ _ => ?_
  exact fun _ => ⟨_, .closes, rfl⟩

theorem runAsync_follows : Closes cfg call (runAsync cfg c p inp) (.working c p) := by
  refine follows_bind phaseOutcome_follows fun outcome s hreached => ?_
  cases outcome with
  | gated => exact hreached
  | failed reason => exact failPhase_follows (.outcome hreached)
  | enveloped env concerns label persist =>
    refine follows_idle rfl fun now => ?_
    cases hcomplete : (withConcerns env p concerns).2.complete
        (some (withConcerns env p concerns).1) now with
    | error err => exact failPhase_follows (.refused concerns hreached)
    | ok q =>
      refine follows_perform fun answer => ?_
      cases answer with
      | error err => exact ⟨_, .loses hreached hcomplete, failPhase_follows .lost⟩
      | ok _ => exact ⟨_, .completes hreached hcomplete, afterSave_follows⟩

/-! ## Inbound calls -/

/-- A synchronous part leads to a stage at which a refusal can be given, or the phase scheduled. -/
def Synced (cfg : ServiceConfig) (call : Call) (sync : Except SvcErr (Change × Phase)) (s : Stage) :
    Prop :=
  match sync with
  | .error _ => s.pending = true
  | .ok (c, p) => CallMove cfg call s
      ⟨.returned (.ok (.scheduled p.changeID p.id p.status)), ()⟩ (.working c p)

theorem refuse_follows {err : SvcErr} (hpending : s.pending = true) :
    Closes cfg call (returnReply (.error err)) s :=
  fun _ => ⟨_, .refuses hpending, rfl⟩

theorem schedule_follows {sync : Except SvcErr (Change × Phase)} (hsync : Synced cfg call sync s) :
    Closes cfg call (schedule cfg inp sync) s := by
  cases sync with
  | error err => exact refuse_follows hsync
  | ok pair => exact follows_perform fun _ => ⟨_, hsync, runAsync_follows⟩

theorem startPhase_follows (hvalid : isNextValidTransition c.currentPhase inp.phaseType = true) :
    (runSync.startPhase inp c).Follows (CallMove cfg (.run inp)) (Synced cfg (.run inp))
      (.free inp c) := by
  refine follows_perform fun answer => ?_
  match answer with
  | .error err => exact ⟨_, .stay rfl, rfl⟩
  | .ok pid =>
    refine ⟨_, .names, follows_perform fun prior => ⟨_, .informs, ?_⟩⟩
    refine follows_idle rfl fun now => ?_
    cases hstart : (newPhase inp pid prior).start now with
    | error err => rfl
    | ok p =>
      refine follows_perform fun answer => ⟨_, .starts rfl hvalid hstart, ?_⟩
      cases answer with
      | error err => rfl
      | ok _ =>
        refine follows_idle_bind (appendAudit_uses id) fun _ _ => ?_
        exact follows_idle_bind (publishEvent_uses rfl) fun _ _ => .schedules

theorem runSync_follows :
    (runSync inp).Follows (CallMove cfg (.run inp)) (Synced cfg (.run inp)) .begun := by
  refine follows_perform fun answer => ?_
  match answer with
  | .error err => exact ⟨_, .noChange, rfl⟩
  | .ok c =>
    refine ⟨_, .loads, ?_⟩
    simp only
    split
    · rfl
    next hvalid =>
      have hvalid' : isNextValidTransition c.currentPhase inp.phaseType = true := by
        simpa using hvalid
      refine follows_idle rfl fun answer => ?_
      match answer with
      | .error err => rfl
      | .ok () =>
        refine follows_perform fun answer => ?_
        rcases answer with (_ | _ | _ | _ | _) | running
        case error.notFound => exact ⟨_, .frees rfl hvalid', startPhase_follows hvalid'⟩
        all_goals exact ⟨_, .stay rfl, rfl⟩

theorem resumeSync_follows (id : PhaseID) :
    (resumeSync id).Follows (CallMove cfg (.resume id)) (Synced cfg (.resume id)) .begun := by
  refine follows_perform fun answer => ?_
  match answer with
  | .error err => exact ⟨_, .noPhase, rfl⟩
  | .ok p =>
    refine ⟨_, .fetches, ?_⟩
    simp only
    split
    · rfl
    next hresumable =>
      have hresumable' : resumable p = true := by simpa using hresumable
      refine follows_perform fun answer => ?_
      match answer with
      | .error err => exact ⟨_, .noChange, rfl⟩
      | .ok c =>
        refine ⟨_, .joins, follows_idle rfl fun now => ?_⟩
        cases hresumed : resumed p now with
        | none => exact .continues rfl hresumable' hresumed
        | some result =>
          cases result with
          | error err => rfl
          | ok p' =>
            refine follows_perform fun answer => ⟨_, .restarts rfl hresumable' hresumed, ?_⟩
            cases answer with
            | error err => rfl
            | ok _ => exact .schedules

theorem gatedPhase_follows (id : PhaseID) :
    (gatedPhase id approver).Follows (CallMove cfg call)
      (fun result s => s.pending = true ∧
        ∀ p, result = .ok p → s = .fetched id p ∧ p.status.isTerminal = false) .begun := by
  unfold gatedPhase
  split
  · exact ⟨rfl, fun _ heq => nomatch heq⟩
  · refine follows_perform fun answer => ?_
    match answer with
    | .error err => exact ⟨_, .noPhase, rfl, fun _ heq => nomatch heq⟩
    | .ok p =>
      refine ⟨_, .fetches, ?_⟩
      simp only
      split
      · exact ⟨rfl, fun _ heq => nomatch heq⟩
      next hopen =>
        refine follows_idle_bind (checkGateState_uses fun h => h) fun gate _ => ?_
        match gate with
        | .error err => exact ⟨rfl, fun _ heq => nomatch heq⟩
        | .ok () =>
          refine ⟨rfl, fun p' heq => ?_⟩
          cases heq
          exact ⟨rfl, by simpa using hopen⟩

theorem approve_follows (id : PhaseID) :
    Closes cfg (.approve id approver) (approve id approver) .begun := by
  refine follows_bind (gatedPhase_follows id) ?_
  rintro result s ⟨hpending, -⟩
  cases result with
  | error err => exact refuse_follows hpending
  | ok p =>
    refine follows_idle_bind (appendAudit_uses fun h => h) fun _ _ => ?_
    refine follows_idle_bind (publishEvent_uses rfl) fun _ _ => ?_
    exact fun _ => ⟨_, .acknowledges hpending fun _ _ heq => (nomatch heq), rfl⟩

theorem rejectPhase_follows (id : PhaseID) (hopen : p.status.isTerminal = false) :
    (rejectPhase p approver reason).Follows (CallMove cfg (.reject id approver reason))
      (fun reply s => s.pending = true ∧ ∀ r, reply = .ok r → r = .acknowledged)
      (.fetched id p) := by
  refine follows_perform fun answer => ?_
  match answer with
  | .error err => exact ⟨_, .noChange, rfl, fun _ heq => nomatch heq⟩
  | .ok c =>
    refine ⟨_, .joins, follows_idle rfl fun now => ?_⟩
    cases hstarted : (if p.status ≠ .running then p.start now else .ok p) with
    | error err =>
      simp only
      exact ⟨rfl, fun _ heq => nomatch heq⟩
    | ok p₁ =>
      have hrevived : Revived p p₁ := by
        split_ifs at hstarted with hrun
        · exact .inr ⟨hrun, now, hstarted⟩
        · exact .inl (Except.ok.inj hstarted).symm
      simp only
      refine follows_idle rfl fun now' => ?_
      cases hcomplete : p₁.complete (some (blockedEnvelope c p₁
          ("Rejected by " ++ approver ++ ": " ++ reason))) now' with
      | error err => exact ⟨rfl, fun _ heq => nomatch heq⟩
      | ok q =>
        refine follows_perform fun answer => ⟨_, .rejects rfl hopen hrevived hcomplete, ?_⟩
        cases answer with
        | error err => exact ⟨rfl, fun _ heq => nomatch heq⟩
        | ok _ =>
          refine follows_idle_bind (appendAudit_uses fun h => h) fun _ _ => ?_
          refine follows_idle_bind (publishEvent_uses rfl) fun _ _ => ?_
          exact ⟨rfl, fun _ heq => (Except.ok.inj heq).symm⟩

theorem reject_follows (id : PhaseID) :
    Closes cfg (.reject id approver reason) (reject id approver reason) .begun := by
  refine follows_bind (gatedPhase_follows id) ?_
  rintro result s ⟨hpending, hfetched⟩
  cases result with
  | error err => exact refuse_follows hpending
  | ok p =>
    obtain ⟨rfl, hopen⟩ := hfetched p rfl
    refine follows_bind (rejectPhase_follows id hopen) ?_
    rintro reply s ⟨hpending, hreply⟩
    cases reply with
    | error err => exact refuse_follows hpending
    | ok r =>
      rw [hreply r rfl]
      exact fun _ => ⟨_, .acknowledges hpending fun _ _ heq => (nomatch heq), rfl⟩

theorem abort_follows {cid : ChangeID} :
    Closes cfg (.abort cid reason) (abort cid reason) .begun := by
  refine follows_perform fun answer => ?_
  match answer with
  | .error err => exact ⟨_, .noChange, refuse_follows rfl⟩
  | .ok c =>
    refine ⟨_, .loads, follows_idle rfl fun now => ?_⟩
    cases habort : c.abort reason now with
    | error err => exact refuse_follows rfl
    | ok c' =>
      refine follows_perform fun answer => ⟨_, .aborts rfl habort, ?_⟩
      cases answer with
      | error err => exact refuse_follows rfl
      | ok _ => exact fun _ => ⟨_, .acknowledges rfl fun _ _ _ => ⟨c', rfl⟩, rfl⟩

theorem markInterruptedAll_follows {stuck : List Phase} (rest : List Phase)
    (hsub : ∀ p ∈ rest, p ∈ stuck) :
    (markInterruptedAll rest).Follows (CallMove cfg call) (fun _ s => s = .sweeping stuck)
      (.sweeping stuck) := by
  induction rest with
  | nil => rfl
  | cons p rest ih =>
    have hrest := ih fun q hq => hsub q (List.mem_cons_of_mem p hq)
    unfold markInterruptedAll
    unfold Phase.markInterrupted
    split
    · exact hrest
    · exact follows_perform fun _ => ⟨_, .interrupts (hsub p List.mem_cons_self), hrest⟩

theorem recover_follows : Closes cfg .recover recover .begun := by
  refine follows_perform fun answer => ?_
  match answer with
  | .error err => exact ⟨_, .stay rfl, refuse_follows rfl⟩
  | .ok stuck =>
    refine ⟨_, .lists rfl, follows_bind (markInterruptedAll_follows stuck fun _ h => h) ?_⟩
    rintro _ _ rfl
    exact fun _ => ⟨_, .acknowledges rfl fun _ _ heq => (nomatch heq), rfl⟩

theorem main_follows (cfg : ServiceConfig) (call : Call) :
    Closes cfg call (main cfg call) .begun := by
  cases call with
  | run inp => exact follows_bind runSync_follows fun _ _ hsync => schedule_follows hsync
  | resume id =>
    refine follows_bind (resumeSync_follows id) fun sync s hsync => ?_
    cases sync with
    | error err => exact refuse_follows hsync
    | ok pair => exact schedule_follows hsync
  | approve id approver => exact approve_follows id
  | reject id approver reason => exact reject_follows id
  | abort cid reason => exact abort_follows
  | recover => exact recover_follows

end Follows

end SophiaOrchestrator
