import SophiaOrchestrator.Apply.TeamFootprint
import SophiaOrchestrator.Apply.Justified
import SophiaOrchestrator.Effects.Protocol

/-!
# How a task is attempted

The goroutine of a task makes a session, claims the task and attempts it.  For each attempt it asks
the spawn governor for a slot, builds a prompt, dispatches an agent, gives the slot back and writes
down what came of it; without quota there is one more dispatch, without a slot, if a fallback model
is configured.
-/

namespace SophiaOrchestrator.Apply

open Effects Prog

def lacksQuota : Except DispatchErr AgentResult → Bool
  | .error (.quota _) => true
  | _ => false

/-- Whether the valid envelope of the agent says that the task is done. -/
def agentVerdict : Except DispatchErr AgentResult → Option Bool
  | .ok res => (validateEnvelope res.envelopeRaw .apply).toOption.map fun env =>
      decide (env.status = .done ∨ env.status = .doneWithConcerns)
  | .error _ => none

/-! ## Slots and sessions -/

section

variable {S : Type} {move : Protocol Op Op.Ret S} {x : Nat}

/-- The governor is asked for a slot again and again, until it grants one or the rounds are used
up; `waits` is the stage before the next round, which knows whether it has refused one. -/
theorem acquireWithSaturationRetries_follows (waits : Bool → S) {ready : S}
    (hgranted : ∀ refused, move (waits refused) ⟨.spawnAcquire x, .ok ()⟩ ready)
    (hrefused : ∀ refused err, move (waits refused) ⟨.spawnAcquire x, .error err⟩ (waits true))
    (hbackoff : ∀ n answer, move (waits true) ⟨.backoff x n, answer⟩ (waits true)) :
    (acquireWithSaturationRetries x).Follows move
      (fun granted s => s = match granted with
        | .ok _ => ready
        | .error _ => waits true) (waits false) := by
  suffices hrounds : ∀ rounds refused, 0 < rounds ∨ refused = true →
      (acquireFrom x rounds).Follows move _ (waits refused) from
    hrounds _ false (.inl (by decide))
  intro rounds
  induction rounds with
  | zero =>
    rintro refused (hpos | rfl)
    · exact absurd hpos (lt_irrefl 0)
    · rfl
  | succ rounds ih =>
    refine fun refused _ => follows_perform fun answer => ?_
    rcases answer with (_ | text) | _
    · refine ⟨_, hrefused refused _, follows_perform fun answer => ⟨_, hbackoff _ answer, ?_⟩⟩
      cases answer with
      | ctxDone => rfl
      | taken => exact ih _ (.inr rfl)
    · exact ⟨_, hrefused refused _, rfl⟩
    · exact ⟨_, hgranted refused, rfl⟩

theorem Session.new_eq_error {sid : SessionID} {cid : ChangeID} {pid : PhaseID} {role : AgentRole}
    {validProvider : Bool} {command : String} {now : Time} {err : SessionErr}
    (hnew : Session.new sid cid pid role validProvider command now = .error err) :
    validProvider = false ∨ command = "" := by
  unfold Session.new at hnew
  split at hnew
  · exact .inl ‹_›
  · split at hnew
    · exact .inr ‹_›
    · cases hnew

/-- A session that cannot be made is a mishap, unless its provider or its command is refused. -/
theorem makeSession_follows {cfg : RunConfig} {c : Change} {p : Phase} {role : AgentRole}
    {command : String} {start failed : S}
    (hstay : ∀ op answer, op.notes = true → move start ⟨op, answer⟩ start)
    (hfailed : ∀ ev : Event, ev.op.notes = true → mishap ev = true → move start ev failed)
    (hunmade : ∀ time : Time, cfg.validProvider = false ∨ command = "" →
      move start ⟨.now, time⟩ failed) :
    (makeSession cfg x c p role command).Follows move
      (fun made s => s = match made with
        | .ok _ => start
        | .error _ => failed) start := by
  refine follows_perform fun answer => ?_
  cases answer with
  | error err => exact ⟨_, hfailed _ rfl rfl, rfl⟩
  | ok sid =>
    refine ⟨_, hstay _ _ rfl, follows_perform fun now => ?_⟩
    cases hnew : Session.new sid c.id p.id role cfg.validProvider command now with
    | error err => exact ⟨_, hunmade now (Session.new_eq_error hnew), rfl⟩
    | ok sess =>
      refine ⟨_, hstay _ _ rfl, follows_perform fun answer => ?_⟩
      cases answer with
      | error err => exact ⟨_, hfailed _ rfl rfl, rfl⟩
      | ok _ => exact ⟨_, hstay _ _ rfl, rfl⟩

end

/-! ## The goroutine of a task -/

/-- Where the goroutine of a task stands: how many attempts remain after the one at hand, and the
task as it has it in memory.  `refused` says whether the governor has refused it a slot, `slot`
whether it holds one, `quota` whether the agent had no quota left, and `verdict` what its envelope
says, if that is valid. -/
inductive TaskStage where
  | fresh
  | start
  | waits (refused : Bool) (n : Nat) (task : Task)
  | ready (slot : Bool) (n : Nat) (task : Task)
  | informed (slot : Bool) (n : Nat) (task : Task) (status : List (PhaseType × String))
  | prompted (slot : Bool) (n : Nat) (task : Task)
  | sent (slot : Bool) (n : Nat) (task : Task) (quota : Bool) (verdict : Option Bool)
  | freed (n : Nat) (task : Task) (quota : Bool)
  | ended (success : Bool)
  | told
  | leaving
  | gone

inductive TaskStage.Ends (t : Task) : Bool → TaskStage → Prop where
  | done (hdone : t.status = .done) : Ends t true .start
  | ended {success} : Ends t success (.ended success)
  | refused {n task} : Ends t false (.waits true n task)
  | exhausted {task} : Ends t false (.waits false 0 task)

/-- How many attempts there are from the next one on, or from the one at hand, and the task. -/
def TaskStage.left? : TaskStage → Option (Nat × Task)
  | .waits _ n task => some (n, task)
  | .ready _ n task | .informed _ n task _ | .prompted _ n task | .sent _ n task _ _
  | .freed n task _ => some (n + 1, task)
  | _ => none

def TaskStage.slot : TaskStage → Bool
  | .ready slot _ _ | .informed slot _ _ _ | .prompted slot _ _ | .sent slot _ _ _ _ => slot
  | _ => false

/-- The operation takes no part in the attempts. -/
def Op.incidental : Op → Bool
  | .ctxErr _ | .memoryGet _ _ .applyProgress | .backoff _ _ | .recordSuccess _
  | .recordQuotaOutcome _ _ => true
  | op => op.notes

theorem Op.incidental_of_notes {op : Op} (hop : op.notes = true) : op.incidental = true := by
  cases op <;> first | exact hop | cases hop

section

variable (cfg : RunConfig) (k x team : Nat) (c : Change) (t : Task)

/-- The moves of the goroutine `k` of the task `t`. -/
inductive TaskMove : Protocol Op Op.Ret TaskStage where
  | stay {s op answer} (hop : op.incidental = true) :
      TaskMove s ⟨op, answer⟩ s
  | slotted : TaskMove .fresh ⟨.takeImplSlot x team, .taken⟩ .start
  | unslotted : TaskMove .fresh ⟨.takeImplSlot x team, .ctxDone⟩ .leaving
  | failed {ev} (hop : ev.op.incidental = true) (hev : mishap ev = true) :
      TaskMove .start ev (.ended false)
  | unmade {time} (hnew : cfg.validProvider = false ∨ t.description = "") :
      TaskMove .start ⟨.now, time⟩ (.ended false)
  | claimed {sid} (hopen : t.status ≠ .done) :
      TaskMove .start ⟨.claimTask x t.id sid, .ok true⟩ (.waits false maxAttempts t)
  | unclaimed {sid answer} (hopen : t.status ≠ .done) (hanswer : answer ≠ .ok true) :
      TaskMove .start ⟨.claimTask x t.id sid, answer⟩ (.ended false)
  | cancelled {n task} :
      TaskMove (.waits false n task) ⟨.ctxErr x, true⟩ (.ended false)
  | granted {refused n task} :
      TaskMove (.waits refused (n + 1) task) ⟨.spawnAcquire x, .ok ()⟩ (.ready true n task)
  | refused {refused n task err} :
      TaskMove (.waits refused (n + 1) task) ⟨.spawnAcquire x, .error err⟩
        (.waits true (n + 1) task)
  | reads {slot n task status} :
      TaskMove (.ready slot n task) ⟨.readPriorPhasesStatus, status⟩
        (.informed slot n task status)
  | prompted {slot n task status path} :
      TaskMove (.informed slot n task status)
        ⟨.buildPrompt c task path status, .ok ()⟩ (.prompted slot n task)
  | unprompted {slot n task status path err} :
      TaskMove (.informed slot n task status)
        ⟨.buildPrompt c task path status, .error err⟩ (.sent slot n task false none)
  | dispatched {slot n task path model answer} (hmodel : model = "" ↔ slot = true) :
      TaskMove (.prompted slot n task)
        ⟨.dispatch x ⟨.implement task.id, path, model⟩, answer⟩
        (.sent slot n task (lacksQuota answer) (agentVerdict answer))
  | completed {slot n task success env answer} :
      TaskMove (.sent slot n task false (some success))
        ⟨.saveTask x ((task.complete env).toOption.getD task), answer⟩
        (.sent slot n ((task.complete env).toOption.getD task) false (some success))
  | freed {n task quota verdict answer} :
      TaskMove (.sent true n task quota verdict) ⟨.spawnRelease x, answer⟩
        (.freed n task quota)
  | retried {n task answer} (hretry : (task.recordAttempt false).2 = none) :
      TaskMove (.freed n task false)
        ⟨.saveTask x (task.recordAttempt false).1, answer⟩ 
        (.waits false n (task.recordAttempt false).1)
  | counted {n task success answer} :
      TaskMove (.freed n task false)
        ⟨.saveTask x (task.recordAttempt success).1, answer⟩ (.ended success)
  | fallsBack {n task answer} (hmodel : cfg.fallbackModel ≠ "") :
      TaskMove (.freed n task true) ⟨.memoryGet x c .applyProgress, answer⟩
        (.ready false n task)
  | used {n task answer} :
      TaskMove (.sent false n task false (some true))
        ⟨.saveTask x (task.recordAttempt true).1, answer⟩ (.ended true)
  | released {n task answer} :
      TaskMove (.freed n task true) ⟨.saveTask x (task.release.toOption.getD task), answer⟩
        (.ended false)
  | abandoned {n task quota verdict answer} (hfailed : verdict ≠ some true) :
      TaskMove (.sent false n task quota verdict)
        ⟨.saveTask x (task.release.toOption.getD task), answer⟩ (.ended false)
  | told {s success} (hs : s.Ends t success) :
      TaskMove s ⟨.setTaskOutcome team t.id success, ()⟩ .told
  | unslots : TaskMove .told ⟨.releaseImplSlot team, ()⟩ .leaving
  | leaves : TaskMove .leaving ⟨.taskDone team k, ()⟩ .gone

end

section Programs

variable {α : Type} {Q : α → Prop} {prog : Program α} {cfg : RunConfig} {k x team n : Nat}
  {c : Change} {p : Phase} {group : Group} {t task : Task} {s : TaskStage} {sess : Session}
    {slot : Bool}

theorem follows_notes {β : Type} {f : α → Program β} {R : β → TaskStage → Prop}
    (hprog : Within Op.notes Q prog)
    (hf : ∀ value, Q value → (f value).Follows (TaskMove cfg k x team c t) R s) :
    (prog >>= f).Follows (TaskMove cfg k x team c t) R s :=
  follows_stay_bind hprog (fun _ _ hop => .stay (Op.incidental_of_notes hop)) hf

theorem follows_saveTask {β : Type} {f : Unit → Program β} {R : β → TaskStage → Prop}
    (s' : TaskStage)
    (hmove : ∀ answer, TaskMove cfg k x team c t s ⟨.saveTask x task, answer⟩ s')
    (hf : (f ()).Follows (TaskMove cfg k x team c t) R s') :
    (saveTaskOrAudit x p task >>= f).Follows (TaskMove cfg k x team c t) R s := by
  intro answer
  refine ⟨s', hmove answer, ?_⟩
  cases answer with
  | error err => exact follows_notes appendAuditErr_notes fun _ _ => hf
  | ok _ => exact hf

def Attempt.At (slot : Bool) (n : Nat) (attempt : Attempt) (s : TaskStage) : Prop :=
  ∃ verdict, s = .sent slot n attempt.task attempt.quota.isSome verdict ∧
    (attempt.quota.isNone ∧ attempt.success ↔ verdict = some true)

theorem acceptImplement_follows (raw : RawEnvelope) (exitCode : Int) :
    (acceptImplement x p task sess raw exitCode).Follows (TaskMove cfg k x team c t)
    (Attempt.At slot n)
      (.sent slot n task false ((validateEnvelope raw .apply).toOption.map fun env =>
        decide (env.status = .done ∨ env.status = .doneWithConcerns))) := by
  unfold acceptImplement
  cases validateEnvelope raw .apply with
  | error err =>
    exact follows_notes (publishEvent_notes p _) fun _ _ => ⟨none, rfl, by simp⟩
  | ok env =>
    refine follows_perform fun now => ⟨_, .stay rfl, ?_⟩
    refine follows_notes transitionOrAudit_notes fun sess _ => ?_
    refine follows_notes saveSessionOrAudit_notes fun _ _ => ?_
    refine follows_notes transitionOrAudit_notes fun task' htask => ?_
    subst htask
    exact follows_saveTask _ (fun _ => .completed) ⟨_, rfl, by simp⟩

theorem dispatchWith_follows (model : String)
    (hfirst : ∀ answer, TaskMove cfg k x team c t s ⟨.memoryGet x c .applyProgress, answer⟩
      (.ready slot n task)) (hmodel : model = "" ↔ slot = true) :
    (dispatchWith x c p group task sess model).Follows (TaskMove cfg k x team c t)
    (Attempt.At slot n)
      s := by
  refine follows_perform fun answer => ⟨_, hfirst answer, ?_⟩
  refine follows_perform fun status => ⟨_, .reads, follows_perform fun answer => ?_⟩
  have hfailed : ∀ (quota : Option QuotaErr) (sess : Session), Attempt.At slot n
      ⟨false, quota, task, sess⟩ (.sent slot n task quota.isSome none) :=
    fun _ _ => ⟨none, rfl, by simp⟩
  cases answer with
  | error err => exact ⟨_, .unprompted, hfailed none sess⟩
  | ok _ =>
    refine ⟨_, .prompted, follows_notes transitionOrAudit_notes fun sess _ => ?_⟩
    refine follows_perform fun answer => ⟨_, .dispatched hmodel, ?_⟩
    rcases answer with (err | text | text) | res
    · exact hfailed (some err) sess
    · exact follows_notes (publishEvent_notes p _) fun _ _ => hfailed none sess
    · exact follows_notes (publishEvent_notes p _) fun _ _ => hfailed none sess
    · refine follows_notes (agentEnvelope_notes x _ res) fun raw hraw => ?_
      rw [agentVerdict, ← hraw]
      exact acceptImplement_follows raw res.exitCode

theorem quotaFailFast_follows (err : QuotaErr)
    (hrelease : ∀ answer, TaskMove cfg k x team c t s
      ⟨.saveTask x (task.release.toOption.getD task), answer⟩ (.ended false)) :
    (quotaFailFast x p task err).Follows (TaskMove cfg k x team c t) (TaskStage.Ends t) s := by
  refine follows_notes transitionOrAudit_notes fun task' htask => ?_
  subst htask
  refine follows_saveTask _ hrelease ?_
  exact follows_notes (publishEvent_notes p _) fun _ _ answer => ⟨_, .stay rfl, .ended⟩

theorem quotaFallback_follows (err : QuotaErr) :
    (quotaFallback cfg x c p group task sess err).Follows (TaskMove cfg k x team c t)
    (TaskStage.Ends t)
      (.freed n task true) := by
  unfold quotaFallback
  split
  case isTrue => exact quotaFailFast_follows err fun _ => .released
  case isFalse hmodel =>
    refine follows_bind (dispatchWith_follows _ (fun _ => .fallsBack hmodel)
      (by simp [hmodel])) ?_
    rintro second _ ⟨verdict, rfl, hverdict⟩
    split
    case isFalse hfailed =>
      exact quotaFailFast_follows err fun _ => .abandoned (mt hverdict.mpr hfailed)
    case isTrue hsuccess =>
      rw [Option.isSome_eq_false_iff.mpr hsuccess.1, hverdict.mp hsuccess]
      refine follows_notes (publishEvent_notes p _) fun _ _ => ?_
      refine follows_saveTask _ (fun _ => .used) ?_
      have hcounted : (second.task.recordAttempt true).2.isSome = false := by
        simp [Task.recordAttempt]
      rw [if_neg (by simp [hcounted])]
      exact fun _ => ⟨_, .stay rfl, .ended⟩

theorem recordOutcomeOf_follows {first : Attempt} {again : Task → Session → Program Bool}
    (hagain : ∀ task sess, (again task sess).Follows (TaskMove cfg k x team c t) (TaskStage.Ends t)
      (.waits false n task)) :
    (recordOutcomeOf cfg x c p group first again).Follows (TaskMove cfg k x team c t)
    (TaskStage.Ends t)
      (.freed n first.task first.quota.isSome) := by
  unfold recordOutcomeOf
  cases hquota : first.quota with
  | some err => exact quotaFallback_follows err
  | none =>
    dsimp only [Option.isSome_none]
    cases first.success with
    | true => exact follows_saveTask _ (fun _ => .counted) fun _ => ⟨_, .stay rfl, .ended⟩
    | false =>
      rw [if_neg Bool.false_ne_true]
      split
      next =>
        refine follows_saveTask _ (fun _ => .counted) ?_
        exact follows_notes (publishEvent_notes p _) fun _ _ => .ended
      next hretry =>
        refine follows_saveTask _ (fun _ => .retried (by simpa using hretry)) ?_
        exact follows_notes (publishEvent_notes p _) fun _ _ => hagain _ _

theorem attempts_follows (task : Task) (sess : Session) :
    (attempts cfg x c p group n task sess).Follows (TaskMove cfg k x team c t) (TaskStage.Ends t)
      (.waits false n task) := by
  induction n generalizing task sess with
  | zero => exact .exhausted
  | succ n ih =>
    refine follows_perform fun cancelled => ?_
    cases cancelled with
    | true => exact ⟨_, .cancelled, .ended⟩
    | false =>
      refine ⟨_, .stay rfl, follows_bind (acquireWithSaturationRetries_follows
        (TaskStage.waits · (n + 1) task) (fun _ => .granted) (fun _ _ => .refused)
        fun _ _ => .stay rfl) ?_⟩
      rintro granted _ rfl
      cases granted with
      | error err => exact follows_notes (publishEvent_notes p _) fun _ _ => .refused
      | ok _ =>
        refine follows_bind (dispatchWith_follows "" (fun _ => .stay rfl) (by simp)) ?_
        rintro first _ ⟨verdict, rfl, -⟩
        refine follows_perform fun answer => ⟨_, .freed, ?_⟩
        cases answer with
        | error err => exact follows_notes appendAuditErr_notes fun _ _ =>
          recordOutcomeOf_follows ih
        | ok _ => exact recordOutcomeOf_follows ih

theorem runImplementWithRetry_follows :
    (runImplementWithRetry cfg x c p group t).Follows (TaskMove cfg k x team c t)
    (TaskStage.Ends t) .start := by
  unfold runImplementWithRetry
  split
  case isTrue hdone => exact .done hdone
  case isFalse hopen =>
    refine follows_bind (makeSession_follows (fun op _ hop => .stay (Op.incidental_of_notes hop))
      (fun _ hop hev => .failed (Op.incidental_of_notes hop) hev) fun _ => .unmade) ?_
    rintro made _ rfl
    cases made with
    | error text => exact follows_notes (publishEvent_notes p _) fun _ _ => .ended
    | ok sess =>
      refine follows_perform fun answer => ?_
      rcases answer with err | _ | _
      · refine ⟨_, .unclaimed hopen (by simp), ?_⟩
        exact follows_notes (publishEvent_notes p _) fun _ _ => .ended
      · refine ⟨_, .unclaimed hopen (by simp), ?_⟩
        exact follows_notes (publishEvent_notes p _) fun _ _ => .ended
      · refine ⟨_, .claimed hopen, ?_⟩
        exact follows_notes (publishEvent_notes p _) fun _ _ => attempts_follows t sess

theorem taskGoroutine_follows :
    (taskGoroutine cfg k x team c p group t).Follows (TaskMove cfg k x team c t)
      (fun _ s => s = .gone) .fresh := by
  have hleave : (perform (Op.taskDone team k)).Follows (TaskMove cfg k x team c t)
      (fun _ s => s = .gone) .leaving := fun _ => ⟨_, .leaves, rfl⟩
  refine follows_perform fun answer => ?_
  cases answer with
  | ctxDone => exact ⟨_, .unslotted, hleave⟩
  | taken =>
    refine ⟨_, .slotted, follows_bind runImplementWithRetry_follows fun success s hs => ?_⟩
    refine follows_perform fun _ => ⟨_, .told hs, ?_⟩
    exact follows_perform fun _ => ⟨_, .unslots, hleave⟩

end Programs

end SophiaOrchestrator.Apply
