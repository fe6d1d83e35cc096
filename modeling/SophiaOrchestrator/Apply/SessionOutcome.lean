import SophiaOrchestrator.Apply.QuotaResume

/-!
# The session of a task

`runImplementWithRetry` makes one session for all its attempts.  The first attempt with a valid
envelope ends the session.  The outcome of every later one is refused, which is only recorded,
so the session keeps the first outcome.  Without a valid envelope it is never saved again, and
stays pending.

The call runs among others, which may do anything but write the row of its session.
-/

namespace SophiaOrchestrator.Apply

open Effects Prog

/-! ## What a call has done -/

def validOutcome (raw : RawEnvelope) (exitCode : Int) : Option (Envelope × Int) :=
  (validateEnvelope raw .apply).toOption.map fun env => (env, exitCode)

/-- The outcome that comes with an operation.  An envelope that is made up from the worktree is
never valid. -/
def produces : Event → Option (Envelope × Int)
  | ⟨.dispatch _ _, .ok res⟩ => validOutcome res.envelopeRaw res.exitCode
  | _ => none

/-- The outcomes of the attempts with a valid envelope, the last one first. -/
def validOutcomes : History → List (Envelope × Int)
  | [] => []
  | ev :: past => (produces ev).toList ++ validOutcomes past

def savedSession : Event → Option SessionID
  | ⟨.saveSession _ sess, .ok ()⟩ => some sess.id
  | _ => none

/-- The session that the call has made: the first one it has saved. -/
def persistedSession : History → Option SessionID
  | [] => none
  | ev :: past => (persistedSession past).or (savedSession ev)

def savesSession : Event → Bool
  | ⟨.saveSession _ _, .error _⟩ => false
  | _ => true

def SameSessionRow (sid : SessionID) (s s' : State) : Prop :=
  s'.sessions.findTarget sid = s.sessions.findTarget sid

instance (sid : SessionID) : Std.Refl (SameSessionRow sid) where
  refl _ := rfl

/-- The persisted session has ended, and carries the outcome of the last attempt that produced
a valid envelope. -/
def CarriesLastOutcome (sid : SessionID) (s : State) (h : History) : Prop :=
  ∃ row, s.sessions.findTarget sid = some row ∧ row.status.isTerminal = true ∧
    ∀ env exit, (validOutcomes h).head? = some (env, exit) →
      row.envelope = some env ∧ row.exitCode = some exit

/-- The call, made in the state `s` among others that leave the row of the session alone, has
returned. -/
def ReturnsWith (cfg : RunConfig) (x : Nat) (c : Change) (p : Phase) (group : Group)
    (task : Task) (sid : SessionID) (s : State) (success : Bool) (s' : State) (h : History) :
    Prop :=
  (runImplementWithRetry cfg x c p group task).Leads
    ((handler cfg).among (SameSessionRow sid)) (s, []) (.done success) (s', h)

/-! ## The session in memory and in its row -/

/-- The session has ended with the outcome, or has not ended. -/
def Carries (sess : Session) : Option (Envelope × Int) → Prop
  | none => sess.status.isTerminal = false
  | some (env, exit) =>
    sess.status.isTerminal = true ∧ sess.envelope = some env ∧ sess.exitCode = some exit

section Session

variable {sess : Session} {o : Option (Envelope × Int)}

theorem markRunning_getD_id : (sess.markRunning.toOption.getD sess).id = sess.id := by
  unfold Session.markRunning
  split <;> rfl

theorem recordOutcome_getD_id (env : Envelope) (exit : Int) (now : Time) :
    ((sess.recordOutcome env exit now).toOption.getD sess).id = sess.id := by
  unfold Session.recordOutcome
  split <;> rfl

theorem Carries.markRunning (h : Carries sess o) :
    Carries (sess.markRunning.toOption.getD sess) o ∧
      (sess.markRunning.toOption.getD sess).status ≠ .pending := by
  unfold Session.markRunning
  split
  · next hnot => exact ⟨h, hnot⟩
  · next hpending =>
    refine ⟨?_, by simp [Except.toOption]⟩
    cases o with
    | none => rfl
    | some outcome =>
      have hterminal := h.1
      rw [not_not.mp hpending] at hterminal
      cases hterminal

theorem Carries.recordOutcome (h : Carries sess o) (hstarted : sess.status ≠ .pending)
    (env : Envelope) (exit : Int) (now : Time) :
    Carries ((sess.recordOutcome env exit now).toOption.getD sess)
      (some (o.getD (env, exit))) := by
  unfold Session.recordOutcome
  cases o with
  | none =>
    have hrunning : sess.status = .running := by
      unfold Carries at h
      cases hstatus : sess.status <;> simp_all [SessionStatus.isTerminal]
    rw [if_neg (not_not.mpr hrunning)]
    refine ⟨?_, rfl, rfl⟩
    change (if exit = 0 then SessionStatus.done else .failed).isTerminal = true
    split <;> rfl
  | some outcome =>
    have hnot : sess.status ≠ .running := by
      intro hrunning
      have hterminal := h.1
      rw [hrunning] at hterminal
      cases hterminal
    rw [if_pos hnot]
    exact h

theorem SessionTable.carries_of_save {t t' : SessionTable} (h : t.save sess = .ok t')
    (hsess : Carries sess o) : ∃ row, t'.findTarget sess.id = some row ∧ Carries row o := by
  unfold SessionTable.save at h
  split at h
  · next t₁ hupsert =>
    cases h
    obtain ⟨row, hrow, rfl | ⟨old, rfl⟩⟩ := Sql.Table.findTarget_of_upsert hupsert
    · exact ⟨_, hrow, hsess⟩
    · exact ⟨_, hrow, by cases o <;> exact hsess⟩
  · cases h

theorem carries_of_save {cfg : RunConfig} {x : Nat} {ch : Choice} {s : State}
    (h : (handle cfg (.saveSession x sess) ch s).1 = .ok ()) (hsess : Carries sess o) :
    ∃ row, (handle cfg (.saveSession x sess) ch s).2.sessions.findTarget sess.id = some row ∧
      Carries row o :=
  SessionTable.carries_of_save (result_of_write State.sessions (fun _ => rfl) h) hsess

end Session

/-! ## While a call runs -/

/-- The call has made the session `sid` and its agents have had the outcomes `v`.  The session
in memory carries `o`, and so does its row, if every save succeeded. -/
structure Holding (sid : SessionID) (sess : Session) (v : List (Envelope × Int))
    (o : Option (Envelope × Int)) (y : State × History) : Prop where
  id : sess.id = sid
  persisted : persistedSession y.2 = some sid
  outcomes : validOutcomes y.2 = v
  carries : Carries sess o
  row : y.2.all savesSession = true →
    ∃ row, y.1.sessions.findTarget sid = some row ∧ Carries row o

/-- Between two attempts the session carries the first outcome. -/
def Settled (sid : SessionID) (sess : Session) (y : State × History) : Prop :=
  ∃ v, Holding sid sess v v.getLast? y

def Op.bystands : Op → Bool
  | .dispatch _ _ | .saveSession _ _ => false
  | _ => true

theorem produces_of_bystands {ev : Event} (h : ev.op.bystands = true) : produces ev = none := by
  obtain ⟨op, answer⟩ := ev
  cases op <;> first | rfl | cases h

section Call

variable {α β : Type} {cfg : RunConfig} {x : Nat} {c : Change} {p : Phase} {group : Group}
  {task : Task} {sid : SessionID} {sess : Session} {v : List (Envelope × Int)}
  {o : Option (Envelope × Int)} {y : State × History}

theorem Holding.step (cfg : RunConfig) {op : Op} {s : State} (ch : Choice)
    (hop : ∀ x sess, op ≠ .saveSession x sess) (hrely : SameSessionRow sid y.1 s)
    (h : Holding sid sess v o y) :
    Holding sid sess ((produces ⟨op, (handle cfg op ch s).1⟩).toList ++ v) o
      ((handle cfg op ch s).2, ⟨op, (handle cfg op ch s).1⟩ :: y.2) where
  id := h.id
  persisted := by simp [persistedSession, h.persisted]
  outcomes := by simp [validOutcomes, h.outcomes]
  carries := h.carries
  row := by
    intro hsaves
    obtain ⟨row, hrow, hcarries⟩ := h.row (Bool.and_eq_true_iff.mp hsaves).2
    refine ⟨row, ?_, hcarries⟩
    rw [handle_sessions cfg ch s hop]
    exact hrely.trans hrow

theorem Holding.among {Q : α → Prop} {R : α → State × History → Prop} {prog : Program α}
    (h : Holding sid sess v o y) (hprog : Within Op.bystands Q prog)
    (hR : ∀ value y', Q value → Holding sid sess v o y' → R value y') :
    Among cfg (SameSessionRow sid) R prog y := by
  refine among_keeping (hprog.uses fun hop => hop) (fun op y s ch hop hrely hy => ?_) h hR
  have hother : ∀ x sess, op ≠ .saveSession x sess := by
    rintro x sess rfl
    cases hop
  have hnext := hy.step cfg ch hother hrely
  rwa [produces_of_bystands hop] at hnext

theorem Holding.bind {Q : α → Prop} {R : β → State × History → Prop} {prog : Program α}
    {f : α → Program β} (h : Holding sid sess v o y) (hprog : Within Op.bystands Q prog)
    (hf : ∀ value y', Q value → Holding sid sess v o y' →
      Among cfg (SameSessionRow sid) R (f value) y') :
    Among cfg (SameSessionRow sid) R (prog >>= f) y :=
  wp_bind (h.among hprog hf)

theorem Holding.perform {R : α → State × History → Prop} {op : Op} {f : op.Ret → Program α}
    (h : Holding sid sess v o y) (hop : ∀ x sess, op ≠ .saveSession x sess)
    (hf : ∀ answer y', Holding sid sess ((produces ⟨op, answer⟩).toList ++ v) o y' →
      Among cfg (SameSessionRow sid) R (f answer) y') :
    Among cfg (SameSessionRow sid) R (Prog.perform op >>= f) y :=
  among_perform fun _ ch hrely => hf _ _ (h.step cfg ch hop hrely)

theorem Holding.settled (h : Holding sid sess v v.getLast? y) : Settled sid sess y :=
  ⟨v, h⟩

/-! ### Parts that have nothing to do with the session -/

theorem perform_bystands {op : Op} (hop : op.bystands = true) :
    Within Op.bystands (fun _ => True) (perform op) :=
  ⟨hop, fun _ _ => trivial⟩

theorem transitionOrAudit_bystands {ε : Type} {operation : String} {old : α}
    {new : Except ε α} :
    Within Op.bystands (fun value => value = new.toOption.getD old)
      (transitionOrAudit p operation old new) := by
  cases new with
  | error err => exact ⟨rfl, fun _ _ => rfl⟩
  | ok value => rfl

theorem saveTaskOrAudit_bystands :
    Within Op.bystands (fun _ => True) (saveTaskOrAudit x p task) := by
  refine uses_perform_bind rfl fun answer _ => ?_
  cases answer with
  | error err => exact perform_bystands rfl
  | ok _ => trivial

theorem quotaFailFast_bystands (err : QuotaErr) :
    Within Op.bystands (fun _ => True) (quotaFailFast x p task err) := by
  refine uses_bind transitionOrAudit_bystands fun task _ => ?_
  refine uses_bind saveTaskOrAudit_bystands fun _ _ => ?_
  exact ⟨rfl, fun _ _ => ⟨rfl, fun _ _ => trivial⟩⟩

theorem releaseImplement_bystands :
    Within Op.bystands (fun _ => True) (releaseImplement x p) := by
  refine uses_perform_bind rfl fun answer _ => ?_
  cases answer with
  | error err => exact perform_bystands rfl
  | ok _ => trivial

theorem acquireWithSaturationRetries_bystands :
    Within Op.bystands (fun _ => True) (acquireWithSaturationRetries x) :=
  (acquireWithSaturationRetries_acquires x).mono fun op hop => by
    cases op <;> first | rfl | cases hop

/-! ### One dispatch -/

theorem saveSessionOrAudit_holding {sess' : Session} {o' : Option (Envelope × Int)}
    (h : Holding sid sess v o y) (hid : sess'.id = sid) (hcarries : Carries sess' o') :
    Among cfg (SameSessionRow sid) (fun _ => Holding sid sess' v o')
      (saveSessionOrAudit x p sess') y := by
  refine among_perform fun s ch _ => ?_
  have hpersisted : ∀ ev, persistedSession (ev :: y.2) = some sid := fun ev => by
    simp [persistedSession, h.persisted]
  cases hanswer : (handle cfg (.saveSession x sess') ch s).1 with
  | ok _ =>
    refine ⟨hid, hpersisted _, h.outcomes, hcarries, fun _ => ?_⟩
    rw [← hid]
    exact carries_of_save hanswer hcarries
  | error err =>
    -- The failed save stays in the history.
    have hfailed : Holding sid sess' v o' ((handle cfg (.saveSession x sess') ch s).2,
        ⟨.saveSession x sess', .error err⟩ :: y.2) :=
      ⟨hid, hpersisted _, h.outcomes, hcarries, fun hsaves => by cases hsaves⟩
    exact hfailed.among (perform_bystands rfl) fun _ _ _ hend => hend

theorem acceptImplement_settled (raw : RawEnvelope) (exitCode : Int)
    (h : Holding sid sess ((validOutcome raw exitCode).toList ++ v) v.getLast? y)
    (hstarted : sess.status ≠ .pending) :
    Among cfg (SameSessionRow sid) (fun attempt => Settled sid attempt.sess)
      (acceptImplement x p task sess raw exitCode) y := by
  unfold acceptImplement
  unfold validOutcome at h
  cases hvalid : validateEnvelope raw .apply with
  | error err =>
    rw [hvalid] at h
    exact h.bind (perform_bystands rfl) fun _ y' _ hend => hend.settled
  | ok env =>
    rw [hvalid] at h
    refine h.bind (perform_bystands rfl) fun now y₁ _ h₁ => ?_
    refine h₁.bind transitionOrAudit_bystands fun sess' y₂ hsess h₂ => ?_
    have hcarries : Carries sess' ((env, exitCode) :: v).getLast? := by
      rw [hsess, List.getLast?_cons]
      exact h₂.carries.recordOutcome hstarted env exitCode now
    have hid : sess'.id = sid := by
      rw [hsess, recordOutcome_getD_id, h₂.id]
    refine wp_bind (wp_mono (saveSessionOrAudit_holding h₂ hid hcarries) (fun _ hI => hI)
      fun _ y₃ h₃ => ?_)
    refine h₃.bind transitionOrAudit_bystands fun task' y₄ _ h₄ => ?_
    exact h₄.bind saveTaskOrAudit_bystands fun _ y₅ _ h₅ => h₅.settled

theorem dispatchWith_settled (modelOverride : String) (h : Settled sid sess y) :
    Among cfg (SameSessionRow sid) (fun attempt => Settled sid attempt.sess)
      (dispatchWith x c p group task sess modelOverride) y := by
  obtain ⟨v, h⟩ := h
  unfold dispatchWith
  refine h.bind (perform_bystands rfl) fun _ y₁ _ h₁ => ?_
  refine h₁.bind (perform_bystands rfl) fun status y₂ _ h₂ => ?_
  refine h₂.bind (perform_bystands rfl) fun answer y₃ _ h₃ => ?_
  cases answer with
  | error err => exact h₃.settled
  | ok _ =>
    refine h₃.bind transitionOrAudit_bystands fun sess' y₄ hsess h₄ => ?_
    obtain ⟨hcarries, hstarted⟩ := h₄.carries.markRunning
    rw [← hsess] at hcarries hstarted
    have h₄' : Holding sid sess' v v.getLast? y₄ :=
      ⟨by rw [hsess, markRunning_getD_id, h₄.id], h₄.persisted, h₄.outcomes, hcarries, h₄.row⟩
    refine h₄'.perform (fun _ _ heq => by cases heq) fun answer y₅ h₅ => ?_
    cases answer with
    | error err =>
      cases err with
      | quota err => exact h₅.settled
      | dispatchFailed text | other text =>
        exact h₅.bind (perform_bystands rfl) fun _ y₆ _ h₆ => h₆.settled
    | ok res =>
      have hasks := (agentEnvelope_asksGit x group.worktreePath res).mono fun op hop =>
        show op.bystands = true by cases op <;> first | rfl | cases hop
      refine h₅.bind hasks fun raw y₆ hraw h₆ => ?_
      have hsame : validOutcome res.envelopeRaw res.exitCode = validOutcome raw res.exitCode :=
        congrArg (Option.map fun env => (env, res.exitCode)) hraw.symm
      change Holding sid sess' ((validOutcome res.envelopeRaw res.exitCode).toList ++ v) _ _ at h₆
      rw [hsame] at h₆
      exact acceptImplement_settled raw res.exitCode h₆ hstarted

/-! ### The loop -/

theorem quotaFallback_settled (err : QuotaErr) (h : Settled sid sess y) :
    Among cfg (SameSessionRow sid) (fun _ y' => ∃ sess', Settled sid sess' y')
      (quotaFallback cfg x c p group task sess err) y := by
  unfold quotaFallback
  split
  · obtain ⟨v, h⟩ := h
    exact h.among (quotaFailFast_bystands err) fun _ y₁ _ h₁ => ⟨_, h₁.settled⟩
  · refine wp_bind (wp_mono (dispatchWith_settled _ h) (fun _ hI => hI) fun second y₁ h₁ => ?_)
    obtain ⟨v, h₁⟩ := h₁
    split
    · refine h₁.bind (perform_bystands rfl) fun _ y₂ _ h₂ => ?_
      refine h₂.bind saveTaskOrAudit_bystands fun _ y₃ _ h₃ => ?_
      split
      · exact ⟨_, h₃.settled⟩
      · exact h₃.bind (perform_bystands rfl) fun _ y₄ _ h₄ => ⟨_, h₄.settled⟩
    · exact h₁.among (quotaFailFast_bystands err) fun _ y₂ _ h₂ => ⟨_, h₂.settled⟩

theorem attempts_settled (rounds : Nat) (h : Settled sid sess y) :
    Among cfg (SameSessionRow sid) (fun _ y' => ∃ sess', Settled sid sess' y')
      (attempts cfg x c p group rounds task sess) y := by
  induction rounds generalizing task sess y with
  | zero => exact ⟨sess, h⟩
  | succ rounds ih =>
    obtain ⟨v, h⟩ := h
    refine h.bind (perform_bystands rfl) fun cancelled y₁ _ h₁ => ?_
    cases cancelled with
    | true => exact ⟨sess, h₁.settled⟩
    | false =>
      refine h₁.bind acquireWithSaturationRetries_bystands fun acquired y₂ _ h₂ => ?_
      cases acquired with
      | error err =>
        exact h₂.bind (perform_bystands rfl) fun _ y₃ _ h₃ => ⟨sess, h₃.settled⟩
      | ok _ =>
        refine wp_bind (wp_mono (dispatchWith_settled _ h₂.settled) (fun _ hI => hI)
          fun first y₃ h₃ => ?_)
        obtain ⟨v, h₃⟩ := h₃
        refine h₃.bind releaseImplement_bystands fun _ y₄ _ h₄ => ?_
        unfold recordOutcomeOf
        cases first.quota with
        | some err => exact quotaFallback_settled err h₄.settled
        | none =>
          refine h₄.bind saveTaskOrAudit_bystands fun _ y₅ _ h₅ => ?_
          split
          · exact h₅.bind (perform_bystands rfl) fun _ y₆ _ h₆ => ⟨_, h₆.settled⟩
          · split
            · exact h₅.bind (perform_bystands rfl) fun _ y₆ _ h₆ => ⟨_, h₆.settled⟩
            · exact h₅.bind (perform_bystands rfl) fun _ y₆ _ h₆ => ih h₆.settled

/-! ### The call -/

def EndsSettled (sid : SessionID) (y : State × History) : Prop :=
  persistedSession y.2 = some sid → ∃ sess, Settled sid sess y

theorem makeSession_holding {role : AgentRole} {command : String} (s : State) :
    Among cfg (SameSessionRow sid)
      (fun made y => match made with
        | .error _ => persistedSession y.2 = none
        | .ok sess => persistedSession y.2 = some sess.id ∧
            (sess.id = sid → Settled sid sess y))
      (makeSession cfg x c p role command) (s, []) := by
  unfold makeSession
  refine among_answer fun answer y₁ hy₁ => ?_
  cases answer with
  | error err => exact congrArg persistedSession hy₁
  | ok sid' =>
    refine among_answer fun now y₂ hy₂ => ?_
    rw [hy₁] at hy₂
    cases hnew : Session.new sid' c.id p.id role cfg.validProvider command now with
    | error err => exact congrArg persistedSession hy₂
    | ok sess =>
      have hpending : Carries sess none := by
        unfold Session.new at hnew
        split at hnew
        · cases hnew
        · split at hnew
          · cases hnew
          · cases hnew
            rfl
      refine among_perform fun s ch _ => ?_
      rw [hy₂]
      cases hanswer : (handle cfg (.saveSession x sess) ch s).1 with
      | error err => rfl
      | ok _ =>
        refine ⟨rfl, fun hid => ⟨[], hid, congrArg some hid, rfl, hpending, fun _ => ?_⟩⟩
        rw [← hid]
        exact carries_of_save hanswer hpending

theorem runImplementWithRetry_settled (s : State) :
    Among cfg (SameSessionRow sid) (fun _ => EndsSettled sid)
      (runImplementWithRetry cfg x c p group task) (s, []) := by
  unfold runImplementWithRetry
  split
  · exact fun hnone => by cases hnone
  · refine wp_bind (wp_mono (makeSession_holding s) (fun _ hI => hI) fun made y₁ hmade => ?_)
    cases made with
    | error text =>
      refine among_answer fun _ y₂ hy₂ hsome => ?_
      rw [hy₂, persistedSession, hmade] at hsome
      cases hsome
    | ok sess =>
      obtain ⟨hsaved, hmine⟩ := hmade
      by_cases hid : sess.id = sid
      · obtain ⟨v, h₁⟩ := hmine hid
        refine h₁.bind (perform_bystands rfl) fun answer y₂ _ h₂ => ?_
        have hskipped : Among cfg (SameSessionRow sid) (fun _ => EndsSettled sid)
            (do publishEvent p (.taskClaimSkipped task.id); pure false) y₂ :=
          h₂.bind (perform_bystands rfl) fun _ y₃ _ h₃ _ => ⟨sess, h₃.settled⟩
        match answer with
        | .error err => exact hskipped
        | .ok false => exact hskipped
        | .ok true =>
          refine h₂.bind (perform_bystands rfl) fun _ y₃ _ h₃ => ?_
          exact wp_mono (attempts_settled maxAttempts h₃.settled) (fun _ hI => hI)
            fun _ y₄ hend _ => hend
      · -- The session that the call has made is another one.
        refine among_always (P := fun y => persistedSession y.2 = some sess.id) _ ?_ hsaved ?_
        · intro op y s ch hsome
          rw [persistedSession, hsome]
          rfl
        · intro _ y' hsome hother
          exact absurd (Option.some.inj (hsome.symm.trans hother)) hid

end Call

/-- The session of a returned call carries the last outcome exactly if that is also the first
one. -/
theorem session_carriesLastOutcome_iff (cfg : RunConfig) (x : Nat) (c : Change) (p : Phase)
    (group : Group) (task : Task) (sid : SessionID) (s s' : State) (h : History) (success : Bool)
    (hreturns : ReturnsWith cfg x c p group task sid s success s' h)
    (hsession : persistedSession h = some sid) (hsaves : h.all savesSession = true) :
    CarriesLastOutcome sid s' h ↔
      ∃ outcome, (validOutcomes h).head? = some outcome ∧
        (validOutcomes h).getLast? = some outcome := by
  obtain ⟨-, hend⟩ := hreturns.wp trivial (runImplementWithRetry_settled s)
  obtain ⟨sess, v, hholding⟩ := hend hsession
  obtain ⟨row, hrow, hcarries⟩ := hholding.row hsaves
  have houtcomes : validOutcomes h = v := hholding.outcomes
  subst houtcomes
  constructor
  · rintro ⟨row', hrow', hterminal, hlast⟩
    obtain rfl : row' = row := Option.some.inj (hrow'.symm.trans hrow)
    cases hfirst : (validOutcomes h).getLast? with
    | none =>
      rw [hfirst] at hcarries
      exact absurd hterminal (by rw [hcarries]; simp)
    | some first =>
      rw [hfirst] at hcarries
      obtain ⟨last, hhead⟩ : ∃ last, (validOutcomes h).head? = some last := by
        cases hv : validOutcomes h with
        | nil =>
          rw [hv] at hfirst
          cases hfirst
        | cons last rest => exact ⟨last, rfl⟩
      obtain ⟨henvelope, hexit⟩ := hlast last.1 last.2 hhead
      have hsame : last = first := Prod.ext
        (Option.some.inj (henvelope.symm.trans hcarries.2.1))
        (Option.some.inj (hexit.symm.trans hcarries.2.2))
      exact ⟨first, hsame ▸ hhead, rfl⟩
  · rintro ⟨outcome, hhead, hfirst⟩
    rw [hfirst] at hcarries
    refine ⟨row, hrow, hcarries.1, fun env exit hlast => ?_⟩
    rw [hhead] at hlast
    cases hlast
    exact hcarries.2

/-! ## Calls that run alone -/

/-- The agent ends with the exit code 1 and a valid envelope that says that it is blocked. -/
def blockedAgent : Except DispatchErr AgentResult :=
  .ok {
    envelopeRaw := .json {
      schemaVersion := schemaVersionV1
      phase := PhaseType.apply.toString
      changeName := "add-login"
      project := "web"
      status := .blocked
      confidence := 1
      executiveSummary := "" }
    exitCode := 1 }

/-- The first attempt succeeds. -/
theorem session_carriesLastOutcome_first :
    persistedSession (aloneCall sampleConfig fun _ => sampleChoice []).hist = some ⟨0⟩ ∧
      CarriesLastOutcome ⟨0⟩ (aloneCall sampleConfig fun _ => sampleChoice []).state
        (aloneCall sampleConfig fun _ => sampleChoice []).hist := by
  have hsession : persistedSession (aloneCall sampleConfig fun _ => sampleChoice []).hist =
      some ⟨0⟩ := by
    decide +kernel
  obtain ⟨outcome, houtcomes⟩ := List.length_eq_one_iff.mp (show
    (validOutcomes (aloneCall sampleConfig fun _ => sampleChoice []).hist).length = 1 by
      decide +kernel)
  refine ⟨hsession, (session_carriesLastOutcome_iff sampleConfig 0 _ _ _ sampleTask ⟨0⟩ sampleRow
    _ _ _ (leads_aloneCall _) hsession (by decide +kernel)).mpr ⟨outcome, ?_⟩⟩
  rw [houtcomes]
  exact ⟨rfl, rfl⟩

/-- A blocked attempt and a successful one leave the exit code of the first.  A call without any
envelope leaves its session pending. -/
theorem session_not_carriesLastOutcome :
    (∃ success s' h, ReturnsWith sampleConfig 0 (sampleChange .tasks) samplePhase
        (Group.new ⟨4⟩ ⟨3⟩ "web" []) sampleTask ⟨0⟩ sampleRow success s' h ∧
        persistedSession h = some ⟨0⟩ ∧ h.all savesSession = true ∧ h.all savesTask = true ∧
        (validOutcomes h).map Prod.snd = [0, 1] ∧ ¬CarriesLastOutcome ⟨0⟩ s' h) ∧
      ∃ success s' h, ReturnsWith sampleConfig 0 (sampleChange .tasks) samplePhase
        (Group.new ⟨4⟩ ⟨3⟩ "web" []) sampleTask ⟨0⟩ sampleRow success s' h ∧
        persistedSession h = some ⟨0⟩ ∧ h.all savesSession = true ∧ h.all savesTask = true ∧
        ¬CarriesLastOutcome ⟨0⟩ s' h := by
  refine ⟨⟨_, _, _, leads_aloneCall (agents 12 blockedAgent (sampleChoice []).dispatch),
    by decide +kernel, by decide +kernel, by decide +kernel, by decide +kernel, ?_⟩,
    ⟨_, _, _, leads_aloneCall (agents 0 noQuota noQuota), by decide +kernel,
    by decide +kernel, by decide +kernel, ?_⟩⟩
  · rintro ⟨row, hrow, -, hlast⟩
    have hsaved : ((aloneCall sampleConfig (agents 12 blockedAgent
        (sampleChoice []).dispatch)).state.sessions.findTarget ⟨0⟩).bind Session.exitCode =
          some 1 := by
      decide +kernel
    have hzero : ((validOutcomes (aloneCall sampleConfig (agents 12 blockedAgent
        (sampleChoice []).dispatch)).hist).head?).map Prod.snd = some 0 := by
      decide +kernel
    obtain ⟨⟨env, exit⟩, hhead, rfl⟩ := Option.map_eq_some_iff.mp hzero
    rw [hrow, Option.bind_some, (hlast env _ hhead).2] at hsaved
    cases hsaved
  · rintro ⟨row, hrow, hterminal, -⟩
    have hsaved : ((aloneCall sampleConfig (agents 0 noQuota noQuota)).state.sessions.findTarget
        ⟨0⟩).map (fun row => row.status.isTerminal) = some false := by
      decide +kernel
    rw [hrow, Option.map_some, hterminal] at hsaved
    cases hsaved

end SophiaOrchestrator.Apply
