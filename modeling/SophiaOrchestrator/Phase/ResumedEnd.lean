import SophiaOrchestrator.Effects.Quiet
import SophiaOrchestrator.Phase.Conduct
import SophiaOrchestrator.Phase.NoWedge
import SophiaOrchestrator.Phase.Settling

/-!
# How a resumed phase ends

`Resume` takes a running, an interrupted and a `needs_context` phase, but only an interrupted one
is made running again.  `Complete` accepts a running phase only, so a phase that waits for context
is blocked at the end of the run that its own agent has completed.
-/

namespace SophiaOrchestrator

open Effects Prog

variable {cfg : ServiceConfig} {c : Change} {p q : Phase} {prior : PhaseType → Option Phase}
  {inp : RunPhaseInput} {e : Envelope} {h : History}

/-! ## A run without mishap -/

structure Completes (pt : PhaseType) (e : Envelope) : Prop where
  phase : e.phase = pt.toString
  done : e.status = .done
  confident : pt.confidenceThreshold ≤ e.confidence

def LeavesDone (pt : PhaseType) (raw : RawEnvelope) : Prop :=
  ∃ e, validateEnvelope raw pt = .ok e ∧ e.status = .done ∧
    (pt = .tasks → detectTasksSchemaMismatch e.data = none)

/-- The answer is no mishap: no repository call fails, governance allows the phase, an agent can
be dispatched and leaves a valid `DONE` envelope.  `p` is the stored phase, and `prior` gives the
rows of the phase types. -/
def Fortunate (p : Phase) (prior : PhaseType → Option Phase) : (op : Op) → op.Ret → Prop
  | .phaseFindByID _, answer => answer = .ok p
  | .changeFindByID _, answer => ∃ c : Change, answer = .ok c
  | .phaseFindByChangeAndType _ pt, answer => answer = (prior pt).elim (.error .notFound) .ok
  | .phaseSave _, answer => answer = .ok ()
  | .sessionSave _, answer => answer = .ok ()
  | .evaluatePhase _ _ _, answer => ∃ decision : GovernanceDecision,
    answer = .ok decision ∧ decision.decision = .allow
  | .buildPrompt _ _ _ _, answer => answer = .ok ()
  | .newSessionID, answer => answer = .ok ()
  | .spawnAcquire, answer => answer = .ok ()
  | .dispatch _, answer => ∃ result : DispatchResult, answer = .ok result ∧
    (result.envelopeRaw = .empty ∨ LeavesDone p.pType result.envelopeRaw)
  | .memoryGet _, answer => LeavesDone p.pType answer
  | .initRun _, answer => ∃ e, answer = .ok (some e) ∧ LeavesDone p.pType (.json e)
  | .applyExecute _ _ _, answer => ∃ e, answer.envelope = some e ∧ Completes p.pType e
  | _, _ => True

/-- The operation can be answered so, and the answer is no mishap. -/
def Favourable (p : Phase) (prior : PhaseType → Option Phase) (op : Op) (answer : op.Ret) : Prop :=
  op.Answers answer ∧ Fortunate p prior op answer

def loadedPrior (prior : PhaseType → Option Phase) (types : List PhaseType) : PriorPhases :=
  types.filterMap fun pt => (prior pt).map fun q => (pt, ⟨q.status, q.confidence⟩)

/-- No Iron Law is violated by an attempt of the phase. -/
def Lawful (prior : PhaseType → Option Phase) (q : Phase) : Prop :=
  checkIronLaws {
    action := actionForPhase q.pType
    priorPhases := loadedPrior prior PhaseType.all
    hasGovernanceDecision := true
    taskAttempts := q.attempts - 1 } = []

/-- The phase that the call saved last is this one, and it is done. -/
def EndsDone (id : PhaseID) (h : History) : Prop :=
  ∃ q, lastSaved h = some q ∧ q.id = id ∧ q.status = .done

/-! ## The outcome -/

def Op.savesDone : Op → Bool
  | .phaseSave q => decide (q.status = .done)
  | _ => false

theorem EndsDone.exists_save {id : PhaseID} (hends : EndsDone id h) :
    ∃ ev ∈ h, ev.op.savesDone = true := by
  obtain ⟨q, hlast, -, hdone⟩ := hends
  fun_induction lastSaved h with
  | case1 => cases hlast
  | case2 q' past =>
    obtain rfl : q' = q := Option.some.inj hlast
    exact ⟨_, List.mem_cons_self, by simp [Op.savesDone, hdone]⟩
  | case3 ev past _ ih =>
    obtain ⟨ev', hmem, hsaves⟩ := ih hlast
    exact ⟨ev', List.mem_cons_of_mem ev hmem, hsaves⟩

/-- The operation neither accepts the call nor saves a phase that is done. -/
def Op.inconclusive (op : Op) : Bool :=
  !op.accepts && !op.savesDone

abbrev Yields {α : Type} (p : Phase) (prior : PhaseType → Option Phase) (Q : α → Prop)
    (prog : Program α) : Prop :=
  prog.Uses (Favourable p prior) (fun op => op.inconclusive = true) Q

def IsDone (pt : PhaseType) (outcome : AsyncOutcome) : Prop :=
  ∃ e label persist, outcome = .enveloped e [] label persist ∧ Completes pt e

theorem completes_of_valid {pt : PhaseType} {raw : RawEnvelope}
    (hvalid : validateEnvelope raw pt = .ok e) (hdone : e.status = .done) : Completes pt e := by
  obtain ⟨hphase, -, -, hthreshold⟩ := validateEnvelope_eq_ok hvalid
  exact ⟨hphase, hdone, hthreshold hdone⟩

theorem loadPriorPhasesFrom_yields (cid : ChangeID) (types : List PhaseType) (out : PriorPhases) :
    Yields p prior (fun result => result = .ok (out ++ loadedPrior prior types))
      (loadPriorPhasesFrom cid types out) := by
  induction types generalizing out with
  | nil => simp [loadPriorPhasesFrom, loadedPrior, Yields, pure]
  | cons pt rest ih =>
    refine uses_perform_bind rfl fun answer hanswer => ?_
    obtain rfl : answer = (prior pt).elim (.error .notFound) .ok := hanswer.2
    cases hprior : prior pt with
    | none => simpa [Yields, loadedPrior, hprior] using ih out
    | some q =>
      have hrows : loadedPrior prior (pt :: rest) =
          (pt, ⟨q.status, q.confidence⟩) :: loadedPrior prior rest := by
        simp [loadedPrior, hprior]
      rw [hrows, List.append_cons]
      exact ih _

theorem saveSession_yields (q : Phase) : Yields p prior (fun _ => True) (saveSession c q) := by
  refine uses_perform_bind rfl fun answer hanswer => ?_
  obtain rfl : answer = .ok () := hanswer.2
  trivial

theorem initOutcome_yields (htype : q.pType = p.pType) :
    Yields p prior (IsDone p.pType) (initOutcome c q) := by
  refine uses_perform_bind rfl fun answer hanswer => ?_
  obtain ⟨-, e, rfl, e', hvalid, hdone, -⟩ := hanswer
  simp only [htype, hvalid]
  exact ⟨e', _, _, rfl, completes_of_valid hvalid hdone⟩

theorem acceptEnvelope_yields {raw : RawEnvelope} (htype : q.pType = p.pType)
    (hcritic : parseScopeCriticEnabled inp.contextOverrides = false)
    (hraw : LeavesDone p.pType raw) :
    Yields p prior (IsDone p.pType) (acceptEnvelope cfg c q inp raw) := by
  obtain ⟨e, hvalid, hdone, htasks⟩ := hraw
  have hshape : (if p.pType = .tasks then detectTasksSchemaMismatch e.data else none) = none := by
    split
    · next htype => exact htasks htype
    · rfl
  simp only [acceptEnvelope, htype, hvalid, hshape]
  refine uses_bind (saveSession_yields q) fun _ _ => ?_
  refine uses_perform_bind rfl fun _ _ => ?_
  simp only [reviewConcerns, hcritic, Bool.false_eq_true, and_false, if_false]
  exact ⟨e, _, _, rfl, completes_of_valid hvalid hdone⟩

theorem dispatchAgent_yields (htype : q.pType = p.pType)
    (hcritic : parseScopeCriticEnabled inp.contextOverrides = false) :
    Yields p prior (IsDone p.pType) (dispatchAgent cfg c q inp) := by
  refine uses_perform_bind rfl fun answer hanswer => ?_
  obtain rfl : answer = .ok () := hanswer.2
  refine uses_perform_bind rfl fun result hresult => ?_
  obtain ⟨-, ⟨raw, code⟩, rfl, hraw⟩ := hresult
  refine uses_bind (Q := fun _ => True) ?_ fun _ _ => ?_
  · refine uses_perform_bind rfl fun released _ => ?_
    cases released with
    | error err => exact uses_perform_bind rfl fun _ _ => trivial
    | ok _ => trivial
  cases raw with
  | empty =>
    exact uses_perform_bind rfl fun raw hraw => acceptEnvelope_yields htype hcritic hraw.2
  | _ => exact acceptEnvelope_yields htype hcritic (hraw.resolve_left (by simp))

theorem agentOutcome_yields (htype : q.pType = p.pType) (hlaws : Lawful prior q)
    (hcritic : parseScopeCriticEnabled inp.contextOverrides = false) :
    Yields p prior (IsDone p.pType) (agentOutcome cfg c q inp) := by
  refine uses_bind (loadPriorPhasesFrom_yields c.id PhaseType.all []) fun result hresult => ?_
  obtain rfl : result = .ok (loadedPrior prior PhaseType.all) := hresult
  have hlawful : checkIronLaws {
      action := actionForPhase q.pType
      priorPhases := loadedPrior prior PhaseType.all
      hasGovernanceDecision := true
      taskAttempts := q.attempts - 1 } = [] := hlaws
  simp only [hlawful, ne_eq, not_true_eq_false, if_false]
  refine uses_perform_bind rfl fun built hbuilt => ?_
  obtain rfl : built = .ok () := hbuilt.2
  refine uses_perform_bind rfl fun sid hsid => ?_
  obtain rfl : sid = .ok () := hsid.2
  refine uses_perform_bind rfl fun saved hsaved => ?_
  obtain rfl : saved = .ok () := hsaved.2
  exact uses_perform_bind rfl fun _ _ => dispatchAgent_yields htype hcritic

theorem applyOutcome_yields (loaded : Option PriorPhases)
    (hcritic : parseScopeCriticEnabled inp.contextOverrides = false) :
    Yields p prior (IsDone p.pType) (applyOutcome cfg c q inp loaded) := by
  refine uses_perform_bind rfl fun result hresult => ?_
  obtain ⟨-, e, henv, hcompletes⟩ := hresult
  simp only [henv, reviewConcerns, hcritic, Bool.false_eq_true, and_false, if_false]
  exact ⟨e, _, _, rfl, hcompletes⟩

theorem phaseOutcome_yields (htype : q.pType = p.pType) (hlaws : Lawful prior q)
    (hcritic : parseScopeCriticEnabled inp.contextOverrides = false) :
    Yields p prior (IsDone p.pType) (phaseOutcome cfg c q inp) := by
  unfold phaseOutcome
  split
  · exact initOutcome_yields htype
  refine uses_perform_bind rfl fun answer hanswer => ?_
  obtain ⟨-, decision, rfl, hallow⟩ := hanswer
  refine uses_perform_bind rfl fun _ _ => ?_
  simp only [hallow]
  split
  · refine uses_bind (loadPriorPhasesFrom_yields c.id PhaseType.all []) fun result _ => ?_
    exact applyOutcome_yields _ hcritic
  · exact agentOutcome_yields htype hlaws hcritic

/-! ## The end -/

abbrev Ends {α : Type} (p : Phase) (prior : PhaseType → Option Phase)
    (R : α → History → Prop) (prog : Program α) (h : History) : Prop :=
  prog.wp (histSem (Favourable p prior)) (fun _ => True) R h

def Stage.stored : Stage → Bool
  | .saved _ _ _ _ _ _ | .unstored _ _ _ _ _ _ _ | .ended => true
  | _ => false

theorem Stage.Drops.not_stored {s : Stage} {p₁ : Phase} (hdrops : s.Drops c p p₁) :
    s.stored = false := by
  cases hdrops with
  | outcome hrun => cases s <;> first | rfl | cases hrun
  | refused _ hoffers => cases hoffers <;> rfl
  | lost => rfl

/-- After the save of its phase a run saves no other. -/
theorem stored_step {call : Call} {s s' : Stage} {ev : Event} (hmove : CallMove cfg call s ev s')
    (hstored : s.stored = true) :
    s'.stored = true ∧ ∀ past, lastSaved (ev :: past) = lastSaved past := by
  cases hmove with
  | stay hidle =>
    exact ⟨hstored, fun past => (history_calm _ past (calm_of_idle hidle).1).2.2.2.1⟩
  | completes hoffers | loses hoffers => cases hoffers <;> cases hstored
  | fails hdrops => rw [hdrops.not_stored] at hstored; cases hstored
  | givesUp => exact ⟨rfl, fun _ => rfl⟩
  | _ => first | exact ⟨rfl, fun _ => rfl⟩ | exact ⟨hstored, fun _ => rfl⟩ | cases hstored

theorem afterSave_ends {persist : Bool} (hsaved : EndsDone p.id h) :
    Ends p prior (fun _ => EndsDone p.id) (afterSave cfg c q e persist) h := by
  have hfollows : Closes cfg .recover (afterSave cfg c q e persist)
    (.saved c q q e (toStore e persist) false) := afterSave_follows
  refine wp_mono (hfollows.wp_hist (J := fun s h => s.stored = true ∧ EndsDone p.id h) ?_
    ⟨rfl, hsaved⟩) (fun _ hI => hI) fun _ _ ⟨_, _, _, hends⟩ => hends
  rintro s ev s' h hmove - ⟨hstored, hends⟩
  obtain ⟨hstored', hlast⟩ := stored_step hmove hstored
  refine ⟨trivial, hstored', ?_⟩
  rw [EndsDone, hlast]
  exact hends

theorem completePhase_ends {label : String} {persist : Bool} (hid : q.id = p.id)
    (hrunning : q.status = .running) (hcompletes : Completes q.pType e) :
    Ends p prior (fun _ => EndsDone p.id) (completePhase cfg c q e label persist) h := by
  refine wp_perform_bind (fun _ _ => trivial) fun now _ => ?_
  have hcomplete : q.complete (some e) now = .ok _ := Phase.complete_eq_ok_iff.mpr
    ⟨hrunning, hcompletes.phase, fun hlow => not_lt.mpr hcompletes.confident hlow.2, rfl⟩
  simp only [hcomplete]
  refine wp_perform_bind (fun _ _ => trivial) fun answer hanswer => ?_
  obtain rfl : answer = .ok () := hanswer.2
  have hdone : Phase.statusOf e.status = .done := by rw [hcompletes.done]; rfl
  exact afterSave_ends ⟨_, rfl, hid, hdone⟩

theorem runAsync_ends (hid : q.id = p.id) (htype : q.pType = p.pType)
    (hrunning : q.status = .running) (hlaws : Lawful prior q)
    (hcritic : parseScopeCriticEnabled inp.contextOverrides = false) :
    Ends p prior (fun _ => EndsDone p.id) (runAsync cfg c q inp) h := by
  refine wp_quiet_bind (fun _ _ _ => trivial) (phaseOutcome_yields htype hlaws hcritic) ?_
  rintro _ h' ⟨e, label, persist, rfl, hcompletes⟩ _
  simp only [withConcerns, ne_eq, not_true_eq_false, false_and, if_false]
  exact completePhase_ends hid hrunning (htype ▸ hcompletes)

/-! ## A phase that is not running -/

theorem ensureRunning_yields (q : Phase) : Yields p prior (fun _ => True) (ensureRunning q) := by
  unfold ensureRunning
  split
  · refine uses_perform_bind rfl fun now _ => ?_
    cases q.start now <;> trivial
  · trivial

theorem failPhase_yields (q : Phase) (reason : String) :
    Yields p prior (fun _ => True) (failPhase q reason) := by
  refine uses_perform_bind rfl fun answer _ => ?_
  cases answer with
  | error err => trivial
  | ok c =>
    refine uses_bind (ensureRunning_yields q) fun q' _ => ?_
    refine uses_perform_bind rfl fun now _ => ?_
    refine uses_bind (Q := fun _ => True) ?_ fun _ _ => ⟨rfl, fun _ _ => ⟨rfl, fun _ _ => trivial⟩⟩
    cases hcomplete : q'.complete (some (blockedEnvelope c q' reason)) now with
    | error err => trivial
    | ok blocked =>
      obtain ⟨-, -, -, rfl⟩ := Phase.complete_eq_ok_iff.mp hcomplete
      exact uses_perform_bind rfl fun _ _ => trivial

/-- `Complete` refuses a phase that is not running, and what the run saves instead is blocked. -/
theorem runAsync_yields (htype : q.pType = p.pType) (hstopped : q.status ≠ .running)
    (hlaws : Lawful prior q) (hcritic : parseScopeCriticEnabled inp.contextOverrides = false) :
    Yields p prior (fun _ => True) (runAsync cfg c q inp) := by
  refine uses_bind (phaseOutcome_yields htype hlaws hcritic) ?_
  rintro _ ⟨e, label, persist, rfl, -⟩
  simp only [withConcerns, ne_eq, not_true_eq_false, false_and, if_false]
  refine uses_perform_bind rfl fun now _ => ?_
  cases hcomplete : q.complete (some e) now with
  | error err => exact failPhase_yields q _
  | ok q' => exact absurd (Phase.complete_eq_ok_iff.mp hcomplete).1 hstopped

/-! ## The resumed phase -/

/-- The synchronous part of `Resume` takes the stored phase as it was, or started again if it was
interrupted. -/
theorem resumeSync_yields (hopen : p.status.isTerminal = false) :
    Yields p prior (fun result => ∀ c q, result = .ok (c, q) →
      (q.status = .running ↔ p.status = .running ∨ p.status = .interrupted) ∧
      (q = p ∨ ∃ now, p.start now = .ok q)) (resumeSync p.id) := by
  refine uses_perform_bind rfl fun answer hanswer => ?_
  obtain rfl : answer = .ok p := hanswer.2
  simp only [resumable, hopen, Bool.not_false, Bool.true_or, Bool.true_eq_false, if_false]
  refine uses_perform_bind rfl fun answer hanswer => ?_
  obtain ⟨-, c, rfl⟩ := hanswer
  refine uses_perform_bind rfl fun now _ => ?_
  by_cases hinterrupted : p.status = .interrupted
  · simp only [resumed, hinterrupted, if_true]
    cases hstart : p.start now with
    | error err =>
      intro _ _ hresult
      cases hresult
    | ok q =>
      have hrunning : q.status = .running := by
        obtain ⟨-, -, rfl⟩ := Phase.start_eq_ok_iff.mp hstart
        rfl
      refine uses_perform_bind (by simp [Op.inconclusive, Op.accepts, Op.savesDone, hrunning])
        fun answer hanswer => ?_
      obtain rfl : answer = .ok () := hanswer.2
      rintro _ _ ⟨⟩
      exact ⟨by simp [hrunning], .inr ⟨now, hstart⟩⟩
  · have hblocked : p.status ≠ .blocked := by
      intro hblocked
      rw [hblocked] at hopen
      cases hopen
    simp only [resumed, hinterrupted, hblocked, false_and, if_false]
    rintro _ _ ⟨⟩
    exact ⟨by simp, .inl rfl⟩

/-- If `Resume` accepts a phase and nothing goes wrong, the phase that is saved last is this one
and done exactly if the phase was running or interrupted. -/
theorem resumed_ends_done_iff (cfg : ServiceConfig) (p : Phase) (prior : PhaseType → Option Phase)
    (hopen : p.status.isTerminal = false)
    (hlaws : ∀ q, (q = p ∨ ∃ now, p.start now = .ok q) → Lawful prior q) :
    (resume cfg p.id).wp (histSem (Favourable p prior)) (fun _ => True)
      (fun _ h => (h.any fun ev => ev.op.accepts) = true →
        (EndsDone p.id h ↔ p.status = .running ∨ p.status = .interrupted)) [] := by
  refine wp_quiet_bind (fun _ _ _ => trivial) (resumeSync_yields hopen) ?_
  rintro (err | ⟨c, q⟩) h hresult hext
  · refine wp_perform_bind (f := .done) (fun _ _ => trivial) fun _ _ haccepted => ?_
    -- The call was refused, and nothing before its reply has accepted it.
    obtain ⟨ev, hmem, haccepts⟩ := List.any_eq_true.mp haccepted
    rcases List.mem_cons.mp hmem with rfl | hold
    · cases haccepts
    · have hold := hext.mem_of_not_quiet hold (by simp [Op.inconclusive, haccepts])
      cases hold
  obtain ⟨hstatus, hq⟩ := hresult c q rfl
  have hkey : q.id = p.id ∧ q.pType = p.pType := by
    rcases hq with rfl | ⟨now, hstart⟩
    · exact ⟨rfl, rfl⟩
    · obtain ⟨-, -, rfl⟩ := Phase.start_eq_ok_iff.mp hstart
      exact ⟨rfl, rfl⟩
  refine wp_perform_bind (fun _ _ => trivial) fun _ _ => ?_
  by_cases hrunning : q.status = .running
  · exact wp_mono (runAsync_ends hkey.1 hkey.2 hrunning (hlaws q hq) rfl) (fun _ hI => hI)
      fun _ _ hends _ => ⟨fun _ => hstatus.mp hrunning, fun _ => hends⟩
  · refine wp_of_uses (fun _ _ _ => trivial) (runAsync_yields hkey.2 hrunning (hlaws q hq) rfl)
      fun _ h' _ hext' _ => ⟨fun hends => ?_, fun h => absurd (hstatus.mpr h) hrunning⟩
    -- No operation of the call has saved a phase that is done.
    obtain ⟨ev, hmem, hsaves⟩ := hends.exists_save
    have hloud : ev.op.inconclusive = false := by simp [Op.inconclusive, hsaves]
    rcases List.mem_cons.mp (hext'.mem_of_not_quiet hmem hloud) with rfl | hold
    · cases hsaves
    · cases hext.mem_of_not_quiet hold hloud

/-! ## Sample runs -/

def agentChoice (status : EnvelopeStatus) : Choice :=
  { phaseID := .ok ⟨7⟩
    dispatch := .ok { envelopeRaw := .json (sampleEnvelope .explore status) } }

def waitingStore : ByID.Store :=
  (ByID.reach {} (ByID.sampleStore .init)
    (.start (.run { changeID := ⟨1⟩, phaseType := .explore }) ::
      List.replicate 40 (.step 0 (agentChoice .needsContext)))).state

def resumedAlone (s : ByID.Store) : Effects.Outcome Op Op.Ret Unit ByID.Store :=
  (resume {} ⟨7⟩).eval ByID.handler (fun _ => false) (fun _ => agentChoice .done) 0 s

/-- A phase that waits for context is resumed with success and ends blocked, although nothing
goes wrong and its agent answers `DONE`. -/
theorem waiting_ends_blocked :
    ByID.overview waitingStore = [(⟨1⟩, .needsContext, 1, 3, false)] ∧
      ((resumedAlone waitingStore).hist.any fun ev => ev.op.accepts) = true ∧
      ByID.overview (resumedAlone waitingStore).state = [(⟨1⟩, .blocked, 2, 3, false)] ∧
      ¬ EndsDone ⟨7⟩ (resumedAlone waitingStore).hist := by
  have hlast : (lastSaved (resumedAlone waitingStore).hist).map Phase.status = some .blocked := by
    decide +kernel
  refine ⟨by decide +kernel, by decide +kernel, by decide +kernel, ?_⟩
  rintro ⟨q, hq, -, hdone⟩
  rw [hq, Option.map_some, hdone] at hlast
  cases hlast

/-- A running phase ends done, and so does an interrupted one. -/
theorem running_ends_done :
    (resume {} explorePhase.id).wp (histSem (Favourable explorePhase fun _ => none))
        (fun _ => True) (fun _ h => (h.any fun ev => ev.op.accepts) = true →
          (EndsDone explorePhase.id h ↔
            explorePhase.status = .running ∨ explorePhase.status = .interrupted)) [] ∧
      ByID.overview (resumedAlone (ByID.reach {} (ByID.sampleStore .init)
        (ByID.interruptedRun 3)).state).state = [(⟨1⟩, .done, 2, 3, false)] := by
  refine ⟨resumed_ends_done_iff {} explorePhase (fun _ => none) rfl ?_, by decide +kernel⟩
  rintro q (rfl | ⟨now, hstart⟩)
  · rfl
  · obtain ⟨-, -, rfl⟩ := Phase.start_eq_ok_iff.mp hstart
    rfl

end SophiaOrchestrator
