import SophiaOrchestrator.Phase.CallProtocol

/-!
# Every call keeps its justifications

What the call has done is carried from stage to stage of its protocol: `Grounds` says, for each
stage, which answered operations are in the history there, and one lemma shows that every move is
justified by them and keeps them.
-/

namespace SophiaOrchestrator

open Effects Prog

variable {cid : ChangeID} {prior : PriorPhases} {h h' : History} {p p₁ p₂ q : Phase} {c : Change}
  {status : EnvelopeStatus} {env : Envelope} {now : Time} {reason : String} {persist : Bool}
  {s : Stage}

variable {cfg : ServiceConfig} {call : Call}

/-! ## The outcome of a phase -/

theorem PriorRead.mono (hread : PriorRead cid prior h) (hsub : ∀ {ev : Event}, ev ∈ h → ev ∈ h') :
    PriorRead cid prior h' := by
  intro entry hentry
  obtain ⟨row, hrow, heq⟩ := hread entry hentry
  exact ⟨row, hsub hrow, heq⟩

/-- The apply executor always returns an envelope, with a status of the closed
set and a confidence in the unit interval. -/
theorem ApplyOutcome.exists_envelope (c : Change) (outcome : ApplyOutcome) :
    ∃ env, (outcome.result c).envelope = some env ∧
      (env.status.isValid = true ∧ 0 ≤ env.confidence ∧ env.confidence ≤ 1) ∧
      (env.status = .done → PhaseType.apply.confidenceThreshold ≤ env.confidence) := by
  have hdone : (0 : ℚ) ≤ mkRat 85 100 ∧ mkRat 85 100 ≤ 1 := by decide +kernel
  have hthreshold : PhaseType.apply.confidenceThreshold ≤ mkRat 85 100 := by decide +kernel
  have hzero : (0 : ℚ) ≤ 0 ∧ (0 : ℚ) ≤ 1 := ⟨le_refl 0, zero_le_one⟩
  cases outcome with
  | finalized allSucceeded summary dispatches =>
    cases allSucceeded with
    | true => exact ⟨_, rfl, ⟨rfl, hdone⟩, fun _ => hthreshold⟩
    | false => exact ⟨_, rfl, ⟨rfl, hzero⟩, by simp [applyEnvelope]⟩
  | aborted reason dispatches | preflightFailed reason =>
    exact ⟨_, rfl, ⟨rfl, hzero⟩, by simp [applyEnvelope]⟩

/-! ## Settling a phase -/

theorem statusOf_settled (h : status.isValid = true) :
    Phase.statusOf status = .done ∨ Phase.statusOf status = .doneWithConcerns ∨
      Phase.statusOf status = .blocked ∨ Phase.statusOf status = .needsContext := by
  cases status with
  | unknown text => cases h
  | done => exact .inl rfl
  | doneWithConcerns => exact .inr (.inl rfl)
  | blocked => exact .inr (.inr (.inl rfl))
  | needsContext => exact .inr (.inr (.inr rfl))

theorem eq_done_of_statusOf (h : Phase.statusOf status = .done) : status = .done := by
  cases status <;> first | rfl | cases h

/-- `p₁` is the attempt `p` in the state in which a failure is recorded for it:
still running, never running, or changed by a completion whose save failed. -/
structure SameAttempt (p p₁ : Phase) (h : History) : Prop where
  id : p₁.id = p.id
  changeID : p₁.changeID = p.changeID
  pType : p₁.pType = p.pType
  retryBudget : p₁.retryBudget = p.retryBudget
  attempts : p₁.attempts = p.attempts
  cause : p₁.status = .running ∨ p.status ≠ .running ∨
    ∃ q₀ err, (⟨.phaseSave q₀, .error err⟩ : Event) ∈ h

theorem SameAttempt.mono (hsame : SameAttempt p p₁ h) (hsub : ∀ {ev : Event}, ev ∈ h → ev ∈ h') :
    SameAttempt p p₁ h' := by
  refine ⟨hsame.id, hsame.changeID, hsame.pType, hsame.retryBudget, hsame.attempts, ?_⟩
  rcases hsame.cause with hrunning | hstatus | ⟨q₀, err, hfailed⟩
  · exact .inl hrunning
  · exact .inr (.inl hstatus)
  · exact .inr (.inr ⟨q₀, err, hsub hfailed⟩)

theorem SameAttempt.settles (hsame : SameAttempt p p₁ h) (hvalid : env.status.isValid = true)
    (hrange : 0 ≤ env.confidence ∧ env.confidence ≤ 1)
    (hcomplete : p₁.complete (some env) now = .ok q) : Settles p q h := by
  obtain ⟨-, -, hthreshold, rfl⟩ := Phase.complete_eq_ok_iff.mp hcomplete
  refine ⟨hsame.id, hsame.changeID, hsame.pType, hsame.retryBudget,
    statusOf_settled hvalid, hrange, ?_, .inl hsame.attempts⟩
  intro hdone
  by_contra hlow
  exact hthreshold ⟨eq_done_of_statusOf hdone, not_le.mp hlow⟩

/-- Starting the attempt anew and completing it with a synthetic envelope
settles it as blocked, and counts as a further attempt. -/
theorem SameAttempt.settles_restarted {p₂ : Phase} {now' : Time} (hsame : SameAttempt p p₁ h)
    (hrun : p₁.status ≠ .running) (hstart : p₁.start now = .ok p₂)
    (hcomplete : p₂.complete (some (blockedEnvelope c p₂ reason)) now' = .ok q) :
    Settles p q h := by
  obtain ⟨-, hbudget, rfl⟩ := Phase.start_eq_ok_iff.mp hstart
  obtain ⟨-, -, -, rfl⟩ := Phase.complete_eq_ok_iff.mp hcomplete
  refine ⟨hsame.id, hsame.changeID, hsame.pType, hsame.retryBudget,
    .inr (.inr (.inl rfl)), ⟨le_refl (0 : ℚ), zero_le_one⟩,
    by simp [Phase.statusOf, blockedEnvelope], ?_⟩
  refine .inr ⟨by simp [hsame.attempts], ?_, rfl, ?_⟩
  · rw [← hsame.attempts, ← hsame.retryBudget]
    exact hbudget
  · rcases hsame.cause with hrunning | hcause
    · exact absurd hrunning hrun
    · exact hcause

theorem NoChangeWrite.cons_phaseSave (hno : NoChangeWrite h) (p : Phase) (r : Except RepoErr Unit) :
    NoChangeWrite (⟨.phaseSave p, r⟩ :: h) := by
  intro ev hev
  rcases List.mem_cons.mp hev with rfl | hmem
  · rfl
  · exact hno ev hmem

/-! ## Inbound calls -/

theorem resumed_eq_some_ok {p' : Phase} (h : resumed p now = some (.ok p')) :
    (p.status = .interrupted ∨ (p.status = .blocked ∧ p.pType = .apply)) ∧
      p.attempts < p.retryBudget ∧ p'.id = p.id ∧ p'.changeID = p.changeID ∧
      p'.pType = p.pType ∧ p'.retryBudget = p.retryBudget ∧
      p'.attempts = p.attempts + 1 ∧ p'.status = .running := by
  unfold resumed at h
  split_ifs at h with hinterrupted hblocked
  · obtain ⟨-, hbudget, rfl⟩ := Phase.start_eq_ok_iff.mp (Option.some.inj h)
    exact ⟨.inl hinterrupted, hbudget, rfl, rfl, rfl, rfl, rfl, rfl⟩
  · obtain ⟨-, hbudget, rfl⟩ := Phase.restart_eq_ok_iff.mp (Option.some.inj h)
    exact ⟨.inr hblocked, hbudget, rfl, rfl, rfl, rfl, rfl, rfl⟩

theorem kept_of_resumed_eq_none (hresumable : resumable p = true) (h : resumed p now = none) :
    p.status ≠ .interrupted ∧ p.status ≠ .blocked := by
  unfold resumed at h
  split_ifs at h with hinterrupted hblocked
  refine ⟨hinterrupted, ?_⟩
  intro hstatus
  simp only [resumable, hstatus, PhaseStatus.isTerminal, Bool.not_true, Bool.false_or,
    decide_eq_true_eq, true_and] at hresumable
  exact hblocked ⟨hstatus, hresumable⟩

/-! ## What is known at a stage -/

structure Untouched (h : History) : Prop where
  noPhaseSave : NoPhaseSave h
  noChangeWrite : NoChangeWrite h

structure Opened (inp : RunPhaseInput) (c : Change) (h : History) : Prop extends Untouched h where
  changeID : c.id = inp.changeID
  loaded : ⟨.changeFindByID inp.changeID, .ok c⟩ ∈ h
  checked : ⟨.phaseFindRunningByChange inp.changeID, .error .notFound⟩ ∈ h

structure Async (call : Call) (c : Change) (p : Phase) (h : History) : Prop where
  working : Working call c p h
  scheduled : Scheduled p h
  noChangeWrite : NoChangeWrite h

structure Recorded (call : Call) (c : Change) (p q : Phase) (h : History) : Prop
    extends Async call c p h where
  pType : q.pType = p.pType
  advances : q.status.advanceAllowed = true → Advances p q h

def Grounds (call : Call) : Stage → History → Prop
  | .begun, h => Untouched h
  | .found cid c, h => Untouched h ∧ c.id = cid ∧ ⟨.changeFindByID cid, .ok c⟩ ∈ h
  | .free inp c, h => Opened inp c h
  | .named inp c pid, h => Opened inp c h ∧ ⟨.newPhaseID, .ok pid⟩ ∈ h
  | .informed inp c pid prior, h => Opened inp c h ∧ ⟨.newPhaseID, .ok pid⟩ ∈ h ∧
    ⟨.phaseFindByChangeAndType inp.changeID inp.phaseType, prior⟩ ∈ h
  | .fetched id p, h => Untouched h ∧ ⟨.phaseFindByID id, .ok p⟩ ∈ h
  | .matched id c p, h => Untouched h ∧ ⟨.phaseFindByID id, .ok p⟩ ∈ h ∧ c.id = p.changeID ∧
    ⟨.changeFindByID c.id, .ok c⟩ ∈ h
  | .ready c p, h => Working call c p h ∧ NoChangeWrite h
  | .working c p, h | .initialised c p _, h => Async call c p h
  | .reading c p _ prior, h | .staffed c p prior, h =>
    Async call c p h ∧ PriorRead p.changeID prior h
  | .executed c p result, h => Async call c p h ∧
    ∃ outcome : ApplyOutcome, result = outcome.result c
  | .sent c p _, h | .back c p _, h => Async call c p h ∧ ∃ r, ⟨.dispatch p, r⟩ ∈ h
  | .lost c p p₁, h | .failing c p p₁ _, h => Async call c p h ∧ SameAttempt p p₁ h
  | .saved c p q _ _ moved, h => moved = false → Recorded call c p q h
  | .unstored c p q _ _ _ _, h => Recorded call c p q h
  | .aborted c, h => (∀ cid reason, call = .abort cid reason → c.id = cid) ∧
    c.status = .aborted ∧ ⟨.changeSave c, .ok ()⟩ ∈ h
  | .sweeping stuck, h => call = .recover ∧ ⟨.phaseFindAllRunning, .ok stuck⟩ ∈ h
  | .blocked _ _ _, _ | .served, _ | .ended, _ => True

theorem Untouched.extends (hclean : Untouched h) (hext : Extends h h') : Untouched h' :=
  ⟨hext.noPhaseSave hclean.noPhaseSave, hext.noChangeWrite hclean.noChangeWrite⟩

theorem Opened.extends {inp : RunPhaseInput} (hopened : Opened inp c h) (hext : Extends h h') :
    Opened inp c h' :=
  ⟨hopened.toUntouched.extends hext, hopened.changeID, hext.mem hopened.loaded,
    hext.mem hopened.checked⟩

theorem Async.extends (hasync : Async call c p h) (hext : Extends h h') : Async call c p h' :=
  ⟨hasync.working.mono hext.mem, hext.mem hasync.scheduled,
    hext.noChangeWrite hasync.noChangeWrite⟩

theorem Recorded.extends (hrecorded : Recorded call c p q h) (hext : Extends h h') :
    Recorded call c p q h' :=
  ⟨hrecorded.toAsync.extends hext, hrecorded.pType,
    fun hallowed => (hrecorded.advances hallowed).mono hext.mem⟩

/-- What is known stays known as long as no table is written. -/
theorem Grounds.extends (hgrounds : Grounds call s h) (hext : Extends h h') :
    Grounds call s h' := by
  cases s with
  | begun => exact Untouched.extends hgrounds hext
  | found cid c => exact ⟨hgrounds.1.extends hext, hgrounds.2.1, hext.mem hgrounds.2.2⟩
  | free inp c => exact Opened.extends hgrounds hext
  | named inp c pid | fetched id p => exact ⟨hgrounds.1.extends hext, hext.mem hgrounds.2⟩
  | informed inp c pid prior =>
    exact ⟨hgrounds.1.extends hext, hext.mem hgrounds.2.1, hext.mem hgrounds.2.2⟩
  | matched id c p =>
    exact ⟨hgrounds.1.extends hext, hext.mem hgrounds.2.1, hgrounds.2.2.1,
      hext.mem hgrounds.2.2.2⟩
  | ready c p => exact ⟨hgrounds.1.mono hext.mem, hext.noChangeWrite hgrounds.2⟩
  | working c p | initialised c p answer => exact Async.extends hgrounds hext
  | reading c p d prior | staffed c p prior | lost c p q | failing c p p₁ c' =>
    exact ⟨hgrounds.1.extends hext, hgrounds.2.mono hext.mem⟩
  | executed c p result => exact ⟨hgrounds.1.extends hext, hgrounds.2⟩
  | sent c p result | back c p raw =>
    exact ⟨hgrounds.1.extends hext, hgrounds.2.imp fun _ => hext.mem⟩
  | saved c p q env refs moved => exact fun hmoved => (hgrounds hmoved).extends hext
  | unstored c p q env ref refs err => exact Recorded.extends hgrounds hext
  | aborted c => exact ⟨hgrounds.1, hgrounds.2.1, hext.mem hgrounds.2.2⟩
  | sweeping stuck => exact ⟨hgrounds.1, hext.mem hgrounds.2⟩
  | _ => trivial

theorem quiet_of_idle {op : Op} (h : op.idle = true) : op.quiet = true := by
  cases op <;> first | rfl | cases h

/-! ## The moves -/

theorem Grounds.async (hgrounds : Grounds call s h) (hrun : s.run = some (c, p)) :
    Async call c p h := by
  cases s with
  | working c' p' | initialised c' p' answer => cases hrun; exact hgrounds
  | reading c' p' d prior | executed c' p' result | back c' p' raw => cases hrun; exact hgrounds.1
  | _ => cases hrun

theorem Stage.Offers.valid (hoffers : s.Offers c p env persist)
    (hreal : ∀ result, s = .executed c p result →
      ∃ outcome : ApplyOutcome, result = outcome.result c) :
    env.status.isValid = true ∧ 0 ≤ env.confidence ∧ env.confidence ≤ 1 := by
  cases hoffers with
  | init htype hvalid | agent hvalid =>
    obtain ⟨-, hstatus, hrange, -⟩ := validateEnvelope_eq_ok hvalid
    exact ⟨hstatus, hrange⟩
  | apply htype henv =>
    obtain ⟨outcome, rfl⟩ := hreal _ rfl
    obtain ⟨env', henv', hsound, -⟩ := outcome.exists_envelope c
    obtain rfl : env' = env := Option.some.inj (henv'.symm.trans henv)
    exact hsound

theorem Stage.Offers.sound (hoffers : s.Offers c p env persist) (hgrounds : Grounds call s h) :
    env.status.isValid = true ∧ 0 ≤ env.confidence ∧ env.confidence ≤ 1 :=
  hoffers.valid fun result heq => by subst heq; exact hgrounds.2

theorem Stage.Offers.dispatched (hoffers : s.Offers c p env persist) (hgrounds : Grounds call s h)
    (harchive : p.pType = .archive) : ∃ r, ⟨.dispatch p, r⟩ ∈ h := by
  cases hoffers with
  | init htype | apply htype => rw [htype] at harchive; cases harchive
  | agent => exact hgrounds.2

theorem SameAttempt.refl (p : Phase) (h : History) : SameAttempt p p h := by
  refine ⟨rfl, rfl, rfl, rfl, rfl, ?_⟩
  by_cases hrun : p.status = .running
  · exact .inl hrun
  · exact .inr (.inl hrun)

/-- The concerns of the critic change neither the identity of the attempt nor
the soundness of the envelope. -/
theorem withConcerns_sound (env : Envelope) (p : Phase) (concerns : List Concern) (h : History) :
    SameAttempt p (withConcerns env p concerns).2 h ∧
      (env.status.isValid = true ∧ 0 ≤ env.confidence ∧ env.confidence ≤ 1 →
        (withConcerns env p concerns).1.status.isValid = true ∧
          0 ≤ (withConcerns env p concerns).1.confidence ∧
          (withConcerns env p concerns).1.confidence ≤ 1) := by
  unfold withConcerns
  split
  · exact ⟨⟨rfl, rfl, rfl, rfl, rfl, (SameAttempt.refl p h).cause⟩, fun hsound => ⟨rfl, hsound.2⟩⟩
  · exact ⟨.refl p h, fun hsound => hsound⟩

theorem Stage.Drops.grounds (hdrops : s.Drops c p p₁) (hgrounds : Grounds call s h) :
    Async call c p h ∧ SameAttempt p p₁ h := by
  cases hdrops with
  | outcome hrun =>
    exact ⟨hgrounds.async hrun, .refl p h⟩
  | refused concerns hoffers =>
    exact ⟨hgrounds.async hoffers.run, (withConcerns_sound _ p concerns h).1⟩
  | lost => exact hgrounds

theorem Stage.Offers.settles {concerns : List Concern} (hoffers : s.Offers c p env persist)
    (hgrounds : Grounds call s h)
    (hcomplete : (withConcerns env p concerns).2.complete (some (withConcerns env p concerns).1)
      now = .ok q) : Settles p q h := by
  obtain ⟨hsame, hkeeps⟩ := withConcerns_sound env p concerns h
  obtain ⟨hvalid, hrange⟩ := hkeeps (hoffers.sound hgrounds)
  exact hsame.settles hvalid hrange hcomplete

theorem SameAttempt.settles_blocked (hsame : SameAttempt p p₁ h) (hrevived : Revived p₁ p₂)
    (hcomplete : p₂.complete (some (blockedEnvelope c p₂ reason)) now = .ok q) :
    Settles p q h := by
  rcases hrevived with rfl | ⟨hrun, now', hstart⟩
  · exact hsame.settles rfl ⟨le_refl (0 : ℚ), zero_le_one⟩ hcomplete
  · exact hsame.settles_restarted hrun hstart hcomplete

theorem Async.cons_phaseSave (hasync : Async call c p h) (r : Except RepoErr Unit) :
    Async call c p (⟨.phaseSave q, r⟩ :: h) :=
  ⟨hasync.working.mono (List.mem_cons_of_mem _), List.mem_cons_of_mem _ hasync.scheduled,
    hasync.noChangeWrite.cons_phaseSave q r⟩

theorem Grounds.onOk {answer : Except RepoErr Unit} (hok : answer = .ok () → Grounds call s h) :
    Grounds call (s.onOk answer) h := by
  cases answer with
  | error err => trivial
  | ok _ => exact hok rfl

/-- The operation is justified by what is known at the stage, and leads to what is known at the
next one. -/
def Grounded (cfg : ServiceConfig) (call : Call) (s : Stage) (ev : Event) (s' : Stage) : Prop :=
  ∀ h, Grounds call s h → Good cfg call (ev :: h) ∧ Grounds call s' (ev :: h)

/-! ### Inbound calls -/

theorem starts_grounded {inp : RunPhaseInput} {pid : PhaseID} {prior : Except RepoErr Phase}
    {answer : Except RepoErr Unit} (hcall : call = .run inp)
    (hvalid : isNextValidTransition c.currentPhase inp.phaseType = true)
    (hstart : (newPhase inp pid prior).start now = .ok p) :
    Grounded cfg call (.informed inp c pid prior) ⟨.phaseSave p, answer⟩
      (.onOk (.ready c p) answer) := by
  rintro h ⟨hopened, hid, hprior⟩
  refine ⟨.startRun hcall hopened.loaded hvalid hopened.checked hid hprior hstart
    hopened.noPhaseSave, .onOk ?_⟩
  rintro rfl
  obtain ⟨-, -, rfl⟩ := Phase.start_eq_ok_iff.mp hstart
  refine ⟨⟨hopened.changeID, .tail _ ?_, ?_⟩, hopened.noChangeWrite.cons_phaseSave _ _⟩
  · rw [hopened.changeID]
    exact hopened.loaded
  · exact .started _ hcall (.tail _ hopened.checked) rfl rfl rfl (.head _)

theorem restarts_grounded {pid : PhaseID} {p' : Phase} {answer : Except RepoErr Unit}
    (hcall : call = .resume pid) (hresumable : resumable p = true)
    (hrestart : resumed p now = some (.ok p')) :
    Grounded cfg call (.matched pid c p) ⟨.phaseSave p', answer⟩
      (.onOk (.ready c p') answer) := by
  rintro h ⟨hclean, hfetched, hid, hloaded⟩
  refine ⟨.startResume hcall hfetched hresumable hrestart hclean.noPhaseSave, .onOk ?_⟩
  rintro rfl
  obtain ⟨-, -, -, hchange, -⟩ := resumed_eq_some_ok hrestart
  exact ⟨⟨hid.trans hchange.symm, .tail _ hloaded,
    .restarted _ _ _ hcall (.tail _ hfetched) hresumable hrestart (.head _)⟩,
    hclean.noChangeWrite.cons_phaseSave _ _⟩

theorem Working.scheduled (hworking : Working call c p h) (hno : NoChangeWrite h) :
    Good cfg call (⟨.returned (.ok (.scheduled p.changeID p.id p.status)), ()⟩ :: h) ∧
      Async call c p (⟨.returned (.ok (.scheduled p.changeID p.id p.status)), ()⟩ :: h) := by
  have hext := Extends.cons (h := h)
    ⟨.returned (.ok (.scheduled p.changeID p.id p.status)), ()⟩ rfl rfl
  exact ⟨Justified.scheduled hworking, hworking.mono hext.mem, .head _, hext.noChangeWrite hno⟩

theorem aborts_grounded {c' : Change} {answer : Except RepoErr Unit}
    (hcall : call = .abort cid reason) (habort : c.abort reason now = .ok c') :
    Grounded cfg call (.found cid c) ⟨.changeSave c', answer⟩ (.onOk (.aborted c') answer) := by
  rintro h ⟨hclean, rfl, hloaded⟩
  obtain ⟨-, hc'⟩ := Change.abort_eq_ok_iff.mp habort
  refine ⟨.abort hcall hloaded hclean.noChangeWrite habort, .onOk ?_⟩
  rintro rfl
  refine ⟨fun cid reason hcall' => ?_, by rw [hc'], .head _⟩
  rw [hc']
  exact (Call.abort.inj (hcall.symm.trans hcall')).1

/-! ### The outcome and its record -/

theorem reads_grounded {d : GovernanceDecision} {pt : PhaseType} {row : Phase} :
    Grounded cfg call (.reading c p d prior) ⟨.phaseFindByChangeAndType c.id pt, .ok row⟩
      (.reading c p d (prior ++ [(pt, ⟨row.status, row.confidence⟩)])) := by
  rintro h ⟨hasync, hread⟩
  have hext := Extends.cons (h := h) ⟨.phaseFindByChangeAndType c.id pt, .ok row⟩ rfl rfl
  refine ⟨.quiet rfl, hasync.extends hext, fun entry hentry => ?_⟩
  rcases List.mem_append.mp hentry with hold | hnew
  · exact hread.mono hext.mem entry hold
  · rw [List.mem_singleton.mp hnew, ← hasync.working.changeID]
    exact ⟨_, .head _, rfl⟩

section Completion

variable {concerns : List Concern} (hoffers : s.Offers c p env persist)
  (hcomplete : (withConcerns env p concerns).2.complete (some (withConcerns env p concerns).1)
    now = .ok q)

include hoffers hcomplete

theorem completes_grounded :
    Grounded cfg call s ⟨.phaseSave q, .ok ()⟩ (.saved c p q (withConcerns env p concerns).1
      (toStore (withConcerns env p concerns).1 persist) false) := by
  intro h hgrounds
  have hasync := hgrounds.async hoffers.run
  have hsettles := hoffers.settles hgrounds hcomplete
  refine ⟨.settle hasync.working hasync.scheduled hsettles, fun _ =>
    ⟨hasync.cons_phaseSave _, hsettles.pType, fun hallowed => ?_⟩⟩
  refine ⟨.head _, hsettles.id, hsettles.changeID, hsettles.pType, hallowed, fun harchive => ?_⟩
  exact (hoffers.dispatched hgrounds harchive).imp fun _ => .tail _

theorem loses_grounded {err : RepoErr} :
    Grounded cfg call s ⟨.phaseSave q, .error err⟩ (.lost c p q) := by
  intro h hgrounds
  have hasync := hgrounds.async hoffers.run
  have hsettles := hoffers.settles hgrounds hcomplete
  obtain ⟨-, -, -, hattempts⟩ := Phase.complete_key hcomplete
  refine ⟨.settle hasync.working hasync.scheduled hsettles, hasync.cons_phaseSave _, hsettles.id,
    hsettles.changeID, hsettles.pType, hsettles.retryBudget, ?_, .inr (.inr ⟨_, _, .head _⟩)⟩
  exact hattempts.trans (withConcerns_sound _ _ _ h).1.attempts

end Completion

theorem CallMove.moved {ev : Event} {refs : List ArtifactRef}
    (hmove : CallMove cfg call (.saved c p q env refs false) ev (.saved c p q env refs true)) :
    Grounded cfg call (.saved c p q env refs false) ev (.saved c p q env refs true) := by
  intro h hgrounds
  have hrecorded := hgrounds rfl
  refine ⟨?_, fun hmoved => (nomatch hmoved)⟩
  cases hmove with
  | advances hallowed harchive hadvance =>
    rw [hrecorded.pType] at harchive hadvance
    exact .advance hrecorded.working hrecorded.scheduled (hrecorded.advances hallowed)
      hrecorded.noChangeWrite harchive hadvance
  | archives hallowed harchive hadvance hcompleted hwired =>
    rw [hrecorded.pType] at harchive hadvance
    exact .complete hrecorded.working hrecorded.scheduled (hrecorded.advances hallowed)
      hrecorded.noChangeWrite harchive hadvance hcompleted hwired
  | archivesWithOutbox hallowed harchive hadvance hcompleted hwired =>
    rw [hrecorded.pType] at harchive hadvance
    exact .completeWithOutbox hrecorded.working hrecorded.scheduled
      (hrecorded.advances hallowed) hrecorded.noChangeWrite harchive hadvance hcompleted hwired

/-! ### All moves -/

theorem grounds_step {ev : Event} {s' : Stage} (hmove : CallMove cfg call s ev s')
    (hans : ev.op.Answers ev.ret) (hgrounds : Grounds call s h) :
    Good cfg call (ev :: h) ∧ Grounds call s' (ev :: h) := by
  have hext : ev.op.writesChange = false → ev.op.savesPhase = false → Extends h (ev :: h) :=
    Extends.cons ev
  cases hmove with
  | stay hidle =>
    exact ⟨.quiet (quiet_of_idle hidle), hgrounds.extends (.quiet _ (quiet_of_idle hidle))⟩
  | noChange | noPhase | unstaffed => exact ⟨.quiet rfl, hgrounds.extends (hext rfl rfl)⟩
  | refuses => exact ⟨.refused, trivial⟩
  | acknowledges hpending habort =>
    refine ⟨.acknowledged fun cid reason hcall => ?_, trivial⟩
    obtain ⟨c, rfl⟩ := habort cid reason hcall
    exact ⟨c, hgrounds.2.2, hgrounds.1 cid reason hcall, hgrounds.2.1⟩
  | loads => exact ⟨.quiet rfl, Untouched.extends hgrounds (hext rfl rfl), hans _ rfl, .head _⟩
  | frees =>
    obtain ⟨hclean, hid, hloaded⟩ := hgrounds
    exact ⟨.quiet rfl, hclean.extends (hext rfl rfl), hid, .tail _ hloaded, .head _⟩
  | names => exact ⟨.quiet rfl, Opened.extends hgrounds (hext rfl rfl), .head _⟩
  | informs =>
    exact ⟨.quiet rfl, hgrounds.1.extends (hext rfl rfl), .tail _ hgrounds.2, .head _⟩
  | starts hcall hvalid hstart => exact starts_grounded hcall hvalid hstart h hgrounds
  | fetches => exact ⟨.quiet rfl, Untouched.extends hgrounds (hext rfl rfl), .head _⟩
  | joins =>
    have hid := hans _ rfl
    refine ⟨.quiet rfl, hgrounds.1.extends (hext rfl rfl), .tail _ hgrounds.2, hid, ?_⟩
    rw [hid]
    exact .head _
  | restarts hcall hresumable hrestart =>
    exact restarts_grounded hcall hresumable hrestart h hgrounds
  | continues hcall hresumable hkept =>
    obtain ⟨hclean, hfetched, hid, hloaded⟩ := hgrounds
    have hcause := kept_of_resumed_eq_none hresumable hkept
    exact Working.scheduled ⟨hid, hloaded, .continued _ hcall hfetched hresumable hcause⟩
      hclean.noChangeWrite
  | schedules => exact hgrounds.1.scheduled hgrounds.2
  | rejects hcall hopen hrevived hcomplete =>
    have hsettles := (SameAttempt.refl _ h).settles_blocked hrevived hcomplete
    obtain ⟨-, -, -, rfl⟩ := Phase.complete_eq_ok_iff.mp hcomplete
    exact ⟨.reject hcall hgrounds.2.1 hopen hsettles rfl, trivial⟩
  | aborts hcall habort => exact aborts_grounded hcall habort h hgrounds
  | lists hcall => exact ⟨.quiet rfl, hcall, .head _⟩
  | interrupts hmem =>
    exact ⟨.recover hgrounds.1 hgrounds.2 hmem, hgrounds.1, .tail _ hgrounds.2⟩
  | initialises | ungoverned => exact ⟨.quiet rfl, Async.extends hgrounds (hext rfl rfl)⟩
  | governs => exact ⟨.quiet rfl, Async.extends hgrounds (hext rfl rfl), by simp [PriorRead]⟩
  | suspends | givesUp | announces | announcesOnly | closes => exact ⟨.quiet rfl, trivial⟩
  | reads => exact reads_grounded h hgrounds
  | executes hpermits htype hwired =>
    exact ⟨.execute hgrounds.1.working htype hwired,
      hgrounds.1.extends (hext rfl rfl), hans⟩
  | staffs => exact ⟨.quiet rfl, hgrounds.1.extends (hext rfl rfl),
    hgrounds.2.mono (hext rfl rfl).mem⟩
  | sends hlaws =>
    exact ⟨.dispatch hgrounds.1.working hgrounds.2 hlaws,
      hgrounds.1.extends (hext rfl rfl), _, .head _⟩
  | releases | recalls =>
    exact ⟨.quiet rfl, hgrounds.1.extends (hext rfl rfl), hgrounds.2.imp fun _ => .tail _⟩
  | completes hoffers hcomplete => exact completes_grounded hoffers hcomplete h hgrounds
  | loses hoffers hcomplete => exact loses_grounded hoffers hcomplete h hgrounds
  | fails hdrops =>
    obtain ⟨hasync, hsame⟩ := hdrops.grounds hgrounds
    exact ⟨.quiet rfl, hasync.extends (hext rfl rfl), hsame.mono (hext rfl rfl).mem⟩
  | blocks hrevived hcomplete =>
    exact ⟨.settle hgrounds.1.working hgrounds.1.scheduled
      (hgrounds.2.settles_blocked hrevived hcomplete), trivial⟩
  | stores => exact ⟨.quiet rfl, fun hmoved => (hgrounds hmoved).extends (hext rfl rfl)⟩
  | missesStore => exact ⟨.quiet rfl, (hgrounds rfl).extends (hext rfl rfl)⟩
  | reports => exact ⟨.quiet rfl, fun _ => Recorded.extends hgrounds (hext rfl rfl)⟩
  | advances hallowed harchive hadvance =>
    exact CallMove.moved (.advances hallowed harchive hadvance) h hgrounds
  | archives hallowed harchive hadvance hcompleted hwired =>
    exact CallMove.moved (.archives hallowed harchive hadvance hcompleted hwired) h hgrounds
  | archivesWithOutbox hallowed harchive hadvance hcompleted hwired =>
    exact CallMove.moved (.archivesWithOutbox hallowed harchive hadvance hcompleted hwired) h
      hgrounds

/-- Every operation of every call is justified by what the call has done
before. -/
theorem main_justified (cfg : ServiceConfig) (call : Call) :
    Keeps cfg call (fun _ _ => True) (main cfg call) [] := by
  refine wp_mono ((main_follows cfg call).wp_hist (J := Grounds call) ?_ ?_) (fun _ hI => hI)
    fun _ _ _ => trivial
  · exact fun s ev s' h hmove hans => grounds_step hmove hans
  · exact ⟨fun _ hev => (nomatch hev), fun _ hev => (nomatch hev)⟩

end SophiaOrchestrator
