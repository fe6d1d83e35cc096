import SophiaOrchestrator.Effects.Interference
import SophiaOrchestrator.Phase.Persistence

/-!
# Runs that leave their row behind

`runAsync` ends by persisting what became of its phase.  When that save fails, the
phase it holds in memory is already terminal, `failPhase` can neither start nor
complete it again, and publishes `phase.failed` over a row that is still running.

The run is seen among other calls, which may do anything that leaves the row of this
attempt alone.
-/

namespace SophiaOrchestrator

open Effects Prog

variable {p q : Phase} {x : Store × List Op} {s s' : Store} {status : PhaseStatus} {op : Op}
  {cfg : ServiceConfig} {c : Change} {inp : RunPhaseInput} {env : Envelope} {persist : Bool}

/-! ## The property -/

def Store.rowStatus (s : Store) (p : Phase) : Option PhaseStatus :=
  (s.phases.findTarget p.key).map Phase.status

def Op.publishes (id : PhaseID) (eventType : EventType) : Op → Bool
  | .publishEvent pid type => decide (pid = some id ∧ type = eventType)
  | _ => false

def published (id : PhaseID) (eventType : EventType) (log : List Op) : Bool :=
  log.any (Op.publishes id eventType)

/-- `runAsync` is entered with a running phase whose row is persisted. -/
structure AsyncEntered (p : Phase) (s : Store) : Prop where
  running : p.status = .running
  fits : p.fitsColumns = true
  row : s.rowStatus p = some .running

/-- The other calls leave the row of the attempt as it is. -/
def SameRow (p : Phase) (s s' : Store) : Prop :=
  s'.rowStatus p = s.rowStatus p

instance (p : Phase) : Std.Refl (SameRow p) where
  refl _ := rfl

/-- The row is blocked whenever `phase.failed` was published. -/
def FailureRecorded (p : Phase) (x : Store × List Op) : Prop :=
  published p.id .phaseFailed x.2 = true → x.1.rowStatus p = some .blocked

/-- The run has stopped at an approval gate, or its row is no longer running. -/
def RowSettled (p : Phase) (x : Store × List Op) : Prop :=
  published p.id .approvalRequired x.2 = true ∨
    ∃ status, x.1.rowStatus p = some status ∧ status ≠ .running

theorem not_rowSettled (hgate : published p.id .approvalRequired x.2 = false)
    (hrow : x.1.rowStatus p = some .running) : ¬ RowSettled p x := by
  rintro (happroval | ⟨status, hstatus, hended⟩)
  · rw [hgate] at happroval
    cases happroval
  · rw [hrow] at hstatus
    exact hended (Option.some.inj hstatus).symm

/-! ## The condition -/

/-- The change can be read, and the save of a phase takes effect; one that reports a
failure all the same has saved a blocked phase. -/
def recordsOutcome : Op → Choice → Bool
  | .changeFindByID _, ch => decide (ch.fault = .none)
  | .phaseSave q, ch =>
    decide (ch.fault = .none) || (decide (ch.fault = .after) && decide (q.status = .blocked))
  | _, _ => true

/-! ## Saving over an existing row -/

theorem Store.rowStatus_congr (h : s'.phases = s.phases) (p : Phase) :
    s'.rowStatus p = s.rowStatus p := by
  rw [rowStatus, rowStatus, h]

theorem Store.rowStatus_eq_some_iff :
    s.rowStatus p = some status ↔ ∃ r ∈ s.phases.rows, r.key = p.key ∧ r.status = status := by
  rw [rowStatus, Option.map_eq_some_iff]
  constructor
  · rintro ⟨r, hfound, hstatus⟩
    obtain ⟨hr, hkey⟩ := (s.phases.findTarget_eq_some_iff p.key r).mp hfound
    exact ⟨r, hr, hkey, hstatus⟩
  · rintro ⟨r, hr, hkey, hstatus⟩
    exact ⟨r, (s.phases.findTarget_eq_some_iff p.key r).mpr ⟨hr, hkey⟩, hstatus⟩

theorem Store.rowStatus_savePhase (hkey : q.key = p.key) (hsave : s.savePhase q = .ok s') :
    s'.rowStatus p = some q.status := by
  obtain ⟨r, hr, hcolumns⟩ := exists_row_of_savePhase hsave
  refine rowStatus_eq_some_iff.mpr ⟨r, hr, ?_, ?_⟩
  · rw [hcolumns, ← hkey]
    rfl
  · rw [hcolumns]
    rfl

theorem Store.exists_savePhase (hkey : q.key = p.key) (hfits : q.fitsColumns = true)
    (hrow : s.rowStatus p = some status) :
    ∃ s', s.savePhase q = .ok s' := by
  obtain ⟨r, hr, hrkey, -⟩ := rowStatus_eq_some_iff.mp hrow
  have hallowed : s.saveRefusal q = none := by
    rw [saveRefusal, if_neg (by simp [hfits]), if_pos ⟨r, hr, hrkey.trans hkey.symm⟩]
  rcases s.savePhase_eq_saveRefusal q with ⟨err, herr, -⟩ | ⟨-, hsaved⟩
  · rw [hallowed] at herr
    cases herr
  · exact hsaved

theorem Store.exists_findChange (hrow : s.rowStatus p = some status) :
    ∃ c, s.findChange p.changeID = .ok c := by
  obtain ⟨r, hr, hkey, -⟩ := rowStatus_eq_some_iff.mp hrow
  obtain ⟨c, hc, hid⟩ := s.phase_change r hr
  exact ⟨c, findChange_eq_ok_iff.mpr ⟨hc, hid.trans (congrArg Prod.fst hkey)⟩⟩

/-! ## Operations that stand aside -/

def Op.aside : Op → Bool
  | .phaseSave _ => false
  | .publishEvent _ eventType => decide (eventType ≠ .phaseFailed)
  | _ => true

structure RowAt (p : Phase) (status : PhaseStatus) (x : Store × List Op) : Prop where
  row : x.1.rowStatus p = some status
  silent : published p.id .phaseFailed x.2 = false

theorem RowAt.failureRecorded (h : RowAt p status x) : FailureRecorded p x := by
  intro hpublished
  rw [h.silent] at hpublished
  cases hpublished

theorem publishes_of_aside (h : op.aside = true) (id : PhaseID) :
    op.publishes id .phaseFailed = false := by
  cases op with
  | publishEvent pid eventType =>
    have hother : eventType ≠ .phaseFailed := of_decide_eq_true h
    simp [Op.publishes, hother]
  | _ => rfl

theorem aside_of_idle (h : op.idle = true) : op.aside = true := by
  cases op with
  | publishEvent pid eventType => cases eventType <;> first | rfl | cases h
  | _ => first | rfl | cases h

theorem savesPhase_of_aside (h : op.aside = true) : op.savesPhase = false := by
  cases op <;> first | rfl | cases h

abbrev Within {α : Type} (p : Phase) (R : α → Store × List Op → Prop) (prog : Program α)
    (x : Store × List Op) : Prop :=
  prog.wp (handler.amid (SameRow p) recordsOutcome) (FailureRecorded p) R x

abbrev RowStep (p : Phase) : Sem Op Op.Ret (Store × List Op) :=
  handler.amid (SameRow p) recordsOutcome

structure Holds (p q : Phase) : Prop where
  key : q.key = p.key
  fits : q.fitsColumns = true

theorem Holds.complete {q' : Phase} {now : Time} (h : Holds p q)
    (hrange : 0 ≤ env.confidence ∧ env.confidence ≤ 1)
    (hcomplete : q.complete (some env) now = .ok q') : Holds p q' := by
  have hfits := h.fits
  obtain ⟨-, -, -, rfl⟩ := Phase.complete_eq_ok_iff.mp hcomplete
  simp only [Phase.fitsColumns, Bool.and_eq_true, decide_eq_true_eq] at hfits
  exact ⟨h.key, Phase.InRange.fitsColumns ⟨hfits.1.1.1, hfits.1.1.2, hrange⟩⟩

theorem complete_blockedEnvelope (hrunning : q.status = .running) (c : Change) (reason : String)
    (now : Time) :
    ∃ q', q.complete (some (blockedEnvelope c q reason)) now = .ok q' ∧ q'.status = .blocked :=
  ⟨_, Phase.complete_eq_ok_iff.mpr ⟨hrunning, rfl, by simp [blockedEnvelope], rfl⟩, rfl⟩

/-! ## The moves of a run -/

section Moves

variable {x' : Store × List Op} {answer : op.Ret} {stage : Stage} {p₁ p₂ : Phase} {now : Time}
  {reason : String}

theorem RowStep.row (hstep : RowStep p op x answer x') (hop : op.savesPhase = false) :
    x'.1.rowStatus p = x.1.rowStatus p := by
  obtain ⟨s, ch, hsame, -, hrun, -⟩ := hstep
  have hphases := handle_phases_of_not_savesPhase hop ch s
  rw [← handler_run, hrun] at hphases
  rw [Store.rowStatus_congr hphases, hsame]

theorem RowStep.answers (hstep : RowStep p op x answer x') : op.Answers answer := by
  obtain ⟨s, ch, -, -, hrun, -⟩ := hstep
  have hanswer := handle_answers op ch s
  rw [← handler_run, hrun] at hanswer
  exact hanswer

theorem RowStep.published (hstep : RowStep p op x answer x') (id : PhaseID) (type : EventType) :
    SophiaOrchestrator.published id type x'.2 =
      (op.publishes id type || SophiaOrchestrator.published id type x.2) := by
  obtain ⟨s, ch, -, -, -, hlog⟩ := hstep
  rw [hlog]
  rfl

theorem RowAt.aside (h : RowAt p status x) (hstep : RowStep p op x answer x')
    (haside : op.aside = true) : RowAt p status x' where
  row := (hstep.row (savesPhase_of_aside haside)).trans h.row
  silent := by rw [hstep.published, publishes_of_aside haside, h.silent]; rfl

theorem RowAt.save {answer : Except RepoErr Unit} (h : RowAt p status x) (hholds : Holds p q)
    (hstep : RowStep p (.phaseSave q) x answer x') :
    RowAt p q.status x' ∧ (answer = .ok () ∨ q.status = .blocked) := by
  have hsilent : published p.id .phaseFailed x'.2 = false := by
    rw [hstep.published, h.silent]
    rfl
  obtain ⟨s, ch, hsame, hok, hrun, -⟩ := hstep
  obtain ⟨s', hsave⟩ := Store.exists_savePhase hholds.key hholds.fits (hsame.trans h.row)
  have hrow := Store.rowStatus_savePhase hholds.key hsave
  simp only [handler_run, handle, hsave] at hrun
  simp only [recordsOutcome, Bool.or_eq_true, Bool.and_eq_true, decide_eq_true_eq] at hok
  rcases hok with hnone | ⟨hafter, hblocked⟩
  · rw [hnone] at hrun
    obtain ⟨rfl, rfl⟩ := Prod.mk.inj hrun
    exact ⟨⟨hrow, hsilent⟩, .inl rfl⟩
  · rw [hafter] at hrun
    obtain ⟨rfl, rfl⟩ := Prod.mk.inj hrun
    exact ⟨⟨hrow, hsilent⟩, .inr hblocked⟩

/-- The attempt is held in memory with the status of its row, running or already blocked. -/
structure Open (p q : Phase) (x : Store × List Op) : Prop where
  holds : Holds p q
  status : q.status = .running ∨ q.status = .blocked
  row : RowAt p q.status x

def Standing (p : Phase) : Stage → Store × List Op → Prop
  | .executed c p' result, x =>
    p' = p ∧ RowAt p .running x ∧ ∃ outcome : ApplyOutcome, result = outcome.result c
  | .working _ p', x | .initialised _ p' _, x | .reading _ p' _ _, x => p' = p ∧ RowAt p .running x
  | .staffed _ p' _, x | .sent _ p' _, x | .back _ p' _, x => p' = p ∧ RowAt p .running x
  | .lost _ _ q, x | .failing _ _ q _, x => Open p q x
  | .blocked _ _ _, x => RowAt p .blocked x
  | .saved _ _ q _ _ _, x | .unstored _ _ q _ _ _ _, x => q.status ≠ .running ∧ RowAt p q.status x
  | .ended, x => FailureRecorded p x ∧ RowSettled p x
  | _, _ => False

theorem Standing.failureRecorded (h : Standing p stage x) : FailureRecorded p x := by
  cases stage with
  | executed c p' result => exact h.2.1.failureRecorded
  | lost c p' q | failing c p' q c' => exact h.row.failureRecorded
  | blocked c p' q => exact RowAt.failureRecorded h
  | ended => exact h.1
  | _ => first | exact h.2.failureRecorded | exact h.elim

theorem Standing.running (h : Standing p stage x) (hrun : stage.run = some (c, q)) :
    q = p ∧ RowAt p .running x := by
  cases stage with
  | executed c' p' result => cases hrun; exact ⟨h.1, h.2.1⟩
  | _ => first | (cases hrun; exact h) | cases hrun

theorem Standing.aside (h : Standing p stage x) (hstep : RowStep p op x answer x')
    (haside : op.aside = true) : Standing p stage x' := by
  cases stage with
  | executed c p' result => exact ⟨h.1, h.2.1.aside hstep haside, h.2.2⟩
  | lost c p' q | failing c p' q c' => exact ⟨h.holds, h.status, h.row.aside hstep haside⟩
  | blocked c p' q => exact RowAt.aside h hstep haside
  | ended =>
    have hrow := hstep.row (savesPhase_of_aside haside)
    constructor
    · intro hfailed
      rw [hstep.published, publishes_of_aside haside] at hfailed
      rw [hrow]
      exact h.1 hfailed
    · refine h.2.imp (fun hgate => ?_) fun hended => ?_
      · rw [hstep.published, hgate, Bool.or_true]
      · rw [hrow]
        exact hended
  | _ => first | exact ⟨h.1, h.2.aside hstep haside⟩ | exact h.elim

/-- The last operation of a run whose row is no longer running: it announces a failure only if
the row is blocked. -/
theorem RowAt.over (h : RowAt p status x) (hended : status ≠ .running)
    (hstep : RowStep p op x answer x') (hop : op.savesPhase = false)
    (hfailed : op.publishes p.id .phaseFailed = true → status = .blocked) :
    Standing p .ended x' := by
  have hrow := (hstep.row hop).trans h.row
  refine ⟨fun hpublished => ?_, .inr ⟨status, hrow, hended⟩⟩
  rw [hstep.published, h.silent, Bool.or_false] at hpublished
  rw [hrow, hfailed hpublished]

theorem Stage.Offers.complete {concerns : List Concern} (hoffers : stage.Offers c p env persist)
    (h : Standing p stage x) (hfits : p.fitsColumns = true)
    (hcomplete : (withConcerns env p concerns).2.complete (some (withConcerns env p concerns).1)
      now = .ok q) : Holds p q ∧ q.status ≠ .running := by
  have hsound := hoffers.valid fun result heq => by subst heq; exact h.2.2
  obtain ⟨hvalid, hrange⟩ := (withConcerns_sound env p concerns []).2 hsound
  have hheld : Holds p (withConcerns env p concerns).2 := by
    unfold withConcerns
    split <;> exact ⟨rfl, hfits⟩
  refine ⟨hheld.complete hrange hcomplete, ?_⟩
  obtain ⟨-, -, -, rfl⟩ := Phase.complete_eq_ok_iff.mp hcomplete
  rcases statusOf_settled hvalid with hst | hst | hst | hst <;> simp [hst]

theorem Stage.Drops.open (hdrops : stage.Drops c q p₁) (h : Standing p stage x)
    (hrunning : p.status = .running) (hfits : p.fitsColumns = true) : Open p p₁ x := by
  cases hdrops with
  | outcome hrun =>
    obtain ⟨rfl, hrow⟩ := h.running hrun
    exact ⟨⟨rfl, hfits⟩, .inl hrunning, hrunning ▸ hrow⟩
  | refused concerns hoffers =>
    obtain ⟨rfl, hrow⟩ := h.running hoffers.run
    unfold withConcerns
    split <;> exact ⟨⟨rfl, hfits⟩, .inl hrunning, by rw [← hrunning] at hrow; exact hrow⟩
  | lost => exact h

theorem Revived.eq (hrevived : Revived p₁ p₂)
    (hstatus : p₁.status = .running ∨ p₁.status = .blocked) : p₂ = p₁ := by
  rcases hrevived with rfl | ⟨hrun, now, hstart⟩
  · rfl
  · have hblocked := hstatus.resolve_left hrun
    simp [Phase.start, hblocked, PhaseStatus.isTerminal] at hstart

theorem Open.reads {err : RepoErr} (h : Open p q x)
    (hstep : RowStep p (.changeFindByID q.changeID) x (.error err) x') : False := by
  obtain ⟨s, ch, hsame, hok, hrun, -⟩ := hstep
  obtain ⟨c, hc⟩ := Store.exists_findChange (hsame.trans h.row.row)
  have hchange : q.changeID = p.changeID := congrArg Prod.fst h.holds.key
  simp only [recordsOutcome, decide_eq_true_eq] at hok
  simp [handler_run, handle, hok, Fault.read, hchange, hc] at hrun

theorem blocked_of_eventType (h : eventTypeForStatus status = .phaseFailed) :
    status = .blocked := by
  cases status <;> first | rfl | cases h

theorem standing_step {call : Call} {ev : Event} {stage' : Stage}
    (hrunning : p.status = .running) (hfits : p.fitsColumns = true)
    (hmove : CallMove cfg call stage ev stage') (hstep : RowStep p ev.op x ev.ret x')
    (h : Standing p stage x) : Standing p stage' x' := by
  cases hmove with
  | stay hidle => exact h.aside hstep (aside_of_idle hidle)
  | noChange | noPhase => exact h.aside hstep rfl
  | refuses hpending | acknowledges hpending =>
    cases stage <;> first | exact h.elim | cases hpending
  | suspends =>
    obtain ⟨rfl, hrow⟩ := h
    refine ⟨(hrow.aside hstep rfl).failureRecorded, .inl ?_⟩
    rw [hstep.published]
    simp [Op.publishes]
  | executes =>
    obtain ⟨rfl, hrow⟩ := h
    exact ⟨rfl, hrow.aside hstep rfl, hstep.answers⟩
  | completes hoffers hcomplete =>
    obtain ⟨rfl, hrow⟩ := h.running hoffers.run
    obtain ⟨hholds, hended⟩ := hoffers.complete h hfits hcomplete
    exact ⟨hended, (hrow.save hholds hstep).1⟩
  | loses hoffers hcomplete =>
    obtain ⟨rfl, hrow⟩ := h.running hoffers.run
    obtain ⟨hholds, -⟩ := hoffers.complete h hfits hcomplete
    obtain ⟨hrow', hanswer⟩ := hrow.save hholds hstep
    exact ⟨hholds, .inr (hanswer.resolve_left fun heq => nomatch heq), hrow'⟩
  | fails hdrops =>
    have hopen := hdrops.open h hrunning hfits
    exact ⟨hopen.holds, hopen.status, hopen.row.aside hstep rfl⟩
  | givesUp hdrops => exact ((hdrops.open h hrunning hfits).reads hstep).elim
  | blocks hrevived hcomplete =>
    obtain rfl := hrevived.eq h.status
    have hholds := h.holds.complete ⟨le_refl (0 : ℚ), zero_le_one⟩ hcomplete
    obtain ⟨-, -, -, rfl⟩ := Phase.complete_eq_ok_iff.mp hcomplete
    exact (h.row.save hholds hstep).1
  | announces => exact RowAt.over h (by simp) hstep rfl fun _ => rfl
  | announcesOnly hrevived hrefused =>
    obtain rfl := hrevived.eq h.status
    rcases h.status with hstatus | hblocked
    · obtain ⟨q, hcomplete, -⟩ := complete_blockedEnvelope hstatus _ _ _
      rw [hcomplete] at hrefused
      cases hrefused
    · exact h.row.over (by simp [hblocked]) hstep rfl fun _ => hblocked
  | closes =>
    refine h.2.over h.1 hstep rfl fun hpublishes => ?_
    simp only [Op.publishes, decide_eq_true_eq] at hpublishes
    exact blocked_of_eventType hpublishes.2
  | _ => first | exact h.elim | exact ⟨h.1, h.2.aside hstep rfl⟩

/-- `runAsync` settles the row it was entered with, unless it stops at a gate. -/
theorem runAsync_within (hrunning : p.status = .running) (hfits : p.fitsColumns = true)
    (hx : RowAt p .running x) :
    Within p (fun _ => RowSettled p) (runAsync cfg c p inp) x := by
  have hfollows : Closes cfg .recover (runAsync cfg c p inp) (.working c p) := runAsync_follows
  refine wp_mono (Follows.wp (J := Standing p) hfollows ?_ ⟨rfl, hx⟩) (fun _ hI => hI) ?_
  · intro stage ev stage' y y' hmove hstep hstanding
    have hstanding' := standing_step hrunning hfits hmove hstep hstanding
    exact ⟨hstanding'.failureRecorded, hstanding'⟩
  · rintro _ y ⟨stage, rfl, -, hsettled⟩
    exact hsettled

end Moves

/-! ## The row of a run -/

/-- If the saves of the phase take effect and its change can be read, then whatever
other call fails, and whatever others do that leaves the row of the attempt alone: the row
is no longer running when `runAsync` has returned without having stopped at an approval
gate, and whenever `phase.failed` was published it is blocked. -/
theorem rowSettled_of_recordsOutcome {cfg : ServiceConfig} {c : Change} {p : Phase}
    {inp : RunPhaseInput} {s s' : Store} {rest : Program Unit} {log : List Op}
    (hentered : AsyncEntered p s)
    (hleads : (runAsync cfg c p inp).Leads (handler.amid (SameRow p) recordsOutcome) (s, [])
      rest (s', log)) :
    (rest = .done () → RowSettled p (s', log)) ∧ FailureRecorded p (s', log) := by
  have hx : RowAt p .running (s, []) := ⟨hentered.row, rfl⟩
  have hwithin : Within p (fun _ => RowSettled p) (runAsync cfg c p inp) (s, []) :=
    runAsync_within hentered.running hentered.fits hx
  obtain ⟨hrecorded, hrest⟩ := hleads.wp hx.failureRecorded hwithin
  refine ⟨?_, hrecorded⟩
  rintro rfl
  exact hrest

/-! ## Runs of one phase -/

def explorePhase : Phase where
  id := ⟨7⟩
  changeID := ⟨1⟩
  pType := .explore
  status := .running
  confidence := 0
  retryBudget := 3
  attempts := 1

def exploreStore : Store where
  changes := ⟨[sampleChange .init], by simp, by simp⟩
  phases := ⟨[explorePhase], by simp, by simp⟩
  outbox := Sql.Table.empty
  audit := []
  phase_change := by simp [sampleChange, explorePhase]

def exploreAlone (env : Nat → Choice) : Effects.Outcome Op Op.Ret Unit Store :=
  (runAsync {} (sampleChange .init) explorePhase { changeID := ⟨1⟩, phaseType := .explore }).eval
    handler (fun _ => false) env 0 exploreStore

theorem entered_explorePhase : AsyncEntered explorePhase exploreStore :=
  ⟨rfl, by decide +kernel, by decide +kernel⟩

/-- The agent answers with an accepted envelope, and the database is not reached by the
one save of the completed phase. -/
def failingSave (n : Nat) : Choice where
  fault := if n = 21 then .before else .none
  dispatch := .ok { envelopeRaw := .json (sampleEnvelope .explore .done) }

/-- Governance denies the phase, and the change cannot be read when the failure is to be
recorded. -/
def deniedUnread (n : Nat) : Choice where
  fault := if n = 2 then .before else .none
  governance := .ok { decision := .deny, reason := "out of scope" }

def exploreEnd (env : Nat → Choice) : Store × List Op :=
  ((exploreAlone env).state, (exploreAlone env).hist.map Ev.op)

/-- One failed save leaves the row running and `phase.failed` published; one failed read
of the change leaves the row running with nothing published. -/
theorem failed_row_still_running :
    AsyncEntered explorePhase exploreStore ∧
      ((exploreEnd failingSave).1.rowStatus explorePhase = some .running ∧
        published ⟨7⟩ .phaseFailed (exploreEnd failingSave).2 = true) ∧
      ¬ RowSettled explorePhase (exploreEnd failingSave) ∧
      ¬ FailureRecorded explorePhase (exploreEnd failingSave) ∧
      ¬ RowSettled explorePhase (exploreEnd deniedUnread) := by
  have hrow : (exploreEnd failingSave).1.rowStatus explorePhase = some .running := by
    decide +kernel
  have hfailed : published ⟨7⟩ .phaseFailed (exploreEnd failingSave).2 = true := by
    decide +kernel
  have hgate : published ⟨7⟩ .approvalRequired (exploreEnd failingSave).2 = false := by
    decide +kernel
  have hrow' : (exploreEnd deniedUnread).1.rowStatus explorePhase = some .running := by
    decide +kernel
  have hgate' : published ⟨7⟩ .approvalRequired (exploreEnd deniedUnread).2 = false := by
    decide +kernel
  exact ⟨entered_explorePhase, ⟨hrow, hfailed⟩, not_rowSettled hgate hrow,
    fun hrecorded => by simpa [hrow] using hrecorded hfailed, not_rowSettled hgate' hrow'⟩

theorem exploreAlone_leads {ok : Op → Choice → Bool} {env : Nat → Choice}
    (hok : ∀ op n, ok op (env n) = true) :
    (runAsync {} (sampleChange .init) explorePhase { changeID := ⟨1⟩, phaseType := .explore }).Leads
      (handler.amid (SameRow explorePhase) ok) (exploreStore, []) (.done ()) (exploreEnd env) := by
  simpa [exploreEnd, exploreAlone] using leads_eval (H := handler) hok
    (runAsync {} (sampleChange .init) explorePhase { changeID := ⟨1⟩, phaseType := .explore })
    0 exploreStore []

def denied : Choice where
  governance := .ok { decision := .deny, reason := "out of scope" }

theorem recordsOutcome_denied (op : Op) : recordsOutcome op denied = true := by
  cases op <;> rfl

/-- The denied run is recorded: its row is blocked and `phase.failed` was published. -/
theorem rowSettled_denied :
    published ⟨7⟩ .phaseFailed (exploreEnd fun _ => denied).2 = true ∧
      RowSettled explorePhase (exploreEnd fun _ => denied) ∧
      FailureRecorded explorePhase (exploreEnd fun _ => denied) := by
  obtain ⟨hend, hrecorded⟩ := rowSettled_of_recordsOutcome entered_explorePhase
    (exploreAlone_leads fun op _ => recordsOutcome_denied op)
  exact ⟨by decide +kernel, hend rfl, hrecorded⟩

end SophiaOrchestrator
