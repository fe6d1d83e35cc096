import SophiaOrchestrator.Phase.Conduct
import SophiaOrchestrator.Phase.Runs

/-!
# A result is persisted before it is visible

The first Iron Law of the service: whoever sees a phase completed, by its event or by the
pointer or the status of its change, finds the envelope in the phase table.
-/

namespace SophiaOrchestrator

open Effects Prog

variable {env : Envelope} {h : History} {op : Op} {cfg : ServiceConfig} {c : Change} {p q : Phase}
  {persist : Bool}

/-! ## What makes a result visible -/

/-- The operation announces a completed phase, or writes the pointer or the status of a
change. -/
def Op.shows : Op → Bool
  | .publishEvent _ .phaseCompleted | .publishEvent _ .phaseCompletedWithConcerns => true
  | .changeSave _ | .saveCompletedWithOutbox _ _ => true
  | _ => false

/-- The operation is about the phase `q`: the event carries its id and is the one of its
status, and the change is the one of the phase, with its pointer on the type of the phase. -/
def Op.Reports : Op → Phase → Prop
  | .publishEvent pid eventType, q => pid = some q.id ∧ eventType = eventTypeForStatus q.status
  | .changeSave c, q | .saveCompletedWithOutbox c _, q =>
    c.id = q.changeID ∧ c.currentPhase = q.pType
  | _, _ => False

def Event.produced : Event → Option Envelope
  | ⟨.initRun _, .ok (some env)⟩ => some env
  | ⟨.applyExecute _ _ _, result⟩ => result.envelope
  | ⟨.dispatch _, .ok ⟨.json env, _⟩⟩ => some env
  | ⟨.memoryGet _, .json env⟩ => some env
  | _ => none

/-- The envelope was given to the call, up to the status that its validation and the critic
may lower. -/
def Produced (env : Envelope) (h : History) : Prop :=
  ∃ ev ∈ h, ∃ env₀, Event.produced ev = some env₀ ∧ env₀.Amends env

/-- The row that an operation rests on: it was saved with success by the same call, with an
envelope that the call was given and the completed status of that envelope. -/
structure RestsOn (op : Op) (q : Phase) (env : Envelope) (past : History) : Prop where
  saved : ⟨.phaseSave q, .ok ()⟩ ∈ past
  envelope : q.envelope = some env
  produced : Produced env past
  status : q.status = Phase.statusOf env.status
  completed : q.status = .done ∨ q.status = .doneWithConcerns
  reports : op.Reports q

def Shown : History → Prop
  | [] => True
  | ev :: past => ev.op.shows = true → ∃ q env, RestsOn ev.op q env past

theorem Produced.mono {h' : History} (hproduced : Produced env h) (hsuffix : h <:+ h') :
    Produced env h' := by
  obtain ⟨ev, hev, env₀, hgiven, hamends⟩ := hproduced
  exact ⟨ev, hsuffix.subset hev, env₀, hgiven, hamends⟩

theorem Produced.trans {env' : Envelope} (hproduced : Produced env h) (hamends : env.Amends env') :
    Produced env' h := by
  obtain ⟨ev, hev, env₀, hgiven, hamends₀⟩ := hproduced
  exact ⟨ev, hev, env₀, hgiven, hamends₀.trans hamends⟩

/-! ## What a call has been given -/

def Given (env : Envelope) (h : History) : Prop :=
  ∃ ev ∈ h, Event.produced ev = some env

structure Backed (c : Change) (q : Phase) (env : Envelope) (h : History) : Prop where
  saved : ⟨.phaseSave q, .ok ()⟩ ∈ h
  envelope : q.envelope = some env
  produced : Produced env h
  status : q.status = Phase.statusOf env.status
  closed : env.status.isValid = true
  changeID : c.id = q.changeID

def Evidence : Stage → History → Prop
  | .initialised _ _ answer, h => ∀ env, answer = .ok (some env) → Given env h
  | .executed _ _ result, h => ∀ env, result.envelope = some env → Given env h
  | .sent _ _ result, h => ∀ env, rawOf result = .json env → Given env h
  | .back _ _ raw, h => ∀ env, raw = .json env → Given env h
  | .saved c _ q env _ _, h | .unstored c _ q env _ _ _, h => Backed c q env h
  | _, _ => True

theorem Given.mono {h' : History} (hgiven : Given env h) (hsuffix : h <:+ h') : Given env h' :=
  hgiven.imp fun _ hev => ⟨hsuffix.subset hev.1, hev.2⟩

theorem Backed.mono {h' : History} (hbacked : Backed c q env h) (hsuffix : h <:+ h') :
    Backed c q env h' :=
  { hbacked with
    saved := hsuffix.subset hbacked.saved
    produced := hbacked.produced.mono hsuffix }

theorem Backed.restsOn (hbacked : Backed c q env h) (hallowed : q.status.advanceAllowed = true)
    (hreports : op.Reports q) :
    RestsOn op q env h where
  saved := hbacked.saved
  envelope := hbacked.envelope
  produced := hbacked.produced
  status := hbacked.status
  completed := PhaseStatus.advanceAllowed_iff.mp hallowed
  reports := hreports

/-- The event at the end of a run announces a completed phase only if the saved status is
one. -/
theorem Backed.shown (hbacked : Backed c q env h) :
    Shown (⟨.publishEvent (some q.id) (eventTypeForStatus q.status), ()⟩ :: h) := by
  intro hshows
  have hallowed : q.status.advanceAllowed = true := by
    have hclosed := hbacked.closed
    have hstatus := hbacked.status
    cases hcase : env.status with
    | done | doneWithConcerns => rw [hstatus, hcase]; rfl
    | blocked | needsContext => rw [hstatus, hcase] at hshows; cases hshows
    | unknown text => rw [hcase] at hclosed; cases hclosed
  exact ⟨q, env, hbacked.restsOn hallowed ⟨rfl, rfl⟩⟩

def Call.executes : Call → Bool
  | .run _ | .resume _ => true
  | _ => false

section Moves

variable {s : Stage} {call : Call} {ev : Event} {now : Time} {concerns : List Concern}

theorem Evidence.cons (hevidence : Evidence s h) (ev : Event) : Evidence s (ev :: h) := by
  have hsuffix := List.suffix_cons ev h
  cases s with
  | initialised c p answer | executed c p result | sent c p result | back c p raw =>
    exact fun env heq => (hevidence env heq).mono hsuffix
  | saved c p q env refs moved | unstored c p q env ref refs err =>
    exact Backed.mono hevidence hsuffix
  | _ => trivial

theorem Evidence.onOk {answer : Except RepoErr Unit} (hok : Evidence s h) :
    Evidence (s.onOk answer) h := by
  cases answer with
  | error err => trivial
  | ok _ => exact hok

theorem given_dispatch {result : Except String DispatchResult} (hraw : rawOf result = .json env) :
    Given env (⟨.dispatch p, result⟩ :: h) := by
  match result with
  | .error err => cases hraw
  | .ok ⟨raw, evidence⟩ =>
    obtain rfl : raw = .json env := hraw
    exact ⟨_, .head _, rfl⟩

theorem shows_of_idle (h : op.idle = true) : op.shows = false := by
  cases op with
  | publishEvent pid eventType => cases eventType <;> first | rfl | cases h
  | _ => first | rfl | cases h

theorem Stage.Offers.produced (hoffers : s.Offers c p env persist) (hevidence : Evidence s h) :
    Produced env h := by
  cases hoffers with
  | init htype hvalid =>
    obtain ⟨env₀, heq, hamends⟩ := amends_of_validateEnvelope hvalid
    cases heq
    obtain ⟨ev, hev, hgiven⟩ := hevidence _ rfl
    exact ⟨ev, hev, _, hgiven, hamends⟩
  | apply htype henv =>
    obtain ⟨ev, hev, hgiven⟩ := hevidence env henv
    exact ⟨ev, hev, env, hgiven, rfl⟩
  | agent hvalid =>
    obtain ⟨env₀, heq, hamends⟩ := amends_of_validateEnvelope hvalid
    obtain ⟨ev, hev, hgiven⟩ := hevidence env₀ heq
    exact ⟨ev, hev, env₀, hgiven, hamends⟩

theorem Stage.Offers.backed (hoffers : s.Offers c p env persist) (hgrounds : Grounds call s h)
    (hevidence : Evidence s h)
    (hcomplete : (withConcerns env p concerns).2.complete (some (withConcerns env p concerns).1)
      now = .ok q) :
    Backed c q (withConcerns env p concerns).1 (⟨.phaseSave q, .ok ()⟩ :: h) := by
  obtain ⟨hamends, hchange, -⟩ := withConcerns_amends env p concerns
  have hclosed := ((withConcerns_sound env p concerns h).2 (hoffers.sound hgrounds)).1
  have hid := (hgrounds.async hoffers.run).working.changeID
  obtain ⟨-, -, -, rfl⟩ := Phase.complete_eq_ok_iff.mp hcomplete
  exact ⟨.head _, rfl, ((hoffers.produced hevidence).trans hamends).mono (List.suffix_cons _ _),
    rfl,
    hclosed, hid.trans hchange.symm⟩

theorem evidence_step {s' : Stage} (hmove : CallMove cfg call s ev s')
    (hgrounds : Grounds call s h) (hevidence : Evidence s h) :
    (call.executes = true → Shown (ev :: h)) ∧ Evidence s' (ev :: h) := by
  cases hmove with
  | stay hidle =>
    refine ⟨fun _ hshows => ?_, hevidence.cons _⟩
    rw [shows_of_idle hidle] at hshows
    cases hshows
  | noChange | noPhase => exact ⟨fun _ hshows => (nomatch hshows), hevidence.cons _⟩
  | starts hcall hvalid hstart | restarts hcall hresumable hrestart =>
    exact ⟨fun _ hshows => (nomatch hshows), .onOk trivial⟩
  | aborts hcall =>
    rw [hcall]
    exact ⟨fun hexecutes => (nomatch hexecutes), .onOk trivial⟩
  | initialises | recalls =>
    refine ⟨fun _ hshows => (nomatch hshows), ?_⟩
    rintro env rfl
    exact ⟨_, .head _, rfl⟩
  | executes =>
    exact ⟨fun _ hshows => (nomatch hshows), fun env henv => ⟨_, .head _, henv⟩⟩
  | sends => exact ⟨fun _ hshows => (nomatch hshows), fun env => given_dispatch⟩
  | releases => exact ⟨fun _ hshows => (nomatch hshows), Evidence.cons hevidence _⟩
  | completes hoffers hcomplete =>
    exact ⟨fun _ hshows => (nomatch hshows), hoffers.backed hgrounds hevidence hcomplete⟩
  | stores | missesStore | reports =>
    exact ⟨fun _ hshows => (nomatch hshows), hevidence.mono (List.suffix_cons _ _)⟩
  | advances hallowed harchive hadvance =>
    obtain ⟨-, -, rfl⟩ := Change.advancePhase_eq_ok_iff.mp hadvance
    exact ⟨fun _ _ => ⟨_, _, hevidence.restsOn hallowed ⟨hevidence.changeID, rfl⟩⟩,
      hevidence.mono (List.suffix_cons _ _)⟩
  | archives hallowed harchive hadvance hcompleted
  | archivesWithOutbox hallowed harchive hadvance hcompleted =>
    obtain ⟨-, -, rfl⟩ := Change.advancePhase_eq_ok_iff.mp hadvance
    obtain ⟨-, rfl⟩ := Change.markCompleted_eq_ok_iff.mp hcompleted
    exact ⟨fun _ _ => ⟨_, _, hevidence.restsOn hallowed ⟨hevidence.changeID, rfl⟩⟩,
      hevidence.mono (List.suffix_cons _ _)⟩
  | closes => exact ⟨fun _ => Backed.shown hevidence, trivial⟩
  | _ => exact ⟨fun _ hshows => (nomatch hshows), trivial⟩

end Moves

theorem main_shows (cfg : ServiceConfig) (call : Call) :
    (main cfg call).wp (histSem Op.Answers) (fun h => call.executes = true → Shown h)
      (fun _ _ => True) [] := by
  refine wp_mono ((main_follows cfg call).wp_hist
    (J := fun s h => Grounds call s h ∧ Evidence s h) ?_ ?_) (fun _ hI => hI) fun _ _ _ => trivial
  · rintro s ev s' h hmove hans ⟨hgrounds, hevidence⟩
    obtain ⟨hshown, hevidence'⟩ := evidence_step hmove hgrounds hevidence
    exact ⟨hshown, (grounds_step hmove hans hgrounds).2, hevidence'⟩
  · exact ⟨⟨fun _ hev => (nomatch hev), fun _ hev => (nomatch hev)⟩, trivial⟩

/-- In every interleaving, and whichever operations fail, a run or a resume announces a
completed phase, or writes its change, only after it has saved the row of that phase with
success, with the completed status and the envelope that it was given. -/
theorem visible_after_save (cfg : ServiceConfig) (s : Store) (moves : List ServiceMove)
    {t : ServiceThread} (ht : t ∈ (reach cfg s moves).threads)
    (hexecutes : t.call.executes = true) {ev : Event} {past : History}
    (hsuffix : ev :: past <:+ t.hist) (hshows : ev.op.shows = true) :
    ∃ q env, RestsOn ev.op q env past := by
  have hkeeps := Pool.run_keeps (H := handler) handle_answers (main_shows cfg)
    (π := (Pool.init s : ServicePool)) (by simp) moves
  exact (hkeeps t ht).past (ev :: past) hsuffix (List.cons_ne_nil ev past) hexecutes hshows

/-- In the runs of verify and of archive both phases and the change become visible. -/
theorem visible_after_save_archive :
    ((reach {} (sampleStore .apply) verifyThenArchive).threads.map fun t =>
      (t.hist.filter fun ev => ev.op.shows).length) = [2, 2] ∧
    ∃ t ∈ (reach {} (sampleStore .apply) verifyThenArchive).threads, ∃ ev past,
      ev :: past <:+ t.hist ∧ ev.op.shows = true ∧ ∃ q env, RestsOn ev.op q env past := by
  have hany : ((reach {} (sampleStore .apply) verifyThenArchive).threads.any fun t =>
      t.call.executes && t.hist.any fun ev => ev.op.shows) = true := by
    decide +kernel
  obtain ⟨t, ht, hthread⟩ := List.any_eq_true.mp hany
  obtain ⟨hexecutes, hshown⟩ := Bool.and_eq_true_iff.mp hthread
  obtain ⟨ev, hev, hshows⟩ := List.any_eq_true.mp hshown
  obtain ⟨past, hsuffix⟩ := suffix_of_mem hev
  exact ⟨by decide +kernel, t, ht, ev, past, hsuffix, hshows,
    visible_after_save {} (sampleStore .apply) verifyThenArchive ht hexecutes hsuffix hshows⟩

end SophiaOrchestrator
