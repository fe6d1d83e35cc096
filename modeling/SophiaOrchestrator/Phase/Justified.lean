import SophiaOrchestrator.Phase.Footprint

/-!
# What a call has done before each of its operations

Each operation of a call that matters to the other calls -- a save, a dispatch,
a reply -- is justified by what the same call has done and been answered before.
`Justified` says this once for the whole service, one constructor for each such
operation of the source, and `main_justified` shows that every program keeps
to it, whatever the operations answer.
-/

namespace SophiaOrchestrator

open Effects Prog

variable {op : Op} {call : Call} {p : Phase}

abbrev Event : Type := Ev Op Op.Ret

abbrev History : Type := List Event

variable {h h' : History}

/-! ## Answers -/

/-- What is known of an answer in every state: a lookup answers with a row that
matches its key, and the apply executor returns one of its own envelopes. -/
def Op.Answers : (op : Op) → op.Ret → Prop
  | .changeFindByID id, answer => ∀ c, answer = .ok c → c.id = id
  | .phaseFindByID id, answer => ∀ p, answer = .ok p → p.id = id
  | .phaseFindByChangeAndType cid pt, answer =>
    ∀ p, answer = .ok p → p.changeID = cid ∧ p.pType = pt
  | .applyExecute c _ _, answer => ∃ outcome : ApplyOutcome, answer = outcome.result c
  | _, _ => True

theorem handle_answers (op : Op) (ch : Choice) (s : Store) :
    op.Answers (handle op ch s).1 := by
  cases op with
  | changeFindByID id =>
    intro c h
    exact (Store.findChange_eq_ok_iff.mp (Fault.read_eq_ok h)).2
  | phaseFindByID id =>
    intro p h
    exact (Store.findPhase_eq_ok_iff.mp (Fault.read_eq_ok h)).2
  | phaseFindByChangeAndType cid pt =>
    intro p h
    have hlatest := Store.findByChangeAndType_eq_ok_iff.mp (Fault.read_eq_ok h)
    exact (Store.mem_of_latestPhase hlatest).2
  | applyExecute c p prior => exact ⟨ch.apply, rfl⟩
  | _ => trivial

/-! ## Histories -/

namespace Op

/-- Operations that need no justification: reads, calls to other services, and
writes outside the change, phase and outbox tables. -/
def quiet : Op → Bool
  | .phaseSave _ | .changeSave _ | .saveCompletedWithOutbox _ _ => false
  | .dispatch _ | .applyExecute _ _ _ | .returned _ => false
  | _ => true

def writesChange : Op → Bool
  | .changeSave _ | .saveCompletedWithOutbox _ _ => true
  | _ => false

def savesPhase : Op → Bool
  | .phaseSave _ => true
  | _ => false

theorem writesChange_of_quiet (h : op.quiet = true) :
    op.writesChange = false := by
  cases op <;> first | rfl | cases h

theorem savesPhase_of_quiet (h : op.quiet = true) :
    op.savesPhase = false := by
  cases op <;> first | rfl | cases h

end Op

def NoChangeWrite (h : History) : Prop :=
  ∀ ev ∈ h, ev.op.writesChange = false

def NoPhaseSave (h : History) : Prop :=
  ∀ ev ∈ h, ev.op.savesPhase = false

/-- What a later history keeps when no table was written in between. -/
structure Extends (h h' : History) : Prop where
  mem : ∀ {ev : Event}, ev ∈ h → ev ∈ h'
  noChangeWrite : NoChangeWrite h → NoChangeWrite h'
  noPhaseSave : NoPhaseSave h → NoPhaseSave h'

namespace Extends

theorem refl (h : History) : Extends h h :=
  ⟨id, id, id⟩

theorem cons (ev : Event) (hwrite : ev.op.writesChange = false) (hsave : ev.op.savesPhase = false) :
    Extends h (ev :: h) where
  mem := List.mem_cons_of_mem ev
  noChangeWrite hno := by
    intro ev' hev'
    rcases List.mem_cons.mp hev' with rfl | hmem
    · exact hwrite
    · exact hno ev' hmem
  noPhaseSave hno := by
    intro ev' hev'
    rcases List.mem_cons.mp hev' with rfl | hmem
    · exact hsave
    · exact hno ev' hmem

theorem quiet (ev : Event) (hq : ev.op.quiet = true) :
    Extends h (ev :: h) :=
  cons ev (Op.writesChange_of_quiet hq) (Op.savesPhase_of_quiet hq)

end Extends

/-! ## What a run holds -/

/-- How a run came to work on the phase it was scheduled with. -/
inductive Origin (call : Call) (p : Phase) (h : History) : Prop where
  /-- `Run` found no other running phase and saved the phase. -/
  | started (inp : RunPhaseInput) (hcall : call = .run inp)
      (hcheck : ⟨.phaseFindRunningByChange inp.changeID, .error .notFound⟩ ∈ h)
      (hchange : p.changeID = inp.changeID) (htype : p.pType = inp.phaseType)
      (hstatus : p.status = .running)
      (hsaved : ⟨.phaseSave p, .ok ()⟩ ∈ h)
  /-- `Resume` continues the phase it loaded. -/
  | continued (id : PhaseID) (hcall : call = .resume id)
      (hloaded : ⟨.phaseFindByID id, .ok p⟩ ∈ h) (hresumable : resumable p = true)
      (hkept : p.status ≠ .interrupted ∧ p.status ≠ .blocked)
  /-- `Resume` took the phase it loaded back to running and saved it. -/
  | restarted (id : PhaseID) (p₀ : Phase) (now : Time) (hcall : call = .resume id)
      (hloaded : ⟨.phaseFindByID id, .ok p₀⟩ ∈ h) (hresumable : resumable p₀ = true)
      (hrestart : resumed p₀ now = some (.ok p))
      (hsaved : ⟨.phaseSave p, .ok ()⟩ ∈ h)

structure Working (call : Call) (c : Change) (p : Phase) (h : History) : Prop where
  changeID : c.id = p.changeID
  loaded : ⟨.changeFindByID c.id, .ok c⟩ ∈ h
  origin : Origin call p h

/-- The call has returned and `runAsync` has been started on the phase. -/
def Scheduled (p : Phase) (h : History) : Prop :=
  ⟨.returned (.ok (.scheduled p.changeID p.id p.status)), ()⟩ ∈ h

theorem Origin.mono (ho : Origin call p h) (hsub : ∀ {ev : Event}, ev ∈ h → ev ∈ h') :
    Origin call p h' := by
  cases ho with
  | started inp hcall hcheck hchange htype hstatus hsaved =>
    exact .started inp hcall (hsub hcheck) hchange htype hstatus (hsub hsaved)
  | continued id hcall hloaded hresumable hkept =>
    exact .continued id hcall (hsub hloaded) hresumable hkept
  | restarted id p₀ now hcall hloaded hresumable hrestart hsaved =>
    exact .restarted id p₀ now hcall (hsub hloaded) hresumable hrestart (hsub hsaved)

theorem Working.mono {c : Change} (hw : Working call c p h)
    (hsub : ∀ {ev : Event}, ev ∈ h → ev ∈ h') :
    Working call c p h' :=
  ⟨hw.changeID, hsub hw.loaded, hw.origin.mono hsub⟩

/-- The statuses and confidences in `prior` are those of rows that the call has
read as the latest of their type. -/
def PriorRead (cid : ChangeID) (prior : PriorPhases) (h : History) : Prop :=
  ∀ entry ∈ prior, ∃ row : Phase,
    ⟨.phaseFindByChangeAndType cid entry.1, .ok row⟩ ∈ h ∧
      entry.2 = ⟨row.status, row.confidence⟩

def ironLawContext (p : Phase) (prior : PriorPhases) : IronLawContext where
  action := actionForPhase p.pType
  priorPhases := prior
  hasGovernanceDecision := true
  taskAttempts := p.attempts - 1

/-- `q` is a settled outcome of the attempt `p`: the same phase, no longer
running, with a confidence in the unit interval.  Only a phase that was not
running, or whose save has failed, is counted as a further attempt. -/
structure Settles (p q : Phase) (h : History) : Prop where
  id : q.id = p.id
  changeID : q.changeID = p.changeID
  pType : q.pType = p.pType
  retryBudget : q.retryBudget = p.retryBudget
  status : q.status = .done ∨ q.status = .doneWithConcerns ∨ q.status = .blocked ∨
    q.status = .needsContext
  confidence : 0 ≤ q.confidence ∧ q.confidence ≤ 1
  threshold : q.status = .done → q.pType.confidenceThreshold ≤ q.confidence
  attempts : q.attempts = p.attempts ∨
    (q.attempts = p.attempts + 1 ∧ p.attempts < p.retryBudget ∧ q.status = .blocked ∧
      (p.status ≠ .running ∨ ∃ q₀ err, ⟨.phaseSave q₀, .error err⟩ ∈ h))

/-- The run has saved a row of its phase with which the change advances, and has
dispatched the archive agent if the phase is archive. -/
structure Advances (p q : Phase) (h : History) : Prop where
  saved : ⟨.phaseSave q, .ok ()⟩ ∈ h
  id : q.id = p.id
  changeID : q.changeID = p.changeID
  pType : q.pType = p.pType
  allowed : q.status.advanceAllowed = true
  dispatched : p.pType = .archive → ∃ r, ⟨.dispatch p, r⟩ ∈ h

theorem Advances.mono {q : Phase} (ha : Advances p q h) (hsub : ∀ {ev : Event}, ev ∈ h → ev ∈ h') :
    Advances p q h' := by
  refine ⟨hsub ha.saved, ha.id, ha.changeID, ha.pType, ha.allowed, ?_⟩
  intro harchive
  obtain ⟨r, hr⟩ := ha.dispatched harchive
  exact ⟨r, hsub hr⟩

/-- What the call has done before it performs an operation. -/
inductive Justified (cfg : ServiceConfig) (call : Call) : Event → History → Prop where
  | quiet {ev : Event} {h : History} (hquiet : ev.op.quiet = true) : Justified cfg call ev h
  /-- An agent is dispatched after the Iron Laws passed on the rows just read. -/
  | dispatch {c : Change} {p : Phase} {prior : PriorPhases}
      {r : Except String DispatchResult} {h : History} (hworking : Working call c p h)
      (hread : PriorRead p.changeID prior h)
      (hlaws : checkIronLaws (ironLawContext p prior) = []) :
      Justified cfg call ⟨.dispatch p, r⟩ h
  /-- The apply executor is called without a check of the Iron Laws. -/
  | execute {c : Change} {p : Phase} {prior : Option PriorPhases} {r : ExecuteResult}
      {h : History} (hworking : Working call c p h) (htype : p.pType = .apply)
      (hwired : cfg.hasApplyExecutor = true) :
      Justified cfg call ⟨.applyExecute c p prior, r⟩ h
  | startRun {inp : RunPhaseInput} {c : Change} {pid : PhaseID}
      {prior : Except RepoErr Phase} {now : Time} {p : Phase} {r : Except RepoErr Unit}
      {h : History} (hcall : call = .run inp)
      (hloaded : ⟨.changeFindByID inp.changeID, .ok c⟩ ∈ h)
      (hvalid : isNextValidTransition c.currentPhase inp.phaseType = true)
      (hcheck : ⟨.phaseFindRunningByChange inp.changeID, .error .notFound⟩ ∈ h)
      (hid : ⟨.newPhaseID, .ok pid⟩ ∈ h)
      (hprior : ⟨.phaseFindByChangeAndType inp.changeID inp.phaseType, prior⟩ ∈ h)
      (hstart : (newPhase inp pid prior).start now = .ok p) (hfirst : NoPhaseSave h) :
      Justified cfg call ⟨.phaseSave p, r⟩ h
  | startResume {id : PhaseID} {p₀ p : Phase} {now : Time} {r : Except RepoErr Unit}
      {h : History} (hcall : call = .resume id)
      (hloaded : ⟨.phaseFindByID id, .ok p₀⟩ ∈ h) (hresumable : resumable p₀ = true)
      (hrestart : resumed p₀ now = some (.ok p)) (hfirst : NoPhaseSave h) :
      Justified cfg call ⟨.phaseSave p, r⟩ h
  | settle {c : Change} {p q : Phase} {r : Except RepoErr Unit} {h : History}
      (hworking : Working call c p h) (hscheduled : Scheduled p h)
      (hsettles : Settles p q h) : Justified cfg call ⟨.phaseSave q, r⟩ h
  | reject {id : PhaseID} {approver reason : String} {p₀ p : Phase}
      {r : Except RepoErr Unit} {h : History} (hcall : call = .reject id approver reason)
      (hloaded : ⟨.phaseFindByID id, .ok p₀⟩ ∈ h)
      (hopen : p₀.status.isTerminal = false) (hsettles : Settles p₀ p h)
      (hblocked : p.status = .blocked) :
      Justified cfg call ⟨.phaseSave p, r⟩ h
  | recover {stuck : List Phase} {p : Phase} {r : Except RepoErr Unit} {h : History}
      (hcall : call = .recover) (hloaded : ⟨.phaseFindAllRunning, .ok stuck⟩ ∈ h)
      (hmem : p ∈ stuck) :
      Justified cfg call ⟨.phaseSave { p with status := .interrupted }, r⟩ h
  | advance {c c' : Change} {p q : Phase} {now : Time} {r : Except RepoErr Unit}
      {h : History} (hworking : Working call c p h) (hscheduled : Scheduled p h)
      (hadvances : Advances p q h) (hfirst : NoChangeWrite h)
      (harchive : p.pType ≠ .archive) (hadvance : c.advancePhase p.pType now = .ok c') :
      Justified cfg call ⟨.changeSave c', r⟩ h
  /-- Without an outbox the archive path saves the completed change alone. -/
  | complete {c c₁ c' : Change} {p q : Phase} {now now' : Time}
      {r : Except RepoErr Unit} {h : History} (hworking : Working call c p h)
      (hscheduled : Scheduled p h) (hadvances : Advances p q h)
      (hfirst : NoChangeWrite h) (harchive : p.pType = .archive)
      (hadvance : c.advancePhase p.pType now = .ok c₁)
      (hcompleted : c₁.markCompleted now' = .ok c')
      (hwired : cfg.hasOutboxEnqueuer = false) :
      Justified cfg call ⟨.changeSave c', r⟩ h
  /-- The archive path saves the completed change together with its outbox row. -/
  | completeWithOutbox {c c₁ c' : Change} {p q : Phase} {now now' archivedAt : Time}
      {evID : OutboxID} {r : Except RepoErr Unit} {h : History}
      (hworking : Working call c p h) (hscheduled : Scheduled p h)
      (hadvances : Advances p q h) (hfirst : NoChangeWrite h)
      (harchive : p.pType = .archive)
      (hadvance : c.advancePhase p.pType now = .ok c₁)
      (hcompleted : c₁.markCompleted now' = .ok c')
      (hwired : cfg.hasOutboxEnqueuer = true) :
      Justified cfg call ⟨.saveCompletedWithOutbox c'
        (.new evID .phaseArchived ⟨c'.id, c'.name, .archive, archivedAt⟩ archivedAt), r⟩ h
  | abort {reason : String} {c c' : Change} {now : Time}
      {r : Except RepoErr Unit} {h : History} (hcall : call = .abort c.id reason)
      (hloaded : ⟨.changeFindByID c.id, .ok c⟩ ∈ h) (hfirst : NoChangeWrite h)
      (habort : c.abort reason now = .ok c') :
      Justified cfg call ⟨.changeSave c', r⟩ h
  | refused {err : SvcErr} {h : History} : Justified cfg call ⟨.returned (.error err), ()⟩ h
  | scheduled {c : Change} {p : Phase} {h : History} (hworking : Working call c p h) :
      Justified cfg call ⟨.returned (.ok (.scheduled p.changeID p.id p.status)), ()⟩ h
  | acknowledged {h : History}
      (habort : ∀ cid reason, call = .abort cid reason →
        ∃ c : Change, ⟨.changeSave c, .ok ()⟩ ∈ h ∧ c.id = cid ∧ c.status = .aborted) :
      Justified cfg call ⟨.returned (.ok .acknowledged), ()⟩ h

/-! ## Rules for programs over their history -/

def Good (cfg : ServiceConfig) (call : Call) : History → Prop
  | [] => True
  | ev :: past => Justified cfg call ev past

variable {cfg : ServiceConfig} {α : Type}

abbrev Keeps (cfg : ServiceConfig) (call : Call) (Q : α → History → Prop)
    (p : Program α) (h : History) : Prop :=
  p.wp (histSem Op.Answers) (Good cfg call) Q h

end SophiaOrchestrator
