import SophiaOrchestrator.Effects.Interference
import SophiaOrchestrator.Phase.ByID

/-!
# A change that no call can move

`Run` is refused while a phase of the change is running or interrupted, and `Resume`
takes an interrupted phase back only while its retry budget lasts.  A crash in the last
attempt of a phase, followed by the recovery sweep, leaves the change with neither.
-/

namespace SophiaOrchestrator

open Effects Prog

variable {ok : Choice → Bool} {I : Store × List Op → Prop} {op : Op} {cfg : ServiceConfig}
  {call : Call} {r : Phase} {c : Change} {inp : RunPhaseInput}

def Op.accepts : Op → Bool
  | .returned (.ok _) => true
  | _ => false

namespace ByID

/-! ## The property -/

/-- The call, made alone in a state and run to its end, is accepted. -/
def accepted (cfg : ServiceConfig) (env : Nat → Choice) (s : Store) (call : Call) : Bool :=
  ((main cfg call).eval handler (fun _ => false) env 0 s).hist.any fun ev => ev.op.accepts

def healthy (ch : Choice) : Bool :=
  decide (ch.fault = .none) && ch.phaseID.isOk

def Accepts (cfg : ServiceConfig) (s : Store) (call : Call) : Prop :=
  ∀ env, (∀ n, healthy (env n) = true) → accepted cfg env s call = true

/-- The call is `Run` on the change, or `Resume`, `Approve` or `Reject` on one of its
phases. -/
def Concerns (s : Store) (cid : ChangeID) : Call → Prop
  | .run inp => inp.changeID = cid
  | .resume id | .approve id _ | .reject id _ _ =>
    ∃ r ∈ s.phases.rows, r.id = id ∧ r.changeID = cid
  | .abort _ _ | .recover => False

/-- Some call for the change is accepted. -/
def Unwedged (cfg : ServiceConfig) (s : Store) (cid : ChangeID) : Prop :=
  ∃ call, Concerns s cid call ∧ Accepts cfg s call

/-! ## The condition -/

/-- The recovery sweep saves no phase whose retry budget is used up. -/
def sparesLast (π : ServicePool) : ServiceMove → Bool
  | .step tid _ =>
    match π.threads[tid]? with
    | some ⟨.recover, .call (.phaseSave p) _, _⟩ => decide (p.attempts < p.retryBudget)
    | _ => true
  | .start _ | .crash => true

/-- Every interrupted phase has budget left. -/
def Recoverable (s : Store) : Prop :=
  ∀ r ∈ s.phases.rows, r.status = .interrupted → r.attempts < r.retryBudget

/-! ## A call made alone -/

section Alone

variable {α : Type} {s : Store} {log : List Op}

/-- The program, run alone with choices that `ok` admits, keeps `I` and ends with a value and
a situation that `Q` admits. -/
abbrev Alone (ok : Choice → Bool) (I : Store × List Op → Prop) (Q : α → Store × List Op → Prop)
    (prog : Program α) (x : Store × List Op) : Prop :=
  prog.wp (handler.amid (· = ·) fun _ => ok) I Q x

theorem alone_bind {Q : α → Store × List Op → Prop} {f : op.Ret → Program α}
    (hf : ∀ ch, ok ch = true → I ((handle op ch s).2, op :: log) ∧
      Alone ok I Q (f (handle op ch s).1) ((handle op ch s).2, op :: log)) :
    Alone ok I Q (perform op >>= f) (s, log) := by
  refine wp_amid_bind ?_
  rintro _ ch rfl hok
  exact hf ch hok

theorem alone_read {Q : α → Store × List Op → Prop} {f : op.Ret → Program α}
    (hread : ∀ ch, (handle op ch s).2 = s)
    (hf : ∀ ch, ok ch = true → I (s, op :: log) ∧
      Alone ok I Q (f (handle op ch s).1) (s, op :: log)) :
    Alone ok I Q (perform op >>= f) (s, log) := by
  refine alone_bind fun ch hok => ?_
  rw [hread ch]
  exact hf ch hok

theorem accepts_of_alone
    (hmain : Alone healthy (fun _ => True) (fun _ x => x.2.any Op.accepts = true)
      (main cfg call) (s, [])) : Accepts cfg s call := by
  intro env henv
  have hend := (eval_of_wp (n := 0) env (fun _ n => henv n) trivial hmain).2
  rw [List.any_map] at hend
  exact hend

theorem refused_of_alone
    (hmain : Alone (fun _ => true) (fun x => x.2.any Op.accepts = false) (fun _ _ => True)
      (main cfg call) (s, []))
    (env : Nat → Choice) : accepted cfg env s call = false := by
  have hsilent : ([] : List Op).any Op.accepts = false := rfl
  have hend := (eval_of_wp (n := 0) env (fun _ _ => rfl) hsilent hmain).1
  rw [List.any_map] at hend
  exact hend

/-! ## Operations in a healthy environment -/

theorem healthy_iff {ch : Choice} :
    healthy ch = true ↔ ch.fault = .none ∧ ∃ id, ch.phaseID = .ok id := by
  rw [healthy, Bool.and_eq_true, decide_eq_true_eq]
  cases ch.phaseID <;> simp [Except.isOk, Except.toBool]

theorem handle_now (ch : Choice) : handle .now ch s = (ch.now, s) := rfl

theorem handle_newPhaseID (ch : Choice) : handle .newPhaseID ch s = (ch.phaseID, s) := rfl

section

variable {ch : Choice} (hch : healthy ch = true)

include hch

theorem handle_phaseFindByID (hr : r ∈ s.phases.rows) :
    handle (.phaseFindByID r.id) ch s = (.ok r, s) := by
  rw [handle, (healthy_iff.mp hch).1, Fault.read, Store.findPhase_eq_ok_iff.mpr ⟨hr, rfl⟩]

theorem handle_phaseFindByChangeAndType (cid : ChangeID) (pt : PhaseType) :
    handle (.phaseFindByChangeAndType cid pt) ch s = (s.findByChangeAndType cid pt, s) := by
  rw [handle, (healthy_iff.mp hch).1, Fault.read]

theorem handle_phaseFindRunningByChange (cid : ChangeID) :
    handle (.phaseFindRunningByChange cid) ch s = (s.findRunningByChange cid, s) := by
  rw [handle, (healthy_iff.mp hch).1, Fault.read]

theorem handle_phaseLockByChange (cid : ChangeID) :
    handle (.phaseLockByChange cid) ch s = (.ok (), s) := by
  change (ch.fault.read (.ok ()), s) = _
  rw [(healthy_iff.mp hch).1, Fault.read]

theorem handle_changeFindByID {id : ChangeID} (hc : c ∈ s.base.changes.rows) (hid : c.id = id) :
    handle (.changeFindByID id) ch s = (.ok c, s) := by
  have hfind : s.base.findChange id = .ok c :=
    SophiaOrchestrator.Store.findChange_eq_ok_iff.mpr ⟨hc, hid⟩
  change (ch.fault.read (s.base.findChange id), s) = _
  rw [(healthy_iff.mp hch).1, Fault.read, hfind]

theorem handle_phaseSave {p : Phase} (hfk : ∃ c ∈ s.base.changes.rows, c.id = p.changeID) :
    ∃ s', handle (.phaseSave p) ch s = (.ok (), s') := by
  obtain ⟨s', hsave⟩ := Store.exists_savePhase hfk
  exact ⟨s', by rw [handle, (healthy_iff.mp hch).1, hsave, Fault.write]⟩

end

/-! ## Accepted calls -/

/-- A scheduled call has been accepted, whatever `runAsync` does. -/
theorem schedule_accepts (cfg : ServiceConfig) (inp : RunPhaseInput) (c : Change) (p : Phase)
    (x : Store × List Op) :
    Alone healthy (fun _ => True) (fun _ y => y.2.any Op.accepts = true)
      (schedule cfg inp (.ok (c, p))) x := by
  refine alone_bind fun ch _ => ⟨trivial, ?_⟩
  refine wp_mono (wp_amid_suffix _ _ _ _ _) (fun _ => id) ?_
  intro _ y hsuffix
  exact List.any_eq_true.mpr ⟨_, hsuffix.subset List.mem_cons_self, rfl⟩

abbrev Succeeds (prog : Program (Except SvcErr (Change × Phase))) (x : Store × List Op) : Prop :=
  Alone healthy (fun _ => True) (fun result _ => ∃ c p, result = .ok (c, p)) prog x

theorem accepts_resume (cfg : ServiceConfig) (hr : r ∈ s.phases.rows)
    (hoccupies : SophiaOrchestrator.Store.occupies r = true)
    (hbudget : r.status = .interrupted → r.attempts < r.retryBudget) :
    Accepts cfg s (.resume r.id) := by
  obtain ⟨c, hc, hcid⟩ := s.phase_change r hr
  have hstatus : r.status = .running ∨ r.status = .interrupted := by
    simpa [SophiaOrchestrator.Store.occupies] using hoccupies
  have hresumable : resumable r = true := by
    rcases hstatus with h | h <;> simp [resumable, h, PhaseStatus.isTerminal]
  have hsync : Succeeds (resumeSync r.id) (s, []) := by
    refine alone_bind fun ch₁ hch₁ => ⟨trivial, ?_⟩
    rw [handle_phaseFindByID hch₁ hr]
    simp only [hresumable, Bool.true_eq_false, if_false]
    refine alone_bind fun ch₂ hch₂ => ⟨trivial, ?_⟩
    rw [handle_changeFindByID hch₂ hc hcid]
    refine alone_bind fun ch₃ _ => ⟨trivial, ?_⟩
    rw [handle_now]
    rcases hstatus with hrunning | hinterrupted
    · simp only [resumed, hrunning, reduceCtorEq, false_and, if_false]
      exact ⟨c, r, rfl⟩
    · obtain ⟨p, hstart, hchange⟩ : ∃ p, r.start ch₃.now = .ok p ∧ p.changeID = r.changeID :=
        ⟨_, Phase.start_eq_ok_iff.mpr ⟨by simp [hinterrupted, PhaseStatus.isTerminal],
          hbudget hinterrupted, rfl⟩, rfl⟩
      simp only [resumed, hinterrupted, if_true, hstart]
      refine alone_bind fun ch₄ hch₄ => ⟨trivial, ?_⟩
      obtain ⟨s', hsave⟩ := handle_phaseSave hch₄ ⟨c, hc, hcid.trans hchange.symm⟩
      rw [hsave]
      exact ⟨c, p, rfl⟩
  refine accepts_of_alone (wp_bind (wp_mono hsync (fun _ => id) ?_))
  rintro _ x ⟨c', p, rfl⟩
  exact schedule_accepts cfg _ c' p x

/-- `Run` succeeds on a valid transition, when no phase occupies the change and the new
attempt is within its budget. -/
theorem succeeds_runSync (hc : c ∈ s.base.changes.rows) (hid : c.id = inp.changeID)
    (hvalid : isNextValidTransition c.currentPhase inp.phaseType = true)
    (hfree : s.findRunningByChange inp.changeID = .error .notFound)
    (hbudget : priorAttempts (s.findByChangeAndType inp.changeID inp.phaseType) <
      effectiveBudget inp.retryBudget) : Succeeds (runSync inp) (s, log) := by
  refine alone_bind fun ch₁ hch₁ => ⟨trivial, ?_⟩
  rw [handle_changeFindByID hch₁ hc hid]
  simp only [hvalid, Bool.true_eq_false, if_false]
  refine alone_bind fun ch₂ hch₂ => ⟨trivial, ?_⟩
  rw [handle_phaseLockByChange hch₂]
  refine alone_bind fun ch₃ hch₃ => ⟨trivial, ?_⟩
  rw [handle_phaseFindRunningByChange hch₃, hfree]
  refine alone_bind fun ch₄ hch₄ => ⟨trivial, ?_⟩
  obtain ⟨-, pid, hpid⟩ := healthy_iff.mp hch₄
  rw [handle_newPhaseID, hpid]
  refine alone_bind fun ch₅ hch₅ => ⟨trivial, ?_⟩
  rw [handle_phaseFindByChangeAndType hch₅]
  refine alone_bind fun ch₆ _ => ⟨trivial, ?_⟩
  rw [handle_now]
  obtain ⟨p, hstart, hchange⟩ : ∃ p, (newPhase inp pid
      (s.findByChangeAndType inp.changeID inp.phaseType)).start ch₆.now = .ok p ∧
      p.changeID = inp.changeID :=
    ⟨_, Phase.start_eq_ok_iff.mpr ⟨rfl, hbudget, rfl⟩, rfl⟩
  simp only [hstart]
  refine alone_bind fun ch₇ hch₇ => ⟨trivial, ?_⟩
  obtain ⟨s', hsave⟩ := handle_phaseSave hch₇ ⟨c, hc, hid.trans hchange.symm⟩
  rw [hsave]
  -- The audit append and the event that follow cannot make the call fail.
  refine alone_bind fun ch₈ _ => ⟨trivial, ?_⟩
  refine alone_bind fun ch₉ _ => ⟨trivial, ?_⟩
  exact ⟨c, p, rfl⟩

/-- The run of the current phase type with a budget above the attempts made so far. -/
def rerun (s : Store) (c : Change) : RunPhaseInput where
  changeID := c.id
  phaseType := c.currentPhase
  retryBudget := priorAttempts (s.findByChangeAndType c.id c.currentPhase) + 1

theorem accepts_run (cfg : ServiceConfig) (hc : c ∈ s.base.changes.rows)
    (hfree : s.findRunningByChange c.id = .error .notFound) :
    Accepts cfg s (.run (rerun s c)) := by
  have hvalid : isNextValidTransition c.currentPhase (rerun s c).phaseType = true := by
    simp [isNextValidTransition, rerun]
  have hbudget : priorAttempts (s.findByChangeAndType c.id c.currentPhase) <
      effectiveBudget (rerun s c).retryBudget := by
    simp only [rerun]
    rw [effectiveBudget, if_neg (by omega)]
    omega
  refine accepts_of_alone (wp_bind (wp_mono
    (succeeds_runSync hc rfl hvalid hfree hbudget) (fun _ => id) ?_))
  rintro _ x ⟨c', p, rfl⟩
  exact schedule_accepts cfg _ c' p x

/-! ## Refused calls -/

def Silent (x : Store × List Op) : Prop :=
  x.2.any Op.accepts = false

abbrev Fails (prog : Program (Except SvcErr α)) (x : Store × List Op) : Prop :=
  Alone (fun _ => true) Silent (fun result y => (∃ err, result = .error err) ∧ Silent y) prog x

/-- A used-up phase: interrupted, without budget, and without an approval gate. -/
structure Exhausted (s : Store) (r : Phase) : Prop where
  interrupted : r.status = .interrupted
  budget : r.retryBudget ≤ r.attempts
  ungated : s.base.hasEventForPhase r.id .approvalRequired = false

theorem read_cases {β : Type} (fault : Fault) (answer : Except RepoErr β) :
    fault.read answer = answer ∨ fault.read answer = .error .unavailable := by
  cases fault with
  | none => exact .inl rfl
  | before | after => exact .inr rfl

theorem fails_runSync (hr : r ∈ s.phases.rows) (hchange : r.changeID = inp.changeID)
    (hoccupies : SophiaOrchestrator.Store.occupies r = true) (hlog : Silent (s, log)) :
    Fails (runSync inp) (s, log) := by
  obtain ⟨q, hq⟩ : ∃ q, s.findRunningByChange inp.changeID = .ok q := by
    rcases s.findRunningByChange_cases inp.changeID with ⟨-, hfree⟩ | ⟨q, -, -, -, hq⟩
    · rw [hfree r hr hchange] at hoccupies
      cases hoccupies
    · exact ⟨q, hq⟩
  refine alone_read (fun _ => rfl) fun ch₁ _ => ⟨hlog, ?_⟩
  cases (handle (.changeFindByID inp.changeID) ch₁ s).1 with
  | error err => exact ⟨⟨_, rfl⟩, hlog⟩
  | ok c =>
    simp only
    split
    · exact ⟨⟨_, rfl⟩, hlog⟩
    refine alone_read (fun _ => rfl) fun ch₂ _ => ⟨hlog, ?_⟩
    match (handle (.phaseLockByChange inp.changeID) ch₂ s).1 with
    | .error err => exact ⟨⟨_, rfl⟩, hlog⟩
    | .ok () =>
      refine alone_read (fun _ => rfl) fun ch₃ _ => ⟨hlog, ?_⟩
      rw [handle, hq]
      rcases read_cases ch₃.fault (.ok q : Except RepoErr Phase) with hread | hread
      · rw [hread]
        exact ⟨⟨_, rfl⟩, hlog⟩
      · rw [hread]
        exact ⟨⟨_, rfl⟩, hlog⟩

theorem fails_resumeSync (hr : r ∈ s.phases.rows) (hexhausted : Exhausted s r)
    (hlog : Silent (s, log)) : Fails (resumeSync r.id) (s, log) := by
  have hfind : s.findPhase r.id = .ok r := Store.findPhase_eq_ok_iff.mpr ⟨hr, rfl⟩
  have hresumable : resumable r = true := by
    simp [resumable, hexhausted.interrupted, PhaseStatus.isTerminal]
  have hstart : ∀ now, r.start now = .error .budgetExhausted := by
    intro now
    rw [Phase.start, if_neg (by simp [hexhausted.interrupted, PhaseStatus.isTerminal]),
      if_pos hexhausted.budget]
  refine alone_read (fun _ => rfl) fun ch₁ _ => ⟨hlog, ?_⟩
  rw [handle, hfind]
  rcases read_cases ch₁.fault (.ok r : Except RepoErr Phase) with hread | hread
  · rw [hread]
    simp only [hresumable, Bool.true_eq_false, if_false]
    refine alone_read (fun _ => rfl) fun ch₂ _ => ⟨hlog, ?_⟩
    cases (handle (.changeFindByID r.changeID) ch₂ s).1 with
    | error err => exact ⟨⟨_, rfl⟩, hlog⟩
    | ok c =>
      refine alone_read (fun _ => rfl) fun ch₃ _ => ⟨hlog, ?_⟩
      simp only [resumed, hexhausted.interrupted, if_true, hstart]
      exact ⟨⟨_, rfl⟩, hlog⟩
  · rw [hread]
    exact ⟨⟨_, rfl⟩, hlog⟩

theorem fails_checkGateState (hexhausted : Exhausted s r) (hlog : Silent (s, log)) :
    Fails (checkGateState r.id) (s, log) := by
  refine alone_read (fun _ => rfl) fun ch _ => ⟨hlog, ?_⟩
  have hanswer : (handle (.auditHasEventForPhase r.id .approvalRequired) ch s).1 =
      ch.fault.read (.ok false) := by
    rw [← hexhausted.ungated]
    rfl
  rw [hanswer]
  rcases read_cases ch.fault (.ok false) with hread | hread
  · rw [hread]
    exact ⟨⟨_, rfl⟩, hlog⟩
  · rw [hread]
    exact ⟨⟨_, rfl⟩, hlog⟩

theorem fails_gatedPhase (hr : r ∈ s.phases.rows) (hexhausted : Exhausted s r) (approver : String)
    (hlog : Silent (s, log)) : Fails (gatedPhase r.id approver) (s, log) := by
  have hfind : s.findPhase r.id = .ok r := Store.findPhase_eq_ok_iff.mpr ⟨hr, rfl⟩
  unfold gatedPhase
  split
  · exact ⟨⟨_, rfl⟩, hlog⟩
  refine alone_read (fun _ => rfl) fun ch₁ _ => ⟨hlog, ?_⟩
  rw [handle, hfind]
  rcases read_cases ch₁.fault (.ok r : Except RepoErr Phase) with hread | hread
  · rw [hread]
    simp only [hexhausted.interrupted, PhaseStatus.isTerminal, Bool.false_eq_true, if_false]
    refine wp_bind (wp_mono (fails_checkGateState hexhausted hlog) (fun _ => id) ?_)
    rintro _ x ⟨⟨err, rfl⟩, hx⟩
    exact ⟨⟨_, rfl⟩, hx⟩
  · rw [hread]
    exact ⟨⟨_, rfl⟩, hlog⟩

theorem refused_of_fails {prog : Program (Except SvcErr α)} {f : Except SvcErr α → Program Unit}
    (hfails : Fails prog (s, [])) (hmain : main cfg call = prog >>= f)
    (hf : ∀ err, f (.error err) = returnReply (.error err)) (env : Nat → Choice) :
    accepted cfg env s call = false := by
  refine refused_of_alone ?_ env
  rw [hmain]
  refine wp_bind (wp_mono hfails (fun _ => id) ?_)
  rintro _ ⟨s', log⟩ ⟨⟨err, rfl⟩, hsilent⟩
  rw [hf err]
  exact alone_bind (f := .done) fun _ _ => ⟨hsilent, trivial⟩

/-- A change whose phases are all used up accepts no call, whatever the environment
does. -/
theorem refused_of_exhausted (cfg : ServiceConfig) {cid : ChangeID}
    (hsome : ∃ r ∈ s.phases.rows, r.changeID = cid)
    (hall : ∀ r ∈ s.phases.rows, r.changeID = cid → Exhausted s r) (hconcerns : Concerns s cid call)
    (env : Nat → Choice) :
    accepted cfg env s call = false := by
  cases call with
  | run inp =>
    obtain ⟨r, hr, hcid⟩ := hsome
    have hoccupies : SophiaOrchestrator.Store.occupies r = true := by
      simp [SophiaOrchestrator.Store.occupies, (hall r hr hcid).interrupted]
    have hchange : r.changeID = inp.changeID := hcid.trans hconcerns.symm
    exact refused_of_fails (fails_runSync hr hchange hoccupies rfl) rfl (fun _ => rfl) env
  | resume id =>
    obtain ⟨r, hr, rfl, hcid⟩ := hconcerns
    exact refused_of_fails (fails_resumeSync hr (hall r hr hcid) rfl) rfl (fun _ => rfl) env
  | approve id approver | reject id approver reason =>
    obtain ⟨r, hr, rfl, hcid⟩ := hconcerns
    exact refused_of_fails (fails_gatedPhase hr (hall r hr hcid) approver rfl) rfl
      (fun _ => rfl) env
  | abort cid' reason | recover => exact hconcerns.elim

end Alone

/-! ## Runs -/

theorem recover_of_interrupted {q : Phase} {r : Except RepoErr Unit} {h : History}
    (hjust : Justified cfg call ⟨.phaseSave q, r⟩ h) (hstatus : q.status = .interrupted) :
    call = .recover := by
  cases hjust with
  | quiet hquiet => cases hquiet
  | startRun hcall hloaded hvalid hcheck hid hprior hstart hfirst =>
    obtain ⟨-, -, rfl⟩ := Phase.start_eq_ok_iff.mp hstart
    cases hstatus
  | startResume hcall hloaded hresumable hrestart hfirst =>
    obtain ⟨-, -, -, -, -, -, -, hrunning⟩ := resumed_eq_some_ok hrestart
    rw [hrunning] at hstatus
    cases hstatus
  | settle hworking hscheduled hsettles =>
    rcases hsettles.status with h | h | h | h <;> rw [h] at hstatus <;> cases hstatus
  | reject hcall hloaded hopen hsettles hblocked =>
    rw [hblocked] at hstatus
    cases hstatus
  | recover hcall hloaded hmem => exact hcall

theorem recoverable_of_sparesLast {s : Store} (hs : Recoverable s) (moves : List ServiceMove)
    (hok : RunMeets cfg s sparesLast moves = true) :
    Recoverable (reach cfg s moves).state := by
  refine reach_induction sparesLast hs ?_ moves hok
  intro π tid choice call op next hist hthread hjust hspared hinv r hr hstatus
  rcases mem_of_handle hr with hold | ⟨q, rfl, rfl⟩
  · exact hinv r hold hstatus
  · obtain rfl := recover_of_interrupted hjust hstatus
    simpa [sparesLast, hthread] using hspared

/-- If the recovery sweep saves no phase whose retry budget is used up, then in every state
reached some call for every change is accepted. -/
theorem unwedged_of_sparesLast (cfg : ServiceConfig) (s : Store) (hs : Recoverable s)
    (moves : List ServiceMove) (hok : RunMeets cfg s sparesLast moves = true) (c : Change)
    (hc : c ∈ (reach cfg s moves).state.base.changes.rows) :
    Unwedged cfg (reach cfg s moves).state c.id := by
  have hrecoverable := recoverable_of_sparesLast hs moves hok
  rcases (reach cfg s moves).state.findRunningByChange_cases c.id with
    ⟨hfree, -⟩ | ⟨r, hr, hcid, hoccupies, -⟩
  · exact ⟨.run (rerun _ c), rfl, accepts_run cfg hc hfree⟩
  · exact ⟨.resume r.id, ⟨r, hr, rfl, hcid⟩,
      accepts_resume cfg hr hoccupies (hrecoverable r hr)⟩

/-! ## Sample runs -/

def sampleStore (current : PhaseType) : Store where
  base := SophiaOrchestrator.sampleStore current
  phases := Sql.Table.empty
  phase_change := by simp

/-- A run of explore with a retry budget is interrupted by a crash, and the boot sequence
marks its phase. -/
def interruptedRun (budget : Int) : List ServiceMove :=
  .start (.run { changeID := ⟨1⟩, phaseType := .explore, retryBudget := budget }) ::
    List.replicate 10 (.step 0 { phaseID := .ok ⟨7⟩ }) ++
  .crash :: .start .recover :: List.replicate 3 (.step 1 {})

def overview (s : Store) : List (ChangeID × PhaseStatus × Nat × Nat × Bool) :=
  s.phases.rows.map fun r =>
    (r.changeID, r.status, r.attempts, r.retryBudget,
      s.base.hasEventForPhase r.id .approvalRequired)

def changeStatuses (s : Store) : List (ChangeID × ChangeStatus) :=
  s.base.changes.rows.map fun c => (c.id, c.status)

def wedgedState : Store :=
  (reach {} (sampleStore .init) (interruptedRun 1)).state

/-- After a crash in the only attempt of explore the active change is wedged: no call for
it is accepted in any environment. -/
theorem wedged_after_last_attempt :
    changeStatuses wedgedState = [(⟨1⟩, .active)] ∧
      (∀ call, Concerns wedgedState ⟨1⟩ call →
        ∀ env, accepted {} env wedgedState call = false) ∧
      ¬ Unwedged {} wedgedState ⟨1⟩ := by
  have hoverview : overview wedgedState = [(⟨1⟩, .interrupted, 1, 1, false)] := by
    decide +kernel
  obtain ⟨r, hrows, hr⟩ := List.map_eq_singleton_iff.mp hoverview
  simp only [Prod.mk.injEq] at hr
  have hexhausted : Exhausted wedgedState r :=
    ⟨hr.2.1, by rw [hr.2.2.1, hr.2.2.2.1], hr.2.2.2.2⟩
  have hrefused : ∀ call, Concerns wedgedState ⟨1⟩ call →
      ∀ env, accepted {} env wedgedState call = false := by
    intro call hconcerns env
    refine refused_of_exhausted {} ⟨r, by simp [hrows], hr.1⟩ ?_ hconcerns env
    intro r' hr' _
    rw [hrows, List.mem_singleton] at hr'
    rw [hr']
    exact hexhausted
  refine ⟨by decide +kernel, hrefused, ?_⟩
  rintro ⟨call, hconcerns, haccepts⟩
  have haccepted := haccepts (fun _ => {}) fun _ => rfl
  rw [hrefused call hconcerns] at haccepted
  cases haccepted

/-- The same run with a budget of three attempts leaves a change that can be resumed. -/
theorem unwedged_interruptedRun :
    overview (reach {} (sampleStore .init) (interruptedRun 3)).state =
        [(⟨1⟩, .interrupted, 1, 3, false)] ∧
      ∀ c ∈ (reach {} (sampleStore .init) (interruptedRun 3)).state.base.changes.rows,
        Unwedged {} (reach {} (sampleStore .init) (interruptedRun 3)).state c.id :=
  ⟨by decide +kernel, unwedged_of_sparesLast {} (sampleStore .init)
    (by simp [Recoverable, sampleStore]) (interruptedRun 3) (by decide +kernel)⟩

end ByID

end SophiaOrchestrator
