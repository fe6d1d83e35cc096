import SophiaOrchestrator.Phase.Runs

/-!
# Saving a phase and finding it again

`PhaseRepo.Save` is meant to handle both uniqueness constraints of the phases
table, the primary key `id` and `(change_id, phase_type, attempts)`.  Its
statement names only the second one as conflict target.  `Start` and `Restart`
count a further attempt under the same id, so their row conflicts on the
primary key alone and is refused.
-/

namespace SophiaOrchestrator

open Effects Prog

/-! ## The property -/

def nextSave (t : ServiceThread) : Option Phase :=
  match t.prog with
  | .call (.phaseSave p) _ => some p
  | _ => none

/-- The columns hold the confidence and the timestamps of the phase exactly. -/
def Phase.inPrecision (p : Phase) : Bool :=
  decide (numeric32 p.confidence = p.confidence) &&
    decide (p.startedAt.map timestamptz = p.startedAt) &&
    decide (p.completedAt.map timestamptz = p.completedAt)

/-- Saving the phase succeeds, and then it is found under its id with every
column as it was saved. -/
def Persists (s : Store) (p : Phase) : Prop :=
  ∃ s', s.savePhase p = .ok s' ∧ s'.findPhase p.id = .ok p.stored ∧
    (p.inPrecision = true → s'.findPhase p.id = .ok p)

/-- Every save that a call is about to perform persists its phase. -/
def SavesPersist (π : ServicePool) : Prop :=
  ∀ t ∈ π.threads, ∀ p, nextSave t = some p → Persists π.state p

/-! ## The condition -/

/-- `Resume` or `Reject` would count the phase it loaded as a further attempt. -/
def countsAgain (call : Call) (p : Phase) : Bool :=
  decide (p.status ≠ .running) && decide (p.attempts < p.retryBudget) &&
    match call with
    | .resume _ => resumable p
    | .reject _ _ _ => !p.status.isTerminal
    | _ => false

/-- The operation may be performed: the read of the attempts made so far and the
save of a phase reach the database, a new phase id is taken by no row, and the
loaded phase is not counted as a further attempt. -/
def keepsAttempt (call : Call) (op : Op) (choice : Choice) (s : Store) : Bool :=
  match op with
  | .phaseSave _ | .phaseFindByChangeAndType _ _ => decide (choice.fault = .none)
  | .newPhaseID =>
    match choice.phaseID with
    | .ok id => s.phases.rows.all fun r => decide (r.id ≠ id)
    | .error _ => true
  | .phaseFindByID id =>
    match s.findPhase id with
    | .ok p => !countsAgain call p
    | .error _ => true
  | _ => true

def budgetFits : Call → Bool
  | .run inp => decide (effectiveBudget inp.retryBudget < 2 ^ 31)
  | _ => true

/-- The calls follow one another, with crashes at any point, and every operation
keeps to `keepsAttempt`. -/
def attemptsKept (π : ServicePool) : ServiceMove → Bool
  | .start inbound => π.idle && budgetFits inbound
  | .crash => true
  | .step tid choice =>
    match π.threads[tid]? with
    | some ⟨inbound, .call op _, _⟩ => keepsAttempt inbound op choice π.state
    | _ => true

/-! ## Resumed phases are not persisted -/

/-- A run of explore is interrupted by a crash, and the phase is resumed after
the recovery sweep. -/
def resumeInterrupted : List ServiceMove :=
  .start (.run { changeID := ⟨1⟩, phaseType := .explore }) ::
    List.replicate 10 (.step 0 { phaseID := .ok ⟨7⟩ }) ++
  .crash :: .start .recover :: List.replicate 3 (.step 1 {}) ++
  .start (.resume ⟨7⟩) :: List.replicate 3 (.step 2 {})

def resumeBlockedApply : List ServiceMove :=
  .start (.run { changeID := ⟨1⟩, phaseType := .apply }) ::
    List.replicate 40
      (.step 0 { phaseID := .ok ⟨7⟩, apply := .aborted "runtime unavailable" 0 }) ++
  .start (.resume ⟨7⟩) :: List.replicate 3 (.step 1 {})

structure SaveReport where
  id : PhaseID
  status : PhaseStatus
  attempts : Nat
  retryBudget : Nat
  err : Option RepoErr
  deriving DecidableEq

def saveReport (π : ServicePool) (tid : Nat) : Option SaveReport :=
  (π.threads[tid]?.bind nextSave).map fun p =>
    ⟨p.id, p.status, p.attempts, p.retryBudget,
      match π.state.savePhase p with
      | .ok _ => none
      | .error err => some err⟩

theorem not_savesPersist_of_saveReport {π : ServicePool} {tid : Nat}
    {report : SaveReport} {err : RepoErr} (h : saveReport π tid = some report)
    (herr : report.err = some err) : ¬ SavesPersist π := by
  intro hpersist
  obtain ⟨p, hp, rfl⟩ := Option.map_eq_some_iff.mp h
  obtain ⟨t, ht, hnext⟩ := Option.bind_eq_some_iff.mp hp
  obtain ⟨s', hsave, -⟩ := hpersist t (List.mem_of_getElem? ht) p hnext
  simp [hsave] at herr

/-- The resume of an interrupted phase and of a blocked apply phase, each at its
first of three attempts: the save of the second attempt violates the primary
key. -/
theorem resume_not_persisted :
    saveReport (reach {} (sampleStore .explore) resumeInterrupted) 2 =
        some ⟨⟨7⟩, .running, 2, 3, some .uniqueViolation⟩ ∧
      ¬ SavesPersist (reach {} (sampleStore .explore) resumeInterrupted) ∧
      saveReport (reach {} (sampleStore .apply) resumeBlockedApply) 1 =
        some ⟨⟨7⟩, .running, 2, 3, some .uniqueViolation⟩ ∧
      ¬ SavesPersist (reach {} (sampleStore .apply) resumeBlockedApply) := by
  have hinterrupted : saveReport (reach {} (sampleStore .explore) resumeInterrupted) 2 =
      some ⟨⟨7⟩, .running, 2, 3, some .uniqueViolation⟩ := by
    decide +kernel
  have hblocked : saveReport (reach {} (sampleStore .apply) resumeBlockedApply) 1 =
      some ⟨⟨7⟩, .running, 2, 3, some .uniqueViolation⟩ := by
    decide +kernel
  exact ⟨hinterrupted, not_savesPersist_of_saveReport hinterrupted rfl,
    hblocked, not_savesPersist_of_saveReport hblocked rfl⟩

/-! ## What a call knows of the phase rows -/

structure Phase.InRange (p : Phase) : Prop where
  retryBudget : p.retryBudget < 2 ^ 31
  attempts : p.attempts < 2 ^ 31
  confidence : 0 ≤ p.confidence ∧ p.confidence ≤ 1

theorem Phase.InRange.fitsColumns {p : Phase} (h : p.InRange) : p.fitsColumns = true := by
  obtain ⟨hlow, hhigh⟩ := numeric32_mem_unit h.confidence.1 h.confidence.2
  simp only [Phase.fitsColumns, Bool.and_eq_true, decide_eq_true_eq]
  refine ⟨⟨⟨h.retryBudget, h.attempts⟩, ?_⟩, ?_⟩
  · linarith
  · linarith

theorem Phase.InRange.stored {p : Phase} (h : p.InRange) (id : PhaseID) :
    Phase.InRange { p.stored with id := id } :=
  ⟨h.retryBudget, h.attempts, numeric32_mem_unit h.confidence.1 h.confidence.2⟩

theorem Phase.stored_eq_self {p : Phase} (h : p.inPrecision = true) : p.stored = p := by
  simp only [Phase.inPrecision, Bool.and_eq_true, decide_eq_true_eq] at h
  obtain ⟨⟨hconfidence, hstarted⟩, hcompleted⟩ := h
  cases p
  simp_all [Phase.stored]

theorem persists_of_mem_stored {s : Store} {p : Phase}
    (h : ∃ s', s.savePhase p = .ok s' ∧ p.stored ∈ s'.phases.rows) : Persists s p := by
  obtain ⟨s', hsave, hmem⟩ := h
  have hfound : s'.findPhase p.id = .ok p.stored :=
    Store.findPhase_eq_ok_iff.mpr ⟨hmem, rfl⟩
  refine ⟨s', hsave, hfound, ?_⟩
  intro hprecise
  rw [hfound, Phase.stored_eq_self hprecise]

theorem persists_of_hasRow {s : Store} {p : Phase} (hrange : p.InRange) (h : HasRow s p) :
    Persists s p :=
  persists_of_mem_stored
    ((Store.save_then_find_iff s p).mpr ⟨hrange.fitsColumns, .inl h⟩)

/-- What the unfinished call of a sequential run knows of the database from its
history.  What it read of the rows holds until its own first save. -/
structure RowFacts (call : Call) (h : History) (s : Store) : Prop where
  budget : budgetFits call = true
  change : ∀ id c, ⟨.changeFindByID id, .ok c⟩ ∈ h → ∃ r ∈ s.changes.rows, r.id = id
  loaded : ∀ id p, ⟨.phaseFindByID id, .ok p⟩ ∈ h →
    HasRow s p ∧ p.InRange ∧ countsAgain call p = false
  swept : ∀ stuck, ⟨.phaseFindAllRunning, .ok stuck⟩ ∈ h →
    ∀ p ∈ stuck, HasRow s p ∧ p.InRange
  saved : ∀ p answer, ⟨.phaseSave p, answer⟩ ∈ h →
    answer = .ok () ∧ HasRow s p ∧ p.InRange
  check : NoPhaseSave h → ∀ cid, ⟨.phaseFindRunningByChange cid, .error .notFound⟩ ∈ h →
    ∀ r ∈ s.phases.rows, r.changeID = cid → Store.occupies r = false
  prior : NoPhaseSave h → ∀ cid pt answer, ⟨.phaseFindByChangeAndType cid pt, answer⟩ ∈ h →
    answer = s.findByChangeAndType cid pt
  fresh : NoPhaseSave h → ∀ id, ⟨.newPhaseID, .ok id⟩ ∈ h → ∀ r ∈ s.phases.rows, r.id ≠ id

def RowsInRange (s : Store) : Prop :=
  ∀ r ∈ s.phases.rows, r.InRange ∧ r.status ≠ .pending

/-! ## Every save persists its phase -/

/-- The first save of `Run` inserts a row: no row has the next number of
attempts, because the latest row is neither running nor interrupted. -/
theorem key_free_of_newPhase {s : Store} {inp : RunPhaseInput} {r : Phase}
    (hrows : RowsInRange s)
    (hcheck : ∀ r ∈ s.phases.rows, r.changeID = inp.changeID → Store.occupies r = false)
    (hr : r ∈ s.phases.rows) :
    r.key ≠ (inp.changeID, inp.phaseType,
      priorAttempts (s.findByChangeAndType inp.changeID inp.phaseType) + 1) := by
  intro hkey
  simp only [Phase.key, Prod.mk.injEq] at hkey
  obtain ⟨hcid, hpt, hattempts⟩ := hkey
  cases hlatest : s.latestPhase inp.changeID inp.phaseType with
  | none => exact Store.latestPhase_eq_none_iff.mp hlatest r hr hcid hpt
  | some latest =>
    obtain ⟨hmem, hlcid, -⟩ := Store.mem_of_latestPhase hlatest
    have hle := Store.attempts_le_of_latestPhase hlatest hr hcid hpt
    have hfree := hcheck latest hmem hlcid
    have hopen := (hrows latest hmem).2
    have hprior : priorAttempts (s.findByChangeAndType inp.changeID inp.phaseType) =
        latest.attempts := by
      rw [Store.findByChangeAndType_eq_ok_iff.mpr hlatest, priorAttempts, if_pos]
      cases hstatus : latest.status <;>
        simp_all [Store.occupies, PhaseStatus.isTerminal]
    omega

section Saves

variable {call : Call} {h : History} {s : Store}

/-- The phase that a run works on has its row, and is running unless it cannot be
started again. -/
theorem Working.hasRow {c : Change} {p : Phase} (hfacts : RowFacts call h s)
    (hworking : Working call c p h) :
    HasRow s p ∧ p.InRange ∧ (p.status = .running ∨ p.retryBudget ≤ p.attempts) := by
  cases hworking.origin with
  | started inp hcall hcheck hchange htype hstatus hsaved =>
    obtain ⟨-, hrow, hrange⟩ := hfacts.saved p _ hsaved
    exact ⟨hrow, hrange, .inl hstatus⟩
  | continued id hcall hloaded hresumable hkept =>
    obtain ⟨hrow, hrange, hcount⟩ := hfacts.loaded id p hloaded
    refine ⟨hrow, hrange, ?_⟩
    subst hcall
    simp only [countsAgain, hresumable, Bool.and_true, Bool.and_eq_false_iff,
      decide_eq_false_iff_not] at hcount
    rcases hcount with hrun | hbudget
    · exact .inl (not_not.mp hrun)
    · exact .inr (not_lt.mp hbudget)
  | restarted id p₀ now hcall hloaded hresumable hrestart hsaved =>
    obtain ⟨-, hrow, hrange⟩ := hfacts.saved p _ hsaved
    obtain ⟨-, -, -, -, -, -, -, hstatus⟩ := resumed_eq_some_ok hrestart
    exact ⟨hrow, hrange, .inl hstatus⟩

theorem Settles.hasRow {p q : Phase} (hfacts : RowFacts call h s)
    (hsettles : Settles p q h) (hrow : HasRow s p) (hrange : p.InRange)
    (hkept : p.status = .running ∨ p.retryBudget ≤ p.attempts) :
    HasRow s q ∧ q.InRange ∧ q.status ≠ .pending := by
  have hattempts : q.attempts = p.attempts := by
    rcases hsettles.attempts with hsame | ⟨-, hbudget, -, hnot | ⟨q₀, err, herr⟩⟩
    · exact hsame
    · rcases hkept with hrun | hspent
      · exact absurd hrun hnot
      · omega
    · cases (hfacts.saved q₀ _ herr).1
  refine ⟨?_, ⟨?_, ?_, hsettles.confidence⟩, ?_⟩
  · obtain ⟨r, hr, hkey, hid⟩ := hrow
    refine ⟨r, hr, ?_, hid.trans hsettles.id.symm⟩
    rw [hkey, Phase.key, Phase.key, hsettles.changeID, hsettles.pType, hattempts]
  · rw [hsettles.retryBudget]
    exact hrange.retryBudget
  · rw [hattempts]
    exact hrange.attempts
  · rcases hsettles.status with hst | hst | hst | hst <;> rw [hst] <;> decide

theorem persists_of_justified {cfg : ServiceConfig} {p : Phase} {answer : Except RepoErr Unit}
    (hrows : RowsInRange s) (hfacts : RowFacts call h s)
    (hjust : Justified cfg call ⟨.phaseSave p, answer⟩ h) :
    Persists s p ∧ p.InRange ∧ p.status ≠ .pending := by
  have hexisting : HasRow s p ∧ p.InRange ∧ p.status ≠ .pending →
      Persists s p ∧ p.InRange ∧ p.status ≠ .pending := by
    rintro ⟨hrow, hrange, hopen⟩
    exact ⟨persists_of_hasRow hrange hrow, hrange, hopen⟩
  cases hjust with
  | quiet hquiet => cases hquiet
  | @startRun inp c pid prior now _ _ _ hcall hloaded hvalid hcheck hid hprior hstart hfirst =>
    obtain ⟨-, hbudget, rfl⟩ := Phase.start_eq_ok_iff.mp hstart
    have hlimit := hfacts.budget
    simp only [hcall, budgetFits, decide_eq_true_eq] at hlimit
    obtain rfl := hfacts.prior hfirst _ _ _ hprior
    have hrange : Phase.InRange
        { newPhase inp pid (s.findByChangeAndType inp.changeID inp.phaseType) with
          status := .running
          attempts := (newPhase inp pid
            (s.findByChangeAndType inp.changeID inp.phaseType)).attempts + 1
          startedAt := some now } := by
      have hnext : priorAttempts (s.findByChangeAndType inp.changeID inp.phaseType) + 1 ≤
          effectiveBudget inp.retryBudget := hbudget
      exact ⟨hlimit, Nat.lt_of_le_of_lt hnext hlimit, by simp [newPhase]⟩
    refine ⟨?_, hrange, by simp⟩
    refine persists_of_mem_stored
      ((Store.save_then_find_iff s _).mpr ⟨hrange.fitsColumns, .inr ⟨?_, ?_, ?_⟩⟩)
    · intro r hr
      exact key_free_of_newPhase hrows (hfacts.check hfirst _ hcheck) hr
    · exact hfacts.fresh hfirst pid hid
    · exact hfacts.change _ _ hloaded
  | @startResume id p₀ _ now _ _ hcall hloaded hresumable hrestart hfirst =>
    obtain ⟨hcause, hbudget, -⟩ := resumed_eq_some_ok hrestart
    have hcount := (hfacts.loaded id p₀ hloaded).2.2
    have hstatus : p₀.status ≠ .running := by
      rcases hcause with hst | ⟨hst, -⟩ <;> rw [hst] <;> decide
    simp [countsAgain, hcall, hresumable, hstatus, hbudget] at hcount
  | settle hworking hscheduled hsettles =>
    obtain ⟨hrow, hrange, hkept⟩ := hworking.hasRow hfacts
    exact hexisting (hsettles.hasRow hfacts hrow hrange hkept)
  | @reject id approver reason p₀ _ _ _ hcall hloaded hopen hsettles hblocked =>
    obtain ⟨hrow, hrange, hcount⟩ := hfacts.loaded id p₀ hloaded
    have hkept : p₀.status = .running ∨ p₀.retryBudget ≤ p₀.attempts := by
      simp only [countsAgain, hcall, hopen, Bool.not_false, Bool.and_true,
        Bool.and_eq_false_iff, decide_eq_false_iff_not] at hcount
      rcases hcount with hrun | hbudget
      · exact .inl (not_not.mp hrun)
      · exact .inr (not_lt.mp hbudget)
    exact hexisting (hsettles.hasRow hfacts hrow hrange hkept)
  | @recover stuck p _ _ hcall hloaded hmem =>
    obtain ⟨hrow, hrange⟩ := hfacts.swept stuck hloaded p hmem
    exact hexisting ⟨hrow, ⟨hrange.retryBudget, hrange.attempts, hrange.confidence⟩,
      by simp⟩

end Saves

/-! ## Runs -/

section Step

variable {cfg : ServiceConfig} {call : Call} {h : History} {s : Store} {op : Op}
  {choice : Choice}

theorem handle_phaseSave_of_persists {p : Phase} (hfault : choice.fault = .none)
    (hpersists : Persists s p) :
    (handle (.phaseSave p) choice s).1 = .ok () ∧
      s.savePhase p = .ok (handle (.phaseSave p) choice s).2 := by
  obtain ⟨s', hsave, -⟩ := hpersists
  simp [handle, hfault, hsave, Fault.write]

theorem RowsInRange.step (hrows : RowsInRange s) (hfacts : RowFacts call h s)
    (hjust : Justified cfg call ⟨op, (handle op choice s).1⟩ h) :
    RowsInRange (handle op choice s).2 := by
  cases hsaves : op.savesPhase with
  | false =>
    unfold RowsInRange
    rw [handle_phases_of_not_savesPhase hsaves]
    exact hrows
  | true =>
    cases op with
    | phaseSave p =>
      obtain ⟨-, hrange, hopen⟩ := persists_of_justified hrows hfacts hjust
      rcases Fault.write_eq choice.fault s (s.savePhase p) with heq | hok
      · exact (congrArg RowsInRange heq).mpr hrows
      · intro r hr
        rcases Store.mem_of_savePhase hok hr with ⟨hold, -⟩ | ⟨hnew, -⟩
        · exact hrows r hold
        · rw [hnew]
          exact ⟨hrange.stored r.id, hopen⟩
    | _ => cases hsaves

theorem RowFacts.step (hfacts : RowFacts call h s) (hrows : RowsInRange s)
    (hok : keepsAttempt call op choice s = true)
    (hjust : Justified cfg call ⟨op, (handle op choice s).1⟩ h) :
    RowFacts call (⟨op, (handle op choice s).1⟩ :: h) (handle op choice s).2 := by
  have hsplit : NoPhaseSave (⟨op, (handle op choice s).1⟩ :: h) →
      NoPhaseSave h ∧ (handle op choice s).2.phases = s.phases := by
    intro hno
    exact ⟨fun ev hev => hno ev (List.mem_cons_of_mem _ hev),
      handle_phases_of_not_savesPhase (hno _ List.mem_cons_self) choice s⟩
  refine ⟨hfacts.budget, ?_, ?_, ?_, ?_, ?_, ?_, ?_⟩
  · intro id c hmem
    rcases List.mem_cons.mp hmem with heq | hold
    · obtain ⟨rfl, hanswer⟩ := event_eq_handle heq
      obtain ⟨hc, hid⟩ := Store.findChange_eq_ok_iff.mp (Fault.read_eq_ok hanswer.symm)
      exact ⟨c, hc, hid⟩
    · exact exists_change_handle (hfacts.change id c hold) op choice
  · intro id p hmem
    rcases List.mem_cons.mp hmem with heq | hold
    · obtain ⟨rfl, hanswer⟩ := event_eq_handle heq
      have hfound := Fault.read_eq_ok hanswer.symm
      obtain ⟨hp, hid⟩ := Store.findPhase_eq_ok_iff.mp hfound
      simp only [keepsAttempt, hfound, Bool.not_eq_true'] at hok
      exact ⟨⟨p, hp, rfl, rfl⟩, (hrows p hp).1, hok⟩
    · obtain ⟨hrow, hrest⟩ := hfacts.loaded id p hold
      exact ⟨hrow.handle op choice, hrest⟩
  · intro stuck hmem p hp
    rcases List.mem_cons.mp hmem with heq | hold
    · obtain ⟨rfl, hanswer⟩ := event_eq_handle heq
      obtain rfl : s.findAllRunning = stuck := by
        simpa using Fault.read_eq_ok hanswer.symm
      obtain ⟨hmemRow, -⟩ := Store.mem_findAllRunning.mp hp
      exact ⟨⟨p, hmemRow, rfl, rfl⟩, (hrows p hmemRow).1⟩
    · obtain ⟨hrow, hrange⟩ := hfacts.swept stuck hold p hp
      exact ⟨hrow.handle op choice, hrange⟩
  · intro p answer hmem
    rcases List.mem_cons.mp hmem with heq | hold
    · obtain ⟨rfl, rfl⟩ := event_eq_handle heq
      have hfault : choice.fault = .none := by simpa [keepsAttempt] using hok
      obtain ⟨hpersists, hrange, -⟩ := persists_of_justified hrows hfacts hjust
      obtain ⟨hanswer, hsave⟩ := handle_phaseSave_of_persists hfault hpersists
      obtain ⟨s', hsave', hfound, -⟩ := hpersists
      obtain rfl : (handle (.phaseSave p) choice s).2 = s' :=
        Except.ok.inj (hsave.symm.trans hsave')
      obtain ⟨hstored, -⟩ := Store.findPhase_eq_ok_iff.mp hfound
      exact ⟨hanswer, ⟨p.stored, hstored, rfl, rfl⟩, hrange⟩
    · obtain ⟨hanswer, hrow, hrange⟩ := hfacts.saved p answer hold
      exact ⟨hanswer, hrow.handle op choice, hrange⟩
  · intro hno cid hmem
    obtain ⟨hno', hsame⟩ := hsplit hno
    rw [hsame]
    rcases List.mem_cons.mp hmem with heq | hold
    · obtain ⟨rfl, hanswer⟩ := event_eq_handle heq
      exact Store.findRunningByChange_eq_notFound_iff.mp
        (Fault.read_eq_notFound hanswer.symm)
    · exact hfacts.check hno' cid hold
  · intro hno cid pt answer hmem
    obtain ⟨hno', hsame⟩ := hsplit hno
    rw [Store.findByChangeAndType, Store.latestPhase, hsame]
    rcases List.mem_cons.mp hmem with heq | hold
    · obtain ⟨rfl, hanswer⟩ := event_eq_handle heq
      have hfault : choice.fault = .none := by simpa [keepsAttempt] using hok
      rw [hanswer, handle, hfault]
      rfl
    · exact hfacts.prior hno' cid pt answer hold
  · intro hno id hmem
    obtain ⟨hno', hsame⟩ := hsplit hno
    rw [hsame]
    rcases List.mem_cons.mp hmem with heq | hold
    · obtain ⟨rfl, hanswer⟩ := event_eq_handle heq
      have hid : choice.phaseID = .ok id := hanswer.symm
      simpa [keepsAttempt, hid] using hok
    · exact hfacts.fresh hno' id hold

end Step

/-- In every run whose calls follow one another and keep the attempts, every save
of a phase succeeds and the phase is then found under its id. -/
theorem saves_persist_of_attemptsKept (cfg : ServiceConfig) (s : Store)
    (hs : ∀ r ∈ s.phases.rows, r.InRange ∧ r.status ≠ .pending)
    (moves : List ServiceMove) (hok : RunMeets cfg s attemptsKept moves = true) :
    SavesPersist (reach cfg s moves) := by
  have hinv : Pool.SequentialInv RowsInRange RowFacts (reach cfg s moves) := by
    refine sequential_reach_induction attemptsKept ?_ ?_ ?_ hs moves hok
    · intro π call hstart
      simp only [attemptsKept, Bool.and_eq_true] at hstart
      exact hstart.1
    · intro π call hstart _
      simp only [attemptsKept, Bool.and_eq_true] at hstart
      exact ⟨hstart.2, by simp, by simp, by simp, by simp, by simp, by simp, by simp⟩
    · intro π tid choice call op next hist hthread _ hjust hstep hrows hfacts
      simp only [attemptsKept, hthread] at hstep
      exact ⟨hrows.step hfacts hjust, hfacts.step hrows hstep hjust⟩
  intro t ht p hnext
  obtain ⟨i, hi⟩ := List.getElem?_of_mem ht
  unfold nextSave at hnext
  split at hnext
  · next p' next hprog =>
    obtain rfl := Option.some.inj hnext
    have hfacts := hinv.unfinished i t hi (by rw [hprog]; rfl)
    have hjust := justified_next ht hprog
      (show Op.Answers (.phaseSave p') (.ok ()) from trivial)
    exact (persists_of_justified hinv.state hfacts hjust).1
  · cases hnext

def successAndFailure : List ServiceMove :=
  .start (.run { changeID := ⟨1⟩, phaseType := .explore }) ::
    List.replicate 40 (.step 0
      { phaseID := .ok ⟨7⟩
        dispatch := .ok { envelopeRaw := .json (sampleEnvelope .explore .done) } }) ++
  .start (.run { changeID := ⟨1⟩, phaseType := .proposal }) ::
    List.replicate 13 (.step 1 { phaseID := .ok ⟨8⟩, governance := .error "timeout" })

/-- The blocked outcome of the second run is about to be saved, and persists. -/
theorem saves_persist_two_runs :
    saveReport (reach {} (sampleStore .explore) successAndFailure) 1 =
        some ⟨⟨8⟩, .blocked, 1, 3, none⟩ ∧
      SavesPersist (reach {} (sampleStore .explore) successAndFailure) :=
  ⟨by decide +kernel,
    saves_persist_of_attemptsKept {} (sampleStore .explore) (by simp [sampleStore])
      successAndFailure (by decide +kernel)⟩

end SophiaOrchestrator
