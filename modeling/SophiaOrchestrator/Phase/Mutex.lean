import SophiaOrchestrator.Phase.Runs

/-!
# One phase execution at a time

`Run` is meant to be mutually exclusive on a change: it locks the change, looks
for a running phase and starts its own.  The advisory lock is released by the
end of its own statement, so nothing keeps two calls out of the window between
the look-up and the save, and `Resume` does not look at all.
-/

namespace SophiaOrchestrator

open Effects Prog

variable {h hist : History} {ev : Event} {cid : ChangeID} {call : Call} {p : Phase}
  {cfg : ServiceConfig} {s s' : Store} {op : Op} {π : ServicePool} {tid : Nat} {choice : Choice}
  {next : op.Ret → Program Unit}

/-- The answered operation lets its call go on to work on a phase of the change:
the look-up of `Run` found no running phase, or `Resume` loaded a phase it may
resume. -/
def admits (cid : ChangeID) : Event → Bool
  | ⟨.phaseFindRunningByChange cid', .error .notFound⟩ => decide (cid' = cid)
  | ⟨.phaseFindByID _, .ok p⟩ => decide (p.changeID = cid) && resumable p
  | _ => false

def takesBack : Event → Bool
  | ⟨.phaseFindByID _, .ok p⟩ => decide (p.status = .interrupted ∨ p.status = .blocked)
  | _ => false

def startsExecution (cid : ChangeID) : Event → Bool
  | ⟨.returned (.ok (.scheduled cid' _ _)), _⟩ => decide (cid' = cid)
  | _ => false

def isAdmitted (cid : ChangeID) (t : ServiceThread) : Bool :=
  t.hist.any (admits cid) && !t.prog.isDone

def inProgress (cid : ChangeID) (t : ServiceThread) : Bool :=
  t.hist.any (startsExecution cid) && !t.prog.isDone

def noRunning (cid : ChangeID) (s : Store) : Bool :=
  s.phases.rows.all fun p => !decide (p.changeID = cid ∧ p.status = .running)

/-- At most one execution of the change is in progress, and at most one of its
rows is running. -/
structure Exclusive (cid : ChangeID) (π : ServicePool) : Prop where
  execution : ∀ (i j : Nat) (ti tj : ServiceThread), π.threads[i]? = some ti →
    π.threads[j]? = some tj →
    inProgress cid ti = true → inProgress cid tj = true → i = j
  running : ∀ p ∈ π.state.phases.rows, ∀ q ∈ π.state.phases.rows, p.changeID = cid →
    q.changeID = cid → p.status = .running → q.status = .running → p = q

/-- The calls are runs and resumes, and a step that admits its call to the change
is taken while no other admitted call of the change is unfinished and, if the
call takes a phase back, while no row of the change is running. -/
def admittedAlone (cid : ChangeID) (π : ServicePool) : ServiceMove → Bool
  | .start (.run _) | .start (.resume _) | .crash => true
  | .start _ => false
  | .step tid choice =>
    match π.threads[tid]? with
    | some ⟨_, .call op _, _⟩ =>
      !admits cid ⟨op, (handle op choice π.state).1⟩ ||
        ((π.threads.eraseIdx tid).all fun t => !isAdmitted cid t) &&
          (!takesBack ⟨op, (handle op choice π.state).1⟩ || noRunning cid π.state)
    | _ => true

/-- Two runs of the sample change.  Both look for a running phase before either
of them has saved its own, and both are then scheduled. -/
def interleavedRuns : List ServiceMove :=
  [.start (.run { changeID := ⟨1⟩, phaseType := .explore }),
    .start (.run { changeID := ⟨1⟩, phaseType := .proposal })] ++
  List.replicate 4 (.step 0 { phaseID := .ok ⟨7⟩ }) ++
  List.replicate 4 (.step 1 { phaseID := .ok ⟨8⟩ }) ++
  List.replicate 6 (.step 0 { phaseID := .ok ⟨7⟩ }) ++
  List.replicate 6 (.step 1 { phaseID := .ok ⟨8⟩ })

/-- Two interleaved runs of one change both execute, and both of their rows are
running. -/
theorem two_executions_of_one_change :
    (reach {} (sampleStore .explore) interleavedRuns).threads.map (inProgress ⟨1⟩) =
        [true, true] ∧
      (reach {} (sampleStore .explore) interleavedRuns).state.phases.rows.map
          (fun p => (p.id, p.changeID, p.status)) =
        [(⟨7⟩, ⟨1⟩, .running), (⟨8⟩, ⟨1⟩, .running)] ∧
      ¬ Exclusive ⟨1⟩ (reach {} (sampleStore .explore) interleavedRuns) := by
  have hthreads : (reach {} (sampleStore .explore) interleavedRuns).threads.map
      (inProgress ⟨1⟩) = [true, true] := by decide +kernel
  refine ⟨hthreads, by decide +kernel, ?_⟩
  intro hexclusive
  have hat : ∀ k < 2, ∃ t,
      (reach {} (sampleStore .explore) interleavedRuns).threads[k]? = some t ∧
        inProgress ⟨1⟩ t = true := by
    intro k hk
    have hmap := congrArg (fun l => l[k]?) hthreads
    simp only [List.getElem?_map] at hmap
    obtain ⟨t, ht, htrue⟩ := Option.map_eq_some_iff.mp
      (hmap.trans (show [true, true][k]? = some true by
        match k, hk with
        | 0, _ => rfl
        | 1, _ => rfl))
    exact ⟨t, ht, htrue⟩
  obtain ⟨t₀, ht₀, h₀⟩ := hat 0 (by decide)
  obtain ⟨t₁, ht₁, h₁⟩ := hat 1 (by decide)
  exact absurd (hexclusive.execution 0 1 t₀ t₁ ht₀ ht₁ h₀ h₁) (by decide)

/-! ## Reading the justifications -/

def claimsRow (cid : ChangeID) : Event → Bool
  | ⟨.phaseFindRunningByChange cid', .error .notFound⟩ => decide (cid' = cid)
  | ⟨.phaseFindByID id, .ok p⟩ =>
    admits cid ⟨.phaseFindByID id, .ok p⟩ && takesBack ⟨.phaseFindByID id, .ok p⟩
  | _ => false

theorem any_of_mem {f : Event → Bool} (hev : ev ∈ h) (hf : f ev = true) : h.any f = true :=
  List.any_eq_true.mpr ⟨ev, hev, hf⟩

theorem admits_of_claimsRow (h : claimsRow cid ev = true) : admits cid ev = true := by
  obtain ⟨op, ret⟩ := ev
  cases op with
  | phaseFindRunningByChange cid' =>
    rcases ret with (_ | _ | _ | _ | _) | running <;> exact h
  | phaseFindByID id =>
    match ret with
    | .ok p =>
      simp only [claimsRow, Bool.and_eq_true] at h
      exact h.1
    | .error err => cases h
  | _ => cases h

theorem Working.admitted {c : Change} (hworking : Working call c p h) :
    h.any (admits p.changeID) = true := by
  cases hworking.origin with
  | started inp hcall hcheck hchange htype hstatus hsaved =>
    exact any_of_mem hcheck (by simp [admits, hchange])
  | continued id hcall hloaded hresumable hkept =>
    exact any_of_mem hloaded (by simp [admits, hresumable])
  | restarted id p₀ now hcall hloaded hresumable hrestart hsaved =>
    obtain ⟨-, -, -, hchange, -⟩ := resumed_eq_some_ok hrestart
    exact any_of_mem hloaded (by simp [admits, hresumable, hchange])

theorem admits_of_startsExecution (hjust : ∀ ev past, ev :: past <:+ h → Justified cfg call ev past)
    (hstarted : h.any (startsExecution cid) = true) : h.any (admits cid) = true := by
  obtain ⟨ev, hev, hstart⟩ := List.any_eq_true.mp hstarted
  obtain ⟨past, hsuffix⟩ := suffix_of_mem hev
  have hjustified := hjust ev past hsuffix
  cases hjustified with
  | @scheduled c p _ hworking =>
    have hcid : p.changeID = cid := by simpa [startsExecution] using hstart
    obtain ⟨ev', hev', hadmits⟩ := List.any_eq_true.mp hworking.admitted
    exact any_of_mem (hsuffix.subset (List.mem_cons_of_mem _ hev')) (hcid ▸ hadmits)
  | quiet hquiet =>
    obtain ⟨op, ret⟩ := ev
    cases op <;> first | cases hstart | cases hquiet
  | _ => cases hstart

/-- A `Run` or `Resume` saves a running row only as its first save and after it
claimed the row, and any other row only after it was admitted. -/
theorem phaseSave_cases {r : Except RepoErr Unit}
    (hcall : (∃ inp, call = .run inp) ∨ ∃ id, call = .resume id)
    (hjust : Justified cfg call ⟨.phaseSave p, r⟩ h) :
    h.any (admits p.changeID) = true ∧
      (p.status ≠ .running ∨
        (NoPhaseSave h ∧ h.any (claimsRow p.changeID) = true)) := by
  cases hjust with
  | quiet hquiet => cases hquiet
  | startRun hrun hloaded hvalid hcheck hid hprior hstart hfirst =>
    obtain ⟨-, -, rfl⟩ := Phase.start_eq_ok_iff.mp hstart
    exact ⟨any_of_mem hcheck (by simp [admits, newPhase]),
      .inr ⟨hfirst, any_of_mem hcheck (by simp [claimsRow, newPhase])⟩⟩
  | @startResume id p₀ _ now _ _ hresume hloaded hresumable hrestart hfirst =>
    obtain ⟨hcause, -, -, hchange, -⟩ := resumed_eq_some_ok hrestart
    have hback : takesBack ⟨.phaseFindByID id, .ok p₀⟩ = true := by
      rcases hcause with hinterrupted | ⟨hblocked, -⟩
      · simp [takesBack, hinterrupted]
      · simp [takesBack, hblocked]
    exact ⟨any_of_mem hloaded (by simp [admits, hresumable, hchange]),
      .inr ⟨hfirst, any_of_mem hloaded (by
        simp [claimsRow, admits, hresumable, hchange, hback])⟩⟩
  | settle hworking hscheduled hsettles =>
    refine ⟨hsettles.changeID ▸ hworking.admitted, .inl ?_⟩
    rcases hsettles.status with hst | hst | hst | hst <;> rw [hst] <;> decide
  | reject hreject hloaded hopen hsettles hblocked =>
    rcases hcall with ⟨inp, rfl⟩ | ⟨id, rfl⟩ <;> cases hreject
  | recover hrecover hloaded hmem =>
    rcases hcall with ⟨inp, rfl⟩ | ⟨id, rfl⟩ <;> cases hrecover

/-! ## The invariant -/

theorem noRunning_iff :
    noRunning cid s = true ↔
      ∀ p ∈ s.phases.rows, p.changeID = cid → p.status ≠ .running := by
  simp only [noRunning, List.all_eq_true, Bool.not_eq_true', decide_eq_false_iff_not,
    not_and, ne_eq]

theorem noRunning_of_check {fault : Fault}
    (h : fault.read (s.findRunningByChange cid) = .error .notFound) :
    noRunning cid s = true := by
  rw [noRunning_iff]
  intro p hp hcid hstatus
  have hfree := Store.findRunningByChange_eq_notFound_iff.mp (Fault.read_eq_notFound h) p hp hcid
  simp [Store.occupies, hstatus] at hfree

/-- The invariant of the runs: at most one admitted call is unfinished, at most
one row is running, and an admitted call that may still write a running row
finds none. -/
structure MutexInv (cid : ChangeID) (π : ServicePool) : Prop where
  calls : ∀ t ∈ π.threads, (∃ inp, t.call = .run inp) ∨ ∃ id, t.call = .resume id
  alone : ∀ (i j : Nat) (ti tj : ServiceThread), π.threads[i]? = some ti →
    π.threads[j]? = some tj → isAdmitted cid ti = true → isAdmitted cid tj = true → i = j
  running : ∀ p ∈ π.state.phases.rows, ∀ q ∈ π.state.phases.rows, p.changeID = cid →
    q.changeID = cid → p.status = .running → q.status = .running → p = q
  claimed : ∀ (i : Nat) (t : ServiceThread), π.threads[i]? = some t →
    t.prog.isDone = false → t.hist.any (claimsRow cid) = true → NoPhaseSave t.hist →
    noRunning cid π.state = true

theorem isAdmitted_of_perform {answer : op.Ret} (hquiet : admits cid ⟨op, answer⟩ = false)
    (h : isAdmitted cid ⟨call, next answer, ⟨op, answer⟩ :: hist⟩ = true) :
    isAdmitted cid ⟨call, .call op next, hist⟩ = true := by
  simp only [isAdmitted, List.any_cons, hquiet, Bool.false_or, Bool.and_eq_true,
    isDone_call, Bool.not_false] at h ⊢
  exact ⟨h.1, trivial⟩

theorem alone_of_admits (hthread : π.threads[tid]? = some ⟨call, .call op next, hist⟩)
    (hok : admittedAlone cid π (.step tid choice) = true)
    (hadmits : admits cid ⟨op, (handle op choice π.state).1⟩ = true) :
    (∀ (j : Nat) (tj : ServiceThread), π.threads[j]? = some tj → j ≠ tid →
        isAdmitted cid tj = false) ∧
      (takesBack ⟨op, (handle op choice π.state).1⟩ = true →
        noRunning cid π.state = true) := by
  simp only [admittedAlone, hthread, hadmits, Bool.not_true, Bool.false_or,
    Bool.and_eq_true, List.all_eq_true, Bool.not_eq_true', Bool.or_eq_true] at hok
  refine ⟨?_, ?_⟩
  · intro j tj hj hne
    exact hok.1 tj (List.mem_eraseIdx_iff_getElem?.mpr ⟨j, hne, hj⟩)
  · intro hback
    rcases hok.2 with hnot | hnone
    · rw [hback] at hnot
      cases hnot
    · exact hnone

theorem noRunning_of_claimsRow (hthread : π.threads[tid]? = some ⟨call, .call op next, hist⟩)
    (hok : admittedAlone cid π (.step tid choice) = true)
    (hclaims : claimsRow cid ⟨op, (handle op choice π.state).1⟩ = true) :
    noRunning cid π.state = true := by
  have hback := (alone_of_admits hthread hok (admits_of_claimsRow hclaims)).2
  cases op with
  | phaseFindRunningByChange cid' =>
    have hcheck : ∀ answer, answer = choice.fault.read (π.state.findRunningByChange cid') →
        claimsRow cid ⟨.phaseFindRunningByChange cid', answer⟩ = true →
        noRunning cid π.state = true := by
      intro answer hanswer hclaims'
      match answer, hanswer with
      | .error .notFound, hanswer =>
        obtain rfl : cid' = cid := by simpa [claimsRow] using hclaims'
        exact noRunning_of_check hanswer.symm
      | .ok _, _ => cases hclaims'
      | .error .uniqueViolation, _ => cases hclaims'
      | .error .foreignKeyViolation, _ => cases hclaims'
      | .error .outOfRange, _ => cases hclaims'
      | .error .unavailable, _ => cases hclaims'
    exact hcheck _ rfl hclaims
  | phaseFindByID id =>
    have hloaded : ∀ answer, claimsRow cid ⟨.phaseFindByID id, answer⟩ = true →
        takesBack ⟨.phaseFindByID id, answer⟩ = true := by
      intro answer hclaims'
      cases answer with
      | error err => cases hclaims'
      | ok p =>
        simp only [claimsRow, Bool.and_eq_true] at hclaims'
        exact hclaims'.2
    exact hback (hloaded _ hclaims)
  | _ => cases hclaims

theorem noRunning_congr (h : s'.phases = s.phases) :
    noRunning cid s' = noRunning cid s := by
  rw [noRunning, noRunning, h]

/-- The save of a row keeps at most one row running, if no row was running when
the saved row is. -/
theorem running_of_savePhase (hsave : s.savePhase p = .ok s')
    (hold : ∀ a ∈ s.phases.rows, ∀ b ∈ s.phases.rows, a.changeID = cid →
      b.changeID = cid → a.status = .running → b.status = .running → a = b)
    (hclaim : p.changeID = cid → p.status = .running → noRunning cid s = true) :
    ∀ a ∈ s'.phases.rows, ∀ b ∈ s'.phases.rows, a.changeID = cid → b.changeID = cid →
      a.status = .running → b.status = .running → a = b := by
  have hnew : ∀ {r : Phase}, r = { p.stored with id := r.id } → r.changeID = cid →
      r.status = .running → noRunning cid s = true := by
    intro r hr hcid hrun
    rw [hr] at hcid hrun
    exact hclaim hcid hrun
  intro a ha b hb hacid hbcid harun hbrun
  rcases Store.mem_of_savePhase hsave ha with ⟨ha, -⟩ | ⟨hra, -⟩
  · rcases Store.mem_of_savePhase hsave hb with ⟨hb, -⟩ | ⟨hrb, -⟩
    · exact hold a ha b hb hacid hbcid harun hbrun
    · exact absurd harun (noRunning_iff.mp (hnew hrb hbcid hbrun) a ha hacid)
  · rcases Store.mem_of_savePhase hsave hb with ⟨hb, -⟩ | ⟨hrb, -⟩
    · exact absurd hbrun (noRunning_iff.mp (hnew hra hacid harun) b hb hbcid)
    · have hkey : a.key = b.key := by
        rw [hra, hrb]
        rfl
      exact s'.phases.eq_of_target_eq ha hb hkey

theorem noRunning_of_savePhase_ne (hsave : s.savePhase p = .ok s') (hne : p.changeID ≠ cid)
    (h : noRunning cid s = true) : noRunning cid s' = true := by
  rw [noRunning_iff] at h ⊢
  intro r hr hcid
  rcases Store.mem_of_savePhase hsave hr with ⟨hr, -⟩ | ⟨hrp, -⟩
  · exact h r hr hcid
  · refine absurd ?_ hne
    rw [← hcid, hrp]
    rfl

section Preservation

theorem MutexInv.start (hinv : MutexInv cid π) (hok : admittedAlone cid π (.start call) = true) :
    MutexInv cid { π with threads := π.threads ++ [Thread.spawn (main cfg) call] } where
  calls t ht := by
    rcases List.mem_append.mp ht with hold | hnew
    · exact hinv.calls t hold
    · rw [List.mem_singleton.mp hnew]
      cases call with
      | run inp => exact .inl ⟨inp, rfl⟩
      | resume id => exact .inr ⟨id, rfl⟩
      | _ => cases hok
  alone i j ti tj hi hj hai haj := by
    rcases Pool.start_getElem?_cases hi with hi | rfl
    · rcases Pool.start_getElem?_cases hj with hj | rfl
      · exact hinv.alone i j ti tj hi hj hai haj
      · cases haj
    · cases hai
  running := hinv.running
  claimed i t hi hdone hclaims hfirst := by
    rcases Pool.start_getElem?_cases hi with hi | rfl
    · exact hinv.claimed i t hi hdone hclaims hfirst
    · cases hclaims

theorem MutexInv.crash (hinv : MutexInv cid π) :
    MutexInv cid { π with threads := π.threads.map Thread.stop } where
  calls t ht := by
    obtain ⟨t₀, ht₀, rfl⟩ := List.mem_map.mp ht
    exact hinv.calls t₀ ht₀
  alone i j ti tj hi hj hai haj := by
    obtain ⟨t₀, ht₀, rfl⟩ := List.mem_map.mp (List.mem_of_getElem? hi)
    simp [isAdmitted] at hai
  running := hinv.running
  claimed i t hi hdone hclaims hfirst := by
    obtain ⟨t₀, ht₀, rfl⟩ := List.mem_map.mp (List.mem_of_getElem? hi)
    cases hdone

theorem phases_handle_cases (op : Op) (choice : Choice) (s : Store) :
    (handle op choice s).2.phases = s.phases ∨
      ∃ p, op = .phaseSave p ∧ s.savePhase p = .ok (handle op choice s).2 := by
  cases hsaves : op.savesPhase with
  | false => exact .inl (handle_phases_of_not_savesPhase hsaves choice s)
  | true =>
    cases op with
    | phaseSave p =>
      rcases Fault.write_eq choice.fault s (s.savePhase p) with heq | hsaved
      · exact .inl (congrArg Store.phases heq)
      · exact .inr ⟨p, rfl, hsaved⟩
    | _ => cases hsaves

section Step

variable (hinv : MutexInv cid π) (hthread : π.threads[tid]? = some ⟨call, .call op next, hist⟩)
  (hjust : Justified cfg call ⟨op, (handle op choice π.state).1⟩ hist)
  (hok : admittedAlone cid π (.step tid choice) = true)

include hinv hthread

include hok in
theorem MutexInv.not_admitted {j : Nat} {tj : ServiceThread} (hj : π.threads[j]? = some tj)
    (hne : j ≠ tid) (haj : isAdmitted cid tj = true) :
    isAdmitted cid ⟨call, next (handle op choice π.state).1,
      ⟨op, (handle op choice π.state).1⟩ :: hist⟩ = false := by
  by_contra hnew
  rw [Bool.not_eq_false] at hnew
  cases hadmits : admits cid ⟨op, (handle op choice π.state).1⟩ with
  | true =>
    have hnone := (alone_of_admits hthread hok hadmits).1 j tj hj hne
    rw [haj] at hnone
    cases hnone
  | false =>
    exact hne (hinv.alone j tid tj _ hj hthread haj (isAdmitted_of_perform hadmits hnew))

include hok in
theorem MutexInv.alone_perform {i j : Nat} {ti tj : ServiceThread}
    (hi : (π.perform handler tid call op next hist choice).threads[i]? = some ti)
    (hj : (π.perform handler tid call op next hist choice).threads[j]? = some tj)
    (hai : isAdmitted cid ti = true) (haj : isAdmitted cid tj = true) : i = j := by
  rcases Pool.perform_getElem?_cases hi with ⟨rfl, rfl⟩ | ⟨hni, hi₀⟩
  · rcases Pool.perform_getElem?_cases hj with ⟨rfl, -⟩ | ⟨hnj, hj₀⟩
    · rfl
    · exact absurd (hinv.not_admitted hthread hok hj₀ hnj haj)
        (by rw [handler_run] at hai; simp [hai])
  · rcases Pool.perform_getElem?_cases hj with ⟨rfl, rfl⟩ | ⟨hnj, hj₀⟩
    · exact absurd (hinv.not_admitted hthread hok hi₀ hni hai)
        (by rw [handler_run] at haj; simp [haj])
    · exact hinv.alone i j ti tj hi₀ hj₀ hai haj

include hjust in
/-- A row that is saved as running was claimed when no row was running. -/
theorem MutexInv.running_perform :
    ∀ p ∈ (handle op choice π.state).2.phases.rows, ∀ q ∈ (handle op choice π.state).2.phases.rows,
      p.changeID = cid → q.changeID = cid → p.status = .running → q.status = .running → p = q := by
  rcases phases_handle_cases op choice π.state with hsame | ⟨p, rfl, hsaved⟩
  · rw [hsame]
    exact hinv.running
  · refine running_of_savePhase hsaved hinv.running ?_
    rintro rfl hrun
    rcases (phaseSave_cases (hinv.calls _ (List.mem_of_getElem? hthread)) hjust).2 with
      hnot | ⟨hfirst, hclaims⟩
    · exact absurd hrun hnot
    · exact hinv.claimed tid _ hthread rfl hclaims hfirst

include hjust in
/-- The claim of another call outlasts the step: two admitted calls of the change would be
unfinished at once if the step saved a row of it. -/
theorem MutexInv.claimed_other {i : Nat} {t : ServiceThread} (hi : π.threads[i]? = some t)
    (hne : i ≠ tid) (hdone : t.prog.isDone = false) (hclaims : t.hist.any (claimsRow cid) = true)
    (hfirst : NoPhaseSave t.hist) : noRunning cid (handle op choice π.state).2 = true := by
  have hold := hinv.claimed i t hi hdone hclaims hfirst
  rcases phases_handle_cases op choice π.state with hsame | ⟨p, rfl, hsaved⟩
  · exact (noRunning_congr hsame).trans hold
  · refine noRunning_of_savePhase_ne hsaved ?_ hold
    rintro rfl
    obtain ⟨ev, hev, hclaim⟩ := List.any_eq_true.mp hclaims
    have hother : isAdmitted p.changeID t = true := by
      simp only [isAdmitted, hdone, Bool.not_false, Bool.and_true]
      exact any_of_mem hev (admits_of_claimsRow hclaim)
    have hself : isAdmitted p.changeID ⟨call, .call (.phaseSave p) next, hist⟩ = true := by
      simp [isAdmitted,
        (phaseSave_cases (hinv.calls _ (List.mem_of_getElem? hthread)) hjust).1]
    exact hne (hinv.alone i tid t _ hi hthread hother hself)

include hjust hok in
theorem MutexInv.claimed_perform {i : Nat} {t : ServiceThread}
    (hi : (π.perform handler tid call op next hist choice).threads[i]? = some t)
    (hdone : t.prog.isDone = false) (hclaims : t.hist.any (claimsRow cid) = true)
    (hfirst : NoPhaseSave t.hist) : noRunning cid (handle op choice π.state).2 = true := by
  rcases Pool.perform_getElem?_cases hi with ⟨rfl, rfl⟩ | ⟨hni, hi₀⟩
  · have hsaves : op.savesPhase = false := hfirst _ List.mem_cons_self
    refine (noRunning_congr (handle_phases_of_not_savesPhase hsaves choice π.state)).trans ?_
    rw [List.any_cons, Bool.or_eq_true] at hclaims
    rcases hclaims with hnow | hbefore
    · exact noRunning_of_claimsRow hthread hok hnow
    · exact hinv.claimed _ _ hthread rfl hbefore fun ev hev =>
        hfirst ev (List.mem_cons_of_mem _ hev)
  · exact hinv.claimed_other hthread hjust hi₀ hni hdone hclaims hfirst

include hjust hok in
theorem MutexInv.step : MutexInv cid (π.perform handler tid call op next hist choice) where
  calls t ht := by
    rcases List.mem_or_eq_of_mem_set ht with hold | rfl
    · exact hinv.calls t hold
    · exact (hinv.calls _ (List.mem_of_getElem? hthread) :)
  alone _ _ _ _ := hinv.alone_perform hthread hok
  running := hinv.running_perform hthread hjust
  claimed _ _ := hinv.claimed_perform hthread hjust hok

end Step

end Preservation

/-- In every run in which calls are admitted alone, at most one execution of the
change is in progress and at most one of its rows is running. -/
theorem exclusive_of_admittedAlone (cfg : ServiceConfig) (cid : ChangeID) (s : Store)
    (hs : ∀ p ∈ s.phases.rows, ∀ q ∈ s.phases.rows, p.changeID = cid → q.changeID = cid →
      p.status = .running → q.status = .running → p = q)
    (moves : List ServiceMove)
    (hok : RunMeets cfg s (admittedAlone cid) moves = true) :
    Exclusive cid (reach cfg s moves) := by
  have hinv : MutexInv cid (reach cfg s moves) := by
    refine reach_induction (admittedAlone cid) ?_ ?_ ?_ ?_ moves hok
    · exact ⟨by simp, by simp, hs, by simp⟩
    · intro π call hstart hinv
      exact hinv.start hstart
    · intro π _ hinv
      exact hinv.crash
    · intro π tid choice call op next hist hthread _ hjust hstep hinv
      exact hinv.step hthread hjust hstep
  refine ⟨?_, hinv.running⟩
  intro i j ti tj hi hj hpi hpj
  have hadmitted : ∀ (k : Nat) (t : ServiceThread),
      (reach cfg s moves).threads[k]? = some t → inProgress cid t = true →
      isAdmitted cid t = true := by
    intro k t hk hprogress
    simp only [inProgress, isAdmitted, Bool.and_eq_true] at hprogress ⊢
    exact ⟨admits_of_startsExecution
      (fun _ _ hsuffix => justified_of_suffix (List.mem_of_getElem? hk) hsuffix)
      hprogress.1, hprogress.2⟩
  exact hinv.alone i j ti tj hi hj (hadmitted i ti hi hpi) (hadmitted j tj hj hpj)

/-- The same two runs, the second one started after the first was scheduled: its
look-up finds the running phase and it is refused. -/
theorem exclusive_runs_in_sequence :
    Exclusive ⟨1⟩ (reach {} (sampleStore .explore)
      (.start (.run { changeID := ⟨1⟩, phaseType := .explore }) ::
        List.replicate 10 (.step 0 { phaseID := .ok ⟨7⟩ }) ++
        .start (.run { changeID := ⟨1⟩, phaseType := .proposal }) ::
        List.replicate 4 (.step 1 { phaseID := .ok ⟨8⟩ }))) :=
  exclusive_of_admittedAlone {} ⟨1⟩ (sampleStore .explore) (by simp [sampleStore]) _
    (by decide +kernel)

end SophiaOrchestrator
