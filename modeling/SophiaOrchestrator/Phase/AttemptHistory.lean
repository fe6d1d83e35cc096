import SophiaOrchestrator.Phase.Runs

/-!
# Every run keeps the attempts before it

Each accepted `Run` is meant to add a row with the next number of attempts, and to leave the
rows of the earlier runs as they are.  The number of attempts is read from the latest row and is
also the key under which the new row is saved.  `Run` takes a read that fails for a first
attempt, and then overwrites the row of the first attempt, under the id of that row.
-/

namespace SophiaOrchestrator

open Effects Prog

variable {p q : Phase} {cfg : ServiceConfig} {call : Call} {op : Op} {choice : Choice}
  {s s' : Store} {prior : Except RepoErr Phase}

/-! ## The histories and the condition -/

def Call.runsOrRecovers : Call → Bool
  | .run _ | .recover => true
  | _ => false

def runsInSequence (π : ServicePool) : ServiceMove → Bool
  | .start inbound => inbound.runsOrRecovers && π.idle
  | .step _ _ | .crash => true

def freshIDs (π : ServicePool) : ServiceMove → Bool
  | .step tid choice =>
    match π.threads[tid]?, choice.phaseID with
    | some ⟨_, .call .newPhaseID _, _⟩, .ok pid =>
      π.state.phases.rows.all fun r => decide (r.id ≠ pid)
    | _, _ => true
  | .start _ | .crash => true

/-- Before the call has saved its phase, its read of the prior attempt does not fail while
there is one. -/
def readsPrior (π : ServicePool) : ServiceMove → Bool
  | .step tid choice =>
    match π.threads[tid]? with
    | some ⟨_, .call (.phaseFindByChangeAndType cid pt) _, hist⟩ =>
      (hist.any fun ev => ev.op.savesPhase) || decide (choice.fault = .none) ||
        (π.state.latestPhase cid pt).isNone
    | _ => true
  | .start _ | .crash => true

def keepsAttempts (π : ServicePool) (m : ServiceMove) : Bool :=
  runsInSequence π m && freshIDs π m && readsPrior π m

/-- The row is a further attempt over the table of `s₀`: its id is new, its number of
attempts is one above the highest one of its type, which is zero if there is none, and it is
within the budget of the run. -/
structure NewAttempt (s₀ : Store) (inp : RunPhaseInput) (row : Phase) : Prop where
  changeID : row.changeID = inp.changeID
  pType : row.pType = inp.phaseType
  fresh : ∀ r ∈ s₀.phases.rows, r.id ≠ row.id
  above : ∀ r ∈ s₀.phases.rows, r.changeID = inp.changeID → r.pType = inp.phaseType →
    r.attempts < row.attempts
  next : row.attempts = 1 ∨ ∃ r ∈ s₀.phases.rows, r.changeID = inp.changeID ∧
    r.pType = inp.phaseType ∧ row.attempts = r.attempts + 1
  budget : row.attempts ≤ effectiveBudget inp.retryBudget

namespace NewAttempt

variable {s₀ : Store} {inp : RunPhaseInput} {row row' : Phase}

theorem congr (hnew : NewAttempt s₀ inp row) (hid : row'.id = row.id)
    (hkey : row'.key = row.key) : NewAttempt s₀ inp row' := by
  simp only [Phase.key, Prod.mk.injEq] at hkey
  obtain ⟨hchange, htype, hattempts⟩ := hkey
  refine ⟨hchange.trans hnew.changeID, htype.trans hnew.pType, ?_, ?_, ?_, ?_⟩
  · rw [hid]
    exact hnew.fresh
  · rw [hattempts]
    exact hnew.above
  · rw [hattempts]
    exact hnew.next
  · rw [hattempts]
    exact hnew.budget

theorem key_ne (hnew : NewAttempt s₀ inp row) {r : Phase} (hr : r ∈ s₀.phases.rows)
    (hchange : p.changeID = row.changeID) (htype : p.pType = row.pType)
    (hattempts : row.attempts ≤ p.attempts) : r.key ≠ p.key := by
  intro hkey
  simp only [Phase.key, Prod.mk.injEq] at hkey
  have hlt := hnew.above r hr (hkey.1.trans (hchange.trans hnew.changeID))
    (hkey.2.1.trans (htype.trans hnew.pType))
  omega

end NewAttempt

/-! ## The rows before a run -/

def NonePending (s : Store) : Prop :=
  ∀ r ∈ s.phases.rows, r.status ≠ .pending

theorem not_pending_of_justified {answer : Except RepoErr Unit} {h : History}
    (hjust : Justified cfg call ⟨.phaseSave p, answer⟩ h) : p.status ≠ .pending := by
  have hsettled : ∀ {p₀ h'}, Settles p₀ p h' → p.status ≠ .pending := by
    intro p₀ h' hsettles
    rcases hsettles.status with hst | hst | hst | hst <;> rw [hst] <;> decide
  cases hjust with
  | quiet hquiet => cases hquiet
  | startRun hcall hloaded hvalid hcheck hid hprior hstart hfirst =>
    obtain ⟨-, -, rfl⟩ := Phase.start_eq_ok_iff.mp hstart
    exact fun hpending => nomatch hpending
  | startResume hcall hloaded hresumable hrestart hfirst =>
    obtain ⟨-, -, -, -, -, -, -, hstatus⟩ := resumed_eq_some_ok hrestart
    rw [hstatus]
    decide
  | settle hworking hscheduled hsettles | reject hcall hloaded hopen hsettles hblocked =>
    exact hsettled hsettles
  | recover hcall hloaded hmem => exact fun hpending => nomatch hpending

theorem NonePending.step {hist : History} (hnone : NonePending s)
    (hjust : Justified cfg call ⟨op, (handle op choice s).1⟩ hist) :
    NonePending (handle op choice s).2 := by
  cases hsaves : op.savesPhase with
  | false =>
    unfold NonePending
    rw [handle_phases_of_not_savesPhase hsaves]
    exact hnone
  | true =>
    cases op with
    | phaseSave p =>
      rcases Fault.write_eq choice.fault s (s.savePhase p) with heq | hok
      · exact (congrArg NonePending heq).mpr hnone
      · intro r hr
        rcases Store.mem_of_savePhase hok hr with ⟨hold, -⟩ | ⟨hsaved, -⟩
        · exact hnone r hold
        · have hopen : p.status ≠ .pending := not_pending_of_justified hjust
          rw [hsaved]
          exact hopen
    | _ => cases hsaves

theorem nonePending_reach (hs : NonePending s) (moves : List ServiceMove) :
    NonePending (reach cfg s moves).state := by
  have hstep : ∀ (π : ServicePool) (tid : Nat) (choice : Choice) (call : Call) (op : Op)
      (next : op.Ret → Program Unit) (hist : History),
      π.threads[tid]? = some ⟨call, .call op next, hist⟩ →
      Justified cfg call ⟨op, (handle op choice π.state).1⟩ hist → NonePending π.state →
      NonePending (π.perform handler tid call op next hist choice).state :=
    fun _ _ _ _ _ _ _ _ hjust hinv => hinv.step hjust
  exact reach_invariant hs (fun _ _ hinv => hinv) (fun _ hinv => hinv) hstep moves

/-! ## The table while a run is unfinished -/

/-- The table and the history of an unfinished run, seen from the table of `s₀` in which the
run was started: what the run has read of it, and the one row that the run can have added. -/
structure RunFrame (s₀ : Store) (inp : RunPhaseInput) (hist : History) (s : Store) : Prop where
  fresh : ∀ pid, ⟨.newPhaseID, .ok pid⟩ ∈ hist → ∀ r ∈ s₀.phases.rows, r.id ≠ pid
  free : ⟨.phaseFindRunningByChange inp.changeID, .error .notFound⟩ ∈ hist →
    ∀ r ∈ s₀.phases.rows, r.changeID = inp.changeID → Store.occupies r = false
  prior : NoPhaseSave hist → ∀ answer,
    ⟨.phaseFindByChangeAndType inp.changeID inp.phaseType, answer⟩ ∈ hist →
    answer = s₀.findByChangeAndType inp.changeID inp.phaseType ∨
      (s₀.latestPhase inp.changeID inp.phaseType = none ∧ answer = .error .unavailable)
  unsaved : NoPhaseSave hist → s.phases.rows = s₀.phases.rows
  added : s.phases.rows = s₀.phases.rows ∨
    ∃ row, s.phases.rows = s₀.phases.rows ++ [row] ∧ NewAttempt s₀ inp row
  saved : ∀ p, ⟨.phaseSave p, .ok ()⟩ ∈ hist → ∃ row,
    s.phases.rows = s₀.phases.rows ++ [row] ∧ row.id = p.id ∧ row.key = p.key ∧
      NewAttempt s₀ inp row

namespace RunFrame

variable {s₀ : Store} {inp : RunPhaseInput} {hist : History}

theorem nil (s₀ : Store) (inp : RunPhaseInput) : RunFrame s₀ inp [] s₀ where
  fresh _ hmem := nomatch hmem
  free hmem := nomatch hmem
  prior _ _ hmem := nomatch hmem
  unsaved _ := rfl
  added := .inl rfl
  saved _ hmem := nomatch hmem

theorem isPrefix (hframe : RunFrame s₀ inp hist s) : s₀.phases.rows <+: s.phases.rows := by
  rcases hframe.added with heq | ⟨row, heq, -⟩
  · rw [heq]
  · rw [heq]
    exact List.prefix_append _ _

theorem priorAttempts_spec (hframe : RunFrame s₀ inp hist s) (hnone : NonePending s₀)
    (hfirst : NoPhaseSave hist)
    (hcheck : ⟨.phaseFindRunningByChange inp.changeID, .error .notFound⟩ ∈ hist)
    (hprior : ⟨.phaseFindByChangeAndType inp.changeID inp.phaseType, prior⟩ ∈ hist) :
    (∀ r ∈ s₀.phases.rows, r.changeID = inp.changeID → r.pType = inp.phaseType →
        r.attempts ≤ priorAttempts prior) ∧
      (priorAttempts prior = 0 ∨ ∃ r ∈ s₀.phases.rows, r.changeID = inp.changeID ∧
        r.pType = inp.phaseType ∧ priorAttempts prior = r.attempts) := by
  cases hlatest : s₀.latestPhase inp.changeID inp.phaseType with
  | none =>
    -- There is no earlier attempt, whether or not the read has failed.
    have hempty := Store.latestPhase_eq_none_iff.mp hlatest
    refine ⟨fun r hr hcid hpt => absurd hpt (hempty r hr hcid), .inl ?_⟩
    rcases hframe.prior hfirst _ hprior with heq | ⟨-, heq⟩
    · rw [heq, Store.findByChangeAndType, hlatest]
      rfl
    · rw [heq]
      rfl
  | some latest =>
    obtain ⟨hmem, hcid, hpt⟩ := Store.mem_of_latestPhase hlatest
    have hread : prior = .ok latest := by
      rcases hframe.prior hfirst _ hprior with heq | ⟨hempty, -⟩
      · rw [heq, Store.findByChangeAndType_eq_ok_iff.mpr hlatest]
      · rw [hlatest] at hempty
        cases hempty
    have hattempts : priorAttempts prior = latest.attempts := by
      have hfree := hframe.free hcheck latest hmem hcid
      have hopen := hnone latest hmem
      rw [hread, priorAttempts, if_pos]
      cases hstatus : latest.status <;>
        simp_all [Store.occupies, PhaseStatus.isTerminal]
    rw [hattempts]
    exact ⟨fun r hr hrcid hrpt => Store.attempts_le_of_latestPhase hlatest hr hrcid hrpt,
      .inr ⟨latest, hmem, hcid, hpt, rfl⟩⟩

theorem newAttempt_of_start (hframe : RunFrame s₀ inp hist s) (hnone : NonePending s₀)
    (hfirst : NoPhaseSave hist)
    (hcheck : ⟨.phaseFindRunningByChange inp.changeID, .error .notFound⟩ ∈ hist) {pid : PhaseID}
    (hid : ⟨.newPhaseID, .ok pid⟩ ∈ hist)
    (hprior : ⟨.phaseFindByChangeAndType inp.changeID inp.phaseType, prior⟩ ∈ hist) {now : Time}
    (hstart : (newPhase inp pid prior).start now = .ok p) :
    NewAttempt s₀ inp p := by
  obtain ⟨-, hbudget, rfl⟩ := Phase.start_eq_ok_iff.mp hstart
  obtain ⟨habove, hnext⟩ := hframe.priorAttempts_spec hnone hfirst hcheck hprior
  refine ⟨rfl, rfl, hframe.fresh pid hid, ?_, ?_, hbudget⟩
  · exact fun r hr hcid hpt => Nat.lt_succ_of_le (habove r hr hcid hpt)
  · rcases hnext with hzero | ⟨r, hr, hcid, hpt, heq⟩
    · exact .inl (congrArg Nat.succ hzero)
    · exact .inr ⟨r, hr, hcid, hpt, congrArg Nat.succ heq⟩

theorem rows_of_first_save (hrows : s.phases.rows = s₀.phases.rows) (hnew : NewAttempt s₀ inp p)
    (hsave : s.savePhase p = .ok s') :
    s'.phases.rows = s₀.phases.rows ++ [p.stored] := by
  obtain ⟨-, -, -, -, ⟨⟨r, hr, hkey⟩, -⟩ | ⟨-, -, -, hadded⟩⟩ := Store.savePhase_cases hsave
  · rw [hrows] at hr
    exact absurd hkey (hnew.key_ne hr rfl rfl (Nat.le_refl _))
  · rw [hadded, hrows]

/-- A later save of the run that takes effect changes the row that it has added: a save
under the next number of attempts is refused, because the id is taken. -/
theorem rows_of_later_save {row : Phase} (hrows : s.phases.rows = s₀.phases.rows ++ [row])
    (hnew : NewAttempt s₀ inp row) (hid : row.id = p.id) (hkey : row.key = p.key)
    (hsettles : Settles p q hist) (hsave : s.savePhase q = .ok s') :
    row.key = q.key ∧
      s'.phases.rows = s₀.phases.rows ++ [{ q.stored with id := row.id }] := by
  simp only [Phase.key, Prod.mk.injEq] at hkey
  obtain ⟨hchange, htype, hattempts⟩ := hkey
  have hle : row.attempts ≤ q.attempts := by
    rcases hsettles.attempts with hsame | ⟨hnext, -⟩ <;> omega
  have hold : ∀ r ∈ s₀.phases.rows, r.key ≠ q.key := fun r hr =>
    hnew.key_ne hr (hsettles.changeID.trans hchange.symm) (hsettles.pType.trans htype.symm) hle
  obtain ⟨-, -, -, -, ⟨⟨r, hr, hkey⟩, hsaved⟩ | ⟨-, hfree, -⟩⟩ := Store.savePhase_cases hsave
  · rw [hrows] at hr
    obtain rfl : r = row := by
      rcases List.mem_append.mp hr with hmem | hmem
      · exact absurd hkey (hold r hmem)
      · exact List.mem_singleton.mp hmem
    refine ⟨hkey, ?_⟩
    rw [hsaved, hrows, List.map_append, List.map_singleton, Store.savedRow, if_pos hkey]
    have hkept : s₀.phases.rows.map (Store.savedRow q) = s₀.phases.rows.map id :=
      List.map_congr_left fun r hr => if_neg (hold r hr)
    rw [hkept, List.map_id]
  · have hmem : row ∈ s.phases.rows := by simp [hrows]
    exact absurd (hid.trans hsettles.id.symm) (hfree row hmem)

/-- An operation that saves no phase leaves the table as it is; what it reads, it reads of a
table that still has the earlier rows. -/
theorem step_of_not_savesPhase {π : ServicePool} {tid : Nat} {next : op.Ret → Program Unit}
    (hthread : π.threads[tid]? = some ⟨call, .call op next, hist⟩)
    (hok : keepsAttempts π (.step tid choice) = true) (hsaves : op.savesPhase = false)
    (hframe : RunFrame s₀ inp hist π.state) :
    RunFrame s₀ inp (⟨op, (handle op choice π.state).1⟩ :: hist)
      (handle op choice π.state).2 := by
  simp only [keepsAttempts, Bool.and_eq_true] at hok
  obtain ⟨⟨-, hids⟩, hreads⟩ := hok
  have hphases := handle_phases_of_not_savesPhase hsaves choice π.state
  have hsub : ∀ r ∈ s₀.phases.rows, r ∈ π.state.phases.rows := fun _ hr =>
    hframe.isPrefix.subset hr
  refine ⟨?_, ?_, ?_, ?_, ?_, ?_⟩
  · intro pid hmem
    rcases List.mem_cons.mp hmem with heq | hold
    · obtain ⟨rfl, hret⟩ := event_eq_handle heq
      have hanswer : choice.phaseID = .ok pid := hret.symm
      simp only [freshIDs, hthread, hanswer, List.all_eq_true, decide_eq_true_eq] at hids
      exact fun r hr => hids r (hsub r hr)
    · exact hframe.fresh pid hold
  · intro hmem
    rcases List.mem_cons.mp hmem with heq | hold
    · obtain ⟨rfl, hret⟩ := event_eq_handle heq
      have hnone := Store.findRunningByChange_eq_notFound_iff.mp
        (Fault.read_eq_notFound hret.symm)
      exact fun r hr => hnone r (hsub r hr)
    · exact hframe.free hold
  · intro hfirst answer hmem
    have hfirst' : NoPhaseSave hist := fun ev hev => hfirst ev (List.mem_cons_of_mem _ hev)
    rcases List.mem_cons.mp hmem with heq | hold
    · obtain ⟨rfl, hret⟩ := event_eq_handle heq
      have hany : (hist.any fun ev => ev.op.savesPhase) = false := by
        simpa [NoPhaseSave] using hfirst'
      have hlatest : π.state.latestPhase inp.changeID inp.phaseType =
          s₀.latestPhase inp.changeID inp.phaseType := by
        rw [Store.latestPhase, hframe.unsaved hfirst', Store.latestPhase]
      simp only [readsPrior, hthread, hany, Bool.false_or, Bool.or_eq_true,
        decide_eq_true_eq, Option.isNone_iff_eq_none, hlatest] at hreads
      have hfind : π.state.findByChangeAndType inp.changeID inp.phaseType =
          s₀.findByChangeAndType inp.changeID inp.phaseType := by
        rw [Store.findByChangeAndType, hlatest, Store.findByChangeAndType]
      simp only [handle, hfind] at hret
      cases hfault : choice.fault with
      | none => exact .inl (by rw [hret, hfault]; rfl)
      | before | after =>
        exact .inr ⟨hreads.resolve_left (by simp [hfault]), by rw [hret, hfault]; rfl⟩
    · exact hframe.prior hfirst' answer hold
  · intro hfirst
    rw [hphases]
    exact hframe.unsaved fun ev hev => hfirst ev (List.mem_cons_of_mem _ hev)
  · rw [hphases]
    exact hframe.added
  · intro p hmem
    rw [hphases]
    rcases List.mem_cons.mp hmem with heq | hold
    · obtain ⟨rfl, -⟩ := event_eq_handle heq
      cases hsaves
    · exact hframe.saved p hold

theorem step_of_phaseSave (hnone : NonePending s₀) (hframe : RunFrame s₀ inp hist s)
    (hjust : Justified cfg (.run inp) ⟨.phaseSave q, (handle (.phaseSave q) choice s).1⟩ hist) :
    RunFrame s₀ inp (⟨.phaseSave q, (handle (.phaseSave q) choice s).1⟩ :: hist)
      (handle (.phaseSave q) choice s).2 := by
  have hnot : ¬ NoPhaseSave (⟨.phaseSave q, (handle (.phaseSave q) choice s).1⟩ :: hist) :=
    fun hno => nomatch hno _ List.mem_cons_self
  have hread : ∀ {op answer}, op ≠ .phaseSave q →
      (⟨op, answer⟩ : Event) ∈ ⟨.phaseSave q, (handle (.phaseSave q) choice s).1⟩ :: hist →
      ⟨op, answer⟩ ∈ hist := by
    intro op answer hne hmem
    rcases List.mem_cons.mp hmem with heq | hold
    · exact absurd (congrArg Ev.op heq) hne
    · exact hold
  -- What is left is the table: the row after a save that takes effect, for this phase
  -- and for the ones saved before.
  suffices hrows : ∀ s', s.savePhase q = .ok s' → ∃ row,
      s'.phases.rows = s₀.phases.rows ++ [row] ∧ NewAttempt s₀ inp row ∧
        row.id = q.id ∧ row.key = q.key ∧
        ∀ p, ⟨.phaseSave p, .ok ()⟩ ∈ hist → row.id = p.id ∧ row.key = p.key by
    refine ⟨fun pid hmem => hframe.fresh pid (hread nofun hmem),
      fun hmem => hframe.free (hread nofun hmem), fun hno => absurd hno hnot,
      fun hno => absurd hno hnot, ?_, ?_⟩
    · rcases Fault.write_eq choice.fault s (s.savePhase q) with heq | hok
      · have hstate : (handle (.phaseSave q) choice s).2 = s := heq
        rw [hstate]
        exact hframe.added
      · obtain ⟨row, hadded, hnew, -⟩ := hrows _ hok
        exact .inr ⟨row, hadded, hnew⟩
    · intro p hmem
      rcases List.mem_cons.mp hmem with heq | hold
      · obtain ⟨hop, hret⟩ := event_eq_handle heq
        obtain rfl : q = p := Op.phaseSave.inj hop
        obtain ⟨row, hadded, hnew, hid, hkey, -⟩ := hrows _ (Fault.write_ok hret.symm)
        exact ⟨row, hadded, hid, hkey, hnew⟩
      · rcases Fault.write_eq choice.fault s (s.savePhase q) with heq | hok
        · have hstate : (handle (.phaseSave q) choice s).2 = s := heq
          rw [hstate]
          exact hframe.saved p hold
        · obtain ⟨row, hadded, hnew, -, -, hothers⟩ := hrows _ hok
          exact ⟨row, hadded, (hothers p hold).1, (hothers p hold).2, hnew⟩
  intro s' hsave
  cases hjust with
  | quiet hquiet => cases hquiet
  | startRun hcall hloaded hvalid hcheck hid hprior hstart hfirst =>
    cases hcall
    have hnew := hframe.newAttempt_of_start hnone hfirst hcheck hid hprior hstart
    refine ⟨q.stored, rows_of_first_save (hframe.unsaved hfirst) hnew hsave,
      hnew.congr rfl rfl, rfl, rfl, ?_⟩
    exact fun p hmem => nomatch hfirst _ hmem
  | startResume hcall | reject hcall | recover hcall => cases hcall
  | settle hworking hscheduled hsettles =>
    cases hworking.origin with
    | started inp' hcall hcheck hchange htype hstatus hsaved =>
      obtain ⟨row, hrows, hid, hkey, hnew⟩ := hframe.saved _ hsaved
      obtain ⟨hsame, hafter⟩ := rows_of_later_save hrows hnew hid hkey hsettles hsave
      refine ⟨_, hafter, hnew.congr rfl hsame.symm, hid.trans hsettles.id.symm, rfl, ?_⟩
      intro p' hmem
      obtain ⟨row', hrows', hid', hkey', -⟩ := hframe.saved p' hmem
      obtain rfl : row = row' := by
        have heq := hrows.symm.trans hrows'
        simpa using heq
      exact ⟨hid', hsame.symm.trans hkey'⟩
    | continued id hcall | restarted id p₀ now hcall => cases hcall

end RunFrame

/-! ## Sequences of runs -/

def RepliesScheduled (π : ServicePool) (tid : Nat) (pid : PhaseID) : Prop :=
  ∃ t, π.threads[tid]? = some t ∧ ∃ cid status,
    ⟨.returned (.ok (.scheduled cid pid status)), ()⟩ ∈ t.hist

/-- The table during a run, from the table in which the run was started: the earlier rows are
as they were, and if the run is accepted then there is one more row, under the id of the
reply, which is a further attempt. -/
structure KeepsHistory (s₀ : Store) (inp : RunPhaseInput) (tid : Nat) (π : ServicePool) :
    Prop where
  kept : s₀.phases.rows <+: π.state.phases.rows
  accepted : ∀ pid, RepliesScheduled π tid pid → ∃ row,
    π.state.phases.rows = s₀.phases.rows ++ [row] ∧ row.id = pid ∧ NewAttempt s₀ inp row

theorem during_run (hs : NonePending s) {before : List ServiceMove} {inp : RunPhaseInput}
    {during : List ServiceMove} (hstay : ∀ m ∈ during, (!m.isStart) = true)
    (hok : RunMeets cfg s keepsAttempts (before ++ .start (.run inp) :: during) = true) :
    Pool.OnlyCall (reach cfg s before).threads.length (.run inp)
      (RunFrame (reach cfg s before).state inp)
      (reach cfg s (before ++ .start (.run inp) :: during)) := by
  rw [RunMeets, Pool.meets_append, Bool.and_eq_true] at hok
  have hidle : (reach cfg s before).idle = true := by
    have hmove := (Bool.and_eq_true_iff.mp hok.2).1
    simp only [keepsAttempts, runsInSequence, Call.runsOrRecovers, Bool.and_eq_true] at hmove
    exact hmove.1.1.2
  have hnone : NonePending (reach cfg s before).state := nonePending_reach hs before
  have hkeeps := Pool.run_keeps (H := handler) handle_answers (main_justified cfg)
    (π := (Pool.init s : ServicePool)) (by simp) before
  have hrun : reach cfg s (before ++ .start (.run inp) :: during) =
      (reach cfg s before).run handler (main cfg) (.start (.run inp) :: during) :=
    Pool.run_append _ _ _
  rw [hrun]
  refine Pool.during_induction (I := Good cfg) handle_answers (main_justified cfg) hkeeps hidle
    (RunFrame.nil _ inp) (fun _ _ => id) ?_ during hstay hok.2
  intro π choice op next hist hthread _ hjust hmove hframe
  cases hsaves : op.savesPhase with
  | false => exact hframe.step_of_not_savesPhase hthread hmove hsaves
  | true =>
    cases op with
    | phaseSave q => exact hframe.step_of_phaseSave hnone hjust
    | _ => cases hsaves

/-- In every sequence of runs and recovery sweeps, with crashes and failing database calls,
in which no read of the prior attempt fails while there is one: at every moment of a run the
rows of the earlier runs are unchanged, and an accepted run has added its own row, with a
fresh id and the next attempt of its type within its budget. -/
theorem history_kept (cfg : ServiceConfig) (s : Store) (hs : NonePending s)
    (before : List ServiceMove) (inp : RunPhaseInput) (during : List ServiceMove)
    (hstay : ∀ m ∈ during, (!m.isStart) = true)
    (hok : RunMeets cfg s keepsAttempts (before ++ .start (.run inp) :: during) = true) :
    KeepsHistory (reach cfg s before).state inp (reach cfg s before).threads.length
      (reach cfg s (before ++ .start (.run inp) :: during)) := by
  obtain ⟨t, ht, hcall, hframe⟩ := (during_run hs hstay hok).self
  refine ⟨hframe.isPrefix, ?_⟩
  rintro pid ⟨t', ht', cid, status, hmem⟩
  obtain rfl : t = t' := Option.some.inj (ht.symm.trans ht')
  obtain ⟨past, hsuffix⟩ := suffix_of_mem hmem
  cases justified_of_suffix (List.mem_of_getElem? ht) hsuffix with
  | quiet hquiet => cases hquiet
  | scheduled hworking =>
    rw [hcall] at hworking
    cases hworking.origin with
    | started inp' hrun hcheck hchange htype hstatus hsaved =>
      obtain ⟨row, hrows, hid, -, hnew⟩ := hframe.saved _
        (hsuffix.subset (List.mem_cons_of_mem _ hsaved))
      exact ⟨row, hrows, hid, hnew⟩
    | continued id hrun | restarted id p₀ now hrun => cases hrun

/-! ## Concrete runs -/

def exploreBlocked : List ServiceMove :=
  .start (.run { changeID := ⟨1⟩, phaseType := .explore }) ::
    List.replicate 40 (.step 0 { phaseID := .ok ⟨7⟩ })

def exploreAgain (fault : Fault) : List ServiceMove :=
  List.replicate 4 (.step 1 { phaseID := .ok ⟨8⟩ }) ++ .step 1 { fault := fault } ::
    List.replicate 40 (.step 1
      { dispatch := .ok { envelopeRaw := .json (sampleEnvelope .explore .done) } })

theorem history_kept_explore :
    (reach {} (sampleStore .init) (exploreBlocked ++
        .start (.run { changeID := ⟨1⟩, phaseType := .explore }) ::
          exploreAgain .none)).state.phases.rows.map
        (fun r => (r.id, r.attempts, r.status)) =
      [(⟨7⟩, 1, .blocked), (⟨8⟩, 2, .done)] ∧
    KeepsHistory (reach {} (sampleStore .init) exploreBlocked).state
      { changeID := ⟨1⟩, phaseType := .explore }
      (reach {} (sampleStore .init) exploreBlocked).threads.length
      (reach {} (sampleStore .init) (exploreBlocked ++
        .start (.run { changeID := ⟨1⟩, phaseType := .explore }) :: exploreAgain .none)) :=
  ⟨by decide +kernel, history_kept {} (sampleStore .init) (by simp [NonePending, sampleStore])
    exploreBlocked { changeID := ⟨1⟩, phaseType := .explore } (exploreAgain .none)
    (by decide +kernel) (by decide +kernel)⟩

def scheduledIDs (π : ServicePool) : List PhaseID :=
  π.threads.flatMap fun t => t.hist.filterMap fun ev =>
    match ev.op with
    | .returned (.ok (.scheduled _ pid _)) => some pid
    | _ => none

/-- When the read of the prior attempt fails, the next run of explore is accepted as phase 8,
but its result is in the row of phase 7, whose blocked attempt is lost. -/
theorem first_attempt_overwritten :
    (reach {} (sampleStore .init) exploreBlocked).state.phases.rows.map
        (fun r => (r.id, r.attempts, r.status)) = [(⟨7⟩, 1, .blocked)] ∧
    scheduledIDs (reach {} (sampleStore .init) (exploreBlocked ++
        .start (.run { changeID := ⟨1⟩, phaseType := .explore }) :: exploreAgain .before)) =
      [⟨7⟩, ⟨8⟩] ∧
    (reach {} (sampleStore .init) (exploreBlocked ++
        .start (.run { changeID := ⟨1⟩, phaseType := .explore }) ::
          exploreAgain .before)).state.phases.rows.map
        (fun r => (r.id, r.attempts, r.status)) = [(⟨7⟩, 1, .done)] := by
  decide +kernel

end SophiaOrchestrator
