import SophiaOrchestrator.Phase.ChangeWrites

/-!
# An aborted change and the runs in flight

`Abort` and a phase run both load the change, modify their copy and save the
whole row.  A run keeps the copy it loaded at its start, so a run in flight that
advances after an `Abort` writes the status `active` back.
-/

namespace SophiaOrchestrator

open Effects Prog

variable {cid : ChangeID} {t : ServiceThread} {call : Call} {c c' : Change} {h : History}
  {s s' : Store} {cfg : ServiceConfig}

def Call.isAbort : Call → Bool
  | .abort _ _ => true
  | _ => false

def loadsChange (cid : ChangeID) : Event → Bool
  | ⟨.changeFindByID id, .ok _⟩ => decide (id = cid)
  | _ => false

/-- The call is a run in flight that has loaded the change and has not written a
change row. -/
def holdsCopy (cid : ChangeID) (t : ServiceThread) : Bool :=
  !t.prog.isDone && !t.call.isAbort && t.hist.any (loadsChange cid) &&
    t.hist.all fun ev => !ev.op.writesChange

def Call.aborts (cid : ChangeID) : Call → Bool
  | .abort id _ => decide (id = cid)
  | _ => false

def returnsSuccess : Event → Bool
  | ⟨.returned (.ok .acknowledged), _⟩ => true
  | _ => false

def abortReturned (cid : ChangeID) (π : ServicePool) : Bool :=
  π.threads.any fun t => t.call.aborts cid && t.hist.any returnsSuccess

/-- Once an `Abort` has returned success the change is aborted. -/
def AbortStable (cid : ChangeID) (π : ServicePool) : Prop :=
  abortReturned cid π = true →
    ∀ c ∈ π.state.changes.rows, c.id = cid → c.status = .aborted

/-- An `Abort` saves the change only while no run in flight holds a copy of it. -/
def abortsAlone (cid : ChangeID) (π : ServicePool) : ServiceMove → Bool
  | .start _ | .crash => true
  | .step tid _ =>
    match π.threads[tid]? with
    | some ⟨.abort _ _, .call op _, _⟩ =>
      (op.writtenChange.all fun c => !decide (c.id = cid)) ||
        (π.threads.eraseIdx tid).all fun t => !holdsCopy cid t
    | _ => true

/-- A run of explore is scheduled, the change is aborted, and the run then
advances the pointer. -/
def abortDuringRun : List ServiceMove :=
  .start (.run { changeID := ⟨1⟩, phaseType := .explore }) ::
    List.replicate 10 (.step 0 { phaseID := .ok ⟨7⟩ }) ++
  .start (.abort ⟨1⟩ "no longer needed") :: List.replicate 4 (.step 1 {}) ++
    List.replicate 40 (.step 0
      { dispatch := .ok { envelopeRaw := .json (sampleEnvelope .explore .done) } })

/-- The abort returned success, and the change is active again. -/
theorem abort_undone_by_run :
    abortReturned ⟨1⟩ (reach {} (sampleStore .init) (abortDuringRun.take 16)) = true ∧
      (reach {} (sampleStore .init) (abortDuringRun.take 16)).state.changes.rows.map
        (·.status) = [.aborted] ∧
      (reach {} (sampleStore .init) abortDuringRun).state.changes.rows.map (·.status) =
        [.active] ∧
      ¬ AbortStable ⟨1⟩ (reach {} (sampleStore .init) abortDuringRun) := by
  refine ⟨by decide +kernel, by decide +kernel, by decide +kernel, ?_⟩
  intro hstable
  have hreturned : abortReturned ⟨1⟩ (reach {} (sampleStore .init) abortDuringRun) = true := by
    decide +kernel
  have hactive : ∃ c ∈ (reach {} (sampleStore .init) abortDuringRun).state.changes.rows,
      c.id = ⟨1⟩ ∧ c.status = .active := by decide +kernel
  obtain ⟨c, hc, hid, hstatus⟩ := hactive
  rw [hstable hreturned c hc hid] at hstatus
  cases hstatus

/-! ## The invariant -/

def AbortSaved (cid : ChangeID) (h : History) : Prop :=
  ∃ c, ⟨.changeSave c, .ok ()⟩ ∈ h ∧ c.id = cid ∧ c.status = .aborted

def RowAborted (cid : ChangeID) (s : Store) : Prop :=
  ∀ c ∈ s.changes.rows, c.id = cid → c.status = .aborted

structure HoldsActive (cid : ChangeID) (t : ServiceThread) : Prop where
  unfinished : t.prog.isDone = false
  run : t.call.isAbort = false
  first : NoChangeWrite t.hist
  active : ∃ c, ⟨.changeFindByID cid, .ok c⟩ ∈ t.hist ∧ c.status = .active

/-- A saved abort has reached the row, and while the row is aborted no run in
flight holds an active copy. -/
structure AbortInv (cid : ChangeID) (π : ServicePool) : Prop where
  row : ∃ c ∈ π.state.changes.rows, c.id = cid
  saved : (∃ t ∈ π.threads, AbortSaved cid t.hist) → RowAborted cid π.state
  stale : RowAborted cid π.state → ∀ (i : Nat) (t : ServiceThread),
    π.threads[i]? = some t → ¬ HoldsActive cid t

theorem holdsCopy_of_holdsActive (h : HoldsActive cid t) : holdsCopy cid t = true := by
  obtain ⟨c, hc, -⟩ := h.active
  have hloads : t.hist.any (loadsChange cid) = true :=
    List.any_eq_true.mpr ⟨_, hc, by simp [loadsChange]⟩
  have hfirst : (t.hist.all fun ev => !ev.op.writesChange) = true := by
    rw [List.all_eq_true]
    intro ev hev
    simp [h.first ev hev]
  simp [holdsCopy, h.unfinished, h.run, hloads, hfirst]

theorem Working.not_isAbort {p : Phase} (hworking : Working call c p h) : call.isAbort = false := by
  cases hworking.origin with
  | started inp hcall | continued id hcall | restarted id p₀ now hcall => rw [hcall]; rfl

/-- Only an `Abort` writes the status aborted, and a write by an `Abort` does. -/
theorem Writes.aborted_iff (hwrites : Writes call c c' h) :
    c'.status = .aborted ↔ call.isAbort = true := by
  cases hwrites with
  | advanced p q hworking hadvances harchive hnext hphase hstatus
  | completed p q hworking hadvances harchive hnext hphase hstatus =>
    simp [hstatus, hworking.not_isAbort]
  | aborted reason hcall hphase hstatus => simp [hstatus, hcall, Call.isAbort]

theorem rowAborted_of_saveChange (hsave : s.saveChange c = .ok s') :
    (c.id = cid → (∃ r ∈ s.changes.rows, r.id = cid) →
        (RowAborted cid s' ↔ c.status = .aborted)) ∧
      (c.id ≠ cid → (RowAborted cid s' ↔ RowAborted cid s)) := by
  constructor
  · rintro rfl ⟨r, hr, hid⟩
    constructor
    · intro haborted
      have hrow := haborted _ (Store.savedChange_mem hsave hr)
        (by rw [Store.savedChange, if_pos hid]; exact hid)
      rwa [Store.savedChange, if_pos hid] at hrow
    · intro hstatus r' hr' hid'
      rcases Store.mem_of_saveChange hsave hr' with ⟨-, hne⟩ | ⟨-, hstatus', -⟩
      · exact absurd hid' hne
      · rw [hstatus', hstatus]
  · intro hne
    constructor
    · intro haborted r hr hid
      have hmem := Store.savedChange_mem hsave hr
      rw [Store.savedChange, if_neg (fun heq => hne (heq.symm.trans hid))] at hmem
      exact haborted r hmem hid
    · intro haborted r hr hid
      rcases Store.mem_of_saveChange hsave hr with ⟨hold, -⟩ | ⟨hid', -⟩
      · exact haborted r hold hid
      · exact absurd (hid'.symm.trans hid) hne

theorem rowAborted_congr (h : s'.changes = s.changes) :
    RowAborted cid s' ↔ RowAborted cid s := by
  rw [RowAborted, RowAborted, h]

section Step

variable {π : ServicePool} {tid : Nat} {choice : Choice} {op : Op} {next : op.Ret → Program Unit}
  {hist : History}

theorem not_holdsActive_of_abortsAlone
    (hthread : π.threads[tid]? = some ⟨call, .call op next, hist⟩)
    (hok : abortsAlone cid π (.step tid choice) = true) (hcall : call.isAbort = true)
    (hop : op.writtenChange = some c') (hcid : c'.id = cid) {i : Nat} (hi : π.threads[i]? = some t)
    (hne : i ≠ tid) : ¬ HoldsActive cid t := by
  intro hholds
  have hmem : t ∈ π.threads.eraseIdx tid := List.mem_eraseIdx_iff_getElem?.mpr ⟨i, hne, hi⟩
  cases call with
  | abort id reason =>
    simp only [abortsAlone, hthread, hop, hcid, Option.all_some, decide_true, Bool.not_true,
      Bool.false_or, List.all_eq_true, Bool.not_eq_true'] at hok
    have hnot := hok t hmem
    rw [holdsCopy_of_holdsActive hholds] at hnot
    cases hnot
  | _ => cases hcall

/-- The row stays aborted: the only calls that can still write it are aborts. -/
theorem AbortInv.rowAborted_step (hinv : AbortInv cid π)
    (hthread : π.threads[tid]? = some ⟨call, .call op next, hist⟩)
    (hjust : Justified cfg call ⟨op, (handle op choice π.state).1⟩ hist)
    (haborted : RowAborted cid π.state) : RowAborted cid (handle op choice π.state).2 := by
  rcases handle_changes_cases op choice π.state with hsame | ⟨c', s₁, hop, hsave, hchanges⟩
  · exact (rowAborted_congr hsame).mpr haborted
  · obtain ⟨c, hwritten⟩ := written_of_justified hop hjust
    refine (rowAborted_congr hchanges).mpr ?_
    by_cases hcid : c'.id = cid
    · refine ((rowAborted_of_saveChange hsave).1 hcid hinv.row).mpr
        (hwritten.how.aborted_iff.mpr ?_)
      -- A run in flight would hold an active copy of the aborted change.
      by_contra hrun
      have hloaded := hwritten.loaded
      rw [← hwritten.id, hcid] at hloaded
      exact hinv.stale haborted tid _ hthread ⟨rfl, by simpa using hrun, hwritten.first,
        c, hloaded, hwritten.active⟩
    · exact ((rowAborted_of_saveChange hsave).2 hcid).mpr haborted

theorem AbortInv.step (hinv : AbortInv cid π)
    (hthread : π.threads[tid]? = some ⟨call, .call op next, hist⟩)
    (hjust : Justified cfg call ⟨op, (handle op choice π.state).1⟩ hist)
    (hok : abortsAlone cid π (.step tid choice) = true) :
    AbortInv cid (π.perform handler tid call op next hist choice) := by
  refine ⟨exists_change_handle hinv.row op choice, ?_, ?_⟩
  · rintro ⟨t, ht, c, hsaved, hid, hstatus⟩
    rcases List.mem_or_eq_of_mem_set ht with hold | rfl
    · exact hinv.rowAborted_step hthread hjust (hinv.saved ⟨t, hold, c, hsaved, hid, hstatus⟩)
    · rcases List.mem_cons.mp hsaved with heq | hold
      · obtain ⟨rfl, hanswer⟩ := event_eq_handle heq
        exact ((rowAborted_of_saveChange (Fault.write_ok hanswer.symm)).1 hid hinv.row).mpr
          hstatus
      · exact hinv.rowAborted_step hthread hjust
          (hinv.saved ⟨_, List.mem_of_getElem? hthread, c, hold, hid, hstatus⟩)
  · intro haborted i t hi hholds
    rcases Pool.perform_getElem?_cases hi with ⟨rfl, rfl⟩ | ⟨hne, hi₀⟩
    · -- The stepping call has not written, so the row was aborted before.
      have hop : op.writesChange = false := hholds.first _ List.mem_cons_self
      have hsame := (handle_changes_of_not_writesChange hop choice π.state).1
      have hbefore : RowAborted cid π.state := (rowAborted_congr hsame).mp haborted
      obtain ⟨c, hloaded, hactive⟩ := hholds.active
      rcases List.mem_cons.mp hloaded with heq | hold
      · obtain ⟨rfl, hanswer⟩ := event_eq_handle heq
        obtain ⟨hc, hid⟩ := Store.findChange_eq_ok_iff.mp (Fault.read_eq_ok hanswer.symm)
        rw [hbefore c hc hid] at hactive
        cases hactive
      · exact hinv.stale hbefore _ _ hthread ⟨rfl, hholds.run,
          fun ev hev => hholds.first ev (List.mem_cons_of_mem _ hev), c, hold, hactive⟩
    · by_cases hbefore : RowAborted cid π.state
      · exact hinv.stale hbefore i t hi₀ hholds
      · -- The operation has just aborted the row, so it is the write of an abort.
        rcases handle_changes_cases op choice π.state with
          hsame | ⟨c', s₁, hop, hsave, hchanges⟩
        · exact hbefore ((rowAborted_congr hsame).mp haborted)
        · have hafter : RowAborted cid s₁ := (rowAborted_congr hchanges).mp haborted
          obtain ⟨c, hwritten⟩ := written_of_justified hop hjust
          by_cases hcid : c'.id = cid
          · have hstatus := ((rowAborted_of_saveChange hsave).1 hcid hinv.row).mp hafter
            exact not_holdsActive_of_abortsAlone hthread hok
              (hwritten.how.aborted_iff.mp hstatus) hop hcid hi₀ hne hholds
          · exact hbefore (((rowAborted_of_saveChange hsave).2 hcid).mp hafter)

end Step

theorem abortInv_reach (hs : ∃ c ∈ s.changes.rows, c.id = cid) (moves : List ServiceMove)
    (hok : RunMeets cfg s (abortsAlone cid) moves = true) :
    AbortInv cid (reach cfg s moves) := by
  refine reach_induction (abortsAlone cid) ⟨hs, by simp, by simp⟩ ?_ ?_ ?_ moves hok
  · intro π call _ hinv
    refine ⟨hinv.row, ?_, ?_⟩
    · rintro ⟨t, ht, hsaved⟩
      rcases List.mem_append.mp ht with hold | hnew
      · exact hinv.saved ⟨t, hold, hsaved⟩
      · obtain ⟨c, hmem, -⟩ := hsaved
        rw [List.mem_singleton.mp hnew] at hmem
        cases hmem
    · intro haborted i t hi hholds
      rcases Pool.start_getElem?_cases hi with hold | rfl
      · exact hinv.stale haborted i t hold hholds
      · obtain ⟨c, hmem, -⟩ := hholds.active
        cases hmem
  · intro π _ hinv
    refine ⟨hinv.row, ?_, ?_⟩
    · rintro ⟨t, ht, hsaved⟩
      obtain ⟨t₀, ht₀, rfl⟩ := List.mem_map.mp ht
      exact hinv.saved ⟨t₀, ht₀, hsaved⟩
    · intro _ i t hi hholds
      obtain ⟨t₀, -, rfl⟩ := List.mem_map.mp (List.mem_of_getElem? hi)
      cases hholds.unfinished
  · intro π tid choice call op next hist hthread _ hjust hstep hinv
    exact hinv.step hthread hjust hstep

theorem abortSaved_of_returned {moves : List ServiceMove} (ht : t ∈ (reach cfg s moves).threads)
    (hcall : t.call.aborts cid = true) (hreturned : t.hist.any returnsSuccess = true) :
    AbortSaved cid t.hist := by
  obtain ⟨ev, hev, hreturns⟩ := List.any_eq_true.mp hreturned
  obtain ⟨past, hsuffix⟩ := suffix_of_mem hev
  cases justified_of_suffix ht hsuffix with
  | acknowledged habort =>
    cases hc : t.call with
    | abort id reason =>
      obtain rfl : id = cid := by simpa [hc, Call.aborts] using hcall
      obtain ⟨c, hsaved, hid, hstatus⟩ := habort id reason hc
      exact ⟨c, hsuffix.subset (List.mem_cons_of_mem _ hsaved), hid, hstatus⟩
    | _ => simp [hc, Call.aborts] at hcall
  | quiet hquiet =>
    obtain ⟨op, ret⟩ := ev
    cases op <;> first | cases hreturns | cases hquiet
  | _ => cases hreturns

/-- In every run in which an `Abort` saves the change only while no run in flight
holds a copy of it, the change is aborted in every state after a successful
`Abort`. -/
theorem abort_stable_of_abortsAlone (cfg : ServiceConfig) (cid : ChangeID) (s : Store)
    (hs : ∃ c ∈ s.changes.rows, c.id = cid) (moves : List ServiceMove)
    (hok : RunMeets cfg s (abortsAlone cid) moves = true) :
    AbortStable cid (reach cfg s moves) := by
  intro hreturned
  obtain ⟨t, ht, hcall⟩ := List.any_eq_true.mp hreturned
  rw [Bool.and_eq_true] at hcall
  exact (abortInv_reach hs moves hok).saved
    ⟨t, ht, abortSaved_of_returned ht hcall.1 hcall.2⟩

/-- The change is aborted first; a run started afterwards is scheduled and does
not advance the pointer. -/
def runAfterAbort : List ServiceMove :=
  .start (.abort ⟨1⟩ "no longer needed") :: List.replicate 4 (.step 0 {}) ++
  .start (.run { changeID := ⟨1⟩, phaseType := .explore }) ::
    List.replicate 40 (.step 1
      { phaseID := .ok ⟨7⟩
        dispatch := .ok { envelopeRaw := .json (sampleEnvelope .explore .done) } })

theorem abort_stable_runAfterAbort :
    abortReturned ⟨1⟩ (reach {} (sampleStore .init) runAfterAbort) = true ∧
      AbortStable ⟨1⟩ (reach {} (sampleStore .init) runAfterAbort) :=
  ⟨by decide +kernel,
    abort_stable_of_abortsAlone {} ⟨1⟩ (sampleStore .init)
      ⟨sampleChange .init, by simp [sampleStore], rfl⟩ runAfterAbort (by decide +kernel)⟩

end SophiaOrchestrator
