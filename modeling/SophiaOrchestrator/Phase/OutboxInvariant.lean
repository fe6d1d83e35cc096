import SophiaOrchestrator.Phase.ChangeWrites

/-!
# The completed change and its outbox row

With the outbox wired, the archive path saves the completed change and the row
of the `phase.archived` webhook in one transaction.  In a sequential history a run
completes a change only from its persisted active row, and the first completion
leaves no active row for a second one.
-/

namespace SophiaOrchestrator

open Effects Prog

def isArchivedEvent (cid : ChangeID) (ev : OutboxRow) : Bool :=
  decide (ev.eventType = .phaseArchived ∧ ev.payload.changeID = cid)

def archivedRows (cid : ChangeID) (s : Store) : Nat :=
  s.outbox.rows.countP (isArchivedEvent cid)

/-- A completed change has one row and any other change has none. -/
def OutboxMatches (cid : ChangeID) (s : Store) : Prop :=
  ∀ c ∈ s.changes.rows, c.id = cid →
    archivedRows cid s = if c.status = .completed then 1 else 0

/-! ## One operation -/

/-- With the outbox wired a plain save of a change does not complete it. -/
theorem not_completed_of_changeSave {cfg : ServiceConfig}
    (hwired : cfg.hasOutboxEnqueuer = true) {call : Call} {c' : Change}
    {answer : Except RepoErr Unit} {h : History}
    (hjust : Justified cfg call ⟨.changeSave c', answer⟩ h) : c'.status ≠ .completed := by
  cases hjust with
  | quiet hquiet => cases hquiet
  | advance hworking hscheduled hadvances hfirst harchive hadvance =>
    obtain ⟨hactive, -, rfl⟩ := Change.advancePhase_eq_ok_iff.mp hadvance
    simp [hactive]
  | complete hworking hscheduled hadvances hfirst harchive hadvance hcompleted hunwired =>
    rw [hwired] at hunwired
    cases hunwired
  | abort hcall hloaded hfirst habort =>
    obtain ⟨-, rfl⟩ := Change.abort_eq_ok_iff.mp habort
    simp

theorem completed_of_saveCompletedWithOutbox {cfg : ServiceConfig} {call : Call}
    {c' : Change} {ev : OutboxRow} {answer : Except RepoErr Unit} {h : History}
    (hjust : Justified cfg call ⟨.saveCompletedWithOutbox c' ev, answer⟩ h) :
    c'.status = .completed ∧ ev.eventType = .phaseArchived ∧ ev.payload.changeID = c'.id := by
  cases hjust with
  | quiet hquiet => cases hquiet
  | completeWithOutbox hworking hscheduled hadvances hfirst harchive hadvance hcompleted =>
    obtain ⟨-, rfl⟩ := Change.markCompleted_eq_ok_iff.mp hcompleted
    exact ⟨rfl, rfl, rfl⟩

section Step

variable {cfg : ServiceConfig} {cid : ChangeID} {call : Call} {h : History} {s : Store}
  {op : Op} {choice : Choice}

/-- The copy that a call writes is the persisted active row, which has no event. -/
theorem OutboxMatches.none_of_written (hmatches : OutboxMatches cid s)
    (hcurrent : LoadedCurrent call h s) {c c' : Change} (hwritten : Written call c c' h)
    (hcid : c'.id = cid) : archivedRows cid s = 0 := by
  have hc := hcurrent hwritten.first c.id c hwritten.loaded
  have hcount := hmatches c hc (hwritten.id.symm.trans hcid)
  simpa [hwritten.active] using hcount

theorem OutboxMatches.step (hwired : cfg.hasOutboxEnqueuer = true)
    (hmatches : OutboxMatches cid s) (hcurrent : LoadedCurrent call h s)
    (hjust : Justified cfg call ⟨op, (handle op choice s).1⟩ h) :
    OutboxMatches cid (handle op choice s).2 := by
  cases hwrites : op.writesChange with
  | false =>
    obtain ⟨hchanges, houtbox⟩ := handle_changes_of_not_writesChange hwrites choice s
    unfold OutboxMatches archivedRows
    rw [hchanges, houtbox]
    exact hmatches
  | true =>
    cases op with
    | changeSave c' =>
      obtain ⟨c, hwritten⟩ := written_of_justified rfl hjust
      rcases Fault.write_eq choice.fault s (s.saveChange c') with heq | hok
      · exact (congrArg (OutboxMatches cid) heq).mpr hmatches
      · have houtbox : (handle (.changeSave c') choice s).2.outbox = s.outbox :=
          (Store.saveChange_cases hok).2.1
        intro r hr hid
        rw [archivedRows, houtbox]
        rcases Store.mem_of_saveChange hok hr with ⟨hold, -⟩ | ⟨hrid, hstatus, -⟩
        · exact hmatches r hold hid
        · rw [hstatus, if_neg (not_completed_of_changeSave hwired hjust)]
          exact hmatches.none_of_written hcurrent hwritten (hrid.symm.trans hid)
    | saveCompletedWithOutbox c' ev =>
      obtain ⟨c, hwritten⟩ := written_of_justified rfl hjust
      obtain ⟨hcompleted, htype, hpayload⟩ := completed_of_saveCompletedWithOutbox hjust
      rcases Fault.write_eq choice.fault s (s.saveCompletedWithOutbox c' ev) with heq | hok
      · exact (congrArg (OutboxMatches cid) heq).mpr hmatches
      · obtain ⟨s₁, hsave, hchanges, -, hrows⟩ := Store.saveCompletedWithOutbox_cases hok
        intro r hr hid
        have hevent : isArchivedEvent cid ev.stored = decide (c'.id = cid) := by
          simp [isArchivedEvent, OutboxEvent.stored, htype, hpayload]
        have hcount : archivedRows cid (handle (.saveCompletedWithOutbox c' ev) choice s).2 =
            archivedRows cid s + if c'.id = cid then 1 else 0 := by
          unfold archivedRows
          rw [show (handle (.saveCompletedWithOutbox c' ev) choice s).2.outbox.rows =
            s.outbox.rows ++ [ev.stored] from hrows]
          simp [List.countP_append, List.countP_singleton, hevent]
        rw [hcount]
        rcases Store.mem_of_saveChange hsave (hchanges ▸ hr) with
          ⟨hold, hne⟩ | ⟨hrid, hstatus, -⟩
        · rw [if_neg (fun heq => hne (hid.trans heq.symm)), Nat.add_zero]
          exact hmatches r hold hid
        · have hcid : c'.id = cid := hrid.symm.trans hid
          rw [if_pos hcid, hstatus, if_pos hcompleted,
            hmatches.none_of_written hcurrent hwritten hcid]
    | _ => cases hwrites

end Step

/-! ## Whole runs -/

/-- In every sequential history of a change that starts neither completed nor
with an event, the change is completed exactly when one `phase.archived` row
carries its id, and has no such row otherwise. -/
theorem completed_iff_one_archived_row (cfg : ServiceConfig)
    (hwired : cfg.hasOutboxEnqueuer = true) (s : Store) (cid : ChangeID)
    (hactive : ∀ c ∈ s.changes.rows, c.id = cid → c.status ≠ .completed)
    (hnone : archivedRows cid s = 0) (moves : List ServiceMove)
    (hseq : RunMeets cfg s sequential moves = true) :
    ∀ c ∈ (reach cfg s moves).state.changes.rows, c.id = cid →
      (c.status = .completed ↔ archivedRows cid (reach cfg s moves).state = 1) ∧
        (c.status ≠ .completed → archivedRows cid (reach cfg s moves).state = 0) := by
  have hinv : Pool.SequentialInv (OutboxMatches cid) LoadedCurrent (reach cfg s moves) := by
    refine sequential_reach_induction sequential ?_ ?_ ?_ ?_ moves hseq
    · intro π call hidle
      exact hidle
    · intro π call _ _ _ id c hmem
      simp at hmem
    · intro π tid choice call op next hist _ _ hjust _ hmatches hcurrent
      exact ⟨hmatches.step hwired hcurrent hjust, hcurrent.step⟩
    · intro c hc hid
      rw [hnone, if_neg (hactive c hc hid)]
  intro c hc hid
  have hcount := hinv.state c hc hid
  by_cases hcompleted : c.status = .completed
  · simp [hcount, hcompleted]
  · simp [hcount, hcompleted]

def archiveTwice : List ServiceMove :=
  verifyThenArchive ++
  .start (.run { changeID := ⟨1⟩, phaseType := .archive }) ::
    List.replicate 45 (.step 2
      { phaseID := .ok ⟨9⟩, outboxID := .ok ⟨1⟩
        dispatch := .ok { envelopeRaw := .json (sampleEnvelope .archive .done) } })

/-- After two archive runs the completed change has one event. -/
theorem one_archived_row_after_archiveTwice :
    (∃ c ∈ (reach {} (sampleStore .apply) archiveTwice).state.changes.rows,
        c.id = ⟨1⟩ ∧ c.status = .completed) ∧
      archivedRows ⟨1⟩ (reach {} (sampleStore .apply) archiveTwice).state = 1 := by
  have hrow : ∃ c ∈ (reach {} (sampleStore .apply) archiveTwice).state.changes.rows,
      c.id = ⟨1⟩ ∧ c.status = .completed := by decide +kernel
  refine ⟨hrow, ?_⟩
  obtain ⟨c, hc, hid, hcompleted⟩ := hrow
  exact (completed_iff_one_archived_row {} rfl (sampleStore .apply) ⟨1⟩
    (by simp [sampleStore, sampleChange]) rfl archiveTwice (by decide +kernel) c hc hid).1.mp
    hcompleted

end SophiaOrchestrator
