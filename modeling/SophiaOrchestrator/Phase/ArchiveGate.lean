import SophiaOrchestrator.Phase.ChangeWrites

/-!
# Iron Law 3: no archive without a verified change

The check of the verify row and the dispatch of the archive agent are in one
program, and the completed change is written only behind the successful save of
the archive row, in every interleaving of all calls.
-/

namespace SophiaOrchestrator

open Effects Prog

variable {p : Phase} {cfg : ServiceConfig} {s : Store} {moves : List ServiceMove} {tid : Nat}
  {t : ServiceThread} {cid : ChangeID}

section Statement

variable (cfg : ServiceConfig) (s : Store) (moves : List ServiceMove)

/-- A step of the run at `tid` has read the latest verify row of the change, in a
database in which that row was done with a confidence of at least 0.9, and the
read is part of the history `past`. -/
def ReadVerified (tid : Nat) (cid : ChangeID) (past : History) : Prop :=
  ∃ before choice after inbound next older row,
    moves = before ++ .step tid choice :: after ∧
      (reach cfg s before).threads[tid]? =
        some ⟨inbound, .call (.phaseFindByChangeAndType cid .verify) next, older⟩ ∧
      (reach cfg s before).state.latestPhase cid .verify = some row ∧
      row.status = .done ∧ mkRat 9 10 ≤ row.confidence ∧
      ⟨.phaseFindByChangeAndType cid .verify, .ok row⟩ :: older <:+ past

/-- The run at `tid` has dispatched the archive agent of the change, after it has
read the change as verified. -/
def DispatchedArchive (tid : Nat) (cid : ChangeID) : Prop :=
  ∃ t p answer past, (reach cfg s moves).threads[tid]? = some t ∧
    ⟨.dispatch p, answer⟩ :: past <:+ t.hist ∧ p.changeID = cid ∧ p.pType = .archive ∧
    ReadVerified cfg s moves tid cid past

/-- A step of the run at `tid` has saved an accepted archive phase of the change with
success, and its row is in the table after the step. -/
def PersistedArchive (tid : Nat) (cid : ChangeID) : Prop :=
  ∃ before choice after inbound q next older row, moves = before ++ .step tid choice :: after ∧
    (reach cfg s before).threads[tid]? = some ⟨inbound, .call (.phaseSave q) next, older⟩ ∧
    (handle (.phaseSave q) choice (reach cfg s before).state).1 = .ok () ∧
    row ∈ (reach cfg s (before ++ [.step tid choice])).state.phases.rows ∧
    row.key = q.key ∧ row.status = q.status ∧ q.changeID = cid ∧ q.pType = .archive ∧
    (q.status = .done ∨ q.status = .doneWithConcerns)

end Statement

/-! ## The dispatch -/

theorem verified_of_checkIronLaws {prior : PriorPhases}
    (hlaws : checkIronLaws (ironLawContext p prior) = []) (harchive : p.pType = .archive) :
    ∃ pred, (PhaseType.verify, pred) ∈ prior ∧ pred.status = .done ∧
      mkRat 9 10 ≤ pred.confidence := by
  have hverify := ((checkIronLaws_eq_nil_iff _).mp hlaws).2.1
    (by simp [ironLawContext, actionForPhase, harchive])
  exact PriorPhases.exists_of_doneWithConfidence hverify

theorem readVerified_of_dispatch {answer : Except String DispatchResult} {past : History}
    (ht : (reach cfg s moves).threads[tid]? = some t)
    (hsuffix : ⟨.dispatch p, answer⟩ :: past <:+ t.hist) (harchive : p.pType = .archive) :
    ReadVerified cfg s moves tid p.changeID past := by
  cases justified_of_suffix (List.mem_of_getElem? ht) hsuffix with
  | quiet hquiet => cases hquiet
  | dispatch hworking hread hlaws =>
    obtain ⟨pred, hmem, hdone, hconfidence⟩ := verified_of_checkIronLaws hlaws harchive
    obtain ⟨row, hrow, hpred⟩ := hread _ hmem
    obtain ⟨older, holder⟩ := suffix_of_mem hrow
    have hpast : past <:+ t.hist := (List.suffix_cons _ past).trans hsuffix
    obtain ⟨before, choice, after, next, hmoves, hthread, hret, -⟩ :=
      exists_step_of_suffix ht (holder.trans hpast)
    have hlatest := Store.findByChangeAndType_eq_ok_iff.mp (Fault.read_eq_ok hret.symm)
    simp only at hpred
    refine ⟨before, choice, after, _, next, older, row, hmoves, hthread, hlatest, ?_, ?_,
      holder⟩
    · rw [← hdone, hpred]
    · rw [hpred] at hconfidence
      exact hconfidence

/-! ## The completion -/

/-- The history shows an accepted archive row of the change, saved by a run that
has dispatched the archive agent. -/
def ArchivedBy (cid : ChangeID) (h : History) : Prop :=
  ∃ p q answer, ⟨.phaseSave q, .ok ()⟩ ∈ h ∧ q.changeID = cid ∧ q.pType = .archive ∧
    q.status.advanceAllowed = true ∧ ⟨.dispatch p, answer⟩ ∈ h ∧ p.changeID = cid ∧
    p.pType = .archive

theorem ArchivedBy.cons {h : History} (harchived : ArchivedBy cid h) (ev : Event) :
    ArchivedBy cid (ev :: h) := by
  obtain ⟨p, q, answer, hsaved, hcid, hpt, hallowed, hdispatch, hrest⟩ := harchived
  exact ⟨p, q, answer, List.mem_cons_of_mem _ hsaved, hcid, hpt, hallowed,
    List.mem_cons_of_mem _ hdispatch, hrest⟩

def CompletedByArchive (cid : ChangeID) (π : ServicePool) : Prop :=
  (∃ c ∈ π.state.changes.rows, c.id = cid ∧ c.status = .completed) →
    ∃ t ∈ π.threads, ArchivedBy cid t.hist

/-- One operation of a call keeps the reason for a completed change, or is the
write that completes it. -/
theorem CompletedByArchive.step {π : ServicePool} (hinv : CompletedByArchive cid π)
    {choice : Choice} {call : Call} {op : Op} {next : op.Ret → Program Unit} {hist : History}
    (hthread : π.threads[tid]? = some ⟨call, .call op next, hist⟩)
    (hjust : Justified cfg call ⟨op, (handle op choice π.state).1⟩ hist) :
    CompletedByArchive cid (π.perform handler tid call op next hist choice) := by
  rintro ⟨c, hc, hcid, hcompleted⟩
  have hlt : tid < π.threads.length := (List.getElem?_eq_some_iff.mp hthread).1
  have hself : ArchivedBy cid hist →
      ∃ t ∈ (π.perform handler tid call op next hist choice).threads,
        ArchivedBy cid t.hist := by
    intro harchived
    exact ⟨_, List.mem_set hlt _, harchived.cons _⟩
  have hkeep : (∃ c ∈ π.state.changes.rows, c.id = cid ∧ c.status = .completed) →
      ∃ t ∈ (π.perform handler tid call op next hist choice).threads,
        ArchivedBy cid t.hist := by
    intro hold
    obtain ⟨t, ht, harchived⟩ := hinv hold
    obtain ⟨i, hi⟩ := List.getElem?_of_mem ht
    by_cases heq : i = tid
    · subst heq
      obtain rfl := Option.some.inj (hi.symm.trans hthread)
      exact hself harchived
    · refine ⟨t, List.mem_of_getElem? (i := i) ?_, harchived⟩
      rw [Pool.perform, List.getElem?_set_ne (Ne.symm heq)]
      exact hi
  rcases handle_changes_cases op choice π.state with hsame | ⟨c', s₁, hop, hsave, hchanges⟩
  · exact hkeep ⟨c, hsame ▸ hc, hcid, hcompleted⟩
  · have hrow : c ∈ s₁.changes.rows := hchanges ▸ hc
    rcases Store.mem_of_saveChange hsave hrow with ⟨hold, -⟩ | ⟨hid, hstatus, -⟩
    · exact hkeep ⟨c, hold, hcid, hcompleted⟩
    · -- The operation wrote this row, so it is the completing write.
      obtain ⟨c₀, hwritten⟩ := written_of_justified hop hjust
      have hc₀ : c₀.id = cid := hwritten.id.symm.trans (hid.symm.trans hcid)
      cases hwritten.how with
      | completed p q hworking hadvances harchive hnext hphase hstatus' =>
        have hpcid : p.changeID = cid := hworking.changeID.symm.trans hc₀
        obtain ⟨answer, hdispatch⟩ := hadvances.dispatched harchive
        exact hself ⟨p, q, answer, hadvances.saved, hadvances.changeID.trans hpcid,
          hadvances.pType.trans harchive, hadvances.allowed, hdispatch, hpcid, harchive⟩
      | advanced p q hworking hadvances harchive hnext hphase hstatus'
      | aborted reason hcall hphase hstatus' =>
        rw [hstatus, hstatus'] at hcompleted
        cases hcompleted

theorem completedByArchive_reach (hs : ∀ c ∈ s.changes.rows, c.id = cid → c.status ≠ .completed)
    (moves : List ServiceMove) : CompletedByArchive cid (reach cfg s moves) := by
  refine reach_invariant ?_ ?_ ?_ ?_ moves
  · rintro ⟨c, hc, hcid, hcompleted⟩
    exact absurd hcompleted (hs c hc hcid)
  · intro π call hinv hcompleted
    obtain ⟨t, ht, harchived⟩ := hinv hcompleted
    exact ⟨t, List.mem_append_left _ ht, harchived⟩
  · intro π hinv hcompleted
    obtain ⟨t, ht, harchived⟩ := hinv hcompleted
    exact ⟨t.stop, List.mem_map_of_mem ht, harchived⟩
  · intro π tid choice call op next hist hthread hjust hinv
    exact hinv.step hthread hjust

theorem persistedArchive_of_saved {q : Phase} (ht : (reach cfg s moves).threads[tid]? = some t)
    (hsaved : ⟨.phaseSave q, .ok ()⟩ ∈ t.hist) (harchive : q.pType = .archive)
    (hallowed : q.status.advanceAllowed = true) :
    PersistedArchive cfg s moves tid q.changeID := by
  obtain ⟨before, choice, after, next, older, row, hmoves, hthread, hret, hrow, hkey, hstatus⟩ :=
    exists_row_of_saved ht hsaved
  exact ⟨before, choice, after, _, q, next, older, row, hmoves, hthread, hret, hrow, hkey, hstatus,
    rfl, harchive, PhaseStatus.advanceAllowed_iff.mp hallowed⟩

/-- Iron Law 3.  In every run an agent is dispatched for archive only after the
run has read the latest verify row as done with a confidence of at least 0.9,
and a change becomes completed only after an accepted archive row of a run that
has dispatched archive in this way was persisted. -/
theorem archive_gate (cfg : ServiceConfig) (s : Store) (moves : List ServiceMove) :
    (∀ tid t p answer past, (reach cfg s moves).threads[tid]? = some t →
      ⟨.dispatch p, answer⟩ :: past <:+ t.hist → p.pType = .archive →
      ReadVerified cfg s moves tid p.changeID past) ∧
    (∀ cid, (∀ c ∈ s.changes.rows, c.id = cid → c.status ≠ .completed) →
      (∃ c ∈ (reach cfg s moves).state.changes.rows, c.id = cid ∧ c.status = .completed) →
      ∃ tid, DispatchedArchive cfg s moves tid cid ∧ PersistedArchive cfg s moves tid cid) := by
  constructor
  · intro tid t p answer past ht hsuffix harchive
    exact readVerified_of_dispatch ht hsuffix harchive
  · intro cid hs hcompleted
    obtain ⟨t, ht, p, q, answer, hsaved, hqcid, hqpt, hallowed, hdispatch, hpcid, hppt⟩ :=
      completedByArchive_reach hs moves hcompleted
    obtain ⟨tid, htid⟩ := List.getElem?_of_mem ht
    obtain ⟨past, hsuffix⟩ := suffix_of_mem hdispatch
    refine ⟨tid, ⟨t, p, answer, past, htid, hsuffix, hpcid, hppt, ?_⟩, ?_⟩
    · rw [← hpcid]
      exact readVerified_of_dispatch htid hsuffix hppt
    · rw [← hqcid]
      exact persistedArchive_of_saved htid hsaved hqpt hallowed

/-- The two runs complete the change, behind the read of the verify row and the
save of the archive row. -/
theorem archive_gate_verifyThenArchive :
    (reach {} (sampleStore .apply) verifyThenArchive).state.changes.rows.map (·.status) =
        [.completed] ∧
      ∃ tid, DispatchedArchive {} (sampleStore .apply) verifyThenArchive tid ⟨1⟩ ∧
        PersistedArchive {} (sampleStore .apply) verifyThenArchive tid ⟨1⟩ :=
  ⟨by decide +kernel,
    (archive_gate {} (sampleStore .apply) verifyThenArchive).2 ⟨1⟩
      (by simp [sampleStore, sampleChange]) (by decide +kernel)⟩

end SophiaOrchestrator
