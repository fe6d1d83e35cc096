import SophiaOrchestrator.Phase.Runs

/-!
# Phases stored by their id

The phase repository refuses a further attempt under the id of an existing row.  What
the service does when it did not is asked here over another repository: it keeps a phase
under its id, whatever the attempt, and everything else is as before.  The programs of
the service are the same ones, so what a call has done before each of its operations is
known here too.
-/

namespace SophiaOrchestrator.ByID

open Effects Prog Sql

def phaseConflictUpdate : Table.ConflictUpdate (α := Phase) Phase.id Phase.id where
  apply old proposed := { proposed with id := old.id }
  target_apply _ _ := rfl
  other_apply _ _ := rfl

/-- The database.  `base` has every table but that of the phases; its own phase table is
not used. -/
structure Store where
  base : SophiaOrchestrator.Store
  phases : Table (α := Phase) Phase.id Phase.id
  phase_change : ∀ p ∈ phases.rows, ∃ c ∈ base.changes.rows, c.id = p.changeID

namespace Store

/-! ## PhaseRepo -/

def findPhase (s : Store) (id : PhaseID) : Except RepoErr Phase :=
  match s.phases.findTarget id with
  | some p => .ok p
  | none => .error .notFound

def findByChangeAndType (s : Store) (cid : ChangeID) (pt : PhaseType) :
    Except RepoErr Phase :=
  match (s.phases.rows.filter fun p => p.changeID = cid ∧ p.pType = pt).argmax Phase.attempts with
  | some p => .ok p
  | none => .error .notFound

def findRunningByChange (s : Store) (cid : ChangeID) : Except RepoErr Phase :=
  match (s.phases.rows.filter fun p => p.changeID = cid ∧
      SophiaOrchestrator.Store.occupies p = true).argmax SophiaOrchestrator.Store.startedKey with
  | some p => .ok p
  | none => .error .notFound

def findAllRunning (s : Store) : List Phase :=
  (s.phases.rows.filter fun p => p.status = .running).insertionSort fun p q =>
    SophiaOrchestrator.Store.startedKey p ≤ SophiaOrchestrator.Store.startedKey q

theorem onRow_eq (p r : Phase) :
    phaseConflictUpdate.onRow p.stored r = if r.id = p.id then p.stored else r := by
  unfold Table.ConflictUpdate.onRow
  rw [Phase.stored_id]
  split
  · next hid => simp [phaseConflictUpdate, Phase.stored, hid]
  · rfl

theorem mem_of_upsert {t t' : Table (α := Phase) Phase.id Phase.id} {p r : Phase}
    (h : t.upsert phaseConflictUpdate p.stored = some t') (hr : r ∈ t'.rows) :
    r ∈ t.rows ∨ r = p.stored := by
  rcases Table.mem_of_upsert h hr with ⟨r₀, hr₀, rfl⟩ | ⟨rfl, -⟩
  · rw [onRow_eq]
    split
    · exact .inr rfl
    · exact .inl hr₀
  · exact .inr rfl

/-- `PhaseRepo.Save`, if the phase is stored by its id. -/
def savePhase (s : Store) (p : Phase) : Except RepoErr Store :=
  match h : s.phases.upsert phaseConflictUpdate p.stored with
  | none => .error .uniqueViolation
  | some t =>
    if hfk : ∃ c ∈ s.base.changes.rows, c.id = p.changeID then
      .ok
        { s with
          phases := t
          phase_change := by
            intro r hr
            rcases mem_of_upsert h hr with hold | rfl
            · exact s.phase_change r hold
            · exact hfk }
    else
      .error .foreignKeyViolation

theorem exists_savePhase {s : Store} {p : Phase}
    (hfk : ∃ c ∈ s.base.changes.rows, c.id = p.changeID) : ∃ s', s.savePhase p = .ok s' := by
  unfold savePhase
  split
  · next hnone =>
    rcases s.phases.upsert_cases phaseConflictUpdate p.stored with
      ⟨-, t, ht, -⟩ | ⟨hfree, ⟨r, hr, htaken⟩, -⟩ | ⟨-, -, t, ht, -⟩
    · rw [hnone] at ht
      cases ht
    · exact absurd htaken (hfree r hr)
    · rw [hnone] at ht
      cases ht
  · rw [dif_pos hfk]
    exact ⟨_, rfl⟩

theorem mem_of_savePhase {s s' : Store} {p r : Phase} (h : s.savePhase p = .ok s')
    (hr : r ∈ s'.phases.rows) : r ∈ s.phases.rows ∨ r = p.stored := by
  unfold savePhase at h
  split at h
  · cases h
  · next t hupsert =>
    split_ifs at h
    cases h
    exact mem_of_upsert hupsert hr

/-! ## What the reads find -/

theorem findPhase_eq_ok_iff {s : Store} {id : PhaseID} {p : Phase} :
    s.findPhase id = .ok p ↔ p ∈ s.phases.rows ∧ p.id = id := by
  rw [← s.phases.findTarget_eq_some_iff]
  unfold findPhase
  cases s.phases.findTarget id <;> simp

theorem mem_of_findByChangeAndType {s : Store} {cid : ChangeID} {pt : PhaseType} {p : Phase}
    (h : s.findByChangeAndType cid pt = .ok p) : p.changeID = cid ∧ p.pType = pt := by
  unfold findByChangeAndType at h
  split at h
  · next q hq =>
    cases h
    have hmem := List.argmax_mem hq
    rw [List.mem_filter] at hmem
    simpa using hmem.2
  · cases h

theorem findRunningByChange_cases (s : Store) (cid : ChangeID) :
    (s.findRunningByChange cid = .error .notFound ∧
        ∀ r ∈ s.phases.rows, r.changeID = cid → SophiaOrchestrator.Store.occupies r = false) ∨
      ∃ r ∈ s.phases.rows, r.changeID = cid ∧ SophiaOrchestrator.Store.occupies r = true ∧
        s.findRunningByChange cid = .ok r := by
  unfold findRunningByChange
  split
  · next r hr =>
    have hmem := List.argmax_mem hr
    rw [List.mem_filter, decide_eq_true_eq] at hmem
    exact .inr ⟨r, hmem.1, hmem.2.1, hmem.2.2, rfl⟩
  · next hnone =>
    rw [List.argmax_eq_none, List.filter_eq_nil_iff] at hnone
    exact .inl ⟨rfl, fun r hr hcid => by simpa [hcid] using hnone r hr⟩

end Store

/-! ## Operations -/

def Store.elsewhere (s : Store) (op : Op) (ch : Choice) : op.Ret × Store :=
  ((SophiaOrchestrator.handle op ch s.base).1,
    { s with
      base := (SophiaOrchestrator.handle op ch s.base).2
      phase_change := fun p hp => exists_change_handle (s.phase_change p hp) op ch })

def handle (op : Op) (ch : Choice) (s : Store) : op.Ret × Store :=
  match op with
  | .phaseFindByID id => (ch.fault.read (s.findPhase id), s)
  | .phaseFindByChangeAndType cid pt => (ch.fault.read (s.findByChangeAndType cid pt), s)
  | .phaseFindRunningByChange cid => (ch.fault.read (s.findRunningByChange cid), s)
  | .phaseFindAllRunning => (ch.fault.read (.ok s.findAllRunning), s)
  | .phaseSave p => ch.fault.write s (s.savePhase p)
  | op => s.elsewhere op ch

def handler : Handler Op Op.Ret Choice Store where
  run := handle

theorem handle_answers (op : Op) (ch : Choice) (s : Store) : op.Answers (handle op ch s).1 := by
  cases op with
  | phaseFindByID id =>
    intro p h
    exact (Store.findPhase_eq_ok_iff.mp (Fault.read_eq_ok h)).2
  | phaseFindByChangeAndType cid pt =>
    intro p h
    exact Store.mem_of_findByChangeAndType (Fault.read_eq_ok h)
  | changeFindByID id => exact SophiaOrchestrator.handle_answers (.changeFindByID id) ch s.base
  | applyExecute c p prior => exact ⟨ch.apply, rfl⟩
  | _ => trivial

theorem mem_of_handle {op : Op} {ch : Choice} {s : Store} {r : Phase}
    (hr : r ∈ (handle op ch s).2.phases.rows) :
    r ∈ s.phases.rows ∨ ∃ p, op = .phaseSave p ∧ r = p.stored := by
  cases op with
  | phaseSave p =>
    rcases Fault.write_eq ch.fault s (s.savePhase p) with heq | hok
    · refine .inl ?_
      rw [handle, heq] at hr
      exact hr
    · rcases Store.mem_of_savePhase hok hr with hold | rfl
      · exact .inl hold
      · exact .inr ⟨p, rfl, rfl⟩
  | _ => exact .inl hr

/-! ## Runs -/

abbrev ServicePool : Type := Pool Op Op.Ret Call Store

def reach (cfg : ServiceConfig) (s : Store) (moves : List ServiceMove) : ServicePool :=
  (Pool.init s).run handler (main cfg) moves

def RunMeets (cfg : ServiceConfig) (s : Store) (ok : ServicePool → ServiceMove → Bool)
    (moves : List ServiceMove) : Bool :=
  (Pool.init s : ServicePool).Meets handler (main cfg) ok moves

/-- An invariant of the database along a run: the step case knows how the performed
operation is justified. -/
theorem reach_induction {cfg : ServiceConfig} {s : Store}
    (ok : ServicePool → ServiceMove → Bool) {G : Store → Prop} (hs : G s)
    (hstep : ∀ π tid choice call op next hist,
      π.threads[tid]? = some ⟨call, .call op next, hist⟩ →
      Justified cfg call ⟨op, (handle op choice π.state).1⟩ hist →
      ok π (.step tid choice) = true → G π.state → G (handle op choice π.state).2)
    (moves : List ServiceMove) (hok : RunMeets cfg s ok moves = true) :
    G (reach cfg s moves).state := by
  let Inv : ServicePool → Prop := fun π => G π.state
  change Inv (reach cfg s moves)
  refine Pool.run_induction (I := Good cfg) handle_answers (main_justified cfg)
    (fun _ _ _ h => h) (fun _ _ h => h) ?_ (by simp) hs moves hok
  intro π tid choice call op next hist hthread _ _ hgood hm hG
  exact hstep π tid choice call op next hist hthread hgood hm hG

end SophiaOrchestrator.ByID
