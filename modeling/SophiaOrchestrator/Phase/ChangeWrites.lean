import SophiaOrchestrator.Phase.Runs

/-!
# How the change rows are written

A call writes a change row at most once, from the copy of the change it loaded:
`advanceChange` moves the pointer, its archive path also completes the change,
and `Abort` aborts it.  The results about the lifecycle of a change follow from
what one write does to the row.
-/

namespace SophiaOrchestrator

open Effects Prog

variable {cfg : ServiceConfig} {call : Call} {op : Op} {h : History} {c' c r : Change}
  {s s' : Store} {moves : List ServiceMove}

def Op.writtenChange : Op → Option Change
  | .changeSave c => some c
  | .saveCompletedWithOutbox c _ => some c
  | _ => none

/-- How a call comes to write `c'` when it has loaded the change as `c`. -/
inductive Writes (call : Call) (c c' : Change) (h : History) : Prop where
  /-- The pointer moves to the phase whose accepted row the run has saved. -/
  | advanced (p q : Phase) (hworking : Working call c p h) (hadvances : Advances p q h)
      (harchive : p.pType ≠ .archive) (hnext : p.pType ∈ c.currentPhase.nextValid)
      (hphase : c'.currentPhase = p.pType) (hstatus : c'.status = .active)
  /-- The run has saved an accepted archive row; the change is completed. -/
  | completed (p q : Phase) (hworking : Working call c p h) (hadvances : Advances p q h)
      (harchive : p.pType = .archive) (hnext : p.pType ∈ c.currentPhase.nextValid)
      (hphase : c'.currentPhase = p.pType) (hstatus : c'.status = .completed)
  | aborted (reason : String) (hcall : call = .abort c.id reason)
      (hphase : c'.currentPhase = c.currentPhase) (hstatus : c'.status = .aborted)

structure Written (call : Call) (c c' : Change) (h : History) : Prop where
  loaded : ⟨.changeFindByID c.id, .ok c⟩ ∈ h
  first : NoChangeWrite h
  active : c.status = .active
  id : c'.id = c.id
  how : Writes call c c' h

theorem written_of_justified {answer : op.Ret} (hop : op.writtenChange = some c')
    (hjust : Justified cfg call ⟨op, answer⟩ h) :
    ∃ c, Written call c c' h := by
  have hwrites : op.writesChange = true := by
    cases op with
    | changeSave c | saveCompletedWithOutbox c ev => rfl
    | _ => cases hop
  cases hjust with
  | quiet hquiet =>
    rw [Op.writesChange_of_quiet hquiet] at hwrites
    cases hwrites
  | @advance c c₁ p q now _ _ hworking hscheduled hadvances hfirst harchive hadvance =>
    obtain rfl : c₁ = c' := Option.some.inj hop
    obtain ⟨hactive, hnext, rfl⟩ := Change.advancePhase_eq_ok_iff.mp hadvance
    exact ⟨c, hworking.loaded, hfirst, hactive, rfl,
      .advanced p q hworking hadvances harchive hnext rfl hactive⟩
  | @complete c c₁ c₂ p q now now' _ _ hworking hscheduled hadvances hfirst harchive hadvance
      hcompleted hwired
  | @completeWithOutbox c c₁ c₂ p q now now' archivedAt evID _ _ hworking hscheduled hadvances
      hfirst harchive hadvance hcompleted hwired =>
      obtain rfl : c₂ = c' := Option.some.inj hop
      obtain ⟨hactive, hnext, rfl⟩ := Change.advancePhase_eq_ok_iff.mp hadvance
      obtain ⟨-, rfl⟩ := Change.markCompleted_eq_ok_iff.mp hcompleted
      exact ⟨c, hworking.loaded, hfirst, hactive, rfl,
        .completed p q hworking hadvances harchive hnext rfl rfl⟩
  | @abort reason c c₁ now _ _ hcall hloaded hfirst habort =>
    obtain rfl : c₁ = c' := Option.some.inj hop
    obtain ⟨hactive, rfl⟩ := Change.abort_eq_ok_iff.mp habort
    exact ⟨c, hloaded, hfirst, hactive, rfl, .aborted reason hcall rfl rfl⟩
  | _ => cases hop

/-! ## What a write does to the rows -/

/-- A row after an accepted save of a change is another row, or has the id, the
status and the pointer of the saved change. -/
theorem Store.mem_of_saveChange (hsave : s.saveChange c = .ok s') (hr : r ∈ s'.changes.rows) :
    (r ∈ s.changes.rows ∧ r.id ≠ c.id) ∨
      (r.id = c.id ∧ r.status = c.status ∧ r.currentPhase = c.currentPhase) := by
  obtain ⟨-, -, -, ⟨-, hrows⟩ | ⟨hnew, hrows⟩⟩ := Store.saveChange_cases hsave
  · rw [hrows] at hr
    obtain ⟨r₀, hr₀, rfl⟩ := List.mem_map.mp hr
    unfold Store.savedChange
    split
    · next hid => exact .inr ⟨hid, rfl, rfl⟩
    · next hid => exact .inl ⟨hr₀, hid⟩
  · rw [hrows] at hr
    rcases List.mem_append.mp hr with hold | hlast
    · exact .inl ⟨hold, hnew r hold⟩
    · rw [List.mem_singleton.mp hlast]
      exact .inr ⟨rfl, rfl, rfl⟩

/-- Everything an operation can do to the change rows: nothing, or the save of
the change that it writes. -/
theorem handle_changes_cases (op : Op) (ch : Choice) (s : Store) :
    (handle op ch s).2.changes = s.changes ∨
      ∃ c' s₁, op.writtenChange = some c' ∧ s.saveChange c' = .ok s₁ ∧
        (handle op ch s).2.changes = s₁.changes := by
  cases hwrites : op.writesChange with
  | false => exact .inl (handle_changes_of_not_writesChange hwrites ch s).1
  | true =>
    cases op with
    | changeSave c =>
      rcases Fault.write_eq ch.fault s (s.saveChange c) with heq | hok
      · exact .inl (congrArg Store.changes heq)
      · exact .inr ⟨c, _, rfl, hok, rfl⟩
    | saveCompletedWithOutbox c ev =>
      rcases Fault.write_eq ch.fault s (s.saveCompletedWithOutbox c ev) with heq | hok
      · exact .inl (congrArg Store.changes heq)
      · obtain ⟨s₁, hsave, hchanges, -⟩ := Store.saveCompletedWithOutbox_cases hok
        exact .inr ⟨c, s₁, rfl, hsave, hchanges⟩
    | _ => cases hwrites

theorem Store.savedChange_mem (hsave : s.saveChange c = .ok s') (hr : r ∈ s.changes.rows) :
    Store.savedChange c r ∈ s'.changes.rows := by
  obtain ⟨-, -, -, ⟨-, hrows⟩ | ⟨hnew, hrows⟩⟩ := Store.saveChange_cases hsave
  · rw [hrows]
    exact List.mem_map_of_mem hr
  · rw [Store.savedChange, if_neg (hnew r hr), hrows]
    exact List.mem_append_left _ hr

/-! ## What a move of a run does to the rows -/

theorem reach_changes_cases (cfg : ServiceConfig) (s : Store) (moves : List ServiceMove)
    (m : ServiceMove) :
    (reach cfg s (moves ++ [m])).state.changes = (reach cfg s moves).state.changes ∨
      ∃ (tid : Nat) (t : ServiceThread) (c c' : Change) (s₁ : Store),
        (reach cfg s moves).threads[tid]? = some t ∧
        t.prog.isDone = false ∧ Written t.call c c' t.hist ∧
        (reach cfg s moves).state.saveChange c' = .ok s₁ ∧
        (reach cfg s (moves ++ [m])).state.changes = s₁.changes := by
  rw [reach_concat]
  cases m with
  | start call | crash => exact .inl rfl
  | step tid choice =>
    rcases Pool.move_step_cases handler (main cfg) (reach cfg s moves) tid choice with
      heq | ⟨call, op, next, hist, hthread, -, heq⟩
    · exact .inl (by rw [heq])
    · rw [heq]
      rcases handle_changes_cases op choice (reach cfg s moves).state with
        hsame | ⟨c', s₁, hop, hsave, hchanges⟩
      · exact .inl hsame
      · obtain ⟨c, hwritten⟩ := written_of_justified hop
          (justified_next (List.mem_of_getElem? hthread) rfl
            (handle_answers op choice (reach cfg s moves).state))
        exact .inr ⟨tid, _, c, c', s₁, hthread, rfl, hwritten, hsave, hchanges⟩

/-! ## The copy of the change in a sequential run -/

/-- Until the call writes it, the change it has loaded is the persisted row. -/
def LoadedCurrent (_call : Call) (h : History) (s : Store) : Prop :=
  NoChangeWrite h → ∀ id c, ⟨.changeFindByID id, .ok c⟩ ∈ h → c ∈ s.changes.rows

theorem LoadedCurrent.step {choice : Choice} (hcurrent : LoadedCurrent call h s) :
    LoadedCurrent call (⟨op, (handle op choice s).1⟩ :: h) (handle op choice s).2 := by
  intro hno id c hmem
  have hop : op.writesChange = false := hno _ List.mem_cons_self
  rw [(handle_changes_of_not_writesChange hop choice s).1]
  rcases List.mem_cons.mp hmem with heq | hold
  · obtain ⟨rfl, hanswer⟩ := event_eq_handle heq
    exact (Store.findChange_eq_ok_iff.mp (Fault.read_eq_ok hanswer.symm)).1
  · exact hcurrent (fun ev hev => hno ev (List.mem_cons_of_mem _ hev)) id c hold

theorem loadedCurrent_reach (hseq : RunMeets cfg s sequential moves = true) :
    Pool.SequentialInv (fun _ => True) LoadedCurrent (reach cfg s moves) := by
  refine sequential_reach_induction sequential ?_ ?_ ?_ trivial moves hseq
  · intro π call hidle
    exact hidle
  · intro π call _ _ _ id c hmem
    simp at hmem
  · intro π tid choice call op next hist _ _ _ _ _ hcurrent
    exact ⟨trivial, hcurrent.step⟩

theorem Written.mem_rows (hseq : RunMeets cfg s sequential moves = true) {tid : Nat}
    {t : ServiceThread} (ht : (reach cfg s moves).threads[tid]? = some t)
    (hopen : t.prog.isDone = false) (hwritten : Written t.call c c' t.hist) :
    c ∈ (reach cfg s moves).state.changes.rows :=
  (loadedCurrent_reach hseq).unfinished tid t ht hopen hwritten.first c.id c hwritten.loaded

/-! ## The frame of a change -/

/-- What is never written again: the id, the name and the project. -/
def Change.identity (c : Change) : ChangeID × String × String :=
  (c.id, c.name, c.project)

def Store.identities (s : Store) : List (ChangeID × String × String) :=
  s.changes.rows.map Change.identity

def Change.fixed (c : Change) : ChangeID × String × String × ArtifactStoreMode × String × Time :=
  (c.id, c.name, c.project, c.artifactStore, c.baseRef, c.createdAt)

/-- The rows keep those columns, a change that was not active is as it was, and none is loaded as
active that was not. -/
structure ChangesFramed (s₀ : Store) (D : Log Op Op.Ret) (s : Store) : Prop where
  fixed : s.changes.rows.map Change.fixed = s₀.changes.rows.map Change.fixed
  settled : ∀ r ∈ s₀.changes.rows, r.status ≠ .active → r ∈ s.changes.rows
  loaded : ∀ tid id c, D tid ⟨.changeFindByID id, .ok c⟩ → c.status = .active →
    ∃ r ∈ s₀.changes.rows, r.id = c.id ∧ r.status = .active

theorem Store.exists_row_of_fixed
    (h : s.changes.rows.map Change.fixed = s'.changes.rows.map Change.fixed)
    (hr : r ∈ s.changes.rows) : ∃ r' ∈ s'.changes.rows, r'.id = r.id := by
  have hmem := List.mem_map_of_mem (f := Change.fixed) hr
  rw [h] at hmem
  obtain ⟨r', hr', heq⟩ := List.mem_map.mp hmem
  exact ⟨r', hr', congrArg Prod.fst heq⟩

theorem ChangesFramed.save {D : Log Op Op.Ret} {s₀ : Store} (h : ChangesFramed s₀ D s)
    (hsave : s.saveChange c = .ok s')
    (hknown : ∃ r ∈ s₀.changes.rows, r.id = c.id ∧ r.status = .active) : ChangesFramed s₀ D s' := by
  obtain ⟨r₀, hr₀, hid, hactive⟩ := hknown
  refine ⟨?_, fun r hr hsettled => ?_, h.loaded⟩
  · obtain ⟨-, -, -, ⟨-, hrows⟩ | ⟨hnew, -⟩⟩ := Store.saveChange_cases hsave
    · rw [hrows, List.map_map, ← h.fixed]
      refine List.map_congr_left fun r _ => ?_
      simp only [Function.comp_apply, Store.savedChange]
      split <;> rfl
    · obtain ⟨r, hr, heq⟩ := Store.exists_row_of_fixed h.fixed.symm hr₀
      exact absurd (heq.trans hid) (hnew r hr)
  · have hne : r.id ≠ c.id := fun heq =>
      hsettled (s₀.changes.eq_of_target_eq hr hr₀ (heq.trans hid.symm) ▸ hactive)
    have hmem := Store.savedChange_mem hsave (h.settled r hr hsettled)
    rwa [Store.savedChange, if_neg hne] at hmem

theorem reach_changesFramed (cfg : ServiceConfig) (s : Store) (moves : List ServiceMove) :
    ChangesFramed s (reach cfg s moves).Did (reach cfg s moves).state := by
  refine (Pool.log_induction (I := Good cfg) handle_answers (main_justified cfg)
    (fun _ _ hinv => hinv) ?_ ⟨rfl, fun _ hr _ => hr, fun _ _ _ hdid => hdid.elim⟩ moves
    (Pool.meets_eachStep_true handler (main cfg) _ moves)).holds
  intro D tid ch call op hist s₁ hhist _ _ hjust _ hinv
  have hrows : ChangesFramed s D (handle op ch s₁).2 := by
    rcases handle_changes_cases op ch s₁ with hsame | ⟨c', s₂, hwritten, hsave, hchanges⟩
    · exact ⟨hsame ▸ hinv.fixed, hsame ▸ hinv.settled, hinv.loaded⟩
    · obtain ⟨c, hwrite⟩ := written_of_justified hwritten hjust
      have hnext := hinv.save hsave
        (hwrite.id ▸ hinv.loaded tid c.id c ((hhist _).mpr hwrite.loaded) hwrite.active)
      exact ⟨hchanges ▸ hnext.fixed, hchanges ▸ hnext.settled, hinv.loaded⟩
  refine ⟨hrows.fixed, hrows.settled, ?_⟩
  rintro i id c (hold | ⟨-, heq⟩) hactive
  · exact hinv.loaded i id c hold hactive
  · obtain ⟨rfl, hanswer⟩ := event_eq_handle heq
    have hfound := (Store.findChange_eq_ok_iff.mp (Fault.read_eq_ok hanswer.symm)).1
    obtain ⟨r, hr, hid⟩ := Store.exists_row_of_fixed hinv.fixed hfound
    refine ⟨r, hr, hid, by_contra fun hsettled => hsettled ?_⟩
    rw [s₁.changes.eq_of_target_eq (hinv.settled r hr hsettled) hfound hid, hactive]

theorem reach_identities (cfg : ServiceConfig) (s : Store) (moves : List ServiceMove) :
    (reach cfg s moves).state.identities = s.identities := by
  have hfixed := congrArg (List.map fun columns => (columns.1, columns.2.1, columns.2.2.1))
    (reach_changesFramed cfg s moves).fixed
  rwa [List.map_map, List.map_map] at hfixed

/-- **The frame of a change.**  No run creates or removes a change, or moves it to another name,
project, store or base, and a change that is completed or aborted when the process starts stays
as it is. -/
theorem changes_framed (cfg : ServiceConfig) (s : Store) (moves : List ServiceMove) :
    (reach cfg s moves).state.changes.rows.map Change.fixed = s.changes.rows.map Change.fixed ∧
      ∀ r ∈ s.changes.rows, r.status ≠ .active → r ∈ (reach cfg s moves).state.changes.rows :=
  have hframed := reach_changesFramed cfg s moves
  ⟨hframed.fixed, hframed.settled⟩

end SophiaOrchestrator
