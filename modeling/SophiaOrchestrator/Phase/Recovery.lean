import SophiaOrchestrator.Effects.Relational
import SophiaOrchestrator.Phase.Service

/-!
# The boot recovery

`MarkStuckInterrupted` with what it returns: the number of phases it marked and the first
error it met.  The rows are marked through the full-row upsert of `PhaseRepo.Save`, so
that nothing but the status of a row changes is a fact about that statement.
-/

namespace SophiaOrchestrator

open Effects Prog

inductive RecoveryErr where
  | list (err : RepoErr)
  | refused (id : PhaseID) (err : PhaseErr)
  | save (id : PhaseID) (err : RepoErr)
  deriving Repr

/-- The loop of `MarkStuckInterrupted`.  A failure is remembered, if it is the first one, and
the loop goes on. -/
def markEach : List Phase → Nat → Option RecoveryErr → Program (Nat × Option RecoveryErr)
  | [], marked, firstErr => pure (marked, firstErr)
  | p :: rest, marked, firstErr =>
    match p.markInterrupted with
    | .error err => markEach rest marked (firstErr <|> some (.refused p.id err))
    | .ok p' => do
      match ← PhaseRepo.save p' with
      | .error err => markEach rest marked (firstErr <|> some (.save p'.id err))
      | .ok () => markEach rest (marked + 1) firstErr

def markStuckInterrupted : Program (Nat × Option RecoveryErr) := do
  match ← PhaseRepo.findAllRunning with
  | .error err => pure (0, some (.list err))
  | .ok stuck => markEach stuck 0 none

def failing (fails : Op → Bool) : Handler Op Op.Ret Unit Store where
  run op _ s := handle op { fault := if fails op then .before else .none } s

def recovery (fails : Op → Bool) (s : Store) :
    Effects.Outcome Op Op.Ret (Nat × Option RecoveryErr) Store :=
  markStuckInterrupted.eval (failing fails) (fun _ => false) (fun _ => ()) 0 s

def Phase.interrupted (p : Phase) : Phase :=
  { p with status := .interrupted }

def Store.Typed (s : Store) : Prop :=
  ∀ r ∈ s.phases.rows, r.stored = r ∧ r.fitsColumns = true

variable {fails : Op → Bool} {s s' : Store} {p r : Phase} {rest : List Phase}

theorem Phase.markInterrupted_of_running (h : p.status = .running) :
    p.markInterrupted = .ok p.interrupted := by
  simp [Phase.markInterrupted, h, PhaseStatus.isTerminal, Phase.interrupted]

@[simp] theorem Phase.interrupted_key (p : Phase) : p.interrupted.key = p.key := rfl

theorem Phase.interrupted_stored (h : p.stored = p) : p.interrupted.stored = p.interrupted := by
  have hcolumns : { p.stored with status := .interrupted } = p.interrupted := by
    rw [h]
    rfl
  exact hcolumns

theorem Store.Typed.interrupted (h : p.stored = p ∧ p.fitsColumns = true) :
    p.interrupted.stored = p.interrupted ∧ p.interrupted.fitsColumns = true :=
  ⟨Phase.interrupted_stored h.1, h.2⟩

/-- Saving a row of the database as interrupted changes that row, and only its status. -/
theorem savePhase_interrupted (htyped : s.Typed) (hp : p ∈ s.phases.rows) :
    ∃ s', s.savePhase p.interrupted = .ok s' ∧ s'.changes = s.changes ∧ s'.outbox = s.outbox ∧
      s'.audit = s.audit ∧
      s'.phases.rows = s.phases.rows.map fun r => if r.key = p.key then r.interrupted else r := by
  have hcolumns := Store.Typed.interrupted (htyped p hp)
  obtain ⟨s', hsave, -⟩ := (Store.save_then_find_iff s p.interrupted).mpr
    ⟨hcolumns.2, .inl ⟨p, hp, rfl, rfl⟩⟩
  obtain ⟨hchanges, houtbox, haudit, -, ⟨-, hrows⟩ | ⟨hfree, -⟩⟩ := Store.savePhase_cases hsave
  · refine ⟨s', hsave, hchanges, houtbox, haudit, hrows.trans (List.map_congr_left ?_)⟩
    intro r hr
    unfold Store.savedRow
    by_cases hkey : r.key = p.key
    · -- The key is unique, so the row updated is the one that was read.
      obtain rfl := s.phases.eq_of_target_eq hr hp hkey
      rw [Phase.interrupted_key, if_pos rfl, if_pos rfl, hcolumns.1]
      rfl
    · rw [if_neg hkey, if_neg (by simpa using hkey)]
  · exact absurd rfl (hfree p hp)

def swept (fails : Op → Bool) (rest : List Phase) (r : Phase) : Phase :=
  if r.key ∈ rest.map Phase.key ∧ fails (.phaseSave r.interrupted) = false then
    r.interrupted
  else
    r

/-- What the loop does from a database, with a number of phases marked and an error so far. -/
structure Sweeps (fails : Op → Bool) (rest : List Phase) (s : Store) (marked : Nat)
    (firstErr : Option RecoveryErr)
    (o : Effects.Outcome Op Op.Ret (Nat × Option RecoveryErr) Store) : Prop where
  changes : o.state.changes = s.changes
  outbox : o.state.outbox = s.outbox
  audit : o.state.audit = s.audit
  rows : o.state.phases.rows = s.phases.rows.map (swept fails rest)
  tried : ∀ p ∈ rest, ∃ answer, ⟨.phaseSave p.interrupted, answer⟩ ∈ o.hist
  marked : o.value.1 = marked + rest.countP fun p => !fails (.phaseSave p.interrupted)
  err : o.value.2.isSome = (firstErr.isSome || rest.any fun p => fails (.phaseSave p.interrupted))

theorem swept_cons_of_fails (hfails : fails (.phaseSave p.interrupted) = true)
    (hp : p ∈ s.phases.rows) (hr : r ∈ s.phases.rows) :
    swept fails (p :: rest) r = swept fails rest r := by
  unfold swept
  by_cases hkey : r.key = p.key
  · obtain rfl := s.phases.eq_of_target_eq hr hp hkey
    simp [hfails]
  · simp [hkey]

theorem swept_cons (hok : fails (.phaseSave p.interrupted) = false)
    (hfresh : p.key ∉ rest.map Phase.key) (hp : p ∈ s.phases.rows) (hr : r ∈ s.phases.rows) :
    swept fails (p :: rest) r =
      swept fails rest (if r.key = p.key then r.interrupted else r) := by
  unfold swept
  by_cases hkey : r.key = p.key
  · obtain rfl := s.phases.eq_of_target_eq hr hp hkey
    simp [hok, hfresh]
  · simp [hkey]

theorem Sweeps.cons_of_fails {marked : Nat} {firstErr : Option RecoveryErr} {err : RecoveryErr}
    {o : Effects.Outcome Op Op.Ret (Nat × Option RecoveryErr) Store}
    {answer : Except RepoErr Unit}
    (h : Sweeps fails rest s marked (firstErr <|> some err) o)
    (hfails : fails (.phaseSave p.interrupted) = true) (hp : p ∈ s.phases.rows) :
    Sweeps fails (p :: rest) s marked firstErr
      { o with hist := o.hist ++ [⟨.phaseSave p.interrupted, answer⟩] } where
  changes := h.changes
  outbox := h.outbox
  audit := h.audit
  rows := h.rows.trans (List.map_congr_left fun _ hr => (swept_cons_of_fails hfails hp hr).symm)
  tried := by
    intro q hq
    rcases List.mem_cons.mp hq with rfl | hq
    · exact ⟨answer, by simp⟩
    · obtain ⟨answered, hmem⟩ := h.tried q hq
      exact ⟨answered, List.mem_append_left _ hmem⟩
  marked := by simpa [hfails] using h.marked
  err := by
    rw [h.err]
    cases firstErr <;> simp [hfails]

theorem Sweeps.cons_of_saved {marked : Nat} {firstErr : Option RecoveryErr}
    {o : Effects.Outcome Op Op.Ret (Nat × Option RecoveryErr) Store}
    {answer : Except RepoErr Unit} (h : Sweeps fails rest s' (marked + 1) firstErr o)
    (hok : fails (.phaseSave p.interrupted) = false) (hp : p ∈ s.phases.rows)
    (hfresh : p.key ∉ rest.map Phase.key) (hchanges : s'.changes = s.changes)
    (houtbox : s'.outbox = s.outbox) (haudit : s'.audit = s.audit)
    (hrows : s'.phases.rows =
      s.phases.rows.map fun r => if r.key = p.key then r.interrupted else r) :
    Sweeps fails (p :: rest) s marked firstErr
      { o with hist := o.hist ++ [⟨.phaseSave p.interrupted, answer⟩] } where
  changes := h.changes.trans hchanges
  outbox := h.outbox.trans houtbox
  audit := h.audit.trans haudit
  rows := by
    rw [h.rows, hrows, List.map_map]
    exact List.map_congr_left fun r hr => (swept_cons hok hfresh hp hr).symm
  tried := by
    intro q hq
    rcases List.mem_cons.mp hq with rfl | hq
    · exact ⟨answer, by simp⟩
    · obtain ⟨answered, hmem⟩ := h.tried q hq
      exact ⟨answered, List.mem_append_left _ hmem⟩
  marked := by
    have hcount := h.marked
    simp only [List.countP_cons, hok, Bool.not_false, if_true]
    omega
  err := by simpa [hok] using h.err

theorem markEach_sweeps (htyped : s.Typed) (hrows : ∀ p ∈ rest, p ∈ s.phases.rows)
    (hrunning : ∀ p ∈ rest, p.status = .running) (hkeys : (rest.map Phase.key).Nodup)
    (marked n : Nat) (firstErr : Option RecoveryErr) :
    Sweeps fails rest s marked firstErr
      ((markEach rest marked firstErr).eval (failing fails) (fun _ => false)
        (fun _ => ()) n s) := by
  induction rest generalizing s marked n firstErr with
  | nil =>
    have hswept : swept fails [] = id := funext fun r => if_neg (by simp)
    exact ⟨rfl, rfl, rfl, by rw [hswept, List.map_id]; rfl, by simp, rfl,
      by simp [markEach, eval]⟩
  | cons p rest ih =>
    have hp : p ∈ s.phases.rows := hrows p List.mem_cons_self
    rw [List.map_cons, List.nodup_cons] at hkeys
    have hlater : ∀ q ∈ rest, q.status = .running :=
      fun q hq => hrunning q (List.mem_cons_of_mem _ hq)
    simp only [markEach, Phase.markInterrupted_of_running (hrunning p List.mem_cons_self)]
    cases hfails : fails (.phaseSave p.interrupted) with
    | true =>
      have hnext := ih htyped (fun q hq => hrows q (List.mem_cons_of_mem _ hq)) hlater hkeys.2
        marked (n + 1) (firstErr <|> some (.save p.interrupted.id .unavailable))
      have hanswer : (failing fails).run (.phaseSave p.interrupted) () s =
          (.error .unavailable, s) := by
        simp [failing, hfails, handle, Fault.write]
      rw [eval_perform_bind, hanswer]
      exact hnext.cons_of_fails hfails hp
    | false =>
      obtain ⟨s', hsave, hchanges, houtbox, haudit, hsaved⟩ := savePhase_interrupted htyped hp
      have hanswer : (failing fails).run (.phaseSave p.interrupted) () s = (.ok (), s') := by
        simp [failing, hfails, handle, Fault.write, hsave]
      have htyped' : s'.Typed := by
        intro r hr
        rw [hsaved] at hr
        obtain ⟨r₀, hr₀, rfl⟩ := List.mem_map.mp hr
        split
        · exact Store.Typed.interrupted (htyped r₀ hr₀)
        · exact htyped r₀ hr₀
      -- The rows still to be swept have other keys, so the save has not touched them.
      have hrows' : ∀ q ∈ rest, q ∈ s'.phases.rows := by
        intro q hq
        have hne : q.key ≠ p.key :=
          fun heq => hkeys.1 (heq ▸ List.mem_map_of_mem hq)
        rw [hsaved]
        exact List.mem_map.mpr ⟨q, hrows q (List.mem_cons_of_mem _ hq), if_neg hne⟩
      have hnext := ih htyped' hrows' hlater hkeys.2 (marked + 1) (n + 1) firstErr
      rw [eval_perform_bind, hanswer]
      exact hnext.cons_of_saved hfails hp hkeys.1 hchanges houtbox haudit hsaved

/-! ## The sweep as a whole -/

theorem nodup_keys_findAllRunning (s : Store) : (s.findAllRunning.map Phase.key).Nodup := by
  have hperm := List.perm_insertionSort (fun p q => Store.startedKey p ≤ Store.startedKey q)
    (s.phases.rows.filter fun p => p.status = .running)
  rw [Store.findAllRunning, (hperm.map Phase.key).nodup_iff]
  exact s.phases.target_nodup.sublist (List.filter_sublist.map Phase.key)

theorem countP_findAllRunning (s : Store) (f : Phase → Bool) :
    s.findAllRunning.countP f = s.phases.rows.countP fun p => p.status = .running && f p := by
  have hperm := List.perm_insertionSort (fun p q => Store.startedKey p ≤ Store.startedKey q)
    (s.phases.rows.filter fun p => p.status = .running)
  rw [Store.findAllRunning, hperm.countP_eq, List.countP_filter]
  simp [Bool.and_comm]

/-- Among the rows of the database, the ones swept are those that are running. -/
theorem swept_findAllRunning (hr : r ∈ s.phases.rows) :
    swept fails s.findAllRunning r =
      if r.status = .running ∧ fails (.phaseSave r.interrupted) = false then
        r.interrupted
      else
        r := by
  have hkey : r.key ∈ s.findAllRunning.map Phase.key ↔ r.status = .running := by
    constructor
    · intro hmem
      obtain ⟨p, hp, heq⟩ := List.mem_map.mp hmem
      obtain ⟨hrow, hrunning⟩ := Store.mem_findAllRunning.mp hp
      rwa [s.phases.eq_of_target_eq hr hrow heq.symm]
    · intro hrunning
      exact List.mem_map_of_mem (Store.mem_findAllRunning.mpr ⟨hr, hrunning⟩)
  simp only [swept, hkey]

/-- For every set of rows and every pattern of failing statements: when the listing fails
nothing changes and its error is returned; else every running row is tried, exactly the
running rows whose save does not fail change, in nothing but their status, their number is
returned, and an error is returned exactly when some save failed. -/
theorem recovery_marks_running (fails : Op → Bool) (s : Store) (htyped : s.Typed) :
    (fails .phaseFindAllRunning = true →
      (recovery fails s).state = s ∧ (recovery fails s).value = (0, some (.list .unavailable))) ∧
    (fails .phaseFindAllRunning = false →
      (recovery fails s).state.changes = s.changes ∧
      (recovery fails s).state.outbox = s.outbox ∧
      (recovery fails s).state.audit = s.audit ∧
      (recovery fails s).state.phases.rows = s.phases.rows.map (fun r =>
        if r.status = .running ∧ fails (.phaseSave r.interrupted) = false then
          { r with status := .interrupted }
        else
          r) ∧
      (∀ r ∈ s.phases.rows, r.status = .running →
        ∃ answer, ⟨.phaseSave r.interrupted, answer⟩ ∈ (recovery fails s).hist) ∧
      (recovery fails s).value.1 = s.phases.rows.countP (fun r =>
        r.status = .running && !fails (.phaseSave r.interrupted)) ∧
      ((recovery fails s).value.2.isSome = true ↔
        ∃ r ∈ s.phases.rows, r.status = .running ∧
          fails (.phaseSave r.interrupted) = true)) := by
  unfold recovery markStuckInterrupted
  constructor
  · intro hfails
    have hanswer : (failing fails).run .phaseFindAllRunning () s = (.error .unavailable, s) := by
      simp [failing, hfails, handle, Fault.read]
    rw [eval_perform_bind, hanswer]
    exact ⟨rfl, rfl⟩
  · intro hfails
    have hanswer : (failing fails).run .phaseFindAllRunning () s =
        (.ok s.findAllRunning, s) := by
      simp [failing, hfails, handle, Fault.read]
    have hsweeps : Sweeps fails s.findAllRunning s 0 none _ := markEach_sweeps htyped
      (fun p hp => (Store.mem_findAllRunning.mp hp).1)
      (fun p hp => (Store.mem_findAllRunning.mp hp).2) (nodup_keys_findAllRunning s) 0 1 none
    rw [eval_perform_bind, hanswer]
    refine ⟨hsweeps.changes, hsweeps.outbox, hsweeps.audit,
      hsweeps.rows.trans (List.map_congr_left fun r hr => swept_findAllRunning hr), ?_, ?_, ?_⟩
    · intro r hr hrunning
      obtain ⟨answer, hmem⟩ := hsweeps.tried r (Store.mem_findAllRunning.mpr ⟨hr, hrunning⟩)
      exact ⟨answer, List.mem_append_left _ hmem⟩
    · rw [← countP_findAllRunning]
      simpa using hsweeps.marked
    · have herr := hsweeps.err
      simp only [Option.isSome_none, Bool.false_or] at herr
      refine (Bool.coe_iff_coe.mpr herr).trans ?_
      simp [Store.mem_findAllRunning, and_assoc]

def stuckPhase (id : Nat) (pt : PhaseType) (status : PhaseStatus) : Phase where
  id := ⟨id⟩
  changeID := ⟨1⟩
  pType := pt
  status := status
  confidence := 0
  retryBudget := 3
  attempts := 1

def stuckStore : Store where
  changes := ⟨[sampleChange .spec], by simp, by simp⟩
  phases := ⟨[stuckPhase 1 .spec .running, stuckPhase 2 .design .running,
      stuckPhase 3 .explore .needsContext], by decide, by decide⟩
  outbox := Sql.Table.empty
  audit := []
  phase_change := by simp [stuckPhase, sampleChange]

def failsDesign : Op → Bool
  | .phaseSave p => p.pType = .design
  | _ => false

/-- One of the two running phases is marked, and the other one's error is returned. -/
theorem recovery_stuckStore :
    (recovery failsDesign stuckStore).value.1 = 1 ∧
      (recovery failsDesign stuckStore).value.2.isSome = true := by
  have htyped : stuckStore.Typed := by
    intro r hr
    have hzero : numeric32 0 = 0 := by decide +kernel
    simp only [stuckStore, List.mem_cons, List.not_mem_nil, or_false] at hr
    rcases hr with rfl | rfl | rfl <;>
      simp [stuckPhase, Phase.stored, Phase.fitsColumns, hzero]
  obtain ⟨-, -, -, -, -, hmarked, herr⟩ :=
    (recovery_marks_running failsDesign stuckStore htyped).2 rfl
  exact ⟨hmarked, herr.mpr ⟨stuckPhase 2 .design .running, by simp [stuckStore], rfl, rfl⟩⟩

end SophiaOrchestrator
