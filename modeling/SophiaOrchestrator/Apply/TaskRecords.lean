import SophiaOrchestrator.Apply.Goroutines
import SophiaOrchestrator.Apply.Changes

/-!
# What the row of a task says while it is attempted

`ClaimTask` writes the claim to the row of a task; the task in memory is never claimed.  So
`Task.Complete` is refused at every accepted envelope, and each later save writes the row from
a task without a claimer and without an envelope.

The rows stay consistent only while no attempt comes to an outcome: then every task that is
saved is pending without a claimer.
-/

namespace SophiaOrchestrator.Apply

open Effects Prog

/-- The row names a claimer unless the task is pending, and a task that is done has its
envelope. -/
structure Task.Consistent (row : Task) : Prop where
  claimed : row.claimedBy.isSome = true ↔ row.status ≠ .pending
  accepted : row.status = .done → row.envelope.isSome = true

/-- The task is pending without a claimer, or claimed with one. -/
def Task.Open (t : Task) : Prop :=
  (t.status = .pending ∧ t.claimedBy = none) ∨
    (t.status = .claimed ∧ t.claimedBy.isSome = true)

theorem Task.Open.consistent {t : Task} (h : t.Open) : t.Consistent := by
  rcases h with ⟨hstatus, hnone⟩ | ⟨hstatus, hsome⟩
  · exact ⟨by simp [hstatus, hnone], by simp [hstatus]⟩
  · exact ⟨by simp [hstatus, hsome], by simp [hstatus]⟩

theorem Task.Open.release {t : Task} (h : t.Open) : (t.release.toOption.getD t).Open := by
  left
  rcases h with ⟨hstatus, hnone⟩ | ⟨hstatus, -⟩
  · simp [Task.release, hstatus, hnone, Except.toOption]
  · simp [Task.release, hstatus, Except.toOption]

def Goroutine.Open : Goroutine → Prop
  | .group _ _ _ _ g => ∀ t ∈ g.tasks, t.Open
  | .task _ _ _ _ _ t => t.Open

/-- No attempt at a task comes to an outcome: its prompt is built, and its agent has no quota
left. -/
def withoutOutcome : StepCondition
  | .buildPrompt _ _ _ _, ch, _, _ => ch.prompt.isOk
  | .dispatch _ req, ch, _, _ =>
    match req.target with
    | .implement _ => lacksQuota ch.dispatch
    | .buildRepair _ => true
  | _, _, _, _ => true

def Op.Unfinished : (op : Op) → op.Ret → Prop
  | .findTasks _ _, answer => ∀ tasks, answer = .ok tasks → ∀ t ∈ tasks, t.Open
  | .beginGoroutine _, answer => ∀ gr, answer = some gr → gr.Open
  | .buildPrompt _ _ _ _, answer => answer.isOk = true
  | .dispatch _ req, answer => ∀ id, req.target = .implement id → lacksQuota answer = true
  | _, _ => True

def Op.KeepsOpen : Op → Prop
  | .saveTask _ t => t.Open
  | .go gr => gr.Open
  | _ => True

abbrev StaysOpen {α : Type} (Q : α → Prop) (prog : Program α) : Prop :=
  prog.Uses Op.Unfinished Op.KeepsOpen Q

section Programs

variable {cfg : RunConfig} {x k team : Nat} {c : Change} {p : Phase} {group : Group} {task : Task}

/-! ## The goroutine of a task -/

def TaskStage.Open : TaskStage → Prop
  | .waits _ _ task | .ready _ _ task | .informed _ _ task _ | .prompted _ _ task => task.Open
  | .sent _ _ task quota _ | .freed _ task quota => task.Open ∧ quota = true
  | _ => True

theorem Op.keepsOpen_of_incidental {op : Op} (hop : op.incidental = true) : op.KeepsOpen := by
  cases op <;> trivial

theorem TaskMove.keepsOpen {ev : Event} {s s' : TaskStage} (hopen : task.Open)
    (hmove : TaskMove cfg k x team c task s ev s') (hs : s.Open) :
    ev.op.KeepsOpen ∧ (ev.op.Unfinished ev.ret → s'.Open) := by
  cases hmove with
  | stay hop => exact ⟨Op.keepsOpen_of_incidental hop, fun _ => hs⟩
  | failed hop => exact ⟨Op.keepsOpen_of_incidental hop, fun _ => trivial⟩
  | claimed => exact ⟨trivial, fun _ => hopen⟩
  | granted | refused | reads | prompted | freed => exact ⟨trivial, fun _ => hs⟩
  | unprompted => exact ⟨trivial, fun hbuilt => by cases hbuilt⟩
  | dispatched => exact ⟨trivial, fun hquota => ⟨hs, hquota _ rfl⟩⟩
  -- An agent without quota leaves nothing to be recorded.
  | completed | retried | counted | used => cases hs.2
  | fallsBack => exact ⟨trivial, fun _ => hs.1⟩
  | released | abandoned => exact ⟨hs.1.release, fun _ => trivial⟩
  | _ => exact ⟨trivial, fun _ => trivial⟩

theorem taskGoroutine_staysOpen (hopen : task.Open) :
    StaysOpen (fun _ => True) (taskGoroutine cfg k x team c p group task) :=
  taskGoroutine_follows.uses Op.nonempty_ret (J := TaskStage.Open)
    (fun _ _ _ hmove hs => hmove.keepsOpen hopen hs) (fun _ _ _ _ => trivial) trivial

/-! ## The goroutine of a group -/

theorem GroupMove.keepsOpen {ev : Event} {s s' : GroupStage} (hopen : ∀ t ∈ group.tasks, t.Open)
    (hmove : GroupMove cfg k x c p group s ev s') : ev.op.KeepsOpen := by
  obtain ⟨op, answer⟩ := ev
  rcases hmove.op_cases with hop | ⟨group', t, ht, rfl⟩
  · cases op <;> trivial
  · exact hopen t ht

theorem groupGoroutine_staysOpen (hopen : ∀ t ∈ group.tasks, t.Open) :
    StaysOpen (fun _ => True) (groupGoroutine cfg k x c p group) :=
  groupGoroutine_follows.uses Op.nonempty_ret (J := fun _ => True)
    (fun _ _ _ hmove _ => ⟨hmove.keepsOpen hopen, fun _ => trivial⟩)
    (fun _ _ _ _ => trivial) trivial

/-! ## Execute -/

def OpenGroups (groups : List Group) : Prop :=
  ∀ g ∈ groups, ∀ t ∈ g.tasks, t.Open

def ExecStage.Open : ExecStage → Prop
  | .loading _ _ _ _ groups | .assigning groups _ => OpenGroups groups
  | .making _ _ _ made tasks => OpenGroups made ∧ ∀ t ∈ tasks, t.Open
  | .running _ rest => OpenGroups rest
  | _ => True

theorem OpenGroups.concat {groups : List Group} (h : OpenGroups groups)
    (hgroup : ∀ t ∈ group.tasks, t.Open) : OpenGroups (groups ++ [group]) := by
  intro g hg
  rcases List.mem_append.mp hg with hold | hlast
  · exact h g hold
  · rw [List.mem_singleton.mp hlast]
    exact hgroup

theorem ExecStage.Assigns.open {s : ExecStage} {groups rest : List Group}
    (hassigns : s.Assigns groups rest) (hs : s.Open) : OpenGroups groups := by
  cases hassigns with
  | boards hboards =>
    cases hboards with
    | loaded => exact hs
    | built => exact hs.1
  | assigning => exact hs

theorem ExecStage.Starts.open {s : ExecStage} {started rest : List Group}
    (hstarts : s.Starts cfg c started rest) (hs : s.Open) : OpenGroups rest := by
  cases hstarts with
  | assigned hassigns =>
    intro g hg
    obtain ⟨g₀, hg₀, rfl⟩ := List.mem_map.mp hg
    exact hassigns.open hs g₀ hg₀
  | running => exact hs

theorem ExecMove.keepsOpen {ev : Event} {s s' : ExecStage} (hmove : ExecMove cfg x c p s ev s')
    (hs : s.Open) : ev.op.KeepsOpen ∧ (ev.op.Unfinished ev.ret → s'.Open) := by
  have hminor : ∀ {op : Op}, op.minor = true → op.KeepsOpen := fun {op} hop => by
    cases op <;> trivial
  cases hmove with
  | stay hop => exact ⟨hminor hop, fun _ => hs⟩
  | fails _ hop => exact ⟨hminor hop, fun _ => trivial⟩
  | groups => exact ⟨trivial, fun _ _ hg => by cases hg⟩
  | loads => exact ⟨trivial, fun hloaded => OpenGroups.concat hs (hloaded _ rfl)⟩
  | begins => exact ⟨trivial, fun _ => ⟨fun _ hg => (by cases hg), fun _ ht => by cases ht⟩⟩
  | numbers | unnumbered => exact ⟨trivial, fun _ => hs⟩
  | @makes _ _ _ _ made _ answer _ _ hnew =>
    have hopen : ∀ t ∈ made.tasks, t.Open := fun t ht => .inl ⟨(hnew t ht).1, (hnew t ht).2.2⟩
    cases answer with
    | error err => exact ⟨trivial, fun _ => trivial⟩
    | ok _ => exact ⟨trivial, fun _ => ⟨hs.1.concat hopen, hopen⟩⟩
  | @saves _ _ _ _ _ _ answer =>
    refine ⟨hs.2 _ List.mem_cons_self, fun _ => ?_⟩
    cases answer with
    | error err => trivial
    | ok _ => exact ⟨hs.1, fun t ht => hs.2 t (List.mem_cons_of_mem _ ht)⟩
  | @assigns _ _ _ _ answer hassigns =>
    cases answer with
    | error err => exact ⟨trivial, fun _ => trivial⟩
    | ok _ => exact ⟨trivial, fun _ => hassigns.open hs⟩
  | starts hstarts =>
    exact ⟨hstarts.open hs _ List.mem_cons_self, fun _ g hg =>
      hstarts.open hs g (List.mem_cons_of_mem _ hg)⟩
  | _ => exact ⟨trivial, fun _ => trivial⟩

theorem executeIn_staysOpen : StaysOpen (fun _ => True) (executeIn cfg x c p) :=
  executeIn_follows.uses Op.nonempty_ret (J := ExecStage.Open)
    (fun _ _ _ hmove hs => hmove.keepsOpen hs) (fun _ _ _ _ => trivial) trivial

theorem main_staysOpen (call : Call) : StaysOpen (fun _ => True) (main cfg call) := by
  cases call with
  | execute c p status =>
    refine uses_perform_bind trivial fun _ _ => uses_perform_bind trivial fun x _ => ?_
    exact uses_bind executeIn_staysOpen fun _ _ => ⟨trivial, fun _ _ => trivial⟩
  | cancel x => exact ⟨trivial, fun _ _ => trivial⟩
  | goroutine k =>
    refine uses_perform_bind trivial fun answer hopen => ?_
    rcases answer with _ | ⟨x, i, c, p, g⟩ | ⟨x, team, c, p, g, t⟩
    · trivial
    · exact groupGoroutine_staysOpen (hopen _ rfl)
    · exact taskGoroutine_staysOpen (hopen _ rfl)

end Programs

/-! ## Every run -/

structure AllOpen (s : State) : Prop where
  rows : ∀ row ∈ s.db.tasks.rows, row.Open
  posted : ∀ gr ∈ s.posted, gr.Open

section Step

variable {cfg : RunConfig} {op : Op} {ch : Choice} {s : State}

theorem rows_open_handle (h : AllOpen s) (hop : op.KeepsOpen) :
    ∀ row ∈ (handle cfg op ch s).2.db.tasks.rows, row.Open := by
  intro row hrow
  rcases handle_tasks cfg op ch s with hsame | ⟨x, t, db, -, hsave, hdb⟩ | ⟨x, id, sid, hdb⟩
  · exact h.rows row (hsame ▸ hrow)
  · rw [hdb] at hrow
    rcases BoardStore.columns_of_saveTask hsave hrow with hold | ⟨hstatus, hclaimed⟩
    · exact h.rows row hold
    · unfold Task.Open
      rw [hstatus, hclaimed]
      exact hop
  · rw [hdb] at hrow
    rcases BoardStore.mem_of_claimTask hrow with hold | ⟨old, -, -, -, rfl⟩
    · exact h.rows row hold
    · exact .inr ⟨rfl, rfl⟩

theorem posted_handle {gr : Goroutine} (hgr : gr ∈ (handle cfg op ch s).2.posted) :
    gr ∈ s.posted ∨ op = .go gr := by
  have hposted : (handle cfg op ch s).2.posted = (s.skeleton.step op).posted :=
    congrArg Skeleton.posted (handle_skeleton cfg op ch s)
  rw [hposted] at hgr
  cases op
  case go gr' =>
    cases gr' <;> exact (List.mem_append.mp hgr).imp_right fun hnew => by
      rw [List.mem_singleton.mp hnew]
  all_goals exact .inl hgr

theorem unfinished_handle {hist : History} (h : AllOpen s)
    (hok : withoutOutcome op ch hist s = true) : op.Unfinished (handle cfg op ch s).1 := by
  cases op
  case findTasks x gid =>
    exact fun tasks htasks t ht => h.rows t (findTasks_answer htasks ht)
  case beginGoroutine k => exact fun gr hgr => h.posted gr (List.mem_of_getElem? hgr)
  case buildPrompt c t path status => exact hok
  case dispatch x req =>
    intro id htarget
    simp only [withoutOutcome, htarget] at hok
    exact hok
  all_goals trivial

end Step

/-- In every run in which no attempt comes to an outcome, from a state in which every task is
pending or claimed, the rows are consistent in every state reached. -/
theorem rows_consistent_of_withoutOutcome (cfg : RunConfig) (s : State) (hidle : s.Idle)
    (hrows : ∀ row ∈ s.db.tasks.rows, row.Open) (moves : List ApplyMove)
    (hok : RunMeets cfg s withoutOutcome moves = true) :
    ∀ row ∈ (reach cfg s moves).state.db.tasks.rows, row.Consistent := by
  have hopen : AllOpen (reach cfg s moves).state := by
    refine Pool.state_of_uses (fun call => main_staysOpen call) ?_ ?_ ⟨hrows, ?_⟩ moves hok
    · intro op ch hist s hop hstep hopen
      refine ⟨unfinished_handle hopen hstep, rows_open_handle hopen hop, fun gr hgr => ?_⟩
      rcases posted_handle hgr with hold | rfl
      · exact hopen.posted gr hold
      · exact hop
    · exact fun s hopen => ⟨hopen.rows, hopen.posted⟩
    · rw [hidle.posted]
      simp
  exact fun row hrow => (hopen.rows row hrow).consistent

def quotaRun : List ApplyMove :=
  let ch := { sampleChoice [sampleEntry "web" ["login"]] with
    dispatch := .error (.quota ⟨"p", "m", 0, ""⟩) }
  sampleExecute :: steps 0 20 ch ++ .start (.goroutine 0) :: steps 1 20 ch ++
    .start (.goroutine 1) :: steps 2 30 ch ++ steps 1 20 ch ++ steps 0 10 ch

theorem rows_consistent_quotaRun :
    RunMeets sampleConfig {} withoutOutcome quotaRun = true ∧
      ((reach sampleConfig {} quotaRun).state.db.tasks.rows.map fun row =>
        (row.status, row.claimedBy.isSome)) = [(.pending, false)] ∧
      ∀ row ∈ (reach sampleConfig {} quotaRun).state.db.tasks.rows, row.Consistent := by
  have hmeets : RunMeets sampleConfig {} withoutOutcome quotaRun = true := by decide +kernel
  refine ⟨hmeets, by decide +kernel, ?_⟩
  refine rows_consistent_of_withoutOutcome sampleConfig {} ⟨rfl, rfl, rfl⟩ ?_ quotaRun hmeets
  intro row hrow
  cases hrow

def completedRun : List ApplyMove :=
  let ch := sampleChoice [sampleEntry "web" ["login"]]
  sampleExecute :: steps 0 20 ch ++ .start (.goroutine 0) :: steps 1 20 ch ++
    .start (.goroutine 1) :: steps 2 30 ch ++ steps 1 20 ch ++ steps 0 10 ch

/-- The task of an `Execute` that is done: its row has no claimer and no envelope. -/
theorem completed_row_inconsistent :
    ((reach sampleConfig {} completedRun).state.db.tasks.rows.map fun row =>
        (row.status, row.claimedBy.isSome, row.envelope.isSome)) = [(.done, false, false)] ∧
      ∃ row ∈ (reach sampleConfig {} completedRun).state.db.tasks.rows, ¬row.Consistent := by
  have hrows : ((reach sampleConfig {} completedRun).state.db.tasks.rows.map fun row =>
      (row.status, row.claimedBy.isSome, row.envelope.isSome)) = [(.done, false, false)] := by
    decide +kernel
  refine ⟨hrows, ?_⟩
  obtain ⟨row, hmem, hfields⟩ := List.mem_map.mp (hrows ▸ List.mem_singleton_self _)
  simp only [Prod.mk.injEq] at hfields
  refine ⟨row, hmem, fun hcons => ?_⟩
  have haccepted := hcons.accepted hfields.1
  rw [hfields.2.2] at haccepted
  cases haccepted

end SophiaOrchestrator.Apply
