import SophiaOrchestrator.Effects.Quiet
import SophiaOrchestrator.Apply.Service

/-!
# What the goroutines of apply have done before an operation

Every program of the apply service is judged by its own history.  `Justified` says,
for each operation that matters to the properties of the service, what its goroutine
has done before.
-/

namespace SophiaOrchestrator.Apply

open Effects Prog

variable {ev : Event} {h past h' : History} {x k team : Nat} {c : Change} {p : Phase} {g : Group}
  {t : Task} {op : Op} {cfg : RunConfig} {row : GroupRow} {pid : PhaseID} {groups : List Group}
  {cwd : String}

def Op.Answers : (op : Op) → op.Ret → Prop
  | .findGroups _ bid, answer => ∀ rows, answer = .ok rows →
      (rows.map GroupRow.id).Nodup ∧ ∀ row ∈ rows, row.boardID = bid
  | .findTasks _ gid, answer => ∀ tasks, answer = .ok tasks →
      (tasks.map Task.id).Nodup ∧ ∀ t ∈ tasks, t.groupID = gid ∧ t.description ≠ ""
  | _, _ => True

/-! ## The order of the operations -/

/-- The stage of an operation in its goroutine.  Operations of stage zero may come at
any time. -/
def Op.stage : Op → Nat
  | .newExec _ | .takeGroupSlot _ => 1
  | .findBoard _ _ => 2
  | .findGroups _ _ | .findTasks _ _ | .newBoardID | .claimTask _ _ _ | .saveTask _ _ => 3
  | .dispatch _ req =>
    match req.target with
    | .implement _ => 3
    | .buildRepair _ => 0
  | .go _ => 4
  | .waitGroups _ | .waitTasks _ => 5
  | .breakerTripped _ => 6
  | .readResults _ => 7
  | .groupDone _ _ | .taskDone _ _ | .returned _ _ => 8
  | _ => 0

/-- An operation that a goroutine performs at most once. -/
def Op.single : Op → Bool
  | .newExec _ | .findBoard _ _ | .findGroups _ _ | .claimTask _ _ _ | .waitGroups _ | .waitTasks _
  | .groupDone _ _ | .taskDone _ _ | .returned _ _ => true
  | _ => false

/-! ## Views -/

structure View where
  stage : Nat := 0
  /-- Whether a slot of the spawn governor is held. -/
  slot : Bool := false
  groups : List Group := []
  tasks : List Task := []
  tasksList : Option TasksList := none
  groupIDs : List GroupID := []
  /-- Whether a new board was begun. -/
  newBoard : Bool := false

def View.board (v : View) : Option TasksList × List GroupID × Bool :=
  (v.tasksList, v.groupIDs, v.newBoard)

def View.after (v : View) (ev : Event) : View where
  stage := max v.stage ev.op.stage
  slot :=
    match ev with
    | ⟨.spawnAcquire _, .ok ()⟩ => true
    | ⟨.spawnRelease _, _⟩ => false
    | _ => v.slot
  groups :=
    match ev.op with
    | .go (.group _ _ _ _ g) => v.groups ++ [g]
    | _ => v.groups
  tasks :=
    match ev.op with
    | .go (.task _ _ _ _ _ t) => v.tasks ++ [t]
    | _ => v.tasks
  tasksList :=
    match ev with
    | ⟨.memoryGet _ _ .tasks, .ok content⟩ => (parseTasksList content).toOption
    | _ => v.tasksList
  groupIDs :=
    match ev with
    | ⟨.newGroupID, .ok gid⟩ => v.groupIDs ++ [gid]
    | _ => v.groupIDs
  newBoard :=
    match ev.op with
    | .newBoardID => true
    | _ => v.newBoard

def view : History → View
  | [] => {}
  | ev :: past => (view past).after ev

@[simp] theorem view_nil : view [] = {} := rfl

@[simp] theorem view_cons (ev : Event) (past : History) :
    view (ev :: past) = (view past).after ev := rfl

theorem stage_le_of_mem (hmem : ev ∈ h) :
    ev.op.stage ≤ (view h).stage := by
  induction h with
  | nil => cases hmem
  | cons e past ih =>
    rcases List.mem_cons.mp hmem with rfl | hpast
    · exact le_max_right _ _
    · exact (ih hpast).trans (le_max_left _ _)

theorem mem_groups_of_mem {i : Nat} (hmem : ⟨.go (.group x i c p g), k⟩ ∈ h) :
    g ∈ (view h).groups := by
  induction h with
  | nil => cases hmem
  | cons ev past ih =>
    rcases List.mem_cons.mp hmem with rfl | hpast
    · simp [View.after]
    · simp only [view_cons, View.after]
      split
      · exact List.mem_append_left _ (ih hpast)
      · exact ih hpast

theorem tasks_ne_nil_of_mem (hmem : ⟨.go (.task x team c p g t), k⟩ ∈ h) : (view h).tasks ≠ [] := by
  induction h with
  | nil => cases hmem
  | cons ev past ih =>
    rcases List.mem_cons.mp hmem with rfl | hpast
    · simp [View.after]
    · simp only [view_cons, View.after]
      split
      · simp
      · exact ih hpast

theorem exists_go_of_mem_tasks (hmem : t ∈ (view h).tasks) :
    ∃ x team c p g k, ⟨.go (.task x team c p g t), k⟩ ∈ h := by
  induction h with
  | nil => cases hmem
  | cons ev past ih =>
    have hpast : t ∈ (view past).tasks →
        ∃ x team c p g k, ⟨.go (.task x team c p g t), k⟩ ∈ ev :: past := fun hold => by
      obtain ⟨x, team, c, p, g, k, hgo⟩ := ih hold
      exact ⟨x, team, c, p, g, k, List.mem_cons_of_mem _ hgo⟩
    obtain ⟨op, answer⟩ := ev
    cases op
    case go gr =>
      cases gr with
      | group x i c p g => exact hpast hmem
      | task x team c p g t' =>
        rcases List.mem_append.mp hmem with hold | hnew
        · exact hpast hold
        · obtain rfl := List.mem_singleton.mp hnew
          exact ⟨x, team, c, p, g, answer, List.mem_cons_self⟩
    all_goals exact hpast hmem

def Ordered (op : Op) (past : History) : Prop :=
  op.stage ≠ 0 →
    if op.single = true then (view past).stage < op.stage else (view past).stage ≤ op.stage

theorem Ordered.stage_le (hordered : Ordered op past) (hstage : op.stage ≠ 0) (hmem : ev ∈ past) :
    ev.op.stage ≤ op.stage := by
  have hle := stage_le_of_mem hmem
  have hop := hordered hstage
  split at hop
  · omega
  · omega

theorem Ordered.stage_lt (hordered : Ordered op past) (hstage : op.stage ≠ 0)
    (hsingle : op.single = true) (hmem : ev ∈ past) :
    ev.op.stage < op.stage := by
  have hle := stage_le_of_mem hmem
  have hop := hordered hstage
  rw [if_pos hsingle] at hop
  omega

/-! ## Operations without a justification -/

/-- An operation that needs no justification and that no view records. -/
def Op.calm : Op → Bool
  | .newExec _ | .breakerTripped _ | .go _ | .beginGoroutine _ | .groupDone _ _
  | .waitGroups _ | .taskDone _ _ | .waitTasks _ | .setResult _ _ _ | .readResults _
  | .findBoard _ _ | .findGroups _ _ | .findTasks _ _ | .saveGroup _ _ | .saveTask _ _
  | .claimTask _ _ _ | .spawnAcquire _ | .spawnRelease _ | .newBoardID | .newGroupID
  | .takeGroupSlot _ | .memoryGet _ _ .tasks | .dispatch _ _ | .returned _ _ => false
  | _ => true

theorem View.after_of_calm (v : View) (hcalm : ev.op.calm = true) :
    v.after ev = v := by
  obtain ⟨op, answer⟩ := ev
  cases op
  case memoryGet x c artifact =>
    cases artifact with
    | tasks => cases hcalm
    | spec | design | applyProgress => simp [View.after, Op.stage]
  all_goals first | (cases hcalm; done) | simp [View.after, Op.stage]

/-- An operation that has no part in the shared map of statuses, in the prompts, in the
saves of tasks, in the start of the goroutines of tasks and in the begin and the end of
any call. -/
def Op.aside : Op → Bool
  | .setPriorPhasesStatus _ | .readPriorPhasesStatus | .buildPrompt _ _ _ _ | .saveTask _ _
  | .go (.task _ _ _ _ _ _) | .newExec _ | .returned _ _ | .beginGoroutine _ | .groupDone _ _
  | .taskDone _ _ => false
  | _ => true

def Op.tame (op : Op) : Bool :=
  op.calm && op.aside

theorem Op.calm_of_tame (h : op.tame = true) : op.calm = true :=
  (Bool.and_eq_true_iff.mp h).1

def Op.shares : Op → Bool
  | .newDAG _ _ | .signal _ _ _ | .receive _ _ | .takeGroupSlot _ | .releaseGroupSlot _
  | .takeImplSlot _ _ | .releaseImplSlot _ => true
  | _ => false

/-- An operation that takes a slot or gives it back, that dispatches an agent, or with which
the goroutine of a group ends. -/
def Op.metered : Op → Bool
  | .takeGroupSlot _ | .releaseGroupSlot _ | .takeImplSlot _ _ | .releaseImplSlot _
  | .spawnAcquire _ | .spawnRelease _ | .dispatch _ _ | .groupDone _ _ => true
  | _ => false

/-- An operation by which goroutines wait for each other, or use what is limited. -/
def Op.contends (op : Op) : Bool :=
  match op with
  | .signal _ _ _ | .receive _ _ => true
  | _ => op.metered

def Op.plain (op : Op) : Bool :=
  op.tame && !op.shares

theorem Op.tame_of_plain (h : op.plain = true) : op.tame = true :=
  (Bool.and_eq_true_iff.mp h).1

/-! ## What can keep an agent from being dispatched -/

/-- The answer ends the way of the goroutine to its dispatches, or can end it. -/
def mishap : Event → Bool
  | ⟨.memoryGet _ _ .tasks, .ok content⟩ =>
    match parseTasksList content with
    | .ok tl => tl.groups.isEmpty
    | .error _ => true
  | ⟨.memoryGet _ _ .tasks, .error _⟩ => true
  | ⟨.memoryGet _ _ .spec, .error (.other _)⟩ => true
  | ⟨.memoryGet _ _ .design, .error (.other _)⟩ => true
  | ⟨.findBoard _ _, .error _⟩ => true
  | ⟨.findGroups _ _, .error _⟩ => true
  | ⟨.findTasks _ _, .error _⟩ => true
  | ⟨.saveBoard (.exec _) _, .error _⟩ => true
  | ⟨.saveGroup _ _, .error _⟩ => true
  | ⟨.newSessionID, .error _⟩ => true
  | ⟨.saveSession _ _, .error _⟩ => true
  | ⟨.claimTask _ _ _, .error _⟩ => true
  | ⟨.receive _ _, .unknownDep⟩ => true
  | ⟨.receive _ _, .ctxDone⟩ => true
  | ⟨.receive _ _, .timeout⟩ => true
  | ⟨.takeGroupSlot _, .ctxDone⟩ => true
  | ⟨.takeImplSlot _ _, .ctxDone⟩ => true
  | ⟨.ctxErr _, true⟩ => true
  | ⟨.spawnAcquire _, .error _⟩ => true
  | ⟨.buildPrompt _ _ _ _, .error _⟩ => true
  | _ => false

def Troubled (cfg : RunConfig) (h : History) : Prop :=
  cfg.validProvider = false ∨ ∃ ev ∈ h, mishap ev = true

theorem Troubled.mono (htrouble : Troubled cfg h) (hsuffix : h <:+ h') : Troubled cfg h' :=
  htrouble.imp_right fun ⟨ev, hmem, hmishap⟩ => ⟨ev, hsuffix.subset hmem, hmishap⟩

theorem troubled_of_mem (hmem : ev ∈ h) (hmishap : mishap ev = true) : Troubled cfg h :=
  .inr ⟨ev, hmem, hmishap⟩

/-! ## Boards -/

structure LoadedGroup (h : History) (x : Nat) (row : GroupRow) (g : Group) : Prop where
  key : g.key = row.key
  status : g.status = row.status
  tasks : ⟨.findTasks x row.id, .ok g.tasks⟩ ∈ h

theorem LoadedGroup.id (hg : LoadedGroup h x row g) : g.id = row.id :=
  congrArg (fun key => key.1) hg.key

structure FreshGroup (bid : BoardID) (g : Group) : Prop where
  board : g.boardID = bid
  status : g.status = .pending
  tasks : ∀ t ∈ g.tasks, t.status = .pending ∧ t.attempts = 0

/-- The ids and names that `buildBoard` gives to the groups of a tasks list, where the
map from names to ids keeps the last id of a repeated name. -/
def entryIDs (tl : TasksList) (ids : List GroupID) : List (GroupID × String) :=
  tl.groups.map fun gs =>
    (((((tl.groups.map fun gs => gs.name).zip ids).reverse.lookup gs.name).getD ⟨0⟩), gs.name)

theorem exists_related_of_mem {α β : Type} {R : α → β → Prop} {l : List α} {l' : List β}
    (h : List.Forall₂ R l l') {b : β} (hb : b ∈ l') : ∃ a ∈ l, R a b := by
  induction h with
  | nil => cases hb
  | cons hfirst _ ih =>
    rcases List.mem_cons.mp hb with rfl | hrest
    · exact ⟨_, List.mem_cons_self, hfirst⟩
    · obtain ⟨a, ha, hrel⟩ := ih hrest
      exact ⟨a, List.mem_cons_of_mem _ ha, hrel⟩

/-- The groups of the board that an `Execute` works on: loaded while it knew its tasks
list, or built from it. -/
inductive BoardOf (h : History) (x : Nat) (pid : PhaseID) (groups : List Group) : Prop where
  | loaded (row : BoardRow) (rows : List GroupRow) (past : History)
      (hboard : ⟨.findBoard x pid, .ok row⟩ ∈ h)
      (hrows : ⟨.findGroups x row.id, .ok rows⟩ :: past <:+ h)
      (hlist : (view past).tasksList = (view h).tasksList)
      (hgroups : List.Forall₂ (LoadedGroup h x) rows groups)
      (hold : (view h).newBoard = false)
  | built (tl : TasksList) (bid : BoardID) (hlist : (view h).tasksList = some tl)
      (hbid : ⟨.newBoardID, .ok bid⟩ ∈ h) (hnew : (view h).newBoard = true)
      (hlength : (view h).groupIDs.length = tl.groups.length)
      (hids : groups.map (fun g => (g.id, g.name)) = entryIDs tl (view h).groupIDs)
      (hfresh : ∀ g ∈ groups, FreshGroup bid g)

theorem LoadedGroup.mono (hg : LoadedGroup h x row g) (hsuffix : h <:+ h') :
    LoadedGroup h' x row g :=
  ⟨hg.key, hg.status, hsuffix.subset hg.tasks⟩

/-- A board stays the same as long as no tasks list is loaded, no group id is made and
no board is begun. -/
theorem BoardOf.mono (hof : BoardOf h x pid groups) (hsuffix : h <:+ h')
    (hboard : (view h').board = (view h).board) : BoardOf h' x pid groups := by
  simp only [View.board, Prod.mk.injEq] at hboard
  obtain ⟨hlist, hids, hnew⟩ := hboard
  cases hof with
  | loaded row rows past hrow hrows hknown hgroups hold =>
    exact .loaded row rows past (hsuffix.subset hrow) (hrows.trans hsuffix)
      (hknown.trans hlist.symm) (hgroups.imp fun _ _ hg => hg.mono hsuffix) (hnew.trans hold)
  | built tl bid htl hbid hbegun hlength hentries hfresh =>
    exact .built tl bid (hlist.trans htl) (hsuffix.subset hbid) (hnew.trans hbegun)
      (by rw [hids]; exact hlength) (by rw [hids]; exact hentries) hfresh

/-! ## The build gate -/

def Built (h : History) (x : Nat) (plan : BuildPlan) (cwd : String) : Prop :=
  ∃ w : WireResult, ⟨.runtimeExecute (.exec x) (.build plan cwd), .ok w⟩ ∈ h ∧
    w.receipt.exitCode = 0

theorem Built.mono {plan : BuildPlan} (hbuilt : Built h x plan cwd) (hsuffix : h <:+ h') :
    Built h' x plan cwd := by
  obtain ⟨w, hmem, hcode⟩ := hbuilt
  exact ⟨w, hsuffix.subset hmem, hcode⟩

/-- The build gate was passed: the detection ended without a plan, or a build with its
plan was answered by the exit code zero. -/
def BuildGatePassed (h : History) (x : Nat) (cwd : String) : Prop :=
  ∃ h₁ result h₂, (detectBuildPlan x cwd).Ends h₁ result h₂ ∧ h₂ <:+ h ∧
    ∀ plan, result = .ok (some plan) → Built h x plan cwd

theorem BuildGatePassed.mono (hpassed : BuildGatePassed h x cwd) (hsuffix : h <:+ h') :
    BuildGatePassed h' x cwd := by
  obtain ⟨h₁, result, h₂, hends, hpart, hbuilt⟩ := hpassed
  exact ⟨h₁, result, h₂, hends, hpart.trans hsuffix, fun plan hplan =>
    (hbuilt plan hplan).mono hsuffix⟩

/-! ## Tasks -/

structure SoundTask (t : Task) : Prop where
  attempts : t.attempts ≤ maxAttempts
  last : t.attempts = maxAttempts → t.status = .done ∨ t.status = .blocked
  fresh : t.status = .pending → t.attempts = 0

/-- A version of the task `t` that the attempts at it can save. -/
def Evolves (t t' : Task) : Prop :=
  t'.id = t.id ∧ (t.status = .pending → t.attempts = 0 → SoundTask t')

/-! ## Reasons -/

def RunsGroup (h : History) (k x : Nat) (p : Phase) (g : Group) : Prop :=
  ∃ i c, ⟨.beginGoroutine k, some (.group x i c p g)⟩ ∈ h

def RunsTask (h : History) (k x team : Nat) (t : Task) : Prop :=
  ∃ c p g, ⟨.beginGoroutine k, some (.task x team c p g t)⟩ ∈ h

def IsExecute (call : Call) (h : History) (x : Nat) (p : Phase) : Prop :=
  (∃ c status, call = .execute c p status) ∧ ∃ threshold, ⟨.newExec threshold, x⟩ ∈ h

def Dispatched (h : History) (x : Nat) (tid : TaskID) : Prop :=
  ∃ (req : DispatchRequest) (answer : Except DispatchErr AgentResult),
    ⟨.dispatch x req, answer⟩ ∈ h ∧ req.target = .implement tid

def Claimed (h : History) (x : Nat) (t : Task) : Prop :=
  ∃ k team sid, RunsTask h k x team t ∧ t.status ≠ .done ∧
    ⟨.claimTask x t.id sid, .ok true⟩ ∈ h

def TaskEnds (cfg : RunConfig) (h : History) (x : Nat) (t : Task) : Prop :=
  t.status = .done ∨ t.description = "" ∨ Troubled cfg h ∨
    (∃ sid, ⟨.claimTask x t.id sid, .ok false⟩ ∈ h) ∨ Dispatched h x t.id

def SavedCompleted (h : History) (x : Nat) (gid : GroupID) : Prop :=
  ∃ (row : GroupRow) (answer : Except RepoErr Unit), ⟨.saveGroup x row, answer⟩ ∈ h ∧
    row.id = gid ∧ row.status = .completed

def LoadedCompleted (h : History) (x : Nat) (g : GroupRow) : Prop :=
  ∃ bid rows row, ⟨.findGroups x bid, .ok rows⟩ ∈ h ∧ row ∈ rows ∧ row.key = g.key ∧
    row.status = .completed

/-- The team-lead of the group has waited for its tasks and passed the build gate. -/
structure CompletesGroup (h : History) (k x : Nat) (g : Group) (row : GroupRow) : Prop where
  key : g.key = row.key
  worktreePath : g.worktreePath = row.worktreePath
  pending : g.status = .pending
  waited : ⟨.waitTasks k, ()⟩ ∈ h
  gate : BuildGatePassed h x g.worktreePath

def StartedAll (h : History) (x : Nat) (p : Phase) (groups : List Group) : Prop :=
  ∀ g ∈ groups, ∃ i c k, ⟨.go (.group x i c p g), k⟩ ∈ h

/-- `finalize` has read a map of results in which no group of the board has failed. -/
def Finalized (h : History) (x : Nat) (p : Phase) : Prop :=
  ∃ results tl groups, ⟨.readResults x, results⟩ ∈ h ∧ (view h).tasksList = some tl ∧
    BoardOf h x p.id groups ∧ StartedAll h x p groups ∧
    ∀ g ∈ groups, resultFailed results g = false

theorem RunsGroup.mono (hruns : RunsGroup h k x p g) (hsuffix : h <:+ h') :
    RunsGroup h' k x p g := by
  obtain ⟨i, c, hmem⟩ := hruns
  exact ⟨i, c, hsuffix.subset hmem⟩

theorem RunsTask.mono (hruns : RunsTask h k x team t) (hsuffix : h <:+ h') :
    RunsTask h' k x team t := by
  obtain ⟨c, p, g, hmem⟩ := hruns
  exact ⟨c, p, g, hsuffix.subset hmem⟩

theorem IsExecute.mono {call : Call} (hexec : IsExecute call h x p) (hsuffix : h <:+ h') :
    IsExecute call h' x p := by
  obtain ⟨hcall, threshold, hmem⟩ := hexec
  exact ⟨hcall, threshold, hsuffix.subset hmem⟩

theorem Dispatched.mono {tid : TaskID} (hdispatched : Dispatched h x tid) (hsuffix : h <:+ h') :
    Dispatched h' x tid := by
  obtain ⟨req, answer, hmem, htarget⟩ := hdispatched
  exact ⟨req, answer, hsuffix.subset hmem, htarget⟩

theorem Claimed.mono (hclaimed : Claimed h x t) (hsuffix : h <:+ h') : Claimed h' x t := by
  obtain ⟨k, team, sid, hruns, hopen, hmem⟩ := hclaimed
  exact ⟨k, team, sid, hruns.mono hsuffix, hopen, hsuffix.subset hmem⟩

theorem TaskEnds.mono (hends : TaskEnds cfg h x t) (hsuffix : h <:+ h') : TaskEnds cfg h' x t := by
  rcases hends with hdone | hempty | htrouble | ⟨sid, hlost⟩ | hdispatched
  · exact .inl hdone
  · exact .inr (.inl hempty)
  · exact .inr (.inr (.inl (htrouble.mono hsuffix)))
  · exact .inr (.inr (.inr (.inl ⟨sid, hsuffix.subset hlost⟩)))
  · exact .inr (.inr (.inr (.inr (hdispatched.mono hsuffix))))

theorem SavedCompleted.mono {gid : GroupID} (hsaved : SavedCompleted h x gid) (hsuffix : h <:+ h') :
    SavedCompleted h' x gid := by
  obtain ⟨row, answer, hmem, hrow⟩ := hsaved
  exact ⟨row, answer, hsuffix.subset hmem, hrow⟩

theorem LoadedCompleted.mono {g : GroupRow} (hloaded : LoadedCompleted h x g) (hsuffix : h <:+ h') :
    LoadedCompleted h' x g := by
  obtain ⟨bid, rows, row, hmem, hrow⟩ := hloaded
  exact ⟨bid, rows, row, hsuffix.subset hmem, hrow⟩

theorem BoardOf.loadedCompleted (hof : BoardOf h x pid groups) (hg : g ∈ groups)
    (hcompleted : g.status = .completed) : LoadedCompleted h x g.toGroupRow := by
  cases hof with
  | loaded row rows past hrow hrows hknown hgroups hold =>
    obtain ⟨r, hr, hloaded⟩ := exists_related_of_mem hgroups hg
    exact ⟨row.id, rows, r, hrows.subset List.mem_cons_self, hr, hloaded.key.symm,
      hloaded.status.symm.trans hcompleted⟩
  | built tl bid htl hbid hnew hlength hids hfresh =>
    rw [(hfresh g hg).status] at hcompleted
    cases hcompleted

theorem BoardOf.assignWorktrees (hof : BoardOf h x pid groups) (path branch : Group → String) :
    BoardOf h x pid (groups.map fun g => g.assignWorktree (path g) (branch g)) := by
  cases hof with
  | loaded row rows past hrow hrows hknown hgroups hold =>
    refine .loaded row rows past hrow hrows hknown (List.forall₂_map_right_iff.mpr ?_) hold
    exact hgroups.imp fun _ _ hg => ⟨hg.key, hg.status, hg.tasks⟩
  | built tl bid htl hbid hnew hlength hids hfresh =>
    refine .built tl bid htl hbid hnew hlength ?_ ?_
    · rw [List.map_map]
      exact hids
    · intro g hg
      obtain ⟨g₀, hg₀, rfl⟩ := List.mem_map.mp hg
      exact ⟨(hfresh g₀ hg₀).board, (hfresh g₀ hg₀).status, (hfresh g₀ hg₀).tasks⟩

theorem StartedAll.mono (hstarted : StartedAll h x p groups) (hsuffix : h <:+ h') :
    StartedAll h' x p groups := by
  intro g hg
  obtain ⟨i, c, k, hmem⟩ := hstarted g hg
  exact ⟨i, c, k, hsuffix.subset hmem⟩

/-- Why a goroutine performs an operation. -/
def Explains (cfg : RunConfig) (call : Call) (past : History) : Event → Prop
  | ⟨.newExec _, _⟩ => ∃ c p status, call = .execute c p status
  | ⟨.beginGoroutine k, _⟩ => call = .goroutine k ∧ past = []
  -- `Execute`
  | ⟨.findBoard x pid, _⟩ => ∃ p, IsExecute call past x p ∧ p.id = pid
  | ⟨.findGroups x _, _⟩ => ∃ p row, IsExecute call past x p ∧ ⟨.findBoard x p.id, .ok row⟩ ∈ past
  | ⟨.findTasks x gid, _⟩ => (∃ p, IsExecute call past x p) ∧
      ∃ bid rows row, ⟨.findGroups x bid, .ok rows⟩ ∈ past ∧ row ∈ rows ∧ row.id = gid
  | ⟨.newBoardID, _⟩ => Troubled cfg past
  | ⟨.go (.group x i c p g), _⟩ =>
    IsExecute call past x p ∧ (∃ status, call = .execute c p status) ∧
      g.worktreePath = worktreePath cfg c g.name ∧
      ∃ groups, BoardOf past x p.id groups ∧ groups[i]? = some g ∧
        (view past).groups = groups.take i
  | ⟨.waitGroups x, _⟩ => ∃ p groups, IsExecute call past x p ∧ BoardOf past x p.id groups ∧
      StartedAll past x p groups
  | ⟨.breakerTripped x, _⟩ => ⟨.waitGroups x, ()⟩ ∈ past
  | ⟨.readResults x, _⟩ => ⟨.breakerTripped x, false⟩ ∈ past
  | ⟨.returned x res, _⟩ => ∃ p, IsExecute call past x p ∧
      ((view past).groups ≠ [] → ⟨.waitGroups x, ()⟩ ∈ past) ∧
      (⟨.waitGroups x, ()⟩ ∈ past ∨ Troubled cfg past) ∧
      (res.envelope.status = .done → Finalized past x p) ∧ (view past).slot = false
  -- the goroutine of a group
  | ⟨.takeGroupSlot x, _⟩ => ∃ k p g, RunsGroup past k x p g
  | ⟨.go (.task x team _ _ _ t), _⟩ =>
    call = .goroutine team ∧ ∃ p g, RunsGroup past team x p g ∧ g.status = .pending ∧
      g.tasks[(view past).tasks.length]? = some t ∧
      (view past).tasks = g.tasks.take (view past).tasks.length
  | ⟨.waitTasks team, _⟩ => ∃ x p g, RunsGroup past team x p g ∧ g.status = .pending ∧
      (view past).tasks = g.tasks ∧
      ∃ sid, ⟨.publishEvent p.id (.teamLeadSpawned sid g.id), ()⟩ ∈ past
  | ⟨.setResult x gid outcome, _⟩ => ∃ k p g, RunsGroup past k x p g ∧ g.id = gid ∧
      (outcome.failed = false → g.status = .completed ∨ SavedCompleted past x gid)
  | ⟨.groupDone x k, _⟩ => ∃ p g, RunsGroup past k x p g ∧
      ((∃ outcome, ⟨.setResult x g.id outcome, ()⟩ ∈ past) ∨
        ⟨.takeGroupSlot x, .ctxDone⟩ ∈ past) ∧
      ((view past).tasks ≠ [] → ⟨.waitTasks k, ()⟩ ∈ past) ∧
      (g.status = .pending → ⟨.waitTasks k, ()⟩ ∈ past ∨ Troubled cfg past) ∧
      (view past).slot = false
  -- the goroutine of a task
  | ⟨.claimTask x tid _, _⟩ => ∃ k team t, RunsTask past k x team t ∧ tid = t.id ∧
      t.status ≠ .done
  | ⟨.dispatch x req, _⟩ => ∀ tid, req.target = .implement tid →
      ∃ t, Claimed past x t ∧ tid = t.id
  | ⟨.taskDone team k, _⟩ => ∃ x t, RunsTask past k x team t ∧ TaskEnds cfg past x t ∧
      (view past).slot = false
  -- writes
  | ⟨.saveTask x t', _⟩ =>
    ((∃ p, IsExecute call past x p) ∧ (view past).newBoard = true ∧
        t'.status = .pending ∧ t'.attempts = 0) ∨
      ∃ t, Claimed past x t ∧ Evolves t t'
  | ⟨.saveGroup x row, _⟩ => row.status = .completed →
      ((∃ p, IsExecute call past x p) ∧ LoadedCompleted past x row) ∨
        ∃ k p g, RunsGroup past k x p g ∧ CompletesGroup past k x g row
  -- the spawn governor
  | ⟨.spawnAcquire _, _⟩ => (view past).slot = false
  | ⟨.spawnRelease _, _⟩ => (view past).slot = true
  | _ => True

/-- The operation is justified by the history of its goroutine. -/
structure Justified (cfg : RunConfig) (call : Call) (ev : Event) (past : History) : Prop where
  ordered : Ordered ev.op past
  reason : Explains cfg call past ev

def Good (cfg : RunConfig) (call : Call) : History → Prop
  | [] => True
  | ev :: past => Justified cfg call ev past

theorem justified_of_calm (cfg : RunConfig) (call : Call) (past : History)
    (hcalm : ev.op.calm = true) : Justified cfg call ev past := by
  obtain ⟨op, answer⟩ := ev
  cases op
  case memoryGet x c artifact =>
    cases artifact with
    | tasks => cases hcalm
    | spec | design | applyProgress => exact ⟨fun h => absurd rfl h, trivial⟩
  all_goals first | (cases hcalm; done) | exact ⟨fun h => absurd rfl h, trivial⟩

end SophiaOrchestrator.Apply
