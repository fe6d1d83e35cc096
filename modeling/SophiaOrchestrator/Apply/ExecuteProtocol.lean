import SophiaOrchestrator.Apply.Footprint
import SophiaOrchestrator.Apply.Justified
import SophiaOrchestrator.Effects.Protocol

/-!
# How an Execute goes on

An `Execute` loads its tasks list, loads the board of the phase or makes a new one, assigns the
worktrees, starts the goroutines of the groups, waits for them and takes stock.  The program is
walked through once, in the order of the source.
-/

namespace SophiaOrchestrator.Apply

open Effects Prog

/-- The group with the worktree that `createWorktrees` assigns to it. -/
def Group.placed (cfg : RunConfig) (c : Change) (g : Group) : Group :=
  g.assignWorktree (worktreePath cfg c g.name) (branchName c g.name)

inductive ExecStage where
  | opened
  | listed (tl : TasksList)
  /-- The board of the phase is found, -/
  | found (tl : TasksList) (row : BoardRow)
  /-- and the tasks of its groups are read, but for those of `rest`. -/
  | loading (tl : TasksList) (row : BoardRow) (rows rest : List GroupRow) (loaded : List Group)
  | boardless (tl : TasksList)
  /-- A new board is begun: ids and groups are made, and these tasks are still to be saved. -/
  | making (tl : TasksList) (bid : BoardID) (ids : List GroupID) (made : List Group)
      (tasks : List Task)
  /-- The groups of `rest` have no worktree yet. -/
  | assigning (groups rest : List Group)
  | running (started rest : List Group)
  | waited (groups : List Group)
  | asked (groups : List Group) (tripped : Bool)
  | concluded (groups : List Group) (results : GroupID → Option GroupOutcome)
  | failed

namespace ExecStage

def early : ExecStage → Bool
  | .running _ _ | .waited _ | .asked _ _ | .concluded _ _ => false
  | _ => true

def onOk (s : ExecStage) : Except RepoErr Unit → ExecStage
  | .ok _ => s
  | .error _ => .failed

inductive Boards : List Group → ExecStage → Prop where
  | loaded {tl row rows loaded} : Boards loaded (.loading tl row rows [] loaded)
  | built {tl bid ids made} (hlength : ids.length = tl.groups.length)
      (hmade : made.map (fun g => (g.id, g.name)) = entryIDs tl ids) :
      Boards made (.making tl bid ids made [])

inductive Assigns (groups : List Group) : List Group → ExecStage → Prop where
  | boards {s} (hs : s.Boards groups) : Assigns groups groups s
  | assigning {rest} : Assigns groups rest (.assigning groups rest)

inductive Starts (cfg : RunConfig) (c : Change) : List Group → List Group → ExecStage → Prop where
  | assigned {s groups} (hs : s.Assigns groups []) : Starts cfg c [] (groups.map (.placed cfg c)) s
  | running {started rest} : Starts cfg c started rest (.running started rest)

inductive Returns (c : Change) (res : ExecuteReturn) : ExecStage → Prop where
  | failed (hblocked : res.envelope.status = .blocked) : Returns c res .failed
  | unmade {tl bid ids made tasks} (hblocked : res.envelope.status = .blocked) :
      Returns c res (.making tl bid ids made tasks)
  | tripped {groups} (hblocked : res.envelope.status = .blocked) :
    Returns c res (.asked groups true)
  | concluded {groups results} (hres : res = ⟨finalEnvelope c
      (!groups.any (resultFailed results)) (finalSummary results groups), none⟩) :
      Returns c res (.concluded groups results)

end ExecStage

/-- The operation takes no part in how the `Execute` goes on, unless it fails. -/
def Op.minor : Op → Bool
  | .newTaskID | .newDAG _ _ | .saveBoard _ _ | .memoryGet _ _ .spec | .memoryGet _ _ .design =>
    true
  | op => op.reports

theorem Op.minor_of_reports {op : Op} (hop : op.reports = true) : op.minor = true := by
  cases op <;> first | exact hop | cases hop

theorem Op.minor_of_numbersTask {op : Op} (hop : op.numbersTask = true) : op.minor = true := by
  cases op <;> first | rfl | cases hop

section

variable (cfg : RunConfig) (x : Nat) (c : Change) (p : Phase)

/-- The moves of the `Execute` with the number `x`. -/
inductive ExecMove : Protocol Op Op.Ret ExecStage where
  | stay {s op answer} (hop : op.minor = true) : ExecMove s ⟨op, answer⟩ s
  | fails {s ev} (hs : s.early = true) (hop : ev.op.minor = true) (hev : mishap ev = true) :
      ExecMove s ev .failed
  | lists {content tl} (hparse : parseTasksList content = .ok tl)
      (hgroups : tl.groups.isEmpty = false) :
      ExecMove .opened ⟨.memoryGet x c .tasks, .ok content⟩ (.listed tl)
  | unlisted {answer} (hev : mishap ⟨.memoryGet x c .tasks, answer⟩ = true) :
      ExecMove .opened ⟨.memoryGet x c .tasks, answer⟩ .failed
  | finds {tl row} : ExecMove (.listed tl) ⟨.findBoard x p.id, .ok row⟩ (.found tl row)
  | findsNone {tl err} : ExecMove (.listed tl) ⟨.findBoard x p.id, .error err⟩ (.boardless tl)
  | groups {tl row rows} :
      ExecMove (.found tl row) ⟨.findGroups x row.id, .ok rows⟩ (.loading tl row rows rows [])
  | groupless {tl row err} :
      ExecMove (.found tl row) ⟨.findGroups x row.id, .error err⟩ (.boardless tl)
  | loads {tl row rows r rest loaded tasks} :
      ExecMove (.loading tl row rows (r :: rest) loaded) ⟨.findTasks x r.id, .ok tasks⟩
        (.loading tl row rows rest (loaded ++ [{ toGroupRow := r, tasks := tasks }]))
  | unloaded {tl row rows r rest loaded err} :
      ExecMove (.loading tl row rows (r :: rest) loaded) ⟨.findTasks x r.id, .error err⟩
        (.boardless tl)
  | begins {tl bid} : ExecMove (.boardless tl) ⟨.newBoardID, .ok bid⟩ (.making tl bid [] [] [])
  | unbegun {tl err} : ExecMove (.boardless tl) ⟨.newBoardID, .error err⟩ .failed
  | numbers {tl bid ids gid} :
      ExecMove (.making tl bid ids [] []) ⟨.newGroupID, .ok gid⟩
        (.making tl bid (ids ++ [gid]) [] [])
  | unnumbered {s err} : ExecMove s ⟨.newGroupID, .error err⟩ s
  | makes {tl bid ids made group rest answer} (hboard : group.boardID = bid)
      (hstatus : group.status = .pending) (hnew : ∀ t ∈ group.tasks,
        t.status = .pending ∧ t.attempts = 0 ∧ t.claimedBy = none)
      (hentry : made.map (fun g => (g.id, g.name)) ++ (group.id, group.name) :: rest =
        entryIDs tl ids) :
      ExecMove (.making tl bid ids made []) ⟨.saveGroup x group.toGroupRow, answer⟩
        (.onOk (.making tl bid ids (made ++ [group]) group.tasks) answer)
  | saves {tl bid ids made t rest answer} :
      ExecMove (.making tl bid ids made (t :: rest)) ⟨.saveTask x t, answer⟩
        (.onOk (.making tl bid ids made rest) answer)
  | assigns {s groups g rest answer} (hs : s.Assigns groups (g :: rest)) :
      ExecMove s ⟨.saveGroup x (g.placed cfg c).toGroupRow, answer⟩
        (.onOk (.assigning groups rest) answer)
  | starts {s started g rest k} (hs : s.Starts cfg c started (g :: rest)) :
      ExecMove s ⟨.go (.group x started.length c p g), k⟩ (.running (started ++ [g]) rest)
  | waits {s groups} (hs : s.Starts cfg c groups []) :
      ExecMove s ⟨.waitGroups x, ()⟩ (.waited groups)
  | asks {groups tripped} :
      ExecMove (.waited groups) ⟨.breakerTripped x, tripped⟩ (.asked groups tripped)
  | reads {groups results} :
      ExecMove (.asked groups false) ⟨.readResults x, results⟩ (.concluded groups results)

end

section Follows

variable {cfg : RunConfig} {x : Nat} {c : Change} {p : Phase} {α β : Type} {s : ExecStage}
  {R : β → ExecStage → Prop} {tl : TasksList} {row : BoardRow} {rows : List GroupRow}
  {bid : BoardID} {ids : List GroupID} {groups : List Group}

theorem exec_reports_bind {Q : α → Prop} {prog : Program α} {f : α → Program β}
    (hreports : Within Op.reports Q prog)
    (hf : ∀ value, Q value → (f value).Follows (ExecMove cfg x c p) R s) :
    (prog >>= f).Follows (ExecMove cfg x c p) R s :=
  follows_stay_bind hreports (fun _ _ hop => .stay (Op.minor_of_reports hop)) hf

theorem exec_reports {Q : α → Prop} {prog : Program α} {R : α → ExecStage → Prop}
    (hreports : Within Op.reports Q prog) (hR : ∀ value, Q value → R value s) :
    prog.Follows (ExecMove cfg x c p) R s := by
  refine follows_mono (follows_stay hreports fun _ _ hop => .stay (Op.minor_of_reports hop)) ?_
  rintro value s ⟨hvalue, rfl⟩
  exact hR value hvalue

theorem exec_minor {op : Op} {f : op.Ret → Program β} (hop : op.minor = true)
    (hf : ∀ answer, (f answer).Follows (ExecMove cfg x c p) R s) :
    (perform op >>= f).Follows (ExecMove cfg x c p) R s :=
  follows_perform fun answer => ⟨s, .stay hop, hf answer⟩

def Reaches {ε α : Type} (ok : α → ExecStage → Prop) (err : ExecStage → Prop) :
    Except ε α → ExecStage → Prop
  | .ok value, s => ok value s
  | .error _, s => err s

/-! ## The board -/

theorem loadPriorArtifact_follows {artifact : Artifact}
    (hminor : (Op.memoryGet x c artifact).minor = true) (hs : s.early = true)
    (hmishap : ∀ text, mishap ⟨.memoryGet x c artifact, .error (.other text)⟩ = true) :
    (loadPriorArtifact x c artifact).Follows (ExecMove cfg x c p)
      (Reaches (fun _ s' => s' = s) fun s' => s' = .failed) s := by
  refine follows_perform fun answer => ?_
  match answer with
  | .error (.other text) => exact ⟨_, .fails hs hminor (hmishap text), rfl⟩
  | .error .notFound => exact ⟨_, .stay hminor, rfl⟩
  | .ok content => exact ⟨_, .stay hminor, rfl⟩

theorem loadPriorContext_follows (hs : s.early = true) :
    (loadPriorContext x c).Follows (ExecMove cfg x c p)
      (Reaches (fun _ s' => s' = s) fun s' => s' = .failed) s := by
  refine follows_bind (loadPriorArtifact_follows rfl hs fun _ => rfl) fun result s' hs' => ?_
  cases result with
  | error text => exact hs'
  | ok _ =>
    obtain rfl : s' = s := hs'
    exact loadPriorArtifact_follows rfl hs fun _ => rfl

theorem loadGroups_follows (rest : List GroupRow) (loaded : List Group) :
    (loadGroups x rest).Follows (ExecMove cfg x c p)
      (Reaches (fun groups s => s = .loading tl row rows [] (loaded ++ groups))
        fun s => s = .boardless tl) (.loading tl row rows rest loaded) := by
  induction rest generalizing loaded with
  | nil => exact congrArg _ (List.append_nil loaded).symm
  | cons r rest ih =>
    refine follows_perform fun answer => ?_
    cases answer with
    | error err => exact ⟨_, .unloaded, rfl⟩
    | ok tasks =>
      refine ⟨_, .loads, follows_bind (ih _) fun result s hs => ?_⟩
      cases result with
      | error err => exact hs
      | ok groups => exact hs.trans (by simp [List.append_assoc])

theorem findBoardByPhaseID_follows :
    (findBoardByPhaseID x p.id).Follows (ExecMove cfg x c p)
      (Reaches (fun board s => s.Boards board.groups) fun s => s = .boardless tl) (.listed tl) := by
  refine follows_perform fun answer => ?_
  cases answer with
  | error err => exact ⟨_, .findsNone, rfl⟩
  | ok row =>
    refine ⟨_, .finds, follows_perform fun answer => ?_⟩
    cases answer with
    | error err => exact ⟨_, .groupless, rfl⟩
    | ok rows =>
      refine ⟨_, .groups, follows_bind (loadGroups_follows rows []) fun result s hs => ?_⟩
      cases result with
      | error err => exact hs
      | ok groups =>
        obtain rfl : s = _ := hs
        exact .loaded

abbrev Unmade (s : ExecStage) : Prop :=
  s = .failed ∨ ∃ tl bid ids made tasks, s = .making tl bid ids made tasks

theorem newGroupIDs_follows (specs : List TaskGroupSpec) (idByName : List (String × GroupID)) :
    (newGroupIDs specs idByName).Follows (ExecMove cfg x c p)
      (Reaches (fun result s => ∃ more, s = .making tl bid (ids ++ more) [] [] ∧
          more.length = specs.length ∧
          result = ((specs.map fun gs => gs.name).zip more).reverse ++ idByName) Unmade)
      (.making tl bid ids [] []) := by
  induction specs generalizing ids idByName with
  | nil => exact ⟨[], by simp, rfl, rfl⟩
  | cons gs rest ih =>
    refine follows_perform fun answer => ?_
    cases answer with
    | error err => exact ⟨_, .unnumbered, .inr ⟨_, _, _, _, _, rfl⟩⟩
    | ok gid =>
      refine ⟨_, .numbers, follows_mono (ih _) fun result s hs => ?_⟩
      cases result with
      | error err => exact hs
      | ok map =>
        obtain ⟨more, rfl, hlength, rfl⟩ := hs
        exact ⟨gid :: more, by simp, by simp [hlength], by simp⟩

theorem saveTasks_follows {made : List Group} (tasks : List Task) :
    (saveTasks x tasks).Follows (ExecMove cfg x c p)
      (Reaches (fun _ s => s = .making tl bid ids made []) fun s => s = .failed)
      (.making tl bid ids made tasks) := by
  induction tasks with
  | nil => rfl
  | cons t rest ih =>
    refine follows_perform fun answer => ⟨_, .saves, ?_⟩
    cases answer with
    | error err => rfl
    | ok _ => exact ih

theorem addGroups_follows (idByName : List (String × GroupID)) (specs : List TaskGroupSpec)
    (board : Board) (hentries : board.groups.map (fun g => (g.id, g.name)) ++
      specs.map (fun gs => ((idByName.lookup gs.name).getD ⟨0⟩, gs.name)) = entryIDs tl ids)
    (hlength : ids.length = tl.groups.length) :
    (addGroups x bid idByName specs board).Follows (ExecMove cfg x c p)
      (Reaches (fun made s => s.Boards made.groups) Unmade)
      (.making tl bid ids board.groups []) := by
  induction specs generalizing board with
  | nil => exact .built hlength (by simpa using hentries)
  | cons gs rest ih =>
    refine follows_stay_bind (addTasks_numbersTask gs.name _ gs.tasks _)
      (fun _ _ hop => .stay (Op.minor_of_numbersTask hop)) fun result hresult => ?_
    have hunmade : Unmade (.making tl bid ids board.groups []) := .inr ⟨_, _, _, _, _, rfl⟩
    cases result with
    | error text => exact hunmade
    | ok group =>
      obtain ⟨tasks, hgroup, htasks⟩ := hresult group rfl
      have hnew : ∀ t ∈ group.tasks, t.status = .pending ∧ t.attempts = 0 ∧ t.claimedBy = none := by
        intro t ht
        rw [hgroup] at ht
        obtain ⟨item, -, hfrom, hclaimed⟩ := exists_related_of_mem htasks ht
        exact ⟨hfrom.status, hfrom.attempts, hclaimed⟩
      have hentry : (group.id, group.name) = ((idByName.lookup gs.name).getD ⟨0⟩, gs.name) := by
        rw [hgroup]
        rfl
      dsimp only
      split
      · exact hunmade
      · cases hadd : board.addGroup group with
        | error err => exact hunmade
        | ok board' =>
          obtain rfl := Board.eq_of_addGroup hadd
          refine follows_perform fun answer =>
            ⟨_, .makes (by rw [hgroup]; rfl) (by rw [hgroup]; rfl)
            hnew (by rw [hentry]; exact hentries), ?_⟩
          cases answer with
          | error err => exact .inl rfl
          | ok _ =>
            refine follows_bind (saveTasks_follows group.tasks) fun result s hs => ?_
            cases result with
            | error err => exact .inl hs
            | ok _ =>
              obtain rfl : s = _ := hs
              exact ih _ (by simpa [hentry] using hentries)

theorem buildBoard_follows :
    (buildBoard x p tl).Follows (ExecMove cfg x c p)
      (Reaches (fun board s => s.Boards board.groups) Unmade) (.listed tl) := by
  refine follows_bind findBoardByPhaseID_follows fun found s hs => ?_
  cases found with
  | ok existing => exact hs
  | error err =>
    obtain rfl : s = _ := hs
    refine follows_perform fun answer => ?_
    cases answer with
    | error err => exact ⟨_, .unbegun, .inl rfl⟩
    | ok bid =>
      refine ⟨_, .begins, follows_perform fun answer => ?_⟩
      cases answer with
      | error err => exact ⟨_, .fails rfl rfl rfl, .inl rfl⟩
      | ok _ =>
        refine ⟨_, .stay rfl, follows_bind (newGroupIDs_follows tl.groups []) fun result s hs => ?_⟩
        cases result with
        | error err => exact hs
        | ok idByName =>
          obtain ⟨ids, rfl, hlength, rfl⟩ := hs
          exact addGroups_follows _ tl.groups (Board.new bid p.id)
            (by simp [Board.new, entryIDs]) hlength

/-! ## Worktrees and goroutines -/

theorem createWorktrees_follows (rest : List Group) (hs : s.Assigns groups rest) :
    (createWorktrees cfg x c p rest).Follows (ExecMove cfg x c p)
      (Reaches (fun placed s => placed = rest.map (.placed cfg c) ∧ s.Assigns groups [])
        fun s => s = .failed) s := by
  induction rest generalizing s with
  | nil => exact ⟨rfl, hs⟩
  | cons g rest ih =>
    refine follows_perform fun answer => ⟨_, .assigns hs, ?_⟩
    cases answer with
    | error err => rfl
    | ok _ =>
      refine exec_reports_bind prepareWorktree_reports fun _ _ => ?_
      refine follows_bind (ih .assigning) fun result s hs => ?_
      cases result with
      | error err => exact hs
      | ok placed =>
        obtain ⟨rfl, hs⟩ := hs
        exact ⟨rfl, hs⟩

theorem ExecStage.Assigns.early {rest : List Group} (hs : s.Assigns groups rest) :
    s.early = true := by
  cases hs with
  | boards hs => cases hs <;> rfl
  | assigning => rfl

theorem startBoard_follows {board : Board} (hs : s.early = true) :
    (startBoard x board).Follows (ExecMove cfg x c p)
      (Reaches (fun started s' => started.groups = board.groups ∧ s' = s) fun s' => s' = .failed)
      s := by
  unfold startBoard
  split
  next hbuilding =>
    have hstart : board.start = .ok { board with status := .running } := by
      simp [Board.start, hbuilding]
    rw [hstart]
    refine follows_perform fun answer => ?_
    cases answer with
    | error err => exact ⟨_, .fails hs rfl rfl, rfl⟩
    | ok _ => exact ⟨_, .stay rfl, rfl, rfl⟩
  next => exact ⟨rfl, rfl⟩

theorem startGroups_follows {started : List Group} (rest : List Group)
    (hs : s.Starts cfg c started rest) :
    (startGroups x c p started.length rest).Follows (ExecMove cfg x c p)
      (fun _ s => s.Starts cfg c (started ++ rest) []) s := by
  induction rest generalizing started s with
  | nil =>
    rw [List.append_nil]
    exact hs
  | cons g rest ih =>
    refine follows_perform fun k => ⟨_, .starts hs, ?_⟩
    have hrest := @ih _ (started ++ [g]) .running
    rwa [List.length_append, List.append_assoc] at hrest

theorem finalize_follows {board : Board} :
    (finalize cfg x c p board).Follows (ExecMove cfg x c p) (fun res s => s.Returns c res)
      (.asked board.groups false) := by
  refine follows_perform fun results => ⟨_, .reads, follows_perform fun answer => ?_⟩
  have hend := afterFinalize_reports cfg x p ((if !board.groups.any (resultFailed results) then
    board.complete else board.fail).toOption.getD board) results ⟨finalEnvelope c
      (!board.groups.any (resultFailed results)) (finalSummary results board.groups), none⟩
  refine ⟨_, .stay rfl, ?_⟩
  cases answer with
  | error err =>
    refine exec_reports_bind publishEvent_reports fun _ _ => ?_
    exact exec_reports hend fun _ => .concluded
  | ok _ => exact exec_reports hend fun _ => .concluded

theorem runAllGroups_follows {threshold : Nat} {board : Board}
    (hs : s.Starts cfg c [] board.groups) :
    (runAllGroups cfg x threshold c p board).Follows (ExecMove cfg x c p)
      (fun res s => s.Returns c res) s := by
  refine exec_minor rfl fun _ => ?_
  refine follows_bind (startGroups_follows board.groups hs) fun _ s hs => ?_
  refine follows_perform fun _ => ⟨_, .waits hs, follows_perform fun tripped => ⟨_, .asks, ?_⟩⟩
  cases tripped with
  | true =>
    exact exec_reports quotaAborted_reports fun _ => .tripped
  | false => exact finalize_follows

theorem executeIn_follows :
    (executeIn cfg x c p).Follows (ExecMove cfg x c p) (fun res s => s.Returns c res) .opened := by
  have hunmade : ∀ {s reason err}, Unmade s → s.Returns c (failEnv c reason err) := by
    rintro s reason err (rfl | ⟨tl, bid, ids, made, tasks, rfl⟩)
    · exact .failed rfl
    · exact .unmade rfl
  refine follows_bind (Q := Reaches (fun tl s => if tl.groups.isEmpty then s = .failed
    else s = .listed tl) fun s => s = .failed) ?_ fun loaded s hs => ?_
  · refine follows_perform fun answer => ?_
    match answer with
    | .error .notFound => exact ⟨_, .unlisted rfl, rfl⟩
    | .error (.other text) => exact ⟨_, .unlisted rfl, rfl⟩
    | .ok content =>
      cases hparse : parseTasksList content with
      | error err => exact ⟨_, .unlisted (by simp [mishap, hparse]), by simp only [hparse]; rfl⟩
      | ok tl =>
        simp only [hparse]
        cases hgroups : tl.groups.isEmpty with
        | true =>
          refine ⟨_, .unlisted (by simp [mishap, hparse, hgroups]), ?_⟩
          show if tl.groups.isEmpty then _ else _
          rw [if_pos hgroups]
        | false =>
          refine ⟨_, .lists hparse hgroups, ?_⟩
          show if tl.groups.isEmpty then _ else _
          rw [hgroups, if_neg Bool.false_ne_true]
  cases loaded with
  | error text => exact hunmade (.inl hs)
  | ok tl =>
    change (if tl.groups.isEmpty then s = .failed else s = .listed tl) at hs
    dsimp only
    split_ifs at hs ⊢ with hempty
    · exact hunmade (.inl hs)
    subst hs
    refine follows_bind (loadPriorContext_follows rfl) fun prior s hs => ?_
    cases prior with
    | error text => exact hunmade (.inl hs)
    | ok _ =>
      obtain rfl : s = _ := hs
      refine follows_bind buildBoard_follows fun built s hs => ?_
      cases built with
      | error text => exact hunmade hs
      | ok board =>
        refine follows_bind (createWorktrees_follows board.groups (.boards hs))
          fun placed s hs => ?_
        cases placed with
        | error text => exact hunmade (.inl hs)
        | ok placed =>
          obtain ⟨rfl, hs⟩ := hs
          refine follows_bind (startBoard_follows hs.early) fun started s' hs' => ?_
          cases started with
          | error text => exact hunmade (.inl hs')
          | ok started =>
            obtain ⟨hgroups, rfl⟩ := hs'
            refine exec_reports_bind publishEvent_reports fun _ _ => runAllGroups_follows ?_
            rw [hgroups]
            exact .assigned hs

end Follows

end SophiaOrchestrator.Apply
