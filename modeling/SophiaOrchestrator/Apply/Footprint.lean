import SophiaOrchestrator.Apply.Service

/-!
# Which operations the parts of Execute perform

The parts of `Execute` before and after the run of its groups perform operations of a few kinds
only.  Every coarser fact about these parts (that they leave a slot, a channel or a table
alone) follows from the kind by looking at the operations.
-/

namespace SophiaOrchestrator.Apply

open Effects Prog

variable {α : Type} {kind kind' : Op → Bool} {Q : α → Prop} {prog : Program α} {op : Op}
  {p : Phase} {cfg : RunConfig} {x : Nat} {groups : List Group} {board : Board} {c : Change}
  {bid : BoardID} {idByName : List (String × GroupID)} {gs : TaskGroupSpec} {g : Group}

/-- The program performs operations of one kind only, and returns values that `Q` admits. -/
abbrev Within {α : Type} (kind : Op → Bool) (Q : α → Prop) (prog : Program α) : Prop :=
  prog.Uses (fun _ _ => True) (fun op => kind op = true) Q

def Op.reports : Op → Bool
  | .runtimeExecute _ _ | .publishEvent _ _ | .appendAudit _ _ | .breakerSnapshot _ => true
  | _ => false

def Op.numbersTask : Op → Bool
  | .newTaskID => true
  | _ => false

def Op.stores : Op → Bool
  | .newTaskID | .saveGroup _ _ | .saveTask _ _ => true
  | _ => false

theorem Op.stores_of_numbersTask (h : op.numbersTask = true) : op.stores = true := by
  cases op <;> first | rfl | cases h

theorem Within.mono (h : Within kind Q prog) (hkind : ∀ op, kind op = true → kind' op = true) :
    Within kind' Q prog :=
  uses_mono h hkind fun _ hQ => hQ

theorem Within.uses {ans : (op : Op) → op.Ret → Prop} {P : Op → Prop} (h : Within kind Q prog)
    (hkind : ∀ {op}, kind op = true → P op) : prog.Uses ans P Q :=
  uses_answers (uses_mono h (fun _ => hkind) fun _ hQ => hQ) fun _ _ _ => trivial

theorem Op.nonempty_ret (op : Op) : Nonempty op.Ret := by
  cases op <;> first
    | exact ⟨()⟩ | exact ⟨0⟩ | exact ⟨false⟩ | exact ⟨[]⟩ | exact ⟨none⟩ | exact ⟨.taken⟩
    | exact ⟨.error ""⟩ | exact ⟨.error .notFound⟩ | exact ⟨.error .saturated⟩ | exact ⟨.timeout⟩
    | exact ⟨.error (.other "")⟩ | exact ⟨fun _ => none⟩ | exact ⟨(0, none)⟩

/-! ## Commands and reports -/

theorem publishEvent_reports {event : ApplyEvent} :
    Within Op.reports (fun _ => True) (publishEvent p event) :=
  ⟨rfl, fun _ _ => trivial⟩

theorem runtimeExecute_reports {ctx : Ctx} {command : RuntimeCommand} :
    Within Op.reports (fun _ => True) (runtimeExecute ctx command) := by
  refine uses_perform_bind rfl fun answer _ => ?_
  cases answer <;> trivial

theorem prepareWorktree_reports {group : Group} :
    Within Op.reports (fun _ => True) (prepareWorktree cfg x p group) := by
  refine uses_bind runtimeExecute_reports fun answer _ => ?_
  cases answer with
  | error err => exact publishEvent_reports
  | ok _ =>
    dsimp only
    split
    · refine uses_bind runtimeExecute_reports fun answer _ => ?_
      cases answer with
      | error err => exact publishEvent_reports
      | ok _ => trivial
    · trivial

theorem materializeFrom_reports {results : GroupID → Option GroupOutcome} {count : Nat} :
    Within Op.reports (fun _ => True) (materializeFrom cfg x p results groups count) := by
  induction groups generalizing count with
  | nil => trivial
  | cons g rest ih =>
    unfold materializeFrom
    split
    · exact ih
    · refine uses_bind runtimeExecute_reports fun answer _ => ?_
      cases answer with
      | error err => exact uses_bind publishEvent_reports fun _ _ => ih
      | ok _ =>
        refine uses_bind runtimeExecute_reports fun answer _ => ?_
        cases answer with
        | error err => exact uses_bind publishEvent_reports fun _ _ => ih
        | ok _ => exact ih

theorem materializeWorktrees_reports {results : GroupID → Option GroupOutcome} :
    Within Op.reports (fun _ => True) (materializeWorktrees cfg x p board results) := by
  refine uses_bind publishEvent_reports fun _ _ => ?_
  refine uses_bind materializeFrom_reports fun _ _ => ?_
  exact publishEvent_reports

theorem quotaAborted_reports {threshold : Nat} :
    Within Op.reports (fun ret => ret.envelope.status = .blocked)
      (quotaAborted x threshold c p) := by
  refine uses_perform_bind rfl fun snapshot _ => ?_
  refine uses_bind publishEvent_reports fun _ _ => ?_
  rfl

theorem afterFinalize_reports (cfg : RunConfig) (x : Nat) (p : Phase) (board : Board)
    (results : GroupID → Option GroupOutcome) (ret : ExecuteReturn) :
    Within Op.reports (fun ret' => ret' = ret) (do
      perform (Op.appendAudit p.id "apply.finalized")
      if cfg.targetPath ≠ "" then materializeWorktrees cfg x p board results
      pure ret) := by
  refine uses_perform_bind rfl fun _ _ => ?_
  split
  · exact uses_bind materializeWorktrees_reports fun _ _ => rfl
  · rfl

/-! ## New groups -/

theorem saveTasks_stores (x : Nat) (tasks : List Task) :
    Within Op.stores (fun _ => True) (saveTasks x tasks) := by
  induction tasks with
  | nil => trivial
  | cons t rest ih =>
    refine uses_perform_bind rfl fun answer _ => ?_
    cases answer with
    | error err => trivial
    | ok _ => exact ih

structure TaskFrom (groupName : String) (gid : GroupID) (item : TaskItemSpec) (t : Task) :
    Prop where
  groupID : t.groupID = gid
  description : t.description = item.description
  filesPattern : t.filesPattern = stripGroupPrefix groupName item.filesPattern
  status : t.status = .pending
  attempts : t.attempts = 0

/-- The new tasks follow the ones that the group has. -/
theorem addTasks_numbersTask (groupName : String) (gid : GroupID) (items : List TaskItemSpec)
    (group : Group) :
    Within Op.numbersTask (fun result => ∀ made, result = .ok made → ∃ tasks,
        made = { group with tasks := group.tasks ++ tasks } ∧
        List.Forall₂ (fun item t => TaskFrom groupName gid item t ∧ t.claimedBy = none) items tasks)
      (addTasks groupName gid items group) := by
  induction items generalizing group with
  | nil =>
    rintro made ⟨⟩
    exact ⟨[], by simp, .nil⟩
  | cons item rest ih =>
    refine uses_perform_bind rfl fun answer _ => ?_
    cases answer with
    | error err => exact fun made hmade => nomatch hmade
    | ok tid =>
      dsimp only
      cases htask : Task.new tid gid item.description
          (stripGroupPrefix groupName item.filesPattern) with
      | error err => exact fun made hmade => nomatch hmade
      | ok task =>
        dsimp only
        cases hadd : group.addTask task with
        | error err => exact fun made hmade => nomatch hmade
        | ok group' =>
          refine uses_mono (ih group') (fun _ => id) fun result hresult made hmade => ?_
          obtain ⟨tasks, rfl, htasks⟩ := hresult made hmade
          have hfrom : TaskFrom groupName gid item task ∧ task.claimedBy = none := by
            rw [Task.eq_of_new htask]
            exact ⟨⟨rfl, rfl, rfl, rfl, rfl⟩, rfl⟩
          have hgroup := Group.eq_of_addTask hadd
          exact ⟨task :: tasks, by simp [hgroup], .cons hfrom htasks⟩

/-- The group of an entry: it has the id that the map has for the name of the entry, and
depends on the ids that the map has for the names in `depends_on`. -/
structure Wired (bid : BoardID) (idByName : List (String × GroupID)) (gs : TaskGroupSpec)
    (g : Group) : Prop where
  row : g.toGroupRow = (Group.new ((idByName.lookup gs.name).getD ⟨0⟩) bid gs.name
    (gs.dependsOn.filterMap fun name => idByName.lookup name)).toGroupRow
  tasks : List.Forall₂ (TaskFrom gs.name g.id) gs.tasks g.tasks

theorem Wired.id (h : Wired bid idByName gs g) :
    g.id = (idByName.lookup gs.name).getD ⟨0⟩ :=
  congrArg GroupRow.id h.row

theorem Wired.name (h : Wired bid idByName gs g) : g.name = gs.name :=
  congrArg GroupRow.name h.row

theorem Wired.dependsOn (h : Wired bid idByName gs g) :
    g.dependsOn = gs.dependsOn.filterMap fun name => idByName.lookup name :=
  congrArg GroupRow.dependsOn h.row

theorem addGroups_stores (x : Nat) (bid : BoardID) (idByName : List (String × GroupID))
    (specs : List TaskGroupSpec) (board : Board) :
    Within Op.stores (fun result => ∀ made, result = .ok made → ∃ groups,
        made = { board with groups := board.groups ++ groups } ∧
        List.Forall₂ (Wired bid idByName) specs groups ∧
        (validateDAG board.groups = .ok () → validateDAG made.groups = .ok ()))
      (addGroups x bid idByName specs board) := by
  induction specs generalizing board with
  | nil =>
    rintro made ⟨⟩
    exact ⟨[], by simp, .nil, id⟩
  | cons gs rest ih =>
    refine uses_bind ((addTasks_numbersTask gs.name _ gs.tasks _).mono fun _ =>
      Op.stores_of_numbersTask) fun result hresult => ?_
    cases result with
    | error text => exact fun made hmade => nomatch hmade
    | ok group =>
      have hgroup : Wired bid idByName gs group := by
        obtain ⟨tasks, rfl, htasks⟩ := hresult group rfl
        exact ⟨rfl, by simpa [Group.new] using htasks.imp fun _ _ hfrom => hfrom.1⟩
      dsimp only
      split
      · exact fun made hmade => nomatch hmade
      next hchecked =>
        cases hadd : board.addGroup group with
        | error err => exact fun made hmade => nomatch hmade
        | ok board' =>
          obtain rfl := Board.eq_of_addGroup hadd
          refine uses_perform_bind rfl fun answer _ => ?_
          cases answer with
          | error err => exact fun made hmade => nomatch hmade
          | ok _ =>
            refine uses_bind (saveTasks_stores x _) fun result _ => ?_
            cases result with
            | error err => exact fun made hmade => nomatch hmade
            | ok _ =>
              refine uses_mono (ih _) (fun _ => id) fun result hrest made hmade => ?_
              obtain ⟨groups, hmore, hwired, hvalid⟩ := hrest made hmade
              refine ⟨group :: groups, ?_, .cons hgroup hwired, fun _ => hvalid hchecked⟩
              rw [hmore]
              simp

end SophiaOrchestrator.Apply
