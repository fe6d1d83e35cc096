import SophiaOrchestrator.Apply.TaskProtocol

/-!
# How a group is run

The goroutine of a group waits for the groups it depends on, takes a slot of the `Execute` and one
of the spawn governor, and lets its team-lead run: it starts the goroutines of the tasks, waits for
them, looks for a build plan and builds, with a repair between two builds, before the group is saved
as completed.  Whatever happens, the slots are given back and a result is left.
-/

namespace SophiaOrchestrator.Apply

open Effects Prog

/-- Where the goroutine of a group stands.  While it looks for a build plan, the stage is the rest
of the search; `refused` says whether the governor has refused it a slot, `rounds` how many repairs
it may still ask for, and `slot` whether it holds its slot of the `Execute`. -/
inductive GroupStage where
  | waits
  | forsaken
  | slotted (refused : Bool)
  | granted
  | starting (started : List Task)
  | joined
  | detecting (rest : Program (Except String (Option BuildPlan)))
  | building (plan : BuildPlan) (rounds : Nat)
  | broken (plan : BuildPlan) (rounds : Nat)
  | passed
  | ended (success : Bool)
  | freed (success : Bool)
  | settled (slot : Bool)
  | gone

def GroupStage.probing : GroupStage → Bool
  | .detecting (.call _ _) => true
  | _ => false

def GroupStage.governor : GroupStage → Bool
  | .granted | .starting _ | .joined | .detecting _ | .building _ _ | .broken _ _ | .passed
  | .ended _ => true
  | _ => false

/-- The build gate may be given up: a plan was looked for, or a build has failed. -/
inductive GroupStage.Gating : GroupStage → Prop where
  | detected {result} : Gating (.detecting (.done result))
  | broken {plan rounds} : Gating (.broken plan rounds)

inductive GroupStage.Ends (g : Group) : Bool → GroupStage → Prop where
  | unstarted (hstatus : g.status ≠ .pending) : Ends g false .granted
  | ended {success} : Ends g success (.ended success)

/-- The operation takes no part in how the group is run; a group may be saved, but not as
completed. -/
def Op.marginal : Op → Bool
  | .signal _ _ _ | .receive _ _ | .backoff _ _ => true
  | .saveGroup _ row => decide (row.status ≠ .completed)
  | op => op.notes

theorem Op.marginal_of_notes {op : Op} (hop : op.notes = true) : op.marginal = true := by
  cases op <;> first | exact hop | cases hop

section

variable (cfg : RunConfig) (k x : Nat) (c : Change) (p : Phase) (g : Group)

/-- The moves of the goroutine `k` of the group `g`. -/
inductive GroupMove : Protocol Op Op.Ret GroupStage where
  | stay {s op answer} (hs : s.probing = false) (hop : op.marginal = true) :
      GroupMove s ⟨op, answer⟩ s
  | kept {outcome} (hcompleted : g.status = .completed) :
      GroupMove .waits ⟨.setResult x g.id outcome, ()⟩ (.settled false)
  | forsaken {ev} (hop : ev.op.marginal = true) (hev : mishap ev = true) :
      GroupMove .waits ev .forsaken
  | dropped {outcome} (hfailed : outcome.failed = true) :
      GroupMove .forsaken ⟨.setResult x g.id outcome, ()⟩ (.settled false)
  | slotted : GroupMove .waits ⟨.takeGroupSlot x, .taken⟩ (.slotted false)
  | unslotted : GroupMove .waits ⟨.takeGroupSlot x, .ctxDone⟩ (.settled false)
  | granted {refused} :
      GroupMove (.slotted refused) ⟨.spawnAcquire x, .ok ()⟩ .granted
  | refused {refused err} :
      GroupMove (.slotted refused) ⟨.spawnAcquire x, .error err⟩ (.slotted true)
  | ungranted {outcome} (hfailed : outcome.failed = true) :
      GroupMove (.slotted true) ⟨.setResult x g.id outcome, ()⟩ (.settled true)
  | failed {ev} (hop : ev.op.marginal = true) (hev : mishap ev = true) :
      GroupMove .granted ev (.ended false)
  | unmade {time} (hprovider : cfg.validProvider = false) :
      GroupMove .granted ⟨.now, time⟩ (.ended false)
  | spawned {sid} (hpending : g.status = .pending) :
      GroupMove .granted ⟨.publishEvent p.id (.teamLeadSpawned sid g.id), ()⟩ (.starting [])
  | starts {started t rest group n} (htasks : g.tasks = started ++ t :: rest) :
      GroupMove (.starting started) ⟨.go (.task x k c p group t), n⟩ (.starting (started ++ [t]))
  | joins : GroupMove (.starting g.tasks) ⟨.waitTasks k, ()⟩ .joined
  | fails {outcomes} : GroupMove .joined ⟨.readTaskOutcomes k, outcomes⟩ (.ended false)
  | detects {outcomes} :
      GroupMove .joined ⟨.readTaskOutcomes k, outcomes⟩
        (.detecting (detectBuildPlan x g.worktreePath))
  | probes {op next answer} (hop : op.probes = true) :
      GroupMove (.detecting (.call op next)) ⟨op, answer⟩ (.detecting (next answer))
  | skips {result ev} (hnone : ∀ plan, result ≠ .ok (some plan)) (hop : ev.op.marginal = true) :
      GroupMove (.detecting (.done result)) ev .passed
  | begins {plan ev} (hop : ev.op.marginal = true) :
      GroupMove (.detecting (.done (.ok (some plan)))) ev
        (.building plan (maxAttempts - 1 - g.buildAttempts))
  | passes {plan rounds w} (hcode : w.receipt.exitCode = 0) :
      GroupMove (.building plan rounds)
        ⟨.runtimeExecute (.exec x) (.build plan g.worktreePath), .ok w⟩ .passed
  | breaks {plan rounds answer} :
      GroupMove (.building plan rounds)
        ⟨.runtimeExecute (.exec x) (.build plan g.worktreePath), answer⟩ (.broken plan rounds)
  | repairs {plan rounds gid path model answer} :
      GroupMove (.broken plan (rounds + 1)) ⟨.dispatch x ⟨.buildRepair gid, path, model⟩, answer⟩
        (.building plan rounds)
  | givesUp {s ev} (hs : s.Gating) (hop : ev.op.marginal = true) :
      GroupMove s ev (.ended false)
  | completes {row answer} (hkey : row.key = g.key) (hpath : row.worktreePath = g.worktreePath)
      (hstatus : row.status = .completed) :
      GroupMove .passed ⟨.saveGroup x row, answer⟩ (.ended true)
  | frees {s success answer} (hs : s.Ends g success) :
      GroupMove s ⟨.spawnRelease x, answer⟩ (.freed success)
  | told {success outcome} (hsuccess : outcome.failed = !success) :
      GroupMove (.freed success) ⟨.setResult x g.id outcome, ()⟩ (.settled true)
  | unslots : GroupMove (.settled true) ⟨.releaseGroupSlot x, ()⟩ (.settled false)
  | leaves : GroupMove (.settled false) ⟨.groupDone x k, ()⟩ .gone

end

/-- An operation of the goroutine of a group, besides the start of the goroutines of the tasks. -/
def Op.ofGroup : Op → Bool
  | .setResult _ _ _ | .takeGroupSlot _ | .releaseGroupSlot _ | .spawnAcquire _ | .spawnRelease _
  | .waitTasks _ | .readTaskOutcomes _ | .runtimeExecute _ _ | .dispatch _ ⟨.buildRepair _, _, _⟩
  | .groupDone _ _ | .saveGroup _ _ => true
  | op => op.marginal

theorem GroupMove.op_cases {cfg : RunConfig} {k x : Nat} {c : Change} {p : Phase} {g : Group}
    {s s' : GroupStage} {ev : Event} (hmove : GroupMove cfg k x c p g s ev s') :
    ev.op.ofGroup = true ∨ ∃ group, ∃ t ∈ g.tasks, ev.op = .go (.task x k c p group t) := by
  have hmarginal : ev.op.marginal = true → ev.op.ofGroup = true := fun hop => by
    obtain ⟨op, answer⟩ := ev
    cases op <;> first | exact hop | rfl | cases hop
  cases hmove with
  | stay _ hop | forsaken hop | failed hop | skips _ hop | begins hop | givesUp _ hop =>
    exact .inl (hmarginal hop)
  | @probes op _ _ hop => cases op <;> first | exact .inl rfl | cases hop
  | starts htasks => exact .inr ⟨_, _, by simp [htasks], rfl⟩
  | _ => exact .inl rfl

/-! ## The group in memory -/

structure Started (g group : Group) : Prop where
  key : group.key = g.key
  worktreePath : group.worktreePath = g.worktreePath
  status : group.status = .running

section Started

variable {g group : Group}

theorem Started.marginal (h : Started g group) (x : Nat) :
    (Op.saveGroup x group.toGroupRow).marginal = true := by
  simp [Op.marginal, h.status]

theorem Started.recordBuildAttempt (h : Started g group) (success : Bool) :
    Started g (group.recordBuildAttempt success).1 := by
  unfold Group.recordBuildAttempt
  split
  · exact ⟨h.key, h.worktreePath, h.status⟩
  · split <;> exact ⟨h.key, h.worktreePath, h.status⟩

theorem Started.skipBuild {group' : Group} (h : Started g group)
    (hskip : group.skipBuild = .ok group') : Started g group' := by
  unfold Group.skipBuild at hskip
  split at hskip
  · cases hskip
  · cases hskip
    exact ⟨h.key, h.worktreePath, h.status⟩

theorem Started.fail_marginal (h : Started g group) (x : Nat) :
    (Op.saveGroup x (group.fail.toOption.getD group).toGroupRow).marginal = true := by
  simp [Op.marginal, Group.fail, h.status, Except.toOption]

theorem Started.complete_getD (h : Started g group) :
    group.complete.toOption.getD group = { group with status := .completed } := by
  simp [Group.complete, h.status, Except.toOption]

end Started

/-! ## The programs -/

section Programs

variable {α β : Type} {Q : α → Prop} {R : β → GroupStage → Prop} {prog : Program α}
  {cfg : RunConfig} {k x : Nat} {c : Change} {p : Phase} {g group : Group} {s s' : GroupStage}
  {plan : BuildPlan} {rounds : Nat}

theorem follows_reports {f : α → Program β} (hprog : Within Op.notes Q prog)
    (hs : s.probing = false)
    (hf : ∀ value, Q value → (f value).Follows (GroupMove cfg k x c p g) R s) :
    (prog >>= f).Follows (GroupMove cfg k x c p g) R s :=
  follows_stay_bind hprog (fun _ _ hop => .stay hs (Op.marginal_of_notes hop)) hf

theorem follows_saveGroup {f : Unit → Program β}
    (hmove : ∀ answer, GroupMove cfg k x c p g s ⟨.saveGroup x group.toGroupRow, answer⟩ s')
    (hs : s'.probing = false) (hf : (f ()).Follows (GroupMove cfg k x c p g) R s') :
    (saveGroupOrAudit x p group >>= f).Follows (GroupMove cfg k x c p g) R s := by
  intro answer
  refine ⟨s', hmove answer, ?_⟩
  cases answer with
  | error err => exact follows_reports appendAuditErr_notes hs fun _ _ => hf
  | ok _ => exact hf

/-! ### The build gate -/

theorem probes_follows {prog : Program (Except String (Option BuildPlan))}
    (hprog : Within Op.probes (fun _ => True) prog) :
    prog.Follows (GroupMove cfg k x c p g) (fun result s => s = .detecting (.done result))
      (.detecting prog) := by
  induction prog with
  | done result => rfl
  | call op next ih => exact fun answer => ⟨_, .probes hprog.1, ih answer (hprog.2 answer trivial)⟩

structure BuildEnd.At (g : Group) (built : BuildEnd) (s : GroupStage) : Prop where
  started : Started g built.group
  stage : if built.failed = true then s.Gating else s = .passed

theorem buildOnce_follows {again : Group → Program BuildEnd} (hstarted : Started g group)
    (hfirst : ∀ event, GroupMove cfg k x c p g s ⟨.publishEvent p.id event, ()⟩
      (.building plan rounds))
    (hagain : group.buildAttempts + 1 < maxAttempts → ∃ fewer, rounds = fewer + 1 ∧
      ∀ group', Started g group' → group'.buildAttempts = group.buildAttempts + 1 →
        (again group').Follows (GroupMove cfg k x c p g) (BuildEnd.At g) (.building plan fewer)) :
    (buildOnce x p plan group again).Follows (GroupMove cfg k x c p g) (BuildEnd.At g) s := by
  have hbuild : (executeBuild x plan group).Follows (GroupMove cfg k x c p g)
      (fun exitCode s => s = if exitCode = 0 then .passed else .broken plan rounds)
      (.building plan rounds) := by
    unfold executeBuild runtimeExecute
    rw [hstarted.worktreePath]
    refine follows_bind (Q := fun result s => s = if result.toOption.map (·.exitCode) = some 0
      then .passed else .broken plan rounds) ?_ ?_
    · refine follows_perform fun answer => ?_
      cases answer with
      | error err => exact ⟨_, .breaks, rfl⟩
      | ok w =>
        by_cases hcode : w.receipt.exitCode = 0
        · exact ⟨_, .passes hcode, (if_pos (congrArg some hcode)).symm⟩
        · exact ⟨_, .breaks, (if_neg fun h => hcode (Option.some.inj h)).symm⟩
    · rintro result _ rfl
      cases result with
      | error err => rfl
      | ok receipt => exact if_congr (Option.some_inj) rfl rfl
  unfold buildOnce
  refine follows_perform fun _ => ⟨_, hfirst _, follows_bind hbuild ?_⟩
  rintro exitCode _ rfl
  split
  case isTrue =>
    have hrecorded := hstarted.recordBuildAttempt true
    refine follows_saveGroup (fun _ => .stay rfl (hrecorded.marginal x)) rfl ?_
    exact follows_reports (publishEvent_notes p _) rfl fun _ _ => ⟨hrecorded, rfl⟩
  case isFalse =>
    have hrecorded := hstarted.recordBuildAttempt false
    refine follows_saveGroup (fun _ => .stay rfl (hrecorded.marginal x)) rfl ?_
    refine follows_reports (publishEvent_notes p _) rfl fun _ _ => ?_
    split
    case isTrue => exact ⟨hrecorded, .broken⟩
    case isFalse hbudget =>
      have hleft : group.buildAttempts + 1 < maxAttempts := by
        by_contra hnone
        exact hbudget (by simp [Group.recordBuildAttempt, Nat.not_lt.mp hnone])
      have hcount : (group.recordBuildAttempt false).1.buildAttempts = group.buildAttempts + 1 := by
        simp [Group.recordBuildAttempt, Nat.not_le.mpr hleft]
      obtain ⟨fewer, rfl, hrest⟩ := hagain hleft
      refine follows_bind (Q := fun _ s => s = .building plan fewer) ?_ ?_
      · refine follows_perform fun answer => ⟨_, .repairs, ?_⟩
        cases answer with
        | error err => exact fun _ => ⟨_, .stay rfl rfl, rfl⟩
        | ok res => exact follows_reports (agentEnvelope_notes _ _ _) rfl fun _ _ => rfl
      · rintro _ _ rfl
        exact hrest _ hrecorded hcount

/-- The rounds that remain are those that the group has attempts for, so that the last one asks for
no repair. -/
theorem buildLoop_follows (hstarted : Started g group)
    (hfirst : ∀ event, GroupMove cfg k x c p g s ⟨.publishEvent p.id event, ()⟩
      (.building plan rounds))
    (hrounds : maxAttempts ≤ group.buildAttempts + rounds + 1) :
    (buildLoop x p plan rounds group).Follows (GroupMove cfg k x c p g) (BuildEnd.At g) s := by
  induction rounds generalizing s group with
  | zero => exact buildOnce_follows hstarted hfirst fun hleft => by omega
  | succ rounds ih =>
    refine buildOnce_follows hstarted hfirst fun _ =>
      ⟨rounds, rfl, fun group' hstarted' hcount => ?_⟩
    exact ih hstarted' (fun _ => .stay rfl rfl) (by omega)

theorem skip_follows {result : Except String (Option BuildPlan)} (hstarted : Started g group)
    (hnone : ∀ plan, result ≠ .ok (some plan)) :
    (runGroupBuildFeedbackLoop.skip x p group).Follows (GroupMove cfg k x c p g) (BuildEnd.At g)
      (.detecting (.done result)) := by
  unfold runGroupBuildFeedbackLoop.skip
  cases hskip : group.skipBuild with
  | error err => exact ⟨hstarted, .detected⟩
  | ok group' =>
    have hstarted' := hstarted.skipBuild hskip
    exact follows_saveGroup (fun _ => .skips hnone (hstarted'.marginal x)) rfl ⟨hstarted', rfl⟩

theorem runGroupBuildFeedbackLoop_follows :
    (runGroupBuildFeedbackLoop x p { g with status := .running }).Follows
      (GroupMove cfg k x c p g) (BuildEnd.At g)
        (.detecting (detectBuildPlan x g.worktreePath)) := by
  have hstarted : Started g { g with status := .running } := ⟨rfl, rfl, rfl⟩
  refine follows_bind (probes_follows (detectBuildPlan_onlyProbes _ _)) ?_
  rintro result _ rfl
  match result with
  | .error err =>
    exact follows_reports (publishEvent_notes p _) rfl fun _ _ => skip_follows hstarted (by simp)
  | .ok none => exact skip_follows hstarted (by simp)
  | .ok (some plan) =>
    exact buildLoop_follows hstarted (fun _ => .begins rfl) (by dsimp only; omega)

/-! ### The team-lead -/

theorem aggregate_follows (sess : Session) (outcomes : List (TaskID × Bool)) :
    ∃ s, GroupMove cfg k x c p g .joined ⟨.readTaskOutcomes k, outcomes⟩ s ∧
      (aggregate x c p { g with status := .running } sess outcomes).Follows
        (GroupMove cfg k x c p g)
        (fun outcome s => s.Ends g (!outcome.failed)) s := by
  unfold aggregate
  dsimp only
  split
  case isTrue =>
    refine ⟨_, .fails, follows_reports transitionOrAudit_notes rfl fun group hgroup => ?_⟩
    subst hgroup
    refine follows_saveGroup (fun _ => .stay rfl rfl) rfl ?_
    exact follows_reports recordTeamLead_notes rfl fun _ _ => .ended
  case isFalse =>
    refine ⟨_, .detects, follows_bind runGroupBuildFeedbackLoop_follows ?_⟩
    rintro ⟨failed, group⟩ s ⟨hstarted, hs⟩
    cases failed with
    | true =>
      have hresting : s.probing = false := by cases hs <;> rfl
      refine follows_reports transitionOrAudit_notes hresting fun group' hgroup => ?_
      subst hgroup
      exact follows_saveGroup (fun _ => .givesUp hs (hstarted.fail_marginal x)) rfl .ended
    | false =>
      obtain rfl : s = .passed := hs
      refine follows_reports transitionOrAudit_notes rfl fun group' hgroup => ?_
      rw [hstarted.complete_getD] at hgroup
      subst hgroup
      refine follows_saveGroup (fun _ => .completes hstarted.key hstarted.worktreePath rfl) rfl ?_
      exact follows_reports recordTeamLead_notes rfl fun _ _ => .ended

theorem startTasks_follows {started rest : List Task} (htasks : g.tasks = started ++ rest) :
    (startTasks x k c p group rest).Follows (GroupMove cfg k x c p g)
      (fun _ s => s = .starting g.tasks) (.starting started) := by
  induction rest generalizing started with
  | nil => rw [htasks, List.append_nil]; rfl
  | cons t rest ih => exact fun _ => ⟨_, .starts htasks, ih (by simp [htasks])⟩

theorem runTeamLead_follows :
    (runTeamLead cfg k x c p g).Follows (GroupMove cfg k x c p g)
      (fun outcome s => s.Ends g (!outcome.failed)) .granted := by
  unfold runTeamLead
  by_cases hpending : g.status = .pending
  case neg =>
    rw [show g.start = .error .invalidGroupTransition by simp [Group.start, hpending]]
    exact .unstarted hpending
  case pos =>
    rw [show g.start = .ok { g with status := .running } by simp [Group.start, hpending]]
    refine follows_perform fun answer => ?_
    cases answer with
    | error err => exact ⟨_, .failed rfl rfl, .ended⟩
    | ok _ =>
      refine ⟨_, .stay rfl rfl, follows_bind (makeSession_follows
        (fun _ _ hop => .stay rfl (Op.marginal_of_notes hop))
        (fun _ hop hev => .failed (Op.marginal_of_notes hop) hev)
        fun _ hnew => .unmade (hnew.resolve_right ?_)) ?_⟩
      · intro hempty
        have hlength := congrArg String.length hempty
        simp [String.length_append] at hlength
      · rintro made _ rfl
        cases made with
        | error text => exact .ended
        | ok sess =>
          refine follows_perform fun _ => ⟨_, .spawned hpending, ?_⟩
          refine follows_bind (startTasks_follows (List.nil_append _).symm) ?_
          rintro _ _ rfl
          exact follows_perform fun _ => ⟨_, .joins, fun outcomes =>
            aggregate_follows sess outcomes⟩

/-! ### The goroutine -/

theorem failGroup_follows {err : GroupErr} (hs : s.probing = false)
    (hmove : GroupMove cfg k x c p g s
      ⟨.setResult x g.id { failed := true, err := some err }, ()⟩ s') :
    (failGroup x g err).Follows (GroupMove cfg k x c p g) (fun _ s => s = s') s :=
  fun _ => ⟨_, .stay hs rfl, fun _ => ⟨_, hmove, rfl⟩⟩

theorem runInSlot_follows :
    (runInSlot cfg k x c p g).Follows (GroupMove cfg k x c p g) (fun _ s => s = .settled true)
      (.slotted false) := by
  refine follows_bind (acquireWithSaturationRetries_follows GroupStage.slotted (fun _ => .granted)
    (fun _ _ => .refused) fun _ _ => .stay rfl rfl) ?_
  rintro granted _ rfl
  cases granted with
  | error err => exact failGroup_follows rfl (.ungranted rfl)
  | ok _ =>
    refine follows_bind runTeamLead_follows fun outcome s hs => ?_
    refine follows_perform fun _ => ⟨_, .frees hs, ?_⟩
    refine follows_perform fun _ => ⟨_, .told (by simp), ?_⟩
    refine follows_perform fun _ => ⟨_, .stay rfl rfl, ?_⟩
    split <;> exact fun _ => ⟨_, .stay rfl rfl, rfl⟩

theorem runAfterDeps_follows :
    (runAfterDeps cfg k x c p g).Follows (GroupMove cfg k x c p g) (fun _ s => s = .settled false)
      .waits := by
  refine follows_perform fun answer => ?_
  cases answer with
  | ctxDone => exact ⟨_, .unslotted, fun _ => ⟨_, .stay rfl rfl, rfl⟩⟩
  | taken =>
    refine ⟨_, .slotted, follows_bind runInSlot_follows ?_⟩
    rintro _ _ rfl
    exact fun _ => ⟨_, .unslots, rfl⟩

/-- A wait that ends with an error that is not the one of a dependency is a mishap. -/
theorem dagWait_follows (deps : List GroupID) :
    (dagWait x deps).Follows (GroupMove cfg k x c p g)
      (fun result s => s = match result with
        | .ok _ | .error (.upstreamFailed _ _) => .waits
        | .error _ => .forsaken) .waits := by
  induction deps with
  | nil => rfl
  | cons dep rest ih =>
    refine follows_perform fun answer => ?_
    cases answer with
    | unknownDep | ctxDone | timeout => exact ⟨_, .forsaken rfl rfl, rfl⟩
    | result r =>
      refine ⟨_, .stay rfl rfl, follows_perform fun _ => ⟨_, .stay rfl rfl, ?_⟩⟩
      split
      · rfl
      · exact ih

theorem groupGoroutine_follows :
    (groupGoroutine cfg k x c p g).Follows (GroupMove cfg k x c p g) (fun _ s => s = .gone)
      .waits := by
  have hfail : ∀ err, (failAfterWait x p g err).Follows (GroupMove cfg k x c p g)
      (fun _ s => s = .settled false) .forsaken := fun err => by
    refine follows_bind (failGroup_follows rfl (.dropped rfl)) ?_
    rintro _ _ rfl
    exact fun _ => ⟨_, .stay rfl rfl, rfl⟩
  refine follows_bind (Q := fun _ s => s = .settled false) ?_ ?_
  · unfold runGroup
    split
    case isTrue hcompleted =>
      exact fun _ => ⟨_, .stay rfl rfl, fun _ => ⟨_, .kept hcompleted, rfl⟩⟩
    case isFalse =>
      refine follows_bind (dagWait_follows g.dependsOn) ?_
      rintro result _ rfl
      rcases result with (dep | ⟨dep, cause⟩ | _ | dep) | _
      · exact hfail _
      · exact follows_reports (publishEvent_notes p _) rfl fun _ _ => runAfterDeps_follows
      · exact hfail _
      · exact hfail _
      · exact runAfterDeps_follows
  · rintro _ _ rfl
    exact fun _ => ⟨_, .leaves, rfl⟩

end Programs

end SophiaOrchestrator.Apply
