import SophiaOrchestrator.Apply.Guarantee

/-!
# The build loop

The build gate of a group repeats its build until it passes or the budget of the group is
exhausted, and dispatches a repair after each failure but the last.  The loop has no counter
of its own: its bound is the count of builds that the group carries, which may start anywhere
after a resume.
-/

namespace SophiaOrchestrator.Apply

open Effects Prog

variable {x : Nat} {p : Phase} {plan : BuildPlan} {group : Group} {again : Group → Program BuildEnd}
  {op : Op} {h : History} {result : BuildEnd}

/-! ## Builds and repairs of a history -/

inductive GateStep where
  /-- A build with its exit code, or without one after an error of the runtime. -/
  | built (exitCode : Option Int)
  | repaired
  deriving DecidableEq

def gateStep : Event → Option GateStep
  | ⟨.runtimeExecute _ (.build _ _), .ok result⟩ => some (.built (some result.receipt.exitCode))
  | ⟨.runtimeExecute _ (.build _ _), .error _⟩ => some (.built none)
  | ⟨.dispatch _ ⟨.buildRepair _, _, _⟩, _⟩ => some .repaired
  | _ => none

def gateSteps (h : History) : List GateStep :=
  (h.filterMap gateStep).reverse

def GateStep.codes (steps : List GateStep) : List (Option Int) :=
  steps.filterMap fun step =>
    match step with
    | .built code => some code
    | .repaired => none

def builds (h : History) : List (Option Int) :=
  GateStep.codes (gateSteps h)

/-- One repair after every failed build, except the last of those that are allowed. -/
def withRepairs : Nat → List (Option Int) → List GateStep
  | _, [] => []
  | allowed, code :: rest =>
    if code = some 0 ∨ allowed ≤ 1 then
      .built code :: withRepairs (allowed - 1) rest
    else
      .built code :: .repaired :: withRepairs (allowed - 1) rest

theorem codes_withRepairs (allowed : Nat) (codes : List (Option Int)) :
    GateStep.codes (withRepairs allowed codes) = codes := by
  induction codes generalizing allowed with
  | nil => rfl
  | cons code rest ih =>
    unfold withRepairs
    split
    · exact congrArg (code :: ·) (ih (allowed - 1))
    · exact congrArg (code :: ·) (ih (allowed - 1))

/-- How many builds the group may still have: one at least. -/
def Group.allowedBuilds (group : Group) : Nat :=
  max 1 (maxAttempts - group.buildAttempts)

/-! ## The loop of the source -/

/-- The loop with the count of the group as its only bound. -/
def feedbackLoop (x : Nat) (p : Phase) (plan : BuildPlan) (group : Group) : Program BuildEnd :=
  buildLoop x p plan (maxAttempts - 1 - group.buildAttempts) group

theorem recordBuildAttempt_attempts (group : Group) (success : Bool) :
    (group.recordBuildAttempt success).1.buildAttempts = group.buildAttempts + 1 := by
  unfold Group.recordBuildAttempt
  split
  · rfl
  · split <;> rfl

theorem exhausted_iff (group : Group) :
    (group.recordBuildAttempt false).2 = some .buildBudgetExhausted ↔
      maxAttempts ≤ group.buildAttempts + 1 := by
  simp only [Group.recordBuildAttempt, Bool.false_eq_true, if_false]
  split
  · next hexhausted => simpa using hexhausted
  · next hleft => simpa using hleft

/-- The rest of the loop is entered only with budget left, and with one more build counted. -/
theorem buildOnce_congr {again' : Group → Program BuildEnd}
    (h : ∀ group', group'.buildAttempts = group.buildAttempts + 1 →
      group.buildAttempts + 1 < maxAttempts → again group' = again' group') :
    buildOnce x p plan group again = buildOnce x p plan group again' := by
  unfold buildOnce
  refine congrArg (publishEvent p _ >>= ·) (funext fun _ => ?_)
  refine congrArg (executeBuild x plan group >>= ·) (funext fun exitCode => ?_)
  dsimp only
  split
  · rfl
  · refine congrArg (saveGroupOrAudit x p _ >>= ·) (funext fun _ => ?_)
    refine congrArg (publishEvent p _ >>= ·) (funext fun _ => ?_)
    split
    · rfl
    · next hleft =>
      rw [exhausted_iff] at hleft
      refine congrArg (dispatchBuildRepair x p _ >>= ·) (funext fun _ => ?_)
      exact h _ (recordBuildAttempt_attempts group false) (by omega)

/-- The loop of the source, which knows no number of rounds. -/
theorem feedbackLoop_eq (x : Nat) (p : Phase) (plan : BuildPlan) (group : Group) :
    feedbackLoop x p plan group = buildOnce x p plan group (feedbackLoop x p plan) := by
  unfold feedbackLoop
  cases hrounds : maxAttempts - 1 - group.buildAttempts with
  | zero => exact buildOnce_congr fun _ _ hleft => by omega
  | succ rounds =>
    refine buildOnce_congr fun group' hcount _ => ?_
    have hrest : maxAttempts - 1 - group'.buildAttempts = rounds := by omega
    rw [hrest]

/-! ## Operations outside the gate -/

def Op.gates : Op → Bool
  | .runtimeExecute _ (.build _ _) => true
  | .dispatch _ ⟨.buildRepair _, _, _⟩ => true
  | _ => false

theorem gateStep_of_not_gates {ev : Event} (h : ev.op.gates = false) : gateStep ev = none := by
  obtain ⟨op, answer⟩ := ev
  cases op
  case runtimeExecute ctx command => cases command <;> first | rfl | cases h
  case dispatch x req =>
    obtain ⟨target, path, model⟩ := req
    cases target <;> first | rfl | cases h
  all_goals rfl

theorem gateSteps_cons (ev : Event) (h : History) :
    gateSteps (ev :: h) = gateSteps h ++ (gateStep ev).toList := by
  cases hstep : gateStep ev <;> simp [gateSteps, hstep]

abbrev Ungated {α : Type} (p : Program α) : Prop :=
  p.Uses (fun _ _ => True) (fun op => (!op.gates) = true) fun _ => True

section Rules

variable {α β : Type}

abbrev Leaves (R : α → History → Prop) (p : Program α) (h : History) : Prop :=
  p.wp (histSem fun _ _ => True) (fun _ => True) R h

theorem leaves_perform {R : α → History → Prop} {f : op.Ret → Program α}
    (hf : ∀ answer h', gateSteps h' = gateSteps h ++ (gateStep ⟨op, answer⟩).toList →
      Leaves R (f answer) h') : Leaves R (perform op >>= f) h :=
  wp_perform_bind (fun _ _ => trivial) fun answer _ => hf answer _ (gateSteps_cons _ _)

theorem leaves_ungated {R : α → History → Prop} {p : Program α} (hp : Ungated p)
    (hR : ∀ value h', gateSteps h' = gateSteps h → R value h') : Leaves R p h :=
  wp_of_uses (fun _ _ _ => trivial) hp fun value h' _ hext => hR value h' <|
    hext.eq_of_step fun ev past hop => by
      rw [gateSteps_cons, gateStep_of_not_gates (by simpa using hop)]
      exact List.append_nil _

theorem leaves_ungated_bind {R : β → History → Prop} {p : Program α} {f : α → Program β}
    (hp : Ungated p) (hf : ∀ value h', gateSteps h' = gateSteps h → Leaves R (f value) h') :
    Leaves R (p >>= f) h :=
  wp_bind (leaves_ungated hp hf)

end Rules

theorem Op.not_gates_of_notes (h : op.notes = true) : (!op.gates) = true := by
  cases op <;> first | rfl | cases h

theorem publishEvent_ungated {event : ApplyEvent} : Ungated (publishEvent p event) :=
  (publishEvent_notes p event).uses Op.not_gates_of_notes

theorem saveGroupOrAudit_ungated : Ungated (saveGroupOrAudit x p group) := by
  refine uses_perform_bind rfl fun answer _ => ?_
  cases answer with
  | error err => exact appendAuditErr_notes.uses Op.not_gates_of_notes
  | ok _ => trivial

theorem agentEnvelope_ungated {worktreePath : String} {res : AgentResult} :
    Ungated (agentEnvelope x worktreePath res) :=
  uses_mono ((agentEnvelope_notes x worktreePath res).uses Op.not_gates_of_notes)
    (fun _ hop => hop) fun _ _ => trivial

theorem detectBuildPlan_ungated (x : Nat) (cwd : String) : Ungated (detectBuildPlan x cwd) := by
  refine uses_mono (detectBuildPlan_onlyProbes x cwd) (fun op hprobe => ?_) fun _ hQ => hQ
  cases op
  case runtimeExecute ctx command => cases command <;> first | rfl | cases hprobe
  all_goals first | rfl | cases hprobe

/-! ## One round -/

/-- A build has an exit code, which is the one that the loop looks at; an error of the runtime
reads as a failed build. -/
theorem executeBuild_leaves {R : Int → History → Prop} (x : Nat) (plan : BuildPlan) (group : Group)
    (hR : ∀ code h', gateSteps h' = gateSteps h ++ [.built code] → R (code.getD (-1)) h') :
    Leaves R (executeBuild x plan group) h := by
  unfold executeBuild runtimeExecute
  refine wp_bind (leaves_perform fun answer h₁ hsteps => ?_)
  cases answer with
  | error err => exact hR none h₁ hsteps
  | ok result => exact hR (some result.receipt.exitCode) h₁ hsteps

theorem dispatchBuildRepair_leaves {R : Unit → History → Prop} (x : Nat) (p : Phase) (group : Group)
    (hR : ∀ h', gateSteps h' = gateSteps h ++ [.repaired] → R () h') :
    Leaves R (dispatchBuildRepair x p group) h := by
  unfold dispatchBuildRepair
  refine leaves_perform fun answer h₁ hsteps => ?_
  cases answer with
  | error err =>
    exact leaves_ungated publishEvent_ungated fun _ h' hsame => hR h' (hsame.trans hsteps)
  | ok res =>
    refine leaves_ungated_bind agentEnvelope_ungated fun _ h' hsame => ?_
    exact hR h' (hsame.trans hsteps)

theorem getD_eq_zero_iff (code : Option Int) : code.getD (-1) = 0 ↔ code = some 0 := by
  cases code <;> simp

structure LoopEnds (group : Group) (codes : List (Option Int)) (result : BuildEnd) : Prop where
  nonempty : codes ≠ []
  bounded : codes.length ≤ group.allowedBuilds
  success_iff : result.failed = false ↔ codes.getLast? = some (some 0)
  status : result.failed = false → result.group.buildStatus = .passed

theorem LoopEnds.cons {group' : Group} {code : Option Int} {codes : List (Option Int)}
    (h : LoopEnds group' codes result) (hallowed : group.allowedBuilds = group'.allowedBuilds + 1) :
    LoopEnds group (code :: codes) result where
  nonempty := List.cons_ne_nil _ _
  bounded := by
    rw [hallowed]
    exact Nat.succ_le_succ h.bounded
  success_iff := by
    rw [List.getLast?_cons_of_ne_nil h.nonempty]
    exact h.success_iff
  status := h.status

/-- The loop from a history, after the builds of which it has ended. -/
def Rounds (h : History) (group : Group) (result : BuildEnd) (h' : History) : Prop :=
  ∃ codes, gateSteps h' = gateSteps h ++ withRepairs group.allowedBuilds codes ∧
    LoopEnds group codes result

theorem buildOnce_rounds
    (hagain : ∀ group' h', group'.buildAttempts = group.buildAttempts + 1 →
      group.buildAttempts + 1 < maxAttempts → Leaves (Rounds h' group') (again group') h') :
    Leaves (Rounds h group) (buildOnce x p plan group again) h := by
  unfold buildOnce
  refine leaves_ungated_bind publishEvent_ungated fun _ h₁ hsteps₁ => ?_
  refine wp_bind (executeBuild_leaves x plan group fun code h₂ hsteps₂ => ?_)
  rw [hsteps₁] at hsteps₂
  split
  · next hzero =>
    rw [getD_eq_zero_iff] at hzero
    refine leaves_ungated_bind saveGroupOrAudit_ungated fun _ h₃ hsteps₃ => ?_
    refine leaves_ungated_bind publishEvent_ungated fun _ h₄ hsteps₄ => ?_
    refine ⟨[code], ?_, List.cons_ne_nil _ _, le_max_left 1 _, ?_, fun _ => rfl⟩
    · rw [hsteps₄, hsteps₃, hsteps₂]
      simp [withRepairs, hzero]
    · simp [hzero]
  · next hfailed =>
    rw [getD_eq_zero_iff] at hfailed
    refine leaves_ungated_bind saveGroupOrAudit_ungated fun _ h₃ hsteps₃ => ?_
    refine leaves_ungated_bind publishEvent_ungated fun _ h₄ hsteps₄ => ?_
    have hsteps : gateSteps h₄ = gateSteps h ++ [.built code] := by
      rw [hsteps₄, hsteps₃, hsteps₂]
    split
    · next hexhausted =>
      rw [exhausted_iff] at hexhausted
      have hlast : group.allowedBuilds = 1 := by
        unfold Group.allowedBuilds
        omega
      refine ⟨[code], ?_, List.cons_ne_nil _ _, hlast.ge, ?_, nofun⟩
      · rw [hsteps, hlast]
        simp [withRepairs]
      · simp [hfailed]
    · next hleft =>
      rw [exhausted_iff] at hleft
      refine wp_bind (dispatchBuildRepair_leaves x p _ fun h₅ hsteps₅ => ?_)
      have hcount := recordBuildAttempt_attempts group false
      refine wp_mono (hagain _ h₅ hcount (by omega)) (fun _ hI => hI) ?_
      rintro result h₆ ⟨codes, hsteps₆, hends⟩
      have hallowed : group.allowedBuilds =
          (group.recordBuildAttempt false).1.allowedBuilds + 1 := by
        unfold Group.allowedBuilds
        omega
      refine ⟨code :: codes, ?_, hends.cons hallowed⟩
      have hmore : ¬(code = some 0 ∨ group.allowedBuilds ≤ 1) := by
        unfold Group.allowedBuilds
        simp only [hfailed, false_or]
        omega
      rw [hsteps₆, hsteps₅, hsteps, withRepairs, if_neg hmore, hallowed]
      simp

/-- The loop, by induction on the rounds that the budget leaves. -/
theorem feedbackLoop_rounds (h : History) (x : Nat) (p : Phase) (plan : BuildPlan)
    (group : Group) : Leaves (Rounds h group) (feedbackLoop x p plan group) h := by
  induction hrounds : maxAttempts - group.buildAttempts generalizing h group with
  | zero =>
    rw [feedbackLoop_eq]
    exact buildOnce_rounds fun _ _ _ hleft => by omega
  | succ rounds ih =>
    rw [feedbackLoop_eq]
    exact buildOnce_rounds fun group' h' hcount _ => ih h' group' (by omega)

/-! ## The gate -/

def NoPlan (detected : Except String (Option BuildPlan)) : Prop :=
  ∀ plan, detected ≠ .ok (some plan)

structure GateEnds (group : Group) (detected : Except String (Option BuildPlan))
    (result : BuildEnd) (h : History) : Prop where
  bounded : (builds h).length ≤ max 1 (maxAttempts - group.buildAttempts)
  success_iff : result.failed = false ↔
    (builds h).getLast? = some (some 0) ∨ (NoPlan detected ∧ group.buildStatus = .pending)
  repairs : gateSteps h = withRepairs (max 1 (maxAttempts - group.buildAttempts)) (builds h)
  status : result.failed = false →
    result.group.buildStatus = .passed ∨ result.group.buildStatus = .skipped

theorem skip_ends {detected : Except String (Option BuildPlan)} (hnone : NoPlan detected)
    (hsteps : gateSteps h = []) :
    Leaves (GateEnds group detected) (runGroupBuildFeedbackLoop.skip x p group) h := by
  have hends : ∀ result h', gateSteps h' = [] →
      (result.failed = false ↔ group.buildStatus = .pending) →
      (result.failed = false → result.group.buildStatus = .skipped) →
      GateEnds group detected result h' := by
    intro result h' hempty hiff hskipped
    have hbuilds : builds h' = [] := congrArg GateStep.codes hempty
    refine ⟨by simp [hbuilds], ?_, by rw [hempty, hbuilds]; rfl, fun hok => .inr (hskipped hok)⟩
    rw [hbuilds]
    simpa [hnone] using hiff
  unfold runGroupBuildFeedbackLoop.skip
  by_cases hpending : group.buildStatus = .pending
  · have hskip : group.skipBuild = .ok { group with buildStatus := .skipped } := by
      simp [Group.skipBuild, hpending]
    rw [hskip]
    refine leaves_ungated_bind saveGroupOrAudit_ungated fun _ h₁ hsteps₁ => ?_
    exact hends _ h₁ (hsteps₁.trans hsteps) (by simp [hpending]) fun _ => rfl
  · have hrefused : group.skipBuild = .error .invalidGroupBuildTransition := by
      simp [Group.skipBuild, hpending]
    rw [hrefused]
    exact hends _ h hsteps (by simp [hpending]) nofun

theorem Rounds.gateEnds {h' : History} (hrounds : Rounds h group result h')
    (hsteps : gateSteps h = []) :
    GateEnds group (.ok (some plan)) result h' := by
  obtain ⟨codes, hsteps', hends⟩ := hrounds
  rw [hsteps, List.nil_append] at hsteps'
  have hbuilds : builds h' = codes := by
    unfold builds
    rw [hsteps', codes_withRepairs]
  have hplan : ¬NoPlan (.ok (some plan)) := fun hnone => hnone plan rfl
  refine ⟨by rw [hbuilds]; exact hends.bounded, ?_, by rw [hbuilds]; exact hsteps',
    fun hok => .inl (hends.status hok)⟩
  rw [hbuilds]
  simpa [hplan] using hends.success_iff

theorem afterDetection_ends (hsteps : gateSteps h = [])
    (detected : Except String (Option BuildPlan)) :
    Leaves (GateEnds group detected)
      (match detected with
        | .error _ => do
          publishEvent p (.worktreeError group.id)
          runGroupBuildFeedbackLoop.skip x p group
        | .ok none => runGroupBuildFeedbackLoop.skip x p group
        | .ok (some plan) => buildLoop x p plan (maxAttempts - 1 - group.buildAttempts) group)
      h := by
  match detected with
  | .error err =>
    refine leaves_ungated_bind publishEvent_ungated fun _ h₁ hsteps₁ => ?_
    exact skip_ends (by simp [NoPlan]) (hsteps₁.trans hsteps)
  | .ok none => exact skip_ends (by simp [NoPlan]) hsteps
  | .ok (some plan) =>
    exact wp_mono (feedbackLoop_rounds h x p plan group) (fun _ hI => hI)
      fun _ _ hrounds => hrounds.gateEnds hsteps

/-- The gate for every group, whatever count of builds it carries, and for all answers of the
runtime and of the agents.  The loop is that of the source: it has no number of rounds, and
repeats as long as the group has budget left. -/
theorem buildFeedback_bounded (x : Nat) (p : Phase) (group : Group)
    (env : History → (op : Op) → op.Ret) :
    (∀ plan group', feedbackLoop x p plan group' =
        buildOnce x p plan group' (feedbackLoop x p plan)) ∧
      GateEnds group ((detectBuildPlan x group.worktreePath).answered env []).1
        ((runGroupBuildFeedbackLoop x p group).answered env []).1
        ((runGroupBuildFeedbackLoop x p group).answered env []).2 := by
  refine ⟨fun plan group' => feedbackLoop_eq x p plan group', ?_⟩
  have hdetect : gateSteps ((detectBuildPlan x group.worktreePath).answered env []).2 = [] :=
    (leaves_ungated (h := []) (R := fun _ h => gateSteps h = [])
      (detectBuildPlan_ungated x group.worktreePath) fun _ _ hsame => hsame).answered
      fun _ _ => trivial
  unfold runGroupBuildFeedbackLoop
  rw [answered_bind]
  exact (afterDetection_ends hdetect _).answered fun _ _ => trivial

end SophiaOrchestrator.Apply
