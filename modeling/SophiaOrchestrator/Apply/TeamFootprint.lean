import SophiaOrchestrator.Apply.Footprint

/-!
# Which operations the parts of a team-lead perform

The parts of a team-lead perform operations of a few kinds only.
-/

namespace SophiaOrchestrator.Apply

open Effects Prog

variable {α : Type} {Q : α → Prop} {prog : Program α} {cfg : RunConfig} {x : Nat} {c : Change}
  {p : Phase} {group : Group}

def Op.probes : Op → Bool
  | .runtimeExecute _ (.testFile _ _) | .runtimeExecute _ (.cat _ _) => true
  | _ => false

def Op.asksGit : Op → Bool
  | .gitStatus _ _ => true
  | _ => false

def Op.notes : Op → Bool
  | .newSessionID | .now | .saveSession _ _ | .gitStatus _ _ | .publishEvent _ _
  | .appendAudit _ _ => true
  | _ => false

def Op.acquires : Op → Bool
  | .spawnAcquire _ | .backoff _ _ => true
  | _ => false

/-! ## Sessions and reports -/

theorem publishEvent_notes (p : Phase) (event : ApplyEvent) :
    Within Op.notes (fun _ => True) (publishEvent p event) :=
  ⟨rfl, fun _ _ => trivial⟩

theorem appendAuditErr_notes {operation : String} :
    Within Op.notes (fun _ => True) (appendAuditErr p operation) :=
  ⟨rfl, fun _ _ => trivial⟩

theorem saveSessionOrAudit_notes {sess : Session} :
    Within Op.notes (fun _ => True) (saveSessionOrAudit x p sess) := by
  refine uses_perform_bind rfl fun answer _ => ?_
  cases answer with
  | error err => exact appendAuditErr_notes
  | ok _ => trivial

theorem transitionOrAudit_notes {ε : Type} {operation : String} {old : α} {new : Except ε α} :
    Within Op.notes (fun value => value = new.toOption.getD old)
      (transitionOrAudit p operation old new) := by
  unfold transitionOrAudit
  cases new with
  | error err => exact uses_bind appendAuditErr_notes fun _ _ => rfl
  | ok value => rfl

theorem synthesizeEnvelope_asksGit (x : Nat) (worktreePath : String) :
    Within Op.asksGit (fun answer => ∀ raw, answer = .ok raw →
      ∃ err, validateEnvelope raw .apply = .error err) (synthesizeEnvelope x worktreePath) := by
  unfold synthesizeEnvelope
  split
  · exact fun raw hraw => by cases hraw
  · exact uses_perform_bind rfl fun answer _ raw hraw => validateEnvelope_synthesized hraw

/-- An envelope that is valid is the agent's own. -/
theorem agentEnvelope_asksGit (x : Nat) (worktreePath : String) (res : AgentResult) :
    Within Op.asksGit (fun raw => (validateEnvelope raw .apply).toOption =
      (validateEnvelope res.envelopeRaw .apply).toOption) (agentEnvelope x worktreePath res) := by
  unfold agentEnvelope
  cases hraw : res.envelopeRaw with
  | empty =>
    dsimp only
    split
    · refine uses_bind (synthesizeEnvelope_asksGit x worktreePath) fun answer hrefused => ?_
      cases answer with
      | error err => rfl
      | ok raw =>
        obtain ⟨err, herr⟩ := hrefused raw rfl
        change (validateEnvelope raw .apply).toOption = none
        rw [herr]
        rfl
    · rfl
  | invalid | json env => rfl

theorem agentEnvelope_notes (x : Nat) (worktreePath : String) (res : AgentResult) :
    Within Op.notes (fun raw => (validateEnvelope raw .apply).toOption =
      (validateEnvelope res.envelopeRaw .apply).toOption) (agentEnvelope x worktreePath res) :=
  (agentEnvelope_asksGit x worktreePath res).mono fun op hop => by
    cases op <;> first | rfl | cases hop

theorem recordTeamLead_notes {sess : Session} {done : Nat} {hadFailure : Bool} :
    Within Op.notes (fun _ => True) (recordTeamLead x c p group sess done hadFailure) := by
  refine uses_perform_bind rfl fun now _ => ?_
  refine uses_bind transitionOrAudit_notes fun sess _ => ?_
  exact saveSessionOrAudit_notes

/-! ## The attempts at a task -/

theorem complete_getD_id (task : Task) (env : Envelope) :
    ((task.complete env).toOption.getD task).id = task.id := by
  unfold Task.complete
  split <;> rfl

theorem release_getD_id (task : Task) : (task.release.toOption.getD task).id = task.id := by
  unfold Task.release
  split <;> rfl

theorem recordAttempt_id (task : Task) (success : Bool) :
    (task.recordAttempt success).1.id = task.id := by
  unfold Task.recordAttempt
  split
  · rfl
  · split <;> rfl

theorem acquireWithSaturationRetries_acquires (x : Nat) :
    Within Op.acquires (fun _ => True) (acquireWithSaturationRetries x) := by
  unfold acquireWithSaturationRetries
  induction saturationRetryBudget with
  | zero => trivial
  | succ n ih =>
    refine uses_perform_bind rfl fun answer _ => ?_
    match answer with
    | .ok () => trivial
    | .error (.other text) => trivial
    | .error .saturated =>
      refine uses_perform_bind rfl fun answer _ => ?_
      cases answer with
      | ctxDone => trivial
      | taken => exact ih

/-! ## The manifests -/

abbrev OnlyProbes {α : Type} (p : Program α) : Prop :=
  Within Op.probes (fun _ => True) p

theorem onlyProbes_bind {β : Type} {p : Program α} {f : α → Program β} (hp : OnlyProbes p)
    (hf : ∀ value, OnlyProbes (f value)) : OnlyProbes (p >>= f) :=
  uses_bind hp fun value _ => hf value

theorem runtimeExecute_onlyProbes {ctx : Ctx} {command : RuntimeCommand}
    (hprobe : (Op.runtimeExecute ctx command).probes = true) :
    OnlyProbes (runtimeExecute ctx command) := by
  refine uses_perform_bind hprobe fun answer _ => ?_
  cases answer <;> trivial

theorem fileExistsInWorktree_onlyProbes {cwd file : String} :
    OnlyProbes (fileExistsInWorktree x cwd file) := by
  refine onlyProbes_bind (runtimeExecute_onlyProbes rfl) fun answer => ?_
  cases answer <;> trivial

theorem readFileInWorktree_onlyProbes {cwd file : String} :
    OnlyProbes (readFileInWorktree x cwd file) := by
  refine onlyProbes_bind (runtimeExecute_onlyProbes rfl) fun answer => ?_
  cases answer with
  | error err => trivial
  | ok receipt => dsimp only; split <;> trivial

theorem goModRule_onlyProbes (x : Nat) (cwd : String) : OnlyProbes (goModRule x cwd) := by
  refine onlyProbes_bind fileExistsInWorktree_onlyProbes fun answer => ?_
  match answer with
  | .error err => trivial
  | .ok false => trivial
  | .ok true => trivial

theorem packageJSONRule_onlyProbes (x : Nat) (cwd : String) :
    OnlyProbes (packageJSONRule x cwd) := by
  refine onlyProbes_bind fileExistsInWorktree_onlyProbes fun answer => ?_
  match answer with
  | .error err => trivial
  | .ok false => trivial
  | .ok true =>
    refine onlyProbes_bind readFileInWorktree_onlyProbes fun answer => ?_
    cases answer <;> trivial

theorem isFlutterProject_onlyProbes {cwd : String} : OnlyProbes (isFlutterProject x cwd) := by
  refine onlyProbes_bind fileExistsInWorktree_onlyProbes fun answer => ?_
  rcases answer with err | _ | _
  case ok.true => trivial
  all_goals
    refine onlyProbes_bind readFileInWorktree_onlyProbes fun answer => ?_
    cases answer <;> trivial

theorem pubspecRule_onlyProbes (x : Nat) (cwd : String) : OnlyProbes (pubspecRule x cwd) := by
  refine onlyProbes_bind fileExistsInWorktree_onlyProbes fun answer => ?_
  match answer with
  | .error err => trivial
  | .ok false => trivial
  | .ok true =>
    refine onlyProbes_bind isFlutterProject_onlyProbes fun answer => ?_
    split
    · trivial
    · refine onlyProbes_bind fileExistsInWorktree_onlyProbes fun answer => ?_
      match answer with
      | .error err => trivial
      | .ok false => trivial
      | .ok true => trivial

theorem detectFrom_onlyProbes {rules : List (Program (Except String (Option BuildPlan)))}
    (hrules : ∀ rule ∈ rules, OnlyProbes rule) : OnlyProbes (detectFrom rules) := by
  induction rules with
  | nil => trivial
  | cons rule rest ih =>
    unfold detectFrom
    refine onlyProbes_bind (hrules rule List.mem_cons_self) fun answer => ?_
    match answer with
    | .error err => trivial
    | .ok (some plan) => trivial
    | .ok none => exact ih fun rule hmem => hrules rule (List.mem_cons_of_mem _ hmem)

theorem detectBuildPlan_onlyProbes (x : Nat) (cwd : String) :
    OnlyProbes (detectBuildPlan x cwd) := by
  refine detectFrom_onlyProbes ?_
  intro rule hmem
  simp only [List.mem_cons, List.not_mem_nil, or_false] at hmem
  rcases hmem with rfl | rfl | rfl
  · exact goModRule_onlyProbes x cwd
  · exact packageJSONRule_onlyProbes x cwd
  · exact pubspecRule_onlyProbes x cwd

end SophiaOrchestrator.Apply
