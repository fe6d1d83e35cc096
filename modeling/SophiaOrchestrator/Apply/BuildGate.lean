import SophiaOrchestrator.Apply.Runs

/-!
# The build gate

A group whose worktree has a build manifest is completed only after its build has
passed.  The gate learns everything from receipts of the runtime: the probes for the
manifests, and the exit code of the build.  A receipt without an exit code reads as the
exit code zero, its status is not looked at, and a probe that fails reads as a worktree
without a manifest.
-/

namespace SophiaOrchestrator.Apply

open Effects Prog

/-! ## Manifests -/

abbrev Worktree : Type := String → Option Output

/-- The plan of a `pubspec.yaml`: a Flutter project, or a Dart one with an entrypoint. -/
def pubspecPlan (files : Worktree) : Option BuildPlan :=
  match files "pubspec.yaml" with
  | none => none
  | some raw =>
    if (files ".flutter-plugins").isSome || mentionsFlutter raw.text then
      some flutterBuild
    else if (files "lib/main.dart").isSome then
      some dartBuild
    else
      none

/-- The build plan of the first manifest that the registry recognizes. -/
def buildPlanOf (files : Worktree) : Option BuildPlan :=
  if (files "go.mod").isSome then
    some goBuild
  else if (files "package.json").any fun raw => hasBuildScript raw.doc then
    some npmBuild
  else
    pubspecPlan files

def BuildSucceeded (h : History) (x : Nat) (plan : BuildPlan) (cwd : String) : Prop :=
  ∃ w : WireResult, ⟨.runtimeExecute (.exec x) (.build plan cwd), .ok w⟩ ∈ h ∧
    w.status = .success ∧ w.exitCode = some 0

/-- A group is saved as completed only if it was loaded so, or if its build has succeeded
unless its worktree has no manifest.  `W x cwd` are the files of the worktree that the
`Execute` with the number `x` works on. -/
def GateKept (W : Nat → String → Worktree) (π : ApplyPool) : Prop :=
  ∀ t ∈ π.threads, ∀ x row answer, ⟨.saveGroup x row, answer⟩ ∈ t.hist →
    row.status = .completed → LoadedCompleted t.hist x row ∨
      ∀ plan, buildPlanOf (W x row.worktreePath) = some plan →
        BuildSucceeded t.hist x plan row.worktreePath

/-! ## Honest receipts -/

def Output.readsAs (a b : Output) : Bool :=
  decide (a.text = b.text) && hasBuildScript a.doc == hasBuildScript b.doc

/-- The receipt reports by its exit code: a probe succeeds exactly when the file is there,
and a build has an exit code, which is zero only if it has succeeded. -/
def honestReceipt (W : Nat → String → Worktree) : Event → Bool
  | ⟨.runtimeExecute (.exec x) (.testFile cwd file), .ok w⟩ =>
    decide (w.receipt.exitCode = 0) == (W x cwd file).isSome
  | ⟨.runtimeExecute _ (.testFile _ _), .error _⟩ => false
  | ⟨.runtimeExecute (.exec x) (.cat cwd file), .ok w⟩ =>
    (W x cwd file).all fun raw =>
      decide (w.receipt.exitCode = 0) && w.receipt.stdout.readsAs raw
  | ⟨.runtimeExecute _ (.cat _ _), .error _⟩ => false
  | ⟨.runtimeExecute _ (.build _ _), .ok w⟩ =>
    w.exitCode.any fun code => decide (code = 0 → w.status = .success)
  | _ => true

def honestRuntime (cfg : RunConfig) (W : Nat → String → Worktree) : StepCondition :=
  fun op ch _ s => honestReceipt W ⟨op, (handle cfg op ch s).1⟩

section Detection

variable (W : Nat → String → Worktree) (x : Nat) (cwd : String)

def Honest (op : Op) (answer : op.Ret) : Prop :=
  honestReceipt W ⟨op, answer⟩ = true

theorem fileExistsInWorktree_honest (file : String) :
    (fileExistsInWorktree x cwd file).Uses (Honest W) (fun _ => True)
      (fun result => result = .ok (W x cwd file).isSome) := by
  refine uses_bind (Q := fun result => ∃ receipt, result = .ok receipt ∧
    decide (receipt.exitCode = 0) = (W x cwd file).isSome) ?_ ?_
  · refine uses_perform_bind trivial fun answer hans => ?_
    cases answer with
    | error err => cases hans
    | ok w => exact ⟨_, rfl, by simpa [Honest, honestReceipt] using hans⟩
  · rintro _ ⟨receipt, rfl, hcode⟩
    exact congrArg Except.ok hcode

theorem readFileInWorktree_honest {file : String} {raw : Output} (hfile : W x cwd file = some raw) :
    (readFileInWorktree x cwd file).Uses (Honest W) (fun _ => True)
      (fun result => ∃ out, result = .ok out ∧ out.readsAs raw = true) := by
  refine uses_bind (Q := fun result => ∃ receipt : Receipt, result = .ok receipt ∧
    receipt.exitCode = 0 ∧ receipt.stdout.readsAs raw = true) ?_ ?_
  · refine uses_perform_bind trivial fun answer hans => ?_
    cases answer with
    | error err => cases hans
    | ok w => exact ⟨_, rfl, by simpa [Honest, honestReceipt, hfile] using hans⟩
  · rintro _ ⟨receipt, rfl, hcode, hreads⟩
    dsimp only
    rw [if_neg (not_not.mpr hcode)]
    exact ⟨_, rfl, hreads⟩

theorem goModRule_honest :
    (goModRule x cwd).Uses (Honest W) (fun _ => True)
      (fun result => result = .ok (if (W x cwd "go.mod").isSome then some goBuild else none)) := by
  refine uses_bind (fileExistsInWorktree_honest W x cwd "go.mod") ?_
  rintro _ rfl
  cases (W x cwd "go.mod").isSome <;> rfl

theorem packageJSONRule_honest :
    (packageJSONRule x cwd).Uses (Honest W) (fun _ => True)
      (fun result => result = .ok
        (if (W x cwd "package.json").any fun raw => hasBuildScript raw.doc then some npmBuild
          else none)) := by
  refine uses_bind (fileExistsInWorktree_honest W x cwd "package.json") ?_
  rintro _ rfl
  cases hfile : W x cwd "package.json" with
  | none => rfl
  | some raw =>
    refine uses_bind (readFileInWorktree_honest W x cwd hfile) ?_
    rintro _ ⟨out, rfl, hreads⟩
    simp only [Output.readsAs, Bool.and_eq_true, beq_iff_eq] at hreads
    simp [hreads.2]

theorem isFlutterProject_honest {raw : Output} (hfile : W x cwd "pubspec.yaml" = some raw) :
    (isFlutterProject x cwd).Uses (Honest W) (fun _ => True)
      (fun result => result = ((W x cwd ".flutter-plugins").isSome ||
        mentionsFlutter raw.text)) := by
  refine uses_bind (fileExistsInWorktree_honest W x cwd ".flutter-plugins") ?_
  rintro _ rfl
  cases (W x cwd ".flutter-plugins").isSome with
  | true => exact (Bool.true_or _).symm
  | false =>
    refine uses_bind (readFileInWorktree_honest W x cwd hfile) ?_
    rintro _ ⟨out, rfl, hreads⟩
    simp only [Output.readsAs, Bool.and_eq_true, decide_eq_true_eq] at hreads
    simp [hreads.1]

theorem pubspecRule_honest :
    (pubspecRule x cwd).Uses (Honest W) (fun _ => True)
      (fun result => result = .ok (pubspecPlan (W x cwd))) := by
  refine uses_bind (fileExistsInWorktree_honest W x cwd "pubspec.yaml") ?_
  rintro _ rfl
  unfold pubspecPlan
  cases hfile : W x cwd "pubspec.yaml" with
  | none => rfl
  | some raw =>
    refine uses_bind (isFlutterProject_honest W x cwd hfile) ?_
    rintro _ rfl
    dsimp only
    split
    · rfl
    · refine uses_bind (fileExistsInWorktree_honest W x cwd "lib/main.dart") ?_
      rintro _ rfl
      cases (W x cwd "lib/main.dart").isSome <;> rfl

/-- An honest runtime lets the detection find the plan of the worktree. -/
theorem detectBuildPlan_honest :
    (detectBuildPlan x cwd).Uses (Honest W) (fun _ => True)
      (fun result => result = .ok (buildPlanOf (W x cwd))) := by
  unfold detectBuildPlan buildPlanOf
  refine uses_bind (goModRule_honest W x cwd) ?_
  rintro _ rfl
  split
  · rfl
  · refine uses_bind (packageJSONRule_honest W x cwd) ?_
    rintro _ rfl
    split
    · rfl
    · refine uses_bind (pubspecRule_honest W x cwd) ?_
      rintro _ rfl
      cases pubspecPlan (W x cwd) <;> rfl

end Detection

/-! ## The gate -/

/-- With an honest runtime a build gate is passed only by a build that has succeeded. -/
theorem BuildGatePassed.succeeded {W : Nat → String → Worktree} {h : History} {x : Nat}
    {cwd : String} (hpassed : BuildGatePassed h x cwd)
    (hhonest : ∀ ev ∈ h, honestReceipt W ev = true) {plan : BuildPlan}
    (hplan : buildPlanOf (W x cwd) = some plan) : BuildSucceeded h x plan cwd := by
  obtain ⟨h₁, result, h₂, hends, hsuffix, hbuilt⟩ := hpassed
  have hresult := hends.of_uses (detectBuildPlan_honest W x cwd)
    fun ev hev => hhonest ev (hsuffix.subset hev)
  obtain ⟨w, hmem, hcode⟩ := hbuilt plan (hresult.trans (congrArg Except.ok hplan))
  have hreceipt := hhonest _ hmem
  cases hexit : w.exitCode with
  | none => simp [honestReceipt, hexit] at hreceipt
  | some code =>
    have hzero : code = 0 := by simpa [WireResult.receipt, hexit] using hcode
    subst hzero
    exact ⟨w, hmem, by simpa [honestReceipt, hexit] using hreceipt, hexit⟩

theorem BuildSucceeded.mono {h h' : History} {x : Nat} {plan : BuildPlan} {cwd : String}
    (hbuilt : BuildSucceeded h x plan cwd) (hsuffix : h <:+ h') :
    BuildSucceeded h' x plan cwd := by
  obtain ⟨w, hmem, hreceipt⟩ := hbuilt
  exact ⟨w, hsuffix.subset hmem, hreceipt⟩

/-- In every run whose receipts are honest about the worktrees, the build gate is kept. -/
theorem gateKept_of_honestRuntime (cfg : RunConfig) (W : Nat → String → Worktree) (s : State)
    (moves : List ApplyMove) (hok : RunMeets cfg s (honestRuntime cfg W) moves = true) :
    GateKept W (reach cfg s moves) := by
  have hhonest : Pool.Histories (fun h => ∀ ev ∈ h, honestReceipt W ev = true)
      (reach cfg s moves) := by
    refine Pool.hist_induction (P := fun h => ∀ ev ∈ h, honestReceipt W ev = true)
      (by simp) ?_ s moves hok
    intro op ch hist s hop hhist
    exact List.forall_mem_cons.mpr ⟨hop, hhist⟩
  have hkeeps : ∀ t ∈ (reach cfg s moves).threads, Pool.Keeps Op.Answers (Good cfg) t :=
    Pool.run_keeps (H := handler cfg) (handle_answers cfg) (main_justified cfg) (by simp) moves
  intro t ht x row answer hsave hcompleted
  obtain ⟨past, hsuffix, hjust⟩ := justified_of_mem (hkeeps t ht) hsave
  have hpast := (List.suffix_cons _ past).trans hsuffix
  rcases hjust.reason hcompleted with ⟨-, hloaded⟩ | ⟨k, p, g, -, hends⟩
  · exact .inl (hloaded.mono hpast)
  · refine .inr fun plan hplan => ?_
    rw [← hends.worktreePath] at hplan ⊢
    have hbuilt := hends.gate.succeeded
      (fun ev hev => hhonest t ht ev (hpast.subset hev)) hplan
    exact hbuilt.mono hpast

/-! ## Completed with and without a build -/

def goWorktrees : Nat → String → Worktree :=
  fun _ _ file => if file = "go.mod" then some {} else none

/-- One group without tasks whose manifest probe and build are answered with the two
receipts. -/
def buildRun (probe build : Except String WireResult) : List ApplyMove :=
  let ch := sampleChoice [sampleEntry "web" []]
  sampleExecute :: steps 0 20 ch ++ .start (.goroutine 0) :: steps 1 10 ch ++
    steps 1 2 { ch with receipt := probe } ++ steps 1 1 { ch with receipt := build } ++
    steps 1 20 ch

theorem gateKept_buildRun :
    RunMeets sampleConfig {} (honestRuntime sampleConfig goWorktrees)
        (buildRun (.ok {}) (.ok {})) = true ∧
      GateKept goWorktrees (reach sampleConfig {} (buildRun (.ok {}) (.ok {}))) := by
  have hmeets : RunMeets sampleConfig {} (honestRuntime sampleConfig goWorktrees)
      (buildRun (.ok {}) (.ok {})) = true := by
    decide +kernel
  exact ⟨hmeets, gateKept_of_honestRuntime sampleConfig goWorktrees {} _ hmeets⟩

def excusesCompletion : Event → Bool
  | ⟨.findGroups _ _, _⟩ => true
  | ⟨.runtimeExecute _ (.build _ _), .ok w⟩ => decide (w.status = .success ∧ w.exitCode = some 0)
  | _ => false

theorem not_gateKept {π : ApplyPool}
    (h : π.threads.any (fun t => t.hist.any (fun ev => (completedID ev).isSome) &&
      t.hist.all fun ev => !excusesCompletion ev) = true) : ¬GateKept goWorktrees π := by
  intro hgate
  obtain ⟨t, ht, hboth⟩ := List.any_eq_true.mp h
  simp only [Bool.and_eq_true, List.any_eq_true, List.all_eq_true, Bool.not_eq_true'] at hboth
  obtain ⟨⟨⟨op, answer⟩, hmem, hcompleted⟩, hnone⟩ := hboth
  cases op
  case saveGroup x row =>
    have hstatus : row.status = .completed := by
      by_contra hother
      simp [completedID, hother] at hcompleted
    rcases hgate t ht x row answer hmem hstatus with ⟨bid, rows, r, hfind, -⟩ | hbuilt
    · cases hnone _ hfind
    · obtain ⟨w, hbuild, hreceipt⟩ := hbuilt goBuild (by simp [buildPlanOf, goWorktrees])
      have hexcuse := hnone _ hbuild
      simp [excusesCompletion, hreceipt] at hexcuse
  all_goals cases hcompleted

/-- A build that has timed out without an exit code and one that was cancelled let the group
complete, and so does a probe that fails. -/
theorem completed_without_build :
    ¬GateKept goWorktrees (reach sampleConfig {}
        (buildRun (.ok {}) (.ok { status := .timeout, exitCode := none }))) ∧
      ¬GateKept goWorktrees (reach sampleConfig {}
        (buildRun (.ok {}) (.ok { status := .cancelled, exitCode := some 0 }))) ∧
      ¬GateKept goWorktrees (reach sampleConfig {} (buildRun (.error "unreachable") (.ok {}))) :=
  ⟨not_gateKept (by decide +kernel), not_gateKept (by decide +kernel),
    not_gateKept (by decide +kernel)⟩

end SophiaOrchestrator.Apply
