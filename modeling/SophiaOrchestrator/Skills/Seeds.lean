import Mathlib.Data.List.TakeWhile
import SophiaOrchestrator.Skills.Lifecycle

/-!
# The skills that are seeded at boot

One skill for each phase, with a fixed id, its guidance and its techniques.  The
constructor checks every one of them, so a mistake in a definition stops the boot.
-/

namespace SophiaOrchestrator.Skills

structure SeedDef where
  rawID : String
  name : String
  phases : List PhaseType
  content : String
  techniques : List Technique

def seedDefs : List SeedDef := [
  { rawID := "01JXSKLLP000000000000000IN"
    name := "init-bootstrap-context"
    phases := [.init]
    content :=
      "Before writing anything, step back and ask: what is the REAL problem this change solves?\n\nRules:\n1. Capture the change name and project in the envelope — these identifiers propagate through every subsequent phase.\n   Why: mismatched identifiers cause orphaned phases; anchoring them here prevents drift.\n2. Do not assume scope — surface ambiguities as open questions for the explore phase.\n   Why: the init phase is cheap to revisit; later phases are expensive.\n3. Confirm the relevant bounded context (which aggregate, which service boundary) before proceeding.\n   Why: context errors compound across the full SDD cycle."
    techniques := [.stepBack, .inlineWhy] },
  { rawID := "01JXSKLLP000000000000EXPL0"
    name := "explore-investigate"
    phases := [.explore]
    content :=
      "Apply the ReAct (Reason–Act–Observe) cycle: for each hypothesis, take one concrete look-up action and record what you actually found before forming the next hypothesis.\n\nRules:\n1. Never describe code you have not read — observe first, reason second.\n   Why: hallucinated code structure causes the design phase to produce wrong interfaces.\n2. For each finding, record: WHERE (file + line), WHAT (code excerpt), WHY it matters.\n   Why: structured evidence prevents context loss when the explore artifact is handed to spec/design.\n3. End with an explicit gap list: unknowns that a subsequent phase must resolve.\n   Why: unexposed unknowns become silent assumptions that block the apply phase."
    techniques := [.reAct, .inlineWhy] },
  { rawID := "01JXSKLLP000000000000PROP0"
    name := "proposal-draft-options"
    phases := [.proposal]
    content :=
      "Use Skeleton-of-Thought: write the proposal outline first (problem statement, approach A, approach B, tradeoff table, recommendation), then fill each section in order.\n\nRules:\n1. Present at least 2 distinct approaches before recommending one.\n   Why: a single-option proposal is a decision, not a proposal; it removes stakeholder input.\n2. The tradeoff table MUST include at least: implementation complexity, testability, and operational risk.\n   Why: these three dimensions surface the most common post-implementation regrets.\n3. The recommended approach MUST name a specific rationale, not just \"simpler\" or \"better\".\n   Why: vague rationale cannot be challenged or revisited when constraints change."
    techniques := [.skeletonOfThought, .inlineWhy] },
  { rawID := "01JXSKLLP000000000000SPEC0"
    name := "spec-write-requirements"
    phases := [.spec]
    content :=
      "Use Skeleton-of-Thought: list every requirement title and scenario slug before expanding any scenario body.\n\nRules:\n1. Each scenario must follow GIVEN–WHEN–THEN with no \"TBD\" or \"fill in details\" placeholders.\n   Why: vague scenarios cannot be used as acceptance criteria during the verify phase.\n2. Every requirement must map to at least one observable outcome (measurable, not \"should work well\").\n   Why: unmeasurable requirements block the verify phase and produce contested DONE calls.\n3. If a requirement conflicts with an iron law, surface it explicitly — do not silently adjust the requirement.\n   Why: hidden iron-law conflicts resurface at the apply or verify phase with much higher cost."
    techniques := [.skeletonOfThought, .inlineWhy] },
  { rawID := "01JXSKLLP000000000000DSGN0"
    name := "design-architect-system"
    phases := [.design]
    content :=
      "Before designing any interface, step back to the aggregate boundary level: what invariant does this aggregate own, and how does the new behavior interact with existing state transitions?\n\nApply extended thinking: for each architectural decision, explicitly enumerate what you are NOT doing and why.\n\nRules:\n1. Every architectural decision MUST have a documented alternative and a rationale for rejection.\n   Why: undocumented decisions are re-litigated at every future code review.\n2. Identify the persistence boundary before the interface boundary.\n   Why: retrofitting persistence constraints onto an already-designed interface is the most expensive rework in this codebase.\n3. Cross-aggregate reads are allowed; cross-aggregate writes require an explicit event or saga.\n   Why: silent cross-aggregate mutation breaks the invariant model and makes audit trails inconsistent.\n4. Mark every open question — do not silently resolve them with an assumption.\n   Why: silent assumptions in design become load-bearing decisions in apply that nobody can later challenge."
    techniques := [.extendedThinking, .stepBack, .inlineWhy] },
  { rawID := "01JXSKLLP000000000000TASK0"
    name := "tasks-decompose-work"
    phases := [.tasks]
    content :=
      "Use extended thinking to map the full dependency graph before writing any task. Ask: which task, if delayed, blocks all others? That task goes in the first group.\n\nRules:\n1. Each task must be completable in 2–5 minutes of focused work on a single concern.\n   Why: oversized tasks produce oversized diffs that fail review and obscure rollback boundaries.\n2. Every group must declare its depends_on list explicitly — no implicit ordering.\n   Why: implicit ordering is lost when tasks are parallelized across apply workers.\n3. files_pattern must be specific enough that two concurrent tasks do not overlap.\n   Why: overlapping patterns cause merge conflicts and partial-state corruption in parallel apply.\n4. Include a verify task in the final group that asserts the full acceptance criteria from the spec.\n   Why: without a spec-anchored verify task, the verify phase has no ground truth."
    techniques := [.extendedThinking, .inlineWhy] },
  { rawID := "01JXSKLLP000000000000APLY0"
    name := "apply-implement-safely"
    phases := [.apply]
    content :=
      "After implementing each task, apply constitutional self-critique: run your own review against the checklist before marking the task done.\n\nSelf-critique checklist:\n- Does this change break any iron law? (check docs/rules.md)\n- Is the new code reachable by the tests in this task's scope?\n- Did I introduce a cross-aggregate write without an event or saga?\n- Did I call time.Now() or ulid.Make() inside domain or application packages?\n- Is the public surface area I added the minimum needed by the spec scenario?\n\nRules:\n1. Never mark a task done before running the checklist above.\n   Why: defects found in the apply phase cost 5× less to fix than defects found in the verify phase.\n2. If the checklist reveals a constraint violation, fix it in the same task — do not defer.\n   Why: deferred fixes are frequently forgotten and cause verify to block unexpectedly.\n3. When in doubt about files_pattern scope, do LESS and report it — do not expand scope silently.\n   Why: scope creep in apply pollutes other tasks' boundaries and makes rollback impossible."
    techniques := [.constitutionalSelfCritique, .inlineWhy] },
  { rawID := "01JXSKLLP000000000000VRFY0"
    name := "verify-chain-validation"
    phases := [.verify]
    content :=
      "Apply chain-of-verification: for every claim in your summary, provide the concrete evidence that backs it.\n\nEvidence format: claim → command run → exact output excerpt.\n\nRules:\n1. \"Tests pass\" is only valid when accompanied by the exact test runner output including the counts.\n   Why: a claim without evidence is indistinguishable from a hallucination to the orchestrator.\n2. For each spec scenario, assert WHICH test covers it and cite the test name.\n   Why: uncovered scenarios silently pass verify and resurface as production bugs.\n3. Coverage gates (domain 100%, app 85%) must be cited from actual coverage output — not estimated.\n   Why: estimated coverage routinely overstates and hides missing cases.\n4. If any scenario is NOT covered, set status=DONE_WITH_CONCERNS and list the gap.\n   Why: DONE with hidden gaps causes the archive phase to lock in an incomplete state."
    techniques := [.chainOfVerification, .inlineWhy] },
  { rawID := "01JXSKLLP000000000000ARCH0"
    name := "archive-finalize-deltas"
    phases := [.archive]
    content :=
      "Before finalizing, step back and re-read the original proposal intent: does the implementation deliver what was proposed, or did scope drift occur?\n\nRules:\n1. The archive artifact must contain a delta summary: what changed vs the original design, and why any deviation was acceptable.\n   Why: deviations that are not documented become undocumented technical debt.\n2. If scope drifted beyond the proposal, mark the artifact with a risks entry describing the drift.\n   Why: undocumented scope changes make future archaeology misleading and break change tracking.\n3. Verify that every open question from the design phase is either resolved in the archive artifact or explicitly deferred to a follow-up change.\n   Why: unresolved design questions that disappear into the archive make follow-up changes impossible to scope accurately."
    techniques := [.stepBack, .inlineWhy] }]

def SkillID.ofText (text : String) : SkillID :=
  ⟨text.toList.foldl (fun n c => 256 * n + c.toNat) 0⟩

/-- `ids.ParseSkillID`: the length is checked, and that the number fits; the alphabet is
not. -/
def parseSkillID (raw : String) : Option SkillID :=
  match raw.toList with
  | [] => none
  | first :: rest =>
    if rest.length = 25 ∧ first ≤ '7' then some (.ofText raw) else none

inductive SeedErr where
  | invalidID (name rawID : String)
  | invalid (name : String) (err : SkillErr)
  deriving DecidableEq, Repr

def buildSeed (now : Time) (d : SeedDef) : Except SeedErr SkillRow :=
  match parseSkillID d.rawID with
  | none => .error (.invalidID d.name d.rawID)
  | some id =>
    match newLegacy id d.name d.phases d.content d.techniques now with
    | .ok s => .ok s
    | .error err => .error (.invalid d.name err)

def buildSeedSkills (now : Time) : Except SeedErr (List SkillRow) :=
  seedDefs.mapM (buildSeed now)

/-! ## What is built -/

def SeedDef.row (now : Time) (d : SeedDef) : SkillRow where
  id := .ofText d.rawID
  name := d.name
  phases := d.phases
  content := d.content
  techniques := d.techniques
  status := .active
  version := "v1"
  scope := { projectID := "*", repoID := "*", phases := d.phases.map PhaseType.toString }
  appliesWhen := {}
  riskLevel := .medium
  activationSource := .legacySeed
  metrics := {}
  lastUsedAt := none
  lastValidatedAt := none
  createdAt := now
  updatedAt := now

structure SeedDef.Sound (d : SeedDef) : Prop where
  parsed : parseSkillID d.rawID = some (.ofText d.rawID)
  canonical : canonicalizePhases d.phases = .ok d.phases
  named : isBlank d.name = false
  filled : isBlank d.content = false
  tagged : d.techniques.isEmpty = false
  tags : d.techniques.all Technique.isValid = true
  distinct : d.techniques.eraseDups = d.techniques

theorem isBlank_ofList_cons {c : Char} {cs : List Char} (h : Strings.isSpace c = false) :
    isBlank (String.ofList (c :: cs)) = false := by
  rw [isBlank, String.toList_ofList]
  simpa using Strings.trimSpace_cons_ne_nil cs h

set_option maxRecDepth 8000 in
theorem sound_of_mem_seedDefs {d : SeedDef} (hd : d ∈ seedDefs) : d.Sound := by
  simp only [seedDefs, List.mem_cons, List.not_mem_nil, or_false] at hd
  rcases hd with rfl | rfl | rfl | rfl | rfl | rfl | rfl | rfl | rfl <;>
    exact ⟨by decide +kernel, rfl, isBlank_ofList_cons rfl, isBlank_ofList_cons rfl, rfl, rfl,
      rfl⟩

theorem SeedDef.Sound.buildSeed_eq {d : SeedDef} (h : d.Sound) (now : Time) :
    buildSeed now d = .ok (d.row now) := by
  have hcore : validateCore d.name d.content d.techniques = .ok () := by
    simp [validateCore, h.named, h.filled, h.tagged, h.tags]
  have hlife : validateLifecycle (legacyLifecycle d.phases).withDefaults = .ok () := by
    have hversion : isBlank "v1" = false := isBlank_ofList_cons rfl
    simp [validateLifecycle, LifecycleInput.withDefaults, legacyLifecycle, hversion,
      Status.isValid, RiskLevel.isValid, ActivationSource.isValid]
  have hnew : newLegacy (.ofText d.rawID) d.name d.phases d.content d.techniques now =
      .ok (d.row now) := by
    simp only [newLegacy, new, h.canonical, hcore, hlife, bind, Except.bind, pure, Except.pure,
      h.distinct]
    rfl
  simp [buildSeed, h.parsed, hnew]

theorem buildSeedSkills_eq (now : Time) :
    buildSeedSkills now = .ok (seedDefs.map (SeedDef.row now)) := by
  have hall : ∀ defs : List SeedDef, (∀ d ∈ defs, d.Sound) →
      defs.mapM (buildSeed now) = .ok (defs.map (SeedDef.row now)) := by
    intro defs hdefs
    induction defs with
    | nil => rfl
    | cons d defs ih =>
      rw [List.mapM_cons, (hdefs d List.mem_cons_self).buildSeed_eq,
        ih fun d' hd' => hdefs d' (List.mem_cons_of_mem d hd')]
      rfl
  exact hall seedDefs fun _ => sound_of_mem_seedDefs

theorem seedNames_nodup : (seedDefs.map SeedDef.name).Nodup := by
  decide

theorem seedIDs_nodup : (seedDefs.map fun d => SkillID.ofText d.rawID).Nodup := by
  decide +kernel

end SophiaOrchestrator.Skills
