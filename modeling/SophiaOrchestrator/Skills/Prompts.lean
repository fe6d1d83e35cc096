import SophiaOrchestrator.Effects.Histories
import SophiaOrchestrator.Effects.Quiet
import SophiaOrchestrator.Apply.TeamFootprint
import SophiaOrchestrator.Effects.Protocol
import SophiaOrchestrator.Skills.Matcher

/-!
# The skills in the prompts of a change

Three places put skills into the prompt of an agent: the single-agent path of the phase
service, and the two implement dispatches of the apply service, the primary one and the one
with the fallback model.  The phase service asks the matcher for the project of the change.
The apply service asks for the phase only.
-/

namespace SophiaOrchestrator.Skills

open Effects Prog

/-! ## The prior context and its text -/

/-- `EpisodeRef`, `ChangeDigestRef`, `RuleRef` and `RoutineOutput`, as far as the text without
attribution shows them. -/
structure Layers where
  structuralCtx : Option StructuralContext := none
  episodes : List String := []
  changeDigests : List String := []
  businessRules : List String := []
  routines : List String := []
  phaseIdentity : String := ""

/-- `PriorContext`.  The source attaches a rendered copy of each skill; here the context keeps
the skill, and the copy is made when it is rendered. -/
structure PriorContext extends Layers where
  skills : List Skill := []

structure RenderedSkill where
  name : String
  version : String
  status : String
  source : String
  techniques : List String
  content : String
  deriving DecidableEq, Repr

def toRenderedSkill (s : Skill) : RenderedSkill where
  name := s.name
  version := s.version
  status := s.status.toString
  source := s.activationSource
  techniques := s.techniques
  content := s.content

/-- One skill in the text of `renderSkills`, without attribution; one that is not active is
left out. -/
def renderSkill (s : RenderedSkill) : String :=
  if s.status ≠ "active" then
    ""
  else
    "## " ++ s.name ++ "\n" ++
      (if s.techniques.isEmpty then ""
        else "Techniques: " ++ String.intercalate ", " s.techniques ++ "\n") ++
      s.content ++ "\n\n"

def renderTexts (texts : List String) : String :=
  String.join (texts.map (· ++ "\n\n"))

def renderStructural (sc : StructuralContext) : String :=
  (if sc.frameworks.isEmpty then ""
    else "Frameworks: " ++ String.intercalate ", " (sc.frameworks.map (·.name)) ++ "\n") ++
  (if sc.languages.isEmpty then ""
    else "Languages: " ++ String.intercalate ", " (sc.languages.map (·.name)) ++ "\n") ++ "\n"

/-- `PriorContext.Render` with the zero options: no attribution and no budget. -/
def PriorContext.render (pc : PriorContext) : String :=
  String.join (pc.skills.map fun s => renderSkill (toRenderedSkill s)) ++
    (match pc.structuralCtx with
      | some sc => renderStructural sc
      | none => "") ++
    renderTexts pc.episodes ++ renderTexts pc.changeDigests ++ renderTexts pc.businessRules ++
    renderTexts pc.routines ++ pc.phaseIdentity

structure Prompt where
  phase : PhaseType
  changeName : String
  project : String
  context : PriorContext
  taskDescription : String
  modelOverride : String := ""

/-! ## Operations -/

/-- What the three places ask of the other services.  `layers` stands for
`buildPriorContext`, `progress` for `refreshApplyProgress`. -/
inductive Op where
  | skillList
  | skillUpsert (s : Skill)
  | layers (c : Change) (pt : PhaseType)
  | progress (c : Change) (priorContext : String)
  | dispatch (c : Change) (prompt : Prompt)

def Op.Ret : Op → Type
  | .skillList => Except String (List Skill)
  | .skillUpsert _ => Except String Unit
  | .layers _ _ => Layers
  | .progress _ _ => String
  | .dispatch _ _ => Unit

abbrev Program (α : Type) : Type := Prog Op Op.Ret α

/-! The ports; each fixes the type of its answer. -/

def skillList : Program (Except String (List Skill)) :=
  perform Op.skillList

def skillUpsert (s : Skill) : Program (Except String Unit) :=
  perform (Op.skillUpsert s)

variable (cfg : Config) (c : Change)

def layers (pt : PhaseType) : Program Layers :=
  perform (Op.layers c pt)

def progress (priorContext : String) : Program String :=
  perform (Op.progress c priorContext)

def dispatch (prompt : Prompt) : Program Unit :=
  perform (Op.dispatch c prompt)

/-! ## The three places -/

structure Config where
  text : Text
  skillsEnabled : Bool := true

/-- Ask the matcher, and take a failure or an empty answer as no skills. -/
def hydrate (q : SkillQuery) : Program (List Skill) := do
  if cfg.skillsEnabled then
    let candidates ← skillList
    match skillsForContext cfg.text q candidates with
    | .ok (skills, _) => pure skills
    | .error _ => pure []
  else
    pure []

/-- `phase.Service.runAsync` from the prior context to the dispatch. -/
def singleAgent (pt : PhaseType) (taskDescription : String) : Program Unit := do
  let pc ← layers c pt
  let phaseSkills ← hydrate cfg
    { phase := some pt, projectID := c.project, structuralContext := pc.structuralCtx }
  dispatch c {
    phase := pt
    changeName := c.name
    project := c.project
    context := { pc with skills := phaseSkills }
    taskDescription := taskDescription }

def hydrateSkills (pt : PhaseType) : Program (List Skill) :=
  hydrate cfg { phase := some pt }

def buildApplyPriorContext (enrichedContext : String) (skills : List Skill) : PriorContext where
  phaseIdentity := enrichedContext
  skills := skills

/-- `dispatchImplementWithOverride` up to the dispatch. -/
def dispatchImplementWithOverride (taskDescription priorContext : String)
    (modelOverride : String) : Program Unit := do
  let enrichedContext ← progress c priorContext
  let phaseSkills ← hydrateSkills cfg .apply
  dispatch c {
    phase := .apply
    changeName := c.name
    project := c.project
    context := buildApplyPriorContext enrichedContext phaseSkills
    taskDescription := taskDescription
    modelOverride := modelOverride }

def dispatchImplement (taskDescription priorContext : String) : Program Unit :=
  dispatchImplementWithOverride cfg c taskDescription priorContext ""

/-! ## The dispatch of the apply service

`Apply.dispatchWith` models the same function as `dispatchImplementWithOverride`, with what it does
to sessions and tasks and without the skills.  Both make the same requests. -/

inductive Request where
  | progress (c : Change)
  | dispatch (modelOverride : String)

def requests (modelOverride : String) : List Request :=
  [.progress c, .dispatch modelOverride]

def Op.request? : Op → Option Request
  | .progress c _ => some (.progress c)
  | .dispatch _ prompt => some (.dispatch prompt.modelOverride)
  | _ => none

def applyRequest? : Apply.Op → Option Request
  | .memoryGet _ c .applyProgress => some (.progress c)
  | .dispatch _ req => some (.dispatch req.modelOverride)
  | _ => none

def counts {O : Type} {R : O → Type} (request? : O → Option Request) :
    Protocol O R (List Request) :=
  fun made ev made' => made' = made ++ (request? ev.op).toList

theorem dispatchImplementWithOverride_requests {cfg : Config} {c : Change}
    {taskDescription priorContext modelOverride : String} :
    (dispatchImplementWithOverride cfg c taskDescription priorContext modelOverride).Follows
      (counts Op.request?) (fun _ made => made = requests c modelOverride) [] := by
  refine follows_perform fun enriched => ⟨_, rfl, ?_⟩
  have hskills : (hydrateSkills cfg .apply).Uses (fun _ _ => True) (fun op => op.request? = none)
      fun _ => True := by
    unfold hydrateSkills hydrate
    split
    · refine uses_perform_bind rfl fun candidates _ => ?_
      split <;> trivial
    · trivial
  refine follows_stay_bind hskills (fun op _ hop => ?_) fun skills _ => ?_
  · simp [counts, hop]
  · exact fun _ => ⟨_, rfl, rfl⟩

section Apply

variable {x : Nat} {c : Change} {p : Phase} {group : Apply.Group} {task : Apply.Task}
  {sess : Session} {modelOverride : String}

abbrev Silent {α : Type} (prog : Apply.Program α) : Prop :=
  prog.Uses (fun _ _ => True) (fun op => applyRequest? op = none) fun _ => True

theorem silent_of_notes {α : Type} {Q : α → Prop} {prog : Apply.Program α}
    (h : Apply.Within Apply.Op.notes Q prog) : Silent prog := by
  refine uses_mono h (fun op hop => ?_) fun _ _ => trivial
  cases op <;> first | rfl | cases hop

theorem acceptImplement_silent {raw : RawEnvelope} {exitCode : Int} :
    Silent (Apply.acceptImplement x p task sess raw exitCode) := by
  unfold Apply.acceptImplement
  cases validateEnvelope raw .apply with
  | error err => exact uses_bind (silent_of_notes (Apply.publishEvent_notes p _)) fun _ _ => trivial
  | ok env =>
    refine uses_perform_bind rfl fun now _ => ?_
    refine uses_bind (silent_of_notes Apply.transitionOrAudit_notes) fun sess _ => ?_
    refine uses_bind (silent_of_notes Apply.saveSessionOrAudit_notes) fun _ _ => ?_
    refine uses_bind (silent_of_notes Apply.transitionOrAudit_notes) fun task _ => ?_
    have hsave : Silent (Apply.saveTaskOrAudit x p task) := by
      refine uses_perform_bind rfl fun answer _ => ?_
      cases answer with
      | error err => exact silent_of_notes Apply.appendAuditErr_notes
      | ok _ => trivial
    exact uses_bind hsave fun _ _ => trivial

theorem follows_silent_bind {α β : Type} {prog : Apply.Program α} {f : α → Apply.Program β}
    {made : List Request} {R : β → List Request → Prop} (hprog : Silent prog)
    (hf : ∀ value, (f value).Follows (counts applyRequest?) R made) :
    (prog >>= f).Follows (counts applyRequest?) R made :=
  follows_stay_bind hprog (fun _ _ hop => by simp [counts, hop]) fun value _ => hf value

/-- The dispatch of the apply service makes the requests of `dispatchImplementWithOverride`, or
stops after the first one if there is no prompt. -/
theorem dispatchWith_requests :
    (Apply.dispatchWith x c p group task sess modelOverride).Follows (counts applyRequest?)
      (fun _ made => made <+: requests c modelOverride) [] := by
  have hdone : ∀ {α : Type} {prog : Apply.Program α}, Silent prog →
    prog.Follows (counts applyRequest?)
      (fun _ made => made <+: requests c modelOverride) (requests c modelOverride) := by
    intro α prog hprog
    refine follows_mono (follows_stay hprog fun _ _ hop => by simp [counts, hop]) ?_
    rintro _ _ ⟨-, rfl⟩
    exact List.prefix_refl _
  refine follows_perform fun answer => ⟨_, rfl, ?_⟩
  refine follows_perform fun status => ⟨_, (List.append_nil _).symm, ?_⟩
  refine follows_perform fun answer => ⟨_, (List.append_nil _).symm, ?_⟩
  cases answer with
  | error err => exact ⟨[.dispatch modelOverride], rfl⟩
  | ok _ =>
    refine follows_silent_bind (silent_of_notes Apply.transitionOrAudit_notes) fun sess => ?_
    refine follows_perform fun answer => ⟨_, rfl, hdone ?_⟩
    rcases answer with (err | text | text) | res
    · trivial
    · exact uses_bind (silent_of_notes (Apply.publishEvent_notes p _)) fun _ _ => trivial
    · exact uses_bind (silent_of_notes (Apply.publishEvent_notes p _)) fun _ _ => trivial
    · exact uses_bind (silent_of_notes (Apply.agentEnvelope_notes x _ res)) fun _ _ =>
        acceptImplement_silent

end Apply

/-! ## The stored skills -/

structure State where
  skills : List Skill := []

def State.upsert (s : State) (sk : Skill) : State :=
  { s with skills :=
      s.skills.filter (fun old => !(old.name == sk.name && old.version == sk.version)) ++ [sk] }

structure Choice where
  fault : Fault := .none
  err : String := "unavailable"
  layers : Layers := {}
  progress : String := ""

def handle (op : Op) (ch : Choice) (s : State) : op.Ret × State :=
  match op with
  | .skillList =>
    match ch.fault with
    | .none => (.ok s.skills, s)
    | .before | .after => (.error ch.err, s)
  | .skillUpsert sk =>
    match ch.fault with
    | .none => (.ok (), s.upsert sk)
    | .before => (.error ch.err, s)
    | .after => (.error ch.err, s.upsert sk)
  | .layers _ _ => (ch.layers, s)
  | .progress _ _ => (ch.progress, s)
  | .dispatch _ _ => ((), s)

def handler : Handler Op Op.Ret Choice State where
  run := handle

/-! ## Calls -/

/-- A change of a project; the aggregate refuses an empty one. -/
structure ProjectChange where
  change : Change
  project_ne : change.project ≠ ""

/-- The prompts that are built, and the edits of the stored skills in between. -/
inductive Call where
  | singleAgent (c : ProjectChange) (pt : PhaseType) (taskDescription : String)
  | implement (c : ProjectChange) (taskDescription priorContext : String)
  | implementWithOverride (c : ProjectChange) (taskDescription priorContext : String)
      (modelOverride : String)
  | upsertSkill (s : Skill)

def Call.implementFor : Call → Option Change
  | .implement c _ _ | .implementWithOverride c _ _ _ => some c.change
  | _ => none

def main : Call → Program Unit
  | .singleAgent c pt taskDescription => Skills.singleAgent cfg c.change pt taskDescription
  | .implement c taskDescription priorContext =>
    dispatchImplement cfg c.change taskDescription priorContext
  | .implementWithOverride c taskDescription priorContext modelOverride =>
    dispatchImplementWithOverride cfg c.change taskDescription priorContext modelOverride
  | .upsertSkill s => do
    let _ ← skillUpsert s
    pure ()

/-! ## Which skills a prompt is built with -/

abbrev History : Type := List (Ev Op Op.Ret)

def Call.change? : Call → Option Change
  | .singleAgent c _ _ | .implement c _ _ | .implementWithOverride c _ _ _ => some c.change
  | .upsertSkill _ => none

/-- What the query of a call compares: the phase service the project, the apply service the
phase only. -/
def Call.Asks : Call → SkillQuery → Prop
  | .singleAgent c pt _, q => q.phase = some pt ∧ q.projectID = c.change.project
  | .implement _ _ _, q | .implementWithOverride _ _ _ _, q => q.phase = some .apply
  | .upsertSkill _, _ => False

def Chosen (call : Call) (past : History) (sk : Skill) : Prop :=
  ∃ (stored : List Skill) (q : SkillQuery),
    (⟨.skillList, .ok stored⟩ : Ev Op Op.Ret) ∈ past ∧ sk ∈ stored ∧ call.Asks q ∧ Passes q sk

def Explains (call : Call) (past : History) : Op → Prop
  | .dispatch c prompt =>
    call.change? = some c ∧ ∀ sk ∈ prompt.context.skills, Chosen call past sk
  | _ => True

def Good (call : Call) : History → Prop
  | [] => True
  | ev :: past => Explains call past ev.op

abbrev Keeps {α : Type} (call : Call) (R : α → History → Prop) (p : Program α) (h : History) :
    Prop :=
  p.wp (histSem fun _ _ => True) (Good call) R h

theorem hydrate_keeps {cfg : Config} {call : Call} {q : SkillQuery} (hasks : call.Asks q)
    {R : List Skill → History → Prop} {h : History}
    (hR : ∀ skills h', (∀ sk ∈ skills, Chosen call h' sk) → R skills h') :
    Keeps call R (hydrate cfg q) h := by
  unfold hydrate
  split
  · refine wp_perform_bind (fun _ _ => trivial) fun candidates _ => ?_
    split
    · next skills skipped hmatch =>
      refine hR skills _ fun sk hsk => ?_
      cases candidates with
      | error err => cases hmatch
      | ok stored =>
        obtain ⟨hstored, hreason⟩ := (skillsForContext_spec hmatch sk).mp hsk
        exact ⟨stored, q, List.mem_cons_self, hstored, hasks, passes_of_skipReason hreason⟩
    · exact hR [] _ (by simp)
  · exact hR [] _ (by simp)

theorem dispatchImplementWithOverride_keeps {cfg : Config} {call : Call} {c : Change}
    (hchange : call.change? = some c)
    (hasks : ∀ q : SkillQuery, q.phase = some .apply → call.Asks q)
    (taskDescription priorContext modelOverride : String) (h : History) :
    Keeps call (fun _ _ => True)
      (dispatchImplementWithOverride cfg c taskDescription priorContext modelOverride) h := by
  refine wp_perform_bind (fun _ _ => trivial) fun enriched _ => ?_
  refine wp_bind (hydrate_keeps (hasks _ rfl) fun skills h' hchosen => ?_)
  exact (wp_hist_call _ _ _).mpr fun _ _ => ⟨⟨hchange, hchosen⟩, trivial⟩

/-- Every prompt is built with skills that passed the query of its place. -/
theorem main_keeps (call : Call) :
    (main cfg call).wp (histSem fun _ _ => True) (Good call) (fun _ _ => True) [] := by
  cases call with
  | singleAgent c pt taskDescription =>
    refine wp_perform_bind (fun _ _ => trivial) fun pc _ => ?_
    have hasks : (Call.singleAgent c pt taskDescription).Asks
        { phase := some pt, projectID := c.change.project,
          structuralContext := pc.structuralCtx } := ⟨rfl, rfl⟩
    refine wp_bind (hydrate_keeps hasks fun skills h' hchosen => ?_)
    exact (wp_hist_call _ _ _).mpr fun _ _ => ⟨⟨rfl, hchosen⟩, trivial⟩
  | implement c taskDescription priorContext =>
    have hasks : ∀ q : SkillQuery, q.phase = some .apply →
        (Call.implement c taskDescription priorContext).Asks q := fun _ hq => hq
    exact dispatchImplementWithOverride_keeps rfl hasks _ _ _ _
  | implementWithOverride c taskDescription priorContext modelOverride =>
    have hasks : ∀ q : SkillQuery, q.phase = some .apply →
        (Call.implementWithOverride c taskDescription priorContext modelOverride).Asks q :=
      fun _ hq => hq
    exact dispatchImplementWithOverride_keeps rfl hasks _ _ _ _
  | upsertSkill s => exact wp_perform_bind (fun _ _ => trivial) fun _ _ => trivial

/-! ## Runs -/

abbrev SkillPool : Type := Pool Op Op.Ret Call State

def reach (s : State) (moves : List (Move Call Choice)) : SkillPool :=
  (Pool.init s).run handler (main cfg) moves

def admits (sc : Scope) (project : String) : Bool :=
  sc.projectID == "" || sc.projectID == "*" || sc.projectID == project

/-- Whenever an implement dispatch of the apply service loads the skills, every active skill
for the apply phase has a scope that admits the project of its change. -/
def applySkillsInProject (π : SkillPool) : Move Call Choice → Bool
  | .step tid ch =>
    match π.threads[tid]? with
    | some ⟨request, .call .skillList _, _⟩ =>
      match request.implementFor with
      | some c =>
        decide (ch.fault ≠ .none) || π.state.skills.all fun sk =>
          !(decide (sk.status = .active) && sk.appliesTo .apply) || admits sk.scope c.project
      | none => true
    | _ => true
  | _ => true

def RunMeets (s : State) (ok : SkillPool → Move Call Choice → Bool)
    (moves : List (Move Call Choice)) : Bool :=
  (Pool.init s : SkillPool).Meets handler (main cfg) ok moves

theorem applySkillsInProject_step {π : SkillPool} {tid : Nat} {ch : Choice} {request : Call}
    {next : Except String (List Skill) → Program Unit} {hist : History}
    (h : π.threads[tid]? = some ⟨request, .call .skillList next, hist⟩) {c : Change}
    (hrequest : request.implementFor = some c) :
    applySkillsInProject π (.step tid ch) =
      (decide (ch.fault ≠ .none) || π.state.skills.all fun sk =>
        !(decide (sk.status = .active) && sk.appliesTo .apply) || admits sk.scope c.project) := by
  unfold applySkillsInProject
  dsimp only
  rw [h]
  dsimp only
  rw [hrequest]

theorem admits_of_loaded {cfg : Config} {s : State} {moves : List (Move Call Choice)}
    (hok : RunMeets cfg s applySkillsInProject moves = true) {tid : Nat}
    {t : Thread Op Op.Ret Call} (ht : (reach cfg s moves).threads[tid]? = some t) {c : Change}
    (hcall : t.call.implementFor = some c) {stored : List Skill}
    (hmem : (⟨.skillList, .ok stored⟩ : Ev Op Op.Ret) ∈ t.hist) {sk : Skill} (hsk : sk ∈ stored)
    (hactive : sk.status = .active) (happlies : sk.appliesTo .apply = true) :
    admits sk.scope c.project = true := by
  obtain ⟨newer, past, hsplit⟩ := List.append_of_mem hmem
  obtain ⟨before, ch, after, next, rfl, hthread, hret, -⟩ :=
    Pool.exists_move_of_suffix ht ⟨newer, hsplit.symm⟩
  rw [RunMeets, Pool.meets_append] at hok
  have hstep : applySkillsInProject ((Pool.init s : SkillPool).run handler (main cfg) before)
      (.step tid ch) = true := by
    simp only [Pool.Meets, Bool.and_eq_true] at hok
    exact hok.2.1
  rw [applySkillsInProject_step hthread hcall] at hstep
  -- the answer was the table of that moment
  generalize ((Pool.init s : SkillPool).run handler (main cfg) before).state = s' at hstep hret
  change (Except.ok stored : Except String (List Skill)) = (handle .skillList ch s').1 at hret
  cases hfault : ch.fault with
  | none =>
    simp only [handle, hfault, Except.ok.injEq] at hret
    subst hret
    simp only [hfault, ne_eq, not_true_eq_false, decide_false, Bool.false_or,
      List.all_eq_true] at hstep
    simpa [hactive, happlies] using hstep sk hsk
  | before | after =>
    simp only [handle, hfault] at hret
    cases hret

/-- Project isolation: for any stored skills, edited in between in any way, and any
interleaving of prompts that are built for any changes, every skill whose content is placed
in a prompt has a scope project that is empty, any, or the project of the change, if the
skills that implement dispatches load meet the condition. -/
theorem promptSkills_inProject (cfg : Config) (s : State) (moves : List (Move Call Choice))
    (hok : RunMeets cfg s applySkillsInProject moves = true) (tid : Nat)
    (t : Thread Op Op.Ret Call) (ht : (reach cfg s moves).threads[tid]? = some t) (c : Change)
    (prompt : Prompt) (hdispatch : (⟨.dispatch c prompt, ()⟩ : Ev Op Op.Ret) ∈ t.hist)
    (sk : Skill) (hsk : sk ∈ prompt.context.skills) :
    sk.scope.projectID = "" ∨ sk.scope.projectID = "*" ∨ sk.scope.projectID = c.project := by
  have hkeeps := Pool.run_keeps (H := handler) (fun _ _ _ => trivial) (main_keeps cfg)
    (π := (Pool.init s : SkillPool)) (by simp) moves t (List.mem_of_getElem? ht)
  obtain ⟨newer, past, hsplit⟩ := List.append_of_mem hdispatch
  have hsuffix : (⟨.dispatch c prompt, ()⟩ : Ev Op Op.Ret) :: past <:+ t.hist :=
    ⟨newer, hsplit.symm⟩
  have hgood : Good t.call (⟨.dispatch c prompt, ()⟩ :: past) :=
    hkeeps.past _ hsuffix (List.cons_ne_nil _ _)
  obtain ⟨hchange, hchosen⟩ := hgood
  obtain ⟨stored, q, hlisted, hstored, hasks, hpasses⟩ := hchosen sk hsk
  have hloaded := hsuffix.subset (List.mem_cons_of_mem _ hlisted)
  have himplement : t.call.implementFor = some c → q.phase = some .apply →
      admits sk.scope c.project = true := fun hcall hphase =>
    admits_of_loaded hok ht hcall hloaded hstored hpasses.active (hpasses.phase _ hphase)
  suffices hadmits : admits sk.scope c.project = true by
    simpa [admits, or_assoc] using hadmits
  cases hcall : t.call with
  | singleAgent pc pt taskDescription =>
    rw [hcall] at hchange hasks
    obtain rfl := Option.some.inj hchange
    have hscope := hpasses.scope
    simp only [scopeMatches, Bool.and_eq_true, dimensionMatches, hasks.2] at hscope
    simpa [admits, pc.project_ne] using hscope.1
  | implement pc taskDescription priorContext
  | implementWithOverride pc taskDescription priorContext modelOverride =>
    rw [hcall] at hchange hasks
    exact himplement (by rw [hcall]; exact hchange) hasks
  | upsertSkill sk' =>
    rw [hcall] at hchange
    cases hchange

/-! ## A skill of another project -/

def shopChange : ProjectChange where
  change := {
    id := ⟨1⟩, name := "login", project := "shop", status := .active, currentPhase := .tasks
    artifactStore := .memoryEngine, baseRef := "main", createdAt := 0, updatedAt := 0 }
  project_ne := by decide

def projectSkill (project : String) : Skill where
  id := ⟨1⟩
  name := "conventions"
  phases := [.spec, .apply]
  content := "Use the internal payment gateway."
  status := .active
  scope := { projectID := project, repoID := "*" }

def sampleConfig : Config where
  text := ⟨fun _ _ => false, fun a b => a == b, id, Strings.decimalDigits⟩

def twoPrompts : List (Move Call Choice) :=
  [.start (.singleAgent shopChange .spec "write the spec"), .step 0 {}, .step 0 {}, .step 0 {},
    .start (.implement shopChange "implement" ""), .step 1 {}, .step 1 {}, .step 1 {}]

def dispatchedSkills (π : SkillPool) (tid : Nat) : List Skill :=
  match (π.threads[tid]?).map Thread.hist with
  | some (⟨.dispatch _ prompt, _⟩ :: _) => prompt.context.skills
  | _ => []

theorem exists_dispatch {π : SkillPool} {tid : Nat} {sk : Skill}
    (h : sk ∈ dispatchedSkills π tid) :
    ∃ t c prompt, π.threads[tid]? = some t ∧
      (⟨.dispatch c prompt, ()⟩ : Ev Op Op.Ret) ∈ t.hist ∧ sk ∈ prompt.context.skills := by
  unfold dispatchedSkills at h
  split at h
  · next c prompt answer older hmap =>
    obtain ⟨t, ht, hhist⟩ := Option.map_eq_some_iff.mp hmap
    exact ⟨t, c, prompt, ht, hhist ▸ List.mem_cons_self, h⟩
  · cases h

theorem promptSkills_inProject_shop :
    ∃ (t : Thread Op Op.Ret Call) (c : Change) (prompt : Prompt),
      RunMeets sampleConfig ⟨[projectSkill "shop"]⟩ applySkillsInProject twoPrompts = true ∧
      (reach sampleConfig ⟨[projectSkill "shop"]⟩ twoPrompts).threads[1]? = some t ∧
      (⟨.dispatch c prompt, ()⟩ : Ev Op Op.Ret) ∈ t.hist ∧
      projectSkill "shop" ∈ prompt.context.skills ∧
      ((projectSkill "shop").scope.projectID = "" ∨ (projectSkill "shop").scope.projectID = "*" ∨
        (projectSkill "shop").scope.projectID = c.project) := by
  have hmeets : RunMeets sampleConfig ⟨[projectSkill "shop"]⟩ applySkillsInProject twoPrompts =
      true := by decide +kernel
  have hplaced : projectSkill "shop" ∈
      dispatchedSkills (reach sampleConfig ⟨[projectSkill "shop"]⟩ twoPrompts) 1 := by
    decide +kernel
  obtain ⟨t, c, prompt, ht, hdispatch, hsk⟩ := exists_dispatch hplaced
  exact ⟨t, c, prompt, hmeets, ht, hdispatch, hsk,
    promptSkills_inProject _ _ _ hmeets 1 t ht c prompt hdispatch _ hsk⟩

/-- A skill of the project "bank" is kept out of the spec prompt of the project "shop", and
placed in its implement prompt. -/
theorem foreign_skill_in_implement :
    shopChange.change.project = "shop" ∧
    dispatchedSkills (reach sampleConfig ⟨[projectSkill "bank"]⟩ twoPrompts) 0 = [] ∧
    dispatchedSkills (reach sampleConfig ⟨[projectSkill "bank"]⟩ twoPrompts) 1 =
      [projectSkill "bank"] ∧
    (projectSkill "bank").scope.projectID = "bank" :=
  ⟨rfl, by decide +kernel, by decide +kernel, rfl⟩

end SophiaOrchestrator.Skills
