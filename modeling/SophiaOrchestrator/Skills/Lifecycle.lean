import Mathlib.Algebra.Order.Ring.Rat
import SophiaOrchestrator.Pg.Store
import SophiaOrchestrator.Skills.Matcher

/-!
# The Skill aggregate

A skill carries, next to the guidance that goes into prompts, what has been learned about
it: a lifecycle status, counters and the times of its last use and last validation.  The
aggregate is built and edited only through constructors that check every field; the
matcher reads the part of it that `Skill` has.
-/

namespace SophiaOrchestrator.Skills

/-! ## Enumerations -/

def Status.isValid : Status → Bool
  | .unknown _ => false
  | .candidate | .validated | .active | .deprecated | .blocked | .archived => true

def RiskLevel.isValid : RiskLevel → Bool
  | .unknown _ => false
  | .low | .medium | .high | .critical => true

inductive ActivationSource where
  | manual
  | legacySeed
  | archiveWorker
  | llmProposal
  | imported
  | unknown (text : String)
  deriving DecidableEq, Repr

def ActivationSource.isValid : ActivationSource → Bool
  | .unknown _ => false
  | .manual | .legacySeed | .archiveWorker | .llmProposal | .imported => true

inductive Technique where
  | constitutionalSelfCritique
  | chainOfVerification
  | extendedThinking
  | skeletonOfThought
  | reAct
  | stepBack
  | inlineWhy
  | unknown (text : String)
  deriving DecidableEq, Repr

def Technique.isValid : Technique → Bool
  | .unknown _ => false
  | .constitutionalSelfCritique | .chainOfVerification | .extendedThinking
  | .skeletonOfThought | .reAct | .stepBack | .inlineWhy => true

/-! ## The aggregate -/

/-- The counters by which a skill is promoted.  The reduction of retries is a fraction;
all that is done with it is to compare it and to copy it. -/
structure Metrics where
  usageCount : Int64 := 0
  successCount : Int64 := 0
  failureCount : Int64 := 0
  testsPassedCount : Int64 := 0
  deprecatedAPIHits : Int64 := 0
  rollbackCount : Int64 := 0
  avgRetryReduction : ℚ := 0
  lastStackVersion : Option String := none
  deriving DecidableEq

/-- A row of the `skills` table, which is the aggregate as it is hydrated. -/
structure SkillRow where
  id : SkillID
  name : String
  phases : List PhaseType
  content : String
  techniques : List Technique
  status : Status
  version : String
  scope : Scope
  appliesWhen : AppliesWhen
  riskLevel : RiskLevel
  activationSource : ActivationSource
  metrics : Metrics
  lastUsedAt : Option Time
  lastValidatedAt : Option Time
  createdAt : Time
  updatedAt : Time
  deriving DecidableEq

/-- The lifecycle part of a request to build or to edit a skill; the empty text is the
zero value of an enumeration. -/
structure LifecycleInput where
  status : Status := .unknown ""
  version : String := ""
  scope : Scope := {}
  appliesWhen : AppliesWhen := {}
  riskLevel : RiskLevel := .unknown ""
  activationSource : ActivationSource := .unknown ""
  metrics : Metrics := {}
  lastUsedAt : Option Time := none
  lastValidatedAt : Option Time := none

inductive SkillErr where
  | emptyName
  | emptyContent
  | noValidPhases
  | noTechniques
  | invalidTechnique
  | invalidStatus
  | emptyVersion
  | invalidRiskLevel
  | invalidActivationSource
  deriving DecidableEq, Repr

def SkillErr.text : SkillErr → String
  | .emptyName => "skill: name must not be empty"
  | .emptyContent => "skill: content must not be empty"
  | .noValidPhases => "skill: at least one valid phase is required"
  | .noTechniques => "skill: at least one technique tag is required"
  | .invalidTechnique => "skill: invalid technique tag"
  | .invalidStatus => "skill: invalid status"
  | .emptyVersion => "skill: version must not be empty"
  | .invalidRiskLevel => "skill: invalid risk level"
  | .invalidActivationSource => "skill: invalid activation source"

/-! ## Checks -/

/-- `strings.TrimSpace(text) == ""`. -/
def isBlank (text : String) : Bool :=
  (Strings.trimSpace text.toList).isEmpty

def validateCore (name content : String) (techniques : List Technique) : Except SkillErr Unit :=
  if isBlank name then
    .error .emptyName
  else if isBlank content then
    .error .emptyContent
  else if techniques.isEmpty then
    .error .noTechniques
  else if techniques.all Technique.isValid then
    .ok ()
  else
    .error .invalidTechnique

def validateLifecycle (lc : LifecycleInput) : Except SkillErr Unit :=
  if !lc.status.isValid then
    .error .invalidStatus
  else if isBlank lc.version then
    .error .emptyVersion
  else if !lc.riskLevel.isValid then
    .error .invalidRiskLevel
  else if !lc.activationSource.isValid then
    .error .invalidActivationSource
  else
    .ok ()

/-- `applyLifecycleDefaults`, without the validation that follows. -/
def LifecycleInput.withDefaults (lc : LifecycleInput) : LifecycleInput :=
  { lc with
    status := if lc.status = .unknown "" then .candidate else lc.status
    version := if lc.version = "" then "v1" else lc.version
    riskLevel := if lc.riskLevel = .unknown "" then .medium else lc.riskLevel
    activationSource :=
      if lc.activationSource = .unknown "" then .manual else lc.activationSource }

/-- `mergeLifecycle`: the structured fields are taken as they come, also when they are
empty. -/
def mergeLifecycle (s : SkillRow) (lc : LifecycleInput) : LifecycleInput :=
  { lc with
    status := if lc.status = .unknown "" then s.status else lc.status
    version := if lc.version = "" then s.version else lc.version
    riskLevel := if lc.riskLevel = .unknown "" then s.riskLevel else lc.riskLevel
    activationSource :=
      if lc.activationSource = .unknown "" then s.activationSource else lc.activationSource }

def canonicalizePhases (input : List PhaseType) : Except SkillErr (List PhaseType) :=
  if input.isEmpty then
    .error .noValidPhases
  else
    .ok (PhaseType.all.filter (· ∈ input))

/-! ## Constructors -/

def new (id : SkillID) (name : String) (phases : List PhaseType) (content : String)
    (techniques : List Technique) (lifecycle : LifecycleInput) (now : Time) :
    Except SkillErr SkillRow := do
  let canonicalPhases ← canonicalizePhases phases
  validateCore name content techniques
  let lc := lifecycle.withDefaults
  validateLifecycle lc
  return {
    id, name, content
    phases := canonicalPhases
    techniques := techniques.eraseDups
    status := lc.status
    version := lc.version
    scope := lc.scope
    appliesWhen := lc.appliesWhen
    riskLevel := lc.riskLevel
    activationSource := lc.activationSource
    metrics := lc.metrics
    lastUsedAt := lc.lastUsedAt
    lastValidatedAt := lc.lastValidatedAt
    createdAt := now
    updatedAt := now }

def legacyLifecycle (phases : List PhaseType) : LifecycleInput where
  status := .active
  version := "v1"
  activationSource := .legacySeed
  riskLevel := .medium
  scope := { projectID := "*", repoID := "*", phases := phases.map PhaseType.toString }

def newLegacy (id : SkillID) (name : String) (phases : List PhaseType) (content : String)
    (techniques : List Technique) (now : Time) : Except SkillErr SkillRow :=
  new id name phases content techniques (legacyLifecycle phases) now

def SkillRow.update (s : SkillRow) (name : String) (phases : List PhaseType) (content : String)
    (techniques : List Technique) (lifecycle : LifecycleInput) (now : Time) :
    Except SkillErr SkillRow := do
  let canonicalPhases ← canonicalizePhases phases
  validateCore name content techniques
  let merged := mergeLifecycle s lifecycle
  validateLifecycle merged
  return {
    s with
    name, content
    phases := canonicalPhases
    techniques := techniques.eraseDups
    status := merged.status
    version := merged.version
    scope := merged.scope
    appliesWhen := merged.appliesWhen
    riskLevel := merged.riskLevel
    activationSource := merged.activationSource
    metrics := merged.metrics
    lastUsedAt := merged.lastUsedAt
    lastValidatedAt := merged.lastValidatedAt
    updatedAt := now }

theorem bind_eq_ok_iff {ε α β : Type} {x : Except ε α} {f : α → Except ε β} {b : β} :
    (x >>= f) = .ok b ↔ ∃ a, x = .ok a ∧ f a = .ok b := by
  cases x with
  | error err | ok a => simp [bind, Except.bind]

theorem SkillRow.id_update {s s' : SkillRow} {name content : String} {phases : List PhaseType}
    {techniques : List Technique} {lifecycle : LifecycleInput} {now : Time}
    (h : s.update name phases content techniques lifecycle now = .ok s') : s'.id = s.id := by
  obtain ⟨canonical, -, h⟩ := bind_eq_ok_iff.mp h
  obtain ⟨_, -, h⟩ := bind_eq_ok_iff.mp h
  obtain ⟨_, -, h⟩ := bind_eq_ok_iff.mp h
  rw [← Except.ok.inj h]

end SophiaOrchestrator.Skills
