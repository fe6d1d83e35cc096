import Mathlib.Data.List.Sort
import SophiaOrchestrator.Domain.Phase
import SophiaOrchestrator.Strings

/-!
# The skill matcher

Skills are pieces of guidance that are put into prompts.  A skill has a lifecycle status,
phases, a scope and conditions; a query has the same dimensions, and a dimension that the
query leaves empty is not compared.  The matcher loads all skills, drops each one that fails
a filter with the first reason, and sorts the others.

The glob matcher, the case folding of names and the digits of other scripts are parameters.
-/

namespace SophiaOrchestrator.Skills

open Strings

/-! ## Skills -/

/-- Identifies a skill.  The text of a ULID is ordered as the number is. -/
structure SkillID where
  raw : Nat
  deriving DecidableEq, Repr

/-- The lifecycle status; a stored text outside the closed set is kept as it is. -/
inductive Status where
  | candidate
  | validated
  | active
  | deprecated
  | blocked
  | archived
  | unknown (text : String)
  deriving DecidableEq, Repr

def Status.toString : Status → String
  | .candidate => "candidate"
  | .validated => "validated"
  | .active => "active"
  | .deprecated => "deprecated"
  | .blocked => "blocked"
  | .archived => "archived"
  | .unknown text => text

inductive RiskLevel where
  | low
  | medium
  | high
  | critical
  | unknown (text : String)
  deriving DecidableEq, Repr

/-- `riskOrder`; a level that is not in the map reads as zero. -/
def RiskLevel.order : RiskLevel → Nat
  | .low | .unknown _ => 0
  | .medium => 1
  | .high => 2
  | .critical => 3

structure Scope where
  projectID : String := ""
  repoID : String := ""
  phases : List String := []
  deriving DecidableEq, Repr

structure AppliesWhen where
  featureType : List String := []
  touchedPaths : List String := []
  excludePaths : List String := []
  framework : List String := []
  language : List String := []
  frameworkMinVersion : List (String × String) := []
  deriving DecidableEq, Repr

structure Skill where
  id : SkillID
  name : String
  phases : List PhaseType
  content : String
  techniques : List String := []
  status : Status
  version : String := "v1"
  scope : Scope := {}
  appliesWhen : AppliesWhen := {}
  riskLevel : RiskLevel := .medium
  activationSource : String := "manual"
  usageCount : Int := 0
  lastValidatedAt : Option Time := none
  deriving DecidableEq, Repr

def Skill.appliesTo (s : Skill) (pt : PhaseType) : Bool :=
  s.phases.contains pt

/-! ## Versions -/

def isVersionMark (c : Char) : Bool :=
  c == '^' || c == '~' || c == '>' || c == '=' || c == '<' || c == 'v' || c == 'V'

/-- The word before the first blank is dropped if it has no digit, of any script, and something
follows. -/
def dropQualifier (u : DigitClass) (text : List Char) : List Char :=
  let word := text.takeWhile (· ≠ ' ')
  let rest := trimSpace ((text.dropWhile (· ≠ ' ')).drop 1)
  if text.contains ' ' && !word.any u.isDigit && !rest.isEmpty then rest else text

def numberText (u : DigitClass) (version : String) : List Char :=
  (dropQualifier u (trimSpace version.toList)).dropWhile isVersionMark

/-- `MajorOf`: the leading number of a version; one that does not fit an `int` does not
parse.  It is read byte by byte, so that only decimal digits count. -/
def majorOf (u : DigitClass) (version : String) : Option Nat :=
  let digits := (numberText u version).takeWhile Char.isDigit
  if digits.isEmpty then
    none
  else
    let major := digits.foldl (fun n c => 10 * n + (c.toNat - '0'.toNat)) 0
    if major < 2 ^ 63 then some major else none

/-! ## Queries -/

structure LanguageInfo where
  name : String

structure FrameworkInfo where
  name : String
  version : String := ""

structure StructuralContext where
  languages : List LanguageInfo := []
  frameworks : List FrameworkInfo := []

/-- `SkillQuery`; the zero value of a field disables its filter. -/
structure SkillQuery where
  phase : Option PhaseType := none
  projectID : String := ""
  repoID : String := ""
  structuralContext : Option StructuralContext := none
  featureType : String := ""
  touchedPaths : List String := []
  maxRiskLevel : Option RiskLevel := none

inductive SkipReason where
  | scopeMismatch
  | appliesWhenFailed
  | statusNotActive
  | riskExceeded
  | structuralMismatch
  deriving DecidableEq, Repr

structure SkippedSkill where
  skillID : SkillID
  reason : SkipReason
  deriving DecidableEq, Repr

structure Text where
  globMatch : String → String → Bool
  equalFold : String → String → Bool
  toLower : String → String
  digits : DigitClass

/-! ## Filters -/

/-- One dimension of a scope: nothing asked, nothing required, any, or equal. -/
def dimensionMatches (scope query : String) : Bool :=
  query == "" || scope == "" || scope == "*" || scope == query

def scopeMatches (sc : Scope) (q : SkillQuery) : Bool :=
  dimensionMatches sc.projectID q.projectID && dimensionMatches sc.repoID q.repoID

variable (text : Text) (aw : AppliesWhen) (q : SkillQuery)

def anyGlobMatch (patterns : List String) (path : String) : Bool :=
  patterns.any fun pattern => text.globMatch pattern path

def appliesWhenMatches : Bool :=
  (aw.featureType.isEmpty || q.featureType == "" || aw.featureType.contains q.featureType) &&
    (q.touchedPaths.isEmpty ||
      !(q.touchedPaths.any (anyGlobMatch text aw.excludePaths)) &&
        (aw.touchedPaths.isEmpty || q.touchedPaths.any (anyGlobMatch text aw.touchedPaths)))

/-- The version gate of one detected framework; a version that does not parse passes. -/
def versionPasses (fw : FrameworkInfo) : Bool :=
  match aw.frameworkMinVersion.lookup (text.toLower fw.name) with
  | none => true
  | some minVer =>
    match majorOf text.digits fw.version, majorOf text.digits minVer with
    | some detected, some required => decide (required ≤ detected)
    | _, _ => true

def anyFrameworkMatches (detected : List FrameworkInfo) : Bool :=
  aw.framework.any fun declared =>
    detected.any fun fw => text.equalFold declared fw.name && versionPasses text aw fw

def anyLanguagePresent (declared : List String) (detected : List LanguageInfo) : Bool :=
  declared.any fun name => detected.any fun language => text.equalFold name language.name

/-- `structuralMatches`: without a structural context nothing is filtered. -/
def structuralMatches : Bool :=
  match q.structuralContext with
  | none => true
  | some sc =>
    (aw.framework.isEmpty || anyFrameworkMatches text aw sc.frameworks) &&
      (aw.language.isEmpty || anyLanguagePresent text aw.language sc.languages)

/-- The first filter that a skill fails, in the order of the loop. -/
def skipReason (s : Skill) : Option SkipReason :=
  if s.status ≠ .active then
    some .statusNotActive
  else if q.phase.any (fun pt => !s.appliesTo pt) then
    some .scopeMismatch
  else if !scopeMatches s.scope q then
    some .scopeMismatch
  else if !appliesWhenMatches text s.appliesWhen q then
    some .appliesWhenFailed
  else if !structuralMatches text s.appliesWhen q then
    some .structuralMismatch
  else if q.maxRiskLevel.any (fun max => decide (max.order < s.riskLevel.order)) then
    some .riskExceeded
  else
    none

structure Passes (q : SkillQuery) (s : Skill) : Prop where
  active : s.status = .active
  phase : ∀ pt, q.phase = some pt → s.appliesTo pt = true
  scope : scopeMatches s.scope q = true

theorem passes_of_skipReason {text : Text} {q : SkillQuery} {s : Skill}
    (h : skipReason text q s = none) : Passes q s := by
  unfold skipReason at h
  split at h
  · cases h
  · next hactive =>
    split at h
    · cases h
    · next hphase =>
      split at h
      · cases h
      · next hscope =>
        refine ⟨not_not.mp hactive, fun pt hpt => ?_, by simpa using hscope⟩
        simpa [hpt] using hphase

/-! ## The matcher -/

/-- The order of the matched skills: by risk, by the last validation with the newest first,
by use with the unused last, then by id. -/
def less (a b : Skill) : Bool :=
  if a.riskLevel.order ≠ b.riskLevel.order then
    decide (a.riskLevel.order < b.riskLevel.order)
  else
    match a.lastValidatedAt, b.lastValidatedAt with
    | some _, none => true
    | none, some _ => false
    | some ta, some tb => if ta ≠ tb then decide (tb < ta) else lessByUse a b
    | none, none => lessByUse a b
where
  lessByUse (a b : Skill) : Bool :=
    if a.usageCount ≠ b.usageCount then
      if a.usageCount = 0 then false
      else if b.usageCount = 0 then true
      else decide (b.usageCount < a.usageCount)
    else
      decide (a.id.raw < b.id.raw)

def sortSkills (skills : List Skill) : List Skill :=
  skills.mergeSort fun a b => !less b a

def matchOne (acc : List Skill × List SkippedSkill) (s : Skill) :
    List Skill × List SkippedSkill :=
  match skipReason text q s with
  | some reason => (acc.1, acc.2 ++ [⟨s.id, reason⟩])
  | none => (acc.1 ++ [s], acc.2)

def skillsForContext (candidates : Except String (List Skill)) :
    Except String (List Skill × List SkippedSkill) :=
  match candidates with
  | .error err => .error ("PGSkillMatcher.SkillsForContext: " ++ err)
  | .ok candidates =>
    let (matched, skipped) := candidates.foldl (matchOne text q) ([], [])
    .ok (sortSkills matched, skipped)

theorem foldl_matchOne_fst (candidates : List Skill) (acc : List Skill × List SkippedSkill) :
    (candidates.foldl (matchOne text q) acc).1 =
      acc.1 ++ candidates.filter fun s => (skipReason text q s).isNone := by
  induction candidates generalizing acc with
  | nil => simp
  | cons s candidates ih =>
    rw [List.foldl_cons, ih]
    cases hreason : skipReason text q s with
    | none | some reason => simp [matchOne, hreason]

/-- The skills returned are the stored ones that pass every filter. -/
theorem skillsForContext_spec {text : Text} {q : SkillQuery} {candidates : List Skill}
    {matched : List Skill} {skipped : List SkippedSkill}
    (h : skillsForContext text q (.ok candidates) = .ok (matched, skipped)) (s : Skill) :
    s ∈ matched ↔ s ∈ candidates ∧ skipReason text q s = none := by
  simp only [skillsForContext, Except.ok.injEq, Prod.mk.injEq] at h
  rw [← h.1, sortSkills, List.mem_mergeSort, foldl_matchOne_fst]
  simp

end SophiaOrchestrator.Skills
