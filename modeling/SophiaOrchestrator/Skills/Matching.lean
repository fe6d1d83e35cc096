import Mathlib.Data.Prod.Lex
import SophiaOrchestrator.Skills.Matcher

/-!
# What the matcher returns

Every stored skill is matched or skipped.  The comparator of the sort is the order of a key
with four parts, in which the id comes last; so the matched list does not depend on the
order in which the repository lists the skills.
-/

namespace SophiaOrchestrator.Skills

variable {text : Text} {q : SkillQuery} {s a b : Skill} {candidates matched : List Skill}
  {skipped : List SkippedSkill}

/-! ## The order -/

def validationKey : Option Time → ℕ ×ₗ ℤ
  | some time => toLex (0, -(time : ℤ))
  | none => toLex (1, 0)

def usageKey (count : Int) : ℕ ×ₗ ℤ :=
  if count = 0 then toLex (1, 0) else toLex (0, -count)

def useKey (s : Skill) : (ℕ ×ₗ ℤ) ×ₗ ℕ :=
  toLex (usageKey s.usageCount, s.id.raw)

def sortKey (s : Skill) : ℕ ×ₗ (ℕ ×ₗ ℤ) ×ₗ (ℕ ×ₗ ℤ) ×ₗ ℕ :=
  toLex (s.riskLevel.order, toLex (validationKey s.lastValidatedAt, useKey s))

theorem usageKey_injective {m n : Int} (h : usageKey m = usageKey n) : m = n := by
  unfold usageKey at h
  split_ifs at h with hm hn hn
  · rw [hm, hn]
  · simp at h
  · simp at h
  · simpa using h

theorem usageKey_lt_iff {m n : Int} (hne : m ≠ n) :
    usageKey m < usageKey n ↔ m ≠ 0 ∧ (n = 0 ∨ n < m) := by
  unfold usageKey
  split_ifs with hm hn hn
  · exact absurd (hm.trans hn.symm) hne
  · simp [hm, Prod.Lex.toLex_lt_toLex]
  · simp [hm, hn, Prod.Lex.toLex_lt_toLex]
  · simp [hm, hn, Prod.Lex.toLex_lt_toLex]

theorem lessByUse_iff : less.lessByUse a b = true ↔ useKey a < useKey b := by
  unfold less.lessByUse useKey
  rw [Prod.Lex.toLex_lt_toLex]
  by_cases hcount : a.usageCount = b.usageCount
  · simp [hcount]
  · have hkey : usageKey a.usageCount ≠ usageKey b.usageCount :=
      fun heq => hcount (usageKey_injective heq)
    rw [usageKey_lt_iff hcount]
    by_cases ha : a.usageCount = 0
    · rw [if_pos hcount, if_pos ha]
      refine iff_of_false (by simp) ?_
      rintro (⟨hused, -⟩ | ⟨heq, -⟩)
      · exact hused ha
      · exact hkey heq
    · by_cases hb : b.usageCount = 0 <;> simp [hcount, ha, hb, hkey]

theorem less_iff : less a b = true ↔ sortKey a < sortKey b := by
  unfold less sortKey
  rw [Prod.Lex.toLex_lt_toLex, Prod.Lex.toLex_lt_toLex]
  by_cases hrisk : a.riskLevel.order = b.riskLevel.order
  · cases ha : a.lastValidatedAt with
    | none =>
      cases hb : b.lastValidatedAt with
      | none => simp [hrisk, lessByUse_iff]
      | some tb => simp [hrisk, validationKey, Prod.Lex.toLex_lt_toLex]
    | some ta =>
      cases hb : b.lastValidatedAt with
      | none => simp [hrisk, validationKey, Prod.Lex.toLex_lt_toLex]
      | some tb =>
        by_cases htime : ta = tb
        · simp [hrisk, htime, lessByUse_iff]
        · simp [hrisk, htime, validationKey, Prod.Lex.toLex_lt_toLex]
  · simp [hrisk]

/-- Two skills with one key are one skill, if their ids tell them apart. -/
theorem id_eq_of_sortKey_eq (h : sortKey a = sortKey b) : a.id = b.id := by
  have huse : useKey a = useKey b := congrArg (fun key => (ofLex (ofLex key).2).2) h
  have hid : a.id.raw = b.id.raw := congrArg (fun key => (ofLex key).2) huse
  cases ha : a.id
  cases hb : b.id
  simpa [ha, hb] using hid

theorem pairwise_sortSkills (skills : List Skill) :
    (sortSkills skills).Pairwise fun a b => sortKey a ≤ sortKey b := by
  have hle : (fun a b => !less b a) = fun a b : Skill => decide (sortKey a ≤ sortKey b) := by
    funext a b
    rw [Bool.eq_iff_iff, Bool.not_eq_true', ← Bool.not_eq_true, less_iff, decide_eq_true_eq,
      not_lt]
  rw [sortSkills, hle]
  have hsorted := @List.pairwise_mergeSort _ (fun a b : Skill => decide (sortKey a ≤ sortKey b))
    (fun a b c => by simpa using le_trans) (fun a b => by simpa using le_total _ _) skills
  simpa using hsorted

theorem sortSkills_eq_of_perm {skills skills' : List Skill} (hperm : skills.Perm skills')
    (hdistinct : (skills.map Skill.id).Nodup) : sortSkills skills = sortSkills skills' := by
  have hskills := List.mergeSort_perm skills fun a b => !less b a
  have hskills' := List.mergeSort_perm skills' fun a b => !less b a
  refine (hskills.trans (hperm.trans hskills'.symm)).eq_of_pairwise ?_
    (pairwise_sortSkills skills) (pairwise_sortSkills skills')
  intro a b ha hb hab hba
  refine List.inj_on_of_nodup_map hdistinct (hskills.mem_iff.mp ha)
    (hperm.mem_iff.mpr (hskills'.mem_iff.mp hb)) ?_
  exact id_eq_of_sortKey_eq (le_antisymm hab hba)

/-! ## The filters -/

structure Eligible (text : Text) (q : SkillQuery) (s : Skill) : Prop where
  active : s.status = .active
  phase : ∀ pt, q.phase = some pt → pt ∈ s.phases
  project : q.projectID = "" ∨ s.scope.projectID ∈ ["", "*", q.projectID]
  repo : q.repoID = "" ∨ s.scope.repoID ∈ ["", "*", q.repoID]
  feature : s.appliesWhen.featureType = [] ∨ q.featureType = "" ∨
    q.featureType ∈ s.appliesWhen.featureType
  excluded : ∀ path ∈ q.touchedPaths, ∀ pattern ∈ s.appliesWhen.excludePaths,
    text.globMatch pattern path = false
  touched : q.touchedPaths = [] ∨ s.appliesWhen.touchedPaths = [] ∨
    ∃ path ∈ q.touchedPaths, ∃ pattern ∈ s.appliesWhen.touchedPaths,
      text.globMatch pattern path = true
  framework : ∀ sc, q.structuralContext = some sc → s.appliesWhen.framework = [] ∨
    ∃ declared ∈ s.appliesWhen.framework, ∃ fw ∈ sc.frameworks,
      text.equalFold declared fw.name = true ∧ versionPasses text s.appliesWhen fw = true
  language : ∀ sc, q.structuralContext = some sc → s.appliesWhen.language = [] ∨
    ∃ declared ∈ s.appliesWhen.language, ∃ language ∈ sc.languages,
      text.equalFold declared language.name = true
  risk : ∀ max, q.maxRiskLevel = some max → s.riskLevel.order ≤ max.order

theorem dimensionMatches_iff {scope query : String} :
    dimensionMatches scope query = true ↔ query = "" ∨ scope ∈ ["", "*", query] := by
  simp [dimensionMatches, or_assoc]

theorem appliesWhenMatches_iff {aw : AppliesWhen} :
    appliesWhenMatches text aw q = true ↔
      (aw.featureType = [] ∨ q.featureType = "" ∨ q.featureType ∈ aw.featureType) ∧
      (∀ path ∈ q.touchedPaths, ∀ pattern ∈ aw.excludePaths,
        text.globMatch pattern path = false) ∧
      (q.touchedPaths = [] ∨ aw.touchedPaths = [] ∨
        ∃ path ∈ q.touchedPaths, ∃ pattern ∈ aw.touchedPaths,
          text.globMatch pattern path = true) := by
  cases hpaths : q.touchedPaths with
  | nil => simp [appliesWhenMatches, hpaths, or_assoc]
  | cons path paths => simp [appliesWhenMatches, hpaths, anyGlobMatch, or_assoc]

theorem structuralMatches_iff {aw : AppliesWhen} :
    structuralMatches text aw q = true ↔ ∀ sc, q.structuralContext = some sc →
      (aw.framework = [] ∨ ∃ declared ∈ aw.framework, ∃ fw ∈ sc.frameworks,
        text.equalFold declared fw.name = true ∧ versionPasses text aw fw = true) ∧
      (aw.language = [] ∨ ∃ declared ∈ aw.language, ∃ language ∈ sc.languages,
        text.equalFold declared language.name = true) := by
  cases hsc : q.structuralContext with
  | none => simp [structuralMatches, hsc]
  | some sc => simp [structuralMatches, hsc, anyFrameworkMatches, anyLanguagePresent]

/-- A skill fails no filter exactly when it is eligible. -/
theorem skipReason_eq_none_iff : skipReason text q s = none ↔ Eligible text q s := by
  constructor
  · intro h
    unfold skipReason at h
    split_ifs at h with hactive hphase hscope happlies hstructural hrisk
    simp only [scopeMatches, Bool.not_eq_true', Bool.not_eq_false, Bool.and_eq_true,
      dimensionMatches_iff] at hscope
    simp only [Bool.not_eq_true', Bool.not_eq_false] at happlies hstructural
    obtain ⟨hfeature, hexcluded, htouched⟩ := appliesWhenMatches_iff.mp happlies
    have hsc := structuralMatches_iff.mp hstructural
    exact
      { active := not_not.mp hactive
        phase := fun pt hpt => by simpa [hpt, Skill.appliesTo] using hphase
        project := hscope.1
        repo := hscope.2
        feature := hfeature
        excluded := hexcluded
        touched := htouched
        framework := fun sc h => (hsc sc h).1
        language := fun sc h => (hsc sc h).2
        risk := fun max hmax => by simpa [hmax] using hrisk }
  · intro h
    have hphase : ¬ q.phase.any (fun pt => !s.appliesTo pt) = true := by
      cases hpt : q.phase with
      | none => simp
      | some pt => simpa [Skill.appliesTo] using h.phase pt hpt
    have hscope : scopeMatches s.scope q = true := by
      rw [scopeMatches, Bool.and_eq_true, dimensionMatches_iff, dimensionMatches_iff]
      exact ⟨h.project, h.repo⟩
    have happlies := appliesWhenMatches_iff.mpr ⟨h.feature, h.excluded, h.touched⟩
    have hstructural := structuralMatches_iff.mpr
      fun sc hsc => ⟨h.framework sc hsc, h.language sc hsc⟩
    have hrisk : ¬ q.maxRiskLevel.any (fun max => decide (max.order < s.riskLevel.order)) =
      true := by
      cases hmax : q.maxRiskLevel with
      | none => simp
      | some max => simpa using h.risk max hmax
    rw [skipReason, if_neg (not_not.mpr h.active), if_neg hphase, if_neg (by simp [hscope]),
      if_neg (by simp [happlies]), if_neg (by simp [hstructural]), if_neg hrisk]

/-! ## The result -/

theorem foldl_matchOne_snd (text : Text) (q : SkillQuery) (candidates : List Skill)
    (acc : List Skill × List SkippedSkill) :
    (candidates.foldl (matchOne text q) acc).2 =
      acc.2 ++ candidates.filterMap fun s =>
        (skipReason text q s).map fun reason => ⟨s.id, reason⟩ := by
  induction candidates generalizing acc with
  | nil => simp
  | cons s candidates ih =>
    rw [List.foldl_cons, ih]
    cases hreason : skipReason text q s with
    | none | some reason => simp [matchOne, hreason]

theorem skillsForContext_eq (text : Text) (q : SkillQuery) (candidates : List Skill) :
    skillsForContext text q (.ok candidates) =
      .ok (sortSkills (candidates.filter fun s => (skipReason text q s).isNone),
        candidates.filterMap fun s => (skipReason text q s).map fun reason => ⟨s.id, reason⟩) := by
  simp only [skillsForContext, foldl_matchOne_fst, foldl_matchOne_snd, List.nil_append]

theorem skipped_ids (text : Text) (q : SkillQuery) (candidates : List Skill) :
    (candidates.filterMap fun s => (skipReason text q s).map fun reason =>
        (⟨s.id, reason⟩ : SkippedSkill)).map SkippedSkill.skillID =
      (candidates.filter fun s => !(skipReason text q s).isNone).map Skill.id := by
  induction candidates with
  | nil => rfl
  | cons s candidates ih => cases hreason : skipReason text q s <;> simp [hreason, ih]

theorem perm_of_skillsForContext
    (h : skillsForContext text q (.ok candidates) = .ok (matched, skipped)) :
    (matched.map Skill.id ++ skipped.map SkippedSkill.skillID).Perm (candidates.map Skill.id) := by
  rw [skillsForContext_eq, Except.ok.injEq, Prod.mk.injEq] at h
  rw [← h.1, ← h.2, skipped_ids, ← List.map_append, sortSkills]
  refine List.Perm.map _ (((List.mergeSort_perm _ _).append_right _).trans ?_)
  exact List.filter_append_perm (fun s => (skipReason text q s).isNone) candidates

/-! ## Newer versions -/

def SkillQuery.withVersion (q : SkillQuery) (i : Nat) (version : String) : SkillQuery :=
  { q with
    structuralContext := q.structuralContext.map fun sc =>
      { sc with frameworks := sc.frameworks.modify i fun fw => { fw with version := version } } }

theorem versionPasses_of_le {aw : AppliesWhen} {fw : FrameworkInfo} {version : String}
    {major major' : Nat} (hmajor : majorOf text.digits fw.version = some major)
    (hmajor' : majorOf text.digits version = some major') (hle : major ≤ major')
    (h : versionPasses text aw fw = true) :
    versionPasses text aw { fw with version := version } = true := by
  unfold versionPasses at h ⊢
  dsimp only
  cases hmin : aw.frameworkMinVersion.lookup (text.toLower fw.name) with
  | none => rfl
  | some minVer =>
    rw [hmin] at h
    cases hrequired : majorOf text.digits minVer with
    | none => simp only [hmajor', hrequired]
    | some required =>
      simp only [hmajor, hmajor', hrequired, decide_eq_true_eq] at h ⊢
      exact h.trans hle

theorem Eligible.withVersion {sc : StructuralContext} {i : Nat} {fw : FrameworkInfo}
    {version : String} {major major' : Nat} (h : Eligible text q s)
    (hsc : q.structuralContext = some sc) (hfw : sc.frameworks[i]? = some fw)
    (hmajor : majorOf text.digits fw.version = some major)
    (hmajor' : majorOf text.digits version = some major')
    (hle : major ≤ major') : Eligible text (q.withVersion i version) s := by
  have hsc' : ∀ sc', (q.withVersion i version).structuralContext = some sc' →
      sc' = { sc with frameworks := sc.frameworks.modify i fun fw => { fw with version } } := by
    intro sc' heq
    simp only [SkillQuery.withVersion, hsc, Option.map_some, Option.some.injEq] at heq
    exact heq.symm
  refine { h with framework := fun sc' heq => ?_, language := fun sc' heq => ?_ }
  · obtain rfl := hsc' sc' heq
    refine (h.framework sc hsc).imp_right ?_
    rintro ⟨declared, hdeclared, found, hfound, hname, hpasses⟩
    obtain ⟨j, hj⟩ := List.getElem?_of_mem hfound
    by_cases hij : i = j
    · -- The framework that matched is the one with the new version.
      subst hij
      obtain rfl : fw = found := Option.some.inj (hfw.symm.trans hj)
      refine ⟨declared, hdeclared, { fw with version }, List.mem_of_getElem? (i := i) ?_, hname,
        versionPasses_of_le hmajor hmajor' hle hpasses⟩
      simp [hj]
    · refine ⟨declared, hdeclared, found, List.mem_of_getElem? (i := j) ?_, hname, hpasses⟩
      simp [hij, hj]
  · obtain rfl := hsc' sc' heq
    exact h.language sc hsc

/-- For distinct stored skills: every one is matched or skipped and not both, each once; the
matched ones are exactly the eligible ones; the matched list is the same for every order of
the stored skills; and a matched skill stays matched when a detected framework gets a version
with a higher major. -/
theorem skillsForContext_matches (text : Text) (q : SkillQuery) (candidates : List Skill)
    (hdistinct : (candidates.map Skill.id).Nodup) :
    ∃ matched skipped, skillsForContext text q (.ok candidates) = .ok (matched, skipped) ∧
      (matched.map Skill.id ++ skipped.map SkippedSkill.skillID).Nodup ∧
      (∀ s ∈ candidates, Xor (s ∈ matched) (s.id ∈ skipped.map SkippedSkill.skillID)) ∧
      (∀ s, s ∈ matched ↔ s ∈ candidates ∧ Eligible text q s) ∧
      (∀ reordered, reordered.Perm candidates →
        ∃ skipped', skillsForContext text q (.ok reordered) = .ok (matched, skipped')) ∧
      ∀ sc i fw version major major', q.structuralContext = some sc →
        sc.frameworks[i]? = some fw → majorOf text.digits fw.version = some major →
        majorOf text.digits version = some major' → major < major' →
        ∃ matched' skipped', skillsForContext text (q.withVersion i version) (.ok candidates) =
          .ok (matched', skipped') ∧ ∀ s ∈ matched, s ∈ matched' := by
  have heq := skillsForContext_eq text q candidates
  have hmatched : ∀ s, s ∈ sortSkills (candidates.filter fun s => (skipReason text q s).isNone) ↔
      s ∈ candidates ∧ Eligible text q s := by
    intro s
    rw [skillsForContext_spec heq s, skipReason_eq_none_iff]
  have hnodup := (perm_of_skillsForContext heq).nodup_iff.mpr hdistinct
  refine ⟨_, _, heq, hnodup, ?_, hmatched, ?_, ?_⟩
  · intro s hs
    by_cases hin : s ∈ sortSkills (candidates.filter fun s => (skipReason text q s).isNone)
    · exact .inl ⟨hin, List.disjoint_of_nodup_append hnodup (List.mem_map_of_mem hin)⟩
    · refine .inr ⟨?_, hin⟩
      have hmem := (perm_of_skillsForContext heq).mem_iff.mpr (List.mem_map_of_mem hs)
      refine (List.mem_append.mp hmem).resolve_left fun hother => hin ?_
      obtain ⟨other, hother, hid⟩ := List.mem_map.mp hother
      rw [← List.inj_on_of_nodup_map hdistinct ((hmatched other).mp hother).1 hs hid]
      exact hother
  · intro reordered hperm
    rw [skillsForContext_eq]
    refine ⟨_, congrArg Except.ok (Prod.ext ?_ rfl)⟩
    exact sortSkills_eq_of_perm (hperm.filter _)
      (((hperm.map Skill.id).nodup_iff.mpr hdistinct).sublist (List.filter_sublist.map _))
  · intro sc i fw version major major' hsc hfw hmajor hmajor' hlt
    refine ⟨_, _, skillsForContext_eq text (q.withVersion i version) candidates, fun s hs => ?_⟩
    obtain ⟨hcandidate, heligible⟩ := (hmatched s).mp hs
    rw [skillsForContext_spec (skillsForContext_eq text (q.withVersion i version) candidates) s,
      skipReason_eq_none_iff]
    exact ⟨hcandidate, heligible.withVersion hsc hfw hmajor hmajor' hlt.le⟩

def plainText : Text where
  globMatch _ _ := false
  equalFold := (· == ·)
  toLower := id
  digits := Strings.decimalDigits

def versionedSkill (id : Nat) : Skill where
  id := ⟨id⟩
  name := "hooks"
  phases := [.apply]
  content := "Use hooks."
  status := .active
  appliesWhen := { framework := ["react"], frameworkMinVersion := [("react", "2")] }

/-- Two skills in both orders give the same matched list. -/
theorem skillsForContext_matches_two :
    ∃ matched skipped skipped',
      skillsForContext plainText {} (.ok [versionedSkill 2, versionedSkill 1]) =
        .ok (matched, skipped) ∧
      skillsForContext plainText {} (.ok [versionedSkill 1, versionedSkill 2]) =
        .ok (matched, skipped') := by
  obtain ⟨matched, skipped, heq, -, -, -, hreordered, -⟩ :=
    skillsForContext_matches plainText {} [versionedSkill 2, versionedSkill 1] (by decide)
  obtain ⟨skipped', heq'⟩ := hreordered [versionedSkill 1, versionedSkill 2] (.swap ..)
  exact ⟨matched, skipped, skipped', heq, heq'⟩

end SophiaOrchestrator.Skills
