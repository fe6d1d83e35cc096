import SophiaOrchestrator.Effects.InPlace
import SophiaOrchestrator.Skills.Lifecycle

/-!
# What the aggregate enforces

A skill is built by `New` and then edited by `Update`, both with arbitrary arguments.  The
phases come as texts, of which the ones that name no phase type are ignored.  `Update` assigns
the fields of the skill in place, one after the other.
-/

namespace SophiaOrchestrator.Skills

open Effects

/-! ## Deduplication -/

section EraseDups

variable {α : Type} [DecidableEq α]

theorem idxOf_lt_of_filter {p : α → Bool} {b c : α} (hb : p b = true) (hc : p c = true)
    (l : List α) (h : (l.filter p).idxOf b < (l.filter p).idxOf c) : l.idxOf b < l.idxOf c := by
  induction l with
  | nil => simp at h
  | cons a l ih =>
    by_cases ha : p a = true
    · rw [List.filter_cons_of_pos ha] at h
      by_cases hac : a = c
      · simp [hac] at h
      · by_cases hab : a = b
        · subst hab
          simp [List.idxOf_cons_ne _ hac]
        · rw [List.idxOf_cons_ne _ hab, List.idxOf_cons_ne _ hac] at h ⊢
          exact Nat.succ_lt_succ (ih (Nat.lt_of_succ_lt_succ h))
    · have hab : a ≠ b := fun heq => ha (heq ▸ hb)
      have hac : a ≠ c := fun heq => ha (heq ▸ hc)
      rw [List.filter_cons_of_neg ha] at h
      rw [List.idxOf_cons_ne _ hab, List.idxOf_cons_ne _ hac]
      exact Nat.succ_lt_succ (ih h)

/-- The elements stand in the order of their first occurrences, hence each of them once. -/
theorem pairwise_eraseDups (l : List α) :
    l.eraseDups.Pairwise fun a b => l.idxOf a < l.idxOf b := by
  induction hn : l.length using Nat.strong_induction_on generalizing l with
  | _ n ih =>
    cases l with
    | nil => simp
    | cons a l =>
      rw [List.eraseDups_cons, List.pairwise_cons]
      have hkept : ∀ b ∈ (l.filter fun b => !b == a).eraseDups, (!b == a) = true :=
        fun b hb => (List.mem_filter.mp (List.mem_eraseDups.mp hb)).2
      have hother : ∀ b ∈ (l.filter fun b => !b == a).eraseDups, a ≠ b := by
        rintro b hb rfl
        have hself := hkept a hb
        simp at hself
      refine ⟨fun b hb => ?_, ?_⟩
      · rw [List.idxOf_cons_self, List.idxOf_cons_ne _ (hother b hb)]
        exact Nat.succ_pos _
      · have hshort : (l.filter fun b => !b == a).length < n := by
          have hle := List.length_filter_le (fun b => !b == a) l
          rw [← hn, List.length_cons]
          omega
        refine (ih _ hshort _ rfl).imp_of_mem fun {b c} hb hc hlt => ?_
        rw [List.idxOf_cons_ne _ (hother b hb), List.idxOf_cons_ne _ (hother c hc)]
        exact Nat.succ_lt_succ (idxOf_lt_of_filter (p := fun b => !b == a) (hkept b hb)
          (hkept c hc) l hlt)

end EraseDups

/-! ## Calls -/

def parsePhase (text : String) : Option PhaseType :=
  PhaseType.all.find? fun pt => pt.toString = text

structure SkillArgs where
  name : String
  phases : List String
  content : String
  techniques : List Technique
  lifecycle : LifecycleInput := {}
  now : Time

def SkillArgs.validPhases (args : SkillArgs) : List PhaseType :=
  args.phases.filterMap parsePhase

def newOf (id : SkillID) (args : SkillArgs) : Except SkillErr SkillRow :=
  new id args.name args.validPhases args.content args.techniques args.lifecycle args.now

def SkillRow.updateOf (s : SkillRow) (args : SkillArgs) : Except SkillErr SkillRow :=
  s.update args.name args.validPhases args.content args.techniques args.lifecycle args.now

/-- `Update` in place, one assignment after the other as in the source. -/
def updateMethod (args : SkillArgs) : InPlace SkillErr SkillRow Unit := do
  let canonicalPhases ← InPlace.check (canonicalizePhases args.validPhases)
  InPlace.check (validateCore args.name args.content args.techniques)
  let merged := mergeLifecycle (← get) args.lifecycle
  InPlace.check (validateLifecycle merged)
  modify fun s => { s with name := args.name }
  modify fun s => { s with phases := canonicalPhases }
  modify fun s => { s with content := args.content }
  modify fun s => { s with techniques := args.techniques.eraseDups }
  modify fun s => { s with status := merged.status }
  modify fun s => { s with version := merged.version }
  modify fun s => { s with scope := merged.scope }
  modify fun s => { s with appliesWhen := merged.appliesWhen }
  modify fun s => { s with riskLevel := merged.riskLevel }
  modify fun s => { s with activationSource := merged.activationSource }
  modify fun s => { s with metrics := merged.metrics }
  modify fun s => { s with lastUsedAt := merged.lastUsedAt }
  modify fun s => { s with lastValidatedAt := merged.lastValidatedAt }
  modify fun s => { s with updatedAt := args.now }

structure Edited where
  skill : SkillRow
  given : SkillArgs

/-- The skill after an edit, with whatever a refused edit has assigned before its error. -/
def Edited.edit (e : Edited) (args : SkillArgs) : Edited :=
  match updateMethod args e.skill with
  | .ok _ skill => ⟨skill, args⟩
  | .error _ skill => ⟨skill, e.given⟩

/-- What the aggregate enforces, given the arguments of the last accepted call.  The two
orders are strict, so no phase and no technique stands in its list twice. -/
structure Edited.Sound (e : Edited) : Prop where
  phases_ne : e.skill.phases ≠ []
  phases_order : e.skill.phases.Pairwise fun pt pt' => pt.rank < pt'.rank
  phases_given : ∀ pt, pt ∈ e.skill.phases ↔ pt ∈ e.given.validPhases
  techniques_ne : e.skill.techniques ≠ []
  techniques_valid : ∀ technique ∈ e.skill.techniques, technique.isValid = true
  techniques_given : ∀ technique, technique ∈ e.skill.techniques ↔ technique ∈ e.given.techniques
  techniques_order : e.skill.techniques.Pairwise fun technique technique' =>
    e.given.techniques.idxOf technique < e.given.techniques.idxOf technique'
  name : isBlank e.skill.name = false
  content : isBlank e.skill.content = false
  version : isBlank e.skill.version = false
  status : e.skill.status.isValid = true
  riskLevel : e.skill.riskLevel.isValid = true
  activationSource : e.skill.activationSource.isValid = true

theorem canonicalizePhases_eq_ok {input phases : List PhaseType}
    (h : canonicalizePhases input = .ok phases) :
    phases ≠ [] ∧ (phases.Pairwise fun pt pt' => pt.rank < pt'.rank) ∧
      ∀ pt, pt ∈ phases ↔ pt ∈ input := by
  unfold canonicalizePhases at h
  split_ifs at h with hempty
  rw [← Except.ok.inj h]
  have hall : ∀ pt : PhaseType, pt ∈ PhaseType.all := fun pt => by cases pt <;> decide
  have hmem : ∀ pt, pt ∈ PhaseType.all.filter (· ∈ input) ↔ pt ∈ input := by
    intro pt
    simp [hall pt]
  refine ⟨?_, ?_, hmem⟩
  · intro hnil
    obtain ⟨pt, hpt⟩ := List.exists_mem_of_ne_nil input (by simpa using hempty)
    have hkept := (hmem pt).mpr hpt
    rw [hnil] at hkept
    cases hkept
  · exact List.Pairwise.filter _ (by decide)

theorem validateCore_eq_ok {name content : String} {techniques : List Technique} {u : Unit}
    (h : validateCore name content techniques = .ok u) :
    isBlank name = false ∧ isBlank content = false ∧ techniques ≠ [] ∧
      ∀ technique ∈ techniques, technique.isValid = true := by
  unfold validateCore at h
  split_ifs at h with hname hcontent hempty hvalid
  exact ⟨by simpa using hname, by simpa using hcontent, by simpa using hempty,
    by simpa using hvalid⟩

theorem validateLifecycle_eq_ok {lc : LifecycleInput} {u : Unit}
    (h : validateLifecycle lc = .ok u) :
    lc.status.isValid = true ∧ isBlank lc.version = false ∧ lc.riskLevel.isValid = true ∧
      lc.activationSource.isValid = true := by
  unfold validateLifecycle at h
  split_ifs at h with hstatus hversion hrisk hsource
  exact ⟨by simpa using hstatus, by simpa using hversion, by simpa using hrisk,
    by simpa using hsource⟩

theorem sound_of_checks {s : SkillRow} {args : SkillArgs} {lc : LifecycleInput} {u v : Unit}
    (hphases : canonicalizePhases args.validPhases = .ok s.phases)
    (hcore : validateCore args.name args.content args.techniques = .ok u)
    (hlifecycle : validateLifecycle lc = .ok v) (hname : s.name = args.name)
    (hcontent : s.content = args.content) (htechniques : s.techniques = args.techniques.eraseDups)
    (hversion : s.version = lc.version) (hstatus : s.status = lc.status)
    (hrisk : s.riskLevel = lc.riskLevel) (hsource : s.activationSource = lc.activationSource) :
    Edited.Sound ⟨s, args⟩ := by
  obtain ⟨hne, horder, hgiven⟩ := canonicalizePhases_eq_ok hphases
  obtain ⟨hname', hcontent', htechniques', hvalid⟩ := validateCore_eq_ok hcore
  obtain ⟨hstatus', hversion', hrisk', hsource'⟩ := validateLifecycle_eq_ok hlifecycle
  have hmem : ∀ technique, technique ∈ s.techniques ↔ technique ∈ args.techniques := by
    intro technique
    rw [htechniques, List.mem_eraseDups]
  exact
    { phases_ne := hne
      phases_order := horder
      phases_given := hgiven
      techniques_ne := by
        obtain ⟨technique, ht⟩ := List.exists_mem_of_ne_nil _ htechniques'
        exact List.ne_nil_of_mem ((hmem technique).mpr ht)
      techniques_valid := fun technique ht => hvalid technique ((hmem technique).mp ht)
      techniques_given := hmem
      techniques_order := by
        rw [show (⟨s, args⟩ : Edited).skill.techniques = _ from htechniques]
        exact pairwise_eraseDups args.techniques
      name := (congrArg isBlank hname).trans hname'
      content := (congrArg isBlank hcontent).trans hcontent'
      version := (congrArg isBlank hversion).trans hversion'
      status := (congrArg Status.isValid hstatus).trans hstatus'
      riskLevel := (congrArg RiskLevel.isValid hrisk).trans hrisk'
      activationSource := (congrArg ActivationSource.isValid hsource).trans hsource' }

theorem sound_of_newOf {id : SkillID} {args : SkillArgs} {s : SkillRow}
    (h : newOf id args = .ok s) : Edited.Sound ⟨s, args⟩ := by
  obtain ⟨phases, hphases, h⟩ := bind_eq_ok_iff.mp h
  obtain ⟨u, hcore, h⟩ := bind_eq_ok_iff.mp h
  obtain ⟨v, hlifecycle, h⟩ := bind_eq_ok_iff.mp h
  rw [← Except.ok.inj h]
  exact sound_of_checks hphases hcore hlifecycle rfl rfl rfl rfl rfl rfl rfl

theorem sound_of_updateOf {args : SkillArgs} {s s' : SkillRow}
    (h : s.updateOf args = .ok s') : Edited.Sound ⟨s', args⟩ := by
  obtain ⟨phases, hphases, h⟩ := bind_eq_ok_iff.mp h
  obtain ⟨u, hcore, h⟩ := bind_eq_ok_iff.mp h
  obtain ⟨v, hlifecycle, h⟩ := bind_eq_ok_iff.mp h
  rw [← Except.ok.inj h]
  exact sound_of_checks hphases hcore hlifecycle rfl rfl rfl rfl rfl rfl rfl

/-- Every check of `Update` comes before its first assignment. -/
theorem updateMethod_implements (args : SkillArgs) :
    InPlace.Implements (updateMethod args) (·.updateOf args) := by
  intro s
  unfold updateMethod SkillRow.updateOf SkillRow.update
  cases canonicalizePhases args.validPhases with
  | error err => rfl
  | ok phases =>
    cases validateCore args.name args.content args.techniques with
    | error err => rfl
    | ok _ =>
      simp only [InPlace.check_ok_bind_run, InPlace.get_bind_run]
      cases validateLifecycle (mergeLifecycle s args.lifecycle) with
      | error err | ok _ => rfl

theorem Edited.Sound.edit {e : Edited} (h : e.Sound) (args : SkillArgs) : (e.edit args).Sound := by
  have hrun := updateMethod_implements args e.skill
  cases hupdate : e.skill.updateOf args with
  | ok skill =>
    simp only [hupdate] at hrun
    rw [Edited.edit, hrun]
    exact sound_of_updateOf hupdate
  | error err =>
    simp only [hupdate] at hrun
    rw [Edited.edit, hrun]
    exact h

theorem Edited.Sound.edits {e : Edited} (h : e.Sound) (edits : List SkillArgs) :
    (edits.foldl Edited.edit e).Sound := by
  induction edits generalizing e with
  | nil => exact h
  | cons args edits ih => exact ih (h.edit args)

/-- Every skill that `New` has built keeps the rules of the aggregate through any edits, and
an edit that returns an error changes nothing. -/
theorem sound_of_edits (id : SkillID) (args : SkillArgs) (s : SkillRow)
    (hnew : newOf id args = .ok s) (edits : List SkillArgs) :
    (edits.foldl Edited.edit ⟨s, args⟩).Sound ∧
      ∀ next err s', updateMethod next (edits.foldl Edited.edit ⟨s, args⟩).skill = .error err s' →
        s' = (edits.foldl Edited.edit ⟨s, args⟩).skill :=
  ⟨(sound_of_newOf hnew).edits edits, fun next _ _ herr =>
    (updateMethod_implements next).frame herr⟩

def twoPhases : SkillArgs where
  name := "tests first"
  phases := ["spec", "Spec", "init", "spec"]
  content := "Write the test."
  techniques := [.stepBack, .reAct, .stepBack]
  now := 1

/-- An edit without a technique is refused, and the skill is as it was. -/
theorem sound_twoPhases :
    ∃ s, newOf ⟨1⟩ twoPhases = .ok s ∧ s.phases = [.init, .spec] ∧
      s.techniques = [.stepBack, .reAct] ∧
      (Edited.edit ⟨s, twoPhases⟩ { twoPhases with techniques := [] }).Sound := by
  obtain ⟨s, hnew⟩ : ∃ s, newOf ⟨1⟩ twoPhases = .ok s := ⟨_, rfl⟩
  refine ⟨s, hnew, ?_, ?_,
    (sound_of_edits ⟨1⟩ twoPhases s hnew [{ twoPhases with techniques := [] }]).1⟩
  · cases hnew
    decide
  · cases hnew
    decide

end SophiaOrchestrator.Skills
