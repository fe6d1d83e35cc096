import Mathlib.Data.List.TakeWhile
import SophiaOrchestrator.Skills.Lifecycle

/-!
# The import of framework documentation and the drift check

A skill that is made from the documentation of a framework is named after the framework and
the major version.  When a project moves to the next major, the drift check finds the skill by
the name with the major before it, and starts an import for the new version.

The name is made by one version parser, `extractMajor`, and looked up by the number that
another one, `majorOf`, has read.  Both start at the first digit of the version.  The first
stops at a dot, the second at whatever is not a digit; they agree on the versions of
`PlainMajor`, and on no others.

The documentation provider answers from functions, and the answer to the lookup is read off
a list of rows in any order.  The text of the body of an imported skill is a parameter.
-/

namespace SophiaOrchestrator.Bootstrap

open Skills Strings

/-! ## Version texts -/

def isCut (c : Char) : Bool :=
  c == '^' || c == '~' || c == '>' || c == '=' || c == '<' || c == ' ' || c == 'v'

def fromDigit (text : List Char) : List Char :=
  text.dropWhile fun c => !c.isDigit

/-- `extractMajor`: the text before the first dot, from the first digit on if there is one. -/
def extractMajor (version : String) : String :=
  let text := version.toList.dropWhile isCut
  let text := if text.any Char.isDigit then fromDigit text else text
  String.ofList (text.takeWhile (· ≠ '.'))

def driftsForward (u : DigitClass) (detected activeMin : String) : Bool :=
  match majorOf u detected, majorOf u activeMin with
  | some dMaj, some aMaj => decide (aMaj < dMaj)
  | _, _ => false

/-- From its first digit up to the next dot, or to the end, a version has only digits, and
the first of them is not a zero. -/
def PlainMajor (version : String) : Prop :=
  ((fromDigit version.toList).takeWhile (· ≠ '.')).all Char.isDigit = true ∧
    ((fromDigit version.toList).takeWhile (· ≠ '.')).head? ≠ some '0'

instance (version : String) : Decidable (PlainMajor version) :=
  inferInstanceAs (Decidable (_ ∧ _))

/-! ## Imports -/

structure LibraryEntry where
  id : String
  snippets : Int
  score : ℚ
  isMain : Bool

structure DocsResult where
  libraryID : String
  snippets : Int
  score : ℚ
  body : String
  deriving DecidableEq

structure ImportCall where
  name : String
  version : String
  fw : String
  docs : DocsResult
  deriving DecidableEq

/-- The documentation provider, which answers `none` when it fails. -/
structure DocsProvider where
  resolveLibrary : String → Option (List LibraryEntry)
  getDocs : String → Option DocsResult

/-- What the service is made with.  Lowering a text twice is lowering it once. -/
structure ServiceDeps where
  toLower : String → String
  toLower_toLower : ∀ text, toLower (toLower text) = toLower text
  digits : DigitClass
  buildBody : ImportCall → Time → String
  minSnippets : Int := 50

/-- The entry with the highest score, the first one of several. -/
def bestEntry (entries : List LibraryEntry) : Option LibraryEntry :=
  entries.foldl
    (fun best e => if best.all fun b => decide (b.score < e.score) then some e else best) none

/-- `selectEntry`: the best entry of the version if it is fat enough, else the best main
entry if that is. -/
def selectEntry (minSnippets : Int) (entries : List LibraryEntry) : Option String :=
  let fat (e : LibraryEntry) : Bool := decide (minSnippets ≤ e.snippets)
  let versionEntry := (bestEntry (entries.filter fun e => !e.isMain)).filter fat
  let mainEntry := (bestEntry (entries.filter LibraryEntry.isMain)).filter fat
  (versionEntry <|> mainEntry).map LibraryEntry.id

def skillName (fwLower major : String) : String :=
  "stack/" ++ fwLower ++ "-" ++ major

/-- `runImport`: the call of the importer, if the documentation is there. -/
def runImport (d : ServiceDeps) (docs : DocsProvider) (fw version : String) :
    Option ImportCall := do
  let fwLower := d.toLower fw
  let entries ← docs.resolveLibrary fwLower
  let selectedID ← selectEntry d.minSnippets entries
  let result ← docs.getDocs selectedID
  return {
    name := skillName fwLower (extractMajor version)
    version := version
    fw := fwLower
    docs := result }

def importFromDocs (d : ServiceDeps) (id : SkillID) (now : Time) (c : ImportCall) :
    Except SkillErr SkillRow :=
  Skills.new id c.name [.explore, .proposal, .apply] (d.buildBody c now) [.inlineWhy]
    { status := .candidate
      version := c.version
      riskLevel := .medium
      activationSource := .imported
      appliesWhen := {
        framework := [d.toLower c.fw]
        frameworkMinVersion := [(d.toLower c.fw, extractMajor c.version)] } }
    now

/-! ## The drift check -/

def activeByName (skills : List SkillRow) (name : String) : List SkillRow :=
  skills.filter fun s => s.name == name && s.status == .active

/-- The baseline of a skill for a framework; one that is empty or does not parse is none. -/
def baseline (u : DigitClass) (fwLower : String) (s : SkillRow) : Option String := do
  let minVersion ← s.appliesWhen.frameworkMinVersion.lookup fwLower
  if minVersion = "" ∨ majorOf u minVersion = none then none else some minVersion

/-- `runDriftCheck`: the first active skill of the preceding major that has a baseline
decides. -/
def runDriftCheck (d : ServiceDeps) (docs : DocsProvider) (skills : List SkillRow)
    (fw version : String) : Option ImportCall := do
  let detectedMajor ← majorOf d.digits version
  if detectedMajor ≤ 1 then none
  else
    let prevName := skillName (d.toLower fw) (toString (detectedMajor - 1))
    let minVersion ← (activeByName skills prevName).findSome? (baseline d.digits (d.toLower fw))
    if driftsForward d.digits version minVersion then runImport d docs fw version else none

/-! ## The two parsers -/

/-- One text is another without something at either end in which there is no digit. -/
def Trims (text inner : List Char) : Prop :=
  ∃ left right, text = left ++ inner ++ right ∧
    (∀ c ∈ left, c.isDigit = false) ∧ ∀ c ∈ right, c.isDigit = false

theorem Trims.refl (text : List Char) : Trims text text :=
  ⟨[], [], by simp, by simp, by simp⟩

theorem Trims.trans {text middle inner : List Char} (h₁ : Trims text middle)
    (h₂ : Trims middle inner) : Trims text inner := by
  obtain ⟨left₁, right₁, rfl, hleft₁, hright₁⟩ := h₁
  obtain ⟨left₂, right₂, rfl, hleft₂, hright₂⟩ := h₂
  refine ⟨left₁ ++ left₂, right₂ ++ right₁, by simp, fun c hc => ?_, fun c hc => ?_⟩
  · exact (List.mem_append.mp hc).elim (hleft₁ c) (hleft₂ c)
  · exact (List.mem_append.mp hc).elim (hright₂ c) (hright₁ c)

theorem trims_dropWhile (text : List Char) {p : Char → Bool}
    (hp : ∀ c, p c = true → c.isDigit = false) : Trims text (text.dropWhile p) := by
  refine ⟨text.takeWhile p, [], by simp, fun c hc => hp c ?_, by simp⟩
  exact List.mem_takeWhile_imp hc

theorem trims_reverse {text inner : List Char} (h : Trims text.reverse inner.reverse) :
    Trims text inner := by
  obtain ⟨left, right, heq, hleft, hright⟩ := h
  refine ⟨right.reverse, left.reverse, ?_, by simpa using hright, by simpa using hleft⟩
  simpa using congrArg List.reverse heq

theorem trims_trimSpace (text : List Char) : Trims text (trimSpace text) := by
  refine (trims_dropWhile text isDigit_eq_false_of_isSpace).trans (trims_reverse ?_)
  rw [trimSpace, List.reverse_reverse]
  exact trims_dropWhile _ isDigit_eq_false_of_isSpace

theorem trims_dropQualifier (u : DigitClass) (text : List Char) :
    Trims text (dropQualifier u text) := by
  simp only [dropQualifier]
  split
  · next h =>
    simp only [Bool.and_eq_true, Bool.not_eq_true', List.any_eq_false] at h
    have hword : Trims text (text.dropWhile (· ≠ ' ')) :=
      ⟨text.takeWhile (· ≠ ' '), [], by simp,
        fun c hc => by simpa using mt (u.isDigit_of_decimal c) (h.1.2 c hc), by simp⟩
    refine (hword.trans ?_).trans (trims_trimSpace _)
    cases hrest : text.dropWhile (· ≠ ' ') with
    | nil => exact Trims.refl _
    | cons c rest =>
      -- What is dropped is the blank the word ends at.
      have hblank := List.head?_dropWhile_not (· ≠ ' ') text
      rw [hrest] at hblank
      have hblank : c = ' ' := by simpa using hblank
      exact ⟨[c], [], by simp, by simp [hblank], by simp⟩
  · exact Trims.refl text

theorem isDigit_of_isVersionMark (c : Char) (h : isVersionMark c = true) : c.isDigit = false := by
  simp only [isVersionMark, Bool.or_eq_true, beq_iff_eq] at h
  rcases h with (((((rfl | rfl) | rfl) | rfl) | rfl) | rfl) | rfl <;> rfl

theorem trims_numberText (u : DigitClass) (version : String) :
    Trims version.toList (numberText u version) :=
  ((trims_trimSpace version.toList).trans (trims_dropQualifier u _)).trans
    (trims_dropWhile _ isDigit_of_isVersionMark)

theorem isDigit_of_isCut (c : Char) (h : isCut c = true) : c.isDigit = false := by
  simp only [isCut, Bool.or_eq_true, beq_iff_eq] at h
  rcases h with (((((rfl | rfl) | rfl) | rfl) | rfl) | rfl) | rfl <;> rfl

theorem takeWhile_append_end {p : Char → Bool} (text : List Char) {right : List Char}
    (hright : ∀ c ∈ right, p c = false) : (text ++ right).takeWhile p = text.takeWhile p := by
  induction text with
  | nil =>
    cases right with
    | nil => rfl
    | cons c right => simp [hright c]
  | cons c text ih => simp [List.takeWhile_cons, ih]

theorem digits_of_trims {text inner : List Char} (h : Trims text inner) :
    (fromDigit text).takeWhile Char.isDigit = (fromDigit inner).takeWhile Char.isDigit := by
  obtain ⟨left, right, rfl, hleft, hright⟩ := h
  have hnone : fromDigit right = [] :=
    List.dropWhile_eq_nil_iff.mpr fun c hc => by simp [hright c hc]
  rw [List.append_assoc, fromDigit, List.dropWhile_append_of_pos fun c hc => by simp [hleft c hc],
    List.dropWhile_append]
  split
  · next hempty =>
    have hinner : fromDigit inner = [] := List.isEmpty_iff.mp hempty
    rw [hinner]
    exact congrArg _ hnone
  · exact takeWhile_append_end _ hright

/-- What `MajorOf` reads is the value of the first run of digits. -/
theorem digits_of_majorOf {u : DigitClass} {version : String} {m : Nat}
    (h : majorOf u version = some m) :
    (fromDigit version.toList).takeWhile Char.isDigit ≠ [] ∧
      Nat.ofDigitChars 10 ((fromDigit version.toList).takeWhile Char.isDigit) 0 = m ∧
        m < 2 ^ 63 := by
  rw [digits_of_trims (trims_numberText u version)]
  simp only [majorOf] at h
  split at h
  · cases h
  · next hdigits =>
    have hstart : fromDigit (numberText u version) = numberText u version := by
      cases htext : numberText u version with
      | nil => rfl
      | cons c rest =>
        have hc : c.isDigit = true := by
          by_contra hc
          simp [htext, hc] at hdigits
        simp [fromDigit, hc]
    rw [hstart, Nat.ofDigitChars_eq_foldl]
    split at h
    · next hfits =>
      cases h
      exact ⟨fun hnil => hdigits (by simp [hnil]), rfl, hfits⟩
    · cases h

theorem majorOf_of_digit (u : DigitClass) {c : Char} {text : List Char} (hc : c.isDigit = true)
    (hfits : Nat.ofDigitChars 10 ((c :: text).takeWhile Char.isDigit) 0 < 2 ^ 63) :
    majorOf u (String.ofList (c :: text)) =
      some (Nat.ofDigitChars 10 ((c :: text).takeWhile Char.isDigit) 0) := by
  have htrims := trims_numberText u (String.ofList (c :: text))
  rw [String.toList_ofList] at htrims
  have hdigits := digits_of_trims htrims
  obtain ⟨left, right, heq, hleft, hright⟩ := htrims
  -- The digit is neither cut at the left nor part of what is cut at the right.
  have hnumber : ∃ rest, numberText u (String.ofList (c :: text)) = c :: rest := by
    cases left with
    | cons a left =>
      obtain ⟨rfl, -⟩ := List.cons.inj heq
      simp [hleft c] at hc
    | nil =>
      cases hinner : numberText u (String.ofList (c :: text)) with
      | nil =>
        rw [hinner, List.nil_append, List.nil_append] at heq
        simp [hright c (heq ▸ List.mem_cons_self)] at hc
      | cons b rest =>
        rw [hinner] at heq
        exact ⟨rest, by rw [(List.cons.inj heq).1]⟩
  obtain ⟨rest, hrest⟩ := hnumber
  simp only [hrest, fromDigit, List.dropWhile_cons, hc, Bool.not_true, Bool.false_eq_true,
    if_false] at hdigits
  rw [hdigits] at hfits ⊢
  simp only [majorOf, hrest, ← Nat.ofDigitChars_eq_foldl]
  rw [if_neg (by simp [hc]), if_pos hfits]

/-- What `extractMajor` takes starts at the first digit, too. -/
theorem extractMajor_eq {version : String} (hdigit : fromDigit version.toList ≠ []) :
    extractMajor version =
      String.ofList ((fromDigit version.toList).takeWhile (· ≠ '.')) := by
  have hcut : fromDigit (version.toList.dropWhile isCut) = fromDigit version.toList := by
    conv_rhs => rw [← List.takeWhile_append_dropWhile (p := isCut) (l := version.toList)]
    refine (List.dropWhile_append_of_pos fun c hc => ?_).symm
    simp [isDigit_of_isCut c (List.mem_takeWhile_imp hc)]
  have hany : (version.toList.dropWhile isCut).any Char.isDigit = true := by
    by_contra hnone
    refine hdigit (hcut ▸ List.dropWhile_eq_nil_iff.mpr fun c hc => ?_)
    simp only [List.any_eq_true, not_exists, not_and] at hnone
    simpa using hnone c hc
  simp only [extractMajor, hany, if_true, hcut]

theorem exists_digitChar {c : Char} (h : c.isDigit = true) : ∃ n < 10, c = n.digitChar := by
  simp only [Char.isDigit, Bool.and_eq_true, decide_eq_true_eq, UInt32.le_iff_toNat_le,
    ge_iff_le] at h
  have hlow : 48 ≤ c.toNat := h.1
  have hhigh : c.toNat ≤ 57 := h.2
  refine ⟨c.toNat - 48, by omega, Char.toNat_inj.mp ?_⟩
  rw [Nat.toNat_digitChar_of_lt_ten (by omega)]
  omega

/-- Digits without a leading zero are the decimal of their value. -/
theorem toDigits_ofDigitChars (digits : List Char) (hne : digits ≠ [])
    (hdigits : ∀ c ∈ digits, c.isDigit = true) (hhead : digits.head? ≠ some '0') :
    0 < Nat.ofDigitChars 10 digits 0 ∧
      Nat.toDigits 10 (Nat.ofDigitChars 10 digits 0) = digits := by
  induction digits using List.reverseRecOn with
  | nil => exact absurd rfl hne
  | append_singleton digits c ih =>
    obtain ⟨n, hn, rfl⟩ := exists_digitChar (hdigits c (by simp))
    rw [Nat.ofDigitChars_append, Nat.ofDigitChars_cons_digitChar_of_lt_ten hn,
      Nat.ofDigitChars_nil]
    cases hnil : digits with
    | nil =>
      have hpos : n ≠ 0 := fun h0 => hhead (by simp [hnil, h0])
      have hone : 10 * Nat.ofDigitChars 10 [] 0 + n = n := by simp
      rw [hone, Nat.toDigits_of_lt_base hn]
      exact ⟨by omega, rfl⟩
    | cons first rest =>
      rw [← hnil]
      have hdigits' : digits ≠ [] := by simp [hnil]
      have hrest := ih hdigits' (fun c hc => hdigits c (by simp [hc]))
        (by rwa [List.head?_append_of_ne_nil _ hdigits'] at hhead)
      refine ⟨by omega, ?_⟩
      rw [Nat.toDigits_of_base_le (by omega) (by omega)]
      rw [show (10 * Nat.ofDigitChars 10 digits 0 + n) / 10 = Nat.ofDigitChars 10 digits 0 by omega,
        show (10 * Nat.ofDigitChars 10 digits 0 + n) % 10 = n by omega, hrest.2]

theorem head_toDigits {m : Nat} (hm : 1 ≤ m) : (Nat.toDigits 10 m).head? ≠ some '0' := by
  induction m using Nat.strong_induction_on with
  | _ m ih =>
    by_cases hlt : m < 10
    · rw [Nat.toDigits_of_lt_base hlt]
      simp only [List.head?_cons, ne_eq, Option.some.injEq, Nat.digitChar_eq_zero]
      omega
    · rw [Nat.toDigits_of_base_le (by omega) (by omega),
        List.head?_append_of_ne_nil _ Nat.toDigits_ne_nil]
      exact ih (m / 10) (by omega) (by omega)

theorem takeWhile_isDigit_eq {text : List Char}
    (h : (text.takeWhile (· ≠ '.')).all Char.isDigit = true) :
    text.takeWhile (· ≠ '.') = text.takeWhile Char.isDigit := by
  induction text with
  | nil => rfl
  | cons c text ih =>
    by_cases hc : c = '.'
    · subst hc
      rfl
    · simp only [List.takeWhile_cons, ne_eq, hc, not_false_eq_true, decide_true, if_true,
        List.all_cons, Bool.and_eq_true] at h ⊢
      rw [h.1, if_pos rfl, ih h.2]

/-- The two parsers agree on the plain versions, and on no others. -/
theorem extractMajor_eq_iff {u : DigitClass} {version : String} {m : Nat}
    (hmajor : majorOf u version = some m) (hm : 1 ≤ m) :
    extractMajor version = toString m ↔ PlainMajor version := by
  obtain ⟨hne, hvalue, -⟩ := digits_of_majorOf hmajor
  have hdigit : fromDigit version.toList ≠ [] := fun hnil => hne (by simp [hnil])
  rw [extractMajor_eq hdigit, Nat.toString_eq_ofList_toDigits, String.ofList_inj]
  constructor
  · intro heq
    refine ⟨?_, ?_⟩
    · rw [heq, List.all_eq_true]
      exact fun c hc => Nat.isDigit_of_mem_toDigits (by omega) (by omega) hc
    · rw [heq]
      exact head_toDigits hm
  · rintro ⟨hall, hhead⟩
    have hsame := takeWhile_isDigit_eq hall
    rw [hsame] at hhead ⊢
    rw [← hvalue]
    exact (toDigits_ofDigitChars _ hne (fun c hc => List.mem_takeWhile_imp hc) hhead).2.symm

theorem majorOf_toString (u : DigitClass) {m : Nat} (hm : m < 2 ^ 63) :
    majorOf u (toString m) = some m := by
  have hdigits : ∀ c ∈ Nat.toDigits 10 m, c.isDigit = true :=
    fun c hc => Nat.isDigit_of_mem_toDigits (by omega) (by omega) hc
  have hvalue : Nat.ofDigitChars 10 ((Nat.toDigits 10 m).takeWhile Char.isDigit) 0 = m := by
    rw [List.takeWhile_eq_self_iff.mpr hdigits, Nat.ofDigitChars_ten_toDigits]
  rw [Nat.toString_eq_ofList_toDigits]
  cases htext : Nat.toDigits 10 m with
  | nil => exact absurd htext Nat.toDigits_ne_nil
  | cons c text =>
    rw [htext] at hvalue hdigits
    rw [majorOf_of_digit _ (hdigits c (by simp)) (hvalue.symm ▸ hm), hvalue]

/-- A version that `MajorOf` reads as a major, and what `extractMajor` makes of it, read
alike. -/
theorem majorOf_extractMajor {u : DigitClass} {version : String} {m : Nat}
    (h : majorOf u version = some m) : majorOf u (extractMajor version) = some m := by
  obtain ⟨hne, hvalue, hfits⟩ := digits_of_majorOf h
  rw [extractMajor_eq fun hnil => hne (by simp [hnil])]
  cases htext : fromDigit version.toList with
  | nil => simp [htext] at hne
  | cons c text =>
    rw [htext] at hne hvalue
    have hc : c.isDigit = true := by
      by_contra hc
      simp [hc] at hne
    have hdot : ∀ b : Char, b.isDigit = true → b ≠ '.' := by
      rintro b hb rfl
      cases hb
    have hdigits : ((c :: text).takeWhile (· ≠ '.')).takeWhile Char.isDigit =
        (c :: text).takeWhile Char.isDigit := by
      rw [List.takeWhile_takeWhile]
      congr 1
      funext b
      simpa using hdot b
    rw [← hdigits] at hvalue
    rw [List.takeWhile_cons, if_pos (by simpa using hdot c hc)] at hvalue ⊢
    rw [majorOf_of_digit u hc (hvalue.symm ▸ hfits), hvalue]

/-! ## Drift after an import -/

section Drift

variable {d : ServiceDeps} {docs : DocsProvider} {skills : List SkillRow}
  {fw version detected : String} {m : Nat} {c : ImportCall} {id : SkillID} {now : Time}
  {s row : SkillRow}

theorem runImport_eq_some (h : runImport d docs fw version = some c) :
    c.name = skillName (d.toLower fw) (extractMajor version) ∧ c.version = version ∧
      c.fw = d.toLower fw := by
  simp only [runImport, Option.bind_eq_bind, Option.bind_eq_some_iff, Option.pure_def,
    Option.some.injEq] at h
  obtain ⟨entries, -, selectedID, -, result, -, rfl⟩ := h
  exact ⟨rfl, rfl, rfl⟩

theorem importFromDocs_eq_ok (h : importFromDocs d id now c = .ok s) :
    (s.name = c.name ∧ s.content = d.buildBody c now) ∧ s.appliesWhen = {
      framework := [d.toLower c.fw]
      frameworkMinVersion := [(d.toLower c.fw, extractMajor c.version)] } := by
  simp only [importFromDocs, Skills.new, bind_eq_ok_iff, pure, Except.pure, Except.ok.injEq] at h
  obtain ⟨phases, -, -, -, -, -, rfl⟩ := h
  exact ⟨⟨rfl, rfl⟩, rfl⟩

/-- What an import leaves in the skill, also when it is active later: the name, and the
baseline under which it is found. -/
theorem imported_skill (himport : runImport d docs fw version = some c)
    (hskill : importFromDocs d id now c = .ok s) (hname : row.name = s.name)
    (hconditions : row.appliesWhen = s.appliesWhen) :
    row.name = skillName (d.toLower fw) (extractMajor version) ∧
      row.appliesWhen.frameworkMinVersion = [(d.toLower fw, extractMajor version)] := by
  obtain ⟨hcall, hversion, hfw⟩ := runImport_eq_some himport
  obtain ⟨⟨hcallName, -⟩, hmade⟩ := importFromDocs_eq_ok hskill
  rw [hfw, hversion, d.toLower_toLower] at hmade
  exact ⟨hname.trans (hcallName.trans hcall), by rw [hconditions, hmade]⟩

/-- **Minimum versions of imported skills.**  Whatever `MajorOf` reads from a version it reads
from what `extractMajor` makes of it, so that the version gate of the matcher lets an imported
skill pass for the version that it was imported for. -/
theorem importedMinVersion_admits (u : DigitClass) (version : String) :
    (∀ m, majorOf u version = some m → majorOf u (extractMajor version) = some m) ∧
      ∀ (text : Text) (d : ServiceDeps) (id : SkillID) (now : Time) (c : ImportCall)
        (s : SkillRow) (detected : List FrameworkInfo), importFromDocs d id now c = .ok s →
        c.version = version → ∀ fw ∈ detected, fw.version = version →
        text.equalFold (d.toLower c.fw) fw.name = true →
        anyFrameworkMatches text s.appliesWhen detected = true := by
  refine ⟨fun m => majorOf_extractMajor, ?_⟩
  rintro text d id now c s detected hskill rfl fw hfw hversion hname
  have hgate : versionPasses text s.appliesWhen fw = true := by
    rw [versionPasses, (importFromDocs_eq_ok hskill).2, hversion, List.lookup_cons]
    cases text.toLower fw.name == d.toLower c.fw with
    | false => rfl
    | true =>
      cases hmajor : majorOf text.digits c.version with
      | none => rfl
      | some m => simp only [majorOf_extractMajor hmajor, le_refl, decide_true]
  simp only [anyFrameworkMatches, (importFromDocs_eq_ok hskill).2, List.any_eq_true,
    Bool.and_eq_true]
  rw [(importFromDocs_eq_ok hskill).2] at hgate
  exact ⟨_, List.mem_singleton_self _, fw, hfw, hname, hgate⟩

theorem skillName_inj {fwLower major major' : String} :
    skillName fwLower major = skillName fwLower major' ↔ major = major' := by
  simp [skillName, String.append_right_inj]

/-- An active skill that was imported for a version of major `m` is found by the name of
that major exactly if the version is a plain one. -/
theorem found_iff_plainMajor (hmajor : majorOf d.digits version = some m) (hm : 1 ≤ m)
    (himport : runImport d docs fw version = some c) (hskill : importFromDocs d id now c = .ok s)
    (hrow : row ∈ skills) (hactive : row.status = .active) (hname : row.name = s.name)
    (hconditions : row.appliesWhen = s.appliesWhen) :
    row ∈ activeByName skills (skillName (d.toLower fw) (toString m)) ↔ PlainMajor version := by
  obtain ⟨hrowName, -⟩ := imported_skill himport hskill hname hconditions
  rw [activeByName, List.mem_filter, ← extractMajor_eq_iff hmajor hm]
  simp [hrow, hactive, hrowName, skillName_inj]

/-- The baseline that the check for a version after major `m` compares with. -/
def firstBaseline (d : ServiceDeps) (skills : List SkillRow) (fw : String) (m : Nat) :
    Option String :=
  (activeByName skills (skillName (d.toLower fw) (toString m))).findSome?
    (baseline d.digits (d.toLower fw))

theorem exists_majorOf_baseline {u : DigitClass} {fwLower minVersion : String}
    (h : baseline u fwLower row = some minVersion) : ∃ k, majorOf u minVersion = some k := by
  simp only [baseline, Option.bind_eq_bind, Option.bind_eq_some_iff] at h
  obtain ⟨text, -, htext⟩ := h
  split at htext
  · cases htext
  · next hparses =>
    cases htext
    exact Option.ne_none_iff_exists'.mp fun hnone => hparses (.inr hnone)

/-- The check imports exactly if the first baseline that it meets is at most the major before. -/
theorem runDriftCheck_eq_some_iff (hm : 1 ≤ m)
    (hdetected : majorOf d.digits detected = some (m + 1))
    {call : ImportCall} (hdocs : runImport d docs fw detected = some call) :
    runDriftCheck d docs skills fw detected = some call ↔
      ∃ first k, firstBaseline d skills fw m = some first ∧ majorOf d.digits first = some k ∧
        k ≤ m := by
  have hlater : ¬ m + 1 ≤ 1 := by omega
  have hcheck : runDriftCheck d docs skills fw detected = (firstBaseline d skills fw m).bind
      fun minVersion => if driftsForward d.digits detected minVersion then
        runImport d docs fw detected else none := by
    simp [runDriftCheck, hdetected, hlater, firstBaseline, -Nat.toString_eq_repr]
  rw [hcheck]
  cases hfirst : firstBaseline d skills fw m with
  | none => simp
  | some first =>
    obtain ⟨other, -, hbaseline⟩ := List.exists_of_findSome?_eq_some hfirst
    obtain ⟨k, hk⟩ := exists_majorOf_baseline hbaseline
    simp [driftsForward, hdetected, hk, hdocs, Nat.lt_succ_iff]

/-- **Drift after an import.**  A skill was imported for a version of major `m` and is active.
A drift check with a version of major `m + 1`, when the documentation is there, finds the skill by
its name and calls the importer for the new version exactly if the imported version is plain, and
the first baseline among the active skills of that name is at most `m`. -/
theorem runDriftCheck_imports_iff {docs₀ : DocsProvider} {entries : List LibraryEntry}
    {selectedID : String} {result : DocsResult} (hmajor : majorOf d.digits version = some m)
    (hm : 1 ≤ m) (himport : runImport d docs₀ fw version = some c)
    (hskill : importFromDocs d id now c = .ok s) (hrow : row ∈ skills)
    (hactive : row.status = .active) (hname : row.name = s.name)
    (hconditions : row.appliesWhen = s.appliesWhen)
    (hdetected : majorOf d.digits detected = some (m + 1))
    (hentries : docs.resolveLibrary (d.toLower fw) = some entries)
    (hselected : selectEntry d.minSnippets entries = some selectedID)
    (hresult : docs.getDocs selectedID = some result) :
    (row ∈ activeByName skills (skillName (d.toLower fw) (toString m)) ∧
      runDriftCheck d docs skills fw detected = some {
        name := skillName (d.toLower fw) (extractMajor detected)
        version := detected
        fw := d.toLower fw
        docs := result }) ↔
      PlainMajor version ∧ ∀ first k, firstBaseline d skills fw m = some first →
        majorOf d.digits first = some k → k ≤ m := by
  have hdocs : runImport d docs fw detected = some {
      name := skillName (d.toLower fw) (extractMajor detected)
      version := detected
      fw := d.toLower fw
      docs := result } := by
    rw [runImport, hentries]
    simp [hselected, hresult]
  rw [found_iff_plainMajor hmajor hm himport hskill hrow hactive hname hconditions,
    runDriftCheck_eq_some_iff hm hdetected hdocs]
  refine and_congr_right fun hplain => ⟨?_, fun hfirst => ?_⟩
  · rintro ⟨first, k, hfirst, hk, hle⟩ first' k' hfirst' hk'
    obtain rfl : first = first' := Option.some.inj (hfirst.symm.trans hfirst')
    obtain rfl : k = k' := Option.some.inj (hk.symm.trans hk')
    exact hle
  · -- The imported skill is among those that are looked up, and it has a baseline.
    have hfound := (found_iff_plainMajor hmajor hm himport hskill hrow hactive hname
      hconditions).mpr hplain
    obtain ⟨-, hmin⟩ := imported_skill himport hskill hname hconditions
    rw [(extractMajor_eq_iff hmajor hm).mpr hplain] at hmin
    have hreads := majorOf_toString d.digits (digits_of_majorOf hmajor).2.2
    have hbaseline : baseline d.digits (d.toLower fw) row = some (toString m) := by
      have hnonempty : toString m ≠ "" := by
        intro hempty
        rw [hempty] at hreads
        cases hreads
      simp [baseline, hmin, hreads, hnonempty, -Nat.toString_eq_repr]
    have hsome : (firstBaseline d skills fw m).isSome := by
      rw [firstBaseline, List.findSome?_isSome_iff]
      exact ⟨row, hfound, by simp [hbaseline]⟩
    obtain ⟨first, hmet⟩ := Option.isSome_iff_exists.mp hsome
    obtain ⟨other, -, hother⟩ := List.exists_of_findSome?_eq_some hmet
    obtain ⟨k, hk⟩ := exists_majorOf_baseline hother
    exact ⟨first, k, hmet, hk, hfirst first k hmet hk⟩

end Drift

def lowerDeps : ServiceDeps where
  toLower text := text
  toLower_toLower _ := rfl
  digits := decimalDigits
  buildBody c _ := c.docs.body

def reactDocs : DocsProvider where
  resolveLibrary _ := some [⟨"/facebook/react", 900, 9, true⟩]
  getDocs libraryID := some ⟨libraryID, 900, 9, "Keep components pure."⟩

def reactCall (name version : String) : ImportCall where
  name := name
  version := version
  fw := "react"
  docs := ⟨"/facebook/react", 900, 9, "Keep components pure."⟩

def reactSkill (status : Status) (name version major : String) : SkillRow where
  id := ⟨1⟩
  name := name
  phases := [.explore, .proposal, .apply]
  content := "Keep components pure."
  techniques := [.inlineWhy]
  status := status
  version := version
  scope := {}
  appliesWhen := { framework := ["react"], frameworkMinVersion := [("react", major)] }
  riskLevel := .medium
  activationSource := .imported
  metrics := {}
  lastUsedAt := none
  lastValidatedAt := none
  createdAt := 0
  updatedAt := 0

/-- Two active skills of one name, of which only the first has the baseline of its name. -/
def reactSkills : List SkillRow :=
  [reactSkill .active "stack/react-18" "18.2.0" "18",
    reactSkill .active "stack/react-18" "25.0.0" "25"]

/-- The skill of 18.2.0 is found when the project moves to 19.0.0. -/
theorem runDriftCheck_react :
    runDriftCheck lowerDeps reactDocs reactSkills "react" "19.0.0" =
      some (reactCall "stack/react-19" "19.0.0") := by
  have hskill : importFromDocs lowerDeps ⟨1⟩ 0 (reactCall "stack/react-18" "18.2.0") =
      .ok (reactSkill .candidate "stack/react-18" "18.2.0" "18") := by decide +kernel
  have himport : runImport lowerDeps reactDocs "react" "18.2.0" =
      some (reactCall "stack/react-18" "18.2.0") := by decide +kernel
  have hmajor : majorOf decimalDigits "18.2.0" = some 18 := by decide
  have hdetected : majorOf decimalDigits "19.0.0" = some (18 + 1) := by decide
  have hrow : reactSkill .active "stack/react-18" "18.2.0" "18" ∈ reactSkills :=
    List.mem_cons_self
  have hselected : selectEntry lowerDeps.minSnippets [⟨"/facebook/react", 900, 9, true⟩] =
      some "/facebook/react" := by decide +kernel
  have hmet : firstBaseline lowerDeps reactSkills "react" 18 = some "18" := by decide +kernel
  have hread : majorOf decimalDigits "18" = some 18 := by decide
  have hcondition : ∀ first k, firstBaseline lowerDeps reactSkills "react" 18 = some first →
      majorOf decimalDigits first = some k → k ≤ 18 := by
    intro first k hfirst hk
    obtain rfl : "18" = first := Option.some.inj (hmet.symm.trans hfirst)
    exact (Option.some.inj (hread.symm.trans hk)).ge
  have hentries : reactDocs.resolveLibrary "react" = some [⟨"/facebook/react", 900, 9, true⟩] := rfl
  have himports := (runDriftCheck_imports_iff (d := lowerDeps) hmajor (by decide) himport hskill
    hrow rfl rfl rfl hdetected hentries hselected rfl).mpr ⟨by decide, hcondition⟩
  exact himports.2.trans (by decide +kernel)

/-- A skill that was imported for a range of two majors is named after the whole rest of
the range, and the check for the next major does not find it. -/
theorem drift_missed :
    majorOf decimalDigits "^18 || ^20" = some 18 ∧
      majorOf decimalDigits "19.0.0" = some 19 ∧
      runImport lowerDeps reactDocs "react" "^18 || ^20" =
        some (reactCall "stack/react-18 || ^20" "^18 || ^20") ∧
      importFromDocs lowerDeps ⟨1⟩ 0 (reactCall "stack/react-18 || ^20" "^18 || ^20") =
        .ok (reactSkill .candidate "stack/react-18 || ^20" "^18 || ^20" "18 || ^20") ∧
      runDriftCheck lowerDeps reactDocs
        [reactSkill .active "stack/react-18 || ^20" "^18 || ^20" "18 || ^20"]
        "react" "19.0.0" = none ∧
      (runImport lowerDeps reactDocs "react" "19.0.0").isSome = true := by
  refine ⟨by decide, by decide, ?_, ?_, ?_, ?_⟩ <;> decide +kernel

end SophiaOrchestrator.Bootstrap
