import Mathlib.Data.List.TakeWhile

/-!
# Texts as `strings` and `unicode` see them

A text is the list of its characters.  The space characters are those of `unicode.IsSpace`.  The
digits of other scripts are left open: a `DigitClass` has the ten decimal digits and perhaps more.
-/

namespace Strings

/-! ## Surrounding spaces -/

/-- `unicode.IsSpace`. -/
def isSpace (c : Char) : Bool :=
  decide (9 ≤ c.toNat ∧ c.toNat ≤ 13) || decide (0x2000 ≤ c.toNat ∧ c.toNat ≤ 0x200A) ||
    [0x20, 0x85, 0xA0, 0x1680, 0x2028, 0x2029, 0x202F, 0x205F, 0x3000].contains c.toNat

/-- `strings.TrimSpace`. -/
def trimSpace (text : List Char) : List Char :=
  ((text.dropWhile isSpace).reverse.dropWhile isSpace).reverse

theorem head_dropWhile (p : Char → Bool) (text : List Char) :
    (text.dropWhile p).head?.any p = false := by
  induction text with
  | nil => rfl
  | cons c text ih =>
    rw [List.dropWhile_cons]
    split
    · exact ih
    · next hc => simpa using hc

theorem getLast_trimSpace (text : List Char) : (trimSpace text).getLast?.any isSpace = false := by
  have hlast := head_dropWhile isSpace (text.dropWhile isSpace).reverse
  simpa [trimSpace] using hlast

theorem head_trimSpace (text : List Char) : (trimSpace text).head?.any isSpace = false := by
  -- What is dropped at the end leaves an initial part, which starts as before.
  have hfirst := head_dropWhile isSpace text
  obtain ⟨tail, htail⟩ := List.dropWhile_suffix isSpace (l := (text.dropWhile isSpace).reverse)
  have hparts := congrArg List.reverse htail
  rw [List.reverse_append, List.reverse_reverse] at hparts
  rw [trimSpace]
  cases hleft : ((text.dropWhile isSpace).reverse.dropWhile isSpace).reverse with
  | nil => rfl
  | cons c left =>
    rw [← hparts, hleft] at hfirst
    simpa using hfirst

theorem trimSpace_eq_self {text : List Char} (hhead : text.head?.any isSpace = false)
    (hlast : text.getLast?.any isSpace = false) : trimSpace text = text := by
  have hdrop : ∀ {text : List Char}, text.head?.any isSpace = false →
      text.dropWhile isSpace = text := by
    intro text hhead
    cases text with
    | nil => rfl
    | cons c text => exact List.dropWhile_cons_of_neg (by simpa using hhead)
  rw [trimSpace, hdrop hhead, hdrop (by simpa using hlast), List.reverse_reverse]

theorem trimSpace_cons_ne_nil {c : Char} (text : List Char) (hc : isSpace c = false) :
    trimSpace (c :: text) ≠ [] := by
  rw [trimSpace, List.dropWhile_cons_of_neg (by simp [hc]), ne_eq, List.reverse_eq_nil_iff]
  intro hnil
  have hspace := List.dropWhile_eq_nil_iff.mp hnil c (by simp)
  rw [hc] at hspace
  cases hspace

/-! ## Digits -/

/-- What `unicode.IsDigit` may be. -/
structure DigitClass where
  isDigit : Char → Bool
  isDigit_of_decimal : ∀ c, c.isDigit = true → isDigit c = true

def decimalDigits : DigitClass :=
  ⟨Char.isDigit, fun _ h => h⟩

theorem isDigit_eq_false_of_isSpace (c : Char) (h : isSpace c = true) : c.isDigit = false := by
  by_contra hdigit
  simp only [Char.isDigit, Bool.not_eq_false, Bool.and_eq_true, decide_eq_true_eq,
    UInt32.le_iff_toNat_le, ge_iff_le] at hdigit
  have hlow : 48 ≤ c.toNat := hdigit.1
  have hhigh : c.toNat ≤ 57 := hdigit.2
  simp only [isSpace, Bool.or_eq_true, decide_eq_true_eq, List.contains_eq_mem, List.mem_cons,
    List.not_mem_nil, or_false] at h
  omega

end Strings
