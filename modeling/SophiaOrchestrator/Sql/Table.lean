import Mathlib.Data.List.Nodup
import Mathlib.Data.List.Sort

/-!
# Tables with two unique keys

A table is a list of rows on which two keys are unique.  The first one, the
*target*, is the key that an `INSERT ... ON CONFLICT (target) DO UPDATE` names;
the *other* key is a uniqueness constraint the statement does not name.  The
standard semantics of the statement is:

* a row with the same target key exists: that row is updated in place, and the
  other key of the proposed row is never looked at;
* no such row exists but the other key is taken: unique violation, no effect;
* both keys are free: the proposed row is inserted.

A statement whose update also sets the other key (`replace`) fails instead when
the other key is taken by a row with another target key.

A table with a single key uses it in both places.
-/

namespace Sql

variable {α : Type} {r r' row : α} {le : α → α → Prop} {rows : List α}

/-- Rows on which both keys are unique. -/
structure Table {α κ ι : Type} (target : α → κ) (other : α → ι) where
  rows : List α
  target_nodup : (rows.map target).Nodup
  other_nodup : (rows.map other).Nodup

namespace Table

variable {κ ι : Type} {target : α → κ} {other : α → ι}

def empty : Table target other :=
  ⟨[], List.nodup_nil, List.nodup_nil⟩

@[simp] theorem empty_rows : (empty : Table target other).rows = [] := rfl

theorem eq_of_target_eq (t : Table target other) (h : r ∈ t.rows) (h' : r' ∈ t.rows)
    (heq : target r = target r') : r = r' :=
  List.inj_on_of_nodup_map t.target_nodup h h' heq

theorem eq_of_other_eq (t : Table target other) (h : r ∈ t.rows) (h' : r' ∈ t.rows)
    (heq : other r = other r') : r = r' :=
  List.inj_on_of_nodup_map t.other_nodup h h' heq

/-! ## Lookups -/

theorem find?_key_eq_some_iff {κ : Type} [DecidableEq κ] {key : α → κ}
    (hnodup : (rows.map key).Nodup) (k : κ) (r : α) :
    (rows.find? fun r => decide (key r = k)) = some r ↔ r ∈ rows ∧ key r = k := by
  constructor
  · intro h
    exact ⟨List.mem_of_find?_eq_some h, by simpa using List.find?_some h⟩
  · rintro ⟨hmem, rfl⟩
    cases hfind : rows.find? fun r' => decide (key r' = key r) with
    | none =>
      have hnone := List.find?_eq_none.mp hfind r hmem
      simp at hnone
    | some r' =>
      have hr' : key r' = key r := by simpa using List.find?_some hfind
      rw [List.inj_on_of_nodup_map hnodup (List.mem_of_find?_eq_some hfind) hmem hr']

def findTarget [DecidableEq κ] (t : Table target other) (key : κ) : Option α :=
  t.rows.find? fun r => decide (target r = key)

def findOther [DecidableEq ι] (t : Table target other) (key : ι) : Option α :=
  t.rows.find? fun r => decide (other r = key)

theorem findTarget_eq_some_iff [DecidableEq κ] (t : Table target other) (key : κ)
    (r : α) : t.findTarget key = some r ↔ r ∈ t.rows ∧ target r = key :=
  find?_key_eq_some_iff t.target_nodup key r

theorem findOther_eq_some_iff [DecidableEq ι] (t : Table target other) (key : ι)
    (r : α) : t.findOther key = some r ↔ r ∈ t.rows ∧ other r = key :=
  find?_key_eq_some_iff t.other_nodup key r

/-! ## Updates -/

/-- `UPDATE`: rewrite every row by a function that keeps both keys. -/
def mapRows (t : Table target other) (f : α → α)
    (htarget : ∀ r, target (f r) = target r) (hother : ∀ r, other (f r) = other r) :
    Table target other where
  rows := t.rows.map f
  target_nodup := by
    rw [List.map_map, show target ∘ f = target from funext htarget]
    exact t.target_nodup
  other_nodup := by
    rw [List.map_map, show other ∘ f = other from funext hother]
    exact t.other_nodup

@[simp] theorem mapRows_rows (t : Table target other) (f : α → α)
    (htarget : ∀ r, target (f r) = target r) (hother : ∀ r, other (f r) = other r) :
    (t.mapRows f htarget hother).rows = t.rows.map f := rfl

theorem nodup_map_append {κ : Type} {key : α → κ} (hnodup : (rows.map key).Nodup)
    (hfree : ∀ r ∈ rows, key r ≠ key row) : ((rows ++ [row]).map key).Nodup := by
  rw [List.map_append]
  refine List.nodup_append.mpr ⟨hnodup, List.nodup_singleton _, ?_⟩
  intro k hk k' hk' heq
  obtain ⟨r, hr, rfl⟩ := List.mem_map.mp hk
  exact hfree r hr (heq.trans (by simpa using hk'))

def append (t : Table target other) (row : α)
    (htarget : ∀ r ∈ t.rows, target r ≠ target row)
    (hother : ∀ r ∈ t.rows, other r ≠ other row) : Table target other where
  rows := t.rows ++ [row]
  target_nodup := nodup_map_append t.target_nodup htarget
  other_nodup := nodup_map_append t.other_nodup hother

/-- How a conflicting row is updated: `apply old proposed` takes some columns
from the proposed row and keeps both keys of the old one. -/
structure ConflictUpdate (target : α → κ) (other : α → ι) where
  apply : α → α → α
  target_apply : ∀ old proposed, target (apply old proposed) = target old
  other_apply : ∀ old proposed, other (apply old proposed) = other old

def ConflictUpdate.onRow [DecidableEq κ] (upd : ConflictUpdate target other)
    (proposed r : α) : α :=
  if target r = target proposed then upd.apply r proposed else r

theorem ConflictUpdate.target_onRow [DecidableEq κ]
    (upd : ConflictUpdate target other) (proposed r : α) :
    target (upd.onRow proposed r) = target r := by
  unfold ConflictUpdate.onRow
  split
  · exact upd.target_apply r proposed
  · rfl

theorem ConflictUpdate.other_onRow [DecidableEq κ]
    (upd : ConflictUpdate target other) (proposed r : α) :
    other (upd.onRow proposed r) = other r := by
  unfold ConflictUpdate.onRow
  split
  · exact upd.other_apply r proposed
  · rfl

/-- `INSERT ... ON CONFLICT (target) DO UPDATE`; `none` is a violation of the
other key. -/
def upsert [DecidableEq κ] [DecidableEq ι] (t : Table target other)
    (upd : ConflictUpdate target other) (row : α) : Option (Table target other) :=
  if htarget : ∀ r ∈ t.rows, target r ≠ target row then
    if hother : ∀ r ∈ t.rows, other r ≠ other row then
      some (t.append row htarget hother)
    else
      none
  else
    some (t.mapRows (upd.onRow row) (upd.target_onRow row) (upd.other_onRow row))

/-- How a conflicting row is replaced: `apply old proposed` takes both keys from the
proposed row, so that the statement also sets the other key. -/
structure Replacement (target : α → κ) (other : α → ι) where
  apply : α → α → α
  target_apply : ∀ old proposed, target (apply old proposed) = target proposed
  other_apply : ∀ old proposed, other (apply old proposed) = other proposed

def Replacement.onRow [DecidableEq κ] (upd : Replacement target other) (proposed r : α) : α :=
  if target r = target proposed then upd.apply r proposed else r

theorem Replacement.target_onRow [DecidableEq κ] (upd : Replacement target other)
    (proposed r : α) : target (upd.onRow proposed r) = target r := by
  unfold Replacement.onRow
  split
  · next heq => rw [upd.target_apply, heq]
  · rfl

theorem Replacement.other_nodup [DecidableEq κ] (upd : Replacement target other)
    (t : Table target other) (hfree : ∀ r ∈ t.rows, target r ≠ target row → other r ≠ other row) :
    ((t.rows.map (upd.onRow row)).map other).Nodup := by
  rw [List.map_map]
  refine List.Nodup.map_on ?_ (List.Nodup.of_map target t.target_nodup)
  intro r hr r' hr' heq
  simp only [Function.comp_apply, Replacement.onRow] at heq
  split_ifs at heq with htarget htarget' htarget'
  · exact t.eq_of_target_eq hr hr' (htarget.trans htarget'.symm)
  · rw [upd.other_apply] at heq
    exact absurd heq.symm (hfree r' hr' htarget')
  · rw [upd.other_apply] at heq
    exact absurd heq (hfree r hr htarget)
  · exact t.eq_of_other_eq hr hr' heq

/-- `INSERT ... ON CONFLICT (target) DO UPDATE` that sets both keys; `none` is a
violation of the other key by a row with another target key. -/
def replace [DecidableEq κ] [DecidableEq ι] (t : Table target other)
    (upd : Replacement target other) (row : α) : Option (Table target other) :=
  if hfree : ∀ r ∈ t.rows, target r ≠ target row → other r ≠ other row then
    if htarget : ∀ r ∈ t.rows, target r ≠ target row then
      some (t.append row htarget fun r hr => hfree r hr (htarget r hr))
    else
      some
        { rows := t.rows.map (upd.onRow row)
          target_nodup := by
            rw [List.map_map, show target ∘ upd.onRow row = target from
              funext (upd.target_onRow row)]
            exact t.target_nodup
          other_nodup := upd.other_nodup t hfree }
  else
    none

def insert [DecidableEq κ] [DecidableEq ι] (t : Table target other) (row : α) :
    Option (Table target other) :=
  if htarget : ∀ r ∈ t.rows, target r ≠ target row then
    if hother : ∀ r ∈ t.rows, other r ≠ other row then
      some (t.append row htarget hother)
    else
      none
  else
    none

theorem insert_eq_some_iff [DecidableEq κ] [DecidableEq ι]
    (t t' : Table target other) (row : α) :
    t.insert row = some t' ↔
      (∀ r ∈ t.rows, target r ≠ target row) ∧ (∀ r ∈ t.rows, other r ≠ other row) ∧
        t'.rows = t.rows ++ [row] := by
  have hext : ∀ a b : Table target other, a.rows = b.rows → a = b := by
    rintro ⟨_, _, _⟩ ⟨_, _, _⟩ rfl
    rfl
  unfold insert
  split
  · next htarget =>
    split
    · next hother =>
      constructor
      · intro h
        cases h
        exact ⟨htarget, hother, rfl⟩
      · rintro ⟨-, -, hrows⟩
        exact congrArg some (hext _ _ hrows.symm)
    · next hother =>
      simp only [reduceCtorEq, false_iff]
      exact fun h => hother h.2.1
  · next htarget =>
    simp only [reduceCtorEq, false_iff]
    exact fun h => htarget h.1

theorem upsert_cases [DecidableEq κ] [DecidableEq ι] (t : Table target other)
    (upd : ConflictUpdate target other) (row : α) :
    ((∃ r ∈ t.rows, target r = target row) ∧
      ∃ t', t.upsert upd row = some t' ∧ t'.rows = t.rows.map (upd.onRow row)) ∨
    ((∀ r ∈ t.rows, target r ≠ target row) ∧ (∃ r ∈ t.rows, other r = other row) ∧
      t.upsert upd row = none) ∨
    ((∀ r ∈ t.rows, target r ≠ target row) ∧ (∀ r ∈ t.rows, other r ≠ other row) ∧
      ∃ t', t.upsert upd row = some t' ∧ t'.rows = t.rows ++ [row]) := by
  unfold upsert
  split
  · next htarget =>
    split
    · next hother => exact .inr (.inr ⟨htarget, hother, _, rfl, rfl⟩)
    · next hother =>
      push Not at hother
      exact .inr (.inl ⟨htarget, hother, rfl⟩)
  · next htarget =>
    push Not at htarget
    exact .inl ⟨htarget, _, rfl, rfl⟩

section Upserted

variable [DecidableEq κ] [DecidableEq ι] {t t' : Table target other}
  {upd : ConflictUpdate target other}

theorem rows_of_upsert (h : t.upsert upd row = some t') :
    ((∃ r ∈ t.rows, target r = target row) ∧ t'.rows = t.rows.map (upd.onRow row)) ∨
      ((∀ r ∈ t.rows, target r ≠ target row) ∧ (∀ r ∈ t.rows, other r ≠ other row) ∧
        t'.rows = t.rows ++ [row]) := by
  rcases t.upsert_cases upd row with
    ⟨hkey, t₁, h₁, hrows⟩ | ⟨-, -, hnone⟩ | ⟨htarget, hother, t₁, h₁, hrows⟩
  · obtain rfl : t₁ = t' := Option.some.inj (h₁.symm.trans h)
    exact .inl ⟨hkey, hrows⟩
  · cases hnone.symm.trans h
  · obtain rfl : t₁ = t' := Option.some.inj (h₁.symm.trans h)
    exact .inr ⟨htarget, hother, hrows⟩

/-- A row after an upsert is an old row, possibly updated, or the new row. -/
theorem mem_of_upsert (h : t.upsert upd row = some t') (hr : r ∈ t'.rows) :
    (∃ r₀ ∈ t.rows, r = upd.onRow row r₀) ∨
      (r = row ∧ ∀ r₀ ∈ t.rows, other r₀ ≠ other row) := by
  rcases rows_of_upsert h with ⟨-, hrows⟩ | ⟨htarget, hother, hrows⟩
  · rw [hrows] at hr
    obtain ⟨r₀, hr₀, rfl⟩ := List.mem_map.mp hr
    exact .inl ⟨r₀, hr₀, rfl⟩
  · rw [hrows] at hr
    rcases List.mem_append.mp hr with hold | hnew
    · refine .inl ⟨r, hold, ?_⟩
      exact (if_neg (htarget r hold)).symm
    · exact .inr ⟨List.mem_singleton.mp hnew, hother⟩

theorem mem_upsert_of_mem (h : t.upsert upd row = some t') (hr : r ∈ t.rows) :
    upd.onRow row r ∈ t'.rows := by
  rcases rows_of_upsert h with ⟨-, hrows⟩ | ⟨htarget, -, hrows⟩
  · rw [hrows]
    exact List.mem_map_of_mem hr
  · rw [hrows]
    refine List.mem_append_left _ ?_
    rwa [ConflictUpdate.onRow, if_neg (htarget r hr)]

theorem findTarget_of_upsert (h : t.upsert upd row = some t') :
    ∃ r, t'.findTarget (target row) = some r ∧ (r = row ∨ ∃ old, r = upd.apply old row) := by
  rcases rows_of_upsert h with ⟨⟨old, hold, hkey⟩, -⟩ | ⟨-, -, hrows⟩
  · refine ⟨upd.onRow row old, ?_, .inr ⟨old, ?_⟩⟩
    · rw [findTarget_eq_some_iff]
      exact ⟨mem_upsert_of_mem h hold, (upd.target_onRow row old).trans hkey⟩
    · rw [ConflictUpdate.onRow, if_pos hkey]
  · refine ⟨row, ?_, .inl rfl⟩
    rw [findTarget_eq_some_iff, hrows]
    exact ⟨List.mem_append_right _ List.mem_cons_self, rfl⟩

end Upserted

theorem replace_cases [DecidableEq κ] [DecidableEq ι] (t : Table target other)
    (upd : Replacement target other) (row : α) :
    ((∃ r ∈ t.rows, target r ≠ target row ∧ other r = other row) ∧ t.replace upd row = none) ∨
    ((∀ r ∈ t.rows, target r ≠ target row → other r ≠ other row) ∧
      ∃ t', t.replace upd row = some t' ∧
        (((∀ r ∈ t.rows, target r ≠ target row) ∧ t'.rows = t.rows ++ [row]) ∨
          ((∃ r ∈ t.rows, target r = target row) ∧
            t'.rows = t.rows.map (upd.onRow row)))) := by
  unfold replace
  split
  · next hfree =>
    refine .inr ⟨hfree, ?_⟩
    split
    · next htarget => exact ⟨_, rfl, .inl ⟨htarget, rfl⟩⟩
    · next htarget =>
      push Not at htarget
      exact ⟨_, rfl, .inr ⟨htarget, rfl⟩⟩
  · next hfree =>
    push Not at hfree
    exact .inl ⟨hfree, rfl⟩

end Table

/-! ## Queries -/

def orderLimit {α : Type} (le : α → α → Prop) [DecidableRel le] (n : Nat) (rows : List α) :
    List α :=
  (rows.insertionSort le).take n

theorem mem_of_mem_orderLimit [DecidableRel le] {n : Nat} (h : r ∈ orderLimit le n rows) :
    r ∈ rows :=
  (List.mem_insertionSort le).mp (List.mem_of_mem_take h)

theorem nodup_map_orderLimit [DecidableRel le] {κ : Type} {key : α → κ}
    (hnodup : (rows.map key).Nodup) (n : Nat) : ((orderLimit le n rows).map key).Nodup := by
  have hsorted : ((rows.insertionSort le).map key).Nodup :=
    ((List.perm_insertionSort le rows).map key).nodup_iff.mpr hnodup
  exact hsorted.sublist ((List.take_sublist n _).map key)

/-- A selected row is returned unless the limit is used up by other rows that
come no later. -/
theorem mem_orderLimit_or [DecidableRel le] [Std.Total le] [IsTrans α le] (hnodup : rows.Nodup)
    (hr : r ∈ rows) (n : Nat) :
    r ∈ orderLimit le n rows ∨
      ∃ ahead : List α, n ≤ ahead.length ∧ ahead.Nodup ∧
        ∀ x ∈ ahead, x ∈ rows ∧ x ≠ r ∧ le x r := by
  have hperm := List.perm_insertionSort le rows
  have hsorted := List.pairwise_insertionSort le rows
  have hdistinct := hperm.nodup_iff.mpr hnodup
  obtain ⟨ahead, behind, hsplit⟩ := List.append_of_mem ((List.mem_insertionSort le).mpr hr)
  rw [hsplit] at hdistinct hsorted
  by_cases hlen : ahead.length < n
  · rw [orderLimit, hsplit]
    exact .inl (List.mem_take_iff_getElem.mpr ⟨ahead.length, by simp [hlen], by simp⟩)
  · refine .inr ⟨ahead, not_lt.mp hlen, hdistinct.of_append_left, ?_⟩
    intro x hx
    refine ⟨?_, ?_, (List.pairwise_append.mp hsorted).2.2 x hx r List.mem_cons_self⟩
    · rw [← hperm.mem_iff, hsplit]
      exact List.mem_append_left _ hx
    · rintro rfl
      exact List.disjoint_of_nodup_append hdistinct hx List.mem_cons_self

end Sql
