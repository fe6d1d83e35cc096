import Mathlib.Data.List.DropRight
import Mathlib.Data.List.Infix

/-!
# Slash-separated paths

The lexical part of a path library: `clean` removes empty and dot segments and
resolves dot-dot segments against the segments before them, and `join` puts
elements together and cleans the result.  What a cleaned absolute path denotes is
its list of components, and everything about `join` is read off them.
-/

namespace Filepath

variable {p q path segment name root : String} {stack segs top : List String}

/-! ## Definitions -/

def segments (path : String) : List String :=
  (path.toList.splitOn '/').map String.ofList

def joinSegments (parts : List String) : String :=
  String.ofList (['/'].intercalate (parts.map String.toList))

def isAbs (path : String) : Bool :=
  decide (path.toList.head? = some '/')

/-- The kept segments, last first, after one more segment.  At the root a dot-dot
segment is dropped, and a relative path keeps it. -/
def push (rooted : Bool) (stack : List String) (segment : String) : List String :=
  if segment = "" ∨ segment = "." then
    stack
  else if segment = ".." then
    match stack with
    | [] => if rooted then [] else [".."]
    | top :: below => if top = ".." then ".." :: top :: below else below
  else
    segment :: stack

def cleanSegments (rooted : Bool) : List String → List String → List String
  | stack, [] => stack.reverse
  | stack, segment :: rest => cleanSegments rooted (push rooted stack segment) rest

def render (rooted : Bool) (kept : List String) : String :=
  if rooted then "/" ++ joinSegments kept else if kept = [] then "." else joinSegments kept

def clean (path : String) : String :=
  render (isAbs path) (cleanSegments (isAbs path) [] (segments path))

/-- `filepath.Join`: leading empty elements are ignored. -/
def join (elems : List String) : String :=
  match elems.dropWhile fun e => e = "" with
  | [] => ""
  | parts => clean (joinSegments parts)

/-- The names on the way from the root to the path. -/
def components (path : String) : List String :=
  (segments path).filter fun segment => segment ≠ ""

def Below (p q : String) : Prop :=
  ∃ rest, rest ≠ [] ∧ components p = components q ++ rest

def Within (p q : String) : Prop :=
  components q <+: components p

instance (p q : String) : Decidable (Within p q) :=
  inferInstanceAs (Decidable (components q <+: components p))

theorem Below.within (h : Below p q) : Within p q := by
  obtain ⟨rest, -, heq⟩ := h
  rw [Within, heq]
  exact List.prefix_append _ _

theorem Below.components_ne (h : Below p q) : components p ≠ components q := by
  obtain ⟨rest, hne, heq⟩ := h
  rw [heq]
  simpa using hne

def CleanAbs (path : String) : Prop :=
  isAbs path = true ∧ clean path = path

instance (path : String) : Decidable (CleanAbs path) :=
  inferInstanceAs (Decidable (isAbs path = true ∧ clean path = path))

/-- The segments of a name that is cleaned on its own. -/
def localSegments (name : String) : List String :=
  cleanSegments false [] (segments name)

/-- How often the name climbs: the dot-dot segments at its front. -/
def climbs (name : String) : Nat :=
  ((localSegments name).takeWhile (· = "..")).length

def descent (name : String) : List String :=
  (localSegments name).dropWhile (· = "..")

/-- The segments that lead on from a directory, if the name leaves it and comes back to it. -/
def landing (base : List String) (name : String) : List String :=
  (descent name).drop (base.rtake (climbs name)).length

/-- The name comes back down the segments by which it has left the directory, and goes on. -/
def Returns (base : List String) (name : String) : Prop :=
  base.rtake (climbs name) <+: descent name ∧ landing base name ≠ []

instance (base : List String) (name : String) : Decidable (Returns base name) :=
  inferInstanceAs (Decidable (_ ∧ _))

structure Plain (segment : String) : Prop where
  ne_empty : segment ≠ ""
  ne_dot : segment ≠ "."
  ne_dotdot : segment ≠ ".."
  no_slash : '/' ∉ segment.toList

/-! ## Splitting and joining -/

theorem not_mem_of_mem_splitOn {sep : Char} {path part : List Char}
    (h : part ∈ path.splitOn sep) : sep ∉ part := by
  induction path generalizing part with
  | nil =>
    obtain rfl : part = [] := by simpa using h
    simp
  | cons c path ih =>
    rw [List.splitOn, List.splitOnP_cons_eq_if_modifyHead] at h
    split at h
    · rcases List.mem_cons.mp h with rfl | hrest
      · simp
      · exact ih hrest
    · next hc =>
      -- The first character belongs to the first part.
      cases hsplit : List.splitOnP (fun x => x == sep) path with
      | nil => simp [hsplit] at h
      | cons first rest =>
        rw [hsplit, List.modifyHead_cons] at h
        have hpart : ∀ q ∈ first :: rest, sep ∉ q := by
          intro q hq
          rw [← hsplit] at hq
          exact ih hq
        rcases List.mem_cons.mp h with rfl | hrest
        · intro hmem
          rcases List.mem_cons.mp hmem with rfl | htail
          · simp at hc
          · exact hpart first List.mem_cons_self htail
        · exact hpart part (List.mem_cons_of_mem first hrest)

theorem no_slash_of_mem_segments (h : segment ∈ segments path) :
    '/' ∉ segment.toList := by
  obtain ⟨chars, hchars, rfl⟩ := List.mem_map.mp h
  rw [String.toList_ofList]
  exact not_mem_of_mem_splitOn hchars

theorem segments_of_no_slash (h : '/' ∉ segment.toList) :
    segments segment = [segment] := by
  simp [segments, List.splitOn_eq_singleton h]

theorem splitOn_intercalate_flatMap {sep : Char} {parts : List (List Char)} (hne : parts ≠ []) :
    ([sep].intercalate parts).splitOn sep = parts.flatMap fun part => part.splitOn sep := by
  induction parts with
  | nil => exact absurd rfl hne
  | cons part rest ih =>
    cases rest with
    | nil => simp [List.intercalate]
    | cons next rest =>
      rw [List.intercalate_cons_cons, List.append_assoc, List.singleton_append,
        List.splitOn_append_cons_self, ih (List.cons_ne_nil _ _)]
      rfl

theorem segments_joinSegments {parts : List String} (hne : parts ≠ []) :
    segments (joinSegments parts) = parts.flatMap segments := by
  have hmap : parts.map String.toList ≠ [] := by simpa using hne
  rw [segments, joinSegments, String.toList_ofList, splitOn_intercalate_flatMap hmap,
    List.map_flatMap, List.flatMap_map]
  rfl

/-! ## Cleaning -/

theorem push_of_plain (h : Plain segment) (rooted : Bool) (stack : List String) :
    push rooted stack segment = segment :: stack := by
  have hskip : ¬(segment = "" ∨ segment = ".") := not_or.mpr ⟨h.ne_empty, h.ne_dot⟩
  unfold push
  rw [if_neg hskip, if_neg h.ne_dotdot]

theorem cleanSegments_plain_append {rooted : Bool} {plain rest : List String}
    (hplain : ∀ segment ∈ plain, Plain segment) (stack : List String) :
    cleanSegments rooted stack (plain ++ rest) =
      cleanSegments rooted (plain.reverse ++ stack) rest := by
  induction plain generalizing stack with
  | nil => rfl
  | cons segment plain ih =>
    rw [List.cons_append, cleanSegments, push_of_plain (hplain segment List.mem_cons_self),
      ih fun s hs => hplain s (List.mem_cons_of_mem segment hs)]
    simp

theorem cleanSegments_append (rooted : Bool) (stack segs rest : List String) :
    cleanSegments rooted stack (segs ++ rest) =
      cleanSegments rooted (cleanSegments rooted stack segs).reverse rest := by
  induction segs generalizing stack with
  | nil => simp [cleanSegments]
  | cons first segs ih => exact ih (push rooted stack first)

theorem plain_push (hstack : ∀ s ∈ stack, Plain s) (hsegment : '/' ∉ segment.toList) :
    ∀ s ∈ push true stack segment, Plain s := by
  unfold push
  split
  · exact hstack
  next hskip =>
    split
    · -- A dot-dot segment takes the last kept segment away.
      cases stack with
      | nil => simp
      | cons top below =>
        simp only [if_neg (hstack top List.mem_cons_self).ne_dotdot]
        exact fun s hs => hstack s (List.mem_cons_of_mem top hs)
    next hdotdot =>
      intro s hs
      rcases List.mem_cons.mp hs with rfl | hold
      · exact ⟨fun he => hskip (.inl he), fun he => hskip (.inr he), hdotdot, hsegment⟩
      · exact hstack s hold

theorem plain_of_mem_cleanSegments (hsegs : ∀ segment ∈ segs, '/' ∉ segment.toList)
    (hstack : ∀ segment ∈ stack, Plain segment) (h : segment ∈ cleanSegments true stack segs) :
    Plain segment := by
  induction segs generalizing stack with
  | nil => exact hstack segment (List.mem_reverse.mp h)
  | cons first rest ih =>
    exact ih (fun s hs => hsegs s (List.mem_cons_of_mem first hs))
      (plain_push hstack (hsegs first List.mem_cons_self)) h

/-- One more segment of a relative path, which has climbed `k` times, on its own and above a
directory. -/
theorem exists_push {base : List String} (hbase : ".." ∉ base) (htop : ".." ∉ top) (k : Nat)
    (segment : String) :
    ∃ k' top', ".." ∉ top' ∧
      push false (top ++ List.replicate k "..") segment = top' ++ List.replicate k' ".." ∧
      push true (top ++ base.drop k) segment = top' ++ base.drop k' := by
  by_cases hskip : segment = "" ∨ segment = "."
  · exact ⟨k, top, htop, by simp [push, hskip], by simp [push, hskip]⟩
  by_cases hdotdot : segment = ".."
  · cases top with
    | nil =>
      -- The name leaves one more directory.
      refine ⟨k + 1, [], htop, ?_, ?_⟩
      · cases k <;> simp [push, hdotdot, List.replicate_succ]
      · cases hdrop : base.drop k with
        | nil =>
          have hlong : base.length ≤ k + 1 := (List.drop_eq_nil_iff.mp hdrop).trans (Nat.le_succ k)
          simp [push, hdotdot, hlong]
        | cons last below =>
          have hlast : last ≠ ".." := by
            rintro rfl
            exact hbase (List.mem_of_mem_drop (hdrop ▸ List.mem_cons_self))
          simp [push, hdotdot, hdrop, hlast, ← List.tail_drop]
    | cons last below =>
      have hlast : last ≠ ".." := fun heq => htop (heq ▸ List.mem_cons_self)
      exact ⟨k, below, fun hmem => htop (List.mem_cons_of_mem last hmem),
        by simp [push, hdotdot, hlast], by simp [push, hdotdot, hlast]⟩
  · refine ⟨k, segment :: top, ?_, by simp [push, hskip, hdotdot], by simp [push, hskip, hdotdot]⟩
    simpa [Ne.symm hdotdot] using htop

theorem exists_cleanSegments {base : List String} (hbase : ".." ∉ base) (htop : ".." ∉ top)
    (k : Nat) (segs : List String) :
    ∃ k' rest, ".." ∉ rest ∧
      cleanSegments false (top ++ List.replicate k "..") segs = List.replicate k' ".." ++ rest ∧
      cleanSegments true (top ++ base.drop k) segs = (base.drop k').reverse ++ rest := by
  induction segs generalizing top k with
  | nil => exact ⟨k, top.reverse, by simpa using htop, by simp [cleanSegments],
    by simp [cleanSegments]⟩
  | cons segment segs ih =>
    obtain ⟨k₁, top₁, htop₁, hlocal, hrooted⟩ := exists_push hbase htop k segment
    obtain ⟨k', rest, hrest⟩ := ih htop₁ k₁
    refine ⟨k', rest, ?_⟩
    rw [cleanSegments, cleanSegments, hlocal, hrooted]
    exact hrest

/-- A name leaves as many directories as it climbs, and adds the segments of its descent. -/
theorem cleanSegments_name {base : List String} (hbase : ".." ∉ base) (name : String) :
    cleanSegments true base.reverse (segments name) =
      base.rdrop (climbs name) ++ descent name := by
  obtain ⟨k, rest, hrest, hlocal, hrooted⟩ :=
    exists_cleanSegments (mt List.mem_reverse.mp hbase) List.not_mem_nil 0 (segments name)
  have hstart : rest.takeWhile (· = "..") = [] ∧ rest.dropWhile (· = "..") = rest := by
    cases rest with
    | nil => simp
    | cons first rest =>
      have hfirst : first ≠ ".." := fun heq => hrest (heq ▸ List.mem_cons_self)
      simp [hfirst]
  have hsegments : localSegments name = List.replicate k ".." ++ rest := hlocal
  have hclimbs : climbs name = k := by
    rw [climbs, hsegments, List.takeWhile_append_of_pos (by simp), hstart.1]
    simp
  have hdescent : descent name = rest := by
    rw [descent, hsegments, List.dropWhile_append_of_pos (by simp), hstart.2]
  rw [hclimbs, hdescent, List.rdrop_eq_reverse_drop_reverse]
  exact hrooted

/-! ## Components -/

theorem components_render {kept : List String} (hplain : ∀ segment ∈ kept, Plain segment) :
    components (render true kept) = kept := by
  have hslash : (render true kept).toList = '/' :: (joinSegments kept).toList := by
    simp [render]
  have hsegments : segments (render true kept) = "" :: segments (joinSegments kept) := by
    have hsplit := List.splitOn_append_cons_self (a := '/') [] (joinSegments kept).toList
    rw [segments, hslash]
    simpa [segments] using congrArg (List.map String.ofList) hsplit
  cases kept with
  | nil => rw [components, hsegments]; decide
  | cons first rest =>
    have hself : (first :: rest).flatMap segments = first :: rest := by
      rw [List.flatMap_congr fun s hs => segments_of_no_slash (hplain s hs).no_slash]
      simp
    rw [components, hsegments, segments_joinSegments (List.cons_ne_nil _ _), hself,
      List.filter_cons_of_neg (by simp)]
    exact List.filter_eq_self.mpr fun s hs => by simpa using (hplain s hs).ne_empty

theorem cleanSegments_segments_of_cleanAbs (h : CleanAbs path) :
    cleanSegments true [] (segments path) = components path := by
  have hplain : ∀ segment ∈ cleanSegments true [] (segments path), Plain segment := by
    intro segment hsegment
    exact plain_of_mem_cleanSegments (fun s hs => no_slash_of_mem_segments hs) (by simp) hsegment
  have hclean : render true (cleanSegments true [] (segments path)) = path := by
    have := h.2
    rwa [clean, h.1] at this
  rw [← components_render hplain, hclean]

theorem isAbs_joinSegments {first : String} (h : isAbs first = true) (rest : List String) :
    isAbs (joinSegments (first :: rest)) = true := by
  obtain ⟨chars, hchars⟩ : ∃ chars, first.toList = '/' :: chars := by
    cases hfirst : first.toList with
    | nil => simp [isAbs, hfirst] at h
    | cons c chars =>
      obtain rfl : c = '/' := by simpa [isAbs, hfirst] using h
      exact ⟨chars, rfl⟩
  cases rest with
  | nil => simp [isAbs, joinSegments, List.intercalate, hchars]
  | cons next rest =>
    simp [isAbs, joinSegments, List.intercalate_cons_cons, hchars]

theorem components_join (h : CleanAbs root) (elems : List String) :
    components (join (root :: elems)) =
      cleanSegments true (components root).reverse (elems.flatMap segments) := by
  have hroot : root ≠ "" := by
    rintro rfl
    exact absurd h.1 (by decide)
  have hjoin : join (root :: elems) = clean (joinSegments (root :: elems)) := by
    rw [join, List.dropWhile_cons_of_neg (by simpa using hroot)]
  have hkept : cleanSegments true [] (segments (joinSegments (root :: elems))) =
      cleanSegments true (components root).reverse (elems.flatMap segments) := by
    rw [segments_joinSegments (List.cons_ne_nil root elems), List.flatMap_cons,
      cleanSegments_append, cleanSegments_segments_of_cleanAbs h]
  rw [hjoin, clean, isAbs_joinSegments h.1, components_render, hkept]
  intro segment hsegment
  exact plain_of_mem_cleanSegments (fun s hs => no_slash_of_mem_segments hs) (by simp) hsegment

theorem components_join_name (h : CleanAbs root) {dirs : List String}
    (hdirs : ∀ dir ∈ dirs, Plain dir) (name : String) :
    components (join (root :: (dirs ++ [name]))) =
      (components root ++ dirs).rdrop (climbs name) ++ descent name := by
  have hself : dirs.flatMap segments = dirs := by
    rw [List.flatMap_congr fun s hs => segments_of_no_slash (hdirs s hs).no_slash]
    simp
  have hbase : ".." ∉ components root ++ dirs := by
    intro hmem
    rcases List.mem_append.mp hmem with hroot | hdir
    · rw [← cleanSegments_segments_of_cleanAbs h] at hroot
      exact (plain_of_mem_cleanSegments (fun s hs => no_slash_of_mem_segments hs) (by simp)
        hroot).ne_dotdot rfl
    · exact (hdirs _ hdir).ne_dotdot rfl
  rw [components_join h, List.flatMap_append, hself, List.flatMap_singleton,
    cleanSegments_plain_append hdirs, ← cleanSegments_name hbase, List.reverse_append]

section Landing

variable {base : List String} (hjoin : components p = base.rdrop (climbs name) ++ descent name)

include hjoin

theorem components_eq_append_iff (rest : List String) :
    components p = base ++ rest ↔ descent name = base.rtake (climbs name) ++ rest := by
  have hsplit : base.rdrop (climbs name) ++ base.rtake (climbs name) = base :=
    List.take_append_drop _ _
  rw [hjoin]
  nth_rewrite 2 [← hsplit]
  rw [List.append_assoc, List.append_cancel_left_eq]

theorem components_of_returns (h : Returns base name) :
    components p = base ++ landing base name :=
  (components_eq_append_iff hjoin _).mpr (List.prefix_iff_eq_append.mp h.1).symm

/-- The path lies strictly below the directory exactly if the name returns to it. -/
theorem below_iff_returns (hbase : components q = base) : Below p q ↔ Returns base name := by
  constructor
  · rintro ⟨rest, hne, heq⟩
    rw [hbase, components_eq_append_iff hjoin] at heq
    refine ⟨⟨rest, heq.symm⟩, ?_⟩
    rwa [landing, heq, List.drop_left]
  · intro hreturns
    exact ⟨landing base name, hreturns.2, by rw [components_of_returns hjoin hreturns, hbase]⟩

end Landing

end Filepath
