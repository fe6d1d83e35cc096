import SophiaOrchestrator.Domain.Envelope
import SophiaOrchestrator.Strings

/-!
# The recommended next steps

Agents write `next_recommended` as a list of strings, of objects, or of anything else.
`NextRecommended.UnmarshalJSON` reduces every item to one line of text and drops those without
any; what it leaves is written as plain strings.

A JSON text is seen as the decoder sees it: strings are decoded, and of a number, of an array and
of what stands between the braces of a compacted object only the text matters.
-/

namespace SophiaOrchestrator

open Strings

/-! ## Surrounding spaces -/

def trimText (text : String) : String :=
  String.ofList (trimSpace text.toList)

def Trimmed (text : String) : Prop :=
  text.toList.head?.any isSpace = false ∧ text.toList.getLast?.any isSpace = false

theorem trimmed_trimText (text : String) : Trimmed (trimText text) := by
  rw [Trimmed, trimText, String.toList_ofList]
  exact ⟨head_trimSpace _, getLast_trimSpace _⟩

theorem trimText_of_trimmed {text : String} (h : Trimmed text) : trimText text = text := by
  rw [trimText, trimSpace_eq_self h.1 h.2, String.ofList_toList]

/-! ## Reading and writing -/

inductive RawItem where
  | null
  | bool (value : Bool)
  | num (text : String)
  | str (value : String)
  | arr (text : String)
  | obj (members : List (String × RawItem))

namespace RawItem

/-- The text itself, of a value that is neither a string nor an object. -/
def text : RawItem → String
  | .bool true => "true"
  | .bool false => "false"
  | .num text | .arr text => text
  | _ => "null"

/-- `json.Unmarshal` into a string; `null` leaves the string empty. -/
def decodeString : RawItem → Option String
  | .str value => some value
  | .null => some ""
  | _ => none

def decodeObject : RawItem → Option (List (String × RawItem))
  | .obj members => some members
  | _ => none

end RawItem

/-- The text of `next_recommended`: `null`, an array, or something else. -/
inductive NextText where
  | null
  | array (items : List RawItem)
  | other (text : String)

inductive NextErr where
  | expectedArray (got : String)

/-- The descriptive keys of an object, in the order in which they are tried. -/
def nextRecommendedKeys : List String := ["action", "description", "message", "summary"]

/-- The member of a key in a decoded map; a repeated key keeps its last value. -/
def memberOf (members : List (String × RawItem)) (key : String) : Option RawItem :=
  (members.reverse.find? fun member => member.1 == key).map (·.2)

/-- The loop over the descriptive keys: the first text that is not blank, and whether one of the
keys was there. -/
def probeKeys (members : List (String × RawItem)) : List String → Bool → Option String × Bool
  | [], hadKnownKey => (none, hadKnownKey)
  | key :: rest, hadKnownKey =>
    match memberOf members key with
    | none => probeKeys members rest hadKnownKey
    | some value =>
      match value.decodeString with
      | some text =>
        if trimText text ≠ "" then (some (trimText text), true) else probeKeys members rest true
      | none => probeKeys members rest true

section

variable (compact : List (String × RawItem) → String)

/-- `projectNextRecommendation`; `compact` is the text that `json.Marshal` gives for a map. -/
def projectNextRecommendation (item : RawItem) : String :=
  match item.decodeString with
  | some text => trimText text
  | none =>
    match item.decodeObject with
    | some members =>
      match probeKeys members nextRecommendedKeys false with
      | (some text, _) => text
      | (none, true) => ""
      | (none, false) => trimText (compact members)
    | none => trimText item.text

/-- `NextRecommended.UnmarshalJSON`; `none` is the nil slice. -/
def unmarshalNext : NextText → Except NextErr (Option (List String))
  | .null => .ok none
  | .array items => .ok (some ((items.map (projectNextRecommendation compact)).filter (· ≠ "")))
  | .other text => .error (.expectedArray text)

def marshalNext : Option (List String) → NextText
  | none => .null
  | some texts => .array (texts.map .str)

def reloadNext : Nat → Option (List String) → Except NextErr (Option (List String))
  | 0, next => .ok next
  | n + 1, next => do reloadNext n (← unmarshalNext compact (marshalNext next))

/-! ## What is left of an item -/

variable {compact}

theorem trimmed_probeKeys {members : List (String × RawItem)} {keys : List String}
    {hadKnownKey known : Bool} {text : String}
    (h : probeKeys members keys hadKnownKey = (some text, known)) : Trimmed text := by
  induction keys generalizing hadKnownKey with
  | nil => cases h
  | cons key rest ih =>
    unfold probeKeys at h
    split at h
    · exact ih h
    · split at h
      · split at h
        · cases h
          exact trimmed_trimText _
        · exact ih h
      · exact ih h

theorem trimmed_project (item : RawItem) : Trimmed (projectNextRecommendation compact item) := by
  unfold projectNextRecommendation
  split
  · exact trimmed_trimText _
  · split
    · split
      · next hprobe => exact trimmed_probeKeys hprobe
      · exact ⟨rfl, rfl⟩
      · exact trimmed_trimText _
    · exact trimmed_trimText _

/-- A list of trimmed texts that are not empty is read as it was written. -/
theorem unmarshalNext_marshalNext {texts : List String}
    (htexts : ∀ text ∈ texts, text ≠ "" ∧ Trimmed text) :
    unmarshalNext compact (marshalNext (some texts)) = .ok (some texts) := by
  have hproject : (texts.map RawItem.str).map (projectNextRecommendation compact) = texts := by
    rw [List.map_map]
    exact (List.map_congr_left fun text htext => trimText_of_trimmed (htexts text htext).2).trans
      (List.map_id _)
  rw [marshalNext, unmarshalNext, hproject, List.filter_eq_self.mpr]
  exact fun text htext => by simpa using (htexts text htext).1

/-- Every array is accepted; the texts it leaves are neither empty nor surrounded by spaces, and
writing and reading them any number of times gives the same list. -/
theorem unmarshalNext_stable (compact : List (String × RawItem) → String) (items : List RawItem) :
    ∃ texts, unmarshalNext compact (.array items) = .ok (some texts) ∧
      (∀ text ∈ texts, text ≠ "" ∧ Trimmed text) ∧
      ∀ n, reloadNext compact n (some texts) = .ok (some texts) := by
  have htexts : ∀ text ∈ (items.map (projectNextRecommendation compact)).filter (· ≠ ""),
      text ≠ "" ∧ Trimmed text := by
    intro text htext
    obtain ⟨hmem, hne⟩ := List.mem_filter.mp htext
    obtain ⟨item, -, rfl⟩ := List.mem_map.mp hmem
    exact ⟨by simpa using hne, trimmed_project item⟩
  refine ⟨_, rfl, htexts, fun n => ?_⟩
  induction n with
  | zero => rfl
  | succ n ih =>
    rw [reloadNext, unmarshalNext_marshalNext htexts]
    exact ih

end

end SophiaOrchestrator
