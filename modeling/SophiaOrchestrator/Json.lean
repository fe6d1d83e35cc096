import Mathlib.Data.Rat.Defs

/-!
# JSON documents and how they are decoded

A document is what `encoding/json` decodes into `any`.  An object keeps all its members in their
order, repeated ones included.

A decoder says what `json.Unmarshal` makes of documents for a variable of some type.  A repeated
member is decoded into what the earlier ones have left there, so that a decoder takes all documents
that are decoded into its variable, the first one first, and starts from the zero value.  A document
of another type is an error even if its value would have been lost.
-/

inductive Json where
  | null
  | bool (value : Bool)
  | num (value : ℚ)
  | str (value : String)
  | arr (items : List Json)
  | obj (fields : List (String × Json))
  deriving Repr

namespace Json

/-- The value of a key of a map.  A repeated key keeps its last value. -/
def get? (key : String) : Json → Option Json
  | .obj fields => (fields.reverse.find? fun field => field.1 == key).map (·.2)
  | _ => none

/-- `foldName`, as far as it decides whether a key is a name in ASCII: besides the two cases of a
letter there are the long s and the sign of the kelvin. -/
def foldName (name : String) : List Char :=
  name.toList.map fun c =>
    if c.toNat = 0x17F then 'S' else if c.toNat = 0x212A then 'K' else c.toUpper

/-- The value of a variable after the documents have been decoded into it. -/
abbrev Decoder (α : Type) : Type := List Json → Option α

namespace Decoder

variable {α : Type}

/-- A string; null leaves it as it is. -/
def string : Decoder String :=
  List.foldlM (fun text doc =>
    match doc with
    | .null => some text
    | .str new => some new
    | _ => none) ""

def any : Decoder Json := fun docs => some (docs.getLast?.getD .null)

/-- A map; null empties it, and a value is never decoded into an older one. -/
def map (item : Decoder α) : Decoder (List (String × α)) :=
  List.foldlM (fun entries doc =>
    match doc with
    | .null => some []
    | .obj fields =>
      (fields.mapM fun field => (item [field.2]).map (Prod.mk field.1)).map (entries ++ ·)
    | _ => none) []

/-- A pointer; after null there is a new variable. -/
def pointer (item : Decoder α) : Decoder (Option α) := fun docs =>
  if docs.all fun doc => (item [doc]).isSome then
    let live := docs.foldl (fun live doc =>
      match doc with
      | .null => []
      | doc => live ++ [doc]) []
    if live.isEmpty then some none else (item live).map some
  else
    none

/-- A slice.  The items of an array are decoded into those of the earlier arrays, which are there
even beyond the length of a shorter one, unless null or an empty array came in between. -/
def slice (item : Decoder α) : Decoder (List α) := fun docs =>
  let welltyped := docs.all fun doc =>
    match doc with
    | .null => true
    | .arr items => items.all fun doc => (item [doc]).isSome
    | _ => false
  if welltyped then
    let live := docs.foldl (fun live doc =>
      match doc with
      | .arr (first :: rest) => live ++ [first :: rest]
      | _ => []) []
    (List.range (live.getLast?.getD []).length).mapM fun i => item (live.filterMap (·[i]?))
  else
    none

/-- A struct.  A member belongs to the field whose name it has, in upper or lower case; null
leaves every field as it is. -/
def object (decode : (String → List Json) → Option α) : Decoder α := fun docs => do
  let members ← docs.mapM fun doc =>
    match doc with
    | .null => some []
    | .obj fields => some fields
    | _ => none
  decode fun name =>
    members.flatten.filterMap fun member =>
      if foldName member.1 = foldName name then some member.2 else none

end Decoder

end Json
