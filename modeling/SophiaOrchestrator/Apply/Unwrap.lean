import SophiaOrchestrator.Apply.TasksList

/-!
# The stored content of an artifact

`persistArtifactsToMemory` stores the encoded envelope of a phase, and `unwrapArtifactData`
takes the data out of it again.  It goes by the keys of the stored object alone, and hands back
the text of one member or the text it was given.

What `encoding/json` does with texts is described by its laws; an object that is read into a
map of raw messages gives the text of each member.
-/

namespace SophiaOrchestrator.Apply

structure JsonCodec (Text : Type) where
  isEmpty : Text → Bool
  encode : Json → Text
  decode : Text → Option Json
  members : Text → List (String × Text)
  decode_empty : ∀ text, isEmpty text = true → decode text = none
  decode_encode : ∀ doc, decode (encode doc) = some doc
  decode_members : ∀ text fields, decode text = some (.obj fields) →
    (members text).map (fun member => (member.1, decode member.2)) =
      fields.map fun field => (field.1, some field.2)

def contentCodec : JsonCodec Content where
  isEmpty content := match content with | .empty => true | _ => false
  encode := .json
  decode content := match content with | .json doc => some doc | _ => none
  members content := match content with
    | .json (.obj fields) => fields.map fun field => (field.1, .json field.2)
    | _ => []
  decode_empty text h := by cases text <;> first | rfl | cases h
  decode_encode _ := rfl
  decode_members text fields h := by
    cases text with
    | json doc =>
      obtain rfl := Option.some.inj h
      simp [Function.comp_def]
    | _ => cases h

namespace JsonCodec

variable {Text : Type} (c : JsonCodec Text) {raw : Text} {doc : Json}
  {fields : List (String × Json)}

/-- The member of a key in a map of raw messages; of a repeated key the last one stays. -/
def member? (text : Text) (key : String) : Option Text :=
  ((c.members text).reverse.find? fun member => member.1 == key).map (·.2)

theorem isEmpty_eq_false (hdoc : c.decode raw = some doc) : ¬ c.isEmpty raw = true := by
  intro hempty
  rw [c.decode_empty raw hempty] at hdoc
  cases hdoc

theorem decode_member? (hdoc : c.decode raw = some (.obj fields)) (key : String) :
    (c.member? raw key).map c.decode = ((Json.obj fields).get? key).map some := by
  have hfind := congrArg
    (fun pairs => (pairs.reverse.find? fun pair => pair.1 == key).map (·.2))
    (c.decode_members raw fields hdoc)
  simpa [member?, Json.get?, ← List.map_reverse, List.find?_map, Function.comp_def] using hfind

theorem isSome_member? (hdoc : c.decode raw = some (.obj fields)) (key : String) :
    (c.member? raw key).isSome = ((Json.obj fields).get? key).isSome := by
  simpa using congrArg Option.isSome (c.decode_member? hdoc key)

/-- `unwrapArtifactData` on texts; `none` is the error of a text that is no object. -/
def unwrapArtifactData (raw : Text) : Option Text :=
  if c.isEmpty raw then some raw
  else
    match c.decode raw with
    | some (.obj _) =>
      match c.member? raw "data" with
      | none => some raw
      | some dataField =>
        if envelopeMarkers.any fun key => (c.member? raw key).isSome then some dataField
        else some raw
    | some .null => some raw
    | _ => none

theorem decode_unwrapArtifactData (hdoc : c.decode raw = some doc) :
    (c.unwrapArtifactData raw).map c.decode = (Apply.unwrapArtifactData doc).map some := by
  rw [unwrapArtifactData, if_neg (c.isEmpty_eq_false hdoc), hdoc]
  cases doc with
  | obj fields =>
    have hdata := c.decode_member? hdoc "data"
    simp only [Apply.unwrapArtifactData, c.isSome_member? hdoc]
    cases hmember : c.member? raw "data" <;> cases hget : (Json.obj fields).get? "data" <;>
      simp only [hmember, hget, Option.map_some, Option.map_none, reduceCtorEq,
        Option.some.injEq] at hdata ⊢
    · exact hdoc
    · split <;> simp [hdata, hdoc]
  | null => exact congrArg some hdoc
  | _ => rfl

/-- **Writing and reading back.**  Unwrapping what is stored for an envelope gives a text of its
data, an object without a data key or without a marker key is handed back as it is, and
unwrapping fails exactly on the texts that are neither empty nor an object nor null. -/
theorem unwrap_marshalled (c : JsonCodec Text) :
    (∀ e : Envelope, ∃ text, c.unwrapArtifactData (c.encode e.marshal) = some text ∧
        c.decode text = some e.data) ∧
      (∀ raw fields, c.decode raw = some (.obj fields) →
        ((∀ field ∈ fields, field.1 ≠ "data") ∨
          ∀ field ∈ fields, field.1 ∉ envelopeMarkers) → c.unwrapArtifactData raw = some raw) ∧
      ∀ raw, c.unwrapArtifactData raw = none ↔
        c.isEmpty raw = false ∧ c.decode raw ≠ some .null ∧
          ∀ fields, c.decode raw ≠ some (.obj fields) := by
  refine ⟨fun e => ?_, fun raw fields hdoc hkeys => ?_, fun raw => ?_⟩
  · have hdata := c.decode_unwrapArtifactData (c.decode_encode e.marshal)
    have hunwrap : Apply.unwrapArtifactData e.marshal = some e.data := rfl
    simpa [hunwrap, Option.map_eq_some_iff] using hdata
  · rw [unwrapArtifactData, if_neg (c.isEmpty_eq_false hdoc), hdoc]
    have hnone : ∀ key, (∀ field ∈ fields, field.1 ≠ key) → c.member? raw key = none := by
      intro key hkey
      have hget : (Json.obj fields).get? key = none := by simpa [Json.get?] using hkey
      simpa [hget] using c.decode_member? hdoc key
    rcases hkeys with hdata | hmarkers
    · simp [hnone "data" hdata]
    · have hmarker : (envelopeMarkers.any fun key => (c.member? raw key).isSome) = false := by
        rw [List.any_eq_false]
        intro key hkey
        simp [hnone key fun field hfield heq => hmarkers field hfield (heq ▸ hkey)]
      simp only [hmarker]
      cases c.member? raw "data" <;> rfl
  · unfold unwrapArtifactData
    split
    · simp_all
    · next hne =>
      cases hdoc : c.decode raw with
      | none => simp [hne]
      | some doc =>
        cases doc with
        | obj fields =>
          cases c.member? raw "data" with
          | none => simp
          | some dataField =>
            dsimp only
            split <;> simp
        | _ => simp [hne]

def nestedEnvelope : Envelope where
  schemaVersion := "v1"
  phase := "tasks"
  changeName := "c"
  project := "p"
  status := .done
  confidence := 1
  executiveSummary := ""
  data := .obj [("status", .str "DONE"), ("data", .null)]

theorem unwrap_marshalled_nested :
    ∃ text, contentCodec.unwrapArtifactData (.json nestedEnvelope.marshal) = some text ∧
      contentCodec.decode text = some nestedEnvelope.data :=
  (unwrap_marshalled contentCodec).1 nestedEnvelope

end JsonCodec

end SophiaOrchestrator.Apply
