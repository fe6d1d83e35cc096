import SophiaOrchestrator.Apply.Board

/-!
# The tasks list

The groups and tasks that the tasks phase has written to memory, and how the
stored document is decoded.  The stored content is the full envelope of the tasks
phase, whose `data` field holds the list, or a bare list.
-/

namespace SophiaOrchestrator.Apply

structure TaskItemSpec where
  description : String
  filesPattern : List String
  deriving DecidableEq, Repr

structure TaskGroupSpec where
  name : String
  dependsOn : List String := []
  tasks : List TaskItemSpec := []
  deriving DecidableEq, Repr

structure TasksList where
  groups : List TaskGroupSpec
  deriving DecidableEq, Repr

/-- The content of a memory record, up to JSON decoding. -/
inductive Content where
  | empty
  | invalid
  | json (doc : Json)

/-! ## Decoding -/

def envelopeMarkers : List String :=
  ["schema_version", "status", "phase", "change_name", "project"]

/-- `unwrapArtifactData`: the `data` field of an envelope, or the document itself.
`none` is a document that is not an object. -/
def unwrapArtifactData (doc : Json) : Option Json :=
  match doc with
  | .obj _ =>
    match doc.get? "data" with
    | none => some doc
    | some data =>
      if envelopeMarkers.any fun key => (doc.get? key).isSome then some data else some doc
  | .null => some doc
  | _ => none

def TaskItemSpec.decode : Json.Decoder TaskItemSpec :=
  .object fun field => do
    let description ← Json.Decoder.string (field "description")
    let filesPattern ← Json.Decoder.slice .string (field "files_pattern")
    pure ⟨description, filesPattern⟩

def TaskGroupSpec.decode : Json.Decoder TaskGroupSpec :=
  .object fun field => do
    let name ← Json.Decoder.string (field "name")
    let dependsOn ← Json.Decoder.slice .string (field "depends_on")
    let tasks ← Json.Decoder.slice TaskItemSpec.decode (field "tasks")
    pure ⟨name, dependsOn, tasks⟩

def TasksList.decode : Json.Decoder TasksList :=
  .object fun field => do
    let groups ← Json.Decoder.slice TaskGroupSpec.decode (field "groups")
    pure ⟨groups⟩

inductive TasksErr where
  | noTasksList
  | invalidTasksList
  deriving DecidableEq, Repr

/-- The part of `loadTasksList` after the record was read. -/
def parseTasksList : Content → Except TasksErr TasksList
  | .empty => .error .noTasksList
  | .invalid => .error .invalidTasksList
  | .json doc =>
    match (unwrapArtifactData doc).bind fun doc => TasksList.decode [doc] with
    | some tl => .ok tl
    | none => .error .invalidTasksList

/-! ## File patterns -/

/-- `stripGroupPrefix`: drop a leading `<group>/`, since patterns are relative to
the worktree of the group. -/
def stripGroupPrefix (groupName : String) (patterns : List String) : List String :=
  let lead := groupName.toList ++ ['/']
  patterns.map fun p =>
    if lead.isPrefixOf p.toList then String.ofList (p.toList.drop lead.length) else p

end SophiaOrchestrator.Apply
