import Mathlib.Algebra.Order.Ring.Rat
import SophiaOrchestrator.Json

/-!
# Identifiers and agent envelopes

The envelope is the JSON contract between an agent and the orchestrator.  An
identifier is a ULID, that is a 128-bit number; only equality of identifiers
matters.  An instant is a number of nanoseconds.  The confidence, a `float64`
in the source, is the decimal that it prints as; printing keeps the order, and a
threshold of the source is a decimal too.
-/

namespace SophiaOrchestrator

structure ChangeID where
  raw : Nat
  deriving DecidableEq, Repr

structure PhaseID where
  raw : Nat
  deriving DecidableEq, Repr

structure OutboxID where
  raw : Nat
  deriving DecidableEq, Repr

/-- An instant, in nanoseconds. -/
abbrev Time : Type := Nat

/-- The status an agent declares.  The wire format is a string, so a value
outside the closed set can be received. -/
inductive EnvelopeStatus where
  | done
  | doneWithConcerns
  | blocked
  | needsContext
  | unknown (text : String)
  deriving DecidableEq, Repr

namespace EnvelopeStatus

def isValid : EnvelopeStatus → Bool
  | .done | .doneWithConcerns | .blocked | .needsContext => true
  | .unknown _ => false

end EnvelopeStatus

structure Risk where
  description : String
  level : String
  deriving DecidableEq, Repr

structure ArtifactRef where
  topicKey : String
  type : String
  deriving DecidableEq, Repr

/-- The agent-to-orchestrator envelope.  `phase` is the raw string of the wire
format; a missing `data` field is the JSON document `null`.  JSON has neither NaN nor
infinities, so the confidence of a decoded envelope is a decimal. -/
structure Envelope (F : Type := ℚ) where
  schemaVersion : String
  phase : String
  changeName : String
  project : String
  status : EnvelopeStatus
  confidence : F
  executiveSummary : String
  artifactsSaved : List ArtifactRef := []
  nextRecommended : List String := []
  risks : List Risk := []
  data : Json := .null
  deriving Repr

def EnvelopeStatus.text : EnvelopeStatus → String
  | .done => "DONE"
  | .doneWithConcerns => "DONE_WITH_CONCERNS"
  | .blocked => "BLOCKED"
  | .needsContext => "NEEDS_CONTEXT"
  | .unknown text => text

/-- The document that `json.Marshal` writes for an envelope. -/
def Envelope.marshal (e : Envelope) : Json :=
  .obj [("schema_version", .str e.schemaVersion), ("phase", .str e.phase),
    ("change_name", .str e.changeName), ("project", .str e.project),
    ("status", .str e.status.text), ("confidence", .num e.confidence),
    ("executive_summary", .str e.executiveSummary),
    ("artifacts_saved", .arr (e.artifactsSaved.map fun ref =>
      .obj [("topic_key", .str ref.topicKey), ("type", .str ref.type)])),
    ("next_recommended", .arr (e.nextRecommended.map .str)),
    ("risks", .arr (e.risks.map fun risk =>
      .obj [("description", .str risk.description), ("level", .str risk.level)])),
    ("data", e.data)]

def schemaVersionV1 : String := "v1"

inductive EnvelopeErr where
  | invalidJSON
  | unsupportedSchemaVersion (got : String)
  | emptyPhase
  | invalidStatus (got : EnvelopeStatus)
  | confidenceOutOfRange (got : ℚ)
  | emptyChangeName
  | emptyProject
  deriving Repr

/-- The structural checks on a decoded envelope, in the order of the source. -/
def Envelope.validate (e : Envelope) : Except EnvelopeErr Unit :=
  if e.schemaVersion ≠ schemaVersionV1 then
    .error (.unsupportedSchemaVersion e.schemaVersion)
  else if e.phase = "" then
    .error .emptyPhase
  else if !e.status.isValid then
    .error (.invalidStatus e.status)
  else if e.confidence < 0 ∨ 1 < e.confidence then
    .error (.confidenceOutOfRange e.confidence)
  else if e.changeName = "" then
    .error .emptyChangeName
  else if e.project = "" then
    .error .emptyProject
  else
    .ok ()

/-- The bytes an agent leaves as its envelope, up to JSON decoding: no bytes at
all, bytes that do not decode to an envelope, or an encoded envelope. -/
inductive RawEnvelope where
  | empty
  | invalid
  | json (envelope : Envelope)

def Envelope.parse : RawEnvelope → Except EnvelopeErr Envelope
  | .empty => .error .invalidJSON
  | .invalid => .error .invalidJSON
  | .json e =>
    match e.validate with
    | .error err => .error err
    | .ok () => .ok e

theorem Envelope.validate_eq_ok_iff {e : Envelope} : e.validate = .ok () ↔
    e.schemaVersion = schemaVersionV1 ∧ e.phase ≠ "" ∧ e.status.isValid = true ∧
      (0 ≤ e.confidence ∧ e.confidence ≤ 1) ∧ e.changeName ≠ "" ∧ e.project ≠ "" := by
  have hrange : e.confidence < 0 ∨ 1 < e.confidence ↔ ¬(0 ≤ e.confidence ∧ e.confidence ≤ 1) := by
    rw [not_and_or, not_le, not_le]
  unfold Envelope.validate
  simp only [hrange]
  split_ifs <;> simp_all

theorem Envelope.validate_eq_ok {e : Envelope} (h : e.validate = .ok ()) :
    e.status.isValid = true ∧ 0 ≤ e.confidence ∧ e.confidence ≤ 1 := by
  obtain ⟨-, -, hstatus, hrange, -⟩ := Envelope.validate_eq_ok_iff.mp h
  exact ⟨hstatus, hrange⟩

/-- A parsed envelope declares a status of the closed set and a confidence in
the unit interval. -/
theorem Envelope.parse_eq_ok {raw : RawEnvelope} {e : Envelope}
    (h : Envelope.parse raw = .ok e) :
    e.status.isValid = true ∧ 0 ≤ e.confidence ∧ e.confidence ≤ 1 := by
  cases raw with
  | empty | invalid => cases h
  | json e' =>
    simp only [Envelope.parse] at h
    cases hval : e'.validate with
    | error err =>
      rw [hval] at h
      cases h
    | ok u =>
      rw [hval] at h
      cases h
      exact Envelope.validate_eq_ok hval

end SophiaOrchestrator
