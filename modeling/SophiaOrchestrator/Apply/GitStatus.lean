import SophiaOrchestrator.Discipline

/-!
# Envelopes made up from the state of a worktree

An adapter that edits in place leaves no envelope.  `synthesizeEnvelopeFromGit` makes one from
the output of `git status --porcelain=v1` and hands it to the validator that every envelope
passes.  The document has neither a change name nor a project, and `PARTIAL` is no status.
-/

namespace SophiaOrchestrator.Apply

/-- The status of a receipt; the wire format is a string, so a value outside the
closed set can be received. -/
inductive ReceiptStatus where
  | success
  | failure
  | timeout
  | cancelled
  | partially
  | unknown (text : String)
  deriving DecidableEq, Repr

/-! ## The output of git status -/

structure Edit where
  path : List UInt8
  action : String
  deriving DecidableEq, Repr

/-- `classifyStatus`; the empty text is no action. -/
def classifyStatus (x y : UInt8) : String :=
  let pick := if x = 32 ∨ x = 0 then y else x
  -- M and U; A and ?; D; R and C.
  if pick = 77 ∨ pick = 85 then "modified"
  else if pick = 65 ∨ pick = 63 then "created"
  else if pick = 68 then "deleted"
  else if pick = 82 ∨ pick = 67 then "renamed"
  else ""

def afterArrow : List UInt8 → Option (List UInt8)
  | [] => none
  | b :: rest =>
    if [32, 45, 62, 32].isPrefixOf (b :: rest) then some (rest.drop 3) else afterArrow rest

/-- One line of the output: two status bytes, a blank and a path. -/
def parseLine : List UInt8 → Option Edit
  | x :: y :: _ :: b :: rest =>
    match classifyStatus x y with
    | "" => none
    | "renamed" => some ⟨(afterArrow (b :: rest)).getD (b :: rest), "renamed"⟩
    | action => some ⟨b :: rest, action⟩
  | _ => none

def parsePorcelainV1 (stdout : List UInt8) : List Edit :=
  (stdout.splitOn 10).filterMap parseLine

/-! ## The document -/

structure SynthesizedDoc where
  schemaVersion : String := "v1"
  phase : String := "apply"
  status : EnvelopeStatus
  edits : List Edit

def synthesizedDoc (stdout : List UInt8) : SynthesizedDoc where
  status := if parsePorcelainV1 stdout = [] then .unknown "PARTIAL" else .done
  edits := parsePorcelainV1 stdout

/-- The envelope that the document decodes to: a field that it does not have is zero, and
`edits` is none of the fields. -/
def SynthesizedDoc.envelope (doc : SynthesizedDoc) : Envelope where
  schemaVersion := doc.schemaVersion
  phase := doc.phase
  changeName := ""
  project := ""
  status := doc.status
  confidence := 0
  executiveSummary := ""

inductive SynthesizeErr where
  | emptyPath
  | runtime (err : String)
  | receipt (status : ReceiptStatus)

/-- `synthesizeEnvelopeFromGit`, given what the runtime answers. -/
def synthesizeEnvelopeFromGit (worktreePath : String)
    (answer : Except String (ReceiptStatus × List UInt8)) : Except SynthesizeErr RawEnvelope :=
  if worktreePath = "" then
    .error .emptyPath
  else
    match answer with
    | .error err => .error (.runtime err)
    | .ok (status, stdout) =>
      if status ≠ .success then .error (.receipt status)
      else .ok (.json (synthesizedDoc stdout).envelope)

/-- The validator refuses every such document, for want of a change name. -/
theorem validateEnvelope_synthesizedDoc (stdout : List UInt8) (expected : PhaseType) :
    ∃ err, validateEnvelope (.json (synthesizedDoc stdout).envelope) expected = .error err := by
  have hinvalid : (synthesizedDoc stdout).envelope.validate ≠ .ok () := by
    rw [Ne, Envelope.validate_eq_ok_iff]
    simp [SynthesizedDoc.envelope]
  unfold validateEnvelope Envelope.parse
  cases hresult : (synthesizedDoc stdout).envelope.validate with
  | error err => exact ⟨.envelope err, by simp [hresult]⟩
  | ok u => exact absurd hresult hinvalid

theorem validateEnvelope_synthesized {worktreePath : String}
    {answer : Except String (ReceiptStatus × List UInt8)} {raw : RawEnvelope} {expected : PhaseType}
    (hraw : synthesizeEnvelopeFromGit worktreePath answer = .ok raw) :
    ∃ err, validateEnvelope raw expected = .error err := by
  unfold synthesizeEnvelopeFromGit at hraw
  split at hraw
  · cases hraw
  · split at hraw
    · cases hraw
    · split at hraw
      · cases hraw
      · cases hraw
        exact validateEnvelope_synthesizedDoc _ expected

end SophiaOrchestrator.Apply
