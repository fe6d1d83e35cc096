import SophiaOrchestrator.Apply.TeamLead

/-!
# The validator on envelopes made up from a worktree

The document of `synthesizeEnvelopeFromGit` would pass the validator if it had a change name and
a project, and exactly if git status reports an entry.  It has neither.
-/

namespace SophiaOrchestrator.Apply

open Effects Prog

def namedEnvelope (stdout : List UInt8) (changeName project : String) : Envelope :=
  { (synthesizedDoc stdout).envelope with changeName := changeName, project := project }

/-! ## The validator -/

/-- The validator accepts the envelope, and the attempt counts as successful. -/
def Accepted (e : Envelope) : Prop :=
  ∃ e', validateEnvelope (.json e) .apply = .ok e' ∧
    (e'.status = .done ∨ e'.status = .doneWithConcerns)

theorem accepted_iff {e : Envelope} : Accepted e ↔ e.validate = .ok () ∧
    e.phase = PhaseType.apply.toString ∧ (e.status = .done ∨ e.status = .doneWithConcerns) := by
  unfold Accepted validateEnvelope Envelope.parse
  cases hresult : e.validate with
  | error err => simp [hresult]
  | ok u =>
    by_cases hphase : e.phase = PhaseType.apply.toString
    · by_cases hlow : e.status = .done ∧ e.confidence < PhaseType.apply.confidenceThreshold
      · simp [hresult, hphase, hlow]
      · simp [hresult, hphase, hlow]
    · simp [hresult, hphase]

/-- With names the validator accepts exactly the documents with an edit.  Their confidence is
zero, so a `DONE` becomes `DONE_WITH_CONCERNS`, which counts as a success too. -/
theorem accepted_named_iff (stdout : List UInt8) (changeName project : String) :
    Accepted (namedEnvelope stdout changeName project) ↔
      parsePorcelainV1 stdout ≠ [] ∧ changeName ≠ "" ∧ project ≠ "" := by
  rw [accepted_iff, Envelope.validate_eq_ok_iff]
  by_cases hedits : parsePorcelainV1 stdout = [] <;>
    simp [namedEnvelope, SynthesizedDoc.envelope, synthesizedDoc, schemaVersionV1,
      PhaseType.toString, EnvelopeStatus.isValid, hedits]

/-- The status of the document is a known one exactly if git status reports an entry that is
classified, and the validator would accept it exactly if it had names as well.  It has none,
so that the attempt never counts as successful. -/
theorem synthesized_accepted_iff (stdout : List UInt8) (changeName project : String) (x : Nat)
    (p : Phase) (task : Task) (sess : Session) (exitCode : Int) :
    ((synthesizedDoc stdout).envelope.status.isValid = true ↔ parsePorcelainV1 stdout ≠ []) ∧
      (Accepted (namedEnvelope stdout changeName project) ↔
        parsePorcelainV1 stdout ≠ [] ∧ changeName ≠ "" ∧ project ≠ "") ∧
      acceptImplement x p task sess (.json (synthesizedDoc stdout).envelope) exitCode =
        (publishEvent p (.envelopeValidationFailed task.id) >>= fun _ =>
          pure ⟨false, none, task, sess⟩) := by
  refine ⟨?_, accepted_named_iff stdout changeName project, ?_⟩
  · by_cases hedits : parsePorcelainV1 stdout = [] <;>
      simp [SynthesizedDoc.envelope, synthesizedDoc, hedits, EnvelopeStatus.isValid]
  · obtain ⟨err, hrefused⟩ := validateEnvelope_synthesizedDoc stdout .apply
    unfold acceptImplement
    rw [hrefused]

/-- A modified file: the document is refused.  No entry, and an entry with a changed file type:
its status is none that the validator knows. -/
theorem synthesized_refused :
    let modified : List UInt8 := [32, 77, 32, 97, 46, 103, 111, 10]
    let typeChanged : List UInt8 := [32, 84, 32, 97, 46, 103, 111, 10]
    parsePorcelainV1 modified = [⟨[97, 46, 103, 111], "modified"⟩] ∧
      synthesizeEnvelopeFromGit "/w" (.ok (.success, modified)) =
        .ok (.json (synthesizedDoc modified).envelope) ∧
      ¬Accepted (synthesizedDoc modified).envelope ∧
      (synthesizedDoc []).envelope.status.isValid = false ∧
      (synthesizedDoc typeChanged).envelope.status.isValid = false := by
  refine ⟨by decide, by rfl, ?_, by decide, by decide⟩
  rw [accepted_iff, Envelope.validate_eq_ok_iff]
  simp [SynthesizedDoc.envelope]

end SophiaOrchestrator.Apply
