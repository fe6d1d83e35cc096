import SophiaOrchestrator.Phase.Service

/-!
# What the procedures of a run perform

The procedures that a run calls on its way read, keep records of their own and announce what
happens meanwhile.  Each of them is walked through once here, for every property that such
chores have: the later modules say which property of an operation they are about, and that the
chores have it.
-/

namespace SophiaOrchestrator

open Effects Prog

def EventType.endsPhase : EventType → Bool
  | .phaseCompleted | .phaseCompletedWithConcerns | .phaseNeedsContext | .phaseFailed => true
  | _ => false

/-- The operation reads, keeps a record, asks for an id, a prompt or a review, or announces
something other than the end of a phase. -/
def Op.idle : Op → Bool
  | .phaseFindByChangeAndType _ _ | .phaseFindRunningByChange _ | .phaseFindAllRunning => true
  | .phaseLockByChange _ | .auditAppend _ | .auditHasEventForPhase _ _ | .sessionSave _ => true
  | .newPhaseID | .newSessionID | .newOutboxID | .now => true
  | .buildPrompt _ _ _ _ | .criticReview _ _ _ => true
  | .publishEvent _ eventType => !eventType.endsPhase
  | _ => false

section Chores

variable {ans : (op : Op) → op.Ret → Prop} {P : Op → Prop} {cfg : ServiceConfig} {c : Change}
  {p : Phase} {env : Envelope} {pid : Option PhaseID} {eventType : EventType}

theorem publishEvent_uses (h : P (.publishEvent pid eventType)) :
    (publishEvent pid eventType).Uses ans P fun _ => True :=
  ⟨h, fun _ _ => trivial⟩

variable (hP : ∀ {op : Op}, op.idle = true → P op)
include hP

theorem appendAudit_uses {cid : Option ChangeID} {pid : PhaseID} :
    (appendAudit cid pid eventType).Uses ans P fun _ => True :=
  ⟨hP rfl, fun _ _ => trivial⟩

theorem reviewConcerns_uses {overrides : Json} :
    (reviewConcerns cfg c p env overrides).Uses ans P fun _ => True := by
  unfold reviewConcerns
  split
  · refine uses_perform_bind (hP rfl) fun answer _ => ?_
    cases answer <;> trivial
  · trivial

theorem saveSession_uses : (saveSession c p).Uses ans P fun _ => True := by
  refine uses_perform_bind (hP rfl) fun answer _ => ?_
  cases answer with
  | error err => exact appendAudit_uses hP
  | ok _ => trivial

theorem ensureRunning_uses :
    (ensureRunning p).Uses ans P
      fun p' => p' = p ∨ (p.status ≠ .running ∧ ∃ now, p.start now = .ok p') := by
  unfold ensureRunning
  split
  · next hrun =>
    refine uses_perform_bind (hP rfl) fun now _ => ?_
    cases hstart : p.start now with
    | error err => exact .inl rfl
    | ok p' => exact .inr ⟨hrun, now, hstart⟩
  · exact .inl rfl

theorem publishArchived_uses : (publishArchived c).Uses ans P fun _ => True := by
  refine uses_perform_bind (hP rfl) fun answer _ => ?_
  cases answer <;> exact publishEvent_uses (hP rfl)

theorem checkGateState_uses {id : PhaseID} : (checkGateState id).Uses ans P fun _ => True := by
  refine uses_perform_bind (hP rfl) fun answer _ => ?_
  match answer with
  | .error err => trivial
  | .ok false => trivial
  | .ok true =>
    refine uses_perform_bind (hP rfl) fun answer _ => ?_
    match answer with
    | .error err => trivial
    | .ok true => trivial
    | .ok false => trivial

end Chores

end SophiaOrchestrator
