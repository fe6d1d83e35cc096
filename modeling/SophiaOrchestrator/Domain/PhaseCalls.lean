import SophiaOrchestrator.Domain.Phase
import SophiaOrchestrator.Effects.InPlace

/-!
# Sequences of calls on a phase

A phase begins pending, with a budget of at least one attempt, and afterwards changes only
by the methods of the aggregate.  They assign its fields in place, and each makes all its
checks before the first assignment.  An envelope that was not decoded may have any `float64`
as its confidence: NaN is not below a threshold, and does not reach it either.
-/

namespace SophiaOrchestrator

open Effects

/-- A `float64`: NaN, an infinity, or the decimal that it prints as. -/
inductive Float64 where
  | nan
  | negInf
  | num (value : ℚ)
  | posInf
  deriving DecidableEq, Repr

namespace Float64

def below : Float64 → ℚ → Bool
  | .negInf, _ => true
  | .num value, threshold => decide (value < threshold)
  | .nan, _ | .posInf, _ => false

def reaches : Float64 → ℚ → Bool
  | .posInf, _ => true
  | .num value, threshold => decide (threshold ≤ value)
  | .nan, _ | .negInf, _ => false

instance : Confidence Float64 where
  zero := .num 0
  below := below

/-- What is not below a threshold reaches it, except for NaN. -/
theorem reaches_iff (x : Float64) (threshold : ℚ) :
    x.reaches threshold = true ↔ x ≠ .nan ∧ x.below threshold = false := by
  cases x <;> simp [reaches, below]

end Float64

inductive PhaseCall (F : Type) where
  | start (now : Time)
  | complete (e : Option (Envelope F)) (now : Time)
  | markInterrupted
  | restart (now : Time)
  | setConcerns (concerns : List Concern)

namespace Phase

variable {F : Type}

/-! ## The methods in place -/

/-- The methods of the aggregate, one assignment after the other as in the source. -/
abbrev Method (F : Type) : Type → Type := InPlace PhaseErr (Phase F)

def startMethod (now : Time) : Method F Unit := do
  if (← get).status.isTerminal then throw .terminal
  if (← get).retryBudget ≤ (← get).attempts then throw .budgetExhausted
  modify fun p => { p with status := .running }
  modify fun p => { p with attempts := p.attempts + 1 }
  modify fun p => { p with startedAt := some now }

def markInterruptedMethod : Method F Unit := do
  if (← get).status.isTerminal then throw .terminal
  modify fun p => { p with status := .interrupted }

theorem startMethod_implements (now : Time) :
    InPlace.Implements (startMethod now : Method F Unit) (·.start now) := by
  intro p
  by_cases hterm : p.status.isTerminal = true
  · simp [startMethod, start, hterm]
  · by_cases hbudget : p.retryBudget ≤ p.attempts
    · simp [startMethod, start, hterm, hbudget]
    · simp [startMethod, start, hterm, hbudget]

theorem markInterruptedMethod_implements :
    InPlace.Implements (markInterruptedMethod : Method F Unit) markInterrupted := by
  intro p
  by_cases hterm : p.status.isTerminal = true
  · simp [markInterruptedMethod, markInterrupted, hterm]
  · simp [markInterruptedMethod, markInterrupted, hterm]

variable [Confidence F] {p p' : Phase F} {call : PhaseCall F}

/-- `New`: a budget that is not positive becomes one attempt. -/
def new (id : PhaseID) (changeID : ChangeID) (pt : PhaseType) (retryBudget : Int) : Phase F where
  id := id
  changeID := changeID
  pType := pt
  status := .pending
  confidence := Confidence.zero
  retryBudget := if retryBudget ≤ 0 then 1 else retryBudget.toNat
  attempts := 0

def completeMethod (e : Option (Envelope F)) (now : Time) : Method F Unit := do
  if (← get).status ≠ .running then throw .notRunning
  match e with
  | none => throw .envelopeNil
  | some e =>
    if e.phase ≠ (← get).pType.toString then throw .envelopeMismatch
    let threshold := (← get).pType.confidenceThreshold
    if e.status = .done ∧ Confidence.below e.confidence threshold then throw .belowThreshold
    modify fun p => { p with envelope := some e }
    modify fun p => { p with confidence := e.confidence }
    modify fun p => { p with completedAt := some now }
    match e.status with
    | .done => modify fun p => { p with status := .done }
    | .doneWithConcerns => modify fun p => { p with status := .doneWithConcerns }
    | .blocked => modify fun p => { p with status := .blocked }
    | .needsContext => modify fun p => { p with status := .needsContext }
    | .unknown _ => pure ()

def restartMethod (now : Time) : Method F Unit := do
  if (← get).status ≠ .blocked then
    if (← get).status.isTerminal then throw .terminal
    throw .notBlocked
  if (← get).retryBudget ≤ (← get).attempts then throw .budgetExhausted
  modify fun p => { p with status := .running }
  modify fun p => { p with attempts := p.attempts + 1 }
  modify fun p => { p with startedAt := some now }
  modify fun p => { p with completedAt := none }
  modify fun p => { p with envelope := none }
  modify fun p => { p with confidence := Confidence.zero }

theorem completeMethod_implements (e : Option (Envelope F)) (now : Time) :
    InPlace.Implements (completeMethod e now) (·.complete e now) := by
  intro p
  by_cases hrunning : p.status = .running
  · cases e with
    | none => simp [completeMethod, complete, hrunning]
    | some e =>
      by_cases hphase : e.phase = p.pType.toString
      · by_cases hlow : e.status = .done ∧ Confidence.below e.confidence p.pType.confidenceThreshold
        · simp [completeMethod, complete, hrunning, hphase, hlow]
        · simp only [completeMethod, complete, hrunning, hphase, hlow, ne_eq, not_true_eq_false,
            if_false, InPlace.get_bind_run, InPlace.modify_bind_run]
          cases e.status <;> simp [statusOf]
      · simp [completeMethod, complete, hrunning, hphase]
  · simp [completeMethod, complete, hrunning]

theorem restartMethod_implements (now : Time) :
    InPlace.Implements (restartMethod now : Method F Unit) (·.restart now) := by
  intro p
  by_cases hblocked : p.status = .blocked
  · by_cases hbudget : p.retryBudget ≤ p.attempts
    · simp [restartMethod, restart, hblocked, hbudget]
    · simp [restartMethod, restart, hblocked, hbudget]
  · by_cases hterm : p.status.isTerminal = true
    · simp [restartMethod, restart, hblocked, hterm]
    · simp [restartMethod, restart, hblocked, hterm]

def method : PhaseCall F → Method F Unit
  | .start now => startMethod now
  | .complete e now => completeMethod e now
  | .markInterrupted => markInterruptedMethod
  | .restart now => restartMethod now
  | .setConcerns concerns => modify fun p => { p with concerns := concerns }

def callResult (p : Phase F) : PhaseCall F → Except PhaseErr (Phase F)
  | .start now => p.start now
  | .complete e now => p.complete e now
  | .markInterrupted => p.markInterrupted
  | .restart now => p.restart now
  | .setConcerns concerns => .ok (p.setConcerns concerns)

/-- In place a call does what its function does, and an error finds the phase as it was. -/
theorem method_implements (call : PhaseCall F) :
    InPlace.Implements (method call) (·.callResult call) :=
  match call with
  | .start now => startMethod_implements now
  | .complete e now => completeMethod_implements e now
  | .markInterrupted => markInterruptedMethod_implements
  | .restart now => restartMethod_implements now
  | .setConcerns _ => fun _ => rfl

def afterCall (p : Phase F) (call : PhaseCall F) : Phase F :=
  InPlace.after (method call) p

def afterCalls (p : Phase F) (calls : List (PhaseCall F)) : Phase F :=
  calls.foldl afterCall p

@[simp] theorem afterCalls_cons (p : Phase F) (call : PhaseCall F) (calls : List (PhaseCall F)) :
    p.afterCalls (call :: calls) = (p.afterCall call).afterCalls calls := rfl

/-! ## What a call can do -/

/-- What a call that is accepted does to the attempts, the status and the envelope. -/
inductive Moves (p : Phase F) : PhaseCall F → Phase F → Prop where
  | start (now : Time) (hopen : p.status.isTerminal = false)
    (hbudget : p.attempts < p.retryBudget) :
      Moves p (.start now)
        { p with status := .running, attempts := p.attempts + 1, startedAt := some now }
  | complete (e : Envelope F) (now : Time) (hrunning : p.status = .running)
      (hphase : e.phase = p.pType.toString)
      (hgate : ¬(e.status = .done ∧ Confidence.below e.confidence p.pType.confidenceThreshold)) :
      Moves p (.complete (some e) now)
        { p with envelope := some e, confidence := e.confidence, completedAt := some now,
                 status := statusOf e.status }
  | interrupt (hopen : p.status.isTerminal = false) :
      Moves p .markInterrupted { p with status := .interrupted }
  | restart (now : Time) (hblocked : p.status = .blocked) (hbudget : p.attempts < p.retryBudget) :
      Moves p (.restart now)
        { p with status := .running, attempts := p.attempts + 1, startedAt := some now,
                 completedAt := none, envelope := none, confidence := Confidence.zero }
  | concerns (concerns : List Concern) :
      Moves p (.setConcerns concerns) { p with concerns := concerns }

theorem moves_of_callResult (h : p.callResult call = .ok p') : Moves p call p' := by
  cases call with
  | start now =>
    obtain ⟨hopen, hbudget, rfl⟩ := start_eq_ok_iff.mp h
    exact .start now hopen hbudget
  | complete e now =>
    cases e with
    | none =>
      simp only [callResult, complete] at h
      split at h <;> cases h
    | some e =>
      obtain ⟨hrunning, hphase, hgate, rfl⟩ := complete_some_eq_ok_iff.mp h
      exact .complete e now hrunning hphase hgate
  | markInterrupted =>
    simp only [callResult, markInterrupted] at h
    split at h
    · cases h
    · next hopen =>
      cases h
      exact .interrupt (by simpa using hopen)
  | restart now =>
    obtain ⟨hblocked, hbudget, rfl⟩ := restart_eq_ok_iff.mp h
    exact .restart now hblocked hbudget
  | setConcerns concerns =>
    cases h
    exact .concerns concerns

/-- A call is refused and changes nothing, or it makes one of the moves. -/
theorem afterCall_cases (p : Phase F) (call : PhaseCall F) :
    p.afterCall call = p ∨ Moves p call (p.afterCall call) := by
  cases h : p.callResult call with
  | error err => exact .inl ((method_implements call).after_of_error h)
  | ok p' =>
    rw [afterCall, (method_implements call).after_of_ok h]
    exact .inr (moves_of_callResult h)

theorem status_afterCall (p : Phase F) (call : PhaseCall F)
    (hterminal : p.status.isTerminal = true) :
    (p.afterCall call).status = p.status ∨ p.status = .blocked ∧ ∃ now, call = .restart now := by
  rcases p.afterCall_cases call with hsame | hmove
  · exact .inl (by rw [hsame])
  · generalize p.afterCall call = p' at hmove
    cases hmove with
    | start now hopen hbudget | interrupt hopen => simp [hopen] at hterminal
    | complete e now hrunning hphase hgate => simp [hrunning, PhaseStatus.isTerminal] at hterminal
    | restart now hblocked hbudget => exact .inr ⟨hblocked, now, rfl⟩
    | concerns concerns => exact .inl rfl

theorem outcome_afterCall (p : Phase F) (call : PhaseCall F) :
    (p.afterCall call).pType = p.pType ∧
      (p.status = .done → (p.afterCall call).status = .done ∧
        (p.afterCall call).envelope = p.envelope) := by
  rcases p.afterCall_cases call with hsame | hmove
  · rw [hsame]
    exact ⟨rfl, fun hdone => ⟨hdone, rfl⟩⟩
  · generalize p.afterCall call = p' at hmove
    cases hmove with
    | start now hopen hbudget | interrupt hopen =>
      exact ⟨rfl, fun hdone => by rw [hdone] at hopen; cases hopen⟩
    | complete e now hrunning hphase hgate =>
      exact ⟨rfl, fun hdone => by rw [hdone] at hrunning; cases hrunning⟩
    | restart now hblocked hbudget =>
      exact ⟨rfl, fun hdone => by rw [hdone] at hblocked; cases hblocked⟩
    | concerns concerns => exact ⟨rfl, fun hdone => ⟨hdone, rfl⟩⟩

/-- Every call of the sequence meets the condition at the phase it is made on. -/
def callsMeet (ok : Phase F → PhaseCall F → Bool) : Phase F → List (PhaseCall F) → Bool
  | _, [] => true
  | p, call :: calls => ok p call && callsMeet ok (p.afterCall call) calls

/-! ## The budget and the gate -/

section Gate

variable {p p' : Phase Float64} {call : PhaseCall Float64}

/-- A done phase has a stored `DONE` envelope of its type that reaches the threshold. -/
def Gated (p : Phase Float64) : Prop :=
  p.status = .done → ∃ e, p.envelope = some e ∧ e.status = .done ∧
    e.phase = p.pType.toString ∧ e.confidence.reaches p.pType.confidenceThreshold = true

/-- The attempts are within the budget and a done phase has passed the gate; no call leaves
done or done_with_concerns, only `Restart` leaves blocked, and a call that returns an error
leaves the phase as it was. -/
structure WellBehaved (p : Phase Float64) : Prop where
  budget : p.attempts ≤ p.retryBudget
  gated : p.Gated
  done : p.status = .done → ∀ call, (p.afterCall call).status = .done
  concerned : p.status = .doneWithConcerns → ∀ call, (p.afterCall call).status = .doneWithConcerns
  blocked : p.status = .blocked → ∀ call, (p.afterCall call).status ≠ .blocked →
    ∃ now, call = .restart now
  refused : ∀ call err p', method call p = .error err p' → p' = p

/-- The call does not complete the running phase with a `DONE` whose confidence is NaN. -/
def isNumber (p : Phase Float64) : PhaseCall Float64 → Bool
  | .complete (some e) _ => p.status ≠ .running ∨ e.phase ≠ p.pType.toString ∨ e.status ≠ .done ∨
    e.confidence ≠ .nan
  | _ => true

theorem budget_afterCall (h : p.attempts ≤ p.retryBudget) (call : PhaseCall Float64) :
    (p.afterCall call).attempts ≤ (p.afterCall call).retryBudget := by
  rcases p.afterCall_cases call with hsame | hmove
  · rwa [hsame]
  · generalize p.afterCall call = p' at hmove
    cases hmove with
    | start now hopen hbudget | restart now hblocked hbudget => exact hbudget
    | _ => exact h

theorem statusOf_eq_done {status : EnvelopeStatus} : statusOf status = .done ↔ status = .done := by
  cases status <;> simp [statusOf]

theorem exists_of_not_isNumber (h : ¬p.isNumber call = true) :
    ∃ e now, call = .complete (some e) now ∧ p.status = .running ∧ e.phase = p.pType.toString ∧
      e.status = .done ∧ e.confidence = .nan := by
  unfold isNumber at h
  split at h
  · next e now => exact ⟨e, now, rfl, by simpa [not_or] using h⟩
  · exact absurd rfl h

/-- From a phase that has passed its gate a call leads to one that has, exactly if it does not
complete with NaN. -/
theorem gated_afterCall_iff (h : p.Gated) (call : PhaseCall Float64) :
    (p.afterCall call).Gated ↔ p.isNumber call = true := by
  constructor
  · intro hgated
    by_contra hnan
    obtain ⟨e, now, rfl, hrunning, hphase, hdone, hconfidence⟩ := exists_of_not_isNumber hnan
    have hgate : ¬(e.status = .done ∧
        Confidence.below e.confidence p.pType.confidenceThreshold = true) := by
      simp [hconfidence, Confidence.below, Float64.below]
    have hresult : p.callResult (.complete (some e) now) = .ok _ :=
      complete_some_eq_ok_iff.mpr ⟨hrunning, hphase, hgate, rfl⟩
    rw [afterCall, (method_implements _).after_of_ok hresult] at hgated
    obtain ⟨e', henvelope, -, -, hreaches⟩ := hgated (statusOf_eq_done.mpr hdone)
    obtain rfl := Option.some.inj henvelope
    simp [hconfidence, Float64.reaches] at hreaches
  · intro hnumber
    rcases p.afterCall_cases call with hsame | hmove
    · rwa [hsame]
    generalize p.afterCall call = p' at hmove
    cases hmove with
    | complete e now hrunning hphase hgate =>
      intro hdone
      have hstatus := statusOf_eq_done.mp hdone
      refine ⟨e, rfl, hstatus, hphase, (Float64.reaches_iff _ _).mpr ⟨?_, ?_⟩⟩
      · simpa [isNumber, hrunning, hphase, hstatus] using hnumber
      · change Confidence.below e.confidence p.pType.confidenceThreshold = false
        simpa [hstatus] using hgate
    | concerns concerns => exact h
    | _ => exact fun hdone => by cases hdone

/-- What has got past the gate stays done, with its envelope. -/
theorem not_gated_afterCall (h : ¬p.Gated) (call : PhaseCall Float64) :
    ¬(p.afterCall call).Gated := by
  obtain ⟨hdone, hbad⟩ := Classical.not_imp.mp h
  obtain ⟨htype, hkept⟩ := p.outcome_afterCall call
  obtain ⟨hdone', henvelope⟩ := hkept hdone
  intro hgated
  have hgood := hgated hdone'
  rw [henvelope, htype] at hgood
  exact hbad hgood

theorem gated_afterCalls_iff (h : p.Gated) (calls : List (PhaseCall Float64)) :
    (p.afterCalls calls).Gated ↔ callsMeet isNumber p calls = true := by
  induction calls generalizing p with
  | nil => simpa [afterCalls, callsMeet] using h
  | cons call calls ih =>
    have hstep := gated_afterCall_iff h call
    by_cases hnumber : p.isNumber call = true
    · simpa [callsMeet, hnumber] using ih (hstep.mpr hnumber)
    · -- A phase that is not gated never becomes so again.
      have hkept : ∀ (rest : List (PhaseCall Float64)) (q : Phase Float64), ¬q.Gated →
          ¬(q.afterCalls rest).Gated := by
        intro rest
        induction rest with
        | nil => exact fun q hq => hq
        | cons next rest ih => exact fun q hq => ih _ (not_gated_afterCall hq next)
      simpa [callsMeet, hnumber] using hkept calls _ (mt hstep.mp hnumber)

theorem budget_afterCalls (h : p.attempts ≤ p.retryBudget) (calls : List (PhaseCall Float64)) :
    (p.afterCalls calls).attempts ≤ (p.afterCalls calls).retryBudget := by
  induction calls generalizing p with
  | nil => exact h
  | cons call calls ih => exact ih (budget_afterCall h call)

/-- After a sequence of calls on a new phase all that the aggregate promises holds exactly if no
call has completed the running phase with a `DONE` whose confidence is NaN. -/
theorem wellBehaved_iff (id : PhaseID) (changeID : ChangeID) (pt : PhaseType)
    (retryBudget : Int) (calls : List (PhaseCall Float64)) :
    ((new id changeID pt retryBudget).afterCalls calls).WellBehaved ↔
      callsMeet isNumber (new id changeID pt retryBudget) calls = true := by
  have hgated := gated_afterCalls_iff (p := new id changeID pt retryBudget)
    (fun hdone => by cases hdone) calls
  refine ⟨fun h => hgated.mp h.gated, fun hnumbers => ?_⟩
  have hbudget := budget_afterCalls (p := new id changeID pt retryBudget) (Nat.zero_le _) calls
  generalize (new id changeID pt retryBudget).afterCalls calls = p at hbudget hgated
  refine ⟨hbudget, hgated.mpr hnumbers, fun hdone call => ?_, fun hdone call => ?_,
    fun hblocked call hleft => ?_, fun call err p' herr => (method_implements call).frame herr⟩
  · exact ((p.outcome_afterCall call).2 hdone).1
  · rcases p.status_afterCall call (by rw [hdone]; rfl) with hsame | ⟨hblocked, -⟩
    · rw [hsame, hdone]
    · simp [hdone] at hblocked
  · rcases p.status_afterCall call (by rw [hblocked]; rfl) with hsame | ⟨-, hrestart⟩
    · exact absurd (hsame.trans hblocked) hleft
    · exact hrestart

def nanCalls : List (PhaseCall Float64) :=
  [.start 1, .complete (some
    { schemaVersion := schemaVersionV1, phase := "spec", changeName := "c", project := "p"
      status := .done, confidence := .nan, executiveSummary := "" }) 2]

/-- It becomes done below its gate. -/
theorem nan_passes_gate :
    ((new ⟨1⟩ ⟨1⟩ .spec 3).afterCalls nanCalls).status = .done ∧
      ¬((new ⟨1⟩ ⟨1⟩ .spec 3).afterCalls nanCalls).WellBehaved := by
  refine ⟨by decide, fun h => ?_⟩
  obtain ⟨e, henvelope, -, -, hreaches⟩ := h.gated (by decide)
  obtain rfl := Option.some.inj henvelope
  cases hreaches

end Gate

/-! ## The envelope and the status -/

/-- The envelope is set exactly in the statuses an envelope leads to, and without one the
confidence is zero. -/
structure CarriesOutcome (p : Phase F) : Prop where
  envelope : p.envelope.isSome = true ↔
    p.status = .done ∨ p.status = .doneWithConcerns ∨ p.status = .blocked ∨
      p.status = .needsContext
  confidence : p.envelope = none → p.confidence = Confidence.zero

def validOutcome : PhaseCall F → Bool
  | .complete (some e) _ => e.status.isValid
  | _ => true

/-- The call does not take a phase out of needs_context: neither `Start` nor
`MarkInterrupted` drops the envelope that status has. -/
def sparesContext (p : Phase F) : PhaseCall F → Bool
  | .start _ => p.status ≠ .needsContext ∨ p.retryBudget ≤ p.attempts
  | .markInterrupted => p.status ≠ .needsContext
  | _ => true

theorem carriesOutcome_new (id : PhaseID) (changeID : ChangeID) (pt : PhaseType)
    (retryBudget : Int) : (new id changeID pt retryBudget : Phase F).CarriesOutcome :=
  ⟨by simp [new], fun _ => rfl⟩

theorem CarriesOutcome.envelope_eq_none (h : p.CarriesOutcome)
    (hopen : p.status.isTerminal = false) (hcontext : p.status ≠ .needsContext) :
    p.envelope = none := by
  by_contra hsome
  have hstatus := h.envelope.mp (Option.isSome_iff_ne_none.mpr hsome)
  rcases hstatus with hs | hs | hs | hs
  · simp [hs, PhaseStatus.isTerminal] at hopen
  · simp [hs, PhaseStatus.isTerminal] at hopen
  · simp [hs, PhaseStatus.isTerminal] at hopen
  · exact hcontext hs

theorem CarriesOutcome.moves (h : p.CarriesOutcome) (hvalid : validOutcome call = true)
    (hspares : p.sparesContext call = true) (hmove : Moves p call p') : p'.CarriesOutcome := by
  cases hmove with
  | start now hopen hbudget =>
    have hcontext : p.status ≠ .needsContext := by
      simpa [sparesContext, Nat.not_le.mpr hbudget] using hspares
    have hnone := h.envelope_eq_none hopen hcontext
    exact ⟨by simp [hnone], fun _ => h.confidence hnone⟩
  | complete e now hrunning hphase hgate =>
    refine ⟨?_, fun hnone => by cases hnone⟩
    -- Each of the four statuses of an envelope leads to a status that carries one.
    revert hvalid
    cases hstatus : e.status <;> simp [validOutcome, hstatus, EnvelopeStatus.isValid, statusOf]
  | interrupt hopen =>
    have hnone := h.envelope_eq_none hopen (by simpa [sparesContext] using hspares)
    exact ⟨by simp [hnone], fun _ => h.confidence hnone⟩
  | restart now hblocked hbudget => exact ⟨by simp, fun _ => rfl⟩
  | concerns concerns => exact ⟨h.envelope, h.confidence⟩

theorem CarriesOutcome.afterCall (h : p.CarriesOutcome) (hvalid : validOutcome call = true)
    (hspares : p.sparesContext call = true) : (p.afterCall call).CarriesOutcome := by
  rcases p.afterCall_cases call with hsame | hmove
  · rwa [hsame]
  · exact h.moves hvalid hspares hmove

theorem CarriesOutcome.afterCalls {calls : List (PhaseCall F)} (h : p.CarriesOutcome)
    (hvalid : ∀ call ∈ calls, validOutcome call = true)
    (hspares : callsMeet sparesContext p calls = true) : (p.afterCalls calls).CarriesOutcome := by
  induction calls generalizing p with
  | nil => exact h
  | cons call calls ih =>
    simp only [callsMeet, Bool.and_eq_true] at hspares
    exact ih (h.afterCall (hvalid call List.mem_cons_self) hspares.1)
      (fun other hother => hvalid other (List.mem_cons_of_mem _ hother)) hspares.2

/-- In every sequence of calls that takes no phase out of needs_context, the envelope is set
exactly in the four statuses that have one, and the confidence is zero without it. -/
theorem carriesOutcome_of_sparesContext (id : PhaseID) (changeID : ChangeID) (pt : PhaseType)
    (retryBudget : Int) (calls : List (PhaseCall F))
    (hvalid : ∀ call ∈ calls, validOutcome call = true)
    (hspares : callsMeet sparesContext (new id changeID pt retryBudget) calls = true) :
    ((new id changeID pt retryBudget).afterCalls calls).CarriesOutcome :=
  (carriesOutcome_new id changeID pt retryBudget).afterCalls hvalid hspares

def contextCalls : List (PhaseCall Float64) :=
  [.start 1,
    .complete (some
      { schemaVersion := schemaVersionV1, phase := "spec", changeName := "c", project := "p"
        status := .needsContext, confidence := .num 1, executiveSummary := "" }) 2]

/-- A phase that asked for context, and is then refused a restart. -/
theorem carriesOutcome_contextCalls :
    ((new ⟨1⟩ ⟨1⟩ .spec 3).afterCalls (contextCalls ++ [.restart 3])).CarriesOutcome :=
  carriesOutcome_of_sparesContext ⟨1⟩ ⟨1⟩ .spec 3 _ (by decide) (by decide)

/-- Starting or interrupting a phase that asked for context keeps its envelope. -/
theorem running_with_envelope :
    (∀ call ∈ contextCalls ++ [.start 3, .markInterrupted], validOutcome call = true) ∧
    ((new ⟨1⟩ ⟨1⟩ .spec 3).afterCalls (contextCalls ++ [.start 3])).status = .running ∧
    ((new ⟨1⟩ ⟨1⟩ .spec 3).afterCalls (contextCalls ++ [.start 3])).envelope.isSome = true ∧
    ((new ⟨1⟩ ⟨1⟩ .spec 3).afterCalls (contextCalls ++ [.markInterrupted])).status =
      .interrupted ∧
    ((new ⟨1⟩ ⟨1⟩ .spec 3).afterCalls
      (contextCalls ++ [.markInterrupted])).envelope.isSome = true := by
  decide

end Phase

end SophiaOrchestrator
