import SophiaOrchestrator.Phase.Gates

/-!
# The input of a resumed phase

An execution of a phase reads three things of the input of `Run`: the task description, whether
tests are required, and whether the critic was opted in.  None of them is stored with the phase,
and `Resume` starts the execution with an input that has none of them.
-/

namespace SophiaOrchestrator

open Effects Prog

variable {cfg : ServiceConfig} {c : Change} {p : Phase} {inp inp' : RunPhaseInput}

/-- `parseScopeTestsRequired`: a missing key or a value of another type means that no tests are
required. -/
def parseScopeTestsRequired (overrides : Json) : Bool :=
  match (overrides.get? "scope").bind (·.get? "tests_required") with
  | some (.bool required) => required
  | _ => false

def promptRequest (inp : RunPhaseInput) : String × Bool :=
  (inp.taskDescription, parseScopeTestsRequired inp.contextOverrides)

/-- The two programs perform the same operations and go on alike after each answer.  Of the input
of a prompt only what the prompt builder reads is compared. -/
inductive SameWork {α : Type} : Program α → Program α → Prop where
  | done (value : α) : SameWork (.done value) (.done value)
  | call (op : Op) {next next' : op.Ret → Program α}
      (hnext : ∀ answer, SameWork (next answer) (next' answer)) :
      SameWork (.call op next) (.call op next')
  | prompt (c : Change) (p : Phase) (prior : PriorPhases) {inp inp' : RunPhaseInput}
      {next next' : Except String Unit → Program α}
      (hrequest : promptRequest inp = promptRequest inp')
      (hnext : ∀ answer, SameWork (next answer) (next' answer)) :
      SameWork (.call (.buildPrompt c p inp prior) next) (.call (.buildPrompt c p inp' prior) next')

def keptInput (inp : RunPhaseInput) (c : Change) (p : Phase) : RunPhaseInput :=
  { inp with changeID := c.id, phaseType := p.pType, retryBudget := p.retryBudget }

/-- Where `Resume` schedules a phase of the type of the input, it does what it would do with the
input that `Run` was given. -/
def ResumesAlike (cfg : ServiceConfig) (inp : RunPhaseInput) : Prop :=
  ∀ (c : Change) (p : Phase), p.pType = inp.phaseType →
    SameWork (schedule cfg (resumedInput c p) (.ok (c, p)))
      (schedule cfg (keptInput inp c p) (.ok (c, p)))

namespace SameWork

variable {α β : Type}

theorem refl (prog : Program α) : SameWork prog prog := by
  induction prog with
  | done value => exact .done value
  | call op next ih => exact .call op ih

theorem bind {prog prog' : Program α} {f f' : α → Program β} (h : SameWork prog prog')
    (hf : ∀ value, SameWork (f value) (f' value)) : SameWork (prog >>= f) (prog' >>= f') := by
  induction h with
  | done value => exact hf value
  | call op _ ih => exact .call op ih
  | prompt c p prior hrequest _ ih => exact .prompt c p prior hrequest ih

theorem op_eq (op op' : Op) {next : op.Ret → Program α} {next' : op'.Ret → Program α}
    (h : SameWork (.call op next) (.call op' next')) :
    op = op' ∨ ∃ c p inp prior, op = .buildPrompt c p inp prior := by
  cases h with
  | call _ _ => exact .inl rfl
  | prompt c p prior _ _ => exact .inr ⟨c, p, _, prior, rfl⟩

theorem answer (op : Op) {next next' : op.Ret → Program α}
    (h : SameWork (.call op next) (.call op next')) (answer : op.Ret) :
    SameWork (next answer) (next' answer) := by
  cases h with
  | call _ hnext | prompt _ _ _ _ hnext => exact hnext answer

theorem prompt_inv {prior : PriorPhases} {next next' : Except String Unit → Program α}
    (h : SameWork (.call (.buildPrompt c p inp prior) next)
      (.call (.buildPrompt c p inp' prior) next')) :
    promptRequest inp = promptRequest inp' ∧ ∀ answer, SameWork (next answer) (next' answer) := by
  cases h with
  | call _ hnext => exact ⟨rfl, hnext⟩
  | prompt _ _ _ hrequest hnext => exact ⟨hrequest, hnext⟩

theorem after_loadPrior {cid : ChangeID} {types : List PhaseType} {out : PriorPhases}
    {f f' : Except RepoErr PriorPhases → Program α} {k : α → Program β} (row : Phase)
    (h : SameWork ((loadPriorPhasesFrom cid types out >>= f) >>= k)
      ((loadPriorPhasesFrom cid types out >>= f') >>= k)) :
    SameWork (f (.ok (out ++ types.map fun pt => (pt, ⟨row.status, row.confidence⟩))) >>= k)
      (f' (.ok (out ++ types.map fun pt => (pt, ⟨row.status, row.confidence⟩))) >>= k) := by
  induction types generalizing out with
  | nil => rwa [List.map_nil, List.append_nil]
  | cons pt rest ih =>
    have hrest := ih (SameWork.answer (.phaseFindByChangeAndType cid pt) h (.ok row))
    rwa [List.append_assoc] at hrest

end SameWork

/-! ## What an execution reads of its input -/

section Reads

variable (hcritic : cfg.hasCritic = true → parseScopeCriticEnabled inp.contextOverrides =
    parseScopeCriticEnabled inp'.contextOverrides)

include hcritic

theorem reviewConcerns_eq (env : Envelope) :
    reviewConcerns cfg c p env inp.contextOverrides =
      reviewConcerns cfg c p env inp'.contextOverrides := by
  unfold reviewConcerns
  by_cases hhas : cfg.hasCritic = true
  · rw [hcritic hhas]
  · simp [hhas]

theorem acceptEnvelope_eq : acceptEnvelope cfg c p inp = acceptEnvelope cfg c p inp' := by
  funext raw
  simp only [acceptEnvelope, reviewConcerns_eq hcritic]

theorem dispatchAgent_eq : dispatchAgent cfg c p inp = dispatchAgent cfg c p inp' := by
  simp only [dispatchAgent, acceptEnvelope_eq hcritic]

theorem applyOutcome_eq (prior : Option PriorPhases) :
    applyOutcome cfg c p inp prior = applyOutcome cfg c p inp' prior := by
  simp only [applyOutcome, reviewConcerns_eq hcritic]

theorem agentOutcome_sameWork (hrequest : promptRequest inp = promptRequest inp') :
    SameWork (agentOutcome cfg c p inp) (agentOutcome cfg c p inp') := by
  refine .bind (.refl _) fun prior => ?_
  cases prior with
  | error err => exact .refl _
  | ok prior =>
    simp only
    split
    · exact .refl _
    refine .prompt c p prior hrequest fun answer => ?_
    cases answer with
    | error err => exact .refl _
    | ok _ =>
      rw [dispatchAgent_eq hcritic]
      exact .refl _

theorem governedOutcome_sameWork (htask : inp.taskDescription = inp'.taskDescription)
    (htests : ¬(p.pType = .apply ∧ cfg.hasApplyExecutor) →
      promptRequest inp = promptRequest inp') :
    SameWork (governedOutcome cfg c p inp) (governedOutcome cfg c p inp') := by
  unfold governedOutcome
  rw [htask]
  refine .bind (.refl _) fun answer => ?_
  cases answer with
  | error err => exact .refl _
  | ok decision =>
    refine .bind (.refl _) fun _ => ?_
    cases decision.decision with
    | deny | requireApproval => exact .refl _
    | _ =>
      simp only
      split
      · rw [funext (applyOutcome_eq hcritic)]
        exact .refl _
      next hagent => exact agentOutcome_sameWork hcritic (htests hagent)

end Reads

/-- What an execution of the type reads of the input is what `Resume` passes on: init with its
service reads nothing, apply with its executor builds no prompt here, and the opt-in counts only
where there is a critic. -/
def keepsInput (cfg : ServiceConfig) (inp : RunPhaseInput) : Bool :=
  decide (inp.phaseType = .init ∧ cfg.hasInit) ||
    decide (inp.taskDescription = "") &&
      (decide (inp.phaseType = .apply ∧ cfg.hasApplyExecutor) ||
        !parseScopeTestsRequired inp.contextOverrides) &&
      (!cfg.hasCritic || !parseScopeCriticEnabled inp.contextOverrides)

theorem resumesAlike_of_keepsInput (h : keepsInput cfg inp = true) : ResumesAlike cfg inp := by
  intro c p htype
  refine .call _ fun _ => ?_
  change SameWork (runAsync cfg c p _) (runAsync cfg c p _)
  refine .bind ?_ fun _ => .refl _
  unfold phaseOutcome
  split
  · exact .refl _
  next hgoverned =>
    rw [htype] at hgoverned
    simp only [keepsInput, hgoverned, decide_false, Bool.false_or, Bool.and_eq_true,
      decide_eq_true_eq, Bool.or_eq_true, Bool.not_eq_true'] at h
    obtain ⟨⟨htask, htests⟩, hcritic⟩ := h
    refine governedOutcome_sameWork (fun hhas => ?_) htask.symm fun hagent => ?_
    · exact (hcritic.resolve_left (by simp [hhas])).symm
    · rw [htype] at hagent
      exact Prod.ext htask.symm (htests.resolve_left hagent).symm

/-! ## What a difference leads to -/

/-- An execution that asks the critic differs from one that does not and goes on to the clock. -/
theorem not_sameWork_reviewed {overrides overrides' : Json} {α : Type}
    {f : List Concern → Program α}
    {k : α → Program Unit} {next : Time → Program Unit} {env : Envelope}
    (hhas : cfg.hasCritic = true) (hoff : parseScopeCriticEnabled overrides = false)
    (hon : parseScopeCriticEnabled overrides' = true) (hnext : (f [] >>= k) = .call .now next) :
    ¬SameWork ((reviewConcerns cfg c p env overrides >>= f) >>= k)
      ((reviewConcerns cfg c p env overrides' >>= f) >>= k) := by
  intro h
  have hleft : ((reviewConcerns cfg c p env overrides >>= f) >>= k) = .call .now next := by
    simp only [reviewConcerns, hoff, Bool.false_eq_true, and_false, if_false]
    exact hnext
  rw [hleft] at h
  simp only [reviewConcerns, hhas, hon, and_self, if_true] at h
  rcases SameWork.op_eq .now (.criticReview _ _ _) h with heq | ⟨_, _, _, _, heq⟩ <;> cases heq

def firstAttempt (pt : PhaseType) : Phase :=
  ⟨⟨7⟩, ⟨1⟩, pt, .running, none, 0, 3, 1, none, none, []⟩

def doneRow : Phase := ⟨⟨6⟩, ⟨1⟩, .verify, .done, none, 1, 3, 1, none, none, []⟩

section Differs

variable {k : AsyncOutcome → Program Unit} {pt : PhaseType}
  (hk : ∀ env label persist, ∃ next, k (.enveloped env [] label persist) = .call .now next)
  (hhas : cfg.hasCritic = true) (hoff : parseScopeCriticEnabled inp.contextOverrides = false)

include hk hhas hoff

theorem apply_reads (h : SameWork (applyOutcome cfg c p inp none >>= k)
      (applyOutcome cfg c p inp' none >>= k)) :
    parseScopeCriticEnabled inp'.contextOverrides = false := by
  by_contra hon
  obtain ⟨next, hnext⟩ := hk (sampleEnvelope .apply .done) "" false
  have hexecuted := SameWork.answer (.applyExecute c p none) h
    ⟨some (sampleEnvelope .apply .done), none, 0⟩
  exact not_sameWork_reviewed hhas hoff (by simpa using hon) hnext hexecuted

omit hk hhas hoff in
theorem agent_reads
    (h : SameWork (agentOutcome cfg c (firstAttempt pt) inp >>= k)
      (agentOutcome cfg c (firstAttempt pt) inp' >>= k)) :
    promptRequest inp = promptRequest inp' ∧
      SameWork (dispatchAgent cfg c (firstAttempt pt) inp >>= k)
        (dispatchAgent cfg c (firstAttempt pt) inp' >>= k) := by
  have hlaws : checkIronLaws {
      action := actionForPhase (firstAttempt pt).pType
      priorPhases := [] ++ PhaseType.all.map fun pt => (pt, ⟨doneRow.status, doneRow.confidence⟩)
      hasGovernanceDecision := true
      taskAttempts := (firstAttempt pt).attempts - 1 } = [] := by
    cases pt <;> decide +kernel
  have hloaded := SameWork.after_loadPrior doneRow h
  simp only [hlaws, ne_eq, not_true_eq_false, if_false] at hloaded
  obtain ⟨hrequest, hprompt⟩ := SameWork.prompt_inv hloaded
  have hid := SameWork.answer .newSessionID (hprompt (.ok ())) (.ok ())
  have hsaved := SameWork.answer (.sessionSave _) hid (.ok ())
  exact ⟨hrequest, SameWork.answer (.publishEvent _ _) hsaved ()⟩

theorem agent_reviews (h : SameWork (dispatchAgent cfg c (firstAttempt pt) inp >>= k)
    (dispatchAgent cfg c (firstAttempt pt) inp' >>= k)) :
    parseScopeCriticEnabled inp'.contextOverrides = false := by
  by_contra hon
  have hvalid : validateEnvelope (.json (sampleEnvelope pt .done)) (firstAttempt pt).pType =
      .ok (sampleEnvelope pt .done) := by
    cases pt <;> rfl
  have hshape : (if (firstAttempt pt).pType = .tasks then
      detectTasksSchemaMismatch (sampleEnvelope pt .done).data else none) = none := by
    cases pt <;> rfl
  obtain ⟨next, hnext⟩ := hk (sampleEnvelope pt .done) "" true
  have hslot := SameWork.answer .spawnAcquire h (.ok ())
  have hsent := SameWork.answer (.dispatch _) hslot
    (.ok { envelopeRaw := .json (sampleEnvelope pt .done) })
  have hback := SameWork.answer .spawnRelease hsent (.ok ())
  simp only [acceptEnvelope, hvalid, hshape] at hback
  have hsaved := SameWork.answer (.sessionSave _) hback (.ok ())
  have hseen := SameWork.answer (.publishEvent _ _) hsaved ()
  exact not_sameWork_reviewed hhas hoff (by simpa using hon) hnext hseen

end Differs

theorem keepsInput_of_resumesAlike (h : ResumesAlike cfg inp) : keepsInput cfg inp = true := by
  by_cases hinit : inp.phaseType = .init ∧ cfg.hasInit
  · simp [keepsInput, hinit]
  let c := sampleChange .explore
  let p := firstAttempt inp.phaseType
  have hasync : SameWork (runAsync cfg c p (resumedInput c p))
    (runAsync cfg c p (keptInput inp c p)) :=
    SameWork.answer (.returned _) (h c p rfl) ()
  simp only [runAsync, phaseOutcome, show p.pType = inp.phaseType from rfl, if_neg hinit] at hasync
  have htask : inp.taskDescription = "" := by
    rcases SameWork.op_eq (.evaluatePhase _ _ _) (.evaluatePhase _ _ _) hasync with
      hsame | ⟨_, _, _, _, hprompt⟩
    · exact (Op.evaluatePhase.inj hsame).2.2.symm
    · cases hprompt
  simp only [governedOutcome, show (keptInput inp c p).taskDescription = "" from htask,
    show (resumedInput c p).taskDescription = "" from rfl] at hasync
  have hallowed := SameWork.answer (.evaluatePhase _ _ _) hasync (.ok ⟨.allow, ""⟩)
  have hdecided := SameWork.answer (.publishEvent _ _) hallowed ()
  have hcritic : (cfg.hasCritic = true → parseScopeCriticEnabled inp.contextOverrides = false) →
      ((inp.phaseType = .apply ∧ cfg.hasApplyExecutor) ∨
        parseScopeTestsRequired inp.contextOverrides = false) → keepsInput cfg inp = true := by
    intro hcritic htests
    cases hhas : cfg.hasCritic <;> simp_all [keepsInput]
  by_cases happly : p.pType = .apply ∧ cfg.hasApplyExecutor
  · simp only [if_pos happly] at hdecided
    have hloaded := SameWork.answer (.phaseFindByChangeAndType _ _) hdecided (.error .unavailable)
    exact hcritic (fun hhas => apply_reads (fun _ _ _ => ⟨_, rfl⟩) hhas rfl hloaded) (.inl happly)
  · simp only [if_neg happly] at hdecided
    obtain ⟨hrequest, hsent⟩ := agent_reads hdecided
    exact hcritic (fun hhas => agent_reviews (fun _ _ _ => ⟨_, rfl⟩) hhas rfl hsent)
      (.inr (congrArg Prod.snd hrequest).symm)

/-- `Resume` does what it would do with the input of `Run`, for every phase of the type of the
input, exactly if the input has nothing that an execution of the type reads. -/
theorem resumesAlike_iff (cfg : ServiceConfig) (inp : RunPhaseInput) :
    ResumesAlike cfg inp ↔ keepsInput cfg inp = true :=
  ⟨keepsInput_of_resumesAlike, resumesAlike_of_keepsInput⟩

/-! ## A resumed run -/

def describedInput : RunPhaseInput where
  changeID := ⟨1⟩
  phaseType := .explore
  taskDescription := "add a login page"

def describedThenResumed : List ServiceMove :=
  .start (.run describedInput) :: List.replicate 20 (.step 0 askingChoice) ++
  .start (.approve ⟨7⟩ "ana") :: List.replicate 8 (.step 1 {}) ++
  .start (.resume ⟨7⟩) :: List.replicate 15 (.step 2 {})

def Op.described : Op → Option String
  | .evaluatePhase _ _ taskDescription => some taskDescription
  | _ => none

def described (π : ServicePool) : List (List String) :=
  π.threads.map fun t => t.hist.filterMap fun ev => ev.op.described

/-- After an approval governance is asked about an empty task description: `Resume` does not do
what it would do with the input of `Run`. -/
theorem resumed_without_description :
    described (reach {} (sampleStore .explore) describedThenResumed) =
        [["add a login page"], [], [""]] ∧
      ¬ResumesAlike {} describedInput :=
  ⟨by decide +kernel, fun h => absurd (keepsInput_of_resumesAlike h) (by decide)⟩

end SophiaOrchestrator
