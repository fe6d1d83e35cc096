import SophiaOrchestrator.Phase.Conduct
import SophiaOrchestrator.Phase.Runs

/-!
# Governance fails closed on the listed decisions

The governance client decodes the body of a reply and passes the text of its `decision` field
on as the decision.  The phase service branches on the two refusing decisions only, so any
other text lets the run go on to an agent, also the empty one of a body without the field.
-/

namespace SophiaOrchestrator

open Effects Prog

variable {tid : Nat} {cfg : ServiceConfig} {s : Store} {t : ServiceThread} {past h : History}
  {answer : Except String GovernanceDecision}

/-! ## The client -/

namespace GovernanceClient

open Json

inductive Body where
  | empty
  | invalid
  | json (doc : Json)

/-- What an HTTP exchange with the governance service brings back: no reply at all, or a
status and a body. -/
inductive HttpReply where
  | failed (err : String)
  | response (statusCode : Nat) (body : Body)

structure DecisionResponse where
  decision : String := ""
  agentRole : String := ""
  strategy : String := ""
  reason : String := ""
  constraints : List (String × Json) := []
  approvalURL : Option String := none

def DecisionResponse.decode : Decoder DecisionResponse :=
  .object fun field => do
    let decision ← Decoder.string (field "decision")
    let agentRole ← Decoder.string (field "agent_role")
    let strategy ← Decoder.string (field "strategy")
    let reason ← Decoder.string (field "reason")
    let constraints ← Decoder.map .any (field "constraints")
    let approvalURL ← Decoder.pointer (.object fun field => Decoder.string (field "url"))
      (field "approval")
    pure ⟨decision, agentRole, strategy, reason, constraints, approvalURL⟩

def decisionType : String → GovernanceDecisionType
  | "allow" => .allow
  | "allow_with_constraints" => .allowWithConstraints
  | "require_approval" => .requireApproval
  | "deny" => .deny
  | text => .unknown text

def toDecision (r : DecisionResponse) : GovernanceDecision where
  decision := decisionType r.decision
  reason := r.reason

/-- `PostJSON` into a decision response: an empty body leaves the response as it was. -/
def postJSON : HttpReply → Except String DecisionResponse
  | .failed err => .error err
  | .response statusCode body =>
    if 400 ≤ statusCode then
      .error ("http " ++ toString statusCode)
    else
      match body with
      | .empty => .ok {}
      | .invalid => .error "http_base: decode response"
      | .json doc =>
        match DecisionResponse.decode [doc] with
        | some r => .ok r
        | none => .error "http_base: decode response"

def evaluatePhase (reply : HttpReply) : Except String GovernanceDecision :=
  match postJSON reply with
  | .error err => .error ("governance EvaluatePhase: " ++ err)
  | .ok r => .ok (toDecision r)

end GovernanceClient

/-! ## Runs with the client in place -/

/-- The operations of the service; a choice also says what governance replies. -/
def governedHandler : Handler Op Op.Ret (Choice × GovernanceClient.HttpReply) Store where
  run op ch s := handle op { ch.1 with governance := GovernanceClient.evaluatePhase ch.2 } s

abbrev GovernedMove : Type := Move Call (Choice × GovernanceClient.HttpReply)

variable {moves : List GovernedMove}

def reachGoverned (cfg : ServiceConfig) (s : Store) (moves : List GovernedMove) : ServicePool :=
  (Pool.init s).run governedHandler (main cfg) moves

/-- The operations that start agents: one of its own, or those of the apply executor. -/
def Op.startsAgent : Op → Bool
  | .dispatch _ | .applyExecute _ _ _ => true
  | _ => false

/-- What governance had answered to the call each time it started an agent. -/
def agentStarts : History → List (Option (Except String GovernanceDecision))
  | [] => []
  | ev :: past => if ev.op.startsAgent then received past :: agentStarts past else agentStarts past

/-- The answer is exactly `allow` or `allow_with_constraints`. -/
def allows : Option (Except String GovernanceDecision) → Bool
  | some (.ok d) => d.decision == .allow || d.decision == .allowWithConstraints
  | _ => false

def listedDecision : Except String GovernanceDecision → Bool
  | .ok ⟨.unknown _, _⟩ => false
  | _ => true

/-- A call that asks governance receives no decision, or one that the client lists. -/
def listed (π : ServicePool) : GovernedMove → Bool
  | .step tid ch =>
    match π.threads[tid]? with
    | some ⟨_, .call (.evaluatePhase _ _ _) _, _⟩ =>
      listedDecision (GovernanceClient.evaluatePhase ch.2)
    | _ => true
  | _ => true

theorem listed_step {π : ServicePool} {ch : Choice × GovernanceClient.HttpReply} {request : Call}
    {cid : ChangeID} {pt : PhaseType} {task : String}
    {next : Except String GovernanceDecision → Program Unit} {hist : History}
    (h : π.threads[tid]? = some ⟨request, .call (.evaluatePhase cid pt task) next, hist⟩) :
    listed π (.step tid ch) = listedDecision (GovernanceClient.evaluatePhase ch.2) := by
  unfold listed
  dsimp only
  rw [h]

theorem governed_answers (op : Op) (ch : Choice × GovernanceClient.HttpReply) (s : Store) :
    op.Answers (governedHandler.run op ch s).1 :=
  handle_answers op _ s

theorem governed_polite (ht : t ∈ (reachGoverned cfg s moves).threads) {ev : Event}
    (hsuffix : ev :: past <:+ t.hist) : Conducted ev past := by
  have hkeeps := Pool.run_keeps (H := governedHandler) (I := fun _ => Polite) governed_answers
    (fun request => wp_mono (main_conducted cfg request) (fun _ => id) fun _ _ _ => trivial)
    (π := (Pool.init s : ServicePool)) (by simp) moves
  exact (hkeeps t ht).past (ev :: past) hsuffix (List.cons_ne_nil ev past)

theorem exists_suffix_of_received (hreceived : received h = some answer) :
    ∃ cid pt task past, ⟨.evaluatePhase cid pt task, answer⟩ :: past <:+ h := by
  induction h with
  | nil => cases hreceived
  | cons ev past ih =>
    have hother : received past = some answer →
        ∃ cid pt task past', ⟨.evaluatePhase cid pt task, answer⟩ :: past' <:+ ev :: past := by
      intro hpast
      obtain ⟨cid, pt, task, past', hsuffix⟩ := ih hpast
      exact ⟨cid, pt, task, past', hsuffix.trans (List.suffix_cons ev past)⟩
    obtain ⟨op, ret⟩ := ev
    cases op with
    | evaluatePhase cid pt task =>
      cases hreceived
      exact ⟨cid, pt, task, past, List.suffix_rfl⟩
    | _ => exact hother hreceived

theorem listed_of_received
    (hlisted : (Pool.init s : ServicePool).Meets governedHandler (main cfg) listed moves = true)
    (ht : (reachGoverned cfg s moves).threads[tid]? = some t) (hsuffix : past <:+ t.hist)
    (hreceived : received past = some answer) : listedDecision answer = true := by
  obtain ⟨cid, pt, task, older, hold⟩ := exists_suffix_of_received hreceived
  obtain ⟨before, ch, after, next, rfl, hthread, hret, -⟩ :=
    Pool.exists_move_of_suffix ht (hold.trans hsuffix)
  rw [Pool.meets_append, Bool.and_eq_true, Pool.Meets, Bool.and_eq_true,
    listed_step hthread] at hlisted
  rw [show answer = GovernanceClient.evaluatePhase ch.2 from hret]
  exact hlisted.2.1

theorem allows_of_listed {d : GovernanceDecision} (hlisted : listedDecision (.ok d) = true)
    (hdeny : d.decision ≠ .deny) (happroval : d.decision ≠ .requireApproval) :
    allows (some (.ok d)) = true := by
  obtain ⟨decision, reason⟩ := d
  cases decision with
  | allow | allowWithConstraints => rfl
  | requireApproval => exact absurd rfl happroval
  | deny => exact absurd rfl hdeny
  | unknown text => cases hlisted

theorem exists_suffix_of_agentStarts {answer : Option (Except String GovernanceDecision)}
    (hmem : answer ∈ agentStarts h) :
    ∃ ev past, ev :: past <:+ h ∧ ev.op.startsAgent = true ∧ answer = received past := by
  induction h with
  | nil => cases hmem
  | cons ev past ih =>
    have hold : answer ∈ agentStarts past → ∃ ev' past', ev' :: past' <:+ ev :: past ∧
        ev'.op.startsAgent = true ∧ answer = received past' := by
      intro hpast
      obtain ⟨ev', past', hsuffix, hrest⟩ := ih hpast
      exact ⟨ev', past', hsuffix.trans (List.suffix_cons ev past), hrest⟩
    unfold agentStarts at hmem
    split at hmem
    · next hstarts =>
      rcases List.mem_cons.mp hmem with rfl | hpast
      · exact ⟨ev, past, List.suffix_rfl, hstarts, rfl⟩
      · exact hold hpast
    · exact hold hmem

/-- In every run in which each reply of governance carries no decision or one of the four
listed ones, an agent is started, by the service or by the apply executor, only if the
decision that the same call has received is `allow` or `allow_with_constraints`. -/
theorem agents_allowed (cfg : ServiceConfig) (s : Store) (moves : List GovernedMove)
    (hlisted : (Pool.init s : ServicePool).Meets governedHandler (main cfg) listed moves = true) :
    ∀ t ∈ (reachGoverned cfg s moves).threads, ∀ answer ∈ agentStarts t.hist,
      allows answer = true := by
  intro t ht answer hmem
  obtain ⟨ev, past, hsuffix, hstarts, rfl⟩ := exists_suffix_of_agentStarts hmem
  obtain ⟨tid, htid⟩ := List.mem_iff_getElem?.mp ht
  have hpermitted : Permitted past := by
    have hconducted := governed_polite ht hsuffix
    obtain ⟨op, ret⟩ := ev
    cases op with
    | dispatch p => exact hconducted
    | applyExecute c p prior => exact hconducted.1
    | _ => cases hstarts
  obtain ⟨d, hreceived, hdeny, happroval⟩ := hpermitted
  rw [hreceived]
  exact allows_of_listed (listed_of_received hlisted htid
    ((List.suffix_cons ev past).trans hsuffix) hreceived) hdeny happroval

/-! ## Concrete runs -/

def exploreGoverned (reply : GovernanceClient.HttpReply) : List GovernedMove :=
  .start (.run { changeID := ⟨1⟩, phaseType := .explore }) ::
    List.replicate 40 (.step 0
      ({ phaseID := .ok ⟨7⟩
         dispatch := .ok { envelopeRaw := .json (sampleEnvelope .explore .done) } }, reply))

def decisionBody (decision : String) : GovernanceClient.HttpReply :=
  .response 200 (.json (.obj [("decision", .str decision)]))

theorem agents_allowed_explore :
    ((reachGoverned {} (sampleStore .init)
        (exploreGoverned (decisionBody "allow_with_constraints"))).threads.map
      fun t => (agentStarts t.hist).map allows) = [[true]] ∧
    ∀ t ∈ (reachGoverned {} (sampleStore .init)
        (exploreGoverned (decisionBody "allow_with_constraints"))).threads,
      ∀ answer ∈ agentStarts t.hist, allows answer = true :=
  ⟨by decide +kernel, agents_allowed {} (sampleStore .init)
    (exploreGoverned (decisionBody "allow_with_constraints")) (by decide +kernel)⟩

/-- In the run of explore with this reply every agent was started after an allowing answer. -/
def startsAllowed (reply : GovernanceClient.HttpReply) : Bool :=
  (reachGoverned {} (sampleStore .init) (exploreGoverned reply)).threads.all fun t =>
    (agentStarts t.hist).all allows

/-- With an empty body, an empty object, an unknown decision or one that comes after a listed one
the explore agent is dispatched all the same. -/
theorem agents_unlisted :
    startsAllowed (.response 200 .empty) = false ∧
      startsAllowed (.response 200 (.json (.obj []))) = false ∧
      startsAllowed (decisionBody "denied") = false ∧
      startsAllowed (.response 200 (.json (.obj [("decision", .str "allow"),
        ("Decision", .str "denied")]))) = false := by
  decide +kernel

end SophiaOrchestrator
