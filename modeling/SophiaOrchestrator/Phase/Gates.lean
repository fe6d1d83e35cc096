import SophiaOrchestrator.Effects.Holders
import SophiaOrchestrator.Effects.Quiet
import SophiaOrchestrator.Phase.NoWedge
import SophiaOrchestrator.Phase.Settling

/-!
# Decisions at an approval gate

A phase stops at its gate with an `approval.required` record in the audit log, and a decision
adds an `approval.resolved` record.  `Approve` and `Reject` only ask the log whether such records
exist.  A phase that stops again after a decision is therefore taken for decided, and its
new stop can be neither approved nor rejected; and two decisions that ask before either has
recorded its answer both go through.
-/

namespace SophiaOrchestrator

open Effects Prog

variable {s s' : Store} {id : PhaseID} {ev : AuditEvent} {eventType : EventType} {r : Phase}
  {cfg : ServiceConfig} {approver : String} {op : Op} {ch : Choice}

/-! ## The records of a gate -/

def AuditEvent.isFor (id : PhaseID) (eventType : EventType) (ev : AuditEvent) : Bool :=
  decide (ev.phaseID = some id ∧ ev.eventType = eventType)

def AuditEvent.movesGate (id : PhaseID) (ev : AuditEvent) : Bool :=
  ev.isFor id .approvalRequired || ev.isFor id .approvalResolved

namespace Store

def recordCount (s : Store) (id : PhaseID) (eventType : EventType) : Nat :=
  s.audit.countP (AuditEvent.isFor id eventType)

/-- The last stop of the phase at its gate is more recent than the last decision about it. -/
def gateOpen (s : Store) (id : PhaseID) : Bool :=
  (s.audit.filter (AuditEvent.movesGate id)).getLast?.any (AuditEvent.isFor id .approvalRequired)

theorem hasEventForPhase_eq_decide :
    s.hasEventForPhase id eventType = decide (0 < s.recordCount id eventType) := by
  rw [Bool.eq_iff_iff, decide_eq_true_eq, recordCount, List.countP_pos_iff, hasEventForPhase,
    List.any_eq_true]
  rfl

theorem recordCount_appendAudit :
    (s.appendAudit ev).recordCount id eventType =
      s.recordCount id eventType + (ev.isFor id eventType).toNat := by
  cases h : ev.isFor id eventType <;> simp [recordCount, appendAudit, List.countP_append, h]

theorem gateOpen_appendAudit :
    (s.appendAudit ev).gateOpen id =
      if ev.movesGate id then ev.isFor id .approvalRequired else s.gateOpen id := by
  cases h : ev.movesGate id <;> simp [gateOpen, appendAudit, h]

theorem recordCount_of_gateOpen (h : s.gateOpen id = true) :
    0 < s.recordCount id .approvalRequired := by
  obtain ⟨ev, hlast, hfor⟩ := Option.any_eq_true _ _ |>.mp h
  have hmem := List.mem_of_getLast? hlast
  exact List.countP_pos_iff.mpr ⟨ev, (List.mem_filter.mp hmem).1, hfor⟩

end Store

theorem handle_audit_cases (op : Op) (ch : Choice) (s : Store) :
    (handle op ch s).2.audit = s.audit ∨
      ∃ ev, op = .auditAppend ev ∧ (handle op ch s).2 = s.appendAudit ev := by
  cases op with
  | changeSave c =>
    rcases Fault.write_eq ch.fault s (s.saveChange c) with heq | hok
    · exact .inl (congrArg Store.audit heq)
    · exact .inl (Store.saveChange_cases hok).2.2.1
  | phaseSave p =>
    rcases Fault.write_eq ch.fault s (s.savePhase p) with heq | hok
    · exact .inl (congrArg Store.audit heq)
    · exact .inl (Store.savePhase_cases hok).2.2.1
  | saveCompletedWithOutbox c row =>
    rcases Fault.write_eq ch.fault s (s.saveCompletedWithOutbox c row) with heq | hok
    · exact .inl (congrArg Store.audit heq)
    · exact .inl (Store.saveCompletedWithOutbox_audit hok)
  | auditAppend ev =>
    rcases Fault.write_eq ch.fault s (.ok (s.appendAudit ev)) with heq | hok
    · exact .inl (congrArg Store.audit heq)
    · exact .inr ⟨ev, rfl, (Except.ok.inj hok).symm⟩
  | sessionSave id =>
    simp only [handle]
    cases ch.fault <;> exact .inl rfl
  | _ => exact .inl rfl

/-! ## The condition -/

/-- No phase stops at its gate after a decision about it. -/
def stopsOnce (π : ServicePool) : ServiceMove → Bool
  | .step tid _ =>
    match π.threads[tid]? with
    | some ⟨_, .call (.auditAppend ⟨_, some id, .approvalRequired⟩) _, _⟩ =>
      !π.state.hasEventForPhase id .approvalResolved
    | _ => true
  | .start _ | .crash => true

/-- No open gate has a decision, and the counters of every row fit their columns. -/
structure Undecided (s : Store) : Prop where
  undecided : ∀ id, s.gateOpen id = true → s.recordCount id .approvalResolved = 0
  fits : ∀ r ∈ s.phases.rows, r.retryBudget < 2 ^ 31 ∧ r.attempts < 2 ^ 31

theorem Undecided.appendAudit (h : Undecided s)
    (hstop : ∀ id, ev.isFor id .approvalRequired = true → s.recordCount id .approvalResolved = 0) :
    Undecided (s.appendAudit ev) := by
  refine ⟨fun id hopen => ?_, h.fits⟩
  rw [Store.gateOpen_appendAudit] at hopen
  rw [Store.recordCount_appendAudit]
  cases hmoves : ev.movesGate id with
  | true =>
    rw [hmoves, if_pos rfl] at hopen
    have hother : ev.isFor id .approvalResolved = false := by
      simp only [AuditEvent.isFor, decide_eq_true_eq] at hopen ⊢
      simp [hopen.2]
    rw [hstop id hopen, hother]
    rfl
  | false =>
    rw [hmoves, if_neg Bool.false_ne_true] at hopen
    rw [AuditEvent.movesGate, Bool.or_eq_false_iff] at hmoves
    rw [h.undecided id hopen, hmoves.2]
    rfl

theorem Undecided.savePhase {p : Phase} (h : Undecided s) (hsave : s.savePhase p = .ok s') :
    Undecided s' := by
  obtain ⟨-, -, haudit, hfits, -⟩ := Store.savePhase_cases hsave
  refine ⟨?_, fun r hr => ?_⟩
  · unfold Store.gateOpen Store.recordCount
    rw [haudit]
    exact h.undecided
  · rcases Store.mem_of_savePhase hsave hr with ⟨hold, -⟩ | ⟨hcolumns, -⟩
    · exact h.fits r hold
    · simp only [Phase.fitsColumns, Bool.and_eq_true, decide_eq_true_eq] at hfits
      rw [hcolumns]
      exact hfits.1.1

theorem Undecided.handle (h : Undecided s)
    (hstop : ∀ ev, op = .auditAppend ev → ∀ id, ev.isFor id .approvalRequired = true →
      s.recordCount id .approvalResolved = 0) :
    Undecided (SophiaOrchestrator.handle op ch s).2 := by
  cases hsaves : op.savesPhase with
  | true =>
    cases op with
    | phaseSave p =>
      rcases Fault.write_eq ch.fault s (s.savePhase p) with heq | hok
      · exact heq.symm ▸ h
      · exact h.savePhase hok
    | _ => cases hsaves
  | false =>
    have hphases := handle_phases_of_not_savesPhase hsaves ch s
    rcases handle_audit_cases op ch s with haudit | ⟨ev, rfl, hstate⟩
    · refine ⟨?_, by rw [hphases]; exact h.fits⟩
      unfold Store.gateOpen Store.recordCount
      rw [haudit]
      exact h.undecided
    · rw [hstate]
      exact h.appendAudit (hstop ev rfl)

theorem undecided_of_stopsOnce (hs : Undecided s) (moves : List ServiceMove)
    (hok : RunMeets cfg s stopsOnce moves = true) : Undecided (reach cfg s moves).state := by
  let Inv : ServicePool → Prop := fun π => Undecided π.state
  change Inv (reach cfg s moves)
  refine reach_induction stopsOnce hs (fun _ _ _ h => h) (fun _ _ h => h) ?_ moves hok
  intro π tid choice call op next hist hthread _ _ hmove hinv
  refine Undecided.handle hinv ?_
  rintro ⟨cid, pid, type⟩ rfl id hfor
  simp only [AuditEvent.isFor, decide_eq_true_eq] at hfor
  obtain ⟨rfl, rfl⟩ := hfor
  simpa [stopsOnce, hthread, Store.hasEventForPhase_eq_decide] using hmove

/-! ## Decisions made alone -/

/-- The call, made alone in a state and run to its end, is accepted. -/
def acceptedAlone (cfg : ServiceConfig) (env : Nat → Choice) (s : Store) (call : Call) : Bool :=
  ((main cfg call).eval handler (fun _ => false) env 0 s).hist.any fun ev => ev.op.accepts

/-- In every healthy environment the call is accepted. -/
def Accepts (cfg : ServiceConfig) (s : Store) (call : Call) : Prop :=
  ∀ env, (∀ n, ByID.healthy (env n) = true) → acceptedAlone cfg env s call = true

section Alone

abbrev HealthyAlone {α : Type} (Q : α → Store × List Op → Prop) (prog : Program α)
    (x : Store × List Op) : Prop :=
  prog.wp (handler.amid (· = ·) fun _ => ByID.healthy) (fun _ => True) Q x

variable {α : Type} {Q : α → Store × List Op → Prop} {log : List Op}

theorem healthyAlone_bind {f : op.Ret → Program α}
    (hf : ∀ ch, ch.fault = .none →
      HealthyAlone Q (f (handle op ch s).1) ((handle op ch s).2, op :: log)) :
    HealthyAlone Q (perform op >>= f) (s, log) := by
  refine wp_amid_bind ?_
  rintro _ ch rfl hok
  exact ⟨trivial, hf ch (ByID.healthy_iff.mp hok).1⟩

theorem accepts_of_healthyAlone {call : Call}
    (hmain : HealthyAlone (fun _ x => x.2.any Op.accepts = true) (main cfg call) (s, [])) :
    Accepts cfg s call := by
  intro env henv
  have hend := (eval_of_wp (n := 0) env (fun _ n => henv n) trivial hmain).2
  rw [List.any_map] at hend
  exact hend

/-- A gate that was stopped at and has no decision lets a named approver through. -/
theorem gatedPhase_alone (hr : r ∈ s.phases.rows) (hterminal : r.status.isTerminal = false)
    (hstopped : 0 < s.recordCount r.id .approvalRequired)
    (hundecided : s.recordCount r.id .approvalResolved = 0) (happrover : approver ≠ "") :
    HealthyAlone (fun result x => result = .ok r ∧ x.1 = s) (gatedPhase r.id approver)
      (s, log) := by
  have hfind : s.findPhase r.id = .ok r := Store.findPhase_eq_ok_iff.mpr ⟨hr, rfl⟩
  have hrequired : s.hasEventForPhase r.id .approvalRequired = true := by
    rw [Store.hasEventForPhase_eq_decide, decide_eq_true_eq]
    exact hstopped
  have hresolved : s.hasEventForPhase r.id .approvalResolved = false := by
    rw [Store.hasEventForPhase_eq_decide, hundecided]
    rfl
  rw [gatedPhase, if_neg happrover]
  refine healthyAlone_bind fun ch₁ hch₁ => ?_
  simp only [handle, hch₁, Fault.read, hfind, hterminal, Bool.false_eq_true, if_false]
  refine healthyAlone_bind fun ch₂ hch₂ => ?_
  simp only [handle, hch₂, Fault.read, hrequired]
  refine healthyAlone_bind fun ch₃ hch₃ => ?_
  simp only [handle, hch₃, Fault.read, hresolved]
  exact ⟨rfl, rfl⟩

variable (hr : r ∈ s.phases.rows) (hstopped : 0 < s.recordCount r.id .approvalRequired)
  (hundecided : s.recordCount r.id .approvalResolved = 0) (happrover : approver ≠ "")

include hr hstopped hundecided happrover

theorem accepts_approve (hterminal : r.status.isTerminal = false) :
    Accepts cfg s (.approve r.id approver) := by
  refine accepts_of_healthyAlone (wp_bind (wp_mono
    (gatedPhase_alone hr hterminal hstopped hundecided happrover) (fun _ => id) ?_))
  rintro _ x ⟨rfl, -⟩
  refine healthyAlone_bind fun _ _ => ?_
  refine healthyAlone_bind fun _ _ => ?_
  exact healthyAlone_bind (f := .done) fun _ _ => rfl

omit hstopped hundecided happrover in
theorem rejectPhase_alone (hrunning : r.status = .running)
    (hfits : r.retryBudget < 2 ^ 31 ∧ r.attempts < 2 ^ 31) (reason : String) :
    HealthyAlone (fun result _ => result = .ok .acknowledged) (rejectPhase r approver reason)
      (s, log) := by
  obtain ⟨c, hc, hcid⟩ := s.phase_change r hr
  have hchange : s.findChange r.changeID = .ok c := Store.findChange_eq_ok_iff.mpr ⟨hc, hcid⟩
  have hrow : s.rowStatus r = some .running :=
    Store.rowStatus_eq_some_iff.mpr ⟨r, hr, rfl, hrunning⟩
  refine healthyAlone_bind fun ch₁ hch₁ => ?_
  simp only [handle, hch₁, Fault.read, hchange]
  refine healthyAlone_bind fun ch₂ _ => ?_
  simp only [hrunning, ne_eq, not_true_eq_false, if_false]
  refine healthyAlone_bind fun ch₃ _ => ?_
  obtain ⟨q, hcomplete, -⟩ := complete_blockedEnvelope hrunning c
    ("Rejected by " ++ approver ++ ": " ++ reason) ch₃.now
  have hq : q.key = r.key ∧ q.fitsColumns = true := by
    obtain ⟨-, -, -, rfl⟩ := Phase.complete_eq_ok_iff.mp hcomplete
    exact ⟨rfl, Phase.InRange.fitsColumns ⟨hfits.1, hfits.2, le_refl (0 : ℚ), zero_le_one⟩⟩
  simp only [handle, hcomplete]
  refine healthyAlone_bind fun ch₄ hch₄ => ?_
  obtain ⟨s', hsave⟩ := Store.exists_savePhase hq.1 hq.2 hrow
  rw [handle, hch₄, hsave]
  refine healthyAlone_bind fun _ _ => ?_
  exact healthyAlone_bind fun _ _ => rfl

theorem accepts_reject (hrunning : r.status = .running)
    (hfits : r.retryBudget < 2 ^ 31 ∧ r.attempts < 2 ^ 31) (reason : String) :
    Accepts cfg s (.reject r.id approver reason) := by
  have hterminal : r.status.isTerminal = false := by rw [hrunning]; rfl
  refine accepts_of_healthyAlone (wp_bind (wp_mono
    (gatedPhase_alone hr hterminal hstopped hundecided happrover) (fun _ => id) ?_))
  rintro _ ⟨_, log⟩ ⟨rfl, rfl⟩
  refine wp_bind (wp_mono (rejectPhase_alone hr hrunning hfits reason) (fun _ => id) ?_)
  rintro _ x rfl
  exact healthyAlone_bind (f := .done) fun _ _ => rfl

end Alone

/-! ## Runs -/

/-- If no phase stops at its gate after a decision about it, then in every state reached a
phase with an open gate can be approved, and rejected while it is running. -/
theorem accepts_decision_of_stopsOnce (cfg : ServiceConfig) (s : Store) (hs : Undecided s)
    (moves : List ServiceMove) (hok : RunMeets cfg s stopsOnce moves = true) (r : Phase)
    (hr : r ∈ (reach cfg s moves).state.phases.rows) (hterminal : r.status.isTerminal = false)
    (hopen : (reach cfg s moves).state.gateOpen r.id = true) (approver : String)
    (happrover : approver ≠ "") :
    Accepts cfg (reach cfg s moves).state (.approve r.id approver) ∧
      (r.status = .running → ∀ reason,
        Accepts cfg (reach cfg s moves).state (.reject r.id approver reason)) := by
  have hinv := undecided_of_stopsOnce hs moves hok
  have hstopped := Store.recordCount_of_gateOpen hopen
  have hundecided := hinv.undecided r.id hopen
  exact ⟨accepts_approve hr hstopped hundecided happrover hterminal, fun hrunning reason =>
    accepts_reject hr hstopped hundecided happrover hrunning (hinv.fits r hr) reason⟩

/-! ## Sample runs -/

def askingChoice : Choice :=
  { phaseID := .ok ⟨7⟩, governance := .ok { decision := .requireApproval } }

def gatedRun : List ServiceMove :=
  .start (.run { changeID := ⟨1⟩, phaseType := .explore }) ::
    List.replicate 20 (.step 0 askingChoice)

/-- The gate is approved and the phase resumed, and governance asks again. -/
def gatedTwice : List ServiceMove :=
  gatedRun ++
  .start (.approve ⟨7⟩ "ana") :: List.replicate 8 (.step 1 {}) ++
  .start (.resume ⟨7⟩) :: List.replicate 15 (.step 2 askingChoice)

/-- The process stops at the gate and the boot sequence marks the phase. -/
def gatedInterrupted : List ServiceMove :=
  gatedRun ++ .crash :: .start .recover :: List.replicate 5 (.step 1 {})

def gates (s : Store) : List (PhaseID × PhaseStatus × Bool) :=
  s.phases.rows.map fun r => (r.id, r.status, s.gateOpen r.id)

/-- The second stop of a phase can be neither approved nor rejected, and the first stop of an
interrupted phase cannot be rejected. -/
theorem second_stop_refused :
    RunMeets {} (sampleStore .explore) sequential gatedTwice = true ∧
      gates (reach {} (sampleStore .explore) gatedTwice).state = [(⟨7⟩, .running, true)] ∧
      acceptedAlone {} (fun _ => {}) (reach {} (sampleStore .explore) gatedTwice).state
        (.approve ⟨7⟩ "ana") = false ∧
      acceptedAlone {} (fun _ => {}) (reach {} (sampleStore .explore) gatedTwice).state
        (.reject ⟨7⟩ "ana" "no") = false ∧
      gates (reach {} (sampleStore .explore) gatedInterrupted).state =
        [(⟨7⟩, .interrupted, true)] ∧
      acceptedAlone {} (fun _ => {}) (reach {} (sampleStore .explore) gatedInterrupted).state
        (.reject ⟨7⟩ "ana" "no") = false := by
  decide +kernel

/-- The first stop of a phase can be decided. -/
theorem accepts_decision_gatedRun :
    gates (reach {} (sampleStore .explore) gatedRun).state = [(⟨7⟩, .running, true)] ∧
      ∀ r ∈ (reach {} (sampleStore .explore) gatedRun).state.phases.rows,
        Accepts {} (reach {} (sampleStore .explore) gatedRun).state (.approve r.id "ana") ∧
          ∀ reason, Accepts {} (reach {} (sampleStore .explore) gatedRun).state
            (.reject r.id "ana" reason) := by
  have hgates : gates (reach {} (sampleStore .explore) gatedRun).state =
      [(⟨7⟩, .running, true)] := by
    decide +kernel
  refine ⟨hgates, fun r hr => ?_⟩
  have hmem : (r.id, r.status, (reach {} (sampleStore .explore) gatedRun).state.gateOpen r.id) ∈
      gates (reach {} (sampleStore .explore) gatedRun).state := List.mem_map.mpr ⟨r, hr, rfl⟩
  rw [hgates, List.mem_singleton, Prod.mk.injEq, Prod.mk.injEq] at hmem
  obtain ⟨-, hrunning, hopen⟩ := hmem
  obtain ⟨happrove, hreject⟩ := accepts_decision_of_stopsOnce {} (sampleStore .explore)
    ⟨by simp [Store.gateOpen, sampleStore], by simp [sampleStore]⟩ gatedRun (by decide +kernel)
    r hr (by rw [hrunning]; rfl) hopen "ana" (by decide)
  exact ⟨happrove, hreject hrunning⟩

/-! ## Concurrent decisions -/

def Call.decides (id : PhaseID) : Call → Bool
  | .approve pid _ | .reject pid _ _ => decide (pid = id)
  | _ => false

/-- The move starts no other call than a decision about the phase. -/
def decidesOnly (id : PhaseID) : ServiceMove → Bool
  | .start inbound => inbound.decides id
  | .step _ _ | .crash => true

def Op.resolves (id : PhaseID) : Op → Bool
  | .auditAppend ev => ev.isFor id .approvalResolved
  | _ => false

/-- The call was told that the gate is undecided and has neither recorded a decision nor
returned. -/
def deciding (id : PhaseID) : History → Bool
  | [] => false
  | ⟨.auditHasEventForPhase pid .approvalResolved, .ok false⟩ :: past =>
    decide (pid = id) || deciding id past
  | ⟨.auditAppend ev, _⟩ :: past => !ev.isFor id .approvalResolved && deciding id past
  | ⟨.returned _, _⟩ :: _ => false
  | _ :: past => deciding id past

def hasDecided (id : PhaseID) (h : History) : Bool :=
  h.any fun ev => ev.op.resolves id

/-- No decision asks for the state of the gate while another one is being made, and every
decision reaches the audit log. -/
def decisionsApart (id : PhaseID) (π : ServicePool) : ServiceMove → Bool
  | .step tid ch =>
    match π.threads[tid]? with
    | some ⟨_, .call (.auditHasEventForPhase pid .approvalResolved) _, _⟩ =>
      decide (pid = id → π.holders (deciding id) = 0)
    | some ⟨_, .call (.auditAppend _) _, _⟩ => decide (ch.fault ≠ .before)
    | _ => true
  | .start _ | .crash => true

theorem deciding_cons_cases (id : PhaseID) (ev : Event) (past : History) :
    deciding id (ev :: past) = deciding id past ∨ deciding id (ev :: past) = false ∨
      ev = ⟨.auditHasEventForPhase id .approvalResolved, .ok false⟩ := by
  obtain ⟨op, answer⟩ := ev
  cases op with
  | auditHasEventForPhase pid eventType =>
    cases eventType with
    | approvalResolved =>
      rcases answer with err | (_ | _)
      · exact .inl rfl
      · by_cases hid : pid = id
        · exact .inr (.inr (by rw [hid]))
        · exact .inl (by simp [deciding, hid])
      · exact .inl rfl
    | _ => exact .inl rfl
  | auditAppend ev =>
    cases hfor : ev.isFor id .approvalResolved with
    | true => exact .inr (.inl (by simp [deciding, hfor]))
    | false => exact .inl (by simp [deciding, hfor])
  | returned reply => exact .inr (.inl rfl)
  | _ => exact .inl rfl

/-! ## The order of a decision -/

/-- A decision is recorded once and only while the call is deciding, and the call is accepted
only after it. -/
def Orderly (id : PhaseID) (call : Call) : History → Prop
  | [] => True
  | ev :: past => call.decides id = true →
    (ev.op.resolves id = true → deciding id past = true ∧ hasDecided id past = false) ∧
      (ev.op.accepts = true → hasDecided id past = true)

section Order

variable {α : Type} {call : Call} {h : History} {Q : α → History → Prop}

abbrev Orders (id : PhaseID) (call : Call) (Q : α → History → Prop) (prog : Program α)
    (h : History) : Prop :=
  prog.wp (histSem Op.Answers) (Orderly id call) Q h

theorem orders_quiet {f : op.Ret → Program α} (hresolves : op.resolves id = false)
    (haccepts : op.accepts = false)
    (hf : ∀ answer, op.Answers answer → Orders id call Q (f answer) (⟨op, answer⟩ :: h)) :
    Orders id call Q (perform op >>= f) h := by
  refine wp_perform_bind (fun answer _ _ => ?_) hf
  simp [hresolves, haccepts]

def Told (id : PhaseID) (h : History) : Prop :=
  deciding id h = true ∧ hasDecided id h = false

theorem checkGateState_orders (hno : hasDecided id h = false) :
    Orders id call (fun result h' => result = .ok () → Told id h') (checkGateState id) h := by
  refine orders_quiet rfl rfl fun required _ => ?_
  rcases required with err | (_ | _)
  · exact fun hresult => by cases hresult
  · exact fun hresult => by cases hresult
  refine orders_quiet rfl rfl fun resolved _ => ?_
  rcases resolved with err | (_ | _)
  · exact fun hresult => by cases hresult
  · exact fun _ => ⟨by simp [deciding], hno⟩
  · exact fun hresult => by cases hresult

theorem gatedPhase_orders :
    Orders id call (fun result h' => ∀ p, result = .ok p → p.id = id ∧ Told id h')
      (gatedPhase id approver) [] := by
  unfold gatedPhase
  split
  · exact fun p hresult => by cases hresult
  refine orders_quiet rfl rfl fun answer hanswer => ?_
  cases answer with
  | error err => exact fun p hresult => by cases hresult
  | ok q =>
    simp only
    split
    · exact fun p hresult => by cases hresult
    refine wp_bind (wp_mono (checkGateState_orders rfl) (fun _ hI => hI) ?_)
    rintro (err | _) h' htold
    · exact fun p hresult => by cases hresult
    · intro p hresult
      cases hresult
      exact ⟨hanswer q rfl, htold rfl⟩

theorem orders_decision {cid : Option ChangeID} {f : Unit → Program α} (htold : Told id h)
    (hf : ∀ h', hasDecided id h' = true → Orders id call Q (f ()) h') :
    Orders id call Q (do
      appendAudit cid id .approvalResolved
      publishEvent (some id) .approvalResolved
      f ()) h := by
  refine wp_perform_bind (fun _ _ _ => ⟨fun _ => htold, (by cases ·)⟩)
    fun answer _ => ?_
  refine orders_quiet rfl rfl fun _ _ => ?_
  exact hf _ (by simp [hasDecided, Op.resolves, AuditEvent.isFor])

theorem orders_return {reply : Except SvcErr Reply}
    (hreply : ∀ value, reply = .ok value → hasDecided id h = true) :
    Orders id call (fun _ _ => True) (returnReply reply) h := by
  refine wp_perform_bind (f := .done) (fun _ _ _ => ⟨(by cases ·), ?_⟩) fun _ _ => trivial
  intro haccepts
  cases reply with
  | error err => cases haccepts
  | ok value => exact hreply value rfl

theorem rejectPhase_orders {p : Phase} {reason : String} (hid : p.id = id) (htold : Told id h) :
    Orders id call (fun result h' => ∀ value, result = .ok value → hasDecided id h' = true)
      (rejectPhase p approver reason) h := by
  refine orders_quiet rfl rfl fun answer _ => ?_
  cases answer with
  | error err => exact fun _ hresult => by cases hresult
  | ok c =>
    refine orders_quiet rfl rfl fun now _ => ?_
    cases hstart : (if p.status ≠ .running then p.start now else .ok p) with
    | error err => exact fun _ hresult => by cases hresult
    | ok p₁ =>
      have hp₁ : p₁.id = id := by
        split_ifs at hstart
        · obtain ⟨-, -, rfl⟩ := Phase.start_eq_ok_iff.mp hstart
          exact hid
        · cases hstart
          exact hid
      refine orders_quiet rfl rfl fun now' _ => ?_
      dsimp only
      cases hcomplete : p₁.complete (some (blockedEnvelope c p₁
          ("Rejected by " ++ approver ++ ": " ++ reason))) now' with
      | error err => exact fun _ hresult => by cases hresult
      | ok q =>
        have hq : q.id = id := (Phase.complete_key hcomplete).1.trans hp₁
        refine orders_quiet rfl rfl fun saved _ => ?_
        cases saved with
        | error err => exact fun _ hresult => by cases hresult
        | ok _ =>
          rw [← hq] at htold ⊢
          refine orders_decision (f := fun _ => pure (Except.ok Reply.acknowledged)) htold ?_
          intro _ hdecided _ _
          exact hdecided

theorem main_orders (cfg : ServiceConfig) (id : PhaseID) (call : Call) :
    Orders id call (fun _ _ => True) (main cfg call) [] := by
  cases hdecides : call.decides id with
  | false =>
    refine wp_mono (wp_true _ _ _) (fun h _ => ?_) fun _ _ _ => trivial
    cases h with
    | nil => trivial
    | cons ev past => exact fun htrue => by rw [hdecides] at htrue; cases htrue
  | true =>
    cases call with
    | approve pid approver =>
      obtain rfl : pid = id := of_decide_eq_true hdecides
      refine wp_bind (wp_mono gatedPhase_orders (fun _ hI => hI) ?_)
      rintro (err | p) h hgated
      · exact orders_return fun _ hreply => by cases hreply
      · exact orders_decision (f := fun _ => returnReply (.ok .acknowledged)) (hgated p rfl).2
          fun _ hdecided => orders_return fun _ _ => hdecided
    | reject pid approver reason =>
      obtain rfl : pid = id := of_decide_eq_true hdecides
      refine wp_bind (wp_mono gatedPhase_orders (fun _ hI => hI) ?_)
      rintro (err | p) h hgated
      · exact orders_return fun _ hreply => by cases hreply
      · obtain ⟨hid, htold⟩ := hgated p rfl
        refine wp_bind (wp_mono (rejectPhase_orders hid htold) (fun _ hI => hI) ?_)
        intro reply h' hreply
        exact orders_return hreply
    | _ => cases hdecides

end Order

/-! ## At most one decision -/

/-- The decision that is being made and the recorded ones are at most one, and every call that
has decided has left its record. -/
structure DecidedOnce (id : PhaseID) (π : ServicePool) : Prop where
  decides : ∀ t ∈ π.threads, t.call.decides id = true
  apart : π.holders (deciding id) + π.state.recordCount id .approvalResolved ≤ 1
  recorded : π.threads.countP (fun t => hasDecided id t.hist) ≤
    π.state.recordCount id .approvalResolved

theorem recordCount_handle (hresolves : op.resolves id = false) :
    (handle op ch s).2.recordCount id .approvalResolved =
      s.recordCount id .approvalResolved := by
  rcases handle_audit_cases op ch s with haudit | ⟨ev, rfl, hstate⟩
  · unfold Store.recordCount
    rw [haudit]
  · have hfor : ev.isFor id .approvalResolved = false := hresolves
    rw [hstate, Store.recordCount_appendAudit, hfor]
    rfl

theorem recordCount_handle_resolves (hresolves : op.resolves id = true)
    (hfault : ch.fault ≠ .before) :
    (handle op ch s).2.recordCount id .approvalResolved =
      s.recordCount id .approvalResolved + 1 := by
  cases op with
  | auditAppend ev =>
    have hfor : ev.isFor id .approvalResolved = true := hresolves
    have hstate : (handle (.auditAppend ev) ch s).2 = s.appendAudit ev := by
      simp only [handle]
      cases hkind : ch.fault with
      | none | after => rfl
      | before => exact absurd hkind hfault
    rw [hstate, Store.recordCount_appendAudit, hfor]
    rfl
  | _ => cases hresolves

theorem DecidedOnce.step {π : ServicePool} {tid : Nat} {call : Call}
    {next : op.Ret → Program Unit} {hist : History} (hinv : DecidedOnce id π)
    (hthread : π.threads[tid]? = some ⟨call, .call op next, hist⟩)
    (horder : Orderly id call (⟨op, (handle op ch π.state).1⟩ :: hist))
    (hmove : decisionsApart id π (.step tid ch) = true) :
    DecidedOnce id (π.perform handler tid call op next hist ch) := by
  have hcall : call.decides id = true := hinv.decides _ (List.mem_of_getElem? hthread)
  have hapart := hinv.apart
  have hrecorded := hinv.recorded
  have hholders := Pool.holders_perform (deciding id) (H := handler) ch hthread
  have hcount := Pool.countP_perform (fun t => hasDecided id t.hist) (H := handler) ch hthread
  rw [handler_run] at hholders hcount
  have hnew : hasDecided id (⟨op, (handle op ch π.state).1⟩ :: hist) =
      (op.resolves id || hasDecided id hist) := rfl
  have hstate : (π.perform handler tid call op next hist ch).state =
      (handle op ch π.state).2 := rfl
  have hdecides : ∀ t ∈ (π.perform handler tid call op next hist ch).threads,
      t.call.decides id = true := by
    intro t ht
    rcases List.mem_or_eq_of_mem_set ht with hold | rfl
    · exact hinv.decides t hold
    · exact hcall
  cases hresolves : op.resolves id with
  | true =>
    -- The call was deciding, and its record takes the place of the decision being made.
    obtain ⟨hdeciding, hfirst⟩ := (horder hcall).1 hresolves
    have hended : deciding id (⟨op, (handle op ch π.state).1⟩ :: hist) = false := by
      cases op with
      | auditAppend ev =>
        have hfor : ev.isFor id .approvalResolved = true := hresolves
        simp [deciding, hfor]
      | _ => cases hresolves
    have hfault : ch.fault ≠ .before := by
      cases op with
      | auditAppend ev => simpa [decisionsApart, hthread] using hmove
      | _ => cases hresolves
    have hrecord := recordCount_handle_resolves (s := π.state) hresolves hfault
    simp only [hended, hdeciding, Bool.toNat_true, Bool.toNat_false] at hholders
    simp only [hnew, hresolves, hfirst, Bool.true_or, Bool.toNat_true,
      Bool.toNat_false] at hcount
    exact ⟨hdecides, by rw [hstate, hrecord]; omega, by rw [hstate, hrecord]; omega⟩
  | false =>
    have hrecord : (handle op ch π.state).2.recordCount id .approvalResolved =
        π.state.recordCount id .approvalResolved := recordCount_handle hresolves
    simp only [hnew, hresolves, Bool.false_or] at hcount
    refine ⟨hdecides, ?_, by rw [hstate, hrecord]; omega⟩
    rw [hstate, hrecord]
    rcases deciding_cons_cases id ⟨op, (handle op ch π.state).1⟩ hist with hsame | hended | hasked
    · rw [hsame] at hholders
      omega
    · rw [hended, Bool.toNat_false] at hholders
      omega
    · -- The gate was found undecided while no other decision was being made.
      obtain ⟨rfl, hanswer⟩ := event_eq_handle hasked.symm
      have hundecided : π.state.recordCount id .approvalResolved = 0 := by
        have hread := Except.ok.inj (Fault.read_eq_ok hanswer.symm)
        simpa [Store.hasEventForPhase_eq_decide] using hread
      have hnone : π.holders (deciding id) = 0 := by
        simpa [decisionsApart, hthread] using hmove
      have hbound := Bool.toNat_le (deciding id
        (⟨.auditHasEventForPhase id .approvalResolved, (handle _ ch π.state).1⟩ :: hist))
      omega

theorem decidedOnce_of_apart (hs : s.recordCount id .approvalResolved = 0)
    (moves : List ServiceMove) (hcalls : ∀ m ∈ moves, decidesOnly id m = true)
    (hok : RunMeets cfg s (decisionsApart id) moves = true) :
    DecidedOnce id (reach cfg s moves) := by
  refine Pool.run_induction (I := Orderly id) handle_answers (main_orders cfg id) ?start ?crash
    ?step (by simp) ⟨by simp, ?zero, by simp⟩ moves (Pool.meets_and_of_forall hok hcalls)
  case start =>
    intro π inbound hmove hinv
    rw [Bool.and_eq_true] at hmove
    refine ⟨fun t ht => ?_, ?_, ?_⟩
    · rcases List.mem_append.mp ht with hold | hnew
      · exact hinv.decides t hold
      · rw [List.mem_singleton.mp hnew]
        exact hmove.2
    · rw [Pool.holders_start _ _ rfl]
      exact hinv.apart
    · simpa [List.countP_append, hasDecided] using hinv.recorded
  case crash =>
    intro π _ hinv
    refine ⟨fun t ht => ?_, ?_, ?_⟩
    · obtain ⟨t₀, ht₀, rfl⟩ := List.mem_map.mp ht
      exact hinv.decides t₀ ht₀
    · rw [Pool.holders_crash]
      have hapart := hinv.apart
      change 0 + π.state.recordCount id .approvalResolved ≤ 1
      omega
    · rw [List.countP_map]
      exact hinv.recorded
  case step =>
    intro π tid choice call op next hist hthread _ _ horder hmove hinv
    rw [Bool.and_eq_true] at hmove
    exact hinv.step hthread horder hmove.1
  case zero =>
    change 0 + s.recordCount id .approvalResolved ≤ 1
    omega

/-- If no decision asks for the state of the gate while another one is being made and every
decision reaches the audit log, then in every interleaving of decisions about a phase whose
stop is undecided at most one call is accepted and at most one decision is recorded. -/
theorem decided_once (cfg : ServiceConfig) (s : Store) (id : PhaseID)
    (hs : s.recordCount id .approvalResolved = 0) (moves : List ServiceMove)
    (hcalls : ∀ m ∈ moves, decidesOnly id m = true)
    (hok : RunMeets cfg s (decisionsApart id) moves = true) :
    ((reach cfg s moves).threads.countP fun t => t.hist.any fun ev => ev.op.accepts) ≤ 1 ∧
      (reach cfg s moves).state.recordCount id .approvalResolved ≤ 1 := by
  have hinv : DecidedOnce id (reach cfg s moves) := decidedOnce_of_apart hs moves hcalls hok
  have hkeeps := Pool.run_keeps (H := handler) handle_answers (main_orders cfg id)
    (π := (Pool.init s : ServicePool)) (by simp) moves
  have haccepted : (reach cfg s moves).threads.countP
      (fun t => t.hist.any fun ev => ev.op.accepts) ≤
      (reach cfg s moves).threads.countP fun t => hasDecided id t.hist := by
    refine List.countP_mono_left fun t ht haccepts => ?_
    obtain ⟨ev, hev, haccept⟩ := List.any_eq_true.mp haccepts
    obtain ⟨past, hsuffix, horder⟩ := (hkeeps t ht).of_mem hev
    obtain ⟨e, he, hresolves⟩ := List.any_eq_true.mp
      ((horder (hinv.decides t ht)).2 haccept)
    exact List.any_eq_true.mpr ⟨e, hsuffix.subset (List.mem_cons_of_mem ev he), hresolves⟩
  have hapart := hinv.apart
  have hrecorded := hinv.recorded
  exact ⟨by omega, by omega⟩

/-! ## Sample decisions -/

def gatedStore : Store :=
  (reach {} (sampleStore .explore) gatedRun).state

/-- Two approvals that both ask before either records its decision. -/
def approvalsCrossed : List ServiceMove :=
  .start (.approve ⟨7⟩ "ana") :: .start (.approve ⟨7⟩ "eva") ::
    List.replicate 3 (.step 0 {}) ++ List.replicate 6 (.step 1 {}) ++
    List.replicate 3 (.step 0 {})

def decisions (π : ServicePool) : Nat × Nat :=
  (π.threads.countP fun t => t.hist.any fun ev => ev.op.accepts,
    π.state.recordCount ⟨7⟩ .approvalResolved)

/-- Both of two crossed approvals of a phase that stopped once are accepted and recorded. -/
theorem crossed_approvals_accepted :
    gatedStore.recordCount ⟨7⟩ .approvalRequired = 1 ∧
      gatedStore.recordCount ⟨7⟩ .approvalResolved = 0 ∧
      (approvalsCrossed.all (decidesOnly ⟨7⟩)) = true ∧
      decisions (reach {} gatedStore approvalsCrossed) = (2, 2) := by
  decide +kernel

def approvalThenRejection : List ServiceMove :=
  .start (.approve ⟨7⟩ "ana") :: .start (.reject ⟨7⟩ "eva" "no") ::
    List.replicate 6 (.step 0 {}) ++ List.replicate 12 (.step 1 {})

theorem decided_once_approvalThenRejection :
    decisions (reach {} gatedStore approvalThenRejection) = (1, 1) ∧
      (decisions (reach {} gatedStore approvalThenRejection)).1 ≤ 1 ∧
      (decisions (reach {} gatedStore approvalThenRejection)).2 ≤ 1 :=
  ⟨by decide +kernel, decided_once {} gatedStore ⟨7⟩ (by decide +kernel) approvalThenRejection
    (by decide +kernel) (by decide +kernel)⟩

end SophiaOrchestrator
