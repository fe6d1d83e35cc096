import SophiaOrchestrator.Skills.Matcher
import SophiaOrchestrator.Phase.CallProtocol

/-!
# The outcomes of skill usages

When a skill is put into a prompt a row says so, with the outcome still pending.  There is
one row for a change, a phase type, a skill and its version, and it is inserted with
`ON CONFLICT DO NOTHING`.  The run goes on with the ids that it has generated:

* a run with a single agent sets the outcome of the rows with these ids once its phase is
  saved with an envelope, and not when it fails before;
* a run through the apply executor never sets an outcome.

A row that was there before has another id, so nothing that the run does later finds it.
All that a run does to the table is the loop over the injected skills and this update.  Which
path a run takes and where it ends is read off the history of its `runAsync`.
-/

namespace SophiaOrchestrator.Skills.Usage

structure SkillUsageID where
  raw : Nat
  deriving DecidableEq, Repr

inductive Outcome where
  | pending
  | success
  | failure
  | blocked
  deriving DecidableEq, Repr

structure SkillUsage where
  id : SkillUsageID
  changeID : ChangeID
  phaseType : PhaseType
  skillID : SkillID
  skillVersion : String
  injectedAt : Time
  outcome : Outcome
  deriving DecidableEq

def SkillUsage.key (su : SkillUsage) : ChangeID × PhaseType × SkillID × String :=
  (su.changeID, su.phaseType, su.skillID, su.skillVersion)

abbrev UsageTable := Sql.Table SkillUsage.key SkillUsage.id

/-! ## Statements -/

def doNothing : Sql.Table.ConflictUpdate SkillUsage.key SkillUsage.id where
  apply old _ := old
  target_apply _ _ := rfl
  other_apply _ _ := rfl

theorem doNothing_onRow (su row : SkillUsage) : doNothing.onRow su row = row :=
  ite_self _

variable (t : UsageTable)

/-- `SkillUsageRepo.Insert`; `none` is an id that another row has. -/
def insert (su : SkillUsage) : Option UsageTable :=
  t.upsert doNothing su

def SkillUsage.withOutcome (ids : List SkillUsageID) (outcome : Outcome) (row : SkillUsage) :
    SkillUsage :=
  if row.id ∈ ids then { row with outcome := outcome } else row

def updateOutcome (id : SkillUsageID) (outcome : Outcome) : UsageTable :=
  t.mapRows (SkillUsage.withOutcome [id] outcome)
    (fun row => by unfold SkillUsage.withOutcome; split <;> rfl)
    (fun row => by unfold SkillUsage.withOutcome; split <;> rfl)

/-! ## Runs -/

def skillUsageOutcomeFor : EnvelopeStatus → Outcome
  | .done | .doneWithConcerns => .success
  | .blocked => .blocked
  | _ => .failure

def updateSkillUsageOutcomes (ids : List SkillUsageID) (status : EnvelopeStatus) : UsageTable :=
  ids.foldl (fun t id => updateOutcome t id (skillUsageOutcomeFor status)) t

/-- A skill of the loop over the injected ones, with the id that is generated for it; one
that does not parse is `none`. -/
structure Injection where
  usageID : Option SkillUsageID
  skillID : SkillID
  version : String
  injectedAt : Time := 0

/-- One round of the loop, which keeps the ids of the inserts that did not fail. -/
def recordInjection (cid : ChangeID) (pt : PhaseType) (acc : UsageTable × List SkillUsageID)
    (i : Injection) : UsageTable × List SkillUsageID :=
  match i.usageID with
  | none => acc
  | some id =>
    match insert acc.1 ⟨id, cid, pt, i.skillID, i.version, i.injectedAt, .pending⟩ with
    | none => acc
    | some t => (t, acc.2 ++ [id])

/-- A run of a phase from the injection of its skills on.  A run through the apply executor
injects them for each dispatch.  Without a status it has failed before its phase was saved
with an envelope, and `failPhase` has blocked the phase. -/
structure PhaseRun where
  changeID : ChangeID
  pType : PhaseType
  executes : Bool := false
  injections : List Injection
  status : Option EnvelopeStatus

def PhaseRun.play (r : PhaseRun) (t : UsageTable) : UsageTable :=
  let (t, ids) := r.injections.foldl (recordInjection r.changeID r.pType) (t, [])
  match r.status with
  | some status => if r.executes then t else updateSkillUsageOutcomes t ids status
  | none => t

def PhaseRun.outcome (r : PhaseRun) : Outcome :=
  skillUsageOutcomeFor (r.status.getD .blocked)

def playAll (runs : List PhaseRun) : UsageTable :=
  runs.foldl (fun t r => r.play t) t

/-! ## The runs of the phase service -/

section Service

open Effects Prog

/-- What the history of a `runAsync` tells: the rows it has saved, whether it has looked up its
change again, as it does to fail a phase, and whether it has called the apply executor. -/
structure Digest where
  saves : List Phase := []
  lookedUp : Bool := false
  executes : Bool := false

def Digest.after (d : Digest) : Event → Digest
  | ⟨.phaseSave q, .ok ()⟩ => { d with saves := q :: d.saves }
  | ⟨.changeFindByID _, .ok _⟩ => { d with lookedUp := true }
  | ⟨.applyExecute _ _ _, _⟩ => { d with executes := true }
  | _ => d

def digest : SophiaOrchestrator.History → Digest
  | [] => {}
  | ev :: past => (digest past).after ev

/-- The run that a finished `runAsync` on the phase was. -/
def PhaseRun.ofHistory (c : Change) (p : Phase) (injections : List Injection)
    (h : SophiaOrchestrator.History) : PhaseRun where
  changeID := c.id
  pType := p.pType
  executes := (digest h).executes
  injections := injections
  status :=
    if (digest h).lookedUp then none
    else (digest h).saves.head?.bind fun q => q.envelope.map (·.status)

variable {cfg : ServiceConfig} {call : SophiaOrchestrator.Call} {c : Change} {p : Phase}
  {s s' : Stage} {d : Digest}

structure Digest.Working (cfg : ServiceConfig) (p : Phase) (d : Digest) : Prop where
  saves : d.saves = []
  lookedUp : d.lookedUp = false
  executes : d.executes = true → p.pType = .apply ∧ cfg.hasApplyExecutor = true

structure Digest.Failing (cfg : ServiceConfig) (p : Phase) (d : Digest) : Prop where
  saves : ∀ q ∈ d.saves, q.status = .blocked
  lookedUp : d.lookedUp = true
  executes : d.executes = true → p.pType = .apply ∧ cfg.hasApplyExecutor = true

structure Digest.Saved (cfg : ServiceConfig) (p q : Phase) (env : Envelope) (d : Digest) :
    Prop where
  saves : d.saves = [q]
  lookedUp : d.lookedUp = false
  executes : d.executes = true → p.pType = .apply ∧ cfg.hasApplyExecutor = true
  envelope : q.envelope = some env
  status : q.status = Phase.statusOf env.status

def Digest.At (cfg : ServiceConfig) (p : Phase) (d : Digest) : Stage → Prop
  | .working _ p' | .initialised _ p' _ | .reading _ p' _ _ | .executed _ p' _ | .staffed _ p' _
  | .sent _ p' _ | .back _ p' _ | .lost _ p' _ => p' = p ∧ d.Working cfg p
  | .failing _ _ _ _ | .blocked _ _ _ => d.Failing cfg p
  | .saved _ _ q env _ _ | .unstored _ _ q env _ _ _ => d.Saved cfg p q env
  | .ended => d.Working cfg p ∨ d.Failing cfg p ∨ ∃ q env, d.Saved cfg p q env
  | _ => False

theorem Digest.after_of_idle (d : Digest) {ev : Event} (hidle : ev.op.idle = true) :
    d.after ev = d := by
  obtain ⟨op, answer⟩ := ev
  cases op <;> first | rfl | cases hidle

theorem Digest.At.working (hs : d.At cfg p s) {p' : Phase} (hrun : s.run = some (c, p')) :
    p' = p ∧ d.Working cfg p := by
  cases s <;> first | (cases hrun; exact hs) | cases hrun

theorem Digest.At.drops (hs : d.At cfg p s) {p' p₁ : Phase} (hdrops : s.Drops c p' p₁) :
    d.Working cfg p := by
  cases hdrops with
  | outcome hrun => exact (hs.working hrun).2
  | refused concerns hoffers =>
    exact (hs.working hoffers.run).2
  | lost => exact hs.2

theorem Digest.Working.completed (hd : d.Working cfg p) {p₁ q : Phase} {env : Envelope} {now : Time}
    (hcomplete : p₁.complete (some env) now = .ok q) :
    (d.after ⟨.phaseSave q, .ok ()⟩).Saved cfg p q env := by
  obtain ⟨-, -, -, rfl⟩ := Phase.complete_eq_ok_iff.mp hcomplete
  exact ⟨congrArg (_ :: ·) hd.saves, hd.lookedUp, hd.executes, rfl, rfl⟩

theorem Digest.Failing.completed (hd : d.Failing cfg p) {p₁ q : Phase} {c' : Change}
    {reason : String} {now : Time} (answer : Except RepoErr Unit)
    (hcomplete : p₁.complete (some (blockedEnvelope c' p₁ reason)) now = .ok q) :
    (d.after ⟨.phaseSave q, answer⟩).Failing cfg p := by
  obtain ⟨-, -, -, rfl⟩ := Phase.complete_eq_ok_iff.mp hcomplete
  cases answer with
  | error err => exact hd
  | ok u => exact ⟨List.forall_mem_cons.mpr ⟨rfl, hd.saves⟩, hd.lookedUp, hd.executes⟩

theorem Digest.At.move {ev : Event} (hs : d.At cfg p s) (hmove : CallMove cfg call s ev s') :
    (d.after ev).At cfg p s' := by
  cases hmove with
  | stay hidle => rwa [Digest.after_of_idle d hidle]
  | refuses hpending | acknowledges hpending =>
    cases s <;> first | exact hs.elim | cases hpending
  | completes hoffers hcomplete =>
    exact (hs.working hoffers.run).2.completed hcomplete
  | loses hoffers => exact hs.working hoffers.run
  | fails hdrops =>
    have hd := hs.drops hdrops
    exact ⟨by simp [Digest.after, hd.saves], rfl, hd.executes⟩
  | givesUp hdrops => exact .inl (hs.drops hdrops)
  | blocks hrevived hcomplete => exact hs.completed _ hcomplete
  | executes hpermits htype hwired =>
    obtain ⟨rfl, hd⟩ := hs
    exact ⟨rfl, hd.saves, hd.lookedUp, fun _ => ⟨htype, hwired⟩⟩
  | suspends => exact .inl hs.2
  | announces | announcesOnly => exact .inr (.inl hs)
  | closes => exact .inr (.inr ⟨_, _, hs⟩)
  -- the other moves leave the digest as it is, or do not belong to a run
  | _ => first | exact hs | exact hs.elim

/-- **The run of a phase.**  If the run has a status, the row was saved with an envelope of that
status, and if it has none, no row was saved but the blocked one of `failPhase`.  Only an apply
phase runs through the executor. -/
theorem ofHistory_runAsync {inp : RunPhaseInput} (injections : List Injection) :
    (runAsync cfg c p inp).wp (histSem fun _ _ => True) (fun _ => True) (fun _ h =>
      let r := PhaseRun.ofHistory c p injections h
      (∀ status, r.status = some status → ∃ q, (digest h).saves = [q] ∧
          q.status = Phase.statusOf status) ∧
        (r.status = none → ∀ q ∈ (digest h).saves, q.status = .blocked) ∧
        (r.executes = true → p.pType = .apply ∧ cfg.hasApplyExecutor = true)) [] := by
  have hstart : (digest []).At cfg p (.working c p) := ⟨rfl, rfl, rfl, fun h => nomatch h⟩
  have hfollows : Closes cfg .recover (runAsync cfg c p inp) (.working c p) := runAsync_follows
  refine wp_mono (hfollows.wp_hist (I := fun _ => True) (J := fun s h => (digest h).At cfg p s)
    (fun _ _ _ _ hmove _ hs => ⟨trivial, hs.move hmove⟩) hstart) (fun _ => id) ?_
  · rintro _ h ⟨s, rfl, hworking | hfailing | ⟨q, env, hsaved⟩⟩
    · simp only [PhaseRun.ofHistory, hworking.saves, hworking.lookedUp]
      exact ⟨by simp, by simp, hworking.executes⟩
    · simp only [PhaseRun.ofHistory, hfailing.lookedUp]
      exact ⟨by simp, fun _ => hfailing.saves, hfailing.executes⟩
    · simp only [PhaseRun.ofHistory, hsaved.saves, hsaved.lookedUp]
      refine ⟨?_, ?_, hsaved.executes⟩
      · simpa [hsaved.envelope] using hsaved.status
      · simp [hsaved.envelope]

end Service

/-! ## What should be recorded -/

/-- The row is one of the change and the phase type, and its skill was injected. -/
def PhaseRun.Covers (r : PhaseRun) (row : SkillUsage) : Prop :=
  row.changeID = r.changeID ∧ row.phaseType = r.pType ∧
    ∃ i ∈ r.injections, i.skillID = row.skillID

instance (r : PhaseRun) (row : SkillUsage) : Decidable (r.Covers row) :=
  inferInstanceAs (Decidable (_ ∧ _ ∧ _))

def PhaseRun.Recorded (r : PhaseRun) (t : UsageTable) : Prop :=
  ∀ row ∈ t.rows, r.Covers row → row.outcome = r.outcome ∧ row.outcome ≠ .pending

/-- A row of an injected skill that is there already has the outcome of the run; and if one
of the skills has no row of its version yet, the run is one with a single agent that ends
with a saved envelope. -/
def PhaseRun.Settles (r : PhaseRun) (t : UsageTable) : Prop :=
  (∀ row ∈ t.rows, r.Covers row → row.outcome = r.outcome) ∧
    ((∃ i ∈ r.injections, i.usageID.isSome ∧
        ∀ row ∈ t.rows, row.key ≠ (r.changeID, r.pType, i.skillID, i.version)) →
      r.executes = false ∧ r.status.isSome)

instance (r : PhaseRun) (t : UsageTable) : Decidable (r.Settles t) :=
  inferInstanceAs (Decidable (_ ∧ (_ → _)))

def AllSettle : UsageTable → List PhaseRun → Prop
  | _, [] => True
  | t, r :: runs => r.Settles t ∧ AllSettle (r.play t) runs

/-! ## One run -/

theorem rows_updateSkillUsageOutcomes (ids : List SkillUsageID) (status : EnvelopeStatus) :
    (updateSkillUsageOutcomes t ids status).rows =
      t.rows.map (SkillUsage.withOutcome ids (skillUsageOutcomeFor status)) := by
  unfold updateSkillUsageOutcomes
  induction ids generalizing t with
  | nil => exact (List.map_id'' (fun row => if_neg List.not_mem_nil) t.rows).symm
  | cons id ids ih =>
    rw [List.foldl_cons, ih, updateOutcome, Sql.Table.mapRows_rows, List.map_map]
    refine List.map_congr_left fun row _ => ?_
    by_cases hid : row.id = id <;> by_cases hids : row.id ∈ ids <;>
      simp [SkillUsage.withOutcome, hid, hids]

/-- What the loop has done: the old rows are there, and a new row is one of an injected
skill that had none, with an id that the run goes on with. -/
structure Injected (r : PhaseRun) (t : UsageTable) (acc : UsageTable × List SkillUsageID) :
    Prop where
  kept : ∀ row ∈ t.rows, row ∈ acc.1.rows
  added : ∀ row ∈ acc.1.rows, row ∈ t.rows ∨ row.id ∈ acc.2 ∧
    ∃ i ∈ r.injections, i.usageID.isSome ∧
      ∀ old ∈ t.rows, old.key ≠ (r.changeID, r.pType, i.skillID, i.version)

theorem Injected.step {r : PhaseRun} {t : UsageTable} {acc : UsageTable × List SkillUsageID}
    (h : Injected r t acc) {i : Injection} (hi : i ∈ r.injections) :
    Injected r t (recordInjection r.changeID r.pType acc i) := by
  unfold recordInjection
  cases hid : i.usageID with
  | none => exact h
  | some id =>
    dsimp only
    rcases acc.1.upsert_cases doNothing
        ⟨id, r.changeID, r.pType, i.skillID, i.version, i.injectedAt, .pending⟩ with
      ⟨-, t', hsome, hrows⟩ | ⟨-, -, hnone⟩ | ⟨hnew, -, t', hsome, hrows⟩
    · -- The row is there, and nothing is done.
      have hsame : t'.rows = acc.1.rows := by
        rw [hrows, List.map_congr_left fun row _ => doNothing_onRow _ row, List.map_id']
      simp only [insert, hsome]
      refine ⟨fun row hrow => hsame ▸ h.kept row hrow, fun row hrow => ?_⟩
      refine (h.added row (hsame ▸ hrow)).imp_right (And.imp_left fun hmem => ?_)
      exact List.mem_append_left _ hmem
    · simp only [insert, hnone]
      exact h
    · simp only [insert, hsome]
      refine ⟨fun row hrow => hrows ▸ List.mem_append_left _ (h.kept row hrow), ?_⟩
      intro row hrow
      rw [hrows] at hrow
      rcases List.mem_append.mp hrow with hold | hadded
      · exact (h.added row hold).imp_right (And.imp_left fun hmem => List.mem_append_left _ hmem)
      · rw [List.mem_singleton.mp hadded]
        exact .inr ⟨by simp, i, hi, by simp [hid], fun old hold => hnew old (h.kept old hold)⟩

theorem Injected.fold {r : PhaseRun} {t : UsageTable} (injections : List Injection)
    (hsub : ∀ i ∈ injections, i ∈ r.injections) {acc : UsageTable × List SkillUsageID}
    (h : Injected r t acc) :
    Injected r t (injections.foldl (recordInjection r.changeID r.pType) acc) := by
  induction injections generalizing acc with
  | nil => exact h
  | cons i rest ih =>
    refine ih (fun j hj => hsub j (List.mem_cons_of_mem i hj)) ?_
    exact h.step (hsub i List.mem_cons_self)

theorem outcome_ne_pending (r : PhaseRun) : r.outcome ≠ .pending := by
  unfold PhaseRun.outcome skillUsageOutcomeFor
  split <;> decide

theorem PhaseRun.Settles.recorded {r : PhaseRun} {t : UsageTable} (h : r.Settles t) :
    r.Recorded (r.play t) := by
  have hinjected : Injected r t (r.injections.foldl (recordInjection r.changeID r.pType) (t, [])) :=
    Injected.fold r.injections (fun _ hi => hi)
      ⟨fun _ hrow => hrow, fun _ hrow => .inl hrow⟩
  intro row hrow hcovers
  suffices hrow : row.outcome = r.outcome from ⟨hrow, hrow ▸ outcome_ne_pending r⟩
  unfold PhaseRun.play at hrow
  generalize r.injections.foldl (recordInjection r.changeID r.pType) (t, []) = acc
    at hinjected hrow
  obtain ⟨t₁, ids⟩ := acc
  dsimp only at hrow
  -- Without an update there is no new row.
  have hunchanged : ¬(r.executes = false ∧ r.status.isSome) → row ∈ t₁.rows →
      row.outcome = r.outcome := by
    intro hends hrow
    rcases hinjected.added row hrow with hold | ⟨-, hnew⟩
    · exact h.1 row hold hcovers
    · exact absurd (h.2 hnew) hends
  cases hstatus : r.status with
  | none =>
    rw [hstatus] at hrow
    exact hunchanged (by simp [hstatus]) hrow
  | some status =>
    simp only [hstatus] at hrow
    cases hexecutes : r.executes with
    | true =>
      rw [hexecutes, if_pos rfl] at hrow
      exact hunchanged (by simp [hexecutes]) hrow
    | false =>
      rw [hexecutes, if_neg Bool.false_ne_true, rows_updateSkillUsageOutcomes] at hrow
      obtain ⟨old, hold, rfl⟩ := List.mem_map.mp hrow
      unfold SkillUsage.withOutcome at hcovers ⊢
      split
      · simp [PhaseRun.outcome, hstatus]
      · next hid =>
        rw [if_neg hid] at hcovers
        exact h.1 old ((hinjected.added old hold).resolve_right fun hnew => hid hnew.1) hcovers

/-! ## Histories -/

/-- **Skill usages.**  In every sequential history whose runs settle the tables that they
meet, after each run the rows of the skills that it has injected have its outcome. -/
theorem recorded_of_allSettle {t : UsageTable} {before after : List PhaseRun} {r : PhaseRun}
    (h : AllSettle t (before ++ r :: after)) : r.Recorded (playAll t (before ++ [r])) := by
  induction before generalizing t with
  | nil => exact h.1.recorded
  | cons first before ih => exact ih h.2

def sampleRun (pType : PhaseType) (usageID : Nat) (executes : Bool)
    (status : Option EnvelopeStatus) : PhaseRun where
  changeID := ⟨1⟩
  pType := pType
  executes := executes
  injections := [⟨some ⟨usageID⟩, ⟨7⟩, "v1", 0⟩]
  status := status

/-- The same skill in two phases, of which the second is blocked. -/
theorem recorded_twoPhases :
    (sampleRun .spec 2 false (some .blocked)).Recorded
      (playAll .empty [sampleRun .explore 1 false (some .done),
        sampleRun .spec 2 false (some .blocked)]) :=
  recorded_of_allSettle
    (show AllSettle .empty ([sampleRun .explore 1 false (some .done)] ++
      sampleRun .spec 2 false (some .blocked) :: []) from ⟨by decide, by decide, trivial⟩)

/-- A phase that is run again keeps the outcome of its first run; a run that fails after the
injection and a run through the apply executor leave the row pending. -/
theorem usage_not_recorded :
    ((playAll .empty [sampleRun .spec 1 false (some .blocked),
        sampleRun .spec 2 false (some .done)]).rows.map SkillUsage.outcome = [.blocked]) ∧
      ((playAll .empty [sampleRun .spec 1 false none]).rows.map SkillUsage.outcome =
        [.pending]) ∧
      ((playAll .empty [sampleRun .apply 1 true (some .done)]).rows.map SkillUsage.outcome =
        [.pending]) ∧
      ¬(sampleRun .spec 2 false (some .done)).Recorded (playAll .empty
        [sampleRun .spec 1 false (some .blocked), sampleRun .spec 2 false (some .done)]) := by
  refine ⟨by decide, by decide, by decide, fun h => ?_⟩
  have hrow := h ⟨⟨1⟩, ⟨1⟩, .spec, ⟨7⟩, "v1", 0, .blocked⟩ (by decide) (by decide)
  exact absurd hrow.1 (by decide)

end SophiaOrchestrator.Skills.Usage
