import Mathlib.Data.List.MinMax
import Mathlib.Data.List.Sort
import Mathlib.Order.WithBot
import Mathlib.Data.Rat.Floor
import Mathlib.Tactic.Linarith
import Mathlib.Tactic.Positivity
import Mathlib.Tactic.NormNum
import SophiaOrchestrator.Sql.Table
import SophiaOrchestrator.Domain.Change

/-!
# The Postgres store

The tables that the phase, change and outbox repositories read and write, with
the uniqueness and foreign-key constraints of the migrations carried by the
types, and the statements of the repositories as functions on them.

A column stores what its SQL type can hold: `NUMERIC(3,2)` rounds a confidence
to hundredths, `TIMESTAMPTZ` keeps whole microseconds, and an `INT` column
refuses a value of `2 ^ 31` or more.
-/

namespace SophiaOrchestrator

open Sql

variable {σ α : Type} {x : ℚ} {pt : PhaseType} {c : Change} {id cid : ChangeID} {p r : Phase}

inductive RepoErr where
  | notFound
  | uniqueViolation
  | foreignKeyViolation
  | outOfRange
  | unavailable
  deriving DecidableEq, Repr

variable {answer : Except RepoErr α}

def RepoErr.text : RepoErr → String
  | .notFound => "repository: not found"
  | .uniqueViolation => "unique violation"
  | .foreignKeyViolation => "foreign key violation"
  | .outOfRange => "numeric value out of range"
  | .unavailable => "connection failure"

/-! ## Failing statements -/

/-- How a database call fails: not at all, before the statement is executed, or
after it, when only the reply is lost. -/
inductive Fault where
  | none
  | before
  | after
  deriving DecidableEq, Repr

variable {fault : Fault}

def Fault.read {α : Type} (fault : Fault) (answer : Except RepoErr α) : Except RepoErr α :=
  match fault with
  | .none => answer
  | .before | .after => .error .unavailable

def Fault.write {σ : Type} (fault : Fault) (s : σ) (effect : Except RepoErr σ) :
    Except RepoErr Unit × σ :=
  match fault, effect with
  | .none, .ok s' => (.ok (), s')
  | .none, .error err => (.error err, s)
  | .before, _ => (.error .unavailable, s)
  | .after, .ok s' => (.error .unavailable, s')
  | .after, .error err => (.error err, s)

theorem Fault.write_eq (fault : Fault) (s : σ) (effect : Except RepoErr σ) :
    (fault.write s effect).2 = s ∨ effect = .ok (fault.write s effect).2 := by
  cases fault <;> cases effect <;> simp [Fault.write]

theorem Fault.write_ok {s : σ} {effect : Except RepoErr σ} (h : (fault.write s effect).1 = .ok ()) :
    effect = .ok (fault.write s effect).2 := by
  cases fault <;> cases effect <;> simp_all [Fault.write]

theorem Fault.read_eq_ok {a : α} (h : fault.read answer = .ok a) : answer = .ok a := by
  cases fault with
  | none => exact h
  | before | after => cases h

/-- A read that fails is not taken for a missing row. -/
theorem Fault.read_eq_notFound (h : fault.read answer = .error .notFound) :
    answer = .error .notFound := by
  cases fault with
  | none => exact h
  | before | after => cases h

/-! ## Rows of the audit log -/

inductive EventType where
  | phaseStarted
  | governanceDecision
  | approvalRequired
  | approvalResolved
  | agentDispatched
  | agentEnvelopeReceived
  | errorDiscarded
  | phaseCompleted
  | phaseCompletedWithConcerns
  | phaseNeedsContext
  | phaseFailed
  | phaseArchived
  | memoryArtifactPersistFailed (topicKey type err : String)
  deriving DecidableEq, Repr

structure AuditEvent where
  changeID : Option ChangeID
  phaseID : Option PhaseID
  eventType : EventType
  deriving DecidableEq, Repr

/-! ## Column types -/

/-- `NUMERIC(3,2)`: round to hundredths, halves away from zero. -/
def numeric32 (x : ℚ) : ℚ :=
  if 0 ≤ x then mkRat ⌊x * 100 + mkRat 1 2⌋ 100 else mkRat (-⌊-x * 100 + mkRat 1 2⌋) 100

/-- `TIMESTAMPTZ`: whole microseconds. -/
def timestamptz (t : Time) : Time :=
  t / 1000 * 1000

theorem timestamptz_timestamptz (t : Time) : timestamptz (timestamptz t) = timestamptz t := by
  simp [timestamptz]

theorem le_timestamptz {t now : Time} (ht : timestamptz t = t) (h : t ≤ now) :
    t ≤ timestamptz now := by
  rw [← ht]
  exact Nat.mul_le_mul_right _ (Nat.div_le_div_right h)

theorem numeric32_mem_unit (h₀ : 0 ≤ x) (h₁ : x ≤ 1) :
    0 ≤ numeric32 x ∧ numeric32 x ≤ 1 := by
  have hhalf : mkRat 1 2 = (1 / 2 : ℚ) := by decide +kernel
  have hlow : (0 : ℤ) ≤ ⌊x * 100 + mkRat 1 2⌋ := by
    rw [Int.floor_nonneg, hhalf]
    linarith
  have hhigh : ⌊x * 100 + mkRat 1 2⌋ ≤ 100 := by
    rw [Int.floor_le_iff, hhalf]
    push_cast
    linarith
  rw [numeric32, if_pos h₀, Rat.mkRat_eq_div]
  have hlow' : (0 : ℚ) ≤ (⌊x * 100 + mkRat 1 2⌋ : ℚ) := by exact_mod_cast hlow
  have hhigh' : ((⌊x * 100 + mkRat 1 2⌋ : ℤ) : ℚ) ≤ 100 := by exact_mod_cast hhigh
  constructor
  · positivity
  · rw [div_le_one (by norm_num)]
    exact_mod_cast hhigh

namespace Phase

/-- The columns of `UNIQUE (change_id, phase_type, attempts)`. -/
def key (p : Phase) : ChangeID × PhaseType × Nat :=
  (p.changeID, p.pType, p.attempts)

def stored (p : Phase) : Phase :=
  { p with
    confidence := numeric32 p.confidence
    startedAt := p.startedAt.map timestamptz
    completedAt := p.completedAt.map timestamptz }

def fitsColumns (p : Phase) : Bool :=
  decide (p.retryBudget < 2 ^ 31) && decide (p.attempts < 2 ^ 31) &&
    decide (-10 < numeric32 p.confidence) && decide (numeric32 p.confidence < 10)

@[simp] theorem stored_id (p : Phase) : p.stored.id = p.id := rfl
@[simp] theorem stored_changeID (p : Phase) : p.stored.changeID = p.changeID := rfl
@[simp] theorem stored_pType (p : Phase) : p.stored.pType = p.pType := rfl
@[simp] theorem stored_status (p : Phase) : p.stored.status = p.status := rfl
@[simp] theorem stored_attempts (p : Phase) : p.stored.attempts = p.attempts := rfl
@[simp] theorem stored_retryBudget (p : Phase) : p.stored.retryBudget = p.retryBudget := rfl
@[simp] theorem stored_key (p : Phase) : p.stored.key = p.key := rfl

end Phase

/-! ## Tables -/

/-- `ON CONFLICT (change_id, phase_type, attempts) DO UPDATE SET ...`: the id of
the existing row stays. -/
def phaseConflictUpdate : Table.ConflictUpdate Phase.key Phase.id where
  apply old proposed :=
    { old with
      status := proposed.status
      envelope := proposed.envelope
      confidence := proposed.confidence
      retryBudget := proposed.retryBudget
      startedAt := proposed.startedAt
      completedAt := proposed.completedAt
      concerns := proposed.concerns }
  target_apply _ _ := rfl
  other_apply _ _ := rfl

def Change.projectName (c : Change) : String × String :=
  (c.project, c.name)

/-- `ON CONFLICT (id) DO UPDATE SET status, current_phase, updated_at`. -/
def changeConflictUpdate : Table.ConflictUpdate Change.id Change.projectName where
  apply old proposed :=
    { old with
      status := proposed.status
      currentPhase := proposed.currentPhase
      updatedAt := proposed.updatedAt }
  target_apply _ _ := rfl
  other_apply _ _ := rfl

def Change.stored (c : Change) : Change :=
  { c with createdAt := timestamptz c.createdAt, updatedAt := timestamptz c.updatedAt }

@[simp] theorem Change.stored_id (c : Change) : c.stored.id = c.id := rfl
@[simp] theorem Change.stored_status (c : Change) : c.stored.status = c.status := rfl
@[simp] theorem Change.stored_currentPhase (c : Change) :
    c.stored.currentPhase = c.currentPhase := rfl

abbrev OutboxRow : Type := OutboxEvent PhaseArchivedPayload

def outboxKey {Body : Type} (ev : OutboxEvent Body) : OutboxID :=
  ev.id

/-- The outbox row as its columns hold it; the payload is stored verbatim. -/
def OutboxEvent.stored {Body : Type} (ev : OutboxEvent Body) : OutboxEvent Body :=
  { ev with
    nextAttemptAt := timestamptz ev.nextAttemptAt
    createdAt := timestamptz ev.createdAt
    deliveredAt := ev.deliveredAt.map timestamptz }

/-- The database.  A phase row refers to an existing change. -/
structure Store where
  changes : Table Change.id Change.projectName
  phases : Table Phase.key Phase.id
  outbox : Table (outboxKey : OutboxRow → OutboxID) outboxKey
  audit : List AuditEvent
  phase_change : ∀ p ∈ phases.rows, ∃ c ∈ changes.rows, c.id = p.changeID

variable {s s' : Store}

namespace Store

/-! ## ChangeRepo -/

def findChange (s : Store) (id : ChangeID) : Except RepoErr Change :=
  match s.changes.findTarget id with
  | some c => .ok c
  | none => .error .notFound

/-- An upsert of a change keeps every change row, so every reference to it. -/
theorem exists_change_of_upsert {t t' : Table Change.id Change.projectName}
    (h : t.upsert changeConflictUpdate c = some t') (hid : ∃ c₀ ∈ t.rows, c₀.id = id) :
    ∃ c₁ ∈ t'.rows, c₁.id = id := by
  obtain ⟨c₀, hc₀, rfl⟩ := hid
  rcases t.upsert_cases changeConflictUpdate c with
    ⟨-, t₁, h₁, hrows⟩ | ⟨-, -, hnone⟩ | ⟨-, -, t₁, h₁, hrows⟩
  · obtain rfl : t₁ = t' := Option.some.inj (h₁.symm.trans h)
    refine ⟨changeConflictUpdate.onRow c c₀, ?_, changeConflictUpdate.target_onRow c c₀⟩
    rw [hrows]
    exact List.mem_map_of_mem hc₀
  · rw [hnone] at h
    cases h
  · obtain rfl : t₁ = t' := Option.some.inj (h₁.symm.trans h)
    exact ⟨c₀, by rw [hrows]; exact List.mem_append_left _ hc₀, rfl⟩

def saveChange (s : Store) (c : Change) : Except RepoErr Store :=
  match h : s.changes.upsert changeConflictUpdate c.stored with
  | none => .error .uniqueViolation
  | some t => .ok
      { s with
        changes := t
        phase_change := fun p hp => exists_change_of_upsert h (s.phase_change p hp) }

/-! ## PhaseRepo -/

def findPhase (s : Store) (id : PhaseID) : Except RepoErr Phase :=
  match s.phases.findOther id with
  | some p => .ok p
  | none => .error .notFound

def latestPhase (s : Store) (cid : ChangeID) (pt : PhaseType) : Option Phase :=
  (s.phases.rows.filter fun p => p.changeID = cid ∧ p.pType = pt).argmax Phase.attempts

def findByChangeAndType (s : Store) (cid : ChangeID) (pt : PhaseType) :
    Except RepoErr Phase :=
  match s.latestPhase cid pt with
  | some p => .ok p
  | none => .error .notFound

def occupies (p : Phase) : Bool :=
  decide (p.status = .running ∨ p.status = .interrupted)

/-- A missing timestamp sorts after every other one. -/
def startedKey (p : Phase) : WithTop ℕ :=
  match p.startedAt with
  | none => ⊤
  | some t => (t : WithTop ℕ)

/-- The occupying row of a change that started last. -/
def runningPhase (s : Store) (cid : ChangeID) : Option Phase :=
  (s.phases.rows.filter fun p => p.changeID = cid ∧ occupies p = true).argmax startedKey

def findRunningByChange (s : Store) (cid : ChangeID) : Except RepoErr Phase :=
  match s.runningPhase cid with
  | some p => .ok p
  | none => .error .notFound

def findAllRunning (s : Store) : List Phase :=
  (s.phases.rows.filter fun p => p.status = .running).insertionSort
    fun p q => startedKey p ≤ startedKey q

theorem phase_change_of_upsert (s : Store) {t : Table Phase.key Phase.id}
    (h : s.phases.upsert phaseConflictUpdate p = some t)
    (hfk : (∀ q ∈ s.phases.rows, q.key ≠ p.key) → ∃ c ∈ s.changes.rows, c.id = p.changeID) :
    ∀ q ∈ t.rows, ∃ c ∈ s.changes.rows, c.id = q.changeID := by
  rcases s.phases.upsert_cases phaseConflictUpdate p with
    ⟨-, t₁, h₁, hrows⟩ | ⟨-, -, hnone⟩ | ⟨hkey, -, t₁, h₁, hrows⟩
  · obtain rfl : t₁ = t := Option.some.inj (h₁.symm.trans h)
    intro q hq
    rw [hrows] at hq
    obtain ⟨q₀, hq₀, rfl⟩ := List.mem_map.mp hq
    have hchange : (phaseConflictUpdate.onRow p q₀).changeID = q₀.changeID :=
      congrArg Prod.fst (phaseConflictUpdate.target_onRow p q₀)
    rw [hchange]
    exact s.phase_change q₀ hq₀
  · rw [hnone] at h
    cases h
  · obtain rfl : t₁ = t := Option.some.inj (h₁.symm.trans h)
    intro q hq
    rw [hrows] at hq
    rcases List.mem_append.mp hq with hold | hnew
    · exact s.phase_change q hold
    · rw [List.mem_singleton.mp hnew]
      exact hfk hkey

/-- `PhaseRepo.Save`.  The statement names only the key of the attempt as its
conflict target, so an insert whose id is taken is a unique violation. -/
def savePhase (s : Store) (p : Phase) : Except RepoErr Store :=
  if p.fitsColumns = false then
    .error .outOfRange
  else
    match h : s.phases.upsert phaseConflictUpdate p.stored with
    | none => .error .uniqueViolation
    | some t =>
      if hfk : (∀ q ∈ s.phases.rows, q.key ≠ p.stored.key) →
          ∃ c ∈ s.changes.rows, c.id = p.stored.changeID then
        .ok { s with phases := t, phase_change := s.phase_change_of_upsert h hfk }
      else
        .error .foreignKeyViolation

/-! ## OutboxRepo and AuditLog -/

/-- `OutboxRepo.SaveCompletedWithOutbox`: the change upsert and the outbox
insert commit together or not at all. -/
def saveCompletedWithOutbox (s : Store) (c : Change) (ev : OutboxRow) :
    Except RepoErr Store :=
  match s.saveChange c with
  | .error err => .error err
  | .ok s' =>
    match s'.outbox.insert ev.stored with
    | none => .error .uniqueViolation
    | some t => .ok { s' with outbox := t }

def appendAudit (s : Store) (ev : AuditEvent) : Store :=
  { s with audit := s.audit ++ [ev] }

def hasEventForPhase (s : Store) (id : PhaseID) (eventType : EventType) : Bool :=
  s.audit.any fun ev => ev.phaseID = some id ∧ ev.eventType = eventType

/-! ## What the reads find -/

theorem findChange_eq_ok_iff :
    s.findChange id = .ok c ↔ c ∈ s.changes.rows ∧ c.id = id := by
  rw [← s.changes.findTarget_eq_some_iff]
  unfold findChange
  cases s.changes.findTarget id <;> simp

theorem findPhase_eq_ok_iff {id : PhaseID} :
    s.findPhase id = .ok p ↔ p ∈ s.phases.rows ∧ p.id = id := by
  rw [← s.phases.findOther_eq_some_iff]
  unfold findPhase
  cases s.phases.findOther id <;> simp

theorem findByChangeAndType_eq_ok_iff :
    s.findByChangeAndType cid pt = .ok p ↔ s.latestPhase cid pt = some p := by
  unfold findByChangeAndType
  cases s.latestPhase cid pt <;> simp

theorem mem_of_latestPhase (h : s.latestPhase cid pt = some p) :
    p ∈ s.phases.rows ∧ p.changeID = cid ∧ p.pType = pt := by
  have hmem := List.argmax_mem h
  rw [List.mem_filter] at hmem
  exact ⟨hmem.1, by simpa using hmem.2⟩

theorem attempts_le_of_latestPhase (h : s.latestPhase cid pt = some p) (hr : r ∈ s.phases.rows)
    (hcid : r.changeID = cid) (hpt : r.pType = pt) : r.attempts ≤ p.attempts :=
  List.le_of_mem_argmax (List.mem_filter.mpr ⟨hr, by simp [hcid, hpt]⟩) h

theorem latestPhase_eq_none_iff :
    s.latestPhase cid pt = none ↔
      ∀ r ∈ s.phases.rows, r.changeID = cid → r.pType ≠ pt := by
  rw [latestPhase, List.argmax_eq_none, List.filter_eq_nil_iff]
  simp

/-- No row occupies the change exactly when the look-up finds none. -/
theorem findRunningByChange_eq_notFound_iff :
    s.findRunningByChange cid = .error .notFound ↔
      ∀ r ∈ s.phases.rows, r.changeID = cid → occupies r = false := by
  have hnone : s.findRunningByChange cid = .error .notFound ↔ s.runningPhase cid = none := by
    unfold findRunningByChange
    cases s.runningPhase cid <;> simp
  rw [hnone, runningPhase, List.argmax_eq_none, List.filter_eq_nil_iff]
  simp

theorem mem_findAllRunning :
    p ∈ s.findAllRunning ↔ p ∈ s.phases.rows ∧ p.status = .running := by
  rw [findAllRunning, List.mem_insertionSort, List.mem_filter]
  simp

/-! ## What the writes can do -/

/-- The row after an accepted save of `p`: the row with the key of `p` takes
everything but its id from `p`. -/
def savedRow (p r : Phase) : Phase :=
  if r.key = p.key then { p.stored with id := r.id } else r

theorem onRow_eq_savedRow (p r : Phase) :
    phaseConflictUpdate.onRow p.stored r = savedRow p r := by
  unfold Table.ConflictUpdate.onRow savedRow
  rw [Phase.stored_key]
  split
  · next hkey =>
    simp only [Phase.key, Prod.mk.injEq] at hkey
    obtain ⟨hchange, htype, hattempts⟩ := hkey
    simp [phaseConflictUpdate, Phase.stored, hchange, htype, hattempts]
  · rfl

/-- Everything an accepted save of a phase does: it updates the row with the
same key, whatever its id, or appends a row whose key and id are both new. -/
theorem savePhase_cases (h : s.savePhase p = .ok s') :
    s'.changes = s.changes ∧ s'.outbox = s.outbox ∧ s'.audit = s.audit ∧
      p.fitsColumns = true ∧
      (((∃ r ∈ s.phases.rows, r.key = p.key) ∧
          s'.phases.rows = s.phases.rows.map (savedRow p)) ∨
        ((∀ r ∈ s.phases.rows, r.key ≠ p.key) ∧ (∀ r ∈ s.phases.rows, r.id ≠ p.id) ∧
          (∃ c ∈ s.changes.rows, c.id = p.changeID) ∧
          s'.phases.rows = s.phases.rows ++ [p.stored])) := by
  unfold savePhase at h
  have honRow : phaseConflictUpdate.onRow p.stored = savedRow p :=
    funext (onRow_eq_savedRow p)
  -- `split_ifs` also closes the branch of a value that does not fit its column.
  split_ifs at h with hfits hfk
  · split at h
    · cases h
    next t hupsert =>
      have hfits' : p.fitsColumns = true := by simpa using hfits
      cases h
      refine ⟨rfl, rfl, rfl, hfits', ?_⟩
      rcases s.phases.upsert_cases phaseConflictUpdate p.stored with
        ⟨hkey, t', ht', hrows⟩ | ⟨-, -, hnone⟩ | ⟨hkey, hid, t', ht', hrows⟩
      · obtain rfl : t' = t := Option.some.inj (ht'.symm.trans hupsert)
        exact .inl ⟨hkey, by rw [hrows, honRow]⟩
      · rw [hnone] at hupsert
        cases hupsert
      · obtain rfl : t' = t := Option.some.inj (ht'.symm.trans hupsert)
        exact .inr ⟨hkey, hid, hfk hkey, hrows⟩
  · split at h <;> cases h

/-- A row after an accepted save is an old row with another key, or has the
columns of the saved phase. -/
theorem mem_of_savePhase (h : s.savePhase p = .ok s') (hr : r ∈ s'.phases.rows) :
    (r ∈ s.phases.rows ∧ r.key ≠ p.key) ∨
      (r = { p.stored with id := r.id } ∧
        (r.id = p.id ∨ ∃ r₀ ∈ s.phases.rows, r₀.key = p.key ∧ r₀.id = r.id)) := by
  obtain ⟨-, -, -, -, ⟨-, hrows⟩ | ⟨hkey, -, -, hrows⟩⟩ := savePhase_cases h
  · rw [hrows] at hr
    obtain ⟨r₀, hr₀, rfl⟩ := List.mem_map.mp hr
    unfold savedRow
    split
    · next hkey => exact .inr ⟨rfl, .inr ⟨r₀, hr₀, hkey, rfl⟩⟩
    · next hkey => exact .inl ⟨hr₀, hkey⟩
  · rw [hrows] at hr
    rcases List.mem_append.mp hr with hold | hnew
    · exact .inl ⟨hold, hkey r hold⟩
    · rw [List.mem_singleton.mp hnew]
      exact .inr ⟨rfl, .inl rfl⟩

theorem exists_row_of_savePhase (h : s.savePhase p = .ok s') :
    ∃ r ∈ s'.phases.rows, r = { p.stored with id := r.id } := by
  obtain ⟨-, -, -, -, ⟨⟨r, hr, hkey⟩, hrows⟩ | ⟨-, -, -, hrows⟩⟩ := savePhase_cases h
  · refine ⟨savedRow p r, ?_, ?_⟩
    · rw [hrows]
      exact List.mem_map_of_mem hr
    · rw [savedRow, if_pos hkey]
  · exact ⟨p.stored, by rw [hrows]; simp, rfl⟩

def saveRefusal (s : Store) (p : Phase) : Option RepoErr :=
  if p.fitsColumns = false then some .outOfRange
  else if ∃ r ∈ s.phases.rows, r.key = p.key then none
  else if ∃ r ∈ s.phases.rows, r.id = p.id then some .uniqueViolation
  else if ∃ c ∈ s.changes.rows, c.id = p.changeID then none
  else some .foreignKeyViolation

theorem savePhase_eq_saveRefusal (s : Store) (p : Phase) :
    (∃ err, s.saveRefusal p = some err ∧ s.savePhase p = .error err) ∨
      (s.saveRefusal p = none ∧ ∃ s', s.savePhase p = .ok s') := by
  unfold saveRefusal savePhase
  by_cases hfits : p.fitsColumns = false
  · exact .inl ⟨.outOfRange, if_pos hfits, if_pos hfits⟩
  · rw [if_neg hfits, if_neg hfits]
    rcases s.phases.upsert_cases phaseConflictUpdate p.stored with
      ⟨hkey, t, ht, -⟩ | ⟨hkey, hid, hnone⟩ | ⟨hkey, hid, t, ht, -⟩
    · refine .inr ⟨if_pos hkey, ?_⟩
      split
      · next hnone => exact absurd (hnone.symm.trans ht) (by simp)
      · rw [dif_pos fun hfree => absurd hkey (by simpa using hfree)]
        exact ⟨_, rfl⟩
    · have hkey' : ¬ ∃ r ∈ s.phases.rows, r.key = p.key := by simpa using hkey
      refine .inl ⟨.uniqueViolation, by rw [if_neg hkey']; exact if_pos hid, ?_⟩
      split
      · rfl
      · next t ht => exact absurd (hnone.symm.trans ht) (by simp)
    · have hkey' : ¬ ∃ r ∈ s.phases.rows, r.key = p.key := by simpa using hkey
      have hid' : ¬ ∃ r ∈ s.phases.rows, r.id = p.id := by simpa using hid
      rw [if_neg hkey', if_neg hid']
      have hfk : ((∀ q ∈ s.phases.rows, q.key ≠ p.stored.key) →
          ∃ c ∈ s.changes.rows, c.id = p.stored.changeID) ↔
          ∃ c ∈ s.changes.rows, c.id = p.changeID := ⟨fun h => h hkey, fun h _ => h⟩
      by_cases hchange : ∃ c ∈ s.changes.rows, c.id = p.changeID
      · refine .inr ⟨if_pos hchange, ?_⟩
        split
        · next hnone => exact absurd (hnone.symm.trans ht) (by simp)
        · rw [dif_pos (hfk.mpr hchange)]
          exact ⟨_, rfl⟩
      · refine .inl ⟨.foreignKeyViolation, if_neg hchange, ?_⟩
        split
        · next hnone => exact absurd (hnone.symm.trans ht) (by simp)
        · rw [dif_neg (mt hfk.mp hchange)]

/-- A save of a phase succeeds and the phase is then found under its id exactly
when its row exists under both keys, or neither key is taken and its change
exists. -/
theorem save_then_find_iff (s : Store) (p : Phase) :
    (∃ s', s.savePhase p = .ok s' ∧ p.stored ∈ s'.phases.rows) ↔
      p.fitsColumns = true ∧
        ((∃ r ∈ s.phases.rows, r.key = p.key ∧ r.id = p.id) ∨
          ((∀ r ∈ s.phases.rows, r.key ≠ p.key) ∧ (∀ r ∈ s.phases.rows, r.id ≠ p.id) ∧
            ∃ c ∈ s.changes.rows, c.id = p.changeID)) := by
  constructor
  · rintro ⟨s', hsave, hfound⟩
    obtain ⟨-, -, -, hfits, ⟨-, hrows⟩ | ⟨hkey, hid, hfk, -⟩⟩ := savePhase_cases hsave
    · refine ⟨hfits, .inl ?_⟩
      rw [hrows] at hfound
      obtain ⟨r, hr, hrp⟩ := List.mem_map.mp hfound
      unfold savedRow at hrp
      split_ifs at hrp with hkey
      · exact ⟨r, hr, hkey, by simpa using congrArg Phase.id hrp⟩
      · exact absurd (by rw [hrp]; rfl) hkey
    · exact ⟨hfits, .inr ⟨hkey, hid, hfk⟩⟩
  · rintro ⟨hfits, hrow⟩
    have hallowed : s.saveRefusal p = none := by
      rw [saveRefusal, if_neg (by simp [hfits])]
      rcases hrow with ⟨r, hr, hkey, -⟩ | ⟨-, hfree, hchange⟩
      · exact if_pos ⟨r, hr, hkey⟩
      · rw [if_neg (by simpa using hfree : ¬ ∃ r ∈ s.phases.rows, r.id = p.id),
          if_pos hchange, ite_self]
    have hsaved : ∃ s', s.savePhase p = .ok s' := by
      rcases s.savePhase_eq_saveRefusal p with ⟨err, herr, -⟩ | ⟨-, hsaved⟩
      · rw [hallowed] at herr
        cases herr
      · exact hsaved
    obtain ⟨s', hsave⟩ := hsaved
    refine ⟨s', hsave, ?_⟩
    obtain ⟨-, -, -, -, ⟨-, hrows⟩ | ⟨-, -, -, hrows⟩⟩ := savePhase_cases hsave
    · rcases hrow with ⟨r, hr, hkey, hid⟩ | ⟨hfree, -, -⟩
      · rw [hrows]
        refine List.mem_map.mpr ⟨r, hr, ?_⟩
        rw [savedRow, if_pos hkey, hid]
        rfl
      · obtain ⟨-, -, -, -, ⟨⟨r, hr, hkey⟩, -⟩ | ⟨-, -, -, happend⟩⟩ := savePhase_cases hsave
        · exact absurd hkey (hfree r hr)
        · rw [happend]
          simp
    · rw [hrows]
      simp

def savedChange (c r : Change) : Change :=
  if r.id = c.id then
    { r with
      status := c.status
      currentPhase := c.currentPhase
      updatedAt := timestamptz c.updatedAt }
  else
    r

theorem saveChange_cases (h : s.saveChange c = .ok s') :
    s'.phases = s.phases ∧ s'.outbox = s.outbox ∧ s'.audit = s.audit ∧
      (((∃ r ∈ s.changes.rows, r.id = c.id) ∧
          s'.changes.rows = s.changes.rows.map (savedChange c)) ∨
        ((∀ r ∈ s.changes.rows, r.id ≠ c.id) ∧
          s'.changes.rows = s.changes.rows ++ [c.stored])) := by
  have honRow : changeConflictUpdate.onRow c.stored = savedChange c := rfl
  unfold saveChange at h
  split at h
  · cases h
  · next t hupsert =>
    cases h
    refine ⟨rfl, rfl, rfl, ?_⟩
    rcases s.changes.upsert_cases changeConflictUpdate c.stored with
      ⟨hid, t', ht', hrows⟩ | ⟨-, -, hnone⟩ | ⟨hid, -, t', ht', hrows⟩
    · obtain rfl : t' = t := Option.some.inj (ht'.symm.trans hupsert)
      exact .inl ⟨hid, by rw [hrows, honRow]⟩
    · rw [hnone] at hupsert
      cases hupsert
    · obtain rfl : t' = t := Option.some.inj (ht'.symm.trans hupsert)
      exact .inr ⟨hid, hrows⟩

theorem saveCompletedWithOutbox_cases {ev : OutboxRow}
    (h : s.saveCompletedWithOutbox c ev = .ok s') :
    ∃ s₁, s.saveChange c = .ok s₁ ∧ s'.changes = s₁.changes ∧ s'.phases = s.phases ∧
      s'.outbox.rows = s.outbox.rows ++ [ev.stored] := by
  unfold saveCompletedWithOutbox at h
  split at h
  · cases h
  · next s₁ hsave =>
    obtain ⟨hphases, houtbox, -, -⟩ := saveChange_cases hsave
    split at h
    · cases h
    · next t hinsert =>
      cases h
      obtain ⟨-, -, hrows⟩ := (s₁.outbox.insert_eq_some_iff t ev.stored).mp hinsert
      exact ⟨s₁, hsave, rfl, hphases, by rw [hrows, houtbox]⟩

theorem saveCompletedWithOutbox_audit {ev : OutboxRow}
    (h : s.saveCompletedWithOutbox c ev = .ok s') : s'.audit = s.audit := by
  unfold saveCompletedWithOutbox at h
  split at h
  · cases h
  · next s₁ hsave =>
    obtain ⟨-, -, haudit, -⟩ := saveChange_cases hsave
    split at h
    · cases h
    · cases h
      exact haudit

end Store

end SophiaOrchestrator
