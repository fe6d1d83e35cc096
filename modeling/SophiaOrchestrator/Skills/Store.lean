import SophiaOrchestrator.Skills.Lifecycle

/-!
# The tables of the skill service

The `skills` table has a primary key and a unique pair of name and version; an upsert
conflicts on the pair and replaces everything but the time of creation, the primary key
included.  The patches update one row by its id.  The audit trail of the re-evaluations
is append-only: a run is saved with its items in one transaction.
-/

namespace SophiaOrchestrator.Skills

open Sql

/-! ## SkillRepo -/

def skillKey (s : SkillRow) : String × String :=
  (s.name, s.version)

abbrev SkillTable : Type :=
  Table skillKey SkillRow.id

/-- The row as it is stored: a time has the precision of its column. -/
def SkillRow.stored (s : SkillRow) : SkillRow :=
  { s with
    lastUsedAt := s.lastUsedAt.map timestamptz
    lastValidatedAt := s.lastValidatedAt.map timestamptz
    createdAt := timestamptz s.createdAt
    updatedAt := timestamptz s.updatedAt }

/-- The columns that an upsert sets on conflict: all but `created_at`, `name` and
`version`. -/
def excluded : Table.Replacement skillKey SkillRow.id where
  apply old proposed := { proposed with createdAt := old.createdAt }
  target_apply _ _ := rfl
  other_apply _ _ := rfl

namespace SkillTable

def upsert (t : SkillTable) (s : SkillRow) : Except RepoErr SkillTable :=
  match t.replace excluded s.stored with
  | some t' => .ok t'
  | none => .error .uniqueViolation

def findByID (t : SkillTable) (id : SkillID) : Except RepoErr SkillRow :=
  match t.findOther id with
  | some row => .ok row
  | none => .error .notFound

def list (t : SkillTable) : List SkillRow :=
  t.rows.insertionSort fun row row' => row.name ≤ row'.name

/-- `UPDATE skills SET ... WHERE id = id`; the keys are not among the columns that a patch
sets. -/
def updateRow (t : SkillTable) (id : SkillID) (set : SkillRow → SkillRow)
    (hkey : ∀ row, skillKey (set row) = skillKey row) (hid : ∀ row, (set row).id = row.id) :
    Except RepoErr SkillTable :=
  if t.rows.any fun row => row.id = id then
    .ok (t.mapRows (fun row => if row.id = id then set row else row)
      (fun row => by split <;> simp [hkey])
      (fun row => by split <;> simp [hid]))
  else
    .error .notFound

/-- The metrics after a patch: the counters are added, the reduction of retries is
overwritten unless the patch has none. -/
def patched (current delta : Metrics) : Metrics :=
  { current with
    usageCount := current.usageCount + delta.usageCount
    successCount := current.successCount + delta.successCount
    failureCount := current.failureCount + delta.failureCount
    testsPassedCount := current.testsPassedCount + delta.testsPassedCount
    rollbackCount := current.rollbackCount + delta.rollbackCount
    deprecatedAPIHits := current.deprecatedAPIHits + delta.deprecatedAPIHits
    avgRetryReduction :=
      if delta.avgRetryReduction ≠ 0 then delta.avgRetryReduction
      else current.avgRetryReduction }

def withMetrics (delta : Metrics) (now : Time) (row : SkillRow) : SkillRow :=
  { row with
    metrics := patched row.metrics delta
    lastUsedAt := some (timestamptz now)
    updatedAt := timestamptz now }

/-- `SkillRepo.PatchMetrics`, which locks the row, reads it and writes it in one
transaction. -/
def patchMetrics (t : SkillTable) (id : SkillID) (delta : Metrics) (now : Time) :
    Except RepoErr SkillTable :=
  t.updateRow id (withMetrics delta now) (fun _ => rfl) fun _ => rfl

/-- The row after its status is patched; the time of validation is set when it becomes
validated. -/
def withStatus (status : Status) (now : Time) (row : SkillRow) : SkillRow :=
  { row with
    status := status
    lastValidatedAt :=
      if status = .validated then some (timestamptz now) else row.lastValidatedAt
    updatedAt := timestamptz now }

/-- `SkillRepo.PatchStatus`: one statement, without a condition on the status it
replaces. -/
def patchStatus (t : SkillTable) (id : SkillID) (status : Status) (now : Time) :
    Except RepoErr SkillTable :=
  t.updateRow id (withStatus status now) (fun _ => rfl) fun _ => rfl

theorem skillKey_stored (s : SkillRow) : skillKey s.stored = skillKey s := rfl

theorem findByID_eq_ok {t : SkillTable} {id : SkillID} {row : SkillRow} :
    t.findByID id = .ok row ↔ row ∈ t.rows ∧ row.id = id := by
  rw [← t.findOther_eq_some_iff id row, findByID]
  cases t.findOther id <;> simp

theorem mem_list {t : SkillTable} {row : SkillRow} : row ∈ t.list ↔ row ∈ t.rows :=
  List.mem_insertionSort _

theorem rows_updateRow {t t' : SkillTable} {id : SkillID} {set : SkillRow → SkillRow}
    {hkey : ∀ row, skillKey (set row) = skillKey row} {hid : ∀ row, (set row).id = row.id}
    (h : t.updateRow id set hkey hid = .ok t') :
    t'.rows = t.rows.map fun row => if row.id = id then set row else row := by
  unfold updateRow at h
  split_ifs at h
  rw [← Except.ok.inj h]
  rfl

theorem findOther_updateRow {t t' : SkillTable} {id : SkillID} {set : SkillRow → SkillRow}
    {hkey : ∀ row, skillKey (set row) = skillKey row} {hid : ∀ row, (set row).id = row.id}
    (h : t.updateRow id set hkey hid = .ok t') (other : SkillID) :
    t'.findOther other = (t.findOther other).map fun row =>
      if row.id = id then set row else row := by
  have hids : ∀ row : SkillRow, (if row.id = id then set row else row).id = row.id := by
    intro row
    split
    · exact hid row
    · rfl
  rw [Table.findOther, Table.findOther, rows_updateRow h, List.find?_map]
  simp only [Function.comp_def, hids]

theorem findOther_updateRow_of_ne {t t' : SkillTable} {id other : SkillID}
    {set : SkillRow → SkillRow} {hkey : ∀ row, skillKey (set row) = skillKey row}
    {hid : ∀ row, (set row).id = row.id} (h : t.updateRow id set hkey hid = .ok t')
    (hne : other ≠ id) : t'.findOther other = t.findOther other := by
  rw [findOther_updateRow h]
  cases hrow : t.findOther other with
  | none => rfl
  | some row =>
    have hrowID := ((t.findOther_eq_some_iff other row).mp hrow).2
    rw [Option.map_some, if_neg (hrowID ▸ hne)]

theorem findOther_updateRow_self {t t' : SkillTable} {id : SkillID} {set : SkillRow → SkillRow}
    {hkey : ∀ row, skillKey (set row) = skillKey row} {hid : ∀ row, (set row).id = row.id}
    (h : t.updateRow id set hkey hid = .ok t') : t'.findOther id = (t.findOther id).map set := by
  rw [findOther_updateRow h]
  cases hrow : t.findOther id with
  | none => rfl
  | some row =>
    rw [Option.map_some, Option.map_some, if_pos ((t.findOther_eq_some_iff id row).mp hrow).2]

/-- An upsert that succeeds: no row with another key has the id of the skill, and the skill is
appended or replaces the row with its key. -/
theorem upsert_eq_ok {t t' : SkillTable} {s : SkillRow} (h : t.upsert s = .ok t') :
    (∀ row ∈ t.rows, skillKey row ≠ skillKey s → row.id ≠ s.id) ∧
      ((∀ row ∈ t.rows, skillKey row ≠ skillKey s) ∧ t'.rows = t.rows ++ [s.stored] ∨
        (∃ old ∈ t.rows, skillKey old = skillKey s) ∧
          t'.rows = t.rows.map (excluded.onRow s.stored)) := by
  unfold upsert at h
  rcases t.replace_cases excluded s.stored with ⟨-, hnone⟩ | ⟨hfree, t₁, hsome, hcases⟩
  · rw [hnone] at h
    cases h
  · rw [hsome] at h
    rw [← Except.ok.inj h]
    exact ⟨hfree, hcases⟩

theorem mem_upsert_of_ne {t t' : SkillTable} {s row : SkillRow} (h : t.upsert s = .ok t')
    (hne : skillKey row ≠ skillKey s) : row ∈ t'.rows ↔ row ∈ t.rows := by
  rcases (upsert_eq_ok h).2 with ⟨-, hrows⟩ | ⟨-, hrows⟩
  · have hstored : row ≠ s.stored := by
      rintro rfl
      exact hne rfl
    rw [hrows, List.mem_append, List.mem_singleton]
    exact or_iff_left hstored
  · rw [hrows, List.mem_map]
    constructor
    · rintro ⟨row₀, hrow₀, rfl⟩
      rw [excluded.target_onRow, ← skillKey_stored s] at hne
      rwa [Table.Replacement.onRow, if_neg hne]
    · intro hrow
      exact ⟨row, hrow, if_neg hne⟩

/-- The row with the key of the upserted skill is the skill, but for the time at which the
row was created. -/
theorem exists_of_upsert {t t' : SkillTable} {s : SkillRow} (h : t.upsert s = .ok t') :
    ∃ createdAt, { s.stored with createdAt := createdAt } ∈ t'.rows ∧
      ∀ row ∈ t.rows, skillKey row = skillKey s → row.createdAt = createdAt := by
  rcases (upsert_eq_ok h).2 with ⟨habsent, hrows⟩ | ⟨⟨old, hold, hkey⟩, hrows⟩
  · refine ⟨s.stored.createdAt, ?_, fun row hrow hkey => absurd hkey (habsent row hrow)⟩
    rw [hrows]
    exact List.mem_append_right _ List.mem_cons_self
  · refine ⟨old.createdAt, ?_, ?_⟩
    · rw [hrows]
      exact List.mem_map.mpr ⟨old, hold, if_pos hkey⟩
    · intro row hrow hrowKey
      rw [t.eq_of_target_eq hrow hold (hrowKey.trans hkey.symm)]

end SkillTable

/-! ## ReevalAuditRepo -/

structure AuditID where
  raw : Nat
  deriving DecidableEq, Repr

inductive RunMode where
  | apply
  | revert
  deriving DecidableEq, Repr

structure ReevalRunItem where
  id : AuditID
  skillID : SkillID
  priorStatus : Status
  newStatus : Status
  deriving DecidableEq

/-- A recorded run; a run that reverts another one names it. -/
structure ReevalRun where
  id : AuditID
  mode : RunMode
  revertsRunID : Option AuditID
  createdAt : Time
  items : List ReevalRunItem
  deriving DecidableEq

abbrev RunTable : Type :=
  Table ReevalRun.id ReevalRun.id

namespace RunTable

def itemIDs (t : RunTable) : List AuditID :=
  t.rows.flatMap fun run => run.items.map ReevalRunItem.id

/-- `ReevalAuditRepo.Save`: the run and its items, or nothing. -/
def save (t : RunTable) (run : ReevalRun) : Except RepoErr RunTable :=
  if (run.items.map ReevalRunItem.id).Nodup ∧
      ∀ id ∈ run.items.map ReevalRunItem.id, id ∉ t.itemIDs then
    match t.insert { run with createdAt := timestamptz run.createdAt } with
    | some t' => .ok t'
    | none => .error .uniqueViolation
  else
    .error .uniqueViolation

def load (run : ReevalRun) : ReevalRun :=
  { run with items := run.items.insertionSort fun item item' => item.id.raw ≤ item'.id.raw }

def findByID (t : RunTable) (id : AuditID) : Except RepoErr ReevalRun :=
  match t.findTarget id with
  | some run => .ok (load run)
  | none => .error .notFound

def findLatest (t : RunTable) : Except RepoErr ReevalRun :=
  match orderLimit (fun run run' => run'.createdAt < run.createdAt ∨
      run'.createdAt = run.createdAt ∧ run'.id.raw ≤ run.id.raw) 1 t.rows with
  | run :: _ => .ok (load run)
  | [] => .error .notFound

def existsByRevertsRunID (t : RunTable) (id : AuditID) : Bool :=
  t.rows.any fun run => run.revertsRunID = some id

theorem rows_save {t t' : RunTable} {run : ReevalRun} (h : t.save run = .ok t') :
    t'.rows = t.rows ++ [{ run with createdAt := timestamptz run.createdAt }] := by
  unfold save at h
  split_ifs at h
  split at h
  · next t₁ hinsert =>
    rw [← Except.ok.inj h]
    exact ((t.insert_eq_some_iff t₁ _).mp hinsert).2.2
  · cases h

end RunTable

end SophiaOrchestrator.Skills
