import SophiaOrchestrator.Pg.Store
import SophiaOrchestrator.Apply.Board

/-!
# The board repository

The tables of boards, groups and tasks, and the statements of the repository as
functions on them.  Groups and tasks have only their primary key; a phase has at
most one board.
-/

namespace SophiaOrchestrator.Apply

open Sql

variable {row : GroupRow} {r task r₀ : Task} {id : TaskID} {sid : SessionID}

structure BoardStore where
  boards : Table BoardRow.id BoardRow.phaseID
  groups : Table GroupRow.id GroupRow.id
  tasks : Table Task.id Task.id

variable {s s' : BoardStore}

namespace BoardStore

def empty : BoardStore :=
  ⟨.empty, .empty, .empty⟩

/-! ## Saves -/

def boardUpdate : Table.ConflictUpdate BoardRow.id BoardRow.phaseID where
  apply old new := { old with status := new.status }
  target_apply _ _ := rfl
  other_apply _ _ := rfl

def saveBoard (s : BoardStore) (row : BoardRow) : Except RepoErr BoardStore :=
  match s.boards.upsert boardUpdate row with
  | some boards => .ok { s with boards := boards }
  | none => .error .uniqueViolation

/-- A saved group keeps its board, its name and its dependencies. -/
def groupUpdate : Table.ConflictUpdate GroupRow.id GroupRow.id where
  apply old new := { old with
    status := new.status
    worktreePath := new.worktreePath
    branchName := new.branchName
    buildStatus := new.buildStatus
    buildAttempts := new.buildAttempts }
  target_apply _ _ := rfl
  other_apply _ _ := rfl

def saveGroup (s : BoardStore) (row : GroupRow) : Except RepoErr BoardStore :=
  match s.groups.upsert groupUpdate row with
  | some groups => .ok { s with groups := groups }
  | none => .error .uniqueViolation

/-- A saved task keeps its group, its description and its files. -/
def taskUpdate : Table.ConflictUpdate Task.id Task.id where
  apply old new := { old with
    status := new.status
    claimedBy := new.claimedBy
    attempts := new.attempts
    envelope := new.envelope }
  target_apply _ _ := rfl
  other_apply _ _ := rfl

def saveTask (s : BoardStore) (task : Task) : Except RepoErr BoardStore :=
  match s.tasks.upsert taskUpdate task with
  | some tasks => .ok { s with tasks := tasks }
  | none => .error .uniqueViolation

/-- `ClaimTask`: only a pending row is claimed. -/
def claimTask (s : BoardStore) (id : TaskID) (sid : SessionID) : Bool × BoardStore :=
  match s.tasks.findTarget id with
  | some row =>
    if row.status = .pending then
      (true, { s with
        tasks := s.tasks.mapRows
          (fun t => if t.id = id then { t with status := .claimed, claimedBy := some sid } else t)
          (fun t => by split <;> rfl) (fun t => by split <;> rfl) })
    else
      (false, s)
  | none => (false, s)

/-! ## Reads -/

def findBoard (s : BoardStore) (pid : PhaseID) : Except RepoErr BoardRow :=
  match s.boards.findOther pid with
  | some row => .ok row
  | none => .error .notFound

def findGroups (s : BoardStore) (bid : BoardID) : List GroupRow :=
  s.groups.rows.filter fun g => decide (g.boardID = bid)

/-- The task rows of a group.  A row that cannot be hydrated is skipped. -/
def findTasks (s : BoardStore) (gid : GroupID) : List Task :=
  s.tasks.rows.filter fun t =>
    decide (t.groupID = gid) && decide (t.description ≠ "") && !t.filesPattern.isEmpty

theorem findGroups_ids_nodup (s : BoardStore) (bid : BoardID) :
    ((s.findGroups bid).map GroupRow.id).Nodup :=
  s.groups.target_nodup.sublist (List.filter_sublist.map _)

theorem findTasks_ids_nodup (s : BoardStore) (gid : GroupID) :
    ((s.findTasks gid).map Task.id).Nodup :=
  s.tasks.target_nodup.sublist (List.filter_sublist.map _)

theorem mem_of_saveTask (h : s.saveTask task = .ok s') (hr : r ∈ s'.tasks.rows) :
    r ∈ s.tasks.rows ∨ (r.id = task.id ∧ r.status = task.status ∧ r.attempts = task.attempts) := by
  unfold saveTask at h
  split at h
  · next tasks hupsert =>
    cases h
    rcases Table.mem_of_upsert hupsert hr with ⟨r₀, hr₀, rfl⟩ | ⟨rfl, -⟩
    · unfold Table.ConflictUpdate.onRow
      split
      · next hid => exact .inr ⟨hid, rfl, rfl⟩
      · exact .inl hr₀
    · exact .inr ⟨rfl, rfl, rfl⟩
  · cases h

theorem columns_of_saveTask (h : s.saveTask task = .ok s') (hr : r ∈ s'.tasks.rows) :
    r ∈ s.tasks.rows ∨ (r.status = task.status ∧ r.claimedBy = task.claimedBy) := by
  unfold saveTask at h
  split at h
  · next tasks hupsert =>
    cases h
    rcases Table.mem_of_upsert hupsert hr with ⟨r₀, hr₀, rfl⟩ | ⟨rfl, -⟩
    · unfold Table.ConflictUpdate.onRow
      split
      · exact .inr ⟨rfl, rfl⟩
      · exact .inl hr₀
    · exact .inr ⟨rfl, rfl⟩
  · cases h

theorem exists_of_saveTask (h : s.saveTask task = .ok s') (hr : r₀ ∈ s.tasks.rows) :
    ∃ r ∈ s'.tasks.rows, r.id = r₀.id ∧ (r = r₀ ∨
      (r₀.id = task.id ∧ r.status = task.status ∧ r.attempts = task.attempts)) := by
  unfold saveTask at h
  split at h
  · next tasks hupsert =>
    cases h
    refine ⟨_, Table.mem_upsert_of_mem hupsert hr, taskUpdate.target_onRow task r₀, ?_⟩
    unfold Table.ConflictUpdate.onRow
    split
    · next hid => exact .inr ⟨hid, rfl, rfl⟩
    · exact .inl rfl
  · cases h

theorem exists_of_claimTask (s : BoardStore) (id : TaskID) (sid : SessionID)
    (hr : r₀ ∈ s.tasks.rows) :
    ∃ r ∈ (s.claimTask id sid).2.tasks.rows, r.id = r₀.id ∧ (r = r₀ ∨
      (r₀.id = id ∧ r₀.status = .pending)) := by
  unfold claimTask
  split
  · next row hrow =>
    obtain ⟨hmem, hid⟩ := (s.tasks.findTarget_eq_some_iff id row).mp hrow
    split
    · next hpending =>
      refine ⟨_, List.mem_map_of_mem hr, ?_⟩
      split
      · next hsame =>
        obtain rfl := s.tasks.eq_of_target_eq hmem hr (hid.trans hsame.symm)
        exact ⟨rfl, .inr ⟨hid, hpending⟩⟩
      · exact ⟨rfl, .inl rfl⟩
    · exact ⟨r₀, hr, rfl, .inl rfl⟩
  · exact ⟨r₀, hr, rfl, .inl rfl⟩

theorem exists_claimed_of_claimTask (h : (s.claimTask id sid).1 = true) :
    ∃ r ∈ (s.claimTask id sid).2.tasks.rows, r.id = id ∧ r.status = .claimed ∧
      r.claimedBy = some sid := by
  unfold claimTask at h ⊢
  split at h
  · next row hrow =>
    obtain ⟨hmem, hid⟩ := (s.tasks.findTarget_eq_some_iff id row).mp hrow
    split at h
    · next hpending =>
      simp only [if_pos hpending]
      refine ⟨_, List.mem_map_of_mem hmem, ?_⟩
      rw [if_pos hid]
      exact ⟨hid, rfl, rfl⟩
    · cases h
  · cases h

theorem mem_of_claimTask (hr : r ∈ (s.claimTask id sid).2.tasks.rows) :
    r ∈ s.tasks.rows ∨ ∃ old ∈ s.tasks.rows, old.id = id ∧ old.status = .pending ∧
      r = { old with status := .claimed, claimedBy := some sid } := by
  unfold claimTask at hr
  split at hr
  · next row hrow =>
    obtain ⟨hmem, hid⟩ := (s.tasks.findTarget_eq_some_iff id row).mp hrow
    split at hr
    · next hpending =>
      obtain ⟨old, hold, rfl⟩ := List.mem_map.mp hr
      split
      · next hsame =>
        obtain rfl := s.tasks.eq_of_target_eq hmem hold (hid.trans hsame.symm)
        exact .inr ⟨row, hmem, hid, hpending, rfl⟩
      · exact .inl hold
    · exact .inl hr
  · exact .inl hr

theorem exists_pending_of_claimTask (h : (s.claimTask id sid).1 = true) :
    ∃ row ∈ s.tasks.rows, row.id = id ∧ row.status = .pending := by
  unfold claimTask at h
  split at h
  · next row hrow =>
    obtain ⟨hmem, hid⟩ := (s.tasks.findTarget_eq_some_iff id row).mp hrow
    split at h
    · next hpending => exact ⟨row, hmem, hid, hpending⟩
    · cases h
  · cases h

theorem tasks_of_saveBoard {row : BoardRow} (h : s.saveBoard row = .ok s') :
    s'.tasks = s.tasks := by
  unfold saveBoard at h
  split at h
  · cases h
    rfl
  · cases h

theorem tasks_of_saveGroup (h : s.saveGroup row = .ok s') : s'.tasks = s.tasks := by
  unfold saveGroup at h
  split at h
  · cases h
    rfl
  · cases h

end BoardStore

/-! ## Sessions -/

abbrev SessionTable : Type :=
  Table Session.id Session.id

/-- A saved session keeps what it was created with. -/
def sessionUpdate : Table.ConflictUpdate Session.id Session.id where
  apply old new := { old with
    status := new.status
    exitCode := new.exitCode
    envelope := new.envelope
    endedAt := new.endedAt }
  target_apply _ _ := rfl
  other_apply _ _ := rfl

def SessionTable.save (t : SessionTable) (sess : Session) : Except RepoErr SessionTable :=
  match t.upsert sessionUpdate sess with
  | some t' => .ok t'
  | none => .error .uniqueViolation

end SophiaOrchestrator.Apply
