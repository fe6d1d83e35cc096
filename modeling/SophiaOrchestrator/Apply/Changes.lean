import SophiaOrchestrator.Apply.Runs

/-!
# What one operation changes

Inversion lemmas for `handle`: which operations write the tables of the board
repository, and which write the breaker and the results of an `Execute`.
-/

namespace SophiaOrchestrator.Apply

open Effects

variable {γ : Type} {op : Op} {cfg : RunConfig} {ch : Choice} {s : State} {x : Nat} {id : TaskID}
  {sid : SessionID} {gid : GroupID}

/-! ## What the calls share -/

/-- The part of the state that does not belong to one `Execute`. -/
def State.shared (s : State) :
    BoardStore × SessionTable × Nat × List (PhaseType × String) :=
  (s.db, s.sessions, s.active, s.priorPhasesStatus)

def Op.writesShared : Op → Bool
  | .saveBoard _ _ | .saveGroup _ _ | .saveTask _ _ | .claimTask _ _ _ | .saveSession _ _
  | .spawnAcquire _ | .spawnRelease _ | .setPriorPhasesStatus _ => true
  | _ => false

theorem handle_shared (cfg : RunConfig) (ch : Choice) (s : State) (hop : op.writesShared = false) :
    (handle cfg op ch s).2.shared = s.shared := by
  cases op
  case go gr => cases gr <;> rfl
  case receive x dep =>
    simp only [handle, State.receiveFrom]
    split <;> rfl
  case takeGroupSlot x =>
    simp only [handle]
    split <;> rfl
  case takeImplSlot x team =>
    simp only [handle]
    split <;> rfl
  all_goals first | (cases hop; done) | rfl

def Op.writesBoards : Op → Bool
  | .saveBoard _ _ | .saveGroup _ _ | .saveTask _ _ | .claimTask _ _ _ => true
  | _ => false

/-- The frame rule: what an operation does not write it leaves alone. -/
theorem handle_keeps (f : State → γ) (cfg : RunConfig) (ch : Choice) (s : State)
    (hlocal : op.writesShared = false → f (handle cfg op ch s).2 = f s)
    (hdb : op.writesBoards = true → ∀ db, f (s.withDb db) = f s)
    (hsessions : (∃ x sess, op = .saveSession x sess) →
      ∀ sessions, f { s with sessions := sessions } = f s)
    (hactive : (∃ x, op = .spawnAcquire x ∨ op = .spawnRelease x) →
      ∀ active, f { s with active := active } = f s)
    (hset : ∀ status, op = .setPriorPhasesStatus status →
      f { s with priorPhasesStatus := status } = f s) :
    f (handle cfg op ch s).2 = f s := by
  have hwrite : op.writesBoards = true → ∀ ctx (result : Except RepoErr BoardStore),
      f (s.write ctx ch.fault (result.map s.withDb)).2 = f s := fun hop ctx result =>
    write_keeps f s ctx ch.fault fun s' hs' => withDb_keeps f (hdb hop) hs'
  cases op
  case saveBoard ctx row => exact hwrite rfl _ _
  case saveGroup x row => exact hwrite rfl _ _
  case saveTask x t => exact hwrite rfl _ _
  case claimTask x id sid => exact claim_keeps f s _ _ id sid (hdb rfl)
  case saveSession x sess => exact saveSession_keeps f s _ _ sess (hsessions ⟨x, sess, rfl⟩)
  case spawnAcquire x => exact acquire_keeps f s cfg _ ch (hactive ⟨x, .inl rfl⟩)
  case spawnRelease x => exact spawnRelease_keeps f s _ _ (hactive ⟨x, .inr rfl⟩)
  case setPriorPhasesStatus status => exact hset status rfl
  all_goals exact hlocal rfl

theorem handle_priorPhasesStatus (cfg : RunConfig) (ch : Choice) (s : State)
    (hop : ∀ status, op ≠ .setPriorPhasesStatus status) :
    (handle cfg op ch s).2.priorPhasesStatus = s.priorPhasesStatus := by
  refine handle_keeps State.priorPhasesStatus cfg ch s (fun hlocal => ?_) (fun _ _ => rfl)
    (fun _ _ => rfl) (fun _ _ => rfl) fun status heq => absurd heq (hop status)
  exact congrArg (fun shared => shared.2.2.2) (handle_shared cfg ch s hlocal)

theorem handle_active (cfg : RunConfig) (ch : Choice) (s : State)
    (hacquire : ∀ x, op ≠ .spawnAcquire x) (hrelease : ∀ x, op ≠ .spawnRelease x) :
    (handle cfg op ch s).2.active = s.active := by
  refine handle_keeps State.active cfg ch s (fun hlocal => ?_) (fun _ _ => rfl)
    (fun _ _ => rfl) ?_ fun _ _ => rfl
  · exact congrArg (fun shared => shared.2.2.1) (handle_shared cfg ch s hlocal)
  · rintro ⟨x, heq | heq⟩
    · exact absurd heq (hacquire x)
    · exact absurd heq (hrelease x)

/-! ## The tables -/

theorem handle_db (cfg : RunConfig) (ch : Choice) (s : State) (hop : op.writesBoards = false) :
    (handle cfg op ch s).2.db = s.db := by
  refine handle_keeps State.db cfg ch s (fun hlocal => ?_) (fun hwrites => ?_)
    (fun _ _ => rfl) (fun _ _ => rfl) fun _ _ => rfl
  · exact congrArg Prod.fst (handle_shared cfg ch s hlocal)
  · rw [hop] at hwrites
    cases hwrites

theorem handle_sessions (cfg : RunConfig) (ch : Choice) (s : State)
    (hop : ∀ x sess, op ≠ .saveSession x sess) :
    (handle cfg op ch s).2.sessions = s.sessions := by
  refine handle_keeps State.sessions cfg ch s (fun hlocal => ?_) (fun _ _ => rfl) ?_
    (fun _ _ => rfl) fun _ _ => rfl
  · exact congrArg (fun shared => shared.2.1) (handle_shared cfg ch s hlocal)
  · rintro ⟨x, sess, heq⟩
    exact absurd heq (hop x sess)

/-- A write of the repository leaves the database as it was, or as the statement leaves
it. -/
theorem write_db_cases (s : State) (ctx : Ctx) (fault : Fault)
    (result : Except RepoErr BoardStore) :
    (s.write ctx fault (result.map s.withDb)).2.db = s.db ∨
      ∃ db, result = .ok db ∧ (s.write ctx fault (result.map s.withDb)).2.db = db := by
  unfold State.write
  split
  · exact .inl rfl
  · rcases Fault.write_eq fault s (result.map s.withDb) with hsame | hok
    · rw [hsame]
      exact .inl rfl
    · cases result with
      | error err => cases hok
      | ok db =>
        obtain hstate := Except.ok.inj hok
        exact .inr ⟨db, rfl, by rw [← hstate]; rfl⟩

theorem claim_db_cases (s : State) (ctx : Ctx) (fault : Fault) (id : TaskID)
    (sid : SessionID) :
    (s.claim ctx fault id sid).2.db = s.db ∨
      (s.claim ctx fault id sid).2.db = (s.db.claimTask id sid).2 := by
  unfold State.claim
  split
  · exact .inl rfl
  · cases fault with
    | none | after => exact .inr rfl
    | before => exact .inl rfl

def State.loses (s : State) (ctx : Ctx) (fault : Fault) : Bool :=
  s.ctxDone ctx || decide (fault = .before)

theorem write_of_loses {ctx : Ctx} {fault : Fault} (h : s.loses ctx fault = true)
    (effect : Except RepoErr State) : (s.write ctx fault effect).2 = s := by
  unfold State.write
  split
  · rfl
  · next hopen =>
    have hfault : fault = .before := by simpa [State.loses, hopen] using h
    rw [hfault]
    rfl

/-- What an operation does to the task table, given the table that it leaves. -/
inductive TaskChange (s : State) (ch : Choice) (tasks : Sql.Table Task.id Task.id) : Op → Prop where
  | kept {op : Op} (h : tasks = s.db.tasks) : TaskChange s ch tasks op
  | saved (x : Nat) (t : Task) (db : BoardStore) (hreached : s.loses (.exec x) ch.fault = false)
      (hsave : s.db.saveTask t = .ok db) (h : tasks = db.tasks) :
      TaskChange s ch tasks (.saveTask x t)
  | claimed (x : Nat) (id : TaskID) (sid : SessionID)
      (h : tasks = (s.db.claimTask id sid).2.tasks) : TaskChange s ch tasks (.claimTask x id sid)

theorem handle_tasks (cfg : RunConfig) (op : Op) (ch : Choice) (s : State) :
    TaskChange s ch (handle cfg op ch s).2.db.tasks op := by
  by_cases hop : op.writesBoards = false
  · exact .kept (congrArg BoardStore.tasks (handle_db cfg ch s hop))
  cases op
  case saveBoard ctx row =>
    rcases write_db_cases s ctx ch.fault (s.db.saveBoard row) with hdb | ⟨db, hsave, hdb⟩
    · exact .kept (congrArg BoardStore.tasks hdb)
    · exact .kept ((congrArg BoardStore.tasks hdb).trans (BoardStore.tasks_of_saveBoard hsave))
  case saveGroup x row =>
    rcases write_db_cases s (.exec x) ch.fault (s.db.saveGroup row) with hdb | ⟨db, hsave, hdb⟩
    · exact .kept (congrArg BoardStore.tasks hdb)
    · exact .kept ((congrArg BoardStore.tasks hdb).trans (BoardStore.tasks_of_saveGroup hsave))
  case saveTask x t =>
    by_cases hlost : s.loses (.exec x) ch.fault = true
    · exact .kept (congrArg (fun s => s.db.tasks) (write_of_loses hlost _))
    rcases write_db_cases s (.exec x) ch.fault (s.db.saveTask t) with hdb | ⟨db, hsave, hdb⟩
    · exact .kept (congrArg BoardStore.tasks hdb)
    · exact .saved x t db (by simpa using hlost) hsave (congrArg BoardStore.tasks hdb)
  case claimTask x id sid =>
    rcases claim_db_cases s (.exec x) ch.fault id sid with hdb | hdb
    · exact .kept (congrArg BoardStore.tasks hdb)
    · exact .claimed x id sid (congrArg BoardStore.tasks hdb)
  all_goals exact absurd rfl hop

/-- A task row after an operation was there before, or has the id, status and attempts of
a saved task, or was pending and is now claimed. -/
theorem mem_tasks_handle {r : Task} (hr : r ∈ (handle cfg op ch s).2.db.tasks.rows) :
    r ∈ s.db.tasks.rows ∨
      (∃ x t, op = .saveTask x t ∧ r.id = t.id ∧ r.status = t.status ∧ r.attempts = t.attempts) ∨
      ∃ x sid, op = .claimTask x r.id sid ∧ ∃ old ∈ s.db.tasks.rows, old.id = r.id ∧
        old.status = .pending ∧ r.status = .claimed ∧ r.attempts = old.attempts := by
  rcases handle_tasks cfg op ch s with h | ⟨x, t, db, -, hsave, h⟩ | ⟨x, id, sid, h⟩
  · exact .inl (h ▸ hr)
  · rw [h] at hr
    exact (BoardStore.mem_of_saveTask hsave hr).imp_right fun hnew => .inl ⟨x, t, rfl, hnew⟩
  · rw [h] at hr
    rcases BoardStore.mem_of_claimTask hr with hold | ⟨old, hold, rfl, hpending, rfl⟩
    · exact .inl hold
    · exact .inr (.inr ⟨x, sid, rfl, old, hold, rfl, hpending, rfl, rfl⟩)

theorem exists_task_handle (cfg : RunConfig) (op : Op) (ch : Choice) {r₀ : Task}
    (hr : r₀ ∈ s.db.tasks.rows) :
    ∃ r ∈ (handle cfg op ch s).2.db.tasks.rows, r.id = r₀.id ∧ (r = r₀ ∨
      (∃ x t, op = .saveTask x t ∧ s.loses (.exec x) ch.fault = false ∧ r₀.id = t.id ∧
        r.status = t.status ∧ r.attempts = t.attempts) ∨
      (r₀.status = .pending ∧ ∃ x sid, op = .claimTask x r₀.id sid)) := by
  rcases handle_tasks cfg op ch s with h | ⟨x, t, db, hreached, hsave, h⟩ | ⟨x, id, sid, h⟩
  · exact ⟨r₀, h ▸ hr, rfl, .inl rfl⟩
  · rw [h]
    obtain ⟨r, hmem, hid, heq | hnew⟩ := BoardStore.exists_of_saveTask hsave hr
    · exact ⟨r, hmem, hid, .inl heq⟩
    · exact ⟨r, hmem, hid, .inr (.inl ⟨x, t, rfl, hreached, hnew⟩)⟩
  · rw [h]
    obtain ⟨r, hmem, hid, heq | ⟨rfl, hpending⟩⟩ := s.db.exists_of_claimTask id sid hr
    · exact ⟨r, hmem, hid, .inl heq⟩
    · exact ⟨r, hmem, hid, .inr (.inr ⟨hpending, x, sid, rfl⟩)⟩

theorem exists_claimed_of_claim (h : (handle cfg (.claimTask x id sid) ch s).1 = .ok true) :
    ∃ r ∈ (handle cfg (.claimTask x id sid) ch s).2.db.tasks.rows, r.id = id ∧
      r.status = .claimed ∧ r.claimedBy = some sid := by
  simp only [handle, State.claim] at h ⊢
  split at h
  · cases h
  · next hopen =>
    rw [if_neg hopen]
    cases hfault : ch.fault with
    | none =>
      rw [hfault] at h
      exact BoardStore.exists_claimed_of_claimTask (Except.ok.inj h)
    | before | after =>
      rw [hfault] at h
      cases h

theorem exists_pending_of_claim (h : (handle cfg (.claimTask x id sid) ch s).1 = .ok true) :
    ∃ row ∈ s.db.tasks.rows, row.id = id ∧ row.status = .pending := by
  simp only [handle, State.claim] at h
  split at h
  · cases h
  · cases hfault : ch.fault with
    | none =>
      rw [hfault] at h
      exact BoardStore.exists_pending_of_claimTask (Except.ok.inj h)
    | before | after =>
      rw [hfault] at h
      cases h

theorem findTasks_answer {tasks : List Task}
    (h : (handle cfg (.findTasks x gid) ch s).1 = .ok tasks) :
    tasks ⊆ s.db.tasks.rows := by
  simp only [handle, State.read] at h
  split at h
  · cases h
  · cases Fault.read_eq_ok h
    exact List.filter_subset_self _

/-! ## The memory of a team-lead -/

theorem modifyTeam_keeps (f : Team → γ) (s : State) (team k : Nat) (change : Team → Team)
    (hchange : f (change (s.teams k)) = f (s.teams k)) :
    f ((s.modifyTeam k change).teams team) = f (s.teams team) := by
  by_cases hk : team = k
  · subst hk
    simpa [State.modifyTeam] using hchange
  · simp [State.modifyTeam, Function.update_of_ne hk]

def Op.leads : Op → Bool
  | .takeImplSlot _ _ | .releaseImplSlot _ | .setTaskOutcome _ _ _ => true
  | _ => false

/-- The other operations change the wait group of a team-lead at most. -/
theorem handle_team_keeps (f : Team → γ) (hf : ∀ m outstanding, f { m with outstanding } = f m)
    (cfg : RunConfig) (ch : Choice) (s : State) (team : Nat) (hop : op.leads = false) :
    f ((handle cfg op ch s).2.teams team) = f (s.teams team) := by
  refine handle_keeps (fun s => f (s.teams team)) cfg ch s (fun hlocal => ?_) (fun _ _ => rfl)
    (fun _ _ => rfl) (fun _ _ => rfl) fun _ _ => rfl
  have hmodify := modifyTeam_keeps f s team
  cases op
  case go gr =>
    cases gr with
    | group x i c p g => rfl
    | task x k c p g t =>
      exact hmodify k (fun m => { m with outstanding := m.outstanding ++ [s.posted.length] })
        (hf ..)
  case taskDone k n =>
    exact hmodify k (fun m => { m with outstanding := m.outstanding.filter (· ≠ n) }) (hf ..)
  case receive x dep =>
    simp only [handle, State.receiveFrom]
    split <;> rfl
  case takeGroupSlot x =>
    simp only [handle]
    split <;> rfl
  all_goals first | (cases hop; done) | (cases hlocal; done) | rfl

theorem handle_implSlots (cfg : RunConfig) (ch : Choice) (s : State) (team : Nat)
    (htake : ∀ x k, op ≠ .takeImplSlot x k) (hgive : ∀ k, op ≠ .releaseImplSlot k) :
    ((handle cfg op ch s).2.teams team).implSlots = (s.teams team).implSlots := by
  by_cases hop : op.leads = false
  · exact handle_team_keeps Team.implSlots (fun _ _ => rfl) cfg ch s team hop
  cases op
  case takeImplSlot x k => exact absurd rfl (htake x k)
  case releaseImplSlot k => exact absurd rfl (hgive k)
  case setTaskOutcome k id success =>
    exact modifyTeam_keeps Team.implSlots s team k (fun m => m.setOutcome id success) rfl
  all_goals exact absurd rfl hop

/-! ## The results of an Execute -/

theorem results_cases (cfg : RunConfig) (op : Op) (ch : Choice) (s : State) (x : Nat) :
    ((handle cfg op ch s).2.execs x).results = (s.execs x).results ∨
      (x = s.nextExec ∧ ∀ gid, ((handle cfg op ch s).2.execs x).results gid = none) ∨
      ∃ gid outcome, op = .setResult x gid outcome ∧
        ((handle cfg op ch s).2.execs x).results =
          Function.update (s.execs x).results gid (some outcome) := by
  have hmodify : ∀ y (e : Exec), e.results = (s.execs y).results →
      (Function.update s.execs y e x).results = (s.execs x).results := by
    intro y e he
    by_cases hx : x = y
    · simpa [hx] using he
    · simp [Function.update_of_ne hx]
  cases op
  case newExec threshold =>
    by_cases hx : x = s.nextExec
    · exact .inr (.inl ⟨hx, fun gid => by simp [handle, hx]⟩)
    · exact .inl (by simp [handle, Function.update_of_ne hx])
  case setResult y gid outcome =>
    by_cases hx : x = y
    · subst hx
      exact .inr (.inr ⟨gid, outcome, rfl, by simp [handle, State.modifyExec]⟩)
    · exact .inl (by simp [handle, State.modifyExec, Function.update_of_ne hx])
  all_goals
    refine .inl (handle_keeps (fun s => (s.execs x).results) cfg ch s (fun hlocal => ?_)
      (fun _ _ => rfl) (fun _ _ => rfl) (fun _ _ => rfl) fun _ _ => rfl)
  case go gr => cases gr <;> first | rfl | exact hmodify _ _ (by rfl)
  case recordQuotaOutcome | signal =>
    refine hmodify _ _ ?_
    simp only [Exec.recordQuotaOutcome, Exec.signal]
    repeat' split
    all_goals rfl
  case receive | takeGroupSlot | takeImplSlot =>
    simp only [handle, State.receiveFrom]
    split <;> first | rfl | exact hmodify _ _ (by rfl)
  all_goals first | (cases hlocal; done) | rfl | exact hmodify _ _ (by rfl)

end SophiaOrchestrator.Apply
