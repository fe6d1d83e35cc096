import SophiaOrchestrator.Apply.Among
import SophiaOrchestrator.Apply.Bounds

/-!
# Resuming after an exhausted quota

When an implement-agent has no quota left, `runImplementWithRetry` releases its task and saves
it, so that a later `Execute` can claim it again.  The task in memory was never claimed, so the
release is refused.  A pending task is saved as pending all the same; a task that has failed
before in the same call is saved as failed, and no later claim is granted.  A fallback that
succeeds counts an attempt.

The call runs among others, which may do anything but write the row of its task.
-/

namespace SophiaOrchestrator.Apply

open Effects Prog

/-! ## What a call has done -/

def grants : Event → Bool
  | ⟨.spawnAcquire _, .ok ()⟩ => true
  | _ => false

/-- The primary agent of an attempt has no quota left. -/
def hitsQuota : Event → Bool
  | ⟨.dispatch _ ⟨.implement _, _, model⟩, .error (.quota _)⟩ => decide (model = "")
  | _ => false

/-- The agent with the fallback model does the task. -/
def fallbackSucceeds : Event → Bool
  | ⟨.dispatch _ ⟨.implement _, _, model⟩, answer⟩ =>
    decide (model ≠ "") && agentVerdict answer == some true
  | _ => false

def ordinaryAttempts (h : History) : Nat :=
  h.countP grants - h.countP hitsQuota

def savesTask : Event → Bool
  | ⟨.saveTask _ _, .error _⟩ => false
  | _ => true

def SameTaskRow (id : TaskID) (s s' : State) : Prop :=
  s'.db.tasks.findTarget id = s.db.tasks.findTarget id

instance (id : TaskID) : Std.Refl (SameTaskRow id) where
  refl _ := rfl

/-- The row of the task counts the attempts before the call and the ordinary ones of it. -/
def CountsAttempts (task : Task) (h : History) (row : Task) : Prop :=
  row.attempts = task.attempts + ordinaryAttempts h

/-- If an agent of the call has had no quota left: after a call that has failed the task can be
claimed again, and the lack of quota was not counted. -/
structure ResumeSafe (task : Task) (success : Bool) (s : State) (h : History) : Prop where
  released : h.any hitsQuota = true → success = false →
    ∃ row, s.db.tasks.findTarget task.id = some row ∧ row.status = .pending ∧
      row.claimedBy = none ∧ CountsAttempts task h row ∧
      ∀ sid, (s.db.claimTask task.id sid).1 = true
  fallback : h.any hitsQuota = true → success = true →
    ∃ row, s.db.tasks.findTarget task.id = some row ∧ CountsAttempts task h row

/-- The call, made in the state `s` among others that leave the row of the task alone, has
returned. -/
def Returns (cfg : RunConfig) (x : Nat) (c : Change) (p : Phase) (group : Group) (task : Task)
    (s : State) (success : Bool) (s' : State) (h : History) : Prop :=
  (runImplementWithRetry cfg x c p group task).Leads
    ((handler cfg).among (SameTaskRow task.id)) (s, []) (.done success) (s', h)

/-- The task can be saved as pending: it is so in memory, or can be released. -/
def Task.Releasable (task : Task) : Prop :=
  (task.status = .pending ∧ task.claimedBy = none) ∨ task.status = .claimed

/-! ## Rows -/

theorem BoardStore.findTarget_of_saveTask {db db' : BoardStore} {task : Task}
    (h : db.saveTask task = .ok db') :
    ∃ row, db'.tasks.findTarget task.id = some row ∧ row.status = task.status ∧
      row.claimedBy = task.claimedBy ∧ row.attempts = task.attempts := by
  unfold BoardStore.saveTask at h
  split at h
  · next tasks hupsert =>
    cases h
    obtain ⟨row, hrow, rfl | ⟨old, rfl⟩⟩ := Sql.Table.findTarget_of_upsert hupsert
    · exact ⟨_, hrow, rfl, rfl, rfl⟩
    · exact ⟨_, hrow, rfl, rfl, rfl⟩
  · cases h

theorem findTarget_of_save {cfg : RunConfig} {x : Nat} {task : Task} {ch : Choice} {s : State}
    (h : (handle cfg (.saveTask x task) ch s).1 = .ok ()) :
    ∃ row, (handle cfg (.saveTask x task) ch s).2.db.tasks.findTarget task.id = some row ∧
      row.status = task.status ∧ row.claimedBy = task.claimedBy ∧
      row.attempts = task.attempts := by
  exact BoardStore.findTarget_of_saveTask (result_of_write State.db (fun _ => rfl) h)

theorem claimTask_of_pending {db : BoardStore} {id : TaskID} {row : Task}
    (hrow : db.tasks.findTarget id = some row) (hpending : row.status = .pending)
    (sid : SessionID) : (db.claimTask id sid).1 = true := by
  simp [BoardStore.claimTask, hrow, hpending]

/-! ## The task in memory -/

/-- The task after `j` attempts that were counted as failed. -/
structure Carried (task : Task) (j : Nat) (task' : Task) : Prop where
  id : task'.id = task.id
  attempts : task'.attempts = task.attempts + j
  first : j = 0 → task' = task
  later : 0 < j → task'.status = .failed

section Carried

variable {task task' : Task} {j : Nat}

theorem Carried.refl (task : Task) : Carried task 0 task :=
  ⟨rfl, rfl, fun _ => rfl, fun h => absurd h (lt_irrefl 0)⟩

theorem Carried.retried (h : Carried task j task') (hretry : (task'.recordAttempt false).2 = none) :
    Carried task (j + 1) (task'.recordAttempt false).1 := by
  unfold Task.recordAttempt at hretry ⊢
  split at hretry
  next hsuccess => cases hsuccess
  next =>
    split at hretry
    · cases hretry
    · next hopen =>
      rw [if_neg Bool.false_ne_true, if_neg hopen]
      exact ⟨h.id, congrArg Nat.succ h.attempts, nofun, fun _ => rfl⟩

theorem Carried.complete (hrel : task.Releasable) (h : Carried task j task') (env : Envelope) :
    (task'.complete env).toOption.getD task' = task' := by
  have hidle : task'.status ≠ .running := by
    rcases Nat.eq_zero_or_pos j with hzero | hpos
    · rw [h.first hzero]
      rcases hrel with ⟨hpending, -⟩ | hclaimed
      · simp [hpending]
      · simp [hclaimed]
    · simp [h.later hpos]
  simp [Task.complete, hidle, Except.toOption]

/-- What the row holds after a call that has met an exhausted quota at the attempt `j + 1`. -/
def QuotaRow (task : Task) (j : Nat) (success : Bool) (row : Task) : Prop :=
  if success then row.attempts = task.attempts + j + 1
  else if j = 0 then row.status = .pending ∧ row.claimedBy = none ∧ row.attempts = task.attempts
  else row.status = .failed

/-- A release is refused for a task that is pending or failed in memory, and leaves it so. -/
theorem Carried.release (hrel : task.Releasable) (h : Carried task j task') :
    (task'.release.toOption.getD task').id = task.id ∧
      QuotaRow task j false (task'.release.toOption.getD task') := by
  rcases Nat.eq_zero_or_pos j with rfl | hpos
  · obtain rfl := h.first rfl
    rcases hrel with ⟨hpending, hnone⟩ | hclaimed
    · simp [QuotaRow, Task.release, hpending, hnone, Except.toOption]
    · simp [QuotaRow, Task.release, hclaimed, Except.toOption]
  · simp [QuotaRow, Task.release, h.later hpos, hpos.ne', Except.toOption, h.id]

theorem Carried.used (h : Carried task j task') :
    (task'.recordAttempt true).1.id = task.id ∧
      QuotaRow task j true (task'.recordAttempt true).1 :=
  ⟨h.id, congrArg Nat.succ h.attempts⟩

end Carried

/-! ## The call -/

/-- How many attempts were granted and how many agents had no quota left, and whether the fallback
has done the task. -/
structure QuotaTally (h : History) (granted hits : Nat) (fell : Bool) : Prop where
  granted : h.countP grants = granted
  hits : h.countP hitsQuota = hits
  fell : h.any fallbackSucceeds = fell

theorem QuotaTally.cons {h : History} {granted hits : Nat} {fell : Bool}
    (htally : QuotaTally h granted hits fell)
    (ev : Event) : QuotaTally (ev :: h) (granted + (grants ev).toNat) (hits + (hitsQuota ev).toNat)
      (fallbackSucceeds ev || fell) where
  granted := by rw [List.countP_cons, htally.granted]; cases grants ev <;> rfl
  hits := by rw [List.countP_cons, htally.hits]; cases hitsQuota ev <;> rfl
  fell := by rw [List.any_cons, htally.fell]

def QuotaSettled (task : Task) (j : Nat) (success : Bool) (y : State × History) : Prop :=
  y.2.all savesTask = true →
    ∃ row, y.1.db.tasks.findTarget task.id = some row ∧ QuotaRow task j success row

section Call

variable {cfg : RunConfig} {x j : Nat} {c : Change} {p : Phase} {group : Group} {task : Task}
  {y : State × History} {success : Bool}

theorem QuotaSettled.step {op : Op} {answer : op.Ret} {s s' : State} {ch : Choice}
    (hrun : handle cfg op ch s = (answer, s')) (hop : op.writesBoards = false)
    (hrely : SameTaskRow task.id y.1 s) (h : QuotaSettled task j success y) :
    QuotaSettled task j success (s', ⟨op, answer⟩ :: y.2) := by
  intro hsaves
  obtain ⟨row, hrow, hfields⟩ := h (Bool.and_eq_true_iff.mp hsaves).2
  obtain rfl : s' = (handle cfg op ch s).2 := (congrArg Prod.snd hrun).symm
  refine ⟨row, ?_, hfields⟩
  rw [handle_db cfg ch s hop]
  exact hrely.trans hrow

theorem QuotaSettled.save {saved : Task} {answer : Except RepoErr Unit} {s s' : State} {ch : Choice}
    (hsaved : saved.id = task.id ∧ QuotaRow task j success saved) (h : History)
    (hrun : handle cfg (.saveTask x saved) ch s = (answer, s')) :
    QuotaSettled task j success (s', ⟨.saveTask x saved, answer⟩ :: h) := by
  intro hsaves
  cases answer with
  | ok _ =>
    obtain ⟨row, hrow, hstatus, hclaimed, hattempts⟩ := findTarget_of_save (congrArg Prod.fst hrun)
    rw [congrArg Prod.snd hrun, hsaved.1] at hrow
    refine ⟨row, hrow, ?_⟩
    rw [QuotaRow, hstatus, hclaimed, hattempts]
    exact hsaved.2
  | error err => cases hsaves

/-- What is known at a stage.  An attempt with a slot is the first one without quota; the fallback
has none. -/
def TaskStage.Resumes (task : Task) : TaskStage → State × History → Prop
  | .fresh, y | .start, y => QuotaTally y.2 0 0 false
  | .waits _ _ task', y => ∃ j, Carried task j task' ∧ QuotaTally y.2 j 0 false
  | .ready slot _ task', y | .informed slot _ task' _, y | .prompted slot _ task', y =>
    ∃ j, Carried task j task' ∧ QuotaTally y.2 (j + 1) (!slot).toNat false
  | .sent slot _ task' quota verdict, y => ∃ j, Carried task j task' ∧
      QuotaTally y.2 (j + 1) (!slot || quota).toNat (!slot && verdict == some true)
  | .freed _ task' quota, y => ∃ j, Carried task j task' ∧ QuotaTally y.2 (j + 1) quota.toNat false
  | .ended success, y => y.2.countP hitsQuota = 0 ∨
      ∃ j, QuotaTally y.2 (j + 1) 1 success ∧ QuotaSettled task j success y
  | _, _ => True

theorem tally_of_incidental {ev : Event} (h : ev.op.incidental = true) :
    grants ev = false ∧ hitsQuota ev = false ∧ fallbackSucceeds ev = false ∧
      ev.op.writesBoards = false := by
  obtain ⟨op, answer⟩ := ev
  cases op <;> first | exact ⟨rfl, rfl, rfl, rfl⟩ | cases h

theorem tally_of_dispatch {x : Nat} {id : TaskID} {path model : String} {slot : Bool}
    (hmodel : model = "" ↔ slot = true) (answer : Except DispatchErr AgentResult) :
    grants ⟨.dispatch x ⟨.implement id, path, model⟩, answer⟩ = false ∧
      hitsQuota ⟨.dispatch x ⟨.implement id, path, model⟩, answer⟩ = (slot && lacksQuota answer) ∧
      fallbackSucceeds ⟨.dispatch x ⟨.implement id, path, model⟩, answer⟩ =
        (!slot && agentVerdict answer == some true) := by
  have hdecide : decide (model = "") = slot := by simp [hmodel]
  refine ⟨rfl, ?_, ?_⟩
  · rcases answer with (_ | _ | _) | _
    · exact hdecide.trans (Bool.and_true slot).symm
    all_goals exact (Bool.and_false slot).symm
  · simp [fallbackSucceeds, hmodel]

section Moves

variable {k team : Nat} {ev : Event} {s s' : TaskStage} {st : State} {ch : Choice}
  {y' : State × History}

theorem TaskStage.Resumes.extend (hs : s.Resumes task y) (hop : ev.op.incidental = true)
    (hrely : SameTaskRow task.id y.1 st) (hrun : handle cfg ev.op ch st = (ev.ret, y'.1))
    (hlog : y'.2 = ev :: y.2) : s.Resumes task y' := by
  obtain ⟨hgrants, hhits, hfell, hboards⟩ := tally_of_incidental hop
  have hcons : ∀ {granted hits fell}, QuotaTally y.2 granted hits fell →
    QuotaTally y'.2 granted hits fell := by
    intro granted hits fell htally
    simpa [hlog, hgrants, hhits, hfell] using htally.cons ev
  cases s with
  | fresh | start => exact hcons hs
  | waits | ready | informed | prompted | sent | freed =>
    obtain ⟨j, hcarried, htally⟩ := hs
    exact ⟨j, hcarried, hcons htally⟩
  | ended success =>
    refine hs.imp (fun hnone => ?_) fun ⟨j, htally, hsettled⟩ => ⟨j, hcons htally, ?_⟩
    · rw [hlog, List.countP_cons_of_neg (by simp [hhits]), hnone]
    · obtain ⟨st', log⟩ := y'
      obtain rfl : log = ev :: y.2 := hlog
      exact hsettled.step hrun hboards hrely
  | _ => trivial

theorem TaskMove.resumes (hrel : task.Releasable)
    (hmove : TaskMove cfg k x team c task s ev s') (hrely : SameTaskRow task.id y.1 st)
    (hrun : handle cfg ev.op ch st = (ev.ret, y'.1)) (hlog : y'.2 = ev :: y.2)
    (hs : s.Resumes task y) : s'.Resumes task y' := by
  obtain ⟨st', log⟩ := y'
  obtain rfl : log = ev :: y.2 := hlog
  have hnone : ∀ {granted fell}, QuotaTally y.2 granted 0 fell → hitsQuota ev = false →
      (ev :: y.2).countP hitsQuota = 0 := fun htally hev => by
    rw [List.countP_cons_of_neg (by simp [hev]), htally.hits]
  cases hmove with
  | stay hop => exact hs.extend hop hrely hrun rfl
  | slotted => exact hs.cons _
  | failed hop => exact .inl (hnone hs (tally_of_incidental hop).2.1)
  | unmade | unclaimed => exact .inl (hnone hs rfl)
  | claimed => exact ⟨0, .refl task, hs.cons _⟩
  | cancelled | counted =>
    obtain ⟨j, -, htally⟩ := hs
    exact .inl (hnone htally rfl)
  | retried hretry =>
    obtain ⟨j, hcarried, htally⟩ := hs
    exact ⟨j + 1, hcarried.retried hretry, htally.cons _⟩
  | @dispatched slot n task' path model answer hmodel =>
    obtain ⟨j, hcarried, htally⟩ := hs
    refine ⟨j, hcarried, ?_⟩
    obtain ⟨hgrants, hhits, hfell⟩ := tally_of_dispatch hmodel answer
    have hcons := htally.cons ⟨.dispatch x ⟨.implement task'.id, path, model⟩, answer⟩
    rw [hgrants, hhits, hfell] at hcons
    cases slot <;> simpa using hcons
  | @completed slot n task' success env =>
    obtain ⟨j, hcarried, htally⟩ := hs
    rw [hcarried.complete hrel env]
    exact ⟨j, hcarried, htally.cons _⟩
  | used =>
    obtain ⟨j, hcarried, htally⟩ := hs
    exact .inr ⟨j, htally.cons _, .save hcarried.used y.2 hrun⟩
  | released =>
    obtain ⟨j, hcarried, htally⟩ := hs
    exact .inr ⟨j, htally.cons _, .save (hcarried.release hrel) y.2 hrun⟩
  | @abandoned n task' quota verdict answer hfailed =>
    obtain ⟨j, hcarried, htally⟩ := hs
    have hfell : (verdict == some true) = false := by simpa using hfailed
    rw [hfell] at htally
    exact .inr ⟨j, htally.cons _, .save (hcarried.release hrel) y.2 hrun⟩
  | @unprompted slot =>
    obtain ⟨j, hcarried, htally⟩ := hs
    exact ⟨j, hcarried, by cases slot <;> exact htally.cons _⟩
  | granted | refused | reads | prompted | freed | fallsBack =>
    obtain ⟨j, hcarried, htally⟩ := hs
    exact ⟨j, hcarried, htally.cons _⟩
  | _ => trivial

end Moves

/-- A call that has met an exhausted quota has met it once, at its last attempt, and says whether
the fallback has done the task. -/
theorem runImplementWithRetry_tallied (hrel : task.Releasable) (s : State) :
    Among cfg (SameTaskRow task.id) (fun success y => y.2.countP hitsQuota = 0 ∨
        ∃ j, QuotaTally y.2 (j + 1) 1 success ∧ QuotaSettled task j success y)
      (runImplementWithRetry cfg x c p group task) (s, []) := by
  have hstart : TaskStage.start.Resumes task (s, []) := ⟨rfl, rfl, rfl⟩
  have hfollows : (runImplementWithRetry cfg x c p group task).Follows
      (TaskMove cfg 0 x 0 c task) (TaskStage.Ends task) .start := runImplementWithRetry_follows
  refine wp_mono (hfollows.wp (J := fun s y => s.Resumes task y) ?_ hstart) (fun _ hI => hI) ?_
  · rintro s ev s' y y' hmove ⟨st, ch, hrely, hrun, hlog⟩ hs
    exact ⟨trivial, hmove.resumes hrel hrely hrun hlog hs⟩
  · rintro success y ⟨s, hends, hs⟩
    cases hends with
    | done => exact .inl hs.hits
    | ended => exact hs
    | refused | exhausted =>
      obtain ⟨j, -, htally⟩ := hs
      exact .inl htally.hits

end Call

/-- A call for a task that is pending in memory, all saves of which succeed, is safe to resume
exactly if the quota, should it be exhausted, is so at the first attempt and the fallback does not
do the task. -/
theorem quota_resumeSafe_iff (cfg : RunConfig) (x : Nat) (c : Change) (p : Phase) (group : Group)
    (task : Task) (s s' : State) (h : History) (success : Bool)
    (hreturns : Returns cfg x c p group task s success s' h) (hrel : task.Releasable)
    (hsaves : h.all savesTask = true) :
    ResumeSafe task success s' h ↔
      (h.any hitsQuota = true → h.countP grants ≤ 1 ∧ h.any fallbackSucceeds = false) := by
  obtain ⟨-, hend⟩ := hreturns.wp trivial (runImplementWithRetry_tallied hrel s)
  rcases hend with hnone | ⟨j, htally, hsettled⟩
  · have hquota : ¬h.any hitsQuota = true := fun hany =>
      (List.countP_pos_iff.mpr (List.any_eq_true.mp hany)).ne' hnone
    exact ⟨fun _ hany => absurd hany hquota,
      fun _ => ⟨fun hany => absurd hany hquota, fun hany => absurd hany hquota⟩⟩
  have hquota : h.any hitsQuota = true :=
    List.any_eq_true.mpr (List.countP_pos_iff.mp (htally.hits ▸ Nat.one_pos))
  have hordinary : ordinaryAttempts h = j := by
    rw [ordinaryAttempts, htally.granted, htally.hits]
    rfl
  obtain ⟨row, hrow, hfields⟩ := hsettled hsaves
  rw [htally.granted, htally.fell]
  constructor
  · rintro hsafe -
    cases success with
    | false =>
      refine ⟨?_, rfl⟩
      by_contra hlater
      obtain ⟨row', hrow', hpending, -⟩ := hsafe.released hquota rfl
      obtain rfl : row' = row := Option.some.inj (hrow'.symm.trans hrow)
      have hfailed : row'.status = .failed := by simpa [QuotaRow, show j ≠ 0 by omega] using hfields
      rw [hpending] at hfailed
      cases hfailed
    | true =>
      obtain ⟨row', hrow', hcounts⟩ := hsafe.fallback hquota rfl
      obtain rfl : row' = row := Option.some.inj (hrow'.symm.trans hrow)
      rw [CountsAttempts, hordinary] at hcounts
      exact absurd (hfields.symm.trans hcounts) (Nat.succ_ne_self _)
  · intro hcond
    obtain ⟨hfirst, rfl⟩ := hcond hquota
    obtain rfl : j = 0 := by omega
    obtain ⟨hstatus, hnone, hattempts⟩ := hfields
    refine ⟨fun _ _ => ⟨row, hrow, hstatus, hnone, ?_, claimTask_of_pending hrow hstatus⟩, nofun⟩
    rw [CountsAttempts, hordinary, hattempts]
    rfl

/-! ## Calls that run alone -/

def sampleTask : Task where
  id := ⟨5⟩
  groupID := ⟨4⟩
  description := "home"
  filesPattern := ["f"]
  status := .pending

def sampleRow : State :=
  { db := (BoardStore.empty.saveTask sampleTask).toOption.getD .empty }

/-- The agents answer in one way until the operation with the number `n`, and in another way
after it. -/
def agents (n : Nat) (first second : Except DispatchErr AgentResult) : Nat → Choice :=
  fun k => { sampleChoice [] with dispatch := if k ≤ n then first else second }

def noQuota : Except DispatchErr AgentResult :=
  .error (.quota ⟨"p", "m", 0, ""⟩)

def aloneCall (cfg : RunConfig) (env : Nat → Choice) : Effects.Outcome Op Op.Ret Bool State :=
  (runImplementWithRetry cfg 0 (sampleChange .tasks) samplePhase
    (Group.new ⟨4⟩ ⟨3⟩ "web" []) sampleTask).eval (handler cfg) (fun _ => false) env 0 sampleRow

theorem leads_aloneCall {rely : State → State → Prop} [Std.Refl rely] {cfg : RunConfig}
    (env : Nat → Choice) :
    (runImplementWithRetry cfg 0 (sampleChange .tasks) samplePhase (Group.new ⟨4⟩ ⟨3⟩ "web" [])
      sampleTask).Leads ((handler cfg).among rely) (sampleRow, [])
      (.done (aloneCall cfg env).value) ((aloneCall cfg env).state, (aloneCall cfg env).hist) := by
  have hleads : (runImplementWithRetry cfg 0 (sampleChange .tasks) samplePhase
      (Group.new ⟨4⟩ ⟨3⟩ "web" []) sampleTask).Leads ((handler cfg).among rely) (sampleRow, [])
      (.done (aloneCall cfg env).value)
      ((aloneCall cfg env).state, (aloneCall cfg env).hist ++ []) :=
    leads_among_eval env _ 0 sampleRow []
  rwa [List.append_nil] at hleads

/-- Neither the primary model nor the fallback has quota left. -/
theorem quota_resumeSafe_fallbackToo :
    (aloneCall fallbackConfig (agents 0 noQuota noQuota)).hist.any hitsQuota = true ∧
      (aloneCall fallbackConfig (agents 0 noQuota noQuota)).value = false ∧
      ResumeSafe sampleTask (aloneCall fallbackConfig (agents 0 noQuota noQuota)).value
        (aloneCall fallbackConfig (agents 0 noQuota noQuota)).state
        (aloneCall fallbackConfig (agents 0 noQuota noQuota)).hist := by
  exact ⟨by decide +kernel, by decide +kernel,
    (quota_resumeSafe_iff fallbackConfig 0 _ _ _ sampleTask sampleRow _ _ _ (leads_aloneCall _)
      (.inl ⟨rfl, rfl⟩) (by decide +kernel)).mpr fun _ => ⟨by decide +kernel, by decide +kernel⟩⟩

/-- After a failed attempt the exhausted quota leaves a failed task, which no claim is granted
for.  A fallback that succeeds counts an attempt. -/
theorem quota_not_resumeSafe :
    (∃ success s' h, Returns sampleConfig 0 (sampleChange .tasks) samplePhase
        (Group.new ⟨4⟩ ⟨3⟩ "web" []) sampleTask sampleRow success s' h ∧
        h.all savesTask = true ∧ ¬ResumeSafe sampleTask success s' h) ∧
      ∃ success s' h, Returns fallbackConfig 0 (sampleChange .tasks) samplePhase
        (Group.new ⟨4⟩ ⟨3⟩ "web" []) sampleTask sampleRow success s' h ∧
        h.all savesTask = true ∧ ¬ResumeSafe sampleTask success s' h := by
  refine ⟨⟨_, _, _, leads_aloneCall (agents 12 (.error (.other "")) noQuota),
    by decide +kernel, fun hsafe => ?_⟩, ⟨_, _, _,
    leads_aloneCall (agents 12 noQuota (sampleChoice []).dispatch), by decide +kernel,
    fun hsafe => ?_⟩⟩
  · obtain ⟨row, hrow, hstatus, -⟩ := hsafe.released (by decide +kernel) (by decide +kernel)
    have hsaved : ((aloneCall sampleConfig (agents 12 (.error (.other "")) noQuota)).state.db.tasks
        |>.findTarget sampleTask.id).map Task.status = some .failed := by
      decide +kernel
    rw [hrow, Option.map_some, hstatus] at hsaved
    cases hsaved
  · obtain ⟨row, hrow, hattempts⟩ := hsafe.fallback (by decide +kernel) (by decide +kernel)
    have hcounted : ((aloneCall fallbackConfig
        (agents 12 noQuota (sampleChoice []).dispatch)).state.db.tasks
        |>.findTarget sampleTask.id).map Task.attempts = some 1 := by
      decide +kernel
    have hnone : ordinaryAttempts (aloneCall fallbackConfig
        (agents 12 noQuota (sampleChoice []).dispatch)).hist = 0 := by
      decide +kernel
    rw [hrow, Option.map_some] at hcounted
    rw [CountsAttempts, hnone, Option.some.inj hcounted] at hattempts
    cases hattempts

end SophiaOrchestrator.Apply
