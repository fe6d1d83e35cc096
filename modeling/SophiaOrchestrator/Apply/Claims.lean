import SophiaOrchestrator.Apply.Attempts
import SophiaOrchestrator.Apply.Traces

/-!
# Claims of tasks

`ClaimTask` is one statement that claims a pending row.  The task in the memory of the
goroutine does not learn of it and stays pending, and `SaveTask` writes the whole row.  So
the save that follows the agent's envelope, before the attempt is recorded, makes the row
pending again, and so does the save after an exhausted quota.
-/

namespace SophiaOrchestrator.Apply

open Effects Prog

variable {x v k team : Nat} {t row : Task} {s : State} {id : TaskID} {sid : SessionID} {c : Change}
  {p : Phase} {g : Group} {cfg : RunConfig}

/-- The goroutine dispatches an agent for the task on behalf of the `Execute` `x`: its next
operation is the dispatch. -/
def Dispatching (t : ApplyThread) (x : Nat) (id : TaskID) : Prop :=
  ∃ req next, t.prog = .call (.dispatch x req) next ∧ req.target = .implement id

def Task.ClaimedBySession (row : Task) (sid : SessionID) : Prop :=
  row.status = .claimed ∧ row.claimedBy = some sid

/-- The row counts an attempt that the goroutine with this history has made at its task. -/
def RecordedIn (h : History) (x : Nat) (row : Task) : Prop :=
  ∃ k team c p g t, ⟨.beginGoroutine k, some (.task x team c p g t)⟩ ∈ h ∧ t.id = row.id ∧
    t.attempts < row.attempts

/-- Claims exclude each other, and a claim that was granted is in the row until the attempt
of its session is. -/
structure ClaimsHold (π : ApplyPool) : Prop where
  exclusive : ∀ (i j : Nat) ti tj x y id, π.threads[i]? = some ti → π.threads[j]? = some tj →
    Dispatching ti x id → Dispatching tj y id → i = j
  held : ∀ t ∈ π.threads, ∀ x id sid, ⟨.claimTask x id sid, .ok true⟩ ∈ t.hist →
    ∃ row ∈ π.state.db.tasks.rows, row.id = id ∧
      (row.ClaimedBySession sid ∨ RecordedIn t.hist x row)

def Op.startsExecute : Op → Bool
  | .newExec _ => true
  | _ => false

/-- An agent that is dispatched for a task whose row is still claimed, not counting an attempt
yet, neither returns a valid envelope nor is without quota; and `Execute` saves the task of a new
board, unless the save does not reach the database, under no id whose row is not pending. -/
def sparesClaims : StepCondition
  | .dispatch _ req, ch, _, s =>
    match req.target with
    | .implement id =>
      !savesEarly ch.dispatch ||
        s.db.tasks.rows.all fun row => decide (row.id = id → row.status ≠ .claimed)
    | .buildRepair _ => true
  | .saveTask x t, ch, hist, s =>
    !(hist.any fun ev => ev.op.startsExecute) || s.loses (.exec x) ch.fault ||
      s.db.tasks.rows.all fun row => decide (row.id = t.id → row.status = .pending)
  | _, _, _, _ => true

/-! ## The invariant -/

def RecordedBy (D : ApplyLog) (v : Nat) : Prop :=
  ∃ x t answer, D v ⟨.saveTask x t, answer⟩ ∧ t.status ≠ .pending

theorem RecordedBy.add {D : ApplyLog} (h : RecordedBy D v) (tid : Nat) (ev : Event) :
    RecordedBy (D.add tid ev) v :=
  h.imp fun _ => .imp fun _ => .imp fun _ => .imp_left .inl

structure Claims (D : ApplyLog) (s : State) : Prop where
  once : ∀ {v v' x x' id sid sid'}, D v ⟨.claimTask x id sid, .ok true⟩ →
    D v' ⟨.claimTask x' id sid', .ok true⟩ → v = v' ∧ x = x' ∧ sid = sid'
  loaded : ∀ {e x gid tasks}, D e ⟨.findTasks x gid, .ok tasks⟩ → ∀ t ∈ tasks,
    t.status ≠ .pending → ∃ row ∈ s.db.tasks.rows, row.id = t.id ∧ row.status ≠ .pending
  untried : ∀ {v x sid k team c p g t}, D v ⟨.claimTask x t.id sid, .ok true⟩ →
    D v ⟨.beginGoroutine k, some (.task x team c p g t)⟩ → t.status = .pending
  held : ∀ {v x id sid}, D v ⟨.claimTask x id sid, .ok true⟩ →
    ∃ row ∈ s.db.tasks.rows, row.id = id ∧ row.status ≠ .pending ∧
      (row.ClaimedBySession sid ∨ ∃ k team c p g t,
        D v ⟨.beginGoroutine k, some (.task x team c p g t)⟩ ∧ t.id = id ∧
          t.attempts < row.attempts ∧ RecordedBy D v)
  spared : ∀ {v x req id answer}, D v ⟨.dispatch x req, answer⟩ → req.target = .implement id →
    savesEarly answer = true → RecordedBy D v

section Step

variable {D : ApplyLog} {L : Nat → Prop} {tid : Nat} {ch : Choice} {call : Call} {op : Op}
  {hist : History}

/-- A save that reaches a row which is not pending is not a save of a pending task. -/
theorem Claims.status_of_save (h : Claims D s)
    (hstep : StepOf cfg D s.skeleton tid call hist (.saveTask x t)
      (handle cfg (.saveTask x t) ch s).1)
    (htraced : Traced call ⟨.saveTask x t, (handle cfg (.saveTask x t) ch s).1⟩ hist)
    (hop : sparesClaims (.saveTask x t) ch hist s = true)
    (hreached : s.loses (.exec x) ch.fault = false) (hrow : row ∈ s.db.tasks.rows)
    (hid : row.id = t.id) (hstatus : row.status ≠ .pending) : t.status ≠ .pending := by
  intro hpending
  rcases hstep.justified.reason with ⟨⟨p, -, threshold, hnew⟩, -⟩ | ⟨t₀, hclaimed, -⟩
  · have hexecute : (hist.any fun ev => ev.op.startsExecute) = true :=
      List.any_eq_true.mpr ⟨_, hnew, rfl⟩
    simp only [sparesClaims, hexecute, hreached, Bool.not_true, Bool.false_or, List.all_eq_true,
      decide_eq_true_eq] at hop
    exact hstatus (hop row hrow hid)
  · -- An early save of a goroutine follows an answer, and this one a recorded attempt.
    obtain ⟨k, team, sid, ⟨c, p, g, hbegin⟩, -, hgranted⟩ := hclaimed
    have hfresh := h.untried ((hstep.past _).mpr hgranted) ((hstep.past _).mpr hbegin)
    obtain ⟨hadv, hearly⟩ := htraced k team c p g t₀ hbegin
    obtain ⟨y, req, answer, id, hdispatch, htarget, hsaves⟩ := hearly hfresh hpending
    obtain ⟨z, t', answer', hsaved, hother⟩ :=
      h.spared ((hstep.past _).mpr hdispatch) htarget hsaves
    rcases hadv hfresh with ⟨-, -, hall⟩ | ⟨htried, -⟩
    · exact hother (hall z t' answer' ((hstep.past _).mp hsaved))
    · rw [hpending] at htried
      cases htried

/-- A row that is not pending does not become pending. -/
theorem Claims.exists_taken_handle (h : Claims D s)
    (hstep : StepOf cfg D s.skeleton tid call hist op (handle cfg op ch s).1)
    (htraced : Traced call ⟨op, (handle cfg op ch s).1⟩ hist)
    (hop : sparesClaims op ch hist s = true) {r₀ : Task}
    (hr : r₀ ∈ s.db.tasks.rows) (hstatus : r₀.status ≠ .pending) :
    ∃ r ∈ (handle cfg op ch s).2.db.tasks.rows, r.id = r₀.id ∧ r.status ≠ .pending := by
  obtain ⟨r, hmem, hid, rfl | ⟨x, t, rfl, hreached, ht, hsaved, -⟩ | ⟨hpending, -⟩⟩ :=
    exists_task_handle cfg op ch hr
  · exact ⟨r, hmem, hid, hstatus⟩
  · refine ⟨r, hmem, hid, ?_⟩
    rw [hsaved]
    exact h.status_of_save hstep htraced hop hreached hr ht hstatus
  · exact absurd hpending hstatus

theorem not_granted_of_taken (hrow : row ∈ s.db.tasks.rows) (hid : row.id = id)
    (hstatus : row.status ≠ .pending) :
    (handle cfg (.claimTask x id sid) ch s).1 ≠ .ok true := by
  intro hgranted
  obtain ⟨row', hrow', hid', hpending⟩ := exists_pending_of_claim hgranted
  obtain rfl := s.db.tasks.eq_of_target_eq hrow hrow' (hid.trans hid'.symm)
  exact hstatus hpending

/-- The task of a goroutine was made as a pending one, or was loaded by its `Execute`. -/
theorem origin_of_task (hnum : Numbered D s.skeleton) (hexpl : Pool.Explained (Good cfg) D)
    (hbegin : D v ⟨.beginGoroutine k, some (.task x team c p g t)⟩) :
    t.status = .pending ∨ ∃ e gid tasks, D e ⟨.findTasks x gid, .ok tasks⟩ ∧ t ∈ tasks := by
  obtain ⟨e, i, c', p', g', k', hgo, ht⟩ := started_of_task hnum hexpl hbegin
  obtain ⟨call, past, hjust, hpast⟩ := exists_justified hexpl hgo
  obtain ⟨-, -, -, groups, hof, hat, -⟩ := hjust.reason
  have hg := List.mem_of_getElem? hat
  cases hof with
  | loaded row rows past' hrow hrows hknown hgroups hold =>
    obtain ⟨r, hr, hloaded⟩ := exists_related_of_mem hgroups hg
    exact .inr ⟨e, r.id, g'.tasks, hpast _ hloaded.tasks, ht⟩
  | built tl bid htl hbid hnew hlength hids hfresh => exact .inl ((hfresh g' hg).tasks t ht).1

theorem Claims.once_step (h : Claims D s) {v' x' : Nat} {sid' : SessionID}
    (hclaim : D.add tid ⟨op, (handle cfg op ch s).1⟩ v ⟨.claimTask x id sid, .ok true⟩)
    (hclaim' : D.add tid ⟨op, (handle cfg op ch s).1⟩ v' ⟨.claimTask x' id sid', .ok true⟩) :
    v = v' ∧ x = x' ∧ sid = sid' := by
  -- A claim that is granted now finds a pending row, so none was granted before.
  have hfirst : ∀ {w w' y y' : Nat} {sid₁ sid₂ : SessionID},
      D w ⟨.claimTask y id sid₁, .ok true⟩ →
      ¬(w' = tid ∧ (⟨.claimTask y' id sid₂, .ok true⟩ : Event) =
        ⟨op, (handle cfg op ch s).1⟩) := by
    rintro w w' y y' sid₁ sid₂ hold ⟨-, heq⟩
    have hsame : Op.claimTask y' id sid₂ = op := congrArg Ev.op heq
    subst hsame
    obtain ⟨row, hrow, hid, hstatus, -⟩ := h.held hold
    exact not_granted_of_taken hrow hid hstatus (eq_of_heq (Ev.mk.inj heq).2).symm
  rcases hclaim with hold | hnew
  · rcases hclaim' with hold' | hnew'
    · exact h.once hold hold'
    · exact absurd hnew' (hfirst hold)
  · rcases hclaim' with hold' | hnew'
    · exact absurd hnew (hfirst hold')
    · have hsame : Op.claimTask x id sid = .claimTask x' id sid' :=
        congrArg Ev.op (hnew.2.trans hnew'.2.symm)
      obtain ⟨hx, -, hsid⟩ := Op.claimTask.inj hsame
      exact ⟨hnew.1.trans hnew'.1.symm, hx, hsid⟩

theorem Claims.loaded_step (h : Claims D s)
    (hstep : StepOf cfg D s.skeleton tid call hist op (handle cfg op ch s).1)
    (htraced : Traced call ⟨op, (handle cfg op ch s).1⟩ hist)
    (hop : sparesClaims op ch hist s = true) {e : Nat}
    {gid : GroupID} {tasks : List Task}
    (hfind : D.add tid ⟨op, (handle cfg op ch s).1⟩ e ⟨.findTasks x gid, .ok tasks⟩)
    (ht : t ∈ tasks) (hstatus : t.status ≠ .pending) :
    ∃ row ∈ (handle cfg op ch s).2.db.tasks.rows, row.id = t.id ∧ row.status ≠ .pending := by
  rcases hfind with hold | ⟨-, heq⟩
  · obtain ⟨row, hrow, hid, hrow'⟩ := h.loaded hold t ht hstatus
    obtain ⟨r, hr, hrid, hr'⟩ := h.exists_taken_handle hstep htraced hop hrow hrow'
    exact ⟨r, hr, hrid.trans hid, hr'⟩
  · have hsame : Op.findTasks x gid = op := congrArg Ev.op heq
    subst hsame
    exact ⟨t, findTasks_answer (eq_of_heq (Ev.mk.inj heq).2).symm ht, rfl, hstatus⟩

theorem Claims.untried_step (h : Claims D s) (hnum : Numbered D s.skeleton)
    (hstep : StepOf cfg D s.skeleton tid call hist op (handle cfg op ch s).1)
    (hclaim : D.add tid ⟨op, (handle cfg op ch s).1⟩ v ⟨.claimTask x t.id sid, .ok true⟩)
    (hbegin : D.add tid ⟨op, (handle cfg op ch s).1⟩ v
      ⟨.beginGoroutine k, some (.task x team c p g t)⟩) : t.status = .pending := by
  rcases hclaim with hclaim | ⟨rfl, heq⟩
  · rcases hbegin with hbegin | ⟨rfl, heq⟩
    · exact h.untried hclaim hbegin
    · -- A goroutine begins before it claims.
      have hsame : Op.beginGoroutine k = op := congrArg Ev.op heq
      subst hsame
      have hmem := (hstep.past _).mp hclaim
      rw [hstep.justified.reason.2] at hmem
      cases hmem
  · have hsame : Op.claimTask x t.id sid = op := congrArg Ev.op heq
    subst hsame
    have hbegin := did_of_add hbegin (by simp)
    rcases origin_of_task hnum hstep.explained hbegin with hfresh | ⟨e, gid, tasks, hfind, ht⟩
    · exact hfresh
    · -- Had it been loaded in another status, the claim would not have been granted.
      by_contra hstatus
      obtain ⟨row, hrow, hid, hrow'⟩ := h.loaded hfind t ht hstatus
      exact not_granted_of_taken hrow hid hrow' (eq_of_heq (Ev.mk.inj heq).2).symm

/-- A save of a task that is claimed is made by the goroutine with the claim, and records
its attempt. -/
theorem Claims.recorded_of_save (h : Claims D s) {y : Nat} {t' : Task}
    (hclaim : D v ⟨.claimTask x id sid, .ok true⟩) (hid : t'.id = id)
    (hstep : StepOf cfg D s.skeleton tid call hist (.saveTask y t')
      (handle cfg (.saveTask y t') ch s).1)
    (htraced : Traced call ⟨.saveTask y t', (handle cfg (.saveTask y t') ch s).1⟩ hist)
    (hstatus : t'.status ≠ .pending) :
    v = tid ∧ ∃ k team c p g t, D v ⟨.beginGoroutine k, some (.task x team c p g t)⟩ ∧
      t.id = id ∧ t.attempts < t'.attempts := by
  rcases hstep.justified.reason with ⟨-, -, hpending, -⟩ | ⟨t, hclaimed, hsame, -⟩
  · exact absurd hpending hstatus
  · obtain ⟨k, team, sid', ⟨c, p, g, hbegin⟩, -, hgranted⟩ := hclaimed
    have hgranted := (hstep.past _).mpr hgranted
    have ht : t.id = id := hsame.symm.trans hid
    obtain ⟨rfl, rfl, rfl⟩ := h.once hclaim (ht ▸ hgranted)
    have hpending := h.untried hgranted ((hstep.past _).mpr hbegin)
    have hmore := ((htraced k team c p g t hbegin).1 hpending).resolve_left fun hsame =>
      hstatus hsame.1
    exact ⟨rfl, k, team, c, p, g, t, (hstep.past _).mpr hbegin, ht, hmore.2⟩

theorem Claims.held_step (h : Claims D s)
    (hstep : StepOf cfg D s.skeleton tid call hist op (handle cfg op ch s).1)
    (htraced : Traced call ⟨op, (handle cfg op ch s).1⟩ hist)
    (hop : sparesClaims op ch hist s = true)
    (hclaim : D.add tid ⟨op, (handle cfg op ch s).1⟩ v ⟨.claimTask x id sid, .ok true⟩) :
    ∃ row ∈ (handle cfg op ch s).2.db.tasks.rows, row.id = id ∧ row.status ≠ .pending ∧
      (row.ClaimedBySession sid ∨ ∃ k team c p g t,
        D.add tid ⟨op, (handle cfg op ch s).1⟩ v
          ⟨.beginGoroutine k, some (.task x team c p g t)⟩ ∧ t.id = id ∧
          t.attempts < row.attempts ∧ RecordedBy (D.add tid ⟨op, (handle cfg op ch s).1⟩) v) := by
  rcases hclaim with hold | ⟨rfl, heq⟩
  · obtain ⟨row, hrow, hid, hstatus, hheld⟩ := h.held hold
    obtain ⟨r, hmem, hrid, rfl | ⟨y, t', rfl, hreached, ht, hsaved, hattempts⟩ | ⟨hpending, -⟩⟩ :=
      exists_task_handle cfg op ch hrow
    · refine ⟨r, hmem, hid, hstatus, hheld.imp_right ?_⟩
      rintro ⟨k, team, c, p, g, t, hbegin, hsame, hmore, hrecorded⟩
      exact ⟨k, team, c, p, g, t, .inl hbegin, hsame, hmore, hrecorded.add _ _⟩
    · have hstatus' := h.status_of_save hstep htraced hop hreached hrow ht hstatus
      obtain ⟨rfl, k, team, c, p, g, t, hbegin, hsame, hmore⟩ :=
        h.recorded_of_save hold (ht.symm.trans hid) hstep htraced hstatus'
      refine ⟨r, hmem, hrid.trans hid, hsaved ▸ hstatus', .inr ?_⟩
      exact ⟨k, team, c, p, g, t, .inl hbegin, hsame, hattempts ▸ hmore, y, t', _, .inr ⟨rfl, rfl⟩,
        hstatus'⟩
    · exact absurd hpending hstatus
  · have hsame : Op.claimTask x id sid = op := congrArg Ev.op heq
    subst hsame
    obtain ⟨r, hmem, hid, hstatus, hby⟩ :=
      exists_claimed_of_claim (eq_of_heq (Ev.mk.inj heq).2).symm
    exact ⟨r, hmem, hid, by simp [hstatus], .inl ⟨hstatus, hby⟩⟩

/-- An agent for a task is dispatched with the claim, so that its row is claimed or counts an
attempt that was saved. -/
theorem Claims.spared_step (h : Claims D s)
    (hstep : StepOf cfg D s.skeleton tid call hist op (handle cfg op ch s).1)
    (hop : sparesClaims op ch hist s = true) {req : DispatchRequest}
    {answer : Except DispatchErr AgentResult}
    (hdispatch : D.add tid ⟨op, (handle cfg op ch s).1⟩ v ⟨.dispatch x req, answer⟩)
    (htarget : req.target = .implement id) (hsaves : savesEarly answer = true) :
    RecordedBy (D.add tid ⟨op, (handle cfg op ch s).1⟩) v := by
  rcases hdispatch with hold | ⟨rfl, heq⟩
  · exact (h.spared hold htarget hsaves).add _ _
  · have hsame : Op.dispatch x req = op := congrArg Ev.op heq
    subst hsame
    have hanswer : answer = ch.dispatch := eq_of_heq (Ev.mk.inj heq).2
    obtain ⟨task, ⟨k, team, sid, -, -, hclaim⟩, rfl⟩ := hstep.justified.reason id htarget
    obtain ⟨row, hrow, hid, -, ⟨hclaimed, -⟩ | ⟨k, team, c, p, g, t, -, -, -, hrecorded⟩⟩ :=
      h.held ((hstep.past _).mpr hclaim)
    · simp only [sparesClaims, htarget, ← hanswer, hsaves, Bool.not_true, Bool.false_or,
        List.all_eq_true, decide_eq_true_eq] at hop
      exact absurd hclaimed (hop row hrow hid)
    · exact hrecorded.add _ _

theorem Claims.step (h : Claims D s) (hnum : Numbered D s.skeleton)
    (hstep : StepOf cfg D s.skeleton tid call hist op (handle cfg op ch s).1)
    (htraced : Traced call ⟨op, (handle cfg op ch s).1⟩ hist)
    (hop : sparesClaims op ch hist s = true) :
    Claims (D.add tid ⟨op, (handle cfg op ch s).1⟩) (handle cfg op ch s).2 where
  once := h.once_step
  loaded hfind _ ht hstatus := h.loaded_step hstep htraced hop hfind ht hstatus
  untried := h.untried_step hnum hstep
  held := h.held_step hstep htraced hop
  spared := h.spared_step hstep hop

end Step

theorem reach_claims (hidle : s.Idle) {moves : List ApplyMove}
    (hok : RunMeets cfg s sparesClaims moves = true) :
    Pool.LogInv Op.Answers (fun call h => Good cfg call h ∧ TracedHead call h)
      (fun D L s => Disciplined D L s.skeleton ∧ Claims D s) (reach cfg s moves) := by
  refine reach_induction_with hidle sparesClaims (main_traced cfg)
    (fun _ _ _ _ _ hinv => hinv) (fun _ _ _ _ _ hinv => hinv)
    (fun _ _ _ hinv => ⟨hinv.once, hinv.loaded, hinv.untried, hinv.held, hinv.spared⟩)
    ?step ⟨False.elim, False.elim, False.elim, False.elim, False.elim⟩ moves hok
  intro D L tid ch call op hist s _ hdisc hstep htraced _ hop hinv
  exact hinv.step hdisc.numbered hstep htraced hop

/-! ## Every run -/

theorem granted_of_dispatching {t : ApplyThread}
    (hkeeps : Pool.Keeps Op.Answers (fun call h => Good cfg call h ∧ TracedHead call h) t)
    (hdispatching : Dispatching t x id) :
    ∃ sid, ⟨.claimTask x id sid, .ok true⟩ ∈ t.hist := by
  obtain ⟨req, next, hprog, htarget⟩ := hdispatching
  obtain ⟨hjust, -⟩ := hkeeps.upcoming hprog (.error (.other "")) trivial
  obtain ⟨task, ⟨k, team, sid, -, -, hclaim⟩, rfl⟩ := hjust.reason id htarget
  exact ⟨sid, hclaim⟩

/-- In every run in which no agent returns a valid envelope, or is without quota, while the row of
its task is still claimed, claims exclude each other and are kept until the attempt is
recorded. -/
theorem claimsHold_of_sparesClaims (cfg : RunConfig) (s : State) (hidle : s.Idle)
    (moves : List ApplyMove) (hok : RunMeets cfg s sparesClaims moves = true) :
    ClaimsHold (reach cfg s moves) := by
  have hinv := reach_claims hidle hok
  obtain ⟨-, hclaims⟩ := hinv.holds
  refine ⟨?_, ?_⟩
  · intro i j ti tj x y id hi hj hdi hdj
    obtain ⟨sid, hclaim⟩ :=
      granted_of_dispatching (hinv.keeps ti (List.mem_of_getElem? hi)) hdi
    obtain ⟨sid', hclaim'⟩ :=
      granted_of_dispatching (hinv.keeps tj (List.mem_of_getElem? hj)) hdj
    exact (hclaims.once ⟨ti, hi, hclaim⟩ ⟨tj, hj, hclaim'⟩).1
  · intro t ht x id sid hclaim
    obtain ⟨v, hv⟩ := List.mem_iff_getElem?.mp ht
    obtain ⟨row, hrow, hid, -, hheld⟩ := hclaims.held ⟨t, hv, hclaim⟩
    refine ⟨row, hrow, hid, hheld.imp_right ?_⟩
    rintro ⟨k, team, c, p, g, t₀, hbegin, hsame, hmore, -⟩
    exact ⟨k, team, c, p, g, t₀, (Pool.did_iff_mem hv _).mp hbegin, hsame.trans hid.symm, hmore⟩

/-! ## Two Executes on one phase -/

def numberedChoice (n : Nat) : Choice :=
  { sampleChoice [sampleEntry "web" ["login"]] with id := .ok n }

def blockedChoice (n : Nat) : Choice :=
  { numberedChoice n with
    dispatch := .ok { envelopeRaw := .json {
      schemaVersion := schemaVersionV1
      phase := PhaseType.apply.toString
      changeName := "add-login"
      project := "web"
      status := .blocked
      confidence := 1
      executiveSummary := "" } } }

/-- Two `Execute`s on one board, each with its team-lead and the goroutine of the task. -/
def bothStarted : List ApplyMove :=
  sampleExecute :: steps 0 20 (numberedChoice 7) ++
    sampleExecute :: steps 1 20 (numberedChoice 8) ++
    .start (.goroutine 0) :: steps 2 12 (numberedChoice 2) ++
    .start (.goroutine 1) :: steps 3 12 (numberedChoice 3) ++
    [.start (.goroutine 2), .start (.goroutine 3)]

/-- The first agent cannot be dispatched at once, the second `Execute` does not get the
claim, and the second attempt succeeds. -/
def retried : List ApplyMove :=
  bothStarted ++ steps 4 13 { numberedChoice 4 with dispatch := .error (.other "") } ++
    steps 5 20 (numberedChoice 5) ++ steps 4 30 (numberedChoice 4)

theorem claimsHold_retried :
    State.Idle {} ∧ RunMeets sampleConfig {} sparesClaims retried = true ∧
      (reach sampleConfig {} retried).state.db.tasks.rows.map
        (fun t => (t.attempts, t.status)) = [(2, .done)] ∧
      ClaimsHold (reach sampleConfig {} retried) := by
  have hidle : State.Idle {} := ⟨rfl, rfl, rfl⟩
  have hmeets : RunMeets sampleConfig {} sparesClaims retried = true := by decide +kernel
  exact ⟨hidle, hmeets, by decide +kernel,
    claimsHold_of_sparesClaims sampleConfig {} hidle retried hmeets⟩

/-- The envelope of the first agent has been saved, its attempt is not recorded yet. -/
def savedAsPending : List ApplyMove :=
  bothStarted ++ steps 4 17 (blockedChoice 4)

/-- The second `Execute` claims the task, and the first one makes its second attempt. -/
def dispatchedTwice : List ApplyMove :=
  savedAsPending ++ steps 5 12 (numberedChoice 5) ++ steps 4 9 (blockedChoice 4)

def grantedTask : Event → Option TaskID
  | ⟨.claimTask _ id _, .ok true⟩ => some id
  | _ => none

def dispatchedTask (t : ApplyThread) : Option (Nat × TaskID) :=
  match t.prog with
  | .call (.dispatch x req) _ =>
    match req.target with
    | .implement id => some (x, id)
    | .buildRepair _ => none
  | _ => none

theorem dispatching_of_dispatchedTask {t : ApplyThread} (h : dispatchedTask t = some (x, id)) :
    Dispatching t x id := by
  unfold dispatchedTask at h
  split at h
  · next y req next hprog =>
    split at h
    · next id' htarget =>
      cases h
      exact ⟨req, next, hprog, htarget⟩
    · cases h
  · cases h

theorem not_claimsHold_of_untried {π : ApplyPool}
    (hgranted : (π.threads.any fun t => t.hist.any fun ev => (grantedTask ev).isSome) = true)
    (hrows : (π.state.db.tasks.rows.all fun row =>
      decide (row.status = .pending) && decide (row.attempts = 0)) = true) : ¬ClaimsHold π := by
  intro hholds
  obtain ⟨t, ht, hany⟩ := List.any_eq_true.mp hgranted
  obtain ⟨ev, hmem, hsome⟩ := List.any_eq_true.mp hany
  have hclaim : ∃ x id sid, ev = ⟨.claimTask x id sid, .ok true⟩ := by
    unfold grantedTask at hsome
    split at hsome
    · exact ⟨_, _, _, rfl⟩
    · cases hsome
  obtain ⟨x, id, sid, rfl⟩ := hclaim
  obtain ⟨row, hrow, -, hheld⟩ := hholds.held t ht x id sid hmem
  obtain ⟨hstatus, hattempts⟩ := Bool.and_eq_true_iff.mp (List.all_eq_true.mp hrows row hrow)
  rcases hheld with ⟨hclaimed, -⟩ | ⟨k, team, c, p, g, t₀, -, -, hmore⟩
  · rw [of_decide_eq_true hstatus] at hclaimed
    cases hclaimed
  · rw [of_decide_eq_true hattempts] at hmore
    cases hmore

/-- The save of the first agent's envelope takes the claim back before the attempt is
recorded, and then two `Execute`s dispatch an agent for the task at the same time. -/
theorem claim_taken_back :
    ¬ClaimsHold (reach sampleConfig {} savedAsPending) ∧
      ∃ ti tj, (reach sampleConfig {} dispatchedTwice).threads[4]? = some ti ∧
        (reach sampleConfig {} dispatchedTwice).threads[5]? = some tj ∧
        Dispatching ti 0 ⟨7⟩ ∧ Dispatching tj 1 ⟨7⟩ ∧
        ¬ClaimsHold (reach sampleConfig {} dispatchedTwice) := by
  refine ⟨not_claimsHold_of_untried (by decide +kernel) (by decide +kernel), ?_⟩
  have hfirst : (reach sampleConfig {} dispatchedTwice).threads[4]?.bind dispatchedTask =
      some (0, ⟨7⟩) := by decide +kernel
  have hsecond : (reach sampleConfig {} dispatchedTwice).threads[5]?.bind dispatchedTask =
      some (1, ⟨7⟩) := by decide +kernel
  obtain ⟨ti, hi, hdi⟩ := Option.bind_eq_some_iff.mp hfirst
  obtain ⟨tj, hj, hdj⟩ := Option.bind_eq_some_iff.mp hsecond
  have hti := dispatching_of_dispatchedTask hdi
  have htj := dispatching_of_dispatchedTask hdj
  refine ⟨ti, tj, hi, hj, hti, htj, fun hholds => ?_⟩
  exact absurd (hholds.exclusive 4 5 ti tj _ _ _ hi hj hti htj) (by decide)

end SophiaOrchestrator.Apply
