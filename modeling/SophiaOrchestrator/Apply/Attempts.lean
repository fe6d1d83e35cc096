import SophiaOrchestrator.Apply.Goroutines
import SophiaOrchestrator.Apply.Changes

/-!
# The attempts at a task

Attempts are counted in the memory of a goroutine and recorded separately, and the claim
of a pending row is what admits a goroutine to its task.  As long as the `Execute`s follow
one another, a row that was not pending when the board was loaded is not pending while
that `Execute` runs, so only a task without an attempt is ever worked on.
-/

namespace SophiaOrchestrator.Apply

open Effects Prog

variable {x v k team e i : Nat} {p : Phase} {c : Change} {g : Group} {t : Task} {gid : GroupID}
  {id : TaskID} {sid : SessionID} {h : History} {tasks : List Task}

/-- Iron Law 5 for tasks, for the recorded tasks and the dispatches made so far. -/
structure IronLaw5 (π : ApplyPool) : Prop where
  attempts : ∀ r ∈ π.state.db.tasks.rows, r.attempts ≤ 3
  blocked : ∀ r ∈ π.state.db.tasks.rows, r.attempts = 3 → r.status ≠ .done → r.status = .blocked
  dispatch : ∀ t ∈ π.threads, ∀ x req answer id, ⟨.dispatch x req, answer⟩ ∈ t.hist →
    req.target = .implement id → ∃ k team task, RunsTask t.hist k x team task ∧ task.id = id ∧
      task.status ≠ .blocked ∧ task.status ≠ .done

/-- An `Execute` starts only when none is running. -/
def sequentialExecutes : StepCondition
  | .newExec _, _, _, s => s.running.isEmpty
  | _, _, _, _ => true

/-! ## Who is running -/

theorem mem_running_step {sk : Skeleton} {op : Op} (h : x ∈ (sk.step op).running) :
    x ∈ sk.running ∨ ∃ threshold, op = .newExec threshold ∧ x = sk.nextExec := by
  cases op
  case newExec threshold =>
    rcases List.mem_cons.mp h with rfl | hold
    · exact .inr ⟨threshold, rfl, rfl⟩
    · exact .inl hold
  case go gr => cases gr <;> exact .inl h
  case returned y res => exact .inl (List.mem_of_mem_filter h)
  all_goals exact .inl h

section Running

variable {cfg : RunConfig} {D : ApplyLog} {L : Nat → Prop} {sk : Skeleton} {tid : Nat}
  {call : Call} {hist : History} {op : Op} {answer : op.Ret}

theorem running_of_execute (hdisc : Disciplined D L sk) (hlive : L tid)
    (hstep : StepOf cfg D sk tid call hist op answer) (hstage : op.stage ≠ 0) (hlt : op.stage < 8)
    (hexec : IsExecute call hist x p) :
    x ∈ sk.running := by
  obtain ⟨-, threshold, hmem⟩ := hexec
  refine hdisc.supervised.execute hlive ((hstep.past _).mpr hmem) fun res hret => ?_
  have hle := hstep.justified.ordered.stage_le hstage ((hstep.past _).mp hret)
  exact absurd (lt_of_le_of_lt hle hlt) (lt_irrefl 8)

theorem running_of_unfinished (hdisc : Disciplined D L sk) (hlive : L v) (hopen : ¬Finished D v)
    (hbegin : D v ⟨.beginGoroutine k, some (.task x team c p g t)⟩) : x ∈ sk.running := by
  have hbegun := hdisc.supervised.goroutine hlive hbegin hopen
  have hposted := (hdisc.numbered.begun hbegin).2.1.symm
  obtain ⟨hteam, i, c', p', g', hlead⟩ := hdisc.supervised.task (.inr hbegun) hposted
  exact hdisc.supervised.group (.inr hteam) hlead

theorem running_of_task (hdisc : Disciplined D L sk) (hlive : L tid)
    (hstep : StepOf cfg D sk tid call hist op answer) (hstage : op.stage ≠ 0) (hlt : op.stage < 8)
    (hruns : RunsTask hist k x team t) :
    x ∈ sk.running := by
  obtain ⟨c, p, g, hmem⟩ := hruns
  exact running_of_unfinished hdisc hlive (not_finished_of_stage hstep hstage hlt)
    ((hstep.past _).mpr hmem)

end Running

/-! ## Where the task of a goroutine comes from -/

section Origin

variable {cfg : RunConfig} {D : ApplyLog} {sk : Skeleton}

theorem started_of_task (hnum : Numbered D sk) (hexpl : Pool.Explained (Good cfg) D)
    (hbegin : D v ⟨.beginGoroutine k, some (.task x team c p g t)⟩) :
    ∃ e i c p g k, D e ⟨.go (.group x i c p g), k⟩ ∧ t ∈ g.tasks := by
  obtain ⟨u, hgo⟩ := hnum.starter (hnum.begun hbegin).2.1.symm
  obtain ⟨i, c', p', g', hlead, -, ht⟩ := teamLead_of_go hexpl hgo
  obtain ⟨e, hstart⟩ := hnum.starter (hnum.begun hlead).2.1.symm
  exact ⟨e, i, c', p', g', team, hstart, ht⟩

theorem executor_of_findTasks (hexpl : Pool.Explained (Good cfg) D)
    {answer : Except RepoErr (List Task)} (h : D e ⟨.findTasks x gid, answer⟩) :
    ∃ threshold, D e ⟨.newExec threshold, x⟩ := by
  obtain ⟨call, past, hjust, hpast⟩ := exists_justified hexpl h
  obtain ⟨⟨p, -, threshold, hmem⟩, -⟩ := hjust.reason
  exact ⟨threshold, hpast _ hmem⟩

theorem task_of_claim (hexpl : Pool.Explained (Good cfg) D) {answer : Except RepoErr Bool}
    (h : D v ⟨.claimTask x id sid, answer⟩) :
    ∃ k team c p g t, D v ⟨.beginGoroutine k, some (.task x team c p g t)⟩ := by
  obtain ⟨call, past, hjust, hpast⟩ := exists_justified hexpl h
  obtain ⟨k, team, t, ⟨c, p, g, hmem⟩, -⟩ := hjust.reason
  exact ⟨k, team, c, p, g, t, hpast _ hmem⟩

theorem exists_newBoardID (hnew : (view h).newBoard = true) :
    ∃ answer, ⟨.newBoardID, answer⟩ ∈ h := by
  induction h with
  | nil => cases hnew
  | cons ev past ih =>
    obtain ⟨op, answer⟩ := ev
    by_cases hop : op = .newBoardID
    · subst hop
      exact ⟨answer, List.mem_cons_self⟩
    · have hold : (view past).newBoard = true := by
        cases op
        case newBoardID => exact absurd rfl hop
        all_goals exact hnew
      obtain ⟨answer', hmem⟩ := ih hold
      exact ⟨answer', List.mem_cons_of_mem _ hmem⟩

theorem newBoard_of_mem {answer : Except String BoardID} (hmem : ⟨.newBoardID, answer⟩ ∈ h) :
    (view h).newBoard = true := by
  induction h with
  | nil => cases hmem
  | cons ev past ih =>
    rcases List.mem_cons.mp hmem with rfl | hpast
    · rfl
    · simp only [view_cons, View.after]
      split
      · rfl
      · exact ih hpast

end Origin

/-! ## The invariant -/

def KeepsBoard (D : ApplyLog) (e : Nat) : Prop :=
  ∀ answer, ¬D e ⟨.newBoardID, answer⟩

/-- What sequential `Execute`s keep of the recorded tasks, the loaded tasks and the tasks
that are worked on. -/
structure Sequential (D : ApplyLog) (s : State) : Prop where
  alone : ∀ {x y}, x ∈ s.running → y ∈ s.running → x = y
  row : ∀ r ∈ s.db.tasks.rows, SoundTask r
  loaded : ∀ {e x gid tasks}, D e ⟨.findTasks x gid, .ok tasks⟩ → ∀ t ∈ tasks, SoundTask t
  payload : ∀ {e x i c p g k}, D e ⟨.go (.group x i c p g), k⟩ → ∀ t ∈ g.tasks,
    (t.status = .pending ∧ t.attempts = 0) ∨
      (KeepsBoard D e ∧ ∃ gid tasks, D e ⟨.findTasks x gid, .ok tasks⟩ ∧ t ∈ tasks)
  taken : ∀ {e x gid tasks}, D e ⟨.findTasks x gid, .ok tasks⟩ → KeepsBoard D e →
    x ∈ s.running → ∀ t ∈ tasks, t.status ≠ .pending →
    ∀ r ∈ s.db.tasks.rows, r.id = t.id → r.status ≠ .pending
  claimed : ∀ {v e x id sid gid tasks}, D v ⟨.claimTask x id sid, .ok true⟩ →
    D e ⟨.findTasks x gid, .ok tasks⟩ → KeepsBoard D e → ∀ t ∈ tasks, t.id = id →
    t.status = .pending

section Step

variable {cfg : RunConfig} {D : ApplyLog} {L : Nat → Prop} {tid : Nat} {ch : Choice} {call : Call}
  {op : Op} {hist : History} {s : State}

theorem SoundTask.of_eq {t' : Task} (h : SoundTask t) (hstatus : t'.status = t.status)
    (hattempts : t'.attempts = t.attempts) : SoundTask t' :=
  ⟨hattempts ▸ h.attempts, fun hlast => hstatus ▸ h.last (hattempts ▸ hlast),
    fun hpending => hattempts ▸ h.fresh (hstatus ▸ hpending)⟩

theorem soundTask_of_untried (hattempts : t.attempts = 0) : SoundTask t := by
  refine ⟨?_, fun hlast => ?_, fun _ => hattempts⟩
  · rw [hattempts]
    decide
  · rw [hattempts] at hlast
    cases hlast

/-- A goroutine that holds the claim of its task was given it without an attempt. -/
theorem Sequential.untried (h : Sequential D s) (hnum : Numbered D s.skeleton)
    (hexpl : Pool.Explained (Good cfg) D)
    (hbegin : D v ⟨.beginGoroutine k, some (.task x team c p g t)⟩)
    (hclaim : D v ⟨.claimTask x t.id sid, .ok true⟩) :
    t.status = .pending ∧ t.attempts = 0 := by
  obtain ⟨e, i, c', p', g', k', hgo, ht⟩ := started_of_task hnum hexpl hbegin
  rcases h.payload hgo t ht with hfresh | ⟨hkeeps, gid, tasks, hfind, hmem⟩
  · exact hfresh
  · have hpending := h.claimed hclaim hfind hkeeps t hmem rfl
    exact ⟨hpending, (h.loaded hfind t hmem).fresh hpending⟩

theorem Sequential.untried_of_claimed (h : Sequential D s) (hnum : Numbered D s.skeleton)
    {answer : op.Ret} (hstep : StepOf cfg D s.skeleton tid call hist op answer)
    (hclaimed : Claimed hist x t) : t.status = .pending ∧ t.attempts = 0 := by
  obtain ⟨k, team, sid, ⟨c, p, g, hbegin⟩, -, hclaim⟩ := hclaimed
  exact h.untried hnum hstep.explained ((hstep.past _).mpr hbegin) ((hstep.past _).mpr hclaim)

theorem Sequential.sound_of_saveTask (h : Sequential D s) (hnum : Numbered D s.skeleton)
    {answer : Except RepoErr Unit}
    (hstep : StepOf cfg D s.skeleton tid call hist (.saveTask x t) answer) : SoundTask t := by
  rcases hstep.justified.reason with ⟨-, -, -, hattempts⟩ | ⟨t₀, hclaimed, -, hevolves⟩
  · exact soundTask_of_untried hattempts
  · obtain ⟨hpending, hattempts⟩ := h.untried_of_claimed hnum hstep hclaimed
    exact hevolves hpending hattempts

theorem Sequential.sound_step (h : Sequential D s) (hnum : Numbered D s.skeleton)
    (hstep : StepOf cfg D s.skeleton tid call hist op (handle cfg op ch s).1) :
    ∀ r ∈ (handle cfg op ch s).2.db.tasks.rows, SoundTask r := by
  intro r hr
  rcases mem_tasks_handle hr with hold | ⟨x, t, rfl, -, hstatus, hattempts⟩ |
    ⟨x, sid, rfl, old, hold, -, hpending, -, hattempts⟩
  · exact h.row r hold
  · exact (h.sound_of_saveTask hnum hstep).of_eq hstatus hattempts
  · exact soundTask_of_untried (hattempts.trans ((h.row old hold).fresh hpending))

/-- A task that was loaded as no longer pending does not become pending while its
`Execute` runs. -/
theorem Sequential.taken_step (h : Sequential D s) (hdisc : Disciplined D L s.skeleton)
    (hlive : L tid) (hstep : StepOf cfg D s.skeleton tid call hist op (handle cfg op ch s).1)
    (hfind : D e ⟨.findTasks x gid, .ok tasks⟩) (hkeeps : KeepsBoard D e) (hx : x ∈ s.running)
    (ht : t ∈ tasks) (hstatus : t.status ≠ .pending) {r : Task}
    (hr : r ∈ (handle cfg op ch s).2.db.tasks.rows) (hid : r.id = t.id) :
    r.status ≠ .pending := by
  rcases mem_tasks_handle hr with hold | ⟨y, t', rfl, hsaved, -⟩ |
      ⟨y, sid, rfl, old, -, -, -, hr, -⟩
  · exact h.taken hfind hkeeps hx t ht hstatus r hold hid
  · exfalso
    rcases hstep.justified.reason with ⟨⟨p, hexec⟩, hnew, -⟩ | ⟨t₀, hclaimed, hid₀, -⟩
    · -- Another board is begun by the same `Execute` only.
      have hy := running_of_execute hdisc hlive hstep (show 3 ≠ 0 by decide)
        (show 3 < 8 by decide) hexec
      obtain rfl := h.alone hx hy
      obtain ⟨threshold, hexecutor⟩ := executor_of_findTasks hstep.explained hfind
      obtain ⟨-, threshold', hmem⟩ := hexec
      obtain rfl := hdisc.numbered.executor hexecutor ((hstep.past _).mpr hmem)
      obtain ⟨answer, hbegun⟩ := exists_newBoardID hnew
      exact hkeeps answer ((hstep.past _).mpr hbegun)
    · -- The goroutine of a task saves the task that it has claimed.
      obtain ⟨k, team, sid, hruns, -, hclaim⟩ := hclaimed
      have hy := running_of_task hdisc hlive hstep (show 3 ≠ 0 by decide)
        (show 3 < 8 by decide) hruns
      obtain rfl := h.alone hx hy
      have hsame : t.id = t₀.id := by rw [← hid, hsaved, hid₀]
      exact hstatus (h.claimed ((hstep.past _).mpr hclaim) hfind hkeeps t ht hsame)
  · rw [hr]
    decide

theorem KeepsBoard.of_add {ev : Event} (h : KeepsBoard (D.add tid ev) e) :
    KeepsBoard D e :=
  fun answer hnew => h answer (.inl hnew)

theorem KeepsBoard.add_of_go {answer : op.Ret} (hkeeps : KeepsBoard D tid)
    (hstep : StepOf cfg D s.skeleton tid call hist op answer)
    (hgo : D tid ⟨.go (.group x i c p g), k⟩) :
    KeepsBoard (D.add tid ⟨op, answer⟩) tid := by
  rintro answer' (hold | ⟨-, heq⟩)
  · exact hkeeps answer' hold
  · have hop : Op.newBoardID = op := congrArg Ev.op heq
    subst hop
    have hle := hstep.justified.ordered.stage_le (show 3 ≠ 0 by decide) ((hstep.past _).mp hgo)
    exact absurd hle (show ¬4 ≤ 3 by decide)

theorem Sequential.payload_step (h : Sequential D s) {answer : op.Ret}
    (hstep : StepOf cfg D s.skeleton tid call hist op answer)
    (hgo : D.add tid ⟨op, answer⟩ e ⟨.go (.group x i c p g), k⟩) (ht : t ∈ g.tasks) :
    (t.status = .pending ∧ t.attempts = 0) ∨
      (KeepsBoard (D.add tid ⟨op, answer⟩) e ∧ ∃ gid tasks,
        D.add tid ⟨op, answer⟩ e ⟨.findTasks x gid, .ok tasks⟩ ∧ t ∈ tasks) := by
  rcases hgo with hold | ⟨rfl, heq⟩
  · refine (h.payload hold t ht).imp_right fun ⟨hkeeps, gid, tasks, hfind, hmem⟩ =>
      ⟨?_, gid, tasks, .inl hfind, hmem⟩
    by_cases he : e = tid
    · subst he
      exact hkeeps.add_of_go hstep hold
    · rintro answer' (hnew | ⟨rfl, -⟩)
      · exact hkeeps answer' hnew
      · exact he rfl
  · have hop : Op.go (.group x i c p g) = op := congrArg Ev.op heq
    subst hop
    obtain ⟨-, -, -, groups, hof, hat, -⟩ := hstep.justified.reason
    have hg := List.mem_of_getElem? hat
    cases hof with
    | loaded row rows past hrow hrows hknown hgroups hold =>
      obtain ⟨r, hr, hloaded⟩ := exists_related_of_mem hgroups hg
      refine .inr ⟨?_, r.id, g.tasks, .inl ((hstep.past _).mpr hloaded.tasks), ht⟩
      intro answer' hnew
      have hmem := newBoard_of_mem ((hstep.past _).mp (did_of_add hnew (by simp)))
      rw [hold] at hmem
      cases hmem
    | built tl bid htl hbid hnew hlength hids hfresh => exact .inl ((hfresh g hg).tasks t ht)

theorem Sequential.claimed_step (h : Sequential D s) (hdisc : Disciplined D L s.skeleton)
    (hlive : L tid) (hstep : StepOf cfg D s.skeleton tid call hist op (handle cfg op ch s).1)
    (hclaim : D.add tid ⟨op, (handle cfg op ch s).1⟩ v ⟨.claimTask x id sid, .ok true⟩)
    (hfind : D.add tid ⟨op, (handle cfg op ch s).1⟩ e ⟨.findTasks x gid, .ok tasks⟩)
    (hkeeps : KeepsBoard D e) (ht : t ∈ tasks) (hid : t.id = id) :
    t.status = .pending := by
  rcases hclaim with hclaim | ⟨rfl, heq⟩
  · rcases hfind with hfind | ⟨rfl, heq⟩
    · exact h.claimed hclaim hfind hkeeps t ht hid
    · -- A board is not loaded after its groups were started.
      exfalso
      have hop : Op.findTasks x gid = op := congrArg Ev.op heq
      subst hop
      obtain ⟨k, team, c, p, g, t', hbegin⟩ := task_of_claim hstep.explained hclaim
      obtain ⟨e', i, c', p', g', k', hgo, -⟩ :=
        started_of_task hdisc.numbered hstep.explained hbegin
      obtain ⟨threshold, hnew⟩ := executor_of_go hstep.explained hgo
      obtain ⟨⟨q, -, threshold', hmem⟩, -⟩ := hstep.justified.reason
      obtain rfl := hdisc.numbered.executor hnew ((hstep.past _).mpr hmem)
      have hle := hstep.justified.ordered.stage_le (show 3 ≠ 0 by decide) ((hstep.past _).mp hgo)
      exact absurd hle (show ¬4 ≤ 3 by decide)
  · have hop : Op.claimTask x id sid = op := congrArg Ev.op heq
    subst hop
    have hfind := did_of_add hfind (by simp)
    obtain ⟨row, hrow, hrid, hpending⟩ :=
      exists_pending_of_claim (eq_of_heq (Ev.mk.inj heq).2).symm
    obtain ⟨k, team, t', hruns, -⟩ := hstep.justified.reason
    have hx := running_of_task hdisc hlive hstep (show 3 ≠ 0 by decide)
      (show 3 < 8 by decide) hruns
    by_contra hstatus
    exact h.taken hfind hkeeps hx t ht hstatus row hrow (hrid.trans hid.symm) hpending

theorem running_handle (hx : x ∈ (handle cfg op ch s).2.running) :
    x ∈ s.running ∨ ∃ threshold, op = .newExec threshold ∧ x = s.nextExec := by
  have hstep : (handle cfg op ch s).2.running = (s.skeleton.step op).running :=
    congrArg Skeleton.running (handle_skeleton cfg op ch s)
  rw [hstep] at hx
  exact mem_running_step hx

theorem Sequential.step (h : Sequential D s) (hdisc : Disciplined D L s.skeleton) (hlive : L tid)
    (hstep : StepOf cfg D s.skeleton tid call hist op (handle cfg op ch s).1)
    (hop : sequentialExecutes op ch hist s = true) :
    Sequential (D.add tid ⟨op, (handle cfg op ch s).1⟩) (handle cfg op ch s).2 where
  alone := by
    intro x y hx hy
    rcases running_handle hx with hxs | ⟨threshold, rfl, rfl⟩
    · rcases running_handle hy with hys | ⟨threshold, rfl, rfl⟩
      · exact h.alone hxs hys
      · rw [List.isEmpty_iff.mp hop] at hxs
        cases hxs
    · rcases running_handle hy with hys | ⟨threshold', -, rfl⟩
      · rw [List.isEmpty_iff.mp hop] at hys
        cases hys
      · rfl
  row := h.sound_step hdisc.numbered hstep
  loaded := by
    rintro e x gid tasks (hfind | ⟨-, heq⟩) t ht
    · exact h.loaded hfind t ht
    · have hsame : Op.findTasks x gid = op := congrArg Ev.op heq
      subst hsame
      exact h.row t (findTasks_answer (eq_of_heq (Ev.mk.inj heq).2).symm ht)
  payload := fun hgo _ ht => h.payload_step hstep hgo ht
  taken := by
    rintro e x gid tasks (hfind | ⟨-, heq⟩) hkeeps hx t ht hstatus r hr hid
    · have hlt : x < s.nextExec := by
        obtain ⟨threshold, hnew⟩ := executor_of_findTasks hstep.explained hfind
        exact hdisc.numbered.exec_lt hnew
      rcases running_handle hx with hx | ⟨threshold, rfl, rfl⟩
      · exact h.taken_step hdisc hlive hstep hfind hkeeps.of_add hx ht hstatus hr hid
      · exact absurd hlt (lt_irrefl _)
    · have hsame : Op.findTasks x gid = op := congrArg Ev.op heq
      subst hsame
      have ht' := findTasks_answer (eq_of_heq (Ev.mk.inj heq).2).symm ht
      obtain rfl := s.db.tasks.eq_of_target_eq hr ht' hid
      exact hstatus
  claimed := fun hclaim hfind hkeeps _ ht hid =>
    h.claimed_step hdisc hlive hstep hclaim hfind hkeeps.of_add ht hid

end Step

theorem Sequential.crash {D : ApplyLog} {s : State} (h : Sequential D s) :
    Sequential D s.crash where
  alone := fun hx => by cases hx
  row := h.row
  loaded := h.loaded
  payload := h.payload
  taken := fun _ _ hx => by cases hx
  claimed := h.claimed

theorem reach_sequential {cfg : RunConfig} {moves : List ApplyMove}
    (hok : RunMeets cfg {} sequentialExecutes moves = true) :
    Pool.LogInv Op.Answers (Good cfg) (fun D L s => Disciplined D L s.skeleton ∧ Sequential D s)
      (reach cfg {} moves) := by
  refine reach_induction ⟨rfl, rfl, rfl⟩ sequentialExecutes
    (fun _ _ _ _ _ hinv => hinv) (fun _ _ _ _ _ hinv => hinv)
    (fun _ _ _ hinv => hinv.crash) ?step ?init moves hok
  case step =>
    intro D L tid ch call op hist s hlive hdisc hstep _ hop hinv
    exact hinv.step hdisc hlive hstep hop
  case init =>
    refine ⟨?_, ?_, False.elim, False.elim, False.elim, False.elim⟩
    · intro x y hx
      cases hx
    · intro r hr
      cases hr

/-- Iron Law 5 holds in every run of sequential `Execute`s, whatever the agents answer,
whichever calls fail and whenever the process crashes. -/
theorem ironLaw5_of_sequential (cfg : RunConfig) (moves : List ApplyMove)
    (hok : RunMeets cfg {} sequentialExecutes moves = true) :
    IronLaw5 (reach cfg {} moves) := by
  have hinv := reach_sequential hok
  obtain ⟨hdisc, hseq⟩ := hinv.holds
  refine ⟨fun r hr => (hseq.row r hr).attempts, fun r hr hlast hopen => ?_, ?_⟩
  · exact ((hseq.row r hr).last hlast).resolve_left hopen
  · intro t ht x req answer id hdispatch htarget
    obtain ⟨v, hv⟩ := List.mem_iff_getElem?.mp ht
    obtain ⟨past, hsuffix, hjust⟩ := justified_of_mem (hinv.keeps t ht) hdispatch
    have hpast := (List.suffix_cons _ past).trans hsuffix
    obtain ⟨task, ⟨k, team, sid, hruns, hopen, hclaim⟩, hid⟩ := hjust.reason id htarget
    have hruns := hruns.mono hpast
    refine ⟨k, team, task, hruns, hid.symm, ?_, hopen⟩
    obtain ⟨c, p, g, hbegin⟩ := hruns
    have huntried := hseq.untried hdisc.numbered hinv.explained
      ((Pool.did_iff_mem hv _).mpr hbegin) ((Pool.did_iff_mem hv _).mpr (hpast.subset hclaim))
    rw [huntried.1]
    decide

/-- An `Execute` whose agent fails three times, and the next one on the same board. -/
def threeFailures : List ApplyMove :=
  let ch := { sampleChoice [sampleEntry "web" ["login"]] with dispatch := .error (.other "") }
  sampleExecute :: steps 0 20 ch ++ .start (.goroutine 0) :: steps 1 12 ch ++
    .start (.goroutine 1) :: steps 2 50 ch ++ steps 1 12 ch ++ steps 0 12 ch ++
    sampleExecute :: steps 3 30 ch

theorem ironLaw5_threeFailures :
    RunMeets sampleConfig {} sequentialExecutes threeFailures = true ∧
      (reach sampleConfig {} threeFailures).state.db.tasks.rows.map
        (fun t => (t.attempts, t.status)) = [(3, .blocked)] ∧
      IronLaw5 (reach sampleConfig {} threeFailures) := by
  have hmeets : RunMeets sampleConfig {} sequentialExecutes threeFailures = true := by
    decide +kernel
  exact ⟨hmeets, by decide +kernel, ironLaw5_of_sequential sampleConfig threeFailures hmeets⟩

end SophiaOrchestrator.Apply
