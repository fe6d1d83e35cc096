import SophiaOrchestrator.Apply.Attempts
import SophiaOrchestrator.Apply.Traces

/-!
# The map of statuses in the prompts of a change

`Execute` puts the map of the prior phases' statuses into a field of the service, and the
goroutines of its tasks read the field when they build their prompts.  The service is one
for all changes, so an `Execute` that begins in between replaces the map of the others.
-/

namespace SophiaOrchestrator.Apply

open Effects Prog

/-- Every prompt for a change is built in a goroutine of an `Execute` on that change, with
the map that was passed to this `Execute`. -/
def UsesOwnMap (π : ApplyPool) : Prop :=
  ∀ t ∈ π.threads, ∀ c task worktreePath status answer,
    ⟨.buildPrompt c task worktreePath status, answer⟩ ∈ t.hist →
    ∃ x, (∃ k team p g t₀, ⟨.beginGoroutine k, some (.task x team c p g t₀)⟩ ∈ t.hist) ∧
      ∃ e ∈ π.threads, (∃ p, e.call = .execute c p status) ∧
        ∃ threshold, ⟨.newExec threshold, x⟩ ∈ e.hist

/-- An `Execute` sets the field only when none is running or to the map it already has, and
it starts to run with its own map in the field. -/
def keepsOwnMap : StepCondition
  | .setPriorPhasesStatus status, _, _, s =>
    s.running.isEmpty || decide (s.priorPhasesStatus = status)
  | .newExec _, _, hist, s => hist.any fun ev =>
    match ev.op with
    | .setPriorPhasesStatus status => decide (status = s.priorPhasesStatus)
    | _ => false
  | _, _, _, _ => true

/-! ## The invariant -/

/-- As long as an `Execute` runs the field has its map, so its goroutines read it. -/
structure OwnMaps (D : ApplyLog) (s : State) : Prop where
  field : ∀ {e threshold x}, D e ⟨.newExec threshold, x⟩ →
    ∃ status, D e ⟨.setPriorPhasesStatus status, ()⟩ ∧
      (x ∈ s.running → s.priorPhasesStatus = status)
  read : ∀ {v k x team c p g t status}, D v ⟨.readPriorPhasesStatus, status⟩ →
    D v ⟨.beginGoroutine k, some (.task x team c p g t)⟩ →
    ∃ e threshold, D e ⟨.newExec threshold, x⟩ ∧ D e ⟨.setPriorPhasesStatus status, ()⟩

section Step

variable {cfg : RunConfig} {D : ApplyLog} {L : Nat → Prop} {tid : Nat} {ch : Choice} {call : Call}
  {op : Op} {hist : History} {s : State}

theorem priorPhasesStatus_of_running {x : Nat} (hx : x ∈ s.running)
    (hop : keepsOwnMap op ch hist s = true) :
    (handle cfg op ch s).2.priorPhasesStatus = s.priorPhasesStatus := by
  by_cases hset : ∃ status, op = .setPriorPhasesStatus status
  · obtain ⟨status, rfl⟩ := hset
    rcases Bool.or_eq_true_iff.mp hop with hidle | hsame
    · rw [List.isEmpty_iff.mp hidle] at hx
      cases hx
    · exact (of_decide_eq_true hsame).symm
  · exact handle_priorPhasesStatus cfg ch s fun status heq => hset ⟨status, heq⟩

theorem OwnMaps.field_step (h : OwnMaps D s) (hnum : Numbered D s.skeleton)
    (hstep : StepOf cfg D s.skeleton tid call hist op (handle cfg op ch s).1)
    (hop : keepsOwnMap op ch hist s = true) {e threshold x : Nat}
    (hnew : D.add tid ⟨op, (handle cfg op ch s).1⟩ e ⟨.newExec threshold, x⟩) :
    ∃ status, D.add tid ⟨op, (handle cfg op ch s).1⟩ e ⟨.setPriorPhasesStatus status, ()⟩ ∧
      (x ∈ (handle cfg op ch s).2.running →
        (handle cfg op ch s).2.priorPhasesStatus = status) := by
  rcases hnew with hold | ⟨rfl, heq⟩
  · obtain ⟨status, hset, hfield⟩ := h.field hold
    refine ⟨status, .inl hset, fun hx => ?_⟩
    rcases running_handle hx with hx | ⟨threshold', -, rfl⟩
    · exact (priorPhasesStatus_of_running hx hop).trans (hfield hx)
    · exact absurd (hnum.exec_lt hold) (lt_irrefl _)
  · have hsame : Op.newExec threshold = op := congrArg Ev.op heq
    subst hsame
    obtain ⟨⟨op', answer'⟩, hmem, hown⟩ := List.any_eq_true.mp hop
    cases op'
    case setPriorPhasesStatus status =>
      have hstatus : status = s.priorPhasesStatus := of_decide_eq_true hown
      exact ⟨status, .inl ((hstep.past _).mpr hmem), fun _ => hstatus.symm⟩
    all_goals cases hown

theorem OwnMaps.read_step (h : OwnMaps D s) (hdisc : Disciplined D L s.skeleton) (hlive : L tid)
    (hstep : StepOf cfg D s.skeleton tid call hist op (handle cfg op ch s).1)
    (htraced : Traced call ⟨op, (handle cfg op ch s).1⟩ hist) {v k x team : Nat} {c : Change}
    {p : Phase} {g : Group} {t : Task} {status : List (PhaseType × String)}
    (hread : D.add tid ⟨op, (handle cfg op ch s).1⟩ v ⟨.readPriorPhasesStatus, status⟩)
    (hbegin : D.add tid ⟨op, (handle cfg op ch s).1⟩ v
      ⟨.beginGoroutine k, some (.task x team c p g t)⟩) :
    ∃ e threshold, D e ⟨.newExec threshold, x⟩ ∧ D e ⟨.setPriorPhasesStatus status, ()⟩ := by
  rcases hread with hread | ⟨rfl, heq⟩
  · rcases hbegin with hbegin | ⟨rfl, heq⟩
    · exact h.read hread hbegin
    · -- A goroutine begins before it reads.
      have hsame : Op.beginGoroutine k = op := congrArg Ev.op heq
      subst hsame
      have hmem := (hstep.past _).mp hread
      rw [hstep.justified.reason.2] at hmem
      cases hmem
  · have hsame : Op.readPriorPhasesStatus = op := congrArg Ev.op heq
    subst hsame
    have hstatus : status = s.priorPhasesStatus := eq_of_heq (Ev.mk.inj heq).2
    have hbegin := did_of_add hbegin (by simp)
    have hopen : ¬Finished D v := by
      rintro (⟨y, j, hdone⟩ | ⟨y, j, hdone⟩)
      · exact (htraced _ ((hstep.past _).mp hdone) y j).1 rfl
      · exact (htraced _ ((hstep.past _).mp hdone) y j).2 rfl
    have hx : x ∈ s.running := running_of_unfinished hdisc hlive hopen hbegin
    obtain ⟨e, i, c', p', g', k', hgo, -⟩ := started_of_task hdisc.numbered hstep.explained hbegin
    obtain ⟨threshold, hnew⟩ := executor_of_go hstep.explained hgo
    obtain ⟨status', hset, hfield⟩ := h.field hnew
    have hown : status = status' := hstatus.trans (hfield hx)
    exact ⟨e, threshold, hnew, hown ▸ hset⟩

theorem OwnMaps.step (h : OwnMaps D s) (hdisc : Disciplined D L s.skeleton) (hlive : L tid)
    (hstep : StepOf cfg D s.skeleton tid call hist op (handle cfg op ch s).1)
    (htraced : Traced call ⟨op, (handle cfg op ch s).1⟩ hist)
    (hop : keepsOwnMap op ch hist s = true) :
    OwnMaps (D.add tid ⟨op, (handle cfg op ch s).1⟩) (handle cfg op ch s).2 where
  field := h.field_step hdisc.numbered hstep hop
  read hread hbegin := by
    obtain ⟨e, threshold, hnew, hset⟩ := h.read_step hdisc hlive hstep htraced hread hbegin
    exact ⟨e, threshold, .inl hnew, .inl hset⟩

end Step

theorem OwnMaps.crash {D : ApplyLog} {s : State} (h : OwnMaps D s) : OwnMaps D s.crash where
  field hnew := by
    obtain ⟨status, hset, -⟩ := h.field hnew
    exact ⟨status, hset, fun hx => by cases hx⟩
  read := h.read

theorem reach_ownMaps {cfg : RunConfig} {s : State} (hidle : s.Idle) {moves : List ApplyMove}
    (hok : RunMeets cfg s keepsOwnMap moves = true) :
    Pool.LogInv Op.Answers (fun call h => Good cfg call h ∧ TracedHead call h)
      (fun D L s => Disciplined D L s.skeleton ∧ OwnMaps D s) (reach cfg s moves) := by
  refine reach_induction_with hidle keepsOwnMap (main_traced cfg)
    (fun _ _ _ _ _ hinv => hinv) (fun _ _ _ _ _ hinv => hinv) (fun _ _ _ hinv => hinv.crash)
    ?step ⟨False.elim, False.elim⟩ moves hok
  intro D L tid ch call op hist s hlive hdisc hstep htraced _ hop hinv
  exact hinv.step hdisc hlive hstep htraced hop

/-! ## Every run -/

section Pools

variable {cfg : RunConfig} {π : ApplyPool}

theorem execute_of_task (hnum : Numbered π.Did π.state.skeleton)
    (hkeeps : ∀ t ∈ π.threads,
      Pool.Keeps Op.Answers (fun call h => Good cfg call h ∧ TracedHead call h) t)
    {v k x team : Nat} {c : Change} {p : Phase} {g : Group} {t : Task}
    (hbegin : π.Did v ⟨.beginGoroutine k, some (.task x team c p g t)⟩) :
    ∃ (e : Nat) (te : ApplyThread), π.threads[e]? = some te ∧
      (∃ p status, te.call = .execute c p status) ∧
      ∃ threshold, ⟨.newExec threshold, x⟩ ∈ te.hist := by
  -- The task was started by the goroutine of a group of this change.
  obtain ⟨u, tu, hu, hgo⟩ := hnum.starter (hnum.begun hbegin).2.1.symm
  obtain ⟨past, hsuffix, -, k', i, p', g', hlead⟩ :=
    (hkeeps tu (List.mem_of_getElem? hu)).of_mem hgo
  have hlead : π.Did u ⟨.beginGoroutine k', some (.group x i c p' g')⟩ :=
    ⟨tu, hu, hsuffix.subset (List.mem_cons_of_mem _ hlead)⟩
  -- The group was started by an `Execute` on this change.
  obtain ⟨e, te, he, hstart⟩ := hnum.starter (hnum.begun hlead).2.1.symm
  obtain ⟨past', hsuffix', hjust, -⟩ := (hkeeps te (List.mem_of_getElem? he)).of_mem hstart
  obtain ⟨⟨-, threshold, hnew⟩, ⟨status, hcall⟩, -⟩ := hjust.reason
  exact ⟨e, te, he, ⟨p', status, hcall⟩, threshold,
    hsuffix'.subset (List.mem_cons_of_mem _ hnew)⟩

end Pools

/-- In every run in which the field is replaced only when no `Execute` is running, every
prompt has the map of its own `Execute`. -/
theorem usesOwnMap_of_keepsOwnMap (cfg : RunConfig) (s : State) (hidle : s.Idle)
    (moves : List ApplyMove) (hok : RunMeets cfg s keepsOwnMap moves = true) :
    UsesOwnMap (reach cfg s moves) := by
  have hinv := reach_ownMaps hidle hok
  obtain ⟨hdisc, hmaps⟩ := hinv.holds
  intro t ht c task worktreePath status answer hprompt
  obtain ⟨v, hv⟩ := List.mem_iff_getElem?.mp ht
  obtain ⟨past, hsuffix, -, hread, k, x, team, p, g, t₀, hbegin⟩ :=
    (hinv.keeps t ht).of_mem hprompt
  have hpast := (List.suffix_cons _ past).trans hsuffix
  have hbegin := hpast.subset hbegin
  refine ⟨x, ⟨k, team, p, g, t₀, hbegin⟩, ?_⟩
  -- The `Execute` that has started the goroutine is the one whose map was read.
  obtain ⟨e, te, he, ⟨p', status', hcall⟩, threshold, hnew⟩ :=
    execute_of_task hdisc.numbered hinv.keeps ⟨t, hv, hbegin⟩
  obtain ⟨e', threshold', hnew', te', he', hset⟩ :=
    hmaps.read ⟨t, hv, hpast.subset hread⟩ ⟨t, hv, hbegin⟩
  obtain rfl := hdisc.numbered.executor ⟨te, he, hnew⟩ hnew'
  obtain rfl : te = te' := Option.some.inj (he.symm.trans he')
  have hmem := List.mem_of_getElem? he
  obtain ⟨past', -, -, c₁, p₁, hcall₁⟩ := (hinv.keeps te hmem).of_mem hset
  obtain ⟨rfl, rfl, rfl⟩ := Call.execute.inj (hcall.symm.trans hcall₁)
  exact ⟨te, hmem, ⟨p', hcall⟩, threshold, hnew⟩

/-! ## Runs of two changes -/

def promptMap : Event → Option (ChangeID × List (PhaseType × String))
  | ⟨.buildPrompt c _ _ status, _⟩ => some (c.id, status)
  | _ => none

def executeMap : Call → Option (ChangeID × List (PhaseType × String))
  | .execute c _ status => some (c.id, status)
  | _ => none

def firstExecute : ApplyMove :=
  .start (.execute (sampleChange .tasks) samplePhase [(.spec, "done")])

def secondExecute : ApplyMove :=
  .start (.execute { sampleChange .tasks with id := ⟨2⟩, name := "add-logout" }
    { samplePhase with id := ⟨2⟩, changeID := ⟨2⟩ } [(.spec, "blocked")])

def taskStarted : List ApplyMove :=
  let ch := sampleChoice [sampleEntry "web" ["login"]]
  firstExecute :: steps 0 20 ch ++ .start (.goroutine 0) :: steps 1 12 ch ++
    [.start (.goroutine 1)]

/-- The first `Execute` runs to its end before the second one begins. -/
def oneAfterTheOther : List ApplyMove :=
  let ch := sampleChoice [sampleEntry "web" ["login"]]
  taskStarted ++ steps 2 30 ch ++ steps 1 30 ch ++ steps 0 30 ch ++ secondExecute :: steps 3 2 ch

theorem usesOwnMap_oneAfterTheOther :
    State.Idle {} ∧ RunMeets sampleConfig {} keepsOwnMap oneAfterTheOther = true ∧
      ((reach sampleConfig {} oneAfterTheOther).threads.any fun t => t.hist.any fun ev =>
        decide (promptMap ev = some (⟨1⟩, [(.spec, "done")]))) = true ∧
      UsesOwnMap (reach sampleConfig {} oneAfterTheOther) := by
  have hidle : State.Idle {} := ⟨rfl, rfl, rfl⟩
  have hmeets : RunMeets sampleConfig {} keepsOwnMap oneAfterTheOther = true := by
    decide +kernel
  exact ⟨hidle, hmeets, by decide +kernel,
    usesOwnMap_of_keepsOwnMap sampleConfig {} hidle oneAfterTheOther hmeets⟩

/-- The second `Execute` sets the field before the task of the first one builds its prompt. -/
def overwritten : List ApplyMove :=
  let ch := sampleChoice [sampleEntry "web" ["login"]]
  taskStarted ++ secondExecute :: steps 3 2 ch ++ steps 2 30 ch

theorem prompt_with_foreign_map :
    ((reach sampleConfig {} overwritten).threads.any fun t => t.hist.any fun ev =>
        decide (promptMap ev = some (⟨1⟩, [(.spec, "blocked")]))) = true ∧
      ((reach sampleConfig {} overwritten).threads.all fun t =>
        decide (executeMap t.call ≠ some (⟨1⟩, [(.spec, "blocked")]))) = true ∧
      ¬UsesOwnMap (reach sampleConfig {} overwritten) := by
  have hprompt : ((reach sampleConfig {} overwritten).threads.any fun t => t.hist.any fun ev =>
      decide (promptMap ev = some (⟨1⟩, [(.spec, "blocked")]))) = true := by decide +kernel
  have hnone : ((reach sampleConfig {} overwritten).threads.all fun t =>
      decide (executeMap t.call ≠ some (⟨1⟩, [(.spec, "blocked")]))) = true := by decide +kernel
  refine ⟨hprompt, hnone, fun hown => ?_⟩
  obtain ⟨t, ht, hany⟩ := List.any_eq_true.mp hprompt
  obtain ⟨⟨op, answer⟩, hmem, hforeign⟩ := List.any_eq_true.mp hany
  have hmap := of_decide_eq_true hforeign
  clear hforeign
  cases op
  case buildPrompt c task worktreePath status =>
    obtain ⟨x, -, e, he, ⟨p, hcall⟩, -⟩ := hown t ht c task worktreePath status answer hmem
    refine of_decide_eq_true (List.all_eq_true.mp hnone e he) ?_
    rw [hcall]
    exact hmap
  all_goals cases hmap

end SophiaOrchestrator.Apply
