import SophiaOrchestrator.Apply.Goroutines

/-!
# Prompts, saves and starts in the history of a goroutine

A second guarantee of the programs, beside their justification: which map of statuses a
prompt is built with, for which change a task is started, and how far a saved task has
come from the one the goroutine was started with.

The goroutines and `Execute` are judged by the moves of their protocols.
-/

namespace SophiaOrchestrator.Apply

open Effects Prog

variable {α β : Type} {ev : Event} {g : Group} {op : Op} {x k : Nat} {c : Change} {t task : Task}
  {h : History} {p prog : Program α} {f : α → Program β} {Q : α → Prop}

/-! ## The guarantee -/

/-- After the answer the task is saved before an attempt at it is recorded: there is a valid
envelope, or no quota. -/
def savesEarly (answer : Except DispatchErr AgentResult) : Bool :=
  lacksQuota answer || (agentVerdict answer).isSome

def SavesEarly (past : History) : Prop :=
  ∃ x req answer id, ⟨.dispatch x req, answer⟩ ∈ past ∧ req.target = .implement id ∧
    savesEarly answer = true

def SavedPending (past : History) : Prop :=
  ∀ x t answer, ⟨.saveTask x t, answer⟩ ∈ past → t.status = .pending

/-- An attempt at the task has been recorded: it can be neither completed nor released. -/
def TaskStatus.tried : TaskStatus → Bool
  | .done | .failed | .blocked => true
  | .pending | .claimed | .running => false

/-- The task `t'` is the pending task `t` itself, and nothing else was saved, or it counts more
attempts. -/
def Advances (past : History) (t t' : Task) : Prop :=
  t.status = .pending →
    (t'.status = .pending ∧ t'.attempts = t.attempts ∧ SavedPending past) ∨
      (t'.status.tried = true ∧ t.attempts < t'.attempts)

variable (cfg : RunConfig) (call : Call)

def Traced : Event → History → Prop
  | ⟨.setPriorPhasesStatus status, _⟩, _ => ∃ c p, call = .execute c p status
  | ⟨.go (.task x _ c _ _ _), _⟩, past =>
    ∃ k i p g, ⟨.beginGoroutine k, some (.group x i c p g)⟩ ∈ past
  | ⟨.readPriorPhasesStatus, _⟩, past => ∀ ev ∈ past, ∀ i k,
      ev.op ≠ .groupDone i k ∧ ev.op ≠ .taskDone i k
  | ⟨.buildPrompt c _ _ status, _⟩, past =>
    ⟨.readPriorPhasesStatus, status⟩ ∈ past ∧
      ∃ k x team p g t, ⟨.beginGoroutine k, some (.task x team c p g t)⟩ ∈ past
  | ⟨.saveTask x t', _⟩, past => ∀ k team c p g t,
      ⟨.beginGoroutine k, some (.task x team c p g t)⟩ ∈ past →
        Advances past t t' ∧ (t.status = .pending → t'.status = .pending → SavesEarly past)
  | _, _ => True

def TracedHead : History → Prop
  | [] => True
  | ev :: past => Traced call ev past

theorem traced_of_aside (past : History) (h : ev.op.aside = true) : Traced call ev past := by
  obtain ⟨op, answer⟩ := ev
  cases op
  case go gr =>
    cases gr with
    | group x i c p g => trivial
    | task x team c p g t => cases h
  all_goals first | (cases h; done) | trivial

/-! ## Execute -/

def Op.ofExecute (op : Op) : Prop :=
  op.aside = true ∨ ∃ x t, op = .saveTask x t

abbrev OfExecute {α : Type} (p : Program α) : Prop :=
  p.Uses Op.Answers Op.ofExecute fun _ => True

def Op.neutral (op : Op) : Bool :=
  op.aside && !op.contends

def Op.ofBoard (op : Op) : Prop :=
  op.neutral = true ∨ ∃ x t, op = .saveTask x t

abbrev OfBoard {α : Type} (p : Program α) : Prop :=
  p.Uses Op.Answers Op.ofBoard fun _ => True

theorem OfBoard.ofExecute (h : OfBoard p) : OfExecute p :=
  uses_mono h (fun _ hop => hop.imp_left fun hneutral => (Bool.and_eq_true_iff.mp hneutral).1)
    fun _ _ => trivial

theorem ExecMove.ofBoard {cfg : RunConfig} {x : Nat} {c : Change} {p : Phase} {ev : Event}
    {s s' : ExecStage} (hmove : ExecMove cfg x c p s ev s') : ev.op.ofBoard := by
  have hminor : ∀ {op : Op}, op.minor = true → op.neutral = true := fun {op} hop => by
    cases op <;> first | rfl | cases hop
  cases hmove with
  | stay hop | fails _ hop => exact .inl (hminor hop)
  | saves => exact .inr ⟨_, _, rfl⟩
  | _ => exact .inl rfl

theorem executeIn_ofBoard (x : Nat) (c : Change) (p : Phase) : OfBoard (executeIn cfg x c p) :=
  executeIn_follows.uses Op.nonempty_ret (J := fun _ => True)
    (fun _ _ _ hmove _ => ⟨hmove.ofBoard, fun _ => trivial⟩) (fun _ _ _ _ => trivial) trivial

/-! ## The goroutine of a task -/

theorem Advances.cons (hadv : Advances h t task) (hop : ∀ y t', ev.op ≠ .saveTask y t') :
    Advances (ev :: h) t task := by
  refine fun hfresh => (hadv hfresh).imp_left fun ⟨hstatus, hsame, hsaved⟩ => ⟨hstatus, hsame, ?_⟩
  intro y t' answer hmem
  rcases List.mem_cons.mp hmem with rfl | hold
  · exact absurd rfl (hop y t')
  · exact hsaved y t' answer hold

theorem Advances.transition {task' : Task} (hadv : Advances h t task)
    (hsame : task.status ≠ .claimed → task.status ≠ .running → task' = task) :
    Advances h t task' := by
  intro hfresh
  have heq : task' = task := by
    rcases hadv hfresh with ⟨hstatus, -⟩ | ⟨htried, -⟩
    · exact hsame (by simp [hstatus]) (by simp [hstatus])
    · exact hsame (fun hstatus => by simp [hstatus, TaskStatus.tried] at htried)
        fun hstatus => by simp [hstatus, TaskStatus.tried] at htried
  rw [heq]
  exact hadv hfresh

theorem Advances.complete (hadv : Advances h t task) (env : Envelope) :
    Advances h t ((task.complete env).toOption.getD task) :=
  hadv.transition fun _ hrunning => by simp [Task.complete, hrunning, Except.toOption]

theorem Advances.release (hadv : Advances h t task) :
    Advances h t (task.release.toOption.getD task) :=
  hadv.transition fun hclaimed hrunning => by
    simp [Task.release, hclaimed, hrunning, Except.toOption]

theorem recordAttempt_tried (task : Task) (success : Bool) :
    (task.recordAttempt success).1.status.tried = true ∧
      (task.recordAttempt success).1.attempts = task.attempts + 1 := by
  unfold Task.recordAttempt
  split
  · exact ⟨rfl, rfl⟩
  · split <;> exact ⟨rfl, rfl⟩

theorem Advances.recordAttempt (hadv : Advances h t task) (success : Bool) {past : History} :
    Advances past t (task.recordAttempt success).1 := by
  obtain ⟨htried, hattempts⟩ := recordAttempt_tried task success
  refine fun hfresh => .inr ⟨htried, ?_⟩
  rcases hadv hfresh with ⟨-, hsame, -⟩ | ⟨-, hmore⟩
  · omega
  · omega

theorem Advances.saved {answer : Except RepoErr Unit} (hadv : Advances h t task) :
    Advances (⟨.saveTask x task, answer⟩ :: h) t task := by
  refine fun hfresh => (hadv hfresh).imp_left fun ⟨hstatus, hsame, hsaved⟩ => ⟨hstatus, hsame, ?_⟩
  intro y t' answer' hmem
  rcases List.mem_cons.mp hmem with heq | hold
  · cases heq
    exact hstatus
  · exact hsaved y t' answer' hold

def Op.ofTask : Op → Bool
  | .readPriorPhasesStatus | .buildPrompt _ _ _ _ | .saveTask _ _ => true
  | op => op.aside

section Work

variable {cfg : RunConfig} {call : Call} {team : Nat} {p : Phase} {s s' : TaskStage}

theorem Op.aside_of_incidental (hop : op.incidental = true) : op.aside = true := by
  cases op <;> first | rfl | cases hop

def TaskStage.memory (t : Task) : TaskStage → Option Task
  | .fresh | .start => some t
  | s => s.left?.map Prod.snd

def TaskStage.early : TaskStage → Bool
  | .ready slot _ _ | .informed slot _ _ _ | .prompted slot _ _ => !slot
  | .sent slot _ _ quota verdict => !slot || quota || verdict.isSome
  | .freed _ _ quota => quota
  | _ => false

/-- What the goroutine of the task `t` knows at a stage: it has begun as this goroutine only and
has not ended, its task in memory comes from `t`, an answer allows an early save, and it has read
the map that it is about to use. -/
structure TaskTrace (k x team : Nat) (c : Change) (p : Phase) (g : Group) (t : Task)
    (s : TaskStage) (past : History) : Prop where
  begun : ⟨.beginGoroutine k, some (.task x team c p g t)⟩ ∈ past
  only : s ≠ .gone → ∀ ev ∈ past,
    ev = ⟨.beginGoroutine k, some (.task x team c p g t)⟩ ∨ ev.op.ofTask = true
  task : ∀ task, s.memory t = some task → Advances past t task
  early : s.early = true → SavesEarly past
  read : ∀ slot n task status, s = .informed slot n task status →
    ⟨.readPriorPhasesStatus, status⟩ ∈ past

theorem TaskTrace.traced_saveTask (hs : TaskTrace k x team c p g t s h) (hs' : s ≠ .gone) {y : Nat}
    {answer : Except RepoErr Unit} (hadv : Advances h t task)
    (hearly : s.early = true ∨ task.status.tried = true) :
    Traced call ⟨.saveTask y task, answer⟩ h := by
  intro k' team' c' p' g' t' hbegin
  rcases hs.only hs' _ hbegin with heq | hnot
  · cases heq
    refine ⟨hadv, fun _ hpending => hearly.elim hs.early fun htried => ?_⟩
    rw [hpending] at htried
    cases htried
  · cases hnot

theorem TaskMove.traced (hmove : TaskMove cfg k x team c t s ev s')
    (hs : TaskTrace k x team c p g t s h) : Traced call ev h := by
  cases hmove with
  | stay hop | failed hop => exact traced_of_aside call h (Op.aside_of_incidental hop)
  | reads =>
    intro e he i j
    rcases hs.only (by simp) e he with rfl | hnot
    · exact ⟨nofun, nofun⟩
    · exact ⟨fun hop => by simp [hop, Op.ofTask, Op.aside] at hnot,
        fun hop => by simp [hop, Op.ofTask, Op.aside] at hnot⟩
  | prompted | unprompted => exact ⟨hs.read _ _ _ _ rfl, k, x, team, p, g, t, hs.begun⟩
  | completed =>
    exact hs.traced_saveTask (by simp) ((hs.task _ rfl).complete _) (.inl (Bool.or_true _))
  | retried | counted | used =>
    exact hs.traced_saveTask (by simp) ((hs.task _ rfl).recordAttempt _)
      (.inr (recordAttempt_tried _ _).1)
  | released | abandoned => exact hs.traced_saveTask (by simp) (hs.task _ rfl).release (.inl rfl)
  | _ => trivial

theorem Op.ofTask_of_incidental (hop : op.incidental = true) : op.ofTask = true := by
  cases op <;> first | rfl | cases hop

theorem TaskMove.ofTask (hmove : TaskMove cfg k x team c t s ev s') (hs' : s' ≠ .gone) :
    s ≠ .gone ∧ ev.op.ofTask = true := by
  cases hmove with
  | stay hop => exact ⟨hs', Op.ofTask_of_incidental hop⟩
  | failed hop => exact ⟨by simp, Op.ofTask_of_incidental hop⟩
  | told hs => cases hs <;> exact ⟨by simp, rfl⟩
  | leaves => exact absurd rfl hs'
  | _ => exact ⟨by simp, rfl⟩

theorem Op.ne_saveTask_of_incidental (hop : op.incidental = true) (y : Nat) (t' : Task) :
    op ≠ .saveTask y t' := by
  rintro rfl
  cases hop

theorem TaskMove.advances (hmove : TaskMove cfg k x team c t s ev s')
    (hs : ∀ task, s.memory t = some task → Advances h t task)
    (htask : s'.memory t = some task) : Advances (ev :: h) t task := by
  cases hmove with
  | stay hop => exact (hs _ htask).cons (Op.ne_saveTask_of_incidental hop)
  | completed => cases htask; exact ((hs _ rfl).complete _).saved
  | retried => cases htask; exact (hs _ rfl).recordAttempt _
  | _ => first | exact (hs _ htask).cons (by rintro _ _ ⟨⟩) | cases htask

theorem TaskMove.early (hmove : TaskMove cfg k x team c t s ev s')
    (hs : s.early = true → SavesEarly h)
    (hs' : s'.early = true) : SavesEarly (ev :: h) := by
  have hold : s.early = true → SavesEarly (ev :: h) := fun hearly => by
    obtain ⟨y, req, answer, id, hmem, hrest⟩ := hs hearly
    exact ⟨y, req, answer, id, List.mem_cons_of_mem _ hmem, hrest⟩
  cases hmove with
  | stay | reads | prompted => exact hold hs'
  | @dispatched slot n task path model answer =>
    cases slot with
    | true => exact ⟨_, _, _, _, List.mem_cons_self, rfl, hs'⟩
    | false => exact hold rfl
  | @freed n task quota => exact hold (by cases quota <;> first | rfl | cases hs')
  | fallsBack => exact hold rfl
  | @unprompted slot => exact hold (by cases slot <;> first | rfl | cases hs')
  | completed => exact hold (Bool.or_true _)
  | _ => cases hs'

theorem TaskTrace.step (hs : TaskTrace k x team c p g t s h)
    (hmove : TaskMove cfg k x team c t s ev s') : TaskTrace k x team c p g t s' (ev :: h) where
  begun := List.mem_cons_of_mem _ hs.begun
  only hs' e he := by
    obtain ⟨hopen, hop⟩ := hmove.ofTask hs'
    rcases List.mem_cons.mp he with rfl | hold
    · exact .inr hop
    · exact hs.only hopen e hold
  task _ := hmove.advances hs.task
  early := hmove.early hs.early
  read := by
    rintro slot n task status rfl
    cases hmove with
    | stay => exact List.mem_cons_of_mem _ (hs.read _ _ _ _ rfl)
    | reads => exact List.mem_cons_self

end Work

/-! ## Every program -/

theorem execute_traced (c : Change) (p : Phase) (status : List (PhaseType × String)) :
    (execute cfg c p status).wp (histSem Op.Answers) (TracedHead (.execute c p status))
      (fun _ _ => True) [] := by
  refine wp_perform_bind (fun _ _ => ⟨c, p, rfl⟩) fun _ _ => ?_
  refine wp_perform_bind (fun _ _ => trivial) fun x _ => ?_
  refine wp_bind (wp_since (wp_newest (executeIn_ofBoard cfg x c p).ofExecute _) ?_
    fun res h _ _ => ?_)
  · rintro ⟨op, answer⟩ past hsince (haside | ⟨y, t', hop⟩)
    · exact traced_of_aside _ past haside
    · -- An `Execute` has not begun as a goroutine.
      simp only at hop
      subst hop
      intro k team c' p' g t hbegin
      rcases hsince.added _ hbegin with hfirst | ⟨past', haside | ⟨y', t'', hop⟩⟩
      · simp at hfirst
      · cases haside
      · cases hop
  · exact wp_perform_bind (f := Prog.done) (fun _ _ => trivial) fun _ _ => trivial

theorem GroupMove.traced {cfg : RunConfig} {p : Phase} {s s' : GroupStage} {i : Nat} (call : Call)
    (hmove : GroupMove cfg k x c p g s ev s')
    (hbegin : ⟨.beginGoroutine k, some (.group x i c p g)⟩ ∈ h) : Traced call ev h := by
  obtain ⟨op, answer⟩ := ev
  rcases hmove.op_cases with hop | ⟨group, t, -, rfl⟩
  · cases op <;> trivial
  · exact ⟨k, i, p, g, hbegin⟩

theorem groupGoroutine_traced {i : Nat} {p : Phase}
    (hbegin : ⟨.beginGoroutine k, some (.group x i c p g)⟩ ∈ h) :
    (groupGoroutine cfg k x c p g).wp (histSem Op.Answers) (TracedHead call)
      (fun _ _ => True) h := by
  refine wp_mono (groupGoroutine_follows.wp_hist
    (J := fun _ h => ⟨.beginGoroutine k, some (.group x i c p g)⟩ ∈ h) ?_ hbegin)
    (fun _ hI => hI) fun _ _ _ => trivial
  exact fun s ev s' h hmove _ hs => ⟨hmove.traced call hs, List.mem_cons_of_mem _ hs⟩

theorem taskGoroutine_traced (k x team : Nat) (c : Change) (p : Phase) (g : Group) (t : Task) :
    (taskGoroutine cfg k x team c p g t).wp (histSem Op.Answers) (TracedHead call)
      (fun _ _ => True) [⟨.beginGoroutine k, some (.task x team c p g t)⟩] := by
  have hunsaved : SavedPending [⟨.beginGoroutine k, some (.task x team c p g t)⟩] := by
    intro y t' answer hmem
    cases List.mem_singleton.mp hmem
  have hfresh : TaskTrace k x team c p g t .fresh
      [⟨.beginGoroutine k, some (.task x team c p g t)⟩] :=
    ⟨by simp, fun _ _ he => .inl (List.mem_singleton.mp he),
      fun _ htask hpending => .inl (Option.some.inj htask ▸ ⟨hpending, rfl, hunsaved⟩),
        nofun, by simp⟩
  refine wp_mono (taskGoroutine_follows.wp_hist ?_ hfresh) (fun _ hI => hI) fun _ _ _ => trivial
  exact fun s ev s' h hmove _ hs => ⟨hmove.traced hs, hs.step hmove⟩

theorem main_traced :
    (main cfg call).wp (histSem Op.Answers) (TracedHead call) (fun _ _ => True) [] := by
  cases call with
  | execute c p status => exact execute_traced cfg c p status
  | cancel x => exact wp_perform_bind (f := Prog.done) (fun _ _ => trivial) fun _ _ => trivial
  | goroutine k =>
    refine wp_perform_bind (fun _ _ => trivial) fun answer _ => ?_
    match answer with
    | none => trivial
    | some (.group x i c p g) => exact groupGoroutine_traced cfg _ List.mem_cons_self
    | some (.task x team c p g t) => exact taskGoroutine_traced cfg _ k x team c p g t

end SophiaOrchestrator.Apply
