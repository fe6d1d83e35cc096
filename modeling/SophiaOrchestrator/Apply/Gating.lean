import SophiaOrchestrator.Apply.Bounds

/-!
# Implement dispatches and the spawn governor

An attempt at a task acquires a slot of the spawn governor, dispatches its agent and gives the
slot back.  When the agent of the attempt has no quota left and there is a fallback model, one
more agent is dispatched; this one is dispatched after the slot was given back.
-/

namespace SophiaOrchestrator.Apply

open Effects Prog

variable {ev : Event} {h : History} {op : Op} {cfg : RunConfig} {t : ApplyThread}

/-! ## Slots and dispatches -/

/-- The goroutine holds a slot of the spawn governor that it has acquired since its last
implement dispatch. -/
def ticket : History → Bool
  | [] => false
  | ⟨.spawnAcquire _, .ok ()⟩ :: _ => true
  | ⟨.spawnRelease _, _⟩ :: _ => false
  | ev :: past => !ev.op.isImplement && ticket past

def Op.implementsFor (x : Nat) : Op → Bool
  | .dispatch y req => decide (y = x) && (Op.dispatch y req).isImplement
  | _ => false

def worksFor (x : Nat) (h : History) : Bool :=
  h.any fun
    | ⟨.beginGoroutine _, some (.task y _ _ _ _ _)⟩ => y == x
    | _ => false

def holdsForImplement (x : Nat) (t : ApplyThread) : Bool :=
  !t.prog.isDone && ((usage t.hist).governor && worksFor x t.hist)

/-- Every implement dispatch in flight was made with a slot acquired for it, so there are at
most as many of them, in each `Execute`, as slots held for its tasks. -/
structure SlotPerDispatch (π : ApplyPool) : Prop where
  acquired : ∀ t ∈ π.threads, pending Op.isImplement t = true → ticket t.hist = true
  bounded : ∀ x, π.threads.countP (pending (Op.implementsFor x)) ≤
    π.threads.countP (holdsForImplement x)

def noFallback (cfg : RunConfig) : Event → Bool
  | ⟨.dispatch _ ⟨.implement _, _, _⟩, .error (.quota _)⟩ => decide (cfg.fallbackModel = "")
  | _ => true

/-- No implement-agent is without quota while there is a fallback model. -/
def sparesQuota (cfg : RunConfig) : StepCondition := fun op ch _ s =>
  noFallback cfg ⟨op, (handle cfg op ch s).1⟩

theorem ticket_of_not_metered (past : History) (h : ev.op.metered = false) :
    ticket (ev :: past) = ticket past := by
  obtain ⟨op, answer⟩ := ev
  cases op <;> first | rfl | cases h

theorem governor_of_ticket (hticket : ticket h = true) :
    (usage h).governor = true := by
  induction h with
  | nil => cases hticket
  | cons ev past ih =>
    obtain ⟨op, answer⟩ := ev
    cases op
    case spawnAcquire x =>
      cases answer with
      | ok _ => rfl
      | error err => exact ih hticket
    case spawnRelease x => cases hticket
    case dispatch x req => exact ih (Bool.and_eq_true_iff.mp hticket).2
    all_goals exact ih hticket

/-! ## The guarantee -/

def QuotaSeen (h : History) : Prop :=
  ∃ x id path model err, ⟨.dispatch x ⟨.implement id, path, model⟩, .error (.quota err)⟩ ∈ h

def FallbackDue (cfg : RunConfig) (h : History) : Prop :=
  cfg.fallbackModel ≠ "" ∧ QuotaSeen h

theorem QuotaSeen.mono {h' : History} (hseen : QuotaSeen h) (hsuffix : h <:+ h') :
    QuotaSeen h' := by
  obtain ⟨x, id, path, model, err, hmem⟩ := hseen
  exact ⟨x, id, path, model, err, hsuffix.subset hmem⟩

/-- An implement dispatch of the goroutine of a task has a slot, unless it is the fallback. -/
def GatedHead (cfg : RunConfig) : History → Prop
  | [] => True
  | ev :: past => ev.op.isImplement = true → (∃ k x team t, RunsTask past k x team t) →
      ticket past = true ∨ FallbackDue cfg past

section Rules

variable {α β : Type}

abbrev Gates (cfg : RunConfig) (R : α → History → Prop) (p : Program α) (h : History) : Prop :=
  p.wp (histSem Op.Answers) (GatedHead cfg) R h

theorem gated_of_not_isImplement (past : History) (hop : ev.op.isImplement = false) :
    GatedHead cfg (ev :: past) := by
  intro himplement
  rw [hop] at himplement
  cases himplement

theorem Op.not_isImplement_of_not_metered (h : op.metered = false) :
    op.isImplement = false := by
  cases op <;> first | rfl | cases h

theorem gates_unmetered {Q : α → Prop} {R : α → History → Prop} {p : Program α}
    (hp : p.Uses Op.Answers (fun op => op.metered = false) Q)
    (hR : ∀ value h', Q value → h <:+ h' → ticket h' = ticket h → R value h') :
    Gates cfg R p h := by
  have hquiet : p.Uses Op.Answers (fun op => (!op.metered) = true) Q :=
    uses_mono hp (fun _ hop => by simpa using hop) fun _ hQ => hQ
  refine wp_of_uses (fun _ past hop => ?_) hquiet fun value h' hQ hext =>
    hR value h' hQ hext.suffix ?_
  · exact gated_of_not_isImplement past (Op.not_isImplement_of_not_metered (by simpa using hop))
  · exact hext.eq_of_step fun _ past hop => ticket_of_not_metered past (by simpa using hop)

theorem gates_perform {R : α → History → Prop} {f : op.Ret → Program α}
    (hop : op.isImplement = false) (hf : ∀ answer, Gates cfg R (f answer) (⟨op, answer⟩ :: h)) :
    Gates cfg R (perform op >>= f) h :=
  wp_perform_bind (fun _ _ => gated_of_not_isImplement h hop) fun answer _ => hf answer

end Rules

/-! ## The goroutine of a task -/

section Task

variable {k x team : Nat} {c : Change} {p : Phase} {group : Group} {task : Task} {s s' : TaskStage}

/-- What is known at a stage: before a dispatch there is a slot or the fallback is due, and after
one it is known whether the agent had quota. -/
def TaskStage.Gated (cfg : RunConfig) : TaskStage → History → Prop
  | .ready _ _ _, h | .informed _ _ _ _, h | .prompted _ _ _, h =>
    ticket h = true ∨ FallbackDue cfg h
  | .sent _ _ _ quota _, h | .freed _ _ quota, h => quota = true → QuotaSeen h
  | _, _ => True

theorem TaskStage.Gated.extend (hs : s.Gated cfg h) (hop : ev.op.metered = false) :
    s.Gated cfg (ev :: h) := by
  have hseen : QuotaSeen h → QuotaSeen (ev :: h) := fun hseen => hseen.mono (List.suffix_cons _ _)
  have hready : ticket h = true ∨ FallbackDue cfg h →
      ticket (ev :: h) = true ∨ FallbackDue cfg (ev :: h) :=
    Or.imp (fun hticket => (ticket_of_not_metered h hop).trans hticket) (And.imp_right hseen)
  cases s
  case ready | informed | prompted => exact hready hs
  case sent | freed => exact fun hquota => hseen (hs hquota)
  all_goals trivial

theorem TaskMove.gated (hmove : TaskMove cfg k x team c task s ev s') (hs : s.Gated cfg h) :
    GatedHead cfg (ev :: h) ∧ s'.Gated cfg (ev :: h) := by
  cases hmove with
  | stay hop =>
    have hquiet := Op.not_metered_of_incidental hop
    exact ⟨gated_of_not_isImplement h (Op.not_isImplement_of_not_metered hquiet), hs.extend hquiet⟩
  | failed hop =>
    have hquiet := Op.not_metered_of_incidental hop
    exact ⟨gated_of_not_isImplement h (Op.not_isImplement_of_not_metered hquiet), trivial⟩
  | @dispatched _ _ _ path model answer =>
    refine ⟨fun _ _ => hs, fun hquota => ?_⟩
    rcases answer with (err | _ | _) | _
    · exact ⟨x, _, path, model, err, List.mem_cons_self⟩
    all_goals cases hquota
  | granted => exact ⟨gated_of_not_isImplement h rfl, .inl rfl⟩
  | freed =>
    refine ⟨gated_of_not_isImplement h rfl, fun hquota => ?_⟩
    exact (hs hquota).mono (List.suffix_cons _ _)
  | fallsBack hmodel =>
    refine ⟨gated_of_not_isImplement h rfl, .inr ⟨hmodel, ?_⟩⟩
    exact (hs rfl).mono (List.suffix_cons _ _)
  | unprompted => exact ⟨gated_of_not_isImplement h rfl, by simp [TaskStage.Gated]⟩
  | reads | prompted | completed =>
    exact ⟨gated_of_not_isImplement h rfl, TaskStage.Gated.extend hs rfl⟩
  | _ => exact ⟨gated_of_not_isImplement h rfl, trivial⟩

theorem taskGoroutine_gates (k team : Nat) (task : Task) :
    Gates cfg (fun _ _ => True) (taskGoroutine cfg k x team c p group task) h := by
  refine wp_mono (taskGoroutine_follows.wp_hist (J := TaskStage.Gated cfg) ?_ trivial)
    (fun _ hI => hI) fun _ _ _ => trivial
  exact fun s ev s' h hmove _ hs => hmove.gated hs

end Task

/-! ## Every program -/

theorem GroupMove.not_isImplement {k x : Nat} {c : Change} {p : Phase} {g : Group}
    {s s' : GroupStage} {ev : Event}
    (hmove : GroupMove cfg k x c p g s ev s') : ev.op.isImplement = false := by
  obtain ⟨op, answer⟩ := ev
  rcases hmove.op_cases with hop | ⟨group, t, -, rfl⟩
  · cases op
    case dispatch x req =>
      obtain ⟨target, path, model⟩ := req
      cases target <;> first | rfl | cases hop
    all_goals rfl
  · rfl

theorem main_gated (cfg : RunConfig) (call : Call) :
    (main cfg call).wp (histSem Op.Answers) (GatedHead cfg) (fun _ _ => True) [] := by
  cases call with
  | execute c p status =>
    refine gates_unmetered (Q := fun _ => True) ?_ fun _ _ _ _ _ => trivial
    refine uses_perform_bind rfl fun _ _ => uses_perform_bind rfl fun x _ => ?_
    refine uses_bind (executeIn_ofBoard cfg x c p).isUnmetered fun res _ => ?_
    exact ⟨rfl, fun _ _ => trivial⟩
  | goroutine k =>
    refine gates_perform rfl fun answer => ?_
    match answer with
    | none => trivial
    | some (.group x i c p g) =>
      refine wp_mono (groupGoroutine_follows.wp_hist (J := fun _ _ => True) ?_ trivial)
        (fun _ hI => hI) fun _ _ _ => trivial
      exact fun _ _ _ h hmove _ _ => ⟨gated_of_not_isImplement h hmove.not_isImplement, trivial⟩
    | some (.task x team c p g t) => exact taskGoroutine_gates k team t
  | cancel x => exact gates_perform (f := Prog.done) rfl fun _ => trivial

/-! ## Runs -/

theorem not_fallbackDue {s : State} {moves : List ApplyMove}
    (hok : RunMeets cfg s (sparesQuota cfg) moves = true) (ht : t ∈ (reach cfg s moves).threads) :
    ¬FallbackDue cfg t.hist := by
  have hhist : Pool.Histories (fun h => ∀ ev ∈ h, noFallback cfg ev = true)
      (reach cfg s moves) := by
    refine Pool.hist_induction (P := fun h => ∀ ev ∈ h, noFallback cfg ev = true) (by simp) ?_ s
      moves hok
    intro op ch hist s hop hpast
    exact List.forall_mem_cons.mpr ⟨hop, hpast⟩
  rintro ⟨hmodel, x, id, path, model, err, hmem⟩
  exact hmodel (of_decide_eq_true (hhist t ht _ hmem))

section Thread

variable {x : Nat} {id : TaskID} {path model : String}
  {next : Except DispatchErr AgentResult → Program Unit}

theorem runsTask_of_dispatch (ht : Pool.Keeps Op.Answers (fun _ => FrugalHead) t)
    (hprog : t.prog = .call (.dispatch x ⟨.implement id, path, model⟩) next) :
    ∃ k team task, RunsTask t.hist k x team task := by
  obtain ⟨-, k, team, task, hruns, -⟩ := ht.upcoming hprog (.error (.other "")) trivial
  exact ⟨k, team, task, hruns⟩

theorem ticket_of_dispatch (ht : Pool.Keeps Op.Answers (fun _ => FrugalHead) t)
    (hgated : Pool.Keeps Op.Answers (fun _ => GatedHead cfg) t)
    (hprog : t.prog = .call (.dispatch x ⟨.implement id, path, model⟩) next)
    (hdue : ¬FallbackDue cfg t.hist) : ticket t.hist = true := by
  obtain ⟨k, team, task, hruns⟩ := runsTask_of_dispatch ht hprog
  have hnext := hgated.upcoming hprog (.error (.other "")) trivial
  exact (hnext rfl ⟨k, x, team, task, hruns⟩).resolve_right hdue

end Thread

theorem exists_of_pending_isImplement (h : pending Op.isImplement t = true) :
    ∃ x id path model next, t.prog = .call (.dispatch x ⟨.implement id, path, model⟩) next := by
  obtain ⟨op, next, hprog, hkind⟩ := exists_of_pending h
  cases op
  case dispatch x req =>
    obtain ⟨target, path, model⟩ := req
    cases target with
    | implement id => exact ⟨x, id, path, model, next, hprog⟩
    | buildRepair gid => cases hkind
  all_goals cases hkind

theorem pending_implementsFor {x : Nat} (h : pending (Op.implementsFor x) t = true) :
    pending Op.isImplement t = true ∧
      ∀ y req next, t.prog = .call (.dispatch y req) next → y = x := by
  obtain ⟨op, next, hprog, hkind⟩ := exists_of_pending h
  cases op
  case dispatch y req =>
    simp only [Op.implementsFor, Bool.and_eq_true, decide_eq_true_eq] at hkind
    refine ⟨by simpa [pending, hprog] using hkind.2, fun y' req' next' hprog' => ?_⟩
    rw [hprog] at hprog'
    cases hprog'
    exact hkind.1
  all_goals cases hkind

/-- In every run in which no agent is without quota while there is a fallback model, every
implement dispatch in flight has its slot. -/
theorem slotPerDispatch_of_sparesQuota (cfg : RunConfig) (s : State) (moves : List ApplyMove)
    (hok : RunMeets cfg s (sparesQuota cfg) moves = true) :
    SlotPerDispatch (reach cfg s moves) := by
  have hgated : ∀ t ∈ (reach cfg s moves).threads,
      Pool.Keeps Op.Answers (fun _ => GatedHead cfg) t :=
    Pool.run_keeps (H := handler cfg) (handle_answers cfg) (main_gated cfg) (by simp) moves
  have hfrugal : ∀ t ∈ (reach cfg s moves).threads,
      Pool.Keeps Op.Answers (fun _ => FrugalHead) t :=
    Pool.run_keeps (H := handler cfg) (handle_answers cfg) (main_frugal cfg) (by simp) moves
  have hacquired : ∀ t ∈ (reach cfg s moves).threads, pending Op.isImplement t = true →
      ticket t.hist = true := by
    intro t ht hpending
    obtain ⟨x, id, path, model, next, hprog⟩ := exists_of_pending_isImplement hpending
    exact ticket_of_dispatch (hfrugal t ht) (hgated t ht) hprog (not_fallbackDue hok ht)
  refine ⟨hacquired, fun x => List.countP_mono_left fun t ht hpending => ?_⟩
  obtain ⟨himplement, hexec⟩ := pending_implementsFor hpending
  obtain ⟨y, id, path, model, next, hprog⟩ := exists_of_pending_isImplement himplement
  obtain rfl := hexec y _ next hprog
  obtain ⟨k, team, task, c, p, g, hbegin⟩ := runsTask_of_dispatch (hfrugal t ht) hprog
  have hworks : worksFor y t.hist = true :=
    List.any_eq_true.mpr ⟨_, hbegin, beq_self_eq_true y⟩
  simp [holdsForImplement, hprog, Prog.isDone, hworks,
    governor_of_ticket (hacquired t ht himplement)]

/-! ## With and without a fallback -/

/-- An `Execute` with one group of one task, whose goroutine makes some steps while its agents
answer in one way. -/
def oneTask (answer : Except DispatchErr AgentResult) (n : Nat) : List ApplyMove :=
  let ch := sampleChoice [sampleEntry "web" ["home"]]
  sampleExecute :: steps 0 20 ch ++ .start (.goroutine 0) :: steps 1 12 ch ++
    .start (.goroutine 1) :: steps 2 n { ch with dispatch := answer }

/-- The second attempt after one that has failed. -/
theorem slotPerDispatch_secondAttempt :
    RunMeets fallbackConfig {} (sparesQuota fallbackConfig) (oneTask (.error (.other "")) 23) =
        true ∧
      (reach fallbackConfig {} (oneTask (.error (.other "")) 23)).threads.countP
        (pending (Op.implementsFor 0)) = 1 ∧
      SlotPerDispatch (reach fallbackConfig {} (oneTask (.error (.other "")) 23)) := by
  have hmeets : RunMeets fallbackConfig {} (sparesQuota fallbackConfig)
      (oneTask (.error (.other "")) 23) = true := by
    decide +kernel
  exact ⟨hmeets, by decide +kernel, slotPerDispatch_of_sparesQuota fallbackConfig {} _ hmeets⟩

/-- The fallback is dispatched while its goroutine holds no slot. -/
theorem fallback_without_slot :
    ¬SlotPerDispatch (reach fallbackConfig {} (oneTask (.error (.quota ⟨"p", "m", 0, ""⟩)) 18)) :=
  fun hslots => absurd (hslots.bounded 0) (by decide +kernel)

end SophiaOrchestrator.Apply
