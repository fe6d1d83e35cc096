import SophiaOrchestrator.Effects.Quiet
import SophiaOrchestrator.Phase.Conduct
import SophiaOrchestrator.Phase.Runs

/-!
# Calls on a change that is completed or aborted

`Run` looks at the phase pointer of the change and at its running phase, `Resume` at the phase
alone; neither looks at the status of the change.  So a change that is completed or aborted is
left alone only when one of the other checks refuses the call.
-/

namespace SophiaOrchestrator

open Effects Prog

variable {request : Call} {h hist : History} {p : Phase} {inp : RunPhaseInput} {π : ServicePool}
  {tid : Nat} {ch : Choice} {cid : ChangeID} {c : Change}

/-! ## What a call has read -/

def firstPhase : History → Option Phase
  | [] => none
  | ⟨.phaseFindByID _, .ok p⟩ :: past => some ((firstPhase past).getD p)
  | _ :: past => firstPhase past

/-- The operations by which a call works on a phase: it saves its row, or has an agent, the
apply executor or the init service at work. -/
def Op.worksOnPhase : Op → Bool
  | .phaseSave _ | .dispatch _ | .applyExecute _ _ _ | .initRun _ => true
  | _ => false

/-- `Start` or `Restart` is not needed, or has an attempt left. -/
def startable (p : Phase) : Bool :=
  decide (p.status ≠ .interrupted ∧ p.status ≠ .blocked) || decide (p.attempts < p.retryBudget)

/-- What `Run` and `Resume` have read before they work on a phase. -/
inductive Entered : Call → History → Prop where
  /-- `Run` has found no running phase of the change it has loaded. -/
  | run {inp : RunPhaseInput} {c : Change} {past h : History}
      (hfirst : firstLoaded past = some c)
      (hcheck : ⟨.phaseFindRunningByChange inp.changeID, .error .notFound⟩ :: past <:+ h) :
      Entered (.run inp) h
  /-- `Resume` has loaded a phase that can go on, and then its change. -/
  | resume {id : PhaseID} {p : Phase} {c : Change} {past h : History}
      (hnone : firstLoaded past = none) (hphase : firstPhase past = some p)
      (hstartable : startable p = true)
      (hload : ⟨.changeFindByID p.changeID, .ok c⟩ :: past <:+ h) :
      Entered (.resume id) h
  | other {request : Call} {h : History} (hrun : ∀ inp, request ≠ .run inp)
      (hresume : ∀ id, request ≠ .resume id) : Entered request h

theorem Entered.mono {h' : History} (hentered : Entered request h) (hsuffix : h <:+ h') :
    Entered request h' := by
  cases hentered with
  | run hfirst hcheck => exact .run hfirst (hcheck.trans hsuffix)
  | resume hnone hphase hstartable hload =>
    exact .resume hnone hphase hstartable (hload.trans hsuffix)
  | other hrun hresume => exact .other hrun hresume

def Enters (request : Call) : History → Prop
  | [] => True
  | ev :: past => ev.op.worksOnPhase = true → Entered request past

section Rules

variable {α β : Type}

abbrev Guards (request : Call) (Q : α → History → Prop) (p : Program α) (h : History) : Prop :=
  p.wp (histSem Op.Answers) (Enters request) Q h

theorem guards_of_entered (p : Program α) (hentered : Entered request h) :
    Guards request (fun _ _ => True) p h := by
  induction p generalizing h with
  | done value => trivial
  | call op next ih =>
    refine (wp_hist_call op next h).mpr fun answer _ => ⟨fun _ => hentered, ih answer ?_⟩
    exact hentered.mono (List.suffix_cons _ _)

theorem guards_read {Q : α → History → Prop} {op : Op} {f : op.Ret → Program α}
    (hread : op.worksOnPhase = false)
    (hf : ∀ answer, op.Answers answer → Guards request Q (f answer) (⟨op, answer⟩ :: h)) :
    Guards request Q (perform op >>= f) h := by
  refine wp_perform_bind (fun answer _ hworks => ?_) hf
  rw [hread] at hworks
  cases hworks

theorem guards_bind {Q : α → History → Prop} {R : β → History → Prop} {p : Program α}
    {f : α → Program β} (hp : Guards request Q p h)
    (hf : ∀ value h', Q value h' → Guards request R (f value) h') :
    Guards request R (p >>= f) h :=
  wp_bind (wp_mono hp (fun _ => id) hf)

end Rules

/-! ## The programs -/

def EntersOnSuccess (request : Call) (sync : Except SvcErr (Change × Phase)) (h : History) :
    Prop :=
  ∀ c p, sync = .ok (c, p) → Entered request h

theorem runSync_guards (inp : RunPhaseInput) :
    Guards (.run inp) (EntersOnSuccess (.run inp)) (runSync inp) [] := by
  refine guards_read rfl fun answer _ => ?_
  match answer with
  | .error err => exact fun _ _ heq => nomatch heq
  | .ok c =>
    simp only
    split
    · exact fun _ _ heq => nomatch heq
    · refine guards_read rfl fun answer _ => ?_
      match answer with
      | .error err => exact fun _ _ heq => nomatch heq
      | .ok () =>
        refine guards_read rfl fun answer _ => ?_
        rcases answer with (_ | _ | _ | _ | _) | running
        · have hentered : Entered (.run inp)
              (⟨.phaseFindRunningByChange inp.changeID, .error .notFound⟩ ::
                [⟨.phaseLockByChange inp.changeID, .ok ()⟩,
                  ⟨.changeFindByID inp.changeID, .ok c⟩]) :=
            .run (c := c) rfl List.suffix_rfl
          refine wp_mono (wp_hist_suffix (guards_of_entered _ hentered)) (fun _ hI => hI) ?_
          rintro sync h' ⟨-, hsuffix⟩ _ _ _
          exact hentered.mono hsuffix
        all_goals exact fun _ _ heq => nomatch heq

theorem startable_of_resumed {now : Time} (hresumable : resumable p = true)
    (h : resumed p now = none ∨ ∃ p', resumed p now = some (.ok p')) : startable p = true := by
  unfold startable
  rcases h with hnone | ⟨p', hsome⟩
  · simp [kept_of_resumed_eq_none hresumable hnone]
  · simp [(resumed_eq_some_ok hsome).2.1]

theorem resumeSync_guards (id : PhaseID) :
    Guards (.resume id) (EntersOnSuccess (.resume id)) (resumeSync id) [] := by
  refine guards_read rfl fun answer _ => ?_
  match answer with
  | .error err => exact fun _ _ heq => nomatch heq
  | .ok p =>
    simp only
    split
    · exact fun _ _ heq => nomatch heq
    · next hresumable =>
      refine guards_read rfl fun answer _ => ?_
      match answer with
      | .error err => exact fun _ _ heq => nomatch heq
      | .ok c =>
        refine guards_read rfl fun now _ => ?_
        have hentered : startable p = true → Entered (.resume id) ((⟨.now, now⟩ : Event) ::
            [⟨.changeFindByID p.changeID, .ok c⟩, ⟨.phaseFindByID id, .ok p⟩]) :=
          fun hstartable => .resume rfl rfl hstartable (List.suffix_cons _ _)
        have hstartable : (resumed p now = none ∨ ∃ p', resumed p now = some (.ok p')) →
            startable p = true := startable_of_resumed (by simpa using hresumable)
        cases hresumed : resumed p now with
        | none => exact fun _ _ _ => hentered (hstartable (.inl hresumed))
        | some result =>
          cases result with
          | error err => exact fun _ _ heq => nomatch heq
          | ok p' =>
            have hin := hentered (hstartable (.inr ⟨p', hresumed⟩))
            refine wp_mono (wp_hist_suffix (guards_of_entered _ hin)) (fun _ hI => hI) ?_
            rintro sync h' ⟨-, hsuffix⟩ _ _ _
            exact hin.mono hsuffix

theorem schedule_guards {cfg : ServiceConfig} {sync : Except SvcErr (Change × Phase)}
    (hsync : EntersOnSuccess request sync h) :
    Guards request (fun _ _ => True) (schedule cfg inp sync) h := by
  cases sync with
  | error err => exact guards_read rfl fun _ _ => trivial
  | ok pair => exact guards_of_entered _ (hsync pair.1 pair.2 rfl)

theorem main_guards (cfg : ServiceConfig) (request : Call) :
    Guards request (fun _ _ => True) (main cfg request) [] := by
  cases request with
  | run inp => exact guards_bind (runSync_guards inp) fun _ _ hsync => schedule_guards hsync
  | resume id =>
    refine guards_bind (resumeSync_guards id) fun sync h hsync => ?_
    cases sync with
    | error err => exact guards_read rfl fun _ _ => trivial
    | ok pair => exact schedule_guards hsync
  | approve id approver | reject id approver reason | abort cid reason | recover =>
    exact guards_of_entered _ (.other (by simp) (by simp))

/-! ## Runs -/

def Call.startsPhase : Call → Bool
  | .run _ | .resume _ => true
  | _ => false

/-- Another check refuses the call if its change is terminal: a `Run` that comes to look for a
running phase finds one, and a `Resume` that comes to load the change has loaded a phase that
has to be started and has no attempt left. -/
def otherwiseRefused (π : ServicePool) : ServiceMove → Bool
  | .step tid _ =>
    match π.threads[tid]? with
    | some ⟨.run _, .call (.phaseFindRunningByChange cid) _, hist⟩ =>
      match firstLoaded hist, π.state.findRunningByChange cid with
      | some c, .error .notFound => !c.status.isTerminal
      | _, _ => true
    | some ⟨.resume _, .call (.changeFindByID cid) _, hist⟩ =>
      match firstLoaded hist, firstPhase hist, π.state.findChange cid with
      | none, some p, .ok c => !c.status.isTerminal || !startable p
      | _, _, _ => true
    | _ => true
  | _ => true

theorem otherwiseRefused_run {next : Except RepoErr Phase → Program Unit}
    (hthread : π.threads[tid]? = some ⟨.run inp, .call (.phaseFindRunningByChange cid) next, hist⟩)
    (hfirst : firstLoaded hist = some c)
    (hcheck : π.state.findRunningByChange cid = .error .notFound) :
    otherwiseRefused π (.step tid ch) = !c.status.isTerminal := by
  unfold otherwiseRefused
  dsimp only
  rw [hthread]
  dsimp only
  rw [hfirst, hcheck]

theorem otherwiseRefused_resume {id : PhaseID} {next : Except RepoErr Change → Program Unit}
    (hthread : π.threads[tid]? = some ⟨.resume id, .call (.changeFindByID cid) next, hist⟩)
    (hnone : firstLoaded hist = none) (hphase : firstPhase hist = some p)
    (hload : π.state.findChange cid = .ok c) :
    otherwiseRefused π (.step tid ch) = (!c.status.isTerminal || !startable p) := by
  unfold otherwiseRefused
  dsimp only
  rw [hthread]
  dsimp only
  rw [hnone, hphase, hload]

/-- In every run in which the other checks refuse the calls on terminal changes, a `Run` or
`Resume` that finds its change completed or aborted saves no phase row, and has no agent, apply
executor or init service at work. -/
theorem terminal_untouched (cfg : ServiceConfig) (s : Store) (moves : List ServiceMove)
    (hrefused : RunMeets cfg s otherwiseRefused moves = true) {t : ServiceThread}
    (ht : t ∈ (reach cfg s moves).threads) (hcall : t.call.startsPhase = true) {c : Change}
    (hfirst : firstLoaded t.hist = some c) (hterminal : c.status.isTerminal = true) :
    ∀ ev ∈ t.hist, ev.op.worksOnPhase = false := by
  intro ev hev
  by_contra hworks
  obtain ⟨tid, htid⟩ := List.mem_iff_getElem?.mp ht
  obtain ⟨past, hsuffix⟩ := suffix_of_mem hev
  have hkeeps := Pool.run_keeps (H := handler) handle_answers (main_guards cfg)
    (π := (Pool.init s : ServicePool)) (by simp) moves
  have hentered : Entered t.call t.hist :=
    ((hkeeps t ht).past (ev :: past) hsuffix (List.cons_ne_nil ev past)
      (by simpa using hworks)).mono ((List.suffix_cons ev past).trans hsuffix)
  -- The step at which the call entered contradicts the condition.
  have hok : ∀ {before after : List ServiceMove} {m : ServiceMove},
      moves = before ++ m :: after → otherwiseRefused (reach cfg s before) m = true := by
    rintro before after m rfl
    rw [RunMeets, Pool.meets_append, Bool.and_eq_true, Pool.Meets, Bool.and_eq_true] at hrefused
    exact hrefused.2.1
  generalize hrequest : t.call = request at hentered hcall
  cases hentered with
  | other hrun hresume =>
    cases request with
    | run inp => exact hrun inp rfl
    | resume id => exact hresume id rfl
    | _ => cases hcall
  | run hfirst' hcheck =>
    obtain ⟨before, ch, after, next, hmoves, hthread, hret, -⟩ :=
      exists_step_of_suffix htid hcheck
    have hloaded := firstLoaded_of_suffix hfirst' ((List.suffix_cons _ _).trans hcheck)
    obtain rfl : c = _ := Option.some.inj (hfirst.symm.trans hloaded)
    rw [hrequest] at hthread
    have hmove := hok hmoves
    rw [otherwiseRefused_run hthread hfirst' (Fault.read_eq_notFound hret.symm), hterminal]
      at hmove
    cases hmove
  | @resume _ _ c' _ _ hnone hphase hstartable hload =>
    obtain ⟨before, ch, after, next, hmoves, hthread, hret, -⟩ :=
      exists_step_of_suffix htid hload
    have hloaded := firstLoaded_of_suffix (c := c') (by simp [firstLoaded, hnone]) hload
    obtain rfl : c = _ := Option.some.inj (hfirst.symm.trans hloaded)
    rw [hrequest] at hthread
    have hmove := hok hmoves
    rw [otherwiseRefused_resume hthread hnone hphase (Fault.read_eq_ok hret.symm), hterminal,
      hstartable] at hmove
    cases hmove

/-! ## Concrete runs -/

/-- A crash leaves the only attempt at explore interrupted, and the change is aborted; then
explore is run and resumed again. -/
def abortedInterrupted : List ServiceMove :=
  .start (.run { changeID := ⟨1⟩, phaseType := .explore, retryBudget := 1 }) ::
    List.replicate 8 (.step 0 { phaseID := .ok ⟨7⟩ }) ++
  .crash :: .start .recover :: List.replicate 4 (.step 1 {}) ++
  .start (.abort ⟨1⟩ "") :: List.replicate 4 (.step 2 {}) ++
  .start (.run { changeID := ⟨1⟩, phaseType := .explore }) :: List.replicate 40 (.step 3 {}) ++
  .start (.resume ⟨7⟩) :: List.replicate 40 (.step 4 {})

def terminalCalls (π : ServicePool) : List Bool :=
  (π.threads.filter fun t => t.call.startsPhase &&
    ((firstLoaded t.hist).map fun c => c.status.isTerminal).getD false).map
      fun t => t.hist.any fun ev => ev.op.worksOnPhase

theorem terminal_untouched_interrupted :
    terminalCalls (reach {} (sampleStore .init) abortedInterrupted) = [false, false] ∧
    ∀ t ∈ (reach {} (sampleStore .init) abortedInterrupted).threads, t.call.startsPhase = true →
      ∀ c, firstLoaded t.hist = some c → c.status.isTerminal = true →
        ∀ ev ∈ t.hist, ev.op.worksOnPhase = false :=
  ⟨by decide +kernel, fun _ ht hcall _ hfirst hterminal =>
    terminal_untouched {} (sampleStore .init) abortedInterrupted (by decide +kernel) ht hcall
      hfirst hterminal⟩

/-- The change is aborted with its pointer at explore, and explore is run once more. -/
def abortedThenRun : List ServiceMove :=
  .start (.abort ⟨1⟩ "") :: List.replicate 4 (.step 0 {}) ++
  .start (.run { changeID := ⟨1⟩, phaseType := .explore }) ::
    List.replicate 40 (.step 1
      { phaseID := .ok ⟨7⟩
        dispatch := .ok { envelopeRaw := .json (sampleEnvelope .explore .done) } })

/-- The run of the aborted change is accepted: a phase row is created and ends done, and an
agent is dispatched. -/
theorem terminal_touched :
    terminalCalls (reach {} (sampleStore .explore) abortedThenRun) = [true] ∧
    (reach {} (sampleStore .explore) abortedThenRun).state.changes.rows.map Change.status =
      [.aborted] ∧
    (reach {} (sampleStore .explore) abortedThenRun).state.phases.rows.map Phase.status =
      [.done] ∧
    ((reach {} (sampleStore .explore) abortedThenRun).threads.map fun t =>
      t.hist.any fun ev => match ev.op with | .dispatch _ => true | _ => false) =
      [false, true] := by
  decide +kernel

end SophiaOrchestrator
