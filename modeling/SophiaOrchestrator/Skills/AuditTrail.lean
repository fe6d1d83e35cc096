import SophiaOrchestrator.Skills.Reevaluation

/-!
# What a re-evaluation records

`Apply` patches one skill after the other and saves the record of what it changed when the
loop is over.  An error other than a forbidden transition leaves the loop, and the changes
made before it are recorded nowhere.

The evidence is whatever the provider has returned, for any skills and in any order.  Its statuses
need not be those of the skills any more, but each proposal is allowed from one status only, so
that a transition that takes place starts where the evidence says.
-/

namespace SophiaOrchestrator.Skills.Learning

open Effects Prog

variable {s s' : State} {id : SkillID} {status old new : Status} {row : ReevalRow}
  {items : List ReevalRunItem} {report : List ReevalRow}

abbrev Trace : Type := List (Step Op Op.Ret State)

def Changes (step : Step Op Op.Ret State) (id : SkillID) (old new : Status) : Prop :=
  step.before.status? id = some old ∧ step.after.status? id = some new ∧ old ≠ new

theorem not_changes_of_skills_eq {step : Step Op Op.Ret State}
    (h : step.after.skills = step.before.skills) : ¬Changes step id old new := by
  rintro ⟨hold, hnew, hne⟩
  rw [status?_of_skills_eq h, hold] at hnew
  exact hne (Option.some.inj hnew)

def applyTo (evidence : List Evidence) : Program (List ReevalRow × Option ServiceErr) :=
  applyReport (evidence.map planRow)

/-! ## The loop -/

/-- The steps have all succeeded, and every change that they made is among the given ones. -/
def Clean (made : SkillID → Status → Status → Prop) (added : Trace) : Prop :=
  ∀ step ∈ added, succeeded step.ev = true ∧ ∀ id old new, Changes step id old new → made id old new

def Broken (added : Trace) : Prop :=
  ∃ last rest, added = last :: rest ∧ succeeded last.ev = false

def Ran (steps : Trace → Prop) (x y : State × Trace) : Prop :=
  y.1.runs = x.1.runs ∧ ∃ added, y.2 = added ++ x.2 ∧ steps added

variable {made : SkillID → Status → Status → Prop} {x y z : State × Trace} {added added' : Trace}

theorem Ran.trans {first second both : Trace → Prop} (hfirst : Ran first x y)
    (hsecond : Ran second y z)
    (hboth : ∀ added added', first added → second added' → both (added' ++ added)) :
    Ran both x z := by
  obtain ⟨hruns, added, hadded, hbefore⟩ := hfirst
  obtain ⟨hruns', added', hadded', hafter⟩ := hsecond
  refine ⟨hruns'.trans hruns, added' ++ added, ?_, hboth added added' hbefore hafter⟩
  rw [hadded', hadded, List.append_assoc]

theorem Clean.mono {made' : SkillID → Status → Status → Prop} (h : Clean made added)
    (hmade : ∀ id old new, made id old new → made' id old new) : Clean made' added :=
  fun step hstep => ⟨(h step hstep).1, fun id old new hchanges =>
    hmade id old new ((h step hstep).2 id old new hchanges)⟩

theorem Clean.append (h : Clean made added) (h' : Clean made added') :
    Clean made (added' ++ added) :=
  fun step hstep => (List.mem_append.mp hstep).elim (h' step) (h step)

theorem Broken.append (h : Broken added') : Broken (added' ++ added) := by
  obtain ⟨last, rest, rfl, hfailed⟩ := h
  exact ⟨last, rest ++ added, rfl, hfailed⟩

theorem clean_nil : Clean made [] :=
  fun step hstep => by cases hstep

theorem Clean.cons {step : Step Op Op.Ret State} (h : Clean made added)
    (hok : succeeded step.ev = true)
    (hmade : ∀ id old new, Changes step id old new → made id old new) :
    Clean made (step :: added) :=
  List.forall_mem_cons.mpr ⟨⟨hok, hmade⟩, h⟩

theorem Clean.quiet {step : Step Op Op.Ret State} (h : Clean made added)
    (hok : succeeded step.ev = true) (hskills : step.after.skills = step.before.skills) :
    Clean made (step :: added) :=
  h.cons hok fun _ _ _ hchanges => absurd hchanges (not_changes_of_skills_eq hskills)

/-- A statement that writes one table, whether it fails or not, keeps what the table is not
part of. -/
theorem keeps_write {β γ : Type} (part : State → γ) (set : β → State)
    (hset : ∀ table, part (set table) = part s) (fault : Fault) (effect : Except RepoErr β) :
    part (fault.write s (effect.map set)).2 = part s := by
  cases fault <;> cases effect <;> simp [Fault.write, Except.map, hset]

def patchSteps (id : SkillID) (status : Status) : Except ServiceErr Unit → Trace → Prop
  | .ok () => Clean fun id' old new => id' = id ∧ Allowed old status ∧ new = status
  | .error (.forbiddenTransition _ _) => Clean fun _ _ _ => False
  | .error _ => Broken

theorem patchStatus_ran (hvalid : status.isValid = true) (x : State × Trace) :
    (patchStatus (some id) status).wp handler.traced (fun _ => True)
      (fun answer y => Ran (patchSteps id status answer) x y) x := by
  obtain ⟨s, trace⟩ := x
  unfold patchStatus
  simp only [hvalid, Bool.not_true, Bool.false_eq_true, if_false]
  refine wp_traced_bind fun ch answer s' hread => ⟨trivial, ?_⟩
  obtain ⟨rfl, rfl⟩ := Prod.mk.inj hread
  cases hanswer : ch.fault.read (s.skills.findByID id) with
  | error err => exact ⟨rfl, [_], rfl, _, [], rfl, rfl⟩
  | ok current =>
    have hfind := SkillTable.findByID_eq_ok.mp (Fault.read_eq_ok hanswer)
    have hlive : s.status? id = some current.status := hfind.2 ▸ status?_of_mem hfind.1
    dsimp only
    split
    · next hedge =>
      refine wp_traced_bind fun ch' now s' hnow => ⟨trivial, ?_⟩
      obtain ⟨rfl, rfl⟩ := Prod.mk.inj hnow
      refine wp_traced_bind fun ch'' written s' hwrite => ⟨trivial, ?_⟩
      change ch''.fault.write s ((s.skills.patchStatus id status ch'.now).map fun skills =>
        { s with skills }) = (written, s') at hwrite
      have hruns : s'.runs = s.runs := by
        have hkept := keeps_write State.runs (fun skills => { s with skills })
          (fun _ => rfl) ch''.fault (s.skills.patchStatus id status ch'.now)
        rwa [hwrite] at hkept
      cases written with
      | error err => exact ⟨hruns, [_, _, _], rfl, _, _, rfl, rfl⟩
      | ok _ =>
        have hok : Except.isOk (ch''.fault.write s
            ((s.skills.patchStatus id status ch'.now).map fun skills => { s with skills })).1 =
            true := by rw [hwrite]; rfl
        have heffect := (write_of_isOk hok).2.1
        rw [hwrite] at heffect
        have hstatus := status?_patchStatus heffect hlive
        refine ⟨hruns, [_, _, _], rfl, ((clean_nil.quiet ?_ ?_).quiet ?_ ?_).cons rfl ?_⟩ <;>
          try rfl
        -- The statement has set the status of one skill, which had the status that was read.
        rintro id' old new ⟨hold, hnew, hne⟩
        by_cases hid : id' = id
        · subst hid
          refine ⟨rfl, ?_, ?_⟩
          · rw [Option.some.inj (hold.symm.trans hlive)]
            exact hedge
          · rw [hstatus, Function.update_self] at hnew
            exact (Option.some.inj hnew).symm
        · rw [hstatus, Function.update_of_ne hid, hold] at hnew
          exact absurd (Option.some.inj hnew) hne
    · exact ⟨rfl, [_], rfl, clean_nil.quiet rfl rfl⟩

/-- A proposed change leads to a valid status, and is allowed from the reported one only. -/
def Planned (row : ReevalRow) : Prop :=
  row.wouldChange = true → row.proposedStatus.isValid = true ∧
    ∀ live, Allowed live row.proposedStatus → live = row.currentStatus

theorem planned_planRow (e : Evidence) : Planned (planRow e) := by
  intro hchange
  simp only [planRow, evaluate] at hchange ⊢
  split
  · next h =>
    refine ⟨rfl, fun live hlive => ?_⟩
    rw [h.2]
    cases live <;> simp [Allowed, allowedTransitions] at hlive ⊢
  · split
    · next h =>
      refine ⟨rfl, fun live hlive => ?_⟩
      rw [h.2]
      cases live <;> simp [Allowed, allowedTransitions] at hlive ⊢
    · next hpromote hdemote =>
      simp [hpromote, hdemote] at hchange

def RecordedIn (items : List ReevalRunItem) (id : SkillID) (old new : Status) : Prop :=
  ∃ item ∈ items, item.skillID = id ∧ item.priorStatus = old ∧ item.newStatus = new

def loopSteps (items : List ReevalRunItem) : Option ServiceErr → Trace → Prop
  | none => Clean (RecordedIn items)
  | some _ => Broken

theorem loopSteps.append {err : Option ServiceErr} (h : loopSteps items err added')
    (item : List ReevalRunItem) (hclean : Clean (RecordedIn item) added) :
    loopSteps (item ++ items) err (added' ++ added) := by
  cases err with
  | none =>
    refine (hclean.mono ?_).append (Clean.mono h ?_)
    · exact fun _ _ _ ⟨i, hi, hrest⟩ => ⟨i, List.mem_append_left _ hi, hrest⟩
    · exact fun _ _ _ ⟨i, hi, hrest⟩ => ⟨i, List.mem_append_right _ hi, hrest⟩
  | some err => exact Broken.append h

theorem applyRows_ran (hplanned : ∀ row ∈ report, Planned row) (x : State × Trace) :
    (applyRows report).wp handler.traced (fun _ => True)
      (fun result y => Ran (loopSteps result.2.1 result.2.2) x y) x := by
  induction report generalizing x with
  | nil => exact ⟨rfl, [], rfl, fun step hstep => by cases hstep⟩
  | cons row rest ih =>
    have hrest := ih fun row' hrow' => hplanned row' (List.mem_cons_of_mem _ hrow')
    unfold applyRows
    split
    · exact wp_bind (wp_mono (hrest x) (fun _ h => h) fun _ _ hran => hran)
    · next hkeep =>
      obtain ⟨hvalid, hprior⟩ := hplanned row List.mem_cons_self (by simpa using hkeep)
      refine wp_bind (wp_mono (patchStatus_ran hvalid x) (fun _ h => h) fun answer y hpatch => ?_)
      cases answer with
      | ok _ =>
        refine wp_traced_bind fun ch itemID s' hid => ⟨trivial, ?_⟩
        obtain ⟨rfl, rfl⟩ := Prod.mk.inj hid
        refine wp_bind (wp_mono (hrest _) (fun _ h => h) fun result z hloop => ?_)
        have hminted : Ran (Clean fun _ _ _ => False) y
            (y.1, ⟨y.1, ⟨.newID, ch.id⟩, y.1⟩ :: y.2) :=
          ⟨rfl, [_], rfl, clean_nil.quiet rfl rfl⟩
        have hitem : ∀ id old new,
            id = row.skillID ∧ Allowed old row.proposedStatus ∧ new = row.proposedStatus →
            RecordedIn [⟨ch.id, row.skillID, row.currentStatus, row.proposedStatus⟩] id old
              new := by
          rintro id old new ⟨rfl, hedge, rfl⟩
          exact ⟨_, List.mem_singleton_self _, rfl, (hprior old hedge).symm, rfl⟩
        have hpatched := hpatch.trans hminted fun added added' hclean hquiet =>
          (Clean.mono hclean hitem).append (hquiet.mono fun _ _ _ h => h.elim)
        exact hpatched.trans hloop fun added added' hclean hsteps => hsteps.append _ hclean
      | error err =>
        cases err with
        | forbiddenTransition current target =>
          refine wp_bind (wp_mono (hrest y) (fun _ h => h) fun result z hloop => ?_)
          exact hpatch.trans hloop fun added added' hclean hsteps =>
            hsteps.append [] (hclean.mono fun _ _ _ h => h.elim)
        | _ => exact hpatch

/-! ## The end -/

/-- How `Apply` ends: the loop was left with an error, nothing was changed, or the items of the
loop were to be saved. -/
inductive Ended (s : State) : State × Trace → Prop where
  | broken {s' : State} {trace : Trace} (hruns : s'.runs = s.runs) (h : Broken trace) :
      Ended s (s', trace)
  | idle {s' : State} {trace : Trace} (h : Clean (fun _ _ _ => False) trace) : Ended s (s', trace)
  | saving {s₁ s' : State} {trace : Trace} {run : ReevalRun} {answer : Except RepoErr Unit}
      (hmode : run.mode = .apply) (h : Clean (RecordedIn run.items) trace)
      (hskills : s'.skills = s₁.skills) (hsaved : answer.isOk = true → ∃ run', s'.runs.rows =
        s.runs.rows ++ [run'] ∧ run'.mode = run.mode ∧ run'.items = run.items) :
      Ended s (s', ⟨s₁, ⟨.saveRun run, answer⟩, s'⟩ :: trace)

theorem ended_saveRun {ch : Choice} {run : ReevalRun} {answer : Except RepoErr Unit} {s₁ : State}
    {trace : Trace} (hsave : handle (.saveRun run) ch s₁ = (answer, s')) (hruns : s₁.runs = s.runs)
    (hmode : run.mode = .apply) (hclean : Clean (RecordedIn run.items) trace) :
    Ended s (s', ⟨s₁, ⟨.saveRun run, answer⟩, s'⟩ :: trace) := by
  change ch.fault.write s₁ ((s₁.runs.save run).map fun runs => { s₁ with runs }) = _ at hsave
  refine .saving hmode hclean ?_ fun hok => ?_
  · have hkept := keeps_write State.skills (fun runs => { s₁ with runs }) (fun _ => rfl)
      ch.fault (s₁.runs.save run)
    rwa [hsave] at hkept
  · have hwritten := Fault.write_ok ((congrArg Prod.fst hsave).trans (eq_ok_of_isOk hok))
    rw [hsave] at hwritten
    cases hrun : s₁.runs.save run with
    | error err =>
      rw [hrun] at hwritten
      cases hwritten
    | ok runs =>
      rw [hrun] at hwritten
      obtain rfl : { s₁ with runs } = s' := Except.ok.inj hwritten
      have hrows := RunTable.rows_save hrun
      rw [hruns] at hrows
      exact ⟨_, hrows, rfl, rfl⟩

theorem applyTo_ended (evidence : List Evidence) (s : State) :
    (applyTo evidence).wp handler.traced (fun _ => True) (fun _ y => Ended s y) (s, []) := by
  have hplanned : ∀ row ∈ evidence.map planRow, Planned row := by
    intro row hrow
    obtain ⟨e, -, rfl⟩ := List.mem_map.mp hrow
    exact planned_planRow e
  refine wp_traced_bind fun ch runID s₀ hid => ⟨trivial, ?_⟩
  obtain ⟨rfl, rfl⟩ := Prod.mk.inj hid
  refine wp_bind (wp_mono (applyRows_ran hplanned _) (fun _ h => h) ?_)
  rintro ⟨report, items, err⟩ ⟨s₁, trace⟩ ⟨hruns, added, rfl, hsteps⟩
  have hminted : ∀ made, Clean made [⟨s, ⟨.newID, ch.id⟩, s⟩] := fun _ => clean_nil.quiet rfl rfl
  cases err with
  | some err => exact .broken hruns (Broken.append hsteps)
  | none =>
    have hclean : Clean (RecordedIn items) (added ++ [⟨s, ⟨.newID, ch.id⟩, s⟩]) :=
      (hminted _).append hsteps
    dsimp only
    split
    · next hempty =>
      refine .idle (hclean.mono fun _ _ _ ⟨item, hitem, _⟩ => ?_)
      rw [List.isEmpty_iff.mp hempty] at hitem
      cases hitem
    · refine wp_traced_bind fun ch' now s₂ hnow => ⟨trivial, ?_⟩
      obtain ⟨rfl, rfl⟩ := Prod.mk.inj hnow
      refine wp_traced_bind fun ch'' answer s' hsave => ⟨trivial, ?_⟩
      cases answer <;> exact ended_saveRun hsave hruns rfl (hclean.quiet rfl rfl)

/-- Every change of a status is an item of the run that is saved. -/
def Recorded (evidence : List Evidence) (env : Nat → Choice) (n : Nat) (s : State) : Prop :=
  ∀ step ∈ (applyTo evidence).steps handler env n s, ∀ id old new, Changes step id old new →
    ∃ run, (endOf (applyTo evidence) env n s).state.runs.rows = s.runs.rows ++ [run] ∧
      run.mode = .apply ∧ RecordedIn run.items id old new

def AuditWorks (steps : List (Step Op Op.Ret State)) : Prop :=
  ∀ step ∈ steps, (match step.ev with
    | ⟨.saveRun _, answer⟩ => Except.isOk answer
    | _ => true) = true

/-- A statement fails only as long as no status has been changed, by an earlier statement or by
this one. -/
def FailsFirst (steps : List (Step Op Op.Ret State)) : Prop :=
  ∀ before step after, steps = before ++ step :: after → succeeded step.ev = false →
    ∀ earlier ∈ before ++ [step], ∀ id old new, ¬Changes earlier id old new

theorem Clean.failsFirst {steps : List (Step Op Op.Ret State)} (h : Clean made steps.reverse) :
    FailsFirst steps := by
  rintro before step after rfl hfailed
  rw [(h step (by simp)).1] at hfailed
  cases hfailed

/-- A confirmed `Apply`, with audit storage that works, has recorded every change that it made
exactly if no statement has failed after the first change. -/
theorem recorded_iff (evidence : List Evidence) (env : Nat → Choice) (n : Nat) (s : State)
    (haudit : AuditWorks ((applyTo evidence).steps handler env n s)) :
    Recorded evidence env n s ↔ FailsFirst ((applyTo evidence).steps handler env n s) := by
  have hended := eval_of_traced (n := n) env (applyTo_ended evidence s)
  rw [List.append_nil] at hended
  unfold Recorded
  revert haudit hended
  generalize (applyTo evidence).steps handler env n s = steps
  generalize (endOf (applyTo evidence) env n s).state = s'
  intro haudit hended
  generalize htrace : steps.reverse = trace at hended
  cases hended with
  | broken hruns h =>
    obtain ⟨last, rest, rfl, hfailed⟩ := h
    have hsteps : steps = rest.reverse ++ [last] := by
      rw [← List.reverse_reverse steps, htrace, List.reverse_cons]
    constructor
    · intro hrecorded before step after heq hfailed earlier hearlier id old new hchanges
      obtain ⟨run, hrows, -⟩ := hrecorded earlier (by
        rw [heq]
        simp only [List.mem_append, List.mem_cons] at hearlier ⊢
        tauto) id old new hchanges
      simp [hruns] at hrows
    · intro hfirst step hstep id old new hchanges
      exact absurd hchanges (hfirst rest.reverse last [] hsteps hfailed step (hsteps ▸ hstep) id old
        new)
  | idle h =>
    refine ⟨fun _ => Clean.failsFirst (htrace ▸ h), fun _ step hstep id old new hchanges => ?_⟩
    exact ((h step (htrace ▸ List.mem_reverse.mpr hstep)).2 id old new hchanges).elim
  | saving hmode h hskills hsaved =>
    have hlast := haudit _ (List.mem_reverse.mp (htrace ▸ List.mem_cons_self))
    obtain ⟨run, hrows, hmode', hitems⟩ := hsaved hlast
    have hclean : Clean (RecordedIn run.items) steps.reverse := by
      rw [htrace, hitems]
      exact h.quiet hlast hskills
    refine ⟨fun _ => hclean.failsFirst, fun _ step hstep id old new hchanges => ?_⟩
    exact ⟨run, hrows, hmode'.trans hmode,
      (hclean step (List.mem_reverse.mpr hstep)).2 id old new hchanges⟩

def threeEvidence : List Evidence :=
  threeSkills.skills.list.map threeSkills.evidence

theorem recorded_threeSkills :
    AuditWorks ((applyTo threeEvidence).steps handler countingEnv 0 threeSkills) ∧
      Recorded threeEvidence countingEnv 0 threeSkills := by
  have haudit : AuditWorks ((applyTo threeEvidence).steps handler countingEnv 0 threeSkills) := by
    unfold AuditWorks
    decide +kernel
  have hfail : NoFailure (applyTo threeEvidence) countingEnv 0 threeSkills := by
    unfold NoFailure
    decide +kernel
  refine ⟨haudit, (recorded_iff threeEvidence countingEnv 0 threeSkills haudit).mpr ?_⟩
  intro before step after hsteps hfailed
  rw [hfail step (by simp [hsteps])] at hfailed
  cases hfailed

def failsSecond (n : Nat) : Choice :=
  { countingEnv n with fault := if n = 7 then .before else .none }

/-- The first skill has been promoted, the error is returned, and nothing is recorded. -/
theorem promotion_unrecorded :
    let applied := endOf (applyTo threeEvidence) failsSecond 0 threeSkills
    threeSkills.status? ⟨1⟩ = some .validated ∧ applied.state.status? ⟨1⟩ = some .active ∧
      applied.value.2 = some (.during (.apply ⟨2⟩) (.repo .unavailable)) ∧
      applied.state.runs.rows = [] := by
  decide +kernel

end SophiaOrchestrator.Skills.Learning
