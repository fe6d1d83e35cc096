import SophiaOrchestrator.Apply.Bounds
import SophiaOrchestrator.Governor.Spawn

/-!
# Team-leads that hold what their agents wait for

A team-lead keeps its slot of the spawn governor while the attempts at its tasks acquire
slots of the same governor.  The groups that an `Execute` works on at the same time are
limited, but nothing limits the team-leads of all `Execute`s together, and the check of the
governor's configuration asks for a positive limit only.
-/

namespace SophiaOrchestrator.Apply

open Effects Prog

/-! ## The state -/

def leadOf (h : History) : Option Nat :=
  h.findSome? fun
    | ⟨.beginGoroutine k, some (.group _ _ _ _ _)⟩ => some k
    | _ => none

def awaitsSlot (t : ApplyThread) : Bool :=
  pending (fun
    | .spawnAcquire _ | .backoff _ _ => true
    | _ => false) t

/-- The thread attempts a task of the team-lead: it has one of its implement slots. -/
def attempting (team : Nat) (t : ApplyThread) : Bool :=
  !t.prog.isDone && holdsImplSlot team t.hist

/-- The thread runs a team-lead with attempts, all of which wait for a slot. -/
def starving (π : ApplyPool) (t : ApplyThread) : Bool :=
  !t.prog.isDone && ((usage t.hist).governor &&
    match leadOf t.hist with
    | none => false
    | some team => π.threads.any (attempting team) &&
        π.threads.all fun t' => !attempting team t' || awaitsSlot t')

/-- Every slot of the governor is held by such a team-lead. -/
def Starved (cfg : RunConfig) (π : ApplyPool) : Prop :=
  cfg.spawnMax ≤ π.threads.countP (starving π)

instance (cfg : RunConfig) (π : ApplyPool) : Decidable (Starved cfg π) :=
  inferInstanceAs (Decidable (_ ≤ _))

/-! ## The condition -/

/-- An `Execute` begins only while the team-leads of all running ones leave a slot. -/
def leavesSlot (cfg : RunConfig) : StepCondition
  | .newExec _, _, _, s => decide ((s.running.length + 1) * cfg.maxParallelGroups < cfg.spawnMax)
  | _, _, _, _ => true

theorem running_length_step (sk : Skeleton) (op : Op) :
    (sk.step op).running.length ≤ sk.running.length ∨
      ((∃ threshold, op = .newExec threshold) ∧
        (sk.step op).running.length = sk.running.length + 1) := by
  cases op
  case newExec threshold => exact .inr ⟨⟨threshold, rfl⟩, rfl⟩
  case go gr => cases gr <;> exact .inl le_rfl
  case returned x res => exact .inl (List.length_filter_le _ _)
  all_goals exact .inl le_rfl

def LeavesSlot (cfg : RunConfig) (π : ApplyPool) : Prop :=
  π.state.running.length * cfg.maxParallelGroups < cfg.spawnMax

theorem reach_leavesSlot {cfg : RunConfig} {s : State} (hidle : s.Idle)
    (hrunning : s.running = []) (hmax : 0 < cfg.spawnMax) (moves : List ApplyMove)
    (hok : RunMeets cfg s (leavesSlot cfg) moves = true) :
    LeavesSlot cfg (reach cfg s moves) := by
  refine reach_pool_induction hidle (fun call => main_frugal cfg call)
    ?init (fun _ _ hinv => hinv) ?crash ?step moves hok
  case init => simpa [LeavesSlot, Pool.init, hrunning] using hmax
  case crash => exact fun _ _ => by simpa [LeavesSlot, State.crash] using hmax
  case step =>
    intro π tid ch call op next hist _ _ _ hop _ hinv
    show (handle cfg op ch π.state).2.skeleton.running.length * _ < _
    rw [handle_skeleton]
    rcases running_length_step π.state.skeleton op with hle | ⟨⟨threshold, rfl⟩, heq⟩
    · exact lt_of_le_of_lt (Nat.mul_le_mul_right _ hle) hinv
    · rw [heq]
      exact of_decide_eq_true hop

/-! ## Team-leads of running `Execute`s -/

section Lead

variable {cfg : RunConfig} {t : ApplyThread} (ht : Careful cfg t)
include ht

theorem Careful.no_groupSlot_of_groupDone {x k : Nat} {h : History} (hsuffix : h <:+ t.hist)
    (hdone : ⟨.groupDone x k, ()⟩ ∈ h) : (usage h).groupSlot = none := by
  induction h with
  | nil => cases hdone
  | cons ev past ih =>
    rcases List.mem_cons.mp hdone with rfl | hearlier
    · exact ht.frugal hsuffix
    · have hnone := ih ((List.suffix_cons ev past).trans hsuffix) hearlier
      obtain ⟨op, answer⟩ := ev
      cases op
      case takeGroupSlot y =>
        have hlate := (ht.justified hsuffix).ordered.stage_le (show 1 ≠ 0 by decide) hearlier
        exact absurd hlate (show ¬8 ≤ 1 by decide)
      case releaseGroupSlot y => rfl
      all_goals exact hnone

theorem Careful.not_groupDone_of_governor {k x : Nat} {p : Phase} {g : Group}
    (hruns : RunsGroup t.hist k x p g) (hgovernor : (usage t.hist).governor = true) (x' k' : Nat) :
    ⟨.groupDone x' k', ()⟩ ∉ t.hist := by
  intro hdone
  have hslot := ht.groupSlot_of_governor hruns List.suffix_rfl hgovernor
  rw [ht.no_groupSlot_of_groupDone List.suffix_rfl hdone] at hslot
  cases hslot

end Lead

theorem exists_of_leadOf {h : History} {team : Nat} (hlead : leadOf h = some team) :
    ∃ x p g, RunsGroup h team x p g := by
  obtain ⟨ev, hmem, hev⟩ := List.exists_of_findSome?_eq_some hlead
  split at hev
  · next k x i c p g =>
    cases hev
    exact ⟨x, p, g, i, c, hmem⟩
  · cases hev

theorem runsGroupOf_of_runsGroup {h : History} {k x : Nat} {p : Phase} {g : Group}
    (hruns : RunsGroup h k x p g) : runsGroupOf x h = true := by
  obtain ⟨i, c, hmem⟩ := hruns
  exact List.any_eq_true.mpr ⟨_, hmem, beq_self_eq_true x⟩

theorem leads_of_starving {cfg : RunConfig} {π : ApplyPool} (hπ : CarefulPool cfg π)
    {t : ApplyThread} (ht : t ∈ π.threads) (hstarving : starving π t = true) :
    ∃ x ∈ π.state.running, leads x t = true := by
  simp only [starving, Bool.and_eq_true] at hstarving
  obtain ⟨hlive, hgovernor, hlead⟩ := hstarving
  have hcareful := hπ.careful ht
  obtain ⟨tid, htid⟩ := List.mem_iff_getElem?.mp ht
  cases hof : leadOf t.hist with
  | none =>
    rw [hof] at hlead
    cases hlead
  | some team =>
    obtain ⟨x, p, g, hruns⟩ := exists_of_leadOf hof
    refine ⟨x, ?_, by simp [leads, hlive, hgovernor, runsGroupOf_of_runsGroup hruns]⟩
    have hopen : ¬Finished π.Did tid := by
      rintro (⟨x', k', hdone⟩ | ⟨team', k', hdone⟩)
      · exact hcareful.not_groupDone_of_governor hruns hgovernor x' k'
          ((Pool.did_iff_mem htid _).mp hdone)
      · obtain ⟨x', c', p', g', t', hbegin'⟩ := begun_of_taskDone hπ.explains hdone
        obtain ⟨i, c, hbegin⟩ := hruns
        obtain ⟨-, heq⟩ := begin_unique hcareful.good hbegin
          ((Pool.did_iff_mem htid _).mp hbegin')
        cases heq
    obtain ⟨i, c, hbegin⟩ := hruns
    have hdid := (Pool.did_iff_mem htid _).mpr hbegin
    have hbegun := hπ.holds.supervised.goroutine
      ⟨t, htid, by simpa using hlive⟩ hdid hopen
    exact hπ.holds.supervised.group (.inr hbegun) (hπ.holds.numbered.begun hdid).2.1.symm

/-- With a governor that its check accepts, no run in which the running `Execute`s leave a
slot reaches a state in which team-leads hold every slot and their attempts wait. -/
theorem never_starved (cfg : RunConfig) (gov : Governor.SpawnGovernor cfg.spawnMax) {s : State}
    (hidle : s.Idle) (hrunning : s.running = []) (moves : List ApplyMove)
    (hok : RunMeets cfg s (leavesSlot cfg) moves = true) :
    ¬Starved cfg (reach cfg s moves) := by
  intro hstarved
  have hmax : 0 < cfg.spawnMax := by
    have := gov.max_pos
    omega
  have hcount : (reach cfg s moves).threads.countP (starving (reach cfg s moves)) ≤
      (reach cfg s moves).state.running.length * cfg.maxParallelGroups := by
    refine Pool.countP_le_mul (q := leads)
      (fun t ht hstarving => leads_of_starving (reach_careful hidle moves) ht hstarving) ?_
    exact fun x _ => reach_leads_le hidle moves x
  have hleaves := reach_leavesSlot hidle hrunning hmax moves hok
  exact absurd (lt_of_le_of_lt (hstarved.trans hcount) hleaves) (lt_irrefl _)

def deployedGovernor : Governor.SpawnGovernor 6 where
  cfg := { max := 6 }
  max_eq := rfl
  valid := rfl

theorem never_starved_fourDispatches :
    RunMeets fallbackConfig {} (leavesSlot fallbackConfig) fourDispatches = true ∧
      (reach fallbackConfig {} fourDispatches).state.active = 1 ∧
      ¬Starved fallbackConfig (reach fallbackConfig {} fourDispatches) := by
  have hmeets : RunMeets fallbackConfig {} (leavesSlot fallbackConfig) fourDispatches = true := by
    decide +kernel
  exact ⟨hmeets, by decide +kernel,
    never_starved fallbackConfig deployedGovernor ⟨rfl, rfl, rfl⟩ rfl fourDispatches hmeets⟩

/-! ## The default limits -/

def freshSteps (tid n : Nat) (ch : Choice) : List ApplyMove :=
  (List.range n).map fun i => .step tid { ch with id := .ok (100 * tid + i) }

/-- Three changes execute their apply phases.  Each has two groups of one task; the six
team-leads are given the six slots before the first attempt asks for one. -/
def threeChanges : List ApplyMove :=
  let ch := sampleChoice [sampleEntry "api" ["routes"], sampleEntry "web" ["login"]]
  let executes : List ApplyMove := (List.range 3).map fun n =>
    .start (.execute { sampleChange .tasks with id := ⟨n⟩ }
      { samplePhase with id := ⟨n⟩, changeID := ⟨n⟩ } [])
  let goroutines : List ApplyMove := (List.range 12).map fun k => .start (.goroutine k)
  executes ++ goroutines ++ (List.range 3).flatMap (fun tid => freshSteps tid 25 ch) ++
    (List.range 6).flatMap (fun k => freshSteps (3 + k) 9 ch) ++
    (List.range 6).flatMap (fun k => freshSteps (9 + k) 8 ch)

/-- The limits are the default ones, and the governor is one that its check accepts. -/
theorem defaults_starve :
    deployedGovernor.cfg.validate = .ok () ∧ sampleConfig.spawnMax = 6 ∧
      sampleConfig.maxParallelGroups = 2 ∧
      (reach sampleConfig {} threeChanges).state.active = 6 ∧
      Starved sampleConfig (reach sampleConfig {} threeChanges) :=
  ⟨rfl, rfl, rfl, by decide +kernel, by decide +kernel⟩

end SophiaOrchestrator.Apply
