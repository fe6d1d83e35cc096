import SophiaOrchestrator.Apply.Traces

/-!
# What a goroutine holds and spends

A third guarantee of the programs: which slots a goroutine holds when it takes or gives back
another one, and how many agents it has dispatched before it dispatches one more.
-/

namespace SophiaOrchestrator.Apply

open Effects Prog

/-! ## The guarantee -/

def Op.isImplement : Op → Bool
  | .dispatch _ req =>
    match req.target with
    | .implement _ => true
    | .buildRepair _ => false
  | _ => false

def Op.isRepair : Op → Bool
  | .dispatch _ req =>
    match req.target with
    | .implement _ => false
    | .buildRepair _ => true
  | _ => false

/-- What a goroutine holds and how many agents it has dispatched. -/
structure Usage where
  groupSlot : Option Nat := none
  implSlot : Option Nat := none
  governor : Bool := false
  implements : Nat := 0
  repairs : Nat := 0

def Usage.after (u : Usage) (ev : Event) : Usage where
  groupSlot :=
    match ev with
    | ⟨.takeGroupSlot x, .taken⟩ => some x
    | ⟨.releaseGroupSlot _, _⟩ => none
    | _ => u.groupSlot
  implSlot :=
    match ev with
    | ⟨.takeImplSlot _ team, .taken⟩ => some team
    | ⟨.releaseImplSlot _, _⟩ => none
    | _ => u.implSlot
  governor :=
    match ev with
    | ⟨.spawnAcquire _, .ok ()⟩ => true
    | ⟨.spawnRelease _, _⟩ => false
    | _ => u.governor
  implements := u.implements + ev.op.isImplement.toNat
  repairs := u.repairs + ev.op.isRepair.toNat

def usage : History → Usage
  | [] => {}
  | ev :: past => (usage past).after ev

@[simp] theorem usage_nil : usage [] = {} := rfl

@[simp] theorem usage_cons (ev : Event) (past : History) :
    usage (ev :: past) = (usage past).after ev := rfl

theorem Usage.after_of_not_metered (u : Usage) {ev : Event} (h : ev.op.metered = false) :
    u.after ev = u := by
  obtain ⟨op, answer⟩ := ev
  cases op <;> first | rfl | cases h

theorem usage_counts (h : History) :
    (usage h).implements = h.countP (fun ev => ev.op.isImplement) ∧
      (usage h).repairs = h.countP (fun ev => ev.op.isRepair) := by
  induction h with
  | nil => exact ⟨rfl, rfl⟩
  | cons ev past ih =>
    simp only [usage_cons, Usage.after, List.countP_cons, ih.1, ih.2]
    cases ev.op.isImplement <;> cases ev.op.isRepair <;> exact ⟨rfl, rfl⟩

/-- How many implement-agents are dispatched for one task, and how many agents to repair the
build of one group. -/
def implementBound : Nat := 4

def repairBound : Nat := 2

def Frugal (past : History) : Event → Prop
  | ⟨.takeGroupSlot _, _⟩ => (usage past).groupSlot = none
  | ⟨.releaseGroupSlot x, _⟩ => (usage past).groupSlot = some x ∧ (usage past).governor = false
  | ⟨.takeImplSlot x team, _⟩ => (usage past).implSlot = none ∧ ∃ k t, RunsTask past k x team t
  | ⟨.releaseImplSlot team, _⟩ => (usage past).implSlot = some team
  | ⟨.spawnAcquire x, _⟩ => (usage past).groupSlot = some x ∨ (usage past).implSlot ≠ none
  | ⟨.dispatch x ⟨.implement _, _, _⟩, _⟩ => (usage past).implements < implementBound ∧
      ∃ k team t, RunsTask past k x team t ∧ (usage past).implSlot = some team
  | ⟨.dispatch x ⟨.buildRepair _, _, _⟩, _⟩ => (usage past).repairs < repairBound ∧
      ∃ k p g, RunsGroup past k x p g ∧ ⟨.waitTasks k, ()⟩ ∈ past
  | ⟨.groupDone _ _, _⟩ => (usage past).groupSlot = none
  | _ => True

def FrugalHead : History → Prop
  | [] => True
  | ev :: past => Frugal past ev

theorem frugal_of_not_metered {ev : Event} (past : History) (h : ev.op.metered = false) :
    Frugal past ev := by
  obtain ⟨op, answer⟩ := ev
  cases op <;> trivial

/-! ## Rules -/

section Rules

variable {α β : Type} {h : History}

abbrev Meters (R : α → History → Prop) (p : Program α) (h : History) : Prop :=
  p.wp (histSem Op.Answers) FrugalHead R h

abbrev IsUnmetered (p : Program α) : Prop :=
  p.Uses Op.Answers (fun op => op.metered = false) fun _ => True

theorem usage_of_extends {h' : History} (hext : Extends (fun op => !op.metered) h h') :
    usage h' = usage h :=
  hext.eq_of_step fun _ past hop => (usage past).after_of_not_metered (by simpa using hop)

theorem meters_unmetered {R : α → History → Prop} {p : Program α} (hp : IsUnmetered p)
    (hR : ∀ value h', h <:+ h' → usage h' = usage h → R value h') : Meters R p h := by
  have hquiet : p.Uses Op.Answers (fun op => (!op.metered) = true) fun _ => True :=
    uses_mono hp (fun _ hop => by simpa using hop) fun _ hQ => hQ
  exact wp_of_uses (fun _ past hop => frugal_of_not_metered past (by simpa using hop)) hquiet
    fun value h' _ hext => hR value h' hext.suffix (usage_of_extends hext)

theorem meters_perform {R : α → History → Prop} {op : Op} {f : op.Ret → Program α}
    (hop : ∀ answer, Frugal h ⟨op, answer⟩)
    (hf : ∀ answer h', ⟨op, answer⟩ ∈ h' → h <:+ h' → usage h' = (usage h).after ⟨op, answer⟩ →
      Meters R (f answer) h') :
    Meters R (perform op >>= f) h :=
  wp_perform_bind (fun answer _ => hop answer) fun answer _ =>
    hf answer _ List.mem_cons_self (List.suffix_cons _ _) rfl

theorem meters_quiet {R : α → History → Prop} {op : Op} {f : op.Ret → Program α}
    (hop : op.metered = false)
    (hf : ∀ answer h', ⟨op, answer⟩ ∈ h' → h <:+ h' → usage h' = usage h →
      Meters R (f answer) h') :
    Meters R (perform op >>= f) h :=
  meters_perform (fun _ => frugal_of_not_metered h hop) fun answer h' hmem hsuffix husage =>
    hf answer h' hmem hsuffix (husage.trans ((usage h).after_of_not_metered hop))

theorem Op.not_metered_of_contends {op : Op} (h : op.contends = false) : op.metered = false := by
  cases op <;> first | rfl | cases h

theorem OfBoard.isUnmetered {p : Program α} (hp : OfBoard p) : IsUnmetered p := by
  refine uses_mono hp (fun op hop => ?_) fun _ _ => trivial
  rcases hop with hneutral | ⟨x, t, rfl⟩
  · refine Op.not_metered_of_contends ?_
    simpa using (Bool.and_eq_true_iff.mp hneutral).2
  · rfl

end Rules

/-! ## Programs that are not metered -/

theorem perform_isUnmetered {op : Op} (h : op.metered = false) :
    IsUnmetered (perform op : Program op.Ret) :=
  ⟨h, fun _ _ => trivial⟩

/-! ## The goroutine of a task -/

def TaskStage.budget : TaskStage → Nat
  | .fresh | .start => implementBound
  | .waits _ n _ | .freed n _ _ => n + 1
  | .ready slot n _ | .informed slot n _ _ | .prompted slot n _ => (if slot then n + 1 else 0) + 1
  | .sent slot n _ _ _ => if slot then n + 1 else 0
  | _ => 0

def TaskStage.slotted : TaskStage → Bool
  | .fresh | .leaving | .gone => false
  | _ => true

/-- What the goroutine of a task holds at a stage, and that the agents it has dispatched leave it
its budget. -/
structure InTask (k x team : Nat) (t : Task) (s : TaskStage) (h : History) : Prop where
  runs : RunsTask h k x team t
  implSlot : (usage h).implSlot = if s.slotted then some team else none
  governor : (usage h).governor = s.slot
  budget : (usage h).implements + s.budget ≤ implementBound

section Task

variable {cfg : RunConfig} {h : History} {k x team : Nat} {t : Task} {c : Change} {p : Phase}
  {group : Group} {s s' : TaskStage} {ev : Event}

theorem Op.not_metered_of_incidental {op : Op} (hop : op.incidental = true) :
    op.metered = false := by
  cases op <;> first | rfl | cases hop

theorem TaskMove.frugal (hmove : TaskMove cfg k x team c t s ev s') (hs : InTask k x team t s h) :
    Frugal h ev := by
  cases hmove with
  | stay hop | failed hop => exact frugal_of_not_metered h (Op.not_metered_of_incidental hop)
  | slotted | unslotted => exact ⟨hs.implSlot, k, t, hs.runs⟩
  | granted | refused => exact .inr (by simp [hs.implSlot, TaskStage.slotted])
  | dispatched =>
    refine ⟨lt_of_lt_of_le ?_ hs.budget, k, team, t, hs.runs, hs.implSlot⟩
    exact Nat.lt_add_of_pos_right (Nat.succ_pos _)
  | unslots => exact hs.implSlot
  | _ => trivial

theorem InTask.step (hs : InTask k x team t s h) (hmove : TaskMove cfg k x team c t s ev s') :
    InTask k x team t s' (ev :: h) := by
  have hruns := hs.runs.mono (List.suffix_cons ev h)
  have hless : ∀ n ≤ s.budget, (usage h).implements + n ≤ implementBound := fun n hn =>
    (Nat.add_le_add_left hn _).trans hs.budget
  have hquiet : ev.op.incidental = true → usage (ev :: h) = usage h := fun hop =>
    (usage h).after_of_not_metered (Op.not_metered_of_incidental hop)
  cases hmove with
  | stay hop =>
    have husage := hquiet hop
    exact ⟨hruns, by rw [husage, hs.implSlot], by rw [husage, hs.governor],
      by rw [husage]; exact hs.budget⟩
  | failed hop =>
    have husage := hquiet hop
    exact ⟨hruns, by rw [husage, hs.implSlot]; rfl, by rw [husage, hs.governor]; rfl,
      by rw [husage]; exact hless _ (Nat.zero_le _)⟩
  | slotted | unslots => exact ⟨hruns, rfl, hs.governor, hs.budget⟩
  | granted | freed => exact ⟨hruns, hs.implSlot, rfl, hs.budget⟩
  | dispatched => exact ⟨hruns, hs.implSlot, hs.governor, (Nat.succ_add _ _).trans_le hs.budget⟩
  | unprompted => exact ⟨hruns, hs.implSlot, hs.governor, hless _ (Nat.le_succ _)⟩
  | fallsBack => exact ⟨hruns, hs.implSlot, hs.governor, hless _ (Nat.le_add_left 1 _)⟩
  | told hs' => cases hs' <;> exact ⟨hruns, hs.implSlot, hs.governor, hless _ (Nat.zero_le _)⟩
  | _ =>
    first
    | exact ⟨hruns, hs.implSlot, hs.governor, hs.budget⟩
    | exact ⟨hruns, hs.implSlot, hs.governor, hless _ (Nat.zero_le _)⟩

theorem taskGoroutine_meters (hruns : RunsTask h k x team t) (huse : usage h = {}) :
    Meters (fun _ _ => True) (taskGoroutine cfg k x team c p group t) h := by
  have hfresh : InTask k x team t .fresh h :=
    ⟨hruns, by rw [huse]; rfl, by rw [huse]; rfl, by rw [huse]; rfl⟩
  refine wp_mono (taskGoroutine_follows.wp_hist ?_ hfresh) (fun _ hI => hI) fun _ _ _ => trivial
  exact fun s ev s' h hmove _ hs => ⟨hmove.frugal hs, hs.step hmove⟩

end Task

/-! ## The goroutine of a group -/

def GroupStage.slot : GroupStage → Bool
  | .slotted _ | .freed _ => true
  | .settled slot => slot
  | s => s.governor

def GroupStage.repairs : GroupStage → Nat
  | .building _ rounds | .broken _ rounds => rounds
  | .passed | .ended _ | .freed _ | .settled _ | .gone => 0
  | _ => repairBound

def GroupStage.gates : GroupStage → Bool
  | .joined | .detecting _ | .building _ _ | .broken _ _ | .passed => true
  | _ => false

/-- What the goroutine of a group holds at a stage, and that the repairs it has asked for leave it
its budget. -/
structure InGroup (k x : Nat) (p : Phase) (g : Group) (s : GroupStage) (h : History) : Prop where
  runs : RunsGroup h k x p g
  groupSlot : (usage h).groupSlot = if s.slot then some x else none
  governor : (usage h).governor = s.governor
  budget : (usage h).repairs + s.repairs ≤ repairBound
  waited : s.gates = true → ⟨.waitTasks k, ()⟩ ∈ h

section Group

variable {cfg : RunConfig} {h : History} {k x : Nat} {c : Change} {p : Phase} {g : Group}
  {s s' : GroupStage} {ev : Event}

theorem Op.not_metered_of_marginal {op : Op} (hop : op.marginal = true) : op.metered = false := by
  cases op <;> first | rfl | cases hop

theorem Op.not_metered_of_probes {op : Op} (hop : op.probes = true) : op.metered = false := by
  cases op <;> first | rfl | cases hop

theorem GroupMove.frugal (hmove : GroupMove cfg k x c p g s ev s') (hs : InGroup k x p g s h) :
    Frugal h ev := by
  have hquiet : ev.op.marginal = true → Frugal h ev := fun hop =>
    frugal_of_not_metered h (Op.not_metered_of_marginal hop)
  cases hmove with
  | stay _ hop | forsaken hop | failed hop | skips _ hop | begins hop | givesUp _ hop =>
    exact hquiet hop
  | probes hop => exact frugal_of_not_metered h (Op.not_metered_of_probes hop)
  | slotted | unslotted | leaves => exact hs.groupSlot
  | granted | refused => exact .inl hs.groupSlot
  | repairs =>
    exact ⟨lt_of_lt_of_le (Nat.lt_add_of_pos_right (Nat.succ_pos _)) hs.budget, k, p, g, hs.runs,
      hs.waited rfl⟩
  | unslots => exact ⟨hs.groupSlot, hs.governor⟩
  | _ => trivial

theorem InGroup.step (hs : InGroup k x p g s h) (hmove : GroupMove cfg k x c p g s ev s') :
    InGroup k x p g s' (ev :: h) := by
  have hruns := hs.runs.mono (List.suffix_cons ev h)
  have hwaited : s.gates = true → ⟨.waitTasks k, ()⟩ ∈ ev :: h := fun hgates =>
    List.mem_cons_of_mem _ (hs.waited hgates)
  -- Most moves take and give back no slot.
  have hsame : ∀ {s'' : GroupStage}, usage (ev :: h) = usage h → s''.slot = s.slot →
      s''.governor = s.governor → s''.repairs ≤ s.repairs → (s''.gates = true → s.gates = true) →
      InGroup k x p g s'' (ev :: h) := by
    intro s'' husage hslot hgovernor hrepairs hgates
    refine ⟨hruns, ?_, ?_, ?_, fun h => hwaited (hgates h)⟩
    · rw [husage, hs.groupSlot, hslot]
    · rw [husage, hs.governor, hgovernor]
    · rw [husage]
      exact (Nat.add_le_add_left hrepairs _).trans hs.budget
  have hquiet : ev.op.marginal = true → usage (ev :: h) = usage h := fun hop =>
    (usage h).after_of_not_metered (Op.not_metered_of_marginal hop)
  cases hmove with
  | stay _ hop => exact hsame (hquiet hop) rfl rfl le_rfl id
  | forsaken hop => exact hsame (hquiet hop) rfl rfl le_rfl Bool.false_ne_true.elim
  | failed hop => exact hsame (hquiet hop) rfl rfl (Nat.zero_le _) Bool.false_ne_true.elim
  | skips _ hop => exact hsame (hquiet hop) rfl rfl (Nat.zero_le _) fun _ => rfl
  | begins hop => exact hsame (hquiet hop) rfl rfl (Nat.sub_le _ _) fun _ => rfl
  | givesUp hgating hop =>
    cases hgating <;> exact hsame (hquiet hop) rfl rfl (Nat.zero_le _) Bool.false_ne_true.elim
  | probes hop =>
    exact hsame ((usage h).after_of_not_metered (Op.not_metered_of_probes hop)) rfl rfl le_rfl id
  | slotted | unslots => exact ⟨hruns, rfl, hs.governor, hs.budget, Bool.false_ne_true.elim⟩
  | granted => exact ⟨hruns, hs.groupSlot, rfl, hs.budget, Bool.false_ne_true.elim⟩
  | joins => exact ⟨hruns, hs.groupSlot, hs.governor, hs.budget, fun _ => List.mem_cons_self⟩
  | repairs =>
    exact ⟨hruns, hs.groupSlot, hs.governor, (Nat.succ_add_eq_add_succ _ _).trans_le hs.budget,
      fun _ => hwaited rfl⟩
  | frees hends =>
    have hspent : (usage h).repairs ≤ repairBound := (Nat.le_add_right _ _).trans hs.budget
    cases hends <;> exact ⟨hruns, hs.groupSlot, rfl, hspent, Bool.false_ne_true.elim⟩
  | _ =>
    first
    | exact hsame rfl rfl rfl le_rfl id
    | exact hsame rfl rfl rfl (Nat.zero_le _) Bool.false_ne_true.elim
    | exact hsame rfl rfl rfl (Nat.zero_le _) fun _ => rfl

theorem groupGoroutine_meters (hruns : RunsGroup h k x p g) (huse : usage h = {}) :
    Meters (fun _ _ => True) (groupGoroutine cfg k x c p g) h := by
  have hwaits : InGroup k x p g .waits h :=
    ⟨hruns, by rw [huse]; rfl, by rw [huse]; rfl, by rw [huse]; rfl, by simp [GroupStage.gates]⟩
  refine wp_mono (groupGoroutine_follows.wp_hist ?_ hwaits) (fun _ hI => hI) fun _ _ _ => trivial
  exact fun s ev s' h hmove _ hs => ⟨hmove.frugal hs, hs.step hmove⟩

end Group

/-! ## All programs -/

theorem main_frugal (cfg : RunConfig) (call : Call) :
    (main cfg call).wp (histSem Op.Answers) FrugalHead (fun _ _ => True) [] := by
  cases call with
  | execute c p status =>
    refine meters_unmetered ?_ fun _ _ _ _ => trivial
    refine uses_perform_bind rfl fun _ _ => uses_perform_bind rfl fun x _ => ?_
    refine uses_bind (executeIn_ofBoard cfg x c p).isUnmetered fun res _ => ?_
    exact ⟨rfl, fun _ _ => trivial⟩
  | goroutine k =>
    refine meters_quiet rfl fun answer h₁ hmem hsuffix husage => ?_
    match answer with
    | none => trivial
    | some (.group x i c p g) => exact groupGoroutine_meters ⟨i, c, hmem⟩ husage
    | some (.task x team c p g t) => exact taskGoroutine_meters ⟨c, p, g, hmem⟩ husage
  | cancel x => exact meters_unmetered (perform_isUnmetered rfl) fun _ _ _ _ => trivial

end SophiaOrchestrator.Apply
