import SophiaOrchestrator.Effects.Holders
import SophiaOrchestrator.Apply.Changes
import SophiaOrchestrator.Apply.Usage

/-!
# The resource bounds of an `Execute`

Two semaphores limit what runs at the same time, and the retry loops limit what is dispatched
in total.  A group entry of a board is worked on by the goroutine that its `Execute` starts
for it, and a task entry of a group by the one that the team-lead starts.
-/

namespace SophiaOrchestrator.Apply

open Effects Prog

variable {x team k i : Nat} {h past hist : History} {kind : Op → Bool} {t : ApplyThread}
  {c : Change} {p : Phase} {g : Group} {ev : Event} {op : Op} {cfg : RunConfig} {ch : Choice}
  {s : State} {π : ApplyPool} {req : DispatchRequest} {answer : Except DispatchErr AgentResult}

/-! ## What a goroutine is doing -/

def runsGroupOf (x : Nat) (h : History) : Bool :=
  h.any fun
    | ⟨.beginGoroutine _, some (.group y _ _ _ _)⟩ => y == x
    | _ => false

def runsTaskOf (team : Nat) (h : History) : Bool :=
  h.any fun
    | ⟨.beginGoroutine _, some (.task _ m _ _ _ _)⟩ => m == team
    | _ => false

def begins (k : Nat) (h : History) : Bool :=
  h.any fun
    | ⟨.beginGoroutine n, _⟩ => n == k
    | _ => false

def pending (kind : Op → Bool) (t : ApplyThread) : Bool :=
  match t.prog with
  | .call op _ => kind op
  | .done _ => false

/-- The thread runs a team-lead of the `Execute`: it has been given a slot of the spawn
governor for it. -/
def leads (x : Nat) (t : ApplyThread) : Bool :=
  !t.prog.isDone && ((usage t.hist).governor && runsGroupOf x t.hist)

def implementing (team : Nat) (t : ApplyThread) : Bool :=
  pending Op.isImplement t && runsTaskOf team t.hist

def repairing (team : Nat) (t : ApplyThread) : Bool :=
  pending Op.isRepair t && begins team t.hist

def performedBy (kind : Op → Bool) (k : Nat) (π : ApplyPool) : Nat :=
  ((π.threads.filter fun t => begins k t.hist).map fun t =>
    t.hist.countP fun ev => kind ev.op).sum

def startedGroups : History → List (Group × Nat)
  | [] => []
  | ⟨.go (.group _ _ _ _ g), k⟩ :: past => startedGroups past ++ [(g, k)]
  | _ :: past => startedGroups past

def startedTasks : History → List (Task × Nat)
  | [] => []
  | ⟨.go (.task _ _ _ _ _ t), k⟩ :: past => startedTasks past ++ [(t, k)]
  | _ :: past => startedTasks past

theorem exists_of_runsGroupOf (hruns : runsGroupOf x h = true) :
    ∃ k p g, RunsGroup h k x p g := by
  obtain ⟨ev, hmem, hev⟩ := List.any_eq_true.mp hruns
  split at hev
  · next k y i c p g =>
    obtain rfl := beq_iff_eq.mp hev
    exact ⟨k, p, g, i, c, hmem⟩
  · cases hev

theorem exists_of_runsTaskOf (hruns : runsTaskOf team h = true) :
    ∃ k x t, RunsTask h k x team t := by
  obtain ⟨ev, hmem, hev⟩ := List.any_eq_true.mp hruns
  split at hev
  · next k x m c p g t =>
    obtain rfl := beq_iff_eq.mp hev
    exact ⟨k, x, t, c, p, g, hmem⟩
  · cases hev

theorem exists_of_begins (hbegins : begins k h = true) :
    ∃ a, ⟨.beginGoroutine k, a⟩ ∈ h := by
  obtain ⟨ev, hmem, hev⟩ := List.any_eq_true.mp hbegins
  split at hev
  · next n a =>
    obtain rfl := beq_iff_eq.mp hev
    exact ⟨a, hmem⟩
  · cases hev

theorem exists_of_pending (h : pending kind t = true) :
    ∃ op next, t.prog = .call op next ∧ kind op = true := by
  unfold pending at h
  split at h
  · next op next heq => exact ⟨op, next, heq, h⟩
  · cases h

theorem map_fst_startedGroups (h : History) :
    (startedGroups h).map Prod.fst = (view h).groups := by
  induction h with
  | nil => rfl
  | cons ev past ih =>
    obtain ⟨op, answer⟩ := ev
    cases op
    case go gr => cases gr <;> simp [startedGroups, View.after, ih]
    all_goals simpa [startedGroups, View.after] using ih

theorem map_fst_startedTasks (h : History) :
    (startedTasks h).map Prod.fst = (view h).tasks := by
  induction h with
  | nil => rfl
  | cons ev past ih =>
    obtain ⟨op, answer⟩ := ev
    cases op
    case go gr => cases gr <;> simp [startedTasks, View.after, ih]
    all_goals simpa [startedTasks, View.after] using ih

theorem mem_startedGroups (hmem : ⟨.go (.group x i c p g), k⟩ ∈ h) : (g, k) ∈ startedGroups h := by
  induction h with
  | nil => cases hmem
  | cons ev past ih =>
    rcases List.mem_cons.mp hmem with rfl | hpast
    · simp [startedGroups]
    · unfold startedGroups
      split
      · next heq => cases heq
      · next heq =>
        cases heq
        exact List.mem_append_left _ (ih hpast)
      · next heq =>
        cases heq
        exact ih hpast

theorem mem_startedTasks {t : Task} (hmem : ⟨.go (.task x team c p g t), k⟩ ∈ h) :
    (t, k) ∈ startedTasks h := by
  induction h with
  | nil => cases hmem
  | cons ev past ih =>
    rcases List.mem_cons.mp hmem with rfl | hpast
    · simp [startedTasks]
    · unfold startedTasks
      split
      · next heq => cases heq
      · next heq =>
        cases heq
        exact List.mem_append_left _ (ih hpast)
      · next heq =>
        cases heq
        exact ih hpast

/-! ## What the slots of a goroutine say -/

theorem mem_of_groupSlot (hslot : (usage h).groupSlot = some x) :
    ⟨.takeGroupSlot x, .taken⟩ ∈ h := by
  induction h with
  | nil => cases hslot
  | cons ev past ih =>
    simp only [usage_cons, Usage.after] at hslot
    split at hslot
    · cases hslot
      exact List.mem_cons_self
    · cases hslot
    · exact List.mem_cons_of_mem _ (ih hslot)

theorem mem_of_implSlot (hslot : (usage h).implSlot = some team) :
    ∃ x, ⟨.takeImplSlot x team, .taken⟩ ∈ h := by
  induction h with
  | nil => cases hslot
  | cons ev past ih =>
    simp only [usage_cons, Usage.after] at hslot
    split at hslot
    · cases hslot
      exact ⟨_, List.mem_cons_self⟩
    · cases hslot
    · exact (ih hslot).imp fun _ hmem => List.mem_cons_of_mem _ hmem

abbrev Careful (cfg : RunConfig) (t : ApplyThread) : Prop :=
  Pool.Keeps Op.Answers (fun call h => Good cfg call h ∧ FrugalHead h) t

section Thread

variable (ht : Careful cfg t)

include ht

theorem Careful.good : Pool.Keeps Op.Answers (Good cfg) t :=
  ht.imp fun _ hI => hI.1

theorem Careful.frugal (hsuffix : ev :: past <:+ t.hist) :
    Frugal past ev :=
  (ht.past _ hsuffix (List.cons_ne_nil _ _)).2

theorem Careful.justified (hsuffix : ev :: past <:+ t.hist) :
    Justified cfg t.call ev past :=
  (ht.past _ hsuffix (List.cons_ne_nil _ _)).1

theorem Careful.next {next : op.Ret → Program Unit} (hprog : t.prog = .call op next)
    (answer : op.Ret) (hanswer : op.Answers answer) :
    Justified cfg t.call ⟨op, answer⟩ t.hist ∧ Frugal t.hist ⟨op, answer⟩ :=
  Pool.Keeps.upcoming ht hprog answer hanswer

/-- The goroutine of a group holds slots of its own `Execute` only, and none of a
team-lead. -/
theorem Careful.group_slots (hruns : RunsGroup t.hist k x p g) (hsuffix : h <:+ t.hist) :
    (∀ y, (usage h).groupSlot = some y → y = x) ∧ (usage h).implSlot = none := by
  obtain ⟨i, c, hbegin⟩ := hruns
  constructor
  · intro y hslot
    obtain ⟨past, hpast, hjust⟩ :=
      justified_of_mem ht.good (hsuffix.subset (mem_of_groupSlot hslot))
    obtain ⟨k', p', g', i', c', hbegin'⟩ := hjust.reason
    obtain ⟨-, heq⟩ := begin_unique ht.good
      (((List.suffix_cons _ _).trans hpast).subset hbegin') hbegin
    cases heq
    rfl
  · refine Option.eq_none_iff_forall_ne_some.mpr fun team hslot => ?_
    obtain ⟨y, hmem⟩ := mem_of_implSlot hslot
    obtain ⟨past, hpast, -⟩ := justified_of_mem ht.good (hsuffix.subset hmem)
    obtain ⟨-, k', t', c', p', g', hbegin'⟩ := ht.frugal hpast
    obtain ⟨-, heq⟩ := begin_unique ht.good
      (((List.suffix_cons _ _).trans hpast).subset hbegin') hbegin
    cases heq

/-- A team-lead runs only while its goroutine holds a group slot of the `Execute`. -/
theorem Careful.groupSlot_of_governor (hruns : RunsGroup t.hist k x p g) (hsuffix : h <:+ t.hist)
    (hgovernor : (usage h).governor = true) : (usage h).groupSlot = some x := by
  induction h with
  | nil => cases hgovernor
  | cons ev past ih =>
    have hpast := (List.suffix_cons ev past).trans hsuffix
    have hfrugal := ht.frugal hsuffix
    have hslots := ht.group_slots hruns hpast
    obtain ⟨op, answer⟩ := ev
    cases op
    case takeGroupSlot y =>
      have hfree : (usage past).groupSlot = none := hfrugal
      have hheld := ih hpast hgovernor
      rw [hfree] at hheld
      cases hheld
    case releaseGroupSlot y =>
      have hnone : (usage past).governor = false := hfrugal.2
      have hsome : (usage past).governor = true := hgovernor
      rw [hnone] at hsome
      cases hsome
    case spawnAcquire y =>
      rcases hfrugal with hheld | himpl
      · rw [← hslots.1 y hheld]
        exact hheld
      · exact absurd hslots.2 himpl
    case spawnRelease y => cases hgovernor
    all_goals exact ih hpast hgovernor

theorem Careful.groupSlot_of_leads (hleads : leads x t = true) :
    (usage t.hist).groupSlot = some x := by
  simp only [leads, Bool.and_eq_true] at hleads
  obtain ⟨-, hgovernor, hruns⟩ := hleads
  obtain ⟨k, p, g, hgroup⟩ := exists_of_runsGroupOf hruns
  exact ht.groupSlot_of_governor hgroup List.suffix_rfl hgovernor

/-- An implement dispatch is made with a slot of the team-lead of the task. -/
theorem Careful.implSlot_of_implementing (himpl : implementing team t = true) :
    (usage t.hist).implSlot = some team := by
  obtain ⟨hpending, hruns⟩ := Bool.and_eq_true_iff.mp himpl
  obtain ⟨op, next, hprog, hkind⟩ := exists_of_pending hpending
  obtain ⟨k, x, task, c, p, g, hbegin⟩ := exists_of_runsTaskOf hruns
  cases op
  case dispatch y req =>
    obtain ⟨target, model, prompt⟩ := req
    cases target with
    | buildRepair gid => cases hkind
    | implement id =>
      obtain ⟨-, -, k', team', task', ⟨c', p', g', hbegin'⟩, hslot⟩ :=
        ht.next hprog (.error (.other "")) trivial
      obtain ⟨-, heq⟩ := begin_unique ht.good hbegin hbegin'
      cases heq
      exact hslot
  all_goals cases hkind

theorem Careful.dispatches (hsuffix : h <:+ t.hist) :
    (usage h).implements ≤ implementBound ∧ (usage h).repairs ≤ repairBound := by
  induction h with
  | nil => exact ⟨Nat.zero_le _, Nat.zero_le _⟩
  | cons ev past ih =>
    have hfrugal := ht.frugal hsuffix
    obtain ⟨himpl, hrep⟩ := ih ((List.suffix_cons ev past).trans hsuffix)
    obtain ⟨op, answer⟩ := ev
    cases op
    case dispatch y req =>
      obtain ⟨target, model, prompt⟩ := req
      cases target with
      | implement id => exact ⟨hfrugal.1, hrep⟩
      | buildRepair gid => exact ⟨himpl, hfrugal.1⟩
    all_goals exact ⟨himpl, hrep⟩

end Thread

/-! ## The semaphores -/

def Op.coordinates : Op → Bool
  | .newExec _ | .newDAG _ _ | .signal _ _ _ | .receive _ _ | .takeGroupSlot _
  | .releaseGroupSlot _ => true
  | _ => false

def State.coordination (x : Nat) (s : State) : (GroupID → Channel) × Nat :=
  ((s.execs x).channels, (s.execs x).groupSlots)

theorem coordination_modifyExec_same (s : State) (x y : Nat) {f : Exec → Exec}
    (hf : ((f (s.execs y)).channels, (f (s.execs y)).groupSlots) = s.coordination y) :
    (s.modifyExec y f).coordination x = s.coordination x := by
  by_cases hx : x = y
  · subst hx
    rw [← hf]
    simp [State.coordination, State.modifyExec]
  · simp [State.coordination, State.modifyExec, Function.update_of_ne hx]

/-- Work leaves the channels and the group slots alone. -/
theorem handle_coordination (cfg : RunConfig) (ch : Choice) (s : State) (x : Nat)
    (hop : op.coordinates = false) :
    (handle cfg op ch s).2.coordination x = s.coordination x := by
  cases op
  case newExec | newDAG | signal | receive | takeGroupSlot | releaseGroupSlot => cases hop
  case go gr =>
    cases gr with
    | group y i c p g =>
      simp only [handle, State.spawn]
      exact coordination_modifyExec_same _ x y rfl
    | task y team c p g t => rfl
  case groupDone y k =>
    exact coordination_modifyExec_same s x y
      (f := fun e => { e with outstanding := e.outstanding.filter (· ≠ k) }) rfl
  case cancelParent y =>
    simp only [handle]
    exact coordination_modifyExec_same s x y rfl
  case recordQuotaOutcome y err =>
    simp only [handle]
    refine coordination_modifyExec_same s x y ?_
    simp only [Exec.recordQuotaOutcome]
    split
    · rfl
    · split <;> rfl
  case recordSuccess y | setResult y g outcome =>
    simp only [handle]
    exact coordination_modifyExec_same s x y rfl
  case takeImplSlot y team =>
    simp only [handle]
    split <;> rfl
  case saveBoard ctx row | saveGroup y row | saveTask y t =>
    exact write_keeps (State.coordination x) s _ _ fun s' hs' =>
      withDb_keeps (State.coordination x) (fun _ => rfl) hs'
  case claimTask y t sid => exact claim_keeps (State.coordination x) s _ _ t sid fun _ => rfl
  case saveSession y sess =>
    exact saveSession_keeps (State.coordination x) s _ _ sess fun _ => rfl
  case spawnAcquire y => exact acquire_keeps (State.coordination x) s cfg _ ch fun _ => rfl
  case spawnRelease y => exact spawnRelease_keeps (State.coordination x) s _ _ fun _ => rfl
  all_goals rfl

def holdsGroupSlot (x : Nat) (h : History) : Bool :=
  decide ((usage h).groupSlot = some x)

def holdsImplSlot (team : Nat) (h : History) : Bool :=
  decide ((usage h).implSlot = some team)

theorem groupSlots_of_work (cfg : RunConfig) (ch : Choice) (s : State) (x : Nat)
    (hop : op.coordinates = false) :
    ((handle cfg op ch s).2.execs x).groupSlots = (s.execs x).groupSlots :=
  congrArg Prod.snd (handle_coordination cfg ch s x hop)

/-- What one operation does to the group slots of an `Execute`, unless it begins the
`Execute`. -/
theorem groupSlots_metered (hx : ∀ threshold, op = .newExec threshold → x ≠ s.nextExec)
    (henabled : enabled cfg op ch s = true) (hfrugal : Frugal hist ⟨op, (handle cfg op ch s).1⟩) :
    Pool.Metered cfg.maxParallelGroups (s.execs x).groupSlots
      ((handle cfg op ch s).2.execs x).groupSlots (holdsGroupSlot x hist)
      (holdsGroupSlot x (⟨op, (handle cfg op ch s).1⟩ :: hist)) := by
  cases hop : op.coordinates with
  | false =>
    rw [groupSlots_of_work cfg ch s x hop]
    cases op <;> first | exact .same _ le_rfl | cases hop
  | true =>
    cases op
    case newExec threshold =>
      simp only [handle, Function.update_of_ne (hx threshold rfl)]
      exact .same _ le_rfl
    case takeGroupSlot y =>
      have hfree : (usage hist).groupSlot = none := hfrugal
      simp only [handle]
      split
      · next hready =>
        have hlt : (s.execs y).groupSlots < cfg.maxParallelGroups := by
          simpa [enabled, slotEnabled, hready] using henabled
        by_cases hxy : y = x
        · subst hxy
          simpa [holdsGroupSlot, Usage.after, hfree, State.modifyExec] using
            Pool.Metered.take hlt le_rfl
        · simp only [State.modifyExec, Function.update_of_ne (Ne.symm hxy)]
          simpa [holdsGroupSlot, Usage.after, hfree, hxy] using
            Pool.Metered.same false le_rfl
      · exact .same _ le_rfl
    case releaseGroupSlot y =>
      obtain ⟨hheld, -⟩ := hfrugal
      by_cases hxy : y = x
      · subst hxy
        simpa [handle, holdsGroupSlot, Usage.after, hheld, State.modifyExec] using
          Pool.Metered.give (by omega)
      · simp only [handle, State.modifyExec, Function.update_of_ne (Ne.symm hxy)]
        simpa [holdsGroupSlot, Usage.after, hheld, hxy] using Pool.Metered.same false le_rfl
    case newDAG y ids =>
      refine .same _ (le_of_eq ?_)
      by_cases hxy : x = y
      · simp [handle, State.modifyExec, hxy]
      · simp [handle, State.modifyExec, Function.update_of_ne hxy]
    case signal y g r =>
      refine .same _ (le_of_eq ?_)
      by_cases hxy : x = y
      · simp only [handle, State.modifyExec, hxy, Function.update_self, Exec.signal]
        split <;> rfl
      · simp [handle, State.modifyExec, Function.update_of_ne hxy]
    case receive y dep =>
      refine .same _ (le_of_eq ?_)
      simp only [handle, State.receiveFrom]
      split
      · rfl
      · by_cases hxy : x = y
        · simp [State.modifyExec, hxy]
        · simp [State.modifyExec, Function.update_of_ne hxy]
      · rfl
      · rfl
    all_goals cases hop

def State.implSlots (team : Nat) (s : State) : Nat :=
  (s.teams team).implSlots

theorem implSlots_metered (team : Nat) (henabled : enabled cfg op ch s = true)
    (hfrugal : Frugal hist ⟨op, (handle cfg op ch s).1⟩) :
    Pool.Metered cfg.maxParallelImplementsPerGroup (s.implSlots team)
      ((handle cfg op ch s).2.implSlots team) (holdsImplSlot team hist)
      (holdsImplSlot team (⟨op, (handle cfg op ch s).1⟩ :: hist)) := by
  cases op
  case takeImplSlot x k =>
    obtain ⟨hfree, -⟩ := hfrugal
    simp only [handle]
    split
    · next hready =>
      have hlt : s.implSlots k < cfg.maxParallelImplementsPerGroup := by
        simpa [State.implSlots, enabled, slotEnabled, hready] using henabled
      by_cases hk : k = team
      · subst hk
        simpa [holdsImplSlot, Usage.after, hfree, State.implSlots, State.modifyTeam] using
          Pool.Metered.take hlt le_rfl
      · simp only [State.implSlots, State.modifyTeam, Function.update_of_ne (Ne.symm hk)]
        simpa [holdsImplSlot, Usage.after, hfree, hk] using Pool.Metered.same false le_rfl
    · exact .same _ le_rfl
  case releaseImplSlot k =>
    have hheld : (usage hist).implSlot = some k := hfrugal
    by_cases hk : k = team
    · subst hk
      simpa [handle, holdsImplSlot, Usage.after, hheld, State.implSlots, State.modifyTeam] using
        Pool.Metered.give (by omega)
    · simp only [handle, State.implSlots, State.modifyTeam, Function.update_of_ne (Ne.symm hk)]
      simpa [holdsImplSlot, Usage.after, hheld, hk] using Pool.Metered.same false le_rfl
  all_goals
    exact .same _ (handle_implSlots cfg ch s team (by simp) (by simp)).ge

/-! ## Runs -/

abbrev CarefulPool (cfg : RunConfig) (π : ApplyPool) : Prop :=
  Pool.LogInv Op.Answers (fun call h => Good cfg call h ∧ FrugalHead h)
    (fun D L s => Disciplined D L s.skeleton) π

theorem CarefulPool.explains (hπ : CarefulPool cfg π) :
    Pool.Explained (Good cfg) π.Did :=
  hπ.explained.imp fun _ _ hI => hI.1

theorem CarefulPool.careful (hπ : CarefulPool cfg π) (ht : t ∈ π.threads) : Careful cfg t :=
  hπ.keeps t ht

theorem not_holdsGroupSlot_of_next (hπ : CarefulPool cfg π) :
    Pool.holders (holdsGroupSlot π.state.nextExec) π = 0 := by
  refine List.countP_eq_zero.mpr fun t ht hholds => ?_
  have hslot : (usage t.hist).groupSlot = some π.state.nextExec := by
    simpa [holdsGroupSlot] using (Bool.and_eq_true_iff.mp hholds).2
  obtain ⟨tid, htid⟩ := List.mem_iff_getElem?.mp ht
  obtain ⟨k, i, c, p, g, hbegin⟩ := begun_of_takeGroupSlot hπ.explains
    ((Pool.did_iff_mem htid _).mpr (mem_of_groupSlot hslot))
  exact lt_irrefl _ (exec_lt_of_begin hπ.explains hπ.holds.numbered hbegin)

section Runs

variable (hidle : s.Idle) (moves : List ApplyMove)

include hidle

theorem reach_careful : CarefulPool cfg (reach cfg s moves) :=
  reach_disciplined_with hidle (fun call => main_frugal cfg call)
    (Pool.meets_eachStep_true (handler cfg) (main cfg) (Pool.init s) moves)

theorem groupSlots_limited (x : Nat) :
    Pool.Limited (holdsGroupSlot x) (fun s => (s.execs x).groupSlots) cfg.maxParallelGroups
      (reach cfg s moves) := by
  refine reach_pool_induction hidle (fun call => main_frugal cfg call) (Pool.limited_init s)
    (fun π call hlim => hlim.start (main cfg) call rfl) (fun π _ => Pool.limited_crash _)
    ?_ moves (Pool.meets_eachStep_true _ _ _ moves)
  intro π tid ch call op next hist hπ hthread henabled _ hfrugal hlim
  by_cases hnew : ∃ threshold, op = .newExec threshold ∧ x = π.state.nextExec
  · obtain ⟨threshold, rfl, rfl⟩ := hnew
    exact Pool.Limited.reset (not_holdsGroupSlot_of_next hπ) hthread rfl
  · exact hlim.step hthread (groupSlots_metered
      (fun threshold hop hx => hnew ⟨threshold, hop, hx⟩) henabled hfrugal)

theorem implSlots_limited (team : Nat) :
    Pool.Limited (holdsImplSlot team) (State.implSlots team) cfg.maxParallelImplementsPerGroup
      (reach cfg s moves) := by
  refine reach_pool_induction hidle (fun call => main_frugal cfg call) (Pool.limited_init s)
    (fun π call hlim => hlim.start (main cfg) call rfl) (fun π _ => Pool.limited_crash _)
    ?_ moves (Pool.meets_eachStep_true _ _ _ moves)
  intro π tid ch call op next hist _ hthread henabled _ hfrugal hlim
  exact hlim.step hthread (implSlots_metered team henabled hfrugal)

/-- The team-leads of one `Execute` that run at the same time. -/
theorem reach_leads_le (x : Nat) :
    (reach cfg s moves).threads.countP (leads x) ≤ cfg.maxParallelGroups := by
  have hπ : CarefulPool cfg (reach cfg s moves) := reach_careful hidle moves
  refine le_trans (List.countP_mono_left fun t ht hleads => ?_)
    (groupSlots_limited hidle moves x).bounded
  have hslot := (hπ.careful ht).groupSlot_of_leads hleads
  have hlive := (Bool.and_eq_true_iff.mp hleads).1
  simp [hlive, holdsGroupSlot, hslot]

end Runs

/-! ## Entries of a board -/

theorem take_append_prefix {α : Type} {l : List α} {a : α} (h : l[i]? = some a) :
    l.take i ++ [a] <+: l := by
  have htake : l.take (i + 1) = l.take i ++ [a] := by
    rw [List.take_add_one, h]
    rfl
  exact htake ▸ List.take_prefix (i + 1) l

section Entries

variable (ht : Pool.Keeps Op.Answers (Good cfg) t)

include ht

/-- A team-lead starts one goroutine for each task entry of its group, in their order. -/
theorem tasks_prefix (hruns : RunsGroup t.hist team x p g) (hsuffix : h <:+ t.hist) :
    (view h).tasks <+: g.tasks := by
  obtain ⟨i, c, hbegin⟩ := hruns
  induction h with
  | nil => exact List.nil_prefix
  | cons ev past ih =>
    have hpast := (List.suffix_cons ev past).trans hsuffix
    obtain ⟨op, answer⟩ := ev
    cases op
    case go gr =>
      cases gr with
      | group y j c' p' g' => exact ih hpast
      | task y m c' p' g' task =>
        have hjust : Justified cfg t.call _ past :=
          ht.past _ hsuffix (List.cons_ne_nil _ _)
        obtain ⟨-, p'', g'', ⟨i', c'', hbegin'⟩, -, htask, htake⟩ := hjust.reason
        obtain ⟨-, heq⟩ := begin_unique ht (hpast.subset hbegin') hbegin
        cases heq
        show (view past).tasks ++ [task] <+: g.tasks
        rw [htake]
        exact take_append_prefix htask
    all_goals exact ih hpast

theorem groups_prefix (hexec : IsExecute t.call t.hist x p) (hsuffix : h <:+ t.hist)
    (hsome : (view h).groups ≠ []) :
    ∃ board groups, board <:+ t.hist ∧ BoardOf board x p.id groups ∧
      (view h).groups <+: groups := by
  obtain ⟨⟨c, status, hcall⟩, threshold, hnew⟩ := hexec
  induction h with
  | nil => exact absurd rfl hsome
  | cons ev past ih =>
    have hpast := (List.suffix_cons ev past).trans hsuffix
    obtain ⟨op, answer⟩ := ev
    cases op
    case go gr =>
      cases gr with
      | task y m c' p' g' task => exact ih hpast hsome
      | group y j c' p' g' =>
        have hjust : Justified cfg t.call _ past :=
          ht.past _ hsuffix (List.cons_ne_nil _ _)
        obtain ⟨⟨-, threshold', hnew'⟩, ⟨status', hcall'⟩, -, groups, hboard, hentry, htake⟩ :=
          hjust.reason
        cases eq_of_single ht hnew (hpast.subset hnew') rfl rfl (show 1 ≠ 0 by decide) rfl
        cases hcall.symm.trans hcall'
        refine ⟨past, groups, hpast, hboard, ?_⟩
        show (view past).groups ++ [g'] <+: groups
        rw [htake]
        exact take_append_prefix hentry
    all_goals exact ih hpast hsome

end Entries

/-! ## The bounds -/

section Pool

variable (hπ : CarefulPool cfg π)

include hπ

/-- A team-lead asks for a repair after its tasks are done, and a task that is done dispatches
nothing. -/
theorem not_implementing_of_repairing {t' : ApplyThread} (ht : t ∈ π.threads) (ht' : t' ∈ π.threads)
    (hrepair : repairing team t = true) (himpl : implementing team t' = true) : False := by
  obtain ⟨hpending, hbegins⟩ := Bool.and_eq_true_iff.mp hrepair
  obtain ⟨hpending', hruns'⟩ := Bool.and_eq_true_iff.mp himpl
  obtain ⟨u, hu⟩ := List.mem_iff_getElem?.mp ht
  obtain ⟨v, hv⟩ := List.mem_iff_getElem?.mp ht'
  -- The team-lead has waited for its tasks.
  have hwait : π.Did u ⟨.waitTasks team, ()⟩ := by
    obtain ⟨op, next, hprog, hkind⟩ := exists_of_pending hpending
    obtain ⟨a, hbegin⟩ := exists_of_begins hbegins
    cases op
    case dispatch y req =>
      obtain ⟨target, model, prompt⟩ := req
      cases target with
      | implement id => cases hkind
      | buildRepair gid =>
        obtain ⟨-, -, k, p, g, ⟨i, c, hbegin'⟩, hwaited⟩ :=
          (hπ.careful ht).next hprog (.error (.other "")) trivial
        obtain ⟨rfl, -⟩ := begin_unique (hπ.careful ht).good hbegin' hbegin
        exact (Pool.did_iff_mem hu _).mpr hwaited
    all_goals cases hkind
  -- So the task is done.
  obtain ⟨k, x, task, c, p, g, hbegin⟩ := exists_of_runsTaskOf hruns'
  have hdid := (Pool.did_iff_mem hv _).mpr hbegin
  obtain ⟨e, hgo⟩ := hπ.holds.numbered.starter (hπ.holds.numbered.begun hdid).2.1.symm
  obtain ⟨w, hdone⟩ := (hπ.holds.awaited.tasks team).done_of_waited ⟨u, hwait⟩ k
    ⟨e, x, c, p, g, task, hgo⟩
  obtain ⟨x', c', p', g', task', hbegin'⟩ := begun_of_taskDone hπ.explains hdone
  obtain rfl := hπ.holds.numbered.beginner hdid hbegin'
  -- A dispatch does not come after the end of the goroutine.
  obtain ⟨op, next, hprog, hkind⟩ := exists_of_pending hpending'
  cases op
  case dispatch y req =>
    obtain ⟨target, model, prompt⟩ := req
    cases target with
    | buildRepair gid => cases hkind
    | implement id =>
      have hjust := ((hπ.careful ht').next hprog (.error (.other "")) trivial).1
      have hlate := hjust.ordered.stage_le (show 3 ≠ 0 by decide)
        ((Pool.did_iff_mem hv _).mp hdone)
      exact absurd hlate (show ¬8 ≤ 3 by decide)
  all_goals cases hkind

theorem performedBy_le {bound : Nat}
    (hkind : ∀ t, Careful cfg t → (t.hist.countP fun ev => kind ev.op) ≤ bound) (k : Nat) :
    performedBy kind k π ≤ bound := by
  refine Pool.sum_filter_le ?_ fun t ht => hkind t (hπ.keeps t ht)
  intro i j t t' hi hj hbegins hbegins'
  obtain ⟨a, hbegin⟩ := exists_of_begins hbegins
  obtain ⟨a', hbegin'⟩ := exists_of_begins hbegins'
  exact hπ.holds.numbered.beginner ((Pool.did_iff_mem hi _).mpr hbegin)
    ((Pool.did_iff_mem hj _).mpr hbegin')

theorem entry_of_implement (ht : t ∈ π.threads) {id : TaskID}
    (hmem : ⟨.dispatch x req, answer⟩ ∈ t.hist) (htarget : req.target = .implement id) :
    ∃ k team task, RunsTask t.hist k x team task ∧ task.id = id ∧
      ∃ lead ∈ π.threads, ∃ p g, RunsGroup lead.hist team x p g ∧
        (task, k) ∈ startedTasks lead.hist := by
  have hcareful := hπ.careful ht
  obtain ⟨v, hv⟩ := List.mem_iff_getElem?.mp ht
  obtain ⟨past, hsuffix, hjust⟩ := justified_of_mem hcareful.good hmem
  have hpast := (List.suffix_cons _ past).trans hsuffix
  obtain ⟨task, ⟨k, team, sid, hruns, -⟩, rfl⟩ := hjust.reason id htarget
  obtain ⟨c, p, g, hbegin⟩ := hruns.mono hpast
  have hdid := (Pool.did_iff_mem hv _).mpr hbegin
  obtain ⟨u, hgo⟩ := hπ.holds.numbered.starter (hπ.holds.numbered.begun hdid).2.1.symm
  obtain ⟨i, c', p', g', hlead, -⟩ := teamLead_of_go hπ.explains hgo
  obtain ⟨lead, hu, hstarted⟩ := hgo
  exact ⟨k, team, task, ⟨c, p, g, hbegin⟩, rfl, lead, List.mem_of_getElem? hu, p', g',
    ⟨i, c', (Pool.did_iff_mem hu _).mp hlead⟩, mem_startedTasks hstarted⟩

theorem entry_of_repair (ht : t ∈ π.threads) {gid : GroupID}
    (hmem : ⟨.dispatch x req, answer⟩ ∈ t.hist) (htarget : req.target = .buildRepair gid) :
    ∃ k p g, RunsGroup t.hist k x p g ∧
      ∃ exec ∈ π.threads, IsExecute exec.call exec.hist x p ∧ (g, k) ∈ startedGroups exec.hist := by
  have hcareful := hπ.careful ht
  obtain ⟨v, hv⟩ := List.mem_iff_getElem?.mp ht
  obtain ⟨past, hsuffix, -⟩ := justified_of_mem hcareful.good hmem
  obtain ⟨target, model, prompt⟩ := req
  subst htarget
  obtain ⟨-, k, p, g, hruns, -⟩ := hcareful.frugal hsuffix
  obtain ⟨i, c, hbegin⟩ := hruns.mono ((List.suffix_cons _ past).trans hsuffix)
  obtain ⟨e, exec, he, hstarted⟩ :=
    started_of_begin hπ.holds.numbered ((Pool.did_iff_mem hv _).mpr hbegin)
  have hexec := List.mem_of_getElem? he
  obtain ⟨past', hsuffix', hjust'⟩ :=
    justified_of_mem (hπ.careful hexec).good hstarted
  exact ⟨k, p, g, ⟨i, c, hbegin⟩, exec, hexec,
    hjust'.reason.1.mono ((List.suffix_cons _ past').trans hsuffix'), mem_startedGroups hstarted⟩

end Pool

/-- The resource bounds of every `Execute` in a pool. -/
structure WithinBounds (cfg : RunConfig) (π : ApplyPool) : Prop where
  /-- The team-leads that run at the same time. -/
  teamLeads : ∀ x, π.threads.countP (leads x) ≤ cfg.maxParallelGroups
  /-- The implement dispatches of one group entry in flight at the same time. -/
  inFlight : ∀ team, π.threads.countP (implementing team) ≤ cfg.maxParallelImplementsPerGroup
  /-- A build repair of a group entry overlaps none of its implement dispatches. -/
  apart : ∀ team, ∀ t ∈ π.threads, ∀ t' ∈ π.threads,
    ¬(repairing team t = true ∧ implementing team t' = true)
  /-- The implement dispatches of one goroutine, and its build repairs. -/
  implements : ∀ k, performedBy Op.isImplement k π ≤ 4
  repairs : ∀ k, performedBy Op.isRepair k π ≤ 2
  /-- The goroutines that dispatch are those of the task and group entries. -/
  implementer : ∀ t ∈ π.threads, ∀ x req answer id, ⟨.dispatch x req, answer⟩ ∈ t.hist →
    req.target = .implement id → ∃ k team task, RunsTask t.hist k x team task ∧ task.id = id ∧
      ∃ lead ∈ π.threads, ∃ p g, RunsGroup lead.hist team x p g ∧
        (task, k) ∈ startedTasks lead.hist
  repairer : ∀ t ∈ π.threads, ∀ x req answer gid, ⟨.dispatch x req, answer⟩ ∈ t.hist →
    req.target = .buildRepair gid → ∃ k p g, RunsGroup t.hist k x p g ∧
      ∃ exec ∈ π.threads, IsExecute exec.call exec.hist x p ∧ (g, k) ∈ startedGroups exec.hist
  /-- Each entry has one goroutine at most. -/
  taskEntries : ∀ t ∈ π.threads, ∀ team x p g, RunsGroup t.hist team x p g →
    (startedTasks t.hist).map Prod.fst <+: g.tasks
  groupEntries : ∀ t ∈ π.threads, ∀ x p, IsExecute t.call t.hist x p → startedGroups t.hist ≠ [] →
    ∃ board groups, board <:+ t.hist ∧ BoardOf board x p.id groups ∧
      (startedGroups t.hist).map Prod.fst <+: groups

/-- The bounds hold in every run, for every board, all answers of the agents, the builds and
the governor, and every interleaving. -/
theorem resources_bounded (cfg : RunConfig) {s : State} (hidle : s.Idle)
    (moves : List ApplyMove) : WithinBounds cfg (reach cfg s moves) := by
  have hπ : CarefulPool cfg (reach cfg s moves) := reach_careful hidle moves
  refine ⟨fun x => ?_, fun team => ?_, ?_, ?_, ?_, ?_, ?_, ?_, ?_⟩
  · exact reach_leads_le hidle moves x
  · refine le_trans (List.countP_mono_left fun t ht himpl => ?_)
      (implSlots_limited hidle moves team).bounded
    have hslot := (hπ.careful ht).implSlot_of_implementing himpl
    obtain ⟨op, next, hprog, -⟩ := exists_of_pending (Bool.and_eq_true_iff.mp himpl).1
    simp [hprog, Prog.isDone, holdsImplSlot, hslot]
  · exact fun team t ht t' ht' ⟨hrepair, himpl⟩ =>
      not_implementing_of_repairing hπ ht ht' hrepair himpl
  · exact performedBy_le hπ fun t ht => (usage_counts t.hist).1 ▸ (ht.dispatches List.suffix_rfl).1
  · exact performedBy_le hπ fun t ht => (usage_counts t.hist).2 ▸ (ht.dispatches List.suffix_rfl).2
  · exact fun t ht x req answer id hmem htarget => entry_of_implement hπ ht hmem htarget
  · exact fun t ht x req answer gid hmem htarget => entry_of_repair hπ ht hmem htarget
  · intro t ht team x p g hruns
    rw [map_fst_startedTasks]
    exact tasks_prefix (hπ.careful ht).good hruns List.suffix_rfl
  · intro t ht x p hexec hsome
    rw [map_fst_startedGroups]
    refine groups_prefix (hπ.careful ht).good hexec List.suffix_rfl fun hnil => hsome ?_
    exact List.map_eq_nil_iff.mp ((map_fst_startedGroups t.hist).trans hnil)

def fallbackConfig : RunConfig :=
  { sampleConfig with fallbackModel := "small" }

/-- An `Execute` with one group of one task, whose agent fails twice, then has no quota left
and fails with the fallback model. -/
def fourDispatches : List ApplyMove :=
  let ch := sampleChoice [sampleEntry "web" ["login"]]
  let failed := { ch with dispatch := .error (.other "") }
  let quota := { ch with dispatch := .error (.quota ⟨"p", "m", 0, ""⟩) }
  sampleExecute :: steps 0 20 ch ++ .start (.goroutine 0) :: steps 1 12 ch ++
    .start (.goroutine 1) :: steps 2 34 failed ++ steps 2 1 quota ++ steps 2 6 failed

theorem resources_bounded_fourDispatches :
    performedBy Op.isImplement 1 (reach fallbackConfig {} fourDispatches) = 4 ∧
      (reach fallbackConfig {} fourDispatches).threads.countP (leads 0) = 1 ∧
      WithinBounds fallbackConfig (reach fallbackConfig {} fourDispatches) :=
  ⟨by decide +kernel, by decide +kernel,
    resources_bounded fallbackConfig ⟨rfl, rfl, rfl⟩ fourDispatches⟩

end SophiaOrchestrator.Apply
