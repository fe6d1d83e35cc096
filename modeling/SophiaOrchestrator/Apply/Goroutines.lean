import SophiaOrchestrator.Apply.Runs

/-!
# The goroutines of a run

What holds of the goroutines in every run, whatever the environment does: which threads are
started for which groups and tasks, and what their histories have in common.
-/

namespace SophiaOrchestrator.Apply

open Effects Prog

variable {D : ApplyLog} {tid i e k team v x u : Nat} {cfg : RunConfig} {op : Op} {s : State}
  {posted : List Goroutine} {gr : Goroutine} {sk sk' : Skeleton} {c : Change} {p : Phase}
  {g : Group} {t : Task} {L : Nat → Prop} {Extra : Call → History → Prop}
  {Inv : ApplyLog → (Nat → Prop) → State → Prop} {ok : StepCondition} {moves : List ApplyMove}
  {answer : op.Ret}

theorem did_of_add {ev e : Event} (h : D.add tid ev i e) (hne : e.op ≠ ev.op) : D i e :=
  Log.of_add h fun heq => hne (congrArg Ev.op heq)

def Skeleton.Answer (sk : Skeleton) : (op : Op) → op.Ret → Prop
  | .newExec _, answer => answer = sk.nextExec
  | .go _, answer => answer = sk.posted.length
  | .beginGoroutine k, answer => answer = sk.posted[k]?
  | _, _ => True

theorem handle_skeletonAnswer (cfg : RunConfig) (op : Op) (ch : Choice) (s : State) :
    s.skeleton.Answer op (handle cfg op ch s).1 := by
  cases op
  all_goals first | exact trivial | rfl

def Skeleton.Enabled (sk : Skeleton) : Op → Prop
  | .beginGoroutine k => k ∈ sk.ready
  | .waitGroups x => sk.groupsOut x = []
  | .waitTasks team => sk.tasksOut team = []
  | _ => True

theorem skeleton_enabled {ch : Choice} (h : enabled cfg op ch s = true) :
    s.skeleton.Enabled op := by
  cases op
  case beginGoroutine k => simpa [enabled, Skeleton.Enabled, State.skeleton] using h
  case waitGroups x => simpa [enabled, Skeleton.Enabled, State.skeleton] using h
  case waitTasks team => simpa [enabled, Skeleton.Enabled, State.skeleton] using h
  all_goals exact trivial

/-! ## Numbers -/

theorem posted_append (gr' : Goroutine) (h : posted[k]? = some gr) :
    (posted ++ [gr'])[k]? = some gr := by
  rw [List.getElem?_append_left (List.getElem?_eq_some_iff.mp h).1]
  exact h

theorem posted_append_cases {gr' : Goroutine} (h : (posted ++ [gr'])[k]? = some gr) :
    posted[k]? = some gr ∨ (k = posted.length ∧ gr = gr') := by
  have hlt := (List.getElem?_eq_some_iff.mp h).1
  rw [List.length_append, List.length_singleton] at hlt
  by_cases hk : k < posted.length
  · rw [List.getElem?_append_left hk] at h
    exact .inl h
  · obtain rfl : k = posted.length := by omega
    rw [List.getElem?_concat_length] at h
    exact .inr ⟨rfl, (Option.some.inj h).symm⟩

structure Numbered (D : ApplyLog) (sk : Skeleton) : Prop where
  posted : ∀ {e gr k}, D e ⟨.go gr, k⟩ → sk.posted[k]? = some gr
  starter : ∀ {k gr}, sk.posted[k]? = some gr → ∃ e, D e ⟨.go gr, k⟩
  begun : ∀ {v k a}, D v ⟨.beginGoroutine k, a⟩ →
    k < sk.posted.length ∧ a = sk.posted[k]? ∧ k ∉ sk.ready
  beginner : ∀ {v w k a b}, D v ⟨.beginGoroutine k, a⟩ → D w ⟨.beginGoroutine k, b⟩ → v = w
  ready_lt : ∀ {k}, k ∈ sk.ready → k < sk.posted.length
  begun_lt : ∀ {k}, k ∈ sk.begun → k < sk.posted.length
  ready_nodup : sk.ready.Nodup
  exec_lt : ∀ {e threshold x}, D e ⟨.newExec threshold, x⟩ → x < sk.nextExec
  executor : ∀ {e e' threshold threshold' x}, D e ⟨.newExec threshold, x⟩ →
    D e' ⟨.newExec threshold', x⟩ → e = e'

def Op.unnumbered : Op → Bool
  | .newExec _ | .go _ | .beginGoroutine _ => false
  | _ => true

/-- Only the operations that number something, and a crash, matter to the numbers. -/
theorem Numbered.congr {D' : ApplyLog} (h : Numbered D sk)
    (hlog : ∀ i e, e.op.unnumbered = false → (D' i e ↔ D i e)) (hposted : sk'.posted = sk.posted)
    (hready : sk'.ready.Sublist sk.ready) (hbegun : sk'.begun ⊆ sk.begun)
    (hnext : sk'.nextExec = sk.nextExec) : Numbered D' sk' where
  posted hgo := hposted ▸ h.posted ((hlog _ _ rfl).mp hgo)
  starter hpost := (h.starter (hposted ▸ hpost)).imp fun _ hgo => (hlog _ _ rfl).mpr hgo
  begun hbegin := by
    obtain ⟨hlt, hanswer, hnot⟩ := h.begun ((hlog _ _ rfl).mp hbegin)
    exact ⟨hposted ▸ hlt, hposted ▸ hanswer, fun hmem => hnot (hready.subset hmem)⟩
  beginner hv hw := h.beginner ((hlog _ _ rfl).mp hv) ((hlog _ _ rfl).mp hw)
  ready_lt hk := hposted ▸ h.ready_lt (hready.subset hk)
  begun_lt hk := hposted ▸ h.begun_lt (hbegun hk)
  ready_nodup := h.ready_nodup.sublist hready
  exec_lt hnew := hnext ▸ h.exec_lt ((hlog _ _ rfl).mp hnew)
  executor he he' := h.executor ((hlog _ _ rfl).mp he) ((hlog _ _ rfl).mp he')

theorem Numbered.go (h : Numbered D sk) (tid : Nat) (gr : Goroutine)
    (hposted : sk'.posted = sk.posted ++ [gr]) (hready : sk'.ready = sk.ready ++ [sk.posted.length])
    (hbegun : sk'.begun = sk.begun) (hnext : sk'.nextExec = sk.nextExec) :
    Numbered (D.add tid ⟨.go gr, sk.posted.length⟩) sk' := by
  refine ⟨?_, ?_, ?_, ?_, ?_, ?_, ?_, ?_, ?_⟩
  · rintro e gr' k (hgo | ⟨-, heq⟩)
    · rw [hposted]
      exact posted_append gr (h.posted hgo)
    · cases heq
      simp [hposted]
  · intro k gr' hpost
    rw [hposted] at hpost
    rcases posted_append_cases hpost with hpost | ⟨rfl, rfl⟩
    · exact (h.starter hpost).imp fun _ hgo => .inl hgo
    · exact ⟨tid, D.add_self _ _⟩
  · intro v k a hbegin
    obtain ⟨hlt, hanswer, hnot⟩ := h.begun (did_of_add hbegin (by simp))
    refine ⟨?_, ?_, ?_⟩
    · rw [hposted, List.length_append]
      omega
    · rw [hanswer, hposted, List.getElem?_append_left hlt]
    · rw [hready, List.mem_append, List.mem_singleton, not_or]
      exact ⟨hnot, by omega⟩
  · exact fun hv hw => h.beginner (did_of_add hv (by simp)) (did_of_add hw (by simp))
  · intro k hk
    rw [hready, List.mem_append, List.mem_singleton] at hk
    rw [hposted, List.length_append, List.length_singleton]
    rcases hk with hk | hk
    · have := h.ready_lt hk
      omega
    · omega
  · intro k hk
    rw [hbegun] at hk
    rw [hposted, List.length_append]
    exact Nat.lt_add_right _ (h.begun_lt hk)
  · rw [hready]
    refine List.nodup_append.mpr ⟨h.ready_nodup, List.nodup_singleton _, ?_⟩
    intro k hk k' hk' heq
    have := h.ready_lt hk
    rw [List.mem_singleton.mp hk'] at heq
    omega
  · exact fun hnew => hnext ▸ h.exec_lt (did_of_add hnew (by simp))
  · exact fun he he' => h.executor (did_of_add he (by simp)) (did_of_add he' (by simp))

theorem Numbered.step (h : Numbered D sk) (tid : Nat) (hanswer : sk.Answer op answer)
    (henabled : sk.Enabled op) :
    Numbered (D.add tid ⟨op, answer⟩) (sk.step op) := by
  have hother : op.unnumbered = true → ∀ i e, e.op.unnumbered = false →
      ((D.add tid ⟨op, answer⟩) i e ↔ D i e) := by
    intro hop i e he
    refine ⟨fun hadd => did_of_add hadd ?_, .inl⟩
    intro heq
    rw [heq, hop] at he
    cases he
  cases op
  case newExec threshold =>
    subst hanswer
    refine ⟨?_, ?_, ?_, ?_, h.ready_lt, h.begun_lt, h.ready_nodup, ?_, ?_⟩
    · exact fun hgo => h.posted (did_of_add hgo (by simp))
    · exact fun hpost => (h.starter hpost).imp fun _ hgo => .inl hgo
    · exact fun hbegin => h.begun (did_of_add hbegin (by simp))
    · exact fun hv hw => h.beginner (did_of_add hv (by simp)) (did_of_add hw (by simp))
    · rintro e threshold' x (hnew | ⟨-, heq⟩)
      · exact Nat.lt_succ_of_lt (h.exec_lt hnew)
      · cases heq
        exact Nat.lt_succ_self _
    · rintro e e' th th' x (he | ⟨rfl, heq⟩) (he' | ⟨rfl, heq'⟩)
      · exact h.executor he he'
      · cases heq'
        exact absurd (h.exec_lt he) (lt_irrefl _)
      · cases heq
        exact absurd (h.exec_lt he') (lt_irrefl _)
      · rfl
  case go gr =>
    subst hanswer
    cases gr with
    | group x i c p g | task x team c p g t => exact h.go tid _ rfl rfl rfl rfl
  case beginGoroutine k =>
    subst hanswer
    have hk : k ∈ sk.ready := henabled
    refine ⟨?_, ?_, ?_, ?_, ?_, ?_, h.ready_nodup.erase k, ?_, ?_⟩
    · exact fun hgo => h.posted (did_of_add hgo (by simp))
    · exact fun hpost => (h.starter hpost).imp fun _ hgo => .inl hgo
    · rintro v k' a (hbegin | ⟨-, heq⟩)
      · obtain ⟨hlt, ha, hnot⟩ := h.begun hbegin
        exact ⟨hlt, ha, fun hmem => hnot (List.mem_of_mem_erase hmem)⟩
      · cases heq
        exact ⟨h.ready_lt hk, rfl, h.ready_nodup.not_mem_erase⟩
    · rintro v w k' a b (hv | ⟨rfl, heq⟩) (hw | ⟨rfl, heq'⟩)
      · exact h.beginner hv hw
      · cases heq'
        exact absurd hk (h.begun hv).2.2
      · cases heq
        exact absurd hk (h.begun hw).2.2
      · rfl
    · exact fun hk' => h.ready_lt (List.mem_of_mem_erase hk')
    · intro k' hk'
      rcases List.mem_cons.mp hk' with rfl | hold
      · exact h.ready_lt hk
      · exact h.begun_lt hold
    · exact fun hnew => h.exec_lt (did_of_add hnew (by simp))
    · exact fun he he' => h.executor (did_of_add he (by simp)) (did_of_add he' (by simp))
  case groupDone x k | taskDone team k =>
    exact h.congr (hother rfl) rfl (List.Sublist.refl _) ((fun _ => List.mem_of_mem_filter)) rfl
  all_goals exact h.congr (hother rfl) rfl (List.Sublist.refl _) (List.Subset.refl _) rfl

/-! ## What one operation does to the skeleton -/

def Skeleton.Active (sk : Skeleton) (k : Nat) : Prop :=
  k ∈ sk.ready ∨ k ∈ sk.begun

section Inversion

theorem posted_step (h : (sk.step op).posted[k]? = some gr) :
    sk.posted[k]? = some gr ∨ (op = .go gr ∧ k = sk.posted.length) := by
  cases op
  case go gr' =>
    cases gr' <;>
      exact (posted_append_cases h).imp_right fun ⟨hk, hgr⟩ => ⟨by rw [hgr], hk⟩
  all_goals exact .inl h

theorem posted_step_of (h : sk.posted[k]? = some gr) :
    (sk.step op).posted[k]? = some gr := by
  cases op
  case go gr' => cases gr' <;> exact posted_append _ h
  all_goals exact h

theorem active_step (henabled : sk.Enabled op) (h : (sk.step op).Active k) :
    sk.Active k ∨ ∃ gr, op = .go gr ∧ k = sk.posted.length := by
  have hgo : ∀ gr, k ∈ sk.ready ++ [sk.posted.length] ∨ k ∈ sk.begun →
      sk.Active k ∨ ∃ gr', Op.go gr = .go gr' ∧ k = sk.posted.length := by
    intro gr hactive
    rcases hactive with hready | hbegun
    · rcases List.mem_append.mp hready with hold | hnew
      · exact .inl (.inl hold)
      · exact .inr ⟨gr, rfl, List.mem_singleton.mp hnew⟩
    · exact .inl (.inr hbegun)
  cases op
  case go gr => cases gr <;> exact hgo _ h
  case groupDone x k' => exact .inl (h.imp_right List.mem_of_mem_filter)
  case taskDone team k' => exact .inl (h.imp_right List.mem_of_mem_filter)
  case beginGoroutine k' =>
    rcases h with hready | hbegun
    · exact .inl (.inl (List.mem_of_mem_erase hready))
    · rcases List.mem_cons.mp hbegun with rfl | hold
      · exact .inl (.inl henabled)
      · exact .inl (.inr hold)
  all_goals exact .inl h

theorem running_step (op : Op) (h : x ∈ sk.running) :
    x ∈ (sk.step op).running ∨ ∃ res, op = .returned x res := by
  cases op
  case newExec threshold => exact .inl (List.mem_cons_of_mem _ h)
  case go gr => cases gr <;> exact .inl h
  case returned x' res =>
    by_cases hx : x = x'
    · subst hx
      exact .inr ⟨res, rfl⟩
    · exact .inl (List.mem_filter.mpr ⟨h, by simpa using hx⟩)
  all_goals exact .inl h

theorem begun_step (op : Op) (h : k ∈ sk.begun) :
    k ∈ (sk.step op).begun ∨ (∃ x, op = .groupDone x k) ∨ ∃ team, op = .taskDone team k := by
  cases op
  case go gr => cases gr <;> exact .inl h
  case beginGoroutine k' => exact .inl (List.mem_cons_of_mem _ h)
  case groupDone x k' =>
    by_cases hk : k = k'
    · subst hk
      exact .inr (.inl ⟨x, rfl⟩)
    · exact .inl (List.mem_filter.mpr ⟨h, by simpa using hk⟩)
  case taskDone team k' =>
    by_cases hk : k = k'
    · subst hk
      exact .inr (.inr ⟨team, rfl⟩)
    · exact .inl (List.mem_filter.mpr ⟨h, by simpa using hk⟩)
  all_goals exact .inl h

theorem groupsOut_step (h : k ∈ sk.groupsOut x) (hx : x ≠ sk.nextExec) :
    k ∈ (sk.step op).groupsOut x ∨ op = .groupDone x k := by
  cases op
  case newExec threshold =>
    refine .inl ?_
    simpa only [Skeleton.step, Function.update_of_ne hx] using h
  case go gr =>
    cases gr with
    | group x' i c p g =>
      refine .inl ?_
      by_cases hxx : x = x'
      · subst hxx
        simp [Skeleton.step, h]
      · simpa only [Skeleton.step, Function.update_of_ne hxx] using h
    | task x' team c p g t => exact .inl h
  case groupDone x' k' =>
    by_cases hxx : x = x'
    · subst hxx
      by_cases hk : k = k'
      · subst hk
        exact .inr rfl
      · exact .inl (by simp [Skeleton.step, h, hk])
    · refine .inl ?_
      simpa only [Skeleton.step, Function.update_of_ne hxx] using h
  all_goals exact .inl h

theorem tasksOut_step (h : k ∈ sk.tasksOut team) :
    k ∈ (sk.step op).tasksOut team ∨ op = .taskDone team k := by
  cases op
  case go gr =>
    cases gr with
    | group x' i c p g => exact .inl h
    | task x' team' c p g t =>
      refine .inl ?_
      by_cases hteam : team = team'
      · subst hteam
        simp [Skeleton.step, h]
      · simpa only [Skeleton.step, Function.update_of_ne hteam] using h
  case taskDone team' k' =>
    by_cases hteam : team = team'
    · subst hteam
      by_cases hk : k = k'
      · subst hk
        exact .inr rfl
      · exact .inl (by simp [Skeleton.step, h, hk])
    · refine .inl ?_
      simpa only [Skeleton.step, Function.update_of_ne hteam] using h
  all_goals exact .inl h

end Inversion

/-! ## One step -/

/-- What is known of an operation that is about to be entered in the log. -/
structure StepOf (cfg : RunConfig) (D : ApplyLog) (sk : Skeleton) (tid : Nat) (call : Call)
    (hist : History) (op : Op) (answer : op.Ret) : Prop where
  past : ∀ ev, D tid ev ↔ ev ∈ hist
  explained : Pool.Explained (Good cfg) D
  justified : Justified cfg call ⟨op, answer⟩ hist
  answer : sk.Answer op answer
  enabled : sk.Enabled op

theorem started_of_begin (hnum : Numbered D sk)
    (hbegin : D v ⟨.beginGoroutine k, some (.group x i c p g)⟩) :
    ∃ e, D e ⟨.go (.group x i c p g), k⟩ :=
  hnum.starter (hnum.begun hbegin).2.1.symm

section Explained

variable (hexpl : Pool.Explained (Good cfg) D)

include hexpl

theorem executor_of_go (h : D e ⟨.go (.group x i c p g), k⟩) :
    ∃ threshold, D e ⟨.newExec threshold, x⟩ := by
  obtain ⟨call, past, hjust, hpast⟩ := exists_justified hexpl h
  obtain ⟨⟨-, threshold, hmem⟩, -⟩ := hjust.reason
  exact ⟨threshold, hpast _ hmem⟩

theorem executor_of_waitGroups (h : D e ⟨.waitGroups x, ()⟩) :
    ∃ threshold, D e ⟨.newExec threshold, x⟩ := by
  obtain ⟨call, past, hjust, hpast⟩ := exists_justified hexpl h
  obtain ⟨p, groups, ⟨-, threshold, hmem⟩, -⟩ := hjust.reason
  exact ⟨threshold, hpast _ hmem⟩

theorem teamLead_of_go (h : D u ⟨.go (.task x team c p g t), k⟩) :
    ∃ i c p g, D u ⟨.beginGoroutine team, some (.group x i c p g)⟩ ∧ g.status = .pending ∧
      t ∈ g.tasks := by
  obtain ⟨call, past, hjust, hpast⟩ := exists_justified hexpl h
  obtain ⟨-, p', g', ⟨i, c', hmem⟩, hpending, htask, -⟩ := hjust.reason
  exact ⟨i, c', p', g', hpast _ hmem, hpending, List.mem_of_getElem? htask⟩

theorem teamLead_of_waitTasks (h : D u ⟨.waitTasks team, ()⟩) :
    ∃ x i c p g, D u ⟨.beginGoroutine team, some (.group x i c p g)⟩ := by
  obtain ⟨call, past, hjust, hpast⟩ := exists_justified hexpl h
  obtain ⟨x, p, g, ⟨i, c, hmem⟩, -⟩ := hjust.reason
  exact ⟨x, i, c, p, g, hpast _ hmem⟩

theorem exec_lt_of_begin (hnum : Numbered D sk)
    (hbegin : D v ⟨.beginGoroutine k, some (.group x i c p g)⟩) :
    x < sk.nextExec := by
  obtain ⟨e, hgo⟩ := started_of_begin hnum hbegin
  obtain ⟨threshold, hnew⟩ := executor_of_go hexpl hgo
  exact hnum.exec_lt hnew

theorem begun_of_takeGroupSlot {answer : Slot} (h : D v ⟨.takeGroupSlot x, answer⟩) :
    ∃ k i c p g, D v ⟨.beginGoroutine k, some (.group x i c p g)⟩ := by
  obtain ⟨call, past, hjust, hpast⟩ := exists_justified hexpl h
  obtain ⟨k, p, g, i, c, hmem⟩ := hjust.reason
  exact ⟨k, i, c, p, g, hpast _ hmem⟩

theorem begun_of_groupDone (h : D v ⟨.groupDone x k, ()⟩) :
    ∃ i c p g, D v ⟨.beginGoroutine k, some (.group x i c p g)⟩ := by
  obtain ⟨call, past, hjust, hpast⟩ := exists_justified hexpl h
  obtain ⟨p, g, ⟨i, c, hmem⟩, -⟩ := hjust.reason
  exact ⟨i, c, p, g, hpast _ hmem⟩

theorem begun_of_taskDone (h : D v ⟨.taskDone team k, ()⟩) :
    ∃ x c p g t, D v ⟨.beginGoroutine k, some (.task x team c p g t)⟩ := by
  obtain ⟨call, past, hjust, hpast⟩ := exists_justified hexpl h
  obtain ⟨x, t, ⟨c, p, g, hmem⟩, -⟩ := hjust.reason
  exact ⟨x, c, p, g, t, hpast _ hmem⟩

end Explained

/-! ## Wait groups -/

/-- A wait group: what was started is out or done, and once it was waited for, what was
started is done. -/
structure WaitGroup (started done : Nat → Prop) (out : List Nat) (waited : Prop) : Prop where
  out_or_done : ∀ k, started k → k ∈ out ∨ done k
  done_of_waited : waited → ∀ k, started k → done k

theorem WaitGroup.step {started started' done done' : Nat → Prop} {out out' : List Nat}
    {waited waited' : Prop} (h : WaitGroup started done out waited)
    (hstarted : ∀ k, started' k → started k ∨ (k ∈ out' ∧ ¬waited'))
    (hdone : ∀ k, done k → done' k)
    (hout : ∀ k, started k → k ∈ out → k ∈ out' ∨ done' k)
    (hwaited : waited' → waited ∨ out = []) : WaitGroup started' done' out' waited' where
  out_or_done k hk := by
    rcases hstarted k hk with hold | ⟨hnew, -⟩
    · rcases h.out_or_done k hold with hin | hend
      · exact hout k hold hin
      · exact .inr (hdone k hend)
    · exact .inl hnew
  done_of_waited hw k hk := by
    rcases hstarted k hk with hold | ⟨-, hnot⟩
    · rcases hwaited hw with hbefore | hnone
      · exact hdone k (h.done_of_waited hbefore k hold)
      · rcases h.out_or_done k hold with hin | hend
        · rw [hnone] at hin
          cases hin
        · exact hdone k hend
    · exact absurd hw hnot

def GroupStarted (D : ApplyLog) (x k : Nat) : Prop :=
  ∃ e i c p g, D e ⟨.go (.group x i c p g), k⟩

def TaskStarted (D : ApplyLog) (team k : Nat) : Prop :=
  ∃ u x c p g t, D u ⟨.go (.task x team c p g t), k⟩

structure Awaited (D : ApplyLog) (sk : Skeleton) : Prop where
  groups : ∀ x, WaitGroup (GroupStarted D x) (fun k => ∃ v, D v ⟨.groupDone x k, ()⟩)
    (sk.groupsOut x) (∃ e, D e ⟨.waitGroups x, ()⟩)
  tasks : ∀ team, WaitGroup (TaskStarted D team) (fun k => ∃ v, D v ⟨.taskDone team k, ()⟩)
    (sk.tasksOut team) (∃ u, D u ⟨.waitTasks team, ()⟩)

section Step

variable {call : Call} {hist : History}

/-- `Execute` starts no group after it has waited for its groups. -/
theorem not_waitGroups_of_go {answer : Nat} (hnum : Numbered D sk)
    (hstep : StepOf cfg D sk tid call hist (.go (.group x i c p g)) answer) (e : Nat) :
    ¬D e ⟨.waitGroups x, ()⟩ := by
  intro hwait
  obtain ⟨⟨-, threshold, hmem⟩, -⟩ := hstep.justified.reason
  obtain ⟨threshold', hnew⟩ := executor_of_waitGroups hstep.explained hwait
  obtain rfl := hnum.executor hnew ((hstep.past _).mpr hmem)
  have hlate := hstep.justified.ordered.stage_le (show 4 ≠ 0 by decide) ((hstep.past _).mp hwait)
  exact absurd hlate (show ¬5 ≤ 4 by decide)

theorem not_waitTasks_of_go {answer : Nat} (hnum : Numbered D sk)
    (hstep : StepOf cfg D sk tid call hist (.go (.task x team c p g t)) answer) (u : Nat) :
    ¬D u ⟨.waitTasks team, ()⟩ := by
  intro hwait
  obtain ⟨-, p', g', ⟨i, c', hmem⟩, -⟩ := hstep.justified.reason
  obtain ⟨x', i'', c'', p'', g'', hbegin⟩ := teamLead_of_waitTasks hstep.explained hwait
  obtain rfl := hnum.beginner hbegin ((hstep.past _).mpr hmem)
  have hlate := hstep.justified.ordered.stage_le (show 4 ≠ 0 by decide) ((hstep.past _).mp hwait)
  exact absurd hlate (show ¬5 ≤ 4 by decide)

theorem Awaited.step (h : Awaited D sk) (hnum : Numbered D sk)
    (hstep : StepOf cfg D sk tid call hist op answer) :
    Awaited (D.add tid ⟨op, answer⟩) (sk.step op) where
  groups x := by
    refine (h.groups x).step ?_ (fun k hdone => hdone.imp fun _ => .inl) ?_ ?_
    · rintro k ⟨e, i, c, p, g, hgo | ⟨-, heq⟩⟩
      · exact .inl ⟨e, i, c, p, g, hgo⟩
      · cases heq
        refine .inr ⟨?_, ?_⟩
        · have hk : k = sk.posted.length := hstep.answer
          simp [Skeleton.step, hk]
        · rintro ⟨e', hwait⟩
          exact not_waitGroups_of_go hnum hstep e' (did_of_add hwait (by simp))
    · rintro k ⟨e, i, c, p, g, hgo⟩ hk
      obtain ⟨threshold, hnew⟩ := executor_of_go hstep.explained hgo
      refine (groupsOut_step hk (Nat.ne_of_lt (hnum.exec_lt hnew))).imp_right ?_
      rintro rfl
      exact ⟨tid, D.add_self _ _⟩
    · rintro ⟨e, hwait | ⟨-, heq⟩⟩
      · exact .inl ⟨e, hwait⟩
      · cases heq
        exact .inr hstep.enabled
  tasks team := by
    refine (h.tasks team).step ?_ (fun k hdone => hdone.imp fun _ => .inl) ?_ ?_
    · rintro k ⟨u, x, c, p, g, t, hgo | ⟨-, heq⟩⟩
      · exact .inl ⟨u, x, c, p, g, t, hgo⟩
      · cases heq
        refine .inr ⟨?_, ?_⟩
        · have hk : k = sk.posted.length := hstep.answer
          simp [Skeleton.step, hk]
        · rintro ⟨u', hwait⟩
          exact not_waitTasks_of_go hnum hstep u' (did_of_add hwait (by simp))
    · intro k _ hk
      refine (tasksOut_step hk).imp_right ?_
      rintro rfl
      exact ⟨tid, D.add_self _ _⟩
    · rintro ⟨u, hwait | ⟨-, heq⟩⟩
      · exact .inl ⟨u, hwait⟩
      · cases heq
        exact .inr hstep.enabled

end Step

/-! ## Supervision -/

def Finished (D : ApplyLog) (v : Nat) : Prop :=
  (∃ x k, D v ⟨.groupDone x k, ()⟩) ∨ ∃ team k, D v ⟨.taskDone team k, ()⟩

theorem Finished.add (h : Finished D v) (tid : Nat) (ev : Event) :
    Finished (D.add tid ev) v :=
  h.imp (fun ⟨x, k, hdone⟩ => ⟨x, k, .inl hdone⟩) fun ⟨team, k, hdone⟩ => ⟨team, k, .inl hdone⟩

/-- What has operations left is listed as running, what is active is supervised by
something that runs, and what is done is not active. -/
structure Supervised (D : ApplyLog) (L : Nat → Prop) (sk : Skeleton) : Prop where
  execute : ∀ {e threshold x}, L e → D e ⟨.newExec threshold, x⟩ →
    (∀ res, ¬D e ⟨.returned x res, ()⟩) → x ∈ sk.running
  goroutine : ∀ {v k a}, L v → D v ⟨.beginGoroutine k, a⟩ → ¬Finished D v → k ∈ sk.begun
  group : ∀ {k x i c p g}, sk.Active k → sk.posted[k]? = some (.group x i c p g) →
    x ∈ sk.running
  task : ∀ {k x team c p g t}, sk.Active k → sk.posted[k]? = some (.task x team c p g t) →
    team ∈ sk.begun ∧ ∃ i c p g, sk.posted[team]? = some (.group x i c p g)
  groupDone : ∀ {v x k}, D v ⟨.groupDone x k, ()⟩ → ¬sk.Active k
  taskDone : ∀ {v team k}, D v ⟨.taskDone team k, ()⟩ → ¬sk.Active k

section Step

variable {call : Call} {hist : History}

theorem active_posted_step (henabled : sk.Enabled op) (hactive : (sk.step op).Active k)
    (hposted : (sk.step op).posted[k]? = some gr) :
    (sk.Active k ∧ sk.posted[k]? = some gr) ∨ op = .go gr := by
  rcases posted_step hposted with hold | ⟨hgo, -⟩
  · rcases active_step henabled hactive with hbefore | ⟨gr', -, hk⟩
    · exact .inl ⟨hbefore, hold⟩
    · have := (List.getElem?_eq_some_iff.mp hold).1
      omega
  · exact .inr hgo

/-- An `Execute` that returns leaves no active group behind. -/
theorem not_active_of_returned (h : Supervised D L sk) (hnum : Numbered D sk)
    (hawait : Awaited D sk) {res : ExecuteReturn}
    (hstep : StepOf cfg D sk tid call hist (.returned x res) ())
    (hposted : sk.posted[k]? = some (.group x i c p g)) :
    ¬sk.Active k := by
  obtain ⟨p', ⟨-, threshold, hmem⟩, hwaits, -⟩ := hstep.justified.reason
  obtain ⟨e, hgo⟩ := hnum.starter hposted
  obtain ⟨threshold', hnew⟩ := executor_of_go hstep.explained hgo
  obtain rfl := hnum.executor hnew ((hstep.past _).mpr hmem)
  have hwait := hwaits (List.ne_nil_of_mem (mem_groups_of_mem ((hstep.past _).mp hgo)))
  obtain ⟨v, hdone⟩ := (hawait.groups x).done_of_waited ⟨e, (hstep.past _).mpr hwait⟩ k
    ⟨e, i, c, p, g, hgo⟩
  exact h.groupDone hdone

theorem not_active_of_groupDone (h : Supervised D L sk) (hnum : Numbered D sk)
    (hawait : Awaited D sk) (hstep : StepOf cfg D sk tid call hist (.groupDone x team) ())
    {x' : Nat} (hposted : sk.posted[k]? = some (.task x' team c p g t)) : ¬sk.Active k := by
  obtain ⟨p', g', ⟨i, c', hmem⟩, -, hwaits, -⟩ := hstep.justified.reason
  obtain ⟨u, hgo⟩ := hnum.starter hposted
  obtain ⟨i'', c'', p'', g'', hbegin, -⟩ := teamLead_of_go hstep.explained hgo
  obtain rfl := hnum.beginner hbegin ((hstep.past _).mpr hmem)
  have hwait := hwaits (tasks_ne_nil_of_mem ((hstep.past _).mp hgo))
  obtain ⟨v, hdone⟩ := (hawait.tasks team).done_of_waited ⟨u, (hstep.past _).mpr hwait⟩ k
    ⟨u, x', c, p, g, t, hgo⟩
  exact h.taskDone hdone

theorem not_finished_of_stage (hstep : StepOf cfg D sk tid call hist op answer)
    (hstage : op.stage ≠ 0) (hlt : op.stage < 8) : ¬Finished D tid := by
  rintro (⟨x, k, hdone⟩ | ⟨team, k, hdone⟩)
  · have hle := hstep.justified.ordered.stage_le hstage ((hstep.past _).mp hdone)
    exact absurd (lt_of_le_of_lt hle hlt) (lt_irrefl 8)
  · have hle := hstep.justified.ordered.stage_le hstage ((hstep.past _).mp hdone)
    exact absurd (lt_of_le_of_lt hle hlt) (lt_irrefl 8)

theorem Supervised.step (h : Supervised D L sk) (hnum : Numbered D sk) (hawait : Awaited D sk)
    (hlive : L tid) (hstep : StepOf cfg D sk tid call hist op answer) :
    Supervised (D.add tid ⟨op, answer⟩) L (sk.step op) where
  execute := by
    rintro e threshold x he (hnew | ⟨rfl, heq⟩) hnot
    · rcases running_step op (h.execute he hnew fun res hret => hnot res (.inl hret)) with
        hstay | ⟨res, rfl⟩
      · exact hstay
      · obtain ⟨p, ⟨-, threshold', hmem⟩, -⟩ := hstep.justified.reason
        obtain rfl := hnum.executor hnew ((hstep.past _).mpr hmem)
        exact absurd (D.add_self _ _) (hnot res)
    · cases heq
      have hx : x = sk.nextExec := hstep.answer
      simp [Skeleton.step, hx]
  goroutine := by
    rintro v k a hv (hbegin | ⟨rfl, heq⟩) hopen
    · have hbegun := h.goroutine hv hbegin fun hfin => hopen (hfin.add tid _)
      rcases begun_step op hbegun with hstay | ⟨x, rfl⟩ | ⟨team, rfl⟩
      · exact hstay
      · obtain ⟨p, g, ⟨i, c, hmem⟩, -⟩ := hstep.justified.reason
        obtain rfl := hnum.beginner hbegin ((hstep.past _).mpr hmem)
        exact absurd (.inl ⟨x, k, D.add_self _ _⟩) hopen
      · obtain ⟨x, t, ⟨c, p, g, hmem⟩, -⟩ := hstep.justified.reason
        obtain rfl := hnum.beginner hbegin ((hstep.past _).mpr hmem)
        exact absurd (.inr ⟨team, k, D.add_self _ _⟩) hopen
    · cases heq
      exact List.mem_cons_self
  group := by
    intro k x i c p g hactive hposted
    rcases active_posted_step hstep.enabled hactive hposted with ⟨hbefore, hold⟩ | rfl
    · rcases running_step op (h.group hbefore hold) with hstay | ⟨res, rfl⟩
      · exact hstay
      · exact absurd hbefore (not_active_of_returned h hnum hawait hstep hold)
    · obtain ⟨⟨-, threshold, hmem⟩, -⟩ := hstep.justified.reason
      refine h.execute hlive ((hstep.past _).mpr hmem) fun res hret => ?_
      have hle := hstep.justified.ordered.stage_le (show 4 ≠ 0 by decide)
        ((hstep.past _).mp hret)
      exact absurd hle (show ¬8 ≤ 4 by decide)
  task := by
    intro k x team c p g t hactive hposted
    rcases active_posted_step hstep.enabled hactive hposted with ⟨hbefore, hold⟩ | rfl
    · obtain ⟨hteam, i, c', p', g', hlead⟩ := h.task hbefore hold
      refine ⟨?_, i, c', p', g', posted_step_of hlead⟩
      rcases begun_step op hteam with hstay | ⟨x', rfl⟩ | ⟨team', rfl⟩
      · exact hstay
      · exact absurd hbefore (not_active_of_groupDone h hnum hawait hstep hold)
      · obtain ⟨x'', t'', ⟨c'', p'', g'', hmem⟩, -⟩ := hstep.justified.reason
        obtain ⟨-, hpost, -⟩ := hnum.begun ((hstep.past _).mpr hmem)
        rw [hlead] at hpost
        cases hpost
    · obtain ⟨-, p', g', ⟨i, c', hmem⟩, -⟩ := hstep.justified.reason
      have hbegin := (hstep.past _).mpr hmem
      have hopen := not_finished_of_stage hstep (show 4 ≠ 0 by decide) (show 4 < 8 by decide)
      exact ⟨h.goroutine hlive hbegin hopen, i, c', p', g',
        posted_step_of (hnum.begun hbegin).2.1.symm⟩
  groupDone := by
    rintro v x k (hdone | ⟨rfl, heq⟩) hactive
    · rcases active_step hstep.enabled hactive with hbefore | ⟨gr, -, hk⟩
      · exact h.groupDone hdone hbefore
      · obtain ⟨i, c, p, g, hbegin⟩ := begun_of_groupDone hstep.explained hdone
        exact absurd hk (Nat.ne_of_lt (hnum.begun hbegin).1)
    · cases heq
      obtain ⟨p, g, ⟨i, c, hmem⟩, -⟩ := hstep.justified.reason
      rcases hactive with hready | hbegun
      · exact (hnum.begun ((hstep.past _).mpr hmem)).2.2 hready
      · simp [Skeleton.step] at hbegun
  taskDone := by
    rintro v team k (hdone | ⟨rfl, heq⟩) hactive
    · rcases active_step hstep.enabled hactive with hbefore | ⟨gr, -, hk⟩
      · exact h.taskDone hdone hbefore
      · obtain ⟨x, c, p, g, t, hbegin⟩ := begun_of_taskDone hstep.explained hdone
        exact absurd hk (Nat.ne_of_lt (hnum.begun hbegin).1)
    · cases heq
      obtain ⟨x, t, ⟨c, p, g, hmem⟩, -⟩ := hstep.justified.reason
      rcases hactive with hready | hbegun
      · exact (hnum.begun ((hstep.past _).mpr hmem)).2.2 hready
      · simp [Skeleton.step] at hbegun

end Step

/-! ## Runs -/

/-- What holds of the goroutines in every run. -/
structure Disciplined (D : ApplyLog) (L : Nat → Prop) (sk : Skeleton) : Prop where
  numbered : Numbered D sk
  awaited : Awaited D sk
  supervised : Supervised D L sk

theorem Disciplined.step {call : Call} {hist : History} (h : Disciplined D L sk) (hlive : L tid)
    (hstep : StepOf cfg D sk tid call hist op answer) :
    Disciplined (D.add tid ⟨op, answer⟩) L (sk.step op) :=
  ⟨h.numbered.step tid hstep.answer hstep.enabled, h.awaited.step h.numbered hstep,
    h.supervised.step h.numbered h.awaited hlive hstep⟩

theorem Disciplined.crash (h : Disciplined D L sk) : Disciplined D (fun _ => False) sk.crash where
  numbered := h.numbered.congr (fun _ _ _ => Iff.rfl) rfl (List.nil_sublist _)
    (List.nil_subset _) rfl
  awaited := ⟨h.awaited.groups, h.awaited.tasks⟩
  supervised := by
    have hnone : ∀ k, ¬sk.crash.Active k := fun k hactive => by
      rcases hactive with hmem | hmem <;> cases hmem
    exact ⟨False.elim, False.elim, fun hactive => absurd hactive (hnone _),
      fun hactive => absurd hactive (hnone _), fun _ => hnone _, fun _ => hnone _⟩

theorem Disciplined.mono {L' : Nat → Prop} (h : Disciplined D L sk) (hsub : ∀ i, L' i → L i) :
    Disciplined D L' sk :=
  ⟨h.numbered, h.awaited, fun he => h.supervised.execute (hsub _ he),
    fun hv => h.supervised.goroutine (hsub _ hv), h.supervised.group, h.supervised.task,
    h.supervised.groupDone, h.supervised.taskDone⟩

theorem Disciplined.start (h : Disciplined D L sk) (hnew : ∀ ev, ¬D tid ev) :
    Disciplined D (fun i => L i ∨ i = tid) sk := by
  refine ⟨h.numbered, h.awaited, ?_, ?_, h.supervised.group, h.supervised.task,
    h.supervised.groupDone, h.supervised.taskDone⟩
  · rintro e threshold x (he | rfl) hdid
    · exact h.supervised.execute he hdid
    · exact absurd hdid (hnew _)
  · rintro v k a (hv | rfl) hdid
    · exact h.supervised.goroutine hv hdid
    · exact absurd hdid (hnew _)

structure State.Idle (s : State) : Prop where
  posted : s.posted = []
  ready : s.ready = []
  begun : s.begun = []

theorem disciplined_of_idle (h : s.Idle) :
    Disciplined (fun _ _ => False) (fun _ => False) s.skeleton := by
  have hnone : ∀ k, ¬s.skeleton.Active k := fun k hactive => by
    simp [Skeleton.Active, State.skeleton, h.ready, h.begun] at hactive
  refine ⟨⟨False.elim, ?_, False.elim, False.elim, ?_, ?_, ?_, False.elim, False.elim⟩, ?_, ?_⟩
  · intro k gr hposted
    simp [State.skeleton, h.posted] at hposted
  · exact fun hk => absurd (.inl hk) (hnone _)
  · exact fun hk => absurd (.inr hk) (hnone _)
  · simp [State.skeleton, h.ready]
  · refine ⟨fun x => ⟨?_, fun _ => ?_⟩, fun team => ⟨?_, fun _ => ?_⟩⟩
    · rintro k ⟨_, _, _, _, _, hgo⟩
      exact hgo.elim
    · rintro k ⟨_, _, _, _, _, hgo⟩
      exact hgo.elim
    · rintro k ⟨_, _, _, _, _, _, hgo⟩
      exact hgo.elim
    · rintro k ⟨_, _, _, _, _, _, hgo⟩
      exact hgo.elim
  · exact ⟨False.elim, False.elim, fun hactive => absurd hactive (hnone _),
      fun hactive => absurd hactive (hnone _), False.elim, False.elim⟩

/-- The induction over a run of the apply service for an invariant of the log, the live
goroutines and the state.  The step case knows how the operation is justified, what
holds of the goroutines, and a further guarantee of the programs. -/
theorem reach_induction_with (hidle : s.Idle) (ok : StepCondition)
    (hextra : ∀ call, (main cfg call).wp (histSem Op.Answers) (Extra call) (fun _ _ => True) [])
    (hmono : ∀ D L L' s, (∀ i, L' i → L i) → Inv D L s → Inv D L' s)
    (hstart : ∀ D L tid s, (∀ ev, ¬D tid ev) → Inv D L s → Inv D (fun i => L i ∨ i = tid) s)
    (hcrash : ∀ D L s, Inv D L s → Inv D (fun _ => False) s.crash)
    (hstep : ∀ D L tid ch call op hist s, L tid → Disciplined D L s.skeleton →
      StepOf cfg D s.skeleton tid call hist op (handle cfg op ch s).1 →
      Extra call (⟨op, (handle cfg op ch s).1⟩ :: hist) →
      enabled cfg op ch s = true → ok op ch hist s = true → Inv D L s →
      Inv (D.add tid ⟨op, (handle cfg op ch s).1⟩) L (handle cfg op ch s).2)
    (hinit : Inv (fun _ _ => False) (fun _ => False) s) (moves : List ApplyMove)
    (hok : RunMeets cfg s ok moves = true) :
    Pool.LogInv Op.Answers (fun call h => Good cfg call h ∧ Extra call h)
      (fun D L s => Disciplined D L s.skeleton ∧ Inv D L s) (reach cfg s moves) := by
  have hmain : ∀ call, (main cfg call).wp (histSem Op.Answers)
      (fun h => Good cfg call h ∧ Extra call h) (fun _ _ => True) [] := fun call =>
    wp_mono (wp_and (main_justified cfg call) (hextra call)) (fun _ hI => hI) fun _ _ _ => trivial
  refine Pool.live_log_induction (H := handler cfg) (handle_answers cfg) hmain
    ?_ ?_ ?_ ?_ ⟨disciplined_of_idle hidle, hinit⟩ moves hok
  · exact fun D L L' s hsub ⟨hdisc, hinv⟩ => ⟨hdisc.mono hsub, hmono D L L' s hsub hinv⟩
  · exact fun D L tid s hnew ⟨hdisc, hinv⟩ => ⟨hdisc.start hnew, hstart D L tid s hnew hinv⟩
  · exact fun D L s ⟨hdisc, hinv⟩ => ⟨hdisc.crash, hcrash D L s hinv⟩
  · rintro D L tid ch call op hist s hlive hpast hexpl henabled ⟨hjust, hmore⟩ hop ⟨hdisc, hinv⟩
    have hof : StepOf cfg D s.skeleton tid call hist op (handle cfg op ch s).1 :=
      ⟨hpast, hexpl.imp fun _ _ hI => hI.1, hjust, handle_skeletonAnswer cfg op ch s,
        skeleton_enabled henabled⟩
    refine ⟨?_, hstep D L tid ch call op hist s hlive hdisc hof hmore henabled hop hinv⟩
    have hnext := hdisc.step hlive hof
    rw [← handle_skeleton cfg op ch s] at hnext
    exact hnext

theorem reach_induction (hidle : s.Idle) (ok : StepCondition)
    (hmono : ∀ D L L' s, (∀ i, L' i → L i) → Inv D L s → Inv D L' s)
    (hstart : ∀ D L tid s, (∀ ev, ¬D tid ev) → Inv D L s → Inv D (fun i => L i ∨ i = tid) s)
    (hcrash : ∀ D L s, Inv D L s → Inv D (fun _ => False) s.crash)
    (hstep : ∀ D L tid ch call op hist s, L tid → Disciplined D L s.skeleton →
      StepOf cfg D s.skeleton tid call hist op (handle cfg op ch s).1 →
      enabled cfg op ch s = true → ok op ch hist s = true → Inv D L s →
      Inv (D.add tid ⟨op, (handle cfg op ch s).1⟩) L (handle cfg op ch s).2)
    (hinit : Inv (fun _ _ => False) (fun _ => False) s) (moves : List ApplyMove)
    (hok : RunMeets cfg s ok moves = true) :
    Pool.LogInv Op.Answers (Good cfg) (fun D L s => Disciplined D L s.skeleton ∧ Inv D L s)
      (reach cfg s moves) := by
  have hinv := reach_induction_with hidle ok (fun call => wp_true _ (main cfg call) [])
    hmono hstart hcrash
    (fun D L tid ch call op hist s hlive hdisc hstep' _ => hstep D L tid ch call op hist s
      hlive hdisc hstep') hinit moves hok
  exact ⟨fun t ht => (hinv.keeps t ht).imp fun _ hI => hI.1, hinv.holds⟩

theorem reach_disciplined_with (hidle : s.Idle)
    (hextra : ∀ call, (main cfg call).wp (histSem Op.Answers) (Extra call) (fun _ _ => True) [])
    (hok : RunMeets cfg s ok moves = true) :
    Pool.LogInv Op.Answers (fun call h => Good cfg call h ∧ Extra call h)
      (fun D L s => Disciplined D L s.skeleton) (reach cfg s moves) := by
  have hinv := reach_induction_with hidle ok hextra (fun _ _ _ _ _ _ => trivial)
    (fun _ _ _ _ _ _ => trivial) (fun _ _ _ _ => trivial)
    (fun _ _ _ _ _ _ _ _ _ _ _ _ _ _ _ => trivial) trivial moves hok
  exact ⟨hinv.keeps, hinv.holds.1⟩

theorem reach_disciplined (hidle : s.Idle) (hok : RunMeets cfg s ok moves = true) :
    Pool.LogInv Op.Answers (Good cfg) (fun D L s => Disciplined D L s.skeleton)
      (reach cfg s moves) := by
  have hinv := reach_disciplined_with hidle (fun call => wp_true _ (main cfg call) []) hok
  exact ⟨fun t ht => (hinv.keeps t ht).imp fun _ hI => hI.1, hinv.holds⟩

/-- The induction over a run for an invariant of the whole pool.  The step case knows that the
goroutines are disciplined and keep a further guarantee. -/
theorem reach_pool_induction (hidle : s.Idle)
    (hextra : ∀ call, (main cfg call).wp (histSem Op.Answers) (Extra call) (fun _ _ => True) [])
    {Inv : ApplyPool → Prop} (hinit : Inv (Pool.init s))
    (hstart : ∀ π call, Inv π →
      Inv { π with threads := π.threads ++ [Thread.spawn (main cfg) call] })
    (hcrash : ∀ π : ApplyPool, Inv π → Inv ⟨π.state.crash, π.threads.map Thread.stop⟩)
    (hstep : ∀ (π : ApplyPool) tid ch call op next hist,
      Pool.LogInv Op.Answers (fun call h => Good cfg call h ∧ Extra call h)
        (fun D L s => Disciplined D L s.skeleton) π →
      π.threads[tid]? = some ⟨call, .call op next, hist⟩ → enabled cfg op ch π.state = true →
      ok op ch hist π.state = true → Extra call (⟨op, (handle cfg op ch π.state).1⟩ :: hist) →
      Inv π → Inv (π.perform (handler cfg) tid call op next hist ch))
    (moves : List ApplyMove) (hok : RunMeets cfg s ok moves = true) :
    Inv (reach cfg s moves) := by
  induction moves using List.reverseRecOn with
  | nil => exact hinit
  | append_singleton before m ih =>
    obtain ⟨hbefore, hlast⟩ :=
      Bool.and_eq_true_iff.mp ((Pool.meets_append _ before [m]).symm.trans hok)
    have hinv := ih hbefore
    have hdisc := reach_disciplined_with hidle hextra hbefore
    show Inv ((Pool.init s).run (handler cfg) (main cfg) (before ++ [m]))
    rw [Pool.run_concat]
    cases m with
    | start call => exact hstart _ call hinv
    | crash => exact hcrash _ hinv
    | step tid ch =>
      rcases Pool.move_step_cases (handler cfg) (main cfg) (reach cfg s before) tid ch with
        heq | ⟨call, op, next, hist, hthread, henabled, heq⟩
      · exact heq ▸ hinv
      · have hkeeps := hdisc.keeps _ (List.mem_of_getElem? hthread)
        have hhead := ((wp_hist_call op next hist).mp hkeeps.rest _
          (handle_answers cfg op ch (reach cfg s before).state)).1
        have hcond : ok op ch hist (reach cfg s before).state = true := by
          simp only [Pool.Meets, Bool.and_true] at hlast
          exact (Pool.eachStep_of_call hthread).symm.trans hlast
        exact heq ▸ hstep _ tid ch call op next hist hdisc hthread henabled hcond hhead.2 hinv

end SophiaOrchestrator.Apply
