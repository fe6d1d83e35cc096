import SophiaOrchestrator.Apply.GroupProtocol

/-!
# The guarantee of the goroutines of groups and tasks

Every operation of these goroutines is justified by their history.  For each stage of their
protocols it is said what is known of the history there, and each move keeps it.
-/

namespace SophiaOrchestrator.Apply

open Effects Prog

variable {α : Type} {h h' : History} {op : Op} {n k team : Nat} {task t : Task}
  {g : Group} {f : op.Ret → Program α} {Q : α → Prop} {p : Program α} {R : α → History → Prop}

/-! ## Rules -/

section Rules

variable {cfg : RunConfig} {call : Call} {β : Type}

/-- From the history `h` the program performs justified operations only, and ends with
a value and a history that `R` admits. -/
abbrev Keeps (cfg : RunConfig) (call : Call) (R : α → History → Prop) (p : Program α)
    (h : History) : Prop :=
  p.wp (histSem Op.Answers) (Good cfg call) R h

theorem keeps_perform (hjust : ∀ answer, op.Answers answer → Justified cfg call ⟨op, answer⟩ h)
    (hf : ∀ answer h', op.Answers answer → ⟨op, answer⟩ ∈ h' → h <:+ h' →
      view h' = (view h).after ⟨op, answer⟩ → Keeps cfg call R (f answer) h') :
    Keeps cfg call R (perform op >>= f) h :=
  wp_perform_bind hjust fun answer hans =>
    hf answer _ hans List.mem_cons_self (List.suffix_cons _ _) rfl

theorem keeps_calm (hcalm : op.calm = true)
    (hf : ∀ answer h', ⟨op, answer⟩ ∈ h' → h <:+ h' → view h' = view h →
      Keeps cfg call R (f answer) h') : Keeps cfg call R (perform op >>= f) h :=
  keeps_perform (fun _ _ => justified_of_calm cfg call h hcalm)
    fun answer h' _ hmem hsuffix hview =>
      hf answer h' hmem hsuffix (hview.trans ((view h).after_of_calm hcalm))

end Rules

/-! ## Plain programs -/

theorem Op.plain_of_probes (h : op.probes = true) : op.plain = true := by
  cases op <;> first | rfl | cases h

/-! ## The attempts at a task -/

/-- The task before an attempt when `n` attempts remain, if it was claimed as a new
one. -/
def Trying (n : Nat) (task : Task) : Prop :=
  (n = maxAttempts ∧ task.status = .pending ∧ task.attempts = 0) ∨
    (task.status = .failed ∧ 0 < n ∧ task.attempts + n = maxAttempts)

def Tracks (t : Task) (n : Nat) (task : Task) : Prop :=
  task.id = t.id ∧ (t.status = .pending → t.attempts = 0 → Trying n task)

theorem Trying.sound (h : Trying n task) : SoundTask task := by
  rcases h with ⟨-, hstatus, hattempts⟩ | ⟨hstatus, hpos, hsum⟩
  · exact ⟨by omega, fun hlast => absurd (hattempts.symm.trans hlast) (by decide),
      fun _ => hattempts⟩
  · exact ⟨by omega, fun hlast => by omega, fun hpending => by simp [hstatus] at hpending⟩

theorem Trying.complete_getD (h : Trying n task) (env : Envelope) :
    (task.complete env).toOption.getD task = task := by
  have hstatus : task.status ≠ .running := by
    rcases h with ⟨-, hstatus, -⟩ | ⟨hstatus, -⟩ <;> simp [hstatus]
  simp [Task.complete, hstatus, Except.toOption]

theorem Trying.release_getD (h : Trying n task) :
    task.release.toOption.getD task = task := by
  have hstatus : task.status ≠ .claimed ∧ task.status ≠ .running := by
    rcases h with ⟨-, hstatus, -⟩ | ⟨hstatus, -⟩ <;> simp [hstatus]
  simp [Task.release, hstatus, Except.toOption]

theorem Tracks.evolves (h : Tracks t n task) : Evolves t task :=
  ⟨h.1, fun hpending hfresh => (h.2 hpending hfresh).sound⟩

theorem Tracks.complete (h : Tracks t n task) (env : Envelope) :
    Tracks t n ((task.complete env).toOption.getD task) := by
  refine ⟨(complete_getD_id task env).trans h.1, fun hpending hfresh => ?_⟩
  rw [(h.2 hpending hfresh).complete_getD]
  exact h.2 hpending hfresh

theorem Tracks.release (h : Tracks t n task) :
    Tracks t n (task.release.toOption.getD task) := by
  refine ⟨(release_getD_id task).trans h.1, fun hpending hfresh => ?_⟩
  rw [(h.2 hpending hfresh).release_getD]
  exact h.2 hpending hfresh

/-- A recorded attempt is sound: the third failure blocks the task. -/
theorem Trying.sound_recordAttempt (h : Trying n task) (success : Bool) :
    SoundTask (task.recordAttempt success).1 := by
  have hlt : task.attempts + 1 ≤ maxAttempts := by
    rcases h with ⟨-, -, hattempts⟩ | ⟨-, hpos, hsum⟩
    · rw [hattempts]
      decide
    · omega
  unfold Task.recordAttempt
  split
  · exact ⟨hlt, fun _ => .inl rfl, fun hpending => by cases hpending⟩
  · split
    · exact ⟨hlt, fun _ => .inr rfl, fun hpending => by cases hpending⟩
    · next hmore =>
      exact ⟨hlt, fun hlast => absurd hlast.ge hmore, fun hpending => by cases hpending⟩

theorem Tracks.evolves_recordAttempt (h : Tracks t n task) (success : Bool) :
    Evolves t (task.recordAttempt success).1 :=
  ⟨(recordAttempt_id task success).trans h.1,
    fun hpending hfresh => (h.2 hpending hfresh).sound_recordAttempt success⟩

theorem Tracks.retry (h : Tracks t (n + 1) task) (hretry : (task.recordAttempt false).2 = none) :
    Tracks t n (task.recordAttempt false).1 := by
  refine ⟨(recordAttempt_id task false).trans h.1, fun hpending hfresh => .inr ?_⟩
  have htrying := h.2 hpending hfresh
  unfold Task.recordAttempt at hretry ⊢
  split at hretry
  · next hlast => cases hlast
  · split at hretry
    · cases hretry
    · next hfalse hmore =>
      rw [if_neg hfalse, if_neg hmore]
      refine ⟨rfl, ?_, ?_⟩ <;>
        · rcases htrying with ⟨hn, -, hattempts⟩ | ⟨-, -, hsum⟩
          · simp only [hattempts, maxAttempts] at *
            omega
          · simp only at *
            omega

section Tasks

variable {cfg : RunConfig} {call : Call} {x : Nat} {c : Change} {s s' : TaskStage} {ev : Event}

def TaskStage.order : TaskStage → Nat
  | .fresh | .start => 2
  | .gone => 8
  | _ => 3

def TaskStage.Unsettled : TaskStage → Prop
  | .fresh | .start | .ready true _ _ | .informed true _ _ _ | .prompted true _ _ => True
  | .waits false n _ => n = maxAttempts
  | _ => False

/-- What the goroutine of a task knows of its history at a stage. -/
structure AtTask (cfg : RunConfig) (k x team : Nat) (t : Task) (s : TaskStage) (h : History) :
    Prop where
  runs : RunsTask h k x team t
  stage : (view h).stage ≤ s.order
  slot : (view h).slot = s.slot
  claimed : ∀ left, s.left? = some left → Claimed h x t ∧ Tracks t left.1 left.2
  ends : ¬s.Unsettled → TaskEnds cfg h x t

theorem Op.calm_of_incidental (hop : op.incidental = true) : op.calm = true := by
  cases op
  case memoryGet x c artifact => cases artifact <;> first | rfl | cases hop
  all_goals first | rfl | cases hop

theorem AtTask.justified_saveTask {answer : Except RepoErr Unit} {left : Nat × Task}
    (hs : AtTask cfg k x team t s h) (horder : s.order ≤ 3) (hleft : s.left? = some left)
    (hevolves : Evolves t task) : Justified cfg call ⟨.saveTask x task, answer⟩ h :=
  ⟨fun _ => hs.stage.trans horder, .inr ⟨t, (hs.claimed left hleft).1, hevolves⟩⟩

theorem TaskMove.justified (hmove : TaskMove cfg k x team c t s ev s')
    (hs : AtTask cfg k x team t s h) : Justified cfg call ev h := by
  cases hmove with
  | stay hop | failed hop => exact justified_of_calm cfg call h (Op.calm_of_incidental hop)
  | claimed hopen | unclaimed hopen =>
    exact ⟨fun _ => Nat.lt_succ_of_le hs.stage, k, team, t, hs.runs, rfl, hopen⟩
  | granted | refused | freed => exact ⟨fun hstage => absurd rfl hstage, hs.slot⟩
  | dispatched =>
    obtain ⟨hclaimed, htracks⟩ := hs.claimed _ rfl
    refine ⟨fun _ => hs.stage, fun tid htid => ?_⟩
    cases htid
    exact ⟨t, hclaimed, htracks.1⟩
  | completed => exact hs.justified_saveTask le_rfl rfl ((hs.claimed _ rfl).2.complete _).evolves
  | retried | counted | used =>
    exact hs.justified_saveTask le_rfl rfl ((hs.claimed _ rfl).2.evolves_recordAttempt _)
  | released | abandoned =>
    exact hs.justified_saveTask le_rfl rfl (hs.claimed _ rfl).2.release.evolves
  | leaves =>
    refine ⟨fun _ => lt_of_le_of_lt hs.stage (show 3 < 8 by decide), ?_⟩
    exact ⟨x, t, hs.runs, hs.ends id, hs.slot⟩
  | _ => exact justified_of_calm cfg call h rfl

theorem TaskMove.order (hmove : TaskMove cfg k x team c t s ev s') :
    s.order ≤ s'.order ∧ ev.op.stage ≤ s'.order := by
  have hincidental : ∀ {op : Op}, op.incidental = true → op.stage = 0 := fun {op} hop => by
    cases op <;> first | rfl | cases hop
  cases hmove with
  | stay hop => exact ⟨le_rfl, (hincidental hop).trans_le (Nat.zero_le _)⟩
  | failed hop => exact ⟨Nat.le_succ _, (hincidental hop).trans_le (Nat.zero_le _)⟩
  | told hs => cases hs <;> exact ⟨Nat.le_of_ble_eq_true rfl, Nat.zero_le _⟩
  | _ => exact ⟨Nat.le_of_ble_eq_true rfl, Nat.le_of_ble_eq_true rfl⟩

theorem AtTask.step (hs : AtTask cfg k x team t s h) (hmove : TaskMove cfg k x team c t s ev s') :
    AtTask cfg k x team t s' (ev :: h) := by
  have hsuffix : h <:+ ev :: h := List.suffix_cons _ _
  have hends : ¬s.Unsettled → TaskEnds cfg (ev :: h) x t := fun h => (hs.ends h).mono hsuffix
  have hclaimed : ∀ {left}, s.left? = some left → Claimed (ev :: h) x t ∧ Tracks t left.1 left.2 :=
    fun hleft => (hs.claimed _ hleft).imp_left (·.mono hsuffix)
  have htrouble : mishap ev = true → TaskEnds cfg (ev :: h) x t := fun hev =>
    .inr (.inr (.inl (troubled_of_mem List.mem_cons_self hev)))
  refine ⟨hs.runs.mono hsuffix, max_le (hs.stage.trans hmove.order.1) hmove.order.2, ?_, ?_, ?_⟩
  · cases hmove with
    | stay hop => rw [view_cons, View.after_of_calm _ (Op.calm_of_incidental hop), hs.slot]
    | failed hop => rw [view_cons, View.after_of_calm _ (Op.calm_of_incidental hop), hs.slot]; rfl
    | granted | freed => rfl
    | told hs' => cases hs' <;> exact hs.slot
    | _ => exact hs.slot
  · intro left hleft
    cases hmove with
    | stay => exact hclaimed hleft
    | claimed hopen =>
      cases hleft
      exact ⟨⟨k, team, _, hs.runs.mono hsuffix, hopen, List.mem_cons_self⟩, rfl,
        fun hpending hfresh => .inl ⟨rfl, hpending, hfresh⟩⟩
    | completed =>
      cases hleft
      exact (hclaimed rfl).imp_right (·.complete _)
    | retried hretry =>
      cases hleft
      exact (hclaimed rfl).imp_right (·.retry hretry)
    | _ => first | exact hclaimed hleft | cases hleft
  · intro hsettled
    cases hmove with
    | stay => exact hends hsettled
    | unslotted | cancelled | refused | unprompted => exact htrouble rfl
    | failed _ hev => exact htrouble hev
    | unmade hnew =>
      exact hnew.elim (fun hprovider => .inr (.inr (.inl (.inl hprovider)))) (.inr ∘ .inl)
    | @unclaimed _ answer _ hanswer =>
      rcases answer with err | _ | _
      · exact htrouble rfl
      · exact .inr (.inr (.inr (.inl ⟨_, List.mem_cons_self⟩)))
      · exact absurd rfl hanswer
    | slotted | granted => exact absurd trivial hsettled
    | claimed => exact absurd rfl hsettled
    | @reads slot | @prompted slot =>
      cases slot <;> first | exact hends id | exact absurd trivial hsettled
    | dispatched =>
      refine .inr (.inr (.inr (.inr ⟨_, _, List.mem_cons_self, ?_⟩)))
      exact congrArg DispatchTarget.implement (hclaimed rfl).2.1
    | told hs' =>
      cases hs' with
      | done hdone => exact .inl hdone
      | ended | refused => exact hends id
      | exhausted => exact hends (show ¬0 = maxAttempts by decide)
    | _ => exact hends id

theorem taskGoroutine_keeps (c : Change) (p : Phase) (group : Group) (hruns : RunsTask h k x team t)
    (hstage : (view h).stage < 3) (hslot : (view h).slot = false) :
    Keeps cfg call (fun _ h' => (view h').slot = false)
      (taskGoroutine cfg k x team c p group t) h := by
  have hfresh : AtTask cfg k x team t .fresh h :=
    ⟨hruns, Nat.le_of_lt_succ hstage, hslot, by simp [TaskStage.left?], fun h => absurd trivial h⟩
  refine wp_mono (taskGoroutine_follows.wp_hist ?_ hfresh) (fun _ hI => hI) ?_
  · exact fun s ev s' h hmove _ hs => ⟨hmove.justified hs, hs.step hmove⟩
  · rintro _ h' ⟨_, rfl, hgone⟩
    exact hgone.slot

end Tasks

/-! ## The goroutine of a group -/

/-- The team-lead has waited for the tasks that were started, and a pending group has had its tasks
run unless something went wrong. -/
structure LeadOver (cfg : RunConfig) (k : Nat) (g : Group) (h : History) : Prop where
  waited : (view h).tasks ≠ [] → ⟨.waitTasks k, ()⟩ ∈ h
  ran : g.status = .pending → ⟨.waitTasks k, ()⟩ ∈ h ∨ Troubled cfg h

def GroupStage.Knows (cfg : RunConfig) (k x : Nat) (p : Phase) (g : Group) (h : History) :
    GroupStage → Prop
  | .waits | .slotted false | .granted => (view h).tasks = []
  | .forsaken | .slotted true => (view h).tasks = [] ∧ Troubled cfg h
  | .starting started => g.status = .pending ∧ (view h).tasks = started ∧
      ∃ sid, ⟨.publishEvent p.id (.teamLeadSpawned sid g.id), ()⟩ ∈ h
  | .joined => g.status = .pending ∧ ⟨.waitTasks k, ()⟩ ∈ h
  | .detecting (.done result) => g.status = .pending ∧ ⟨.waitTasks k, ()⟩ ∈ h ∧
      ∃ h₁ h₂, (detectBuildPlan x g.worktreePath).Ends h₁ result h₂ ∧ h₂ <:+ h
  | .detecting (.call op next) => g.status = .pending ∧ ⟨.waitTasks k, ()⟩ ∈ h ∧
      ∃ h₁, ∀ result h₂, (Prog.call op next).Ends h result h₂ →
        (detectBuildPlan x g.worktreePath).Ends h₁ result h₂
  | .building plan _ | .broken plan _ => g.status = .pending ∧ ⟨.waitTasks k, ()⟩ ∈ h ∧
      ∃ h₁ h₂, (detectBuildPlan x g.worktreePath).Ends h₁ (.ok (some plan)) h₂ ∧ h₂ <:+ h
  | .passed => g.status = .pending ∧ ⟨.waitTasks k, ()⟩ ∈ h ∧ BuildGatePassed h x g.worktreePath
  | .ended success | .freed success =>
    LeadOver cfg k g h ∧ (success = true → SavedCompleted h x g.id)
  | .settled _ => LeadOver cfg k g h ∧
      ((∃ outcome, ⟨.setResult x g.id outcome, ()⟩ ∈ h) ∨ ⟨.takeGroupSlot x, .ctxDone⟩ ∈ h)
  | .gone => True

def GroupStage.order : GroupStage → Nat
  | .waits => 1
  | .slotted _ | .granted | .starting _ => 4
  | .gone => 8
  | _ => 5

structure AtGroup (cfg : RunConfig) (k x : Nat) (p : Phase) (g : Group) (s : GroupStage)
    (h : History) : Prop where
  runs : RunsGroup h k x p g
  stage : (view h).stage ≤ s.order
  slot : (view h).slot = s.governor
  known : s.Knows cfg k x p g h

section Groups

variable {cfg : RunConfig} {call : Call} {x : Nat} {c : Change} {p : Phase} {s s' : GroupStage}
  {ev : Event}

theorem Op.stage_of_marginal (hop : op.marginal = true) : op.stage = 0 := by
  cases op <;> first | rfl | cases hop

theorem View.after_of_marginal (v : View) (hop : ev.op.marginal = true) : v.after ev = v := by
  obtain ⟨op, answer⟩ := ev
  cases op <;> first | (simp [View.after, Op.stage]; done) | cases hop

theorem Op.calm_of_probes (hop : op.probes = true) : op.calm = true :=
  Op.calm_of_tame (Op.tame_of_plain (Op.plain_of_probes hop))

theorem justified_of_marginal (hop : ev.op.marginal = true) : Justified cfg call ev h := by
  obtain ⟨op, answer⟩ := ev
  refine ⟨fun hstage => absurd (Op.stage_of_marginal hop) hstage, ?_⟩
  cases op
  case saveGroup x row => exact fun hrow => absurd hrow (of_decide_eq_true hop)
  all_goals trivial

theorem LeadOver.extend (hover : LeadOver cfg k g h) (hsuffix : h <:+ h')
    (htasks : (view h').tasks = (view h).tasks) : LeadOver cfg k g h' where
  waited := by rw [htasks]; exact fun hne => hsuffix.subset (hover.waited hne)
  ran hpending := (hover.ran hpending).imp (hsuffix.subset ·) (·.mono hsuffix)

theorem LeadOver.of_waited (hwaited : ⟨.waitTasks k, ()⟩ ∈ h) : LeadOver cfg k g h :=
  ⟨fun _ => hwaited, fun _ => .inl hwaited⟩

theorem LeadOver.of_troubled (htasks : (view h).tasks = []) (htrouble : Troubled cfg h) :
    LeadOver cfg k g h :=
  ⟨fun hne => absurd htasks hne, fun _ => .inr htrouble⟩

theorem knows_detecting {rest : Program (Except String (Option BuildPlan))}
    (hpending : g.status = .pending) (hwaited : ⟨.waitTasks k, ()⟩ ∈ h) (h₁ : History)
    (hrest : ∀ result h₂, rest.Ends h result h₂ →
      (detectBuildPlan x g.worktreePath).Ends h₁ result h₂) :
    (GroupStage.detecting rest).Knows cfg k x p g h := by
  cases rest with
  | done result => exact ⟨hpending, hwaited, h₁, h, hrest _ _ (.done _ _), List.suffix_rfl⟩
  | call op next => exact ⟨hpending, hwaited, h₁, hrest⟩

theorem GroupStage.Knows.extend (hs : s.Knows cfg k x p g h) (hprobing : s.probing = false)
    (hsuffix : h <:+ h') (htasks : (view h').tasks = (view h).tasks) : s.Knows cfg k x p g h' := by
  have hsub : ∀ {ev : Event}, ev ∈ h → ev ∈ h' := fun hmem => hsuffix.subset hmem
  cases s with
  | waits | granted => exact htasks.trans hs
  | forsaken => exact ⟨htasks.trans hs.1, hs.2.mono hsuffix⟩
  | slotted refused =>
    cases refused with
    | false => exact htasks.trans hs
    | true => exact ⟨htasks.trans hs.1, hs.2.mono hsuffix⟩
  | starting started =>
    obtain ⟨hpending, hstarted, sid, hmem⟩ := hs
    exact ⟨hpending, htasks.trans hstarted, sid, hsub hmem⟩
  | joined => exact ⟨hs.1, hsub hs.2⟩
  | detecting rest =>
    cases rest with
    | done result =>
      obtain ⟨hpending, hwaited, h₁, h₂, hends, hpart⟩ := hs
      exact ⟨hpending, hsub hwaited, h₁, h₂, hends, hpart.trans hsuffix⟩
    | call op next => cases hprobing
  | building plan rounds | broken plan rounds =>
    obtain ⟨hpending, hwaited, h₁, h₂, hends, hpart⟩ := hs
    exact ⟨hpending, hsub hwaited, h₁, h₂, hends, hpart.trans hsuffix⟩
  | passed => exact ⟨hs.1, hsub hs.2.1, hs.2.2.mono hsuffix⟩
  | ended success | freed success =>
    exact ⟨hs.1.extend hsuffix htasks, fun hsuccess => (hs.2 hsuccess).mono hsuffix⟩
  | settled slot =>
    refine ⟨hs.1.extend hsuffix htasks, hs.2.imp ?_ (hsub ·)⟩
    exact fun ⟨outcome, hmem⟩ => ⟨outcome, hsub hmem⟩
  | gone => trivial

theorem GroupMove.justified (hmove : GroupMove cfg k x c p g s ev s') (hcall : call = .goroutine k)
    (hs : AtGroup cfg k x p g s h) : Justified cfg call ev h := by
  have hknown := hs.known
  have hanytime : ∀ {op : Op}, op.stage = 0 → Ordered op h := fun hzero hstage =>
    absurd hzero hstage
  -- A group that has failed, or was completed before, has its result.
  have hresult : ∀ {outcome : GroupOutcome},
      (outcome.failed = false → g.status = .completed ∨ SavedCompleted h x g.id) →
      Justified cfg call ⟨.setResult x g.id outcome, ()⟩ h := fun hok =>
    ⟨hanytime rfl, k, p, g, hs.runs, rfl, hok⟩
  cases hmove with
  | stay _ hop | forsaken hop | failed hop | skips _ hop | begins hop | givesUp _ hop =>
    exact justified_of_marginal hop
  | probes hop => exact justified_of_calm cfg call h (Op.calm_of_probes hop)
  | kept hcompleted => exact hresult fun _ => .inl hcompleted
  | dropped hfailed | ungranted hfailed =>
    exact hresult fun hok => by rw [hfailed] at hok; cases hok
  | told hsuccess => exact hresult fun hok => .inr (hknown.2 (by simpa [hsuccess] using hok))
  | slotted | unslotted => exact ⟨fun _ => hs.stage, k, p, g, hs.runs⟩
  | granted | refused => exact ⟨hanytime rfl, hs.slot⟩
  | frees hs' => cases hs' <;> exact ⟨hanytime rfl, hs.slot⟩
  | starts htasks =>
    obtain ⟨hpending, hstarted, -⟩ := hknown
    refine ⟨fun _ => hs.stage, hcall, p, g, hs.runs, hpending, ?_⟩
    rw [hstarted, htasks]
    simp
  | joins =>
    obtain ⟨hpending, hstarted, sid, hmem⟩ := hknown
    exact ⟨fun _ => Nat.lt_succ_of_le hs.stage, x, p, g, hs.runs, hpending, hstarted, sid, hmem⟩
  | repairs => exact ⟨hanytime rfl, fun _ htarget => by cases htarget⟩
  | completes hkey hpath =>
    obtain ⟨hpending, hwaited, hgate⟩ := hknown
    exact ⟨hanytime rfl, fun _ => .inr ⟨k, p, g, hs.runs, hkey.symm, hpath.symm, hpending, hwaited,
      hgate⟩⟩
  | leaves =>
    obtain ⟨hover, hset⟩ := hknown
    exact ⟨fun _ => lt_of_le_of_lt hs.stage (show 5 < 8 by decide), p, g, hs.runs, hset,
      hover.waited, hover.ran, hs.slot⟩
  | _ => exact justified_of_calm cfg call h rfl

theorem GroupMove.order (hmove : GroupMove cfg k x c p g s ev s') :
    s.order ≤ s'.order ∧ ev.op.stage ≤ s'.order := by
  have hmarginal : ev.op.marginal = true → ev.op.stage ≤ s'.order := fun hop =>
    (Op.stage_of_marginal hop).trans_le (Nat.zero_le _)
  cases hmove with
  | stay _ hop | skips _ hop | begins hop => exact ⟨le_rfl, hmarginal hop⟩
  | forsaken hop | failed hop => exact ⟨Nat.le_of_ble_eq_true rfl, hmarginal hop⟩
  | givesUp hs hop => cases hs <;> exact ⟨le_rfl, hmarginal hop⟩
  | @probes op _ _ hop =>
    refine ⟨le_rfl, ?_⟩
    cases op <;> first | exact Nat.zero_le _ | cases hop
  | frees hs => cases hs <;> exact ⟨Nat.le_of_ble_eq_true rfl, Nat.zero_le _⟩
  | _ => exact ⟨Nat.le_of_ble_eq_true rfl, Nat.le_of_ble_eq_true rfl⟩

theorem GroupMove.governor (hmove : GroupMove cfg k x c p g s ev s')
    (hs : (view h).slot = s.governor) : (view (ev :: h)).slot = s'.governor := by
  have hmarginal : ev.op.marginal = true → (view (ev :: h)).slot = s.governor := fun hop => by
    rw [view_cons, View.after_of_marginal _ hop, hs]
  cases hmove with
  | stay _ hop | forsaken hop | failed hop | skips _ hop | begins hop => exact hmarginal hop
  | givesUp hs' hop => cases hs' <;> exact hmarginal hop
  | probes hop => rw [view_cons, View.after_of_calm _ (Op.calm_of_probes hop), hs]; rfl
  | granted | frees => rfl
  | _ => exact hs

theorem GroupMove.knows (hmove : GroupMove cfg k x c p g s ev s') (hs : s.Knows cfg k x p g h) :
    s'.Knows cfg k x p g (ev :: h) := by
  have hsuffix : h <:+ ev :: h := List.suffix_cons _ _
  have hsub : ∀ {ev' : Event}, ev' ∈ h → ev' ∈ ev :: h := List.mem_cons_of_mem _
  have hmem : ev ∈ ev :: h := List.mem_cons_self
  have htasks : ev.op.marginal = true → (view (ev :: h)).tasks = (view h).tasks := fun hop => by
    rw [view_cons, View.after_of_marginal _ hop]
  cases hmove with
  | stay hprobing hop => exact hs.extend hprobing hsuffix (htasks hop)
  | kept hcompleted =>
    refine ⟨⟨fun hne => absurd hs hne, fun hpending => ?_⟩, .inl ⟨_, hmem⟩⟩
    cases hcompleted.symm.trans hpending
  | forsaken hop hev => exact ⟨(htasks hop).trans hs, troubled_of_mem hmem hev⟩
  | dropped | ungranted => exact ⟨.of_troubled hs.1 (hs.2.mono hsuffix), .inl ⟨_, hmem⟩⟩
  | slotted => exact hs
  | unslotted => exact ⟨.of_troubled hs (troubled_of_mem hmem rfl), .inr hmem⟩
  | @granted refused =>
    cases refused with
    | false => exact hs
    | true => exact hs.1
  | @refused refused =>
    cases refused with
    | false => exact ⟨hs, troubled_of_mem hmem rfl⟩
    | true => exact ⟨hs.1, troubled_of_mem hmem rfl⟩
  | failed hop hev =>
    exact ⟨.of_troubled ((htasks hop).trans hs) (troubled_of_mem hmem hev), Bool.false_ne_true.elim⟩
  | unmade hprovider => exact ⟨.of_troubled hs (.inl hprovider), Bool.false_ne_true.elim⟩
  | spawned hpending => exact ⟨hpending, hs, _, hmem⟩
  | starts =>
    obtain ⟨hpending, hstarted, sid, hspawned⟩ := hs
    exact ⟨hpending, congrArg (· ++ [_]) hstarted, sid, hsub hspawned⟩
  | joins => exact ⟨hs.1, hmem⟩
  | fails => exact ⟨.of_waited (hsub hs.2), Bool.false_ne_true.elim⟩
  | detects => exact knows_detecting hs.1 (hsub hs.2) _ fun _ _ => id
  | probes =>
    obtain ⟨hpending, hwaited, h₁, hrest⟩ := hs
    exact knows_detecting hpending (hsub hwaited) h₁ fun _ _ hends => hrest _ _ (.call _ hends)
  | skips hnone =>
    obtain ⟨hpending, hwaited, h₁, h₂, hends, hpart⟩ := hs
    exact ⟨hpending, hsub hwaited, h₁, _, h₂, hends, hpart.trans hsuffix,
      fun plan hplan => absurd hplan (hnone plan)⟩
  | begins | breaks | repairs =>
    obtain ⟨hpending, hwaited, h₁, h₂, hends, hpart⟩ := hs
    exact ⟨hpending, hsub hwaited, h₁, h₂, hends, hpart.trans hsuffix⟩
  | passes hcode =>
    obtain ⟨hpending, hwaited, h₁, h₂, hends, hpart⟩ := hs
    refine ⟨hpending, hsub hwaited, h₁, _, h₂, hends, hpart.trans hsuffix, fun plan hplan => ?_⟩
    cases hplan
    exact ⟨_, hmem, hcode⟩
  | givesUp hgating =>
    cases hgating with
    | detected | broken => exact ⟨.of_waited (hsub hs.2.1), Bool.false_ne_true.elim⟩
  | completes hkey _ hstatus =>
    exact ⟨.of_waited (hsub hs.2.1), fun _ => ⟨_, _, hmem, congrArg (·.1) hkey, hstatus⟩⟩
  | frees hends =>
    cases hends with
    | unstarted hstatus =>
      exact ⟨⟨fun hne => absurd hs hne, fun hpending => absurd hpending hstatus⟩,
        Bool.false_ne_true.elim⟩
    | ended => exact ⟨hs.1.extend hsuffix rfl, fun hsuccess => (hs.2 hsuccess).mono hsuffix⟩
  | told => exact ⟨hs.1.extend hsuffix rfl, .inl ⟨_, hmem⟩⟩
  | unslots => exact GroupStage.Knows.extend (s := .settled false) hs rfl hsuffix rfl
  | leaves => trivial

theorem groupGoroutine_keeps (c : Change) (hcall : call = .goroutine k)
    (hruns : RunsGroup h k x p g)
    (hstage : (view h).stage ≤ 1) (hslot : (view h).slot = false) (htasks : (view h).tasks = []) :
    Keeps cfg call (fun _ h' => (view h').slot = false) (groupGoroutine cfg k x c p g) h := by
  have hwaits : AtGroup cfg k x p g .waits h := ⟨hruns, hstage, hslot, htasks⟩
  refine wp_mono (groupGoroutine_follows.wp_hist ?_ hwaits) (fun _ hI => hI) ?_
  · intro s ev s' h hmove _ hs
    have hstage := max_le (hs.stage.trans hmove.order.1) hmove.order.2
    exact ⟨hmove.justified hcall hs, hs.runs.mono (List.suffix_cons _ _), hstage,
      hmove.governor hs.slot, hmove.knows hs.known⟩
  · rintro _ h' ⟨_, rfl, hgone⟩
    exact hgone.slot

end Groups

end SophiaOrchestrator.Apply
