import SophiaOrchestrator.Effects.Log
import SophiaOrchestrator.Effects.Quiet
import SophiaOrchestrator.Skills.Service

/-!
# The values that a status takes

Calls that patch statuses are interleaved in any way.  A patch reads the status, checks the
transition from what it read, and writes without a condition; so what it replaces is what
it checked only if no other call wrote in between.
-/

namespace SophiaOrchestrator.Skills.Learning

open Effects Prog

/-! ## What a step does to the skills -/

theorem handle_skills (op : Op) (ch : Choice) (s : State) :
    (handle op ch s).2.skills = s.skills ∨
      (∃ row, op = .upsert row ∧ s.skills.upsert row = .ok (handle op ch s).2.skills) ∨
      (∃ id delta now, op = .patchMetrics id delta now ∧
        s.skills.patchMetrics id delta now = .ok (handle op ch s).2.skills) ∨
      ∃ id status now, op = .patchStatus id status now ∧
        s.skills.patchStatus id status now = .ok (handle op ch s).2.skills := by
  -- A write has no effect, or the effect of its statement on the table it names.
  have hwrite : ∀ effect : Except RepoErr SkillTable,
      let s' := (ch.fault.write s (effect.map fun skills => { s with skills })).2
      s'.skills = s.skills ∨ effect = .ok s'.skills := by
    intro effect
    rcases ch.fault.write_eq s (effect.map fun skills => { s with skills }) with hsame | heffect
    · exact .inl (congrArg State.skills hsame)
    · cases effect with
      | error err => cases heffect
      | ok skills =>
        refine .inr ?_
        rw [← Except.ok.inj heffect]
  have hother : ∀ effect : Except RepoErr State, (∀ s', effect = .ok s' → s'.skills = s.skills) →
      (ch.fault.write s effect).2.skills = s.skills := by
    intro effect hkeeps
    rcases ch.fault.write_eq s effect with hsame | heffect
    · rw [hsame]
    · exact hkeeps _ heffect
  cases op with
  | upsert row =>
    exact (hwrite (s.skills.upsert row)).imp id fun h => .inl ⟨row, rfl, h⟩
  | patchMetrics skillID delta now =>
    exact (hwrite (s.skills.patchMetrics skillID delta now)).imp id fun h =>
      .inr (.inl ⟨skillID, delta, now, rfl, h⟩)
  | patchStatus skillID status now =>
    exact (hwrite (s.skills.patchStatus skillID status now)).imp id fun h =>
      .inr (.inr ⟨skillID, status, now, rfl, h⟩)
  | saveRun run =>
    refine .inl (hother _ fun s' h => ?_)
    cases hsave : s.runs.save run with
    | error err => rw [hsave] at h; cases h
    | ok runs => rw [hsave] at h; rw [← Except.ok.inj h]
  | record usages attempts =>
    refine .inl (hother _ fun s' h => ?_)
    rw [← Except.ok.inj h]
  | _ => exact .inl rfl

/-- Every status is the one before or the target of an edge from it. -/
def StatusStep (s s' : State) : Prop :=
  ∀ row ∈ s.skills.rows, ∀ row' ∈ s'.skills.rows, row'.id = row.id →
    row'.status = row.status ∨ Allowed row.status row'.status

theorem statusStep_of_skills_eq {s s' : State} (h : s'.skills = s.skills) : StatusStep s s' := by
  intro row hrow row' hrow' hid
  rw [h] at hrow'
  rw [s.skills.eq_of_other_eq hrow' hrow hid]
  exact .inl rfl

theorem statusStep_updateRow {s s' : State} {id : SkillID} {set : SkillRow → SkillRow}
    {hkey : ∀ row, skillKey (set row) = skillKey row} {hid : ∀ row, (set row).id = row.id}
    (h : s.skills.updateRow id set hkey hid = .ok s'.skills)
    (hset : ∀ row ∈ s.skills.rows, row.id = id →
      (set row).status = row.status ∨ Allowed row.status (set row).status) : StatusStep s s' := by
  intro row hrow row' hrow' hids
  rw [SkillTable.rows_updateRow h] at hrow'
  obtain ⟨old, hold, rfl⟩ := List.mem_map.mp hrow'
  by_cases htarget : old.id = id
  · rw [if_pos htarget, hid] at hids
    rw [if_pos htarget, ← s.skills.eq_of_other_eq hold hrow hids]
    exact hset old hold htarget
  · rw [if_neg htarget] at hids ⊢
    rw [s.skills.eq_of_other_eq hold hrow hids]
    exact .inl rfl

/-! ## What the calls guarantee -/

abbrev History : Type := List (Ev Op Op.Ret)

def readOf (id : SkillID) : Ev Op Op.Ret → Option Status
  | ⟨.findByID id', .ok row⟩ => if id' = id then some row.status else none
  | _ => none

def lastRead (id : SkillID) (h : History) : Option Status :=
  h.findSome? (readOf id)

/-- No whole row is written, and a status only after a read from which the transition is
allowed. -/
def Guarded : History → Prop
  | ⟨.patchStatus id status _, _⟩ :: past =>
    ∃ current, lastRead id past = some current ∧ Allowed current status
  | ⟨.upsert _, _⟩ :: _ => False
  | _ => True

def Op.harmless : Op → Bool
  | .patchStatus _ _ _ | .upsert _ => false
  | _ => true

theorem guarded_of_harmless {ev : Ev Op Op.Ret} (past : History) (h : ev.op.harmless = true) :
    Guarded (ev :: past) := by
  obtain ⟨op, answer⟩ := ev
  cases op <;> trivial

def Guards {α : Type} (p : Program α) : Prop :=
  ∀ h, p.wp (histSem fun _ _ => True) Guarded (fun _ _ => True) h

theorem guards_done {α : Type} {value : α} : Guards (Prog.done value : Program α) :=
  fun _ => trivial

theorem guards_bind {α β : Type} {p : Program α} {f : α → Program β} (hp : Guards p)
    (hf : ∀ value, Guards (f value)) : Guards (p >>= f) := by
  intro h
  refine wp_bind (wp_mono (hp h) (fun _ => id) ?_)
  intro value h' _
  exact hf value h'

theorem guards_perform {op : Op} (hop : op.harmless = true) : Guards (perform op) :=
  fun h => (wp_hist_call op _ h).mpr fun _ _ => ⟨guarded_of_harmless h hop, trivial⟩

/-- The guarded patch: the transition is checked from what was read just before. -/
theorem patchStatus_guards {skillID : Option SkillID} {status : Status} :
    Guards (patchStatus skillID status) := by
  intro h
  unfold patchStatus
  cases skillID with
  | none => trivial
  | some id =>
    dsimp only
    split
    · trivial
    · refine wp_perform_bind (fun _ _ => trivial) fun answer _ => ?_
      cases answer with
      | error err => trivial
      | ok current =>
        dsimp only
        split
        · next hallowed =>
          refine wp_perform_bind (fun _ _ => trivial) fun now _ => ?_
          refine wp_perform_bind (fun _ _ => ?_) fun answer _ => ?_
          · exact ⟨current.status, by simp [lastRead, List.findSome?_cons, readOf], hallowed⟩
          · cases answer <;> trivial
        · trivial

theorem patchMetrics_guards {skillID : Option SkillID} {delta : MetricsDelta} :
    Guards (patchMetrics skillID delta) := by
  unfold patchMetrics
  cases skillID with
  | none => exact guards_done
  | some id =>
    refine guards_bind (guards_perform rfl) fun now => guards_bind (guards_perform rfl) ?_
    intro answer
    cases answer <;> exact guards_done

theorem currentStatus_guards {skillID : Option SkillID} : Guards (currentStatus skillID) := by
  unfold currentStatus
  cases skillID with
  | none => exact guards_done
  | some id =>
    refine guards_bind (guards_perform rfl) fun answer => ?_
    cases answer <;> exact guards_done

theorem maxAttempts_guards {usages : List SkillUsage} {seen : List ChangeID} {best : Int} :
    Guards (maxAttempts usages seen best) := by
  induction usages generalizing seen best with
  | nil => exact guards_done
  | cons usage rest ih =>
    unfold maxAttempts
    split
    · exact ih
    · refine guards_bind (guards_perform rfl) fun answer => ?_
      cases answer with
      | error err => exact guards_done
      | ok sum => exact ih

theorem evidenceOf_guards (sk : SkillRow) : Guards (evidenceOf sk) := by
  refine guards_bind (guards_perform rfl) fun answer => ?_
  cases answer with
  | error err => exact guards_done
  | ok usages =>
    refine guards_bind maxAttempts_guards fun result => ?_
    cases result <;> exact guards_done

theorem evidenceRows_guards (skills : List SkillRow) : Guards (evidenceRows skills) := by
  induction skills with
  | nil => exact guards_done
  | cons sk rest ih =>
    refine guards_bind (evidenceOf_guards sk) fun result => ?_
    cases result with
    | error err => exact guards_done
    | ok e =>
      refine guards_bind ih fun result => ?_
      cases result <;> exact guards_done

theorem plan_guards : Guards plan := by
  refine guards_bind (guards_bind (guards_perform rfl) fun answer => ?_) fun result => ?_
  · cases answer with
    | error err => exact guards_done
    | ok skills => exact evidenceRows_guards skills
  · cases result <;> exact guards_done

theorem applyRows_guards (report : List ReevalRow) : Guards (applyRows report) := by
  induction report with
  | nil => exact guards_done
  | cons row rest ih =>
    unfold applyRows
    split
    · exact guards_bind ih fun _ => guards_done
    · refine guards_bind patchStatus_guards fun result => ?_
      split
      · exact guards_bind (guards_perform rfl) fun _ => guards_bind ih fun _ => guards_done
      · exact guards_bind ih fun _ => guards_done
      · exact guards_done

theorem apply_guards {confirm : Bool} : Guards (apply confirm) := by
  refine guards_bind plan_guards fun result => ?_
  cases result with
  | error err => exact guards_done
  | ok report =>
    dsimp only
    split
    · exact guards_done
    · refine guards_bind (guards_perform rfl) fun runID => ?_
      refine guards_bind (applyRows_guards report) fun result => ?_
      obtain ⟨report, items, err⟩ := result
      cases err with
      | some err => exact guards_done
      | none =>
        dsimp only
        split
        · exact guards_done
        · refine guards_bind (guards_perform rfl) fun now => ?_
          refine guards_bind (guards_perform rfl) fun answer => ?_
          cases answer <;> exact guards_done

theorem walk_guards {skillID : SkillID} {reached : Status} {path : List Status} :
    Guards (walk skillID reached path) := by
  induction path generalizing reached with
  | nil => exact guards_done
  | cons step rest ih =>
    refine guards_bind patchStatus_guards fun result => ?_
    cases result with
    | error err => exact guards_done
    | ok _ => exact ih

theorem revertItems_guards {skipMetrics : Bool} {items : List ReevalRunItem} :
    Guards (revertItems skipMetrics items) := by
  induction items with
  | nil => exact guards_done
  | cons item rest ih =>
    have hrest : ∀ {β : Type} (f : List RevertRow × List ReevalRunItem × Option ServiceErr → β),
        Guards (revertItems skipMetrics rest >>= fun result => pure (f result)) :=
      fun f => guards_bind ih fun _ => guards_done
    refine guards_bind currentStatus_guards fun result => ?_
    cases result with
    | error err => exact guards_done
    | ok live =>
      dsimp only
      split
      · exact hrest _
      · split
        · exact hrest _
        · refine guards_bind walk_guards fun result => ?_
          obtain ⟨reached, walkErr⟩ := result
          cases walkErr with
          | some walkErr =>
            dsimp only
            split
            · exact hrest _
            · exact guards_bind (guards_perform rfl) fun _ => hrest _
          | none =>
            refine guards_bind (guards_perform rfl) fun id => ?_
            split
            · exact hrest _
            · refine guards_bind patchMetrics_guards fun result => ?_
              cases result with
              | error err => exact guards_done
              | ok _ => exact hrest _

theorem revertRun_guards (run : ReevalRun) : Guards (revertRun run) := by
  refine guards_bind (guards_perform rfl) fun revRunID => ?_
  refine guards_bind (guards_perform rfl) fun answer => ?_
  cases answer with
  | error err => exact guards_done
  | ok skipMetrics =>
    refine guards_bind revertItems_guards fun result => ?_
    obtain ⟨report, items, err⟩ := result
    cases err with
    | some err => exact guards_done
    | none =>
      refine guards_bind (guards_perform rfl) fun now => ?_
      refine guards_bind (guards_perform rfl) fun answer => ?_
      cases answer <;> exact guards_done

/-- The calls that write statuses only through the guarded patch. -/
def Call.patches : Call → Bool
  | .seedSkills | .editSkill _ _ => false
  | _ => true

theorem main_guards (call : Call) (hcall : call.patches = true) : Guards (main call) := by
  cases call with
  | patchMetrics skillID delta =>
    exact guards_bind patchMetrics_guards fun _ => guards_done
  | patchStatus skillID status =>
    exact guards_bind patchStatus_guards fun _ => guards_done
  | reevaluate confirm => exact guards_bind apply_guards fun _ => guards_done
  | revert runID | revertLast =>
    refine guards_bind (guards_bind (guards_perform rfl) fun answer => ?_) fun _ => guards_done
    cases answer with
    | error err => exact guards_done
    | ok run => exact revertRun_guards run
  | record usages attempts => exact guards_bind (guards_perform rfl) fun _ => guards_done
  | seedSkills | editSkill id edit => cases hcall

/-! ## Runs -/

abbrev SkillPool : Type := Pool Op Op.Ret Call State

def reach (s : State) (moves : List (Move Call Choice)) : SkillPool :=
  (Pool.init s).run handler main moves

def startsPatch : Move Call Choice → Bool
  | .start request => request.patches
  | .step _ _ | .crash => true

/-- A write of a status finds the status that its call has last read. -/
def finds (op : Op) (_ : Choice) (hist : History) (s : State) : Bool :=
  match op with
  | .patchStatus id _ _ => s.skills.rows.all fun row =>
    row.id ≠ id || lastRead id hist = some row.status
  | _ => true

def RunMeets (s : State) (ok : Op → Choice → History → State → Bool)
    (moves : List (Move Call Choice)) : Prop :=
  (Pool.init s : SkillPool).Meets handler main (Pool.eachStep ok) moves = true

def Conduct (call : Call) (h : History) : Prop :=
  call.patches = true → Guarded h

theorem main_conduct (call : Call) :
    (main call).wp (histSem fun _ _ => True) (Conduct call) (fun _ _ => True) [] := by
  by_cases hcall : call.patches = true
  · exact wp_mono (main_guards call hcall []) (fun _ hguarded _ => hguarded) fun _ _ => id
  · exact wp_mono (wp_true _ _ _) (fun _ _ h => absurd h hcall) fun _ _ => id

def OnlyPatches (π : SkillPool) : Prop :=
  ∀ t ∈ π.threads, t.call.patches = true

theorem reach_onlyPatches (s : State) {moves : List (Move Call Choice)}
    (hstarts : ∀ m ∈ moves, startsPatch m = true) : OnlyPatches (reach s moves) := by
  refine Pool.run_induction (fun _ _ _ => trivial) main_conduct ?start ?crash ?step
    (fun t ht => absurd ht List.not_mem_nil) (fun t ht => absurd ht List.not_mem_nil) moves
    (Pool.meets_and_of_forall (Pool.meets_true _ moves) hstarts)
  case start =>
    intro π request hok hinv t ht
    rcases List.mem_append.mp ht with hold | hnew
    · exact hinv t hold
    · rw [List.mem_singleton.mp hnew]
      simpa [startsPatch] using hok
  case crash =>
    intro π _ hinv t ht
    obtain ⟨t₀, ht₀, rfl⟩ := List.mem_map.mp ht
    exact hinv t₀ ht₀
  case step =>
    intro π tid choice request op next hist hthread _ _ _ _ hinv t ht
    rcases List.mem_or_eq_of_mem_set ht with hold | rfl
    · exact hinv t hold
    · have hcall := hinv _ (List.mem_of_getElem? hthread)
      exact hcall

theorem statusStep_move {π : SkillPool} (hkeeps : ∀ t ∈ π.threads,
      Pool.Keeps (fun _ _ => True) Conduct t) (hcalls : OnlyPatches π) (m : Move Call Choice)
    (hfinds : Pool.eachStep finds π m = true) :
    StatusStep π.state (π.move handler main m).state := by
  cases m with
  | start call | crash => exact statusStep_of_skills_eq rfl
  | step tid choice =>
    rcases Pool.move_step_cases handler main π tid choice with
      heq | ⟨call, op, next, hist, hthread, henabled, heq⟩
    · rw [heq]
      exact statusStep_of_skills_eq rfl
    · rw [heq]
      have hmem := List.mem_of_getElem? hthread
      have hguarded := ((wp_hist_call op next hist).mp (hkeeps _ hmem).rest
        (handle op choice π.state).1 trivial).1 (hcalls _ hmem)
      rw [Pool.eachStep_of_call hthread] at hfinds
      rcases handle_skills op choice π.state with
        hsame | ⟨row, rfl, -⟩ | ⟨id, delta, now, rfl, hpatch⟩ | ⟨id, status, now, rfl, hpatch⟩
      · exact statusStep_of_skills_eq hsame
      · exact hguarded.elim
      · exact statusStep_updateRow hpatch fun _ _ _ => .inl rfl
      · obtain ⟨current, hread, hallowed⟩ := hguarded
        refine statusStep_updateRow hpatch fun row hrow hid => .inr ?_
        have hfound := List.all_eq_true.mp hfinds row hrow
        simp only [hid, hread, ne_eq, not_true_eq_false, decide_false, Bool.false_or,
          decide_eq_true_eq, Option.some.injEq] at hfound
        rw [hfound] at hallowed
        exact hallowed

/-- If each write of a status finds the status that its call has read, then in every
interleaving of patches and re-evaluations the values of each status are a path of the
lifecycle graph. -/
theorem status_path (s : State) (moves : List (Move Call Choice))
    (hstarts : ∀ m ∈ moves, startsPatch m = true) (hfinds : RunMeets s finds moves) :
    ∀ before m after, moves = before ++ m :: after →
      StatusStep (reach s before).state (reach s (before ++ [m])).state := by
  rintro before m after rfl
  have hkeeps : ∀ t ∈ (reach s before).threads, Pool.Keeps (fun _ _ => True) Conduct t :=
    Pool.run_keeps (fun _ _ _ => trivial) main_conduct (by simp) before
  have hcalls : OnlyPatches (reach s before) :=
    reach_onlyPatches s fun m' hm' => hstarts m' (List.mem_append_left _ hm')
  unfold RunMeets at hfinds
  rw [Pool.meets_append, Bool.and_eq_true] at hfinds
  simp only [Pool.Meets, Bool.and_eq_true] at hfinds
  rw [show reach s (before ++ [m]) = (reach s before).move handler main m from
    Pool.run_concat _ before m]
  exact statusStep_move hkeeps hcalls m hfinds.2.1

/-! ## Two calls on one skill -/

def sampleSkill (status : Status) : SkillRow where
  id := ⟨1⟩
  name := "sample"
  phases := [.apply]
  content := "text"
  techniques := [.inlineWhy]
  status := status
  version := "v1"
  scope := {}
  appliesWhen := {}
  riskLevel := .medium
  activationSource := .manual
  metrics := {}
  lastUsedAt := none
  lastValidatedAt := none
  createdAt := 0
  updatedAt := 0

def oneSkill (status : Status) : State where
  skills := ⟨[sampleSkill status], by simp, by simp⟩

/-- One call deprecates the skill, the other one blocks it, each after the other. -/
def oneByOne : List (Move Call Choice) :=
  [.start (.patchStatus (some ⟨1⟩) .deprecated), .step 0 {}, .step 0 {}, .step 0 {},
    .start (.patchStatus (some ⟨1⟩) .blocked), .step 1 {}, .step 1 {}, .step 1 {}]

/-- The same calls, where both read before one of them writes. -/
def bothRead : List (Move Call Choice) :=
  [.start (.patchStatus (some ⟨1⟩) .deprecated), .start (.patchStatus (some ⟨1⟩) .blocked),
    .step 0 {}, .step 1 {}, .step 1 {}, .step 1 {}, .step 0 {}]

def State.statuses (s : State) : List Status :=
  s.skills.rows.map SkillRow.status

theorem status_path_oneByOne :
    (∀ m ∈ oneByOne, startsPatch m = true) ∧ RunMeets (oneSkill .active) finds oneByOne ∧
      (reach (oneSkill .active) oneByOne).state.statuses = [.blocked] ∧
      ∀ before m after, oneByOne = before ++ m :: after →
        StatusStep (reach (oneSkill .active) before).state
          (reach (oneSkill .active) (before ++ [m])).state := by
  have hstarts : ∀ m ∈ oneByOne, startsPatch m = true := by
    simp [oneByOne, startsPatch, Call.patches]
  have hfinds : RunMeets (oneSkill .active) finds oneByOne := by
    unfold RunMeets
    decide +kernel
  exact ⟨hstarts, hfinds, by decide +kernel, status_path _ _ hstarts hfinds⟩

/-- Both calls read the active skill.  The one that blocks it writes first, and the other
one takes it from blocked to deprecated, which is not an edge. -/
theorem blocked_deprecated :
    (∀ m ∈ bothRead ++ [.step 0 {}], startsPatch m = true) ∧
      (reach (oneSkill .active) bothRead).state.statuses = [.blocked] ∧
      (reach (oneSkill .active) (bothRead ++ [.step 0 {}])).state.statuses = [.deprecated] ∧
      ¬Allowed .blocked .deprecated ∧
      ¬StatusStep (reach (oneSkill .active) bothRead).state
        (reach (oneSkill .active) (bothRead ++ [.step 0 {}])).state := by
  have hbefore : (reach (oneSkill .active) bothRead).state.skills.rows =
      [sampleSkill .blocked] := by decide +kernel
  have hafter : (reach (oneSkill .active) (bothRead ++ [.step 0 {}])).state.skills.rows =
      [sampleSkill .deprecated] := by decide +kernel
  refine ⟨by simp [bothRead, startsPatch, Call.patches], by rw [State.statuses, hbefore]; rfl,
    by rw [State.statuses, hafter]; rfl, by decide, ?_⟩
  intro hstep
  have hbad := hstep (sampleSkill .blocked) (by simp [hbefore]) (sampleSkill .deprecated)
    (by simp [hafter]) rfl
  revert hbad
  decide

end SophiaOrchestrator.Skills.Learning
