import Mathlib.Tactic.Linarith
import SophiaOrchestrator.Effects.Alone
import SophiaOrchestrator.Skills.StatusPaths

/-!
# Applying and undoing a re-evaluation

A re-evaluation that runs alone and meets no failure promotes and demotes skills by direct
transitions, records what it did, and has nothing left to do when it is repeated.  The
recorded run can be undone: each skill walks a legal path back to where it was.
-/

namespace SophiaOrchestrator.Skills.Learning

open Effects Prog

variable {α : Type} {op : Op} {s s' s₁ : State} {id : SkillID} {status current target : Status}
  {row : ReevalRow} {now : Time} {items : List ReevalRunItem} {item : ReevalRunItem}
  {run : ReevalRun} {Q : α → State → Prop} {f : op.Ret → Program α}

/-! ## Executions without failures -/

def succeeded : Ev Op Op.Ret → Bool
  | ⟨.now, _⟩ | ⟨.newID, _⟩ => true
  | ⟨.findByID _, answer⟩ => Except.isOk answer
  | ⟨.list, answer⟩ => Except.isOk answer
  | ⟨.upsert _, answer⟩ => Except.isOk answer
  | ⟨.patchMetrics _ _ _, answer⟩ => Except.isOk answer
  | ⟨.patchStatus _ _ _, answer⟩ => Except.isOk answer
  | ⟨.findUsageBySkill _, answer⟩ => Except.isOk answer
  | ⟨.sumApplyAttempts _, answer⟩ => Except.isOk answer
  | ⟨.saveRun _, answer⟩ => Except.isOk answer
  | ⟨.findRun _, answer⟩ => Except.isOk answer
  | ⟨.findLatestRun, answer⟩ => Except.isOk answer
  | ⟨.existsByRevertsRunID _, answer⟩ => Except.isOk answer
  | ⟨.record _ _, answer⟩ => Except.isOk answer

/-- Run alone from `s`, without failures, the program changes statuses only along edges of
the lifecycle graph, and ends as `Q` says. -/
abbrev Achieves {α : Type} (Q : α → State → Prop) (p : Program α) (s : State) : Prop :=
  p.Does handler (fun ev => succeeded ev = true) StatusStep Q s

theorem statusStep_refl (s : State) : StatusStep s s :=
  statusStep_of_skills_eq rfl

theorem read_of_isOk {fault : Fault} {answer : Except RepoErr α}
    (h : Except.isOk (fault.read answer) = true) : fault.read answer = answer := by
  cases fault with
  | none => rfl
  | before | after => cases h

theorem achieves_read {stored : op.Ret} (hreads : ∀ ch, (handle op ch s).2 = s)
    (hanswer : ∀ ch, succeeded ⟨op, (handle op ch s).1⟩ = true → (handle op ch s).1 = stored)
    (hf : Achieves Q (f stored) s) : Achieves Q (perform op >>= f) s := by
  refine does_read_bind hreads (statusStep_refl s) fun ch hop => ?_
  rw [show (handler.run op ch s).1 = stored from hanswer ch hop]
  exact hf

theorem achieves_ask (hreads : ∀ ch, (handle op ch s).2 = s)
    (hf : ∀ answer, Achieves Q (f answer) s) : Achieves Q (perform op >>= f) s :=
  does_read_bind hreads (statusStep_refl s) fun _ _ => hf _

/-! ## The statuses -/

def State.status? (s : State) (id : SkillID) : Option Status :=
  (s.skills.findOther id).map SkillRow.status

theorem status?_eq_some_iff :
    s.status? id = some status ↔ ∃ row ∈ s.skills.rows, row.id = id ∧ row.status = status := by
  rw [State.status?, Option.map_eq_some_iff]
  constructor
  · rintro ⟨row, hfind, hstatus⟩
    obtain ⟨hrow, hid⟩ := (s.skills.findOther_eq_some_iff id row).mp hfind
    exact ⟨row, hrow, hid, hstatus⟩
  · rintro ⟨row, hrow, hid, hstatus⟩
    exact ⟨row, (s.skills.findOther_eq_some_iff id row).mpr ⟨hrow, hid⟩, hstatus⟩

theorem status?_of_mem {row : SkillRow} (hrow : row ∈ s.skills.rows) :
    s.status? row.id = some row.status :=
  status?_eq_some_iff.mpr ⟨row, hrow, rfl, rfl⟩

theorem status?_of_skills_eq (h : s'.skills = s.skills) :
    s'.status? = s.status? := by
  unfold State.status?
  rw [h]

structure SameElsewhere (s s' : State) : Prop where
  runs : s'.runs = s.runs
  usages : s'.usages = s.usages
  attempts : s'.attempts = s.attempts

theorem SameElsewhere.trans {s₂ s₃ : State} (h : SameElsewhere s₁ s₂) (h' : SameElsewhere s₂ s₃) :
    SameElsewhere s₁ s₃ :=
  ⟨h'.runs.trans h.runs, h'.usages.trans h.usages, h'.attempts.trans h.attempts⟩

structure Patched (id : SkillID) (status : Status) (s s' : State) : Prop where
  elsewhere : SameElsewhere s s'
  status? : s'.status? = Function.update s.status? id (some status)

theorem Patched.self (h : Patched id status s s') : s'.status? id = some status := by
  rw [h.status?, Function.update_self]

theorem Patched.of_ne {id' : SkillID} (h : Patched id status s s') (hne : id' ≠ id) :
    s'.status? id' = s.status? id' := by
  rw [h.status?, Function.update_of_ne hne]

theorem eq_ok_of_isOk {answer : Except RepoErr Unit} (h : answer.isOk = true) :
    answer = .ok () := by
  cases answer with
  | error err => cases h
  | ok _ => rfl

theorem write_of_isOk {ch : Choice} {effect : Except RepoErr SkillTable}
    (h : Except.isOk (ch.fault.write s (effect.map fun skills => { s with skills })).1 = true) :
    let written := ch.fault.write s (effect.map fun skills => { s with skills })
    written.1 = .ok () ∧ effect = .ok written.2.skills ∧ SameElsewhere s written.2 := by
  have hok := eq_ok_of_isOk h
  have heffect := Fault.write_ok hok
  cases effect with
  | error err => cases heffect
  | ok skills =>
    refine ⟨hok, ?_⟩
    rw [← Except.ok.inj heffect]
    exact ⟨rfl, rfl, rfl, rfl⟩

theorem status?_patchStatus (h : s.skills.patchStatus id status now = .ok s'.skills)
    (hin : s.status? id = some current) :
    s'.status? = Function.update s.status? id (some status) := by
  obtain ⟨row, hrow, -⟩ := Option.map_eq_some_iff.mp hin
  funext id'
  by_cases hne : id' = id
  · subst hne
    rw [Function.update_self, State.status?, SkillTable.findOther_updateRow_self h, hrow]
    rfl
  · rw [Function.update_of_ne hne, State.status?, SkillTable.findOther_updateRow_of_ne h hne]
    rfl

theorem status?_patchMetrics {delta : Metrics}
    (h : s.skills.patchMetrics id delta now = .ok s'.skills) : s'.status? = s.status? := by
  funext id'
  unfold State.status?
  by_cases hne : id' = id
  · rw [hne, SkillTable.findOther_updateRow_self h, Option.map_map]
    rfl
  · rw [SkillTable.findOther_updateRow_of_ne h hne]

/-! ## Patches -/

theorem isValid_of_allowed (h : Allowed current target) :
    target.isValid = true := by
  have hcycle : ∀ status ∈ cycle, status.isValid = true := by decide
  exact hcycle target (mem_cycle_of_allowed h).2

/-- A guarded patch that meets no failure sets the status, or is refused as forbidden. -/
theorem patchStatus_decides {Q : Except ServiceErr Unit → State → Prop}
    (hvalid : status.isValid = true)
    (hallowed : ∀ live s', s.status? id = some live → Allowed live status →
      Patched id status s s' → Q (.ok ()) s')
    (hforbidden : ∀ live, s.status? id = some live → ¬Allowed live status →
      Q (.error (.forbiddenTransition live status)) s) :
    Achieves Q (patchStatus (some id) status) s := by
  unfold patchStatus
  simp only [hvalid, Bool.not_true, Bool.false_eq_true, if_false]
  cases hlive : s.status? id with
  | none =>
    refine does_perform_bind fun ch hop => ?_
    -- The skill is not there, so its read cannot succeed.
    have hmissing : s.skills.findByID id = .error .notFound := by
      rw [State.status?, Option.map_eq_none_iff] at hlive
      rw [SkillTable.findByID, hlive]
    have hanswer : (handle (.findByID id) ch s).1 = .error .notFound :=
      (read_of_isOk hop).trans hmissing
    rw [show succeeded _ = Except.isOk (handle (.findByID id) ch s).1 from rfl, hanswer] at hop
    cases hop
  | some live =>
    obtain ⟨row, hrow, hid, rfl⟩ := status?_eq_some_iff.mp hlive
    have hfind : s.skills.findByID id = .ok row := SkillTable.findByID_eq_ok.mpr ⟨hrow, hid⟩
    refine achieves_read (fun _ => rfl) (fun ch hop => (read_of_isOk hop).trans hfind) ?_
    dsimp only
    split
    · next hedge =>
      refine achieves_ask (fun _ => rfl) fun now => does_perform_bind fun ch hop => ?_
      obtain ⟨hok, heffect, helsewhere⟩ := write_of_isOk hop
      refine ⟨statusStep_updateRow heffect fun row' hrow' hid' => .inr ?_, ?_⟩
      · rw [s.skills.eq_of_other_eq hrow' hrow (hid'.trans hid.symm)]
        exact hedge
      · rw [show (handler.run (.patchStatus id status now) ch s).1 = .ok () from hok]
        exact hallowed _ _ hlive hedge ⟨helsewhere, status?_patchStatus heffect hlive⟩
    · next hedge => exact hforbidden _ hlive hedge

theorem patchStatus_achieves {Q : Except ServiceErr Unit → State → Prop}
    (hcurrent : s.status? id = some current) (hallowed : Allowed current status)
    (hQ : ∀ s', Patched id status s s' → Q (.ok ()) s') :
    Achieves Q (patchStatus (some id) status) s := by
  refine patchStatus_decides (isValid_of_allowed hallowed) (fun _ s' _ _ => hQ s') ?_
  intro live hlive hnot
  rw [Option.some.inj (hlive.symm.trans hcurrent)] at hnot
  exact absurd hallowed hnot

theorem patchMetrics_achieves {Q : Except ServiceErr Unit → State → Prop} (id : SkillID)
    (delta : MetricsDelta)
    (hQ : ∀ s', SameElsewhere s s' → s'.status? = s.status? → Q (.ok ()) s') :
    Achieves Q (patchMetrics (some id) delta) s := by
  refine achieves_ask (fun _ => rfl) fun now => does_perform_bind fun ch hop => ?_
  obtain ⟨hok, heffect, helsewhere⟩ := write_of_isOk hop
  refine ⟨statusStep_updateRow heffect fun _ _ _ => .inl rfl, ?_⟩
  rw [show (handler.run (.patchMetrics id delta.metrics now) ch s).1 = .ok () from hok]
  exact hQ _ helsewhere (status?_patchMetrics heffect)

theorem currentStatus_achieves {Q : Except ServiceErr Status → State → Prop}
    (hcurrent : s.status? id = some current) (hQ : Q (.ok current) s) :
    Achieves Q (currentStatus (some id)) s := by
  obtain ⟨row, hrow, hid, hstatus⟩ := status?_eq_some_iff.mp hcurrent
  have hfind : s.skills.findByID id = .ok row := SkillTable.findByID_eq_ok.mpr ⟨hrow, hid⟩
  refine achieves_read (fun _ => rfl) (fun ch hop => (read_of_isOk hop).trans hfind) ?_
  rw [← hstatus] at hQ
  exact hQ

theorem walk_achieves {Q : Status × Option ServiceErr → State → Prop} {path : List Status}
    (hcurrent : s.status? id = some current) (hpath : IsPath current path target)
    (hQ : ∀ s', SameElsewhere s s' → s'.status? = Function.update s.status? id (some target) →
      Q (target, none) s') :
    Achieves Q (walk id current path) s := by
  induction path generalizing s current with
  | nil =>
    obtain rfl : current = target := hpath
    refine hQ s ⟨rfl, rfl, rfl⟩ ?_
    rw [← hcurrent, Function.update_eq_self]
  | cons step rest ih =>
    refine does_bind (patchStatus_achieves hcurrent hpath.1 fun s₁ hpatched => ?_)
    refine ih hpatched.self hpath.2 fun s' helsewhere hstatus => ?_
    refine hQ s' (hpatched.elsewhere.trans helsewhere) ?_
    rw [hstatus, hpatched.status?, Function.update_idem]

/-! ## The report -/

/-- The largest of the sums of the changes in which a skill was used. -/
def largestSum (sum : ChangeID → Int) : List SkillUsage → List ChangeID → Int → Int
  | [], _, best => best
  | usage :: rest, seen, best =>
    if usage.changeID ∈ seen then
      largestSum sum rest seen best
    else
      largestSum sum rest (usage.changeID :: seen)
        (if best < sum usage.changeID then sum usage.changeID else best)

def State.applyAttempts (s : State) (id : SkillID) : Int :=
  largestSum s.sumApplyAttempts (s.usages.filter fun usage => usage.skillID = id) [] 0

def State.evidence (s : State) (row : SkillRow) : Evidence where
  skillID := row.id
  currentStatus := row.status
  currentMetric := row.metrics.avgRetryReduction
  applyAttempts := s.applyAttempts row.id

def State.report (s : State) : List ReevalRow :=
  s.skills.list.map fun row => planRow (s.evidence row)

theorem maxAttempts_achieves {Q : Except ServiceErr Int → State → Prop} (usages : List SkillUsage)
    (seen : List ChangeID) (best : Int)
    (hQ : Q (.ok (largestSum s.sumApplyAttempts usages seen best)) s) :
    Achieves Q (maxAttempts usages seen best) s := by
  induction usages generalizing seen best with
  | nil => exact hQ
  | cons usage rest ih =>
    unfold maxAttempts
    unfold largestSum at hQ
    split
    · next hseen =>
      rw [if_pos hseen] at hQ
      exact ih seen best hQ
    · next hseen =>
      rw [if_neg hseen] at hQ
      exact achieves_read (fun _ => rfl) (fun ch hop => read_of_isOk hop) (ih _ _ hQ)

theorem evidenceRows_achieves {Q : Except ServiceErr (List Evidence) → State → Prop}
    (skills : List SkillRow) (hQ : Q (.ok (skills.map s.evidence)) s) :
    Achieves Q (evidenceRows skills) s := by
  induction skills generalizing Q with
  | nil => exact hQ
  | cons sk rest ih =>
    refine does_bind ?_
    refine achieves_read (fun _ => rfl) (fun ch hop => read_of_isOk hop) ?_
    refine does_bind (maxAttempts_achieves _ _ _ ?_)
    exact does_bind (ih hQ)

theorem plan_achieves {Q : Except ServiceErr (List ReevalRow) → State → Prop}
    (hQ : Q (.ok s.report) s) : Achieves Q plan s := by
  refine does_bind ?_
  refine achieves_read (fun _ => rfl) (fun ch hop => read_of_isOk hop) ?_
  refine evidenceRows_achieves _ ?_
  change Q (.ok ((s.skills.list.map s.evidence).map planRow)) s
  rw [List.map_map]
  exact hQ

/-- What is proposed is the target of an edge, and what is not changed stays. -/
theorem evaluate_cases (current : Status) (metric : ℚ) :
    (evaluate current metric).2.2 = true ∧ Allowed current (evaluate current metric).2.1 ∨
      (evaluate current metric).2.2 = false ∧ (evaluate current metric).2.1 = current := by
  unfold evaluate
  split
  · next h =>
    rw [h.2]
    exact .inl ⟨rfl, by decide⟩
  · split
    · next h =>
      rw [h.2]
      exact .inl ⟨rfl, by decide⟩
    · exact .inr ⟨rfl, rfl⟩

theorem evaluate_proposed (current : Status) (metric : ℚ) :
    (evaluate (evaluate current metric).2.1 metric).2.2 = false := by
  by_cases hpromote : promoteThreshold ≤ metric ∧ current = .validated
  · have hhigh : ¬metric < demoteThreshold := by
      have hgap : demoteThreshold ≤ promoteThreshold := by
        norm_num [demoteThreshold, promoteThreshold]
      exact not_lt.mpr (hgap.trans hpromote.1)
    simp [evaluate, hpromote, hhigh]
  · by_cases hdemote : metric < demoteThreshold ∧ current = .active
    · simp [evaluate, hdemote]
    · simp [evaluate, hpromote, hdemote]

/-! ## Apply -/

/-- The report is about distinct skills, with the statuses they have, and proposes only
direct transitions. -/
structure Fits (report : List ReevalRow) (s : State) : Prop where
  distinct : (report.map ReevalRow.skillID).Nodup
  current : ∀ row ∈ report, s.status? row.skillID = some row.currentStatus
  changes : ∀ row ∈ report, row.wouldChange = true → Allowed row.currentStatus row.proposedStatus
  keeps : ∀ row ∈ report, row.wouldChange = false → row.proposedStatus = row.currentStatus

theorem fits_report (s : State) : Fits s.report s where
  distinct := by
    have hids : s.report.map ReevalRow.skillID = s.skills.list.map SkillRow.id := by
      rw [State.report, List.map_map]
      rfl
    rw [hids]
    exact ((List.perm_insertionSort _ s.skills.rows).map SkillRow.id).nodup_iff.mpr
      s.skills.other_nodup
  current row hrow := by
    obtain ⟨sk, hsk, rfl⟩ := List.mem_map.mp hrow
    exact status?_of_mem (SkillTable.mem_list.mp hsk)
  changes row hrow hchange := by
    obtain ⟨sk, -, rfl⟩ := List.mem_map.mp hrow
    rcases evaluate_cases sk.status (recompute (s.applyAttempts sk.id)) with
      ⟨-, hallowed⟩ | ⟨hsame, -⟩
    · exact hallowed
    · cases hsame.symm.trans hchange
  keeps row hrow hkeep := by
    obtain ⟨sk, -, rfl⟩ := List.mem_map.mp hrow
    rcases evaluate_cases sk.status (recompute (s.applyAttempts sk.id)) with
      ⟨hchange, -⟩ | ⟨-, hsame⟩
    · cases hchange.symm.trans hkeep
    · exact hsame

def changeOf (item : ReevalRunItem) : SkillID × Status × Status :=
  (item.skillID, item.priorStatus, item.newStatus)

def proposals (report : List ReevalRow) : List (SkillID × Status × Status) :=
  (report.filter ReevalRow.wouldChange).map fun row =>
    (row.skillID, row.currentStatus, row.proposedStatus)

structure Applied (report : List ReevalRow) (items : List ReevalRunItem) (s s' : State) :
    Prop where
  elsewhere : SameElsewhere s s'
  proposed : ∀ row ∈ report, s'.status? row.skillID = some row.proposedStatus
  others : ∀ id, id ∉ report.map ReevalRow.skillID → s'.status? id = s.status? id
  recorded : items.map changeOf = proposals report
  unchanged : items = [] → s' = s

theorem Applied.cons_kept {report : List ReevalRow} (hfits : Fits (row :: report) s)
    (hkeep : row.wouldChange = false) (h : Applied report items s s') :
    Applied (row :: report) items s s' where
  elsewhere := h.elsewhere
  proposed row' hrow' := by
    rcases List.mem_cons.mp hrow' with rfl | hrest
    · have hnew := (List.nodup_cons.mp hfits.distinct).1
      rw [h.others _ hnew, hfits.current _ List.mem_cons_self,
        hfits.keeps _ List.mem_cons_self hkeep]
    · exact h.proposed row' hrest
  others id hid := h.others id fun hrest => hid (List.mem_cons_of_mem _ hrest)
  recorded := by rw [h.recorded, proposals, proposals, List.filter_cons_of_neg (by simp [hkeep])]
  unchanged := h.unchanged

theorem Applied.cons_changed {report : List ReevalRow} (hfits : Fits (row :: report) s)
    (hchange : row.wouldChange = true)
    (hitem : changeOf item = (row.skillID, row.currentStatus, row.proposedStatus))
    (hpatched : Patched row.skillID row.proposedStatus s s₁) (h : Applied report items s₁ s') :
    Applied (row :: report) (item :: items) s s' where
  elsewhere := hpatched.elsewhere.trans h.elsewhere
  proposed row' hrow' := by
    rcases List.mem_cons.mp hrow' with rfl | hrest
    · rw [h.others _ (List.nodup_cons.mp hfits.distinct).1, hpatched.self]
    · exact h.proposed row' hrest
  others id hid := by
    rw [List.map_cons, List.mem_cons, not_or] at hid
    rw [h.others id hid.2, hpatched.of_ne hid.1]
  recorded := by
    rw [List.map_cons, h.recorded, hitem, proposals, proposals,
      List.filter_cons_of_pos (by simpa using hchange), List.map_cons]
  unchanged hnil := by cases hnil

theorem Fits.tail {report : List ReevalRow} (h : Fits (row :: report) s)
    (hsame : ∀ id, id ≠ row.skillID → s'.status? id = s.status? id) : Fits report s' where
  distinct := (List.nodup_cons.mp h.distinct).2
  current row' hrow' := by
    have hne : row'.skillID ≠ row.skillID := by
      intro heq
      exact (List.nodup_cons.mp h.distinct).1 (heq ▸ List.mem_map_of_mem hrow')
    rw [hsame _ hne]
    exact h.current row' (List.mem_cons_of_mem _ hrow')
  changes row' hrow' := h.changes row' (List.mem_cons_of_mem _ hrow')
  keeps row' hrow' := h.keeps row' (List.mem_cons_of_mem _ hrow')

theorem applyRows_achieves
    {Q : List ReevalRow × List ReevalRunItem × Option ServiceErr → State → Prop}
    {report : List ReevalRow} (hfits : Fits report s)
    (hQ : ∀ report' items s', Applied report items s s' → Q (report', items, none) s') :
    Achieves Q (applyRows report) s := by
  induction report generalizing s Q with
  | nil =>
    refine hQ [] [] s ⟨⟨rfl, rfl, rfl⟩, ?_, fun _ _ => rfl, rfl, fun _ => rfl⟩
    intro row hrow
    cases hrow
  | cons row rest ih =>
    unfold applyRows
    split
    · next hkeep =>
      rw [Bool.not_eq_true'] at hkeep
      refine does_bind (ih (hfits.tail fun _ _ => rfl) fun report' items s' happlied => ?_)
      exact hQ _ items s' (happlied.cons_kept hfits hkeep)
    · next hchange =>
      rw [Bool.not_eq_true', Bool.not_eq_false] at hchange
      refine does_bind (patchStatus_achieves (hfits.current row List.mem_cons_self)
        (hfits.changes row List.mem_cons_self hchange) fun s₁ hpatched => ?_)
      refine achieves_ask (fun _ => rfl) fun id => ?_
      refine does_bind (ih (hfits.tail fun _ => hpatched.of_ne) fun report' items s' h => ?_)
      exact hQ _ _ s' (h.cons_changed hfits hchange rfl hpatched)

structure Saved (run : ReevalRun) (s s' : State) : Prop where
  skills : s'.skills = s.skills
  usages : s'.usages = s.usages
  attempts : s'.attempts = s.attempts
  rows : s'.runs.rows = s.runs.rows ++ [{ run with createdAt := timestamptz run.createdAt }]

theorem Saved.status? (h : Saved run s s') :
    s'.status? = s.status? :=
  status?_of_skills_eq h.skills

theorem achieves_save {f : Except RepoErr Unit → Program α}
    (hf : ∀ s', Saved run s s' → Achieves Q (f (.ok ())) s') :
    Achieves Q (ReevalAudit.save run >>= f) s := by
  refine does_perform_bind fun ch hop => ?_
  have hok : (handle (.saveRun run) ch s).1 = .ok () := eq_ok_of_isOk hop
  have heffect : (s.runs.save run).map (fun runs => { s with runs }) =
      .ok (handler.run (.saveRun run) ch s).2 := Fault.write_ok hok
  cases hsave : s.runs.save run with
  | error err =>
    rw [hsave] at heffect
    cases heffect
  | ok runs =>
    rw [hsave] at heffect
    have hstate : (handler.run (.saveRun run) ch s).2 = { s with runs } :=
      (Except.ok.inj heffect).symm
    rw [show (handler.run (.saveRun run) ch s).1 = .ok () from hok, hstate]
    exact ⟨statusStep_of_skills_eq rfl,
      hf _ ⟨rfl, rfl, rfl, RunTable.rows_save hsave⟩⟩

/-- What a confirmed re-evaluation leaves: the statuses that the report proposes, and a
recorded run unless nothing was changed. -/
structure Reevaluated (s s' : State) : Prop where
  usages : s'.usages = s.usages
  attempts : s'.attempts = s.attempts
  proposed : ∀ row ∈ s.report, s'.status? row.skillID = some row.proposedStatus
  others : ∀ id, id ∉ s.report.map ReevalRow.skillID → s'.status? id = s.status? id
  recorded : (proposals s.report = [] ∧ s' = s) ∨
    (proposals s.report ≠ [] ∧ ∃ run, s'.runs.rows = s.runs.rows ++ [run] ∧
      run.items.map changeOf = proposals s.report)

theorem apply_achieves (s : State) :
    Achieves (fun result s' => result.2 = none ∧ Reevaluated s s') (apply true) s := by
  refine does_bind (plan_achieves ?_)
  refine achieves_ask (fun _ => rfl) fun runID => ?_
  refine does_bind (applyRows_achieves (fits_report s) fun report items s₁ h => ?_)
  dsimp only
  split
  · next hempty =>
    have hnil := List.isEmpty_iff.mp hempty
    obtain rfl := h.unchanged hnil
    refine ⟨rfl, rfl, rfl, h.proposed, h.others, .inl ⟨?_, rfl⟩⟩
    rw [← h.recorded, hnil]
    rfl
  · next hsome =>
    refine achieves_ask (fun _ => rfl) fun now => achieves_save fun s₂ hsaved => ?_
    have hrows := hsaved.rows
    rw [h.elsewhere.runs] at hrows
    have hchanges : proposals s.report ≠ [] := by
      rw [← h.recorded]
      simpa using hsome
    refine ⟨rfl, hsaved.usages.trans h.elsewhere.usages,
      hsaved.attempts.trans h.elsewhere.attempts, ?_, ?_,
      .inr ⟨hchanges, _, hrows, h.recorded⟩⟩
    · rw [hsaved.status?]
      exact h.proposed
    · rw [hsaved.status?]
      exact h.others

theorem Reevaluated.settled (h : Reevaluated s s') : proposals s'.report = [] := by
  have hkeeps : ∀ row' ∈ s'.report, ReevalRow.wouldChange row' = false := by
    intro row' hrow'
    obtain ⟨sk', hsk', rfl⟩ := List.mem_map.mp hrow'
    have hstatus' := status?_of_mem (SkillTable.mem_list.mp hsk')
    have hattempts : s'.applyAttempts sk'.id = s.applyAttempts sk'.id := by
      unfold State.applyAttempts
      rw [h.usages, show s'.sumApplyAttempts = s.sumApplyAttempts from
        funext fun _ => by unfold State.sumApplyAttempts; rw [h.attempts]]
    -- The skill was there before, with a status from which this one was proposed.
    have hmem : sk'.id ∈ s.report.map ReevalRow.skillID := by
      by_contra habsent
      rw [h.others _ habsent] at hstatus'
      obtain ⟨sk, hsk, hid, -⟩ := status?_eq_some_iff.mp hstatus'
      refine habsent (List.mem_map.mpr ⟨planRow (s.evidence sk), ?_, hid⟩)
      exact List.mem_map_of_mem (SkillTable.mem_list.mpr hsk)
    obtain ⟨row, hrow, hid⟩ := List.mem_map.mp hmem
    have hproposed := h.proposed row hrow
    obtain ⟨sk, -, rfl⟩ := List.mem_map.mp hrow
    rw [hid, hstatus'] at hproposed
    have hsame : sk'.status = (evaluate sk.status (recompute (s.applyAttempts sk.id))).2.1 :=
      Option.some.inj hproposed
    have hskid : sk.id = sk'.id := hid
    change (evaluate sk'.status (recompute (s'.applyAttempts sk'.id))).2.2 = false
    rw [hattempts, hsame, hskid]
    exact evaluate_proposed _ _
  unfold proposals
  rw [List.filter_eq_nil_iff.mpr fun row' hrow' => by simp [hkeeps row' hrow'], List.map_nil]

/-! ## Revert -/

/-- The items are about distinct skills, each of which has a legal path back. -/
structure Revertible (items : List ReevalRunItem) (s : State) : Prop where
  distinct : (items.map ReevalRunItem.skillID).Nodup
  path : ∀ item ∈ items, ∃ live, s.status? item.skillID = some live ∧
    (transitionPath live item.priorStatus).isSome = true

structure Reverted (items : List ReevalRunItem) (s s' : State) : Prop where
  elsewhere : SameElsewhere s s'
  prior : ∀ item ∈ items, s'.status? item.skillID = some item.priorStatus
  others : ∀ id, id ∉ items.map ReevalRunItem.skillID → s'.status? id = s.status? id
  unchanged : (∀ item ∈ items, s.status? item.skillID = some item.priorStatus) → s' = s

theorem Revertible.tail (h : Revertible (item :: items) s)
    (hsame : ∀ id, id ≠ item.skillID → s'.status? id = s.status? id) : Revertible items s' where
  distinct := (List.nodup_cons.mp h.distinct).2
  path item' hitem' := by
    have hne : item'.skillID ≠ item.skillID := by
      intro heq
      exact (List.nodup_cons.mp h.distinct).1 (heq ▸ List.mem_map_of_mem hitem')
    rw [hsame _ hne]
    exact h.path item' (List.mem_cons_of_mem _ hitem')

theorem Reverted.cons_already (hrev : Revertible (item :: items) s)
    (halready : s.status? item.skillID = some item.priorStatus) (h : Reverted items s s') :
    Reverted (item :: items) s s' where
  elsewhere := h.elsewhere
  prior item' hitem' := by
    rcases List.mem_cons.mp hitem' with rfl | hrest
    · rw [h.others _ (List.nodup_cons.mp hrev.distinct).1, halready]
    · exact h.prior item' hrest
  others id hid := h.others id fun hrest => hid (List.mem_cons_of_mem _ hrest)
  unchanged hall := h.unchanged fun item' hitem' => hall item' (List.mem_cons_of_mem _ hitem')

theorem Reverted.cons_walked (hrev : Revertible (item :: items) s)
    (haway : s.status? item.skillID ≠ some item.priorStatus) (helsewhere : SameElsewhere s s₁)
    (hstatus : s₁.status? = Function.update s.status? item.skillID (some item.priorStatus))
    (h : Reverted items s₁ s') : Reverted (item :: items) s s' where
  elsewhere := helsewhere.trans h.elsewhere
  prior item' hitem' := by
    rcases List.mem_cons.mp hitem' with rfl | hrest
    · rw [h.others _ (List.nodup_cons.mp hrev.distinct).1, hstatus, Function.update_self]
    · exact h.prior item' hrest
  others id hid := by
    rw [List.map_cons, List.mem_cons, not_or] at hid
    rw [h.others id hid.2, hstatus, Function.update_of_ne hid.1]
  unchanged hall := absurd (hall item List.mem_cons_self) haway

theorem revertItems_achieves
    {Q : List RevertRow × List ReevalRunItem × Option ServiceErr → State → Prop}
    (skipMetrics : Bool) (hrev : Revertible items s)
    (hQ : ∀ report recorded s', Reverted items s s' → Q (report, recorded, none) s') :
    Achieves Q (revertItems skipMetrics items) s := by
  induction items generalizing s Q with
  | nil =>
    refine hQ [] [] s ⟨⟨rfl, rfl, rfl⟩, ?_, fun _ _ => rfl, fun _ => rfl⟩
    intro item hitem
    cases hitem
  | cons item rest ih =>
    obtain ⟨live, hlive, hpath⟩ := hrev.path item List.mem_cons_self
    refine does_bind (currentStatus_achieves hlive ?_)
    dsimp only
    split
    · next halready =>
      rw [halready] at hlive
      refine does_bind (ih (hrev.tail fun _ _ => rfl) fun report recorded s' h => ?_)
      exact hQ _ recorded s' (h.cons_already hrev hlive)
    · next haway =>
      obtain ⟨path, hpath⟩ := Option.isSome_iff_exists.mp hpath
      rw [hpath]
      refine does_bind (walk_achieves hlive (transitionPath_sound hpath) ?_)
      intro s₁ helsewhere hstatus
      have haway' : s.status? item.skillID ≠ some item.priorStatus := by
        rw [hlive]
        exact fun h => haway (Option.some.inj h)
      have htail : ∀ s₂, s₂.status? = s₁.status? → Revertible rest s₂ := fun s₂ hs₂ =>
        hrev.tail fun id hne => by rw [hs₂, hstatus, Function.update_of_ne hne]
      refine achieves_ask (fun _ => rfl) fun id => ?_
      split
      · refine does_bind (ih (htail s₁ rfl) fun report recorded s' h => ?_)
        exact hQ _ _ s' (h.cons_walked hrev haway' helsewhere hstatus)
      · refine does_bind (patchMetrics_achieves _ _ fun s₂ helsewhere₂ hstatus₂ => ?_)
        refine does_bind (ih (htail s₂ hstatus₂) fun report recorded s' h => ?_)
        exact hQ _ _ s' (h.cons_walked hrev haway' (helsewhere.trans helsewhere₂)
          (hstatus₂.trans hstatus))

theorem findRun_eq (hrun : run ∈ s.runs.rows) :
    s.runs.findByID run.id = .ok (RunTable.load run) := by
  unfold RunTable.findByID
  rw [(s.runs.findTarget_eq_some_iff run.id run).mpr ⟨hrun, rfl⟩]

theorem mem_load_items :
    item ∈ (RunTable.load run).items ↔ item ∈ run.items :=
  List.mem_insertionSort _

theorem Revertible.load (h : Revertible run.items s) :
    Revertible (RunTable.load run).items s where
  distinct := ((List.perm_insertionSort _ run.items).map _).nodup_iff.mpr h.distinct
  path item hitem := h.path item (mem_load_items.mp hitem)

theorem revert_achieves (hrun : run ∈ s.runs.rows) (hrev : Revertible run.items s) :
    Achieves (fun result s' => result.2 = none ∧ run ∈ s'.runs.rows ∧
      ∃ s₁, s'.skills = s₁.skills ∧ Reverted (RunTable.load run).items s s₁)
      (revert run.id) s := by
  refine achieves_read (fun _ => rfl) (fun ch hop => (read_of_isOk hop).trans (findRun_eq hrun)) ?_
  refine achieves_ask (fun _ => rfl) fun revRunID => ?_
  refine achieves_read (fun _ => rfl) (fun ch hop => read_of_isOk hop) ?_
  refine does_bind (revertItems_achieves _ hrev.load fun report recorded s₁ h => ?_)
  refine achieves_ask (fun _ => rfl) fun now => achieves_save fun s' hsaved => ?_
  refine ⟨rfl, ?_, s₁, hsaved.skills, h⟩
  rw [hsaved.rows, h.elsewhere.runs]
  exact List.mem_append_left _ hrun

/-! ## Apply, then revert -/

theorem mem_proposals {report : List ReevalRow} {change : SkillID × Status × Status} :
    change ∈ proposals report ↔ ∃ row ∈ report, row.wouldChange = true ∧
      change = (row.skillID, row.currentStatus, row.proposedStatus) := by
  unfold proposals
  rw [List.mem_map]
  constructor
  · rintro ⟨row, hrow, rfl⟩
    obtain ⟨hmem, hchange⟩ := List.mem_filter.mp hrow
    exact ⟨row, hmem, hchange, rfl⟩
  · rintro ⟨row, hrow, hchange, rfl⟩
    exact ⟨row, List.mem_filter.mpr ⟨hrow, hchange⟩, rfl⟩

theorem exists_row_of_item {report : List ReevalRow}
    (hitems : run.items.map changeOf = proposals report) (hitem : item ∈ run.items) :
    ∃ row ∈ report, row.wouldChange = true ∧ item.skillID = row.skillID ∧
      item.priorStatus = row.currentStatus := by
  have hmem : changeOf item ∈ proposals report := hitems ▸ List.mem_map_of_mem hitem
  obtain ⟨row, hrow, hchange, heq⟩ := mem_proposals.mp hmem
  exact ⟨row, hrow, hchange, congrArg Prod.fst heq, congrArg (fun change => change.2.1) heq⟩

/-- The recorded run of a re-evaluation can be undone, along the paths that lead back from
the target of an edge. -/
theorem Reevaluated.revertible (h : Reevaluated s s')
    (hitems : run.items.map changeOf = proposals s.report) : Revertible run.items s' where
  distinct := by
    have hids : run.items.map ReevalRunItem.skillID =
        (s.report.filter ReevalRow.wouldChange).map ReevalRow.skillID := by
      have hfst := congrArg (List.map Prod.fst) hitems
      simpa [proposals, List.map_map, Function.comp_def, changeOf] using hfst
    rw [hids]
    exact (fits_report s).distinct.sublist (List.filter_sublist.map _)
  path item hitem := by
    obtain ⟨row, hrow, hchange, hid, hprior⟩ := exists_row_of_item hitems hitem
    have hallowed := (fits_report s).changes row hrow hchange
    refine ⟨row.proposedStatus, by rw [hid, h.proposed row hrow], ?_⟩
    rw [hprior]
    exact isSome_of_mem_cycle (mem_cycle_of_allowed hallowed).2 (mem_cycle_of_allowed hallowed).1

theorem Reevaluated.restored (h : Reevaluated s s')
    (hitems : run.items.map changeOf = proposals s.report)
    (hreverted : Reverted (RunTable.load run).items s' s₁) : s₁.status? = s.status? := by
  funext id
  by_cases hid : id ∈ (RunTable.load run).items.map ReevalRunItem.skillID
  · obtain ⟨item, hitem, rfl⟩ := List.mem_map.mp hid
    obtain ⟨row, hrow, -, hskill, hprior⟩ := exists_row_of_item hitems (mem_load_items.mp hitem)
    rw [hreverted.prior item hitem, hskill, (fits_report s).current row hrow, hprior]
  · rw [hreverted.others id hid]
    by_cases hreport : id ∈ s.report.map ReevalRow.skillID
    · obtain ⟨row, hrow, rfl⟩ := List.mem_map.mp hreport
      have hkeep : row.wouldChange = false := by
        by_contra hchange
        rw [Bool.not_eq_false] at hchange
        have hmem : (row.skillID, row.currentStatus, row.proposedStatus) ∈
            run.items.map changeOf := hitems ▸ mem_proposals.mpr ⟨row, hrow, hchange, rfl⟩
        obtain ⟨item, hitem, heq⟩ := List.mem_map.mp hmem
        exact hid (List.mem_map.mpr ⟨item, mem_load_items.mpr hitem, congrArg Prod.fst heq⟩)
      rw [h.proposed row hrow, (fits_report s).current row hrow,
        (fits_report s).keeps row hrow hkeep]
    · exact h.others id hreport

theorem Reevaluated.items_of_rows (h : Reevaluated s s')
    (hrun : s'.runs.rows = s.runs.rows ++ [run]) :
    run.items.map changeOf = proposals s.report := by
  rcases h.recorded with ⟨-, rfl⟩ | ⟨-, run', hrun', hitems⟩
  · simp at hrun
  · have hsame := List.append_cancel_left (hrun.symm.trans hrun')
    rw [(List.cons.inj hsame).1]
    exact hitems

theorem revertible_of_prior (hdistinct : (items.map ReevalRunItem.skillID).Nodup)
    (hprior : ∀ item ∈ items, s.status? item.skillID = some item.priorStatus) :
    Revertible items s where
  distinct := hdistinct
  path item hitem := by
    refine ⟨item.priorStatus, hprior item hitem, ?_⟩
    rw [transitionPath, Graph.BreadthFirst.shortestPath, if_pos rfl]
    rfl

/-- The end of a program that runs alone from a state, with the choices from the `n`th. -/
abbrev endOf {α : Type} (p : Program α) (env : Nat → Choice) (n : Nat) (s : State) :
    Effects.Outcome Op Op.Ret α State :=
  p.eval handler (fun _ => false) env n s

def NoFailure {α : Type} (p : Program α) (env : Nat → Choice) (n : Nat) (s : State) : Prop :=
  ∀ step ∈ p.steps handler env n s, succeeded step.ev = true

def AllowedSteps {α : Type} (p : Program α) (env : Nat → Choice) (n : Nat) (s : State) : Prop :=
  ∀ step ∈ p.steps handler env n s, StatusStep step.before step.after

/-- A confirmed re-evaluation, its repetition, the undoing of the run that it recorded, and
the repetition of that. -/
theorem reevaluation_undone (env : Nat → Choice) (s : State)
    (hfirst : NoFailure (apply true) env 0 s) :
    let first := endOf (apply true) env 0 s
    first.value.2 = none ∧ AllowedSteps (apply true) env 0 s ∧
      (first.state = s ∨ ∃ run, first.state.runs.rows = s.runs.rows ++ [run]) ∧
      (NoFailure (apply true) env first.used first.state →
        let second := endOf (apply true) env first.used first.state
        second.value.2 = none ∧ second.state = first.state ∧
          ∀ run, first.state.runs.rows = s.runs.rows ++ [run] →
            NoFailure (revert run.id) env second.used second.state →
            let back := endOf (revert run.id) env second.used second.state
            back.value.2 = none ∧ AllowedSteps (revert run.id) env second.used second.state ∧
              (∀ id, back.state.status? id = s.status? id) ∧
              (NoFailure (revert run.id) env back.used back.state →
                let again := endOf (revert run.id) env back.used back.state
                again.value.2 = none ∧ again.state.skills = back.state.skills)) := by
  intro first
  obtain ⟨hsteps, hnone, hreeval⟩ := eval_of_does (apply_achieves s) hfirst
  refine ⟨hnone, hsteps, ?_, fun hsecond => ?_⟩
  · rcases hreeval.recorded with ⟨-, hsame⟩ | ⟨-, run, hrun, -⟩
    · exact .inl hsame
    · exact .inr ⟨run, hrun⟩
  intro second
  obtain ⟨-, hnone₂, hreeval₂⟩ := eval_of_does (apply_achieves first.state) hsecond
  have hsame : second.state = first.state := by
    rcases hreeval₂.recorded with ⟨-, hsame⟩ | ⟨hchanges, -⟩
    · exact hsame
    · exact absurd hreeval.settled hchanges
  refine ⟨hnone₂, hsame, fun run hrun hback => ?_⟩
  intro back
  have hitems : run.items.map changeOf = proposals s.report := hreeval.items_of_rows hrun
  have hmem : run ∈ second.state.runs.rows := by
    rw [hsame, hrun]
    exact List.mem_append_right _ List.mem_cons_self
  have hrev : Revertible run.items second.state := by
    rw [hsame]
    exact hreeval.revertible hitems
  obtain ⟨hsteps₃, hnone₃, hmem₃, s₁, hskills, hreverted⟩ :=
    eval_of_does (revert_achieves hmem hrev) hback
  have hrestored : back.state.status? = s.status? := by
    rw [hsame] at hreverted
    rw [← hreeval.restored hitems hreverted]
    exact status?_of_skills_eq hskills
  refine ⟨hnone₃, hsteps₃, fun id => congrFun hrestored id, fun hagain => ?_⟩
  -- The skills of the items are where the run found them, so nothing is walked again.
  have hprior : ∀ item ∈ (RunTable.load run).items,
      back.state.status? item.skillID = some item.priorStatus := by
    intro item hitem
    rw [status?_of_skills_eq hskills]
    exact hreverted.prior item hitem
  have hrev₃ : Revertible run.items back.state :=
    revertible_of_prior hrev.distinct fun item hitem => hprior item (mem_load_items.mpr hitem)
  obtain ⟨-, hnone₄, -, s₂, hskills₂, hreverted₂⟩ :=
    eval_of_does (revert_achieves hmem₃ hrev₃) hagain
  refine ⟨hnone₄, ?_⟩
  rw [hreverted₂.unchanged hprior] at hskills₂
  exact hskills₂

/-! ## A promotion and a demotion -/

def namedSkill (id : Nat) (name : String) (status : Status) : SkillRow :=
  { sampleSkill status with id := ⟨id⟩, name := name }

/-- One skill was used in a change of one attempt, another one also in a change of three
attempts, and a third one nowhere. -/
def threeSkills : State where
  skills := ⟨[namedSkill 1 "a" .validated, namedSkill 2 "b" .active, namedSkill 3 "c" .blocked],
    by decide, by decide⟩
  usages := [⟨⟨1⟩, ⟨7⟩⟩, ⟨⟨2⟩, ⟨7⟩⟩, ⟨⟨2⟩, ⟨8⟩⟩]
  attempts := [⟨⟨7⟩, 1⟩, ⟨⟨8⟩, 1⟩, ⟨⟨8⟩, 2⟩]

def countingEnv (n : Nat) : Choice where
  now := 1000 * n
  id := ⟨n⟩

def sampleRun : ReevalRun where
  id := ⟨7⟩
  mode := .apply
  revertsRunID := none
  createdAt := 16000
  items := [⟨⟨11⟩, ⟨1⟩, .validated, .active⟩, ⟨⟨15⟩, ⟨2⟩, .active, .deprecated⟩]

theorem reevaluation_undone_threeSkills :
    let first := endOf (apply true) countingEnv 0 threeSkills
    let second := endOf (apply true) countingEnv first.used first.state
    let back := endOf (revert sampleRun.id) countingEnv second.used second.state
    let again := endOf (revert sampleRun.id) countingEnv back.used back.state
    (NoFailure (apply true) countingEnv 0 threeSkills ∧
      NoFailure (apply true) countingEnv first.used first.state ∧
      NoFailure (revert sampleRun.id) countingEnv second.used second.state ∧
      NoFailure (revert sampleRun.id) countingEnv back.used back.state) ∧
      first.state.statuses = [.active, .deprecated, .blocked] ∧
      second.state = first.state ∧
      (∀ id, back.state.status? id = threeSkills.status? id) ∧
      again.state.skills = back.state.skills := by
  intro first second back again
  have hfirst : NoFailure (apply true) countingEnv 0 threeSkills := by
    unfold NoFailure
    decide +kernel
  have hsecond : NoFailure (apply true) countingEnv first.used first.state := by
    unfold NoFailure
    decide +kernel
  have hback : NoFailure (revert sampleRun.id) countingEnv second.used second.state := by
    unfold NoFailure
    decide +kernel
  have hagain : NoFailure (revert sampleRun.id) countingEnv back.used back.state := by
    unfold NoFailure
    decide +kernel
  have hrun : first.state.runs.rows = threeSkills.runs.rows ++ [sampleRun] := by decide +kernel
  obtain ⟨-, -, -, hrest⟩ := reevaluation_undone countingEnv threeSkills hfirst
  obtain ⟨-, hsame, hrevert⟩ := hrest hsecond
  obtain ⟨-, -, hrestored, hrepeat⟩ := hrevert sampleRun hrun hback
  exact ⟨⟨hfirst, hsecond, hback, hagain⟩, by decide +kernel, hsame, hrestored,
    (hrepeat hagain).2⟩

end SophiaOrchestrator.Skills.Learning
