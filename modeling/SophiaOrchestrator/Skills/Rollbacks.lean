import SophiaOrchestrator.Skills.Reevaluation

/-!
# Rollback counts of repeated reverts

A recorded run is reverted by any number of calls, in which patches of statuses may fail at
any hop.  A call counts a rollback for each skill that it brings back, unless a revert of
the run is recorded already; but a call whose walks have failed is recorded, too, so a skill
that a later call brings back is not counted.

A statement that fails is one that was not executed.
-/

namespace SophiaOrchestrator.Skills.Learning

open Effects Prog

variable {α : Type} {s s' s₁ : State} {id : SkillID} {status target live : Status}
  {items : List ReevalRunItem} {item : ReevalRunItem} {run : ReevalRun} {skip : Bool}

def attempting : Handler Op Op.Ret (Bool × Choice) State where
  run op ch s := handle op { ch.2 with fault := if ch.1 then .before else .none } s

/-- No call of the metrics or of the audit storage fails. -/
def spared : Ev Op Op.Ret → Bool
  | ⟨.patchMetrics _ _ _, answer⟩ => Except.isOk answer
  | ⟨.saveRun _, answer⟩ => Except.isOk answer
  | ⟨.findRun _, answer⟩ => Except.isOk answer
  | ⟨.existsByRevertsRunID _, answer⟩ => Except.isOk answer
  | _ => true

abbrev Tries {α : Type} (Q : α → State → Prop) (p : Program α) (s : State) : Prop :=
  p.Does attempting (fun ev => spared ev = true) (fun _ _ => True) Q s

/-! ## Patches and walks -/

def rollbacksOf (row : Option SkillRow) : Int64 :=
  (row.map fun row => row.metrics.rollbackCount).getD 0

def State.rollbacks (s : State) (id : SkillID) : Int64 :=
  rollbacksOf (s.skills.findOther id)

structure OnlySkill (id : SkillID) (s s' : State) : Prop where
  runs : s'.runs = s.runs
  others : ∀ other, other ≠ id → s'.skills.findOther other = s.skills.findOther other

theorem OnlySkill.refl (id : SkillID) (s : State) : OnlySkill id s s :=
  ⟨rfl, fun _ _ => rfl⟩

theorem OnlySkill.trans (h : OnlySkill id s s₁) (h' : OnlySkill id s₁ s') : OnlySkill id s s' :=
  ⟨h'.runs.trans h.runs, fun other hne => (h'.others other hne).trans (h.others other hne)⟩

theorem write_attempting (fails : Bool) (s : State) (effect : Except RepoErr SkillTable) :
    let written : Except RepoErr Unit × State :=
      Fault.write (if fails then .before else .none) s (effect.map fun skills => { s with skills })
    (∃ err, written = (.error err, s)) ∨
      ∃ skills, effect = .ok skills ∧ written = (.ok (), { s with skills }) := by
  cases fails with
  | true => exact .inl ⟨.unavailable, rfl⟩
  | false =>
    cases effect with
    | error err => exact .inl ⟨err, rfl⟩
    | ok skills => exact .inr ⟨skills, rfl, rfl⟩

theorem tries_ask {op : Op} {f : op.Ret → Program α} {Q : α → State → Prop}
    (hreads : ∀ ch, (handle op ch s).2 = s) (hf : ∀ answer, Tries Q (f answer) s) :
    Tries Q (perform op >>= f) s :=
  does_read_bind (fun _ => hreads _) trivial fun _ _ => hf _

theorem onlySkill_of_updateRow {skills : SkillTable} {set : SkillRow → SkillRow}
    {hkey : ∀ row, skillKey (set row) = skillKey row} {hid : ∀ row, (set row).id = row.id}
    (h : s.skills.updateRow id set hkey hid = .ok skills) :
    OnlySkill id s { s with skills } ∧
      skills.findOther id = (s.skills.findOther id).map set :=
  ⟨⟨rfl, fun _ hne => SkillTable.findOther_updateRow_of_ne h hne⟩,
    SkillTable.findOther_updateRow_self h⟩

theorem patchStatus_tries {Q : Except ServiceErr Unit → State → Prop}
    (hok : ∀ s', OnlySkill id s s' → s'.status? id = some status →
      s'.rollbacks id = s.rollbacks id → Q (.ok ()) s')
    (herr : ∀ err, Q (.error err) s) : Tries Q (patchStatus (some id) status) s := by
  unfold patchStatus
  dsimp only
  split
  · exact herr _
  refine does_read_bind (fun _ => rfl) trivial fun ch _ => ?_
  cases hread : (attempting.run (.findByID id) ch s).1 with
  | error err => exact herr _
  | ok sk =>
    obtain ⟨hsk, hid⟩ := SkillTable.findByID_eq_ok.mp (Fault.read_eq_ok hread)
    have hfind := (s.skills.findOther_eq_some_iff id sk).mpr ⟨hsk, hid⟩
    dsimp only
    split
    · refine tries_ask (fun _ => rfl) fun now => does_perform_bind fun ch' _ => ⟨trivial, ?_⟩
      rcases write_attempting ch'.1 s (s.skills.patchStatus id status now) with
        ⟨err, hfailed⟩ | ⟨skills, heffect, hwritten⟩
      · rw [show attempting.run (.patchStatus id status now) ch' s = (.error err, s) from hfailed]
        exact herr _
      · obtain ⟨honly, hrow⟩ := onlySkill_of_updateRow heffect
        rw [show attempting.run (.patchStatus id status now) ch' s =
          (.ok (), { s with skills }) from hwritten]
        refine hok _ honly ?_ ?_
        · simp only [State.status?, hrow, hfind]
          rfl
        · simp only [State.rollbacks, hrow, hfind]
          rfl
    · exact herr _

theorem patchMetrics_tries {Q : Except ServiceErr Unit → State → Prop}
    (hlive : s.status? id = some live)
    (hQ : ∀ s', OnlySkill id s s' → s'.status? id = some live →
      s'.rollbacks id = s.rollbacks id + 1 → Q (.ok ()) s') :
    Tries Q (patchMetrics (some id) { rollbackDelta := 1 }) s := by
  obtain ⟨sk, hfind, hstatus⟩ := Option.map_eq_some_iff.mp hlive
  refine tries_ask (fun _ => rfl) fun now => does_perform_bind fun ch hop => ⟨trivial, ?_⟩
  rcases write_attempting ch.1 s (s.skills.patchMetrics id _ now) with
    ⟨err, hfailed⟩ | ⟨skills, heffect, hwritten⟩
  · rw [show attempting.run (.patchMetrics id _ now) ch s = (.error err, s) from hfailed] at hop
    cases hop
  · obtain ⟨honly, hrow⟩ := onlySkill_of_updateRow heffect
    rw [show attempting.run (.patchMetrics id _ now) ch s =
      (.ok (), { s with skills }) from hwritten]
    refine hQ _ honly ?_ ?_
    · simp only [State.status?, hrow, hfind]
      exact congrArg some hstatus
    · simp only [State.rollbacks, hrow, hfind]
      rfl

theorem currentStatus_tries {Q : Except ServiceErr Status → State → Prop}
    (hok : ∀ live, s.status? id = some live → Q (.ok live) s) (herr : ∀ err, Q (.error err) s) :
    Tries Q (currentStatus (some id)) s := by
  refine does_read_bind (fun _ => rfl) trivial fun ch _ => ?_
  cases hread : (attempting.run (.findByID id) ch s).1 with
  | error err => exact herr _
  | ok sk =>
    obtain ⟨hsk, hid⟩ := SkillTable.findByID_eq_ok.mp (Fault.read_eq_ok hread)
    exact hok sk.status (hid ▸ status?_of_mem hsk)

/-- A walk ends at the target, or stops before it is reached. -/
theorem walk_tries {Q : Status × Option ServiceErr → State → Prop} {path : List Status}
    (hlive : s.status? id = some live) (hpath : IsPath live path target)
    (hinner : target ∉ path.dropLast) (haway : path ≠ [] → live ≠ target)
    (hok : ∀ s', OnlySkill id s s' → s'.status? id = some target →
      s'.rollbacks id = s.rollbacks id → Q (target, none) s')
    (herr : ∀ reached err s', OnlySkill id s s' → s'.status? id ≠ some target →
      s'.rollbacks id = s.rollbacks id → Q (reached, some err) s') :
    Tries Q (walk id live path) s := by
  induction path generalizing s live with
  | nil =>
    obtain rfl : live = target := hpath
    exact hok s (.refl id s) hlive rfl
  | cons step rest ih =>
    refine does_bind (patchStatus_tries (fun s₁ honly hstep hsame => ?_) fun err => ?_)
    · refine ih hstep hpath.2 (fun hmem => hinner ?_) (fun hrest => ?_)
        (fun s' honly' hend hsame' => hok s' (honly.trans honly') hend (hsame'.trans hsame))
        (fun reached err s' honly' hend hsame' =>
          herr reached err s' (honly.trans honly') hend (hsame'.trans hsame))
      · rw [List.dropLast_cons_of_ne_nil (List.ne_nil_of_mem (List.mem_of_mem_dropLast hmem))]
        exact List.mem_cons_of_mem _ hmem
      · rintro rfl
        rw [List.dropLast_cons_of_ne_nil hrest] at hinner
        exact hinner List.mem_cons_self
    · refine herr live _ s (.refl id s) ?_ rfl
      rw [hlive]
      exact fun heq => haway (List.cons_ne_nil _ _) (Option.some.inj heq)

/-- A path that the search finds meets the target at its end only: up to an earlier meeting it would
be a shorter one. -/
theorem not_mem_dropLast_transitionPath {path : List Status}
    (h : transitionPath live target = some path) : target ∉ path.dropLast := by
  intro hmem
  obtain ⟨before, after, hsplit⟩ := List.append_of_mem hmem
  have hne : path ≠ [] := List.ne_nil_of_mem (List.mem_of_mem_dropLast hmem)
  have hpath : path = before ++ target :: (after ++ [path.getLast hne]) := by
    rw [← List.cons_append, ← List.append_assoc, ← hsplit, List.dropLast_append_getLast]
  have hsound := transitionPath_sound h
  rw [hpath] at hsound
  obtain ⟨found, hfound, hle⟩ := hsound.upTo.exists_found
  rw [Option.some.inj (hfound.symm.trans h), hpath] at hle
  simp only [List.length_append, List.length_cons, List.length_nil] at hle
  omega

/-! ## One call -/

/-- What a call does to the skill of an item, whose row was `row` and is `row'`: the skill
stays at its prior status; when it is brought back along a legal path, that is counted unless
the counting is skipped; and nothing else is counted. -/
structure ItemHandled (skip : Bool) (prior : Status) (row row' : Option SkillRow) : Prop where
  kept : row.map SkillRow.status = some prior → row'.map SkillRow.status = some prior
  back : row.map SkillRow.status ≠ some prior → row'.map SkillRow.status = some prior →
    (∃ live, row.map SkillRow.status = some live ∧
      (transitionPath live prior).isSome = true) ∧
    rollbacksOf row' = rollbacksOf row + if skip then 0 else 1
  uncounted : row.map SkillRow.status = some prior ∨ row'.map SkillRow.status ≠ some prior →
    rollbacksOf row' = rollbacksOf row

theorem ItemHandled.refl (skip : Bool) (prior : Status) (row : Option SkillRow) :
    ItemHandled skip prior row row :=
  ⟨fun h => h, fun haway hback => absurd hback haway, fun _ => rfl⟩

structure Handled (skip : Bool) (items : List ReevalRunItem) (s s' : State) : Prop where
  runs : s'.runs = s.runs
  others : ∀ id, id ∉ items.map ReevalRunItem.skillID →
    s'.skills.findOther id = s.skills.findOther id
  each : ∀ item ∈ items, ItemHandled skip item.priorStatus
    (s.skills.findOther item.skillID) (s'.skills.findOther item.skillID)

theorem Handled.refl (skip : Bool) (items : List ReevalRunItem) (s : State) :
    Handled skip items s s :=
  ⟨rfl, fun _ _ => rfl, fun _ _ => .refl ..⟩

theorem Handled.cons (h : Handled skip items s₁ s') (honly : OnlySkill item.skillID s s₁)
    (hnew : item.skillID ∉ items.map ReevalRunItem.skillID)
    (hitem : ItemHandled skip item.priorStatus (s.skills.findOther item.skillID)
      (s₁.skills.findOther item.skillID)) : Handled skip (item :: items) s s' where
  runs := h.runs.trans honly.runs
  others id hid := by
    rw [List.map_cons, List.mem_cons, not_or] at hid
    rw [h.others id hid.2, honly.others id hid.1]
  each item' hitem' := by
    rcases List.mem_cons.mp hitem' with rfl | hrest
    · rw [h.others _ hnew]
      exact hitem
    · have hne : item'.skillID ≠ item.skillID :=
        fun heq => hnew (heq ▸ List.mem_map_of_mem hrest)
      rw [← honly.others _ hne]
      exact h.each item' hrest

theorem revertItems_tries
    {Q : List RevertRow × List ReevalRunItem × Option ServiceErr → State → Prop}
    (hdistinct : (items.map ReevalRunItem.skillID).Nodup)
    (hQ : ∀ report recorded err s', Handled skip items s s' → Q (report, recorded, err) s') :
    Tries Q (revertItems skip items) s := by
  induction items generalizing s Q with
  | nil => exact hQ [] [] none s (.refl skip [] s)
  | cons item rest ih =>
    rw [List.map_cons, List.nodup_cons] at hdistinct
    have hstay : ∀ s', Handled skip rest s s' → Handled skip (item :: rest) s s' :=
      fun s' h => h.cons (.refl _ s) hdistinct.1 (.refl ..)
    refine does_bind (currentStatus_tries (fun live hlive => ?_)
      fun err => hQ _ _ _ s (.refl skip _ s))
    dsimp only
    split
    · exact does_bind (ih hdistinct.2 fun report recorded err s' h => hQ _ _ _ s' (hstay s' h))
    next haway =>
      have haway' : (s.skills.findOther item.skillID).map SkillRow.status ≠
          some item.priorStatus := fun heq => haway (Option.some.inj (hlive.symm.trans heq))
      split
      · exact does_bind (ih hdistinct.2 fun report recorded err s' h => hQ _ _ _ s' (hstay s' h))
      next path hpath =>
        refine does_bind (walk_tries hlive (transitionPath_sound hpath)
          (not_mem_dropLast_transitionPath hpath) (fun _ => haway) ?_ ?_)
        · intro s₁ honly hback hsame
          have hback' : ∀ (s₂ : State), s₂.status? item.skillID = some item.priorStatus →
              s₂.rollbacks item.skillID = s.rollbacks item.skillID + (if skip then 0 else 1) →
              ItemHandled skip item.priorStatus (s.skills.findOther item.skillID)
                (s₂.skills.findOther item.skillID) := fun s₂ hback₂ hcount =>
            ⟨fun hprior => absurd hprior haway',
              fun _ _ => ⟨⟨_, hlive, by rw [hpath]; rfl⟩, hcount⟩,
              fun hor => hor.elim (fun hprior => absurd hprior haway')
                fun hnot => absurd hback₂ hnot⟩
          refine tries_ask (fun _ => rfl) fun itemID => ?_
          split
          · next hskip =>
            refine does_bind (ih hdistinct.2 fun report recorded err s' h => hQ _ _ _ s' ?_)
            refine h.cons honly hdistinct.1 (hback' s₁ hback ?_)
            rw [if_pos hskip, Int64.add_zero, hsame]
          · next hskip =>
            refine does_bind (patchMetrics_tries hback fun s₂ honly₂ hback₂ hcount => ?_)
            refine does_bind (ih hdistinct.2 fun report recorded err s' h => hQ _ _ _ s' ?_)
            refine h.cons (honly.trans honly₂) hdistinct.1 (hback' s₂ hback₂ ?_)
            rw [if_neg hskip, hcount, hsame]
        · intro reached err s₁ honly hnot hsame
          have hcons : ∀ s', Handled skip rest s₁ s' → Handled skip (item :: rest) s s' :=
            fun s' h => h.cons honly hdistinct.1
              ⟨fun hprior => absurd hprior haway', fun _ hback => absurd hback hnot,
                fun _ => hsame⟩
          dsimp only
          split
          · exact does_bind (ih hdistinct.2
              fun report recorded err s' h => hQ _ _ _ s' (hcons s' h))
          · refine tries_ask (fun _ => rfl) fun itemID => ?_
            exact does_bind (ih hdistinct.2
              fun report recorded err s' h => hQ _ _ _ s' (hcons s' h))

structure Called (run : ReevalRun) (s s' : State) : Prop where
  recorded : run ∈ s'.runs.rows
  others : ∀ id, id ∉ run.items.map ReevalRunItem.skillID →
    s'.skills.findOther id = s.skills.findOther id
  each : ∀ item ∈ run.items, ItemHandled (s.runs.existsByRevertsRunID run.id) item.priorStatus
    (s.skills.findOther item.skillID) (s'.skills.findOther item.skillID)

theorem read_attempting {fails : Bool} {answer : Except RepoErr α}
    (h : Except.isOk (Fault.read (if fails then .before else .none) answer) = true) :
    Fault.read (if fails then .before else .none) answer = answer := by
  cases fails with
  | true => cases h
  | false => rfl

theorem Handled.called (h : Handled (s.runs.existsByRevertsRunID run.id)
      (RunTable.load run).items s s₁) (hskills : s'.skills = s₁.skills)
    (hrecorded : run ∈ s'.runs.rows) : Called run s s' where
  recorded := hrecorded
  others id hid := by
    rw [hskills]
    refine h.others id fun hmem => hid ?_
    obtain ⟨item, hitem, rfl⟩ := List.mem_map.mp hmem
    exact List.mem_map_of_mem (mem_load_items.mp hitem)
  each item hitem := by
    rw [hskills]
    exact h.each item (mem_load_items.mpr hitem)

theorem revert_tries (hrun : run ∈ s.runs.rows)
    (hdistinct : (run.items.map ReevalRunItem.skillID).Nodup) :
    Tries (fun _ s' => Called run s s') (revert run.id) s := by
  have hload : ((RunTable.load run).items.map ReevalRunItem.skillID).Nodup :=
    ((List.perm_insertionSort _ run.items).map _).nodup_iff.mpr hdistinct
  refine does_read_bind (fun _ => rfl) trivial fun ch hop => ?_
  rw [show (attempting.run (.findRun run.id) ch s).1 = .ok (RunTable.load run) from
    (read_attempting hop).trans (findRun_eq hrun)]
  refine tries_ask (fun _ => rfl) fun revRunID => ?_
  refine does_read_bind (fun _ => rfl) trivial fun ch' hop' => ?_
  rw [show (attempting.run (.existsByRevertsRunID (RunTable.load run).id) ch' s).1 =
    .ok (s.runs.existsByRevertsRunID run.id) from read_attempting hop']
  refine does_bind (revertItems_tries hload fun report recorded err s₁ h => ?_)
  have hrun₁ : run ∈ s₁.runs.rows := by
    rw [h.runs]
    exact hrun
  cases err with
  | some err => exact h.called rfl hrun₁
  | none =>
    refine tries_ask (fun _ => rfl) fun now => does_perform_bind fun ch'' hsaved => ⟨trivial, ?_⟩
    generalize hrecord : ReevalRun.mk revRunID .revert (some (RunTable.load run).id) now
      recorded = record at hsaved ⊢
    have hok : (attempting.run (.saveRun record) ch'' s₁).1 = .ok () := eq_ok_of_isOk hsaved
    have heffect : (s₁.runs.save record).map (fun runs => { s₁ with runs }) =
        .ok (attempting.run (.saveRun record) ch'' s₁).2 := Fault.write_ok hok
    cases hsave : s₁.runs.save record with
    | error err =>
      rw [hsave] at heffect
      cases heffect
    | ok runs =>
      rw [hsave] at heffect
      rw [hok, ← Except.ok.inj heffect]
      refine h.called rfl ?_
      rw [RunTable.rows_save hsave]
      exact List.mem_append_left _ hrun₁

/-! ## Any number of calls -/

def revertOnce (env : Nat → Bool × Choice) (id : AuditID) (start : Nat × State) : Nat × State :=
  let o := (revert id).eval attempting (fun _ => false) env start.1 start.2
  (o.used, o.state)

def afterReverts (env : Nat → Bool × Choice) (id : AuditID) (s : State) (k : Nat) : Nat × State :=
  (revertOnce env id)^[k] (0, s)

theorem afterReverts_succ (env : Nat → Bool × Choice) (id : AuditID) (s : State) (k : Nat) :
    afterReverts env id s (k + 1) = revertOnce env id (afterReverts env id s k) :=
  Function.iterate_succ_apply' ..

/-- No call of the metrics or of the audit storage fails in the call that starts here. -/
def SparedCall (env : Nat → Bool × Choice) (id : AuditID) (start : Nat × State) : Prop :=
  ∀ step ∈ (revert id).steps attempting env start.1 start.2, spared step.ev = true

/-- The skill was away from its prior status, and is back. -/
def BroughtBack (run : ReevalRun) (id : SkillID) (s s' : State) : Prop :=
  ∃ item ∈ run.items, item.skillID = id ∧ s.status? id ≠ some item.priorStatus ∧
    s'.status? id = some item.priorStatus

/-- Once a revert of the run is recorded, no skill of it is left that could be brought
back. -/
def nothingLeft (run : ReevalRun) (s : State) : Bool :=
  !s.runs.existsByRevertsRunID run.id ||
    run.items.all fun item =>
      match s.status? item.skillID with
      | none => true
      | some live => live = item.priorStatus || (transitionPath live item.priorStatus).isNone

/-- What is counted after some calls: a skill that is back has been counted once. -/
structure Tallied (run : ReevalRun) (s : State) (back : SkillID → Prop) (s' : State) : Prop where
  recorded : run ∈ s'.runs.rows
  counted : ∀ id, back id → s'.rollbacks id = s.rollbacks id + 1
  stays : ∀ id, back id → ∃ item ∈ run.items, item.skillID = id ∧
    s'.status? id = some item.priorStatus
  uncounted : ∀ id, ¬back id → s'.rollbacks id = s.rollbacks id

theorem Tallied.call {back : SkillID → Prop} (h : Tallied run s back s₁)
    (hdistinct : (run.items.map ReevalRunItem.skillID).Nodup) (hcalled : Called run s₁ s')
    (hleft : nothingLeft run s₁ = true) :
    Tallied run s (fun id => back id ∨ BroughtBack run id s₁ s') s' := by
  -- A skill that this call has brought back is counted by it.
  have hcount : ∀ id, BroughtBack run id s₁ s' → s'.rollbacks id = s₁.rollbacks id + 1 := by
    rintro id ⟨item, hitem, rfl, haway, hback⟩
    obtain ⟨⟨live, hlive, hpath⟩, hrollbacks⟩ := (hcalled.each item hitem).back haway hback
    have hopen : s₁.runs.existsByRevertsRunID run.id = false := by
      by_contra hrecorded
      simp only [nothingLeft, Bool.or_eq_true, Bool.not_eq_true', List.all_eq_true] at hleft
      have hnone := hleft.resolve_left hrecorded item hitem
      rw [show s₁.status? item.skillID = some live from hlive] at hnone
      simp only [Bool.or_eq_true, decide_eq_true_eq, Option.isNone_iff_eq_none] at hnone
      rcases hnone with hsame | hnopath
      · exact haway (hsame ▸ hlive)
      · rw [hnopath] at hpath
        cases hpath
    rw [hopen] at hrollbacks
    exact hrollbacks
  have hsame : ∀ id, ¬BroughtBack run id s₁ s' → s'.rollbacks id = s₁.rollbacks id := by
    intro id hnot
    by_cases hid : id ∈ run.items.map ReevalRunItem.skillID
    · obtain ⟨item, hitem, rfl⟩ := List.mem_map.mp hid
      refine (hcalled.each item hitem).uncounted ?_
      by_contra hboth
      rw [not_or, not_not] at hboth
      exact hnot ⟨item, hitem, rfl, hboth.1, hboth.2⟩
    · exact congrArg rollbacksOf (hcalled.others id hid)
  -- A skill that was back before stays where it is.
  have hstays : ∀ id, back id → ¬BroughtBack run id s₁ s' ∧
      ∃ item ∈ run.items, item.skillID = id ∧ s'.status? id = some item.priorStatus := by
    intro id hback
    obtain ⟨item, hitem, rfl, hprior⟩ := h.stays id hback
    refine ⟨?_, item, hitem, rfl, (hcalled.each item hitem).kept hprior⟩
    rintro ⟨item', hitem', hid, haway, -⟩
    rw [List.inj_on_of_nodup_map hdistinct hitem' hitem hid] at haway
    exact haway hprior
  refine ⟨hcalled.recorded, ?_, ?_, ?_⟩
  · rintro id (hback | hnew)
    · rw [hsame id (hstays id hback).1, h.counted id hback]
    · rw [hcount id hnew, h.uncounted id fun hback => (hstays id hback).1 hnew]
  · rintro id (hback | ⟨item, hitem, hid, -, hprior⟩)
    · exact (hstays id hback).2
    · exact ⟨item, hitem, hid, hprior⟩
  · intro id hnot
    rw [not_or] at hnot
    rw [hsame id hnot.2, h.uncounted id hnot.1]

/-- In every sequence of reverts of a run of distinct skills in which, whenever a revert is
recorded already, no skill is left to be brought back: a skill that some call has brought
back is counted once, and any other one not at all. -/
theorem rollbacks_counted_once (env : Nat → Bool × Choice) (run : ReevalRun) (s : State) (k : Nat)
    (hrun : run ∈ s.runs.rows) (hdistinct : (run.items.map ReevalRunItem.skillID).Nodup)
    (hspared : ∀ j < k, SparedCall env run.id (afterReverts env run.id s j))
    (hleft : ∀ j < k, nothingLeft run (afterReverts env run.id s j).2 = true) (id : SkillID) :
    ((∃ j < k, BroughtBack run id (afterReverts env run.id s j).2
        (afterReverts env run.id s (j + 1)).2) →
      (afterReverts env run.id s k).2.rollbacks id = s.rollbacks id + 1) ∧
    ((∀ j < k, ¬BroughtBack run id (afterReverts env run.id s j).2
        (afterReverts env run.id s (j + 1)).2) →
      (afterReverts env run.id s k).2.rollbacks id = s.rollbacks id) := by
  have htally : Tallied run s (fun id => ∃ j < k, BroughtBack run id
      (afterReverts env run.id s j).2 (afterReverts env run.id s (j + 1)).2)
      (afterReverts env run.id s k).2 := by
    induction k with
    | zero => exact ⟨hrun, by simp, by simp, fun _ _ => rfl⟩
    | succ k ih =>
      have hprev := ih (fun j hj => hspared j (Nat.lt_succ_of_lt hj))
        fun j hj => hleft j (Nat.lt_succ_of_lt hj)
      have hcalled : Called run (afterReverts env run.id s k).2
          (afterReverts env run.id s (k + 1)).2 := by
        rw [afterReverts_succ]
        exact (eval_of_does (revert_tries hprev.recorded hdistinct)
          (hspared k (Nat.lt_succ_self k))).2
      have hnext := hprev.call hdistinct hcalled (hleft k (Nat.lt_succ_self k))
      simpa only [Nat.exists_lt_succ_right] using hnext
  refine ⟨htally.counted id, fun hnone => htally.uncounted id ?_⟩
  rintro ⟨j, hj, hback⟩
  exact hnone j hj hback

def appliedSkills : State where
  skills := ⟨[namedSkill 1 "a" .active, namedSkill 2 "b" .deprecated], by decide, by decide⟩
  runs := ⟨[sampleRun], by simp, by simp⟩

def failsAt (failing : Option Nat) (n : Nat) : Bool × Choice :=
  (failing = some n, countingEnv (100 + n))

theorem rollbacks_counted_appliedSkills :
    BroughtBack sampleRun ⟨1⟩ appliedSkills
        (afterReverts (failsAt none) sampleRun.id appliedSkills 1).2 ∧
      (afterReverts (failsAt none) sampleRun.id appliedSkills 2).2.rollbacks ⟨1⟩ =
        appliedSkills.rollbacks ⟨1⟩ + 1 := by
  have hback : BroughtBack sampleRun ⟨1⟩ appliedSkills
      (afterReverts (failsAt none) sampleRun.id appliedSkills 1).2 := by
    unfold BroughtBack
    decide +kernel
  refine ⟨hback, (rollbacks_counted_once (failsAt none) sampleRun appliedSkills 2 (by decide)
    (by decide) ?_ (by decide +kernel) ⟨1⟩).1 ⟨0, Nat.zero_lt_two, hback⟩⟩
  unfold SparedCall
  decide +kernel

/-- The first hop of the first skill fails in the first call; the second call brings the
skill back, and its rollback is not counted. -/
theorem rollback_uncounted :
    (∀ j < 2, SparedCall (failsAt (some 4)) sampleRun.id
      (afterReverts (failsAt (some 4)) sampleRun.id appliedSkills j)) ∧
    BroughtBack sampleRun ⟨1⟩ (afterReverts (failsAt (some 4)) sampleRun.id appliedSkills 1).2
      (afterReverts (failsAt (some 4)) sampleRun.id appliedSkills 2).2 ∧
    (afterReverts (failsAt (some 4)) sampleRun.id appliedSkills 2).2.rollbacks ⟨1⟩ =
      appliedSkills.rollbacks ⟨1⟩ := by
  unfold SparedCall BroughtBack
  decide +kernel

end SophiaOrchestrator.Skills.Learning
