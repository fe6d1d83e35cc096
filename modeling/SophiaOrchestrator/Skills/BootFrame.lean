import SophiaOrchestrator.Skills.Reevaluation

/-!
# What a boot leaves of the skills

At every boot the seeder upserts the canonical skills.  The upsert replaces the whole row
with the same name and version, so that what was learned or edited since the last boot is
reset.
-/

namespace SophiaOrchestrator.Skills.Learning

open Effects Prog

variable {rows : List SkillRow} {t t' : SkillTable} {row : SkillRow} {d : SeedDef} {s : State}
  {defs : List SeedDef} {env : Nat → Choice}

/-! ## Who writes whole rows -/

def seedKey (d : SeedDef) : String × String :=
  (d.name, "v1")

def seedID (d : SeedDef) : SkillID :=
  .ofText d.rawID

/-- A whole row is a seed, or has the id of a row that was read. -/
def Sourced : History → Prop
  | ⟨.upsert row, _⟩ :: past =>
    (∃ d ∈ seedDefs, ∃ now, row = d.row now) ∨
      ∃ id read, ⟨.findByID id, .ok read⟩ ∈ past ∧ row.id = read.id
  | _ => True

theorem seedSkills_eq : seedSkills =
    (Clock.now >>= fun now => upsertAll (seedDefs.map (SeedDef.row now))) := by
  unfold seedSkills
  simp only [buildSeedSkills_eq]

theorem upsertAll_sourced (hrows : ∀ row ∈ rows, ∃ d ∈ seedDefs, ∃ now, row = d.row now)
    (h : History) :
    (upsertAll rows).wp (histSem fun _ _ => True) Sourced (fun _ _ => True) h := by
  induction rows generalizing h with
  | nil => trivial
  | cons row rest ih =>
    refine wp_perform_bind (fun _ _ => .inl (hrows row List.mem_cons_self)) fun answer _ => ?_
    cases answer with
    | error err => trivial
    | ok _ => exact ih (fun row' hrow' => hrows row' (List.mem_cons_of_mem _ hrow')) _

theorem editSkill_sourced (id : SkillID) (edit : Edit) (h : History) :
    (editSkill id edit).wp (histSem fun _ _ => True) Sourced (fun _ _ => True) h := by
  refine wp_perform_bind (fun _ _ => trivial) fun answer _ => ?_
  cases answer with
  | error err => trivial
  | ok sk =>
    refine wp_perform_bind (fun _ _ => trivial) fun now _ => ?_
    split
    · trivial
    · next sk' hupdate =>
      refine wp_perform_bind (fun _ _ => ?_) fun _ _ => trivial
      exact .inr ⟨id, sk, by simp, SkillRow.id_update hupdate⟩

theorem sourced_of_guarded {h : History} (hguarded : Guarded h) : Sourced h := by
  cases h with
  | nil => trivial
  | cons ev past =>
    obtain ⟨op, answer⟩ := ev
    cases op with
    | upsert row => exact hguarded.elim
    | _ => trivial

theorem main_sourced (call : Call) :
    (main call).wp (histSem fun _ _ => True) Sourced (fun _ _ => True) [] := by
  by_cases hcall : call.patches = true
  · exact wp_mono (main_guards call hcall []) (fun _ => sourced_of_guarded) fun _ _ => id
  · cases call with
    | seedSkills =>
      refine wp_bind ?_
      rw [seedSkills_eq]
      refine wp_perform_bind (fun _ _ => trivial) fun now _ => ?_
      refine upsertAll_sourced (fun row hrow => ?_) _
      obtain ⟨d, hd, rfl⟩ := List.mem_map.mp hrow
      exact ⟨d, hd, now, rfl⟩
    | editSkill id edit => exact editSkill_sourced id edit []
    | _ => exact absurd rfl hcall

/-! ## The ids of the seeds -/

def identities (t : SkillTable) : List (SkillID × String × String) :=
  t.rows.map fun row => (row.id, skillKey row)

theorem mem_identities (hrow : row ∈ t.rows) :
    (row.id, skillKey row) ∈ identities t :=
  List.mem_map.mpr ⟨row, hrow, rfl⟩

/-- A row has the key of a seed exactly if it has its id. -/
def Identified (t : SkillTable) : Prop :=
  ∀ p ∈ identities t, ∀ d ∈ seedDefs, p.2 = seedKey d ↔ p.1 = seedID d

theorem seedKey_eq_iff {d' : SeedDef} (hd : d ∈ seedDefs) (hd' : d' ∈ seedDefs) :
    seedKey d = seedKey d' ↔ seedID d = seedID d' := by
  constructor
  · intro hkey
    have hname : d.name = d'.name := congrArg Prod.fst hkey
    rw [List.inj_on_of_nodup_map seedNames_nodup hd hd' hname]
  · intro hid
    rw [List.inj_on_of_nodup_map seedIDs_nodup hd hd' hid]

/-- The identities after a step: none is lost, and only seeds are added. -/
structure KeepsIdentities (t t' : SkillTable) : Prop where
  kept : ∀ p ∈ identities t, p ∈ identities t'
  added : ∀ p ∈ identities t', p ∈ identities t ∨ ∃ d ∈ seedDefs, p = (seedID d, seedKey d)

theorem keepsIdentities_of_eq (h : identities t' = identities t) :
    KeepsIdentities t t' where
  kept _ hp := h ▸ hp
  added _ hp := .inl (h ▸ hp)

theorem KeepsIdentities.identified (h : KeepsIdentities t t') (hid : Identified t) :
    Identified t' := by
  intro p hp d hd
  rcases h.added p hp with hold | ⟨d', hd', rfl⟩
  · exact hid p hold d hd
  · exact seedKey_eq_iff hd' hd

theorem identities_updateRow {id : SkillID} {set : SkillRow → SkillRow}
    {hkey : ∀ row, skillKey (set row) = skillKey row} {hid : ∀ row, (set row).id = row.id}
    (h : t.updateRow id set hkey hid = .ok t') : identities t' = identities t := by
  unfold identities
  rw [SkillTable.rows_updateRow h, List.map_map]
  refine List.map_congr_left fun row _ => ?_
  simp only [Function.comp_apply]
  split
  · rw [hid, hkey]
  · rfl

theorem identities_upsert {s old : SkillRow} (h : t.upsert s = .ok t') (hold : old ∈ t.rows)
    (hid : old.id = s.id) (hkey : skillKey old = skillKey s) :
    identities t' = identities t := by
  rcases (SkillTable.upsert_eq_ok h).2 with ⟨habsent, -⟩ | ⟨-, hrows⟩
  · exact absurd hkey (habsent old hold)
  · unfold identities
    rw [hrows, List.map_map]
    refine List.map_congr_left fun row hrow => ?_
    simp only [Function.comp_apply, Sql.Table.Replacement.onRow]
    split
    · next heq =>
      rw [t.eq_of_target_eq hrow hold (heq.trans hkey.symm)]
      exact Prod.ext hid.symm hkey.symm
    · rfl

theorem upsert_seed (hidentified : Identified t) (hd : d ∈ seedDefs) (now : Time) :
    ∃ t', t.upsert (d.row now) = .ok t' ∧ KeepsIdentities t t' := by
  rcases t.replace_cases excluded (d.row now).stored with
    ⟨⟨row, hrow, hkey, hid⟩, -⟩ | ⟨-, t', hsome, hcases⟩
  · exact absurd ((hidentified _ (mem_identities hrow) d hd).mpr hid) hkey
  · have hupsert : t.upsert (d.row now) = .ok t' := by
      unfold SkillTable.upsert
      rw [hsome]
    refine ⟨t', hupsert, ?_⟩
    rcases hcases with ⟨-, hrows⟩ | ⟨⟨old, hold, hkey⟩, -⟩
    · have hnew : identities t' = identities t ++ [(seedID d, seedKey d)] := by
        unfold identities
        rw [hrows, List.map_append]
        rfl
      refine ⟨fun p hp => hnew ▸ List.mem_append_left _ hp, fun p hp => ?_⟩
      rw [hnew, List.mem_append, List.mem_singleton] at hp
      exact hp.imp id fun heq => ⟨d, hd, heq⟩
    · refine keepsIdentities_of_eq (identities_upsert hupsert hold ?_ hkey)
      exact (hidentified _ (mem_identities hold) d hd).mp hkey

structure Known (D : Log Op Op.Ret) (t : SkillTable) : Prop where
  identified : Identified t
  stays : ∀ tid id read, D tid ⟨.findByID id, .ok read⟩ → (read.id, skillKey read) ∈ identities t

theorem keepsIdentities_handle {D : Log Op Op.Ret} {tid : Nat} {op : Op} {ch : Choice}
    {hist : History} (hhist : ∀ ev ∈ hist, D tid ev)
    (hsourced : Sourced (⟨op, (handle op ch s).1⟩ :: hist)) (hknown : Known D s.skills) :
    KeepsIdentities s.skills (handle op ch s).2.skills := by
  rcases handle_skills op ch s with
    hsame | ⟨row, rfl, hupsert⟩ | ⟨id, delta, now, rfl, hpatch⟩ | ⟨id, status, now, rfl, hpatch⟩
  · exact keepsIdentities_of_eq (by rw [hsame])
  · rcases hsourced with ⟨d, hd, now, rfl⟩ | ⟨id, read, hread, hid⟩
    · obtain ⟨t', ht', hkeeps⟩ := upsert_seed hknown.identified hd now
      rw [Except.ok.inj (hupsert.symm.trans ht')]
      exact hkeeps
    · obtain ⟨old, hold, heq⟩ := List.mem_map.mp (hknown.stays tid id read (hhist _ hread))
      have hold_id : old.id = row.id := (congrArg Prod.fst heq).trans hid.symm
      have hold_key : skillKey old = skillKey row := by
        by_contra hne
        exact (SkillTable.upsert_eq_ok hupsert).1 old hold hne hold_id
      exact keepsIdentities_of_eq (identities_upsert hupsert hold hold_id hold_key)
  · exact keepsIdentities_of_eq (identities_updateRow hpatch)
  · exact keepsIdentities_of_eq (identities_updateRow hpatch)

theorem reach_known (hempty : s.skills = .empty) (moves : List (Move Call Choice)) :
    Pool.LogInv (fun _ _ => True) (fun _ => Sourced) (fun D _ s => Known D s.skills)
      (reach s moves) := by
  refine Pool.log_induction (fun _ _ _ => trivial) main_sourced (fun _ _ hinv => hinv) ?step ?init
    moves (Pool.meets_eachStep_true handler main (Pool.init s) moves)
  case init =>
    refine ⟨?_, fun _ _ _ hread => hread.elim⟩
    rw [hempty]
    intro p hp
    cases hp
  case step =>
    intro D tid ch request op hist s hhist _ _ hsourced _ hknown
    have hkeeps := keepsIdentities_handle (fun ev hev => (hhist ev).mpr hev) hsourced hknown
    refine ⟨hkeeps.identified hknown.identified, ?_⟩
    rintro i id read (hread | ⟨-, hnew⟩)
    · exact hkeeps.kept _ (hknown.stays i id read hread)
    · obtain rfl : Op.findByID id = op := congrArg Ev.op hnew
      have hanswer : ch.fault.read (s.skills.findByID id) = .ok read :=
        (eq_of_heq (Ev.mk.inj hnew).2).symm
      have hfound := SkillTable.findByID_eq_ok.mp (Fault.read_eq_ok hanswer)
      exact mem_identities hfound.1

/-- Whatever ran, a row with the key of a seed has its id, and no other row has it. -/
theorem reach_identified (hempty : s.skills = .empty) (moves : List (Move Call Choice)) :
    Identified (reach s moves).state.skills :=
  (reach_known hempty moves).holds.identified

/-! ## A boot -/

def seedRow (d : SeedDef) (now createdAt : Time) : SkillRow :=
  { (d.row now).stored with createdAt := createdAt }

theorem key_seedRow (d : SeedDef) (now createdAt : Time) :
    skillKey (seedRow d now createdAt) = seedKey d := rfl

theorem id_seedRow (d : SeedDef) (now createdAt : Time) :
    (seedRow d now createdAt).id = seedID d := rfl

theorem status_seedRow (d : SeedDef) (now createdAt : Time) :
    (seedRow d now createdAt).status = .active := rfl

/-- Some seeds have been upserted: their rows hold them, and were created when they were
first inserted; every other row is as it was. -/
structure Seeded (defs : List SeedDef) (now : Time) (t t' : SkillTable) : Prop where
  others : ∀ row, (∀ d ∈ defs, skillKey row ≠ seedKey d) → (row ∈ t'.rows ↔ row ∈ t.rows)
  seeds : ∀ d ∈ defs, ∃ createdAt, seedRow d now createdAt ∈ t'.rows ∧
    ∀ row ∈ t.rows, skillKey row = seedKey d → row.createdAt = createdAt

theorem Seeded.cons {now : Time} {t₁ : SkillTable} (hnodup : ((d :: defs).map SeedDef.name).Nodup)
    (hupsert : t.upsert (d.row now) = .ok t₁) (h : Seeded defs now t₁ t') :
    Seeded (d :: defs) now t t' := by
  have hkeys : ∀ d' ∈ defs, seedKey d ≠ seedKey d' := by
    intro d' hd' heq
    have hname : d.name = d'.name := congrArg Prod.fst heq
    exact (List.nodup_cons.mp hnodup).1 (hname ▸ List.mem_map_of_mem hd')
  constructor
  · intro row hrow
    rw [h.others row fun d' hd' => hrow d' (List.mem_cons_of_mem _ hd')]
    exact SkillTable.mem_upsert_of_ne hupsert (hrow d List.mem_cons_self)
  · intro d' hd'
    rcases List.mem_cons.mp hd' with rfl | hrest
    · obtain ⟨createdAt, hmem, hcreated⟩ := SkillTable.exists_of_upsert hupsert
      exact ⟨createdAt, (h.others (seedRow d' now createdAt) hkeys).mpr hmem, hcreated⟩
    · obtain ⟨createdAt, hmem, hcreated⟩ := h.seeds d' hrest
      refine ⟨createdAt, hmem, fun row hrow hkey => hcreated row ?_ hkey⟩
      refine (SkillTable.mem_upsert_of_ne hupsert fun heq => ?_).mpr hrow
      exact hkeys d' hrest (heq.symm.trans hkey)

theorem eval_upsertAll_cons {n : Nat} {s' : State}
    (hrun : handle (.upsert row) (env n) s = (.ok (), s')) :
    (endOf (upsertAll (row :: rows)) env n s).value =
        (endOf (upsertAll rows) env (n + 1) s').value ∧
      (endOf (upsertAll (row :: rows)) env n s).state =
        (endOf (upsertAll rows) env (n + 1) s').state := by
  have hfirst : endOf (SkillRepo.upsert row) env n s =
      ⟨(handle (.upsert row) (env n) s).1, (handle (.upsert row) (env n) s).2, n + 1,
        [⟨.upsert row, (handle (.upsert row) (env n) s).1⟩]⟩ := rfl
  rw [hrun] at hfirst
  simp only [upsertAll, endOf, eval_bind]
  rw [show eval handler (fun _ => false) env (SkillRepo.upsert row) n s = _ from hfirst]
  exact ⟨rfl, rfl⟩

theorem eval_upsertAll (henv : ∀ n, (env n).fault = .none) (hdefs : ∀ d ∈ defs, d ∈ seedDefs)
    (hnodup : (defs.map SeedDef.name).Nodup) (now : Time) (n : Nat)
    (hidentified : Identified s.skills) :
    (endOf (upsertAll (defs.map (SeedDef.row now))) env n s).value = .ok () ∧
      Seeded defs now s.skills
        (endOf (upsertAll (defs.map (SeedDef.row now))) env n s).state.skills := by
  induction defs generalizing n s with
  | nil => exact ⟨rfl, fun _ _ => Iff.rfl, fun d hd => absurd hd List.not_mem_nil⟩
  | cons d defs ih =>
    obtain ⟨t₁, hupsert, hkeeps⟩ := upsert_seed hidentified (hdefs d List.mem_cons_self) now
    have hrun : handle (.upsert (d.row now)) (env n) s = (.ok (), { s with skills := t₁ }) := by
      simp only [handle, henv, hupsert, Except.map, Fault.write]
      rfl
    obtain ⟨hvalue, hseeded⟩ := ih (fun d' hd' => hdefs d' (List.mem_cons_of_mem _ hd'))
      (List.nodup_cons.mp hnodup).2 (n + 1) (s := { s with skills := t₁ })
      (hkeeps.identified hidentified)
    rw [List.map_cons, (eval_upsertAll_cons hrun).1, (eval_upsertAll_cons hrun).2]
    exact ⟨hvalue, hseeded.cons hnodup hupsert⟩

theorem eval_seedSkills (env : Nat → Choice) (n : Nat) (s : State) :
    (endOf seedSkills env n s).value =
        (endOf (upsertAll (seedDefs.map (SeedDef.row (env n).now))) env (n + 1) s).value ∧
      (endOf seedSkills env n s).state =
        (endOf (upsertAll (seedDefs.map (SeedDef.row (env n).now))) env (n + 1) s).state := by
  rw [seedSkills_eq]
  exact ⟨rfl, rfl⟩

theorem boot_seeded (henv : ∀ n, (env n).fault = .none) (hidentified : Identified s.skills) :
    (endOf seedSkills env 0 s).value = .ok () ∧
      Seeded seedDefs (env 0).now s.skills (endOf seedSkills env 0 s).state.skills := by
  rw [(eval_seedSkills env 0 s).1, (eval_seedSkills env 0 s).2]
  exact eval_upsertAll henv (fun _ => id) seedNames_nodup (env 0).now 1 hidentified

/-- Whatever ran before, a boot whose statements succeed leaves every row alone that is not
seeded.  A seeded row keeps its id and the time of its creation; all else of it becomes the
canonical skill, so the only status that a boot changes is the one of a seeded row, to
active. -/
theorem reseeding (s₀ : State) (hempty : s₀.skills = .empty) (moves : List (Move Call Choice))
    (env : Nat → Choice) (henv : ∀ n, (env n).fault = .none) :
    let s := (reach s₀ moves).state
    let boot := endOf seedSkills env 0 s
    boot.value = .ok () ∧
      (∀ row, (∀ d ∈ seedDefs, skillKey row ≠ seedKey d) →
        (row ∈ boot.state.skills.rows ↔ row ∈ s.skills.rows)) ∧
      (∀ d ∈ seedDefs, ∃ createdAt, seedRow d (env 0).now createdAt ∈ boot.state.skills.rows) ∧
      (∀ d ∈ seedDefs, ∀ old ∈ s.skills.rows, skillKey old = seedKey d →
        ∀ row ∈ boot.state.skills.rows, skillKey row = seedKey d →
          row = seedRow d (env 0).now old.createdAt ∧ row.id = old.id) ∧
      ∀ old ∈ s.skills.rows, ∀ row ∈ boot.state.skills.rows, row.id = old.id →
        row.status ≠ old.status →
          row.status = .active ∧ ∃ d ∈ seedDefs, skillKey old = seedKey d := by
  intro s boot
  have hidentified : Identified s.skills := reach_identified hempty moves
  obtain ⟨hvalue, hseeded⟩ : boot.value = .ok () ∧
      Seeded seedDefs (env 0).now s.skills boot.state.skills := boot_seeded henv hidentified
  clear_value boot
  have hreplaced : ∀ d ∈ seedDefs, ∀ old ∈ s.skills.rows, skillKey old = seedKey d →
      ∀ row ∈ boot.state.skills.rows, skillKey row = seedKey d →
        row = seedRow d (env 0).now old.createdAt ∧ row.id = old.id := by
    intro d hd old hold hkey row hrow hrowKey
    obtain ⟨createdAt, hmem, hcreated⟩ := hseeded.seeds d hd
    have heq : row = seedRow d (env 0).now createdAt :=
      boot.state.skills.eq_of_target_eq hrow hmem (hrowKey.trans (key_seedRow ..).symm)
    rw [← hcreated old hold hkey] at heq
    have hid : old.id = seedID d := (hidentified _ (mem_identities hold) d hd).mp hkey
    exact ⟨heq, by rw [heq, hid, id_seedRow]⟩
  refine ⟨hvalue, hseeded.others, fun d hd => ?_, hreplaced, ?_⟩
  · obtain ⟨createdAt, hmem, -⟩ := hseeded.seeds d hd
    exact ⟨createdAt, hmem⟩
  · intro old hold row hrow hid hstatus
    by_cases hseed : ∃ d ∈ seedDefs, skillKey old = seedKey d
    · obtain ⟨d, hd, hkey⟩ := hseed
      obtain ⟨createdAt, hmem, -⟩ := hseeded.seeds d hd
      have hold_id : old.id = seedID d := (hidentified _ (mem_identities hold) d hd).mp hkey
      have heq : row = seedRow d (env 0).now createdAt :=
        boot.state.skills.eq_of_other_eq hrow hmem
          ((hid.trans hold_id).trans (id_seedRow ..).symm)
      exact ⟨by rw [heq, status_seedRow], d, hd, hkey⟩
    · have hstays := (hseeded.others old fun d hd hkey => hseed ⟨d, hd, hkey⟩).mpr hold
      exact absurd (by rw [boot.state.skills.eq_of_other_eq hrow hstays hid]) hstatus

/-! ## What a boot forgets -/

def firstSeed : SkillID :=
  .ofText "01JXSKLLP000000000000000IN"

def wholeCall (tid : Nat) (request : Call) (steps : Nat) : List (Move Call Choice) :=
  .start request :: List.replicate steps (.step tid { now := 1000 * (tid + 1) })

/-- The skills are seeded; then one of them is edited and used, and its status changes until
it is blocked. -/
def learned : List (Move Call Choice) :=
  wholeCall 0 .seedSkills 10 ++
  wholeCall 1 (.editSkill firstSeed
    { name := "init-bootstrap-context", phases := [.init], content := "edited"
      techniques := [.inlineWhy] }) 3 ++
  wholeCall 2 (.patchMetrics (some firstSeed) { usageDelta := 1 }) 2 ++
  wholeCall 3 (.patchStatus (some firstSeed) .blocked) 3 ++
  wholeCall 4 (.patchStatus (some firstSeed) .candidate) 3 ++
  wholeCall 5 (.patchStatus (some firstSeed) .validated) 3 ++
  wholeCall 6 (.patchStatus (some firstSeed) .blocked) 3

def nextBoot (_ : Nat) : Choice where
  now := 9000

theorem nextBoot_fault (n : Nat) : (nextBoot n).fault = .none := rfl

/-- The programs of the calls, where the seeds are already built. -/
def mainBuilt : Call → Program Unit
  | .seedSkills => do
    let now ← Clock.now
    let _ ← upsertAll (seedDefs.map (SeedDef.row now))
  | request => main request

theorem main_eq_mainBuilt : main = mainBuilt := by
  funext request
  cases request with
  | seedSkills =>
    simp only [main, mainBuilt, seedSkills_eq]
    rfl
  | _ => rfl

def lesson (s : State) : List (Status × Metrics × Option Time × Option Time) :=
  (s.skills.rows.filter fun row => row.id = firstSeed).map fun row =>
    (row.status, row.metrics, row.lastUsedAt, row.lastValidatedAt)

theorem ofList_cons_ne {c c' : Char} {cs cs' : List Char} (h : c ≠ c') :
    String.ofList (c :: cs) ≠ String.ofList (c' :: cs') := by
  intro heq
  have hlist := congrArg String.toList heq
  rw [String.toList_ofList, String.toList_ofList] at hlist
  exact h (List.cons.inj hlist).1

set_option maxRecDepth 8000 in
theorem exists_firstSeed : ∃ d ∈ seedDefs, seedID d = firstSeed ∧ d.content ≠ "edited" :=
  ⟨_, List.mem_cons_self, rfl, ofList_cons_ne (by decide)⟩

theorem lesson_learned : lesson (reach {} learned).state =
    [(.blocked, { usageCount := 1 }, some 3000, some 6000)] := by
  rw [reach, main_eq_mainBuilt]
  decide +kernel

theorem edited_learned : ∃ row ∈ (reach {} learned).state.skills.rows,
    row.id = firstSeed ∧ row.content = "edited" := by
  have hedited : ((reach {} learned).state.skills.rows.any fun row =>
      row.id = firstSeed ∧ row.content = "edited") = true := by
    rw [reach, main_eq_mainBuilt]
    decide +kernel
  obtain ⟨row, hrow, hfound⟩ := List.any_eq_true.mp hedited
  exact ⟨row, hrow, of_decide_eq_true hfound⟩

theorem reseeding_learned :
    ({} : State).skills = .empty ∧ (∀ n, (nextBoot n).fault = .none) ∧
      (endOf seedSkills nextBoot 0 (reach {} learned).state).value = .ok () :=
  ⟨rfl, nextBoot_fault, (reseeding {} rfl learned nextBoot nextBoot_fault).1⟩

/-- A boot takes a blocked skill back to active, which is not an edge of the lifecycle graph,
and forgets its metrics, the times of its use and validation, and its edited content. -/
theorem reseeding_resets :
    let s := (reach {} learned).state
    let boot := endOf seedSkills nextBoot 0 s
    lesson s = [(.blocked, { usageCount := 1 }, some 3000, some 6000)] ∧
      lesson boot.state = [(.active, {}, none, none)] ∧
      ¬Allowed .blocked .active ∧
      ∃ old ∈ s.skills.rows, ∃ row ∈ boot.state.skills.rows,
        old.id = firstSeed ∧ row.id = firstSeed ∧
          old.content = "edited" ∧ row.content ≠ "edited" := by
  have hbooted := boot_seeded nextBoot_fault (reach_identified (s := {}) rfl learned)
  have hlesson : lesson (endOf seedSkills nextBoot 0 (reach {} learned).state).state =
      [(.active, {}, none, none)] := by
    rw [(eval_seedSkills nextBoot 0 _).2, reach, main_eq_mainBuilt]
    decide +kernel
  obtain ⟨old, hold, hid, hcontent⟩ := edited_learned
  obtain ⟨d, hd, hseed, hcanonical⟩ := exists_firstSeed
  obtain ⟨createdAt, hrow, -⟩ := hbooted.2.seeds d hd
  exact ⟨lesson_learned, hlesson, by decide, old, hold, _, hrow, hid,
    (id_seedRow ..).trans hseed, hcontent, hcanonical⟩

end SophiaOrchestrator.Skills.Learning
