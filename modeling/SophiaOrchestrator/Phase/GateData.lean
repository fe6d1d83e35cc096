import SophiaOrchestrator.Phase.Runs

/-!
# What a reloaded row tells the gates

The concerns of a phase are kept in a JSONB column and its confidence in one with two decimals.
The gates read both from the row again, so neither may be less than what was saved.
-/

namespace SophiaOrchestrator

variable {s s' : Store} {p : Phase}

/-! ## The column of the concerns -/

abbrev JsonMembers : Type := List (String × String)

def Concern.members (c : Concern) : JsonMembers :=
  [("severity", c.severity), ("category", c.category), ("message", c.message),
    ("evidence", c.evidence)]

/-- `marshalConcerns`; `none` is the SQL NULL. -/
def marshalConcerns : List Concern → Option (List JsonMembers)
  | [] => none
  | concerns => some (concerns.map Concern.members)

/-- How JSONB keeps an object: its members in an order of its own. -/
structure MemberOrder where
  order : JsonMembers → JsonMembers
  perm : ∀ members, (order members).Perm members

/-- What the column keeps of the array; a text with a NUL character is refused. -/
def jsonb (o : MemberOrder) (rows : List JsonMembers) : Except RepoErr (List JsonMembers) :=
  if rows.any fun row => row.any fun member => member.2.toList.contains '\x00' then
    .error .outOfRange
  else
    .ok (rows.map o.order)

def concernsColumn (o : MemberOrder) (concerns : List Concern) :
    Except RepoErr (Option (List JsonMembers)) :=
  match marshalConcerns concerns with
  | none => .ok none
  | some rows => (jsonb o rows).map some

/-- The value of a member that is decoded into a field; a missing one leaves it empty. -/
def fieldOf (members : JsonMembers) (key : String) : String :=
  ((members.reverse.find? fun member => member.1 == key).map (·.2)).getD ""

def unmarshalConcerns : Option (List JsonMembers) → List Concern
  | none => []
  | some rows => rows.map fun row =>
    ⟨fieldOf row "severity", fieldOf row "category", fieldOf row "message", fieldOf row "evidence"⟩

def Concern.NoNul (c : Concern) : Prop :=
  ∀ member ∈ c.members, '\x00' ∉ member.2.toList

theorem fieldOf_of_mem {members : JsonMembers} (hkeys : (members.map Prod.fst).Nodup)
    {key value : String} (hmem : (key, value) ∈ members) : fieldOf members key = value := by
  have hfound : (members.reverse.find? fun member => member.1 == key) = some (key, value) := by
    cases hfind : members.reverse.find? fun member => member.1 == key with
    | none =>
      have hnone := List.find?_eq_none.mp hfind (key, value) (List.mem_reverse.mpr hmem)
      simp at hnone
    | some member =>
      have hkey : member.1 = key := by simpa using List.find?_some hfind
      have hmember := List.mem_reverse.mp (List.mem_of_find?_eq_some hfind)
      rw [List.inj_on_of_nodup_map hkeys hmember hmem hkey]
  rw [fieldOf, hfound]
  rfl

theorem fieldOf_order (o : MemberOrder) (c : Concern) (key value : String)
    (hmem : (key, value) ∈ c.members) : fieldOf (o.order c.members) key = value := by
  have hperm := o.perm c.members
  refine fieldOf_of_mem ?_ (hperm.mem_iff.mpr hmem)
  exact (hperm.map Prod.fst).nodup_iff.mpr (by simp [Concern.members])

theorem concernsColumn_reload (o : MemberOrder) {concerns : List Concern}
    (hnul : ∀ c ∈ concerns, c.NoNul) :
    ∃ column, concernsColumn o concerns = .ok column ∧ unmarshalConcerns column = concerns := by
  have hread : unmarshalConcerns (some ((concerns.map Concern.members).map o.order)) =
    concerns := by
    rw [unmarshalConcerns, List.map_map, List.map_map]
    refine (List.map_congr_left fun c _ => ?_).trans (List.map_id _)
    simp only [Function.comp_apply]
    rw [fieldOf_order o c _ c.severity (by simp [Concern.members]),
      fieldOf_order o c _ c.category (by simp [Concern.members]),
      fieldOf_order o c _ c.message (by simp [Concern.members]),
      fieldOf_order o c _ c.evidence (by simp [Concern.members])]
    rfl
  cases concerns with
  | nil => exact ⟨none, rfl, rfl⟩
  | cons first rest =>
    have haccepted : (((first :: rest).map Concern.members).any fun row =>
        row.any fun member => member.2.toList.contains '\x00') = false := by
      simp only [List.any_eq_false, List.mem_map, forall_exists_index, and_imp,
        forall_apply_eq_imp_iff₂, Bool.not_eq_true, List.contains_eq_mem, decide_eq_false_iff_not]
      exact hnul
    have hcolumn : concernsColumn o (first :: rest) =
        (jsonb o ((first :: rest).map Concern.members)).map some := rfl
    refine ⟨_, ?_, hread⟩
    rw [hcolumn, jsonb, haccepted]
    rfl

/-! ## The confidence -/

theorem le_numeric32 {n : ℤ} {x : ℚ} (hn : 0 ≤ n) (h : mkRat n 100 ≤ x) :
    mkRat n 100 ≤ numeric32 x := by
  rw [Rat.mkRat_eq_div] at h ⊢
  have hn' : (0 : ℚ) ≤ n := by exact_mod_cast hn
  have hhundred : (n : ℚ) ≤ x * 100 := by
    have := (div_le_iff₀ (by norm_num : (0 : ℚ) < (100 : ℕ))).mp h
    simpa using this
  have hfloor : n ≤ ⌊x * 100 + mkRat 1 2⌋ := by
    rw [Int.le_floor]
    have hhalf : (0 : ℚ) ≤ mkRat 1 2 := by decide +kernel
    linarith
  have hx : 0 ≤ x := le_trans (by positivity) h
  rw [numeric32, if_pos hx, Rat.mkRat_eq_div]
  gcongr

/-- A confidence at or above the threshold of its type stays there when it is stored. -/
theorem threshold_le_numeric32 {pt : PhaseType} {x : ℚ} (h : pt.confidenceThreshold ≤ x) :
    pt.confidenceThreshold ≤ numeric32 x := by
  have hthreshold : ∃ n : ℤ, 0 ≤ n ∧ pt.confidenceThreshold = mkRat n 100 := by
    cases pt with
    | init => exact ⟨0, by decide, by decide +kernel⟩
    | explore => exact ⟨50, by decide, by decide +kernel⟩
    | proposal | design | apply => exact ⟨70, by decide, by decide +kernel⟩
    | spec | tasks => exact ⟨80, by decide, by decide +kernel⟩
    | verify | archive => exact ⟨90, by decide, by decide +kernel⟩
  obtain ⟨n, hn, heq⟩ := hthreshold
  rw [heq] at h ⊢
  exact le_numeric32 hn h

/-! ## Saving and reloading -/

/-- The row of a saved phase holds the concerns it was saved with, in their order, and a done
phase at or above the threshold of its type is still there when it is loaded again. -/
theorem savePhase_reload (o : MemberOrder) (hsave : s.savePhase p = .ok s')
    (hnul : ∀ c ∈ p.concerns, c.NoNul) :
    ∃ r column, s'.findPhase r.id = .ok r ∧ r.key = p.key ∧ r.status = p.status ∧
      concernsColumn o p.concerns = .ok column ∧ unmarshalConcerns column = p.concerns ∧
      r.concerns = p.concerns ∧
      (p.status = .done → p.pType.confidenceThreshold ≤ p.confidence →
        r.pType.confidenceThreshold ≤ r.confidence) := by
  obtain ⟨r, hr, hcolumns⟩ := Store.exists_row_of_savePhase hsave
  obtain ⟨column, hcolumn, hreload⟩ := concernsColumn_reload o hnul
  refine ⟨r, column, Store.findPhase_eq_ok_iff.mpr ⟨hr, rfl⟩, ?_, ?_, hcolumn, hreload, ?_, ?_⟩
  · rw [hcolumns]
    rfl
  · rw [hcolumns]
    rfl
  · rw [hcolumns]
    rfl
  · intro _ hthreshold
    rw [hcolumns]
    exact threshold_le_numeric32 hthreshold

/-- A concern of a done explore phase comes back with it. -/
theorem savePhase_reload_explore :
    ∃ (s' : Store) (r : Phase), s'.findPhase r.id = .ok r ∧
      r.concerns = [⟨"high", "scope", "too wide", ""⟩] ∧
      PhaseType.explore.confidenceThreshold ≤ r.confidence := by
  have hnul : Concern.NoNul ⟨"high", "scope", "too wide", ""⟩ := by
    simp [Concern.NoNul, Concern.members]
  let p : Phase := {
    id := ⟨7⟩
    changeID := ⟨1⟩
    pType := .explore
    status := .done
    retryBudget := 3
    attempts := 1
    confidence := mkRat 503 1000
    concerns := [⟨"high", "scope", "too wide", ""⟩] }
  obtain ⟨s', hsave⟩ : ∃ s', (sampleStore .init).savePhase p = .ok s' := by
    cases hsave : (sampleStore .init).savePhase p with
    | ok s' => exact ⟨s', rfl⟩
    | error err =>
      have hok : ((sampleStore .init).savePhase p).toOption.isSome = true := by decide +kernel
      rw [hsave] at hok
      cases hok
  obtain ⟨r, -, hfound, hkey, -, -, -, hconcerns, hconfidence⟩ :=
    savePhase_reload ⟨id, fun _ => .refl _⟩ hsave (by simpa [p] using hnul)
  have htype : r.pType = .explore := congrArg (fun key => key.2.1) hkey
  refine ⟨s', r, hfound, hconcerns, ?_⟩
  rw [← htype]
  exact hconfidence rfl (by decide +kernel)

end SophiaOrchestrator
