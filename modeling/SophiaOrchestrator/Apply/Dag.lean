import SophiaOrchestrator.Apply.Board
import SophiaOrchestrator.Graph.DepthFirst

/-!
# The check of the dependency graph

`ValidateDAG` is a depth-first search over the listed groups: it follows the dependencies on
listed groups, and ignores the others.
-/

namespace SophiaOrchestrator.Apply

variable {groups : List Group} {id : GroupID} {g : Group}

/-- The listed groups that the group with an id depends on. -/
def dependencies (groups : List Group) (id : GroupID) : List GroupID :=
  match groupByID groups id with
  | none => []
  | some g => g.dependsOn.filter fun dep => (groupByID groups dep).isSome

def DependsOnListed (groups : List Group) (id dep : GroupID) : Prop :=
  ∃ g ∈ groups, g.id = id ∧ dep ∈ g.dependsOn ∧ ∃ g' ∈ groups, g'.id = dep

/-! ## Groups by id -/

theorem mem_of_groupByID (h : groupByID groups id = some g) : g ∈ groups ∧ g.id = id := by
  unfold groupByID at h
  exact ⟨List.mem_reverse.mp (List.mem_of_find?_eq_some h), by simpa using List.find?_some h⟩

theorem groupByID_isSome_iff :
    (groupByID groups id).isSome = true ↔ ∃ g ∈ groups, g.id = id := by
  unfold groupByID
  rw [List.find?_isSome]
  simp

theorem groupByID_of_mem (hids : (groups.map fun g => g.id).Nodup) (hg : g ∈ groups) :
    groupByID groups g.id = some g := by
  cases hfound : groupByID groups g.id with
  | none =>
    have hsome : (groupByID groups g.id).isSome = true := groupByID_isSome_iff.mpr ⟨g, hg, rfl⟩
    rw [hfound] at hsome
    cases hsome
  | some g' =>
    obtain ⟨hmem, hid⟩ := mem_of_groupByID hfound
    rw [List.inj_on_of_nodup_map hids hmem hg hid]

theorem edge_dependencies_iff (hids : (groups.map fun g => g.id).Nodup) (id dep : GroupID) :
    Graph.Edge (dependencies groups) id dep ↔ DependsOnListed groups id dep := by
  unfold Graph.Edge dependencies
  constructor
  · intro h
    cases hfound : groupByID groups id with
    | none => simp [hfound] at h
    | some g =>
      obtain ⟨hg, hid⟩ := mem_of_groupByID hfound
      rw [hfound] at h
      obtain ⟨hdep, hlisted⟩ := List.mem_filter.mp h
      exact ⟨g, hg, hid, hdep, groupByID_isSome_iff.mp hlisted⟩
  · rintro ⟨g, hg, rfl, hdep, hlisted⟩
    rw [groupByID_of_mem hids hg]
    exact List.mem_filter.mpr ⟨hdep, groupByID_isSome_iff.mpr hlisted⟩

/-! ## The recursion -/

def VisitMark.mark : VisitMark → Graph.Mark
  | .unseen => .unseen
  | .visiting => .visiting
  | .done => .done

def marks (state : GroupID → VisitMark) : GroupID → Graph.Mark :=
  fun id => (state id).mark

theorem marks_update (state : GroupID → VisitMark) (id : GroupID) (mark : VisitMark) :
    marks (Function.update state id mark) = Function.update (marks state) id mark.mark := by
  funext id'
  by_cases hid : id' = id
  · simp [marks, hid]
  · simp [marks, hid]

def searched (result : Except BoardErr (GroupID → VisitMark)) : Option (GroupID → Graph.Mark) :=
  result.toOption.map marks

/-- The loop over the dependencies of a group skips the ones that are not listed. -/
theorem searched_foldlM
    {visit : (GroupID → VisitMark) → Group → Except BoardErr (GroupID → VisitMark)}
    {visit' : (GroupID → Graph.Mark) → GroupID → Option (GroupID → Graph.Mark)}
    (hvisit : ∀ state, ∀ g ∈ groups, searched (visit state g) = visit' (marks state) g.id)
    (deps : List GroupID) (state : GroupID → VisitMark) :
    searched (deps.foldlM (fun state depID =>
        match groupByID groups depID with
        | none => .ok state
        | some dep => visit state dep) state) =
      (deps.filter fun dep => (groupByID groups dep).isSome).foldlM visit' (marks state) := by
  induction deps generalizing state with
  | nil => rfl
  | cons dep deps ih =>
    cases hfound : groupByID groups dep with
    | none =>
      rw [List.foldlM_cons, List.filter_cons_of_neg (by simp [hfound])]
      simp only [hfound]
      exact ih state
    | some g =>
      obtain ⟨hg, rfl⟩ := mem_of_groupByID hfound
      rw [List.foldlM_cons, List.filter_cons_of_pos (by simp [hfound]), List.foldlM_cons]
      simp only [hfound]
      rw [← hvisit state g hg]
      cases visit state g with
      | error err => rfl
      | ok state' => exact ih state'

/-- The recursion of `ValidateDAG` is the general search on the ids. -/
theorem visit_eq (hids : (groups.map fun g => g.id).Nodup) (depth : Nat)
    (state : GroupID → VisitMark) (hg : g ∈ groups) :
    searched (visit groups depth state g) =
      Graph.visit (dependencies groups) depth (marks state) g.id := by
  induction depth generalizing state g with
  | zero => rfl
  | succ depth ih =>
    unfold visit Graph.visit
    cases hmark : state g.id with
    | visiting => rw [show marks state g.id = .visiting by rw [marks, hmark]; rfl]; rfl
    | done => rw [show marks state g.id = .done by rw [marks, hmark]; rfl]; rfl
    | unseen =>
      rw [show marks state g.id = .unseen by rw [marks, hmark]; rfl]
      have hdeps : dependencies groups g.id =
          g.dependsOn.filter fun dep => (groupByID groups dep).isSome := by
        unfold dependencies
        rw [groupByID_of_mem hids hg]
      have hloop := searched_foldlM (fun state g hg => ih state hg) g.dependsOn
        (Function.update state g.id .visiting)
      rw [marks_update, ← hdeps] at hloop
      simp only [VisitMark.mark] at hloop
      rw [← hloop]
      generalize (g.dependsOn.foldlM _ (Function.update state g.id .visiting) :
        Except BoardErr (GroupID → VisitMark)) = result
      cases result with
      | error err => rfl
      | ok state' => exact congrArg some (marks_update state' g.id .done)

theorem exists_error_of_foldlM {ε σ α : Type} {f : σ → α → Except ε σ} {as : List α} {s : σ}
    {err : ε} (h : as.foldlM f s = .error err) : ∃ s' a, f s' a = .error err := by
  induction as generalizing s with
  | nil => cases h
  | cons a as ih =>
    rw [List.foldlM_cons] at h
    cases hround : f s a with
    | error err' =>
      rw [hround] at h
      obtain rfl : err' = err := Except.error.inj h
      exact ⟨s, a, hround⟩
    | ok s' =>
      rw [hround] at h
      exact ih h

theorem visit_error {depth : Nat} {state : GroupID → VisitMark} {err : BoardErr}
    (h : visit groups depth state g = .error err) : err = .cycle := by
  induction depth generalizing state g with
  | zero => exact (Except.error.inj h).symm
  | succ depth ih =>
    unfold visit at h
    cases hmark : state g.id with
    | visiting =>
      rw [hmark] at h
      exact (Except.error.inj h).symm
    | done =>
      rw [hmark] at h
      cases h
    | unseen =>
      rw [hmark] at h
      simp only at h
      generalize hloop : (g.dependsOn.foldlM _ (Function.update state g.id .visiting) :
        Except BoardErr (GroupID → VisitMark)) = result at h
      cases result with
      | ok state' => cases h
      | error err' =>
        obtain rfl : err' = err := Except.error.inj h
        obtain ⟨state', depID, hround⟩ := exists_error_of_foldlM hloop
        cases hfound : groupByID groups depID with
        | none =>
          rw [hfound] at hround
          cases hround
        | some dep =>
          rw [hfound] at hround
          exact ih hround

theorem searched_foldlM_visit (hids : (groups.map fun g => g.id).Nodup) (depth : Nat)
    (gs : List Group) (hgs : ∀ g ∈ gs, g ∈ groups) (state : GroupID → VisitMark) :
    searched (gs.foldlM (visit groups depth) state) =
      (gs.map fun g => g.id).foldlM (Graph.visit (dependencies groups) depth) (marks state) := by
  induction gs generalizing state with
  | nil => rfl
  | cons g gs ih =>
    rw [List.foldlM_cons, List.map_cons, List.foldlM_cons,
      ← visit_eq hids depth state (hgs g List.mem_cons_self)]
    cases visit groups depth state g with
    | error err => rfl
    | ok state' => exact ih (fun g' hg' => hgs g' (List.mem_cons_of_mem g hg')) state'

def verdict : Option (GroupID → Graph.Mark) → Except BoardErr Unit
  | none => .error .cycle
  | some _ => .ok ()

theorem validateDAG_eq_search (hids : (groups.map fun g => g.id).Nodup) :
    validateDAG groups =
      verdict (Graph.search (dependencies groups) (groups.map fun g => g.id)) := by
  have hsearch := searched_foldlM_visit hids (groups.length + 1) groups (fun _ => id)
    fun _ => .unseen
  unfold validateDAG Graph.search
  rw [List.length_map, ← show marks (fun _ => .unseen) = (fun _ => .unseen) from rfl, ← hsearch]
  cases hloop : groups.foldlM (visit groups (groups.length + 1)) fun _ => .unseen with
  | ok state => rfl
  | error err =>
    obtain ⟨state, g, hvisit⟩ := exists_error_of_foldlM hloop
    rw [visit_error hvisit]
    rfl

theorem listed_of_mem_dependencies (hids : (groups.map fun g => g.id).Nodup) (id dep : GroupID)
    (hdep : dep ∈ dependencies groups id) :
    id ∈ groups.map (fun g => g.id) ∧ dep ∈ groups.map fun g => g.id := by
  obtain ⟨g, hg, hid, -, g', hg', hid'⟩ := (edge_dependencies_iff hids id dep).mp hdep
  exact ⟨List.mem_map.mpr ⟨g, hg, hid⟩, List.mem_map.mpr ⟨g', hg', hid'⟩⟩

/-- The groups are refused exactly if the dependencies among them have a cycle. -/
theorem validateDAG_cycle_iff (hids : (groups.map fun g => g.id).Nodup) :
    validateDAG groups = .error .cycle ↔
      ∃ id, Relation.TransGen (DependsOnListed groups) id id := by
  have hedge : Graph.Edge (dependencies groups) = DependsOnListed groups := by
    funext id dep
    exact propext (edge_dependencies_iff hids id dep)
  rw [validateDAG_eq_search hids, ← hedge,
    ← Graph.search_eq_none_iff (listed_of_mem_dependencies hids)]
  cases Graph.search (dependencies groups) (groups.map fun g => g.id) with
  | none | some state => simp [verdict]

/-- For groups with distinct ids the recursion of `ValidateDAG` ends, with no bound on its
depth, and the groups are refused exactly if the dependencies among them have a cycle.  The
dependency lists are arbitrary: a group can depend on itself, on a group twice, or on ids
that are not listed. -/
theorem validateDAG_correct (groups : List Group) (hids : (groups.map fun g => g.id).Nodup) :
    (∃ result, Graph.Visits (dependencies groups) (fun _ => .unseen) (groups.map fun g => g.id)
        result ∧ validateDAG groups = verdict result) ∧
      (validateDAG groups = .error .cycle ↔
        ∃ id, Relation.TransGen (DependsOnListed groups) id id) := by
  refine ⟨⟨_, Graph.visits_search ?_, validateDAG_eq_search hids⟩, validateDAG_cycle_iff hids⟩
  exact fun id _ dep hdep => (listed_of_mem_dependencies hids id dep hdep).2

/-- A group that depends on an unlisted group and twice on the next one, which depends on
it. -/
def mutualGroups : List Group :=
  [Group.new ⟨1⟩ ⟨0⟩ "a" [⟨9⟩, ⟨2⟩, ⟨2⟩], Group.new ⟨2⟩ ⟨0⟩ "b" [⟨1⟩]]

theorem validateDAG_correct_mutualGroups :
    (mutualGroups.map fun g => g.id).Nodup ∧ validateDAG mutualGroups = .error .cycle ∧
      ∃ id, Relation.TransGen (DependsOnListed mutualGroups) id id := by
  have hids : (mutualGroups.map fun g => g.id).Nodup := by decide
  have hrefused : validateDAG mutualGroups = .error .cycle := rfl
  exact ⟨hids, hrefused, (validateDAG_correct mutualGroups hids).2.mp hrefused⟩

end SophiaOrchestrator.Apply
