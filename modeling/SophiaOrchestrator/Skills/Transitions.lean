import SophiaOrchestrator.Skills.Lifecycle
import SophiaOrchestrator.Graph.BreadthFirst

/-!
# The lifecycle graph of a skill

The service guards every change of a status by a table of direct transitions.  To undo a
change it walks a shortest legal path back, which a breadth-first search over the same
table finds; its loops are those of `Graph.BreadthFirst`.
-/

namespace SophiaOrchestrator.Skills

open Graph.BreadthFirst (shortestPath shortestPath_spec)

/-- `allowedTransitions`: the targets of the direct transitions; a status that is not a key
of the table has none. -/
def allowedTransitions : Status → List Status
  | .candidate => [.validated, .blocked]
  | .validated => [.active, .blocked]
  | .active => [.deprecated, .blocked]
  | .deprecated => [.blocked]
  | .blocked => [.candidate]
  | .archived => []
  | .unknown _ => []

def Allowed (current target : Status) : Prop :=
  target ∈ allowedTransitions current

instance : DecidableRel Allowed :=
  fun current target => inferInstanceAs (Decidable (target ∈ allowedTransitions current))

/-! ## The search -/

def statusOrder : List Status :=
  [.candidate, .validated, .active, .deprecated, .blocked, .archived]

def orderedTargets (current : Status) : List Status :=
  statusOrder.filter fun target => target ∈ allowedTransitions current

/-- `transitionPath`: the successive targets, without the start.  A status is queued at most once,
so there are no more rounds than statuses. -/
def transitionPath (start target : Status) : Option (List Status) :=
  shortestPath orderedTargets (.unknown "") (statusOrder.length + 1) start target

/-! ## Its result -/

def IsPath : Status → List Status → Status → Prop
  | start, [], target => start = target
  | start, next :: path, target => Allowed start next ∧ IsPath next path target

instance : (start : Status) → (path : List Status) → (target : Status) →
    Decidable (IsPath start path target)
  | start, [], target => inferInstanceAs (Decidable (start = target))
  | start, next :: path, target =>
    have := instDecidableIsPath next path target
    inferInstanceAs (Decidable (Allowed start next ∧ IsPath next path target))

theorem mem_orderedTargets {current next : Status} :
    next ∈ orderedTargets current ↔ Allowed current next := by
  have hlisted : ∀ target ∈ allowedTransitions current, target ∈ statusOrder := by
    cases current <;> simp [allowedTransitions, statusOrder]
  simpa [orderedTargets, Allowed] using hlisted next

theorem isPath_iff {start target : Status} {path : List Status} :
    IsPath start path target ↔ Graph.BreadthFirst.IsPath orderedTargets start path target := by
  induction path generalizing start with
  | nil => exact Iff.rfl
  | cons next path ih => exact and_congr mem_orderedTargets.symm ih

section

variable {start target : Status}

theorem IsPath.upTo {status : Status} {before after : List Status}
    (h : IsPath start (before ++ status :: after) target) :
    IsPath start (before ++ [status]) status := by
  induction before generalizing start with
  | nil => exact ⟨h.1, rfl⟩
  | cons next before ih => exact ⟨h.1, ih h.2⟩

theorem orderedTargets_closed : ∀ v ∈ start :: statusOrder, ∀ w ∈ orderedTargets v,
    w ∈ start :: statusOrder :=
  fun _ _ _ hw => .tail _ (List.mem_of_mem_filter hw)

theorem transitionPath_sound {path : List Status} (h : transitionPath start target = some path) :
    IsPath start path target :=
  isPath_iff.mpr ((shortestPath_spec List.mem_cons_self orderedTargets_closed le_rfl).1 path h)

theorem IsPath.exists_found {path : List Status} (h : IsPath start path target) :
    ∃ found, transitionPath start target = some found ∧ found.length ≤ path.length :=
  (shortestPath_spec List.mem_cons_self orderedTargets_closed le_rfl).2 path (isPath_iff.mp h)

end

def cycle : List Status :=
  [.candidate, .validated, .active, .deprecated, .blocked]

theorem mem_cycle_of_allowed {current target : Status} (h : Allowed current target) :
    current ∈ cycle ∧ target ∈ cycle := by
  cases current <;> simp only [Allowed, allowedTransitions, List.mem_cons, List.not_mem_nil,
    or_false] at h
  all_goals rcases h with rfl | rfl <;> decide

def detour (start target : Status) : List Status :=
  (if start = .blocked then [] else [.blocked]) ++
    if target = .blocked then [] else cycle.takeWhile (· ≠ target) ++ [target]

theorem isPath_detour : ∀ start ∈ cycle, ∀ target ∈ cycle,
    IsPath start (detour start target) target := by
  decide

theorem isSome_of_mem_cycle {start target : Status} (hstart : start ∈ cycle)
    (htarget : target ∈ cycle) : (transitionPath start target).isSome = true := by
  obtain ⟨found, hfound, -⟩ := (isPath_detour start hstart target htarget).exists_found
  exact Option.isSome_of_eq_some hfound

/-- **The search finds a shortest path** whenever there is a path. -/
theorem transitionPath_shortest (start target : Status) :
    (∀ found, transitionPath start target = some found → IsPath start found target) ∧
      ∀ path, IsPath start path target →
        ∃ found, transitionPath start target = some found ∧ found.length ≤ path.length :=
  ⟨fun _ hfound => transitionPath_sound hfound, fun _ hpath => hpath.exists_found⟩

end SophiaOrchestrator.Skills
