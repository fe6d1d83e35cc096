import Mathlib.Data.Finset.Card

/-!
# Breadth-first search for a shortest path

A search over a finite graph that starts at one node and ends when it meets another.  It remembers
from where it has met each node, and the path is read off backwards.

The argument goes by the depth of a node, which is the length of the path that is read off.  The
nodes that are still to be expanded come in the order of their depth, and every path to a node that
has not been met leads through one of them.
-/

namespace Graph.BreadthFirst

variable {α : Type} {next : α → List α} {start target current node v : α} {path : List α}

def IsPath (next : α → List α) : α → List α → α → Prop
  | start, [], target => start = target
  | start, node :: path, target => node ∈ next start ∧ IsPath next node path target

theorem IsPath.concat (hpath : IsPath next start path v) (hnode : node ∈ next v) :
    IsPath next start (path ++ [node]) node := by
  induction path generalizing start with
  | nil =>
    cases hpath
    exact ⟨hnode, rfl⟩
  | cons first path ih => exact ⟨hpath.1, ih hpath.2⟩

/-- The state of the search: what has been met, from where, and what is still to be expanded. -/
structure Search (α : Type) where
  visited : List α
  prev : List (α × α)
  queue : List α

variable {s s' : Search α} {depth : α → Nat} {nodes queue frontier all : List α}

section Functions

variable [DecidableEq α]

/-- The inner loop: the neighbours of `current`; the search ends when one is the target. -/
def visit (target current : α) : List α → Search α → Search α × Bool
  | [], s => (s, false)
  | next :: rest, s =>
    if next ∈ s.visited then
      visit target current rest s
    else
      let visited := next :: s.visited
      let prev := (next, current) :: s.prev
      if next = target then
        ({ s with visited, prev }, true)
      else
        visit target current rest { visited, prev, queue := s.queue ++ [next] }

def search (next : α → List α) (target : α) : Nat → Search α → Option (Search α)
  | 0, _ => none
  | rounds + 1, s =>
    match s.queue with
    | [] => none
    | current :: queue =>
      match visit target current (next current) { s with queue } with
      | (s', true) => some s'
      | (s', false) => search next target rounds s'

/-- Back from a node to the start, in forward order; a node that was not met comes from `zero`. -/
def reconstruct (zero : α) (prev : List (α × α)) (start : α) : Nat → α → List α → List α
  | 0, _, path => path
  | rounds + 1, current, path =>
    if current = start then
      path
    else
      reconstruct zero prev start rounds ((prev.lookup current).getD zero) (current :: path)

/-- The nodes on the way from the start to the target, without the start. -/
def shortestPath (next : α → List α) (zero : α) (rounds : Nat) (start target : α) :
    Option (List α) :=
  if start = target then
    some []
  else
    (search next target rounds { visited := [start], prev := [], queue := [start] }).map fun s =>
      reconstruct zero s.prev start rounds target []

end Functions

/-! ## The invariant -/

/-- What is known of the search in terms of the depth, where the nodes of `frontier` are still to
be expanded; the graph is one on the nodes `all`. -/
structure Layered [DecidableEq α] (next : α → List α) (all : List α) (start : α) (depth : α → Nat)
    (s : Search α) (frontier : List α) : Prop where
  start_mem : start ∈ s.visited
  start_depth : depth start = 0
  nodup : s.visited.Nodup
  within : ∀ v ∈ s.visited, v ∈ all
  short : ∀ v ∈ s.visited, depth v < s.visited.length
  reached : ∀ v ∈ s.visited, v ≠ start →
    ∃ u ∈ s.visited, s.prev.lookup v = some u ∧ v ∈ next u ∧ depth v = depth u + 1
  open_mem : ∀ u ∈ frontier, u ∈ s.visited
  sorted : frontier.Pairwise fun u v => depth u ≤ depth v
  near : ∀ v ∈ s.visited, ∀ u ∈ frontier, depth v ≤ depth u + 1
  expanded : ∀ v ∈ s.visited, v ∉ frontier → ∀ w ∈ next v, w ∈ s.visited ∧ depth w ≤ depth v + 1

variable [DecidableEq α]

theorem Layered.init (hstart : start ∈ all) :
    Layered next all start (fun _ => 0) ⟨[start], [], [start]⟩ [start] := by
  constructor <;> simp_all

/-- A path to a node leads through a node that is still to be expanded, unless the node has been met
at most at the length of the path. -/
theorem Layered.cut (h : Layered next all start depth s frontier) (hv : v ∈ s.visited)
    (hpath : IsPath next v path target) :
    (target ∈ s.visited ∧ depth target ≤ depth v + path.length) ∨
      ∃ u ∈ frontier, depth u < depth v + path.length := by
  induction path generalizing v with
  | nil =>
    cases hpath
    exact .inl ⟨hv, le_rfl⟩
  | cons node path ih =>
    by_cases hopen : v ∈ frontier
    · exact .inr ⟨v, hopen, by simp⟩
    · obtain ⟨hnode, hle⟩ := h.expanded v hv hopen node hpath.1
      rw [List.length_cons]
      refine (ih hnode hpath.2).imp (And.imp_right fun hdepth => ?_) ?_
      · omega
      · rintro ⟨u, hu, hlt⟩
        exact ⟨u, hu, by omega⟩

/-- A node that has not been met lies deeper than the first one to be expanded. -/
theorem Layered.lt_length (h : Layered next all start depth s (current :: queue))
    (hnew : target ∉ s.visited) (hpath : IsPath next start path target) :
    depth current < path.length := by
  rcases h.cut h.start_mem hpath with ⟨hmet, -⟩ | ⟨u, hu, hlt⟩
  · exact absurd hmet hnew
  · rw [h.start_depth, Nat.zero_add] at hlt
    rcases List.mem_cons.mp hu with rfl | hu
    · exact hlt
    · exact (List.rel_of_pairwise_cons h.sorted hu).trans_lt hlt

theorem Layered.add (h : Layered next all start depth s (current :: queue))
    (hall : node ∈ all) (hedge : node ∈ next current) (hnew : node ∉ s.visited)
    (queue' : List α) :
    Layered next all start (Function.update depth node (depth current + 1))
      ⟨node :: s.visited, (node, current) :: s.prev, queue'⟩ (current :: queue ++ [node]) := by
  have hcurrent : current ∈ s.visited := h.open_mem current List.mem_cons_self
  have hold : ∀ v ∈ s.visited, Function.update depth node (depth current + 1) v = depth v :=
    fun v hv => Function.update_of_ne (fun heq : v = node => hnew (heq ▸ hv)) _ _
  have hself : Function.update depth node (depth current + 1) node = depth current + 1 :=
    Function.update_self _ _ _
  have hfirst : ∀ u ∈ current :: queue, depth current ≤ depth u := fun u hu =>
    (List.mem_cons.mp hu).elim (fun heq => heq ▸ le_rfl) (List.rel_of_pairwise_cons h.sorted)
  constructor
  case start_mem => exact .tail _ h.start_mem
  case start_depth => rw [hold start h.start_mem, h.start_depth]
  case nodup => exact List.nodup_cons.mpr ⟨hnew, h.nodup⟩
  case within => exact List.forall_mem_cons.mpr ⟨hall, h.within⟩
  case short =>
    refine List.forall_mem_cons.mpr ⟨?_, fun v hv => ?_⟩
    · rw [hself]
      exact Nat.succ_lt_succ (h.short current hcurrent)
    · rw [hold v hv]
      exact Nat.lt_succ_of_lt (h.short v hv)
  case reached =>
    refine List.forall_mem_cons.mpr ⟨fun _ => ?_, fun v hv hne => ?_⟩
    · exact ⟨current, .tail _ hcurrent, by simp, hedge, by rw [hself, hold current hcurrent]⟩
    · obtain ⟨u, hu, hlookup, hnext, hdepth⟩ := h.reached v hv hne
      refine ⟨u, .tail _ hu, ?_, hnext, by rw [hold v hv, hold u hu, hdepth]⟩
      rwa [List.lookup_cons, beq_false_of_ne fun heq : v = node => hnew (heq ▸ hv)]
  case open_mem =>
    intro u hu
    rcases List.mem_append.mp hu with hu | hu
    · exact .tail _ (h.open_mem u hu)
    · exact List.mem_singleton.mp hu ▸ .head _
  case sorted =>
    refine List.pairwise_append.mpr ⟨?_, List.pairwise_singleton _ _, fun u hu w hw => ?_⟩
    · refine h.sorted.imp_of_mem fun hu hw hle => ?_
      rwa [hold _ (h.open_mem _ hu), hold _ (h.open_mem _ hw)]
    · rw [List.mem_singleton.mp hw, hself, hold u (h.open_mem u hu)]
      exact h.near u (h.open_mem u hu) current List.mem_cons_self
  case near =>
    intro v hv u hu
    have hdepth : Function.update depth node (depth current + 1) v ≤ depth current + 1 := by
      rcases List.mem_cons.mp hv with rfl | hv
      · exact hself.le
      · exact (hold v hv).le.trans (h.near v hv current List.mem_cons_self)
    rcases List.mem_append.mp hu with hu | hu
    · rw [hold u (h.open_mem u hu)]
      exact hdepth.trans (Nat.succ_le_succ (hfirst u hu))
    · rw [List.mem_singleton.mp hu, hself]
      exact Nat.le_succ_of_le hdepth
  case expanded =>
    intro v hv hclosed w hw
    rcases List.mem_cons.mp hv with rfl | hv
    · exact absurd (List.mem_append_right _ (List.mem_singleton_self _)) hclosed
    · obtain ⟨hmet, hle⟩ := h.expanded v hv (fun hu => hclosed (List.mem_append_left _ hu)) w hw
      exact ⟨.tail _ hmet, by rwa [hold v hv, hold w hmet]⟩

theorem Layered.close (h : Layered next all start depth s (current :: queue))
    (hmet : ∀ w ∈ next current, w ∈ s.visited) : Layered next all start depth s queue := by
  refine { h with
    open_mem := fun u hu => h.open_mem u (.tail _ hu)
    sorted := h.sorted.of_cons
    near := fun v hv u hu => h.near v hv u (.tail _ hu)
    expanded := fun v hv hclosed w hw => ?_ }
  by_cases hfirst : v = current
  · subst hfirst
    exact ⟨hmet w hw, h.near w (hmet w hw) v List.mem_cons_self⟩
  · exact h.expanded v hv (List.not_mem_cons_of_ne_of_not_mem hfirst hclosed) w hw

/-! ## The loops -/

/-- The target has been met, and no path to it is shorter than its depth. -/
def Met (next : α → List α) (all : List α) (start target : α) (s : Search α) : Prop :=
  ∃ depth frontier, Layered next all start depth s frontier ∧ target ∈ s.visited ∧
    ∀ path, IsPath next start path target → depth target ≤ path.length

/-- The inner loop meets the target, or goes on with all neighbours met and as many nodes expanded
as before. -/
theorem Layered.visit (h : Layered next all start depth s (current :: s.queue))
    (hall : ∀ w ∈ nodes, w ∈ all) (hnodes : ∀ w ∈ nodes, w ∈ next current)
    (htarget : target ∉ s.visited) {found : Bool}
    (hvisit : BreadthFirst.visit target current nodes s = (s', found)) :
    (found = true ∧ Met next all start target s') ∨
      (found = false ∧ ∃ depth', Layered next all start depth' s' (current :: s'.queue) ∧
        target ∉ s'.visited ∧ (∀ w ∈ nodes, w ∈ s'.visited) ∧ s.visited ⊆ s'.visited ∧
        s'.visited.length + s.queue.length = s.visited.length + s'.queue.length) := by
  induction nodes generalizing s depth with
  | nil =>
    cases hvisit
    exact .inr ⟨rfl, depth, h, htarget, by simp, List.Subset.refl _, rfl⟩
  | cons node nodes ih =>
    obtain ⟨hallnode, hall⟩ := List.forall_mem_cons.mp hall
    obtain ⟨hedge, hnodes⟩ := List.forall_mem_cons.mp hnodes
    rw [BreadthFirst.visit] at hvisit
    split at hvisit
    · next hmet =>
      refine (ih h hall hnodes htarget hvisit).imp_right ?_
      rintro ⟨hfound, depth', hlayered, hnew, hrest, hsub, hcount⟩
      exact ⟨hfound, depth', hlayered, hnew, List.forall_mem_cons.mpr ⟨hsub hmet, hrest⟩, hsub,
        hcount⟩
    · next hunmet =>
      have hadd := h.add hallnode hedge hunmet
      dsimp only at hvisit
      split at hvisit
      · next heq =>
        cases hvisit
        subst heq
        refine .inl ⟨rfl, _, _, hadd _, List.mem_cons_self, fun path hpath => ?_⟩
        rw [Function.update_self]
        exact h.lt_length htarget hpath
      · next hne =>
        have hother : target ∉ node :: s.visited :=
          List.not_mem_cons_of_ne_of_not_mem (Ne.symm hne) htarget
        refine (ih (hadd _) hall hnodes hother hvisit).imp_right ?_
        rintro ⟨hfound, depth', hlayered, hnew, hrest, hsub, hcount⟩
        refine ⟨hfound, depth', hlayered, hnew,
          List.forall_mem_cons.mpr ⟨hsub List.mem_cons_self, hrest⟩,
          fun v hv => hsub (.tail _ hv), ?_⟩
        have hqueue : (s.queue ++ [node]).length = s.queue.length + 1 := List.length_append
        change s'.visited.length + (s.queue ++ [node]).length =
          s.visited.length + 1 + s'.queue.length at hcount
        omega

theorem Layered.unreachable (h : Layered next all start depth s []) (htarget : target ∉ s.visited) :
    ∀ path, ¬IsPath next start path target := by
  intro path hpath
  rcases h.cut h.start_mem hpath with ⟨hmet, -⟩ | ⟨u, hu, -⟩
  · exact htarget hmet
  · cases hu

/-- With enough rounds the outer loop meets the target, or there is no path to it. -/
theorem Layered.search (hnext : ∀ v ∈ all, ∀ w ∈ next v, w ∈ all) {rounds : Nat}
    (h : Layered next all start depth s s.queue) (htarget : target ∉ s.visited)
    (hrounds : all.length + s.queue.length ≤ rounds + s.visited.length) :
    (∃ s', BreadthFirst.search next target rounds s = some s' ∧ Met next all start target s') ∨
      BreadthFirst.search next target rounds s = none ∧ ∀ path, ¬IsPath next start path target := by
  induction rounds generalizing s depth with
  | zero =>
    have hle := (h.nodup.subperm h.within).length_le
    rw [List.eq_nil_of_length_eq_zero (l := s.queue) (by omega)] at h
    exact .inr ⟨rfl, h.unreachable htarget⟩
  | succ rounds ih =>
    rw [BreadthFirst.search]
    cases hqueue : s.queue with
    | nil =>
      rw [hqueue] at h
      exact .inr ⟨rfl, h.unreachable htarget⟩
    | cons current queue =>
      have hfirst : Layered next all start depth { s with queue } (current :: queue) := by
        rw [hqueue] at h
        exact { h with }
      have hcurrent := hfirst.within current (hfirst.open_mem current List.mem_cons_self)
      obtain ⟨⟨s', found⟩, hvisit⟩ :
          ∃ r, BreadthFirst.visit target current (next current) { s with queue } = r := ⟨_, rfl⟩
      simp only [hvisit]
      rcases hfirst.visit (hnext current hcurrent) (fun _ => id) htarget hvisit with
        ⟨rfl, hmet⟩ | ⟨rfl, depth', hlayered, hnew, hmet, -, hcount⟩
      · exact .inl ⟨s', rfl, hmet⟩
      · refine ih (hlayered.close hmet) hnew ?_
        rw [hqueue, List.length_cons] at hrounds
        dsimp only at hcount
        omega

theorem Layered.reconstruct (h : Layered next all start depth s frontier) {rounds : Nat}
    (hv : v ∈ s.visited) (hrounds : depth v < rounds) (zero : α) (path : List α) :
    ∃ path', BreadthFirst.reconstruct zero s.prev start rounds v path = path' ++ path ∧
      IsPath next start path' v ∧ path'.length = depth v := by
  induction rounds generalizing v path with
  | zero => cases hrounds
  | succ rounds ih =>
    rw [BreadthFirst.reconstruct]
    split
    · next heq =>
      subst heq
      exact ⟨[], rfl, rfl, h.start_depth.symm⟩
    · next hne =>
      obtain ⟨u, hu, hlookup, hedge, hdepth⟩ := h.reached v hv hne
      rw [hlookup, Option.getD_some]
      obtain ⟨path', heq, hpath, hlength⟩ := ih hu (by omega) (v :: path)
      refine ⟨path' ++ [v], by rw [heq, List.append_assoc]; rfl, hpath.concat hedge, ?_⟩
      rw [List.length_append, hlength, hdepth]
      rfl

/-- The search finds a shortest path whenever there is a path. -/
theorem shortestPath_spec (hstart : start ∈ all) (hnext : ∀ v ∈ all, ∀ w ∈ next v, w ∈ all)
    {zero : α} {rounds : Nat} (hrounds : all.length ≤ rounds) :
    (∀ found, shortestPath next zero rounds start target = some found →
        IsPath next start found target) ∧
      ∀ path, IsPath next start path target →
        ∃ found, shortestPath next zero rounds start target = some found ∧
          found.length ≤ path.length := by
  unfold shortestPath
  split
  · next heq =>
    subst heq
    exact ⟨fun found hfound => Option.some.inj hfound ▸ rfl, fun path _ => ⟨[], rfl, Nat.zero_le _⟩⟩
  · next hne =>
    have hinit : Layered next all start _ ⟨[start], [], [start]⟩ [start] := .init hstart
    have hlength : all.length + 1 ≤ rounds + 1 := Nat.succ_le_succ hrounds
    rcases hinit.search hnext (by simpa using Ne.symm hne) hlength with
      ⟨s, hfound, depth, frontier, h, hmet, hshort⟩ | ⟨hnone, hno⟩
    · have hle := (h.nodup.subperm h.within).length_le
      obtain ⟨path', heq, hpath, hlength⟩ := h.reconstruct hmet
        ((h.short target hmet).trans_le (hle.trans hrounds)) zero []
      rw [hfound, Option.map_some, heq, List.append_nil]
      refine ⟨fun found hfound => Option.some.inj hfound ▸ hpath, fun path hpath => ?_⟩
      exact ⟨path', rfl, hlength.trans_le (hshort path hpath)⟩
    · rw [hnone]
      exact ⟨fun found hfound => (nomatch hfound), fun path hpath => absurd hpath (hno path)⟩

end Graph.BreadthFirst
