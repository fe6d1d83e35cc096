import SophiaOrchestrator.Apply.Dag
import SophiaOrchestrator.Apply.Changes
import SophiaOrchestrator.Apply.Goroutines

/-!
# A new board and its tasks list

`buildBoard` makes a group for every entry of the tasks list.  It resolves the names of the
entries through a map: a repeated name keeps the id of its last entry, and a name in
`depends_on` that no entry has is left out.
-/

namespace SophiaOrchestrator.Apply

open Effects Prog

variable {bid : BoardID} {tl : TasksList} {ids : List GroupID} {groups : List Group}

/-! ## The described board -/

/-- The group is the one of an entry: its tasks are those of the entry, in order, and every
name that the entry depends on has become a dependency on a group with that name. -/
structure GroupFrom (groups : List Group) (gs : TaskGroupSpec) (g : Group) : Prop where
  name : g.name = gs.name
  tasks : List.Forall₂ (TaskFrom gs.name g.id) gs.tasks g.tasks
  dependsOn : List.Forall₂ (fun name dep => ∃ g' ∈ groups, g'.name = name ∧ g'.id = dep)
    gs.dependsOn g.dependsOn

/-- The board is the one that the tasks list describes. -/
structure BoardFrom (tl : TasksList) (board : Board) : Prop where
  groups : List.Forall₂ (GroupFrom board.groups) tl.groups board.groups
  ids_nodup : (board.groups.map fun g => g.id).Nodup
  acyclic : ¬∃ id, Relation.TransGen (DependsOnListed board.groups) id id

/-- The entries have distinct names, and depend on entries only. -/
structure WellNamed (tl : TasksList) : Prop where
  names_nodup : (tl.groups.map fun gs => gs.name).Nodup
  known : ∀ gs ∈ tl.groups, ∀ name ∈ gs.dependsOn, name ∈ tl.groups.map fun gs => gs.name

/-! ## The generated ids -/

def generatedGroupID : Event → Option GroupID
  | ⟨.newGroupID, .ok gid⟩ => some gid
  | _ => none

def generatedGroupIDs (h : History) : List GroupID :=
  h.filterMap generatedGroupID

theorem generatedGroupIDs_eq {h h' : History} (hext : Extends Op.stores h h') :
    generatedGroupIDs h' = generatedGroupIDs h := by
  refine hext.eq_of_step fun ev past hstores => List.filterMap_cons_none ?_
  obtain ⟨op, answer⟩ := ev
  cases op <;> first | rfl | cases hstores

/-! ## The loops of `buildBoard` -/

/-- The weakest precondition for arbitrary answers. -/
abbrev Gives {α : Type} (Q : α → History → Prop) (prog : Program α) (h : History) : Prop :=
  prog.wp (histSem fun _ _ => True) (fun _ => True) Q h

theorem newGroupIDs_gives (specs : List TaskGroupSpec) (idByName : List (String × GroupID))
    (h : History) :
    Gives (fun result h' => ∀ pairs, result = .ok pairs → ∃ ids : List GroupID,
        ids.length = specs.length ∧
        pairs = ((specs.map fun gs => gs.name).zip ids).reverse ++ idByName ∧
        generatedGroupIDs h' = ids.reverse ++ generatedGroupIDs h)
      (newGroupIDs specs idByName) h := by
  induction specs generalizing idByName h with
  | nil =>
    rintro pairs ⟨⟩
    exact ⟨[], rfl, rfl, rfl⟩
  | cons gs rest ih =>
    refine wp_perform_bind (fun _ _ => trivial) fun answer _ => ?_
    cases answer with
    | error err => exact fun pairs hpairs => nomatch hpairs
    | ok gid =>
      refine wp_mono (ih ((gs.name, gid) :: idByName) _) (fun _ => id) ?_
      intro result h' hresult pairs hpairs
      obtain ⟨ids, hlength, hzip, hgenerated⟩ := hresult pairs hpairs
      refine ⟨gid :: ids, by simp [hlength], by simp [hzip], ?_⟩
      rw [hgenerated]
      simp [generatedGroupIDs, generatedGroupID]

theorem newBoard_wired (x : Nat) (p : Phase) (tl : TasksList) (h : History) :
    Gives (fun result h' => ∀ board, result = .ok board → ∃ ids : List GroupID,
        ids.length = tl.groups.length ∧ generatedGroupIDs h' = ids.reverse ++ generatedGroupIDs h ∧
        (∃ bid, List.Forall₂ (Wired bid ((tl.groups.map fun gs => gs.name).zip ids).reverse)
          tl.groups board.groups) ∧
        validateDAG board.groups = .ok ())
      (newBoard x p tl) h := by
  unfold newBoard
  refine wp_perform_bind (fun _ _ => trivial) fun answer _ => ?_
  cases answer with
  | error err => exact fun board hboard => nomatch hboard
  | ok bid =>
    refine wp_perform_bind (fun _ _ => trivial) fun answer _ => ?_
    cases answer with
    | error err => exact fun board hboard => nomatch hboard
    | ok _ =>
      refine wp_bind (wp_mono (newGroupIDs_gives tl.groups [] _) (fun _ => id) ?_)
      intro result h' hresult
      cases result with
      | error text => exact fun board hboard => nomatch hboard
      | ok idByName =>
        obtain ⟨ids, hlength, rfl, hgenerated⟩ := hresult idByName rfl
        rw [List.append_nil]
        refine wp_of_uses (fun _ _ _ => trivial) (addGroups_stores x bid _ _ _) ?_
        intro result h'' hgroups hext board hboard
        obtain ⟨groups, rfl, hwired, hvalid⟩ := hgroups board hboard
        exact ⟨ids, hlength, (generatedGroupIDs_eq hext).trans hgenerated, ⟨bid, hwired⟩,
          hvalid rfl⟩

/-! ## Boards wired by a map -/

section Wired

variable {idByName : List (String × GroupID)} {specs : List TaskGroupSpec}

theorem Wired.map_id (h : List.Forall₂ (Wired bid idByName) specs groups) :
    groups.map (fun g => g.id) =
      (specs.map fun gs => gs.name).map fun name => (idByName.lookup name).getD ⟨0⟩ := by
  induction h with
  | nil => rfl
  | cons hfirst _ ih => simp only [List.map_cons, hfirst.id, ih]

theorem Wired.map_id_name (h : List.Forall₂ (Wired bid idByName) specs groups) :
    groups.map (fun g => (g.id, g.name)) =
      specs.map fun gs => ((idByName.lookup gs.name).getD ⟨0⟩, gs.name) := by
  induction h with
  | nil => rfl
  | cons hfirst _ ih => simp only [List.map_cons, hfirst.id, hfirst.name, ih]

theorem forall₂_lookup {names : List String}
    (hknown : ∀ name ∈ names, ∃ gid, idByName.lookup name = some gid) :
    List.Forall₂ (fun name gid => idByName.lookup name = some gid) names
      (names.filterMap fun name => idByName.lookup name) := by
  induction names with
  | nil => exact .nil
  | cons name rest ih =>
    obtain ⟨gid, hgid⟩ := hknown name List.mem_cons_self
    simp only [List.filterMap_cons, hgid]
    exact .cons hgid (ih fun name' hname' => hknown name' (List.mem_cons_of_mem name hname'))

end Wired

theorem lookup_of_mem {pairs : List (String × GroupID)} {gid : GroupID}
    (hkeys : (pairs.map Prod.fst).Nodup)
    {name : String} (hmem : (name, gid) ∈ pairs) :
    pairs.lookup name = some gid := by
  obtain ⟨before, after, rfl⟩ := List.append_of_mem hmem
  refine List.lookup_eq_some_iff.mpr ⟨before, after, rfl, ?_⟩
  intro pair hpair
  simp only [List.map_append, List.map_cons, List.nodup_append] at hkeys
  have hne := hkeys.2.2 pair.1 (List.mem_map_of_mem hpair) name List.mem_cons_self
  simpa using Ne.symm hne

theorem entryIDs_eq_zip (hnames : (tl.groups.map fun gs => gs.name).Nodup)
    (hlength : ids.length = tl.groups.length) :
    entryIDs tl ids = ids.zip (tl.groups.map fun gs => gs.name) := by
  refine List.ext_getElem ?_ ?_
  · simp [entryIDs, hlength]
  · intro i hi hi'
    have hg : i < tl.groups.length := by simpa [entryIDs] using hi
    have hid : i < ids.length := by omega
    have hfound : ((tl.groups.map fun gs => gs.name).zip ids).reverse.lookup tl.groups[i].name =
        some ids[i] := by
      refine lookup_of_mem ?_ ?_
      · rw [List.map_reverse, List.map_fst_zip (by simp [hlength]), List.nodup_reverse]
        exact hnames
      · rw [List.mem_reverse, List.mem_iff_getElem]
        exact ⟨i, by simp [hg, hid], by simp⟩
    simp [entryIDs, hfound]

theorem ids_of_wired (hlength : ids.length = tl.groups.length)
    (hwired : List.Forall₂ (Wired bid ((tl.groups.map fun gs => gs.name).zip ids).reverse)
      tl.groups groups)
    (hnames : (tl.groups.map fun gs => gs.name).Nodup) :
    groups.map (fun g => (g.id, g.name)) = ids.zip (tl.groups.map fun gs => gs.name) :=
  (Wired.map_id_name hwired).trans (entryIDs_eq_zip hnames hlength)

/-- With well-named entries every name that an entry depends on leads to a group with that
name. -/
theorem groupFrom_of_wired (hlength : ids.length = tl.groups.length)
    (hwired : List.Forall₂ (Wired bid ((tl.groups.map fun gs => gs.name).zip ids).reverse)
      tl.groups groups)
    (hnamed : WellNamed tl) {gs : TaskGroupSpec} (hgs : gs ∈ tl.groups) {g : Group}
    (hg : Wired bid ((tl.groups.map fun gs => gs.name).zip ids).reverse gs g) :
    GroupFrom groups gs g := by
  have hids := ids_of_wired hlength hwired hnamed.names_nodup
  have hkeys : ((((tl.groups.map fun gs => gs.name).zip ids).reverse).map Prod.fst).Nodup := by
    rw [List.map_reverse, List.map_fst_zip (by simp [hlength]), List.nodup_reverse]
    exact hnamed.names_nodup
  have hlookup : ∀ name ∈ gs.dependsOn, ∃ gid,
      ((tl.groups.map fun gs => gs.name).zip ids).reverse.lookup name = some gid := by
    intro name hname
    obtain ⟨i, hi, hat⟩ := List.mem_iff_getElem.mp (hnamed.known gs hgs name hname)
    have hi' : i < ids.length := by simpa [hlength] using hi
    refine ⟨ids[i], lookup_of_mem hkeys (List.mem_reverse.mpr ?_)⟩
    exact List.mem_iff_getElem.mpr ⟨i, by simp [hi'] at hi ⊢; omega, by simp [← hat]⟩
  refine ⟨hg.name, hg.tasks, ?_⟩
  rw [hg.dependsOn]
  refine (forall₂_lookup hlookup).imp fun name gid hgid => ?_
  obtain ⟨before, after, hpairs, -⟩ := List.lookup_eq_some_iff.mp hgid
  have hmem : (name, gid) ∈ (tl.groups.map fun gs => gs.name).zip ids := by
    rw [← List.mem_reverse, hpairs]
    simp
  have hmem' : (gid, name) ∈ groups.map fun g => (g.id, g.name) := by
    rw [hids]
    have hswap := List.mem_map_of_mem (f := Prod.swap) hmem
    rwa [List.zip_swap] at hswap
  obtain ⟨g', hg', heq⟩ := List.mem_map.mp hmem'
  exact ⟨g', hg', congrArg Prod.snd heq, congrArg Prod.fst heq⟩

/-- A name of an entry was looked up in vain if no entry has it, and entries of one name have
one id. -/
theorem boardFrom_iff_of_wired {board : Board} (hlength : ids.length = tl.groups.length)
    (hids : ids.Nodup)
    (hwired : List.Forall₂ (Wired bid ((tl.groups.map fun gs => gs.name).zip ids).reverse)
      tl.groups board.groups)
    (hvalid : validateDAG board.groups = .ok ()) : BoardFrom tl board ↔ WellNamed tl := by
  constructor
  · intro hboard
    have hname : ∀ g ∈ board.groups, g.name ∈ tl.groups.map fun gs => gs.name := by
      intro g hg
      obtain ⟨gs, hgs, hfrom⟩ := exists_related_of_mem hboard.groups hg
      exact List.mem_map.mpr ⟨gs, hgs, hfrom.name.symm⟩
    refine ⟨List.Nodup.of_map _ (Wired.map_id hwired ▸ hboard.ids_nodup), ?_⟩
    intro gs hgs name hdep
    obtain ⟨g, -, hfrom⟩ := exists_related_of_mem hboard.groups.flip hgs
    obtain ⟨dep, -, g', hg', rfl, -⟩ := exists_related_of_mem hfrom.dependsOn.flip hdep
    exact hname g' hg'
  · intro hnamed
    have hnodup : (board.groups.map fun g => g.id).Nodup := by
      have hmap := congrArg (List.map Prod.fst) (ids_of_wired hlength hwired hnamed.names_nodup)
      rw [List.map_map, List.map_fst_zip (by simp [hlength])] at hmap
      exact hmap ▸ hids
    refine ⟨?_, hnodup, ?_⟩
    · refine List.forall₂_iff_get.mpr ⟨hwired.length_eq, fun i hi hi' => ?_⟩
      exact groupFrom_of_wired hlength hwired hnamed (List.get_mem _ _)
        ((List.forall₂_iff_get.mp hwired).2 i hi hi')
    · rw [← validateDAG_cycle_iff hnodup, hvalid]
      exact fun h => nomatch h

/-! ## The new board -/

abbrev Environment : Type :=
  History → (op : Op) → op.Ret

/-- `buildBoard` finds no board of the phase and makes this one. -/
structure CreatesBoard (env : Environment) (x : Nat) (p : Phase) (tl : TasksList)
    (board : Board) : Prop where
  notFound : ∃ err, ((findBoardByPhaseID x p.id).answered env []).1 = .error err
  made : ((buildBoard x p tl).answered env []).1 = .ok board

/-- Whatever the other services answer: if the generated ids are distinct, a new board is the
one that the tasks list describes exactly if the entries have distinct names and depend on
entries only. -/
theorem boardFrom_iff_wellNamed {env : Environment} {x : Nat} {p : Phase} {tl : TasksList}
    {board : Board} (hcreates : CreatesBoard env x p tl board)
    (hdistinct : (generatedGroupIDs ((buildBoard x p tl).answered env []).2).Nodup) :
    BoardFrom tl board ↔ WellNamed tl := by
  obtain ⟨⟨err, hnotFound⟩, hmade⟩ := hcreates
  unfold buildBoard at hmade hdistinct
  rw [answered_bind, hnotFound] at hmade hdistinct
  obtain ⟨ids, hlength, hgenerated, ⟨bid, hwired⟩, hvalid⟩ :=
    wp.answered (newBoard_wired x p tl _) (fun _ _ => trivial) board hmade
  have hids : ids.Nodup := by
    rw [hgenerated] at hdistinct
    exact List.nodup_reverse.mp hdistinct.of_append_left
  exact boardFrom_iff_of_wired hlength hids hwired hvalid

/-! ## Sample lists -/

def freshEnvironment : Environment := fun h op =>
  (handle sampleConfig op { id := .ok h.length } {}).1

def sampleItem : TaskItemSpec := ⟨"write it", ["a/main.go"]⟩

def chainedList : TasksList :=
  ⟨[⟨"a", [], [sampleItem]⟩, ⟨"b", ["a"], [sampleItem, sampleItem]⟩]⟩

theorem boardFrom_chainedList :
    ∃ board, CreatesBoard freshEnvironment 0 samplePhase chainedList board ∧
      WellNamed chainedList ∧ BoardFrom chainedList board := by
  obtain ⟨board, hmade⟩ : ∃ board,
      ((buildBoard 0 samplePhase chainedList).answered freshEnvironment []).1 = .ok board :=
    ⟨_, rfl⟩
  have hcreates : CreatesBoard freshEnvironment 0 samplePhase chainedList board :=
    ⟨⟨_, rfl⟩, hmade⟩
  have hnamed : WellNamed chainedList := ⟨by decide, by decide⟩
  exact ⟨board, hcreates, hnamed, (boardFrom_iff_wellNamed hcreates (by decide)).mpr hnamed⟩

def repeatedList : TasksList :=
  ⟨[⟨"a", [], [sampleItem]⟩, ⟨"a", [], [sampleItem]⟩]⟩

def danglingList : TasksList :=
  ⟨[⟨"a", ["c"], [sampleItem]⟩]⟩

/-- Entries of one name become groups with one id, and a dependency on an unknown name is
lost, without an error. -/
theorem board_not_from_list :
    (∃ board, CreatesBoard freshEnvironment 0 samplePhase repeatedList board ∧
      (generatedGroupIDs
        ((buildBoard 0 samplePhase repeatedList).answered freshEnvironment []).2).Nodup ∧
      ¬BoardFrom repeatedList board) ∧
    ∃ board, CreatesBoard freshEnvironment 0 samplePhase danglingList board ∧
      (generatedGroupIDs
        ((buildBoard 0 samplePhase danglingList).answered freshEnvironment []).2).Nodup ∧
      ¬BoardFrom danglingList board := by
  refine ⟨⟨_, ⟨⟨_, rfl⟩, rfl⟩, by decide, fun hfrom => ?_⟩,
    ⟨_, ⟨⟨_, rfl⟩, rfl⟩, by decide, fun hfrom => ?_⟩⟩
  · exact absurd hfrom.ids_nodup (by decide)
  · have hgroup := (List.forall₂_cons.mp hfrom.groups).1
    exact absurd hgroup.dependsOn.length_eq (by decide)

end SophiaOrchestrator.Apply
