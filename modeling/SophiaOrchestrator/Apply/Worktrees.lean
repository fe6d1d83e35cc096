import SophiaOrchestrator.Apply.Service

/-!
# Where the worktrees of a tasks list lie

The worktree of a group is `WorktreeRoot/<change id>/<group name>` and it is
materialized to `TargetPath/<group name>`, both cleaned.  The names are written by an
agent and nothing checks them, so a name can climb out of either root, denote the root
itself, or denote the worktree of another group or a directory in it.
-/

namespace SophiaOrchestrator.Apply

open Filepath

variable {cfg : RunConfig} {name name' : String} {c : Change}

theorem plain_changeIDText (id : ChangeID) : Plain (changeIDText id) := by
  have hchars : (changeIDText id).toList = Nat.toDigits 10 id.raw := by
    simp [changeIDText, Nat.repr]
  have hdigit : ∀ char ∈ (changeIDText id).toList, char.isDigit = true := by
    intro char hmem
    rw [hchars] at hmem
    exact Nat.isDigit_of_mem_toDigits (by omega) (by omega) hmem
  have hne_dots : ∀ text : String, '.' ∈ text.toList → changeIDText id ≠ text := by
    rintro text hdot rfl
    exact absurd (hdigit '.' hdot) (by decide)
  refine ⟨?_, hne_dots _ (by decide), hne_dots _ (by decide), ?_⟩
  · intro hempty
    rw [hempty] at hchars
    exact Nat.toDigits_ne_nil hchars.symm
  · intro hslash
    exact absurd (hdigit '/' hslash) (by decide)

def changeRoot (cfg : RunConfig) (c : Change) : String :=
  join [cfg.worktreeRoot, changeIDText c.id]

theorem components_changeRoot (hroot : CleanAbs cfg.worktreeRoot) (c : Change) :
    components (changeRoot cfg c) = components cfg.worktreeRoot ++ [changeIDText c.id] := by
  have hplain : ∀ dir ∈ [changeIDText c.id], Plain dir := by
    simpa using plain_changeIDText c.id
  have hself : [changeIDText c.id].flatMap segments = [changeIDText c.id] ++ [] := by
    simp [segments_of_no_slash (plain_changeIDText c.id).no_slash]
  rw [changeRoot, components_join hroot, hself, cleanSegments_plain_append hplain]
  simp [cleanSegments]

theorem components_worktreePath (hroot : CleanAbs cfg.worktreeRoot) (c : Change) (name : String) :
    components (worktreePath cfg c name) =
      (components (changeRoot cfg c)).rdrop (climbs name) ++ descent name := by
  have hplain : ∀ dir ∈ [changeIDText c.id], Plain dir := by
    simpa using plain_changeIDText c.id
  rw [components_changeRoot hroot]
  exact components_join_name hroot hplain name

theorem components_materializeTarget (htarget : CleanAbs cfg.targetPath) (name : String) :
    components (materializeTarget cfg name) =
      (components cfg.targetPath).rdrop (climbs name) ++ descent name := by
  have hjoin := components_join_name htarget (List.forall_mem_nil Plain) name
  rwa [List.append_nil] at hjoin

/-- Every worktree and every target of the list lies strictly below its root, and no
worktree of an entry is the one of another entry or lies in it. -/
structure Confined (cfg : RunConfig) (c : Change) (tl : TasksList) : Prop where
  worktree : ∀ g ∈ tl.groups, Below (worktreePath cfg c g.name) (changeRoot cfg c)
  target : ∀ g ∈ tl.groups, Below (materializeTarget cfg g.name) cfg.targetPath
  apart : tl.groups.Pairwise fun g g' =>
    ¬Filepath.Within (worktreePath cfg c g.name) (worktreePath cfg c g'.name) ∧
      ¬Filepath.Within (worktreePath cfg c g'.name) (worktreePath cfg c g.name)

/-- Every name, where it climbs out of a root, comes back down the same segments and goes on, and
none continues where another entry ends. -/
structure SeparateNames (cfg : RunConfig) (c : Change) (tl : TasksList) : Prop where
  worktree : ∀ g ∈ tl.groups, Filepath.Returns (components (changeRoot cfg c)) g.name
  target : ∀ g ∈ tl.groups, Filepath.Returns (components cfg.targetPath) g.name
  separate : tl.groups.Pairwise fun g g' =>
    ¬landing (components (changeRoot cfg c)) g'.name <+:
        landing (components (changeRoot cfg c)) g.name ∧
      ¬landing (components (changeRoot cfg c)) g.name <+:
        landing (components (changeRoot cfg c)) g'.name

theorem within_worktreePath_iff (hroot : CleanAbs cfg.worktreeRoot) (c : Change)
    (hname : Filepath.Returns (components (changeRoot cfg c)) name)
    (hname' : Filepath.Returns (components (changeRoot cfg c)) name') :
    Filepath.Within (worktreePath cfg c name) (worktreePath cfg c name') ↔
      landing (components (changeRoot cfg c)) name' <+:
        landing (components (changeRoot cfg c)) name := by
  rw [Filepath.Within, components_of_returns (components_worktreePath hroot c name) hname,
    components_of_returns (components_worktreePath hroot c name') hname']
  exact List.prefix_append_right_inj _

/-- Every worktree and every target is in its place, and the worktrees are apart, exactly if the
names are separate. -/
theorem confined_iff (cfg : RunConfig) (c : Change) (tl : TasksList)
    (hroot : CleanAbs cfg.worktreeRoot) (htarget : CleanAbs cfg.targetPath) :
    Confined cfg c tl ↔ SeparateNames cfg c tl := by
  have hworktree : ∀ g : TaskGroupSpec, Below (worktreePath cfg c g.name) (changeRoot cfg c) ↔
      Filepath.Returns (components (changeRoot cfg c)) g.name := fun g =>
    below_iff_returns (components_worktreePath hroot c g.name) rfl
  have hplace : ∀ g : TaskGroupSpec, Below (materializeTarget cfg g.name) cfg.targetPath ↔
      Filepath.Returns (components cfg.targetPath) g.name := fun g =>
    below_iff_returns (components_materializeTarget htarget g.name) rfl
  -- Once the names return, the paths are apart as the landings are.
  have hapart (hreturns : ∀ g ∈ tl.groups,
      Filepath.Returns (components (changeRoot cfg c)) g.name) :=
    List.Pairwise.iff_of_mem (l := tl.groups) fun {g g'} hg hg' =>
      (and_congr (not_congr (within_worktreePath_iff hroot c (hreturns g hg) (hreturns g' hg')))
        (not_congr (within_worktreePath_iff hroot c (hreturns g' hg') (hreturns g hg))))
  constructor
  · intro h
    have hreturns := fun g hg => (hworktree g).mp (h.worktree g hg)
    exact ⟨hreturns, fun g hg => (hplace g).mp (h.target g hg), (hapart hreturns).mp h.apart⟩
  · intro h
    exact ⟨fun g hg => (hworktree g).mpr (h.worktree g hg),
      fun g hg => (hplace g).mpr (h.target g hg), (hapart h.worktree).mpr h.separate⟩

def sampleRoots : RunConfig :=
  { worktreeRoot := "/work", targetPath := "/out" }

/-- A group with an ordinary name, and one that climbs out of both roots and comes back. -/
def ordinaryNames : TasksList :=
  ⟨[{ name := "backend" }, { name := "../1/web/app" }]⟩

theorem confined_ordinaryNames :
    Confined { worktreeRoot := "/work", targetPath := "/out/1" } (sampleChange .tasks)
      ordinaryNames :=
  (confined_iff _ _ _ (by decide +kernel) (by decide +kernel)).mpr
    ⟨by decide +kernel, by decide +kernel, by decide +kernel⟩

def oneName (name : String) : TasksList :=
  ⟨[{ name := name }]⟩

def twoNames (name name' : String) : TasksList :=
  ⟨[{ name := name }, { name := name' }]⟩

theorem below_of_confined_oneName (h : Confined cfg c (oneName name)) :
    Below (worktreePath cfg c name) (changeRoot cfg c) :=
  h.worktree { name := name } (List.mem_singleton_self _)

theorem not_within_of_confined_twoNames (h : Confined cfg c (twoNames name name')) :
    ¬Filepath.Within (worktreePath cfg c name') (worktreePath cfg c name) :=
  ((List.pairwise_cons.mp h.apart).1 { name := name' } (List.mem_singleton_self _)).2

/-- With clean absolute roots a name can leave both of them, an empty name denotes the
directory of the change itself, and a name can denote the worktree of another entry
or a directory in it. -/
theorem climbing_name_escapes :
    (CleanAbs sampleRoots.worktreeRoot ∧ CleanAbs sampleRoots.targetPath) ∧
      (worktreePath sampleRoots (sampleChange .tasks) "../../etc" = "/etc" ∧
        ¬Confined sampleRoots (sampleChange .tasks) (oneName "../../etc")) ∧
      (materializeTarget sampleRoots "../etc" = "/etc" ∧
        ¬Filepath.Within (materializeTarget sampleRoots "../etc") sampleRoots.targetPath) ∧
      ¬Confined sampleRoots (sampleChange .tasks) (oneName "") ∧
      ¬Confined sampleRoots (sampleChange .tasks) (twoNames "web" "./web") ∧
      ¬Confined sampleRoots (sampleChange .tasks) (twoNames "web" "web/app") := by
  refine ⟨⟨by decide +kernel, by decide +kernel⟩, ⟨by decide +kernel, fun h => ?_⟩,
    ⟨by decide +kernel, by decide +kernel⟩, fun h => ?_, fun h => ?_, fun h => ?_⟩
  · have hwithin : ¬Filepath.Within (worktreePath sampleRoots (sampleChange .tasks) "../../etc")
        (changeRoot sampleRoots (sampleChange .tasks)) := by decide +kernel
    exact hwithin (below_of_confined_oneName h).within
  · have heq : components (worktreePath sampleRoots (sampleChange .tasks) "") =
        components (changeRoot sampleRoots (sampleChange .tasks)) := by decide +kernel
    exact (below_of_confined_oneName h).components_ne heq
  · have hwithin : Filepath.Within (worktreePath sampleRoots (sampleChange .tasks) "./web")
        (worktreePath sampleRoots (sampleChange .tasks) "web") := by decide +kernel
    exact not_within_of_confined_twoNames h hwithin
  · have hwithin : Filepath.Within (worktreePath sampleRoots (sampleChange .tasks) "web/app")
        (worktreePath sampleRoots (sampleChange .tasks) "web") := by decide +kernel
    exact not_within_of_confined_twoNames h hwithin

end SophiaOrchestrator.Apply
