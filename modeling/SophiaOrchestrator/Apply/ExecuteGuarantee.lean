import SophiaOrchestrator.Apply.Guarantee
import SophiaOrchestrator.Apply.ExecuteProtocol

/-!
# The guarantee of Execute

Every operation of `Execute` is justified by its history, and with the goroutines of
groups and tasks every operation of every call (`main_keeps`).
-/

namespace SophiaOrchestrator.Apply

open Effects Prog

namespace ExecStage

def started : ExecStage → List Group
  | .running started _ => started
  | .waited groups | .asked groups _ | .concluded groups _ => groups
  | _ => []

def order : ExecStage → Nat
  | .opened | .listed _ => 1
  | .found _ _ => 2
  | .running _ _ => 4
  | .waited _ => 5
  | .asked _ _ => 6
  | .concluded _ _ => 7
  | _ => 3

def Lists : ExecStage → Option TasksList × List GroupID × Bool → Prop
  | .opened, board => board = (none, [], false)
  | .listed tl, board | .found tl _, board | .loading tl _ _ _ _, board | .boardless tl, board =>
    board = (some tl, [], false)
  | .making tl _ ids _ _, board => board = (some tl, ids, true)
  | .failed, _ => True
  | _, board => ∃ tl, board.1 = some tl

/-- What an `Execute` knows of its history at a stage. -/
def Knows (cfg : RunConfig) (x : Nat) (c : Change) (p : Phase) (s : ExecStage) (h : History) :
    Prop :=
  match s with
  | .opened | .listed _ => True
  | .found _ row => ⟨.findBoard x p.id, .ok row⟩ ∈ h
  | .loading tl row rows rest loaded => ⟨.findBoard x p.id, .ok row⟩ ∈ h ∧
      (∃ past, ⟨.findGroups x row.id, .ok rows⟩ :: past <:+ h ∧ (view past).tasksList = some tl) ∧
      ∃ before, rows = before ++ rest ∧ List.Forall₂ (LoadedGroup h x) before loaded
  | .boardless _ | .failed => Troubled cfg h
  | .making _ bid _ made tasks => Troubled cfg h ∧ ⟨.newBoardID, .ok bid⟩ ∈ h ∧
      (∀ g ∈ made, FreshGroup bid g) ∧ ∀ t ∈ tasks, t.status = .pending ∧ t.attempts = 0
  | .assigning groups rest => rest ⊆ groups ∧ BoardOf h x p.id groups
  | .running started rest => BoardOf h x p.id (started ++ rest) ∧
      ∀ g ∈ rest, g.worktreePath = worktreePath cfg c g.name
  | .waited groups => BoardOf h x p.id groups ∧ ⟨.waitGroups x, ()⟩ ∈ h
  | .asked groups tripped => BoardOf h x p.id groups ∧ ⟨.waitGroups x, ()⟩ ∈ h ∧
      ⟨.breakerTripped x, tripped⟩ ∈ h
  | .concluded groups results => BoardOf h x p.id groups ∧ ⟨.waitGroups x, ()⟩ ∈ h ∧
      ⟨.readResults x, results⟩ ∈ h

end ExecStage

structure AtExecute (cfg : RunConfig) (call : Call) (x : Nat) (c : Change) (p : Phase)
    (s : ExecStage) (h : History) : Prop where
  exec : IsExecute call h x p
  stage : (view h).stage ≤ s.order
  slot : (view h).slot = false
  groups : (view h).groups = s.started
  started : StartedAll h x p s.started
  lists : s.Lists (view h).board
  known : s.Knows cfg x c p h

section Execute

variable {cfg : RunConfig} {call : Call} {h h' : History} {x : Nat} {c : Change} {p : Phase}
  {s s' : ExecStage} {ev : Event} {op : Op} {groups started rest : List Group}
  {status : List (PhaseType × String)} {res : ExecuteReturn}

theorem Op.calm_of_minor (hop : op.minor = true) : op.calm = true := by
  cases op
  case memoryGet x c artifact => cases artifact <;> first | rfl | cases hop
  all_goals first | rfl | cases hop

theorem Op.stage_of_minor (hop : op.minor = true) : op.stage = 0 := by
  cases op <;> first | rfl | cases hop

theorem Troubled.onOk {answer : Except RepoErr Unit} {row : GroupRow}
    (hs : (∃ value, answer = .ok value) → s.Knows cfg x c p (⟨.saveGroup x row, answer⟩ :: h)) :
    (s.onOk answer).Knows cfg x c p (⟨.saveGroup x row, answer⟩ :: h) := by
  cases answer with
  | error err => exact troubled_of_mem List.mem_cons_self rfl
  | ok value => exact hs ⟨value, rfl⟩

/-! ## The board of a stage -/

theorem ExecStage.Boards.boardOf (hs : s.Boards groups) (hat : AtExecute cfg call x c p s h) :
    BoardOf h x p.id groups := by
  have hlists := hat.lists
  have hknown := hat.known
  cases hs with
  | loaded =>
    obtain ⟨hboard, ⟨past, hrows, hlist⟩, before, rfl, hloaded⟩ := hknown
    simp only [ExecStage.Lists, View.board, Prod.mk.injEq] at hlists
    rw [List.append_nil] at hrows
    exact .loaded _ _ past hboard hrows (hlist.trans hlists.1.symm) hloaded hlists.2.2
  | built hlength hmade =>
    obtain ⟨-, hbid, hfresh, -⟩ := hknown
    simp only [ExecStage.Lists, View.board, Prod.mk.injEq] at hlists
    refine .built _ _ hlists.1 hbid hlists.2.2 ?_ ?_ hfresh
    · rw [hlists.2.1]
      exact hlength
    · rw [hlists.2.1]
      exact hmade

theorem ExecStage.Boards.eqs (hs : s.Boards groups) :
    s.started = [] ∧ s.order = 3 ∧ ∀ {board}, s.Lists board → ∃ tl, board.1 = some tl := by
  cases hs with
  | loaded | built => exact ⟨rfl, rfl, fun hlists => ⟨_, congrArg Prod.fst hlists⟩⟩

theorem ExecStage.Assigns.eqs (hs : s.Assigns groups rest) :
    s.started = [] ∧ s.order = 3 ∧ ∀ {board}, s.Lists board → ∃ tl, board.1 = some tl := by
  cases hs with
  | boards hs => exact hs.eqs
  | assigning => exact ⟨rfl, rfl, id⟩

theorem ExecStage.Assigns.boardOf (hs : s.Assigns groups rest)
    (hat : AtExecute cfg call x c p s h) : rest ⊆ groups ∧ BoardOf h x p.id groups := by
  cases hs with
  | boards hs => exact ⟨List.Subset.refl _, hs.boardOf hat⟩
  | assigning => exact hat.known

theorem ExecStage.Starts.eqs (hs : s.Starts cfg c started rest) :
    s.started = started ∧ s.order ≤ 4 ∧ ∀ {board}, s.Lists board → ∃ tl, board.1 = some tl := by
  cases hs with
  | assigned hs => exact ⟨hs.eqs.1, hs.eqs.2.1.trans_le (by decide), hs.eqs.2.2⟩
  | running => exact ⟨rfl, le_rfl, id⟩

theorem ExecStage.Starts.boardOf (hs : s.Starts cfg c started rest)
    (hat : AtExecute cfg call x c p s h) : BoardOf h x p.id (started ++ rest) ∧
      ∀ g ∈ rest, g.worktreePath = worktreePath cfg c g.name := by
  cases hs with
  | assigned hs =>
    refine ⟨(hs.boardOf hat).2.assignWorktrees _ _, fun g hg => ?_⟩
    obtain ⟨g₀, -, rfl⟩ := List.mem_map.mp hg
    rfl
  | running => exact hat.known

/-! ## Moves -/

theorem ExecStage.Knows.extend (hs : s.Knows cfg x c p h) (hsuffix : h <:+ h')
    (hboard : (view h').board = (view h).board) : s.Knows cfg x c p h' := by
  have hsub : ∀ {ev : Event}, ev ∈ h → ev ∈ h' := fun hmem => hsuffix.subset hmem
  cases s with
  | opened | listed => trivial
  | found => exact hsub hs
  | loading =>
    obtain ⟨hrow, ⟨past, hrows, hlist⟩, before, heq, hloaded⟩ := hs
    exact ⟨hsub hrow, ⟨past, hrows.trans hsuffix, hlist⟩, before, heq,
      hloaded.imp fun _ _ hg => hg.mono hsuffix⟩
  | boardless | failed => exact Troubled.mono hs hsuffix
  | making => exact ⟨hs.1.mono hsuffix, hsub hs.2.1, hs.2.2⟩
  | assigning => exact ⟨hs.1, hs.2.mono hsuffix hboard⟩
  | running => exact ⟨hs.1.mono hsuffix hboard, hs.2⟩
  | waited => exact ⟨hs.1.mono hsuffix hboard, hsub hs.2⟩
  | asked | concluded => exact ⟨hs.1.mono hsuffix hboard, hsub hs.2.1, hsub hs.2.2⟩

theorem ExecMove.justified (hmove : ExecMove cfg x c p s ev s') (hcall : call = .execute c p status)
    (hs : AtExecute cfg call x c p s h) : Justified cfg call ev h := by
  have hknown := hs.known
  have hanytime : ∀ {op : Op}, op.stage = 0 → Ordered op h := fun hzero hstage =>
    absurd hzero hstage
  cases hmove with
  | stay hop | fails _ hop => exact justified_of_calm cfg call h (Op.calm_of_minor hop)
  | finds | findsNone => exact ⟨fun _ => Nat.lt_succ_of_le hs.stage, p, hs.exec, rfl⟩
  | groups | groupless => exact ⟨fun _ => Nat.lt_succ_of_le hs.stage, p, _, hs.exec, hknown⟩
  | loads | unloaded =>
    obtain ⟨-, ⟨past, hrows, -⟩, before, rfl, -⟩ := hknown
    exact ⟨fun _ => hs.stage, ⟨p, hs.exec⟩, _, _, _, hrows.subset List.mem_cons_self,
      List.mem_append_right _ List.mem_cons_self, rfl⟩
  | begins | unbegun => exact ⟨fun _ => hs.stage, hknown⟩
  | makes hboard hstatus =>
    exact ⟨hanytime rfl, fun hcompleted => by cases hstatus.symm.trans hcompleted⟩
  | saves =>
    exact ⟨fun _ => hs.stage, .inl ⟨⟨p, hs.exec⟩, congrArg (fun board => board.2.2) hs.lists,
      hknown.2.2.2 _ List.mem_cons_self⟩⟩
  | assigns hassigns =>
    obtain ⟨hsub, hof⟩ := hassigns.boardOf hs
    have hloaded := hof.loadedCompleted (hsub List.mem_cons_self)
    exact ⟨hanytime rfl, fun hcompleted => .inl ⟨⟨p, hs.exec⟩, hloaded hcompleted⟩⟩
  | starts hstarts =>
    obtain ⟨hof, hworktree⟩ := hstarts.boardOf hs
    refine ⟨fun _ => hs.stage.trans hstarts.eqs.2.1, hs.exec, ⟨status, hcall⟩,
      hworktree _ List.mem_cons_self, _, hof, by simp, ?_⟩
    rw [hs.groups, hstarts.eqs.1]
    simp
  | waits hstarts =>
    obtain ⟨hof, -⟩ := hstarts.boardOf hs
    rw [List.append_nil] at hof
    exact ⟨fun _ => Nat.lt_succ_of_le (hs.stage.trans hstarts.eqs.2.1), p, _, hs.exec, hof,
      hstarts.eqs.1 ▸ hs.started⟩
  | asks => exact ⟨fun _ => hs.stage.trans (Nat.le_succ _), hknown.2⟩
  | reads => exact ⟨fun _ => hs.stage.trans (Nat.le_succ _), hknown.2.2⟩
  | _ => exact ⟨hanytime rfl, trivial⟩

theorem ExecMove.order (hmove : ExecMove cfg x c p s ev s') (hs : (view h).stage ≤ s.order) :
    (view (ev :: h)).stage ≤ s'.order := by
  have hmax : s.order ≤ s'.order → ev.op.stage ≤ s'.order → (view (ev :: h)).stage ≤ s'.order :=
    fun hle hstage => max_le (hs.trans hle) hstage
  cases hmove with
  | stay hop => exact hmax le_rfl ((Op.stage_of_minor hop).trans_le (Nat.zero_le _))
  | fails hearly hop =>
    refine hmax ?_ ((Op.stage_of_minor hop).trans_le (Nat.zero_le _))
    cases s <;> first | exact Nat.le_of_ble_eq_true rfl | cases hearly
  | @makes _ _ _ _ _ _ answer | @saves _ _ _ _ _ _ answer =>
    cases answer <;> exact hmax le_rfl (Nat.le_of_ble_eq_true rfl)
  | @assigns _ _ _ _ answer hassigns =>
    cases answer <;> exact hmax hassigns.eqs.2.1.le (Nat.zero_le _)
  | starts hstarts => exact hmax hstarts.eqs.2.1 le_rfl
  | waits hstarts => exact hmax (hstarts.eqs.2.1.trans (Nat.le_succ _)) le_rfl
  | unnumbered => exact hmax le_rfl (Nat.zero_le _)
  | _ => exact hmax (Nat.le_of_ble_eq_true rfl) (Nat.le_of_ble_eq_true rfl)

theorem ExecMove.slot (hmove : ExecMove cfg x c p s ev s') :
    (view (ev :: h)).slot = (view h).slot := by
  cases hmove with
  | stay hop | fails _ hop => rw [view_cons, View.after_of_calm _ (Op.calm_of_minor hop)]
  | _ => rfl

theorem ExecMove.started_cases (hmove : ExecMove cfg x c p s ev s') :
    (∃ i g k, ev = ⟨.go (.group x i c p g), k⟩ ∧ s'.started = s.started ++ [g]) ∨
      (s'.started = s.started ∧ (view (ev :: h)).groups = (view h).groups) := by
  cases hmove with
  | stay hop => exact .inr ⟨rfl, by rw [view_cons, View.after_of_calm _ (Op.calm_of_minor hop)]⟩
  | fails hearly hop =>
    refine .inr ⟨?_, by rw [view_cons, View.after_of_calm _ (Op.calm_of_minor hop)]⟩
    cases s <;> first | rfl | cases hearly
  | @makes _ _ _ _ _ _ answer | @saves _ _ _ _ _ _ answer => cases answer <;> exact .inr ⟨rfl, rfl⟩
  | @assigns _ _ _ _ answer hassigns => cases answer <;> exact .inr ⟨hassigns.eqs.1.symm, rfl⟩
  | starts hstarts => exact .inl ⟨_, _, _, rfl, congrArg (· ++ [_]) hstarts.eqs.1.symm⟩
  | waits hstarts => exact .inr ⟨hstarts.eqs.1.symm, rfl⟩
  | _ => exact .inr ⟨rfl, rfl⟩

theorem ExecMove.keepsLists (hmove : ExecMove cfg x c p s ev s') (hs : s.Lists (view h).board) :
    s'.Lists (view (ev :: h)).board := by
  cases hmove with
  | stay hop =>
    rw [view_cons, View.after_of_calm _ (Op.calm_of_minor hop)]
    exact hs
  | fails | unlisted | unbegun => trivial
  | lists hparse =>
    simp only [ExecStage.Lists, View.board, Prod.mk.injEq] at hs
    simp [ExecStage.Lists, View.board, View.after, hparse, Except.toOption, hs]
  | begins | numbers =>
    simp only [ExecStage.Lists, View.board, Prod.mk.injEq] at hs
    simp [ExecStage.Lists, View.board, View.after, hs]
  | @makes _ _ _ _ _ _ answer | @saves _ _ _ _ _ _ answer =>
    cases answer with
    | error err => trivial
    | ok _ => exact hs
  | @assigns _ _ _ _ answer hassigns =>
    cases answer with
    | error err => trivial
    | ok _ => exact hassigns.eqs.2.2 hs
  | starts hstarts | waits hstarts => exact hstarts.eqs.2.2 hs
  | _ => exact hs

theorem ExecMove.knows (hmove : ExecMove cfg x c p s ev s') (hs : AtExecute cfg call x c p s h) :
    s'.Knows cfg x c p (ev :: h) := by
  have hknown := hs.known
  have hsuffix : h <:+ ev :: h := List.suffix_cons _ _
  have hsub : ∀ {ev' : Event}, ev' ∈ h → ev' ∈ ev :: h := List.mem_cons_of_mem _
  have hmem : ev ∈ ev :: h := List.mem_cons_self
  cases hmove with
  | stay hop =>
    refine hknown.extend hsuffix ?_
    rw [view_cons, View.after_of_calm _ (Op.calm_of_minor hop)]
  | fails _ _ hev | unlisted hev => exact troubled_of_mem hmem hev
  | lists => trivial
  | finds => exact hmem
  | groups =>
    exact ⟨hsub hknown, ⟨h, List.suffix_rfl, congrArg Prod.fst hs.lists⟩, [], rfl, .nil⟩
  | @loads _ _ _ row =>
    obtain ⟨hrow, ⟨past, hrows, hlist⟩, before, rfl, hloaded⟩ := hknown
    refine ⟨hsub hrow, ⟨past, hrows.trans hsuffix, hlist⟩, before ++ [row], by simp, ?_⟩
    exact List.rel_append (hloaded.imp fun _ _ hg => hg.mono hsuffix) (.cons ⟨rfl, rfl, hmem⟩ .nil)
  | findsNone | groupless | unloaded => exact troubled_of_mem hmem rfl
  | begins => exact ⟨Troubled.mono hknown hsuffix, hmem, by simp, by simp⟩
  | unbegun => exact Troubled.mono hknown hsuffix
  | numbers => exact ⟨hknown.1.mono hsuffix, hsub hknown.2.1, hknown.2.2⟩
  | unnumbered => exact hknown.extend hsuffix rfl
  | makes hboard hstatus hnew =>
    obtain ⟨htrouble, hbid, hfresh, -⟩ := hknown
    refine Troubled.onOk fun _ => ⟨htrouble.mono hsuffix, hsub hbid, fun g hg => ?_,
      fun t ht => ⟨(hnew t ht).1, (hnew t ht).2.1⟩⟩
    rcases List.mem_append.mp hg with hold | hlast
    · exact hfresh g hold
    · rw [List.mem_singleton.mp hlast]
      exact ⟨hboard, hstatus, fun t ht => ⟨(hnew t ht).1, (hnew t ht).2.1⟩⟩
  | @saves _ _ _ _ _ _ answer =>
    obtain ⟨htrouble, hbid, hfresh, htasks⟩ := hknown
    cases answer with
    | error err => exact htrouble.mono hsuffix
    | ok _ => exact ⟨htrouble.mono hsuffix, hsub hbid, hfresh, fun t ht =>
        htasks t (List.mem_cons_of_mem _ ht)⟩
  | assigns hassigns =>
    obtain ⟨hrest, hof⟩ := hassigns.boardOf hs
    exact Troubled.onOk fun _ => ⟨fun g hg => hrest (List.mem_cons_of_mem _ hg),
      hof.mono hsuffix rfl⟩
  | starts hstarts =>
    obtain ⟨hof, hworktree⟩ := hstarts.boardOf hs
    refine ⟨?_, fun g hg => hworktree g (List.mem_cons_of_mem _ hg)⟩
    rw [List.append_assoc]
    exact hof.mono hsuffix rfl
  | waits hstarts =>
    obtain ⟨hof, -⟩ := hstarts.boardOf hs
    rw [List.append_nil] at hof
    exact ⟨hof.mono hsuffix rfl, hmem⟩
  | asks => exact ⟨hknown.1.mono hsuffix rfl, hsub hknown.2, hmem⟩
  | reads => exact ⟨hknown.1.mono hsuffix rfl, hsub hknown.2.1, hmem⟩

theorem ExecMove.atExecute (hmove : ExecMove cfg x c p s ev s')
    (hs : AtExecute cfg call x c p s h) : AtExecute cfg call x c p s' (ev :: h) := by
  have hsuffix : h <:+ ev :: h := List.suffix_cons _ _
  have hgroups : (view (ev :: h)).groups = s'.started ∧ StartedAll (ev :: h) x p s'.started := by
    rcases hmove.started_cases (h := h) with ⟨i, g, k, rfl, hstarted⟩ | ⟨hstarted, hview⟩
    · refine ⟨by rw [hstarted, ← hs.groups]; rfl, fun g' hg' => ?_⟩
      rw [hstarted] at hg'
      rcases List.mem_append.mp hg' with hold | hlast
      · exact hs.started.mono hsuffix g' hold
      · rw [List.mem_singleton.mp hlast]
        exact ⟨i, c, k, List.mem_cons_self⟩
    · rw [hview, hstarted]
      exact ⟨hs.groups, hs.started.mono hsuffix⟩
  exact ⟨hs.exec.mono hsuffix, hmove.order hs.stage, hmove.slot.trans hs.slot, hgroups.1, hgroups.2,
    hmove.keepsLists hs.lists, hmove.knows hs⟩

/-! ## Whole calls -/

theorem AtExecute.explains (hs : AtExecute cfg call x c p s h) (hreturns : s.Returns c res) :
    Explains cfg call h ⟨.returned x res, ()⟩ := by
  have hknown := hs.known
  have hnot : res.envelope.status = .blocked → res.envelope.status = .done → Finalized h x p :=
    fun hblocked hdone => by cases hblocked.symm.trans hdone
  cases hreturns with
  | failed hblocked =>
    exact ⟨p, hs.exec, fun hne => absurd hs.groups hne, .inr hknown, hnot hblocked, hs.slot⟩
  | unmade hblocked =>
    exact ⟨p, hs.exec, fun hne => absurd hs.groups hne, .inr hknown.1, hnot hblocked, hs.slot⟩
  | tripped hblocked =>
    exact ⟨p, hs.exec, fun _ => hknown.2.1, .inl hknown.2.1, hnot hblocked, hs.slot⟩
  | @concluded groups results hres =>
    refine ⟨p, hs.exec, fun _ => hknown.2.1, .inl hknown.2.1, fun hdone => ?_, hs.slot⟩
    obtain ⟨tl, hlist⟩ := hs.lists
    refine ⟨results, tl, groups, hknown.2.2, hlist, hknown.1, hs.started, fun g hg => ?_⟩
    cases hany : groups.any (resultFailed results) with
    | true => simp [hres, finalEnvelope, applyEnvelope, hany] at hdone
    | false => simpa using List.any_eq_false.mp hany g hg

theorem ExecStage.Returns.order (hreturns : s.Returns c res) : s.order ≤ 7 := by
  cases hreturns <;> exact Nat.le_of_ble_eq_true rfl

theorem execute_keeps (hcall : call = .execute c p status) :
    Keeps cfg call (fun _ h' => (view h').slot = false) (execute cfg c p status) [] := by
  unfold execute
  refine keeps_calm rfl fun _ h₁ _ _ hview₁ => ?_
  refine keeps_perform (fun _ _ => ⟨fun _ => ?_, c, p, status, hcall⟩) ?_
  · rw [hview₁]
    exact Nat.zero_lt_one
  intro x h₂ _ hmem₂ _ hview₂
  rw [hview₁] at hview₂
  have hopened : AtExecute cfg call x c p .opened h₂ := by
    refine ⟨⟨⟨c, status, hcall⟩, _, hmem₂⟩, ?_, ?_, ?_, List.forall_mem_nil _, ?_, trivial⟩ <;>
      rw [hview₂] <;> first | exact le_rfl | rfl
  refine wp_bind (wp_mono (executeIn_follows.wp_hist (J := AtExecute cfg call x c p)
    (fun _ _ _ _ hmove _ hs => ⟨hmove.justified hcall hs, hmove.atExecute hs⟩) hopened)
    (fun _ => id) ?_)
  rintro res h₃ ⟨s, hreturns, hs⟩
  refine keeps_perform (f := Prog.done) (fun _ _ => ⟨fun _ => ?_, hs.explains hreturns⟩) ?_
  · exact Nat.lt_succ_of_le (hs.stage.trans hreturns.order)
  · intro _ h₄ _ _ _ hview₄
    show (view h₄).slot = false
    rw [hview₄]
    exact hs.slot

end Execute

/-! ## Every call -/

/-- Every operation of every call is justified, and a call that has ended holds no slot
of the spawn governor. -/
theorem main_keeps (cfg : RunConfig) (call : Call) :
    Keeps cfg call (fun _ h => (view h).slot = false) (main cfg call) [] := by
  cases call with
  | execute c p status => exact execute_keeps rfl
  | cancel x =>
    refine keeps_calm (f := Prog.done) rfl fun _ h' _ _ hview => ?_
    rw [Keeps, wp_done, hview]
    rfl
  | goroutine k =>
    unfold main
    refine keeps_perform (fun _ _ => ⟨fun hstage => absurd rfl hstage, rfl, rfl⟩) ?_
    intro answer h₁ _ hmem₁ _ hview₁
    have hview : view h₁ = {} := by simpa [View.after, Op.stage] using hview₁
    rcases answer with _ | ⟨x, i, c, p, g⟩ | ⟨x, team, c, p, g, t⟩
    · rw [Keeps, Prog.pure_eq, wp_done, hview]
    · refine groupGoroutine_keeps c rfl ⟨i, c, hmem₁⟩ ?_ ?_ ?_
      · rw [hview]
        exact Nat.zero_le _
      · rw [hview]
      · rw [hview]
    · refine taskGoroutine_keeps c p g ⟨c, p, g, hmem₁⟩ ?_ ?_
      · rw [hview]
        decide
      · rw [hview]

theorem main_justified (cfg : RunConfig) (call : Call) :
    (main cfg call).wp (histSem Op.Answers) (Good cfg call) (fun _ _ => True) [] :=
  wp_mono (main_keeps cfg call) (fun _ => id) fun _ _ _ => trivial

end SophiaOrchestrator.Apply
