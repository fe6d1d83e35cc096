import SophiaOrchestrator.Apply.Goroutines

/-!
# Executing a board again

An `Execute` on a phase that has a board takes the board up as it was left.  Its
team-leads start their groups, which only a pending group admits, and its agents are
dispatched for claimed tasks, and only a pending task can be claimed.  So the groups and
tasks that an earlier `Execute` has left in another status are not worked on again.
-/

namespace SophiaOrchestrator.Apply

open Effects Prog

variable {cfg : RunConfig} {s : State} {h : History} {t : ApplyThread} {k x : Nat} {ev : Event}
  {bid : BoardID} {c : Change} {p : Phase} {g : Group} {task : Task} {rows : List GroupRow}
  {row : GroupRow}

/-! ## What an Execute owes to its board -/

def TeamLeadRan (D : ApplyLog) (x : Nat) (gid : GroupID) : Prop :=
  ∃ v k i c p g sid, D v ⟨.beginGoroutine k, some (.group x i c p g)⟩ ∧ g.id = gid ∧
    D v ⟨.publishEvent p.id (.teamLeadSpawned sid gid), ()⟩ ∧ D v ⟨.waitTasks k, ()⟩

def ImplementDispatched (D : ApplyLog) (x : Nat) (id : TaskID) : Prop :=
  ∃ (v : Nat) (req : DispatchRequest) (answer : Except DispatchErr AgentResult),
    D v ⟨.dispatch x req, answer⟩ ∧ req.target = .implement id

/-- Every `Execute` that has returned has run the team-lead of every group that it had
loaded as not completed, and has dispatched an agent for every task of such a group that
was not done and had attempts left. -/
def Reattempted (π : ApplyPool) : Prop :=
  ∀ t ∈ π.threads, ∀ x res, ⟨.returned x res, ()⟩ ∈ t.hist →
    ∀ bid rows, ⟨.findGroups x bid, .ok rows⟩ ∈ t.hist →
    ∀ row ∈ rows, ∃ g, LoadedGroup t.hist x row g ∧ (row.status ≠ .completed →
      TeamLeadRan π.Did x row.id ∧ ∀ task ∈ g.tasks, task.status ≠ .done →
        task.attempts < maxAttempts → ImplementDispatched π.Did x task.id)

/-! ## The condition -/

def opensGroup (gid : GroupID) : Event → Bool
  | ⟨.findGroups _ _, .ok rows⟩ =>
    rows.any fun row => decide (row.id = gid ∧ row.status ≠ .completed)
  | _ => false

def loadsPending (past : History) : Event → Bool
  | ⟨.findGroups _ _, .ok rows⟩ =>
    rows.all fun row => decide (row.status ≠ .completed → row.status = .pending)
  | ⟨.findTasks _ gid, .ok tasks⟩ =>
    !past.any (opensGroup gid) || tasks.all fun task =>
      decide (task.status ≠ .done → task.attempts < maxAttempts → task.status = .pending)
  | _ => true

def givenPending : Event → Bool
  | ⟨.beginGoroutine _, some (.task _ _ _ _ _ task)⟩ => decide (task.status = .pending)
  | _ => false

/-- A goroutine that was given a pending task finds its row pending. -/
def claimsPending (s : State) (past : History) : Op → Bool
  | .claimTask _ id _ => !past.any givenPending ||
      (s.db.tasks.findTarget id).any fun row => decide (row.status = .pending)
  | _ => true

def Op.looksForBoard : Op → Bool
  | .findBoard _ _ => true
  | _ => false

/-- What was left open is pending, and nothing goes wrong; a phase need not have a board. -/
def resumable (cfg : RunConfig) : StepCondition :=
  fun op ch hist s => (op.looksForBoard || !mishap ⟨op, (handle cfg op ch s).1⟩) &&
    loadsPending hist ⟨op, (handle cfg op ch s).1⟩ && claimsPending s hist op

def losesClaim (past : History) : Event → Bool
  | ⟨.claimTask _ _ _, .ok false⟩ => past.any givenPending
  | _ => false

def Smooth (h : History) : Prop :=
  ∀ ev past, ev :: past <:+ h → (ev.op.looksForBoard = true ∨ mishap ev = false) ∧
    loadsPending past ev = true ∧ losesClaim past ev = false ∧ Op.Answers ev.op ev.ret

theorem losesClaim_eq_false {op : Op} {ch : Choice} {hist : History}
    (h : claimsPending s hist op = true) :
    losesClaim hist ⟨op, (handle cfg op ch s).1⟩ = false := by
  cases op
  case claimTask x id sid =>
    simp only [claimsPending, Bool.or_eq_true, Bool.not_eq_true', Option.any_eq_true,
      decide_eq_true_eq] at h
    rcases h with hnone | ⟨row, hrow, hpending⟩
    · simp only [losesClaim]
      split
      · exact hnone
      · rfl
    · have hgranted : (handle cfg (.claimTask x id sid) ch s).1 ≠ .ok false := by
        simp only [handle, State.claim]
        split
        · exact fun heq => by cases heq
        · cases ch.fault <;> simp [BoardStore.claimTask, hrow, hpending]
      simp only [losesClaim]
      split
      · next heq => exact absurd (eq_of_heq (Ev.mk.inj heq).2) hgranted
      · rfl
  all_goals rfl

theorem histories_smooth {moves : List ApplyMove}
    (hok : RunMeets cfg s (resumable cfg) moves = true) :
    Pool.Histories Smooth (reach cfg s moves) := by
  refine Pool.hist_induction (P := Smooth) ?_ ?_ s moves hok
  · intro ev past hsuffix
    cases List.suffix_nil.mp hsuffix
  · intro op ch hist s hop hhist ev past hsuffix
    rcases List.suffix_cons_iff.mp hsuffix with heq | hold
    · obtain ⟨rfl, rfl⟩ := List.cons.inj heq
      simp only [resumable, Bool.and_eq_true, Bool.or_eq_true, Bool.not_eq_true'] at hop
      exact ⟨hop.1.1, hop.1.2, losesClaim_eq_false hop.2, handle_answers cfg op ch s⟩
    · exact hhist ev past hold

theorem Smooth.not_troubled (hprovider : cfg.validProvider = true) (hsmooth : Smooth h)
    (hboard : ∀ ev ∈ h, ev.op.looksForBoard = true → mishap ev = false) :
    ¬Troubled cfg h := by
  rintro (hinvalid | ⟨ev, hmem, hmishap⟩)
  · rw [hprovider] at hinvalid
    cases hinvalid
  · have hfine : mishap ev = false := by
      obtain ⟨newer, past, rfl⟩ := List.append_of_mem hmem
      rcases (hsmooth ev past (List.suffix_append _ _)).1 with hlooks | hfine
      · exact hboard ev hmem hlooks
      · exact hfine
    rw [hfine] at hmishap
    cases hmishap

theorem Smooth.of_suffix {h' : History} (hsmooth : Smooth h) (hsuffix : h' <:+ h) : Smooth h' :=
  fun ev past hpart => hsmooth ev past (hpart.trans hsuffix)

/-! ## From the return of an Execute to its dispatches -/

theorem not_looksForBoard_of_begin (hkeeps : Pool.Keeps Op.Answers (Good cfg) t)
    {a : Option Goroutine} (hbegin : ⟨.beginGoroutine k, a⟩ ∈ t.hist) (hmem : ev ∈ t.hist) :
    ev.op.looksForBoard = false := by
  obtain ⟨op, answer⟩ := ev
  cases op
  case findBoard x pid =>
    obtain ⟨past, -, hjust⟩ := justified_of_mem hkeeps hmem
    obtain ⟨p, ⟨⟨c, status, hcall⟩, -⟩, -⟩ := hjust.reason
    rw [call_of_begin hkeeps hbegin] at hcall
    cases hcall
  all_goals rfl

theorem found_of_findGroups (hkeeps : Pool.Keeps Op.Answers (Good cfg) t)
    {answer : Except RepoErr (List GroupRow)} (hrows : ⟨.findGroups x bid, answer⟩ ∈ t.hist)
    (hmem : ev ∈ t.hist) (hlooks : ev.op.looksForBoard = true) :
    mishap ev = false := by
  obtain ⟨past, hsuffix, hjust⟩ := justified_of_mem hkeeps hrows
  obtain ⟨p, row, -, hfound⟩ := hjust.reason
  obtain ⟨op, answer'⟩ := ev
  cases op
  case findBoard y pid =>
    have hsame := eq_of_single hkeeps hmem (hsuffix.subset (List.mem_cons_of_mem _ hfound))
      rfl rfl (show 2 ≠ 0 by decide) rfl
    rw [hsame]
    rfl
  all_goals cases hlooks

section Calm

variable (hprovider : cfg.validProvider = true) {π : ApplyPool}
  (hkeeps : ∀ t ∈ π.threads, Pool.Keeps Op.Answers (Good cfg) t) (hsmooth : Pool.Histories Smooth π)
  {sk : Skeleton} (hnum : Numbered π.Did sk)

include hprovider hkeeps hsmooth hnum

/-- The goroutine of a task that was open and pending ends with a dispatch. -/
theorem dispatched_of_taskDone {u w team : Nat} (hgo : π.Did u ⟨.go (.task x team c p g task), k⟩)
    (hdone : π.Did w ⟨.taskDone team k, ()⟩) (hpending : task.status = .pending)
    (hdescription : task.description ≠ "") : ImplementDispatched π.Did x task.id := by
  obtain ⟨t, hthread, hmem⟩ := hdone
  have ht : t ∈ π.threads := List.mem_of_getElem? hthread
  obtain ⟨past, hsuffix, hjust⟩ := justified_of_mem (hkeeps t ht) hmem
  have hpast : past <:+ t.hist := (List.suffix_cons _ _).trans hsuffix
  -- Whatever the thread has begun is the goroutine that was started.
  have hsame : ∀ {k' x' team' c' p' g' task'},
      ⟨.beginGoroutine k', some (.task x' team' c' p' g' task')⟩ ∈ t.hist → k' = k →
      x' = x ∧ task' = task := by
    rintro k' x' team' c' p' g' task' hbegin rfl
    have hposted := (hnum.begun ((Pool.did_iff_mem hthread _).mpr hbegin)).2.1
    rw [hnum.posted hgo] at hposted
    cases hposted
    exact ⟨rfl, rfl⟩
  obtain ⟨x', task', ⟨c', p', g', hbegin⟩, hends, -⟩ := hjust.reason
  have hbegun := hpast.subset hbegin
  obtain ⟨rfl, rfl⟩ := hsame hbegun rfl
  rcases hends with hended | hempty | htrouble | ⟨sid, hlost⟩ | ⟨req, answer, hdispatch, htarget⟩
  · rw [hpending] at hended
    cases hended
  · exact absurd hempty hdescription
  · refine absurd htrouble (((hsmooth t ht).of_suffix hpast).not_troubled hprovider ?_)
    intro ev hev hlooks
    rw [not_looksForBoard_of_begin (hkeeps t ht) hbegun (hpast.subset hev)] at hlooks
    cases hlooks
  · -- A claim of a pending task is not lost.
    obtain ⟨earlier, hclaim, hclaimed⟩ := justified_of_mem (hkeeps t ht) (hpast.subset hlost)
    obtain ⟨k', team', task'', ⟨c'', p'', g'', hagain⟩, -⟩ := hclaimed.reason
    have hagain' := hclaim.subset (List.mem_cons_of_mem _ hagain)
    have hk : Call.goroutine k' = .goroutine k :=
      (call_of_begin (hkeeps t ht) hagain').symm.trans (call_of_begin (hkeeps t ht) hbegun)
    obtain ⟨-, rfl⟩ := hsame hagain' (Call.goroutine.inj hk)
    have hkept := (hsmooth t ht _ _ hclaim).2.2.1
    have hgiven : earlier.any givenPending = true :=
      List.any_eq_true.mpr ⟨_, hagain, decide_eq_true hpending⟩
    simp only [losesClaim, hgiven] at hkept
    cases hkept
  · exact ⟨w, req, answer, (Pool.did_iff_mem hthread _).mpr (hpast.subset hdispatch), htarget⟩

/-- The goroutine of a pending group runs the team-lead, which starts a goroutine for each
task of the group. -/
theorem teamLead_of_groupDone {e v i : Nat} (hgo : π.Did e ⟨.go (.group x i c p g), k⟩)
    (hdone : π.Did v ⟨.groupDone x k, ()⟩) (hpending : g.status = .pending) :
    TeamLeadRan π.Did x g.id ∧ π.Did v ⟨.waitTasks k, ()⟩ ∧
      ∀ task ∈ g.tasks, ∃ c p g k', π.Did v ⟨.go (.task x k c p g task), k'⟩ := by
  obtain ⟨t, hthread, hmem⟩ := hdone
  have ht : t ∈ π.threads := List.mem_of_getElem? hthread
  have hdid := Pool.did_iff_mem hthread
  obtain ⟨past, hsuffix, hjust⟩ := justified_of_mem (hkeeps t ht) hmem
  have hpast : past <:+ t.hist := (List.suffix_cons _ _).trans hsuffix
  -- Whatever the thread has begun is the goroutine that was started.
  have hsame : ∀ {x' i' c' p' g'}, ⟨.beginGoroutine k, some (.group x' i' c' p' g')⟩ ∈ t.hist →
      x' = x ∧ i' = i ∧ c' = c ∧ p' = p ∧ g' = g := by
    intro x' i' c' p' g' hbegin
    have hposted := (hnum.begun ((hdid _).mpr hbegin)).2.1
    rw [hnum.posted hgo] at hposted
    cases hposted
    exact ⟨rfl, rfl, rfl, rfl, rfl⟩
  obtain ⟨p', g', ⟨i', c', hbegin⟩, -, -, hwaited, -⟩ := hjust.reason
  obtain ⟨-, rfl, rfl, rfl, rfl⟩ := hsame (hpast.subset hbegin)
  have hcalm : ¬Troubled cfg past := by
    refine ((hsmooth t ht).of_suffix hpast).not_troubled hprovider fun ev hev hlooks => ?_
    rw [not_looksForBoard_of_begin (hkeeps t ht) (hpast.subset hbegin) (hpast.subset hev)] at hlooks
    cases hlooks
  have hwait := (hwaited hpending).resolve_right hcalm
  obtain ⟨earlier, hearlier, hled⟩ := justified_of_mem (hkeeps t ht) (hpast.subset hwait)
  have hinner : earlier <:+ t.hist := (List.suffix_cons _ _).trans hearlier
  obtain ⟨x'', p'', g'', ⟨i'', c'', hbegin''⟩, -, htasks, sid, hspawned⟩ := hled.reason
  obtain ⟨rfl, rfl, rfl, rfl, rfl⟩ := hsame (hinner.subset hbegin'')
  have hbegun := (hdid _).mpr (hpast.subset hbegin)
  have hwaits := (hdid _).mpr (hpast.subset hwait)
  refine ⟨⟨v, k, i'', c'', p'', g'', sid, hbegun, rfl, (hdid _).mpr (hinner.subset hspawned),
    hwaits⟩, hwaits, fun task htask => ?_⟩
  rw [← htasks] at htask
  obtain ⟨y, team, ct, pt, gt, k', hstart⟩ := exists_go_of_mem_tasks htask
  obtain ⟨oldest, holdest, hstarted⟩ := justified_of_mem (hkeeps t ht) (hinner.subset hstart)
  obtain ⟨hcall, q, lead, ⟨j, d, hlead⟩, -⟩ := hstarted.reason
  have hteam : Call.goroutine team = .goroutine k :=
    hcall.symm.trans (call_of_begin (hkeeps t ht) (hpast.subset hbegin))
  obtain rfl := Call.goroutine.inj hteam
  obtain ⟨rfl, -⟩ := hsame (holdest.subset (List.mem_cons_of_mem _ hlead))
  exact ⟨ct, pt, gt, k', (hdid _).mpr (hinner.subset hstart)⟩

end Calm

/-- The groups that an `Execute` has started goroutines for when it waits are the ones
that it has loaded. -/
theorem loaded_of_waitGroups (hprovider : cfg.validProvider = true)
    (hkeeps : Pool.Keeps Op.Answers (Good cfg) t) (hsmooth : Smooth t.hist)
    (hwait : ⟨.waitGroups x, ()⟩ ∈ t.hist) (hrows : ⟨.findGroups x bid, .ok rows⟩ ∈ t.hist)
    (hrow : row ∈ rows) :
    ∃ g, LoadedGroup t.hist x row g ∧ ∃ i c p k, ⟨.go (.group x i c p g), k⟩ ∈ t.hist := by
  obtain ⟨past, hsuffix, hjust⟩ := justified_of_mem hkeeps hwait
  have hpast : past <:+ t.hist := (List.suffix_cons _ _).trans hsuffix
  obtain ⟨p, groups, -, hof, hstarted⟩ := hjust.reason
  cases hof with
  | loaded brow rows' earlier hboard hfound hknown hgroups hold =>
    have hsame := eq_of_single hkeeps hrows
      (hpast.subset (hfound.subset List.mem_cons_self)) rfl rfl (show 3 ≠ 0 by decide) rfl
    cases hsame
    obtain ⟨g, hg, hloaded⟩ := exists_related_of_mem hgroups.flip hrow
    obtain ⟨i, c, k, hgo⟩ := hstarted g hg
    exact ⟨g, hloaded.mono hpast, i, c, p, k, hpast.subset hgo⟩
  | built tl nbid hlist hbid hnew hlength hids hfresh =>
    -- A new board is built only when the stored one was not found.
    exfalso
    obtain ⟨earlier, hearlier, hbuilt⟩ := justified_of_mem hkeeps (hpast.subset hbid)
    have hpart := (List.suffix_cons _ _).trans hearlier
    exact (hsmooth.of_suffix hpart).not_troubled hprovider
      (fun ev hev => found_of_findGroups hkeeps hrows (hpart.subset hev)) hbuilt.reason

theorem pending_of_loaded (hkeeps : Pool.Keeps Op.Answers (Good cfg) t) (hsmooth : Smooth t.hist)
    (hrows : ⟨.findGroups x bid, .ok rows⟩ ∈ t.hist) (hrow : row ∈ rows)
    (hopen : row.status ≠ .completed) (hloaded : LoadedGroup t.hist x row g)
    (htask : task ∈ g.tasks) (hunfinished : task.status ≠ .done)
    (hleft : task.attempts < maxAttempts) :
    task.status = .pending ∧ task.description ≠ "" := by
  obtain ⟨past, hsuffix, hjust⟩ := justified_of_mem hkeeps hloaded.tasks
  obtain ⟨-, hpending, -, hanswers⟩ := hsmooth _ _ hsuffix
  refine ⟨?_, ((hanswers _ rfl).2 task htask).2⟩
  obtain ⟨-, bid', rows', row', hrows', hrow', hid⟩ := hjust.reason
  have hsame := eq_of_single hkeeps hrows (hsuffix.subset (List.mem_cons_of_mem _ hrows'))
    rfl rfl (show 3 ≠ 0 by decide) rfl
  cases hsame
  have hopens : past.any (opensGroup row.id) = true :=
    List.any_eq_true.mpr ⟨_, hrows', List.any_eq_true.mpr ⟨row, hrow, decide_eq_true ⟨rfl, hopen⟩⟩⟩
  simp only [loadsPending, hopens, Bool.not_true, Bool.false_or, List.all_eq_true,
    decide_eq_true_eq] at hpending
  exact hpending task htask hunfinished hleft

/-- In every run in which the provider is known, nothing goes wrong and what was left open
is pending, each `Execute` that has returned has run the team-lead of every group that was
not completed, and has dispatched an agent for every task of it that was neither done nor
out of attempts. -/
theorem reattempted_of_resumable (cfg : RunConfig) (hprovider : cfg.validProvider = true)
    (s : State) (hidle : s.Idle) (moves : List ApplyMove)
    (hok : RunMeets cfg s (resumable cfg) moves = true) :
    Reattempted (reach cfg s moves) := by
  have hinv := reach_disciplined hidle hok
  have hsmooth := histories_smooth hok
  intro t ht x res hreturned bid rows hrows row hrow
  obtain ⟨e, he⟩ := List.getElem?_of_mem ht
  have hkeeps := hinv.keeps t ht
  obtain ⟨past, hsuffix, hjust⟩ := justified_of_mem hkeeps hreturned
  have hpast : past <:+ t.hist := (List.suffix_cons _ _).trans hsuffix
  obtain ⟨-, -, -, hwaited, -⟩ := hjust.reason
  have hcalm := ((hsmooth t ht).of_suffix hpast).not_troubled hprovider
    fun ev hev => found_of_findGroups hkeeps hrows (hpast.subset hev)
  have hwait := hpast.subset (hwaited.resolve_right hcalm)
  obtain ⟨g, hloaded, i, c, p, k, hgo⟩ :=
    loaded_of_waitGroups hprovider hkeeps (hsmooth t ht) hwait hrows hrow
  refine ⟨g, hloaded, fun hopen => ?_⟩
  have hdid := Pool.did_iff_mem he
  obtain ⟨v, hdone⟩ := (hinv.holds.awaited.groups x).done_of_waited ⟨e, (hdid _).mpr hwait⟩ k
    ⟨e, i, c, p, g, (hdid _).mpr hgo⟩
  have hpending : g.status = .pending := by
    obtain ⟨earlier, hearlier, -⟩ := justified_of_mem hkeeps hrows
    have hload := (hsmooth t ht _ _ hearlier).2.1
    simp only [loadsPending, List.all_eq_true, decide_eq_true_eq] at hload
    exact hloaded.status.trans (hload row hrow hopen)
  obtain ⟨hran, hwaits, hstarts⟩ := teamLead_of_groupDone hprovider hinv.keeps hsmooth
    hinv.holds.numbered ((hdid _).mpr hgo) hdone hpending
  rw [hloaded.id] at hran
  refine ⟨hran, fun task htask hunfinished hleft => ?_⟩
  obtain ⟨ct, pt, gt, k', hstart⟩ := hstarts task htask
  obtain ⟨w, hended⟩ := (hinv.holds.awaited.tasks k).done_of_waited ⟨v, hwaits⟩ k'
    ⟨v, x, ct, pt, gt, task, hstart⟩
  obtain ⟨htaskPending, hdescription⟩ := pending_of_loaded hkeeps (hsmooth t ht) hrows hrow hopen
    hloaded htask hunfinished hleft
  exact dispatched_of_taskDone hprovider hinv.keeps hsmooth hinv.holds.numbered hstart hended
    htaskPending hdescription

/-! ## Runs that take up a board -/

/-- The process crashes before the only group of the board is started, and the next
`Execute` works on the board. -/
def resumedRun : List ApplyMove :=
  let ch := sampleChoice [sampleEntry "web" ["login"]]
  sampleExecute :: steps 0 14 ch ++ .crash :: sampleExecute :: steps 1 20 ch ++
    .start (.goroutine 0) :: steps 2 12 ch ++ .start (.goroutine 1) :: steps 3 40 ch ++
    steps 2 20 ch ++ steps 1 12 ch

def returnsFrom (x : Nat) : Event → Bool
  | ⟨.returned y _, _⟩ => decide (y = x)
  | _ => false

def loadsOpenGroup (x : Nat) : Event → Bool
  | ⟨.findGroups y _, .ok rows⟩ =>
    decide (y = x) && rows.any fun row => decide (row.status ≠ .completed)
  | _ => false

def beginsGroupOf (x : Nat) : Event → Bool
  | ⟨.beginGoroutine _, some (.group y _ _ _ _)⟩ => decide (y = x)
  | _ => false

def waitsForTasks : Event → Bool
  | ⟨.waitTasks _, _⟩ => true
  | _ => false

theorem reattempted_resumedRun :
    RunMeets sampleConfig {} (resumable sampleConfig) resumedRun = true ∧
      (reach sampleConfig {} resumedRun).threads.any (fun t =>
        t.hist.any (returnsFrom 1) && t.hist.any (loadsOpenGroup 1)) = true ∧
      Reattempted (reach sampleConfig {} resumedRun) := by
  have hmeets : RunMeets sampleConfig {} (resumable sampleConfig) resumedRun = true := by
    decide +kernel
  exact ⟨hmeets, by decide +kernel,
    reattempted_of_resumable sampleConfig rfl {} ⟨rfl, rfl, rfl⟩ resumedRun hmeets⟩

theorem exists_returned_of_returnsFrom (hany : h.any (returnsFrom x) = true) :
    ∃ res, ⟨.returned x res, ()⟩ ∈ h := by
  obtain ⟨⟨op, answer⟩, hmem, hop⟩ := List.any_eq_true.mp hany
  cases op
  case returned y res =>
    obtain rfl : y = x := of_decide_eq_true hop
    exact ⟨res, hmem⟩
  all_goals cases hop

theorem exists_open_of_loadsOpenGroup (hany : h.any (loadsOpenGroup x) = true) :
    ∃ bid rows, ⟨.findGroups x bid, .ok rows⟩ ∈ h ∧ ∃ row ∈ rows, row.status ≠ .completed := by
  obtain ⟨⟨op, answer⟩, hmem, hop⟩ := List.any_eq_true.mp hany
  cases op
  case findGroups y bid =>
    cases answer with
    | error err => cases hop
    | ok rows =>
      simp only [loadsOpenGroup, Bool.and_eq_true, decide_eq_true_eq, List.any_eq_true] at hop
      obtain ⟨rfl, row, hrow, hopen⟩ := hop
      exact ⟨bid, rows, hmem, row, hrow, hopen⟩
  all_goals cases hop

theorem not_reattempted_of_check {π : ApplyPool} (x : Nat)
    (hopen : π.threads.any (fun t => t.hist.any (returnsFrom x) &&
      t.hist.any (loadsOpenGroup x)) = true)
    (hidle : π.threads.all (fun t => !(t.hist.any (beginsGroupOf x) &&
      t.hist.any waitsForTasks)) = true) : ¬Reattempted π := by
  intro hreattempted
  obtain ⟨t, ht, hboth⟩ := List.any_eq_true.mp hopen
  obtain ⟨hreturns, hloads⟩ := Bool.and_eq_true_iff.mp hboth
  obtain ⟨res, hreturned⟩ := exists_returned_of_returnsFrom hreturns
  obtain ⟨bid, rows, hrows, row, hrow, hstatus⟩ := exists_open_of_loadsOpenGroup hloads
  obtain ⟨g, -, hwork⟩ := hreattempted t ht x res hreturned bid rows hrows row hrow
  obtain ⟨v, k, i, c, p, g', sid, ⟨t', ht', hbegin⟩, -, -, hwait⟩ := (hwork hstatus).1
  have hnone := List.all_eq_true.mp hidle t' (List.mem_of_getElem? ht')
  have hbegins : t'.hist.any (beginsGroupOf x) = true :=
    List.any_eq_true.mpr ⟨_, hbegin, decide_eq_true rfl⟩
  have hwaits : t'.hist.any waitsForTasks = true :=
    List.any_eq_true.mpr ⟨_, (Pool.did_iff_mem ht' _).mp hwait, rfl⟩
  rw [hbegins, hwaits] at hnone
  cases hnone

/-- The agent of the only task gets no slot, so that its group fails and the `Execute` is
blocked.  The next `Execute` loads the failed group and meets no failure. -/
def failedGroupRun : List ApplyMove :=
  let ch := sampleChoice [sampleEntry "web" ["login"]]
  sampleExecute :: steps 0 20 ch ++ .start (.goroutine 0) :: steps 1 12 ch ++
    .start (.goroutine 1) :: steps 2 20 { ch with acquire := .error (.other "") } ++
    steps 1 12 ch ++ steps 0 12 ch ++
    sampleExecute :: steps 3 20 ch ++ .start (.goroutine 2) :: steps 4 12 ch ++ steps 3 12 ch

theorem failed_group_not_reattempted :
    ((reach sampleConfig {} failedGroupRun).threads.drop 3).all
        (fun t => t.hist.all fun ev => !mishap ev) = true ∧
      ¬Reattempted (reach sampleConfig {} failedGroupRun) :=
  ⟨by decide +kernel, not_reattempted_of_check 1 (by decide +kernel) (by decide +kernel)⟩

end SophiaOrchestrator.Apply
