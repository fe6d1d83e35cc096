import SophiaOrchestrator.Apply.Attempts

/-!
# What a returned Execute stands for

An `Execute` starts one goroutine for each group of its board, and a team-lead one for each task
of its group.  Nothing that works for an `Execute` outlives it, agents are dispatched for claimed
tasks and under supervision, and an envelope that says done stands for every group of the board.
-/

namespace SophiaOrchestrator.Apply

open Effects Prog

variable {cfg : RunConfig} {D : ApplyLog} {L : Nat → Prop} {x k i e v : Nat} {π : ApplyPool}
  {s : State} {c : Change} {p : Phase} {g : Group} {gid : GroupID} {outcome : GroupOutcome}
  {results : GroupID → Option GroupOutcome}

/-! ## What an Execute records -/

/-- The goroutine of the group has left at the slots because the context was done. -/
def LeftAtSlots (D : ApplyLog) (x k : Nat) (g : Group) : Prop :=
  ∃ v i c p, D v ⟨.beginGoroutine k, some (.group x i c p g)⟩ ∧ D v ⟨.takeGroupSlot x, .ctxDone⟩

/-- The map holds what a goroutine has recorded for the group, or the group has left. -/
def Accounted (D : ApplyLog) (x k : Nat) (results : GroupID → Option GroupOutcome) (g : Group) :
    Prop :=
  (∃ v outcome, results g.id = some outcome ∧ D v ⟨.setResult x g.id outcome, ()⟩) ∨
    LeftAtSlots D x k g

theorem Accounted.add (h : Accounted D x k results g) (tid : Nat) (ev : Event) :
    Accounted (D.add tid ev) x k results g := by
  rcases h with ⟨v, outcome, hentry, hset⟩ | ⟨v, i, c, p, hbegin, hleave⟩
  · exact .inl ⟨v, outcome, hentry, .inl hset⟩
  · exact .inr ⟨v, i, c, p, .inl hbegin, .inl hleave⟩

structure Recorded (D : ApplyLog) (s : State) : Prop where
  returned : ∀ {e x res}, D e ⟨.returned x res, ()⟩ → x ∉ s.running
  entry : ∀ {x gid outcome}, (s.execs x).results gid = some outcome →
    ∃ v, D v ⟨.setResult x gid outcome, ()⟩
  kept : ∀ {v x gid outcome}, D v ⟨.setResult x gid outcome, ()⟩ → (s.execs x).results gid ≠ none
  read : ∀ {e x results v k i c p g}, D e ⟨.readResults x, results⟩ →
    D v ⟨.go (.group x i c p g), k⟩ → Accounted D x k results g

theorem waited_of_tripped (hexpl : Pool.Explained (Good cfg) D) {tripped : Bool}
    (h : D e ⟨.breakerTripped x, tripped⟩) : D e ⟨.waitGroups x, ()⟩ := by
  obtain ⟨call, past, hjust, hpast⟩ := exists_justified hexpl h
  exact hpast _ hjust.reason

theorem Recorded.of_waited (h : Recorded D s) (hdisc : Disciplined D L s.skeleton)
    (hexpl : Pool.Explained (Good cfg) D) (hwait : D e ⟨.waitGroups x, ()⟩)
    (hgo : D v ⟨.go (.group x i c p g), k⟩) : Accounted D x k (s.execs x).results g := by
  obtain ⟨v', hdone⟩ := (hdisc.awaited.groups x).done_of_waited ⟨e, hwait⟩ k ⟨v, i, c, p, g, hgo⟩
  obtain ⟨call, past, hjust, hpast⟩ := exists_justified hexpl hdone
  obtain ⟨p', g', ⟨i', c', hbegin⟩, hleft, -⟩ := hjust.reason
  have hposted := (hdisc.numbered.begun (hpast _ hbegin)).2.1
  rw [hdisc.numbered.posted hgo] at hposted
  cases hposted
  rcases hleft with ⟨outcome, hset⟩ | hleave
  · -- The entry is the one of the last goroutine that has set it.
    obtain ⟨outcome', hentry⟩ := Option.ne_none_iff_exists'.mp (h.kept (hpast _ hset))
    obtain ⟨v'', hlast⟩ := h.entry hentry
    exact .inl ⟨v'', outcome', hentry, hlast⟩
  · exact .inr ⟨v', i, c, p, hpast _ hbegin, hpast _ hleave⟩

theorem Recorded.step {ch : Choice} {call : Call} {hist : History} {op : Op} {tid : Nat}
    (h : Recorded D s) (hdisc : Disciplined D L s.skeleton)
    (hstep : StepOf cfg D s.skeleton tid call hist op (handle cfg op ch s).1) :
    Recorded (D.add tid ⟨op, (handle cfg op ch s).1⟩) (handle cfg op ch s).2 where
  returned {e x res} hreturned hx := by
    rcases hreturned with hold | ⟨-, heq⟩
    · rcases running_handle hx with hbefore | ⟨threshold, -, rfl⟩
      · exact h.returned hold hbefore
      · obtain ⟨call', past, hjust, hpast⟩ := exists_justified hstep.explained hold
        obtain ⟨p, ⟨-, threshold', hnew⟩, -⟩ := hjust.reason
        exact lt_irrefl _ (hdisc.numbered.exec_lt (hpast _ hnew))
    · cases heq
      simp [handle] at hx
  entry {x gid outcome} hentry := by
    rcases results_cases cfg op ch s x with hsame | ⟨-, hnone⟩ | ⟨gid', outcome', rfl, hset⟩
    · rw [hsame] at hentry
      exact (h.entry hentry).imp fun _ => .inl
    · rw [hnone] at hentry
      cases hentry
    · rw [hset, Function.update_apply] at hentry
      split at hentry
      · next hgid =>
        obtain rfl := Option.some.inj hentry
        exact ⟨tid, hgid ▸ D.add_self _ _⟩
      · exact (h.entry hentry).imp fun _ => .inl
  kept {v x gid outcome} hdid := by
    rcases hdid with hold | ⟨-, heq⟩
    · rcases results_cases cfg op ch s x with hsame | ⟨hx, -⟩ | ⟨gid', outcome', -, hset⟩
      · rw [hsame]
        exact h.kept hold
      · obtain ⟨call', past, hjust, hpast⟩ := exists_justified hstep.explained hold
        obtain ⟨k, p, g, ⟨i, c, hbegin⟩, -⟩ := hjust.reason
        exact absurd hx (exec_lt_of_begin hstep.explained hdisc.numbered (hpast _ hbegin)).ne
      · rw [hset, Function.update_apply]
        split
        · exact Option.some_ne_none _
        · exact h.kept hold
    · cases heq
      simp [handle, State.modifyExec]
  read {e x results v k i c p g} hdid hgo := by
    rcases hdid with hold | ⟨-, heq⟩
    · rcases hgo with hgo | ⟨-, heq⟩
      · exact (h.read hold hgo).add _ _
      · cases heq
        obtain ⟨call', past, hjust, hpast⟩ := exists_justified hstep.explained hold
        exact absurd (waited_of_tripped hstep.explained (hpast _ hjust.reason))
          (not_waitGroups_of_go hdisc.numbered hstep e)
    · cases heq
      have hwait := waited_of_tripped hstep.explained ((hstep.past _).mpr hstep.justified.reason)
      exact (h.of_waited hdisc hstep.explained hwait (did_of_add hgo (by simp))).add _ _

theorem Recorded.crash (h : Recorded D s) : Recorded D s.crash :=
  ⟨fun _ => List.not_mem_nil, h.entry, h.kept, h.read⟩

/-! ## What holds of every run -/

abbrev Orderly (cfg : RunConfig) (π : ApplyPool) : Prop :=
  Pool.LogInv Op.Answers (Good cfg) (fun D L s => Disciplined D L s.skeleton ∧ Recorded D s) π

/-- A process starts on the tables of `s`, with an empty memory. -/
def State.boot (s : State) : State where
  db := s.db
  sessions := s.sessions
  active := s.active

theorem reach_orderly (cfg : RunConfig) (s : State) (moves : List ApplyMove) :
    Orderly cfg (reach cfg s.boot moves) := by
  refine reach_induction ⟨rfl, rfl, rfl⟩ _ (fun _ _ _ _ _ hrec => hrec)
    (fun _ _ _ _ _ hrec => hrec) (fun _ _ _ hrec => hrec.crash) ?_
    ⟨False.elim, fun hentry => ?_, False.elim, False.elim⟩ moves
    (Pool.meets_eachStep_true (handler cfg) (main cfg) _ moves)
  · intro D L tid ch call op hist s _ hdisc hstep _ _ hrec
    exact hrec.step hdisc hstep
  · cases hentry

/-! ## Nothing outlives an Execute -/

def Goroutine.exec : Goroutine → Nat
  | .group x _ _ _ _ | .task x _ _ _ _ _ => x

/-- Whatever works for a returned `Execute` neither waits to begin nor runs: if its thread is
left, it has performed its last operation. -/
def NoneOutlives (π : ApplyPool) : Prop :=
  ∀ e x res, π.Did e ⟨.returned x res, ()⟩ → ∀ k gr, π.state.posted[k]? = some gr →
    gr.exec = x → k ∉ π.state.ready ∧ k ∉ π.state.begun ∧
      ∀ v a, π.Live v → π.Did v ⟨.beginGoroutine k, a⟩ → Finished π.Did v

theorem Supervised.exec_running {sk : Skeleton} {gr : Goroutine} (h : Supervised D L sk)
    (hactive : sk.Active k) (hposted : sk.posted[k]? = some gr) : gr.exec ∈ sk.running := by
  cases gr with
  | group x i c p g => exact h.group hactive hposted
  | task x team c p g task =>
    obtain ⟨hteam, i, c', p', g', hlead⟩ := h.task hactive hposted
    exact h.group (.inr hteam) hlead

/-- **Structured concurrency.**  Whatever the tables hold, in every interleaving of any number of
`Execute`s and their goroutines, with any failures, cancellations and crashes, nothing that works
for an `Execute` outlives it. -/
theorem noneOutlives_reach (cfg : RunConfig) (s : State) (moves : List ApplyMove) :
    NoneOutlives (reach cfg s.boot moves) := by
  have h := reach_orderly cfg s moves
  have hsup := h.holds.1.supervised
  rintro e x res hreturned k gr hposted rfl
  obtain ⟨hready, hbegun⟩ := not_or.mp fun hactive =>
    h.holds.2.returned hreturned (hsup.exec_running hactive hposted)
  refine ⟨hready, hbegun, fun v a hlive hbegin => ?_⟩
  by_contra hopen
  exact hbegun (hsup.goroutine hlive hbegin hopen)

/-! ## Dispatches -/

/-- Who is about to dispatch an agent for a task has claimed the task and runs, and so do the
team-lead and the `Execute` that it works for. -/
def DispatchesSupervised (π : ApplyPool) : Prop :=
  ∀ (v : Nat) (t : ApplyThread) x req next id, π.threads[v]? = some t →
    t.prog = .call (.dispatch x req) next → req.target = .implement id →
    ∃ k team c p g task sid, ⟨.beginGoroutine k, some (.task x team c p g task)⟩ ∈ t.hist ∧
      task.id = id ∧ ⟨.claimTask x id sid, .ok true⟩ ∈ t.hist ∧ k ∈ π.state.begun ∧
      team ∈ π.state.begun ∧ x ∈ π.state.running

/-- **Dispatches are claimed and supervised**, in every interleaving. -/
theorem dispatchesSupervised_reach (cfg : RunConfig) (s : State) (moves : List ApplyMove) :
    DispatchesSupervised (reach cfg s.boot moves) := by
  have h := reach_orderly cfg s moves
  obtain ⟨hnum, -, hsup⟩ := h.holds.1
  rintro v ⟨call, prog, hist⟩ x req next id hthread rfl htarget
  have hdid := Pool.did_iff_mem hthread
  have hjust : Justified cfg call ⟨.dispatch x req, .error (.other "")⟩ hist :=
    ((wp_hist_call _ next hist).mp (h.keeps _ (List.mem_of_getElem? hthread)).rest _ trivial).1
  obtain ⟨task, ⟨k, team, sid, ⟨c, p, g, hbegin⟩, -, hclaim⟩, rfl⟩ := hjust.reason id htarget
  have hstage : (Op.dispatch x req).stage = 3 := by simp [Op.stage, htarget]
  have hstep : StepOf cfg _ s.skeleton v call hist (.dispatch x req) _ :=
    ⟨hdid, h.explained, hjust, trivial, trivial⟩
  have hopen := not_finished_of_stage hstep (by rw [hstage]; decide) (by rw [hstage]; decide)
  have hbegun := hsup.goroutine ⟨_, hthread, rfl⟩ ((hdid _).mpr hbegin) hopen
  have hposted := (hnum.begun ((hdid _).mpr hbegin)).2.1.symm
  exact ⟨k, team, c, p, g, task, sid, hbegin, rfl, hclaim, hbegun,
    (hsup.task (.inr hbegun) hposted).1, hsup.exec_running (.inr hbegun) hposted⟩

/-! ## Done -/

/-- A goroutine of the `Execute` answers for the group: the group was completed before, or the
team-lead has waited for its tasks and passed the build gate. -/
def Vouched (π : ApplyPool) (x : Nat) (gid : GroupID) : Prop :=
  ∃ t ∈ π.threads, ∃ k p g, RunsGroup t.hist k x p g ∧ g.id = gid ∧ (g.status = .completed ∨
    ⟨.waitTasks k, ()⟩ ∈ t.hist ∧ BuildGatePassed t.hist x g.worktreePath)

/-- An `Execute` that says done works on a board of its phase, and a goroutine answers for each
group of the board, unless the one of the group has left at the slots. -/
def DoneVouched (π : ApplyPool) : Prop :=
  ∀ t ∈ π.threads, ∀ x res, ⟨.returned x res, ()⟩ ∈ t.hist → res.envelope.status = .done →
    ∃ p past groups, IsExecute t.call past x p ∧ past <:+ t.hist ∧ BoardOf past x p.id groups ∧
      ∀ g ∈ groups, Vouched π x g.id ∨ ∃ k, LeftAtSlots π.Did x k g

theorem Orderly.vouched (h : Orderly cfg π) (hset : π.Did v ⟨.setResult x gid outcome, ()⟩)
    (hok : outcome.failed = false) : Vouched π x gid := by
  obtain ⟨t, ht, hmem⟩ := hset
  have hin := List.mem_of_getElem? ht
  have hkeeps := h.keeps t hin
  obtain ⟨past, hsuffix, hjust⟩ := justified_of_mem hkeeps hmem
  obtain ⟨k, p, g, hruns, rfl, hcompleted⟩ := hjust.reason
  replace hsuffix := (List.suffix_cons _ _).trans hsuffix
  rcases hcompleted hok with hbefore | ⟨row, answer, hsaved, hid, hstatus⟩
  · exact ⟨t, hin, k, p, g, hruns.mono hsuffix, rfl, .inl hbefore⟩
  obtain ⟨past', hsuffix', hjust'⟩ := justified_of_mem hkeeps (hsuffix.subset hsaved)
  replace hsuffix' := (List.suffix_cons _ _).trans hsuffix'
  rcases hjust'.reason hstatus with ⟨⟨p', ⟨c, status, hcall⟩, -⟩, -⟩ | ⟨k', p', g', hruns', hends⟩
  · -- An `Execute` begins no goroutine.
    obtain ⟨i, c', hbegin⟩ := hruns
    obtain ⟨_, -, hjust''⟩ := justified_of_mem hkeeps (hsuffix.subset hbegin)
    cases hcall.symm.trans hjust''.reason.1
  · exact ⟨t, hin, k', p', g', hruns'.mono hsuffix', (congrArg Prod.fst hends.key).trans hid,
      .inr ⟨hsuffix'.subset hends.waited, hends.gate.mono hsuffix'⟩⟩

/-- **What done stands for**, in every interleaving. -/
theorem doneVouched_reach (cfg : RunConfig) (s : State) (moves : List ApplyMove) :
    DoneVouched (reach cfg s.boot moves) := by
  have h := reach_orderly cfg s moves
  intro t ht x res hmem hdone
  obtain ⟨past, hsuffix, hjust⟩ := justified_of_mem (h.keeps t ht) hmem
  obtain ⟨p, hexec, -, -, hfinal, -⟩ := hjust.reason
  obtain ⟨results, tl, groups, hread, -, hboard, hstarted, hnone⟩ := hfinal hdone
  replace hsuffix := (List.suffix_cons _ _).trans hsuffix
  refine ⟨p, past, groups, hexec, hsuffix, hboard, fun g hg => ?_⟩
  obtain ⟨e, hthread⟩ := List.getElem?_of_mem ht
  have hdid := Pool.did_iff_mem hthread
  obtain ⟨i, c, k, hgo⟩ := hstarted g hg
  rcases h.holds.2.read ((hdid _).mpr (hsuffix.subset hread)) ((hdid _).mpr (hsuffix.subset hgo))
    with ⟨v, outcome, hentry, hset⟩ | hleft
  · exact .inl (h.vouched hset (by simpa [resultFailed, hentry] using hnone g hg))
  · exact .inr ⟨k, hleft⟩

end SophiaOrchestrator.Apply
