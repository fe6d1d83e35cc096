import SophiaOrchestrator.Apply.ExecuteGuarantee

/-!
# Runs of the apply service

A run starts `Execute`s and the goroutines they have posted, lets them perform their
operations one at a time in any interleaving, cancels contexts, and may crash the
process at any point.
-/

namespace SophiaOrchestrator.Apply

open Effects Prog

variable {γ : Type} {cfg : RunConfig} {ev : Event} {k : Nat} {a : Option Goroutine}

abbrev ApplyPool : Type := Pool Op Op.Ret Call State

abbrev ApplyThread : Type := Thread Op Op.Ret Call

variable {t : ApplyThread}

abbrev ApplyMove : Type := Move Call Choice

abbrev ApplyLog : Type := Log Op Op.Ret

/-- The pool reached from the state `s` by a run. -/
def reach (cfg : RunConfig) (s : State) (moves : List ApplyMove) : ApplyPool :=
  (Pool.init s).run (handler cfg) (main cfg) moves

/-- An assumption on the operation that a step performs, with the history of its goroutine
and the state before it. -/
abbrev StepCondition : Type := Op → Choice → History → State → Bool

def RunMeets (cfg : RunConfig) (s : State) (ok : StepCondition) (moves : List ApplyMove) : Bool :=
  (Pool.init s : ApplyPool).Meets (handler cfg) (main cfg) (Pool.eachStep ok) moves

theorem handle_answers (cfg : RunConfig) (op : Op) (ch : Choice) (s : State) :
    op.Answers (handle cfg op ch s).1 := by
  cases op
  case findGroups x bid =>
    intro rows hrows
    simp only [handle, State.read] at hrows
    split at hrows
    · cases hrows
    · cases Fault.read_eq_ok hrows
      refine ⟨s.db.findGroups_ids_nodup bid, fun row hrow => ?_⟩
      simpa using (List.mem_filter.mp hrow).2
  case findTasks x gid =>
    intro tasks htasks
    simp only [handle, State.read] at htasks
    split at htasks
    · cases htasks
    · cases Fault.read_eq_ok htasks
      refine ⟨s.db.findTasks_ids_nodup gid, fun t ht => ?_⟩
      simp only [BoardStore.findTasks, List.mem_filter, Bool.and_eq_true, decide_eq_true_eq] at ht
      exact ⟨ht.2.1.1, ht.2.1.2⟩
  all_goals exact trivial

theorem exists_justified {D : ApplyLog} (hexpl : Pool.Explained (Good cfg) D) {tid : Nat}
    (hdid : D tid ev) :
    ∃ call past, Justified cfg call ev past ∧ ∀ e ∈ past, D tid e :=
  hexpl tid ev hdid

theorem justified_of_mem (hkeeps : Pool.Keeps Op.Answers (Good cfg) t) (hmem : ev ∈ t.hist) :
    ∃ past, ev :: past <:+ t.hist ∧ Justified cfg t.call ev past :=
  hkeeps.of_mem hmem

theorem eq_of_single (hkeeps : Pool.Keeps Op.Answers (Good cfg) t) {ev' : Event}
    (hmem : ev ∈ t.hist) (hmem' : ev' ∈ t.hist) (hsingle : ev.op.single = true)
    (hsingle' : ev'.op.single = true) (hstage : ev.op.stage ≠ 0)
    (hsame : ev.op.stage = ev'.op.stage) : ev = ev' := by
  obtain ⟨past, hsuffix, hjust⟩ := justified_of_mem hkeeps hmem
  obtain ⟨past', hsuffix', hjust'⟩ := justified_of_mem hkeeps hmem'
  rcases List.suffix_or_suffix_of_suffix hsuffix hsuffix' with hpart | hpart
  · rcases List.suffix_cons_iff.mp hpart with heq | hin
    · exact (List.cons.inj heq).1
    · have hlt := hjust'.ordered.stage_lt (hsame ▸ hstage) hsingle'
        (hin.subset List.mem_cons_self)
      omega
  · rcases List.suffix_cons_iff.mp hpart with heq | hin
    · exact (List.cons.inj heq).1.symm
    · have hlt := hjust.ordered.stage_lt hstage hsingle (hin.subset List.mem_cons_self)
      omega

theorem call_of_begin (hkeeps : Pool.Keeps Op.Answers (Good cfg) t)
    (hbegin : ⟨.beginGoroutine k, a⟩ ∈ t.hist) : t.call = .goroutine k := by
  obtain ⟨past, -, hjust⟩ := justified_of_mem hkeeps hbegin
  exact hjust.reason.1

theorem begin_unique (hkeeps : Pool.Keeps Op.Answers (Good cfg) t) {k' : Nat}
    {a' : Option Goroutine} (hmem : ⟨.beginGoroutine k, a⟩ ∈ t.hist)
    (hmem' : ⟨.beginGoroutine k', a'⟩ ∈ t.hist) :
    k = k' ∧ a = a' := by
  obtain ⟨past, hsuffix, hjust⟩ := justified_of_mem hkeeps hmem
  obtain ⟨past', hsuffix', hjust'⟩ := justified_of_mem hkeeps hmem'
  -- Both are the first operation of the thread.
  rw [hjust.reason.2] at hsuffix
  rw [hjust'.reason.2] at hsuffix'
  have hone := List.suffix_of_suffix_length_le hsuffix hsuffix' le_rfl
  cases hone.eq_of_length rfl
  exact ⟨rfl, rfl⟩

/-! ## Skeletons -/

structure Skeleton where
  posted : List Goroutine
  ready : List Nat
  begun : List Nat
  running : List Nat
  nextExec : Nat
  groupsOut : Nat → List Nat
  tasksOut : Nat → List Nat

def State.skeleton (s : State) : Skeleton where
  posted := s.posted
  ready := s.ready
  begun := s.begun
  running := s.running
  nextExec := s.nextExec
  groupsOut x := (s.execs x).outstanding
  tasksOut team := (s.teams team).outstanding

def Skeleton.step (sk : Skeleton) : Op → Skeleton
  | .newExec _ => { sk with
      nextExec := sk.nextExec + 1
      running := sk.nextExec :: sk.running
      groupsOut := Function.update sk.groupsOut sk.nextExec [] }
  | .go (.group x i c p g) => { sk with
      posted := sk.posted ++ [.group x i c p g]
      ready := sk.ready ++ [sk.posted.length]
      groupsOut := Function.update sk.groupsOut x (sk.groupsOut x ++ [sk.posted.length]) }
  | .go (.task x team c p g t) => { sk with
      posted := sk.posted ++ [.task x team c p g t]
      ready := sk.ready ++ [sk.posted.length]
      tasksOut := Function.update sk.tasksOut team (sk.tasksOut team ++ [sk.posted.length]) }
  | .beginGoroutine k => { sk with ready := sk.ready.erase k, begun := k :: sk.begun }
  | .groupDone x k => { sk with
      begun := sk.begun.filter (· ≠ k)
      groupsOut := Function.update sk.groupsOut x ((sk.groupsOut x).filter (· ≠ k)) }
  | .taskDone team k => { sk with
      begun := sk.begun.filter (· ≠ k)
      tasksOut := Function.update sk.tasksOut team ((sk.tasksOut team).filter (· ≠ k)) }
  | .returned x _ => { sk with running := sk.running.filter (· ≠ x) }
  | _ => sk

def Skeleton.crash (sk : Skeleton) : Skeleton :=
  { sk with ready := [], begun := [], running := [] }

theorem skeleton_modifyExec (s : State) (x : Nat) (f : Exec → Exec) :
    (s.modifyExec x f).skeleton = { s.skeleton with
      groupsOut := Function.update s.skeleton.groupsOut x (f (s.execs x)).outstanding } := by
  simp only [State.skeleton, State.modifyExec, Skeleton.mk.injEq, true_and, and_true]
  funext y
  by_cases hy : y = x
  · subst hy
    simp
  · simp [Function.update_of_ne hy]

theorem skeleton_modifyTeam (s : State) (team : Nat) (f : Team → Team) :
    (s.modifyTeam team f).skeleton = { s.skeleton with
      tasksOut := Function.update s.skeleton.tasksOut team (f (s.teams team)).outstanding } := by
  simp only [State.skeleton, State.modifyTeam, Skeleton.mk.injEq, true_and]
  funext y
  by_cases hy : y = team
  · subst hy
    simp
  · simp [Function.update_of_ne hy]

theorem skeleton_modifyExec_same (s : State) (x : Nat) {f : Exec → Exec}
    (hf : (f (s.execs x)).outstanding = (s.execs x).outstanding) :
    (s.modifyExec x f).skeleton = s.skeleton := by
  rw [skeleton_modifyExec, hf]
  simp [State.skeleton]

theorem skeleton_modifyTeam_same (s : State) (team : Nat) {f : Team → Team}
    (hf : (f (s.teams team)).outstanding = (s.teams team).outstanding) :
    (s.modifyTeam team f).skeleton = s.skeleton := by
  rw [skeleton_modifyTeam, hf]
  simp [State.skeleton]

theorem write_keeps (f : State → γ) (s : State) (ctx : Ctx) (fault : Fault)
    {effect : Except RepoErr State} (heffect : ∀ s', effect = .ok s' → f s' = f s) :
    f (s.write ctx fault effect).2 = f s := by
  unfold State.write
  split
  · rfl
  · rcases Fault.write_eq fault s effect with hsame | hok
    · rw [hsame]
    · exact heffect _ hok

theorem withDb_keeps (f : State → γ) {s : State} (hf : ∀ db, f (s.withDb db) = f s)
    {result : Except RepoErr BoardStore} {s' : State} (h : result.map s.withDb = .ok s') :
    f s' = f s := by
  cases result with
  | error err => cases h
  | ok db =>
    cases h
    exact hf db

theorem claim_keeps (f : State → γ) (s : State) (ctx : Ctx) (fault : Fault) (id : TaskID)
    (sid : SessionID) (hf : ∀ db, f (s.withDb db) = f s) :
    f (s.claim ctx fault id sid).2 = f s := by
  unfold State.claim
  split
  · rfl
  · cases fault with
    | none | after => exact hf _
    | before => rfl

theorem saveSession_keeps (f : State → γ) (s : State) (ctx : Ctx) (fault : Fault) (sess : Session)
    (hf : ∀ sessions, f { s with sessions := sessions } = f s) :
    f (s.write ctx fault ((s.sessions.save sess).map fun sessions =>
      { s with sessions := sessions })).2 = f s := by
  refine write_keeps f s _ _ fun s' hs' => ?_
  cases hsave : s.sessions.save sess with
  | error err =>
    rw [hsave] at hs'
    cases hs'
  | ok sessions =>
    rw [hsave] at hs'
    cases hs'
    exact hf sessions

theorem acquire_keeps (f : State → γ) (s : State) (cfg : RunConfig) (ctx : Ctx) (ch : Choice)
    (hf : ∀ active, f { s with active := active } = f s) :
    f (s.acquire cfg ctx ch).2 = f s := by
  unfold State.acquire
  split
  · exact hf _
  · split
    · exact hf _
    · rfl

theorem spawnRelease_keeps (f : State → γ) (s : State) (ctx : Ctx) (fault : Fault)
    (hf : ∀ active, f { s with active := active } = f s) :
    f (s.write ctx fault (.ok { s with active := s.active - 1 })).2 = f s := by
  refine write_keeps f s _ _ fun s' hs' => ?_
  cases hs'
  exact hf _

theorem skeleton_receiveFrom (s : State) (x : Nat) (dep : GroupID) (branch : Branch) :
    (s.receiveFrom x dep branch).2.skeleton = s.skeleton := by
  unfold State.receiveFrom
  split
  · rfl
  · exact skeleton_modifyExec_same s x rfl
  · rfl
  · rfl

/-- What one operation does to the skeleton does not depend on the environment. -/
theorem handle_skeleton (cfg : RunConfig) (op : Op) (ch : Choice) (s : State) :
    (handle cfg op ch s).2.skeleton = s.skeleton.step op := by
  cases op
  case newExec threshold =>
    simp only [handle, State.skeleton, Skeleton.step, Skeleton.mk.injEq, true_and, and_true]
    funext y
    by_cases hy : y = s.nextExec
    · subst hy
      simp
    · simp [Function.update_of_ne hy]
  case go gr =>
    cases gr with
    | group x i c p g =>
      simp only [handle, State.spawn, skeleton_modifyExec]
      rfl
    | task x team c p g t =>
      simp only [handle, State.spawn, skeleton_modifyTeam]
      rfl
  case groupDone x k =>
    simp only [handle]
    exact congrArg (fun sk : Skeleton => { sk with begun := sk.begun.filter (· ≠ k) })
      (skeleton_modifyExec s x _)
  case taskDone team k =>
    simp only [handle]
    exact congrArg (fun sk : Skeleton => { sk with begun := sk.begun.filter (· ≠ k) })
      (skeleton_modifyTeam s team _)
  case cancelParent x => exact skeleton_modifyExec_same s x rfl
  case recordQuotaOutcome x err =>
    refine skeleton_modifyExec_same s x ?_
    simp only [Exec.recordQuotaOutcome]
    split
    · rfl
    · split <;> rfl
  case recordSuccess x => exact skeleton_modifyExec_same s x rfl
  case newDAG x ids => exact skeleton_modifyExec_same s x rfl
  case signal x g r =>
    refine skeleton_modifyExec_same s x ?_
    simp only [Exec.signal]
    split <;> rfl
  case receive x dep => exact skeleton_receiveFrom s x dep ch.branch
  case takeGroupSlot x =>
    simp only [handle]
    split
    · exact skeleton_modifyExec_same s x rfl
    · rfl
  case releaseGroupSlot x => exact skeleton_modifyExec_same s x rfl
  case takeImplSlot x team =>
    simp only [handle]
    split
    · exact skeleton_modifyTeam_same s team rfl
    · rfl
  case releaseImplSlot team => exact skeleton_modifyTeam_same s team rfl
  case setResult x g outcome => exact skeleton_modifyExec_same s x rfl
  case setTaskOutcome team t success => exact skeleton_modifyTeam_same s team rfl
  case saveBoard ctx row | saveGroup x row | saveTask x t =>
    exact write_keeps State.skeleton s _ _ fun s' hs' =>
      withDb_keeps State.skeleton (fun _ => rfl) hs'
  case claimTask x t sid => exact claim_keeps State.skeleton s _ _ t sid fun _ => rfl
  case saveSession x sess => exact saveSession_keeps State.skeleton s _ _ sess fun _ => rfl
  case spawnAcquire x => exact acquire_keeps State.skeleton s cfg _ ch fun _ => rfl
  case spawnRelease x => exact spawnRelease_keeps State.skeleton s _ _ fun _ => rfl
  all_goals rfl

/-! ## Sample runs -/

def completedID : Event → Option GroupID
  | ⟨.saveGroup _ row, _⟩ => if row.status = .completed then some row.id else none
  | _ => none

def sampleConfig : RunConfig :=
  { worktreeRoot := "/w" }

def samplePhase : Phase where
  id := ⟨1⟩
  changeID := ⟨1⟩
  pType := .apply
  status := .running
  confidence := 0
  retryBudget := 1
  attempts := 1

def sampleEntry (name : String) (tasks : List String) : Json :=
  .obj [("name", .str name),
    ("tasks", .arr (tasks.map fun description =>
      .obj [("description", .str description), ("files_pattern", .arr [.str "f"])]))]

/-- Memory holds the tasks list, agents are done and every command succeeds. -/
def sampleChoice (entries : List Json) : Choice where
  memory := .ok (.json (.obj [("groups", .arr entries)]))
  dispatch := .ok { envelopeRaw := .json {
    schemaVersion := schemaVersionV1
    phase := PhaseType.apply.toString
    changeName := "add-login"
    project := "web"
    status := .done
    confidence := 1
    executiveSummary := "" } }

def sampleExecute : ApplyMove :=
  .start (.execute (sampleChange .tasks) samplePhase [])

def steps (tid n : Nat) (ch : Choice) : List ApplyMove :=
  List.replicate n (.step tid ch)

end SophiaOrchestrator.Apply
