import SophiaOrchestrator.Effects.Projection
import SophiaOrchestrator.Phase.ChangeWrites
import SophiaOrchestrator.Phase.Conduct

/-!
# The service with the memory engine

The memory engine keeps one record for each project and topic key, and a write under a key
that has a record replaces it.  A write that fails may have been stored all the same.

The state also remembers the latest tasks envelope of each change that was saved with a status
that advances the change.  No operation reads it.
-/

namespace SophiaOrchestrator

open Effects Prog

/-- The database, the records of the memory engine, and the latest accepted tasks envelope of
each change. -/
structure MemoryState where
  store : Store
  records : String → String → Option Envelope := fun _ _ => none
  acceptedTasks : ChangeID → Option Envelope := fun _ => none

/-- The environment's part of an operation, with whether a failing write to memory was stored. -/
structure MemoryChoice extends Choice where
  stored : Bool := false

def upsertRecord (records : String → String → Option Envelope) (input : IngestMemoryInput) :
    String → String → Option Envelope :=
  fun project key =>
    if project = input.projectID ∧ key = input.topicKey then some input.content
    else records project key

def recordsAfter (op : Op) (ch : MemoryChoice) (records : String → String → Option Envelope) :
    String → String → Option Envelope :=
  match op with
  | .memoryIngest input =>
    match ch.ingest with
    | .ok () => upsertRecord records input
    | .error _ => if ch.stored then upsertRecord records input else records
  | _ => records

def acceptedAfter (op : Op) (answer : op.Ret) (accepted : ChangeID → Option Envelope) :
    ChangeID → Option Envelope :=
  match op, answer with
  | .phaseSave q, .ok () =>
    if q.pType = .tasks ∧ q.status.advanceAllowed = true then
      Function.update accepted q.changeID q.envelope
    else
      accepted
  | _, _ => accepted

def memoryHandle (op : Op) (ch : MemoryChoice) (s : MemoryState) : op.Ret × MemoryState :=
  ((handle op ch.toChoice s.store).1,
    { store := (handle op ch.toChoice s.store).2
      records := recordsAfter op ch s.records
      acceptedTasks := acceptedAfter op (handle op ch.toChoice s.store).1 s.acceptedTasks })

def memoryHandler : Handler Op Op.Ret MemoryChoice MemoryState where
  run := memoryHandle

abbrev MemoryPool : Type := Pool Op Op.Ret Call MemoryState

abbrev MemoryMove : Type := Move Call MemoryChoice

variable (cfg : ServiceConfig) (s : MemoryState) (moves : List MemoryMove)

def reachMemory : MemoryPool :=
  (Pool.init s).run memoryHandler (main cfg) moves

def MemoryMeets (ok : MemoryPool → MemoryMove → Bool) (moves : List MemoryMove) : Bool :=
  (Pool.init s : MemoryPool).Meets memoryHandler (main cfg) ok moves

/-! ## What is known of the runs of the service -/

/-- The memory engine changes nothing of what the service does. -/
theorem memoryHandler_projects :
    memoryHandler.Projects handler MemoryChoice.toChoice MemoryState.store :=
  ⟨fun _ _ _ => rfl, fun _ _ _ => rfl, fun _ => rfl⟩

theorem reachMemory_project : (reachMemory cfg s moves).project MemoryState.store =
      reach cfg s.store (moves.map (Move.project MemoryChoice.toChoice)) :=
  Pool.run_project memoryHandler_projects _ moves

theorem memory_identities :
    (reachMemory cfg s moves).state.store.identities = s.store.identities := by
  have hrun := reach_identities cfg s.store (moves.map (Move.project MemoryChoice.toChoice))
  rw [← reachMemory_project] at hrun
  exact hrun

theorem memory_answers (op : Op) (ch : MemoryChoice) (s : MemoryState) :
    op.Answers (memoryHandler.run op ch s).1 :=
  handle_answers op _ _

theorem memory_keeps : ∀ t ∈ (reachMemory cfg s moves).threads,
      Pool.Keeps Op.Answers (fun _ : Call => Polite) t :=
  Pool.run_keeps memory_answers
    (fun request => wp_mono (main_conducted cfg request) (fun _ => id) fun _ _ _ => trivial)
    (by simp) moves

theorem conducted_next {cfg : ServiceConfig} {s : MemoryState} {moves : List MemoryMove}
    {tid : Nat} {request : Call} {op : Op} {next : op.Ret → Program Unit} {hist : History}
    (hthread : (reachMemory cfg s moves).threads[tid]? = some ⟨request, .call op next, hist⟩)
    {answer : op.Ret} (hanswer : op.Answers answer) : Conducted ⟨op, answer⟩ hist := by
  have hrest := (memory_keeps cfg s moves _ (List.mem_of_getElem? hthread)).rest
  exact ((wp_hist_call op next hist).mp hrest answer hanswer).1

theorem exists_suffix_of_emitted {h : History} {loaded : Option Change} {env : Envelope}
    (hemitted : emitted h = some (loaded, env)) :
    ∃ past, loaded = firstLoaded past ∧
      ((∃ p exitCode, ⟨.dispatch p, .ok ⟨.json env, exitCode⟩⟩ :: past <:+ h) ∨
        ∃ topic, ⟨.memoryGet topic, .json env⟩ :: past <:+ h) := by
  induction h with
  | nil => cases hemitted
  | cons ev past ih =>
    have hold : emitted past = some (loaded, env) → ∃ past', loaded = firstLoaded past' ∧
        ((∃ p exitCode, ⟨.dispatch p, .ok ⟨.json env, exitCode⟩⟩ :: past' <:+ ev :: past) ∨
          ∃ topic, ⟨.memoryGet topic, .json env⟩ :: past' <:+ ev :: past) := by
      intro hpast
      obtain ⟨past', hloaded, ⟨p, exitCode, hsuffix⟩ | ⟨topic, hsuffix⟩⟩ := ih hpast
      · exact ⟨past', hloaded, .inl ⟨p, exitCode, hsuffix.trans (List.suffix_cons ev past)⟩⟩
      · exact ⟨past', hloaded, .inr ⟨topic, hsuffix.trans (List.suffix_cons ev past)⟩⟩
    obtain ⟨op, answer⟩ := ev
    cases op with
    | dispatch p =>
      match answer with
      | .error err => exact hold hemitted
      | .ok ⟨.empty, exitCode⟩ => exact hold hemitted
      | .ok ⟨.invalid, exitCode⟩ => exact hold hemitted
      | .ok ⟨.json env', exitCode⟩ =>
        cases hemitted
        exact ⟨past, rfl, .inl ⟨p, exitCode, List.suffix_rfl⟩⟩
    | memoryGet topic =>
      match answer with
      | .empty => exact hold hemitted
      | .invalid => exact hold hemitted
      | .json env' =>
        cases hemitted
        exact ⟨past, rfl, .inr ⟨topic, List.suffix_rfl⟩⟩
    | _ => exact hold hemitted

end SophiaOrchestrator
