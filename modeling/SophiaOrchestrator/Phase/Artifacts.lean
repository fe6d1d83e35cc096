import SophiaOrchestrator.Effects.Histories
import SophiaOrchestrator.Phase.Memory

/-!
# Declared artifacts

An envelope declares the artifacts of its phase by topic keys, and the service writes the
envelope to the memory engine under each of them.  The keys are free text of the agent.  The
apply executor declares an artifact too, but the path that completes the apply phase does not
write it.
-/

namespace SophiaOrchestrator

open Effects Prog

variable {π : MemoryPool} {tid : Nat} {ch : MemoryChoice} {request : Call} {hist h : History}
  {env : Envelope} {c : Change} {key : String}

/-! ## The frame of a write -/

def ownKey (name key : String) : Bool :=
  ("sdd/" ++ name ++ "/").toList.isPrefixOf key.toList

/-- The key lies in the namespace of the change, and in that of no other change of its
project. -/
def belongs (s : Store) (c : Change) (key : String) : Bool :=
  ownKey c.name key && s.identities.all fun other =>
    decide (other.1 = c.id) || decide (other.2.2 ≠ c.project) || !ownKey other.2.1 key

/-- Every key that the envelope declares belongs to the change that the call works on. -/
def declaresOwn (s : Store) (hist : History) (env : Envelope) : Bool :=
  match firstLoaded hist with
  | some c => env.artifactsSaved.all fun ref => ref.topicKey == "" || belongs s c ref.topicKey
  | none => true

/-- An envelope that an agent emits, on its output or in memory, declares keys of its own
change only. -/
def ownKeys (π : MemoryPool) : MemoryMove → Bool
  | .step tid ch =>
    match π.threads[tid]? with
    | some ⟨_, .call (.dispatch _) _, hist⟩ =>
      match ch.dispatch with
      | .ok ⟨.json env, _⟩ => declaresOwn π.state.store hist env
      | _ => true
    | some ⟨_, .call (.memoryGet _) _, hist⟩ =>
      match ch.memory with
      | .json env => declaresOwn π.state.store hist env
      | _ => true
    | _ => true
  | _ => true

theorem ownKeys_dispatch {p : Phase} {next : Except String DispatchResult → Program Unit}
    {exitCode : Int} (h : π.threads[tid]? = some ⟨request, .call (.dispatch p) next, hist⟩)
    (hanswer : ch.dispatch = .ok ⟨.json env, exitCode⟩) :
    ownKeys π (.step tid ch) = declaresOwn π.state.store hist env := by
  unfold ownKeys
  dsimp only
  rw [h]
  dsimp only
  rw [hanswer]

theorem ownKeys_memoryGet {topic : String} {next : RawEnvelope → Program Unit}
    (h : π.threads[tid]? = some ⟨request, .call (.memoryGet topic) next, hist⟩)
    (hanswer : ch.memory = .json env) :
    ownKeys π (.step tid ch) = declaresOwn π.state.store hist env := by
  unfold ownKeys
  dsimp only
  rw [h]
  dsimp only
  rw [hanswer]

theorem declaresOwn_of_emitted {cfg : ServiceConfig} {s : MemoryState} {moves : List MemoryMove}
    (hown : MemoryMeets cfg s ownKeys moves = true) {t : ServiceThread}
    (ht : (reachMemory cfg s moves).threads[tid]? = some t)
    (hemitted : emitted t.hist = some (some c, env)) :
    ∀ ref ∈ env.artifactsSaved, ref.topicKey = "" ∨ belongs s.store c ref.topicKey = true := by
  obtain ⟨past, hloaded, hwhere⟩ := exists_suffix_of_emitted hemitted
  -- The step at which the envelope arrived was one that the condition admits.
  have hadmitted : ∃ before, declaresOwn (reachMemory cfg s before).state.store past env =
    true := by
    rcases hwhere with ⟨p, exitCode, hsuffix⟩ | ⟨topic, hsuffix⟩
    · obtain ⟨before, ch, after, next, rfl, hthread, hret, -⟩ :=
        Pool.exists_move_of_suffix ht hsuffix
      rw [MemoryMeets, Pool.meets_append, Bool.and_eq_true, Pool.Meets, Bool.and_eq_true,
        ownKeys_dispatch hthread hret.symm] at hown
      exact ⟨before, hown.2.1⟩
    · obtain ⟨before, ch, after, next, rfl, hthread, hret, -⟩ :=
        Pool.exists_move_of_suffix ht hsuffix
      rw [MemoryMeets, Pool.meets_append, Bool.and_eq_true, Pool.Meets, Bool.and_eq_true,
        ownKeys_memoryGet hthread hret.symm] at hown
      exact ⟨before, hown.2.1⟩
  obtain ⟨before, hdeclares⟩ := hadmitted
  intro ref href
  unfold declaresOwn at hdeclares
  rw [← hloaded] at hdeclares
  have hbelongs := List.all_eq_true.mp hdeclares ref href
  rw [Bool.or_eq_true, beq_iff_eq] at hbelongs
  refine hbelongs.imp_right fun hkey => ?_
  unfold belongs at hkey ⊢
  rw [← memory_identities cfg s before]
  exact hkey

/-- A write on behalf of the change `c` is under a key of `c` in the project of `c`, and leaves
the records of every other change of the project, and those of the other projects, as they
are. -/
structure Framed (c : Change) (input : IngestMemoryInput) (π π' : MemoryPool) : Prop where
  own : ownKey c.name input.topicKey = true
  project : input.projectID = c.project
  session : input.sessionID = c.id
  others : ∀ r ∈ π.state.store.changes.rows, r.project = c.project → r.id ≠ c.id →
    ∀ key, ownKey r.name key = true →
      π'.state.records r.project key = π.state.records r.project key
  projects : ∀ project, project ≠ c.project →
    π'.state.records project = π.state.records project

theorem recordsAfter_eq_of_ne {input : IngestMemoryInput}
    {records : String → String → Option Envelope} {project : String}
    (hne : ¬(project = input.projectID ∧ key = input.topicKey)) :
    recordsAfter (.memoryIngest input) ch records project key = records project key := by
  have hupsert : upsertRecord records input project key = records project key := if_neg hne
  unfold recordsAfter
  cases ch.ingest with
  | ok _ => exact hupsert
  | error err =>
    cases ch.stored with
    | true => exact hupsert
    | false => rfl

/-- In every run in which the envelopes that agents emit declare keys of their own change only,
each write of an artifact, whether it succeeds or fails, touches only the records of the change
that the call works on. -/
theorem artifactWrites_framed (cfg : ServiceConfig) (s : MemoryState) (moves : List MemoryMove)
    (hown : MemoryMeets cfg s ownKeys moves = true) {tid : Nat} {request : Call}
    {input : IngestMemoryInput} {next : Except String Unit → Program Unit} {hist : History}
    (hthread : (reachMemory cfg s moves).threads[tid]? =
      some ⟨request, .call (.memoryIngest input) next, hist⟩) (ch : MemoryChoice) :
    ∃ c, firstLoaded hist = some c ∧
      Framed c input (reachMemory cfg s moves) (reachMemory cfg s (moves ++ [.step tid ch])) := by
  have hanswer : (Op.memoryIngest input).Answers (.ok ()) := trivial
  obtain ⟨c, q, env, ref, hdeclares⟩ : ∃ c q env ref, Declares input c q env ref hist :=
    conducted_next hthread hanswer
  obtain ⟨env₀, hemitted, hamends⟩ := hdeclares.emitted
  have hmem : ref ∈ env₀.artifactsSaved := hamends.artifactsSaved ▸ hdeclares.mem
  have hbelongs := (declaresOwn_of_emitted hown hthread hemitted ref hmem).resolve_left
    hdeclares.named
  rw [belongs, Bool.and_eq_true, List.all_eq_true] at hbelongs
  have hmove : (reachMemory cfg s (moves ++ [.step tid ch])).state.records =
      recordsAfter (.memoryIngest input) ch (reachMemory cfg s moves).state.records := by
    have hrun : reachMemory cfg s (moves ++ [.step tid ch]) =
        (reachMemory cfg s moves).perform memoryHandler tid request (.memoryIngest input) next
          hist ch :=
      (Pool.run_concat _ moves (.step tid ch)).trans (Pool.move_step_of_call hthread rfl)
    rw [hrun]
    rfl
  have hproject : input.projectID = c.project := by rw [hdeclares.input]; rfl
  have htopic : input.topicKey = ref.topicKey := by rw [hdeclares.input]; rfl
  refine ⟨c, hdeclares.loaded.first, ?_, hproject, by rw [hdeclares.input]; rfl, ?_, ?_⟩
  · rw [htopic]
    exact hbelongs.1
  · intro r hr hsame hother key hkey
    rw [hmove]
    refine recordsAfter_eq_of_ne ?_
    rintro ⟨-, rfl⟩
    have hidentity : r.identity ∈ s.store.identities := by
      rw [← memory_identities cfg s moves]
      exact List.mem_map_of_mem hr
    have hforeign := hbelongs.2 _ hidentity
    rw [htopic] at hkey
    simp [Change.identity, hother, hsame, hkey] at hforeign
  · intro project hne
    funext key
    rw [hmove]
    refine recordsAfter_eq_of_ne fun heq => hne ?_
    rw [heq.1, hproject]

/-! ## What becomes of declared artifacts -/

/-- Every artifact that the accepted envelope of a phase other than init declares under a key
has been written with the whole envelope, or an event that names the key says that this
failed. -/
def ArtifactsKept (h : History) : Prop :=
  ∀ q env, ⟨.phaseSave q, .ok ()⟩ ∈ h → q.status.settled = true → q.pType ≠ .init →
    q.envelope = some env → ∀ ref ∈ env.artifactsSaved, ref.topicKey ≠ "" → Kept q env ref h

/-- No apply executor that the call has started has finalized a board. -/
def Unfinalized (h : History) : Prop :=
  ∀ c p prior allSucceeded summary dispatches,
    ⟨.applyExecute c p prior,
      (ApplyOutcome.finalized allSucceeded summary dispatches).result c⟩ ∉ h

theorem ApplyOutcome.artifactsSaved_eq_nil {outcome : ApplyOutcome}
    (henv : (outcome.result c).envelope = some env)
    (hnot : ∀ allSucceeded summary dispatches,
      outcome ≠ .finalized allSucceeded summary dispatches) : env.artifactsSaved = [] := by
  cases outcome with
  | finalized allSucceeded summary dispatches => exact absurd rfl (hnot _ _ _)
  | aborted reason dispatches | preflightFailed reason =>
    cases henv
    rfl

/-- When a call, in any interleaving, performs its last operation and no apply executor that it
has started has finalized a board, every declared artifact of its accepted
envelope has been written to memory, or the failure was published. -/
theorem artifacts_kept (cfg : ServiceConfig) (s : Store) (moves : List ServiceMove) {tid : Nat}
    {ch : Choice} {t : ServiceThread}
    (hfinishes : Pool.Finishes handler (main cfg) (reach cfg s moves) tid ch t)
    (hunfinalized : Unfinalized t.hist) : ArtifactsKept t.hist := by
  have hreaches : ∀ t' ∈ (reach cfg s moves).threads,
      Pool.Reaches Op.Answers (fun _ : Call => Polite) (fun _ => Clear) t' :=
    Pool.run_reaches handle_answers (main_conducted cfg) s moves
  have hclear : Clear t.hist := hfinishes.ends handle_answers hreaches
  intro q env hsaved hsettled hinit henv ref href hkey
  rcases hclear.accounted q env hsaved hsettled henv with
    hkept | hinit' | ⟨c, p, prior, outcome, env₀, hexecuted, henv₀, hsame⟩
  · exact hkept ref href hkey
  · exact absurd hinit' hinit
  · -- The envelope is that of an executor, which then declares nothing.
    have hnone := ApplyOutcome.artifactsSaved_eq_nil henv₀ (by
      rintro allSucceeded summary dispatches rfl
      exact hunfinalized _ _ _ _ _ _ hexecuted)
    rw [← hsame, hnone] at href
    cases href

/-! ## Concrete runs -/

def declaringEnvelope (pt : PhaseType) (keys : List String) : Envelope :=
  { sampleEnvelope pt .done with artifactsSaved := keys.map fun key => ⟨key, "notes"⟩ }

def otherChange : Change :=
  { sampleChange .init with id := ⟨2⟩, name := "pay-bills" }

def twoChanges : MemoryState where
  store := { sampleStore .init with
    changes := ⟨[sampleChange .init, otherChange], by decide, by decide⟩
    phase_change := by simp [sampleStore] }
  records := fun project key =>
    if project = "web" ∧ key = "sdd/pay-bills/init" then
      some { sampleEnvelope .init .done with changeName := "pay-bills" }
    else
      none

/-- The first operations of a run of explore for the first change whose agent declares these
keys. -/
def exploreDeclaring (keys : List String) (steps : Nat) : List MemoryMove :=
  .start (.run { changeID := ⟨1⟩, phaseType := .explore }) ::
    List.replicate steps (.step 0
      { phaseID := .ok ⟨7⟩
        dispatch := .ok { envelopeRaw := .json (declaringEnvelope .explore keys) } })

def nextKey : Option ServiceThread → Option String
  | some ⟨_, .call (.memoryIngest input) _, _⟩ => some input.topicKey
  | _ => none

theorem exists_write_of_nextKey {thread : Option ServiceThread} (h : nextKey thread = some key) :
    ∃ request input next hist,
      thread = some ⟨request, .call (.memoryIngest input) next, hist⟩ ∧ input.topicKey = key := by
  unfold nextKey at h
  split at h
  · next request input next hist =>
    exact ⟨request, input, next, hist, rfl, Option.some.inj h⟩
  · cases h

theorem artifactWrites_framed_explore : ∃ request input next hist,
    (reachMemory {} twoChanges (exploreDeclaring ["sdd/add-login/explore"] 32)).threads[0]? =
      some ⟨request, .call (.memoryIngest input) next, hist⟩ ∧
    input.topicKey = "sdd/add-login/explore" ∧
    ∃ c, firstLoaded hist = some c ∧
      Framed c input (reachMemory {} twoChanges (exploreDeclaring ["sdd/add-login/explore"] 32))
        (reachMemory {} twoChanges
          (exploreDeclaring ["sdd/add-login/explore"] 32 ++ [.step 0 {}])) := by
  have hnext : nextKey ((reachMemory {} twoChanges
      (exploreDeclaring ["sdd/add-login/explore"] 32)).threads[0]?) =
      some "sdd/add-login/explore" := by decide +kernel
  obtain ⟨request, input, next, hist, hthread, hkey⟩ := exists_write_of_nextKey hnext
  exact ⟨request, input, next, hist, hthread, hkey,
    artifactWrites_framed {} twoChanges (exploreDeclaring ["sdd/add-login/explore"] 32)
      (by decide +kernel) hthread {}⟩

/-- The explore agent of one change declares a key of the other change: the record of the other
change is replaced by the envelope of the first one. -/
theorem foreign_record_replaced :
    ownKey "add-login" "sdd/pay-bills/init" = false ∧
    ownKey otherChange.name "sdd/pay-bills/init" = true ∧
    (twoChanges.records "web" "sdd/pay-bills/init").map Envelope.changeName =
      some "pay-bills" ∧
    ((reachMemory {} twoChanges (exploreDeclaring ["sdd/pay-bills/init"] 40)).threads.map
      fun t => (firstLoaded t.hist).map Change.name) = [some "add-login"] ∧
    ((reachMemory {} twoChanges (exploreDeclaring ["sdd/pay-bills/init"] 40)).state.records
      "web" "sdd/pay-bills/init").map Envelope.changeName = some "add-login" := by
  decide +kernel

def declaredKeys : History → List String
  | [] => []
  | ⟨.phaseSave q, .ok ()⟩ :: past =>
    if q.status.settled = true ∧ q.pType ≠ .init then
      ((q.envelope.map fun env => env.artifactsSaved.map ArtifactRef.topicKey).getD []) ++
        declaredKeys past
    else
      declaredKeys past
  | _ :: past => declaredKeys past

theorem exists_of_declaredKeys (hmem : key ∈ declaredKeys h) :
    ∃ q env ref, ⟨.phaseSave q, .ok ()⟩ ∈ h ∧ q.status.settled = true ∧ q.pType ≠ .init ∧
      q.envelope = some env ∧ ref ∈ env.artifactsSaved ∧ ref.topicKey = key := by
  fun_induction declaredKeys h with
  | case1 => cases hmem
  | case2 q past hcounts ih =>
    rcases List.mem_append.mp hmem with hhere | hold
    · cases henv : q.envelope with
      | none => simp [henv] at hhere
      | some env =>
        simp only [henv, Option.map_some, Option.getD_some] at hhere
        obtain ⟨ref, href, heq⟩ := List.mem_map.mp hhere
        exact ⟨q, env, ref, List.mem_cons_self, hcounts.1, hcounts.2, henv, href, heq⟩
    · obtain ⟨q', env, ref, hsaved, hrest⟩ := ih hold
      exact ⟨q', env, ref, List.mem_cons_of_mem _ hsaved, hrest⟩
  | case3 q past hcounts ih | case4 ev past hev ih =>
    obtain ⟨q', env, ref, hsaved, hrest⟩ := ih hmem
    exact ⟨q', env, ref, List.mem_cons_of_mem _ hsaved, hrest⟩

theorem not_artifactsKept (hdeclared : key ∈ declaredKeys h) (hkey : key ≠ "")
    (hunwritten : wrote h = false) : ¬ArtifactsKept h := by
  intro hkept
  obtain ⟨q, env, ref, hsaved, hsettled, htype, henv, href, rfl⟩ :=
    exists_of_declaredKeys hdeclared
  obtain ⟨c, -, hingested | ⟨err, hfailed, -⟩⟩ :=
    hkept q env hsaved hsettled htype henv ref href hkey
  · rw [wrote_of_mem hingested] at hunwritten
    cases hunwritten
  · rw [wrote_of_mem hfailed] at hunwritten
    cases hunwritten

def exploreKeeping (steps : Nat) : List ServiceMove :=
  (exploreDeclaring ["sdd/add-login/explore"] steps).map (Move.project MemoryChoice.toChoice)

theorem artifacts_kept_explore : ∃ t,
    Pool.Finishes handler (main {}) (reach {} (sampleStore .init) (exploreKeeping 36)) 0 {} t ∧
    declaredKeys t.hist = ["sdd/add-login/explore"] ∧ ArtifactsKept t.hist := by
  obtain ⟨t, hfinishes, hend⟩ : ∃ t, Pool.Finishes handler (main {})
      (reach {} (sampleStore .init) (exploreKeeping 36)) 0 {} t ∧ _ :=
    Pool.exists_finishes
      (P := fun t => decide (declaredKeys t.hist = ["sdd/add-login/explore"]) &&
        t.hist.all fun ev => match ev.op with | .applyExecute _ _ _ => false | _ => true)
      (by decide +kernel) (by decide +kernel)
  rw [Bool.and_eq_true, decide_eq_true_eq, List.all_eq_true] at hend
  refine ⟨t, hfinishes, hend.1, artifacts_kept {} (sampleStore .init) (exploreKeeping 36)
    hfinishes ?_⟩
  intro c p prior allSucceeded summary dispatches hmem
  cases hend.2 _ hmem

def applyFinalized (steps : Nat) : List ServiceMove :=
  .start (.run { changeID := ⟨1⟩, phaseType := .apply }) ::
    List.replicate steps (.step 0 { phaseID := .ok ⟨7⟩ })

/-- The executor declares its progress, and the call comes to its end without a write to
memory and without an event about it. -/
theorem apply_artifact_lost : ∃ t,
    Pool.Finishes handler (main {}) (reach {} (sampleStore .tasks) (applyFinalized 27)) 0 {} t ∧
    ¬ArtifactsKept t.hist := by
  obtain ⟨t, hfinishes, hend⟩ : ∃ t, Pool.Finishes handler (main {})
      (reach {} (sampleStore .tasks) (applyFinalized 27)) 0 {} t ∧ _ :=
    Pool.exists_finishes
      (P := fun t => decide ("sdd/add-login/apply-progress" ∈ declaredKeys t.hist) &&
        !wrote t.hist)
      (by decide +kernel) (by decide +kernel)
  rw [Bool.and_eq_true, decide_eq_true_eq, Bool.not_eq_true'] at hend
  exact ⟨t, hfinishes, not_artifactsKept hend.1 (by decide) hend.2⟩

end SophiaOrchestrator
