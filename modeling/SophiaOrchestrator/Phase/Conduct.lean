import SophiaOrchestrator.Phase.Guarantee

/-!
# How a call treats the other services

`Justified` is about the tables.  This module says the same kind of thing about the
services a run talks to: an agent is started only after a decision of the governance
service that is not a refusal, a spawn slot is taken only by a call that holds none and
given back only by one that does, and a write to the memory engine carries an artifact that
the saved envelope declares.
-/

namespace SophiaOrchestrator

open Effects Prog

variable {h past h' : History} {c : Change} {q p p' : Phase} {env : Envelope} {cfg : ServiceConfig}
  {inp : RunPhaseInput} {now : Time} {reason : String} {persist : Bool}

/-! ## What a history says -/

def received : History → Option (Except String GovernanceDecision)
  | [] => none
  | ⟨.evaluatePhase _ _ _, answer⟩ :: _ => some answer
  | _ :: past => received past

def slot : History → Bool
  | [] => false
  | ⟨.spawnAcquire, .ok ()⟩ :: _ => true
  | ⟨.spawnRelease, _⟩ :: _ => false
  | _ :: past => slot past

def firstLoaded : History → Option Change
  | [] => none
  | ⟨.changeFindByID _, .ok c⟩ :: past => some ((firstLoaded past).getD c)
  | _ :: past => firstLoaded past

/-- The latest envelope that an agent has emitted, on its output or in memory, with the
change that the call was working on. -/
def emitted : History → Option (Option Change × Envelope)
  | [] => none
  | ⟨.dispatch _, .ok ⟨.json env, _⟩⟩ :: past => some (firstLoaded past, env)
  | ⟨.memoryGet _, .json env⟩ :: past => some (firstLoaded past, env)
  | _ :: past => emitted past

def lastSaved : History → Option Phase
  | [] => none
  | ⟨.phaseSave q, .ok ()⟩ :: _ => some q
  | _ :: past => lastSaved past

def wrote : History → Bool
  | [] => false
  | ⟨.memoryIngest _, _⟩ :: _ => true
  | _ :: past => wrote past

def Op.calm : Op → Bool
  | .evaluatePhase _ _ _ | .spawnAcquire | .spawnRelease | .dispatch _ => false
  | .applyExecute _ _ _ | .memoryGet _ | .memoryIngest _ | .phaseSave _ => false
  | _ => true

theorem history_calm (ev : Event) (past : History) (h : ev.op.calm = true) :
    received (ev :: past) = received past ∧ slot (ev :: past) = slot past ∧
      emitted (ev :: past) = emitted past ∧ lastSaved (ev :: past) = lastSaved past ∧
      wrote (ev :: past) = wrote past := by
  obtain ⟨op, answer⟩ := ev
  cases op <;> first | exact ⟨rfl, rfl, rfl, rfl, rfl⟩ | cases h

theorem wrote_of_mem {input : IngestMemoryInput} {answer : Except String Unit}
    (hmem : ⟨.memoryIngest input, answer⟩ ∈ h) : wrote h = true := by
  induction h with
  | nil => cases hmem
  | cons ev past ih =>
    rcases List.mem_cons.mp hmem with rfl | hold
    · rfl
    · obtain ⟨op, ret⟩ := ev
      cases op <;> first | exact ih hold | rfl

theorem firstLoaded_cons (h : firstLoaded past = some c) (ev : Event) :
    firstLoaded (ev :: past) = some c := by
  obtain ⟨op, answer⟩ := ev
  cases op with
  | changeFindByID id =>
    cases answer with
    | error err => exact h
    | ok c' => simp [firstLoaded, h]
  | _ => exact h

theorem firstLoaded_of_suffix (hfirst : firstLoaded past = some c) (hsuffix : past <:+ h) :
    firstLoaded h = some c := by
  obtain ⟨newer, rfl⟩ := hsuffix
  induction newer with
  | nil => exact hfirst
  | cons ev newer ih => exact firstLoaded_cons ih ev

/-! ## Conduct -/

/-- The status of a phase that `runAsync` or `Reject` is done with. -/
def PhaseStatus.settled : PhaseStatus → Bool
  | .done | .doneWithConcerns | .blocked | .needsContext => true
  | _ => false

/-- Governance has answered, and has neither denied the phase nor asked for an approval. -/
def Permitted (past : History) : Prop :=
  ∃ d, received past = some (.ok d) ∧ d.decision ≠ .deny ∧ d.decision ≠ .requireApproval

structure Loaded (c : Change) (p : Phase) (h : History) : Prop where
  changeID : c.id = p.changeID
  first : firstLoaded h = some c

def Unsettled (h : History) : Prop :=
  ∀ q, ⟨.phaseSave q, .ok ()⟩ ∈ h → q.status.settled = false

/-- The write is one of the artifacts that the envelope saved with a phase declares, and
that the envelope of the agent at work for the change declared. -/
structure Declares (input : IngestMemoryInput) (c : Change) (q : Phase) (env : Envelope)
    (ref : ArtifactRef) (past : History) : Prop where
  loaded : Loaded c q past
  saved : lastSaved past = some q
  envelope : q.envelope = some env
  mem : ref ∈ env.artifactsSaved
  named : ref.topicKey ≠ ""
  input : input = artifactInput c q env ref
  emitted : ∃ env₀, emitted past = some (some c, env₀) ∧ env₀.Amends env

/-- What a call has done before it talks to another service. -/
def Conducted : Event → History → Prop
  | ⟨.spawnAcquire, _⟩, past => slot past = false
  | ⟨.spawnRelease, _⟩, past => slot past = true
  | ⟨.dispatch _, _⟩, past => Permitted past
  | ⟨.applyExecute c _ _, _⟩, past =>
    Permitted past ∧ firstLoaded past = some c ∧ Unsettled past
  | ⟨.phaseSave _, _⟩, past => wrote past = false
  | ⟨.memoryIngest input, _⟩, past => ∃ c q env ref, Declares input c q env ref past
  | _, _ => True

def Polite : History → Prop
  | [] => True
  | ev :: past => Conducted ev past

theorem polite_calm (ev : Event) (past : History) (h : ev.op.calm = true) :
    Polite (ev :: past) := by
  obtain ⟨op, answer⟩ := ev
  cases op <;> trivial

/-! ## What becomes of declared artifacts -/

/-- The declared artifact has been written with the whole envelope, or this has failed and
an event that names its key says so. -/
def Kept (q : Phase) (env : Envelope) (ref : ArtifactRef) (h : History) : Prop :=
  ∃ c, c.id = q.changeID ∧
    (⟨.memoryIngest (artifactInput c q env ref), .ok ()⟩ ∈ h ∨
      ∃ err, ⟨.memoryIngest (artifactInput c q env ref), .error err⟩ ∈ h ∧
        ⟨.publishEvent (some q.id)
          (.memoryArtifactPersistFailed ref.topicKey ref.type err), ()⟩ ∈ h)

def Executed (env : Envelope) (h : History) : Prop :=
  ∃ c p prior outcome env₀, ⟨.applyExecute c p prior, ApplyOutcome.result c outcome⟩ ∈ h ∧
    (outcome.result c).envelope = some env₀ ∧ env₀.artifactsSaved = env.artifactsSaved

/-- Every declared artifact with a key is kept, unless the envelope is that of the init
service or of the apply executor. -/
def Disposed (q : Phase) (env : Envelope) (h : History) : Prop :=
  (∀ ref ∈ env.artifactsSaved, ref.topicKey ≠ "" → Kept q env ref h) ∨
    q.pType = .init ∨ Executed env h

def Accounted (h : History) : Prop :=
  ∀ q env, ⟨.phaseSave q, .ok ()⟩ ∈ h → q.status.settled = true → q.envelope = some env →
    Disposed q env h

theorem Kept.mono {ref : ArtifactRef} (hkept : Kept q env ref h) (hsuffix : h <:+ h') :
    Kept q env ref h' := by
  obtain ⟨c, hid, hingested | ⟨err, hfailed, hpublished⟩⟩ := hkept
  · exact ⟨c, hid, .inl (hsuffix.subset hingested)⟩
  · exact ⟨c, hid, .inr ⟨err, hsuffix.subset hfailed, hsuffix.subset hpublished⟩⟩

theorem Executed.mono (hexecuted : Executed env h) (hsuffix : h <:+ h') : Executed env h' := by
  obtain ⟨c, p, prior, outcome, env₀, hmem, hrest⟩ := hexecuted
  exact ⟨c, p, prior, outcome, env₀, hsuffix.subset hmem, hrest⟩

theorem Disposed.mono (hdisposed : Disposed q env h) (hsuffix : h <:+ h') : Disposed q env h' := by
  rcases hdisposed with hkept | hinit | hexecuted
  · exact .inl fun ref href hkey => (hkept ref href hkey).mono hsuffix
  · exact .inr (.inl hinit)
  · exact .inr (.inr (hexecuted.mono hsuffix))

theorem Loaded.mono (hloaded : Loaded c p h) (hsuffix : h <:+ h') : Loaded c p h' :=
  ⟨hloaded.changeID, firstLoaded_of_suffix hloaded.first hsuffix⟩

theorem Unsettled.cons_phaseSave (hunsettled : Unsettled h) (answer : Except RepoErr Unit)
    (hq : q.status.settled = false) :
    Unsettled (⟨.phaseSave q, answer⟩ :: h) := by
  intro q' hmem
  rcases List.mem_cons.mp hmem with heq | hold
  · cases congrArg Ev.op heq
    exact hq
  · exact hunsettled q' hold

theorem Accounted.cons (haccounted : Accounted h) (ev : Event)
    (hsave : ∀ q env, ev = ⟨.phaseSave q, .ok ()⟩ → q.status.settled = true →
      q.envelope = some env → Disposed q env (ev :: h)) : Accounted (ev :: h) := by
  intro q env hmem hsettled henv
  rcases List.mem_cons.mp hmem with heq | hold
  · exact hsave q env heq.symm hsettled henv
  · exact (haccounted q env hold hsettled henv).mono (List.suffix_cons ev h)

/-! ## Between two operations of a run -/

structure Clear (h : History) : Prop where
  slot : slot h = false
  accounted : Accounted h

structure Ready (h : History) : Prop extends Clear h where
  unwritten : wrote h = false

theorem Ready.cons_phaseSave (hready : Ready h) {answer : Except RepoErr Unit}
    (hsave : ∀ env, q.status.settled = true → q.envelope = some env → env.artifactsSaved = []) :
    Ready (⟨.phaseSave q, answer⟩ :: h) := by
  refine ⟨⟨hready.slot, hready.accounted.cons _ ?_⟩, hready.unwritten⟩
  rintro q' env heq hsettled henv
  obtain rfl : q = q' := Op.phaseSave.inj (congrArg Ev.op heq)
  refine .inl ?_
  rw [hsave env hsettled henv]
  simp

/-! ## The stages of a call -/

structure Fresh (loaded : Option Change) (h : History) : Prop extends Ready h where
  first : firstLoaded h = loaded
  unsettled : Unsettled h

def Emits (c : Change) (raw : RawEnvelope) (h : History) : Prop :=
  ∀ env, raw = .json env → emitted h = some (some c, env)

structure Staffed (c : Change) (h : History) : Prop where
  slot : slot h = true
  accounted : Accounted h
  unwritten : wrote h = false
  first : firstLoaded h = some c

/-- The phase is saved with its envelope, and the artifacts `refs` are still to be written. -/
structure Storing (c : Change) (q : Phase) (env : Envelope) (refs : List ArtifactRef)
    (h : History) : Prop where
  loaded : Loaded c q h
  newest : lastSaved h = some q
  envelope : q.envelope = some env
  released : slot h = false
  source : refs ≠ [] → ∃ env₀, emitted h = some (some c, env₀) ∧ env₀.Amends env
  declared : ∀ ref ∈ refs, ref ∈ env.artifactsSaved ∧ ref.topicKey ≠ ""
  kept : (∀ ref ∈ env.artifactsSaved, ref.topicKey ≠ "" → ref ∈ refs ∨ Kept q env ref h) ∨
    q.pType = .init ∨ Executed env h
  others : ∀ q' env', ⟨.phaseSave q', .ok ()⟩ ∈ h → q'.status.settled = true →
    q'.envelope = some env' → q' = q ∨ Disposed q' env' h

def Courtesy : Stage → History → Prop
  | .begun, h | .fetched _ _, h => Fresh none h
  | .found _ c, h | .free _ c, h | .named _ c _, h | .informed _ c _ _, h => Fresh (some c) h
  | .matched _ c _, h | .ready c _, h | .working c _, h | .initialised c _ _, h => Fresh (some c) h
  | .reading c _ d _, h => Fresh (some c) h ∧ received h = some (.ok d)
  | .staffed c _ _, h => Staffed c h ∧ Permitted h
  | .sent c _ result, h => Staffed c h ∧ Emits c (rawOf result) h
  | .back c _ raw, h => Ready h ∧ firstLoaded h = some c ∧ Emits c raw h
  | .executed c p result, h => Ready h ∧ firstLoaded h = some c ∧
    ∃ prior, ⟨.applyExecute c p prior, result⟩ ∈ h
  | .lost _ _ _, h | .failing _ _ _ _, h | .sweeping _, h => Ready h
  | .saved c _ q env refs _, h => Storing c q env refs h
  | .unstored c _ q env ref refs err, h => Storing c q env (ref :: refs) h ∧
    ⟨.memoryIngest (artifactInput c q env ref), .error err⟩ ∈ h
  | .blocked _ _ _, h | .aborted _, h | .served, h | .ended, h => Clear h

/-! ## The moves -/

section Cons

variable {ev : Event} {loaded loaded' : Option Change} {refs : List ArtifactRef}

theorem Accounted.cons_of_op (haccounted : Accounted h) (hop : ev.op.savesPhase = false) :
    Accounted (ev :: h) := by
  refine haccounted.cons ev ?_
  rintro q _ rfl
  cases hop

theorem Clear.cons (hclear : Clear h)
    (hslot : SophiaOrchestrator.slot (ev :: h) = SophiaOrchestrator.slot h)
    (hop : ev.op.savesPhase = false) : Clear (ev :: h) :=
  ⟨hslot.trans hclear.slot, hclear.accounted.cons_of_op hop⟩

theorem Ready.cons (hready : Ready h) (hslot : slot (ev :: h) = slot h)
    (hwrote : wrote (ev :: h) = wrote h) (hop : ev.op.savesPhase = false) : Ready (ev :: h) :=
  ⟨hready.toClear.cons hslot hop, hwrote.trans hready.unwritten⟩

theorem Fresh.cons (hfresh : Fresh loaded h) (hslot : slot (ev :: h) = slot h)
    (hwrote : wrote (ev :: h) = wrote h) (hop : ev.op.savesPhase = false)
    (hfirst : firstLoaded (ev :: h) = loaded') : Fresh loaded' (ev :: h) := by
  refine ⟨hfresh.toReady.cons hslot hwrote hop, hfirst, fun q hmem => ?_⟩
  rcases List.mem_cons.mp hmem with rfl | hold
  · cases hop
  · exact hfresh.unsettled q hold

theorem Storing.cons (hstoring : Storing c q env refs h) (hslot : slot (ev :: h) = slot h)
    (hemitted : emitted (ev :: h) = emitted h) (hlast : lastSaved (ev :: h) = lastSaved h)
    (hop : ev.op.savesPhase = false) : Storing c q env refs (ev :: h) := by
  have hsuffix := List.suffix_cons ev h
  refine ⟨hstoring.loaded.mono hsuffix, hlast.trans hstoring.newest, hstoring.envelope,
    hslot.trans hstoring.released, by rw [hemitted]; exact hstoring.source,
    hstoring.declared, ?_, ?_⟩
  · refine hstoring.kept.imp (fun hkept ref href hkey => ?_) (.imp_right fun hexecuted => ?_)
    · exact (hkept ref href hkey).imp_right fun hkept => hkept.mono hsuffix
    · exact hexecuted.mono hsuffix
  · intro q' env' hmem hsettled henv'
    rcases List.mem_cons.mp hmem with rfl | hold
    · cases hop
    · exact (hstoring.others q' env' hold hsettled henv').imp_right fun hold => hold.mono hsuffix

theorem Storing.tail {ref : ArtifactRef} (hstoring : Storing c q env (ref :: refs) h)
    (hkept : Kept q env ref h) : Storing c q env refs h := by
  refine { hstoring with
    source := fun _ => hstoring.source (List.cons_ne_nil _ _)
    declared := fun ref' href' => hstoring.declared ref' (List.mem_cons_of_mem _ href')
    kept := hstoring.kept.imp_left fun hall ref' href' hkey => ?_ }
  rcases hall ref' href' hkey with hmem | hold
  · rcases List.mem_cons.mp hmem with rfl | hrest
    · exact .inr hkept
    · exact .inl hrest
  · exact .inr hold

theorem Storing.clear (hstoring : Storing c q env [] h) : Clear h := by
  refine ⟨hstoring.released, fun q' env' hmem hsettled henv' => ?_⟩
  rcases hstoring.others q' env' hmem hsettled henv' with rfl | hdisposed
  · obtain rfl : env = env' := Option.some.inj (hstoring.envelope.symm.trans henv')
    refine hstoring.kept.imp_left fun hall ref href hkey => ?_
    exact (hall ref href hkey).resolve_left List.not_mem_nil
  · exact hdisposed

end Cons

theorem Courtesy.clear {s : Stage} (hpending : s.pending = true) (hcourtesy : Courtesy s h) :
    Clear h := by
  cases s <;>
    first
    | exact Fresh.toReady hcourtesy |>.toClear
    | exact Ready.toClear hcourtesy
    | exact hcourtesy
    | cases hpending

theorem Courtesy.onOk {s : Stage} {answer : Except RepoErr Unit} (hclear : Clear h)
    (hok : Courtesy s h) : Courtesy (s.onOk answer) h := by
  cases answer with
  | error err => exact hclear
  | ok _ => exact hok

theorem calm_of_idle {op : Op} (h : op.idle = true) :
    op.calm = true ∧ op.savesPhase = false := by
  cases op <;> first | exact ⟨rfl, rfl⟩ | cases h

theorem firstLoaded_idle (ev : Event) (past : History) (h : ev.op.idle = true) :
    firstLoaded (ev :: past) = firstLoaded past := by
  obtain ⟨op, answer⟩ := ev
  cases op <;> first | rfl | cases h

theorem Courtesy.stay {s : Stage} {ev : Event} (hcourtesy : Courtesy s h)
    (hcalm : ev.op.calm = true) (hop : ev.op.savesPhase = false)
    (hfirst : firstLoaded (ev :: h) = firstLoaded h) : Courtesy s (ev :: h) := by
  obtain ⟨hreceived, hslot, hemitted, hlast, hwrote⟩ := history_calm ev h hcalm
  have hfresh : ∀ {loaded}, Fresh loaded h → Fresh loaded (ev :: h) := fun hfresh =>
    hfresh.cons hslot hwrote hop (hfirst.trans hfresh.first)
  have hready : Ready h → Ready (ev :: h) := fun hready => hready.cons hslot hwrote hop
  have hstaffed : ∀ {c}, Staffed c h → Staffed c (ev :: h) := fun hstaffed =>
    ⟨hslot.trans hstaffed.slot, hstaffed.accounted.cons_of_op hop,
      hwrote.trans hstaffed.unwritten, hfirst.trans hstaffed.first⟩
  have hemits : ∀ {c raw}, Emits c raw h → Emits c raw (ev :: h) := fun hemits env heq =>
    hemitted.trans (hemits env heq)
  cases s with
  | reading c p d prior => exact ⟨hfresh hcourtesy.1, hreceived.trans hcourtesy.2⟩
  | staffed c p prior =>
    exact ⟨hstaffed hcourtesy.1, by rw [Permitted, hreceived]; exact hcourtesy.2⟩
  | sent c p result => exact ⟨hstaffed hcourtesy.1, hemits hcourtesy.2⟩
  | back c p raw =>
    exact ⟨hready hcourtesy.1, hfirst.trans hcourtesy.2.1, hemits hcourtesy.2.2⟩
  | executed c p result =>
    exact ⟨hready hcourtesy.1, hfirst.trans hcourtesy.2.1, hcourtesy.2.2.imp fun _ => .tail _⟩
  | saved c p q env refs moved => exact Storing.cons hcourtesy hslot hemitted hlast hop
  | unstored c p q env ref refs err =>
    exact ⟨hcourtesy.1.cons hslot hemitted hlast hop, .tail _ hcourtesy.2⟩
  | _ =>
    first
    | exact hfresh hcourtesy
    | exact hready hcourtesy
    | exact Clear.cons hcourtesy hslot hop

/-! ## The outcome of a phase -/

/-- Where the envelope of a phase comes from: one that is persisted is the agent's, and one
that is not is that of the init service or of the apply executor. -/
def Sourced (c : Change) (p : Phase) (env : Envelope) (h : History) : Bool → Prop
  | true => ∃ env₀, emitted h = some (some c, env₀) ∧ env₀.Amends env
  | false => p.pType = .init ∨ Executed env h

/-- The concerns of the critic change at most the status of the envelope, and nothing of
the phase that identifies it. -/
theorem withConcerns_amends (env : Envelope) (p : Phase) (concerns : List Concern) :
    env.Amends (withConcerns env p concerns).1 ∧
      (withConcerns env p concerns).2.changeID = p.changeID ∧
      (withConcerns env p concerns).2.pType = p.pType := by
  unfold withConcerns
  split <;> exact ⟨rfl, rfl, rfl⟩

theorem artifactsSaved_of_complete_blocked {summary : String}
    (h : p.complete (some (blockedEnvelope c p' summary)) now = .ok q) (env : Envelope)
    (henv : q.envelope = some env) : env.artifactsSaved = [] := by
  obtain ⟨-, -, -, rfl⟩ := Phase.complete_eq_ok_iff.mp h
  cases henv
  rfl

theorem start_not_settled (h : p.start now = .ok p') :
    p'.status.settled = false := by
  obtain ⟨-, -, rfl⟩ := Phase.start_eq_ok_iff.mp h
  rfl

theorem Ready.cons_unsettled (hready : Ready h) (answer : Except RepoErr Unit)
    (hunsettled : q.status.settled = false) :
    Ready (⟨.phaseSave q, answer⟩ :: h) := by
  refine hready.cons_phaseSave fun env hsettled _ => ?_
  rw [hunsettled] at hsettled
  cases hsettled

theorem Fresh.cons_unsettled (hfresh : Fresh (some c) h) (answer : Except RepoErr Unit)
    (hrunning : q.status.settled = false) :
    Polite (⟨.phaseSave q, answer⟩ :: h) ∧
      Courtesy (.onOk (.ready c q) answer) (⟨.phaseSave q, answer⟩ :: h) := by
  have hready := hfresh.toReady.cons_unsettled answer hrunning
  exact ⟨hfresh.unwritten, .onOk hready.toClear
    ⟨hready, hfresh.first, hfresh.unsettled.cons_phaseSave answer hrunning⟩⟩

section Outcome

variable {s : Stage} {call : Call} {raw : RawEnvelope} {concerns : List Concern}

theorem Courtesy.ready (hcourtesy : Courtesy s h) (hrun : s.run = some (c, p)) : Ready h := by
  cases s <;>
    first
    | exact Fresh.toReady hcourtesy
    | exact Fresh.toReady hcourtesy.1
    | exact hcourtesy.1
    | cases hrun

theorem Stage.Offers.courtesy (hoffers : s.Offers c p env persist) (hgrounds : Grounds call s h)
    (hcourtesy : Courtesy s h) :
    Ready h ∧ firstLoaded h = some c ∧ Sourced c p env h persist := by
  cases hoffers with
  | init htype => exact ⟨hcourtesy.toReady, hcourtesy.first, .inl htype⟩
  | apply htype henv =>
    obtain ⟨-, outcome, rfl⟩ := hgrounds
    obtain ⟨hready, hfirst, prior, hmem⟩ := hcourtesy
    exact ⟨hready, hfirst, .inr ⟨c, p, prior, outcome, env, hmem, henv, rfl⟩⟩
  | agent hvalid =>
    obtain ⟨hready, hfirst, hemits⟩ := hcourtesy
    obtain ⟨env₀, heq, hamends⟩ := amends_of_validateEnvelope hvalid
    exact ⟨hready, hfirst, env₀, hemits env₀ heq, hamends⟩

theorem Stage.Drops.courtesy (hdrops : s.Drops c p p') (hcourtesy : Courtesy s h) : Ready h := by
  cases hdrops with
  | outcome hrun => exact hcourtesy.ready hrun
  | refused _ hoffers => exact hcourtesy.ready hoffers.run
  | lost => exact hcourtesy

/-- The save of a completed phase leaves the artifacts of an agent's envelope to be written. -/
theorem Ready.storing (hready : Ready h) (hloaded : Loaded c p h)
    (hsource : Sourced c p env h persist)
    (hcomplete : (withConcerns env p concerns).2.complete (some (withConcerns env p concerns).1)
      now = .ok q) :
    Storing c q (withConcerns env p concerns).1 (toStore (withConcerns env p concerns).1 persist)
      (⟨.phaseSave q, .ok ()⟩ :: h) := by
  obtain ⟨hamends, hchange, htype⟩ := withConcerns_amends env p concerns
  obtain ⟨-, hchange', htype', -⟩ := Phase.complete_key hcomplete
  refine ⟨⟨?_, hloaded.first⟩, rfl, ?_, hready.slot, fun hrefs => ?_, fun ref href => ?_, ?_, ?_⟩
  · rw [hloaded.changeID, hchange', hchange]
  · obtain ⟨-, -, -, rfl⟩ := Phase.complete_eq_ok_iff.mp hcomplete
    rfl
  · cases persist with
    | false => exact absurd rfl hrefs
    | true =>
      obtain ⟨env₀, hemitted, hamends₀⟩ := hsource
      exact ⟨env₀, hemitted, hamends₀.trans hamends⟩
  · cases persist with
    | false => cases href
    | true => simpa [toStore] using href
  · cases persist with
    | true => exact .inl fun ref href hkey => .inl (by simp [toStore, href, hkey])
    | false =>
      refine .inr (hsource.imp (fun hinit => htype'.trans (htype.trans hinit)) ?_)
      rintro ⟨c', p', prior, outcome, env₀, hmem, henv, hartifacts⟩
      exact ⟨c', p', prior, outcome, env₀, .tail _ hmem, henv,
        hartifacts.trans hamends.artifactsSaved.symm⟩
  · intro q' env' hmem hsettled henv'
    rcases List.mem_cons.mp hmem with heq | hold
    · exact .inl (Op.phaseSave.inj (congrArg Ev.op heq))
    · exact .inr ((hready.accounted q' env' hold hsettled henv').mono (List.suffix_cons _ _))

theorem emits_dispatch {result : Except String DispatchResult} (hfirst : firstLoaded h = some c) :
    Emits c (rawOf result) (⟨.dispatch p, result⟩ :: h) := by
  intro env hraw
  match result with
  | .error err => cases hraw
  | .ok ⟨raw, evidence⟩ =>
    obtain rfl : raw = .json env := hraw
    rw [emitted, hfirst]

theorem emits_memoryGet {topic : String} (hfirst : firstLoaded h = some c) :
    Emits c raw (⟨.memoryGet topic, raw⟩ :: h) := by
  rintro env rfl
  rw [emitted, hfirst]

theorem Ready.cons_blocked {summary : String} {answer : Except RepoErr Unit} (hready : Ready h)
    (hcomplete : p.complete (some (blockedEnvelope c p' summary)) now = .ok q) :
    Polite (⟨.phaseSave q, answer⟩ :: h) ∧ Clear (⟨.phaseSave q, answer⟩ :: h) :=
  ⟨hready.unwritten, (hready.cons_phaseSave fun env _ =>
    artifactsSaved_of_complete_blocked hcomplete env).toClear⟩

/-! ### Agents -/

theorem executes_courteous {d : GovernanceDecision} {prior : PriorPhases}
    {prior' : Option PriorPhases} {result : ExecuteResult} (hpermits : d.Permits)
    (hcourtesy : Courtesy (.reading c p d prior) h) :
    Polite (⟨.applyExecute c p prior', result⟩ :: h) ∧
      Courtesy (.executed c p result) (⟨.applyExecute c p prior', result⟩ :: h) := by
  obtain ⟨hfresh, hreceived⟩ := hcourtesy
  exact ⟨⟨⟨d, hreceived, hpermits⟩, hfresh.first, hfresh.unsettled⟩,
    hfresh.toReady.cons rfl rfl rfl, hfresh.first, prior', .head _⟩

theorem staffs_courteous {d : GovernanceDecision} {prior : PriorPhases} (hpermits : d.Permits)
    (hcourtesy : Courtesy (.reading c p d prior) h) :
    Polite (⟨.spawnAcquire, .ok ()⟩ :: h) ∧
      Courtesy (.staffed c p prior) (⟨.spawnAcquire, .ok ()⟩ :: h) := by
  obtain ⟨hfresh, hreceived⟩ := hcourtesy
  exact ⟨hfresh.slot, ⟨rfl, hfresh.accounted.cons_of_op rfl, hfresh.unwritten, hfresh.first⟩,
    d, hreceived, hpermits⟩

theorem sends_courteous {prior : PriorPhases} {result : Except String DispatchResult}
    (hcourtesy : Courtesy (.staffed c p prior) h) :
    Polite (⟨.dispatch p, result⟩ :: h) ∧ Courtesy (.sent c p result)
      (⟨.dispatch p, result⟩ :: h) := by
  obtain ⟨hstaffed, hpermitted⟩ := hcourtesy
  exact ⟨hpermitted, ⟨hstaffed.slot, hstaffed.accounted.cons_of_op rfl, hstaffed.unwritten,
    hstaffed.first⟩, emits_dispatch hstaffed.first⟩

/-! ### Artifacts -/

theorem Storing.ingest {ref : ArtifactRef} {refs : List ArtifactRef} {answer : Except String Unit}
    (hstoring : Storing c q env (ref :: refs) h) :
    Polite (⟨.memoryIngest (artifactInput c q env ref), answer⟩ :: h) ∧
      Storing c q env (ref :: refs) (⟨.memoryIngest (artifactInput c q env ref), answer⟩ :: h) := by
  obtain ⟨hmem, hnamed⟩ := hstoring.declared _ List.mem_cons_self
  exact ⟨⟨_, _, _, _, hstoring.loaded, hstoring.newest, hstoring.envelope, hmem, hnamed, rfl,
    hstoring.source (List.cons_ne_nil _ _)⟩, hstoring.cons rfl rfl rfl rfl⟩

/-! ### All moves -/

theorem courtesy_step {ev : Event} {s' : Stage} (hmove : CallMove cfg call s ev s')
    (hgrounds : Grounds call s h) (hcourtesy : Courtesy s h) :
    Polite (ev :: h) ∧ Courtesy s' (ev :: h) := by
  cases hmove with
  | stay hidle =>
    obtain ⟨hcalm, hop⟩ := calm_of_idle hidle
    exact ⟨polite_calm _ h hcalm, hcourtesy.stay hcalm hop (firstLoaded_idle _ h hidle)⟩
  | noChange | noPhase => exact ⟨trivial, hcourtesy.stay rfl rfl rfl⟩
  | refuses hpending | acknowledges hpending =>
    exact ⟨trivial, (hcourtesy.clear hpending).cons rfl rfl⟩
  | loads | joins =>
    exact ⟨trivial, hcourtesy.cons rfl rfl rfl (by simp [firstLoaded, hcourtesy.first])⟩
  | frees | names | informs | fetches | continues | schedules | initialises | ungoverned =>
    exact ⟨trivial, hcourtesy.cons rfl rfl rfl hcourtesy.first⟩
  | starts hcall hvalid hstart => exact hcourtesy.cons_unsettled _ (start_not_settled hstart)
  | restarts hcall hresumable hrestart =>
    obtain ⟨-, -, -, -, -, -, -, hrunning⟩ := resumed_eq_some_ok hrestart
    exact hcourtesy.cons_unsettled _ (by rw [hrunning]; rfl)
  | rejects hcall hopen hrevived hcomplete => exact hcourtesy.toReady.cons_blocked hcomplete
  | aborts => exact ⟨trivial, .onOk (hcourtesy.toClear.cons rfl rfl)
    (hcourtesy.toClear.cons rfl rfl)⟩
  | lists => exact ⟨trivial, hcourtesy.toReady.cons rfl rfl rfl⟩
  | interrupts => exact ⟨hcourtesy.unwritten, hcourtesy.cons_unsettled _ rfl⟩
  | governs => exact ⟨trivial, hcourtesy.cons rfl rfl rfl hcourtesy.first, rfl⟩
  | suspends => exact ⟨trivial, hcourtesy.1.toClear.cons rfl rfl⟩
  | reads => exact ⟨trivial, hcourtesy.1.cons rfl rfl rfl hcourtesy.1.first, hcourtesy.2⟩
  | executes hpermits => exact executes_courteous hpermits hcourtesy
  | unstaffed =>
    exact ⟨hcourtesy.1.slot, hcourtesy.1.cons rfl rfl rfl hcourtesy.1.first, hcourtesy.2⟩
  | staffs hpermits => exact staffs_courteous hpermits hcourtesy
  | sends => exact sends_courteous hcourtesy
  | releases =>
    obtain ⟨hstaffed, hemits⟩ := hcourtesy
    exact ⟨hstaffed.slot, ⟨⟨rfl, hstaffed.accounted.cons_of_op rfl⟩, hstaffed.unwritten⟩,
      hstaffed.first, hemits⟩
  | recalls =>
    obtain ⟨hready, hfirst, -⟩ := hcourtesy
    exact ⟨trivial, hready.cons rfl rfl rfl, hfirst, emits_memoryGet hfirst⟩
  | completes hoffers hcomplete =>
    obtain ⟨hready, hfirst, hsource⟩ := hoffers.courtesy hgrounds hcourtesy
    have hworking := (hgrounds.async hoffers.run).working
    exact ⟨hready.unwritten, hready.storing ⟨hworking.changeID, hfirst⟩ hsource hcomplete⟩
  | loses hoffers hcomplete =>
    have hready := hcourtesy.ready hoffers.run
    exact ⟨hready.unwritten, ⟨hready.slot, hready.accounted.cons _ fun _ _ heq => nomatch heq⟩,
      hready.unwritten⟩
  | fails hdrops => exact ⟨trivial, (hdrops.courtesy hcourtesy).cons rfl rfl rfl⟩
  | givesUp hdrops => exact ⟨trivial, (hdrops.courtesy hcourtesy).toClear.cons rfl rfl⟩
  | blocks hrevived hcomplete => exact hcourtesy.cons_blocked hcomplete
  | announces => exact ⟨trivial, hcourtesy.cons rfl rfl⟩
  | announcesOnly => exact ⟨trivial, hcourtesy.toClear.cons rfl rfl⟩
  | stores =>
    obtain ⟨hpolite, hstoring⟩ := hcourtesy.ingest
    exact ⟨hpolite, hstoring.tail ⟨_, hcourtesy.loaded.changeID, .inl (.head _)⟩⟩
  | missesStore =>
    obtain ⟨hpolite, hstoring⟩ := hcourtesy.ingest
    exact ⟨hpolite, hstoring, .head _⟩
  | reports =>
    obtain ⟨hstoring, hfailed⟩ := hcourtesy
    refine ⟨trivial, (hstoring.cons rfl rfl rfl rfl).tail ?_⟩
    exact ⟨_, hstoring.loaded.changeID, .inr ⟨_, .tail _ hfailed, .head _⟩⟩
  | advances | archives | archivesWithOutbox => exact ⟨trivial, hcourtesy.cons rfl rfl rfl rfl⟩
  | closes => exact ⟨trivial, (Storing.clear hcourtesy).cons rfl rfl⟩

end Outcome

abbrev Conducts {α : Type} (Q : α → History → Prop) (p : Program α) (h : History) : Prop :=
  p.wp (histSem Op.Answers) Polite Q h

abbrev EndsClear : Program Unit → History → Prop :=
  Conducts fun _ => Clear

/-- Every call treats the other services as `Conducted` says, and ends with no slot held
and nothing unaccounted for. -/
theorem main_conducted (cfg : ServiceConfig) (call : Call) :
    EndsClear (main cfg call) [] := by
  refine wp_mono ((main_follows cfg call).wp_hist
    (J := fun s h => Grounds call s h ∧ Courtesy s h) ?_ ?_) (fun _ hI => hI) ?_
  · rintro s ev s' h hmove hans ⟨hgrounds, hcourtesy⟩
    obtain ⟨hpolite, hcourtesy'⟩ := courtesy_step hmove hgrounds hcourtesy
    exact ⟨hpolite, (grounds_step hmove hans hgrounds).2, hcourtesy'⟩
  · exact ⟨⟨fun _ hev => (nomatch hev), fun _ hev => (nomatch hev)⟩,
      ⟨⟨rfl, fun _ _ hmem => (nomatch hmem)⟩, rfl⟩, rfl, fun _ hmem => (nomatch hmem)⟩
  · rintro _ h ⟨s, rfl, -, hclear⟩
    exact hclear

end SophiaOrchestrator
