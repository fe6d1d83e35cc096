import SophiaOrchestrator.Apply.Changes
import SophiaOrchestrator.Effects.Sum
import SophiaOrchestrator.Effects.Tally
import SophiaOrchestrator.Phase.Conduct
import SophiaOrchestrator.Phase.Runs

/-!
# Slots that are given back

Phase runs and apply executions share one spawn governor, whose counter is persisted.  Each
holder gives its slot back with the context of its own work, a failing release is only
recorded, and the boot sequence does not touch the counter.
-/

namespace SophiaOrchestrator

open Effects

variable (pcfg : ServiceConfig) (cfg : Apply.RunConfig)

namespace Governor

/-! ## Both services over one counter -/

/-- The database of the phase service, and the state of the apply service with the counter. -/
structure SlotState where
  store : Store
  apply : Apply.State := {}

structure SlotChoice where
  phase : SophiaOrchestrator.Choice := {}
  apply : Apply.Choice := {}

abbrev SlotOp : Type := SophiaOrchestrator.Op ⊕ Apply.Op

abbrev SlotOp.Ret : SlotOp → Type :=
  SumRet SophiaOrchestrator.Op.Ret Apply.Op.Ret

/-- `SpawnGovernor.Acquire` of a phase run, whose context is never cancelled.  The reply of a
granted slot can be lost. -/
def acquireSlot (ch : SophiaOrchestrator.Choice) (s : Apply.State) :
    Except String Unit × Apply.State :=
  match ch.acquire with
  | .ok () => (.ok (), { s with active := s.active + 1 })
  | .error err =>
    if ch.fault = .after ∧ s.active < cfg.spawnMax then
      (.error err, { s with active := s.active + 1 })
    else
      (.error err, s)

def releaseSlot (ch : SophiaOrchestrator.Choice) (s : Apply.State) :
    Except String Unit × Apply.State :=
  match ch.fault with
  | .none => (.ok (), { s with active := s.active - 1 })
  | .before => (.error ("spawn governor release: " ++ RepoErr.unavailable.text), s)
  | .after =>
    (.error ("spawn governor release: " ++ RepoErr.unavailable.text),
      { s with active := s.active - 1 })

def slotHandle (op : SlotOp) (ch : SlotChoice) (s : SlotState) : SlotOp.Ret op × SlotState :=
  match op with
  | .inl .spawnAcquire =>
    ((acquireSlot cfg ch.phase s.apply).1,
      { s with apply := (acquireSlot cfg ch.phase s.apply).2 })
  | .inl .spawnRelease =>
    ((releaseSlot ch.phase s.apply).1, { s with apply := (releaseSlot ch.phase s.apply).2 })
  | .inl op =>
    ((SophiaOrchestrator.handle op ch.phase s.store).1,
      { s with store := (SophiaOrchestrator.handle op ch.phase s.store).2 })
  | .inr op =>
    ((Apply.handle cfg op ch.apply s.apply).1,
      { s with apply := (Apply.handle cfg op ch.apply s.apply).2 })

/-- A slot is granted to a phase run below the limit only; the rest is as in each service. -/
def slotEnabled (op : SlotOp) (ch : SlotChoice) (s : SlotState) : Bool :=
  match op with
  | .inl .spawnAcquire =>
    match ch.phase.acquire with
    | .ok () => decide (s.apply.active < cfg.spawnMax)
    | .error _ => true
  | .inl _ => true
  | .inr op => Apply.enabled cfg op ch.apply s.apply

def slotHandler : Handler SlotOp SlotOp.Ret SlotChoice SlotState where
  run := slotHandle cfg
  enabled := slotEnabled cfg
  crash s := { s with apply := s.apply.crash }

abbrev SlotCall : Type := SophiaOrchestrator.Call ⊕ Apply.Call

abbrev SlotPool : Type := Pool SlotOp SlotOp.Ret SlotCall SlotState

abbrev SlotMove : Type := Move SlotCall SlotChoice

abbrev SlotHistory : Type := List (Ev SlotOp SlotOp.Ret)

abbrev slotMain : SlotCall → Prog SlotOp SlotOp.Ret Unit :=
  sumMain (SophiaOrchestrator.main pcfg) (Apply.main cfg)

def reachSlots (s : SlotState) (moves : List SlotMove) : SlotPool :=
  (Pool.init s).run (slotHandler cfg) (slotMain pcfg cfg) moves

/-! ## What a thread holds -/

def holdsSlot : SlotHistory → Bool
  | [] => false
  | ⟨.inl .spawnAcquire, .ok ()⟩ :: _ => true
  | ⟨.inl .spawnRelease, _⟩ :: _ => false
  | ⟨.inr (.spawnAcquire _), .ok ()⟩ :: _ => true
  | ⟨.inr (.spawnRelease _), _⟩ :: _ => false
  | _ :: past => holdsSlot past

def heldSlots (h : SlotHistory) : Nat :=
  (holdsSlot h).toNat

theorem holdsSlot_inl (h : SophiaOrchestrator.History) : holdsSlot (h.map Ev.inl) = slot h := by
  induction h with
  | nil => rfl
  | cons ev past ih =>
    obtain ⟨op, answer⟩ := ev
    cases op with
    | spawnAcquire =>
      cases answer with
      | error err => exact ih
      | ok u => rfl
    | spawnRelease => rfl
    | _ => exact ih

theorem holdsSlot_inr (h : Apply.History) : holdsSlot (h.map Ev.inr) = (Apply.view h).slot := by
  induction h with
  | nil => rfl
  | cons ev past ih =>
    obtain ⟨op, answer⟩ := ev
    cases op with
    | spawnAcquire x =>
      cases answer with
      | error err => exact ih
      | ok u => rfl
    | spawnRelease x => rfl
    | _ => exact ih

/-- What the calls guarantee: the phase service as in `Conducted`, the apply service as in
`Justified`. -/
abbrev SlotGuarantee : SlotCall → SlotHistory → Prop :=
  SumGuarantee (fun _ => Polite) (Apply.Good cfg)

abbrev SlotEnds : SlotCall → SlotHistory → Prop :=
  SumGuarantee (fun _ => Clear) (fun _ h => (Apply.view h).slot = false)

theorem slotMain_keeps (call : SlotCall) : (slotMain pcfg cfg call).wp
      (Prog.histSem (sumAns SophiaOrchestrator.Op.Answers Apply.Op.Answers))
      (SlotGuarantee cfg call) (fun _ h => SlotEnds call h) [] :=
  sumMain_wp (main_conducted pcfg) (Apply.main_keeps cfg) call

theorem slotHandle_answers (op : SlotOp) (ch : SlotChoice) (s : SlotState) :
    sumAns SophiaOrchestrator.Op.Answers Apply.Op.Answers op (slotHandle cfg op ch s).1 := by
  cases op with
  | inl op =>
    have hanswer := SophiaOrchestrator.handle_answers op ch.phase s.store
    cases op with
    | spawnAcquire | spawnRelease => trivial
    | _ => exact hanswer
  | inr op => exact Apply.handle_answers cfg op ch.apply s.apply

theorem heldSlots_of_ends {call : SlotCall} {h : SlotHistory} (hends : SlotEnds call h) :
    heldSlots h = 0 := by
  cases call with
  | inl call =>
    obtain ⟨h₁, rfl, hclear⟩ := hends
    simp [heldSlots, holdsSlot_inl, hclear.slot]
  | inr call =>
    obtain ⟨h₂, rfl, hslot⟩ := hends
    simp [heldSlots, holdsSlot_inr, hslot]

/-! ## One operation -/

/-- Nothing of the source of a leak happens: a granted slot is not lost with its reply, and a
release is made with a live context and is not lost before it takes effect. -/
def slotKept (op : SlotOp) (ch : SlotChoice) (s : SlotState) : Bool :=
  match op with
  | .inl .spawnAcquire => ch.phase.acquire.isOk || decide (ch.phase.fault ≠ .after)
  | .inl .spawnRelease => decide (ch.phase.fault ≠ .before)
  | .inr (.spawnAcquire _) => ch.apply.acquire.isOk || decide (ch.apply.fault ≠ .after)
  | .inr (.spawnRelease x) =>
    !s.apply.ctxDone (.exec x) && decide (ch.apply.fault ≠ .before)
  | _ => true

section Step

variable {cfg : Apply.RunConfig} {ch : SlotChoice} {s : SlotState}

/-- An operation of the phase service changes the counter by what it changes of the thread. -/
theorem conserved_inl {op : SophiaOrchestrator.Op} {past : SophiaOrchestrator.History}
    (hconducted : Conducted ⟨op, (slotHandle cfg (.inl op) ch s).1⟩ past)
    (hkept : slotKept (.inl op) ch s = true)
    (hle : heldSlots (past.map Ev.inl) ≤ s.apply.active) :
    (slotHandle cfg (.inl op) ch s).2.apply.active + heldSlots (past.map Ev.inl) =
      s.apply.active +
        heldSlots (⟨.inl op, (slotHandle cfg (.inl op) ch s).1⟩ :: past.map Ev.inl) := by
  cases op with
  | spawnAcquire =>
    have hfree : slot past = false := hconducted
    have hheld : holdsSlot (past.map Ev.inl) = false := (holdsSlot_inl past).trans hfree
    cases hacquire : ch.phase.acquire with
    | ok u => simp [slotHandle, acquireSlot, hacquire, heldSlots, holdsSlot, hheld]
    | error err =>
      have hfault : ch.phase.fault ≠ .after := by
        simpa [slotKept, hacquire, Except.isOk, Except.toBool] using hkept
      simp [slotHandle, acquireSlot, hacquire, hfault, heldSlots, holdsSlot, hheld]
  | spawnRelease =>
    have htaken : slot past = true := hconducted
    have hheld : holdsSlot (past.map Ev.inl) = true := (holdsSlot_inl past).trans htaken
    have hpos : 1 ≤ s.apply.active := by simpa [heldSlots, hheld] using hle
    cases hfault : ch.phase.fault with
    | before => simp [slotKept, hfault] at hkept
    | none | after => simp [slotHandle, releaseSlot, hfault, heldSlots, holdsSlot, hheld, hpos]
  | _ => rfl

theorem conserved_inr {op : Apply.Op} {past : Apply.History} {call : Apply.Call}
    (hjust : Apply.Justified cfg call ⟨op, (slotHandle cfg (.inr op) ch s).1⟩ past)
    (hkept : slotKept (.inr op) ch s = true)
    (hle : heldSlots (past.map Ev.inr) ≤ s.apply.active) :
    (slotHandle cfg (.inr op) ch s).2.apply.active + heldSlots (past.map Ev.inr) =
      s.apply.active +
        heldSlots (⟨.inr op, (slotHandle cfg (.inr op) ch s).1⟩ :: past.map Ev.inr) := by
  have hother : (∀ x, op ≠ .spawnAcquire x) → (∀ x, op ≠ .spawnRelease x) →
      (slotHandle cfg (.inr op) ch s).2.apply.active = s.apply.active :=
    Apply.handle_active cfg ch.apply s.apply
  cases op with
  | spawnAcquire x =>
    have hfree : (Apply.view past).slot = false := hjust.reason
    have hheld : holdsSlot (past.map Ev.inr) = false := (holdsSlot_inr past).trans hfree
    cases hacquire : ch.apply.acquire with
    | ok u =>
      simp [slotHandle, Apply.handle, Apply.State.acquire, hacquire, heldSlots, holdsSlot,
        hheld]
    | error err =>
      have hfault : ch.apply.fault ≠ .after := by
        simpa [slotKept, hacquire, Except.isOk, Except.toBool] using hkept
      simp [slotHandle, Apply.handle, Apply.State.acquire, hacquire, hfault, heldSlots,
        holdsSlot, hheld]
  | spawnRelease x =>
    have htaken : (Apply.view past).slot = true := hjust.reason
    have hheld : holdsSlot (past.map Ev.inr) = true := (holdsSlot_inr past).trans htaken
    have hpos : 1 ≤ s.apply.active := by simpa [heldSlots, hheld] using hle
    simp only [slotKept, Bool.and_eq_true, Bool.not_eq_true', decide_eq_true_eq] at hkept
    cases hfault : ch.apply.fault with
    | before => exact absurd hfault hkept.2
    | none | after =>
      simp [slotHandle, Apply.handle, Apply.State.write, hkept.1, hfault, Fault.write,
        heldSlots, holdsSlot, hheld, hpos]
  | _ =>
    rw [hother (fun _ heq => by cases heq) (fun _ heq => by cases heq)]
    rfl

end Step

/-! ## Runs -/

/-- No step leaks a slot, and the process crashes only when no slot is taken. -/
def slotsKept (π : SlotPool) : SlotMove → Bool
  | .start _ => true
  | .crash => decide (π.state.apply.active = 0)
  | .step tid ch =>
    match π.threads[tid]? with
    | some ⟨_, .call op _, _⟩ => slotKept op ch π.state
    | _ => true

theorem slotsKept_step {π : SlotPool} {tid : Nat} {ch : SlotChoice} {call : SlotCall}
    {op : SlotOp} {next : SlotOp.Ret op → Prog SlotOp SlotOp.Ret Unit} {hist : SlotHistory}
    (h : π.threads[tid]? = some ⟨call, .call op next, hist⟩) :
    slotsKept π (.step tid ch) = slotKept op ch π.state := by
  unfold slotsKept
  dsimp only
  rw [h]

theorem conserved_step {cfg : Apply.RunConfig} {call : SlotCall} {op : SlotOp} {ch : SlotChoice}
    {s : SlotState} {h : SlotHistory}
    (hgood : SlotGuarantee cfg call (⟨op, (slotHandle cfg op ch s).1⟩ :: h))
    (hkept : slotKept op ch s = true) (hle : heldSlots h ≤ s.apply.active) :
    (slotHandle cfg op ch s).2.apply.active + heldSlots h =
      s.apply.active + heldSlots (⟨op, (slotHandle cfg op ch s).1⟩ :: h) := by
  cases call with
  | inl call =>
    obtain ⟨_ | ⟨ev, past⟩, heq, hpolite⟩ := hgood
    · cases heq
    · obtain ⟨hev, rfl⟩ := List.cons.inj heq
      obtain ⟨op₁, answer⟩ := ev
      obtain rfl : op = .inl op₁ := congrArg Ev.op hev
      obtain rfl := eq_of_heq (Ev.mk.inj hev).2
      exact conserved_inl hpolite hkept hle
  | inr call =>
    obtain ⟨_ | ⟨ev, past⟩, heq, hjust⟩ := hgood
    · cases heq
    · obtain ⟨hev, rfl⟩ := List.cons.inj heq
      obtain ⟨op₂, answer⟩ := ev
      obtain rfl : op = .inr op₂ := congrArg Ev.op hev
      obtain rfl := eq_of_heq (Ev.mk.inj hev).2
      exact conserved_inr hjust hkept hle

/-- In every run of phase calls and apply executions, in any interleaving, in which no slot is
lost with a reply, every release is made with a live context and takes effect, and the process
crashes only when no slot is taken: whenever no work is in progress the persisted counter is
zero. -/
theorem slots_conserved (pcfg : ServiceConfig) (cfg : Apply.RunConfig) (s : SlotState)
    (hs : s.apply.active = 0) (moves : List SlotMove)
    (hkept : (Pool.init s : SlotPool).Meets (slotHandler cfg) (slotMain pcfg cfg) slotsKept
      moves = true)
    (hidle : (reachSlots pcfg cfg s moves).idle = true) :
    (reachSlots pcfg cfg s moves).state.apply.active = 0 := by
  have htally : Pool.Tally heldSlots (fun s : SlotState => s.apply.active)
      (reachSlots pcfg cfg s moves).hists (reachSlots pcfg cfg s moves).Live
      (reachSlots pcfg cfg s moves).state := by
    refine Pool.tally_induction (H := slotHandler cfg) (Q := SlotEnds) (s := s)
      (slotHandle_answers cfg) (slotMain_keeps pcfg cfg) rfl (fun _ _ => heldSlots_of_ends)
      ?crash ?step hs moves hkept
    case crash =>
      intro π hcrash
      exact ⟨of_decide_eq_true hcrash, of_decide_eq_true hcrash⟩
    case step =>
      intro π tid ch call op next hperforms hstep hle
      rw [slotsKept_step hperforms.thread] at hstep
      exact conserved_step hperforms.just hstep hle
  exact htally.count_of_idle hidle

/-! ## Concrete runs -/

def exploreSteps (tid n : Nat) : List SlotMove :=
  List.replicate n (.step tid { phase := {
    phaseID := .ok ⟨7⟩
    dispatch := .ok { envelopeRaw := .json (sampleEnvelope .explore .done) } } })

def executeSteps (tid n : Nat) (ch : Apply.Choice) : List SlotMove :=
  List.replicate n (.step tid { apply := ch })

def oneTask : Apply.Choice :=
  Apply.sampleChoice [Apply.sampleEntry "web" ["login"]]

def noQuota : Apply.Choice :=
  { oneTask with dispatch := .error (.quota
      { provider := "opencode", model := "m", retryAfterSeconds := 0, evidence := "" }) }

/-- A run of explore, and beside it an execution of apply whose agent makes this choice. -/
def exploreAndExecute (agent : Apply.Choice) : List SlotMove :=
  .start (.inl (.run { changeID := ⟨1⟩, phaseType := .explore })) :: exploreSteps 0 30 ++
    .start (.inr (.execute (sampleChange .tasks) Apply.samplePhase [])) ::
      executeSteps 1 20 oneTask ++
    .start (.inr (.goroutine 0)) :: executeSteps 2 12 oneTask ++
    .start (.inr (.goroutine 1)) :: executeSteps 3 30 agent ++
    exploreSteps 0 10 ++ executeSteps 2 30 oneTask ++ executeSteps 1 30 oneTask

def quotaConfig : Apply.RunConfig :=
  { worktreeRoot := "/w", quotaBreakerThreshold := 1 }

theorem slots_conserved_explore :
    (reachSlots {} quotaConfig ⟨sampleStore .init, {}⟩ (exploreAndExecute oneTask)).threads.length
      = 4 ∧
    (reachSlots {} quotaConfig ⟨sampleStore .init, {}⟩
      (exploreAndExecute oneTask)).state.apply.active = 0 :=
  ⟨by decide +kernel, slots_conserved {} quotaConfig ⟨sampleStore .init, {}⟩ rfl
    (exploreAndExecute oneTask) (by decide +kernel) (by decide +kernel)⟩

/-- The run of explore gets as far as its agent, and the process dies and is started again. -/
def crashAndRecover : List SlotMove :=
  .start (.inl (.run { changeID := ⟨1⟩, phaseType := .explore })) :: exploreSteps 0 26 ++
    .crash :: .start (.inl .recover) :: exploreSteps 1 10

/-- After the run no work is in progress, and this many slots are counted as taken. -/
def leaves (moves : List SlotMove) (slots : Nat) : Bool :=
  (reachSlots {} quotaConfig ⟨sampleStore .init, {}⟩ moves).idle &&
    decide ((reachSlots {} quotaConfig ⟨sampleStore .init, {}⟩ moves).state.apply.active = slots)

/-- A breaker that cancels the execution leaves the slot of the team-lead taken, and so does a
crash while an agent is at work: no work is in progress and the counter is one. -/
theorem slots_leaked :
    leaves (exploreAndExecute noQuota) 1 = true ∧ leaves crashAndRecover 1 = true := by
  decide +kernel

end Governor

end SophiaOrchestrator
