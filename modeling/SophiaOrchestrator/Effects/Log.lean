import SophiaOrchestrator.Effects.Pool

/-!
# The log of a run

The log of a pool says which thread has performed which operation with which
answer.  A start or a crash leaves it as it is, and a step adds one entry, so an
invariant that relates the shared state to what the threads have done so far is
proved by one case for the step and one for what a crash does to the state.
-/

namespace Effects

/-- Who has performed which operation with which answer. -/
abbrev Log (Op : Type) (Ret : Op → Type) : Type :=
  Nat → Ev Op Ret → Prop

variable {Op : Type} {Ret : Op → Type} {Call Ch σ : Type}

def Log.add (D : Log Op Ret) (tid : Nat) (ev : Ev Op Ret) : Log Op Ret :=
  fun i e => D i e ∨ (i = tid ∧ e = ev)

theorem Log.add_self (D : Log Op Ret) (tid : Nat) (ev : Ev Op Ret) : D.add tid ev tid ev :=
  .inr ⟨rfl, rfl⟩

theorem Log.of_add {D : Log Op Ret} {i : Nat} {e ev : Ev Op Ret} (h : D.add tid ev i e)
    (hne : e ≠ ev) : D i e :=
  h.resolve_right fun heq => hne heq.2

namespace Pool

variable {tid : Nat} {π : Pool Op Ret Call σ} {H : Handler Op Ret Ch σ} {call : Call} {op : Op}
  {next : Ret op → Prog Op Ret Unit} {hist : List (Ev Op Ret)} {I : Call → List (Ev Op Ret) → Prop}
  {ans : (op : Op) → Ret op → Prop} {ok : Op → Ch → List (Ev Op Ret) → σ → Bool}
  {main : Call → Prog Op Ret Unit} {s : σ}

def Did (π : Pool Op Ret Call σ) : Log Op Ret :=
  fun tid ev => ∃ t, π.threads[tid]? = some t ∧ ev ∈ t.hist

theorem did_iff_mem {t : Thread Op Ret Call} (h : π.threads[tid]? = some t) (ev : Ev Op Ret) :
    π.Did tid ev ↔ ev ∈ t.hist := by
  constructor
  · rintro ⟨t', ht', hev⟩
    obtain rfl : t = t' := Option.some.inj (h.symm.trans ht')
    exact hev
  · exact fun hev => ⟨t, h, hev⟩

theorem did_init (s : σ) : (init s : Pool Op Ret Call σ).Did = fun _ _ => False := by
  funext tid ev
  simp [Did]

theorem did_start (main : Call → Prog Op Ret Unit) (π : Pool Op Ret Call σ) (call : Call) :
    Did { π with threads := π.threads ++ [Thread.spawn main call] } = π.Did := by
  funext tid ev
  refine propext ⟨?_, ?_⟩
  · rintro ⟨t, ht, hev⟩
    rcases start_getElem?_cases ht with hold | rfl
    · exact ⟨t, hold, hev⟩
    · cases hev
  · rintro ⟨t, ht, hev⟩
    exact ⟨t, List.getElem?_append_left (List.getElem?_eq_some_iff.mp ht).1 ▸ ht, hev⟩

theorem did_crash (s : σ) (π : Pool Op Ret Call σ) :
    (⟨s, π.threads.map Thread.stop⟩ : Pool Op Ret Call σ).Did = π.Did := by
  funext tid ev
  simp [Did]

theorem did_perform (h : π.threads[tid]? = some ⟨call, .call op next, hist⟩) (choice : Ch) :
    (π.perform H tid call op next hist choice).Did =
      π.Did.add tid ⟨op, (H.run op choice π.state).1⟩ := by
  have hlt : tid < π.threads.length := (List.getElem?_eq_some_iff.mp h).1
  funext i ev
  refine propext ⟨?_, ?_⟩
  · rintro ⟨t, ht, hev⟩
    rcases perform_getElem?_cases ht with ⟨rfl, rfl⟩ | ⟨-, hold⟩
    · rcases List.mem_cons.mp hev with heq | hmem
      · exact .inr ⟨rfl, heq⟩
      · exact .inl ⟨_, h, hmem⟩
    · exact .inl ⟨t, hold, hev⟩
  · rintro (⟨t, ht, hev⟩ | ⟨rfl, rfl⟩)
    · by_cases hi : i = tid
      · subst hi
        obtain rfl : _ = t := Option.some.inj (h.symm.trans ht)
        exact ⟨_, List.getElem?_set_self hlt, List.mem_cons_of_mem _ hev⟩
      · exact ⟨t, (List.getElem?_set_ne (Ne.symm hi)).trans ht, hev⟩
    · exact ⟨_, List.getElem?_set_self hlt, List.mem_cons_self⟩

/-- Every entry is explained by the guarantee `I` of the programs, from a history
that consists of entries of the same thread. -/
def Explained (I : Call → List (Ev Op Ret) → Prop) (D : Log Op Ret) : Prop :=
  ∀ tid ev, D tid ev → ∃ call past, I call (ev :: past) ∧ ∀ e ∈ past, D tid e

theorem Explained.imp {I' : Call → List (Ev Op Ret) → Prop} {D : Log Op Ret} (h : Explained I D)
    (himp : ∀ call hist, I call hist → I' call hist) : Explained I' D := by
  intro tid ev hdid
  obtain ⟨call, past, hI, hpast⟩ := h tid ev hdid
  exact ⟨call, past, himp call _ hI, hpast⟩

theorem explained_of_keeps (h : ∀ t ∈ π.threads, Keeps ans I t) : Explained I π.Did := by
  rintro tid ev ⟨t, ht, hev⟩
  obtain ⟨past, hsuffix, hI⟩ := (h t (List.mem_of_getElem? ht)).of_mem hev
  exact ⟨t.call, past, hI, fun e he => ⟨t, ht, hsuffix.subset (List.mem_cons_of_mem ev he)⟩⟩

/-- An assumption on the operation that a step performs, given the history of its
thread and the state. -/
def eachStep (ok : Op → Ch → List (Ev Op Ret) → σ → Bool) (π : Pool Op Ret Call σ) :
    Move Call Ch → Bool
  | .step tid choice =>
    match π.threads[tid]? with
    | some ⟨_, .call op _, hist⟩ => ok op choice hist π.state
    | _ => true
  | _ => true

theorem eachStep_of_call {choice : Ch} (h : π.threads[tid]? = some ⟨call, .call op next, hist⟩) :
    eachStep ok π (.step tid choice) = ok op choice hist π.state := by
  simp [eachStep, h]

theorem meets_eachStep_true (H : Handler Op Ret Ch σ) (main : Call → Prog Op Ret Unit)
    (π : Pool Op Ret Call σ) (moves : List (Move Call Ch)) :
    π.Meets H main (eachStep fun _ _ _ _ => true) moves = true := by
  have htrue : (eachStep fun _ _ _ _ => true) =
      fun (_ : Pool Op Ret Call σ) (_ : Move Call Ch) => true := by
    funext π m
    cases m with
    | start call | crash => rfl
    | step tid choice =>
      simp only [eachStep]
      split <;> rfl
  rw [htrue]
  exact meets_true π moves

/-- The state satisfies `J`, and the rest of every thread performs only operations that are
allowed, given answers that it counts on. -/
structure Serves (ans : (op : Op) → Ret op → Prop) (allowed : Op → Prop) (J : σ → Prop)
    (π : Pool Op Ret Call σ) : Prop where
  state : J π.state
  threads : ∀ t ∈ π.threads, t.prog.Uses ans allowed fun _ => True

/-- The rule for what the threads keep together.  As long as the state satisfies `J` the
programs get the answers that they count on, and then they perform only operations that keep
`J`. -/
theorem state_of_uses {allowed : Op → Prop} {J : σ → Prop}
    (hmain : ∀ call, (main call).Uses ans allowed fun _ => True)
    (hstep : ∀ op choice hist s, allowed op → ok op choice hist s = true → J s →
      ans op (H.run op choice s).1 ∧ J (H.run op choice s).2) (hcrash : ∀ s, J s → J (H.crash s))
    (hs : J s) (moves : List (Move Call Ch))
    (hok : (init s).Meets H main (eachStep ok) moves = true) :
    J ((init s).run H main moves).state := by
  suffices hserves : Serves ans allowed J ((init s).run H main moves) from hserves.state
  refine run_induction (I := fun _ _ => True)
    (fun _ _ _ => trivial) (fun call => Prog.wp_true (Prog.histSem fun _ _ => True) _ _)
    ?start ?crash ?step (by simp) ⟨hs, by simp⟩ moves hok
  case start =>
    rintro π call - ⟨hJ, hthreads⟩
    refine ⟨hJ, fun t ht => ?_⟩
    rcases List.mem_append.mp ht with hold | hnew
    · exact hthreads t hold
    · rw [List.mem_singleton.mp hnew]
      exact hmain call
  case crash =>
    rintro π - ⟨hJ, -⟩
    refine ⟨hcrash _ hJ, fun t ht => ?_⟩
    obtain ⟨t₀, -, rfl⟩ := List.mem_map.mp ht
    trivial
  case step =>
    rintro π tid choice call op next hist hthread - - - hop ⟨hJ, hthreads⟩
    rw [eachStep_of_call hthread] at hop
    obtain ⟨hallowed, hnext⟩ := hthreads _ (List.mem_of_getElem? hthread)
    obtain ⟨hans, hkept⟩ := hstep op choice hist π.state hallowed hop hJ
    refine ⟨hkept, fun t ht => ?_⟩
    rcases List.mem_or_eq_of_mem_set ht with hold | rfl
    · exact hthreads t hold
    · exact hnext _ hans

def Live (π : Pool Op Ret Call σ) : Nat → Prop :=
  fun tid => ∃ t, π.threads[tid]? = some t ∧ t.prog.isDone = false

theorem live_init (s : σ) (tid : Nat) : ¬(init s : Pool Op Ret Call σ).Live tid := by
  rintro ⟨t, ht, -⟩
  simp at ht

theorem live_start (h : Live { π with threads := π.threads ++ [Thread.spawn main call] } tid) :
    π.Live tid ∨ tid = π.threads.length := by
  obtain ⟨t, ht, hdone⟩ := h
  by_cases hlt : tid < π.threads.length
  · rw [List.getElem?_append_left hlt] at ht
    exact .inl ⟨t, ht, hdone⟩
  · have hbound := (List.getElem?_eq_some_iff.mp ht).1
    simp only [List.length_append, List.length_singleton] at hbound
    exact .inr (by omega)

theorem live_crash (s : σ) (π : Pool Op Ret Call σ) (tid : Nat) :
    ¬(⟨s, π.threads.map Thread.stop⟩ : Pool Op Ret Call σ).Live tid := by
  rintro ⟨t, ht, hdone⟩
  obtain ⟨t₀, -, rfl⟩ := List.mem_map.mp (List.mem_of_getElem? ht)
  cases hdone

theorem live_perform {i : Nat} {choice : Ch}
    (h : π.threads[tid]? = some ⟨call, .call op next, hist⟩)
    (hlive : (π.perform H tid call op next hist choice).Live i) : π.Live i := by
  obtain ⟨t, ht, hdone⟩ := hlive
  rcases perform_getElem?_cases ht with ⟨rfl, -⟩ | ⟨-, hold⟩
  · exact ⟨_, h, rfl⟩
  · exact ⟨t, hold, hdone⟩

theorem not_did_length (π : Pool Op Ret Call σ) (ev : Ev Op Ret) :
    ¬π.Did π.threads.length ev := by
  rintro ⟨t, ht, -⟩
  simp at ht

/-- The invariant of a run: every thread keeps its guarantee, and `Inv` relates
the log and the threads that have operations left to the state. -/
structure LogInv (ans : (op : Op) → Ret op → Prop) (I : Call → List (Ev Op Ret) → Prop)
    (Inv : Log Op Ret → (Nat → Prop) → σ → Prop) (π : Pool Op Ret Call σ) : Prop where
  keeps : ∀ t ∈ π.threads, Keeps ans I t
  holds : Inv π.Did π.Live π.state

theorem LogInv.explained {Inv : Log Op Ret → (Nat → Prop) → σ → Prop} (h : LogInv ans I Inv π) :
    Explained I π.Did :=
  explained_of_keeps h.keeps

/-- The induction over a run for an invariant of the log, the threads that have
operations left and the state.  The invariant may only use that a thread has
operations left, never that it has none. -/
theorem live_log_induction {Inv : Log Op Ret → (Nat → Prop) → σ → Prop}
    (hans : ∀ op choice s, ans op (H.run op choice s).1)
    (hmain : ∀ call, (main call).wp (Prog.histSem ans) (I call) (fun _ _ => True) [])
    (hmono : ∀ D L L' s, (∀ i, L' i → L i) → Inv D L s → Inv D L' s)
    (hstart : ∀ D L tid s, (∀ ev, ¬D tid ev) → Inv D L s →
      Inv D (fun i => L i ∨ i = tid) s)
    (hcrash : ∀ D L s, Inv D L s → Inv D (fun _ => False) (H.crash s))
    (hstep : ∀ D L tid choice call op hist s, L tid → (∀ ev, D tid ev ↔ ev ∈ hist) →
      Explained I D → H.enabled op choice s = true →
      I call (⟨op, (H.run op choice s).1⟩ :: hist) → ok op choice hist s = true →
      Inv D L s → Inv (D.add tid ⟨op, (H.run op choice s).1⟩) L (H.run op choice s).2)
    (hinit : Inv (fun _ _ => False) (fun _ => False) s) (moves : List (Move Call Ch))
    (hok : (init s : Pool Op Ret Call σ).Meets H main (eachStep ok) moves = true) :
    LogInv ans I Inv ((init s : Pool Op Ret Call σ).run H main moves) := by
  refine run_induction hans hmain ?start ?crash ?step (by simp) ⟨by simp, ?init⟩ moves hok
  case init =>
    rw [did_init]
    exact hmono _ _ _ _ (fun i hi => live_init s i hi) hinit
  case start =>
    intro π call _ hinv
    refine ⟨move_keeps (H := H) hans hmain hinv.keeps (.start call), ?_⟩
    rw [did_start]
    exact hmono _ _ _ _ (fun _ => live_start)
      (hstart _ _ π.threads.length _ (not_did_length π) hinv.holds)
  case crash =>
    intro π _ hinv
    refine ⟨move_keeps (H := H) hans hmain hinv.keeps .crash, ?_⟩
    rw [did_crash]
    exact hmono _ _ _ _ (fun i hi => live_crash _ π i hi) (hcrash _ _ _ hinv.holds)
  case step =>
    intro π tid choice call op next hist hthread henabled _ hI hmove hinv
    rw [eachStep_of_call hthread] at hmove
    have hkeeps := move_keeps (H := H) hans hmain hinv.keeps (.step tid choice)
    rw [move_step_of_call hthread henabled] at hkeeps
    refine ⟨hkeeps, ?_⟩
    rw [did_perform hthread choice]
    exact hmono _ _ _ _ (fun _ => live_perform hthread)
      (hstep π.Did π.Live tid choice call op hist π.state ⟨_, hthread, rfl⟩
        (did_iff_mem hthread) hinv.explained henabled hI hmove hinv.holds)

theorem log_induction {Inv : Log Op Ret → σ → Prop}
    (hans : ∀ op choice s, ans op (H.run op choice s).1)
    (hmain : ∀ call, (main call).wp (Prog.histSem ans) (I call) (fun _ _ => True) [])
    (hcrash : ∀ D s, Inv D s → Inv D (H.crash s))
    (hstep : ∀ D tid choice call op hist s, (∀ ev, D tid ev ↔ ev ∈ hist) → Explained I D →
      H.enabled op choice s = true → I call (⟨op, (H.run op choice s).1⟩ :: hist) →
      ok op choice hist s = true → Inv D s →
      Inv (D.add tid ⟨op, (H.run op choice s).1⟩) (H.run op choice s).2)
    (hinit : Inv (fun _ _ => False) s) (moves : List (Move Call Ch))
    (hok : (init s : Pool Op Ret Call σ).Meets H main (eachStep ok) moves = true) :
    LogInv ans I (fun D _ s => Inv D s) ((init s : Pool Op Ret Call σ).run H main moves) :=
  live_log_induction hans hmain (fun _ _ _ _ _ hinv => hinv) (fun _ _ _ _ _ hinv => hinv)
    (fun D _ s hinv => hcrash D s hinv)
    (fun D _ tid choice call op hist s _ hhist hexpl henabled hI hok hinv =>
      hstep D tid choice call op hist s hhist hexpl henabled hI hok hinv)
    hinit moves hok

def Histories (P : List (Ev Op Ret) → Prop) (π : Pool Op Ret Call σ) : Prop :=
  ∀ t ∈ π.threads, P t.hist

theorem hist_induction {P : List (Ev Op Ret) → Prop} (hnil : P [])
    (hstep : ∀ op choice hist s, ok op choice hist s = true → P hist →
      P (⟨op, (H.run op choice s).1⟩ :: hist)) (s : σ) (moves : List (Move Call Ch))
    (hok : (init s : Pool Op Ret Call σ).Meets H main (eachStep ok) moves = true) :
    Histories P ((init s : Pool Op Ret Call σ).run H main moves) := by
  have hmain : ∀ call, (main call).wp (Prog.histSem fun _ _ => True)
      ((fun _ _ => True : Call → List (Ev Op Ret) → Prop) call) (fun _ _ => True) [] :=
    fun call => Prog.wp_true _ _ _
  refine run_induction (fun _ _ _ => trivial) hmain ?start ?crash ?step (by simp) ?init moves hok
  case init =>
    intro t ht
    cases ht
  case start =>
    intro π call _ hinv t ht
    rcases List.mem_append.mp ht with hold | hnew
    · exact hinv t hold
    · rw [List.mem_singleton.mp hnew]
      exact hnil
  case crash =>
    intro π _ hinv t ht
    obtain ⟨t₀, ht₀, rfl⟩ := List.mem_map.mp ht
    exact hinv t₀ ht₀
  case step =>
    intro π tid choice call op next hist hthread _ _ _ hmove hinv t ht
    rw [eachStep_of_call hthread] at hmove
    rcases List.mem_or_eq_of_mem_set ht with hold | rfl
    · exact hinv t hold
    · exact hstep op choice hist π.state hmove (hinv _ (List.mem_of_getElem? hthread))

end Pool

end Effects
