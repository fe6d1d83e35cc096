import Mathlib.Logic.Function.Basic
import SophiaOrchestrator.Effects.Log

/-!
# The histories of all threads

The induction of `Effects.Log` is for invariants that only ask whether a thread has ever
performed an operation.  Here the invariant sees the whole history of each thread, knows
exactly which threads have operations left, and what a thread has achieved when it comes
to its end by itself and not by a crash.
-/

namespace Effects

variable {Op : Type} {Ret : Op → Type} {Call Ch σ : Type}

namespace Pool

variable {π : Pool Op Ret Call σ} {tid : Nat} {t : Thread Op Ret Call} {H : Handler Op Ret Ch σ}
  {call : Call} {op : Op} {next : Ret op → Prog Op Ret Unit} {hist : List (Ev Op Ret)}
  {main : Call → Prog Op Ret Unit} {choice : Ch} {I : Call → List (Ev Op Ret) → Prop}
  {ans : (op : Op) → Ret op → Prop} {Q : Call → List (Ev Op Ret) → Prop}

/-! ## Histories -/

/-- The history of each thread; one that was not started has none. -/
def hists (π : Pool Op Ret Call σ) : Nat → List (Ev Op Ret) :=
  fun tid => ((π.threads[tid]?).map Thread.hist).getD []

theorem hists_eq (h : π.threads[tid]? = some t) : π.hists tid = t.hist := by
  simp [hists, h]

theorem hists_init (s : σ) : (init s : Pool Op Ret Call σ).hists = fun _ => [] := by
  funext tid
  simp [hists]

theorem hists_length (π : Pool Op Ret Call σ) : π.hists π.threads.length = [] := by
  simp [hists]

theorem hists_start (main : Call → Prog Op Ret Unit) (π : Pool Op Ret Call σ) (call : Call) :
    hists { π with threads := π.threads ++ [Thread.spawn main call] } = π.hists := by
  funext tid
  rcases Nat.lt_trichotomy tid π.threads.length with hlt | rfl | hgt
  · simp [hists, List.getElem?_append_left hlt]
  · simp [hists]
  · have hnew : (π.threads ++ [Thread.spawn main call])[tid]? = none := by
      simp only [List.getElem?_eq_none_iff, List.length_append, List.length_singleton]
      omega
    have hold : π.threads[tid]? = none := by
      simp only [List.getElem?_eq_none_iff]
      omega
    simp [hists, hnew, hold]

theorem hists_crash (s : σ) (π : Pool Op Ret Call σ) :
    (⟨s, π.threads.map Thread.stop⟩ : Pool Op Ret Call σ).hists = π.hists := by
  funext tid
  simp only [hists, List.getElem?_map, Option.map_map]
  rfl

theorem hists_perform (h : π.threads[tid]? = some ⟨call, .call op next, hist⟩) (choice : Ch) :
    (π.perform H tid call op next hist choice).hists =
      Function.update π.hists tid (⟨op, (H.run op choice π.state).1⟩ :: hist) := by
  have hlt := (List.getElem?_eq_some_iff.mp h).1
  funext i
  by_cases hi : i = tid
  · subst hi
    simp [hists, perform, hlt]
  · simp [hists, perform, Function.update_of_ne hi, List.getElem?_set_ne (Ne.symm hi)]

theorem live_start_of (h : π.Live tid) :
    Live { π with threads := π.threads ++ [Thread.spawn main call] } tid := by
  obtain ⟨t, ht, hdone⟩ := h
  refine ⟨t, ?_, hdone⟩
  rw [List.getElem?_append_left (List.getElem?_eq_some_iff.mp ht).1]
  exact ht

theorem live_perform_other {i : Nat} (hi : i ≠ tid) :
    (π.perform H tid call op next hist choice).Live i ↔ π.Live i := by
  simp [Live, perform, List.getElem?_set_ne (Ne.symm hi)]

/-! ## Threads that run to their end -/

/-- The thread keeps the guarantee `I`, and `Q` holds if it comes to its end. -/
structure Reaches (ans : (op : Op) → Ret op → Prop) (I Q : Call → List (Ev Op Ret) → Prop)
    (t : Thread Op Ret Call) : Prop where
  rest : t.prog.isDone = false →
    t.prog.wp (Prog.histSem ans) (I t.call) (fun _ h => Q t.call h) t.hist
  past : ∀ h, h <:+ t.hist → h ≠ [] → I t.call h

theorem Reaches.keeps (h : Reaches ans I Q t) : Keeps ans I t where
  rest := by
    cases hprog : t.prog with
    | done value => trivial
    | call op next =>
      have hrest := h.rest (by rw [hprog]; rfl)
      rw [hprog] at hrest
      exact Prog.wp_mono hrest (fun _ hI => hI) fun _ _ _ => trivial
  past := h.past

theorem reaches_stop (h : Reaches ans I Q t) : Reaches ans I Q t.stop where
  rest := fun hdone => by cases hdone
  past := h.past

theorem reaches_perform (h : Reaches ans I Q ⟨call, .call op next, hist⟩) (answer : Ret op)
    (hans : ans op answer) : Reaches ans I Q ⟨call, next answer, ⟨op, answer⟩ :: hist⟩ := by
  obtain ⟨-, hrest⟩ := (Prog.wp_hist_call op next hist).mp (h.rest rfl) answer hans
  exact ⟨fun _ => hrest, (keeps_perform h.keeps answer hans).past⟩

theorem Reaches.ends (h : Reaches ans I Q ⟨call, .call op next, hist⟩) {answer : Ret op}
    (hans : ans op answer) (hdone : (next answer).isDone = true) :
    Q call (⟨op, answer⟩ :: hist) := by
  obtain ⟨-, hrest⟩ := (Prog.wp_hist_call op next hist).mp (h.rest rfl) answer hans
  cases hnext : next answer with
  | done value =>
    rw [hnext] at hrest
    exact hrest
  | call op' next' =>
    rw [hnext] at hdone
    cases hdone

/-! ## The induction -/

structure Performs (H : Handler Op Ret Ch σ) (I : Call → List (Ev Op Ret) → Prop)
    (π : Pool Op Ret Call σ) (tid : Nat) (choice : Ch) (call : Call) (op : Op)
    (next : Ret op → Prog Op Ret Unit) : Prop where
  thread : π.threads[tid]? = some ⟨call, .call op next, π.hists tid⟩
  enabled : H.enabled op choice π.state = true
  just : I call (⟨op, (H.run op choice π.state).1⟩ :: π.hists tid)

theorem Performs.live (h : Performs H I π tid choice call op next) : π.Live tid :=
  ⟨_, h.thread, rfl⟩

/-- The invariant of a run: every thread keeps its guarantee and ends with its
postcondition, and `Inv` relates the histories and the threads that have operations left
to the state. -/
structure HistoryInv (ans : (op : Op) → Ret op → Prop) (I Q : Call → List (Ev Op Ret) → Prop)
    (Inv : (Nat → List (Ev Op Ret)) → (Nat → Prop) → σ → Prop) (π : Pool Op Ret Call σ) :
    Prop where
  reaches : ∀ t ∈ π.threads, Reaches ans I Q t
  holds : Inv π.hists π.Live π.state

/-- The induction over a run for an invariant of the histories, the threads that have
operations left and the state.  Each case may use what is assumed of the move in the whole
pool. -/
theorem history_induction {ok : Pool Op Ret Call σ → Move Call Ch → Bool}
    {Inv : (Nat → List (Ev Op Ret)) → (Nat → Prop) → σ → Prop}
    (hans : ∀ op choice s, ans op (H.run op choice s).1)
    (hmain : ∀ call, (main call).wp (Prog.histSem ans) (I call) (fun _ h => Q call h) [])
    (hstart : ∀ (π : Pool Op Ret Call σ) call tid L', ok π (.start call) = true →
      π.hists tid = [] → (∀ i, π.Live i → L' i) → (∀ i, L' i → π.Live i ∨ i = tid) →
      Inv π.hists π.Live π.state → Inv π.hists L' π.state)
    (hcrash : ∀ π : Pool Op Ret Call σ, ok π .crash = true → Inv π.hists π.Live π.state →
      Inv π.hists (fun _ => False) (H.crash π.state))
    (hstep : ∀ (π : Pool Op Ret Call σ) tid choice call op next L',
      Performs H I π tid choice call op next → (∀ t ∈ π.threads, Reaches ans I Q t) →
      ok π (.step tid choice) = true → (∀ i, i ≠ tid → (L' i ↔ π.Live i)) →
      (L' tid ∨ Q call (⟨op, (H.run op choice π.state).1⟩ :: π.hists tid)) →
      Inv π.hists π.Live π.state →
      Inv (Function.update π.hists tid (⟨op, (H.run op choice π.state).1⟩ :: π.hists tid)) L'
        (H.run op choice π.state).2) {s : σ} (hinit : Inv (fun _ => []) (fun _ => False) s)
    (moves : List (Move Call Ch))
    (hok : (init s : Pool Op Ret Call σ).Meets H main ok moves = true) :
    HistoryInv ans I Q Inv ((init s : Pool Op Ret Call σ).run H main moves) := by
  have hkeepsMain : ∀ call, (main call).wp (Prog.histSem ans) (I call) (fun _ _ => True) [] :=
    fun call => Prog.wp_mono (hmain call) (fun _ hI => hI) fun _ _ _ => trivial
  refine run_induction hans hkeepsMain ?start ?crash ?step (by simp) ⟨by simp, ?init⟩ moves hok
  case init =>
    rw [hists_init, show (init s : Pool Op Ret Call σ).Live = fun _ => False from
      funext fun i => propext ⟨live_init s i, False.elim⟩]
    exact hinit
  case start =>
    intro π call hmove hinv
    refine ⟨fun t ht => ?_, ?_⟩
    · rcases List.mem_append.mp ht with hold | hnew
      · exact hinv.reaches t hold
      · rw [List.mem_singleton.mp hnew]
        exact ⟨fun _ => hmain call, (keeps_spawn hkeepsMain call).past⟩
    · rw [hists_start]
      exact hstart π call π.threads.length _ hmove (hists_length π) (fun _ => live_start_of)
        (fun _ => live_start) hinv.holds
  case crash =>
    intro π hmove hinv
    refine ⟨fun t ht => ?_, ?_⟩
    · obtain ⟨t₀, ht₀, rfl⟩ := List.mem_map.mp ht
      exact reaches_stop (hinv.reaches t₀ ht₀)
    · rw [hists_crash, show (⟨H.crash π.state, π.threads.map Thread.stop⟩ :
        Pool Op Ret Call σ).Live = fun _ => False from
          funext fun i => propext ⟨live_crash _ π i, False.elim⟩]
      exact hcrash π hmove hinv.holds
  case step =>
    intro π tid choice call op next hist hthread henabled _ hI hmove hinv
    have hreach := hinv.reaches _ (List.mem_of_getElem? hthread)
    have hhist : π.hists tid = hist := hists_eq hthread
    subst hhist
    refine ⟨fun t ht => ?_, ?_⟩
    · rcases List.mem_or_eq_of_mem_set ht with hold | rfl
      · exact hinv.reaches t hold
      · exact reaches_perform hreach _ (hans _ _ _)
    · rw [hists_perform hthread choice]
      refine hstep π tid choice call op next _ ⟨hthread, henabled, hI⟩ hinv.reaches hmove
        (fun i hi => live_perform_other hi) ?_ hinv.holds
      by_cases hdone : (next (H.run op choice π.state).1).isDone = true
      · exact .inr (hreach.ends (hans _ _ _) hdone)
      · refine .inl ⟨_, List.getElem?_set_self (List.getElem?_eq_some_iff.mp hthread).1, ?_⟩
        simpa using hdone

theorem run_reaches (hans : ∀ op choice s, ans op (H.run op choice s).1)
    (hmain : ∀ call, (main call).wp (Prog.histSem ans) (I call) (fun _ h => Q call h) []) (s : σ)
    (moves : List (Move Call Ch)) :
    ∀ t ∈ ((init s : Pool Op Ret Call σ).run H main moves).threads, Reaches ans I Q t :=
  have hinv : HistoryInv ans I Q (fun _ _ _ => True)
      ((init s : Pool Op Ret Call σ).run H main moves) :=
    history_induction hans hmain (fun _ _ _ _ _ _ _ _ _ => trivial) (fun _ _ _ => trivial)
      (fun _ _ _ _ _ _ _ _ _ _ _ _ _ => trivial) trivial moves (meets_true _ _)
  hinv.reaches

/-- The move lets the thread perform its last operation, and leaves it as `t`. -/
def Finishes (H : Handler Op Ret Ch σ) (main : Call → Prog Op Ret Unit)
    (π : Pool Op Ret Call σ) (tid : Nat) (choice : Ch) (t : Thread Op Ret Call) : Prop :=
  (∃ t₀, π.threads[tid]? = some t₀ ∧ t₀.prog.isDone = false) ∧
    (π.move H main (.step tid choice)).threads[tid]? = some t ∧ t.prog.isDone = true

theorem Finishes.ends (hans : ∀ op choice s, ans op (H.run op choice s).1)
    (hreaches : ∀ t ∈ π.threads, Reaches ans I Q t) (h : Finishes H main π tid choice t) :
    Q t.call t.hist := by
  obtain ⟨⟨t₀, ht₀, hlive⟩, ht, hdone⟩ := h
  rcases move_step_cases H main π tid choice with
    heq | ⟨call, op, next, hist, hthread, -, heq⟩
  · rw [heq, ht₀] at ht
    cases ht
    rw [hlive] at hdone
    cases hdone
  · rw [heq] at ht
    rcases perform_getElem?_cases ht with ⟨-, rfl⟩ | ⟨hne, -⟩
    · exact (hreaches _ (List.mem_of_getElem? hthread)).ends (hans _ _ _) hdone
    · exact absurd rfl hne

theorem exists_finishes {P : Thread Op Ret Call → Bool}
    (hlive : (π.threads[tid]?).map (fun t => t.prog.isDone) = some false)
    (hdone : ((π.move H main (.step tid choice)).threads[tid]?).map
      (fun t => t.prog.isDone && P t) = some true) :
    ∃ t, Finishes H main π tid choice t ∧ P t = true := by
  obtain ⟨t₀, ht₀, hlive₀⟩ := Option.map_eq_some_iff.mp hlive
  obtain ⟨t, ht, hend⟩ := Option.map_eq_some_iff.mp hdone
  rw [Bool.and_eq_true] at hend
  exact ⟨t, ⟨⟨t₀, ht₀, hlive₀⟩, ht, hend.1⟩, hend.2⟩

end Pool

end Effects
