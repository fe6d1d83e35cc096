import SophiaOrchestrator.Effects.Log

/-!
# Sequential runs

In a sequential run a call starts only when every earlier one has finished or
was stopped by a crash.  Then at most one thread is unfinished at any time, and
what a call has seen of the shared state stays true until the call itself
changes it.

`Pool.sequential_induction` packages this, and `Pool.during_induction` does it for
the part of a run in which one call is unfinished.
-/

namespace Effects

namespace Pool

variable {Op : Type} {Ret : Op → Type} {Call Ch σ : Type}

variable {π : Pool Op Ret Call σ} {main : Call → Prog Op Ret Unit} {H : Handler Op Ret Ch σ}
  {call : Call} {F : List (Ev Op Ret) → σ → Prop}

def idle (π : Pool Op Ret Call σ) : Bool :=
  π.threads.all fun t => t.prog.isDone

def OneUnfinished (π : Pool Op Ret Call σ) : Prop :=
  ∀ (i j : Nat) (ti tj : Thread Op Ret Call), π.threads[i]? = some ti →
    π.threads[j]? = some tj → ti.prog.isDone = false → tj.prog.isDone = false → i = j

def UnfinishedHold (F : Call → List (Ev Op Ret) → σ → Prop) (π : Pool Op Ret Call σ) :
    Prop :=
  ∀ (i : Nat) (t : Thread Op Ret Call), π.threads[i]? = some t →
    t.prog.isDone = false → F t.call t.hist π.state

theorem isDone_of_idle (hidle : π.idle = true) {i : Nat} {t : Thread Op Ret Call}
    (h : π.threads[i]? = some t) : t.prog.isDone = true :=
  List.all_eq_true.mp hidle t (List.mem_of_getElem? h)

theorem not_live_of_idle (hidle : π.idle = true) (tid : Nat) : ¬π.Live tid := by
  rintro ⟨t, ht, hlive⟩
  rw [isDone_of_idle hidle ht] at hlive
  cases hlive

theorem OneUnfinished.start (hidle : π.idle = true) (call : Call) :
    OneUnfinished { π with threads := π.threads ++ [Thread.spawn main call] } := by
  have hnew : ∀ (k : Nat) (t : Thread Op Ret Call),
      (π.threads ++ [Thread.spawn main call])[k]? = some t → t.prog.isDone = false →
      k = π.threads.length := by
    intro k t hk hdone
    by_cases hlt : k < π.threads.length
    · rw [List.getElem?_append_left hlt] at hk
      rw [isDone_of_idle hidle hk] at hdone
      cases hdone
    · have hbound := (List.getElem?_eq_some_iff.mp hk).1
      simp only [List.length_append, List.length_singleton] at hbound
      omega
  intro i j ti tj hi hj hdi hdj
  rw [hnew i ti hi hdi, hnew j tj hj hdj]

theorem stop_isDone_of_getElem? {i : Nat} {t : Thread Op Ret Call}
    (h : (π.threads.map Thread.stop)[i]? = some t) : t.prog.isDone = true := by
  obtain ⟨t₀, -, rfl⟩ := List.mem_map.mp (List.mem_of_getElem? h)
  rfl

theorem OneUnfinished.perform (hone : OneUnfinished π) {tid : Nat} {op : Op}
    {next : Ret op → Prog Op Ret Unit} {hist : List (Ev Op Ret)}
    (hthread : π.threads[tid]? = some ⟨call, .call op next, hist⟩) (choice : Ch) :
    OneUnfinished (π.perform H tid call op next hist choice) := by
  have hself : ∀ (k : Nat) (t : Thread Op Ret Call),
      (π.perform H tid call op next hist choice).threads[k]? = some t →
      t.prog.isDone = false → k = tid := by
    intro k t hk hdone
    rcases perform_getElem?_cases hk with ⟨rfl, -⟩ | ⟨-, hk₀⟩
    · rfl
    · exact hone k tid t _ hk₀ hthread hdone rfl
  intro i j ti tj hi hj hdi hdj
  rw [hself i ti hi hdi, hself j tj hj hdj]

structure SequentialInv (G : σ → Prop) (F : Call → List (Ev Op Ret) → σ → Prop)
    (π : Pool Op Ret Call σ) : Prop where
  one : OneUnfinished π
  state : G π.state
  unfinished : UnfinishedHold F π

theorem sequential_induction {ans : (op : Op) → Ret op → Prop} {I : Call → List (Ev Op Ret) → Prop}
    {ok : Pool Op Ret Call σ → Move Call Ch → Bool} {G : σ → Prop}
    {F : Call → List (Ev Op Ret) → σ → Prop} (hans : ∀ op choice s, ans op (H.run op choice s).1)
    (hmain : ∀ call, (main call).wp (Prog.histSem ans) (I call) (fun _ _ => True) [])
    (hidle : ∀ π call, ok π (.start call) = true → π.idle = true)
    (hstart : ∀ π call, ok π (.start call) = true → G π.state → F call [] π.state)
    (hcrash : ∀ s, G s → G (H.crash s)) (hstep : ∀ π tid choice call op next hist,
      π.threads[tid]? = some ⟨call, .call op next, hist⟩ →
      Keeps ans I ⟨call, .call op next, hist⟩ →
      I call (⟨op, (H.run op choice π.state).1⟩ :: hist) →
      ok π (.step tid choice) = true → G π.state → F call hist π.state →
      G (H.run op choice π.state).2 ∧
        F call (⟨op, (H.run op choice π.state).1⟩ :: hist) (H.run op choice π.state).2) {s : σ}
    (hs : G s) (moves : List (Move Call Ch))
    (hok : (init s : Pool Op Ret Call σ).Meets H main ok moves = true) :
    SequentialInv G F ((init s : Pool Op Ret Call σ).run H main moves) := by
  refine run_induction hans hmain ?start ?crash ?step (by simp)
    ⟨by simp [OneUnfinished], hs, by simp [UnfinishedHold]⟩ moves hok
  case start =>
    intro π call hmove hinv
    refine ⟨OneUnfinished.start (hidle π call hmove) call, hinv.state, ?_⟩
    intro i t hi hdone
    rcases start_getElem?_cases hi with hi₀ | rfl
    · exact hinv.unfinished i t hi₀ hdone
    · exact hstart π call hmove hinv.state
  case crash =>
    intro π _ hinv
    refine ⟨?_, hcrash _ hinv.state, ?_⟩
    · intro i j ti tj hi _ hdi _
      rw [stop_isDone_of_getElem? hi] at hdi
      cases hdi
    · intro i t hi hdone
      rw [stop_isDone_of_getElem? hi] at hdone
      cases hdone
  case step =>
    intro π tid choice call op next hist hthread _ hkeeps hI hmove hinv
    obtain ⟨hG', hF'⟩ := hstep π tid choice call op next hist hthread hkeeps hI hmove
      hinv.state (hinv.unfinished tid _ hthread rfl)
    refine ⟨hinv.one.perform hthread choice, hG', ?_⟩
    intro i t hi hdone
    rcases perform_getElem?_cases hi with ⟨rfl, rfl⟩ | ⟨hni, hi₀⟩
    · exact hF'
    · exact absurd (hinv.one i tid t _ hi₀ hthread hdone rfl) hni

/-! ## While one call is unfinished -/

/-- The thread at `tid` is the call, `F` holds of its history, and no other thread is
unfinished. -/
structure OnlyCall (tid : Nat) (call : Call) (F : List (Ev Op Ret) → σ → Prop)
    (π : Pool Op Ret Call σ) : Prop where
  self : ∃ t, π.threads[tid]? = some t ∧ t.call = call ∧ F t.hist π.state
  others : ∀ i t, π.threads[i]? = some t → t.prog.isDone = false → i = tid

theorem OnlyCall.start (hidle : π.idle = true) (call : Call) (hnil : F [] π.state) :
    OnlyCall π.threads.length call F
      { π with threads := π.threads ++ [Thread.spawn main call] } where
  self := ⟨Thread.spawn main call, by simp, rfl, hnil⟩
  others i t hi hdone := by
    by_cases hlt : i < π.threads.length
    · rw [List.getElem?_append_left hlt] at hi
      rw [isDone_of_idle hidle hi] at hdone
      cases hdone
    · have hbound := (List.getElem?_eq_some_iff.mp hi).1
      simp only [List.length_append, List.length_singleton] at hbound
      omega

theorem OnlyCall.perform {tid : Nat} (honly : OnlyCall tid call F π) {op : Op}
    {next : Ret op → Prog Op Ret Unit} {hist : List (Ev Op Ret)}
    (hthread : π.threads[tid]? = some ⟨call, .call op next, hist⟩) (choice : Ch)
    (hF : F (⟨op, (H.run op choice π.state).1⟩ :: hist) (H.run op choice π.state).2) :
    OnlyCall tid call F (π.perform H tid call op next hist choice) where
  self := by
    have hlt := (List.getElem?_eq_some_iff.mp hthread).1
    exact ⟨_, List.getElem?_set_self hlt, rfl, hF⟩
  others i t hi hdone := by
    rcases perform_getElem?_cases hi with ⟨rfl, -⟩ | ⟨-, hi₀⟩
    · rfl
    · exact honly.others i t hi₀ hdone

/-- The induction over the part of a run in which one call is unfinished: the call is
started in an idle pool, and no other one is started after it. -/
theorem during_induction {ans : (op : Op) → Ret op → Prop} {I : Call → List (Ev Op Ret) → Prop}
    {ok : Pool Op Ret Call σ → Move Call Ch → Bool}
    (hans : ∀ op choice s, ans op (H.run op choice s).1)
    (hmain : ∀ call, (main call).wp (Prog.histSem ans) (I call) (fun _ _ => True) [])
    {π₀ : Pool Op Ret Call σ} (hkeeps : ∀ t ∈ π₀.threads, Keeps ans I t) (hidle : π₀.idle = true)
    (hnil : F [] π₀.state) (hcrash : ∀ hist s, F hist s → F hist (H.crash s))
    (hstep : ∀ π choice op next hist,
      π.threads[π₀.threads.length]? = some ⟨call, .call op next, hist⟩ →
      Keeps ans I ⟨call, .call op next, hist⟩ →
      I call (⟨op, (H.run op choice π.state).1⟩ :: hist) →
      ok π (.step π₀.threads.length choice) = true → F hist π.state →
      F (⟨op, (H.run op choice π.state).1⟩ :: hist) (H.run op choice π.state).2)
    (during : List (Move Call Ch)) (hstay : ∀ m ∈ during, (!m.isStart) = true)
    (hok : π₀.Meets H main ok (.start call :: during) = true) :
    OnlyCall π₀.threads.length call F (π₀.run H main (.start call :: during)) := by
  simp only [Meets, Bool.and_eq_true] at hok
  refine run_induction hans hmain ?start ?crash ?step (move_keeps hans hmain hkeeps _)
    (OnlyCall.start hidle call hnil) during (meets_and_of_forall hok.2 hstay)
  case start =>
    intro π other hmove _
    cases (Bool.and_eq_true_iff.mp hmove).2
  case crash =>
    intro π _ honly
    obtain ⟨t, ht, hcall, hF⟩ := honly.self
    refine ⟨⟨t.stop, by simp [ht], hcall, hcrash _ _ hF⟩, ?_⟩
    intro i t' hi hdone
    rw [stop_isDone_of_getElem? hi] at hdone
    cases hdone
  case step =>
    intro π tid choice call' op next hist hthread _ hkept hI hmove honly
    obtain rfl : tid = π₀.threads.length := honly.others tid _ hthread rfl
    obtain ⟨t, ht, hcall, hF⟩ := honly.self
    obtain rfl := Option.some.inj (hthread.symm.trans ht)
    obtain rfl : call' = call := hcall
    exact honly.perform hthread choice
      (hstep π choice op next hist hthread hkept hI (Bool.and_eq_true_iff.mp hmove).1 hF)

end Pool

end Effects
