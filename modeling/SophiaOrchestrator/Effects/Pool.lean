import SophiaOrchestrator.Effects.Prog

/-!
# Interleavings of programs over one shared state

A pool holds the shared state and the threads started so far.  A move starts a
call, lets one thread perform its next operation, or crashes the process.  A
thread keeps the history of its own answered operations, also after it has
stopped, so that a statement about a run can refer to what a thread has done.
-/

namespace Effects

/-- A thread: the call that started it, what remains of its program, and its
answered operations, newest first. -/
structure Thread (Op : Type) (Ret : Op → Type) (Call : Type) where
  call : Call
  prog : Prog Op Ret Unit
  hist : List (Ev Op Ret)

/-- The shared state and the threads in the order in which they were started.
Stopped threads stay in the list, so that positions identify threads. -/
structure Pool (Op : Type) (Ret : Op → Type) (Call σ : Type) where
  state : σ
  threads : List (Thread Op Ret Call)

inductive Move (Call Ch : Type) where
  | start (call : Call)
  | step (tid : Nat) (choice : Ch)
  | crash

def Move.isStart {Call Ch : Type} : Move Call Ch → Bool
  | .start _ => true
  | .step _ _ | .crash => false

namespace Thread

variable {Op : Type} {Ret : Op → Type} {Call : Type}

def spawn (main : Call → Prog Op Ret Unit) (call : Call) : Thread Op Ret Call :=
  ⟨call, main call, []⟩

/-- A crash stops the thread and keeps its history. -/
def stop (t : Thread Op Ret Call) : Thread Op Ret Call :=
  { t with prog := .done () }

@[simp] theorem spawn_call (main : Call → Prog Op Ret Unit) (call : Call) :
    (spawn main call).call = call := rfl

@[simp] theorem spawn_prog (main : Call → Prog Op Ret Unit) (call : Call) :
    (spawn main call).prog = main call := rfl

@[simp] theorem spawn_hist (main : Call → Prog Op Ret Unit) (call : Call) :
    (spawn main call).hist = [] := rfl

@[simp] theorem stop_call (t : Thread Op Ret Call) : t.stop.call = t.call := rfl

@[simp] theorem stop_prog (t : Thread Op Ret Call) : t.stop.prog = .done () := rfl

@[simp] theorem stop_hist (t : Thread Op Ret Call) : t.stop.hist = t.hist := rfl

end Thread

namespace Pool

variable {Op : Type} {Ret : Op → Type} {Call Ch σ : Type}

variable {π : Pool Op Ret Call σ} {tid : Nat} {call : Call} {op : Op}
  {next : Ret op → Prog Op Ret Unit} {hist : List (Ev Op Ret)} {t : Thread Op Ret Call}
  {ans : (op : Op) → Ret op → Prop} {I : Call → List (Ev Op Ret) → Prop}
  {ok : Pool Op Ret Call σ → Move Call Ch → Bool}

def init (s : σ) : Pool Op Ret Call σ :=
  ⟨s, []⟩

@[simp] theorem init_state (s : σ) :
    (init s : Pool Op Ret Call σ).state = s := rfl

@[simp] theorem init_threads (s : σ) :
    (init s : Pool Op Ret Call σ).threads = [] := rfl

def perform (H : Handler Op Ret Ch σ) (π : Pool Op Ret Call σ) (tid : Nat)
    (call : Call) (op : Op) (next : Ret op → Prog Op Ret Unit)
    (hist : List (Ev Op Ret)) (choice : Ch) : Pool Op Ret Call σ where
  state := (H.run op choice π.state).2
  threads := π.threads.set tid
    ⟨call, next (H.run op choice π.state).1,
      ⟨op, (H.run op choice π.state).1⟩ :: hist⟩

/-- After an operation of thread `tid` a position holds that thread, one
operation further, or the thread it held before. -/
theorem perform_getElem?_cases {H : Handler Op Ret Ch σ} {i : Nat} {choice : Ch}
    (h : (π.perform H tid call op next hist choice).threads[i]? = some t) :
    (i = tid ∧ t = ⟨call, next (H.run op choice π.state).1,
        ⟨op, (H.run op choice π.state).1⟩ :: hist⟩) ∨
      (i ≠ tid ∧ π.threads[i]? = some t) := by
  by_cases hi : i = tid
  · subst hi
    refine .inl ⟨rfl, ?_⟩
    simp only [perform, List.getElem?_set_self'] at h
    obtain ⟨_, -, rfl⟩ := Option.map_eq_some_iff.mp h
    rfl
  · refine .inr ⟨hi, ?_⟩
    rwa [perform, List.getElem?_set_ne (Ne.symm hi)] at h

theorem start_getElem?_cases {main : Call → Prog Op Ret Unit} {i : Nat}
    (h : (π.threads ++ [Thread.spawn main call])[i]? = some t) :
    π.threads[i]? = some t ∨ t = Thread.spawn main call := by
  by_cases hi : i < π.threads.length
  · rw [List.getElem?_append_left hi] at h
    exact .inl h
  · rw [List.getElem?_append_right (not_lt.mp hi)] at h
    exact .inr (List.mem_singleton.mp (List.mem_of_getElem? h))

/-- The effect of one move.  A step of a thread that does not exist, has stopped
or is blocked changes nothing. -/
def move (H : Handler Op Ret Ch σ) (main : Call → Prog Op Ret Unit)
    (π : Pool Op Ret Call σ) : Move Call Ch → Pool Op Ret Call σ
  | .start call => { π with threads := π.threads ++ [Thread.spawn main call] }
  | .crash => ⟨H.crash π.state, π.threads.map Thread.stop⟩
  | .step tid choice =>
    match π.threads[tid]? with
    | some ⟨call, .call op next, hist⟩ =>
      if H.enabled op choice π.state = true then
        π.perform H tid call op next hist choice
      else
        π
    | _ => π

def run (H : Handler Op Ret Ch σ) (main : Call → Prog Op Ret Unit)
    (π : Pool Op Ret Call σ) (moves : List (Move Call Ch)) : Pool Op Ret Call σ :=
  moves.foldl (move H main) π

section Run

variable {H : Handler Op Ret Ch σ} {main : Call → Prog Op Ret Unit}

@[simp] theorem run_nil (π : Pool Op Ret Call σ) : π.run H main [] = π := rfl

@[simp] theorem run_cons (π : Pool Op Ret Call σ) (m : Move Call Ch)
    (moves : List (Move Call Ch)) :
    π.run H main (m :: moves) = (π.move H main m).run H main moves := rfl

theorem run_append (π : Pool Op Ret Call σ) (before after : List (Move Call Ch)) :
    π.run H main (before ++ after) = (π.run H main before).run H main after := by
  simp [run, List.foldl_append]

theorem run_concat (π : Pool Op Ret Call σ) (moves : List (Move Call Ch))
    (m : Move Call Ch) :
    π.run H main (moves ++ [m]) = (π.run H main moves).move H main m := by
  rw [run_append]
  rfl

theorem move_step_of_call {choice : Ch} (h : π.threads[tid]? = some ⟨call, .call op next, hist⟩)
    (henabled : H.enabled op choice π.state = true) :
    π.move H main (.step tid choice) =
      π.perform H tid call op next hist choice := by
  simp [move, h, henabled]

variable (H main) in
/-- Everything a step can do: nothing, or perform the next operation of a
thread. -/
theorem move_step_cases (π : Pool Op Ret Call σ) (tid : Nat) (choice : Ch) :
    π.move H main (.step tid choice) = π ∨
      ∃ call op next hist,
        π.threads[tid]? = some ⟨call, .call op next, hist⟩ ∧
        H.enabled op choice π.state = true ∧
        π.move H main (.step tid choice) =
          π.perform H tid call op next hist choice := by
  cases hthread : π.threads[tid]? with
  | none => exact .inl (by simp [move, hthread])
  | some t =>
    obtain ⟨call, prog, hist⟩ := t
    cases prog with
    | done value => exact .inl (by simp [move, hthread])
    | call op next =>
      by_cases henabled : H.enabled op choice π.state = true
      · exact .inr ⟨call, op, next, hist, rfl, henabled,
          move_step_of_call hthread henabled⟩
      · exact .inl (by simp [move, hthread, henabled])

/-! ## What the programs guarantee about their histories -/

/-- The thread keeps the guarantee `I`: it held after every operation so far,
and what remains of the program keeps it. -/
structure Keeps (ans : (op : Op) → Ret op → Prop)
    (I : Call → List (Ev Op Ret) → Prop) (t : Thread Op Ret Call) : Prop where
  rest : t.prog.wp (Prog.histSem ans) (I t.call) (fun _ _ => True) t.hist
  past : ∀ h, h <:+ t.hist → h ≠ [] → I t.call h

theorem Keeps.imp {I' : Call → List (Ev Op Ret) → Prop} (h : Keeps ans I t)
    (himp : ∀ hist, I t.call hist → I' t.call hist) : Keeps ans I' t where
  rest := Prog.wp_mono h.rest himp fun _ _ _ => trivial
  past hist hsuffix hne := himp hist (h.past hist hsuffix hne)

theorem Keeps.of_mem (h : Keeps ans I t) {ev : Ev Op Ret} (hmem : ev ∈ t.hist) :
    ∃ past, ev :: past <:+ t.hist ∧ I t.call (ev :: past) := by
  obtain ⟨newer, past, hsplit⟩ := List.append_of_mem hmem
  have hsuffix : ev :: past <:+ t.hist := ⟨newer, hsplit.symm⟩
  exact ⟨past, hsuffix, h.past _ hsuffix (List.cons_ne_nil ev past)⟩

theorem Keeps.upcoming (h : Keeps ans I t) (hprog : t.prog = .call op next) (answer : Ret op)
    (hans : ans op answer) : I t.call (⟨op, answer⟩ :: t.hist) := by
  have hrest := h.rest
  rw [hprog] at hrest
  exact ((Prog.wp_hist_call op next t.hist).mp hrest answer hans).1

theorem keeps_spawn
    (hmain : ∀ call, (main call).wp (Prog.histSem ans) (I call) (fun _ _ => True) [])
    (call : Call) : Keeps ans I (Thread.spawn main call) where
  rest := hmain call
  past _ hsuffix hne := absurd (List.suffix_nil.mp hsuffix) hne

theorem keeps_stop (h : Keeps ans I t) : Keeps ans I t.stop where
  rest := trivial
  past := h.past

theorem keeps_perform (h : Keeps ans I ⟨call, .call op next, hist⟩) (answer : Ret op)
    (hans : ans op answer) : Keeps ans I ⟨call, next answer, ⟨op, answer⟩ :: hist⟩ := by
  obtain ⟨hnow, hrest⟩ := (Prog.wp_hist_call op next hist).mp h.rest answer hans
  refine ⟨hrest, ?_⟩
  intro past hsuffix hne
  rcases List.suffix_cons_iff.mp hsuffix with rfl | htail
  · exact hnow
  · exact h.past past htail hne

theorem move_keeps (hans : ∀ op choice s, ans op (H.run op choice s).1)
    (hmain : ∀ call, (main call).wp (Prog.histSem ans) (I call) (fun _ _ => True) [])
    (h : ∀ t ∈ π.threads, Keeps ans I t) (m : Move Call Ch) :
    ∀ t ∈ (π.move H main m).threads, Keeps ans I t := by
  cases m with
  | start call =>
    intro t ht
    rcases List.mem_append.mp ht with hold | hnew
    · exact h t hold
    · rw [List.mem_singleton.mp hnew]
      exact keeps_spawn hmain call
  | crash =>
    intro t ht
    obtain ⟨t', ht', rfl⟩ := List.mem_map.mp ht
    exact keeps_stop (h t' ht')
  | step tid choice =>
    rcases move_step_cases H main π tid choice with
      heq | ⟨call, op, next, hist, hthread, henabled, heq⟩
    · rw [heq]
      exact h
    · rw [heq]
      intro t ht
      rcases List.mem_or_eq_of_mem_set ht with hold | rfl
      · exact h t hold
      · exact keeps_perform (h _ (List.mem_of_getElem? hthread)) _ (hans _ _ _)

/-- Every thread of every reachable pool keeps the guarantee of its program. -/
theorem run_keeps (hans : ∀ op choice s, ans op (H.run op choice s).1)
    (hmain : ∀ call, (main call).wp (Prog.histSem ans) (I call) (fun _ _ => True) [])
    (h : ∀ t ∈ π.threads, Keeps ans I t) (moves : List (Move Call Ch)) :
    ∀ t ∈ (π.run H main moves).threads, Keeps ans I t := by
  induction moves generalizing π with
  | nil => exact h
  | cons m moves ih => exact ih (move_keeps hans hmain h m)

/-! ## Invariants of a run -/

/-- Every move of the run is one that `ok` admits in the pool it is made in. -/
def Meets (H : Handler Op Ret Ch σ) (main : Call → Prog Op Ret Unit)
    (ok : Pool Op Ret Call σ → Move Call Ch → Bool) (π : Pool Op Ret Call σ) :
    List (Move Call Ch) → Bool
  | [] => true
  | m :: moves => ok π m && Meets H main ok (π.move H main m) moves

theorem meets_true (π : Pool Op Ret Call σ) (moves : List (Move Call Ch)) :
    π.Meets H main (fun _ _ => true) moves = true := by
  induction moves generalizing π with
  | nil => rfl
  | cons m moves ih => simpa [Meets] using ih (π.move H main m)

theorem meets_append (π : Pool Op Ret Call σ) (before after : List (Move Call Ch)) :
    π.Meets H main ok (before ++ after) =
      (π.Meets H main ok before && (π.run H main before).Meets H main ok after) := by
  induction before generalizing π with
  | nil => simp [Meets]
  | cons m before ih => simp [Meets, ih, Bool.and_assoc]

theorem meets_and_of_forall {good : Move Call Ch → Bool} {moves : List (Move Call Ch)}
    (hok : π.Meets H main ok moves = true) (hgood : ∀ m ∈ moves, good m = true) :
    π.Meets H main (fun π m => ok π m && good m) moves = true := by
  induction moves generalizing π with
  | nil => rfl
  | cons m moves ih =>
    simp only [Meets, Bool.and_eq_true] at hok ⊢
    exact ⟨⟨hok.1, hgood m List.mem_cons_self⟩,
      ih hok.2 fun m' hm' => hgood m' (List.mem_cons_of_mem m hm')⟩

/-- The induction over a run.  In the step case the guarantee of the stepping
thread is available for the operation it performs, and `ok` is what is assumed
of the moves of the run. -/
theorem run_induction {Inv : Pool Op Ret Call σ → Prop}
    (hans : ∀ op choice s, ans op (H.run op choice s).1)
    (hmain : ∀ call, (main call).wp (Prog.histSem ans) (I call) (fun _ _ => True) [])
    (hstart : ∀ π call, ok π (.start call) = true → Inv π →
      Inv { π with threads := π.threads ++ [Thread.spawn main call] })
    (hcrash : ∀ π, ok π .crash = true → Inv π →
      Inv ⟨H.crash π.state, π.threads.map Thread.stop⟩) (hstep : ∀ π tid choice call op next hist,
      π.threads[tid]? = some ⟨call, .call op next, hist⟩ →
      H.enabled op choice π.state = true →
      Keeps ans I ⟨call, .call op next, hist⟩ →
      I call (⟨op, (H.run op choice π.state).1⟩ :: hist) →
      ok π (.step tid choice) = true → Inv π →
      Inv (π.perform H tid call op next hist choice)) (hkeeps : ∀ t ∈ π.threads, Keeps ans I t)
    (hinit : Inv π) (moves : List (Move Call Ch)) (hok : π.Meets H main ok moves = true) :
    Inv (π.run H main moves) := by
  induction moves generalizing π with
  | nil => exact hinit
  | cons m moves ih =>
    simp only [Meets, Bool.and_eq_true] at hok
    refine ih (move_keeps hans hmain hkeeps m) ?_ hok.2
    cases m with
    | start call => exact hstart π call hok.1 hinit
    | crash => exact hcrash π hok.1 hinit
    | step tid choice =>
      rcases move_step_cases H main π tid choice with
        heq | ⟨call, op, next, hist, hthread, henabled, heq⟩
      · rw [heq]
        exact hinit
      · rw [heq]
        have hkept := hkeeps _ (List.mem_of_getElem? hthread)
        exact hstep π tid choice call op next hist hthread henabled hkept
          ((Prog.wp_hist_call op next hist).mp hkept.rest _ (hans _ _ _)).1
          hok.1 hinit

/-! ## From a history back to the run -/

/-- Where a thread of the pool after a move comes from: it had the same history
before, or the move performed its next operation, or the move started it. -/
theorem move_getElem?_cases {m : Move Call Ch} (h : (π.move H main m).threads[tid]? = some t) :
    (∃ t₀, π.threads[tid]? = some t₀ ∧ t₀.call = t.call ∧ t.hist = t₀.hist) ∨
      (∃ choice op next hist, m = .step tid choice ∧
        π.threads[tid]? = some ⟨t.call, .call op next, hist⟩ ∧
        π.move H main (.step tid choice) =
          π.perform H tid t.call op next hist choice ∧
        t.hist = ⟨op, (H.run op choice π.state).1⟩ :: hist) ∨
      t.hist = [] := by
  cases m with
  | start call =>
    rcases start_getElem?_cases h with hold | rfl
    · exact .inl ⟨t, hold, rfl, rfl⟩
    · exact .inr (.inr rfl)
  | crash =>
    simp only [move, List.getElem?_map, Option.map_eq_some_iff] at h
    obtain ⟨t₀, ht₀, rfl⟩ := h
    exact .inl ⟨t₀, ht₀, rfl, rfl⟩
  | step tid' choice =>
    rcases move_step_cases H main π tid' choice with
      heq | ⟨call, op, next, hist, hthread, henabled, heq⟩
    · rw [heq] at h
      exact .inl ⟨t, h, rfl, rfl⟩
    · rw [heq] at h
      rcases perform_getElem?_cases h with ⟨rfl, rfl⟩ | ⟨-, hold⟩
      · exact .inr (.inl ⟨choice, op, next, hist, rfl, hthread, heq, rfl⟩)
      · exact .inl ⟨t, hold, rfl, rfl⟩

/-- Every operation in the history of a thread was performed by a move of the
run: before it the thread had the older part of the history, and the operation
was answered by the handler in the state of that moment. -/
theorem exists_move_of_suffix {s : σ} {moves : List (Move Call Ch)} {ev : Ev Op Ret}
    {past : List (Ev Op Ret)}
    (h : ((init s : Pool Op Ret Call σ).run H main moves).threads[tid]? = some t)
    (hsuffix : ev :: past <:+ t.hist) :
    ∃ before choice after next, moves = before ++ .step tid choice :: after ∧
      ((init s : Pool Op Ret Call σ).run H main before).threads[tid]? =
        some ⟨t.call, .call ev.op next, past⟩ ∧
      ev.ret = (H.run ev.op choice
        ((init s : Pool Op Ret Call σ).run H main before).state).1 ∧
      (init s : Pool Op Ret Call σ).run H main (before ++ [.step tid choice]) =
        ((init s : Pool Op Ret Call σ).run H main before).perform H tid t.call ev.op next
          past choice := by
  induction moves using List.reverseRecOn generalizing t with
  | nil => simp at h
  | append_singleton moves m ih =>
    rw [run_concat] at h
    generalize hπ : (init s : Pool Op Ret Call σ).run H main moves = π at h
    -- The thread was there before the last move with this part of its history,
    -- or the last move performed the operation.
    rcases move_getElem?_cases h with ⟨t₀, ht₀, hcall, hhist⟩ |
        ⟨choice, op, next, hist, rfl, hthread, hmove, hhist⟩ | hnew
    · obtain ⟨before, choice, after, next, rfl, hrest⟩ := ih (hπ ▸ ht₀) (hhist ▸ hsuffix)
      rw [← hcall]
      exact ⟨before, choice, after ++ [m], next, by simp, hrest⟩
    · rw [hhist] at hsuffix
      rcases List.suffix_cons_iff.mp hsuffix with heq | hold
      · obtain ⟨rfl, rfl⟩ := List.cons.inj heq
        exact ⟨moves, choice, [], next, rfl, hπ ▸ hthread, by rw [hπ], by
          rw [run_concat, hπ, hmove]⟩
      · obtain ⟨before, choice', after, next', rfl, hrest⟩ := ih (hπ ▸ hthread) hold
        exact ⟨before, choice', after ++ [.step tid choice], next', by simp, hrest⟩
    · rw [hnew] at hsuffix
      simp at hsuffix

end Run

end Pool

end Effects
