import SophiaOrchestrator.Effects.Pool

/-!
# Handlers over a richer state

A handler may add to the state of another one a part that its operations write but never
read for their answers.  Then a run over the richer state, seen through the projection, is a
run over the smaller one: the threads are the same, and so is everything that is known about
the runs of the other handler.
-/

namespace Effects

variable {Op : Type} {Ret : Op → Type} {Call Ch Ch' σ σ' : Type}

/-- `H'` does to the part `st` of its state, with the part `ch` of its choice, what `H` does,
and answers as `H` does. -/
structure Handler.Projects (H' : Handler Op Ret Ch' σ') (H : Handler Op Ret Ch σ)
    (ch : Ch' → Ch) (st : σ' → σ) : Prop where
  run : ∀ op c s, H.run op (ch c) (st s) = ((H'.run op c s).1, st (H'.run op c s).2)
  enabled : ∀ op c s, H.enabled op (ch c) (st s) = H'.enabled op c s
  crash : ∀ s, H.crash (st s) = st (H'.crash s)

def Move.project (ch : Ch' → Ch) : Move Call Ch' → Move Call Ch
  | .start call => .start call
  | .step tid c => .step tid (ch c)
  | .crash => .crash

namespace Pool

def project (st : σ' → σ) (π : Pool Op Ret Call σ') : Pool Op Ret Call σ :=
  ⟨st π.state, π.threads⟩

@[simp] theorem project_state (st : σ' → σ) (π : Pool Op Ret Call σ') :
    (π.project st).state = st π.state := rfl

@[simp] theorem project_threads (st : σ' → σ) (π : Pool Op Ret Call σ') :
    (π.project st).threads = π.threads := rfl

variable {H' : Handler Op Ret Ch' σ'} {H : Handler Op Ret Ch σ} {ch : Ch' → Ch} {st : σ' → σ}
  {main : Call → Prog Op Ret Unit}

theorem move_project (h : H'.Projects H ch st) (π : Pool Op Ret Call σ') (m : Move Call Ch') :
    (π.move H' main m).project st = (π.project st).move H main (m.project ch) := by
  cases m with
  | start call => rfl
  | crash => simp [move, project, Move.project, h.crash]
  | step tid c =>
    cases hthread : π.threads[tid]? with
    | none => simp [move, project, Move.project, hthread]
    | some t =>
      obtain ⟨call, prog, hist⟩ := t
      cases prog with
      | done value => simp [move, project, Move.project, hthread]
      | call op next =>
        by_cases henabled : H'.enabled op c π.state = true
        · simp [move, project, Move.project, hthread, henabled, perform, h.enabled, h.run]
        · simp [move, project, Move.project, hthread, henabled, h.enabled]

/-- A run over the richer state, seen through the projection, is a run over the smaller
one. -/
theorem run_project (h : H'.Projects H ch st) (π : Pool Op Ret Call σ')
    (moves : List (Move Call Ch')) :
    (π.run H' main moves).project st =
      (π.project st).run H main (moves.map (Move.project ch)) := by
  induction moves generalizing π with
  | nil => rfl
  | cons m moves ih => rw [run_cons, ih, move_project h, List.map_cons, run_cons]

end Pool

end Effects
