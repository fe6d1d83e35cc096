import SophiaOrchestrator.Effects.Prog

/-!
# Programs run to their end

A program is run alone to its end, in an environment that settles its operations
one after another.  Some operations are *silent*: they do not use up a choice of
the environment, so two programs that differ only in silent operations meet the
same environment at every other operation.
-/

namespace Effects

variable {Op : Type} {Ret : Op → Type} {Ch σ α β : Type}

/-- The end of an execution: the returned value, the state, the number of choices
used up so far, and the answered operations, newest first. -/
structure Outcome (Op : Type) (Ret : Op → Type) (α σ : Type) where
  value : α
  state : σ
  used : Nat
  hist : List (Ev Op Ret)

namespace Prog

def eval (H : Handler Op Ret Ch σ) (silent : Op → Bool) (env : Nat → Ch) :
    Prog Op Ret α → Nat → σ → Outcome Op Ret α σ
  | .done value, n, s => ⟨value, s, n, []⟩
  | .call op next, n, s =>
    let answered := H.run op (env n) s
    let rest := (next answered.1).eval H silent env (if silent op then n else n + 1) answered.2
    { rest with hist := rest.hist ++ [⟨op, answered.1⟩] }

theorem eval_perform_bind (H : Handler Op Ret Ch σ) (silent : Op → Bool) (env : Nat → Ch) (op : Op)
    (f : Ret op → Prog Op Ret α) (n : Nat) (s : σ) :
    (perform op >>= f).eval H silent env n s =
      let rest := (f (H.run op (env n) s).1).eval H silent env (if silent op then n else n + 1)
        (H.run op (env n) s).2
      { rest with hist := rest.hist ++ [⟨op, (H.run op (env n) s).1⟩] } := rfl

theorem eval_bind (H : Handler Op Ret Ch σ) (silent : Op → Bool) (env : Nat → Ch)
    (p : Prog Op Ret α) (f : α → Prog Op Ret β) (n : Nat) (s : σ) :
    (p >>= f).eval H silent env n s =
      let first := p.eval H silent env n s
      let rest := (f first.value).eval H silent env first.used first.state
      { rest with hist := rest.hist ++ first.hist } := by
  induction p generalizing n s with
  | done value => simp [eval]
  | call op next ih => simp [eval, ih]

end Prog

end Effects
