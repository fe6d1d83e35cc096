import SophiaOrchestrator.Effects.Interference
import SophiaOrchestrator.Apply.Changes

/-!
# A program of the apply service among others

The rules for one program, run among goroutines and other `Execute`s of which only a relation
between the states before and after their operations is known.
-/

namespace SophiaOrchestrator.Apply

open Effects Prog

/-- Among others that change the state as `rely` allows, the program ends with a value and a
situation that `R` admits. -/
abbrev Among {α : Type} (cfg : RunConfig) (rely : State → State → Prop)
    (R : α → State × History → Prop) (prog : Program α) (y : State × History) : Prop :=
  prog.wp ((handler cfg).among rely) (fun _ => True) R y

section Rules

variable {α β : Type} {cfg : RunConfig} {rely : State → State → Prop} {y : State × History}

theorem among_perform {R : α → State × History → Prop} {op : Op} {f : op.Ret → Program α}
    (hf : ∀ s ch, rely y.1 s →
      Among cfg rely R (f (handle cfg op ch s).1)
        ((handle cfg op ch s).2, ⟨op, (handle cfg op ch s).1⟩ :: y.2)) :
    Among cfg rely R (perform op >>= f) y :=
  wp_among_bind fun s ch hrely => ⟨trivial, hf s ch hrely⟩

theorem among_answer {R : α → State × History → Prop} {op : Op} {f : op.Ret → Program α}
    (hf : ∀ answer y', y'.2 = ⟨op, answer⟩ :: y.2 → Among cfg rely R (f answer) y') :
    Among cfg rely R (perform op >>= f) y :=
  among_perform fun _ _ _ => hf _ _ rfl

theorem among_keeping {P : State × History → Prop} {Q : α → Prop}
    {R : α → State × History → Prop} {allowed : Op → Prop} {prog : Program α}
    (huses : prog.Uses Op.Answers allowed Q)
    (hkeeps : ∀ op y s ch, allowed op → rely y.1 s → P y →
      P ((handle cfg op ch s).2, ⟨op, (handle cfg op ch s).1⟩ :: y.2))
    (hy : P y) (hR : ∀ value y', Q value → P y' → R value y') : Among cfg rely R prog y := by
  refine wp_of_uses_keeping huses ?_ ?_ (fun _ _ => trivial) hy hR
  · rintro op y answer ⟨s', log⟩ ⟨s, ch, -, hrun, -⟩
    have hanswers := handle_answers cfg op ch s
    rwa [show (handle cfg op ch s).1 = answer from congrArg Prod.fst hrun] at hanswers
  · rintro op y answer ⟨s', log⟩ hop ⟨s, ch, hrely, hrun, rfl⟩ hP
    have hnext := hkeeps op y s ch hop hrely hP
    rwa [show handle cfg op ch s = (answer, s') from hrun] at hnext

theorem among_always {P : State × History → Prop} {R : α → State × History → Prop}
    (prog : Program α)
    (hkeeps : ∀ op y s ch, P y → P ((handle cfg op ch s).2, ⟨op, (handle cfg op ch s).1⟩ :: y.2))
    (hy : P y) (hR : ∀ value y', P y' → R value y') : Among cfg rely R prog y :=
  among_keeping (uses_answers (uses_true prog) fun _ _ _ => trivial)
    (fun op y s ch _ _ => hkeeps op y s ch) hy fun value y' _ => hR value y'

end Rules

/-! ## Writes -/

/-- A write that is answered without an error leaves what its statement leaves. -/
theorem result_of_write {τ : Type} (f : State → τ) {g : τ → State} (hfg : ∀ t, f (g t) = t)
    {s : State} {ctx : Ctx} {fault : Fault} {result : Except RepoErr τ}
    (h : (s.write ctx fault (result.map g)).1 = .ok ()) :
    result = .ok (f (s.write ctx fault (result.map g)).2) := by
  unfold State.write at h ⊢
  split at h
  · cases h
  · next hopen =>
    rw [if_neg hopen]
    cases result with
    | error err => cases fault <;> cases h
    | ok t =>
      cases fault with
      | none => exact congrArg Except.ok (hfg t).symm
      | before | after => cases h

end SophiaOrchestrator.Apply
