import SophiaOrchestrator.Effects.Relational

/-!
# A program that runs alone

A program runs to its end with nothing in between, and every operation is answered as
hoped.  What is said of such an execution concerns its end and each of its steps, with the
state before and after.
-/

namespace Effects

variable {Op : Type} {Ret : Op → Type} {Ch σ α β : Type}

structure Step (Op : Type) (Ret : Op → Type) (σ : Type) where
  before : σ
  ev : Ev Op Ret
  after : σ

namespace Prog

def steps (H : Handler Op Ret Ch σ) (env : Nat → Ch) : Prog Op Ret α → Nat → σ →
    List (Step Op Ret σ)
  | .done _, _, _ => []
  | .call op next, n, s =>
    let answered := H.run op (env n) s
    ⟨s, ⟨op, answered.1⟩, answered.2⟩ :: (next answered.1).steps H env (n + 1) answered.2

/-- From `s`, as long as the answers are as hoped, every step keeps `J`, and `Q` holds of the
returned value and the final state. -/
def Does (H : Handler Op Ret Ch σ) (hoped : Ev Op Ret → Prop) (J : σ → σ → Prop)
    (Q : α → σ → Prop) : Prog Op Ret α → σ → Prop
  | .done value, s => Q value s
  | .call op next, s => ∀ ch, hoped ⟨op, (H.run op ch s).1⟩ →
      J s (H.run op ch s).2 ∧ (next (H.run op ch s).1).Does H hoped J Q (H.run op ch s).2

section Does

variable {H : Handler Op Ret Ch σ} {hoped : Ev Op Ret → Prop} {J : σ → σ → Prop}

theorem does_bind {Q : β → σ → Prop} {p : Prog Op Ret α} {f : α → Prog Op Ret β} {s : σ}
    (h : p.Does H hoped J (fun value s' => (f value).Does H hoped J Q s') s) :
    (p >>= f).Does H hoped J Q s := by
  induction p generalizing s with
  | done value => exact h
  | call op next ih =>
    intro ch hop
    obtain ⟨hstep, hrest⟩ := h ch hop
    exact ⟨hstep, ih _ hrest⟩

theorem does_perform_bind {Q : α → σ → Prop} {op : Op} {f : Ret op → Prog Op Ret α} {s : σ}
    (hf : ∀ ch, hoped ⟨op, (H.run op ch s).1⟩ →
      J s (H.run op ch s).2 ∧ (f (H.run op ch s).1).Does H hoped J Q (H.run op ch s).2) :
    (perform op >>= f).Does H hoped J Q s :=
  hf

theorem does_read_bind {Q : α → σ → Prop} {op : Op} {f : Ret op → Prog Op Ret α} {s : σ}
    (hreads : ∀ ch, (H.run op ch s).2 = s) (hJ : J s s)
    (hf : ∀ ch, hoped ⟨op, (H.run op ch s).1⟩ →
      (f (H.run op ch s).1).Does H hoped J Q s) :
    (perform op >>= f).Does H hoped J Q s := by
  intro ch hop
  rw [hreads ch]
  exact ⟨hJ, hf ch hop⟩

/-- An execution whose answers are all as hoped. -/
theorem eval_of_does {env : Nat → Ch} {Q : α → σ → Prop} {p : Prog Op Ret α} {n : Nat} {s : σ}
    (h : p.Does H hoped J Q s) (hoped_steps : ∀ step ∈ p.steps H env n s, hoped step.ev) :
    (∀ step ∈ p.steps H env n s, J step.before step.after) ∧
      Q (p.eval H (fun _ => false) env n s).value (p.eval H (fun _ => false) env n s).state := by
  induction p generalizing n s with
  | done value => exact ⟨fun step hstep => absurd hstep List.not_mem_nil, h⟩
  | call op next ih =>
    obtain ⟨hJ, hrest⟩ := h (env n) (hoped_steps _ List.mem_cons_self)
    obtain ⟨hsteps, hend⟩ := ih _ hrest fun step hstep =>
      hoped_steps step (List.mem_cons_of_mem _ hstep)
    refine ⟨fun step hstep => ?_, hend⟩
    rcases List.mem_cons.mp hstep with rfl | hlater
    · exact hJ
    · exact hsteps step hlater

end Does

end Prog

/-! ## With a record of the steps -/

/-- An operation alone, recorded with the state before and after it, newest first. -/
def Handler.traced (H : Handler Op Ret Ch σ) : Sem Op Ret (σ × List (Step Op Ret σ)) :=
  fun op x answer x' => ∃ ch s', H.run op ch x.1 = (answer, s') ∧
    x' = (s', ⟨x.1, ⟨op, answer⟩, s'⟩ :: x.2)

namespace Prog

variable {H : Handler Op Ret Ch σ} {I : σ × List (Step Op Ret σ) → Prop}
  {Q : α → σ × List (Step Op Ret σ) → Prop}

theorem wp_traced_bind {op : Op} {f : Ret op → Prog Op Ret α} {x : σ × List (Step Op Ret σ)}
    (hf : ∀ ch answer s', H.run op ch x.1 = (answer, s') →
      I (s', ⟨x.1, ⟨op, answer⟩, s'⟩ :: x.2) ∧
        (f answer).wp H.traced I Q (s', ⟨x.1, ⟨op, answer⟩, s'⟩ :: x.2)) :
    (perform op >>= f).wp H.traced I Q x := by
  rintro answer _ ⟨ch, s', hrun, rfl⟩
  exact hf ch answer s' hrun

/-- What the weakest precondition says of an execution of the program alone. -/
theorem eval_of_traced {p : Prog Op Ret α} {n : Nat} {s : σ} {trace : List (Step Op Ret σ)}
    (env : Nat → Ch) (hp : p.wp H.traced I Q (s, trace)) :
    Q (p.eval H (fun _ => false) env n s).value
      ((p.eval H (fun _ => false) env n s).state, (p.steps H env n s).reverse ++ trace) := by
  induction p generalizing n s trace with
  | done value => exact hp
  | call op next ih =>
    have hrest := ih _ (n := n + 1) (hp _ _ ⟨env n, _, rfl, rfl⟩).2
    simpa [steps, eval] using hrest

end Prog

end Effects
