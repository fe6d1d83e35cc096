import SophiaOrchestrator.Effects.Pool
import SophiaOrchestrator.Effects.Relational

/-!
# One program among others

A program shares its state with others.  Before each of its operations they may
have changed the state, within what a *rely* relation allows; the operation itself
is then settled by a choice of the environment.  This is the view of a single
program that does not need the others to be known.
-/

namespace Effects

variable {Op : Type} {Ret : Op → Type} {Ch σ α β : Type}

variable {p : Prog Op Ret α} {s : σ} {rely : σ → σ → Prop} {ok : Op → Ch → Bool}
  {H : Handler Op Ret Ch σ}

/-- An operation among others: the others change the state as `rely` allows, then
the operation is performed with a choice that `ok` admits and recorded. -/
def Handler.amid (H : Handler Op Ret Ch σ) (rely : σ → σ → Prop) (ok : Op → Ch → Bool) :
    Sem Op Ret (σ × List Op) :=
  fun op x answer x' => ∃ s ch, rely x.1 s ∧ ok op ch = true ∧
    H.run op ch s = (answer, x'.1) ∧ x'.2 = op :: x.2

namespace Prog

/-- The program, started in a state, comes to a later state with the rest of it
still to be done. -/
inductive Leads (sem : Sem Op Ret σ) : Prog Op Ret α → σ → Prog Op Ret α → σ → Prop where
  | refl (p : Prog Op Ret α) (s : σ) : Leads sem p s p s
  | step {op : Op} {next : Ret op → Prog Op Ret α} {rest : Prog Op Ret α} {s s₁ s' : σ}
      {answer : Ret op} (hstep : sem op s answer s₁) (hrest : Leads sem (next answer) s₁ rest s') :
      Leads sem (.call op next) s rest s'

/-- An invariant that the weakest precondition keeps holds in every state that the
program comes to, and the rest of the program keeps it too. -/
theorem Leads.wp {sem : Sem Op Ret σ} {I : σ → Prop} {Q : α → σ → Prop} {rest : Prog Op Ret α}
    {s' : σ} (hleads : p.Leads sem s rest s') (hs : I s) (hp : p.wp sem I Q s) :
    I s' ∧ rest.wp sem I Q s' := by
  induction hleads with
  | refl p s => exact ⟨hs, hp⟩
  | step hstep hrest ih =>
    obtain ⟨hs₁, hnext⟩ := hp _ _ hstep
    exact ih hs₁ hnext

theorem wp_amid_bind {I : σ × List Op → Prop} {Q : α → σ × List Op → Prop} {op : Op}
    {f : Ret op → Prog Op Ret α} {x : σ × List Op} (hf : ∀ s ch, rely x.1 s → ok op ch = true →
      I ((H.run op ch s).2, op :: x.2) ∧
        (f (H.run op ch s).1).wp (H.amid rely ok) I Q ((H.run op ch s).2, op :: x.2)) :
    (perform op >>= f).wp (H.amid rely ok) I Q x := by
  rintro answer ⟨s', log⟩ ⟨s, ch, hrely, hok, hrun, rfl⟩
  have hthen := hf s ch hrely hok
  rw [hrun] at hthen
  exact hthen

theorem wp_amid_suffix (H : Handler Op Ret Ch σ) (rely : σ → σ → Prop) (ok : Op → Ch → Bool)
    (p : Prog Op Ret α) (x : σ × List Op) :
    p.wp (H.amid rely ok) (fun _ => True) (fun _ y => x.2 <:+ y.2) x := by
  induction p generalizing x with
  | done value => exact List.suffix_rfl
  | call op next ih =>
    rintro answer ⟨s', log⟩ ⟨s, ch, -, -, -, rfl⟩
    refine ⟨trivial, wp_mono (ih answer _) (fun _ => id) ?_⟩
    intro value y hsuffix
    exact (List.suffix_cons _ _).trans hsuffix

theorem wp_of_uses_keeping {sem : Sem Op Ret σ} {ans : (op : Op) → Ret op → Prop}
    {allowed : Op → Prop} {P I : σ → Prop} {Q : α → Prop} {R : α → σ → Prop}
    (huses : p.Uses ans allowed Q) (hans : ∀ op s answer s', sem op s answer s' → ans op answer)
    (hkeeps : ∀ op s answer s', allowed op → sem op s answer s' → P s → P s') (hI : ∀ s, P s → I s)
    (hs : P s) (hR : ∀ value s, Q value → P s → R value s) : p.wp sem I R s := by
  induction p generalizing s with
  | done value => exact hR value s huses hs
  | call op next ih =>
    intro answer s' hstep
    have hs' := hkeeps op s answer s' huses.1 hstep hs
    exact ⟨hI s' hs', ih answer (huses.2 answer (hans op s answer s' hstep)) hs'⟩

/-- An execution of the program alone, in an environment whose choices are all
admitted, is one in which the others change nothing. -/
theorem leads_eval {env : Nat → Ch} [Std.Refl rely] (hok : ∀ op n, ok op (env n) = true)
    (p : Prog Op Ret α) (n : Nat) (s : σ) (log : List Op) :
    let o := p.eval H (fun _ => false) env n s
    p.Leads (H.amid rely ok) (s, log) (.done o.value) (o.state, o.hist.map Ev.op ++ log) := by
  induction p generalizing n s log with
  | done value => exact .refl _ _
  | call op next ih =>
    have hrest := ih (H.run op (env n) s).1 (n + 1) (H.run op (env n) s).2 (op :: log)
    have hstep : H.amid rely ok op (s, log) (H.run op (env n) s).1
        ((H.run op (env n) s).2, op :: log) := ⟨s, env n, Std.Refl.refl s, hok op n, rfl, rfl⟩
    simpa [eval] using Leads.step hstep hrest

theorem eval_of_wp [Std.Refl rely] (env : Nat → Ch) (hok : ∀ op n, ok op (env n) = true)
    {I : σ × List Op → Prop} {Q : α → σ × List Op → Prop} {n : Nat} (hs : I (s, []))
    (hp : p.wp (H.amid rely ok) I Q (s, [])) :
    let o := p.eval H (fun _ => false) env n s
    I (o.state, o.hist.map Ev.op) ∧ Q o.value (o.state, o.hist.map Ev.op) := by
  have hend := (leads_eval hok p n s []).wp hs hp
  simpa using hend

end Prog

/-! ## With a record of the answers -/

/-- An operation among others that is recorded with its answer. -/
def Handler.among (H : Handler Op Ret Ch σ) (rely : σ → σ → Prop) :
    Sem Op Ret (σ × List (Ev Op Ret)) :=
  fun op x answer x' => ∃ s ch, rely x.1 s ∧ H.run op ch s = (answer, x'.1) ∧
    x'.2 = ⟨op, answer⟩ :: x.2

namespace Prog

theorem uses_true (p : Prog Op Ret α) :
    p.Uses (fun _ _ => True) (fun _ => True) fun _ => True := by
  induction p with
  | done value => trivial
  | call op next ih => exact ⟨trivial, fun answer _ => ih answer⟩

theorem wp_among_bind {I : σ × List (Ev Op Ret) → Prop} {Q : α → σ × List (Ev Op Ret) → Prop}
    {op : Op} {f : Ret op → Prog Op Ret α} {x : σ × List (Ev Op Ret)} (hf : ∀ s ch, rely x.1 s →
      I ((H.run op ch s).2, ⟨op, (H.run op ch s).1⟩ :: x.2) ∧
        (f (H.run op ch s).1).wp (H.among rely) I Q
          ((H.run op ch s).2, ⟨op, (H.run op ch s).1⟩ :: x.2)) :
    (perform op >>= f).wp (H.among rely) I Q x := by
  rintro answer ⟨s', log⟩ ⟨s, ch, hrely, hrun, rfl⟩
  have hthen := hf s ch hrely
  rw [hrun] at hthen
  exact hthen

theorem leads_among_eval [Std.Refl rely] (env : Nat → Ch) (p : Prog Op Ret α) (n : Nat) (s : σ)
    (log : List (Ev Op Ret)) :
    let o := p.eval H (fun _ => false) env n s
    p.Leads (H.among rely) (s, log) (.done o.value) (o.state, o.hist ++ log) := by
  induction p generalizing n s log with
  | done value => exact .refl _ _
  | call op next ih =>
    have hrest := ih (H.run op (env n) s).1 (n + 1) (H.run op (env n) s).2
      (⟨op, (H.run op (env n) s).1⟩ :: log)
    have hstep : H.among rely op (s, log) (H.run op (env n) s).1
        ((H.run op (env n) s).2, ⟨op, (H.run op (env n) s).1⟩ :: log) :=
      ⟨s, env n, Std.Refl.refl s, rfl, rfl⟩
    simpa [eval] using Leads.step hstep hrest

end Prog

end Effects
