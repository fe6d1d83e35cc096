import SophiaOrchestrator.Effects.Prog

/-!
# Protocols

A protocol is a transition system over the answered operations of a program: it says from which
stage to which an operation may lead.  That a program keeps to a protocol is shown once, along the
program; what holds along its histories is then a matter of the single moves.
-/

namespace Effects

/-- A protocol over the stages `S`: the moves by an answered operation. -/
abbrev Protocol (Op : Type) (Ret : Op → Type) (S : Type) : Type :=
  S → Ev Op Ret → S → Prop

namespace Prog

variable {Op : Type} {Ret : Op → Type} {α β σ S : Type} {move : Protocol Op Ret S}
  {p : Prog Op Ret α} {s : S} {Q : α → S → Prop} {R : β → S → Prop}

/-- Whatever its operations answer, the program moves by the protocol from the stage on, and
returns a value at a stage that `Q` admits together. -/
def Follows (move : Protocol Op Ret S) (Q : α → S → Prop) : Prog Op Ret α → S → Prop
  | .done value, s => Q value s
  | .call op next, s => ∀ answer, ∃ s', move s ⟨op, answer⟩ s' ∧ (next answer).Follows move Q s'

theorem follows_bind {f : α → Prog Op Ret β} (hp : p.Follows move Q s)
    (hf : ∀ value s', Q value s' → (f value).Follows move R s') :
    (p >>= f).Follows move R s := by
  induction p generalizing s with
  | done value => exact hf value s hp
  | call op next ih =>
    intro answer
    obtain ⟨s', hmove, hnext⟩ := hp answer
    exact ⟨s', hmove, ih answer hnext⟩

theorem follows_mono {Q' : α → S → Prop} (hp : p.Follows move Q s)
    (hQ : ∀ value s', Q value s' → Q' value s') : p.Follows move Q' s := by
  induction p generalizing s with
  | done value => exact hQ value s hp
  | call op next ih =>
    intro answer
    obtain ⟨s', hmove, hnext⟩ := hp answer
    exact ⟨s', hmove, ih answer hnext⟩

theorem follows_perform {op : Op} {f : Ret op → Prog Op Ret β}
    (hf : ∀ answer, ∃ s', move s ⟨op, answer⟩ s' ∧ (f answer).Follows move R s') :
    (perform op >>= f).Follows move R s :=
  hf

theorem follows_stay {allowed : Op → Prop} {Q : α → Prop}
    (hp : p.Uses (fun _ _ => True) allowed Q)
    (hstay : ∀ op answer, allowed op → move s ⟨op, answer⟩ s) :
    p.Follows move (fun value s' => Q value ∧ s' = s) s := by
  induction p with
  | done value => exact ⟨hp, rfl⟩
  | call op next ih =>
    exact fun answer => ⟨s, hstay op answer hp.1, ih answer (hp.2 answer trivial)⟩

theorem follows_stay_bind {f : α → Prog Op Ret β} {allowed : Op → Prop} {Q : α → Prop}
    (hp : p.Uses (fun _ _ => True) allowed Q)
    (hstay : ∀ op answer, allowed op → move s ⟨op, answer⟩ s)
    (hf : ∀ value, Q value → (f value).Follows move R s) : (p >>= f).Follows move R s := by
  refine follows_bind (follows_stay hp hstay) ?_
  rintro value _ ⟨hQ, rfl⟩
  exact hf value hQ

/-- What every move keeps, a program that follows the protocol keeps. -/
theorem Follows.wp {sem : Sem Op Ret σ} {I : σ → Prop} {J : S → σ → Prop}
    (hp : p.Follows move Q s)
    (hmove : ∀ s ev s' st st', move s ev s' → sem ev.op st ev.ret st' → J s st →
      I st' ∧ J s' st') {st : σ} (hs : J s st) :
    p.wp sem I (fun value st' => ∃ s', Q value s' ∧ J s' st') st := by
  induction p generalizing s st with
  | done value => exact ⟨s, hp, hs⟩
  | call op next ih =>
    intro answer st' hsem
    obtain ⟨s', hstep, hnext⟩ := hp answer
    obtain ⟨hI, hs'⟩ := hmove s ⟨op, answer⟩ s' st st' hstep hsem hs
    exact ⟨hI, ih answer hnext hs'⟩

theorem Follows.wp_hist {ans : (op : Op) → Ret op → Prop} {I : List (Ev Op Ret) → Prop}
    {J : S → List (Ev Op Ret) → Prop} (hp : p.Follows move Q s)
    (hmove : ∀ s ev s' h, move s ev s' → ans ev.op ev.ret → J s h → I (ev :: h) ∧ J s' (ev :: h))
    {h : List (Ev Op Ret)} (hs : J s h) :
    p.wp (histSem ans) I (fun value h' => ∃ s', Q value s' ∧ J s' h') h := by
  refine hp.wp (fun s ev s' h h' hstep hsem hinv => ?_) hs
  rw [hsem.2]
  exact hmove s ev s' h hstep hsem.1 hinv

theorem Follows.uses {ans : (op : Op) → Ret op → Prop} {allowed : Op → Prop} {J : S → Prop}
    {R : α → Prop} (hp : p.Follows move Q s) (hret : ∀ op, Nonempty (Ret op))
    (hmove : ∀ s ev s', move s ev s' → J s → allowed ev.op ∧ (ans ev.op ev.ret → J s'))
    (hR : ∀ value s', Q value s' → J s' → R value) (hs : J s) : p.Uses ans allowed R := by
  induction p generalizing s with
  | done value => exact hR value s hp hs
  | call op next ih =>
    constructor
    · obtain ⟨answer⟩ := hret op
      obtain ⟨s', hstep, -⟩ := hp answer
      exact (hmove s _ s' hstep hs).1
    · intro answer hans
      obtain ⟨s', hstep, hnext⟩ := hp answer
      exact ih answer hnext ((hmove s _ s' hstep hs).2 hans)

end Prog

end Effects
