import Mathlib.Data.List.Basic
import Mathlib.Data.List.Infix

/-!
# Programs over a signature of operations

A program either stops with a value or performs one operation and continues
with the answer.  The operations are the only points at which a program can be
observed, interrupted or interleaved with another one, so a program fixes both
the order of its effects and what it does after every possible answer.
-/

namespace Effects

/-- A program over the operations `Op`, where operation `op` is answered by a
value of type `Ret op`. -/
inductive Prog (Op : Type) (Ret : Op → Type) (α : Type) where
  | done (value : α)
  | call (op : Op) (next : Ret op → Prog Op Ret α)

structure Ev (Op : Type) (Ret : Op → Type) where
  op : Op
  ret : Ret op

/-- What an operation may do to a state: `sem op s r s'` says that `op`
performed in `s` may answer `r` and leave `s'`. -/
abbrev Sem (Op : Type) (Ret : Op → Type) (σ : Type) : Type :=
  (op : Op) → σ → Ret op → σ → Prop

namespace Prog

variable {Op : Type} {Ret : Op → Type} {α β σ : Type}

variable {Q : α → Prop} {p : Prog Op Ret α} {sem : Sem Op Ret σ} {I : σ → Prop} {s : σ}

def bind : Prog Op Ret α → (α → Prog Op Ret β) → Prog Op Ret β
  | .done value, f => f value
  | .call op next, f => .call op fun answer => (next answer).bind f

instance : Monad (Prog Op Ret) where
  pure := .done
  bind := bind

def perform (op : Op) : Prog Op Ret (Ret op) :=
  .call op .done

@[simp] theorem pure_eq (value : α) :
    (pure value : Prog Op Ret α) = .done value := rfl

@[simp] theorem done_bind (value : α) (f : α → Prog Op Ret β) :
    (Prog.done value >>= f) = f value := rfl

@[simp] theorem call_bind (op : Op) (next : Ret op → Prog Op Ret α)
    (f : α → Prog Op Ret β) :
    (Prog.call op next >>= f) = .call op fun answer => next answer >>= f := rfl

@[simp] theorem perform_bind (op : Op) (f : Ret op → Prog Op Ret β) :
    ((perform op : Prog Op Ret (Ret op)) >>= f) = .call op f := rfl

def isDone : Prog Op Ret α → Bool
  | .done _ => true
  | .call _ _ => false

@[simp] theorem isDone_done (value : α) :
    (Prog.done value : Prog Op Ret α).isDone = true := rfl

@[simp] theorem isDone_call (op : Op) (next : Ret op → Prog Op Ret α) :
    (Prog.call op next).isDone = false := rfl

/-! ## The operations a program may perform -/

/-- Whatever the operations answer, within what `ans` admits, the program
performs only operations that `allowed` admits and returns only values that `Q`
admits. -/
def Uses (ans : (op : Op) → Ret op → Prop) (allowed : Op → Prop) (Q : α → Prop) :
    Prog Op Ret α → Prop
  | .done value => Q value
  | .call op next =>
    allowed op ∧ ∀ answer, ans op answer → (next answer).Uses ans allowed Q

section Uses

variable {ans : (op : Op) → Ret op → Prop} {allowed : Op → Prop}

@[simp] theorem uses_done (value : α) :
    (Prog.done value : Prog Op Ret α).Uses ans allowed Q ↔ Q value := Iff.rfl

theorem uses_perform_bind {op : Op} {f : Ret op → Prog Op Ret α} (hop : allowed op)
    (hf : ∀ answer, ans op answer → (f answer).Uses ans allowed Q) :
    ((perform op : Prog Op Ret (Ret op)) >>= f).Uses ans allowed Q :=
  ⟨hop, hf⟩

theorem uses_bind {Q' : β → Prop} {f : α → Prog Op Ret β} (hp : p.Uses ans allowed Q)
    (hf : ∀ value, Q value → (f value).Uses ans allowed Q') : (p >>= f).Uses ans allowed Q' := by
  induction p with
  | done value => exact hf value hp
  | call op next ih =>
    exact ⟨hp.1, fun answer hans => ih answer (hp.2 answer hans)⟩

theorem uses_mono {allowed' : Op → Prop} {Q' : α → Prop} (hp : p.Uses ans allowed Q)
    (hallowed : ∀ op, allowed op → allowed' op) (hQ : ∀ value, Q value → Q' value) :
    p.Uses ans allowed' Q' := by
  induction p with
  | done value => exact hQ value hp
  | call op next ih =>
    exact ⟨hallowed op hp.1, fun answer hans => ih answer (hp.2 answer hans)⟩

theorem uses_answers {ans' : (op : Op) → Ret op → Prop} (hp : p.Uses ans allowed Q)
    (hans : ∀ op answer, ans' op answer → ans op answer) : p.Uses ans' allowed Q := by
  induction p with
  | done value => exact hp
  | call op next ih =>
    exact ⟨hp.1, fun answer hanswer => ih answer (hp.2 answer (hans op answer hanswer))⟩

end Uses

/-! ## Weakest preconditions -/

/-- From state `s`, whatever the operations answer, `I` holds after every
operation and `Q` holds of the returned value and the final state. -/
def wp (sem : Sem Op Ret σ) (I : σ → Prop) (Q : α → σ → Prop) :
    Prog Op Ret α → σ → Prop
  | .done value, s => Q value s
  | .call op next, s =>
    ∀ answer s', sem op s answer s' → I s' ∧ (next answer).wp sem I Q s'

@[simp] theorem wp_done {Q : α → σ → Prop} (value : α) (s : σ) :
    (Prog.done value : Prog Op Ret α).wp sem I Q s ↔ Q value s := Iff.rfl

theorem wp_true (sem : Sem Op Ret σ) (p : Prog Op Ret α) (s : σ) :
    p.wp sem (fun _ => True) (fun _ _ => True) s := by
  induction p generalizing s with
  | done value => trivial
  | call op next ih => exact fun answer s' _ => ⟨trivial, ih answer s'⟩

theorem wp_mono {I' : σ → Prop} {Q Q' : α → σ → Prop} (h : p.wp sem I Q s) (hI : ∀ s, I s → I' s)
    (hQ : ∀ value s, Q value s → Q' value s) : p.wp sem I' Q' s := by
  induction p generalizing s with
  | done value => exact hQ value s h
  | call op next ih =>
    intro answer s' hstep
    obtain ⟨hinv, hrest⟩ := h answer s' hstep
    exact ⟨hI s' hinv, ih answer hrest⟩

theorem wp_and {I' : σ → Prop} {Q Q' : α → σ → Prop} (h : p.wp sem I Q s) (h' : p.wp sem I' Q' s) :
    p.wp sem (fun s => I s ∧ I' s) (fun value s => Q value s ∧ Q' value s) s := by
  induction p generalizing s with
  | done value => exact ⟨h, h'⟩
  | call op next ih =>
    intro answer s' hstep
    obtain ⟨hinv, hrest⟩ := h answer s' hstep
    obtain ⟨hinv', hrest'⟩ := h' answer s' hstep
    exact ⟨⟨hinv, hinv'⟩, ih answer hrest hrest'⟩

theorem wp_bind {Q : β → σ → Prop} {f : α → Prog Op Ret β}
    (h : p.wp sem I (fun value s' => (f value).wp sem I Q s') s) : (p >>= f).wp sem I Q s := by
  induction p generalizing s with
  | done value => exact h
  | call op next ih =>
    intro answer s' hstep
    obtain ⟨hinv, hrest⟩ := h answer s' hstep
    exact ⟨hinv, ih answer hrest⟩

/-! ## Histories of answered operations

The history of a program is the list of its answered operations, newest first.
Reasoning about a program over its own history assumes nothing about the state,
only which answers an operation can get at all. -/

/-- The step relation that records each operation with an answer that `ans`
admits. -/
def histSem (ans : (op : Op) → Ret op → Prop) : Sem Op Ret (List (Ev Op Ret)) :=
  fun op history answer history' => ans op answer ∧ history' = ⟨op, answer⟩ :: history

theorem wp_hist_call {ans : (op : Op) → Ret op → Prop} {I : List (Ev Op Ret) → Prop}
    {Q : α → List (Ev Op Ret) → Prop} (op : Op)
    (next : Ret op → Prog Op Ret α) (history : List (Ev Op Ret)) :
    (Prog.call op next).wp (histSem ans) I Q history ↔
      ∀ answer, ans op answer → I (⟨op, answer⟩ :: history) ∧
        (next answer).wp (histSem ans) I Q (⟨op, answer⟩ :: history) := by
  constructor
  · intro h answer hans
    exact h answer _ ⟨hans, rfl⟩
  · rintro h answer _ ⟨hans, rfl⟩
    exact h answer hans

theorem wp_hist_suffix {ans : (op : Op) → Ret op → Prop} {I : List (Ev Op Ret) → Prop}
    {Q : α → List (Ev Op Ret) → Prop} {history : List (Ev Op Ret)}
    (h : p.wp (histSem ans) I Q history) :
    p.wp (histSem ans) I (fun value history' => Q value history' ∧ history <:+ history')
      history := by
  induction p generalizing history with
  | done value => exact ⟨h, List.suffix_rfl⟩
  | call op next ih =>
    rw [wp_hist_call] at h ⊢
    intro answer hans
    obtain ⟨hinv, hrest⟩ := h answer hans
    refine ⟨hinv, wp_mono (ih answer hrest) (fun _ => id) ?_⟩
    rintro value history' ⟨hQ, hsuffix⟩
    exact ⟨hQ, (List.suffix_cons _ _).trans hsuffix⟩

end Prog

/-! ## Executable semantics -/

/-- A deterministic semantics: the environment settles everything an operation
leaves open by one choice.  An operation that is not enabled blocks its thread,
and `crash` is what a crash of the process leaves of the state. -/
structure Handler (Op : Type) (Ret : Op → Type) (Ch σ : Type) where
  run : (op : Op) → Ch → σ → Ret op × σ
  enabled : (op : Op) → Ch → σ → Bool := fun _ _ _ => true
  crash : σ → σ := fun s => s

end Effects
