/-!
# Methods that change their object in place

A method of a mutable object checks, assigns fields and returns, and it may stop with an
error at any point: what it has assigned before stays.  A method that makes all its checks
first `Implements` a function, and then a call that fails has not touched the object.
-/

namespace Effects

/-- A method on an object of type `σ` with errors of type `ε`. -/
abbrev InPlace (ε σ : Type) : Type → Type := EStateM ε σ

namespace InPlace

variable {ε σ α : Type}

def check : Except ε α → InPlace ε σ α
  | .ok value => pure value
  | .error err => throw err

section Run

variable (s : σ) (err : ε) (g : σ → σ)

@[simp] theorem check_ok_bind_run {β : Type} (value : α) (f : α → InPlace ε σ β) :
    (check (.ok value) >>= f) s = f value s := rfl

@[simp] theorem get_bind_run (f : σ → InPlace ε σ α) : (get >>= f) s = f s s := rfl

@[simp] theorem throw_run : (throw err : InPlace ε σ α) s = .error err s := rfl

@[simp] theorem throw_bind_run (f : Unit → InPlace ε σ α) : (throw err >>= f) s = .error err s :=
  rfl

@[simp] theorem pure_run (value : α) : (pure value : InPlace ε σ α) s = .ok value s := rfl

@[simp] theorem modify_run : (modify g : InPlace ε σ Unit) s = .ok () (g s) := rfl

@[simp] theorem modify_bind_run (f : Unit → InPlace ε σ α) : (modify g >>= f) s = f () (g s) := rfl

end Run

/-- The object after a call, whether the call returned or failed. -/
def after (m : InPlace ε σ Unit) (s : σ) : σ :=
  match m s with
  | .ok _ s' => s'
  | .error _ s' => s'

/-- The method does what the function says, and a refusal leaves the object alone. -/
def Implements (m : InPlace ε σ Unit) (f : σ → Except ε σ) : Prop :=
  ∀ s, m s = match f s with
    | .ok s' => .ok () s'
    | .error err => .error err s

variable {m : InPlace ε σ Unit} {f : σ → Except ε σ} {s s' : σ} {err : ε}

theorem Implements.after_of_ok (h : Implements m f) (hok : f s = .ok s') : after m s = s' := by
  rw [after, h s, hok]

theorem Implements.after_of_error (h : Implements m f) (herr : f s = .error err) :
    after m s = s := by
  rw [after, h s, herr]

theorem Implements.frame (h : Implements m f) (herr : m s = .error err s') : s' = s := by
  rw [h s] at herr
  cases hf : f s with
  | ok s₁ => simp [hf] at herr
  | error err' => simp [hf] at herr; exact herr.2.symm

end InPlace

end Effects
