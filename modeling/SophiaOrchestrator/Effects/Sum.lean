import SophiaOrchestrator.Effects.Pool

/-!
# Two services side by side

Programs over two signatures run in one pool when each of them is read as a program over the
sum of the signatures.  A program of one side performs operations of that side only, and what
it guarantees about its own history it still guarantees.
-/

namespace Effects

variable {Op₁ Op₂ : Type} {Ret₁ : Op₁ → Type} {Ret₂ : Op₂ → Type} {Call₁ Call₂ α : Type}

@[reducible] def SumRet (Ret₁ : Op₁ → Type) (Ret₂ : Op₂ → Type) : Op₁ ⊕ Op₂ → Type
  | .inl op => Ret₁ op
  | .inr op => Ret₂ op

def sumAns (ans₁ : (op : Op₁) → Ret₁ op → Prop) (ans₂ : (op : Op₂) → Ret₂ op → Prop) :
    (op : Op₁ ⊕ Op₂) → SumRet Ret₁ Ret₂ op → Prop
  | .inl op, answer => ans₁ op answer
  | .inr op, answer => ans₂ op answer

def Ev.inl (ev : Ev Op₁ Ret₁) : Ev (Op₁ ⊕ Op₂) (SumRet Ret₁ Ret₂) :=
  ⟨.inl ev.op, ev.ret⟩

def Ev.inr (ev : Ev Op₂ Ret₂) : Ev (Op₁ ⊕ Op₂) (SumRet Ret₁ Ret₂) :=
  ⟨.inr ev.op, ev.ret⟩

namespace Prog

def inl : Prog Op₁ Ret₁ α → Prog (Op₁ ⊕ Op₂) (SumRet Ret₁ Ret₂) α
  | .done value => .done value
  | .call op next => .call (.inl op) fun answer => (next answer).inl

def inr : Prog Op₂ Ret₂ α → Prog (Op₁ ⊕ Op₂) (SumRet Ret₁ Ret₂) α
  | .done value => .done value
  | .call op next => .call (.inr op) fun answer => (next answer).inr

variable {ans₁ : (op : Op₁) → Ret₁ op → Prop} {ans₂ : (op : Op₂) → Ret₂ op → Prop}

/-- A program of the first side keeps its guarantee in a history of the sum. -/
theorem wp_inl {I : List (Ev Op₁ Ret₁) → Prop} {Q : α → List (Ev Op₁ Ret₁) → Prop}
    {p : Prog Op₁ Ret₁ α} {h : List (Ev Op₁ Ret₁)} (hp : p.wp (histSem ans₁) I Q h) :
    p.inl.wp (histSem (sumAns ans₁ ans₂)) (fun h' => ∃ h₁, h' = h₁.map Ev.inl ∧ I h₁)
      (fun value h' => ∃ h₁, h' = h₁.map Ev.inl ∧ Q value h₁) (h.map Ev.inl) := by
  induction p generalizing h with
  | done value => exact ⟨h, rfl, hp⟩
  | call op next ih =>
    refine (wp_hist_call _ _ _).mpr fun answer hans => ?_
    obtain ⟨hI, hrest⟩ := (wp_hist_call op next h).mp hp answer hans
    exact ⟨⟨⟨op, answer⟩ :: h, rfl, hI⟩, ih answer hrest⟩

theorem wp_inr {I : List (Ev Op₂ Ret₂) → Prop} {Q : α → List (Ev Op₂ Ret₂) → Prop}
    {p : Prog Op₂ Ret₂ α} {h : List (Ev Op₂ Ret₂)} (hp : p.wp (histSem ans₂) I Q h) :
    p.inr.wp (histSem (sumAns ans₁ ans₂)) (fun h' => ∃ h₂, h' = h₂.map Ev.inr ∧ I h₂)
      (fun value h' => ∃ h₂, h' = h₂.map Ev.inr ∧ Q value h₂) (h.map Ev.inr) := by
  induction p generalizing h with
  | done value => exact ⟨h, rfl, hp⟩
  | call op next ih =>
    refine (wp_hist_call _ _ _).mpr fun answer hans => ?_
    obtain ⟨hI, hrest⟩ := (wp_hist_call op next h).mp hp answer hans
    exact ⟨⟨⟨op, answer⟩ :: h, rfl, hI⟩, ih answer hrest⟩

end Prog

def sumMain (main₁ : Call₁ → Prog Op₁ Ret₁ Unit) (main₂ : Call₂ → Prog Op₂ Ret₂ Unit) :
    Call₁ ⊕ Call₂ → Prog (Op₁ ⊕ Op₂) (SumRet Ret₁ Ret₂) Unit
  | .inl call => (main₁ call).inl
  | .inr call => (main₂ call).inr

def SumGuarantee (I₁ : Call₁ → List (Ev Op₁ Ret₁) → Prop)
    (I₂ : Call₂ → List (Ev Op₂ Ret₂) → Prop) :
    Call₁ ⊕ Call₂ → List (Ev (Op₁ ⊕ Op₂) (SumRet Ret₁ Ret₂)) → Prop
  | .inl call, h => ∃ h₁, h = h₁.map Ev.inl ∧ I₁ call h₁
  | .inr call, h => ∃ h₂, h = h₂.map Ev.inr ∧ I₂ call h₂

theorem sumMain_wp {main₁ : Call₁ → Prog Op₁ Ret₁ Unit} {main₂ : Call₂ → Prog Op₂ Ret₂ Unit}
    {ans₁ : (op : Op₁) → Ret₁ op → Prop} {ans₂ : (op : Op₂) → Ret₂ op → Prop}
    {I₁ Q₁ : Call₁ → List (Ev Op₁ Ret₁) → Prop} {I₂ Q₂ : Call₂ → List (Ev Op₂ Ret₂) → Prop}
    (h₁ : ∀ call, (main₁ call).wp (Prog.histSem ans₁) (I₁ call) (fun _ h => Q₁ call h) [])
    (h₂ : ∀ call, (main₂ call).wp (Prog.histSem ans₂) (I₂ call) (fun _ h => Q₂ call h) [])
    (call : Call₁ ⊕ Call₂) :
    (sumMain main₁ main₂ call).wp (Prog.histSem (sumAns ans₁ ans₂)) (SumGuarantee I₁ I₂ call)
      (fun _ h => SumGuarantee Q₁ Q₂ call h) [] := by
  cases call with
  | inl call => exact Prog.wp_inl (h₁ call)
  | inr call => exact Prog.wp_inr (h₂ call)

end Effects
