import SophiaOrchestrator.Effects.Prog

/-!
# Quiet operations

Most operations of a program need no justification by its history.  When the rest
is kept apart, a program that uses only quiet operations is dealt with by what it
may return, and what a proof has to carry over it is that the history has grown by
quiet operations.
-/

namespace Effects

variable {Op : Type} {Ret : Op → Type} {α β : Type}

/-- The later history adds quiet operations only. -/
def Extends (quiet : Op → Bool) (h h' : List (Ev Op Ret)) : Prop :=
  ∃ added, h' = added ++ h ∧ ∀ ev ∈ added, quiet ev.op = true

namespace Extends

variable {quiet : Op → Bool} {h h₁ h₂ : List (Ev Op Ret)}

theorem refl (h : List (Ev Op Ret)) : Extends quiet h h :=
  ⟨[], rfl, by simp⟩

theorem trans (hfirst : Extends quiet h h₁) (hsecond : Extends quiet h₁ h₂) :
    Extends quiet h h₂ := by
  obtain ⟨added, rfl, hquiet⟩ := hfirst
  obtain ⟨added', rfl, hquiet'⟩ := hsecond
  refine ⟨added' ++ added, (List.append_assoc _ _ _).symm, ?_⟩
  intro ev hev
  exact (List.mem_append.mp hev).elim (hquiet' ev) (hquiet ev)

theorem cons (ev : Ev Op Ret) (hquiet : quiet ev.op = true) : Extends quiet h (ev :: h) :=
  ⟨[ev], rfl, by simpa using hquiet⟩

theorem suffix (hext : Extends quiet h h₁) : h <:+ h₁ := by
  obtain ⟨added, rfl, -⟩ := hext
  exact List.suffix_append _ _

theorem eq_of_step {γ : Type} {f : List (Ev Op Ret) → γ}
    (hf : ∀ ev past, quiet ev.op = true → f (ev :: past) = f past)
    (hext : Extends quiet h h₁) : f h₁ = f h := by
  obtain ⟨added, rfl, hquiet⟩ := hext
  induction added with
  | nil => rfl
  | cons ev added ih =>
    rw [List.cons_append, hf _ _ (hquiet ev List.mem_cons_self)]
    exact ih fun ev' hev' => hquiet ev' (List.mem_cons_of_mem ev hev')

theorem mem_of_not_quiet (hext : Extends quiet h h₁) {ev : Ev Op Ret} (hmem : ev ∈ h₁)
    (hnot : quiet ev.op = false) : ev ∈ h := by
  obtain ⟨added, rfl, hquiet⟩ := hext
  rcases List.mem_append.mp hmem with hadded | hold
  · rw [hquiet ev hadded] at hnot
    cases hnot
  · exact hold

end Extends

namespace Prog

variable {ans : (op : Op) → Ret op → Prop} {quiet : Op → Bool}

variable {p : Prog Op Ret α} {Q : α → Prop} {R : β → List (Ev Op Ret) → Prop}
  {h' : List (Ev Op Ret)}
  {I : List (Ev Op Ret) → Prop}

theorem wp_of_uses (hI : ∀ ev past, quiet ev.op = true → I (ev :: past))
    {R : α → List (Ev Op Ret) → Prop} {h : List (Ev Op Ret)}
    (huses : p.Uses ans (fun op => quiet op = true) Q)
    (hR : ∀ value h', Q value → Extends quiet h h' → R value h') : p.wp (histSem ans) I R h := by
  induction p generalizing h with
  | done value => exact hR value h huses (.refl h)
  | call op next ih =>
    rw [wp_hist_call]
    intro answer hans
    refine ⟨hI ⟨op, answer⟩ h huses.1, ih answer (huses.2 answer hans) ?_⟩
    intro value h' hQ hext
    exact hR value h' hQ ((Extends.cons ⟨op, answer⟩ huses.1).trans hext)

theorem wp_quiet_bind (hI : ∀ ev past, quiet ev.op = true → I (ev :: past)) {f : α → Prog Op Ret β}
    {h : List (Ev Op Ret)} (huses : p.Uses ans (fun op => quiet op = true) Q)
    (hf : ∀ value h', Q value → Extends quiet h h' → (f value).wp (histSem ans) I R h') :
    (p >>= f).wp (histSem ans) I R h :=
  wp_bind (wp_of_uses hI huses hf)

theorem wp_perform_bind {op : Op} {f : Ret op → Prog Op Ret β} {h : List (Ev Op Ret)}
    (hop : ∀ answer, ans op answer → I (⟨op, answer⟩ :: h))
    (hf : ∀ answer, ans op answer → (f answer).wp (histSem ans) I R (⟨op, answer⟩ :: h)) :
    (perform op >>= f).wp (histSem ans) I R h :=
  (wp_hist_call op f h).mpr fun answer hans => ⟨hop answer hans, hf answer hans⟩

/-! ## What was added to a history -/

/-- The later history adds operations that satisfied `I` when they were performed. -/
structure Since (I : List (Ev Op Ret) → Prop) (h h' : List (Ev Op Ret)) : Prop where
  suffix : h <:+ h'
  added : ∀ ev ∈ h', ev ∈ h ∨ ∃ past, I (ev :: past)

theorem Since.refl (h : List (Ev Op Ret)) : Since I h h :=
  ⟨List.suffix_rfl, fun _ hmem => .inl hmem⟩

theorem Since.cons {h : List (Ev Op Ret)} {ev : Ev Op Ret} (hsince : Since I h h')
    (hI : I (ev :: h')) : Since I h (ev :: h') where
  suffix := hsince.suffix.trans (List.suffix_cons _ _)
  added := by
    intro e he
    rcases List.mem_cons.mp he with rfl | hold
    · exact .inr ⟨h', hI⟩
    · exact hsince.added e hold

def Newest (allowed : Op → Prop) : List (Ev Op Ret) → Prop
  | [] => True
  | ev :: _ => allowed ev.op

theorem wp_newest {allowed : Op → Prop} (huses : p.Uses ans allowed Q) (h : List (Ev Op Ret)) :
    p.wp (histSem ans) (Newest allowed) (fun value _ => Q value) h := by
  induction p generalizing h with
  | done value => exact huses
  | call op next ih =>
    rw [wp_hist_call]
    exact fun answer hans => ⟨huses.1, ih answer (huses.2 answer hans) _⟩

/-- A program keeps what follows from its invariant and from everything that it has
added to its history. -/
theorem wp_since {J : List (Ev Op Ret) → Prop} {Q R : α → List (Ev Op Ret) → Prop}
    {h : List (Ev Op Ret)} (hp : p.wp (histSem ans) I Q h)
    (hJ : ∀ ev past, Since I h past → I (ev :: past) → J (ev :: past))
    (hR : ∀ value h', Since I h h' → Q value h' → R value h') : p.wp (histSem ans) J R h := by
  -- The induction is on the program, for any history that it has reached from `h`.
  suffices hrest : ∀ h', Since I h h' → p.wp (histSem ans) I Q h' → p.wp (histSem ans) J R h' from
    hrest h (.refl h) hp
  clear hp
  induction p with
  | done value => exact fun h' hsince hQ => hR value h' hsince hQ
  | call op next ih =>
    intro h' hsince hp
    rw [wp_hist_call] at hp ⊢
    intro answer hans
    obtain ⟨hI, hnext⟩ := hp answer hans
    exact ⟨hJ _ h' hsince hI, ih answer _ (hsince.cons hI) hnext⟩

/-! ## Ends of a program -/

/-- The program, started with one history, can end with a value and a later
history. -/
inductive Ends : Prog Op Ret α → List (Ev Op Ret) → α → List (Ev Op Ret) → Prop where
  | done (value : α) (h : List (Ev Op Ret)) : Ends (.done value) h value h
  | call {op : Op} {next : Ret op → Prog Op Ret α} {h h' : List (Ev Op Ret)} {value : α}
      (answer : Ret op) (hrest : Ends (next answer) (⟨op, answer⟩ :: h) value h') :
      Ends (.call op next) h value h'

theorem Ends.suffix {h : List (Ev Op Ret)} {value : α} (hends : p.Ends h value h') : h <:+ h' := by
  induction hends with
  | done value h => exact List.suffix_rfl
  | call answer hrest ih => exact (List.suffix_cons _ _).trans ih

theorem Ends.of_uses {h : List (Ev Op Ret)} {value : α} {allowed : Op → Prop}
    (hends : p.Ends h value h') (huses : p.Uses ans allowed Q)
    (hans : ∀ ev ∈ h', ans ev.op ev.ret) : Q value := by
  induction hends with
  | done value h => exact huses
  | call answer hrest ih =>
    exact ih (huses.2 answer (hans _ (hrest.suffix.subset List.mem_cons_self))) hans

/-! ## Given answers -/

/-- The execution of the program by an environment that answers each operation as it likes,
knowing everything that was answered before. -/
def answered (env : List (Ev Op Ret) → (op : Op) → Ret op) :
    Prog Op Ret α → List (Ev Op Ret) → α × List (Ev Op Ret)
  | .done value, h => (value, h)
  | .call op next, h => (next (env h op)).answered env (⟨op, env h op⟩ :: h)

variable {env : List (Ev Op Ret) → (op : Op) → Ret op}

theorem wp.answered {Q : α → List (Ev Op Ret) → Prop} {h : List (Ev Op Ret)}
    (hp : p.wp (histSem ans) I Q h) (henv : ∀ h op, ans op (env h op)) :
    Q (p.answered env h).1 (p.answered env h).2 := by
  induction p generalizing h with
  | done value => exact hp
  | call op next ih =>
    rw [wp_hist_call] at hp
    exact ih (env h op) (hp (env h op) (henv h op)).2

theorem answered_bind (p : Prog Op Ret α) (f : α → Prog Op Ret β) (h : List (Ev Op Ret)) :
    (p >>= f).answered env h = (f (p.answered env h).1).answered env (p.answered env h).2 := by
  induction p generalizing h with
  | done value => rfl
  | call op next ih => exact ih (env h op) _

end Prog

end Effects
