import Mathlib.Data.Finset.Card
import Mathlib.Logic.Relation

/-!
# Depth-first search with three marks

A search over the nodes of a finite graph, which marks a node while it works on the nodes
after it and again when it has finished with them.  A node that is met while the search
works on it closes a cycle, and ends the search.
-/

namespace Graph

inductive Mark where
  | unseen
  | visiting
  | done
  deriving DecidableEq

variable {α : Type}

def Edge (next : α → List α) (a b : α) : Prop :=
  b ∈ next a

variable [DecidableEq α]

/-- The search visits some nodes one after another: it ends early, or with other marks. -/
inductive Visits (next : α → List α) : (α → Mark) → List α → Option (α → Mark) → Prop where
  | nil (m : α → Mark) : Visits next m [] (some m)
  | meets {m : α → Mark} {a : α} {rest : List α} (hmark : m a = .visiting) :
      Visits next m (a :: rest) none
  | skips {m : α → Mark} {a : α} {rest : List α} {r : Option (α → Mark)}
      (hmark : m a = .done) (hrest : Visits next m rest r) : Visits next m (a :: rest) r
  | stops {m : α → Mark} {a : α} {rest : List α} (hmark : m a = .unseen)
      (hnext : Visits next (Function.update m a .visiting) (next a) none) :
      Visits next m (a :: rest) none
  | finishes {m m' : α → Mark} {a : α} {rest : List α} {r : Option (α → Mark)}
      (hmark : m a = .unseen)
      (hnext : Visits next (Function.update m a .visiting) (next a) (some m'))
      (hrest : Visits next (Function.update m' a .done) rest r) : Visits next m (a :: rest) r

/-- The search as a function, which also ends early when it is too deep. -/
def visit (next : α → List α) : Nat → (α → Mark) → α → Option (α → Mark)
  | 0, _, _ => none
  | depth + 1, m, a =>
    match m a with
    | .visiting => none
    | .done => some m
    | .unseen =>
      ((next a).foldlM (visit next depth) (Function.update m a .visiting)).map
        fun m' => Function.update m' a .done

def search (next : α → List α) (nodes : List α) : Option (α → Mark) :=
  nodes.foldlM (visit next (nodes.length + 1)) fun _ => .unseen

/-! ## The marks -/

section Advances

omit [DecidableEq α]

structure Advances (m m' : α → Mark) : Prop where
  unseen : ∀ b, m' b = .unseen → m b = .unseen
  visiting : ∀ b, m' b = .visiting ↔ m b = .visiting
  done : ∀ b, m b = .done → m' b = .done

theorem Advances.refl (m : α → Mark) : Advances m m :=
  ⟨fun _ => id, fun _ => Iff.rfl, fun _ => id⟩

theorem Advances.trans {m₁ m₂ m₃ : α → Mark} (h : Advances m₁ m₂) (h' : Advances m₂ m₃) :
    Advances m₁ m₃ where
  unseen b hb := h.unseen b (h'.unseen b hb)
  visiting b := (h'.visiting b).trans (h.visiting b)
  done b hb := h'.done b (h.done b hb)

end Advances

section Visits

variable {next : α → List α} {m m' : α → Mark} {as : List α}

theorem Advances.finish {a : α} (hmark : m a = .unseen)
    (h : Advances (Function.update m a .visiting) m') :
    Advances m (Function.update m' a .done) := by
  constructor
  · intro b hb
    by_cases hba : b = a
    · rw [hba]
      exact hmark
    · rw [Function.update_of_ne hba] at hb
      have hold := h.unseen b hb
      rwa [Function.update_of_ne hba] at hold
  · intro b
    by_cases hba : b = a
    · subst hba
      simp [hmark]
    · rw [Function.update_of_ne hba, h.visiting b, Function.update_of_ne hba]
  · intro b hb
    by_cases hba : b = a
    · rw [hba, Function.update_self]
    · rw [Function.update_of_ne hba]
      refine h.done b ?_
      rwa [Function.update_of_ne hba]

theorem Visits.advances (h : Visits next m as (some m')) : Advances m m' := by
  generalize hr : (some m' : Option (α → Mark)) = r at h
  induction h generalizing m' with
  | nil m =>
    obtain rfl := Option.some.inj hr
    exact .refl m'
  | meets | stops => cases hr
  | skips _ _ ih => exact ih hr
  | finishes hmark _ _ ihnext ihrest =>
    exact (Advances.finish hmark (ihnext rfl)).trans (ihrest hr)

theorem Visits.done_of_mem (h : Visits next m as (some m')) : ∀ a ∈ as, m' a = .done := by
  generalize hr : (some m' : Option (α → Mark)) = r at h
  induction h generalizing m' with
  | nil m => simp
  | meets | stops => cases hr
  | skips hmark hrest ih =>
    subst hr
    intro b hb
    rcases List.mem_cons.mp hb with rfl | hb
    · exact hrest.advances.done b hmark
    · exact ih rfl b hb
  | finishes hmark _ hrest _ ih =>
    subst hr
    intro b hb
    rcases List.mem_cons.mp hb with rfl | hb
    · exact hrest.advances.done b (Function.update_self b _ _)
    · exact ih rfl b hb

/-! ## The bound -/

def unseenCount (nodes : List α) (m : α → Mark) : Nat :=
  (nodes.toFinset.filter fun b => m b = .unseen).card

theorem unseenCount_le_length (nodes : List α) (m : α → Mark) :
    unseenCount nodes m ≤ nodes.length :=
  (Finset.card_filter_le _ _).trans nodes.toFinset_card_le

theorem Advances.unseenCount_le (h : Advances m m') (nodes : List α) :
    unseenCount nodes m' ≤ unseenCount nodes m :=
  Finset.card_le_card (Finset.monotone_filter_right _ fun b _ => h.unseen b)

theorem unseenCount_visiting_lt {nodes : List α} {a : α} (ha : a ∈ nodes)
    (hmark : m a = .unseen) :
    unseenCount nodes (Function.update m a .visiting) < unseenCount nodes m := by
  have herase : (nodes.toFinset.filter fun b => Function.update m a .visiting b = .unseen) =
      (nodes.toFinset.filter fun b => m b = .unseen).erase a := by
    ext b
    by_cases hba : b = a
    · subst hba
      simp
    · simp [hba]
  unfold unseenCount
  rw [herase]
  exact Finset.card_erase_lt_of_mem (by simp [ha, hmark])

/-- A search whose bound exceeds the number of unseen nodes is never cut off. -/
theorem visits_foldlM_visit {nodes : List α} (hclosed : ∀ a ∈ nodes, ∀ b ∈ next a, b ∈ nodes)
    (depth : Nat) (has : ∀ a ∈ as, a ∈ nodes) (hdepth : unseenCount nodes m < depth) :
    Visits next m as (as.foldlM (visit next depth) m) := by
  induction depth generalizing m as with
  | zero => exact absurd hdepth (Nat.not_lt_zero _)
  | succ depth ihdepth =>
    induction as generalizing m with
    | nil => exact .nil m
    | cons a rest ihrest =>
      have ha : a ∈ nodes := has a List.mem_cons_self
      have hrest : ∀ b ∈ rest, b ∈ nodes := fun b hb => has b (List.mem_cons_of_mem a hb)
      rw [List.foldlM_cons]
      cases hmark : m a with
      | visiting =>
        simp only [visit, hmark]
        exact .meets hmark
      | done =>
        simp only [visit, hmark]
        exact .skips hmark (ihrest hrest hdepth)
      | unseen =>
        have hless := unseenCount_visiting_lt ha hmark
        have hnext := ihdepth (hclosed a ha) (hless.trans_le (Nat.le_of_lt_succ hdepth))
        simp only [visit, hmark]
        cases hresult : (next a).foldlM (visit next depth) (Function.update m a .visiting) with
        | none =>
          rw [hresult] at hnext
          exact .stops hmark hnext
        | some m' =>
          rw [hresult] at hnext
          have hcount := (Advances.finish hmark hnext.advances).unseenCount_le nodes
          exact .finishes hmark hnext (ihrest hrest (hcount.trans_lt hdepth))

/-! ## Cycles -/

/-- If the search meets a node that it works on, there is a cycle.  Every node that it works
on leads to the next node that it visits. -/
theorem Visits.closes_cycle (h : Visits next m as none)
    (habove : ∀ a ∈ as, ∀ b, m b = .visiting → Relation.TransGen (Edge next) b a) :
    ∃ a, Relation.TransGen (Edge next) a a := by
  generalize hr : (none : Option (α → Mark)) = r at h
  have hbelow : ∀ {m : α → Mark} {a : α}, (∀ b, m b = .visiting →
      Relation.TransGen (Edge next) b a) → ∀ c ∈ next a, ∀ b,
        Function.update m a .visiting b = .visiting → Relation.TransGen (Edge next) b c := by
    intro m a hab c hc b hb
    by_cases hba : b = a
    · subst hba
      exact .single hc
    · rw [Function.update_of_ne hba] at hb
      exact (hab b hb).tail hc
  induction h with
  | nil m => cases hr
  | meets hmark => exact ⟨_, habove _ List.mem_cons_self _ hmark⟩
  | skips _ _ ih => exact ih (fun b hb => habove b (List.mem_cons_of_mem _ hb)) hr
  | stops hmark _ ih => exact ih (hbelow (habove _ List.mem_cons_self)) rfl
  | finishes hmark hnext _ _ ih =>
    refine ih (fun c hc b hb => habove c (List.mem_cons_of_mem _ hc) b ?_) hr
    exact ((Advances.finish hmark hnext.advances).visiting b).mp hb

/-- A node that the search has finished with leads to no infinite path. -/
theorem Visits.acc_of_done (h : Visits next m as (some m'))
    (hacc : ∀ a, m a = .done → Acc (fun b a => Edge next a b) a) :
    ∀ a, m' a = .done → Acc (fun b a => Edge next a b) a := by
  generalize hr : (some m' : Option (α → Mark)) = r at h
  induction h generalizing m' with
  | nil m =>
    obtain rfl := Option.some.inj hr
    exact hacc
  | meets | stops => cases hr
  | skips _ _ ih => exact ih hacc hr
  | @finishes m m₁ a rest r hmark hnext _ ihnext ihrest =>
    have hbelow : ∀ b, m₁ b = .done → Acc (fun b a => Edge next a b) b := by
      refine ihnext (fun b hb => hacc b ?_) rfl
      by_cases hba : b = a
      · simp [hba] at hb
      · rwa [Function.update_of_ne hba] at hb
    refine ihrest (fun b hb => ?_) hr
    by_cases hba : b = a
    · subst hba
      exact ⟨b, fun c hc => hbelow c (hnext.done_of_mem c hc)⟩
    · rw [Function.update_of_ne hba] at hb
      exact hbelow b hb

end Visits

omit [DecidableEq α] in
theorem not_transGen_self_of_acc {next : α → List α} {a : α}
    (hacc : Acc (fun b a => Edge next a b) a) : ¬Relation.TransGen (Edge next) a a := by
  induction hacc with
  | intro a _ ih =>
    intro hcycle
    obtain ⟨b, hab, hba⟩ := Relation.TransGen.head'_iff.mp hcycle
    exact ih b hab (Relation.TransGen.tail' hba hab)

theorem visits_search {next : α → List α} {nodes : List α}
    (hclosed : ∀ a ∈ nodes, ∀ b ∈ next a, b ∈ nodes) :
    Visits next (fun _ => .unseen) nodes (search next nodes) :=
  visits_foldlM_visit hclosed _ (fun _ => id)
    (Nat.lt_succ_of_le (unseenCount_le_length nodes fun _ => .unseen))

/-- The search over all nodes ends early exactly if there is a cycle. -/
theorem search_eq_none_iff {next : α → List α} {nodes : List α}
    (hedges : ∀ a b, b ∈ next a → a ∈ nodes ∧ b ∈ nodes) :
    search next nodes = none ↔ ∃ a, Relation.TransGen (Edge next) a a := by
  have hvisits : Visits next (fun _ => .unseen) nodes (search next nodes) :=
    visits_search fun a _ b hb => (hedges a b hb).2
  constructor
  · intro hnone
    rw [hnone] at hvisits
    exact hvisits.closes_cycle fun _ _ _ hb => by cases hb
  · rintro ⟨a, hcycle⟩
    cases hsearch : search next nodes with
    | none => rfl
    | some m =>
      rw [hsearch] at hvisits
      obtain ⟨b, hab, -⟩ := Relation.TransGen.head'_iff.mp hcycle
      have hdone := hvisits.done_of_mem a (hedges a b hab).1
      have hacc := hvisits.acc_of_done (fun _ hb => by cases hb) a hdone
      exact absurd hcycle (not_transGen_self_of_acc hacc)

end Graph
