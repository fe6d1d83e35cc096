import SophiaOrchestrator.Phase.ChangeWrites

/-!
# The pointer of a change

The pointer `CurrentPhase` of a change names the last completed phase, and moves
along the canonical order behind the accepted rows of the phases.
The run saves its row before it writes the pointer, and in a sequential history
the copy of the change that it writes is the persisted one.
-/

namespace SophiaOrchestrator

open Effects Prog

variable {cfg : ServiceConfig} {s : Store} {moves : List ServiceMove} {cid : ChangeID}
  {c c' : Change}

/-- Before or at the end of the run an accepted row of the phase was persisted
for the change. -/
def AcceptedEarlier (cfg : ServiceConfig) (s : Store) (moves : List ServiceMove)
    (cid : ChangeID) (pt : PhaseType) : Prop :=
  ∃ earlier, earlier <+: moves ∧ ∃ row ∈ (reach cfg s earlier).state.phases.rows,
    row.changeID = cid ∧ row.pType = pt ∧
      (row.status = .done ∨ row.status = .doneWithConcerns)

theorem AcceptedEarlier.mono {moves' : List ServiceMove} {pt : PhaseType}
    (h : AcceptedEarlier cfg s moves cid pt) (hext : moves <+: moves') :
    AcceptedEarlier cfg s moves' cid pt := by
  obtain ⟨earlier, hearlier, hrow⟩ := h
  exact ⟨earlier, hearlier.trans hext, hrow⟩

theorem acceptedEarlier_of_saved {tid : Nat} {t : ServiceThread} {q : Phase}
    (ht : (reach cfg s moves).threads[tid]? = some t) (hsaved : ⟨.phaseSave q, .ok ()⟩ ∈ t.hist)
    (hallowed : q.status.advanceAllowed = true) :
    AcceptedEarlier cfg s moves q.changeID q.pType := by
  obtain ⟨before, choice, after, _, _, row, rfl, -, -, hrow, hkey, hstatus⟩ :=
    exists_row_of_saved ht hsaved
  simp only [Phase.key, Prod.mk.injEq] at hkey
  refine ⟨before ++ [.step tid choice], ⟨after, by simp⟩, row, hrow, hkey.1, hkey.2.1, ?_⟩
  rw [hstatus]
  exact PhaseStatus.advanceAllowed_iff.mp hallowed

/-! ## One move -/

/-- Where the pointer of a written change goes: it stays, or moves to the next
phase, of which the call has saved an accepted row. -/
theorem Writes.pointer {call : Call} {h : History} (hwrites : Writes call c c' h) :
    c'.currentPhase = c.currentPhase ∨
      (c'.currentPhase.rank = c.currentPhase.rank + 1 ∧
        ∃ q, ⟨.phaseSave q, .ok ()⟩ ∈ h ∧ q.changeID = c.id ∧ q.pType = c'.currentPhase ∧
          q.status.advanceAllowed = true) := by
  have hmoved : ∀ p q : Phase, Working call c p h → Advances p q h →
      p.pType ∈ c.currentPhase.nextValid → c'.currentPhase = p.pType →
      c'.currentPhase.rank = c.currentPhase.rank + 1 ∧
        ∃ q, ⟨.phaseSave q, .ok ()⟩ ∈ h ∧ q.changeID = c.id ∧ q.pType = c'.currentPhase ∧
          q.status.advanceAllowed = true := by
    intro p q hworking hadvances hnext hphase
    refine ⟨by rw [hphase]; exact PhaseType.rank_of_mem_nextValid hnext, q, ?_⟩
    exact ⟨hadvances.saved, hadvances.changeID.trans hworking.changeID.symm,
      hadvances.pType.trans hphase.symm, hadvances.allowed⟩
  cases hwrites with
  | advanced p q hworking hadvances harchive hnext hphase hstatus
  | completed p q hworking hadvances harchive hnext hphase hstatus =>
    exact .inr (hmoved p q hworking hadvances hnext hphase)
  | aborted reason hcall hphase hstatus => exact .inl hphase

/-- One move of a sequential run keeps the pointer of a change, or moves it by
one phase of which an accepted row was persisted before. -/
theorem pointer_move (hseq : RunMeets cfg s sequential moves = true) (m : ServiceMove)
    (hc : c ∈ (reach cfg s moves).state.changes.rows) :
    ∃ c' ∈ (reach cfg s (moves ++ [m])).state.changes.rows, c'.id = c.id ∧
      (c'.currentPhase = c.currentPhase ∨
        (c'.currentPhase.rank = c.currentPhase.rank + 1 ∧
          AcceptedEarlier cfg s moves c.id c'.currentPhase)) := by
  rcases reach_changes_cases cfg s moves m with
    hsame | ⟨tid, t, c₀, c₁, s₁, ht, hopen, hwritten, hsave, hchanges⟩
  · exact ⟨c, by rw [hsame]; exact hc, rfl, .inl rfl⟩
  · refine ⟨Store.savedChange c₁ c, by rw [hchanges]; exact Store.savedChange_mem hsave hc, ?_⟩
    by_cases hid : c.id = c₁.id
    · -- The persisted row is the copy that the call holds.
      have hmem := hwritten.mem_rows hseq ht hopen
      obtain rfl : c = c₀ := (reach cfg s moves).state.changes.eq_of_target_eq hc hmem
        (hid.trans hwritten.id)
      rw [Store.savedChange, if_pos hid]
      refine ⟨rfl, ?_⟩
      rcases hwritten.how.pointer with hstay | ⟨hrank, q, hsaved, hqcid, hqpt, hallowed⟩
      · exact .inl hstay
      · have hearlier := acceptedEarlier_of_saved ht hsaved hallowed
        rw [hqcid, hqpt] at hearlier
        exact .inr ⟨hrank, hearlier⟩
    · rw [Store.savedChange, if_neg hid]
      exact ⟨rfl, .inl rfl⟩

theorem exists_row_before (hseq : RunMeets cfg s sequential moves = true) {m : ServiceMove}
    (hc' : c' ∈ (reach cfg s (moves ++ [m])).state.changes.rows) :
    ∃ c ∈ (reach cfg s moves).state.changes.rows, c.id = c'.id := by
  rcases reach_changes_cases cfg s moves m with
    hsame | ⟨tid, t, c₀, c₁, s₁, ht, hopen, hwritten, hsave, hchanges⟩
  · exact ⟨c', hsame ▸ hc', rfl⟩
  · rcases Store.mem_of_saveChange hsave (hchanges ▸ hc') with ⟨hold, -⟩ | ⟨hid, -⟩
    · exact ⟨c', hold, rfl⟩
    · exact ⟨c₀, hwritten.mem_rows hseq ht hopen, hwritten.id.symm.trans hid.symm⟩

/-! ## Whole runs -/

/-- Every phase up to the pointer of the change has an accepted row that was
persisted before. -/
theorem accepted_up_to_pointer (hinit : ∀ c ∈ s.changes.rows, c.id = cid → c.currentPhase = .init)
    (moves : List ServiceMove) (hseq : RunMeets cfg s sequential moves = true) :
    ∀ c ∈ (reach cfg s moves).state.changes.rows, c.id = cid →
      ∀ pt : PhaseType, 0 < pt.rank → pt.rank ≤ c.currentPhase.rank →
        AcceptedEarlier cfg s moves.dropLast cid pt := by
  induction moves using List.reverseRecOn with
  | nil =>
    intro c hc hcid pt hpos hle
    rw [hinit c hc hcid] at hle
    exact absurd hle (not_le.mpr hpos)
  | append_singleton moves m ih =>
    intro c' hc' hcid pt hpos hle
    have hseq' := RunMeets.of_append hseq
    rw [List.dropLast_concat]
    obtain ⟨c, hc, hid⟩ := exists_row_before hseq' hc'
    obtain ⟨c₁, hc₁, hid₁, hcases⟩ := pointer_move hseq' m hc
    obtain rfl : c₁ = c' :=
      (reach cfg s (moves ++ [m])).state.changes.eq_of_target_eq hc₁ hc' (hid₁.trans hid)
    have hold : pt.rank ≤ c.currentPhase.rank → AcceptedEarlier cfg s moves cid pt := by
      intro hle'
      exact (ih hseq' c hc (hid.trans hcid) pt hpos hle').mono (List.dropLast_prefix moves)
    rcases hcases with hstay | ⟨hrank, hearlier⟩
    · exact hold (hstay ▸ hle)
    · rcases Nat.lt_or_eq_of_le hle with hlt | heq
      · exact hold (by omega)
      · obtain rfl := PhaseType.rank_injective heq
        rw [hid, hcid] at hearlier
        exact hearlier

/-- In every sequential history of a change that starts at `init`, at every move
the pointer stays or moves by one canonical step, and whenever it stands at a
phase after `init`, an accepted row of every phase from explore up to it was
persisted before the move. -/
theorem pointer_moves_in_order (cfg : ServiceConfig) (s : Store) (cid : ChangeID)
    (hinit : ∀ c ∈ s.changes.rows, c.id = cid → c.currentPhase = .init)
    (moves : List ServiceMove) (hseq : RunMeets cfg s sequential moves = true)
    (before after : List ServiceMove) (m : ServiceMove)
    (hmoves : moves = before ++ m :: after) :
    (∀ c ∈ (reach cfg s before).state.changes.rows, c.id = cid →
      ∃ c' ∈ (reach cfg s (before ++ [m])).state.changes.rows, c'.id = cid ∧
        (c'.currentPhase = c.currentPhase ∨
          c'.currentPhase.rank = c.currentPhase.rank + 1)) ∧
    (∀ c' ∈ (reach cfg s (before ++ [m])).state.changes.rows, c'.id = cid →
      ∀ pt : PhaseType, 0 < pt.rank → pt.rank ≤ c'.currentPhase.rank →
        AcceptedEarlier cfg s before cid pt) := by
  have hsplit : moves = (before ++ [m]) ++ after := by simp [hmoves]
  rw [hsplit] at hseq
  have hseq' := RunMeets.of_append hseq
  constructor
  · intro c hc hcid
    obtain ⟨c', hc', hid, hcases⟩ := pointer_move (RunMeets.of_append hseq') m hc
    refine ⟨c', hc', hid.trans hcid, ?_⟩
    rcases hcases with hstay | ⟨hrank, -⟩
    · exact .inl hstay
    · exact .inr hrank
  · have haccepted := accepted_up_to_pointer hinit (before ++ [m]) hseq'
    rw [List.dropLast_concat] at haccepted
    exact haccepted

def exploreStep : ServiceMove :=
  .step 0
    { phaseID := .ok ⟨7⟩
      dispatch := .ok { envelopeRaw := .json (sampleEnvelope .explore .done) } }

def exploreRun : List ServiceMove :=
  .start (.run { changeID := ⟨1⟩, phaseType := .explore }) :: List.replicate 39 exploreStep

/-- After the run the pointer stands at explore, whose row was persisted before. -/
theorem pointer_reaches_explore :
    (∃ c ∈ (reach {} (sampleStore .init) (exploreRun ++ [exploreStep])).state.changes.rows,
        c.id = ⟨1⟩ ∧ c.currentPhase = .explore) ∧
      AcceptedEarlier {} (sampleStore .init) exploreRun ⟨1⟩ .explore := by
  have hrow : ∃ c ∈ (reach {} (sampleStore .init)
      (exploreRun ++ [exploreStep])).state.changes.rows,
      c.id = ⟨1⟩ ∧ c.currentPhase = .explore := by decide +kernel
  refine ⟨hrow, ?_⟩
  obtain ⟨c, hc, hid, hphase⟩ := hrow
  exact (pointer_moves_in_order {} (sampleStore .init) ⟨1⟩ (by simp [sampleStore, sampleChange])
    (exploreRun ++ [exploreStep]) (by decide +kernel) exploreRun [] exploreStep rfl).2 c hc hid
    .explore (by decide) (by rw [hphase])

end SophiaOrchestrator
