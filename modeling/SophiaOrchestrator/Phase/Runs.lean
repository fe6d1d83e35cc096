import SophiaOrchestrator.Effects.Sequential
import SophiaOrchestrator.Phase.Guarantee

/-!
# Runs of the service

A run starts calls, lets them perform their operations one at a time in any
interleaving, and may crash the process at any point.  This module instantiates
the pools of the effects library with the programs of the service and says what
one operation of a call can do to the tables.
-/

namespace SophiaOrchestrator

open Effects Prog

variable {cfg : ServiceConfig} {s s' : Store} {ev : Event} {past : History} {tid : Nat} {op : Op}
  {id : ChangeID} {p q : Phase}

abbrev ServicePool : Type := Pool Op Op.Ret Call Store

variable {Inv : ServicePool → Prop}

abbrev ServiceThread : Type := Thread Op Op.Ret Call

variable {t : ServiceThread}

abbrev ServiceMove : Type := Move Call Choice

variable {moves : List ServiceMove}

/-- The pool reached from the database `s` by a run. -/
def reach (cfg : ServiceConfig) (s : Store) (moves : List ServiceMove) : ServicePool :=
  (Pool.init s).run handler (main cfg) moves

theorem reach_concat (cfg : ServiceConfig) (s : Store) (moves : List ServiceMove)
    (m : ServiceMove) :
    reach cfg s (moves ++ [m]) = (reach cfg s moves).move handler (main cfg) m :=
  Pool.run_concat _ moves m

/-- Every operation in the history of a call is justified by the older ones. -/
theorem justified_of_suffix (ht : t ∈ (reach cfg s moves).threads)
    (hsuffix : ev :: past <:+ t.hist) :
    Justified cfg t.call ev past := by
  have hkeeps := Pool.run_keeps (H := handler) handle_answers (main_justified cfg)
    (π := (Pool.init s : ServicePool)) (by simp) moves
  exact (hkeeps t ht).past (ev :: past) hsuffix (List.cons_ne_nil ev past)

theorem suffix_of_mem {h : History} (hev : ev ∈ h) :
    ∃ past, ev :: past <:+ h := by
  obtain ⟨newer, past, rfl⟩ := List.append_of_mem hev
  exact ⟨past, List.suffix_append newer (ev :: past)⟩

def RunMeets (cfg : ServiceConfig) (s : Store) (ok : ServicePool → ServiceMove → Bool)
    (moves : List ServiceMove) : Bool :=
  (Pool.init s : ServicePool).Meets handler (main cfg) ok moves

theorem RunMeets.of_append {ok : ServicePool → ServiceMove → Bool} {before after : List ServiceMove}
    (h : RunMeets cfg s ok (before ++ after) = true) : RunMeets cfg s ok before = true := by
  rw [RunMeets, Pool.meets_append, Bool.and_eq_true] at h
  exact h.1

/-- The calls follow one another: a call starts only when every earlier one has
finished or was stopped by a crash. -/
def sequential (π : ServicePool) : ServiceMove → Bool
  | .start _ => π.idle
  | .step _ _ | .crash => true

/-- The induction over a run of the service: the step case knows how the
performed operation is justified. -/
theorem reach_induction (ok : ServicePool → ServiceMove → Bool) (hinit : Inv (Pool.init s))
    (hstart : ∀ π call, ok π (.start call) = true → Inv π →
      Inv { π with threads := π.threads ++ [Thread.spawn (main cfg) call] })
    (hcrash : ∀ π, ok π .crash = true → Inv π →
      Inv { π with threads := π.threads.map Thread.stop })
    (hstep : ∀ π tid choice call op next hist,
      π.threads[tid]? = some ⟨call, .call op next, hist⟩ →
      (∀ ev past, ev :: past <:+ hist → Justified cfg call ev past) →
      Justified cfg call ⟨op, (handle op choice π.state).1⟩ hist →
      ok π (.step tid choice) = true → Inv π →
      Inv (π.perform handler tid call op next hist choice))
    (moves : List ServiceMove) (hok : RunMeets cfg s ok moves = true) :
    Inv (reach cfg s moves) := by
  refine Pool.run_induction (I := Good cfg) handle_answers (main_justified cfg) hstart
    hcrash ?_ (by simp) hinit moves hok
  intro π tid choice call op next hist hthread _ hkeeps hgood hm hinv
  refine hstep π tid choice call op next hist hthread ?_ hgood hm hinv
  intro ev past hsuffix
  exact hkeeps.past (ev :: past) hsuffix (List.cons_ne_nil ev past)

/-- The induction over a sequential run of the service, in which a call starts
only when no other one is unfinished: `G` is an invariant of the database, and
`F` ties the history of the unfinished call to the database. -/
theorem sequential_reach_induction (ok : ServicePool → ServiceMove → Bool) {G : Store → Prop}
    {F : Call → History → Store → Prop}
    (hidle : ∀ π call, ok π (.start call) = true → π.idle = true)
    (hstart : ∀ π call, ok π (.start call) = true → G π.state → F call [] π.state)
    (hstep : ∀ π tid choice call op next hist,
      π.threads[tid]? = some ⟨call, .call op next, hist⟩ →
      (∀ ev past, ev :: past <:+ hist → Justified cfg call ev past) →
      Justified cfg call ⟨op, (handle op choice π.state).1⟩ hist →
      ok π (.step tid choice) = true → G π.state → F call hist π.state →
      G (handle op choice π.state).2 ∧
        F call (⟨op, (handle op choice π.state).1⟩ :: hist) (handle op choice π.state).2)
    (hs : G s) (moves : List ServiceMove) (hok : RunMeets cfg s ok moves = true) :
    Pool.SequentialInv G F (reach cfg s moves) := by
  refine Pool.sequential_induction (I := Good cfg) handle_answers (main_justified cfg)
    hidle hstart (fun _ h => h) ?_ hs moves hok
  intro π tid choice call op next hist hthread hkeeps hgood hmove hG hF
  refine hstep π tid choice call op next hist hthread ?_ hgood hmove hG hF
  intro ev past hsuffix
  exact hkeeps.past (ev :: past) hsuffix (List.cons_ne_nil ev past)

theorem reach_invariant (hinit : Inv (Pool.init s))
    (hstart : ∀ π call, Inv π →
      Inv { π with threads := π.threads ++ [Thread.spawn (main cfg) call] })
    (hcrash : ∀ π, Inv π → Inv { π with threads := π.threads.map Thread.stop })
    (hstep : ∀ π tid choice call op next hist,
      π.threads[tid]? = some ⟨call, .call op next, hist⟩ →
      Justified cfg call ⟨op, (handle op choice π.state).1⟩ hist → Inv π →
      Inv (π.perform handler tid call op next hist choice))
    (moves : List ServiceMove) : Inv (reach cfg s moves) := by
  refine reach_induction (fun _ _ => true) hinit ?_ ?_ ?_ moves (Pool.meets_true _ moves)
  · intro π call _ hinv
    exact hstart π call hinv
  · intro π _ hinv
    exact hcrash π hinv
  · intro π tid choice call op next hist hthread _ hjust _ hinv
    exact hstep π tid choice call op next hist hthread hjust hinv

/-- Every operation in the history of a call was performed by a step of the
run, in a pool in which the call had the older part of its history. -/
theorem exists_step_of_suffix (h : (reach cfg s moves).threads[tid]? = some t)
    (hsuffix : ev :: past <:+ t.hist) :
    ∃ before choice after next, moves = before ++ .step tid choice :: after ∧
      (reach cfg s before).threads[tid]? = some ⟨t.call, .call ev.op next, past⟩ ∧
      ev.ret = (handle ev.op choice (reach cfg s before).state).1 ∧
      (reach cfg s (before ++ [.step tid choice])).state =
        (handle ev.op choice (reach cfg s before).state).2 := by
  obtain ⟨before, choice, after, next, hmoves, hthread, hret, hrun⟩ :=
    Pool.exists_move_of_suffix h hsuffix
  exact ⟨before, choice, after, next, hmoves, hthread, hret, congrArg Pool.state hrun⟩

theorem justified_next (ht : t ∈ (reach cfg s moves).threads) {next : op.Ret → Program Unit}
    (hnext : t.prog = .call op next) {answer : op.Ret} (hanswer : op.Answers answer) :
    Justified cfg t.call ⟨op, answer⟩ t.hist := by
  have hkeeps := Pool.run_keeps (H := handler) handle_answers (main_justified cfg)
    (π := (Pool.init s : ServicePool)) (by simp) moves
  have hrest := (hkeeps t ht).rest
  rw [hnext] at hrest
  exact ((wp_hist_call op next t.hist).mp hrest answer hanswer).1

/-! ## What one operation does to the tables -/

theorem handle_phases_of_not_savesPhase (h : op.savesPhase = false) (ch : Choice) (s : Store) :
    (handle op ch s).2.phases = s.phases := by
  cases op with
  | phaseSave p => cases h
  | changeSave c =>
    rcases Fault.write_eq ch.fault s (s.saveChange c) with heq | hok
    · exact congrArg Store.phases heq
    · exact (Store.saveChange_cases hok).1
  | saveCompletedWithOutbox c ev =>
    rcases Fault.write_eq ch.fault s (s.saveCompletedWithOutbox c ev) with heq | hok
    · exact congrArg Store.phases heq
    · obtain ⟨-, -, -, hphases, -⟩ := Store.saveCompletedWithOutbox_cases hok
      exact hphases
  | _ => exact (handle_of_not_isWrite (by rfl) ch s).2.1

theorem handle_changes_of_not_writesChange (h : op.writesChange = false) (ch : Choice) (s : Store) :
    (handle op ch s).2.changes = s.changes ∧ (handle op ch s).2.outbox = s.outbox := by
  cases op with
  | changeSave c | saveCompletedWithOutbox c ev => cases h
  | phaseSave p =>
    rcases Fault.write_eq ch.fault s (s.savePhase p) with heq | hok
    · exact ⟨congrArg Store.changes heq, congrArg Store.outbox heq⟩
    · exact ⟨(Store.savePhase_cases hok).1, (Store.savePhase_cases hok).2.1⟩
  | _ => exact ⟨(handle_of_not_isWrite (by rfl) ch s).1,
      (handle_of_not_isWrite (by rfl) ch s).2.2⟩

theorem exists_change_of_saveChange {c : Change} (hsave : s.saveChange c = .ok s')
    (h : ∃ r ∈ s.changes.rows, r.id = id) :
    ∃ r ∈ s'.changes.rows, r.id = id := by
  obtain ⟨r, hr, rfl⟩ := h
  obtain ⟨-, -, -, ⟨-, hrows⟩ | ⟨-, hrows⟩⟩ := Store.saveChange_cases hsave
  · refine ⟨Store.savedChange c r, ?_, ?_⟩
    · rw [hrows]
      exact List.mem_map_of_mem hr
    · unfold Store.savedChange
      split <;> rfl
  · exact ⟨r, by rw [hrows]; exact List.mem_append_left _ hr, rfl⟩

theorem exists_change_handle (h : ∃ r ∈ s.changes.rows, r.id = id) (op : Op) (ch : Choice) :
    ∃ r ∈ (handle op ch s).2.changes.rows, r.id = id := by
  cases hwrites : op.writesChange with
  | false =>
    rw [(handle_changes_of_not_writesChange hwrites ch s).1]
    exact h
  | true =>
    cases op with
    | changeSave c =>
      rcases Fault.write_eq ch.fault s (s.saveChange c) with heq | hok
      · exact (congrArg (fun s : Store => ∃ r ∈ s.changes.rows, r.id = id) heq).mpr h
      · exact exists_change_of_saveChange hok h
    | saveCompletedWithOutbox c ev =>
      rcases Fault.write_eq ch.fault s (s.saveCompletedWithOutbox c ev) with heq | hok
      · exact (congrArg (fun s : Store => ∃ r ∈ s.changes.rows, r.id = id) heq).mpr h
      · obtain ⟨s₁, hsave, hchanges, -⟩ := Store.saveCompletedWithOutbox_cases hok
        have hkept := exists_change_of_saveChange hsave h
        rw [← hchanges] at hkept
        exact hkept
    | _ => cases hwrites

def HasRow (s : Store) (p : Phase) : Prop :=
  ∃ r ∈ s.phases.rows, r.key = p.key ∧ r.id = p.id

theorem HasRow.savePhase (h : HasRow s p) (hsave : s.savePhase q = .ok s') : HasRow s' p := by
  obtain ⟨r, hr, hkey, hid⟩ := h
  obtain ⟨-, -, -, -, ⟨-, hrows⟩ | ⟨-, -, -, hrows⟩⟩ := Store.savePhase_cases hsave
  · refine ⟨Store.savedRow q r, ?_, ?_⟩
    · rw [hrows]
      exact List.mem_map_of_mem hr
    · unfold Store.savedRow
      split
      · next hsame => exact ⟨(hsame.symm.trans hkey), hid⟩
      · exact ⟨hkey, hid⟩
  · exact ⟨r, by rw [hrows]; exact List.mem_append_left _ hr, hkey, hid⟩

theorem HasRow.handle (h : HasRow s p) (op : Op) (ch : Choice) :
    HasRow (SophiaOrchestrator.handle op ch s).2 p := by
  cases hsaves : op.savesPhase with
  | false =>
    unfold HasRow
    rw [handle_phases_of_not_savesPhase hsaves]
    exact h
  | true =>
    cases op with
    | phaseSave q =>
      rcases Fault.write_eq ch.fault s (s.savePhase q) with heq | hok
      · exact (congrArg (HasRow · p) heq).mpr h
      · exact h.savePhase hok
    | _ => cases hsaves

theorem exists_row_of_saved (ht : (reach cfg s moves).threads[tid]? = some t)
    (hsaved : ⟨.phaseSave q, .ok ()⟩ ∈ t.hist) :
    ∃ before choice after next older row, moves = before ++ .step tid choice :: after ∧
      (reach cfg s before).threads[tid]? = some ⟨t.call, .call (.phaseSave q) next, older⟩ ∧
      (handle (.phaseSave q) choice (reach cfg s before).state).1 = .ok () ∧
      row ∈ (reach cfg s (before ++ [.step tid choice])).state.phases.rows ∧
      row.key = q.key ∧ row.status = q.status := by
  obtain ⟨past, hsuffix⟩ := suffix_of_mem hsaved
  obtain ⟨before, choice, after, next, hmoves, hthread, hret, hstate⟩ :=
    exists_step_of_suffix ht hsuffix
  obtain ⟨row, hrow, hcolumns⟩ := Store.exists_row_of_savePhase (Fault.write_ok hret.symm)
  refine ⟨before, choice, after, next, past, row, hmoves, hthread, hret.symm, ?_, ?_⟩
  · rw [hstate]
    exact hrow
  · rw [hcolumns]
    exact ⟨rfl, rfl⟩

theorem event_eq_handle {op₁ : Op} {r₁ : op₁.Ret} {ch : Choice}
    (h : (⟨op₁, r₁⟩ : Event) = ⟨op, (handle op ch s).1⟩) :
    op = op₁ ∧ r₁ = (handle op₁ ch s).1 := by
  have hop : op₁ = op := congrArg Ev.op h
  subst hop
  exact ⟨rfl, eq_of_heq (Ev.mk.inj h).2⟩

/-! ## A database for concrete runs -/

def sampleStore (current : PhaseType) : Store where
  changes := ⟨[sampleChange current], by simp, by simp⟩
  phases := Sql.Table.empty
  outbox := Sql.Table.empty
  audit := []
  phase_change := by simp

def sampleEnvelope (pt : PhaseType) (status : EnvelopeStatus) : Envelope where
  schemaVersion := schemaVersionV1
  phase := pt.toString
  changeName := "add-login"
  project := "web"
  status := status
  confidence := mkRat 95 100
  executiveSummary := ""

def verifyThenArchive : List ServiceMove :=
  .start (.run { changeID := ⟨1⟩, phaseType := .verify }) ::
    List.replicate 40 (.step 0
      { phaseID := .ok ⟨7⟩
        dispatch := .ok { envelopeRaw := .json (sampleEnvelope .verify .done) } }) ++
  .start (.run { changeID := ⟨1⟩, phaseType := .archive }) ::
    List.replicate 45 (.step 1
      { phaseID := .ok ⟨8⟩
        dispatch := .ok { envelopeRaw := .json (sampleEnvelope .archive .done) } })

end SophiaOrchestrator
