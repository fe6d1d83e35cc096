import SophiaOrchestrator.Outbox.Delivery

/-!
# Rows held by relays

A tick holds a row from its claim until it marks or reschedules the row.  The locks of
`ClaimDue` end with the statement, so nothing keeps a second relay from claiming a row that
is held, and the second one to reschedule it writes an attempt count computed from a stale
copy.
-/

namespace SophiaOrchestrator

namespace Relay

open Effects Prog Sql

variable {Body : Type}

variable {t : OutboxTable Body} {ev : OutboxEvent Body} {th : RelayThread Body}

/-- The claimed copies that the history has neither marked nor rescheduled yet. -/
def held : History Body → List (OutboxEvent Body)
  | [] => []
  | ⟨.claimDue _ _, .ok events⟩ :: past => events ++ held past
  | ⟨.reschedule id _ _, _⟩ :: past => (held past).filter fun ev => ev.id ≠ id
  | ⟨.markDelivered id _, _⟩ :: past => (held past).filter fun ev => ev.id ≠ id
  | _ :: past => held past

/-- The copies a tick holds; one that has ended or crashed holds none. -/
def holds (th : RelayThread Body) : List (OutboxEvent Body) :=
  if th.prog.isDone then [] else held th.hist

/-- The row is out of reach of a claim: it is locked, or it is not due. -/
def outOfReach (t : OutboxTable Body) (now : Time) (locked : List OutboxID) (id : OutboxID) :
    Bool :=
  decide (id ∈ locked) || t.rows.all fun r => decide (r.id ≠ id) || !OutboxTable.due now r

/-- A claim is made only while every row that a tick holds is locked or not due. -/
def skipsHeld (π : RelayPool Body) : RelayMove Body → Bool
  | .step tid choice =>
    match π.threads[tid]? with
    | some ⟨_, .call (.claimDue _ now) _, _⟩ =>
      π.threads.all fun th => (holds th).all fun ev => outOfReach π.state now choice.locked ev.id
    | _ => true
  | _ => true

/-! ## What a tick writes -/

/-- A tick writes to rows it holds, and an attempt count that is one more than its copy's. -/
def WritesHeld : History Body → Prop
  | ⟨.reschedule id attempts _, _⟩ :: past =>
    ∃ ev ∈ held past, ev.id = id ∧ attempts = ev.attempts + 1
  | ⟨.markDelivered id _, _⟩ :: past => ∃ ev ∈ held past, ev.id = id
  | _ => True

def Distinct : (op : Op Body) → op.Ret → Prop
  | .claimDue _ _, .ok events => (events.map (·.id)).Nodup
  | _, _ => True

theorem handle_distinct (op : Op Body) (ch : Choice) (t : OutboxTable Body) :
    Distinct op (handle op ch t).1 := by
  cases op with
  | claimDue limit now =>
    cases hanswer : (handle (.claimDue limit now) ch t).1 with
    | error err => trivial
    | ok events =>
      obtain rfl : t.claimDue limit now ch.locked = events := by
        simpa using Fault.read_eq_ok hanswer
      exact nodup_map_orderLimit (t.target_nodup.sublist (List.filter_sublist.map _)) limit
  | _ => trivial

theorem writesHeld_call {α : Type} {Q : α → History Body → Prop} {h : History Body}
    {op : Op Body} {f : op.Ret → Program Body α}
    (hnext : ∀ answer, Distinct op answer → WritesHeld (⟨op, answer⟩ :: h) ∧
      (f answer).wp (histSem Distinct) WritesHeld Q (⟨op, answer⟩ :: h)) :
    (perform op >>= f).wp (histSem Distinct) WritesHeld Q h :=
  (wp_hist_call op f h).mpr hnext

theorem deliverAll_writesHeld (now : Time) (events : List (OutboxEvent Body)) :
    ∀ h : History Body, (∀ ev ∈ events, ev ∈ held h) → (events.map (·.id)).Nodup →
      (deliverAll now events).wp (histSem Distinct) WritesHeld (fun _ _ => True) h := by
  induction events with
  | nil =>
    intro h _ _
    trivial
  | cons ev rest ih =>
    intro h hheld hnodup
    rw [List.map_cons, List.nodup_cons] at hnodup
    have hev : ev ∈ held h := hheld ev List.mem_cons_self
    -- The other rows stay held when this one is given back.
    have hrest : ∀ ev' ∈ rest, ev' ∈ (held h).filter fun other => other.id ≠ ev.id := by
      intro ev' hev'
      refine List.mem_filter.mpr ⟨hheld ev' (List.mem_cons_of_mem _ hev'), ?_⟩
      simp only [ne_eq, decide_not, Bool.not_eq_true', decide_eq_false_iff_not]
      exact fun heq => hnodup.1 (heq ▸ List.mem_map_of_mem hev')
    refine writesHeld_call fun answer _ => ⟨trivial, ?_⟩
    cases answer with
    | error err =>
      exact writesHeld_call fun _ _ => ⟨⟨ev, hev, rfl, rfl⟩, ih _ hrest hnodup.2⟩
    | ok _ =>
      exact writesHeld_call fun _ _ => ⟨⟨ev, hev, rfl⟩, ih _ hrest hnodup.2⟩

theorem main_writesHeld (call : Call Body) :
    (main call).wp (histSem Distinct) WritesHeld (fun _ _ => True) [] := by
  cases call with
  | tick configured =>
    refine wp_bind (writesHeld_call fun now _ => ⟨trivial, ?_⟩)
    refine writesHeld_call fun answer hdistinct => ⟨trivial, ?_⟩
    cases answer with
    | error err => trivial
    | ok events =>
      cases events with
      | nil => trivial
      | cons ev rest =>
        refine writesHeld_call fun _ _ => ⟨trivial, ?_⟩
        refine wp_bind (wp_mono (deliverAll_writesHeld now (ev :: rest) _ ?_ hdistinct)
          (fun _ hwrites => hwrites) fun _ _ _ => trivial)
        intro ev' hev'
        exact List.mem_append_left _ hev'
  | enqueue id eventType payload createdAt =>
    exact writesHeld_call fun _ _ => ⟨trivial, trivial⟩

/-! ## What one operation does -/

theorem mem_held_cons {op : Op Body} {ch : Choice} {h : History Body}
    (hev : ev ∈ held (⟨op, (handle op ch t).1⟩ :: h)) :
    ev ∈ held h ∨ ∃ limit now, op = .claimDue limit now ∧ ev ∈ t.claimDue limit now ch.locked := by
  cases op with
  | claimDue limit now =>
    cases hanswer : (handle (.claimDue limit now) ch t).1 with
    | error err =>
      rw [hanswer] at hev
      exact .inl hev
    | ok events =>
      rw [hanswer] at hev
      obtain rfl : t.claimDue limit now ch.locked = events := by
        simpa using Fault.read_eq_ok hanswer
      rcases List.mem_append.mp hev with hnew | hold
      · exact .inr ⟨limit, now, rfl, hnew⟩
      · exact .inl hold
  | reschedule id attempts next | markDelivered id deliveredAt =>
    exact .inl (List.mem_of_mem_filter hev)
  | _ => exact .inl hev

theorem exists_attempts_handle (op : Op Body) (ch : Choice) {r : OutboxEvent Body}
    (hr : r ∈ t.rows) :
    ∃ r' ∈ (handle op ch t).2.rows, r'.id = r.id ∧
      (r'.attempts = r.attempts ∨
        ∃ attempts next, op = .reschedule r.id attempts next ∧ r'.attempts = attempts) := by
  cases op with
  | reschedule id attempts next =>
    rcases Fault.write_eq ch.fault t (t.reschedule id attempts next) with heq | hok
    · exact ⟨r, (congrArg Table.rows heq) ▸ hr, rfl, .inl rfl⟩
    · refine ⟨_, (OutboxTable.rows_of_reschedule hok) ▸ List.mem_map_of_mem hr, ?_⟩
      by_cases hid : r.id = id
      · rw [if_pos hid]
        exact ⟨rfl, .inr ⟨attempts, next, by rw [hid], rfl⟩⟩
      · rw [if_neg hid]
        exact ⟨rfl, .inl rfl⟩
  | markDelivered id deliveredAt =>
    rcases Fault.write_eq ch.fault t (.ok (t.markDelivered id deliveredAt)) with heq | hok
    · exact ⟨r, (congrArg Table.rows heq) ▸ hr, rfl, .inl rfl⟩
    · have hrows : (handle (.markDelivered id deliveredAt) ch t).2.rows =
          (t.markDelivered id deliveredAt).rows :=
        congrArg Table.rows (Except.ok.inj hok).symm
      rw [OutboxTable.rows_markDelivered] at hrows
      refine ⟨_, hrows ▸ List.mem_map_of_mem hr, ?_⟩
      split
      · exact ⟨rfl, .inl rfl⟩
      · exact ⟨rfl, .inl rfl⟩
  | enqueue ev =>
    rcases Fault.write_eq ch.fault t (t.enqueue ev) with heq | hok
    · exact ⟨r, (congrArg Table.rows heq) ▸ hr, rfl, .inl rfl⟩
    · exact ⟨r, (OutboxTable.rows_of_enqueue hok) ▸ List.mem_append_left _ hr, rfl, .inl rfl⟩
  | _ => exact ⟨r, hr, rfl, .inl rfl⟩

/-! ## Held rows -/

/-- No row is held twice, and a held copy has the attempts of its row. -/
structure HeldInv (π : RelayPool Body) : Prop where
  exclusive : ∀ (i j : Nat) (th th' : RelayThread Body), π.threads[i]? = some th →
    π.threads[j]? = some th' → i ≠ j →
    ∀ ev ∈ holds th, ∀ ev' ∈ holds th', ev.id ≠ ev'.id
  current : ∀ th ∈ π.threads, ∀ ev ∈ holds th,
    ∃ r ∈ π.state.rows, r.id = ev.id ∧ r.attempts = ev.attempts

def AttemptsKept (t t' : OutboxTable Body) : Prop :=
  ∀ r ∈ t.rows, ∃ r' ∈ t'.rows, r'.id = r.id ∧ r.attempts ≤ r'.attempts

theorem AttemptsKept.refl (t : OutboxTable Body) : AttemptsKept t t :=
  fun r hr => ⟨r, hr, rfl, le_rfl⟩

theorem AttemptsKept.trans {t' t'' : OutboxTable Body} (h : AttemptsKept t t')
    (h' : AttemptsKept t' t'') : AttemptsKept t t'' := by
  intro r hr
  obtain ⟨r', hr', hid, hle⟩ := h r hr
  obtain ⟨r'', hr'', hid', hle'⟩ := h' r' hr'
  exact ⟨r'', hr'', hid'.trans hid, hle.trans hle'⟩

theorem mem_held_of_mem_holds (h : ev ∈ holds th) : ev ∈ held th.hist := by
  unfold holds at h
  split at h
  · cases h
  · exact h

theorem claimed_ne_of_skipsHeld {π : RelayPool Body} {tid limit : Nat} {now : Time}
    {choice : Choice} {call : Call Body} {next : Op.Ret (.claimDue limit now) → Program Body Unit}
    {hist : History Body}
    (hthread : π.threads[tid]? = some ⟨call, .call (.claimDue limit now) next, hist⟩)
    (hskips : skipsHeld π (.step tid choice) = true) (hth : th ∈ π.threads) {ev' : OutboxEvent Body}
    (hev : ev ∈ holds th) (hev' : ev' ∈ π.state.claimDue limit now choice.locked) :
    ev.id ≠ ev'.id := by
  intro heq
  simp only [skipsHeld, hthread, List.all_eq_true] at hskips
  have hreach := hskips th hth ev hev
  have hmem := List.mem_filter.mp (mem_of_mem_orderLimit hev')
  obtain ⟨hrow, hdue⟩ := hmem
  simp only [outOfReach, Bool.or_eq_true, decide_eq_true_eq, List.all_eq_true] at hreach
  simp only [Bool.and_eq_true, decide_eq_true_eq] at hdue
  rcases hreach with hlocked | hnot
  · exact hdue.2 (heq ▸ hlocked)
  · rcases hnot ev' hrow with hne | hnotDue
    · exact hne heq.symm
    · simp [hdue.1] at hnotDue

section Step

variable {π : RelayPool Body} {tid : Nat} {choice : Choice} {call : Call Body} {op : Op Body}
  {next : op.Ret → Program Body Unit} {hist : History Body}

theorem mem_holds_perform (hthread : π.threads[tid]? = some ⟨call, .call op next, hist⟩) {i : Nat}
    (hth : (π.perform handler tid call op next hist choice).threads[i]? = some th)
    (hev : ev ∈ holds th) :
    (∃ th₀, π.threads[i]? = some th₀ ∧ ev ∈ holds th₀) ∨
      i = tid ∧ ∃ limit now, op = .claimDue limit now ∧
        ev ∈ π.state.claimDue limit now choice.locked := by
  rcases Pool.perform_getElem?_cases hth with ⟨rfl, rfl⟩ | ⟨-, hold⟩
  · rcases mem_held_cons (mem_held_of_mem_holds hev) with hbefore | hclaimed
    · exact .inl ⟨_, hthread, hbefore⟩
    · exact .inr ⟨rfl, hclaimed⟩
  · exact .inl ⟨th, hold, hev⟩

/-- The row that a tick reschedules is one it holds, and no other tick holds it. -/
theorem HeldInv.not_rescheduled (hinv : HeldInv π)
    (hthread : π.threads[tid]? = some ⟨call, .call op next, hist⟩)
    (hwrites : WritesHeld (⟨op, (handle op choice π.state).1⟩ :: hist)) {i : Nat}
    (hth : (π.perform handler tid call op next hist choice).threads[i]? = some th)
    (hev : ev ∈ holds th) (attempts : Nat) (later : Time) :
    op ≠ .reschedule ev.id attempts later := by
  rintro rfl
  obtain ⟨own, hown, hid, -⟩ := hwrites
  rcases Pool.perform_getElem?_cases hth with ⟨rfl, rfl⟩ | ⟨hne, hold⟩
  · have hleft := (List.mem_filter.mp (mem_held_of_mem_holds hev)).2
    simp at hleft
  · exact hinv.exclusive i tid th _ hold hthread hne ev hev own hown hid.symm

theorem HeldInv.perform (hinv : HeldInv π)
    (hthread : π.threads[tid]? = some ⟨call, .call op next, hist⟩)
    (hwrites : WritesHeld (⟨op, (handle op choice π.state).1⟩ :: hist))
    (hskips : skipsHeld π (.step tid choice) = true) :
    HeldInv (π.perform handler tid call op next hist choice) := by
  refine ⟨?_, ?_⟩
  · intro i j th th' hth hth' hne ev hev ev' hev'
    rcases mem_holds_perform hthread hth hev with ⟨th₀, hth₀, hbefore⟩ |
      ⟨rfl, limit, now, rfl, hnew⟩
    · rcases mem_holds_perform hthread hth' hev' with
        ⟨th₀', hth₀', hbefore'⟩ | ⟨rfl, limit, now, rfl, hnew'⟩
      · exact hinv.exclusive i j th₀ th₀' hth₀ hth₀' hne ev hbefore ev' hbefore'
      · exact claimed_ne_of_skipsHeld hthread hskips (List.mem_of_getElem? hth₀) hbefore hnew'
    · rcases mem_holds_perform hthread hth' hev' with ⟨th₀', hth₀', hbefore'⟩ | ⟨rfl, -⟩
      · exact (claimed_ne_of_skipsHeld hthread hskips (List.mem_of_getElem? hth₀') hbefore'
          hnew).symm
      · exact absurd rfl hne
  · intro th hth ev hev
    obtain ⟨i, hi⟩ := List.getElem?_of_mem hth
    obtain ⟨r, hr, hid, hattempts⟩ : ∃ r ∈ π.state.rows, r.id = ev.id ∧
      r.attempts = ev.attempts := by
      rcases mem_holds_perform hthread hi hev with ⟨th₀, hth₀, hbefore⟩ | ⟨-, _, _, -, hnew⟩
      · exact hinv.current th₀ (List.mem_of_getElem? hth₀) ev hbefore
      · exact ⟨ev, mem_of_claimDue hnew, rfl, rfl⟩
    obtain ⟨r', hr', hid', hsame | ⟨attempts, later, hop, -⟩⟩ := exists_attempts_handle op choice hr
    · exact ⟨r', hr', hid'.trans hid, hsame.trans hattempts⟩
    · exact absurd (hid ▸ hop) (hinv.not_rescheduled hthread hwrites hi hev attempts later)

theorem HeldInv.attemptsKept (hinv : HeldInv π)
    (hthread : π.threads[tid]? = some ⟨call, .call op next, hist⟩)
    (hwrites : WritesHeld (⟨op, (handle op choice π.state).1⟩ :: hist)) :
    AttemptsKept π.state (π.perform handler tid call op next hist choice).state := by
  intro r hr
  obtain ⟨r', hr', hid, hsame | ⟨attempts, later, rfl, hattempts⟩⟩ :=
    exists_attempts_handle op choice hr
  · exact ⟨r', hr', hid, hsame.ge⟩
  · obtain ⟨ev, hev, hevid, hcount⟩ := hwrites
    obtain ⟨r₁, hr₁, hid₁, hcurrent⟩ :=
      hinv.current _ (List.mem_of_getElem? hthread) ev hev
    obtain rfl := π.state.eq_of_target_eq hr hr₁ (hevid.symm.trans hid₁.symm)
    exact ⟨r', hr', hid, by omega⟩

end Step

structure HeldSince (t₀ : OutboxTable Body) (π : RelayPool Body) : Prop where
  held : HeldInv π
  kept : AttemptsKept t₀ π.state

theorem holds_stop (th : RelayThread Body) : holds th.stop = [] := rfl

theorem holds_spawn (call : Call Body) : holds (Thread.spawn main call) = [] := by
  simp [holds, held]

theorem run_heldSince {π : RelayPool Body}
    (hkeeps : ∀ th ∈ π.threads, Pool.Keeps Distinct (fun _ => WritesHeld) th) (hinv : HeldInv π)
    {moves : List (RelayMove Body)} (hskips : π.Meets handler main skipsHeld moves = true) :
    HeldSince π.state (π.run handler main moves) := by
  refine Pool.run_induction (I := fun _ => WritesHeld) handle_distinct main_writesHeld ?_ ?_ ?_
    hkeeps ⟨hinv, AttemptsKept.refl _⟩ moves hskips
  · intro π' call _ hsince
    refine ⟨⟨?_, ?_⟩, hsince.kept⟩
    · intro i j th th' hth hth' hne ev hev ev' hev'
      rcases Pool.start_getElem?_cases hth with hold | rfl
      · rcases Pool.start_getElem?_cases hth' with hold' | rfl
        · exact hsince.held.exclusive i j th th' hold hold' hne ev hev ev' hev'
        · simp [holds_spawn] at hev'
      · simp [holds_spawn] at hev
    · intro th hth ev hev
      rcases List.mem_append.mp hth with hold | hnew
      · exact hsince.held.current th hold ev hev
      · simp [List.mem_singleton.mp hnew, holds_spawn] at hev
  · intro π' _ hsince
    -- A crash takes every held row out of the hands of its tick.
    have hnone : ∀ th ∈ π'.threads.map Thread.stop, holds th = [] := by
      intro th hth
      obtain ⟨th₀, -, rfl⟩ := List.mem_map.mp hth
      exact holds_stop th₀
    refine ⟨⟨fun i j th th' hth _ _ ev hev => ?_, fun th hth ev hev => ?_⟩, hsince.kept⟩
    · simp [hnone th (List.mem_of_getElem? hth)] at hev
    · simp [hnone th hth] at hev
  · intro π' tid choice call op next hist hthread _ _ hwrites hskips' hsince
    exact ⟨hsince.held.perform hthread hwrites hskips',
      hsince.kept.trans (hsince.held.attemptsKept hthread hwrites)⟩

theorem heldInv_init (t : OutboxTable Body) : HeldInv (Pool.init t : RelayPool Body) :=
  ⟨by simp, by simp⟩

/-- In every run whose claims skip the rows that ticks hold, no row is held by two ticks and
the attempts of no row decrease. -/
theorem exclusive_of_skipsHeld (t : OutboxTable Body) (before after : List (RelayMove Body))
    (hskips : (Pool.init t).Meets handler main skipsHeld (before ++ after) = true) :
    (∀ (i j : Nat) (th th' : RelayThread Body), (reach t before).threads[i]? = some th →
      (reach t before).threads[j]? = some th' → i ≠ j →
      ∀ ev ∈ holds th, ∀ ev' ∈ holds th', ev.id ≠ ev'.id) ∧
    ∀ r ∈ (reach t before).state.rows,
      ∃ r' ∈ (reach t (before ++ after)).state.rows, r'.id = r.id ∧ r.attempts ≤ r'.attempts := by
  rw [Pool.meets_append, Bool.and_eq_true] at hskips
  have hbefore := (run_heldSince (by simp) (heldInv_init t) hskips.1).held
  have hkeeps := Pool.run_keeps (H := handler) handle_distinct main_writesHeld
    (π := (Pool.init t : RelayPool Body)) (by simp) before
  refine ⟨hbefore.exclusive, ?_⟩
  rw [reach, reach, Pool.run_append]
  exact (run_heldSince hkeeps hbefore hskips.2).kept

/-- One relay reschedules the first row while another one waits for it. -/
def waitingRelays : List (RelayMove String) :=
  [.start (.tick 1), .start (.tick 1), .step 0 { now := 1000 }, .step 1 { now := 1000 },
    .step 0 {}, .step 1 { locked := [⟨1⟩] }, .step 0 {}, .step 0 { deliver := .error "503" },
    .step 0 {}]

/-- The second relay claims the second row, and the first row's count has increased. -/
theorem exclusive_waitingRelays :
    (∃ r ∈ (reach twoDueRows waitingRelays).state.rows, r.id = ⟨1⟩ ∧ r.attempts = 1) ∧
    ∀ r ∈ twoDueRows.rows, ∃ r' ∈ (reach twoDueRows waitingRelays).state.rows,
      r'.id = r.id ∧ r.attempts ≤ r'.attempts :=
  ⟨by decide +kernel,
    (exclusive_of_skipsHeld twoDueRows [] waitingRelays (by decide +kernel)).2⟩

/-- Two relays claim the row one after the other; the second one fails to deliver it, a third
one fails later, and then the first one. -/
def staleRelays : List (RelayMove String) :=
  [.start (.tick 1), .start (.tick 1), .step 0 { now := 1000 }, .step 1 { now := 1000 },
    .step 0 {}, .step 1 {}]

def staleReschedules : List (RelayMove String) :=
  [.step 1 {}, .step 1 { deliver := .error "503" }, .step 1 {},
    .start (.tick 2), .step 2 { now := 10 ^ 12 }, .step 2 {}, .step 2 {}, .step 2 {}, .step 2 {},
    .step 2 { deliver := .error "503" }, .step 2 {}]

def lastReschedule : List (RelayMove String) :=
  [.step 0 {}, .step 0 { deliver := .error "503" }, .step 0 {}]

/-- Both relays hold the first row, and its count goes from two back to one. -/
theorem row_held_twice :
    (∃ th th' : RelayThread String, (reach twoDueRows staleRelays).threads = [th, th'] ∧
      (holds th).map (·.id) = [⟨1⟩] ∧ (holds th').map (·.id) = [⟨1⟩]) ∧
    (reach twoDueRows (staleRelays ++ staleReschedules)).state.rows.map (·.attempts) = [2, 0] ∧
    (reach twoDueRows (staleRelays ++ staleReschedules ++ lastReschedule)).state.rows.map
      (·.attempts) = [1, 0] := by
  refine ⟨⟨_, _, rfl, ?_, ?_⟩, ?_, ?_⟩ <;> decide +kernel

end Relay

end SophiaOrchestrator
