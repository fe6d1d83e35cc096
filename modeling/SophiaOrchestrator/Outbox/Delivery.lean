import SophiaOrchestrator.Effects.Log
import SophiaOrchestrator.Outbox.Relay

/-!
# At-least-once delivery

Any number of relays tick against one outbox, in any interleaving, with failing
deliveries and statements and with crashes at any point.
-/

namespace SophiaOrchestrator

namespace Relay

open Effects Prog Sql

variable {Body : Type}

abbrev Event (Body : Type) : Type := Ev (Op Body) Op.Ret

abbrev History (Body : Type) : Type := List (Event Body)

variable {ev : OutboxEvent Body} {h : History Body} {op : Op Body} {r : OutboxEvent Body}
  {t : OutboxTable Body}

abbrev RelayPool (Body : Type) : Type :=
  Pool (Op Body) Op.Ret (Call Body) (OutboxTable Body)

abbrev RelayThread (Body : Type) : Type := Thread (Op Body) Op.Ret (Call Body)

abbrev RelayMove (Body : Type) : Type := Move (Call Body) Choice

def reach (t : OutboxTable Body) (moves : List (RelayMove Body)) : RelayPool Body :=
  (Pool.init t).run handler main moves

/-! ## What a tick has done before it marks a row -/

def Claimed (ev : OutboxEvent Body) (h : History Body) : Prop :=
  ∃ limit now events, ⟨.claimDue limit now, .ok events⟩ ∈ h ∧ ev ∈ events

theorem Claimed.cons (hclaimed : Claimed ev h) (e : Event Body) : Claimed ev (e :: h) := by
  obtain ⟨limit, now, events, hmem, hev⟩ := hclaimed
  exact ⟨limit, now, events, List.mem_cons_of_mem _ hmem, hev⟩

/-- A row is marked delivered after the payload of the claimed copy was
delivered, and a new row is inserted pending. -/
def Good : History Body → Prop
  | ⟨.markDelivered id _, _⟩ :: past =>
    ∃ ev, Claimed ev past ∧ ev.id = id ∧ ⟨.deliver ev.payload, .ok ()⟩ ∈ past
  | ⟨.enqueue ev, _⟩ :: _ => ev.status = .pending
  | _ => True

theorem keeps_call {α : Type} {Q : α → History Body → Prop} {f : op.Ret → Program Body α}
    (hop : ∀ answer, Good (⟨op, answer⟩ :: h))
    (hf : ∀ answer, (f answer).wp (histSem fun _ _ => True) Good Q (⟨op, answer⟩ :: h)) :
    (perform op >>= f).wp (histSem fun _ _ => True) Good Q h :=
  (wp_hist_call op f h).mpr fun answer _ => ⟨hop answer, hf answer⟩

theorem deliverAll_keeps (now : Time) (events : List (OutboxEvent Body)) :
    ∀ h : History Body, (∀ ev ∈ events, Claimed ev h) →
      (deliverAll now events).wp (histSem fun _ _ => True) Good (fun _ _ => True) h := by
  induction events with
  | nil =>
    intro h _
    trivial
  | cons ev rest ih =>
    intro h hclaimed
    have hrest : ∀ e e' : Event Body, ∀ ev' ∈ rest, Claimed ev' (e :: e' :: h) :=
      fun e e' ev' hev' => ((hclaimed ev' (List.mem_cons_of_mem _ hev')).cons e').cons e
    refine keeps_call (fun _ => trivial) fun answer => ?_
    match answer with
    | .error _ =>
      exact keeps_call (fun _ => trivial) fun answer' => ih _ (hrest _ _)
    | .ok () =>
      refine keeps_call (fun _ => ?_) fun answer' => ih _ (hrest _ _)
      exact ⟨ev, (hclaimed ev List.mem_cons_self).cons _, rfl, List.mem_cons_self⟩

theorem main_good (call : Call Body) :
    (main call).wp (histSem fun _ _ => True) Good (fun _ _ => True) [] := by
  cases call with
  | tick configured =>
    refine wp_bind (keeps_call (fun _ => trivial) fun now => ?_)
    refine keeps_call (fun _ => trivial) fun answer => ?_
    match answer with
    | .error err => trivial
    | .ok [] => trivial
    | .ok (ev :: rest) =>
      refine keeps_call (fun _ => trivial) fun _ => ?_
      refine wp_bind (wp_mono (deliverAll_keeps now (ev :: rest) _ ?_)
        (fun _ => id) fun _ _ _ => trivial)
      intro ev' hev'
      exact ⟨_, now, ev :: rest, List.mem_cons_of_mem _ List.mem_cons_self, hev'⟩
  | enqueue id eventType payload createdAt =>
    exact keeps_call (fun _ => rfl) fun _ => trivial

/-! ## What one operation does to the rows -/

structure RowKept (r r' : OutboxEvent Body) : Prop where
  id : r'.id = r.id
  payload : r'.payload = r.payload
  delivered : r.status = .delivered → r'.status = .delivered

theorem RowKept.refl (r : OutboxEvent Body) : RowKept r r :=
  ⟨rfl, rfl, fun h => h⟩

theorem RowKept.trans {r' r'' : OutboxEvent Body} (h : RowKept r r') (h' : RowKept r' r'') :
    RowKept r r'' :=
  ⟨h'.id.trans h.id, h'.payload.trans h.payload, h'.delivered ∘ h.delivered⟩

/-- Everything an operation can do to the rows: nothing; the update of the row
it names, which only `markDelivered` makes delivered; or an insert. -/
theorem handle_rows_cases (op : Op Body) (ch : Choice) (t : OutboxTable Body) :
    (handle op ch t).2.rows = t.rows ∨
      (∃ f : OutboxEvent Body → OutboxEvent Body,
        (handle op ch t).2.rows = t.rows.map f ∧
        ∀ r, RowKept r (f r) ∧
          ((f r).status = r.status ∨ ∃ deliveredAt, op = .markDelivered r.id deliveredAt) ∧
          (timestamptz r.nextAttemptAt = r.nextAttemptAt →
            timestamptz (f r).nextAttemptAt = (f r).nextAttemptAt)) ∨
      ∃ ev, op = .enqueue ev ∧ (handle op ch t).2.rows = t.rows ++ [ev.stored] := by
  cases op with
  | reschedule id attempts next =>
    rcases Fault.write_eq ch.fault t (t.reschedule id attempts next) with heq | hok
    · exact .inl (congrArg Table.rows heq)
    · refine .inr (.inl ⟨_, OutboxTable.rows_of_reschedule hok, ?_⟩)
      intro r
      split
      · exact ⟨⟨rfl, rfl, fun h => h⟩, .inl rfl, fun _ => timestamptz_timestamptz next⟩
      · exact ⟨RowKept.refl r, .inl rfl, fun h => h⟩
  | markDelivered id deliveredAt =>
    rcases Fault.write_eq ch.fault t (.ok (t.markDelivered id deliveredAt)) with heq | hok
    · exact .inl (congrArg Table.rows heq)
    · refine .inr (.inl ⟨_, congrArg Table.rows (Except.ok.inj hok).symm, ?_⟩)
      intro r
      dsimp only
      split
      · next hid =>
        exact ⟨⟨rfl, rfl, fun _ => rfl⟩, .inr ⟨deliveredAt, by rw [hid]⟩, fun h => h⟩
      · exact ⟨RowKept.refl r, .inl rfl, fun h => h⟩
  | enqueue ev =>
    rcases Fault.write_eq ch.fault t (t.enqueue ev) with heq | hok
    · exact .inl (congrArg Table.rows heq)
    · exact .inr (.inr ⟨ev, rfl, OutboxTable.rows_of_enqueue hok⟩)
  | _ => exact .inl rfl

theorem exists_rowKept_handle (op : Op Body) (ch : Choice) (hr : r ∈ t.rows) :
    ∃ r' ∈ (handle op ch t).2.rows, RowKept r r' := by
  rcases handle_rows_cases op ch t with hsame | ⟨f, hrows, hf⟩ | ⟨ev, -, hrows⟩
  · exact ⟨r, hsame ▸ hr, RowKept.refl r⟩
  · exact ⟨f r, hrows ▸ List.mem_map_of_mem hr, (hf r).1⟩
  · exact ⟨r, hrows ▸ List.mem_append_left _ hr, RowKept.refl r⟩

/-- Where a row comes from: it was there, and became delivered only by a
`markDelivered` of it, or it was inserted. -/
theorem exists_row_before_handle {ch : Choice} {r' : OutboxEvent Body}
    (hr' : r' ∈ (handle op ch t).2.rows) :
    (∃ r ∈ t.rows, RowKept r r' ∧
      (r'.status = r.status ∨ ∃ deliveredAt, op = .markDelivered r.id deliveredAt)) ∨
      ∃ ev, op = .enqueue ev ∧ r' = ev.stored := by
  rcases handle_rows_cases op ch t with hsame | ⟨f, hrows, hf⟩ | ⟨ev, hop, hrows⟩
  · exact .inl ⟨r', hsame ▸ hr', RowKept.refl r', .inl rfl⟩
  · rw [hrows] at hr'
    obtain ⟨r, hr, rfl⟩ := List.mem_map.mp hr'
    exact .inl ⟨r, hr, (hf r).1, (hf r).2.1⟩
  · rw [hrows] at hr'
    rcases List.mem_append.mp hr' with hold | hnew
    · exact .inl ⟨r', hold, RowKept.refl r', .inl rfl⟩
    · exact .inr ⟨ev, hop, List.mem_singleton.mp hnew⟩

/-! ## Delivered rows were sent -/

/-- Every claimed copy has its row, and every delivered row was delivered from
the start or sent by a tick. -/
structure Sent (t₀ : OutboxTable Body) (D : Log (Op Body) Op.Ret) (t : OutboxTable Body) :
    Prop where
  claimed : ∀ tid limit now events, D tid ⟨.claimDue limit now, .ok events⟩ →
    ∀ ev ∈ events, ∃ r ∈ t.rows, r.id = ev.id ∧ r.payload = ev.payload
  delivered : ∀ r ∈ t.rows, r.status = .delivered →
    (∃ r₀ ∈ t₀.rows, r₀.id = r.id ∧ r₀.status = .delivered) ∨
      ∃ tid, D tid ⟨.deliver r.payload, .ok ()⟩

theorem mem_of_claimDue {limit : Nat} {now : Time} {locked : List OutboxID}
    (h : ev ∈ t.claimDue limit now locked) : ev ∈ t.rows :=
  List.mem_of_mem_filter (mem_of_mem_orderLimit h)

theorem Sent.step {t₀ : OutboxTable Body} {D : Log (Op Body) Op.Ret} (hinv : Sent t₀ D t)
    {tid : Nat} {ch : Choice} (hhist : ∀ ev ∈ h, D tid ev)
    (hgood : Good (⟨op, (handle op ch t).1⟩ :: h)) :
    Sent t₀ (D.add tid ⟨op, (handle op ch t).1⟩) (handle op ch t).2 := by
  have hstays : ∀ ev : OutboxEvent Body, (∃ r ∈ t.rows, r.id = ev.id ∧ r.payload = ev.payload) →
      ∃ r ∈ (handle op ch t).2.rows, r.id = ev.id ∧ r.payload = ev.payload := by
    rintro ev ⟨r, hr, hid, hpayload⟩
    obtain ⟨r', hr', hkept⟩ := exists_rowKept_handle op ch hr
    exact ⟨r', hr', hkept.id.trans hid, hkept.payload.trans hpayload⟩
  refine ⟨?_, ?_⟩
  · rintro i limit now events (hold | ⟨-, heq⟩) ev hev
    · exact hstays ev (hinv.claimed i limit now events hold ev hev)
    · obtain rfl : Op.claimDue limit now = op := congrArg Ev.op heq
      have hanswer : Except.ok events = (handle (.claimDue limit now) ch t).1 :=
        eq_of_heq (Ev.mk.inj heq).2
      obtain rfl : t.claimDue limit now ch.locked = events := by
        simpa using Fault.read_eq_ok hanswer.symm
      exact hstays ev ⟨ev, mem_of_claimDue hev, rfl, rfl⟩
  · intro r' hr' hdelivered
    rcases exists_row_before_handle hr' with ⟨r, hr, hkept, hstatus⟩ | ⟨ev, rfl, rfl⟩
    · rw [hkept.payload, hkept.id]
      rcases hstatus with hsame | ⟨deliveredAt, rfl⟩
      · rcases hinv.delivered r hr (hsame ▸ hdelivered) with hstart | ⟨i, hsent⟩
        · exact .inl hstart
        · exact .inr ⟨i, .inl hsent⟩
      · -- The mark follows the delivery of the payload of the claimed copy.
        obtain ⟨ev, ⟨limit, now, events, hclaim, hev⟩, hid, hsent⟩ := hgood
        obtain ⟨r₁, hr₁, hid₁, hpayload⟩ :=
          hinv.claimed tid limit now events (hhist _ hclaim) ev hev
        obtain rfl := t.eq_of_target_eq hr hr₁ (hid.symm.trans hid₁.symm)
        rw [hpayload]
        exact .inr ⟨tid, .inl (hhist _ hsent)⟩
    · have hpending : ev.status = .pending := hgood
      rw [show ev.stored.status = ev.status from rfl, hpending] at hdelivered
      cases hdelivered

/-- A row is delivered, if it was not from the start, only after a delivery of
its stored payload has succeeded. -/
theorem sent_reach (t₀ : OutboxTable Body) (moves : List (RelayMove Body)) :
    Sent t₀ (reach t₀ moves).Did (reach t₀ moves).state := by
  refine (Pool.log_induction (I := fun _ => Good) (fun _ _ _ => trivial) main_good
    (fun _ _ hinv => hinv) ?_ ⟨fun _ _ _ _ hclaim => hclaim.elim, ?_⟩ moves
    (Pool.meets_eachStep_true handler main _ moves)).holds
  · intro D tid ch call op hist t hhist _ _ hgood _ hinv
    exact hinv.step (fun ev hev => (hhist ev).mpr hev) hgood
  · exact fun r hr hdelivered => .inl ⟨r, hr, rfl, hdelivered⟩

/-! ## Rows are kept -/

theorem reach_concat_state (t₀ : OutboxTable Body) (moves : List (RelayMove Body))
    (m : RelayMove Body) :
    (reach t₀ (moves ++ [m])).state = (reach t₀ moves).state ∨
      ∃ op choice, (reach t₀ (moves ++ [m])).state =
        (handle op choice (reach t₀ moves).state).2 := by
  rw [reach, reach, Pool.run_concat]
  cases m with
  | start call | crash => exact .inl rfl
  | step tid choice =>
    rcases Pool.move_step_cases handler main (reach t₀ moves) tid choice with
      heq | ⟨call, op, next, hist, -, -, heq⟩
    · exact .inl (congrArg Pool.state heq)
    · exact .inr ⟨op, choice, congrArg Pool.state heq⟩

theorem exists_rowKept_reach (t₀ : OutboxTable Body) (before after : List (RelayMove Body))
    (hr : r ∈ (reach t₀ before).state.rows) :
    ∃ r' ∈ (reach t₀ (before ++ after)).state.rows, RowKept r r' := by
  induction after using List.reverseRecOn with
  | nil => exact ⟨r, by simpa using hr, RowKept.refl r⟩
  | append_singleton after m ih =>
    obtain ⟨r₁, hr₁, hkept⟩ := ih
    rw [← List.append_assoc]
    rcases reach_concat_state t₀ (before ++ after) m with hsame | ⟨op, choice, hstate⟩
    · exact ⟨r₁, hsame ▸ hr₁, hkept⟩
    · obtain ⟨r₂, hr₂, hkept'⟩ := exists_rowKept_handle op choice hr₁
      exact ⟨r₂, hstate ▸ hr₂, hkept.trans hkept'⟩

/-! ## Due rows are claimed -/

/-- The times of the rows are whole microseconds, as the column holds them. -/
def WholeTimes (t : OutboxTable Body) : Prop :=
  ∀ r ∈ t.rows, timestamptz r.nextAttemptAt = r.nextAttemptAt

theorem WholeTimes.handle (h : WholeTimes t) (op : Op Body) (ch : Choice) :
    WholeTimes (handle op ch t).2 := by
  intro r hr
  rcases handle_rows_cases op ch t with hsame | ⟨f, hrows, hf⟩ | ⟨ev, -, hrows⟩
  · exact h r (hsame ▸ hr)
  · rw [hrows] at hr
    obtain ⟨r₀, hr₀, rfl⟩ := List.mem_map.mp hr
    exact (hf r₀).2.2 (h r₀ hr₀)
  · rw [hrows] at hr
    rcases List.mem_append.mp hr with hold | hnew
    · exact h r hold
    · rw [List.mem_singleton.mp hnew]
      exact timestamptz_timestamptz _

theorem wholeTimes_reach {t₀ : OutboxTable Body} (h : WholeTimes t₀)
    (moves : List (RelayMove Body)) : WholeTimes (reach t₀ moves).state := by
  induction moves using List.reverseRecOn with
  | nil => exact h
  | append_singleton moves m ih =>
    rcases reach_concat_state t₀ moves m with hsame | ⟨op, choice, hstate⟩
    · rw [hsame]
      exact ih
    · rw [hstate]
      exact ih.handle op choice

/-- A pending row that is due and not locked is claimed, unless the limit is used
up by other claimable rows that come no later. -/
theorem mem_claimDue_or (htimes : WholeTimes t) (limit : Nat) {now : Time} {locked : List OutboxID}
    (hr : r ∈ t.rows) (hpending : r.status = .pending) (hdue : r.nextAttemptAt ≤ now)
    (hfree : r.id ∉ locked) :
    r ∈ t.claimDue limit now locked ∨
      ∃ ahead : List (OutboxEvent Body), limit ≤ ahead.length ∧ ahead.Nodup ∧
        ∀ ev ∈ ahead, ev ∈ t.claimable now locked ∧ ev ≠ r ∧
          ev.nextAttemptAt ≤ r.nextAttemptAt := by
  have hnodup : (t.claimable now locked).Nodup := (t.target_nodup.of_map _).filter _
  have hmem : r ∈ t.claimable now locked := by
    refine List.mem_filter.mpr ⟨hr, ?_⟩
    simp [OutboxTable.due, hpending, hfree, le_timestamptz (htimes r hr) hdue]
  have : Std.Total fun ev ev' : OutboxEvent Body => ev.nextAttemptAt ≤ ev'.nextAttemptAt :=
    ⟨fun ev ev' => Nat.le_total _ _⟩
  have : IsTrans (OutboxEvent Body) fun ev ev' => ev.nextAttemptAt ≤ ev'.nextAttemptAt :=
    ⟨fun _ _ _ => Nat.le_trans⟩
  exact mem_orderLimit_or hnodup hmem limit

/-- A tick is about to claim, and will be answered with `events`. -/
def NextClaim (π : RelayPool Body) (limit : Nat) (now : Time) (choice : Choice)
    (events : List (OutboxEvent Body)) : Prop :=
  (∃ (tid : Nat) (t : RelayThread Body) (next : _), π.threads[tid]? = some t ∧
      t.prog = .call (.claimDue limit now) next) ∧
    (handle (.claimDue limit now) choice π.state).1 = .ok events

/-- The next claim of every tick returns every pending row that is due and that no
other statement holds locked. -/
def ClaimsDue (π : RelayPool Body) : Prop :=
  ∀ limit now choice events, NextClaim π limit now choice events →
    ∀ r ∈ π.state.rows, r.status = .pending → r.nextAttemptAt ≤ now →
      r.id ∉ choice.locked → r ∈ events

/-- The next claim of every tick returns every such row, unless its batch is used
up by other such rows that come no later. -/
def ClaimsDueUpToLimit (π : RelayPool Body) : Prop :=
  ∀ limit now choice events, NextClaim π limit now choice events →
    ∀ r ∈ π.state.rows, r.status = .pending → r.nextAttemptAt ≤ now →
      r.id ∉ choice.locked →
      r ∈ events ∨
        ∃ ahead : List (OutboxEvent Body), limit ≤ ahead.length ∧ ahead.Nodup ∧
          ∀ ev ∈ ahead, ev ∈ π.state.claimable now choice.locked ∧ ev ≠ r ∧
            ev.nextAttemptAt ≤ r.nextAttemptAt

def twoDueRows : OutboxTable String where
  rows := [.new ⟨1⟩ .phaseArchived "one" 0, .new ⟨2⟩ .phaseArchived "two" 0]
  target_nodup := by decide
  other_nodup := by decide

def tickOfOne : List (RelayMove String) :=
  [.start (.tick 1), .step 0 { now := 1000 }]

/-- The second row is pending and due, and the claim leaves it out. -/
theorem due_row_not_claimed : ¬ ClaimsDue (reach twoDueRows tickOfOne) := by
  intro hclaims
  have hclaimed : (reach twoDueRows tickOfOne).state.claimDue 1 1000 [] =
      [.new ⟨1⟩ .phaseArchived "one" 0] := by
    decide +kernel
  have hmem := hclaims 1 1000 {} [.new ⟨1⟩ .phaseArchived "one" 0]
    ⟨⟨0, _, _, rfl, rfl⟩, congrArg Except.ok hclaimed⟩ (.new ⟨2⟩ .phaseArchived "two" 0)
    (by decide +kernel) rfl (by decide) (by decide)
  exact absurd hmem (by decide)

/-- At-least-once delivery, in every run: a delivered row was sent before, a row
stays in the outbox with its payload and, once delivered, delivered, and a
pending row that is due is claimed up to the limit of the batch. -/
theorem delivery_at_least_once (t : OutboxTable Body) (htimes : WholeTimes t)
    (before after : List (RelayMove Body)) :
    (∀ r ∈ (reach t before).state.rows, r.status = .delivered →
      (∀ r₀ ∈ t.rows, r₀.id = r.id → r₀.status = .pending) →
      ∃ th ∈ (reach t before).threads, ⟨.deliver r.payload, .ok ()⟩ ∈ th.hist) ∧
    (∀ r ∈ (reach t before).state.rows,
      ∃ r' ∈ (reach t (before ++ after)).state.rows, r'.id = r.id ∧ r'.payload = r.payload ∧
        (r.status = .delivered → r'.status = .delivered) ∧
        (r'.status ≠ .delivered → r'.status = .pending)) ∧
    ClaimsDueUpToLimit (reach t before) := by
  refine ⟨?_, ?_, ?_⟩
  · intro r hr hdelivered hstart
    rcases (sent_reach t before).delivered r hr hdelivered with
      ⟨r₀, hr₀, hid, hdelivered₀⟩ | ⟨tid, th, hth, hsent⟩
    · rw [hstart r₀ hr₀ hid] at hdelivered₀
      cases hdelivered₀
    · exact ⟨th, List.mem_of_getElem? hth, hsent⟩
  · intro r hr
    obtain ⟨r', hr', hkept⟩ := exists_rowKept_reach t before after hr
    refine ⟨r', hr', hkept.id, hkept.payload, hkept.delivered, ?_⟩
    intro hnot
    cases hstatus : r'.status with
    | pending => rfl
    | delivered => exact absurd hstatus hnot
  · intro limit now choice events hclaim r hr hpending hdue hfree
    obtain rfl : (reach t before).state.claimDue limit now choice.locked = events := by
      simpa using Fault.read_eq_ok hclaim.2
    exact mem_claimDue_or (wholeTimes_reach htimes before) limit hr hpending hdue hfree

def tickDelivers : List (RelayMove String) :=
  .start (.tick 1) :: List.replicate 5 (.step 0 { now := 1000 })

/-- After the tick the first row is delivered and its payload was sent; the second
one is left to the next claim. -/
theorem delivery_at_least_once_tickDelivers :
    (∃ r ∈ (reach twoDueRows tickDelivers).state.rows, r.status = .delivered ∧
      ∃ th ∈ (reach twoDueRows tickDelivers).threads,
        ⟨.deliver r.payload, .ok ()⟩ ∈ th.hist) ∧
    ClaimsDueUpToLimit (reach twoDueRows tickDelivers) := by
  have htimes : WholeTimes twoDueRows := by unfold WholeTimes; decide
  obtain ⟨hsent, -, hclaims⟩ := delivery_at_least_once twoDueRows htimes tickDelivers []
  obtain ⟨r, hr, hdelivered⟩ : ∃ r ∈ (reach twoDueRows tickDelivers).state.rows,
      r.status = .delivered := by
    decide +kernel
  have hstart : ∀ r₀ ∈ twoDueRows.rows, r₀.status = .pending := by decide
  exact ⟨⟨r, hr, hdelivered, hsent r hr hdelivered fun r₀ hr₀ _ => hstart r₀ hr₀⟩, hclaims⟩

end Relay

end SophiaOrchestrator
