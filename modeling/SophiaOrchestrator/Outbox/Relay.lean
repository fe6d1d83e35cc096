import SophiaOrchestrator.Effects.Pool
import SophiaOrchestrator.Pg.Store

/-!
# The outbox relay

A relay polls the outbox: a tick claims one batch of due rows, delivers the
payload of each, and marks the row delivered or reschedules it with a capped
exponential backoff.  The claim is one statement outside a transaction, so its
row locks end with it, and a tick works on copies of the rows that other relays
may have changed in the meantime.

The outbox is a generic blob carrier; the body of a row is an arbitrary type.
-/

namespace SophiaOrchestrator

open Effects Prog Sql

/-! ## OutboxRepo -/

abbrev OutboxTable (Body : Type) : Type :=
  Table (outboxKey : OutboxEvent Body → OutboxID) outboxKey

namespace OutboxTable

variable {Body : Type}

/-- `WHERE status = 'pending' AND next_attempt_at <= now`. -/
def due (now : Time) (ev : OutboxEvent Body) : Bool :=
  decide (ev.status = .pending) && decide (ev.nextAttemptAt ≤ timestamptz now)

/-- The rows a claim selects from: `SKIP LOCKED` leaves out the rows that a
statement of another connection has locked at this moment. -/
def claimable (t : OutboxTable Body) (now : Time) (locked : List OutboxID) :
    List (OutboxEvent Body) :=
  t.rows.filter fun ev => due now ev && decide (ev.id ∉ locked)

def claimDue (t : OutboxTable Body) (limit : Nat) (now : Time) (locked : List OutboxID) :
    List (OutboxEvent Body) :=
  orderLimit (fun ev ev' => ev.nextAttemptAt ≤ ev'.nextAttemptAt) limit
    (t.claimable now locked)

def updateRow (t : OutboxTable Body) (id : OutboxID)
    (set : OutboxEvent Body → OutboxEvent Body) (hset : ∀ ev, (set ev).id = ev.id) :
    OutboxTable Body :=
  t.mapRows (fun ev => if ev.id = id then set ev else ev)
    (fun ev => by dsimp only [outboxKey]; split <;> simp [hset])
    (fun ev => by dsimp only [outboxKey]; split <;> simp [hset])

def markDelivered (t : OutboxTable Body) (id : OutboxID) (deliveredAt : Time) : OutboxTable Body :=
  t.updateRow id
    (fun ev => { ev with status := .delivered, deliveredAt := some (timestamptz deliveredAt) })
    fun _ => rfl

/-- `OutboxRepo.Reschedule`; the attempts must fit their column. -/
def reschedule (t : OutboxTable Body) (id : OutboxID) (attempts : Nat) (next : Time) :
    Except RepoErr (OutboxTable Body) :=
  if attempts < 2 ^ 31 then
    .ok (t.updateRow id
      (fun ev => { ev with attempts := attempts, nextAttemptAt := timestamptz next })
      fun _ => rfl)
  else
    .error .outOfRange

theorem rows_of_reschedule {t t' : OutboxTable Body} {id : OutboxID} {attempts : Nat}
    {next : Time} (h : t.reschedule id attempts next = .ok t') :
    t'.rows = t.rows.map fun ev =>
      if ev.id = id then { ev with attempts := attempts, nextAttemptAt := timestamptz next }
      else ev := by
  rw [reschedule] at h
  split_ifs at h
  rw [← Except.ok.inj h]
  rfl

theorem rows_markDelivered (t : OutboxTable Body) (id : OutboxID) (deliveredAt : Time) :
    (t.markDelivered id deliveredAt).rows = t.rows.map fun ev =>
      if ev.id = id then
        { ev with status := .delivered, deliveredAt := some (timestamptz deliveredAt) }
      else ev := rfl

def pendingCount (t : OutboxTable Body) : Nat :=
  t.rows.countP fun ev => decide (ev.status = .pending)

/-- `OutboxRepo.EnqueueTx`, the insert that completes a change elsewhere. -/
def enqueue (t : OutboxTable Body) (ev : OutboxEvent Body) :
    Except RepoErr (OutboxTable Body) :=
  match t.insert ev.stored with
  | some t' => .ok t'
  | none => .error .uniqueViolation

theorem rows_of_enqueue {t t' : OutboxTable Body} {ev : OutboxEvent Body}
    (h : t.enqueue ev = .ok t') : t'.rows = t.rows ++ [ev.stored] := by
  rw [enqueue] at h
  split at h
  · next t₁ hinsert =>
    rw [← Except.ok.inj h]
    exact ((t.insert_eq_some_iff t₁ ev.stored).mp hinsert).2.2
  · cases h

end OutboxTable

/-! ## Operations -/

namespace Relay

inductive Op (Body : Type) where
  | now
  | claimDue (limit : Nat) (now : Time)
  | pendingCount
  | deliver (payload : Body)
  | reschedule (id : OutboxID) (attempts : Nat) (next : Time)
  | markDelivered (id : OutboxID) (deliveredAt : Time)
  | enqueue (ev : OutboxEvent Body)

variable {Body : Type}

def Op.Ret : Op Body → Type
  | .now => Time
  | .claimDue _ _ => Except RepoErr (List (OutboxEvent Body))
  | .pendingCount => Except RepoErr Nat
  | .deliver _ => Except String Unit
  | .reschedule _ _ _ | .markDelivered _ _ | .enqueue _ => Except RepoErr Unit

structure Choice where
  fault : Fault := .none
  now : Time := 0
  locked : List OutboxID := []
  deliver : Except String Unit := .ok ()

def handle (op : Op Body) (ch : Choice) (t : OutboxTable Body) :
    op.Ret × OutboxTable Body :=
  match op with
  | .now => (ch.now, t)
  | .claimDue limit now => (ch.fault.read (.ok (t.claimDue limit now ch.locked)), t)
  | .pendingCount => (ch.fault.read (.ok t.pendingCount), t)
  | .deliver _ => (ch.deliver, t)
  | .reschedule id attempts next => ch.fault.write t (t.reschedule id attempts next)
  | .markDelivered id deliveredAt => ch.fault.write t (.ok (t.markDelivered id deliveredAt))
  | .enqueue ev => ch.fault.write t (t.enqueue ev)

def handler : Handler (Op Body) Op.Ret Choice (OutboxTable Body) where
  run := handle

/-! ## The relay -/

abbrev Program (Body α : Type) : Type := Prog (Op Body) Op.Ret α

/-! The ports; each fixes the type of its answer. -/

def Clock.now : Program Body Time := perform Op.now

def OutboxRepo.claimDue (limit : Nat) (now : Time) :
    Program Body (Except RepoErr (List (OutboxEvent Body))) :=
  perform (Op.claimDue limit now)

def OutboxRepo.pendingCount : Program Body (Except RepoErr Nat) :=
  perform Op.pendingCount

def OutboxRepo.reschedule (id : OutboxID) (attempts : Nat) (next : Time) :
    Program Body (Except RepoErr Unit) :=
  perform (Op.reschedule id attempts next)

def OutboxRepo.markDelivered (id : OutboxID) (deliveredAt : Time) :
    Program Body (Except RepoErr Unit) :=
  perform (Op.markDelivered id deliveredAt)

def OutboxRepo.enqueueTx (ev : OutboxEvent Body) : Program Body (Except RepoErr Unit) :=
  perform (Op.enqueue ev)

def deliver (payload : Body) : Program Body (Except String Unit) :=
  perform (Op.deliver payload)

def backoffBase : Nat := 10 * 1000000000

def backoffCeiling : Nat := 300 * 1000000000

def defaultBatchLimit : Nat := 50

/-- `Backoff`: the base doubled for each attempt, up to the ceiling. -/
def backoff (attempts : Int) : Nat :=
  let attempts := if attempts < 0 then 0 else attempts
  if 6 ≤ attempts then
    backoffCeiling
  else
    let d := backoffBase * 2 ^ attempts.toNat
    if backoffCeiling < d then backoffCeiling else d

def batchLimit (configured : Int) : Nat :=
  if configured ≤ 0 then defaultBatchLimit else configured.toNat

/-- The loop of `Tick` over the claimed rows.  The errors of `Reschedule` and of
`MarkDelivered` are logged only. -/
def deliverAll (now : Time) : List (OutboxEvent Body) → Program Body Unit
  | [] => pure ()
  | ev :: rest => do
    match ← deliver ev.payload with
    | .error _ =>
      let attempts := ev.attempts + 1
      let _ ← OutboxRepo.reschedule ev.id attempts (now + backoff attempts)
      deliverAll now rest
    | .ok () =>
      let _ ← OutboxRepo.markDelivered ev.id now
      deliverAll now rest

def tick (limit : Nat) : Program Body (Except RepoErr Unit) := do
  let now ← Clock.now
  match ← OutboxRepo.claimDue limit now with
  | .error err => pure (.error err)
  | .ok [] => pure (.ok ())
  | .ok events =>
    -- The count is logged, and an error of it ignored.
    let _ ← OutboxRepo.pendingCount
    deliverAll now events
    pure (.ok ())

/-- What runs against the outbox: ticks of relays, each with the batch limit it
was configured with, and inserts of new rows by the services. -/
inductive Call (Body : Type) where
  | tick (configuredLimit : Int)
  | enqueue (id : OutboxID) (eventType : OutboxEventType) (payload : Body)
      (createdAt : Time)

def main : Call Body → Program Body Unit
  | .tick configured => do
    let _ ← tick (batchLimit configured)
    pure ()
  | .enqueue id eventType payload createdAt => do
    let _ ← OutboxRepo.enqueueTx (.new id eventType payload createdAt)
    pure ()

end Relay

end SophiaOrchestrator
