import SophiaOrchestrator.Effects.Pool
import SophiaOrchestrator.Pg.Store

/-!
# The spawn governor

The counter of the dispatched agents is one row of `spawn_governor_state`.  An acquire is a
transaction: it takes an advisory lock, reads the counter, and raises it if it is below the
limit.  A release is a single `UPDATE` without the lock.  Both run at the default isolation
level, so a statement sees the last committed version of the row, and an `UPDATE` waits for
the transaction that has written the row before it.

An instance that dies in a transaction is one whose next statement fails: the server rolls
the transaction back.
-/

namespace SophiaOrchestrator.Governor

open Effects Prog

/-! ## The configuration -/

/-- `SpawnGovernorConfig`, with durations in nanoseconds. -/
structure SpawnGovernorConfig where
  max : Int := 4
  staggerMin : Int := 200000000
  staggerMax : Int := 500000000
  waitInterval : Int := 250000000
  maxWait : Int := 30000000000
  deriving DecidableEq, Repr

def SpawnGovernorConfig.validate (c : SpawnGovernorConfig) : Except String Unit :=
  if c.max ≤ 0 then
    .error "discipline: invalid config: Max must be > 0"
  else if c.staggerMin < 0 ∨ c.staggerMax < c.staggerMin then
    .error "discipline: invalid config: StaggerMax must be >= StaggerMin >= 0"
  else if c.waitInterval ≤ 0 then
    .error "discipline: invalid config: WaitInterval must be > 0"
  else if c.maxWait < 0 then
    .error "discipline: invalid config: MaxWait must be >= 0"
  else
    .ok ()

/-- A governor that `NewSpawnGovernor` has accepted; all instances have the same limit. -/
structure SpawnGovernor (max : Int) where
  cfg : SpawnGovernorConfig
  max_eq : cfg.max = max
  valid : cfg.validate = .ok ()

theorem SpawnGovernor.max_pos {max : Int} (gov : SpawnGovernor max) : 0 < max := by
  have hvalid := gov.valid
  rw [← gov.max_eq]
  by_contra hmax
  rw [SpawnGovernorConfig.validate, if_pos (by omega)] at hvalid
  cases hvalid

def defaultGovernor : SpawnGovernor 4 where
  cfg := {}
  max_eq := rfl
  valid := rfl

/-! ## The row and its transactions -/

structure TxID where
  raw : Nat
  deriving DecidableEq, Repr

/-- A version of the row that is not committed; its transaction holds the row lock. -/
structure Version where
  tx : TxID
  activeCount : Int
  maxCount : Int

/-- The row, the advisory lock and the transactions begun so far. -/
structure State where
  activeCount : Int := 0
  maxCount : Int := 4
  advisory : Option TxID := none
  version : Option Version := none
  next : Nat := 0

variable (s : State) (tx : TxID)

namespace State

def isQuiet : Bool :=
  s.advisory.isNone && s.version.isNone

def visible : Int :=
  match s.version with
  | some v => if v.tx = tx then v.activeCount else s.activeCount
  | none => s.activeCount

def rowFree : Bool :=
  match s.version with
  | some v => decide (v.tx = tx)
  | none => true

def advisoryFree : Bool :=
  match s.advisory with
  | some holder => decide (holder = tx)
  | none => true

def unlock : State :=
  { s with
    advisory := if s.advisory = some tx then none else s.advisory
    version := if s.rowFree tx then none else s.version }

def commit : State :=
  match s.version with
  | some v =>
    if v.tx = tx then
      { s.unlock tx with activeCount := v.activeCount, maxCount := v.maxCount }
    else
      s.unlock tx
  | none => s.unlock tx

/-- `SET active_count = active_count + 1, max_count = $1`.  The columns are 32-bit
integers. -/
def raise (max : Int) : Except RepoErr State :=
  if s.visible tx + 1 < 2 ^ 31 ∧ max < 2 ^ 31 then
    .ok { s with version := some ⟨tx, s.visible tx + 1, max⟩ }
  else
    .error .outOfRange

/-- `SET active_count = GREATEST(active_count - 1, 0)`. -/
def lower : State :=
  { s with activeCount := Max.max (s.activeCount - 1) 0 }

end State

/-! ## Operations -/

/-- The statements of the repository, and what the polling loop does between them. -/
inductive Op where
  | begin
  | advisoryLock (tx : TxID)
  | selectActive (tx : TxID)
  | updateActive (tx : TxID) (max : Int)
  | commit (tx : TxID)
  | rollback (tx : TxID)
  | release
  | now
  | wait (d : Int)
  | jitter (span : Int)
  | sleep (d : Int)

def Op.Ret : Op → Type
  | .begin => Except RepoErr TxID
  | .advisoryLock _ | .updateActive _ _ | .commit _ | .rollback _ | .release =>
    Except RepoErr Unit
  | .selectActive _ => Except RepoErr Int
  | .now => Time
  | .wait _ => Except String Unit
  | .jitter _ => Int
  | .sleep _ => Unit

structure Choice where
  fault : Fault := .none
  now : Time := 0
  wait : Except String Unit := .ok ()
  jitter : Nat := 0

def handle (op : Op) (ch : Choice) (s : State) : op.Ret × State :=
  match op with
  | .begin =>
    match ch.fault with
    | .none => (.ok ⟨s.next⟩, { s with next := s.next + 1 })
    | .before | .after => (.error .unavailable, { s with next := s.next + 1 })
  | .advisoryLock tx => ch.fault.write s (.ok { s with advisory := some tx })
  | .selectActive tx => (ch.fault.read (.ok (s.visible tx)), s)
  | .updateActive tx max => ch.fault.write s (s.raise tx max)
  | .commit tx =>
    match ch.fault with
    | .none => (.ok (), s.commit tx)
    | .before => (.error .unavailable, s.unlock tx)
    | .after => (.error .unavailable, s.commit tx)
  | .rollback tx => (ch.fault.read (.ok ()), s.unlock tx)
  | .release => ch.fault.write s (.ok s.lower)
  | .now => (ch.now, s)
  | .wait _ => (ch.wait, s)
  | .jitter span => ((if span ≤ 0 then 0 else (ch.jitter : Int) % span : Int), s)
  | .sleep _ => ((), s)

/-- A statement waits for a lock, unless it fails before it is executed. -/
def enabled (op : Op) (ch : Choice) (s : State) : Bool :=
  match op with
  | .advisoryLock tx => decide (ch.fault = .before) || s.advisoryFree tx
  | .updateActive tx _ => decide (ch.fault = .before) || s.rowFree tx
  | .release => decide (ch.fault = .before) || s.version.isNone
  | _ => true

/-- The semantics of the operations.  When all instances crash, the server rolls their
transactions back. -/
def handler : Handler Op Op.Ret Choice State where
  run := handle
  enabled := enabled
  crash s := { s with advisory := none, version := none }

/-! ## The repository -/

abbrev Program (α : Type) : Type := Prog Op Op.Ret α

/-! The ports; each fixes the type of its answer. -/

def beginTx : Program (Except RepoErr TxID) :=
  perform Op.begin

def advisoryLock : Program (Except RepoErr Unit) :=
  perform (Op.advisoryLock tx)

def selectActive : Program (Except RepoErr Int) :=
  perform (Op.selectActive tx)

def updateActive (max : Int) : Program (Except RepoErr Unit) :=
  perform (Op.updateActive tx max)

def commit : Program (Except RepoErr Unit) :=
  perform (Op.commit tx)

def rollback : Program (Except RepoErr Unit) :=
  perform (Op.rollback tx)

def now : Program Time :=
  perform Op.now

def wait (d : Int) : Program (Except String Unit) :=
  perform (Op.wait d)

def jitter (span : Int) : Program Int :=
  perform (Op.jitter span)

def sleep (d : Int) : Program Unit :=
  perform (Op.sleep d)

/-- The function that `SpawnGovernorRepo.Acquire` runs in a transaction: whether the slot
was taken, and the count. -/
def acquireIn (max : Int) (tx : TxID) : Program (Except RepoErr (Bool × Int)) := do
  match ← advisoryLock tx with
  | .error err => pure (.error err)
  | .ok () =>
    match ← selectActive tx with
    | .error err => pure (.error err)
    | .ok active =>
      if max ≤ active then
        pure (.ok (false, active))
      else
        match ← updateActive tx max with
        | .error err => pure (.error err)
        | .ok () => pure (.ok (true, active + 1))

/-- `pgx.BeginFunc`: the function is run in a transaction, which is committed unless the
function fails. -/
def beginFunc {α : Type} (fn : TxID → Program (Except RepoErr α)) : Program (Except RepoErr α) := do
  match ← beginTx with
  | .error err => pure (.error err)
  | .ok tx =>
    match ← fn tx with
    | .error err => do
      let _ ← rollback tx
      pure (.error err)
    | .ok value =>
      match ← commit tx with
      | .error err => pure (.error err)
      | .ok () => pure (.ok value)

def SpawnGovernorRepo.acquire (max : Int) : Program (Except RepoErr (Bool × Int)) :=
  beginFunc (acquireIn max)

def SpawnGovernorRepo.release : Program (Except RepoErr Unit) :=
  perform Op.release

/-! ## The governor -/

inductive GovernorErr where
  | acquire (err : RepoErr)
  | saturated
  | wait (text : String)
  deriving DecidableEq, Repr

def GovernorErr.text : GovernorErr → String
  | .acquire err => "spawn governor acquire: SpawnGovernorRepo.Acquire: " ++ err.text
  | .saturated => "discipline: spawn governor saturated"
  | .wait text => "spawn governor wait: " ++ text

def applyStagger (cfg : SpawnGovernorConfig) : Program Unit := do
  let extra ← jitter (cfg.staggerMax - cfg.staggerMin)
  sleep (cfg.staggerMin + extra)

/-- The polling loop of `SpawnGovernor.Acquire`, observed for a number of polls; `none` is a
loop that goes on. -/
def poll (cfg : SpawnGovernorConfig) (deadline : Int) :
    Nat → Program (Option (Except GovernorErr Unit))
  | 0 => pure none
  | polls + 1 => do
    match ← SpawnGovernorRepo.acquire cfg.max with
    | .error err => pure (some (.error (.acquire err)))
    | .ok (true, _) =>
      applyStagger cfg
      pure (some (.ok ()))
    | .ok (false, _) =>
      let time ← now
      if deadline ≤ (time : Int) then
        pure (some (.error .saturated))
      else
        match ← wait cfg.waitInterval with
        | .error text => pure (some (.error (.wait text)))
        | .ok () => poll cfg deadline polls

def SpawnGovernor.acquire {max : Int} (gov : SpawnGovernor max) (polls : Nat) :
    Program (Option (Except GovernorErr Unit)) := do
  let start ← now
  poll gov.cfg (start + gov.cfg.maxWait) polls

/-! ## Calls -/

inductive Call (max : Int) where
  | acquire (gov : SpawnGovernor max) (polls : Nat)
  | release

def main {max : Int} : Call max → Program Unit
  | .acquire gov polls => do
    let _ ← gov.acquire polls
    pure ()
  | .release => do
    let _ ← SpawnGovernorRepo.release
    pure ()

end SophiaOrchestrator.Governor
