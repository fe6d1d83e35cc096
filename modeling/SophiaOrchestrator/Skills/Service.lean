import SophiaOrchestrator.Effects.Pool
import SophiaOrchestrator.Skills.Seeds
import SophiaOrchestrator.Skills.Store
import SophiaOrchestrator.Skills.Transitions

/-!
# The skill service

Three paths write what is learned about a skill: patches of its metrics, guarded patches
of its status, and the re-evaluation, which promotes or demotes skills by the attempts
their changes took, records what it did, and can undo a recorded run by walking legal
paths back.  The boot seeder and operators write whole rows.

A patch of a status reads the status in one statement and writes it in another one, so
between the two other calls may act.
-/

namespace SophiaOrchestrator.Skills.Learning

open Effects Prog

/-! ## Operations -/

structure SkillUsage where
  skillID : SkillID
  changeID : ChangeID
  deriving DecidableEq

structure TaskAttempts where
  changeID : ChangeID
  attempts : Int
  deriving DecidableEq

inductive Op where
  | now
  | newID
  | findByID (id : SkillID)
  | list
  | upsert (s : SkillRow)
  | patchMetrics (id : SkillID) (delta : Metrics) (now : Time)
  | patchStatus (id : SkillID) (status : Status) (now : Time)
  | findUsageBySkill (id : SkillID)
  | sumApplyAttempts (changeID : ChangeID)
  | saveRun (run : ReevalRun)
  | findRun (id : AuditID)
  | findLatestRun
  | existsByRevertsRunID (id : AuditID)
  | record (usages : List SkillUsage) (attempts : List TaskAttempts)

def Op.Ret : Op → Type
  | .now => Time
  | .newID => AuditID
  | .findByID _ => Except RepoErr SkillRow
  | .list => Except RepoErr (List SkillRow)
  | .upsert _ | .patchMetrics _ _ _ | .patchStatus _ _ _ | .saveRun _ | .record _ _ =>
    Except RepoErr Unit
  | .findUsageBySkill _ => Except RepoErr (List SkillUsage)
  | .sumApplyAttempts _ => Except RepoErr Int
  | .findRun _ | .findLatestRun => Except RepoErr ReevalRun
  | .existsByRevertsRunID _ => Except RepoErr Bool

/-- The tables.  The usages and the attempts of the tasks are written by the phase and the
apply services. -/
structure State where
  skills : SkillTable := .empty
  runs : RunTable := .empty
  usages : List SkillUsage := []
  attempts : List TaskAttempts := []

def State.sumApplyAttempts (s : State) (changeID : ChangeID) : Int :=
  ((s.attempts.filter fun task => task.changeID = changeID).map TaskAttempts.attempts).sum

structure Choice where
  fault : Fault := .none
  now : Time := 0
  id : AuditID := ⟨0⟩

def handle (op : Op) (ch : Choice) (s : State) : op.Ret × State :=
  match op with
  | .now => (ch.now, s)
  | .newID => (ch.id, s)
  | .findByID id => (ch.fault.read (s.skills.findByID id), s)
  | .list => (ch.fault.read (.ok s.skills.list), s)
  | .upsert row =>
    ch.fault.write s ((s.skills.upsert row).map fun skills => { s with skills })
  | .patchMetrics id delta now =>
    ch.fault.write s ((s.skills.patchMetrics id delta now).map fun skills => { s with skills })
  | .patchStatus id status now =>
    ch.fault.write s ((s.skills.patchStatus id status now).map fun skills => { s with skills })
  | .findUsageBySkill id =>
    (ch.fault.read (.ok (s.usages.filter fun usage => usage.skillID = id)), s)
  | .sumApplyAttempts changeID => (ch.fault.read (.ok (s.sumApplyAttempts changeID)), s)
  | .saveRun run => ch.fault.write s ((s.runs.save run).map fun runs => { s with runs })
  | .findRun id => (ch.fault.read (s.runs.findByID id), s)
  | .findLatestRun => (ch.fault.read s.runs.findLatest, s)
  | .existsByRevertsRunID id => (ch.fault.read (.ok (s.runs.existsByRevertsRunID id)), s)
  | .record usages attempts => ch.fault.write s (.ok { s with usages, attempts })

def handler : Handler Op Op.Ret Choice State where
  run := handle

/-! ## Programs -/

abbrev Program (α : Type) : Type := Prog Op Op.Ret α

/-! The ports; each fixes the type of its answer. -/

def Clock.now : Program Time := perform Op.now

def IDGenerator.newID : Program AuditID := perform Op.newID

def SkillRepo.findByID (id : SkillID) : Program (Except RepoErr SkillRow) :=
  perform (Op.findByID id)

def SkillRepo.list : Program (Except RepoErr (List SkillRow)) := perform Op.list

def SkillRepo.upsert (s : SkillRow) : Program (Except RepoErr Unit) := perform (Op.upsert s)

def SkillRepo.patchMetrics (id : SkillID) (delta : Metrics) (now : Time) :
    Program (Except RepoErr Unit) :=
  perform (Op.patchMetrics id delta now)

def SkillRepo.patchStatus (id : SkillID) (status : Status) (now : Time) :
    Program (Except RepoErr Unit) :=
  perform (Op.patchStatus id status now)

def SkillUsageRepo.findBySkill (id : SkillID) : Program (Except RepoErr (List SkillUsage)) :=
  perform (Op.findUsageBySkill id)

def SkillUsageRepo.sumApplyAttemptsByChange (changeID : ChangeID) :
    Program (Except RepoErr Int) :=
  perform (Op.sumApplyAttempts changeID)

def ReevalAudit.save (run : ReevalRun) : Program (Except RepoErr Unit) := perform (Op.saveRun run)

def ReevalAudit.findByID (id : AuditID) : Program (Except RepoErr ReevalRun) :=
  perform (Op.findRun id)

def ReevalAudit.findLatest : Program (Except RepoErr ReevalRun) := perform Op.findLatestRun

def ReevalAudit.existsByRevertsRunID (id : AuditID) : Program (Except RepoErr Bool) :=
  perform (Op.existsByRevertsRunID id)

inductive Stage where
  | listSkills
  | usageOf (id : SkillID)
  | sumAttempts (changeID : ChangeID)
  | evidence
  | apply (id : SkillID)
  | applyAudit
  | revert
  | revertLast
  | idempotencyCheck
  | readStatus (id : SkillID)
  | walk (id : SkillID) (step : Status)
  | rollbackMetrics (id : SkillID)
  | revertAudit
  deriving DecidableEq

inductive ServiceErr where
  /-- The id does not parse, which is reported as not found. -/
  | unparsable
  | invalidStatus (status : Status)
  | forbiddenTransition (current target : Status)
  | noLegalRevertPath (current target : Status)
  /-- The skill is already at the prior status. -/
  | alreadyAt (status : Status)
  | repo (err : RepoErr)
  | during (stage : Stage) (err : ServiceErr)
  deriving DecidableEq

/-! ## Service -/

structure MetricsDelta where
  successDelta : Int64 := 0
  failureDelta : Int64 := 0
  testsPassedDelta : Int64 := 0
  rollbackDelta : Int64 := 0
  deprecatedAPIHits : Int64 := 0
  usageDelta : Int64 := 0
  avgRetryReduction : ℚ := 0

def MetricsDelta.metrics (delta : MetricsDelta) : Metrics where
  successCount := delta.successDelta
  failureCount := delta.failureDelta
  testsPassedCount := delta.testsPassedDelta
  rollbackCount := delta.rollbackDelta
  deprecatedAPIHits := delta.deprecatedAPIHits
  usageCount := delta.usageDelta
  avgRetryReduction := delta.avgRetryReduction

/-- `Service.PatchMetrics`; the id is given as it parses. -/
def patchMetrics (skillID : Option SkillID) (delta : MetricsDelta) :
    Program (Except ServiceErr Unit) := do
  match skillID with
  | none => return .error .unparsable
  | some id =>
    let now ← Clock.now
    match ← SkillRepo.patchMetrics id delta.metrics now with
    | .error err => return .error (.repo err)
    | .ok () => return .ok ()

/-- `Service.PatchStatus`: the status is read, checked against the table, and written. -/
def patchStatus (skillID : Option SkillID) (status : Status) :
    Program (Except ServiceErr Unit) := do
  match skillID with
  | none => return .error .unparsable
  | some id =>
    if !status.isValid then
      return .error (.invalidStatus status)
    else
      match ← SkillRepo.findByID id with
      | .error err => return .error (.repo err)
      | .ok current =>
        if Allowed current.status status then
          let now ← Clock.now
          match ← SkillRepo.patchStatus id status now with
          | .error err => return .error (.repo err)
          | .ok () => return .ok ()
        else
          return .error (.forbiddenTransition current.status status)

def currentStatus (skillID : Option SkillID) : Program (Except ServiceErr Status) := do
  match skillID with
  | none => return .error .unparsable
  | some id =>
    match ← SkillRepo.findByID id with
    | .error err => return .error (.repo err)
    | .ok current => return .ok current.status

/-! ## RepoEvidenceProvider -/

structure Evidence where
  skillID : SkillID
  currentStatus : Status
  currentMetric : ℚ
  applyAttempts : Int

/-- The loop over the usages of a skill: the largest sum of attempts of a change, each
change once. -/
def maxAttempts : List SkillUsage → List ChangeID → Int → Program (Except ServiceErr Int)
  | [], _, best => return .ok best
  | usage :: rest, seen, best =>
    if usage.changeID ∈ seen then
      maxAttempts rest seen best
    else do
      match ← SkillUsageRepo.sumApplyAttemptsByChange usage.changeID with
      | .error err => return .error (.during (.sumAttempts usage.changeID) (.repo err))
      | .ok sum =>
        maxAttempts rest (usage.changeID :: seen) (if best < sum then sum else best)

def evidenceOf (sk : SkillRow) : Program (Except ServiceErr Evidence) := do
  match ← SkillUsageRepo.findBySkill sk.id with
  | .error err => return .error (.during (.usageOf sk.id) (.repo err))
  | .ok usages =>
    match ← maxAttempts usages [] 0 with
    | .error err => return .error err
    | .ok attempts =>
      return .ok
        { skillID := sk.id
          currentStatus := sk.status
          currentMetric := sk.metrics.avgRetryReduction
          applyAttempts := attempts }

def evidenceRows : List SkillRow → Program (Except ServiceErr (List Evidence))
  | [] => return .ok []
  | sk :: rest => do
    match ← evidenceOf sk with
    | .error err => return .error err
    | .ok e =>
      match ← evidenceRows rest with
      | .error err => return .error err
      | .ok es => return .ok (e :: es)

def rows : Program (Except ServiceErr (List Evidence)) := do
  match ← SkillRepo.list with
  | .error err => return .error (.during .listSkills (.repo err))
  | .ok skills => evidenceRows skills

/-! ## Reevaluator -/

def promoteThreshold : ℚ := 20 / 100

def demoteThreshold : ℚ := 5 / 100

inductive Verdict where
  | none
  | promote
  | demote
  deriving DecidableEq, Repr

/-- `recompute`.  The floating-point quotient is compared with the thresholds only, and no
quotient is within its error of one of them. -/
def recompute (applyAttempts : Int) : ℚ :=
  (3 / 2 - applyAttempts) / (3 / 2)

/-- `evaluate`: the verdict, the proposed status, and whether it differs. -/
def evaluate (current : Status) (newMetric : ℚ) : Verdict × Status × Bool :=
  if promoteThreshold ≤ newMetric ∧ current = .validated then
    (.promote, .active, true)
  else if newMetric < demoteThreshold ∧ current = .active then
    (.demote, .deprecated, true)
  else
    (.none, current, false)

structure ReevalRow where
  skillID : SkillID
  currentStatus : Status
  proposedStatus : Status
  oldMetric : ℚ
  newMetric : ℚ
  applyAttempts : Int
  verdict : Verdict
  wouldChange : Bool
  applied : Bool := false
  skipped : Bool := false
  applyErr : Option ServiceErr := none

def planRow (e : Evidence) : ReevalRow :=
  let newMetric := recompute e.applyAttempts
  let (verdict, proposed, wouldChange) := evaluate e.currentStatus newMetric
  { skillID := e.skillID
    currentStatus := e.currentStatus
    proposedStatus := proposed
    oldMetric := e.currentMetric
    newMetric := newMetric
    applyAttempts := e.applyAttempts
    verdict := verdict
    wouldChange := wouldChange }

def plan : Program (Except ServiceErr (List ReevalRow)) := do
  match ← rows with
  | .error err => return .error (.during .evidence err)
  | .ok evidence => return .ok (evidence.map planRow)

/-- The loop of `Apply`: the lines of the report with what became of them, the items to be
recorded, and the error that ended the loop. -/
def applyRows : List ReevalRow →
    Program (List ReevalRow × List ReevalRunItem × Option ServiceErr)
  | [] => return ([], [], none)
  | row :: rest => do
    if !row.wouldChange then
      let (report, items, err) ← applyRows rest
      return (row :: report, items, err)
    else
      match ← patchStatus (some row.skillID) row.proposedStatus with
      | .ok () =>
        let id ← IDGenerator.newID
        let (report, items, err) ← applyRows rest
        return ({ row with applied := true } :: report,
          { id, skillID := row.skillID, priorStatus := row.currentStatus,
            newStatus := row.proposedStatus } :: items, err)
      | .error (.forbiddenTransition current target) =>
        let (report, items, err) ← applyRows rest
        return ({ row with skipped := true,
                           applyErr := some (.forbiddenTransition current target) } :: report,
          items, err)
      | .error err => return (row :: rest, [], some (.during (.apply row.skillID) err))

def applyReport (report : List ReevalRow) : Program (List ReevalRow × Option ServiceErr) := do
  let runID ← IDGenerator.newID
  let (report, items, err) ← applyRows report
  match err with
  | some err => return (report, some err)
  | none =>
    if items.isEmpty then
      return (report, none)
    else
      let now ← Clock.now
      match ← ReevalAudit.save
          { id := runID, mode := .apply, revertsRunID := none, createdAt := now, items } with
      | .error err => return (report, some (.during .applyAudit (.repo err)))
      | .ok () => return (report, none)

/-- `Reevaluator.Apply`: the report, and the error if there is one. -/
def apply (confirm : Bool) : Program (List ReevalRow × Option ServiceErr) := do
  match ← plan with
  | .error err => return ([], some err)
  | .ok report => if !confirm then return (report, none) else applyReport report

structure RevertRow where
  skillID : SkillID
  fromStatus : Status
  toStatus : Status
  path : List Status := []
  reverted : Bool := false
  skipped : Bool := false
  revertErr : Option ServiceErr := none

/-- `walk`: one guarded patch for each step; the last status reached. -/
def walk (skillID : SkillID) : Status → List Status → Program (Status × Option ServiceErr)
  | reached, [] => return (reached, none)
  | reached, step :: rest => do
    match ← patchStatus (some skillID) step with
    | .error err => return (reached, some (.during (.walk skillID step) err))
    | .ok () => walk skillID step rest

/-- The loop of `revertRun`: the lines of the report, the items to be recorded, and the
error that ended the loop. -/
def revertItems (skipMetrics : Bool) : List ReevalRunItem →
    Program (List RevertRow × List ReevalRunItem × Option ServiceErr)
  | [] => return ([], [], none)
  | item :: rest => do
    let target := item.priorStatus
    match ← currentStatus (some item.skillID) with
    | .error err => return ([], [], some (.during (.readStatus item.skillID) err))
    | .ok live =>
      let row : RevertRow :=
        { skillID := item.skillID, fromStatus := live, toStatus := target }
      if live = target then
        let (report, items, err) ← revertItems skipMetrics rest
        return ({ row with skipped := true, revertErr := some (.alreadyAt target) } :: report,
          items, err)
      else
        match transitionPath live target with
        | none =>
          let (report, items, err) ← revertItems skipMetrics rest
          return ({ row with skipped := true,
                             revertErr := some (.noLegalRevertPath live target) } :: report,
            items, err)
        | some path =>
          let (reached, walkErr) ← walk item.skillID live path
          match walkErr with
          | some walkErr =>
            -- A walk that got stuck is recorded with where it ended.
            let row := { row with path, skipped := true, revertErr := some walkErr }
            if reached = live then
              let (report, items, err) ← revertItems skipMetrics rest
              return (row :: report, items, err)
            else
              let id ← IDGenerator.newID
              let (report, items, err) ← revertItems skipMetrics rest
              return (row :: report,
                { id, skillID := item.skillID, priorStatus := live,
                  newStatus := reached } :: items, err)
          | none =>
            let row := { row with path, reverted := true }
            let id ← IDGenerator.newID
            let recorded : ReevalRunItem :=
              { id, skillID := item.skillID, priorStatus := live, newStatus := target }
            if skipMetrics then
              let (report, items, err) ← revertItems skipMetrics rest
              return (row :: report, recorded :: items, err)
            else
              match ← patchMetrics (some item.skillID) { rollbackDelta := 1 } with
              | .error err =>
                return ([row], [recorded],
                  some (.during (.rollbackMetrics item.skillID) err))
              | .ok () =>
                let (report, items, err) ← revertItems skipMetrics rest
                return (row :: report, recorded :: items, err)

def revertRun (run : ReevalRun) : Program (List RevertRow × Option ServiceErr) := do
  let revRunID ← IDGenerator.newID
  match ← ReevalAudit.existsByRevertsRunID run.id with
  | .error err => return ([], some (.during .idempotencyCheck (.repo err)))
  | .ok skipMetrics =>
    let (report, items, err) ← revertItems skipMetrics run.items
    match err with
    | some err => return (report, some err)
    | none =>
      let now ← Clock.now
      match ← ReevalAudit.save
          { id := revRunID, mode := .revert, revertsRunID := some run.id, createdAt := now,
            items } with
      | .error err => return (report, some (.during .revertAudit (.repo err)))
      | .ok () => return (report, none)

def revert (runID : AuditID) : Program (List RevertRow × Option ServiceErr) := do
  match ← ReevalAudit.findByID runID with
  | .error err => return ([], some (.during .revert (.repo err)))
  | .ok run => revertRun run

def revertLast : Program (List RevertRow × Option ServiceErr) := do
  match ← ReevalAudit.findLatest with
  | .error err => return ([], some (.during .revertLast (.repo err)))
  | .ok run => revertRun run

/-! ## The writers of whole rows -/

inductive BootErr where
  | build (err : SeedErr)
  | upsert (name : String) (err : RepoErr)
  deriving DecidableEq

def upsertAll : List SkillRow → Program (Except BootErr Unit)
  | [] => return .ok ()
  | s :: rest => do
    match ← SkillRepo.upsert s with
    | .error err => return .error (.upsert s.name err)
    | .ok () => upsertAll rest

def seedSkills : Program (Except BootErr Unit) := do
  let now ← Clock.now
  match buildSeedSkills now with
  | .error err => return .error (.build err)
  | .ok seeds => upsertAll seeds

structure Edit where
  name : String
  phases : List PhaseType
  content : String
  techniques : List Technique
  lifecycle : LifecycleInput := {}

/-- An operator loads a skill, updates it and stores it. -/
def editSkill (id : SkillID) (edit : Edit) : Program Unit := do
  match ← SkillRepo.findByID id with
  | .error _ => return ()
  | .ok sk =>
    let now ← Clock.now
    match sk.update edit.name edit.phases edit.content edit.techniques edit.lifecycle now with
    | .error _ => return ()
    | .ok sk' =>
      let _ ← SkillRepo.upsert sk'
      return ()

/-! ## Calls -/

inductive Call where
  | patchMetrics (skillID : Option SkillID) (delta : MetricsDelta)
  | patchStatus (skillID : Option SkillID) (status : Status)
  | reevaluate (confirm : Bool)
  | revert (runID : AuditID)
  | revertLast
  | seedSkills
  | editSkill (id : SkillID) (edit : Edit)
  | record (usages : List SkillUsage) (attempts : List TaskAttempts)

def main : Call → Program Unit
  | .patchMetrics skillID delta => do
    let _ ← patchMetrics skillID delta
  | .patchStatus skillID status => do
    let _ ← patchStatus skillID status
  | .reevaluate confirm => do
    let _ ← apply confirm
  | .revert runID => do
    let _ ← revert runID
  | .revertLast => do
    let _ ← revertLast
  | .seedSkills => do
    let _ ← seedSkills
  | .editSkill id edit => editSkill id edit
  | .record usages attempts => do
    let _ ← perform (Op.record usages attempts)

end SophiaOrchestrator.Skills.Learning
