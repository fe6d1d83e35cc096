import SophiaOrchestrator.Phase.Mutex
import SophiaOrchestrator.Phase.ArchiveGate
import SophiaOrchestrator.Phase.AbortStability
import SophiaOrchestrator.Phase.OutboxInvariant
import SophiaOrchestrator.Phase.FailClosed
import SophiaOrchestrator.Phase.TerminalChange
import SophiaOrchestrator.Phase.Artifacts
import SophiaOrchestrator.Apply.Worktrees
import SophiaOrchestrator.Apply.BuildGate
import SophiaOrchestrator.Apply.Resume
import SophiaOrchestrator.Apply.Claims
import SophiaOrchestrator.Apply.Supervision
import SophiaOrchestrator.Apply.PriorStatus
import SophiaOrchestrator.Governor.Range
import SophiaOrchestrator.Governor.Conservation
import SophiaOrchestrator.Dispatcher.Routing
import SophiaOrchestrator.Skills.Prompts
import SophiaOrchestrator.Skills.BootFrame
import SophiaOrchestrator.Phase.PersistedFirst
import SophiaOrchestrator.Phase.AttemptHistory
import SophiaOrchestrator.Apply.Starvation
import SophiaOrchestrator.Apply.Breaker
import SophiaOrchestrator.Apply.BuildLoop
import SophiaOrchestrator.Apply.Gating
import SophiaOrchestrator.Apply.SessionOutcome
import SophiaOrchestrator.Apply.BoardBuild
import SophiaOrchestrator.Domain.PhaseCalls
import SophiaOrchestrator.Apply.Synthesize
import SophiaOrchestrator.Apply.Materialize
import SophiaOrchestrator.Phase.ResumedInput
import SophiaOrchestrator.Phase.ResumedEnd
import SophiaOrchestrator.Apply.TaskRecords
import SophiaOrchestrator.Apply.Unwrap
import SophiaOrchestrator.Phase.Recovery
import SophiaOrchestrator.Outbox.Exclusion
import SophiaOrchestrator.Skills.Aggregate
import SophiaOrchestrator.Skills.MetricsPatches
import SophiaOrchestrator.Skills.AuditTrail
import SophiaOrchestrator.Skills.Rollbacks
import SophiaOrchestrator.Skills.Matching
import SophiaOrchestrator.Bootstrap.ImportedBody
import SophiaOrchestrator.Bootstrap.RateGuard
import SophiaOrchestrator.Phase.Pointer
import SophiaOrchestrator.Skills.UsageOutcomes
import SophiaOrchestrator.Domain.NextRecommended
import SophiaOrchestrator.Phase.GateData
