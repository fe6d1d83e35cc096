import SophiaOrchestrator.Skills.Service
import SophiaOrchestrator.Sql.RowLock

/-!
# Concurrent patches of the metrics

`PatchMetrics` reads the whole metrics column of a skill under a row lock, adds its deltas
and writes the column back.  Elsewhere it is one step of the database; here its statements
interleave with those of other calls, each of which may fail before its commit.  The counters
are machine integers, whose sums wrap.
-/

namespace SophiaOrchestrator.Skills.Learning

open Sql

def counters : List (Metrics → Int64) :=
  [Metrics.usageCount, Metrics.successCount, Metrics.failureCount, Metrics.testsPassedCount,
    Metrics.rollbackCount, Metrics.deprecatedAPIHits]

/-- Calls of `PatchMetrics` on one skill, after some of their statements. -/
def patchesOf (initial : Metrics) (deltas : List MetricsDelta) (moves : List TxMove) :
    LockedRow Metrics Metrics :=
  (LockedRow.start initial (deltas.map MetricsDelta.metrics)).run SkillTable.patched moves

theorem counter_patched {counter : Metrics → Int64} (h : counter ∈ counters)
    (current delta : Metrics) :
    counter (SkillTable.patched current delta) = counter current + counter delta := by
  simp only [counters, List.mem_cons, List.not_mem_nil, or_false] at h
  rcases h with rfl | rfl | rfl | rfl | rfl | rfl <;> rfl

theorem counter_foldl_patched {counter : Metrics → Int64} (h : counter ∈ counters)
    (initial : Metrics) (log : List Metrics) :
    counter (log.foldl SkillTable.patched initial) = counter initial + (log.map counter).sum := by
  induction log generalizing initial with
  | nil => simp
  | cons delta log ih =>
    rw [List.foldl_cons, ih, counter_patched h, List.map_cons, List.sum_cons, Int64.add_assoc]

theorem sum_perm {xs ys : List Int64} (h : xs.Perm ys) : xs.sum = ys.sum := by
  rw [List.sum_eq_foldr, List.sum_eq_foldr]
  exact h.foldr_eq 0

def lastReduction (log : List Metrics) : Option ℚ :=
  (log.reverse.find? fun delta => delta.avgRetryReduction ≠ 0).map Metrics.avgRetryReduction

theorem avgRetryReduction_foldl_patched (initial : Metrics) (log : List Metrics) :
    (log.foldl SkillTable.patched initial).avgRetryReduction =
      (lastReduction log).getD initial.avgRetryReduction := by
  induction log using List.reverseRecOn with
  | nil => rfl
  | append_singleton log delta ih =>
    rw [List.foldl_append, List.foldl_cons, List.foldl_nil, SkillTable.patched, ih]
    by_cases hzero : delta.avgRetryReduction = 0 <;> simp [lastReduction, hzero]

/-- In every interleaving the counters are the initial ones plus the deltas of exactly the
calls that have committed, and the reduction of retries is the one of the last committed call
that gave one. -/
theorem patches_serial (initial : Metrics) (deltas : List MetricsDelta) (moves : List TxMove) :
    let row := patchesOf initial deltas moves
    (∀ counter ∈ counters,
      counter row.value = counter initial + (row.committedArgs.map counter).sum) ∧
    row.value.avgRetryReduction = (lastReduction row.log).getD initial.avgRetryReduction ∧
    row.log.Perm row.committedArgs := by
  intro row
  have hserial : LockedRow.Serial SkillTable.patched initial row :=
    LockedRow.serial_run SkillTable.patched initial _ moves
  refine ⟨fun counter hcounter => ?_, ?_, hserial.log⟩
  · rw [hserial.value, counter_foldl_patched hcounter, sum_perm (hserial.log.map counter)]
  · rw [hserial.value, avgRetryReduction_foldl_patched]

/-- The second call waits for the first one, and the third one fails after its update. -/
example :
    (patchesOf {} [{ usageDelta := 1 }, { usageDelta := 2 }, { usageDelta := 4 }]
      [.select 0, .select 1, .update 0, .commit 0, .select 2, .update 2, .fail 2, .select 1,
        .update 1, .commit 1]).value.usageCount = 3 := by
  decide

end SophiaOrchestrator.Skills.Learning
