/-
  Talus.Metrics.Query
  **RAW READS, AND READS FROM THE ROLLUP TABLE WITH RAW EDGES.**

  `queryRawBuckets` aggregates the raw samples of a window.
  `queryRollupWithEdges` plans the same window over two sources: the six-hour
  buckets that are inside it, closed, confirmed by the checkpoint and
  materialized come from the rollup table, everything else from bounded raw
  reads of the remaining spans.
-/
import Talus.Metrics.Rollup

namespace Talus.Metrics

open Talus.Base.Relation

/-! ## §1. Points. -/

/-- The columns of one gauge in a response point. -/
structure GaugeCells where
  average : Option ℚ
  peak : Option ℚ
  sum : Option ℚ
  count : ℕ
  deriving DecidableEq

/-- One point of an answer (`AggregatedMetric`). -/
structure AggregatedMetric where
  time : Int
  sampledAt : Option Int
  gauges : Gauge → GaugeCells
  rates : Counter → RateCells

/-! ## §2. Raw reads. -/

/-- The average column of a gauge.  A percentage divides by the number of
samples with a positive total; a plain gauge by its non-NULL samples. -/
def rawAverage (rows : List Sample) : Gauge → Option ℚ
  | .memory => percentAverage .memory
  | .disk => percentAverage .disk
  | .swap => percentAverage .swap
  | g => (sqlSum (rows.map fun s => s.gauge g)).map (· / rows.countP fun s => s.counted g)
where
  percentAverage (g : Gauge) : Option ℚ :=
    if 0 < rows.countP fun s => s.counted g then
      (sqlSum (rows.map fun s => if s.counted g then s.gauge g else some 0)).map
        (· / rows.countP fun s => s.counted g)
    else none

def rawGauges (rows : List Sample) : Option Int × (Gauge → GaugeCells) :=
  ((rows.map Sample.time).max?, fun g =>
    { average := rawAverage rows g, peak := (gaugeTotals rows g).max,
      sum := (gaugeTotals rows g).sum, count := (gaugeTotals rows g).count })

/-- A row of the joined aggregate as a point; a NULL count scans into 0. -/
def aggregated (row : Int × Option (Option Int × (Gauge → GaugeCells))
    × Option (Counter → RateCells)) : AggregatedMetric where
  time := row.1
  sampledAt := row.2.1.bind Prod.fst
  gauges := (row.2.1.map Prod.snd).getD fun _ => ⟨none, none, none, 0⟩
  rates := row.2.2.getD noRates

def rawBucketAggregateSQL (q : DeltaQuery) (h : History) : List AggregatedMetric :=
  let inWindow := (q.bounded h).filter fun s => q.windowStart ≤ s.time ∧ s.time < q.windowEnd
  let gauge := groupBy (fun s : Sample => bucketExpr q.width s.time) rawGauges inWindow
  (orderBy Prod.fst (fullOuterJoin gauge (rateAggregateSelect q h))).map aggregated

/-- The query of a raw read of `[since, till)`. -/
def rawQuery (repo : MetricRepo) (since till : Int) (interval : Interval) : DeltaQuery where
  scanStart := since
  scanEnd := till
  gap := repo.gapThreshold
  windowStart := since
  windowEnd := till
  width := interval.width

def queryRawBuckets (repo : MetricRepo) (h : History) (since till : Int) (interval : Interval) :
    List AggregatedMetric :=
  rawBucketAggregateSQL (rawQuery repo since till interval) h

/-! ## §3. The raw budget. -/

def maxRawSamples : ℕ := 12000

def rawProbeLimit : ℕ := maxRawSamples + 1

inductive QueryBudgetReason where
  | bucketBudget | rollupNotReady | queryTimeout
  deriving DecidableEq, Repr

structure QueryBudgetError where
  reason : QueryBudgetReason
  recommended : Option Interval := none
  samples : ℕ := 0
  deriving DecidableEq

/-- The planned raw input of a window: its keys, up to the probe limit, and the
predecessor row when there is one. -/
def plannedSamples (h : History) (since till : Int) : ℕ :=
  let keys := (h.samples.filter fun s => since ≤ s.time ∧ s.time < till).take rawProbeLimit
  let hasPredecessor := h.samples.any fun s => decide (s.time < since)
  if hasPredecessor then keys.length + 1 else keys.length

def probeRawSamples (h : History) (since till : Int) : ℕ × Bool :=
  (plannedSamples h since till, decide (maxRawSamples < plannedSamples h since till))

/-! ## §4. The source plan. -/

/-- A half-open raw range. -/
structure Span where
  start : Int
  stop : Int
  deriving DecidableEq, Repr

/-- The raw ranges and the buckets served from the rollup table. -/
structure SourcePlan where
  rawSpans : List Span := []
  rollupBuckets : List Int := []
  deriving DecidableEq, Repr

/-- `for cursor := start; cursor.Before(till); cursor = cursor.Add(RollupBucket)`. -/
def cursors (start till : Int) : List Int := series start (till - 1) rollupBucket

/-- `confirmedBuckets`: the buckets that end at or before the checkpoint. -/
def confirmedBuckets (checkpoint : Option Int) (since till : Int) : List Int :=
  match checkpoint with
  | none => []
  | some c => (cursors (bucketStart since) till).filter fun b => b + rollupBucket ≤ c

/-- The rollup rows of `[start, till)`. -/
def selectRollup (db : Rollups) (start till : Int) : List RollupRow :=
  orderBy RollupRow.bucketStart
    (db.rows.filter fun row => start ≤ row.bucketStart ∧ row.bucketStart < till)

/-- Append a raw range, or extend the last one when it ends where this one
starts. -/
def addSpan (spans : List Span) (start stop : Int) : List Span :=
  match spans.getLast? with
  | some last =>
    if last.stop = start then spans.dropLast ++ [⟨last.start, stop⟩]
    else spans ++ [⟨start, stop⟩]
  | none => [⟨start, stop⟩]

/-- One round of the planning loop.  `ready` says that the bucket is confirmed
and has a row. -/
def planBucket (since till closed : Int) (ready : Int → Bool) (plan : SourcePlan)
    (cursor : Int) : SourcePlan :=
  let bucketEnd := cursor + rollupBucket
  let rangeOK := decide (since ≤ cursor ∧ bucketEnd ≤ till ∧ bucketEnd ≤ closed)
  if rangeOK && ready cursor then
    { plan with rollupBuckets := plan.rollupBuckets ++ [cursor] }
  else
    let clippedFrom := max cursor since
    let clippedTo := min bucketEnd till
    if clippedFrom < clippedTo then
      { plan with rawSpans := addSpan plan.rawSpans clippedFrom clippedTo }
    else plan

/-- The plan of a window: each bucket from the one that holds its start. -/
def sourcePlan (db : Rollups) (now since till : Int) : SourcePlan :=
  let start := bucketStart since
  let confirmed := confirmedBuckets db.checkpoint start till
  let rows := selectRollup db start till
  let ready := fun cursor =>
    confirmed.contains cursor && rows.any fun row => row.bucketStart == cursor
  (cursors start till).foldl (planBucket since till (bucketStart now) ready) {}

/-! ## §5. The combined read. -/

/-- `avg`: no value without a sum or a count. -/
def rollupAverage (totals : GaugeTotals) : Option ℚ :=
  if totals.count = 0 then none else totals.sum.map (· / totals.count)

/-- A materialized bucket as a point.  `LastSample.IsZero` holds of a NULL and
of Go's zero time. -/
def rollupRowToPoint (row : RollupRow) : AggregatedMetric where
  time := row.bucketStart
  sampledAt := row.lastSample.filter fun t => decide (t ≠ zeroTime)
  gauges := fun g =>
    { average := rollupAverage (row.gauges g), peak := (row.gauges g).max,
      sum := (row.gauges g).sum, count := (row.gauges g).count }
  rates := row.rates

/-- Place a point after every point that is not later than it. -/
def insertPoint (p : AggregatedMetric) : List AggregatedMetric → List AggregatedMetric
  | [] => [p]
  | q :: rest => if p.time < q.time then p :: q :: rest else q :: insertPoint p rest

/-- `sortPoints`, an insertion sort. -/
def sortPoints (points : List AggregatedMetric) : List AggregatedMetric :=
  points.foldl (fun sorted p => insertPoint p sorted) []

/-- Read the raw spans in turn; the budget is shared by all of them. -/
def readSpans (repo : MetricRepo) (h : History) :
    ℕ → List Span → Except QueryBudgetError (List AggregatedMetric)
  | _, [] => .ok []
  | totalRaw, raw :: rest =>
    let (samples, overBudget) := probeRawSamples h raw.start raw.stop
    let totalRaw := totalRaw + samples
    if overBudget || decide (maxRawSamples < totalRaw) then
      .error { reason := .rollupNotReady, samples := totalRaw }
    else
      (readSpans repo h totalRaw rest).map
        (queryRawBuckets repo h raw.start raw.stop .h6 ++ ·)

/-- The points of the buckets the plan serves from the rollup table. -/
def rollupPoints (db : Rollups) (plan : SourcePlan) (since till : Int) :
    List AggregatedMetric :=
  ((selectRollup db (bucketStart since) till).filter fun row =>
    plan.rollupBuckets.contains row.bucketStart).map rollupRowToPoint

/-- `queryRollupWithEdges`: the points and whether the rollup was used. -/
def queryRollupWithEdges (repo : MetricRepo) (h : History) (db : Rollups)
    (now since till : Int) : Except QueryBudgetError (List AggregatedMetric × Bool) :=
  let plan := sourcePlan db now since till
  let rollup := rollupPoints db plan since till
  (readSpans repo h 0 plan.rawSpans).map fun edges =>
    (sortPoints (rollup ++ edges), !rollup.isEmpty)

end Talus.Metrics
