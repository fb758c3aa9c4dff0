/-
  Talus.Metrics.Rollup
  **THE SIX-HOUR ROLLUP TABLE AND ITS REFRESH CYCLE.**

  `RefreshRollups` recomputes the closed six-hour buckets of a server from its
  raw samples, stores one row per bucket (buckets without a sample too) and
  moves the server's checkpoint to the last closed boundary.  The model follows
  one server: its history, its rows and its checkpoint.

  `scannedThrough` adds to a list of refresh cycles what the table does not
  record: the gap threshold a bucket's current row was computed under, and how
  far the samples went.
-/
import Talus.Metrics.Delta

namespace Talus.Metrics

open Talus.Base.Relation

/-! ## §1. Constants and bucket alignment. -/

def rollupBucket : Int := 6 * hour

def metricsRetention : Int := 35 * 24 * hour

def rollupRefreshWindow : Int := 48 * hour

def rollupBackfillWindow : Int := 35 * 24 * hour

/-- Go's zero `time.Time`, 0001-01-01T00:00:00Z. -/
def zeroTime : Int := -62135596800 * second

/-- `BucketStart`.  `Unix` rounds down to the second, and Go's `%` truncates
toward zero, so an instant before the epoch is rounded up. -/
def bucketStart (t : Int) : Int :=
  let seconds := t / second
  (seconds - seconds.tmod (rollupBucket / second)) * second

/-! ## §2. Rows. -/

/-- The gauge columns of one bucket of the rollup aggregate. -/
structure RollupGauges where
  samples : ℕ
  firstSample : Option Int
  lastSample : Option Int
  gauges : Gauge → GaugeTotals

def rollupGauges (rows : List Sample) : RollupGauges where
  samples := rows.length
  firstSample := (rows.map Sample.time).min?
  lastSample := (rows.map Sample.time).max?
  gauges := gaugeTotals rows

/-- One materialized bucket.  A NULL time is `none`. -/
structure RollupRow where
  bucketStart : Int
  samples : ℕ
  firstSample : Option Int
  lastSample : Option Int
  gauges : Gauge → GaugeTotals
  rates : Counter → RateCells

/-- The gauges of every sample the query read, joined with the rates. -/
def rollupAggregateSelect (q : DeltaQuery) (h : History) :
    List (Int × Option RollupGauges × Option (Counter → RateCells)) :=
  fullOuterJoin (groupBy (fun s : Sample => bucketExpr q.width s.time) rollupGauges (q.bounded h))
    (rateAggregateSelect q h)

/-- The inserted row: a bucket the aggregate does not have is stored with
zero counts. -/
def rollupRow (bucket : Int) (g : Option RollupGauges) (r : Option (Counter → RateCells)) :
    RollupRow where
  bucketStart := bucket
  samples := (g.map (·.samples)).getD 0
  firstSample := g.bind (·.firstSample)
  lastSample := g.bind (·.lastSample)
  gauges := (g.map (·.gauges)).getD fun _ => ⟨none, 0, none⟩
  rates := r.getD noRates

/-- `WHERE NOT (EXCLUDED.samples = 0 AND metrics_rollup_6h.samples > 0)`. -/
def overwrites (stored excluded : RollupRow) : Bool :=
  !(excluded.samples == 0 && decide (0 < stored.samples))

/-- The query of a materialization of `[since, till)`: it scans from one gap
threshold before the first bucket and never reaches the open one. -/
def materializeQuery (repo : MetricRepo) (since till : Int) : DeltaQuery where
  scanStart := since - repo.gapThreshold
  scanEnd := till
  gap := repo.gapThreshold
  windowStart := since
  windowEnd := till
  width := Interval.h6.width

/-- The recomputed rows of the closed buckets in `[since, till)`. -/
def materialized (repo : MetricRepo) (h : History) (since till : Int) : List RollupRow :=
  let aggregate := rollupAggregateSelect (materializeQuery repo since till) h
  (series since (till - rollupBucket) rollupBucket).map fun b =>
    rollupRow b ((aggregate.lookup b).bind Prod.fst) ((aggregate.lookup b).bind Prod.snd)

/-- `materializeBuckets`: recompute the closed buckets and upsert them. -/
def materializeBuckets (repo : MetricRepo) (h : History) (since till : Int)
    (rows : List RollupRow) : List RollupRow :=
  (materialized repo h since till).foldl
    (fun rows row => upsert RollupRow.bucketStart overwrites row rows) rows

/-! ## §3. Refresh cycles. -/

/-- What the database holds for a server: its rollup rows and, when there is
one, its checkpoint. -/
structure Rollups where
  rows : List RollupRow := []
  checkpoint : Option Int := none

/-- Whether `serversNeedingRollup` selects the server. -/
def needsRollup (h : History) (db : Rollups) (since closed : Int) : Bool :=
  h.samples.any (fun s => decide (since ≤ s.time))
    || db.checkpoint.any (fun c => decide (c < closed))
    || (db.checkpoint.isNone
        && h.samples.any fun s => decide (closed - rollupBackfillWindow ≤ s.time))

/-- The first bucket a cycle (re)computes. -/
def rollupStart (checkpoint : Option Int) (now : Int) (window : Int) : Int :=
  let retentionFloor := bucketStart (now - metricsRetention)
  let start := max (bucketStart (now - window)) retentionFloor
  match checkpoint with
  | none => start
  | some c =>
    if bucketStart c < start then max (bucketStart c) retentionFloor else start

/-- One call of `RefreshRollups`: the settings in force, the clock it reads and
its window. -/
structure Refresh where
  repo : MetricRepo := {}
  now : Int
  window : Int

/-- A window out of range is replaced by the hourly one. -/
def Refresh.effectiveWindow (cycle : Refresh) : Int :=
  if cycle.window ≤ 0 ∨ rollupBackfillWindow < cycle.window then rollupRefreshWindow
  else cycle.window

/-- The range a cycle materializes for the server, if any. -/
def refreshRange (h : History) (db : Rollups) (cycle : Refresh) : Option (Int × Int) :=
  let window := cycle.effectiveWindow
  let closed := bucketStart cycle.now
  if closed = zeroTime then none
  else if needsRollup h db (closed - window) closed then
    let since := rollupStart db.checkpoint cycle.now window
    if since < closed then some (since, closed) else none
  else none

/-- `RefreshRollups`: the rows and the checkpoint move in one transaction. -/
def refreshRollups (h : History) (db : Rollups) (cycle : Refresh) : Rollups :=
  match refreshRange h db cycle with
  | none => db
  | some (since, closed) =>
    { rows := materializeBuckets cycle.repo h since closed db.rows, checkpoint := some closed }

/-- The tables a list of cycles produces. -/
def refreshed (h : History) (cycles : List Refresh) : Rollups :=
  cycles.foldl (refreshRollups h) {}

/-- How counter pairs are read: the gap threshold, and where reading stops. -/
structure Scan where
  gap : Int
  stop : Int

/-- How the last materialization that wrote a bucket read it. -/
def rescanned (h : History) (db : Rollups) (cycle : Refresh) (scanned : Int → Option Scan) :
    Int → Option Scan :=
  match refreshRange h db cycle with
  | none => scanned
  | some (since, closed) => fun b =>
    if since ≤ b ∧ b < closed then some ⟨cycle.repo.gapThreshold, closed⟩ else scanned b

/-- The scan a bucket's row was computed from, after some cycles. -/
def scannedThrough (h : History) (cycles : List Refresh) : Int → Option Scan :=
  (cycles.foldl
    (fun st cycle => (refreshRollups h st.1 cycle, rescanned h st.1 cycle st.2))
    (({}, fun _ => none) : Rollups × (Int → Option Scan))).2

end Talus.Metrics
