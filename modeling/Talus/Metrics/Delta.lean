/-
  Talus.Metrics.Delta
  **ADJACENT SAMPLES, THEIR RATES AND THEIR BUCKETS.**

  The query every metrics read is built on (`deltaSamplesCTE`): the samples of
  a scan together with one predecessor row, each with the rate of its four
  counters since the sample before it, and every such pair split over the
  buckets it overlaps, clipped to the request window.  Gauges are aggregated
  per sample, rates per split pair.

  Instants and durations are integers: microseconds (since the Unix epoch), the
  resolution the database keeps.  Sums, averages and rates are exact rationals.
-/
import Talus.Base.Relation

namespace Talus.Metrics

open Talus.Base.Relation

/-! ## §1. Times and intervals. -/

def second : Int := 1000000

def minute : Int := 60 * second

def hour : Int := 60 * minute

/-- `EXTRACT(EPOCH FROM interval)`: the seconds of a span. -/
def epoch (d : Int) : ℚ := d / 1000000

/-- The legal granularities (`MetricIntervals`), coarsest last. -/
inductive Interval where
  | m1 | m5 | m15 | h1 | h6
  deriving DecidableEq, Repr

def intervalSeconds : Interval → Int
  | .m1 => 60
  | .m5 => 300
  | .m15 => 900
  | .h1 => 3600
  | .h6 => 21600

/-- The bucket width of a granularity. -/
def Interval.width (interval : Interval) : Int := intervalSeconds interval * second

/-- `bucketExpr`: the epoch-aligned bucket that holds an instant. -/
def bucketExpr (width : Int) (t : Int) : Int := t / width * width

/-! ## §2. Samples. -/

/-- One row of `metrics`.  Every column but the time and the boot id may be
NULL. -/
structure Sample where
  time : Int
  bootId : String := ""
  cpuPercent : Option ℚ := none
  memoryUsed : Option Int := none
  memoryTotal : Option Int := none
  diskUsed : Option Int := none
  diskTotal : Option Int := none
  swapUsed : Option Int := none
  swapTotal : Option Int := none
  load1 : Option ℚ := none
  load5 : Option ℚ := none
  load15 : Option ℚ := none
  netBytesRecv : Option Int := none
  netBytesSent : Option Int := none
  diskReadBytes : Option Int := none
  diskWriteBytes : Option Int := none
  deriving DecidableEq

/-- The samples of one server in time order.  Samples with one timestamp are
allowed (the table has no unique key); they stand in the order the database
returns them in. -/
structure History where
  samples : List Sample
  ordered : samples.Pairwise fun a b => a.time ≤ b.time

/-- The monotonic counters whose per-sample delta matters. -/
inductive Counter where
  | netBytesRecv | netBytesSent | diskReadBytes | diskWriteBytes
  deriving DecidableEq, Repr

def rateCounters : List Counter :=
  [.netBytesRecv, .netBytesSent, .diskReadBytes, .diskWriteBytes]

def Sample.counter (s : Sample) : Counter → Option Int
  | .netBytesRecv => s.netBytesRecv
  | .netBytesSent => s.netBytesSent
  | .diskReadBytes => s.diskReadBytes
  | .diskWriteBytes => s.diskWriteBytes

/-- The gauges of a sample. -/
inductive Gauge where
  | cpu | memory | disk | swap | load1 | load5 | load15
  deriving DecidableEq, Repr

/-- `total > 0`; a NULL total is not. -/
def positive (total : Option Int) : Bool := total.any fun t => decide (0 < t)

/-- `CASE WHEN total > 0 THEN used * 100.0 / total END`. -/
def percent (used total : Option Int) : Option ℚ :=
  match used, total with
  | some u, some t => if 0 < t then some (u * 100 / t) else none
  | _, _ => none

def Sample.gauge (s : Sample) : Gauge → Option ℚ
  | .cpu => s.cpuPercent
  | .memory => percent s.memoryUsed s.memoryTotal
  | .disk => percent s.diskUsed s.diskTotal
  | .swap => percent s.swapUsed s.swapTotal
  | .load1 => s.load1
  | .load5 => s.load5
  | .load15 => s.load15

/-- What `COUNT` counts: a plain gauge that is not NULL, or a percentage whose
total is positive, whether or not its used column is there. -/
def Sample.counted (s : Sample) : Gauge → Bool
  | .memory => positive s.memoryTotal
  | .disk => positive s.diskTotal
  | .swap => positive s.swapTotal
  | g => (s.gauge g).isSome

/-! ## §3. The gap threshold. -/

def defaultDeltaGapThreshold : Int := 3 * minute

/-- Three collection intervals, or the default. -/
def deltaGapForInterval (interval : Int) : Int :=
  if interval ≤ 0 then defaultDeltaGapThreshold else 3 * interval

/-- The repository: the monitor interval of the runtime configuration, in
seconds, when there is one, and the threshold set by hand. -/
structure MetricRepo where
  runtimeConfig : Option Int := none
  deltaGapThreshold : Int := 0

/-- The threshold in force. -/
def MetricRepo.gapThreshold (r : MetricRepo) : Int :=
  match r.runtimeConfig with
  | some monitorInterval => deltaGapForInterval (monitorInterval * second)
  | none => if 0 < r.deltaGapThreshold then r.deltaGapThreshold else defaultDeltaGapThreshold

theorem MetricRepo.gapThreshold_pos (r : MetricRepo) : 0 < r.gapThreshold := by
  have hdefault : (0 : Int) < defaultDeltaGapThreshold := by decide
  have hinterval : ∀ d, 0 < deltaGapForInterval d := by
    intro d
    unfold deltaGapForInterval
    split
    · exact hdefault
    · next h => exact mul_pos (by decide) (not_le.mp h)
  unfold MetricRepo.gapThreshold
  split
  · exact hinterval _
  · split
    · assumption
    · exact hdefault

/-! ## §4. `deltaSamplesCTE`. -/

/-- The parameters of the shared query. -/
structure DeltaQuery where
  scanStart : Int
  scanEnd : Int
  gap : Int
  windowStart : Int
  windowEnd : Int
  width : Int

/-- The rate of one counter over a pair of neighbouring samples: NULL across a
missing value, a reboot, a decrease, an empty interval or a gap above the
threshold. -/
def counterRate (gap : Int) (prev cur : Sample) (c : Counter) : Option ℚ :=
  match prev.counter c, cur.counter c with
  | some before, some after =>
    if cur.bootId ≠ prev.bootId then none
    else if after < before then none
    else if epoch (cur.time - prev.time) ≤ 0 then none
    else if gap < cur.time - prev.time then none
    else some ((after - before : Int) / epoch (cur.time - prev.time))
  | _, _ => none

/-- One row of `pairs`: what a pair of samples contributes to one bucket. -/
structure PairRow where
  bucket : Int
  sampleTime : Int
  prevTime : Int
  rate : Counter → Option ℚ
  weight : Counter → ℚ

namespace DeltaQuery

variable (q : DeltaQuery)

/-- The samples of the scan, after the one predecessor row. -/
def bounded (h : History) : List Sample :=
  (h.samples.filter fun s => s.time < q.scanStart).getLast?.toList
    ++ h.samples.filter fun s => q.scanStart ≤ s.time ∧ s.time < q.scanEnd

/-- `lag(…) OVER (ORDER BY time)`. -/
def lagged (h : History) : List (Option Sample × Sample) := lagFrom none (q.bounded h)

/-- The bucket grid of the request window. -/
def pairBuckets : List Int :=
  series (bucketExpr q.width q.windowStart) (bucketExpr q.width q.windowEnd) q.width

/-- The row of `pairs` for a pair and a bucket: they and the window must
overlap, and at least one counter must have a rate. -/
def pairRow (bucket : Int) (prev cur : Sample) : Option PairRow :=
  let upper := min cur.time (min (bucket + q.width) q.windowEnd)
  let lower := max prev.time (max bucket q.windowStart)
  if prev.time < bucket + q.width ∧ bucket < cur.time
      ∧ prev.time < q.windowEnd ∧ q.windowStart < cur.time ∧ lower < upper
      ∧ rateCounters.any fun c => (counterRate q.gap prev cur c).isSome then
    some
      { bucket, sampleTime := cur.time, prevTime := prev.time,
        rate := counterRate q.gap prev cur,
        weight := fun c =>
          if (counterRate q.gap prev cur c).isSome then max 0 (epoch (upper - lower)) else 0 }
  else none

def pairs (h : History) : List PairRow :=
  (q.lagged h).flatMap fun row =>
    row.1.elim [] fun prev => q.pairBuckets.filterMap fun b => q.pairRow b prev row.2

end DeltaQuery

/-! ## §5. The aggregates of a bucket. -/

/-- The sum, the count and the maximum of one gauge. -/
structure GaugeTotals where
  sum : Option ℚ
  count : ℕ
  max : Option ℚ
  deriving DecidableEq

def gaugeTotals (rows : List Sample) (g : Gauge) : GaugeTotals where
  sum := sqlSum (rows.map fun s => s.gauge g)
  count := rows.countP fun s => s.counted g
  max := sqlMax (rows.map fun s => s.gauge g)

/-- The rate, peak and coverage columns of one counter. -/
structure RateCells where
  rate : Option ℚ
  peak : Option ℚ
  coverage : Option ℚ
  deriving DecidableEq

/-- The coverage-weighted average rate. -/
def metricRateExpression (rows : List PairRow) (c : Counter) : Option ℚ :=
  (sqlSum (rows.map fun p => some (p.weight c))).bind fun total =>
    if 0 < total then
      (sqlSum (rows.map fun p => (p.rate c).map (· * p.weight c))).map (· / total)
    else none

/-- The sampled maximum of the effective rate. -/
def metricPeakExpression (rows : List PairRow) (c : Counter) : Option ℚ :=
  sqlMax (rows.map fun p => p.rate c)

/-- The valid coverage seconds. -/
def metricCoverageExpression (rows : List PairRow) (c : Counter) : Option ℚ :=
  sqlSum (rows.map fun p => some (p.weight c))

def rateCells (rows : List PairRow) (c : Counter) : RateCells where
  rate := metricRateExpression rows c
  peak := metricPeakExpression rows c
  coverage := metricCoverageExpression rows c

/-- The rates of every bucket that a pair reaches. -/
def rateAggregateSelect (q : DeltaQuery) (h : History) : List (Int × (Counter → RateCells)) :=
  groupBy PairRow.bucket rateCells (q.pairs h)

/-- The columns of a bucket without a rate row. -/
def noRates : Counter → RateCells := fun _ => ⟨none, none, none⟩

end Talus.Metrics
