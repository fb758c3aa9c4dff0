/-
  Talus.Metrics.Budget
  **A METRICS QUERY STAYS WITHIN ITS BUDGETS.**

  `QueryWithBudget` answers from raw samples when the window's planned input
  fits the raw budget, and otherwise from the rollup table with raw edges.
  Before either it brings the granularity within the bucket budget.

    • bucket budget: the legal widths are nested, so a coarser one never has
      more buckets (`bucketCount_anti`).  The recommendation is the finest one
      that fits, hence strictly coarser than a request that does not,
    • raw budget: a span is read only after the shared total has been checked,
      and the rows of a read are at most the samples its probe counted.

  A strict request has one more way to be refused than the two budgets of the
  request itself: at 6h, over the raw budget, with spans that the rollup table
  does not cover and that are over the budget together.

  Buckets are counted over Unix times in nanoseconds, which wrap in the year
  2262; a window that reaches beyond is miscounted.
-/
import Mathlib.Data.Int.Interval
import Talus.Metrics.Partition

namespace Talus.Metrics

open Talus.Base.Relation List Option

/-! ## §1. The bucket budget. -/

def maxQueryBuckets : Int := 600

def maxQueryRange : Int := 30 * 24 * hour

/-- `MetricIntervals`. -/
def metricIntervals : List Interval := [.m1, .m5, .m15, .h1, .h6]

def Interval.text : Interval → String
  | .m1 => "1m"
  | .m5 => "5m"
  | .m15 => "15m"
  | .h1 => "1h"
  | .h6 => "6h"

/-- The granularity a request names (`IsMetricInterval`). -/
def intervalOf (value : String) : Option Interval :=
  metricIntervals.find? fun interval => interval.text = value

/-- An `int64`. -/
def int64 (n : Int) : Int := n.bmod (2 ^ 64)

/-- Instants are microseconds here; the count is over nanoseconds. -/
def unixNano (t : Int) : Int := int64 (t * 1000)

/-- The aligned buckets that cover `[since, till)`, with both partial ones. -/
def bucketCount (since till : Int) (interval : Interval) : Int :=
  if ¬ since < till then 0
  else
    let size := intervalSeconds interval * 1000000000
    let first := (unixNano since).tdiv size
    let last := (int64 (unixNano till - 1)).tdiv size
    if last < first then 0 else last - first + 1

def recommendedInterval (since till : Int) : Option Interval :=
  metricIntervals.find? fun interval => bucketCount since till interval ≤ maxQueryBuckets

/-- The starting granularity of an `auto` query. -/
def defaultIntervalFor (since till : Int) : Interval :=
  if till - since ≤ hour then .m1
  else if till - since ≤ 6 * hour then .m5
  else if till - since ≤ 24 * hour then .m15
  else .h1

/-! ## §2. `QueryWithBudget`. -/

structure QueryRequest where
  since : Int
  till : Int
  requested : String := ""
  allowCoarsen : Bool := false
  stat : String := ""

inductive CoarsenReason where
  | bucketBudget | rawBudget
  deriving DecidableEq, Repr

inductive Source where
  | raw | rollup
  deriving DecidableEq, Repr

structure QueryResult where
  requestedInterval : String
  actualInterval : Interval
  coarsenReason : Option CoarsenReason
  stat : String
  coverage : ℚ
  source : Source
  downsampled : Bool
  points : List AggregatedMetric

inductive QueryError where
  | invalidStat (stat : String)
  | emptyRange
  | rangeTooLong
  | invalidInterval (requested : String)
  | budget (err : QueryBudgetError)

/-- What a call does: its outcome and the raw ranges it aggregated. -/
structure Execution where
  outcome : Except QueryError QueryResult
  reads : List Span := []

/-- A sample was collected in the bucket, or a counter has coverage. -/
def bucketHasObservation (p : AggregatedMetric) : Bool :=
  p.sampledAt.isSome
    || [Gauge.cpu, .memory, .disk, .swap, .load1, .load5, .load15].any
        (fun g => (p.gauges g).average.isSome)
    || rateCounters.any fun c => (p.rates c).coverage.any fun covered => decide (0 < covered)

/-- The observed fraction of the buckets (`summarize`). -/
def observedFraction (points : List AggregatedMetric) (since till : Int) (interval : Interval) :
    ℚ :=
  if points.length = 0 then 0
  else if bucketCount since till interval ≤ 0 then 0
  else points.countP bucketHasObservation / bucketCount since till interval

/-- The raw spans that are read before the shared budget refuses one. -/
def spansRead (h : History) : ℕ → List Span → List Span
  | _, [] => []
  | totalRaw, raw :: rest =>
    let (samples, overBudget) := probeRawSamples h raw.start raw.stop
    let totalRaw := totalRaw + samples
    if overBudget || decide (maxRawSamples < totalRaw) then []
    else raw :: spansRead h totalRaw rest

/-- No granularity, or `auto`. -/
def QueryRequest.auto (req : QueryRequest) : Bool := req.requested == "" || req.requested == "auto"

/-- An explicit granularity that may not be coarsened. -/
def QueryRequest.strict (req : QueryRequest) : Bool := !req.auto && !req.allowCoarsen

def QueryRequest.effectiveStat (req : QueryRequest) : String :=
  if req.stat = "" then "avg" else req.stat

/-- The granularity a query starts from. -/
def QueryRequest.startInterval (req : QueryRequest) : Option Interval :=
  if req.auto then some (defaultIntervalFor req.since req.till) else intervalOf req.requested

/-- Bring the granularity within the bucket budget. -/
def fitBuckets (req : QueryRequest) (interval : Interval) :
    Except QueryBudgetError (Interval × Option CoarsenReason) :=
  if maxQueryBuckets < bucketCount req.since req.till interval then
    match recommendedInterval req.since req.till with
    | none =>
      .error { reason := .bucketBudget
               samples := (bucketCount req.since req.till interval).toNat }
    | some recommended =>
      if req.strict then .error { reason := .bucketBudget, recommended := some recommended }
      else .ok (recommended, if req.auto then none else some .bucketBudget)
  else .ok (interval, none)

/-- Read at a granularity within the bucket budget. -/
def readWithin (repo : MetricRepo) (h : History) (db : Rollups) (now : Int) (req : QueryRequest)
    (interval : Interval) (coarsened : Option CoarsenReason) : Execution :=
  let shown := if req.auto then "auto" else req.requested
  let (samples, overBudget) := probeRawSamples h req.since req.till
  if !overBudget then
    let points := queryRawBuckets repo h req.since req.till interval
    { outcome := .ok
        { requestedInterval := shown, actualInterval := interval, coarsenReason := coarsened
          stat := req.effectiveStat
          coverage := observedFraction points req.since req.till interval
          source := .raw, downsampled := interval.text != shown && shown != "auto", points }
      reads := [⟨req.since, req.till⟩] }
  else if interval ≠ .h6 && req.strict then
    { outcome := .error (.budget { reason := .bucketBudget, recommended := some .h6, samples }) }
  else
    let reads := spansRead h 0 (sourcePlan db now req.since req.till).rawSpans
    match queryRollupWithEdges repo h db now req.since req.till with
    | .error err => { outcome := .error (.budget err), reads }
    | .ok (points, usedRollup) =>
      { outcome := .ok
          { requestedInterval := shown, actualInterval := .h6
            coarsenReason := if interval ≠ .h6 && !req.auto then some .rawBudget else coarsened
            stat := req.effectiveStat
            coverage := observedFraction points req.since req.till .h6
            source := if usedRollup then .rollup else .raw, downsampled := true, points }
        reads }

def queryWithBudget (repo : MetricRepo) (h : History) (db : Rollups) (now : Int)
    (req : QueryRequest) : Execution :=
  if req.effectiveStat ≠ "avg" ∧ req.effectiveStat ≠ "peak" then
    { outcome := .error (.invalidStat req.effectiveStat) }
  else if ¬ req.since < req.till then { outcome := .error .emptyRange }
  else if maxQueryRange < req.till - req.since then { outcome := .error .rangeTooLong }
  else
    match req.startInterval with
    | none => { outcome := .error (.invalidInterval req.requested) }
    | some start =>
      match fitBuckets req start with
      | .error err => { outcome := .error (.budget err) }
      | .ok (interval, coarsened) => readWithin repo h db now req interval coarsened

/-- The request passes the checks before the budgets, with this starting
granularity. -/
structure QueryRequest.Accepted (req : QueryRequest) (start : Interval) : Prop where
  stat : req.effectiveStat = "avg" ∨ req.effectiveStat = "peak"
  nonempty : req.since < req.till
  range : req.till - req.since ≤ maxQueryRange
  interval : req.startInterval = some start

/-! ## §3. Counting buckets. -/

section Buckets

variable {since till : Int}

/-- A window after the epoch, whose Unix times in nanoseconds are 64-bit. -/
structure Countable (since till : Int) : Prop where
  epoch : 0 ≤ since
  fits : till * 1000 < 2 ^ 63

theorem int64_of_nonneg {n : Int} (hnonneg : 0 ≤ n) (hfits : n < 2 ^ 63) : int64 n = n :=
  Int.bmod_eq_of_le (by omega) (by omega)

theorem bucketCount_eq (hepoch : Countable since till) (hlt : since < till) (interval : Interval) :
    bucketCount since till interval
      = (till - 1) / interval.width - since / interval.width + 1 := by
  have hw := interval.width_pos
  have hsize : intervalSeconds interval * 1000000000 = 1000 * interval.width := by
    unfold Interval.width second
    omega
  obtain ⟨hsince, hfits⟩ := hepoch
  have hfirst : (unixNano since).tdiv (1000 * interval.width) = since / interval.width := by
    rw [unixNano, int64_of_nonneg (by omega) (by omega), Int.tdiv_eq_ediv_of_nonneg (by omega),
      Int.mul_comm since, Int.mul_ediv_mul_of_pos _ _ (by decide)]
  have hlast : (int64 (unixNano till - 1)).tdiv (1000 * interval.width) =
      (till - 1) / interval.width := by
    rw [unixNano, int64_of_nonneg (by omega) hfits, int64_of_nonneg (by omega) (by omega),
      Int.tdiv_eq_ediv_of_nonneg (by omega), ← Int.ediv_ediv_of_nonneg (by decide)]
    congr 1
    omega
  have hle : since / interval.width ≤ (till - 1) / interval.width :=
    Int.ediv_le_ediv hw (by omega)
  unfold bucketCount
  rw [if_neg (not_not.mpr hlt)]
  dsimp only
  rw [hsize, hfirst, hlast, if_neg (by omega)]

/-- The legal widths are nested. -/
theorem Interval.width_dvd {i j : Interval} (hle : i.width ≤ j.width) : i.width ∣ j.width := by
  cases i <;> cases j <;> revert hle <;> decide

/-- **A coarser granularity never has more buckets.** -/
theorem bucketCount_anti (hepoch : Countable since till) (hlt : since < till) {i j : Interval}
    (hle : i.width ≤ j.width) : bucketCount since till j ≤ bucketCount since till i := by
  rw [bucketCount_eq hepoch hlt, bucketCount_eq hepoch hlt]
  obtain ⟨k, hk⟩ := Interval.width_dvd hle
  have hkpos : 0 < k := by
    have := i.width_pos
    have := j.width_pos
    rw [hk] at this
    exact pos_of_mul_pos_right this (by omega)
  rw [hk, ← Int.ediv_ediv_of_nonneg i.width_pos.le, ← Int.ediv_ediv_of_nonneg i.width_pos.le]
  -- `k` fine buckets make a coarse one, so `d` of them reach over at most `d` more
  set a := since / i.width
  set b := (till - 1) / i.width
  have hab : a ≤ b := Int.ediv_le_ediv i.width_pos (by omega)
  have hgrow : b ≤ a + (b - a) * k := by
    have := le_mul_of_one_le_right (by omega : 0 ≤ b - a) (by omega : 1 ≤ k)
    omega
  have hstep := Int.ediv_le_ediv hkpos hgrow
  rw [Int.add_mul_ediv_right _ _ hkpos.ne'] at hstep
  omega

/-- The coarsest granularity fits every window of at most thirty days. -/
theorem bucketCount_h6_le (hepoch : Countable since till) (hlt : since < till)
    (hrange : till - since ≤ maxQueryRange) : bucketCount since till .h6 ≤ maxQueryBuckets := by
  rw [bucketCount_eq hepoch hlt]
  have hw : Interval.h6.width = 21600000000 := by decide
  have hmax : maxQueryRange = 2592000000000 := by decide
  rw [hw]
  rw [hmax] at hrange
  unfold maxQueryBuckets
  omega

/-- The granularity fits, and no finer one does. -/
def Finest (since till : Int) (interval : Interval) : Prop :=
  bucketCount since till interval ≤ maxQueryBuckets
    ∧ ∀ j : Interval, j.width < interval.width → maxQueryBuckets < bucketCount since till j

theorem recommendedInterval_finest {interval : Interval}
    (hrec : recommendedInterval since till = some interval) : Finest since till interval := by
  obtain ⟨hfits, before, after, hsplit, hfail⟩ := find?_eq_some_iff_append.mp hrec
  refine ⟨of_decide_eq_true hfits, fun j hj => ?_⟩
  have hall : j ∈ metricIntervals := by cases j <;> decide
  have hwidths : metricIntervals.Pairwise fun i j => i.width < j.width := by decide
  rw [hsplit] at hall hwidths
  obtain ⟨-, hafter, -⟩ := pairwise_append.mp hwidths
  rcases mem_append.mp hall with hmem | hmem
  · simpa using hfail j hmem
  · rcases mem_cons.mp hmem with rfl | hmem
    · omega
    · have := (pairwise_cons.mp hafter).1 j hmem
      omega

theorem exists_recommendedInterval (hepoch : Countable since till) (hlt : since < till)
    (hrange : till - since ≤ maxQueryRange) :
    ∃ interval, recommendedInterval since till = some interval := by
  refine isSome_iff_exists.mp (find?_isSome.mpr ⟨.h6, by decide, ?_⟩)
  exact decide_eq_true (bucketCount_h6_le hepoch hlt hrange)

/-- Distinct aligned buckets that touch the window are at most its count. -/
theorem length_le_bucketCount (hepoch : Countable since till) (hlt : since < till) (interval : Interval)
    {times : List Int} (hsorted : times.Pairwise (· < ·))
    (htouch : ∀ t ∈ times, interval.width ∣ t
      ∧ max t since < min (t + interval.width) till) :
    (times.length : Int) ≤ bucketCount since till interval := by
  have hw := interval.width_pos
  have hle : since / interval.width ≤ (till - 1) / interval.width :=
    Int.ediv_le_ediv hw (by omega)
  have hnodup : (times.map (· / interval.width)).Nodup := by
    refine pairwise_map.mpr (List.Pairwise.imp_of_mem (fun {a b} ha hb hab heq => ?_) hsorted)
    have h1 := Int.ediv_mul_cancel (htouch a ha).1
    have h2 := Int.ediv_mul_cancel (htouch b hb).1
    rw [heq] at h1
    omega
  have hsub : (times.map (· / interval.width)).toFinset
      ⊆ Finset.Icc (since / interval.width) ((till - 1) / interval.width) := by
    intro n hn
    obtain ⟨t, ht, rfl⟩ := mem_map.mp (mem_toFinset.mp hn)
    obtain ⟨⟨k, rfl⟩, hmeet⟩ := htouch t ht
    rw [Finset.mem_Icc, Int.mul_ediv_cancel_left _ hw.ne']
    -- the bucket ends after the window's first instant and starts by its last
    constructor
    · refine Int.le_of_lt_add_one (Int.ediv_lt_of_lt_mul hw ?_)
      rw [Int.add_mul, Int.one_mul, Int.mul_comm k]
      omega
    · refine (Int.le_ediv_iff_mul_le hw).mpr ?_
      rw [Int.mul_comm k]
      omega
  have hcard := Finset.card_le_card hsub
  rw [toFinset_card_of_nodup hnodup, length_map, Int.card_Icc] at hcard
  rw [bucketCount_eq hepoch hlt]
  omega

end Buckets

/-! ## §4. Counting raw rows. -/

/-- The rows that the raw reads aggregate, each with its predecessor row. -/
def rowsAggregated (repo : MetricRepo) (h : History) (reads : List Span) : ℕ :=
  (reads.map fun S => ((rawQuery repo S.start S.stop .h6).bounded h).length).sum

variable {h : History}

/-- **A probe within the budget counts every row its read aggregates.** -/
theorem bounded_length_le (repo : MetricRepo) {since till : Int}
    (hfit : plannedSamples h since till ≤ maxRawSamples) :
    ((rawQuery repo since till .h6).bounded h).length ≤ plannedSamples h since till := by
  unfold plannedSamples at hfit ⊢
  unfold DeltaQuery.bounded
  change (List.length (_ ++ h.samples.filter fun s => decide (since ≤ s.time ∧ s.time < till))) ≤ _
  set window := h.samples.filter fun s => decide (since ≤ s.time ∧ s.time < till) with hwindow
  set earlier := h.samples.filter fun s => decide (s.time < (rawQuery repo since till .h6).scanStart)
    with hearlier
  dsimp only at hfit ⊢
  have hlimit : rawProbeLimit = maxRawSamples + 1 := rfl
  have htake : (window.take rawProbeLimit).length = window.length := by
    rw [length_take] at hfit ⊢
    split at hfit <;> omega
  have hlast : earlier.getLast?.toList.length
      ≤ if h.samples.any (fun s => decide (s.time < since)) = true then 1 else 0 := by
    cases hget : earlier.getLast? with
    | none => exact Nat.zero_le _
    | some s =>
      have hs := mem_filter.mp (mem_of_getLast? hget)
      rw [if_pos (any_eq_true.mpr ⟨s, hs.1, hs.2⟩)]
      exact le_refl _
  rw [length_append, htake]
  split
  · next hany =>
    rw [if_pos hany] at hlast
    omega
  · next hany =>
    rw [if_neg hany] at hlast
    omega

/-- **The spans read before a refusal stay within the shared budget.** -/
theorem spansRead_rows_le (repo : MetricRepo) (h : History) (spans : List Span) :
    ∀ total, total ≤ maxRawSamples →
      total + rowsAggregated repo h (spansRead h total spans) ≤ maxRawSamples := by
  induction spans with
  | nil => exact fun total htotal => htotal
  | cons S spans ih =>
    intro total htotal
    unfold spansRead
    dsimp only [probeRawSamples]
    by_cases hover : maxRawSamples < total + plannedSamples h S.start S.stop
    · rw [if_pos (by simp [hover])]
      exact htotal
    · have hsmall : plannedSamples h S.start S.stop ≤ maxRawSamples := by omega
      rw [if_neg (by simp [hover, hsmall])]
      have hrows := bounded_length_le repo hsmall
      have hrest := ih (total + plannedSamples h S.start S.stop) (by omega)
      unfold rowsAggregated at hrest ⊢
      rw [map_cons, sum_cons]
      omega

/-- With every span within the budget, all of them are read. -/
theorem spansRead_eq {spans : List Span} :
    ∀ {total}, total + plannedRaw h spans ≤ maxRawSamples → spansRead h total spans = spans := by
  induction spans with
  | nil => exact fun _ => rfl
  | cons S spans ih =>
    intro total hfit
    have hsum : plannedRaw h (S :: spans)
        = plannedSamples h S.start S.stop + plannedRaw h spans := rfl
    unfold spansRead
    dsimp only [probeRawSamples]
    have hover : ¬ maxRawSamples < total + plannedSamples h S.start S.stop := by omega
    have hsmall : plannedSamples h S.start S.stop ≤ maxRawSamples := by omega
    rw [if_neg (by simp [hover, hsmall]), ih (by omega)]

/-! ## §5. The budgets of a query. -/

section Query

variable (repo : MetricRepo) (h : History) {db : Rollups} (now : Int) {req : QueryRequest}
  {start : Interval} (interval : Interval) (coarsened : Option CoarsenReason)

/-- What an accepted request comes to. -/
theorem queryWithBudget_eq (hacc : req.Accepted start) :
    queryWithBudget repo h db now req
      = match fitBuckets req start with
        | .error err => { outcome := .error (.budget err) }
        | .ok (interval, coarsened) => readWithin repo h db now req interval coarsened := by
  unfold queryWithBudget
  rw [if_neg (by rcases hacc.stat with hs | hs <;> simp [hs]),
    if_neg (not_not.mpr hacc.nonempty), if_neg (not_lt.mpr hacc.range), hacc.interval]

/-- **What the bucket budget decides**: a request within it is left alone; one
over it is refused when strict and otherwise gets the finest granularity that
fits, which is strictly coarser. -/
theorem fitBuckets_cases (hepoch : Countable req.since req.till) (hacc : req.Accepted start) :
    (bucketCount req.since req.till start ≤ maxQueryBuckets ∧ fitBuckets req start = .ok (start, none))
    ∨ (maxQueryBuckets < bucketCount req.since req.till start
        ∧ ∃ finest, Finest req.since req.till finest ∧ start.width < finest.width
          ∧ fitBuckets req start
            = if req.strict then .error { reason := .bucketBudget, recommended := some finest }
              else .ok (finest, if req.auto then none else some .bucketBudget)) := by
  unfold fitBuckets
  by_cases hover : maxQueryBuckets < bucketCount req.since req.till start
  · obtain ⟨finest, hrec⟩ := exists_recommendedInterval hepoch hacc.nonempty hacc.range
    have hfinest := recommendedInterval_finest hrec
    refine .inr ⟨hover, finest, hfinest, ?_, by rw [if_pos hover, hrec]⟩
    refine not_le.mp fun hle => ?_
    have := bucketCount_anti hepoch hacc.nonempty hle
    have := hfinest.1
    omega
  · exact .inl ⟨not_lt.mp hover, if_neg hover⟩

/-- The raw input of the request is over the raw budget. -/
def QueryRequest.overRaw (req : QueryRequest) (h : History) : Prop :=
  maxRawSamples < plannedSamples h req.since req.till

/-- What the spans that the rollup table does not cover need together. -/
def uncoveredRaw (h : History) (db : Rollups) (now : Int) (req : QueryRequest) : ℕ :=
  plannedRaw h (sourcePlan db now req.since req.till).rawSpans

/-- **A read refuses** over the raw budget: for the budget when it may not go
to 6h, and for the missing rollups when the uncovered spans are over it too. -/
theorem readWithin_refused_iff (db : Rollups) (req : QueryRequest) (reason : QueryBudgetReason) :
    (∃ err, (readWithin repo h db now req interval coarsened).outcome = .error (.budget err)
        ∧ err.reason = reason)
      ↔ req.overRaw h
        ∧ if interval ≠ .h6 ∧ req.strict then reason = .bucketBudget
          else maxRawSamples < uncoveredRaw h db now req ∧ reason = .rollupNotReady := by
  unfold readWithin QueryRequest.overRaw uncoveredRaw
  dsimp only [probeRawSamples]
  by_cases hover : maxRawSamples < plannedSamples h req.since req.till
  · rw [if_neg (by simp [hover])]
    by_cases hstrict : interval ≠ .h6 ∧ req.strict
    · rw [if_pos (by simpa using hstrict), if_pos hstrict]
      constructor
      · rintro ⟨err, herr, rfl⟩
        cases herr
        exact ⟨hover, rfl⟩
      · rintro ⟨-, rfl⟩
        exact ⟨_, rfl, rfl⟩
    · rw [if_neg (by simpa using hstrict), if_neg hstrict]
      cases hrollup : queryRollupWithEdges repo h db now req.since req.till with
      | ok answer =>
        have hfit := (queryRollupWithEdges_eq_ok_iff.mp hrollup).1
        constructor
        · rintro ⟨err, herr, -⟩
          cases herr
        · rintro ⟨-, hlarge, -⟩
          omega
      | error err =>
        obtain ⟨hlarge, hreason⟩ := queryRollupWithEdges_eq_error hrollup
        constructor
        · rintro ⟨err', herr, rfl⟩
          cases herr
          exact ⟨hover, hlarge, hreason⟩
        · rintro ⟨-, -, rfl⟩
          exact ⟨err, rfl, hreason⟩
  · rw [if_pos (by simpa using hover)]
    exact ⟨fun ⟨_, herr, _⟩ => (by cases herr), fun hread => absurd hread.1 hover⟩

/-- A read fails for a budget only. -/
theorem readWithin_error_iff :
    (∃ err, (readWithin repo h db now req interval coarsened).outcome = .error err)
      ↔ ∃ reason err, (readWithin repo h db now req interval coarsened).outcome
          = .error (.budget err) ∧ err.reason = reason := by
  refine ⟨?_, fun ⟨_, _, herr, _⟩ => ⟨_, herr⟩⟩
  unfold readWithin
  dsimp only [probeRawSamples]
  split
  · exact nofun
  split
  · exact fun _ => ⟨_, _, rfl, rfl⟩
  split
  · exact fun _ => ⟨_, _, rfl, rfl⟩
  · exact nofun

/-- **A read stays within both budgets**, and is refused for the raw one only. -/
theorem readWithin_bounds (hepoch : Countable req.since req.till) (hacc : req.Accepted start)
    (hkeys : (db.rows.map RollupRow.bucketStart).Nodup)
    (hfits : bucketCount req.since req.till interval ≤ maxQueryBuckets) :
    rowsAggregated repo h (readWithin repo h db now req interval coarsened).reads ≤ maxRawSamples
    ∧ (∀ result, (readWithin repo h db now req interval coarsened).outcome = .ok result →
        (result.points.length : Int) ≤ maxQueryBuckets
        ∧ (result.actualInterval = interval ∧ result.coarsenReason = coarsened
          ∨ req.overRaw h ∧ result.actualInterval = .h6
            ∧ (result.coarsenReason = some .rawBudget ∨ req.auto ∧ result.coarsenReason = coarsened))
        ∧ ((readWithin repo h db now req interval coarsened).reads = [⟨req.since, req.till⟩]
          ∨ (readWithin repo h db now req interval coarsened).reads
            = (sourcePlan db now req.since req.till).rawSpans)) := by
  have hlt := hacc.nonempty
  unfold readWithin
  dsimp only [probeRawSamples]
  by_cases hover : maxRawSamples < plannedSamples h req.since req.till
  · rw [if_neg (by simp [hover])]
    split
    · exact ⟨Nat.zero_le _, nofun⟩
    · have hrows := spansRead_rows_le repo h (sourcePlan db now req.since req.till).rawSpans 0
        (Nat.zero_le _)
      rw [Nat.zero_add] at hrows
      cases hrollup : queryRollupWithEdges repo h db now req.since req.till with
      | error err => exact ⟨hrows, nofun⟩
      | ok answer =>
        refine ⟨hrows, fun result hok => ?_⟩
        cases hok
        have hfit := (queryRollupWithEdges_eq_ok_iff.mp hrollup).1
        obtain ⟨hsorted, htimes⟩ := answer_times hkeys hrollup
        have hcount := length_le_bucketCount hepoch hlt .h6 hsorted htimes
        rw [length_map] at hcount
        refine ⟨hcount.trans (bucketCount_h6_le hepoch hlt hacc.range), ?_,
          .inr (spansRead_eq (by rw [Nat.zero_add]; exact hfit))⟩
        by_cases hh6 : interval = .h6
        · exact .inl ⟨hh6.symm, by simp [hh6]⟩
        · refine .inr ⟨hover, rfl, ?_⟩
          cases hauto : req.auto <;> simp [hh6]
  · rw [if_pos (by simpa using hover)]
    constructor
    · have hrows := bounded_length_le repo (not_lt.mp hover)
      unfold rowsAggregated
      rw [map_singleton, sum_singleton]
      exact hrows.trans (not_lt.mp hover)
    · intro result hok
      cases hok
      refine ⟨?_, .inl ⟨rfl, rfl⟩, .inl rfl⟩
      have htable := queryRawBuckets_tabulates repo h req.since req.till interval
      have hsorted := pairwise_map.mp htable.sorted
      have htimes : ((queryRawBuckets repo h req.since req.till interval).map
          AggregatedMetric.time).Pairwise (· < ·) := pairwise_map.mpr hsorted
      have hcount := length_le_bucketCount hepoch hlt interval htimes fun t ht => by
        obtain ⟨p, hp, rfl⟩ := mem_map.mp ht
        exact rawStatistics_eq_some ((htable.mem p.statistics).mp (mem_map_of_mem hp))
      rw [length_map] at hcount
      exact hcount.trans hfits

end Query

/-- **The budgets of a query.**  For every database state and every accepted
request with a window after the epoch whose buckets can be counted:

  • the raw reads aggregate at most 12000 rows together, predecessor rows
    included, whatever the outcome,
  • an answer has at most 600 points; its raw reads are the window or the raw
    spans of the plan,
  • a granularity over the bucket budget becomes strictly coarser: the finest
    one that fits, or 6h when the raw input is over its budget as well,
  • a strict request is refused for its own size exactly when its granularity is
    over the bucket budget, or its raw input is over the raw budget and it is
    not at 6h; it is refused at all exactly when, besides, a 6h request over the
    raw budget has uncovered spans that are over it together. -/
theorem query_within_budget (repo : MetricRepo) (h : History) (db : Rollups) (now : Int)
    (req : QueryRequest) (start : Interval) (hepoch : Countable req.since req.till)
    (hkeys : (db.rows.map RollupRow.bucketStart).Nodup) (hacc : req.Accepted start) :
    let run := queryWithBudget repo h db now req
    rowsAggregated repo h run.reads ≤ maxRawSamples
    ∧ (∀ result, run.outcome = .ok result →
        (result.points.length : Int) ≤ maxQueryBuckets
        ∧ (run.reads = [⟨req.since, req.till⟩]
          ∨ run.reads = (sourcePlan db now req.since req.till).rawSpans)
        ∧ (result.coarsenReason = some .bucketBudget →
            maxQueryBuckets < bucketCount req.since req.till start
            ∧ start.width < result.actualInterval.width
            ∧ Finest req.since req.till result.actualInterval)
        ∧ (maxQueryBuckets < bucketCount req.since req.till start →
            start.width < result.actualInterval.width
            ∧ (Finest req.since req.till result.actualInterval
              ∨ req.overRaw h ∧ result.actualInterval = .h6)))
    ∧ (req.strict = true →
        ((∃ err, run.outcome = .error (.budget err) ∧ err.reason = .bucketBudget)
          ↔ maxQueryBuckets < bucketCount req.since req.till start
            ∨ req.overRaw h ∧ start ≠ .h6)
        ∧ ((∃ err, run.outcome = .error err)
          ↔ maxQueryBuckets < bucketCount req.since req.till start
            ∨ req.overRaw h ∧ (start ≠ .h6 ∨ maxRawSamples < uncoveredRaw h db now req))) := by
  intro run
  have hrun : run = _ := queryWithBudget_eq repo h now hacc
  rcases fitBuckets_cases hepoch hacc with ⟨hfits, hok⟩ | ⟨hover, finest, hfinest, hwider, heq⟩
  · -- within the bucket budget: the request is read at its own granularity
    rw [hok] at hrun
    obtain ⟨hrows, hresult⟩ := readWithin_bounds repo h now start none hepoch hacc hkeys hfits
    rw [hrun]
    refine ⟨hrows, fun result hres => ?_, fun hstrict => ?_⟩
    · obtain ⟨hpoints, hkind, hreads⟩ := hresult result hres
      refine ⟨hpoints, hreads, fun hreason => ?_, fun hover => absurd hover (by omega)⟩
      rcases hkind with ⟨-, hnone⟩ | ⟨-, -, hraw | ⟨-, hnone⟩⟩ <;> rw [hreason] at * <;> simp at *
    · have hrefused := readWithin_refused_iff repo h now start none db req
      have hnot : ¬ maxQueryBuckets < bucketCount req.since req.till start := not_lt.mpr hfits
      rw [readWithin_error_iff]
      simp only [hrefused]
      by_cases hh6 : start = .h6
      · subst hh6
        simp [hnot]
      · simp [hh6, hstrict, hnot]
  · cases hstrict : req.strict with
    | true =>
      rw [heq, if_pos hstrict] at hrun
      rw [hrun]
      refine ⟨Nat.zero_le _, nofun, fun _ => ⟨?_, ?_⟩⟩
      · exact ⟨fun _ => .inl hover, fun _ => ⟨_, rfl, rfl⟩⟩
      · exact ⟨fun _ => .inl hover, fun _ => ⟨_, rfl⟩⟩
    | false =>
      rw [heq, if_neg (by simp [hstrict])] at hrun
      obtain ⟨hrows, hresult⟩ := readWithin_bounds repo h now finest
        (if req.auto then none else some .bucketBudget) hepoch hacc hkeys hfinest.1
      rw [hrun]
      refine ⟨hrows, fun result hres => ?_, nofun⟩
      obtain ⟨hpoints, hkind, hreads⟩ := hresult result hres
      have hh6 : finest.width ≤ Interval.h6.width := by cases finest <;> decide
      refine ⟨hpoints, hreads, fun hreason => ⟨hover, ?_⟩, fun _ => ?_⟩
      · rcases hkind with ⟨hactual, -⟩ | ⟨-, -, hraw | ⟨hauto, hnone⟩⟩
        · exact hactual ▸ ⟨hwider, hfinest⟩
        · rw [hreason] at hraw
          cases hraw
        · rw [hreason, if_pos hauto] at hnone
          cases hnone
      · rcases hkind with ⟨hactual, -⟩ | ⟨hraw, hactual, -⟩
        · exact hactual ▸ ⟨hwider, .inl hfinest⟩
        · rw [hactual]
          exact ⟨by omega, .inr ⟨hraw, rfl⟩⟩

/-- A week at one minute, which may be coarsened. -/
def weekRequest : QueryRequest where
  since := 4000 * rollupBucket
  till := 4028 * rollupBucket
  requested := "1m"
  allowCoarsen := true

/-- The week has 672 quarters of an hour, so it is read by the hour. -/
theorem query_within_budget_week :
    weekRequest.Accepted .m1
    ∧ ∃ result, (queryWithBudget {} innerHistory {} 0 weekRequest).outcome = .ok result
      ∧ result.actualInterval = .h1
      ∧ Finest weekRequest.since weekRequest.till result.actualInterval := by
  have hacc : weekRequest.Accepted .m1 := ⟨.inl rfl, by decide, by decide, by decide⟩
  have hread : (queryWithBudget {} innerHistory {} 0 weekRequest).outcome.toOption.map
      (fun r => (r.actualInterval, r.coarsenReason)) = some (.h1, some .bucketBudget) := by
    decide +kernel
  obtain ⟨result, hresult, hkind⟩ := map_eq_some_iff.mp hread
  have hok : (queryWithBudget {} innerHistory {} 0 weekRequest).outcome = .ok result := by
    cases hout : (queryWithBudget {} innerHistory {} 0 weekRequest).outcome with
    | error err =>
      rw [hout] at hresult
      cases hresult
    | ok r =>
      rw [hout] at hresult
      cases hresult
      rfl
  have hall := (query_within_budget {} innerHistory {} 0 weekRequest .m1
    ⟨by decide, by decide⟩ nodup_nil hacc).2.1 result hok
  exact ⟨hacc, result, hok, congrArg Prod.fst hkind,
    (hall.2.2.1 (congrArg Prod.snd hkind)).2.2⟩

/-! ## §6. Strict requests that are refused. -/

/-- One sample a second from a bucket boundary on. -/
def everySecond (n : ℕ) : History where
  samples := (List.range n).map fun i : ℕ => { time := 1000 * rollupBucket + i * second }
  ordered := by
    refine List.pairwise_map.mpr (List.pairwise_lt_range.imp fun {a b} hlt => ?_)
    show 1000 * rollupBucket + a * second ≤ 1000 * rollupBucket + b * second
    unfold second
    omega

/-- One bucket at 6h, strict. -/
def bucketRequest : QueryRequest where
  since := 1000 * rollupBucket
  till := 1001 * rollupBucket
  requested := "6h"

theorem everySecond_planned {n : ℕ} (hn : n ≤ rawProbeLimit) :
    plannedSamples (everySecond n) (1000 * rollupBucket) (1001 * rollupBucket) = n := by
  have hbucket : rollupBucket = 21600000000 := by decide
  have hlimit : rawProbeLimit = 12001 := rfl
  have htime : ∀ s ∈ (everySecond n).samples,
      1000 * rollupBucket ≤ s.time ∧ s.time < 1001 * rollupBucket := by
    intro s hs
    obtain ⟨i, hi, rfl⟩ := mem_map.mp hs
    have := mem_range.mp hi
    show 1000 * rollupBucket ≤ 1000 * rollupBucket + i * second
      ∧ 1000 * rollupBucket + i * second < 1001 * rollupBucket
    unfold second
    omega
  have hall : (everySecond n).samples.filter
      (fun s => decide (1000 * rollupBucket ≤ s.time ∧ s.time < 1001 * rollupBucket))
        = (everySecond n).samples :=
    filter_eq_self.mpr fun s hs => decide_eq_true (htime s hs)
  have hfirst : (everySecond n).samples.any (fun s => decide (s.time < 1000 * rollupBucket))
      = false :=
    any_eq_false.mpr fun s hs => by simpa using (htime s hs).1
  have hlength : (everySecond n).samples.length = n := by
    rw [everySecond, length_map, length_range]
  unfold plannedSamples
  rw [hall, hfirst, if_neg (by decide), length_take, hlength, Nat.min_eq_right hn]

/-- Without a rollup row the one span of the plan is the bucket itself. -/
theorem bucketRequest_refused (hover : bucketRequest.overRaw h) :
    ∃ err, (queryWithBudget {} h {} (1002 * rollupBucket) bucketRequest).outcome
      = .error (.budget err) ∧ err.reason = .rollupNotReady := by
  have hacc : bucketRequest.Accepted .h6 := ⟨.inl rfl, by decide, by decide, by decide⟩
  have hfit : fitBuckets bucketRequest .h6 = .ok (.h6, none) := by decide
  have hspans : (sourcePlan {} (1002 * rollupBucket) bucketRequest.since bucketRequest.till).rawSpans
      = [⟨bucketRequest.since, bucketRequest.till⟩] := by decide +kernel
  rw [queryWithBudget_eq _ _ _ hacc, hfit]
  refine (readWithin_refused_iff _ _ _ _ _ _ _ _).mpr ⟨hover, ?_⟩
  rw [if_neg (by decide)]
  unfold uncoveredRaw plannedRaw
  rw [hspans, map_singleton, sum_singleton]
  exact ⟨hover, rfl⟩

/-- Ten hours of the year 2300 by the minute, strict. -/
def farRequest : QueryRequest where
  since := 10413792000 * second
  till := 10413828000 * second
  requested := "1m"

/-- Their six hundred minutes are counted as 601. -/
theorem farRequest_refused :
    ∃ err, (queryWithBudget {} h {} 0 farRequest).outcome = .error (.budget err)
      ∧ err.reason = .bucketBudget := by
  have hacc : farRequest.Accepted .m1 := ⟨.inl rfl, by decide, by decide, by decide⟩
  have hover : fitBuckets farRequest .m1
      = .error { reason := .bucketBudget, recommended := some .m5 } := by decide
  rw [queryWithBudget_eq _ _ _ hacc, hover]
  exact ⟨_, rfl, rfl⟩

/-- **Strict requests are refused that should not be.**  One at 6h within the
bucket budget, while its bucket is not in the rollup table and holds more
samples than the raw budget; and one for six hundred whole minutes, after the
last instant whose Unix time in nanoseconds is 64-bit. -/
theorem strict_h6_refused :
    (bucketRequest.Accepted .h6 ∧ bucketRequest.strict = true
      ∧ bucketCount bucketRequest.since bucketRequest.till .h6 ≤ maxQueryBuckets
      ∧ ∃ err, (queryWithBudget {} (everySecond rawProbeLimit) {} (1002 * rollupBucket)
          bucketRequest).outcome = .error (.budget err) ∧ err.reason = .rollupNotReady)
    ∧ farRequest.Accepted .m1 ∧ farRequest.strict = true
    ∧ Interval.m1.width ∣ farRequest.since
    ∧ farRequest.till - farRequest.since = 600 * Interval.m1.width
    ∧ ∃ err, (queryWithBudget {} { samples := [], ordered := .nil } {} 0 farRequest).outcome
        = .error (.budget err) ∧ err.reason = .bucketBudget := by
  have hover : bucketRequest.overRaw (everySecond rawProbeLimit) := by
    unfold QueryRequest.overRaw
    rw [show bucketRequest.since = 1000 * rollupBucket from rfl,
      show bucketRequest.till = 1001 * rollupBucket from rfl, everySecond_planned (le_refl _)]
    decide
  exact ⟨⟨⟨.inl rfl, by decide, by decide, by decide⟩, by decide, by decide,
    bucketRequest_refused hover⟩, ⟨.inl rfl, by decide, by decide, by decide⟩, by decide,
    by decide, by decide, farRequest_refused⟩

end Talus.Metrics
