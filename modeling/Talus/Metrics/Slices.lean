/-
  Talus.Metrics.Slices
  **WHAT A DELTA QUERY SEES OF A BUCKET.**

  Every read of a bucket, raw or materialized, comes down to three bounds: the
  part `[lo, hi)` of the bucket it observes, and the end `z` of its scan.

    • its gauges are those of the samples in `[lo, hi)` (`readings`),
    • its rates are those of the pairs of neighbouring samples that overlap
      `[lo, hi)` and whose LATER sample the scan reaches (`parts`).

  So two reads of the same part can differ only by a pair that one scan sees and
  the other does not.
-/
import Talus.Metrics.Query

namespace Talus.Metrics

open Talus.Base.Relation List Option

/-! ## §1. Bucket arithmetic. -/

section Buckets

variable {w b t : Int}

theorem bucketExpr_le (hw : 0 < w) (t : Int) : bucketExpr w t ≤ t :=
  Int.ediv_mul_le t hw.ne'

theorem lt_bucketExpr_add (hw : 0 < w) (t : Int) : t < bucketExpr w t + w := by
  have := Int.lt_ediv_add_one_mul_self t hw
  unfold bucketExpr
  rwa [Int.add_mul, Int.one_mul] at this

theorem dvd_bucketExpr (w t : Int) : w ∣ bucketExpr w t := Int.dvd_mul_left (t / w) w

/-- Two aligned instants less than one width apart are equal. -/
theorem aligned_le (hw : 0 < w) {a : Int} (ha : w ∣ a) (hb : w ∣ b) (h : a < b + w) : a ≤ b := by
  obtain ⟨i, rfl⟩ := ha
  obtain ⟨j, rfl⟩ := hb
  have hij : i < j + 1 := by
    refine lt_of_mul_lt_mul_left ?_ hw.le
    rwa [Int.mul_add, Int.mul_one]
  exact mul_le_mul_of_nonneg_left (Int.lt_add_one_iff.mp hij) hw.le

theorem bucketExpr_eq_iff (hw : 0 < w) (hb : w ∣ b) : bucketExpr w t = b ↔ b ≤ t ∧ t < b + w := by
  have h1 := bucketExpr_le hw t
  have h2 := lt_bucketExpr_add hw t
  constructor
  · rintro rfl
    exact ⟨h1, h2⟩
  · intro h
    have hle := aligned_le hw (dvd_bucketExpr w t) hb (by omega)
    have hge := aligned_le hw hb (dvd_bucketExpr w t) (by omega)
    omega

theorem aligned_step (hw : 0 < w) {a : Int} (ha : w ∣ a) (hb : w ∣ b) (h : a ≤ b) :
    ∃ i : ℕ, b = a + i * w := by
  obtain ⟨k, hk⟩ := Int.dvd_sub hb ha
  have hk0 : 0 ≤ k := by
    by_contra hneg
    have : w * k < 0 := mul_neg_of_pos_of_neg hw (not_le.mp hneg)
    omega
  refine ⟨k.toNat, ?_⟩
  rw [Int.toNat_of_nonneg hk0, Int.mul_comm]
  omega

/-- The buckets of a grid. -/
theorem mem_grid (hw : 0 < w) {s : Int} (hs : w ∣ s) :
    b ∈ series s t w ↔ w ∣ b ∧ s ≤ b ∧ b ≤ t := by
  rw [mem_series hw]
  constructor
  · rintro ⟨i, rfl, hi⟩
    exact ⟨Int.dvd_add hs (Int.dvd_mul_left _ _),
      le_add_of_nonneg_right (mul_nonneg (Int.natCast_nonneg i) hw.le), hi⟩
  · rintro ⟨hb, hstart, hstop⟩
    obtain ⟨i, hi⟩ := aligned_step hw hs hb hstart
    exact ⟨i, hi, hstop⟩

end Buckets

theorem Interval.width_pos (interval : Interval) : 0 < interval.width := by
  cases interval <;> decide

theorem rollupBucket_pos : (0 : Int) < rollupBucket := by decide

/-! ## §2. Readings and parts. -/

/-- The samples of `[lo, hi)`. -/
def readings (h : History) (lo hi : Int) : List Sample :=
  h.samples.filter fun s => lo ≤ s.time ∧ s.time < hi

/-- At least one counter has a rate over the pair. -/
def usable (gap : Int) (p : Sample × Sample) : Bool :=
  rateCounters.any fun c => (counterRate gap p.1 p.2 c).isSome

/-- What a pair contributes to the part `[lo, hi)` of a bucket. -/
def cut (gap : Int) (b lo hi : Int) (p : Sample × Sample) : Option PairRow :=
  if max p.1.time lo < min p.2.time hi ∧ usable gap p then
    some
      { bucket := b, sampleTime := p.2.time, prevTime := p.1.time,
        rate := counterRate gap p.1 p.2,
        weight := fun c =>
          if (counterRate gap p.1 p.2 c).isSome then
            max 0 (epoch (min p.2.time hi - max p.1.time lo)) else 0 }
  else none

/-- The contributions to `[lo, hi)` of the pairs that a scan up to `z` sees. -/
def parts (h : History) (gap : Int) (b lo hi z : Int) : List PairRow :=
  ((adjacent h.samples).filter fun p => p.2.time < z).filterMap (cut gap b lo hi)

theorem pairRow_eq_cut (q : DeltaQuery) (b : Int) (prev cur : Sample) :
    q.pairRow b prev cur
      = cut q.gap b (max b q.windowStart) (min (b + q.width) q.windowEnd) (prev, cur) := by
  unfold DeltaQuery.pairRow cut usable
  refine if_congr ⟨fun h => h.2.2.2.2, fun h => ?_⟩ rfl rfl
  -- the overlap says that the pair touches the bucket and the window
  obtain ⟨hlt, hrate⟩ := h
  simp only [lt_min_iff, max_lt_iff] at hlt
  refine ⟨hlt.2.1.1, hlt.1.2.1, hlt.2.2.1, hlt.1.2.2, ?_, hrate⟩
  simp only [lt_min_iff, max_lt_iff]
  exact hlt

theorem cut_bucket {gap : Int} {b lo hi : Int} {p : Sample × Sample} {r : PairRow}
    (h : cut gap b lo hi p = some r) : r.bucket = b := by
  unfold cut at h
  split at h
  · cases h
    rfl
  · cases h

/-! ## §3. The delta query at one bucket. -/

section AtBucket

variable {q : DeltaQuery} (h : History)

theorem pairs_eq_adjacent (q : DeltaQuery) :
    q.pairs h = (adjacent (q.bounded h)).flatMap fun p =>
      q.pairBuckets.filterMap fun b => q.pairRow b p.1 p.2 := by
  unfold DeltaQuery.pairs DeltaQuery.lagged adjacent
  induction lagFrom none (q.bounded h) with
  | nil => rfl
  | cons row rows ih =>
    obtain ⟨prev, cur⟩ := row
    cases prev with
    | none => simpa using ih
    | some prev => simp [ih]

/-- Of the buckets a row is joined with, `GROUP BY` keeps one at a time. -/
theorem filter_filterMap_bucket {ks : List Int} (hks : ks.Nodup) (f : Int → Option PairRow)
    (hf : ∀ k r, f k = some r → r.bucket = k) (b : Int) :
    (ks.filterMap f).filter (fun r => r.bucket = b) = if b ∈ ks then (f b).toList else [] := by
  induction ks with
  | nil => rfl
  | cons k ks ih =>
    obtain ⟨hk, hks⟩ := nodup_cons.mp hks
    have ih := ih hks
    by_cases hkb : b = k
    · subst hkb
      rw [if_neg hk] at ih
      cases hfk : f b with
      | none => simp [hfk, ih]
      | some r =>
        have hr := hf b r hfk
        simp [hfk, ih, hr]
    · have hskip : ((k :: ks).filterMap f).filter (fun r => decide (r.bucket = b))
          = (ks.filterMap f).filter (fun r => decide (r.bucket = b)) := by
        cases hfk : f k with
        | none => simp [hfk]
        | some r =>
          have hr : r.bucket ≠ b := fun h => hkb ((hf k r hfk).symm.trans h).symm
          simp [hfk, hr]
      rw [hskip, ih]
      simp [hkb]

variable {b : Int}

theorem mem_pairBuckets (hw : 0 < q.width) (hb : q.width ∣ b) :
    b ∈ q.pairBuckets ↔ bucketExpr q.width q.windowStart ≤ b ∧ b ≤ bucketExpr q.width q.windowEnd :=
  (mem_grid hw (dvd_bucketExpr _ _)).trans (and_iff_right hb)

/-- A bucket off the grid of the window has nothing in the window. -/
theorem cut_eq_none_of_not_mem (hw : 0 < q.width) (hb : q.width ∣ b) (hout : b ∉ q.pairBuckets)
    (p : Sample × Sample) :
    cut q.gap b (max b q.windowStart) (min (b + q.width) q.windowEnd) p = none := by
  refine if_neg fun hcut => hout ((mem_pairBuckets hw hb).mpr ?_)
  have hlt := hcut.1
  have hstart := bucketExpr_le hw q.windowStart
  have hend := lt_bucketExpr_add hw q.windowEnd
  exact ⟨aligned_le hw (dvd_bucketExpr _ _) hb (by omega),
    aligned_le hw hb (dvd_bucketExpr _ _) (by omega)⟩

/-- **The pairs of a bucket** are the cuts of the history's own pairs, up to the
end of the scan. -/
theorem pairs_at (hw : 0 < q.width) (hscan : q.scanStart ≤ q.windowStart) (hb : q.width ∣ b) :
    (q.pairs h).filter (fun r => r.bucket = b)
      = parts h q.gap b (max b q.windowStart) (min (b + q.width) q.windowEnd) q.scanEnd := by
  have hnodup : q.pairBuckets.Nodup := (series_sorted _ _ hw).imp fun h => h.ne
  have hone : ∀ p : Sample × Sample,
      (q.pairBuckets.filterMap fun b => q.pairRow b p.1 p.2).filter (fun r => decide (r.bucket = b))
        = (cut q.gap b (max b q.windowStart) (min (b + q.width) q.windowEnd) p).toList := by
    intro p
    rw [filter_filterMap_bucket hnodup (fun b => q.pairRow b p.1 p.2)
      (fun k r hr => by rw [pairRow_eq_cut] at hr; exact cut_bucket hr) b, pairRow_eq_cut]
    split
    · rfl
    · next hout => rw [cut_eq_none_of_not_mem hw hb hout p]; rfl
  -- a pair that reaches the window has its later sample inside the scan
  have hlower : ∀ p ∈ adjacent h.samples, ¬ q.scanStart ≤ p.2.time →
      cut q.gap b (max b q.windowStart) (min (b + q.width) q.windowEnd) p = none := by
    intro p _ hp
    refine if_neg fun hcut => hp ?_
    have hlt := hcut.1
    omega
  rw [pairs_eq_adjacent, filter_flatMap]
  simp only [hone]
  rw [← filterMap_eq_flatMap_toList, DeltaQuery.bounded,
    adjacent_slice Sample.time q.scanStart q.scanEnd h.ordered, parts, filterMap_filter,
    filterMap_filter]
  refine filterMap_congr fun p hp => ?_
  by_cases hlow : q.scanStart ≤ p.2.time
  · simp [hlow]
  · simp [hlow, hlower p hp hlow]

theorem pairs_at_unaligned (hw : 0 < q.width) (hb : ¬ q.width ∣ b) :
    (q.pairs h).filter (fun r => r.bucket = b) = [] := by
  refine filter_eq_nil_iff.mpr fun r hr hrb => hb ?_
  rw [pairs_eq_adjacent] at hr
  obtain ⟨p, -, hr⟩ := mem_flatMap.mp hr
  obtain ⟨k, hk, hr⟩ := mem_filterMap.mp hr
  rw [pairRow_eq_cut] at hr
  have hkb : k = b := (cut_bucket hr).symm.trans (of_decide_eq_true hrb)
  exact hkb ▸ ((mem_grid hw (dvd_bucketExpr _ _)).mp hk).1

/-- Inside its scan a query reads every sample, and its predecessor row is
never inside. -/
theorem bounded_filter {lo hi : Int} (hlo : q.scanStart ≤ lo) (hhi : hi ≤ q.scanEnd) :
    (q.bounded h).filter (fun s => lo ≤ s.time ∧ s.time < hi) = readings h lo hi := by
  have hpred : ((h.samples.filter fun s => decide (s.time < q.scanStart)).getLast?.toList).filter
      (fun s => decide (lo ≤ s.time ∧ s.time < hi)) = [] := by
    refine List.filter_eq_nil_iff.mpr fun s hs hin => ?_
    have hlast := mem_of_getLast? (mem_toList.mp hs)
    have hbefore := of_decide_eq_true (mem_filter.mp hlast).2
    have hinside := of_decide_eq_true hin
    omega
  rw [DeltaQuery.bounded, List.filter_append, hpred, List.nil_append, List.filter_filter, readings]
  refine filter_congr fun s _ => ?_
  rw [Bool.eq_iff_iff]
  simp only [Bool.and_eq_true, decide_eq_true_eq]
  omega

theorem filter_bucketExpr {w : Int} (hw : 0 < w) (hb : w ∣ b) (rows : List Sample) :
    rows.filter (fun s => bucketExpr w s.time = b)
      = rows.filter fun s => b ≤ s.time ∧ s.time < b + w := by
  refine filter_congr fun s _ => ?_
  rw [Bool.eq_iff_iff]
  simpa only [decide_eq_true_eq] using bucketExpr_eq_iff hw hb

theorem filter_bucketExpr_unaligned {w : Int} (hb : ¬ w ∣ b) (rows : List Sample) :
    rows.filter (fun s => bucketExpr w s.time = b) = [] := by
  refine filter_eq_nil_iff.mpr fun s _ hs => hb ?_
  exact of_decide_eq_true hs ▸ dvd_bucketExpr w s.time

/-- The samples of a bucket that the request window lets through. -/
theorem window_at (hw : 0 < q.width) (hlo : q.scanStart ≤ q.windowStart)
    (hhi : q.windowEnd ≤ q.scanEnd) (hb : q.width ∣ b) :
    ((q.bounded h).filter fun s => q.windowStart ≤ s.time ∧ s.time < q.windowEnd).filter
        (fun s => bucketExpr q.width s.time = b)
      = readings h (max b q.windowStart) (min (b + q.width) q.windowEnd) := by
  rw [filter_bucketExpr hw hb, ← bounded_filter h (q := q) (by omega) (by omega), List.filter_filter]
  refine List.filter_congr fun s _ => ?_
  rw [Bool.eq_iff_iff]
  simp only [Bool.and_eq_true, decide_eq_true_eq]
  omega

end AtBucket

/-! ## §4. What a pair contributes. -/

section Pairs

variable {gap : Int} {b lo hi : Int} {p : Sample × Sample} {r : PairRow}

theorem cut_spec (h : cut gap b lo hi p = some r) :
    max p.1.time lo < min p.2.time hi ∧ usable gap p ∧ r.sampleTime = p.2.time
      ∧ r.rate = counterRate gap p.1 p.2
      ∧ ∀ c, r.weight c = if (counterRate gap p.1 p.2 c).isSome then
          max 0 (epoch (min p.2.time hi - max p.1.time lo)) else 0 := by
  unfold cut at h
  split at h
  · next hcut =>
    cases h
    exact ⟨hcut.1, hcut.2, rfl, rfl, fun _ => rfl⟩
  · cases h

theorem epoch_pos {d : Int} (hd : 0 < d) : 0 < epoch d :=
  div_pos (by exact_mod_cast hd) (by norm_num)

theorem cut_weight_nonneg (h : cut gap b lo hi p = some r) (c : Counter) : 0 ≤ r.weight c := by
  rw [(cut_spec h).2.2.2.2 c]
  split
  · exact le_max_left _ _
  · exact le_refl _

variable {h : History}

theorem mem_parts {z : Int} (hr : r ∈ parts h gap b lo hi z) :
    ∃ p ∈ adjacent h.samples, p.2.time < z ∧ cut gap b lo hi p = some r := by
  obtain ⟨p, hp, hcut⟩ := mem_filterMap.mp hr
  obtain ⟨hp, hlt⟩ := mem_filter.mp hp
  exact ⟨p, hp, of_decide_eq_true hlt, hcut⟩

end Pairs

/-! ## §5. Raw reads as tables. -/

/-- The statistics of a point: its bucket, the sum, count and maximum of every
gauge, and the average, peak and coverage of every rate. -/
structure Statistics where
  time : Int
  gauges : Gauge → GaugeTotals
  rates : Counter → RateCells

def AggregatedMetric.statistics (p : AggregatedMetric) : Statistics where
  time := p.time
  gauges := fun g => ⟨(p.gauges g).sum, (p.gauges g).count, (p.gauges g).peak⟩
  rates := p.rates

/-- A sample of `[lo, hi)`, or a usable pair of it that a scan up to `z` sees. -/
def Observed (h : History) (gap lo hi z : Int) : Prop :=
  (∃ s ∈ h.samples, lo ≤ s.time ∧ s.time < hi)
    ∨ ∃ p ∈ adjacent h.samples, usable gap p ∧ max p.1.time lo < min p.2.time hi ∧ p.2.time < z

instance (h : History) (gap lo hi z : Int) : Decidable (Observed h gap lo hi z) :=
  inferInstanceAs (Decidable ((∃ s ∈ h.samples, _) ∨ ∃ p ∈ adjacent h.samples, _))

/-- What a read of the part `[lo, hi)` of a bucket reports, with a scan up to
`z`. -/
def partStatistics (h : History) (gap b lo hi z : Int) : Statistics where
  time := b
  gauges := gaugeTotals (readings h lo hi)
  rates := rateCells (parts h gap b lo hi z)

theorem observed_iff (h : History) (gap b lo hi z : Int) :
    Observed h gap lo hi z ↔ ¬ (readings h lo hi = [] ∧ parts h gap b lo hi z = []) := by
  have hreadings : readings h lo hi = [] ↔ ¬ ∃ s ∈ h.samples, lo ≤ s.time ∧ s.time < hi := by
    simp [readings, filter_eq_nil_iff]
  have hparts : parts h gap b lo hi z = [] ↔ ¬ ∃ p ∈ adjacent h.samples,
      usable gap p ∧ max p.1.time lo < min p.2.time hi ∧ p.2.time < z := by
    rw [eq_nil_iff_forall_not_mem]
    constructor
    · rintro hnone ⟨p, hp, husable, hover, hlt⟩
      exact hnone _ (mem_filterMap.mpr
        ⟨p, mem_filter.mpr ⟨hp, decide_eq_true hlt⟩, if_pos ⟨hover, husable⟩⟩)
    · intro hnone r hr
      obtain ⟨p, hp, hlt, hcut⟩ := mem_parts hr
      exact hnone ⟨p, hp, (cut_spec hcut).2.1, (cut_spec hcut).1, hlt⟩
  rw [Observed, hreadings, hparts, not_and_or, not_not, not_not]

/-- The point of a joined row reports the samples and pairs it was grouped
from, whether or not each side was there. -/
theorem statistics_joined (b : Int) (rows : List Sample) (pairs : List PairRow) :
    (joined (if rows = [] then none else some (rawGauges rows))
        (if pairs = [] then none else some (rateCells pairs)) b).map
        (fun row => (aggregated row).statistics)
      = if rows = [] ∧ pairs = [] then none else some ⟨b, gaugeTotals rows, rateCells pairs⟩ := by
  by_cases hrows : rows = [] <;> by_cases hpairs : pairs = []
  · simp [hrows, hpairs, joined]
  · subst hrows
    simp only [hpairs, joined, aggregated, AggregatedMetric.statistics, if_true, if_false,
      isNone_none, isNone_some, and_false, Bool.false_eq_true, map_some]
    rfl
  · subst hpairs
    simp only [hrows, joined, aggregated, AggregatedMetric.statistics, if_true, if_false,
      isNone_none, isNone_some, false_and, Bool.false_eq_true, map_some]
    rfl
  · simp only [hrows, hpairs, joined, aggregated, AggregatedMetric.statistics, if_false,
      isNone_some, and_self, Bool.false_eq_true, map_some]
    rfl

/-- What a raw read of `[since, till)` reports at each bucket. -/
def rawStatistics (h : History) (gap width since till b : Int) : Option Statistics :=
  if width ∣ b ∧ Observed h gap (max b since) (min (b + width) till) till then
    some (partStatistics h gap b (max b since) (min (b + width) till) till)
  else none

/-- **A raw read tabulates its buckets**, each from the samples of the window
and the pairs whose later sample lies before the window's end. -/
theorem queryRawBuckets_tabulates (repo : MetricRepo) (h : History) (since till : Int)
    (interval : Interval) :
    Tabulates Statistics.time (rawStatistics h repo.gapThreshold interval.width since till)
      ((queryRawBuckets repo h since till interval).map AggregatedMetric.statistics) := by
  set q := rawQuery repo since till interval with hq
  have hw : 0 < q.width := interval.width_pos
  have htable := (orderBy_fullOuterJoin
    (groupBy_nodup (fun s : Sample => bucketExpr q.width s.time) rawGauges
      ((q.bounded h).filter fun s => q.windowStart ≤ s.time ∧ s.time < q.windowEnd))
    (groupBy_nodup PairRow.bucket rateCells (q.pairs h))).map
      Statistics.time (fun row => (aggregated row).statistics) fun _ => rfl
  have hrows : (queryRawBuckets repo h since till interval).map AggregatedMetric.statistics
      = (orderBy Prod.fst (fullOuterJoin
          (groupBy (fun s : Sample => bucketExpr q.width s.time) rawGauges
            ((q.bounded h).filter fun s => q.windowStart ≤ s.time ∧ s.time < q.windowEnd))
          (rateAggregateSelect q h))).map fun row => (aggregated row).statistics := by
    simp only [queryRawBuckets, rawBucketAggregateSQL, List.map_map, ← hq]
    rfl
  rw [hrows]
  refine htable.congr fun b => ?_
  rw [lookup_groupBy, lookup_groupBy, statistics_joined, rawStatistics]
  by_cases hb : q.width ∣ b
  · have hobserved := observed_iff h q.gap b (max b q.windowStart) (min (b + q.width) q.windowEnd)
      q.scanEnd
    rw [window_at h hw le_rfl le_rfl hb, pairs_at h hw le_rfl hb]
    by_cases hseen : Observed h q.gap (max b q.windowStart) (min (b + q.width) q.windowEnd) q.scanEnd
    · rw [if_neg (hobserved.mp hseen)]
      exact (if_pos ⟨hb, hseen⟩).symm
    · rw [if_pos (not_not.mp (mt hobserved.mpr hseen))]
      exact (if_neg fun h => hseen h.2).symm
  · rw [filter_bucketExpr_unaligned hb, pairs_at_unaligned h hw hb, if_pos ⟨rfl, rfl⟩]
    exact (if_neg fun h => hb h.1).symm

end Talus.Metrics
