/-
  Talus.Metrics.Splitting
  **SPLITTING COUNTER PAIRS OVER BUCKETS CONSERVES TIME AND INCREMENTS.**

  A pair of neighbouring samples contributes its rate to every bucket it
  overlaps, weighted by the seconds of the overlap with the bucket and the
  window.  `overlap` of consecutive ranges is additive (`overlap_add`), which is
  all that is needed:

    • along the grid, the shares of one pair add up to its overlap with the
      window,
    • along the history, the overlaps of the pairs with one bucket add up to at
      most the bucket.

  Only pairs whose later sample lies before the window's end are read: the scan
  is half-open.  A pair across that end is dropped, with the part of it that
  lies in the window.
-/
import Mathlib.Algebra.BigOperators.Group.Finset.Basic
import Mathlib.Algebra.BigOperators.Ring.List
import Mathlib.Data.Finset.Order
import Mathlib.Tactic.Ring
import Talus.Metrics.Answer

namespace Talus.Metrics

open Talus.Base.Relation List

/-! ## §1. Overlaps. -/

/-- The length of `[x, y) ∩ [lo, hi)`. -/
def overlap (lo hi x y : Int) : Int := max 0 (min y hi - max x lo)

/-- **Overlaps of consecutive ranges add up.** -/
theorem overlap_add {lo hi x y z : Int} (hxy : x ≤ y) (hyz : y ≤ z) :
    overlap lo hi x y + overlap lo hi y z = overlap lo hi x z := by
  unfold overlap
  omega

theorem epoch_add (a b : Int) : epoch (a + b) = epoch a + epoch b := by
  unfold epoch
  push_cast
  ring

theorem epoch_mono {a b : Int} (hab : a ≤ b) : epoch a ≤ epoch b := by
  unfold epoch
  have : (a : ℚ) ≤ b := by exact_mod_cast hab
  linarith

theorem epoch_overlap_nonneg (lo hi x y : Int) : 0 ≤ epoch (overlap lo hi x y) := by
  have := epoch_mono (le_max_left 0 (min y hi - max x lo))
  simpa [epoch, overlap] using this

/-- The shares of a range along the first `n` buckets of a grid. -/
theorem sum_overlap_grid (lo hi start : Int) {step : Int} (hstep : 0 < step) (n : ℕ) :
    (((List.range n).map fun i : ℕ => start + i * step).map fun b =>
        epoch (overlap lo hi b (b + step))).sum
      = epoch (overlap lo hi start (start + n * step)) := by
  induction n with
  | zero =>
    unfold overlap epoch
    rw [max_eq_left (by omega)]
    norm_num
  | succ n ih =>
    have hle : 0 ≤ (n : Int) * step := mul_nonneg (Int.natCast_nonneg n) hstep.le
    have hnext : start + (n + 1 : ℕ) * step = start + n * step + step := by
      push_cast
      ring
    rw [range_succ, map_append, map_append, sum_append, ih, map_singleton,
      map_singleton, sum_singleton, ← epoch_add, hnext, overlap_add (by omega) (by omega)]

/-- The overlaps of neighbours in time order with one range fit into it. -/
theorem sum_overlap_adjacent (lo hi : Int) {samples : List Sample}
    (hordered : samples.Pairwise fun a b => a.time ≤ b.time) :
    ((adjacent samples).map fun p => epoch (overlap lo hi p.1.time p.2.time)).sum
      ≤ epoch (max 0 (hi - lo)) := by
  -- from a sample on, the pairs cover no more than what follows it
  have hfrom : ∀ (l : List Sample) (s : Sample) (last : Int),
      (s :: l).Pairwise (fun a b => a.time ≤ b.time) → (∀ a ∈ s :: l, a.time ≤ last) →
      ((adjacent (s :: l)).map fun p => epoch (overlap lo hi p.1.time p.2.time)).sum
        ≤ epoch (overlap lo hi s.time last) := by
    intro l
    induction l with
    | nil => exact fun s last _ _ => epoch_overlap_nonneg lo hi s.time last
    | cons a l ih =>
      intro s last hpair hlast
      obtain ⟨hs, hrest⟩ := pairwise_cons.mp hpair
      have htail := ih a last hrest fun x hx => hlast x (mem_cons_of_mem s hx)
      have hadd : overlap lo hi s.time a.time + overlap lo hi a.time last
          = overlap lo hi s.time last :=
        overlap_add (hs a mem_cons_self) (hlast a (mem_cons_of_mem s mem_cons_self))
      rw [← hadd, epoch_add]
      show epoch (overlap lo hi s.time a.time)
        + ((adjacent (a :: l)).map fun p => epoch (overlap lo hi p.1.time p.2.time)).sum ≤ _
      linarith
  cases samples with
  | nil => exact epoch_mono (le_max_left 0 _) |>.trans_eq' (by simp [epoch, adjacent, lagFrom])
  | cons s l =>
    obtain ⟨last, hlast⟩ := ((s :: l).map Sample.time).toFinset.exists_le
    have hbound : ∀ a ∈ s :: l, a.time ≤ last := fun a ha =>
      hlast a.time (mem_toFinset.mpr (mem_map_of_mem ha))
    refine (hfrom l s last hordered hbound).trans (epoch_mono ?_)
    unfold overlap
    omega

/-! ## §2. Valid increments. -/

/-- The increment of a counter over a pair that may count: both values are
there, from one boot, not decreasing, over a positive time of at most the gap
threshold. -/
def validIncrement (gap : Int) (c : Counter) (p : Sample × Sample) : Option ℚ :=
  match p.1.counter c, p.2.counter c with
  | some before, some after =>
    if p.2.bootId = p.1.bootId ∧ before ≤ after ∧ p.1.time < p.2.time
        ∧ p.2.time - p.1.time ≤ gap then some (after - before : Int)
    else none
  | _, _ => none

theorem counterRate_eq (gap : Int) (c : Counter) (p : Sample × Sample) :
    counterRate gap p.1 p.2 c
      = (validIncrement gap c p).map (· / epoch (p.2.time - p.1.time)) := by
  have hsign : epoch (p.2.time - p.1.time) ≤ 0 ↔ ¬ p.1.time < p.2.time := by
    constructor
    · intro hle hlt
      exact absurd (epoch_pos (show 0 < p.2.time - p.1.time by omega)) (not_lt.mpr hle)
    · intro hge
      have := epoch_mono (show p.2.time - p.1.time ≤ 0 by omega)
      simpa [epoch] using this
  unfold counterRate validIncrement
  cases h1 : p.1.counter c with
  | none => rfl
  | some before =>
    cases h2 : p.2.counter c with
    | none => rfl
    | some after =>
      dsimp only
      -- the guards of the query, in its order
      by_cases hboot : p.2.bootId = p.1.bootId
      · by_cases hle : before ≤ after
        · by_cases hlt : p.1.time < p.2.time
          · by_cases hgap : p.2.time - p.1.time ≤ gap
            · simp [hboot, not_lt.mpr hle, hsign, hlt, not_lt.mpr hgap, hle, hgap]
            · simp [hboot, not_lt.mpr hle, hsign, hlt, not_le.mp hgap, hgap]
          · simp [hboot, not_lt.mpr hle, hsign, hlt]
        · simp [hboot, not_le.mp hle, hle]
      · simp [hboot]

/-- The seconds a pair adds to a bucket, for a counter it counts for. -/
def validSeconds (gap : Int) (c : Counter) (p : Sample × Sample) : ℚ :=
  if (validIncrement gap c p).isSome then 1 else 0

/-! ## §3. One bucket. -/

section Bucket

variable {h : History} {gap b lo hi z : Int} {c : Counter}

/-- **The columns of a bucket** are sums over its rows: the coverage of the
weights, the rate times the coverage of the weighted rates. -/
theorem rateCells_sums {rows : List PairRow} (hweight : ∀ r ∈ rows, 0 ≤ r.weight c) :
    (rateCells rows c).coverage.getD 0 = (rows.map fun r => r.weight c).sum
    ∧ (rateCells rows c).rate.getD 0 * (rateCells rows c).coverage.getD 0
      = (rows.map fun r => (r.rate c).getD 0 * r.weight c).sum := by
  have hcover : (rateCells rows c).coverage.getD 0 = (rows.map fun r => r.weight c).sum := by
    by_cases hrows : rows = []
    · subst hrows
      rfl
    · show (sqlSum (rows.map fun r => some (r.weight c))).getD 0 = _
      rw [sqlSum_map_some _ hrows]
      rfl
  refine ⟨hcover, ?_⟩
  rw [hcover]
  -- NULL rates are skipped by the sum, which adds zero for them
  have hvalues : ((rows.map fun r => (r.rate c).map (· * r.weight c)).filterMap id).sum
      = (rows.map fun r => (r.rate c).getD 0 * r.weight c).sum := by
    rw [filterMap_map]
    clear hcover hweight
    induction rows with
    | nil => rfl
    | cons r rows ih =>
      rw [filterMap_cons, map_cons, sum_cons, ← ih]
      cases hr : r.rate c <;> simp [hr]
  by_cases hpos : 0 < (rows.map fun r => r.weight c).sum
  · have hrows : rows ≠ [] := by
      rintro rfl
      exact absurd hpos (lt_irrefl _)
    have hrate : (rateCells rows c).rate
        = (sqlSum (rows.map fun r => (r.rate c).map (· * r.weight c))).map
            (· / (rows.map fun r => r.weight c).sum) := by
      show (sqlSum (rows.map fun r => some (r.weight c))).bind _ = _
      rw [sqlSum_map_some _ hrows, Option.bind_some, if_pos hpos]
    rw [hrate, sqlSum, hvalues]
    split
    · next hempty =>
      rw [← hvalues, isEmpty_iff.mp hempty]
      simp
    · simp [div_mul_cancel₀ _ hpos.ne']
  · -- no weight at all: both sides are zero
    have hzero : ∀ r ∈ rows, r.weight c = 0 := by
      have hsum : (rows.map fun r => r.weight c).sum = 0 :=
        le_antisymm (not_lt.mp hpos) (sum_nonneg (by simpa using hweight))
      intro r hr
      exact (all_zero_of_le_zero_le_of_sum_eq_zero (by simpa using hweight) hsum)
        (mem_map_of_mem hr)
    have hright : (rows.map fun r => (r.rate c).getD 0 * r.weight c) = rows.map fun _ => 0 :=
      map_congr_left fun r hr => by rw [hzero r hr, mul_zero]
    have hleft : (rows.map fun r => r.weight c) = rows.map fun _ => 0 :=
      map_congr_left hzero
    rw [hright, hleft]
    simp

/-- What a weighted sum over the rows of a bucket comes to, pair by pair. -/
theorem parts_sum {g : PairRow → ℚ} {k : Sample × Sample → ℚ}
    (hcut : ∀ p r, cut gap b lo hi p = some r →
      g r = k p * epoch (overlap lo hi p.1.time p.2.time))
    (hunusable : ∀ p, usable gap p = false → k p = 0) :
    ((parts h gap b lo hi z).map g).sum
      = (((adjacent h.samples).filter fun p => p.2.time < z).map fun p =>
          k p * epoch (overlap lo hi p.1.time p.2.time)).sum := by
  unfold parts
  induction (adjacent h.samples).filter fun p => decide (p.2.time < z) with
  | nil => rfl
  | cons p pairs ih =>
    rw [filterMap_cons, map_cons, sum_cons, ← ih]
    cases hp : cut gap b lo hi p with
    | some r =>
      rw [map_cons, sum_cons, hcut p r hp]
    | none =>
      -- the pair does not reach this part, or counts for no counter
      have hzero : k p * epoch (overlap lo hi p.1.time p.2.time) = 0 := by
        cases husable : usable gap p with
        | false => rw [hunusable p husable, zero_mul]
        | true =>
          have hapart : ¬ max p.1.time lo < min p.2.time hi := fun hmeet => by
            rw [cut, if_pos ⟨hmeet, husable⟩] at hp
            cases hp
          have hempty : overlap lo hi p.1.time p.2.time = 0 := by
            unfold overlap
            omega
          rw [hempty]
          simp [epoch]
      rw [hzero, zero_add]

variable {p : Sample × Sample}

theorem cut_weight {r : PairRow} (hcut : cut gap b lo hi p = some r) :
    r.weight c = validSeconds gap c p * epoch (overlap lo hi p.1.time p.2.time) := by
  obtain ⟨hmeet, -, -, -, hweight⟩ := cut_spec hcut
  have hlength : max 0 (epoch (min p.2.time hi - max p.1.time lo))
      = epoch (overlap lo hi p.1.time p.2.time) := by
    have hpos : 0 < min p.2.time hi - max p.1.time lo := by omega
    rw [max_eq_right (epoch_pos hpos).le, overlap, max_eq_right hpos.le]
  rw [hweight c, counterRate_eq, Option.isSome_map, hlength, validSeconds]
  split <;> simp

theorem cut_rate_weight {r : PairRow} (hcut : cut gap b lo hi p = some r) :
    (r.rate c).getD 0 * r.weight c
      = (validIncrement gap c p).getD 0 / epoch (p.2.time - p.1.time)
        * epoch (overlap lo hi p.1.time p.2.time) := by
  rw [cut_weight hcut, (cut_spec hcut).2.2.2.1, counterRate_eq, validSeconds]
  cases validIncrement gap c p <;> simp

theorem validIncrement_of_unusable (hno : usable gap p = false) :
    validIncrement gap c p = none := by
  have hrate : (counterRate gap p.1 p.2 c).isSome = false := by
    have := any_eq_false.mp hno c (by cases c <;> decide)
    simpa using this
  rw [counterRate_eq, Option.isSome_map] at hrate
  simpa using hrate

end Bucket

/-! ## §4. Over the whole window. -/

section Window

variable (repo : MetricRepo) {h : History} {since till : Int} {interval : Interval} {c : Counter}

/-- Along the grid, the shares of every pair add up to its overlap with the
window. -/
theorem sum_parts_grid {g : PairRow → ℚ} {k : Sample × Sample → ℚ} {gap : Int}
    (hcut : ∀ b lo hi p r, cut gap b lo hi p = some r →
      g r = k p * epoch (overlap lo hi p.1.time p.2.time))
    (hunusable : ∀ p, usable gap p = false → k p = 0) :
    ((rawQuery repo since till interval).pairBuckets.map fun b =>
        ((parts h gap b (max b since) (min (b + interval.width) till) till).map g).sum).sum
      = (((adjacent h.samples).filter fun p => p.2.time < till).map fun p =>
          k p * epoch (overlap since till p.1.time p.2.time)).sum := by
  have hw := interval.width_pos
  simp only [parts_sum (hcut _ _ _) hunusable]
  -- exchange the sums: for one pair, over the buckets of the grid
  have hswap : ∀ (grid : List Int) (pairs : List (Sample × Sample)) (f : Int → Sample × Sample → ℚ),
      (grid.map fun b => (pairs.map (f b)).sum).sum
        = (pairs.map fun p => (grid.map fun b => f b p).sum).sum := by
    intro grid pairs f
    induction grid with
    | nil => simp
    | cons b grid ih => simp only [map_cons, sum_cons, ih, sum_map_add]
  rw [hswap]
  refine congrArg List.sum (map_congr_left fun p _ => ?_)
  rw [sum_map_mul_left]
  congr 1
  have hturn : ∀ b, overlap (max b since) (min (b + interval.width) till) p.1.time p.2.time
      = overlap (max p.1.time since) (min p.2.time till) b (b + interval.width) := by
    intro b
    unfold overlap
    omega
  simp only [hturn]
  show (List.map _ (series (bucketExpr interval.width since) (bucketExpr interval.width till)
    interval.width)).sum = _
  unfold series
  rw [sum_overlap_grid _ _ _ hw]
  congr 1
  -- the grid starts at or before the window and ends after it
  have hstart := bucketExpr_le hw since
  have hend := lt_bucketExpr_add hw till
  obtain ⟨i, hi⟩ := dvd_bucketExpr interval.width till
  obtain ⟨j, hj⟩ := dvd_bucketExpr interval.width since
  have hsteps : (bucketExpr interval.width till - bucketExpr interval.width since)
      / interval.width = i - j := by
    rw [hi, hj, ← Int.mul_sub, Int.mul_ediv_cancel_left _ hw.ne']
  have hreach : min till (bucketExpr interval.width since
      + ((i - j + 1).toNat : Int) * interval.width) = till ∨ till < since := by
    by_cases hcount : 0 ≤ i - j + 1
    · left
      rw [Int.toNat_of_nonneg hcount]
      have : bucketExpr interval.width since + (i - j + 1) * interval.width
          = bucketExpr interval.width till + interval.width := by
        rw [hi, hj]
        ring
      omega
    · right
      have : interval.width * i ≤ interval.width * j - interval.width := by
        have := Int.mul_le_mul_of_nonneg_left (show i ≤ j - 1 by omega) hw.le
        rw [Int.mul_sub, Int.mul_one] at this
        exact this
      omega
  rw [hsteps]
  unfold overlap
  omega

variable {repo}

/-- A sum over the points is the sum over the grid: every point stands on a
bucket of the grid, and a bucket without a point has no row. -/
theorem sum_points {val : AggregatedMetric → ℚ} {F : Int → ℚ}
    (hval : ∀ p ∈ queryRawBuckets repo h since till interval, val p = F p.time)
    (hzero : ∀ b, rawStatistics h repo.gapThreshold interval.width since till b = none →
      interval.width ∣ b → F b = 0) :
    ((queryRawBuckets repo h since till interval).map val).sum
      = ((rawQuery repo since till interval).pairBuckets.map F).sum := by
  have hw := interval.width_pos
  have htable := queryRawBuckets_tabulates repo h since till interval
  set points := queryRawBuckets repo h since till interval
  set grid := (rawQuery repo since till interval).pairBuckets with hgrid
  have hnodup : (points.map AggregatedMetric.time).Nodup := by
    have hsorted := pairwise_map.mp htable.sorted
    exact pairwise_map.mpr (hsorted.imp fun hlt => hlt.ne)
  have hgridNodup : grid.Nodup := (series_sorted _ _ hw).imp fun hlt => hlt.ne
  have hsub : (points.map AggregatedMetric.time).toFinset ⊆ grid.toFinset := by
    intro t ht
    obtain ⟨p, hp, rfl⟩ := mem_map.mp (mem_toFinset.mp ht)
    obtain ⟨hdvd, hmeet⟩ :=
      rawStatistics_eq_some ((htable.mem p.statistics).mp (mem_map_of_mem hp))
    change interval.width ∣ p.time at hdvd
    change max p.time since < min (p.time + interval.width) till at hmeet
    have hstart := bucketExpr_le hw since
    have hend := lt_bucketExpr_add hw till
    refine mem_toFinset.mpr ((mem_pairBuckets hw hdvd).mpr ⟨?_, ?_⟩)
    · exact aligned_le hw (dvd_bucketExpr _ _) hdvd
        (show bucketExpr interval.width since < p.time + interval.width by omega)
    · exact aligned_le hw hdvd (dvd_bucketExpr _ _)
        (show p.time < bucketExpr interval.width till + interval.width by omega)
  have hvals : points.map val = (points.map AggregatedMetric.time).map F := by
    rw [map_map]
    exact map_congr_left hval
  rw [hvals, ← sum_toFinset F hnodup, ← sum_toFinset F hgridNodup]
  refine Finset.sum_subset hsub fun b hb hnot => hzero b ?_ ?_
  · by_contra hsome
    obtain ⟨st, hst⟩ := Option.ne_none_iff_exists'.mp hsome
    have hkey := htable.keyed b st hst
    obtain ⟨p, hp, rfl⟩ := mem_map.mp ((htable.mem st).mpr (hkey ▸ hst))
    exact hnot (mem_toFinset.mpr (hkey ▸ mem_map_of_mem hp))
  · exact ((mem_grid hw (dvd_bucketExpr _ _)).mp (mem_toFinset.mp hb)).1

/-- The rates of a point are the columns of its bucket's rows. -/
theorem point_rates {p : AggregatedMetric} (hp : p ∈ queryRawBuckets repo h since till interval) :
    p.rates = rateCells (parts h repo.gapThreshold p.time (max p.time since)
        (min (p.time + interval.width) till) till)
      ∧ max p.time since < min (p.time + interval.width) till := by
  have hst := ((queryRawBuckets_tabulates repo h since till interval).mem p.statistics).mp
    (mem_map_of_mem hp)
  refine ⟨?_, (rawStatistics_eq_some hst).2⟩
  unfold rawStatistics at hst
  split at hst
  · exact (congrArg Statistics.rates (Option.some.inj hst)).symm
  · cases hst

theorem parts_nil {b : Int} (hdvd : interval.width ∣ b)
    (hnone : rawStatistics h repo.gapThreshold interval.width since till b = none) :
    parts h repo.gapThreshold b (max b since) (min (b + interval.width) till) till = [] := by
  unfold rawStatistics at hnone
  split at hnone
  · cases hnone
  · next hno =>
    rw [observed_iff _ _ b, not_and, not_not] at hno
    exact (hno hdvd).2

end Window

/-- **Splitting conserves time and increments.**  For every history, window,
granularity and counter, over the valid pairs of neighbouring samples whose later
sample lies before the window's end:

  • the coverage of all points adds up to the seconds of these pairs inside the
    window,
  • rate times coverage adds up to their increments, prorated to the window,
  • no point covers more than the part of its bucket inside the window,
  • a pair with a missing value, a decrease, another boot or a gap above the
    threshold adds nothing to any bucket. -/
theorem splitting_conserves (repo : MetricRepo) (h : History) (since till : Int)
    (interval : Interval) (c : Counter) :
    let points := queryRawBuckets repo h since till interval
    let gap := repo.gapThreshold
    let pairs := (adjacent h.samples).filter fun p => p.2.time < till
    (points.map fun p => (p.rates c).coverage.getD 0).sum
      = (pairs.map fun p => validSeconds gap c p
          * epoch (overlap since till p.1.time p.2.time)).sum
    ∧ (points.map fun p => (p.rates c).rate.getD 0 * (p.rates c).coverage.getD 0).sum
      = (pairs.map fun p => (validIncrement gap c p).getD 0 / epoch (p.2.time - p.1.time)
          * epoch (overlap since till p.1.time p.2.time)).sum
    ∧ (∀ p ∈ points, (p.rates c).coverage.getD 0
        ≤ epoch (min (p.time + interval.width) till - max p.time since))
    ∧ ∀ prev cur, prev.counter c = none ∨ cur.counter c = none
        ∨ (∃ x y, prev.counter c = some x ∧ cur.counter c = some y ∧ y < x)
        ∨ cur.bootId ≠ prev.bootId ∨ gap < cur.time - prev.time →
        validIncrement gap c (prev, cur) = none
        ∧ ∀ b row, (rawQuery repo since till interval).pairRow b prev cur = some row →
          row.weight c = 0 ∧ row.rate c = none := by
  intro points gap pairs
  have hnonneg : ∀ b lo hi, ∀ r ∈ parts h gap b lo hi till, 0 ≤ r.weight c := by
    intro b lo hi r hr
    obtain ⟨p, -, -, hcut⟩ := mem_parts hr
    exact cut_weight_nonneg hcut c
  have hsums := fun b lo hi => rateCells_sums (hnonneg b lo hi)
  have hseconds : ∀ p, usable gap p = false → validSeconds gap c p = 0 := fun p hno => by
    rw [validSeconds, validIncrement_of_unusable hno]
    rfl
  refine ⟨?_, ?_, fun p hp => ?_, fun prev cur hwhy => ?_⟩
  · rw [← sum_parts_grid repo (fun _ _ _ _ _ hcut => cut_weight (c := c) hcut) hseconds]
    refine sum_points (fun p hp => ?_) fun b hnone hdvd => ?_
    · rw [(point_rates hp).1]
      exact (hsums _ _ _).1
    · rw [parts_nil hdvd hnone]
      rfl
  · rw [← sum_parts_grid repo (fun _ _ _ _ _ hcut => cut_rate_weight (c := c) hcut)
      fun p hno => by rw [validIncrement_of_unusable hno]; simp]
    refine sum_points (fun p hp => ?_) fun b hnone hdvd => ?_
    · rw [(point_rates hp).1]
      exact (hsums _ _ _).2
    · rw [parts_nil hdvd hnone]
      rfl
  · obtain ⟨hrates, hmeet⟩ := point_rates hp
    rw [hrates, (hsums _ _ _).1, parts_sum (fun _ _ hcut => cut_weight (c := c) hcut) hseconds]
    have hshare : ∀ q : Sample × Sample, validSeconds gap c q
        * epoch (overlap (max p.time since) (min (p.time + interval.width) till) q.1.time q.2.time)
        ≤ epoch (overlap (max p.time since) (min (p.time + interval.width) till)
            q.1.time q.2.time) := by
      intro q
      have := epoch_overlap_nonneg (max p.time since) (min (p.time + interval.width) till)
        q.1.time q.2.time
      rw [validSeconds]
      split <;> simp [this]
    refine (sum_le_sum fun q _ => hshare q).trans ?_
    refine ((filter_sublist.map _).sum_le_sum fun x hx => ?_).trans
      ((sum_overlap_adjacent _ _ h.ordered).trans_eq (by rw [max_eq_right (by omega)]))
    obtain ⟨q, -, rfl⟩ := mem_map.mp hx
    exact epoch_overlap_nonneg _ _ _ _
  · have hnone : validIncrement gap c (prev, cur) = none := by
      unfold validIncrement
      rcases hwhy with h1 | h1 | ⟨x, y, h1, h2, hlt⟩ | hboot | hgap
      · rw [h1]
      · rw [h1]
        cases prev.counter c <;> rfl
      · rw [h1, h2]
        exact if_neg fun hcond => absurd hcond.2.1 (not_le.mpr hlt)
      · split
        · exact if_neg fun hcond => hboot hcond.1
        · rfl
      · split
        · exact if_neg fun hcond => absurd hcond.2.2.2 (not_le.mpr hgap)
        · rfl
    refine ⟨hnone, fun b row hrow => ?_⟩
    rw [pairRow_eq_cut] at hrow
    change cut gap b _ _ (prev, cur) = some row at hrow
    have hrate := congrFun (cut_spec hrow).2.2.2.1 c
    rw [counterRate_eq gap c (prev, cur), hnone] at hrate
    refine ⟨?_, hrate⟩
    rw [cut_weight hrow, validSeconds, hnone]
    simp

/-- A minute across a bucket boundary, split in two halves. -/
theorem splitting_conserves_border :
    (queryRawBuckets {} borderHistory (1000 * rollupBucket) (1002 * rollupBucket) .h6).map
        (fun p => (p.rates .netBytesRecv).coverage) = [some 30, some 30]
    ∧ (((queryRawBuckets {} borderHistory (1000 * rollupBucket) (1002 * rollupBucket) .h6).map
        fun p => (p.rates .netBytesRecv).coverage.getD 0).sum = 60) :=
  ⟨by decide +kernel,
    (splitting_conserves {} borderHistory (1000 * rollupBucket) (1002 * rollupBucket) .h6
      .netBytesRecv).1.trans (by decide +kernel)⟩

/-- **A pair across the window's end is dropped**: thirty of its seconds lie in
the window, and no point covers them. -/
theorem pair_across_end_dropped :
    (adjacent borderHistory.samples).map (fun p =>
        ((validIncrement defaultDeltaGapThreshold .netBytesRecv p).isSome,
          overlap (1000 * rollupBucket) (1001 * rollupBucket) p.1.time p.2.time))
      = [(true, 30 * second)]
    ∧ (queryRawBuckets {} borderHistory (1000 * rollupBucket) (1001 * rollupBucket) .h6).map
        (fun p => (p.rates .netBytesRecv).coverage) = [none] := by
  decide +kernel

end Talus.Metrics
