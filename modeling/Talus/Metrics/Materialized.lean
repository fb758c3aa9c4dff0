/-
  Talus.Metrics.Materialized
  **WHAT THE ROLLUP TABLE HOLDS.**

  A materialization writes, for every closed bucket of its range, what a scan
  up to the end of that range sees of the bucket (`materialized_eq`).  Over any
  list of refresh cycles on one history, each row is therefore the one of the
  LAST cycle that covered its bucket (`refreshed_backed`).  The guard that
  protects a row with samples from an empty one never fires here, since every
  cycle counts the same samples in a closed bucket.
-/
import Talus.Metrics.Slices

namespace Talus.Metrics

open Talus.Base.Relation

/-! ## §1. Alignment. -/

theorem bucketStart_eq (t : Int) :
    bucketStart t = (rollupBucket / second * (t / second).tdiv (rollupBucket / second)) * second := by
  have := Int.mul_tdiv_add_tmod (t / second) (rollupBucket / second)
  unfold bucketStart
  dsimp only
  congr 1
  omega

theorem dvd_bucketStart (t : Int) : rollupBucket ∣ bucketStart t := by
  have hunit : rollupBucket = rollupBucket / second * second := by decide
  rw [bucketStart_eq, Int.mul_right_comm, ← hunit]
  exact Int.dvd_mul_right _ _

variable {b : Int}

theorem bucketStart_mono {a : Int} (h : a ≤ b) : bucketStart a ≤ bucketStart b := by
  rw [bucketStart_eq, bucketStart_eq]
  have hunit : (0 : Int) < second := by decide
  have hdiv : a / second ≤ b / second := Int.ediv_le_ediv hunit h
  have htdiv := Int.tdiv_le_tdiv (c := rollupBucket / second) (by decide) hdiv
  refine mul_le_mul_of_nonneg_right ?_ hunit.le
  exact mul_le_mul_of_nonneg_left htdiv (by decide)

theorem bucketStart_of_nonneg {t : Int} (ht : 0 ≤ t) :
    bucketStart t = bucketExpr rollupBucket t := by
  have hunit : rollupBucket / second = 21600 := by decide
  have hbucket : rollupBucket = 21600000000 := by decide
  have hseconds : 0 ≤ t / second := Int.ediv_nonneg ht (by decide)
  unfold bucketStart bucketExpr
  dsimp only
  rw [hunit, hbucket, Int.tmod_eq_emod_of_nonneg hseconds]
  unfold second
  omega

theorem dvd_max {a n : Int} (ha : n ∣ a) (hb : n ∣ b) : n ∣ max a b := by
  rcases max_choice a b with h | h <;> rw [h] <;> assumption

theorem dvd_rollupStart (checkpoint : Option Int) (now window : Int) :
    rollupBucket ∣ rollupStart checkpoint now window := by
  have hstart := dvd_max (dvd_bucketStart (now - window)) (dvd_bucketStart (now - metricsRetention))
  unfold rollupStart
  cases checkpoint with
  | none => exact hstart
  | some c =>
    dsimp only
    split
    · exact dvd_max (dvd_bucketStart c) (dvd_bucketStart _)
    · exact hstart

variable {since : Int}

/-- The range of a cycle is aligned and not empty. -/
theorem refreshRange_spec {h : History} {db : Rollups} {cycle : Refresh} {closed : Int}
    (hrange : refreshRange h db cycle = some (since, closed)) :
    closed = bucketStart cycle.now
      ∧ since = rollupStart db.checkpoint cycle.now cycle.effectiveWindow
      ∧ since < closed ∧ closed ≠ zeroTime
      ∧ needsRollup h db (closed - cycle.effectiveWindow) closed = true := by
  unfold refreshRange at hrange
  dsimp only at hrange
  split at hrange
  · cases hrange
  · next hzero =>
    split at hrange
    · next hneeds =>
      split at hrange
      · next hlt =>
        cases hrange
        exact ⟨rfl, rfl, hlt, hzero, hneeds⟩
      · cases hrange
    · cases hrange

/-! ## §2. One materialization. -/

/-- The row a scan up to `z` computes for a bucket. -/
def storedRow (h : History) (gap b z : Int) : RollupRow where
  bucketStart := b
  samples := (readings h b (b + rollupBucket)).length
  firstSample := ((readings h b (b + rollupBucket)).map Sample.time).min?
  lastSample := ((readings h b (b + rollupBucket)).map Sample.time).max?
  gauges := gaugeTotals (readings h b (b + rollupBucket))
  rates := rateCells (parts h gap b b (b + rollupBucket) z)

theorem rollupRow_joined (b : Int) (rows : List Sample) (pairs : List PairRow) :
    let g := if rows = [] then none else some (rollupGauges rows)
    let r := if pairs = [] then none else some (rateCells pairs)
    rollupRow b (((joined g r b).map Prod.snd).bind Prod.fst)
        (((joined g r b).map Prod.snd).bind Prod.snd)
      = { bucketStart := b, samples := rows.length, firstSample := (rows.map Sample.time).min?,
          lastSample := (rows.map Sample.time).max?, gauges := gaugeTotals rows,
          rates := rateCells pairs } := by
  by_cases hrows : rows = [] <;> by_cases hpairs : pairs = []
  · subst hrows hpairs
    rfl
  · subst hrows
    simp only [hpairs, if_false, joined]
    rfl
  · subst hpairs
    simp only [hrows, if_false, joined]
    rfl
  · simp only [hrows, hpairs, if_false, joined]
    rfl

variable {till : Int}

/-- **A materialization stores what its own scan sees of each bucket.** -/
theorem materialized_eq (repo : MetricRepo) (h : History) (haligned : rollupBucket ∣ since) :
    materialized repo h since till
      = (series since (till - rollupBucket) rollupBucket).map fun b =>
          storedRow h repo.gapThreshold b till := by
  set q := materializeQuery repo since till with hq
  have hw : 0 < q.width := rollupBucket_pos
  have hgap := repo.gapThreshold_pos
  have hscan : q.scanStart ≤ q.windowStart := by
    show since - repo.gapThreshold ≤ since
    omega
  unfold materialized
  refine List.map_congr_left fun b hb => ?_
  obtain ⟨hdvd, hsince, hle⟩ := (mem_grid hw haligned).mp hb
  have hreadings : (q.bounded h).filter (fun s => decide (bucketExpr q.width s.time = b))
      = readings h b (b + rollupBucket) := by
    rw [filter_bucketExpr hw hdvd]
    refine bounded_filter h ?_ ?_
    · show since - repo.gapThreshold ≤ b
      omega
    · show b + rollupBucket ≤ till
      omega
  have hparts : (q.pairs h).filter (fun r => decide (r.bucket = b))
      = parts h repo.gapThreshold b b (b + rollupBucket) till := by
    have hpairs := pairs_at h hw hscan hdvd
    have hlo : max b q.windowStart = b := max_eq_left hsince
    have hhi : min (b + q.width) q.windowEnd = b + rollupBucket := by
      refine min_eq_left ?_
      show b + rollupBucket ≤ till
      omega
    rw [hlo, hhi] at hpairs
    exact hpairs
  rw [← hq, rollupAggregateSelect, rateAggregateSelect,
    lookup_fullOuterJoin (groupBy_nodup _ _ _) (groupBy_nodup _ _ _), lookup_groupBy,
    lookup_groupBy, hreadings, hparts]
  exact rollupRow_joined b _ _

theorem materialized_nodup (repo : MetricRepo) (h : History) (till : Int)
    (haligned : rollupBucket ∣ since) :
    ((materialized repo h since till).map RollupRow.bucketStart).Nodup := by
  rw [materialized_eq repo h haligned, List.map_map]
  have hid : (RollupRow.bucketStart ∘ fun b => storedRow h repo.gapThreshold b till) = id := rfl
  rw [hid, List.map_id]
  exact (series_sorted _ _ rollupBucket_pos).imp fun h => h.ne

/-- The row of a materialization at a bucket, if the bucket is in its range. -/
theorem find_materialized (repo : MetricRepo) (h : History) (haligned : rollupBucket ∣ since) :
    (materialized repo h since till).find? (fun r => r.bucketStart = b)
      = if b ∈ series since (till - rollupBucket) rollupBucket then
          some (storedRow h repo.gapThreshold b till) else none := by
  have hnodup := materialized_nodup repo h till haligned
  refine Option.ext fun r => ?_
  rw [find_key_iff_mem hnodup, materialized_eq repo h haligned, List.mem_map]
  constructor
  · rintro ⟨⟨k, hk, rfl⟩, hkb⟩
    have hkb : k = b := hkb
    rw [if_pos (hkb ▸ hk), hkb]
  · intro hr
    split at hr
    · next hb =>
      cases hr
      exact ⟨⟨b, hb, rfl⟩, rfl⟩
    · cases hr

/-- In a range between aligned bounds, the grid is the aligned instants. -/
theorem mem_closedBuckets (hs : rollupBucket ∣ since) (ht : rollupBucket ∣ till) :
    b ∈ series since (till - rollupBucket) rollupBucket
      ↔ rollupBucket ∣ b ∧ since ≤ b ∧ b < till := by
  have hpos := rollupBucket_pos
  rw [mem_grid hpos hs]
  refine and_congr_right fun hb => and_congr_right fun _ => ⟨fun hle => by omega, fun hlt => ?_⟩
  have hend := aligned_le hpos (Int.dvd_add hb (dvd_refl _)) ht (by omega)
  omega

/-- **A materialization at one bucket**: inside its range the recomputed row
meets the stored one, outside nothing changes. -/
theorem find_materializeBuckets (repo : MetricRepo) (h : History) (hs : rollupBucket ∣ since)
    (ht : rollupBucket ∣ till) (rows : List RollupRow) (b : Int) :
    (materializeBuckets repo h since till rows).find? (fun r => r.bucketStart = b)
      = if rollupBucket ∣ b ∧ since ≤ b ∧ b < till then
          some (merged overwrites (rows.find? fun r => r.bucketStart = b)
            (storedRow h repo.gapThreshold b till))
        else rows.find? fun r => r.bucketStart = b := by
  rw [materializeBuckets, find_foldl_upsert (materialized_nodup repo h till hs),
    find_materialized repo h hs, if_congr (mem_closedBuckets hs ht) rfl rfl]
  split <;> rfl

theorem materializeBuckets_nodup (repo : MetricRepo) (h : History) (since till : Int)
    {rows : List RollupRow} (hrows : (rows.map RollupRow.bucketStart).Nodup) :
    ((materializeBuckets repo h since till rows).map RollupRow.bucketStart).Nodup :=
  foldl_upsert_nodup _ hrows

/-! ## §3. Cycles over one history. -/

/-- Each row is the one the recorded scan computes. -/
structure Backed (h : History) (rows : List RollupRow) (scanned : Int → Option Scan) : Prop where
  nodup : (rows.map RollupRow.bucketStart).Nodup
  aligned : ∀ r ∈ rows, rollupBucket ∣ r.bucketStart
  row : ∀ r ∈ rows, ∃ c, scanned r.bucketStart = some c
    ∧ r = storedRow h c.gap r.bucketStart c.stop

theorem backed_nil (h : History) : Backed h [] fun _ => none where
  nodup := List.nodup_nil
  aligned := by intro r hr; cases hr
  row := by intro r hr; cases hr

/-- Over one history a stored row never withstands its recomputation: both
count the same samples. -/
theorem merged_storedRow (h : History) (gap gap' b c c' : Int) :
    merged overwrites (some (storedRow h gap b c)) (storedRow h gap' b c')
      = storedRow h gap' b c' := by
  refine if_pos ?_
  have hsame : (storedRow h gap b c).samples = (storedRow h gap' b c').samples := rfl
  unfold overwrites
  rw [hsame]
  cases (storedRow h gap' b c').samples <;> rfl

theorem refreshRollups_backed {h : History} {db : Rollups} {scanned : Int → Option Scan}
    (cycle : Refresh) (hdb : Backed h db.rows scanned) :
    Backed h (refreshRollups h db cycle).rows (rescanned h db cycle scanned) := by
  unfold refreshRollups rescanned
  cases hrange : refreshRange h db cycle with
  | none => exact hdb
  | some range =>
    obtain ⟨since, closed⟩ := range
    obtain ⟨hclosed, hsince, hlt, -, -⟩ := refreshRange_spec hrange
    have hs : rollupBucket ∣ since := hsince ▸ dvd_rollupStart _ _ _
    have ht : rollupBucket ∣ closed := hclosed ▸ dvd_bucketStart _
    have key : ∀ r ∈ materializeBuckets cycle.repo h since closed db.rows,
        rollupBucket ∣ r.bucketStart
          ∧ ∃ c, (if since ≤ r.bucketStart ∧ r.bucketStart < closed then
                some ⟨cycle.repo.gapThreshold, closed⟩ else scanned r.bucketStart) = some c
            ∧ r = storedRow h c.gap r.bucketStart c.stop := by
      intro r hr
      have hfind := (find_key_iff_mem
        (materializeBuckets_nodup cycle.repo h since closed hdb.nodup)).mpr ⟨hr, rfl⟩
      rw [find_materializeBuckets cycle.repo h hs ht] at hfind
      by_cases hin : rollupBucket ∣ r.bucketStart ∧ since ≤ r.bucketStart ∧ r.bucketStart < closed
      · -- the cycle rewrote the bucket
        rw [if_pos hin, Option.some.injEq] at hfind
        refine ⟨hin.1, _, if_pos hin.2, ?_⟩
        rw [← hfind]
        cases hold : db.rows.find? (fun s => decide (s.bucketStart = r.bucketStart)) with
        | none => rfl
        | some old =>
          obtain ⟨hmem, hkey⟩ := (find_key_iff_mem hdb.nodup).mp hold
          obtain ⟨c, -, hrow⟩ := hdb.row old hmem
          rw [hrow, hkey, merged_storedRow]
          rfl
      · -- the bucket is outside the range: its row is the old one
        rw [if_neg hin] at hfind
        obtain ⟨hmem, -⟩ := (find_key_iff_mem hdb.nodup).mp hfind
        obtain ⟨c, hc, hrow⟩ := hdb.row r hmem
        have haligned := hdb.aligned r hmem
        rw [if_neg fun h => hin ⟨haligned, h⟩]
        exact ⟨haligned, c, hc, hrow⟩
    exact ⟨materializeBuckets_nodup cycle.repo h since closed hdb.nodup, fun r hr => (key r hr).1,
      fun r hr => (key r hr).2⟩

/-- **Every row is the one of the last cycle that covered its bucket.** -/
theorem refreshed_backed (h : History) (cycles : List Refresh) :
    Backed h (refreshed h cycles).rows (scannedThrough h cycles) := by
  have hrun : ∀ (cycles : List Refresh) (st : Rollups × (Int → Option Scan)),
      Backed h st.1.rows st.2 →
      Backed h (cycles.foldl (refreshRollups h) st.1).rows
        (cycles.foldl (fun st cycle =>
          (refreshRollups h st.1 cycle, rescanned h st.1 cycle st.2)) st).2 := by
    intro cycles
    induction cycles with
    | nil => intro st hst; exact hst
    | cons cycle cycles ih =>
      intro st hst
      exact ih (refreshRollups h st.1 cycle, rescanned h st.1 cycle st.2)
        (refreshRollups_backed cycle hst)
  exact hrun cycles ({}, fun _ => none) (backed_nil h)

end Talus.Metrics
