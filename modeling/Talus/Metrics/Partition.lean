/-
  Talus.Metrics.Partition
  **THE SOURCES OF A ROLLUP-BACKED READ PARTITION ITS WINDOW.**

  A read over the raw budget is planned bucket by bucket: a complete six-hour
  bucket that is closed, confirmed and materialized is served from the rollup
  table, everything else is read raw.  `PlanInv` of `Talus.Metrics.Sources` is
  what the planning loop keeps.  Here it is turned into the statement about
  instants: each one of the window lies in exactly one source.

  The window has to start at or after the epoch.  `bucketStart` rounds toward
  the epoch, so an earlier window would begin with the bucket after its first
  instant.
-/
import Talus.Metrics.Answer

namespace Talus.Metrics

open Talus.Base.Relation List Option

/-! ## §1. The ranges of a plan. -/

/-- Every range a plan reads: the buckets from the table and the raw spans. -/
def SourcePlan.pieces (plan : SourcePlan) : List Span :=
  plan.rollupBuckets.map (fun b => ⟨b, b + rollupBucket⟩) ++ plan.rawSpans

/-- No instant lies in both half-open ranges. -/
def Span.Apart (S T : Span) : Prop := S.stop ≤ T.start ∨ T.stop ≤ S.start

section Loop

variable {since till closed : Int} {ready : Int → Bool}

/-- The buckets from the table are those of the grid that pass the test, in
grid order. -/
theorem foldl_rollupBuckets (grid : List Int) (plan : SourcePlan) :
    (grid.foldl (planBucket since till closed ready) plan).rollupBuckets
      = plan.rollupBuckets ++ grid.filter fun b =>
          decide (since ≤ b ∧ b + rollupBucket ≤ till ∧ b + rollupBucket ≤ closed) && ready b := by
  induction grid generalizing plan with
  | nil => simp
  | cons b grid ih =>
    rw [foldl_cons, ih, filter_cons]
    unfold planBucket
    dsimp only
    split
    · rw [append_assoc, singleton_append]
    · split <;> rfl

end Loop

theorem sourcePlan_sorted (db : Rollups) (now since till : Int) :
    (sourcePlan db now since till).rollupBuckets.Pairwise (· < ·) := by
  unfold sourcePlan
  rw [foldl_rollupBuckets, nil_append]
  exact (series_sorted _ _ rollupBucket_pos).sublist filter_sublist

section Plan

variable {since till closed start cur : Int} {ready : Int → Bool} {plan : SourcePlan}

section

variable (hinv : PlanInv since till closed ready start cur plan)
include hinv

theorem PlanInv.pieces_apart
    (hsorted : plan.rollupBuckets.Pairwise (· < ·)) : plan.pieces.Pairwise Span.Apart := by
  refine pairwise_append.mpr ⟨pairwise_map.mpr ?_, ?_, ?_⟩
  · refine List.Pairwise.imp_of_mem (fun {a b} ha hb hlt => ?_) hsorted
    -- two boundaries of the grid are at least one bucket apart
    refine .inl (not_lt.mp fun hover => ?_)
    have := aligned_le rollupBucket_pos (hinv.served b hb).1 (hinv.served a ha).1 hover
    omega
  · exact hinv.apart.imp fun hlt => .inl hlt.le
  · intro S hS T hT
    obtain ⟨b, hb, rfl⟩ := mem_map.mp hS
    exact (hinv.avoids b hb T hT).symm

theorem PlanInv.pieces_inside
    {S : Span} (hS : S ∈ plan.pieces) : since ≤ S.start ∧ S.start < S.stop ∧ S.stop ≤ till := by
  have hpos := rollupBucket_pos
  rcases mem_append.mp hS with hS | hS
  · obtain ⟨b, hb, rfl⟩ := mem_map.mp hS
    have := hinv.served b hb
    dsimp only
    omega
  · have := hinv.bounds S hS
    omega

/-- An instant of the window lies in the piece of its bucket. -/
theorem PlanInv.pieces_cover
    (hgrid : ∀ b, rollupBucket ∣ b → start ≤ b → b < till → b < cur) {t : Int}
    (hstart : start ≤ bucketExpr rollupBucket t) (hsince : since ≤ t) (htill : t < till) :
    ∃ S ∈ plan.pieces, S.start ≤ t ∧ t < S.stop := by
  set b := bucketExpr rollupBucket t with hb
  have hdvd : rollupBucket ∣ b := dvd_bucketExpr _ _
  have hle : b ≤ t := bucketExpr_le rollupBucket_pos t
  have hlt : t < b + rollupBucket := lt_bucketExpr_add rollupBucket_pos t
  by_cases hserved : b ∈ plan.rollupBuckets
  · exact ⟨⟨b, b + rollupBucket⟩, mem_append_left _ (mem_map.mpr ⟨b, hserved, rfl⟩), hle, hlt⟩
  · obtain ⟨S, hS, hlo, hhi⟩ := hinv.covered b hdvd hstart (hgrid b hdvd hstart (by omega))
      hserved (by omega)
    exact ⟨S, mem_append_right _ hS, by omega, by omega⟩

/-- Spans that touch would have been merged. -/
theorem PlanInv.not_adjacent
    {S T : Span} (hS : S ∈ plan.rawSpans) (hT : T ∈ plan.rawSpans) : S.stop ≠ T.start := by
  intro hmeet
  have hSb := hinv.bounds S hS
  have hTb := hinv.bounds T hT
  have hsym : Std.Symm fun S T : Span => S.stop < T.start ∨ T.stop < S.start :=
    ⟨fun S T h => h.symm⟩
  by_cases heq : S = T
  · subst heq
    omega
  · have hapart : plan.rawSpans.Pairwise fun S T : Span => S.stop < T.start ∨ T.stop < S.start :=
      hinv.apart.imp fun h => .inl h
    rcases hapart.forall hS hT heq with h | h <;> omega

end

end Plan

/-! ## §2. The points of an answer. -/

/-- **The points of an answer stand on distinct buckets of the window**, in
time order. -/
theorem answer_times {repo : MetricRepo} {h : History} {db : Rollups} {now since till : Int}
    {answer : List AggregatedMetric × Bool} (hkeys : (db.rows.map RollupRow.bucketStart).Nodup)
    (hanswer : queryRollupWithEdges repo h db now since till = .ok answer) :
    (answer.1.map AggregatedMetric.time).Pairwise (· < ·)
      ∧ ∀ t ∈ answer.1.map AggregatedMetric.time,
          rollupBucket ∣ t ∧ max t since < min (t + rollupBucket) till := by
  obtain ⟨-, rfl⟩ := queryRollupWithEdges_eq_ok_iff.mp hanswer
  obtain ⟨cur, hinv, -⟩ := sourcePlan_inv db now since till
  have htable := answer_tabulates (h := h) repo hkeys hinv rfl
  refine ⟨?_, fun t ht => ?_⟩
  · have hsorted := pairwise_map.mp htable.sorted
    exact pairwise_map.mpr hsorted
  · obtain ⟨p, hp, rfl⟩ := mem_map.mp ht
    have hstat := (htable.mem p.statistics).mp (mem_map_of_mem hp)
    rcases or_eq_some_iff.mp hstat with hserved | ⟨-, hspan⟩
    · unfold servedStatistics at hserved
      split at hserved
      · next hb =>
        have hpos := rollupBucket_pos
        obtain ⟨hdvd, -, -, hlo, hhi, -⟩ := hinv.served _ hb
        refine ⟨hdvd, ?_⟩
        change since ≤ p.time at hlo
        change p.time + rollupBucket ≤ till at hhi
        omega
      · cases hserved
    · obtain ⟨S, hS, hraw⟩ := exists_of_findSome?_eq_some hspan
      obtain ⟨hdvd, htouch⟩ := rawStatistics_eq_some hraw
      have hbounds := hinv.bounds S hS
      refine ⟨hdvd, ?_⟩
      change max p.time S.start < min (p.time + rollupBucket) S.stop at htouch
      omega

/-! ## §3. The partition. -/

/-- **The sources of a read partition its window.**  For a window after the
epoch, every clock and every content of the rollup table and its checkpoint:

  • the pieces of the plan are nonempty, pairwise disjoint, and an instant lies
    in one of them exactly when it lies in the window,
  • a bucket from the table is aligned, wholly inside the window, over by `now`,
    confirmed by the checkpoint and materialized,
  • no raw span starts where one ends,
  • the points of an answer are in time order, one per bucket at most. -/
theorem sources_partition_window (repo : MetricRepo) (h : History) (db : Rollups)
    (now since till : Int) (hepoch : 0 ≤ since)
    (hkeys : (db.rows.map RollupRow.bucketStart).Nodup) :
    let plan := sourcePlan db now since till
    (∀ S ∈ plan.pieces, S.start < S.stop)
    ∧ plan.pieces.Pairwise Span.Apart
    ∧ (∀ t, (∃ S ∈ plan.pieces, S.start ≤ t ∧ t < S.stop) ↔ since ≤ t ∧ t < till)
    ∧ (∀ b ∈ plan.rollupBuckets, rollupBucket ∣ b ∧ since ≤ b ∧ b + rollupBucket ≤ till
        ∧ b + rollupBucket ≤ now
        ∧ (∃ c, db.checkpoint = some c ∧ b + rollupBucket ≤ c)
        ∧ ∃ row ∈ db.rows, row.bucketStart = b)
    ∧ (∀ S ∈ plan.rawSpans, ∀ T ∈ plan.rawSpans, S.stop ≠ T.start)
    ∧ ∀ points used, queryRollupWithEdges repo h db now since till = .ok (points, used) →
        points.Pairwise (fun p q => p.time < q.time)
        ∧ (points.map fun p => bucketExpr rollupBucket p.time).Nodup := by
  intro plan
  have hpos := rollupBucket_pos
  obtain ⟨cur, hinv, hgrid⟩ := sourcePlan_inv db now since till
  refine ⟨fun S hS => (hinv.pieces_inside hS).2.1,
    hinv.pieces_apart (sourcePlan_sorted db now since till), fun t => ⟨?_, ?_⟩, ?_,
    fun S hS T hT => hinv.not_adjacent hS hT, ?_⟩
  · rintro ⟨S, hS, hlo, hhi⟩
    have := hinv.pieces_inside hS
    omega
  · rintro ⟨hsince, htill⟩
    -- the loop starts at or before the bucket of every instant of the window
    have hstart : bucketStart since ≤ bucketExpr rollupBucket t :=
      bucketStart_of_nonneg (hepoch.trans hsince) ▸ bucketStart_mono hsince
    exact hinv.pieces_cover hgrid hstart hsince htill
  · intro b hb
    obtain ⟨hdvd, -, -, hlo, hhi, hclosed, hready⟩ := hinv.served b hb
    obtain ⟨hconfirmed, hrow⟩ := bucketReady_spec hready
    refine ⟨hdvd, hlo, hhi, ?_, hconfirmed, hrow⟩
    -- a closing boundary after the epoch lies at or before the clock
    have hnow : 0 ≤ now := by
      by_contra hneg
      have := (bucketStart_mono (not_le.mp hneg).le).trans_eq (show bucketStart 0 = 0 by decide)
      omega
    exact hclosed.trans (bucketStart_of_nonneg hnow ▸ bucketExpr_le hpos now)
  · intro points used hanswer
    obtain ⟨hsorted, htimes⟩ := answer_times hkeys hanswer
    refine ⟨pairwise_map.mp hsorted, ?_⟩
    have hbuckets : (points.map fun p => bucketExpr rollupBucket p.time)
        = points.map AggregatedMetric.time := by
      refine map_congr_left fun p hp => ?_
      exact (bucketExpr_eq_iff hpos (htimes _ (mem_map_of_mem hp)).1).mpr ⟨le_refl _, by omega⟩
    rw [hbuckets]
    exact hsorted.imp fun hlt => hlt.ne

/-- A window of twelve hours from the middle of a bucket: the complete bucket
comes from the table, the two halves are read raw. -/
theorem sources_partition_inner :
    (sourcePlan (refreshed innerHistory [nightly]) nightly.now
        (1000 * rollupBucket + 3 * hour) (1002 * rollupBucket + 3 * hour)).pieces
      = [⟨1001 * rollupBucket, 1002 * rollupBucket⟩,
         ⟨1000 * rollupBucket + 3 * hour, 1001 * rollupBucket⟩,
         ⟨1002 * rollupBucket, 1002 * rollupBucket + 3 * hour⟩]
    ∧ ∀ t, (∃ S ∈ (sourcePlan (refreshed innerHistory [nightly]) nightly.now
          (1000 * rollupBucket + 3 * hour) (1002 * rollupBucket + 3 * hour)).pieces,
          S.start ≤ t ∧ t < S.stop)
        ↔ 1000 * rollupBucket + 3 * hour ≤ t ∧ t < 1002 * rollupBucket + 3 * hour :=
  ⟨by decide +kernel,
    (sources_partition_window {} innerHistory (refreshed innerHistory [nightly]) nightly.now
      (1000 * rollupBucket + 3 * hour) (1002 * rollupBucket + 3 * hour) (by decide)
      (refreshed_backed innerHistory [nightly]).nodup).2.2.1⟩

end Talus.Metrics
