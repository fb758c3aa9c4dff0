/-
  Talus.Metrics.Answer
  **WHAT A ROLLUP-BACKED READ ANSWERS.**

  A rollup-backed read is answered when the raw spans of its plan fit the raw
  budget together.  Its points are then a table over the buckets: what the
  rollup table reports at a bucket the plan serves from it, and what a raw span
  reports at the others.

    • `queryRollupWithEdges_eq_ok_iff`: when, and with which points,
    • `answer_tabulates`: the points tabulate both sources.
-/
import Mathlib.Data.List.Induction
import Talus.Metrics.Sources

namespace Talus.Metrics

open Talus.Base.Relation List Option

/-! ## §1. Sorting the points. -/

theorem insertPoint_perm (p : AggregatedMetric) (l : List AggregatedMetric) :
    (insertPoint p l).Perm (p :: l) := by
  induction l with
  | nil => exact List.Perm.refl _
  | cons q l ih =>
    unfold insertPoint
    split
    · exact List.Perm.refl _
    · exact (ih.cons q).trans (List.Perm.swap p q l)

theorem insertPoint_sorted {p : AggregatedMetric} {l : List AggregatedMetric}
    (hl : l.Pairwise fun a b => a.time < b.time) (hp : p.time ∉ l.map AggregatedMetric.time) :
    (insertPoint p l).Pairwise fun a b => a.time < b.time := by
  induction l with
  | nil => exact pairwise_singleton _ _
  | cons q l ih =>
    obtain ⟨hq, hl'⟩ := pairwise_cons.mp hl
    rw [map_cons, mem_cons, not_or] at hp
    unfold insertPoint
    split
    · next hlt =>
      refine pairwise_cons.mpr ⟨fun r hr => ?_, hl⟩
      rcases mem_cons.mp hr with rfl | hr
      · exact hlt
      · have := hq r hr
        omega
    · next hge =>
      refine pairwise_cons.mpr ⟨fun r hr => ?_, ih hl' hp.2⟩
      rcases mem_cons.mp ((insertPoint_perm p l).mem_iff.mp hr) with rfl | hr
      · omega
      · exact hq r hr

/-- Points with distinct times come out strictly increasing. -/
theorem sortPoints_spec {points : List AggregatedMetric}
    (hnodup : (points.map AggregatedMetric.time).Nodup) :
    (sortPoints points).Perm points
      ∧ (sortPoints points).Pairwise fun a b => a.time < b.time := by
  induction points using List.reverseRecOn with
  | nil => exact ⟨.refl _, .nil⟩
  | append_singleton points p ih =>
    rw [map_append, nodup_append] at hnodup
    obtain ⟨hperm, hsorted⟩ := ih hnodup.1
    have hfresh : p.time ∉ (sortPoints points).map AggregatedMetric.time := fun hmem =>
      hnodup.2.2 _ ((hperm.map _).mem_iff.mp hmem) _ mem_cons_self rfl
    unfold sortPoints at *
    rw [foldl_concat]
    exact ⟨(insertPoint_perm p _).trans ((hperm.cons p).trans (perm_append_singleton _ _).symm),
      insertPoint_sorted hsorted hfresh⟩

/-! ## §2. Reading the spans. -/

/-- The raw input the plan's spans need together. -/
def plannedRaw (h : History) (spans : List Span) : ℕ :=
  (spans.map fun S => plannedSamples h S.start S.stop).sum

/-- The spans are read in turn when they fit the budget together, and the read
is refused otherwise. -/
theorem readSpans_spec (repo : MetricRepo) (h : History) (spans : List Span) :
    ∀ total, total ≤ maxRawSamples →
      (total + plannedRaw h spans ≤ maxRawSamples →
        readSpans repo h total spans
          = .ok (spans.flatMap fun S => queryRawBuckets repo h S.start S.stop .h6))
      ∧ (maxRawSamples < total + plannedRaw h spans →
        ∃ err, readSpans repo h total spans = .error err ∧ err.reason = .rollupNotReady) := by
  induction spans with
  | nil =>
    intro total htotal
    exact ⟨fun _ => rfl, fun hover => absurd htotal (by simpa [plannedRaw] using hover)⟩
  | cons S spans ih =>
    intro total htotal
    have hsum : plannedRaw h (S :: spans)
        = plannedSamples h S.start S.stop + plannedRaw h spans := rfl
    rw [hsum, ← Nat.add_assoc]
    unfold readSpans
    dsimp only [probeRawSamples]
    by_cases hover : maxRawSamples < total + plannedSamples h S.start S.stop
    · rw [if_pos (by simp [hover])]
      exact ⟨fun hfit => absurd hfit (by omega), fun _ => ⟨_, rfl, rfl⟩⟩
    · have hsmall : ¬ maxRawSamples < plannedSamples h S.start S.stop := by omega
      rw [if_neg (by simp [hover, hsmall])]
      obtain ⟨hok, herr⟩ := ih (total + plannedSamples h S.start S.stop) (by omega)
      refine ⟨fun hfit => ?_, fun hlarge => ?_⟩
      · rw [hok hfit]
        rfl
      · obtain ⟨err, heq, hreason⟩ := herr hlarge
        exact ⟨err, by rw [heq]; rfl, hreason⟩

/-- **When a rollup-backed read is answered, and with what**: the plan's raw
spans fit the budget together, and the points of both sources are sorted. -/
theorem queryRollupWithEdges_eq_ok_iff {repo : MetricRepo} {h : History} {db : Rollups}
    {now since till : Int} {answer : List AggregatedMetric × Bool} :
    queryRollupWithEdges repo h db now since till = .ok answer
      ↔ plannedRaw h (sourcePlan db now since till).rawSpans ≤ maxRawSamples
        ∧ answer = (sortPoints (rollupPoints db (sourcePlan db now since till) since till
              ++ (sourcePlan db now since till).rawSpans.flatMap
                  fun S => queryRawBuckets repo h S.start S.stop .h6),
            !(rollupPoints db (sourcePlan db now since till) since till).isEmpty) := by
  obtain ⟨hok, herr⟩ :=
    readSpans_spec repo h (sourcePlan db now since till).rawSpans 0 (Nat.zero_le _)
  rw [Nat.zero_add] at hok herr
  unfold queryRollupWithEdges
  dsimp only
  by_cases hfit : plannedRaw h (sourcePlan db now since till).rawSpans ≤ maxRawSamples
  · rw [hok hfit]
    constructor
    · intro hanswer
      injection hanswer with hanswer
      exact ⟨hfit, hanswer.symm⟩
    · rintro ⟨-, rfl⟩
      rfl
  · obtain ⟨err, heq, -⟩ := herr (not_le.mp hfit)
    rw [heq]
    exact ⟨nofun, fun hanswer => absurd hanswer.1 hfit⟩

/-- A rollup-backed read is refused for the budget of its raw spans only. -/
theorem queryRollupWithEdges_eq_error {repo : MetricRepo} {h : History} {db : Rollups}
    {now since till : Int} {err : QueryBudgetError}
    (herr : queryRollupWithEdges repo h db now since till = .error err) :
    maxRawSamples < plannedRaw h (sourcePlan db now since till).rawSpans
      ∧ err.reason = .rollupNotReady := by
  by_cases hfit : plannedRaw h (sourcePlan db now since till).rawSpans ≤ maxRawSamples
  · rw [queryRollupWithEdges_eq_ok_iff.mpr ⟨hfit, rfl⟩] at herr
    cases herr
  · obtain ⟨err', heq, hreason⟩ :=
      (readSpans_spec repo h (sourcePlan db now since till).rawSpans 0 (Nat.zero_le _)).2 (by omega)
    unfold queryRollupWithEdges at herr
    dsimp only at herr
    rw [heq] at herr
    cases herr
    exact ⟨not_le.mp hfit, hreason⟩

/-! ## §3. The answer as a table. -/

section Answer

variable {gap b : Int} {S : Span} {h : History} {db : Rollups}
  {since till closed cur : Int} {ready : Int → Bool} {plan : SourcePlan}

/-- What the table reports at a bucket the plan serves from it. -/
def servedStatistics (db : Rollups) (plan : SourcePlan) (b : Int) : Option Statistics :=
  if b ∈ plan.rollupBuckets then
    (db.rows.find? fun row => row.bucketStart = b).map fun row =>
      (rollupRowToPoint row).statistics
  else none

/-- What the raw spans report at a bucket. -/
def spanStatistics (h : History) (gap : Int) (plan : SourcePlan) (b : Int) : Option Statistics :=
  plan.rawSpans.findSome? fun S => rawStatistics h gap rollupBucket S.start S.stop b

theorem rollupPoints_enumerates (hnodup : (db.rows.map RollupRow.bucketStart).Nodup)
    (hinv : PlanInv since till closed ready (bucketStart since) cur plan) :
    Enumerates Statistics.time (servedStatistics db plan)
      ((rollupPoints db plan since till).map AggregatedMetric.statistics) := by
  have hperm := orderBy_perm RollupRow.bucketStart (db.rows.filter fun row =>
    bucketStart since ≤ row.bucketStart ∧ row.bucketStart < till)
  have hmem : ∀ row, row ∈ (selectRollup db (bucketStart since) till).filter
      (fun row => plan.rollupBuckets.contains row.bucketStart)
      ↔ row ∈ db.rows ∧ row.bucketStart ∈ plan.rollupBuckets := by
    intro row
    rw [mem_filter, selectRollup, hperm.mem_iff, mem_filter, contains_iff_mem]
    constructor
    · rintro ⟨⟨hrow, -⟩, hb⟩
      exact ⟨hrow, hb⟩
    · rintro ⟨hrow, hb⟩
      have hpos := rollupBucket_pos
      obtain ⟨-, h1, -, -, h2, -⟩ := hinv.served _ hb
      exact ⟨⟨hrow, decide_eq_true ⟨h1, by omega⟩⟩, hb⟩
  have hkeys : (((selectRollup db (bucketStart since) till).filter
      fun row => plan.rollupBuckets.contains row.bucketStart).map RollupRow.bucketStart).Nodup := by
    refine List.Nodup.sublist (filter_sublist.map _) ?_
    refine ((hperm.map RollupRow.bucketStart).nodup_iff).mpr ?_
    exact hnodup.sublist (filter_sublist.map _)
  refine ⟨?_, fun r => ?_, fun b r hr => ?_⟩
  · rw [rollupPoints, List.map_map, List.map_map]
    exact hkeys
  · rw [rollupPoints, List.map_map, List.mem_map, servedStatistics]
    constructor
    · rintro ⟨row, hrow, rfl⟩
      obtain ⟨hdb, hb⟩ := (hmem row).mp hrow
      have hfind := (find_key_iff_mem hnodup).mpr ⟨hdb, rfl⟩
      show (if row.bucketStart ∈ plan.rollupBuckets then _ else _) = _
      rw [if_pos hb]
      show Option.map _ (db.rows.find? fun r => decide (r.bucketStart = row.bucketStart)) = _
      rw [hfind]
      rfl
    · intro hr
      split at hr
      · next hb =>
        obtain ⟨row, hfind, rfl⟩ := map_eq_some_iff.mp hr
        obtain ⟨hdb, hkey⟩ := (find_key_iff_mem hnodup).mp hfind
        refine ⟨row, (hmem row).mpr ⟨hdb, ?_⟩, rfl⟩
        rw [hkey]
        exact hb
      · cases hr
  · rw [servedStatistics] at hr
    split at hr
    · obtain ⟨row, hfind, rfl⟩ := map_eq_some_iff.mp hr
      exact ((find_key_iff_mem hnodup).mp hfind).2
    · cases hr

theorem rawStatistics_eq_some {w : Int} {st : Statistics}
    (hst : rawStatistics h gap w since till b = some st) :
    w ∣ b ∧ max b since < min (b + w) till := by
  unfold rawStatistics at hst
  split at hst
  · next hcond =>
    refine ⟨hcond.1, ?_⟩
    rcases hcond.2 with ⟨s, -, hs⟩ | ⟨p, -, -, hp, -⟩ <;> omega
  · cases hst

theorem rawStatistics_none_of_not_touches (hno : ¬ S.Touches b) :
    rawStatistics h gap rollupBucket S.start S.stop b = none := by
  cases hst : rawStatistics h gap rollupBucket S.start S.stop b with
  | none => rfl
  | some st => exact absurd (rawStatistics_eq_some hst).2 hno

theorem spans_enumerates (repo : MetricRepo) (h : History)
    (hinv : PlanInv since till closed ready (bucketStart since) cur plan) :
    Enumerates Statistics.time (spanStatistics h repo.gapThreshold plan)
      ((plan.rawSpans.flatMap fun S => queryRawBuckets repo h S.start S.stop .h6).map
        AggregatedMetric.statistics) := by
  rw [map_flatMap]
  refine Enumerates.flatMap (fun S _ =>
    (queryRawBuckets_tabulates repo h S.start S.stop .h6).enumerates) ?_
  refine List.Pairwise.imp_of_mem (fun {S T} hS hT hlt b => ?_) hinv.apart
  by_cases htouch : S.Touches b
  · by_cases hb : rollupBucket ∣ b
    · exact .inr (rawStatistics_none_of_not_touches (hinv.disjoint hS hT hlt hb htouch))
    · exact .inl (if_neg fun hcond => hb hcond.1)
  · exact .inl (rawStatistics_none_of_not_touches htouch)

/-- **An answer tabulates its two sources.** -/
theorem answer_tabulates (repo : MetricRepo) {points : List AggregatedMetric}
    (hnodup : (db.rows.map RollupRow.bucketStart).Nodup)
    (hinv : PlanInv since till closed ready (bucketStart since) cur plan)
    (hpoints : points = sortPoints (rollupPoints db plan since till
      ++ plan.rawSpans.flatMap fun S => queryRawBuckets repo h S.start S.stop .h6)) :
    Tabulates Statistics.time
      (fun b => (servedStatistics db plan b).or (spanStatistics h repo.gapThreshold plan b))
      (points.map AggregatedMetric.statistics) := by
  have hboth := (rollupPoints_enumerates hnodup hinv).append (spans_enumerates repo h hinv)
    fun b => by
      by_cases hb : b ∈ plan.rollupBuckets
      · refine .inr (List.findSome?_eq_none_iff.mpr fun S hS => ?_)
        exact rawStatistics_none_of_not_touches (hinv.not_touches hb hS)
      · exact .inl (if_neg hb)
  rw [← List.map_append] at hboth
  have htimes := hboth.nodup
  rw [List.map_map] at htimes
  obtain ⟨hperm, hsorted⟩ := sortPoints_spec htimes
  rw [hpoints]
  exact hboth.tabulates (hperm.map _) (List.pairwise_map.mpr hsorted)

end Answer

/-! ## §4. Two histories. -/

/-- One cycle, an hour after the boundary it closes. -/
def nightly : Refresh := { now := 1002 * rollupBucket + hour, window := 48 * hour }

/-- Two samples inside one bucket. -/
def innerHistory : History where
  samples :=
    [{ time := 1001 * rollupBucket + 60 * second, netBytesRecv := some 0 },
     { time := 1001 * rollupBucket + 120 * second, netBytesRecv := some 600 }]
  ordered := by decide

/-- Two samples half a minute before and after the boundary between two
buckets. -/
def borderHistory : History where
  samples :=
    [{ time := 1001 * rollupBucket - 30 * second, netBytesRecv := some 0 },
     { time := 1001 * rollupBucket + 30 * second, netBytesRecv := some 600 }]
  ordered := by decide

end Talus.Metrics
