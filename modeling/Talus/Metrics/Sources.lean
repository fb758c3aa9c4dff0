/-
  Talus.Metrics.Sources
  **THE SOURCE PLAN PARTITIONS ITS WINDOW.**

  The planning loop walks the six-hour grid once.  What it keeps (`PlanInv`):

    • a bucket taken from the rollup table lies inside the window, is closed
      and is ready,
    • the raw spans are in order, apart from each other, clipped to the window,
      and each of their ends is an edge of the window or a bucket boundary,
    • every other bucket of the grid is covered by one of them, and none of
      them touches a bucket taken from the table.

  With the edges aligned, no two spans share a bucket (`PlanInv.disjoint`).
-/
import Mathlib.Data.List.Pairwise
import Talus.Metrics.Materialized

namespace Talus.Metrics

open Talus.Base.Relation List

/-! ## §1. The planning loop. -/

/-- What the loop has established after the buckets before `cur`. -/
structure PlanInv (since till closed : Int) (ready : Int → Bool) (start cur : Int)
    (plan : SourcePlan) : Prop where
  served : ∀ b ∈ plan.rollupBuckets, rollupBucket ∣ b ∧ start ≤ b ∧ b + rollupBucket ≤ cur
    ∧ since ≤ b ∧ b + rollupBucket ≤ till ∧ b + rollupBucket ≤ closed ∧ ready b = true
  apart : plan.rawSpans.Pairwise fun S T => S.stop < T.start
  bounds : ∀ S ∈ plan.rawSpans, start ≤ S.start ∧ since ≤ S.start ∧ S.start < S.stop
    ∧ S.stop ≤ till ∧ S.stop ≤ cur
  edges : ∀ S ∈ plan.rawSpans, (S.start = since ∨ rollupBucket ∣ S.start)
    ∧ (S.stop = till ∨ rollupBucket ∣ S.stop)
  covered : ∀ b, rollupBucket ∣ b → start ≤ b → b < cur → b ∉ plan.rollupBuckets →
    max b since < min (b + rollupBucket) till →
    ∃ S ∈ plan.rawSpans, S.start ≤ max b since ∧ min (b + rollupBucket) till ≤ S.stop
  avoids : ∀ b ∈ plan.rollupBuckets, ∀ S ∈ plan.rawSpans,
    S.stop ≤ b ∨ b + rollupBucket ≤ S.start

/-- What `addSpan` does to spans in order that end at or before the new
range: the spans before `s` stay, and the last one runs from `s` to the new
end.  Either `s` starts the new range, or a span that ended there grows. -/
theorem addSpan_spec {spans : List Span} {a z : Int} (hle : ∀ S ∈ spans, S.stop ≤ a)
    (hlt : ∀ S ∈ spans, S.start < S.stop)
    (hap : spans.Pairwise fun S T => S.stop < T.start) :
    ∃ init s, addSpan spans a z = init ++ [⟨s, z⟩]
      ∧ init.Pairwise (fun S T => S.stop < T.start)
      ∧ (∀ S ∈ init, S ∈ spans ∧ S.stop < s)
      ∧ (s = a ∨ ∃ T ∈ spans, T.start = s ∧ T.stop = a)
      ∧ ∀ S ∈ spans, S ∈ init ∨ S.start = s ∧ S.stop = a := by
  unfold addSpan
  cases hlast : spans.getLast? with
  | none =>
    obtain rfl : spans = [] := getLast?_eq_none_iff.mp hlast
    exact ⟨[], a, rfl, hap, by simp, .inl rfl, by simp⟩
  | some last =>
    obtain ⟨init, rfl⟩ := getLast?_eq_some_iff.mp hlast
    obtain ⟨hinit, -, hcross⟩ := pairwise_append.mp hap
    have hbefore : ∀ S ∈ init, S.stop < last.start := fun S hS => hcross S hS last (by simp)
    dsimp only
    by_cases hstop : last.stop = a
    · rw [if_pos hstop, dropLast_concat]
      refine ⟨init, last.start, rfl, hinit, ?_, .inr ⟨last, by simp, rfl, hstop⟩, ?_⟩
      · exact fun S hS => ⟨mem_append_left _ hS, hbefore S hS⟩
      · intro S hS
        rcases mem_append.mp hS with hS | hS
        · exact .inl hS
        · rw [mem_singleton.mp hS]
          exact .inr ⟨rfl, hstop⟩
    · rw [if_neg hstop]
      refine ⟨_, a, rfl, hap, fun S hS => ⟨hS, ?_⟩, .inl rfl, fun S hS => .inl hS⟩
      have hl : last.stop < a := lt_of_le_of_ne (hle last (by simp)) hstop
      rcases mem_append.mp hS with hS | hS
      · have h1 := hbefore S hS
        have h2 := hlt last (by simp)
        omega
      · rw [mem_singleton.mp hS]
        exact hl

section Loop

variable {since till closed start cur : Int} {ready : Int → Bool} {plan : SourcePlan}

/-- A bucket before the current one lies in the past of the loop. -/
theorem before_or_current {b : Int} (hcur : rollupBucket ∣ cur) (hb : rollupBucket ∣ b)
    (hlt : b < cur + rollupBucket) : b < cur ∨ b = cur := by
  have := aligned_le rollupBucket_pos hb hcur hlt
  omega

section

variable (hinv : PlanInv since till closed ready start cur plan) (hcur : rollupBucket ∣ cur)
include hinv hcur

theorem PlanInv.serve (hstart : start ≤ cur) (hready : ready cur = true)
    (hin : since ≤ cur ∧ cur + rollupBucket ≤ till ∧ cur + rollupBucket ≤ closed) :
    PlanInv since till closed ready start (cur + rollupBucket)
      { plan with rollupBuckets := plan.rollupBuckets ++ [cur] } where
  served := by
    intro b hb
    have hpos := rollupBucket_pos
    rcases mem_append.mp hb with hb | hb
    · obtain ⟨h1, h2, h3, h4⟩ := hinv.served b hb
      exact ⟨h1, h2, by omega, h4⟩
    · rw [mem_singleton.mp hb]
      exact ⟨hcur, hstart, le_refl _, hin.1, hin.2.1, hin.2.2, hready⟩
  __ := hinv
  bounds := by
    intro S hS
    have hpos := rollupBucket_pos
    obtain ⟨h1, h2, h3, h4, h5⟩ := hinv.bounds S hS
    exact ⟨h1, h2, h3, h4, by omega⟩
  covered := by
    intro b hb hsb hlt hnot hclip
    rw [mem_append, not_or] at hnot
    rcases before_or_current hcur hb hlt with hlt | rfl
    · exact hinv.covered b hb hsb hlt hnot.1 hclip
    · exact absurd (mem_singleton.mpr rfl) hnot.2
  avoids := by
    intro b hb S hS
    rcases mem_append.mp hb with hb | hb
    · exact hinv.avoids b hb S hS
    · rw [mem_singleton.mp hb]
      exact .inl (hinv.bounds S hS).2.2.2.2

theorem PlanInv.skip (hclip : ¬ max cur since < min (cur + rollupBucket) till) :
    PlanInv since till closed ready start (cur + rollupBucket) plan where
  served := by
    intro b hb
    have hpos := rollupBucket_pos
    obtain ⟨h1, h2, h3, h4⟩ := hinv.served b hb
    exact ⟨h1, h2, by omega, h4⟩
  __ := hinv
  bounds := by
    intro S hS
    have hpos := rollupBucket_pos
    obtain ⟨h1, h2, h3, h4, h5⟩ := hinv.bounds S hS
    exact ⟨h1, h2, h3, h4, by omega⟩
  covered := by
    intro b hb hsb hlt hnot hb'
    rcases before_or_current hcur hb hlt with hlt | rfl
    · exact hinv.covered b hb hsb hlt hnot hb'
    · exact absurd hb' hclip

/-- Appending a range that starts after every span, or growing the last span
over it, keeps the spans in order. -/
theorem PlanInv.read (hstart : start ≤ cur)
    (hclip : max cur since < min (cur + rollupBucket) till) :
    PlanInv since till closed ready start (cur + rollupBucket)
      { plan with
        rawSpans := addSpan plan.rawSpans (max cur since) (min (cur + rollupBucket) till) } := by
  have hpos := rollupBucket_pos
  set a := max cur since with ha
  set z := min (cur + rollupBucket) till with hz
  have hedgeA : a = since ∨ rollupBucket ∣ a := by
    rcases max_choice cur since with h | h
    · exact .inr (by rw [ha, h]; exact hcur)
    · exact .inl h
  have hedgeZ : z = till ∨ rollupBucket ∣ z := by
    rcases min_choice (cur + rollupBucket) till with h | h
    · exact .inr (by rw [hz, h]; exact Int.dvd_add hcur (dvd_refl _))
    · exact .inl h
  have hle : ∀ S ∈ plan.rawSpans, S.stop ≤ a := by
    intro S hS
    have := (hinv.bounds S hS).2.2.2.2
    omega
  obtain ⟨init, s, hadd, hinit, hbefore, hs, hold⟩ :=
    addSpan_spec (z := z) hle (fun S hS => (hinv.bounds S hS).2.2.1) hinv.apart
  -- the last span starts with the range, or where a span of the plan did
  obtain ⟨hslo, hssince, hsa, hedgeS, havoid⟩ : start ≤ s ∧ since ≤ s ∧ s ≤ a
      ∧ (s = since ∨ rollupBucket ∣ s) ∧ ∀ b ∈ plan.rollupBuckets, b + rollupBucket ≤ s := by
    rcases hs with rfl | ⟨T, hT, rfl, hstop⟩
    · refine ⟨by omega, by omega, le_refl _, hedgeA, fun b hb => ?_⟩
      have := (hinv.served b hb).2.2.1
      omega
    · obtain ⟨h1, h2, h3, -, -⟩ := hinv.bounds T hT
      refine ⟨h1, h2, by omega, (hinv.edges T hT).1, fun b hb => ?_⟩
      have := (hinv.served b hb).2.2.1
      have := hinv.avoids b hb T hT
      omega
  rw [hadd]
  exact {
    served := by
      intro b hb
      obtain ⟨h1, h2, h3, h4⟩ := hinv.served b hb
      exact ⟨h1, h2, by omega, h4⟩
    apart := pairwise_append.mpr ⟨hinit, pairwise_singleton _ _, by
      intro S hS T hT
      rw [mem_singleton.mp hT]
      exact (hbefore S hS).2⟩
    bounds := by
      intro S hS
      rcases mem_append.mp hS with hS | hS
      · obtain ⟨h1, h2, h3, h4, h5⟩ := hinv.bounds S (hbefore S hS).1
        exact ⟨h1, h2, h3, h4, by omega⟩
      · rw [mem_singleton.mp hS]
        exact ⟨hslo, hssince, hsa.trans_lt hclip, min_le_right _ _, min_le_left _ _⟩
    edges := by
      intro S hS
      rcases mem_append.mp hS with hS | hS
      · exact hinv.edges S (hbefore S hS).1
      · rw [mem_singleton.mp hS]
        exact ⟨hedgeS, hedgeZ⟩
    covered := by
      intro b hb hsb hlt hnot hb'
      rcases before_or_current hcur hb hlt with hlt | rfl
      · obtain ⟨S, hS, hfrom, hto⟩ := hinv.covered b hb hsb hlt hnot hb'
        rcases hold S hS with hS | ⟨rfl, hstop⟩
        · exact ⟨S, mem_append_left _ hS, hfrom, hto⟩
        · exact ⟨⟨S.start, z⟩, by simp, hfrom, by dsimp only; omega⟩
      · exact ⟨⟨s, z⟩, by simp, hsa, le_refl _⟩
    avoids := by
      intro b hb S hS
      rcases mem_append.mp hS with hS | hS
      · exact hinv.avoids b hb S (hbefore S hS).1
      · rw [mem_singleton.mp hS]
        exact .inr (havoid b hb) }

theorem planBucket_inv (hstart : start ≤ cur) :
    PlanInv since till closed ready start (cur + rollupBucket)
      (planBucket since till closed ready plan cur) := by
  unfold planBucket
  dsimp only
  split
  · next hserve =>
    rw [Bool.and_eq_true, decide_eq_true_eq] at hserve
    exact hinv.serve hcur hstart hserve.2 hserve.1
  · split
    · next hclip => exact hinv.read hcur hstart hclip
    · next hclip => exact hinv.skip hcur hclip

end

/-- **The loop over the first `n` buckets of the grid.** -/
theorem plan_foldl_inv (hstart : rollupBucket ∣ start) (n : ℕ) :
    PlanInv since till closed ready start (start + n * rollupBucket)
      (((List.range n).map fun i : ℕ => start + i * rollupBucket).foldl
        (planBucket since till closed ready) {}) := by
  induction n with
  | zero =>
    exact {
      served := by intro b hb; cases hb
      apart := List.Pairwise.nil
      bounds := by intro S hS; cases hS
      edges := by intro S hS; cases hS
      covered := by intro b _ h1 h2; exact absurd h1 (by simpa using h2)
      avoids := by intro b hb; cases hb }
  | succ n ih =>
    have hpos := rollupBucket_pos
    have hcur : rollupBucket ∣ start + n * rollupBucket :=
      Int.dvd_add hstart (Int.dvd_mul_left _ _)
    have hle : start ≤ start + n * rollupBucket :=
      le_add_of_nonneg_right (mul_nonneg (Int.natCast_nonneg n) hpos.le)
    rw [range_succ, map_append, foldl_append]
    have hstep := planBucket_inv ih hcur hle
    have hnext : start + n * rollupBucket + rollupBucket = start + (n + 1 : ℕ) * rollupBucket := by
      push_cast
      rw [Int.add_mul, Int.one_mul]
      omega
    rw [hnext] at hstep
    exact hstep

end Loop

/-! ## §2. The plan of a query. -/

/-- The bucket is confirmed by the checkpoint and has a row. -/
def bucketReady (db : Rollups) (since till cursor : Int) : Bool :=
  (confirmedBuckets db.checkpoint (bucketStart since) till).contains cursor
    && (selectRollup db (bucketStart since) till).any fun row => row.bucketStart == cursor

/-- What `bucketReady` stands for: the checkpoint is past the bucket and the
table has its row. -/
theorem bucketReady_spec {db : Rollups} {since till b : Int}
    (hready : bucketReady db since till b = true) :
    (∃ c, db.checkpoint = some c ∧ b + rollupBucket ≤ c)
      ∧ ∃ row ∈ db.rows, row.bucketStart = b := by
  obtain ⟨hconfirmed, hrow⟩ := Bool.and_eq_true_iff.mp hready
  constructor
  · have hmem := contains_iff_mem.mp hconfirmed
    unfold confirmedBuckets at hmem
    cases hc : db.checkpoint with
    | none =>
      rw [hc] at hmem
      cases hmem
    | some c =>
      rw [hc] at hmem
      exact ⟨c, rfl, of_decide_eq_true (mem_filter.mp hmem).2⟩
  · obtain ⟨row, hrow, hkey⟩ := any_eq_true.mp hrow
    have hrow := (orderBy_perm _ _).mem_iff.mp hrow
    exact ⟨row, (mem_filter.mp hrow).1, beq_iff_eq.mp hkey⟩

/-- **The plan of a window**, with every bucket of the window behind it. -/
theorem sourcePlan_inv (db : Rollups) (now since till : Int) :
    ∃ cur, PlanInv since till (bucketStart now) (bucketReady db since till) (bucketStart since) cur
        (sourcePlan db now since till)
      ∧ ∀ b, rollupBucket ∣ b → bucketStart since ≤ b → b < till → b < cur := by
  have hstart := dvd_bucketStart since
  refine ⟨_, plan_foldl_inv hstart _, fun b hb hle hlt => ?_⟩
  have hmem : b ∈ cursors (bucketStart since) till :=
    (mem_grid rollupBucket_pos hstart).mpr ⟨hb, hle, by omega⟩
  obtain ⟨j, hj, rfl⟩ := mem_map.mp hmem
  have hlt := mem_range.mp hj
  have := mul_lt_mul_of_pos_right (Int.ofNat_lt.mpr hlt) rollupBucket_pos
  omega

section Plan

variable {since till closed start cur : Int} {ready : Int → Bool} {plan : SourcePlan}

/-- Part of the bucket lies in the span. -/
def Span.Touches (S : Span) (b : Int) : Prop :=
  max b S.start < min (b + rollupBucket) S.stop

section

variable (hinv : PlanInv since till closed ready start cur plan)
include hinv

variable {S : Span} {b : Int}

/-- Two spans never share a bucket. -/
theorem PlanInv.disjoint {T : Span} (hS : S ∈ plan.rawSpans) (hT : T ∈ plan.rawSpans)
    (hlt : S.stop < T.start) (hb : rollupBucket ∣ b) (htouch : S.Touches b) : ¬ T.Touches b := by
  have hpos := rollupBucket_pos
  unfold Span.Touches at htouch ⊢
  have hTb := hinv.bounds T hT
  -- the earlier span ends before the window does, so on a bucket boundary
  rcases (hinv.edges S hS).2 with h | h
  · omega
  · have := aligned_le hpos (Int.dvd_add hb (dvd_refl _)) h (by omega)
    omega

/-- A bucket from the table is touched by no span. -/
theorem PlanInv.not_touches (hb : b ∈ plan.rollupBuckets) (hS : S ∈ plan.rawSpans) :
    ¬ S.Touches b := by
  unfold Span.Touches
  have := hinv.avoids b hb S hS
  omega

end

end Plan

end Talus.Metrics
