/-
  Talus.Base.Relation
  **RELATIONAL QUERIES OVER LISTS OF ROWS.**

  What a grouped, joined and ordered SQL query computes, as list functions
  that can be evaluated, with one way to reason about their results:

    • `sqlSum`/`sqlMax`: aggregates that skip NULL,
    • `lagFrom`/`adjacent`: the window function `lag`, and what it gives on a
      slice of the rows that is read with its predecessor,
    • `series`: `generate_series` over an integer grid,
    • `groupBy`/`fullOuterJoin`/`orderBy`/`upsert`,
    • `Tabulates key f l`: `l` lists the partial function `f` in strictly
      increasing key order, so a query is read key by key.
-/
import Mathlib.Algebra.Order.BigOperators.Group.List
import Mathlib.Data.List.Dedup
import Mathlib.Data.List.Sort
import Mathlib.Tactic.Linarith

namespace Talus.Base.Relation

open List Option

variable {α β γ κ ρ : Type}

/-! ## §1. Aggregates. -/

/-- `SUM`: NULLs are skipped, and the sum of no value is NULL. -/
def sqlSum (xs : List (Option ℚ)) : Option ℚ :=
  if (xs.filterMap id).isEmpty then none else some (xs.filterMap id).sum

/-- `MAX`: NULLs are skipped, and the maximum of no value is NULL. -/
def sqlMax [Max α] (xs : List (Option α)) : Option α :=
  (xs.filterMap id).max?

variable {l : List α}

theorem sqlSum_map_some (f : α → ℚ) (hl : l ≠ []) :
    sqlSum (l.map fun a => some (f a)) = some (l.map f).sum := by
  have hvalues : (l.map fun a => some (f a)).filterMap id = l.map f := by
    simp [filterMap_map]
  have hne : ¬ (l.map f).isEmpty := by simpa using hl
  simp only [sqlSum, hvalues, if_neg hne]

/-! ## §2. `lag`, and slices read with their predecessor. -/

/-- Each row with the row before it; `prev` stands before the first one. -/
def lagFrom : Option α → List α → List (Option α × α)
  | _, [] => []
  | prev, a :: l => (prev, a) :: lagFrom (some a) l

/-- The pairs of neighbouring rows. -/
def adjacent (l : List α) : List (α × α) :=
  (lagFrom none l).filterMap fun r => r.1.map fun p => (p, r.2)

theorem mem_of_mem_lagFrom {prev : Option α} {r : Option α × α}
    (h : r ∈ lagFrom prev l) : r.2 ∈ l := by
  induction l generalizing prev with
  | nil => simp [lagFrom] at h
  | cons a l ih =>
    rcases mem_cons.mp h with rfl | h
    · exact mem_cons_self
    · exact mem_cons_of_mem a (ih h)

section Slice

variable [LinearOrder κ] (pos : α → κ)

theorem filter_lt_eq_nil {x : α} {a : κ}
    (hl : ∀ y ∈ l, pos x ≤ pos y) (hx : a ≤ pos x) : l.filter (fun y => pos y < a) = [] := by
  refine filter_eq_nil_iff.mpr fun y hy => ?_
  simpa using hx.trans (hl y hy)

/-- **Neighbours are local.** On rows sorted by position, the rows of
`[a, z)` have the same predecessors in the whole list as in the slice that is
read together with the one row before it. -/
theorem lagFrom_slice (a z : κ) (hl : l.Pairwise fun x y => pos x ≤ pos y) :
    ∀ prev : Option α,
      (lagFrom prev l).filter (fun r => a ≤ pos r.2 ∧ pos r.2 < z)
        = lagFrom ((l.filter fun y => pos y < a).getLast?.or prev)
            (l.filter fun y => a ≤ pos y ∧ pos y < z) := by
  induction l with
  | nil => intro prev; rfl
  | cons x l ih =>
    intro prev
    obtain ⟨hx, hl⟩ := pairwise_cons.mp hl
    have step := ih hl (some x)
    by_cases hxa : pos x < a
    · -- before the slice: `x` is the predecessor unless a later row is
      have hout : ¬ (a ≤ pos x ∧ pos x < z) := fun h => absurd hxa h.1.not_gt
      simp only [lagFrom, filter_cons, hxa, decide_true, if_true, hout, decide_false,
        Bool.false_eq_true, if_false, getLast?_cons, step]
      cases (l.filter fun y => decide (pos y < a)).getLast? <;> rfl
    · have hax : a ≤ pos x := not_lt.mp hxa
      have hnone := filter_lt_eq_nil pos hx hax
      rw [hnone] at step
      by_cases hxz : pos x < z
      · simp only [lagFrom, filter_cons, hax, hxz, and_self, decide_true, if_true, hxa,
          decide_false, Bool.false_eq_true, if_false, hnone, step]
        rfl
      · -- past the slice: so are all later rows
        have hout : ∀ y ∈ x :: l, ¬ (a ≤ pos y ∧ pos y < z) := by
          intro y hy hin
          rcases mem_cons.mp hy with rfl | hy
          · exact hxz hin.2
          · exact hxz ((hx y hy).trans_lt hin.2)
        have hleft : (lagFrom prev (x :: l)).filter
            (fun r => decide (a ≤ pos r.2 ∧ pos r.2 < z)) = [] := by
          refine filter_eq_nil_iff.mpr fun r hr => ?_
          simpa using hout r.2 (mem_of_mem_lagFrom hr)
        have hright : (x :: l).filter (fun y => decide (a ≤ pos y ∧ pos y < z)) = [] := by
          refine filter_eq_nil_iff.mpr fun y hy => ?_
          simpa using hout y hy
        rw [hleft, hright]
        rfl

/-- The pairs a scan of `[a, z)` with one predecessor row sees are the pairs
of the whole history whose later row lies in `[a, z)`. -/
theorem adjacent_slice (a z : κ) (hl : l.Pairwise fun x y => pos x ≤ pos y) :
    adjacent ((l.filter fun y => pos y < a).getLast?.toList
        ++ l.filter fun y => a ≤ pos y ∧ pos y < z)
      = (adjacent l).filter fun p => a ≤ pos p.2 ∧ pos p.2 < z := by
  have hpairs : (adjacent l).filter (fun p => decide (a ≤ pos p.2 ∧ pos p.2 < z))
      = ((lagFrom none l).filter fun r => decide (a ≤ pos r.2 ∧ pos r.2 < z)).filterMap
          fun r => r.1.map fun p => (p, r.2) := by
    simp only [adjacent, filter_filterMap, filterMap_filter]
    congr 1
    funext r
    cases r.1 <;> simp [Option.filter]
  rw [hpairs, lagFrom_slice pos a z hl none, or_none]
  cases (l.filter fun y => decide (pos y < a)).getLast? <;> rfl

end Slice

/-! ## §3. Grids. -/

/-- `generate_series(start, stop, step)`. -/
def series (start stop step : Int) : List Int :=
  (List.range ((stop - start) / step + 1).toNat).map fun i : ℕ => start + i * step

theorem mem_series {start stop step x : Int} (hstep : 0 < step) :
    x ∈ series start stop step ↔ ∃ i : ℕ, x = start + i * step ∧ x ≤ stop := by
  have hindex : ∀ i : ℕ, i < ((stop - start) / step + 1).toNat ↔ start + i * step ≤ stop := by
    intro i
    rw [Int.lt_toNat, Int.lt_add_one_iff, Int.le_ediv_iff_mul_le hstep]
    omega
  simp only [series, List.mem_map, List.mem_range]
  constructor
  · rintro ⟨i, hi, rfl⟩
    exact ⟨i, rfl, (hindex i).mp hi⟩
  · rintro ⟨i, rfl, hi⟩
    exact ⟨i, (hindex i).mpr hi, rfl⟩

theorem series_sorted {step : Int} (start stop : Int) (hstep : 0 < step) :
    (series start stop step).Pairwise (· < ·) := by
  refine pairwise_map.mpr (pairwise_lt_range.imp fun {i j} hij => ?_)
  have : (i : Int) * step < j * step := mul_lt_mul_of_pos_right (by exact_mod_cast hij) hstep
  omega

/-! ## §4. Tables of a partial function. -/

/-- `l` lists the partial function `f` in strictly increasing key order. -/
structure Tabulates [LT κ] (key : ρ → κ) (f : κ → Option ρ) (l : List ρ) : Prop where
  sorted : l.Pairwise fun a b => key a < key b
  mem : ∀ r, r ∈ l ↔ f (key r) = some r
  keyed : ∀ k r, f k = some r → key r = k

variable {f g : κ → Option ρ} {m : List ρ}

section Tables

variable [LinearOrder κ] {key : ρ → κ}

theorem Tabulates.congr {l : List ρ} (hl : Tabulates key f l)
    (h : ∀ k, f k = g k) : Tabulates key g l := by
  have hfun : f = g := funext h
  exact hfun ▸ hl

theorem Tabulates.map {l : List ρ} (hl : Tabulates key f l)
    (key' : γ → κ) (proj : ρ → γ) (hkey : ∀ r, key' (proj r) = key r) :
    Tabulates key' (fun k => (f k).map proj) (l.map proj) where
  sorted := List.pairwise_map.mpr (hl.sorted.imp fun {a b} h => by rw [hkey, hkey]; exact h)
  mem := by
    intro c
    simp only [List.mem_map, Option.map_eq_some_iff]
    constructor
    · rintro ⟨r, hr, rfl⟩
      exact ⟨r, hkey r ▸ (hl.mem r).mp hr, rfl⟩
    · rintro ⟨r, hr, rfl⟩
      have hk := hl.keyed _ r hr
      exact ⟨r, (hl.mem r).mpr (hk ▸ hr), rfl⟩
  keyed := by
    intro k c hc
    obtain ⟨r, hr, rfl⟩ := Option.map_eq_some_iff.mp hc
    rw [hkey]
    exact hl.keyed k r hr

/-- `l` lists the partial function `f`, each key once, in some order. -/
structure Enumerates (key : ρ → κ) (f : κ → Option ρ) (l : List ρ) : Prop where
  nodup : (l.map key).Nodup
  mem : ∀ r, r ∈ l ↔ f (key r) = some r
  keyed : ∀ k r, f k = some r → key r = k

theorem Tabulates.enumerates {l : List ρ} (h : Tabulates key f l) :
    Enumerates key f l where
  nodup := pairwise_map.mpr (h.sorted.imp fun h => h.ne)
  __ := h

theorem Enumerates.tabulates {l : List ρ} (h : Enumerates key f l)
    (hperm : m.Perm l) (hsorted : m.Pairwise fun a b => key a < key b) : Tabulates key f m where
  sorted := hsorted
  mem := fun r => (hperm.mem_iff).trans (h.mem r)
  keyed := h.keyed

omit [LinearOrder κ] in
/-- Two enumerations without a common key, one after the other. -/
theorem Enumerates.append {l : List ρ} (hl : Enumerates key f l)
    (hm : Enumerates key g m) (hdisj : ∀ k, f k = none ∨ g k = none) :
    Enumerates key (fun k => (f k).or (g k)) (l ++ m) where
  nodup := by
    rw [map_append]
    refine nodup_append.mpr ⟨hl.nodup, hm.nodup, ?_⟩
    intro k hk k' hk' heq
    obtain ⟨r, hr, rfl⟩ := mem_map.mp hk
    obtain ⟨r', hr', rfl⟩ := mem_map.mp hk'
    have h1 := (hl.mem r).mp hr
    have h2 := (hm.mem r').mp hr'
    rcases hdisj (key r) with h | h
    · rw [h] at h1
      cases h1
    · rw [← heq, h] at h2
      cases h2
  mem := by
    intro r
    rw [mem_append, hl.mem, hm.mem]
    rcases hdisj (key r) with h | h
    · simp [h]
    · cases hf : f (key r) <;> simp [h]
  keyed := by
    intro k r h
    rcases hdisj k with hnone | hnone
    · rw [hnone, none_or] at h
      exact hm.keyed k r h
    · rw [hnone, or_none] at h
      exact hl.keyed k r h

omit [LinearOrder κ] in
/-- A list of enumerations, pairwise without a common key. -/
theorem Enumerates.flatMap {ι : Type} {F : ι → κ → Option ρ} {L : ι → List ρ} {is : List ι}
    (h : ∀ i ∈ is, Enumerates key (F i) (L i))
    (hdisj : is.Pairwise fun i j => ∀ k, F i k = none ∨ F j k = none) :
    Enumerates key (fun k => is.findSome? fun i => F i k) (is.flatMap L) := by
  induction is with
  | nil => exact ⟨nodup_nil, fun r => by simp, fun k r h => by simp at h⟩
  | cons i is ih =>
    obtain ⟨hi, his⟩ := pairwise_cons.mp hdisj
    have htail := ih (fun j hj => h j (mem_cons_of_mem i hj)) his
    have happ := (h i mem_cons_self).append htail fun k => by
      by_cases hnone : F i k = none
      · exact .inl hnone
      · exact .inr (findSome?_eq_none_iff.mpr fun j hj => (hi j hj k).resolve_left hnone)
    have hfun : (fun k => (i :: is).findSome? fun i => F i k)
        = fun k => (F i k).or (is.findSome? fun i => F i k) := by
      funext k
      cases hk : F i k <;> simp [hk]
    rw [hfun, flatMap_cons]
    exact happ

end Tables

/-! ## §5. Grouping, joining, ordering, upserting. -/

variable {r : List (κ × β)} {rows : List ρ}

section Queries

variable [LinearOrder κ]

/-- `SELECT key, agg … GROUP BY key`. -/
def groupBy (key : α → κ) (agg : List α → β) (rows : List α) : List (κ × β) :=
  (rows.map key).dedup.map fun k => (k, agg (rows.filter fun a => key a = k))

/-- `FULL OUTER JOIN` of two relations on their unique key. -/
def fullOuterJoin (l : List (κ × α)) (r : List (κ × β)) : List (κ × Option α × Option β) :=
  l.map (fun row => (row.1, some row.2, r.lookup row.1))
    ++ (r.filter fun row => (l.lookup row.1).isNone).map fun row => (row.1, none, some row.2)

/-- `ORDER BY key`. -/
def orderBy (key : ρ → κ) (rows : List ρ) : List ρ :=
  rows.insertionSort fun a b => key a ≤ key b

/-- `INSERT … ON CONFLICT (key) DO UPDATE … WHERE overwrite stored row`. -/
def upsert (key : ρ → κ) (overwrite : ρ → ρ → Bool) (row : ρ) : List ρ → List ρ
  | [] => [row]
  | stored :: rest =>
    if key stored = key row then
      (if overwrite stored row then row else stored) :: rest
    else stored :: upsert key overwrite row rest

theorem lookup_map_key (f : κ → β) (k : κ) (ks : List κ) :
    (ks.map fun x => (x, f x)).lookup k = if k ∈ ks then some (f k) else none := by
  induction ks with
  | nil => rfl
  | cons x ks ih =>
    by_cases hx : k = x
    · subst hx
      simp
    · have hbeq : (k == x) = false := by simpa using hx
      simp [lookup_cons, hbeq, ih, hx]

theorem lookup_groupBy (key : α → κ) (agg : List α → β) (rows : List α) (k : κ) :
    (groupBy key agg rows).lookup k
      = if (rows.filter fun a => key a = k) = [] then none
        else some (agg (rows.filter fun a => key a = k)) := by
  have hmem : k ∈ (rows.map key).dedup ↔ ¬ (rows.filter fun a => decide (key a = k)) = [] := by
    simp [filter_eq_nil_iff]
  rw [groupBy, lookup_map_key (fun k => agg (rows.filter fun a => decide (key a = k)))]
  simp only [hmem]
  split <;> simp_all

theorem groupBy_nodup (key : α → κ) (agg : List α → β) (rows : List α) :
    ((groupBy key agg rows).map Prod.fst).Nodup := by
  simpa [groupBy, List.map_map, Function.comp_def] using List.nodup_dedup (rows.map key)

theorem mem_iff_lookup {l : List (κ × α)} (hl : (l.map Prod.fst).Nodup) {k : κ} {a : α} :
    (k, a) ∈ l ↔ l.lookup k = some a := by
  induction l with
  | nil => simp
  | cons row l ih =>
    obtain ⟨x, b⟩ := row
    simp only [map_cons, nodup_cons] at hl
    by_cases hx : k = x
    · subst hx
      have hfresh : (k, a) ∉ l := fun h => hl.1 (mem_map_of_mem (f := Prod.fst) h)
      simp [hfresh, eq_comm]
    · have hbeq : (k == x) = false := by simpa using hx
      simp [lookup_cons, hbeq, hx, ih hl.2]

/-- What a full outer join has at a key: nothing, or the two sides. -/
def joined (a : Option α) (b : Option β) (k : κ) : Option (κ × Option α × Option β) :=
  if a.isNone ∧ b.isNone then none else some (k, a, b)

theorem mem_fullOuterJoin {l : List (κ × α)} (hl : (l.map Prod.fst).Nodup)
    (hr : (r.map Prod.fst).Nodup) (row : κ × Option α × Option β) :
    row ∈ fullOuterJoin l r ↔ joined (l.lookup row.1) (r.lookup row.1) row.1 = some row := by
  obtain ⟨k, a, b⟩ := row
  have hleft : (k, a, b) ∈ l.map (fun row => (row.1, some row.2, r.lookup row.1))
      ↔ (∃ x, l.lookup k = some x ∧ a = some x) ∧ b = r.lookup k := by
    simp only [List.mem_map, Prod.mk.injEq, Prod.exists]
    constructor
    · rintro ⟨k', x, hx, rfl, rfl, rfl⟩
      exact ⟨⟨x, (mem_iff_lookup hl).mp hx, rfl⟩, rfl⟩
    · rintro ⟨⟨x, hx, rfl⟩, rfl⟩
      exact ⟨k, x, (mem_iff_lookup hl).mpr hx, rfl, rfl, rfl⟩
  have hright : (k, a, b) ∈ (r.filter fun row => (l.lookup row.1).isNone).map
        (fun row => ((row.1, none, some row.2) : κ × Option α × Option β))
      ↔ l.lookup k = none ∧ a = none ∧ ∃ y, r.lookup k = some y ∧ b = some y := by
    simp only [List.mem_map, List.mem_filter, Prod.mk.injEq, Prod.exists, Option.isNone_iff_eq_none]
    constructor
    · rintro ⟨k', y, ⟨hy, hnone⟩, rfl, rfl, rfl⟩
      exact ⟨hnone, rfl, y, (mem_iff_lookup hr).mp hy, rfl⟩
    · rintro ⟨hnone, rfl, y, hy, rfl⟩
      exact ⟨k, y, ⟨(mem_iff_lookup hr).mpr hy, hnone⟩, rfl, rfl, rfl⟩
  rw [fullOuterJoin, mem_append, hleft, hright, joined]
  cases hlk : l.lookup k <;> cases hrk : r.lookup k <;> simp [eq_comm]

theorem fullOuterJoin_nodup {l : List (κ × α)}
    (hl : (l.map Prod.fst).Nodup) (hr : (r.map Prod.fst).Nodup) :
    ((fullOuterJoin l r).map Prod.fst).Nodup := by
  have hsub : ((r.filter fun row => (l.lookup row.1).isNone).map Prod.fst).Nodup :=
    hr.sublist (filter_sublist.map _)
  simp only [fullOuterJoin, List.map_append, List.map_map, Function.comp_def]
  refine List.nodup_append.mpr ⟨hl, hsub, ?_⟩
  intro k hk k' hk' heq
  subst heq
  obtain ⟨⟨_, a⟩, ha, rfl⟩ := mem_map.mp hk
  obtain ⟨⟨_, b⟩, hb, hkey⟩ := mem_map.mp hk'
  have hnone := (List.mem_filter.mp hb).2
  dsimp only at hkey hnone
  rw [hkey, (mem_iff_lookup hl).mp ha] at hnone
  simp at hnone

theorem orderBy_perm (key : ρ → κ) (rows : List ρ) : (orderBy key rows).Perm rows :=
  perm_insertionSort _ rows

/-- Rows with distinct keys come out of `ORDER BY` strictly increasing. -/
theorem orderBy_sorted (key : ρ → κ) (h : (rows.map key).Nodup) :
    (orderBy key rows).Pairwise fun a b => key a < key b := by
  have htotal : Std.Total (fun a b : ρ => key a ≤ key b) := ⟨fun a b => le_total _ _⟩
  have htrans : IsTrans ρ (fun a b => key a ≤ key b) := ⟨fun a b c => le_trans⟩
  have hle : (orderBy key rows).Pairwise fun a b => key a ≤ key b :=
    pairwise_insertionSort (fun a b => key a ≤ key b) rows
  have hne : (orderBy key rows).Pairwise fun a b => key a ≠ key b := by
    have := (((orderBy_perm key rows).map key).nodup_iff).mpr h
    exact pairwise_map.mp this
  exact (hle.and hne).imp fun h => lt_of_le_of_ne h.1 h.2

/-- **A grouped, joined and ordered query tabulates what its two sides hold at
each key.** -/
theorem orderBy_fullOuterJoin {l : List (κ × α)}
    (hl : (l.map Prod.fst).Nodup) (hr : (r.map Prod.fst).Nodup) :
    Tabulates Prod.fst (fun k => joined (l.lookup k) (r.lookup k) k)
      (orderBy Prod.fst (fullOuterJoin l r)) where
  sorted := orderBy_sorted Prod.fst (fullOuterJoin_nodup hl hr)
  mem := fun row => by
    rw [(orderBy_perm _ _).mem_iff]
    exact mem_fullOuterJoin hl hr row
  keyed := by
    intro k row h
    rw [joined] at h
    split at h
    · cases h
    · cases h
      rfl

theorem lookup_fullOuterJoin {l : List (κ × α)}
    (hl : (l.map Prod.fst).Nodup) (hr : (r.map Prod.fst).Nodup) (k : κ) :
    (fullOuterJoin l r).lookup k = (joined (l.lookup k) (r.lookup k) k).map Prod.snd := by
  refine Option.ext fun ab => ?_
  rw [← mem_iff_lookup (fullOuterJoin_nodup hl hr), mem_fullOuterJoin hl hr, map_eq_some_iff]
  constructor
  · intro h
    exact ⟨_, h, rfl⟩
  · rintro ⟨⟨k', ab'⟩, h, rfl⟩
    have hk : k' = k := by
      rw [joined] at h
      split at h <;> cases h
      rfl
    exact hk ▸ h

/-! ### Tables under upserts -/

section Upsert

variable {key : ρ → κ} {overwrite : ρ → ρ → Bool}

/-- The row an upsert leaves at its key. -/
def merged (overwrite : ρ → ρ → Bool) (stored : Option ρ) (row : ρ) : ρ :=
  stored.elim row fun s => if overwrite s row then row else s

theorem find_upsert (row : ρ) (rows : List ρ) (k : κ) :
    (upsert key overwrite row rows).find? (fun r => key r = k)
      = if k = key row then some (merged overwrite (rows.find? fun r => key r = k) row)
        else rows.find? fun r => key r = k := by
  induction rows with
  | nil =>
    by_cases hk : k = key row
    · simp [upsert, merged, hk]
    · simp [upsert, hk, Ne.symm hk]
  | cons s rows ih =>
    by_cases hs : key s = key row
    · by_cases hk : k = key row
      · -- the stored row has the key: it is replaced or kept in its place
        subst hk
        by_cases how : overwrite s row <;> simp [upsert, merged, hs, how]
      · have hsk : key s ≠ k := fun h => hk (h.symm.trans hs)
        have hrow : key row ≠ k := fun h => hk h.symm
        by_cases how : overwrite s row <;> simp [upsert, hs, how, hk, hrow]
    · by_cases hsk : key s = k
      · have hk : k ≠ key row := fun h => hs (hsk.trans h)
        simp [upsert, hsk, hk]
      · simp only [upsert, if_neg hs, find?_cons, hsk, decide_false, ih]

theorem map_key_upsert (row : ρ) (rows : List ρ) :
    (upsert key overwrite row rows).map key
      = if key row ∈ rows.map key then rows.map key else rows.map key ++ [key row] := by
  induction rows with
  | nil => rfl
  | cons s rows ih =>
    by_cases hs : key s = key row
    · by_cases how : overwrite s row <;> simp [upsert, hs, how]
    · have hs' : key row ≠ key s := fun h => hs h.symm
      simp only [upsert, if_neg hs, map_cons, ih, mem_cons, hs', false_or]
      split <;> rfl

theorem upsert_nodup (row : ρ) (h : (rows.map key).Nodup) :
    ((upsert key overwrite row rows).map key).Nodup := by
  rw [map_key_upsert]
  split
  · exact h
  · next hfresh =>
    refine nodup_append.mpr ⟨h, nodup_singleton _, ?_⟩
    intro k hk k' hk' heq
    rw [mem_singleton.mp hk'] at heq
    exact hfresh (heq ▸ hk)

theorem foldl_upsert_nodup (l : List ρ) (h : (rows.map key).Nodup) :
    ((l.foldl (fun rows row => upsert key overwrite row rows) rows).map key).Nodup := by
  induction l generalizing rows with
  | nil => exact h
  | cons row l ih => exact ih (upsert_nodup row h)

/-- A batch of upserts with distinct keys, at one key. -/
theorem find_foldl_upsert {l : List ρ} (hl : (l.map key).Nodup) (rows : List ρ) (k : κ) :
    (l.foldl (fun rows row => upsert key overwrite row rows) rows).find? (fun r => key r = k)
      = ((l.find? fun r => key r = k).map
          (merged overwrite (rows.find? fun r => key r = k))).or
        (rows.find? fun r => key r = k) := by
  induction l generalizing rows with
  | nil => rfl
  | cons row l ih =>
    obtain ⟨hrow, hl⟩ := nodup_cons.mp hl
    rw [foldl_cons, ih hl, find_upsert]
    by_cases hk : k = key row
    · have hnone : l.find? (fun r => decide (key r = k)) = none := by
        refine find?_eq_none.mpr fun r hr heq => hrow ?_
        rw [← hk, ← of_decide_eq_true heq]
        exact mem_map_of_mem hr
      subst hk
      simp [hnone]
    · have hk' : key row ≠ k := fun h => hk h.symm
      simp only [if_neg hk, find?_cons, hk', decide_false]

theorem find_key_iff_mem (h : (rows.map key).Nodup) {r : ρ} {k : κ} :
    rows.find? (fun r => key r = k) = some r ↔ r ∈ rows ∧ key r = k := by
  constructor
  · intro hfind
    have hkey := find?_some hfind
    exact ⟨mem_of_find?_eq_some hfind, of_decide_eq_true hkey⟩
  · rintro ⟨hr, rfl⟩
    cases hfind : rows.find? (fun s => key s = key r) with
    | none => exact absurd (decide_eq_true rfl) (find?_eq_none.mp hfind r hr)
    | some s =>
      have hkey := find?_some hfind
      rw [inj_on_of_nodup_map h (mem_of_find?_eq_some hfind) hr (of_decide_eq_true hkey)]

end Upsert

end Queries

end Talus.Base.Relation
