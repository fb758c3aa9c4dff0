/-
  Talus.Base.Count
  **COUNTING OVER A HEAP KEPT AS A LIST.**

  A list whose cells are overwritten in place (`List.set`) is a heap; the
  number of cells with a property then changes exactly by what the one cell
  written changes.  `countP_set_toNat` states this without subtraction, so
  that conservation laws close by `omega`; `countP_le_one_unique` turns "at
  most one" into "the same cell".
-/
import Mathlib.Data.List.Basic

namespace Talus.Base

open List Option

variable {α : Type}

theorem countP_set_toNat (q : α → Bool) :
    ∀ {l : List α} {i : Nat} {a : α} (b : α), l[i]? = some a →
      (l.set i b).countP q + (q a).toNat = l.countP q + (q b).toNat
  | [], i, a, b, h => by simp at h
  | x :: xs, 0, a, b, h => by
      have hx : x = a := by simpa using h
      subst hx
      cases hqx : q x <;> cases hqb : q b <;> simp [hqx, hqb]
  | x :: xs, i + 1, a, b, h => by
      have ih := countP_set_toNat q (l := xs) (i := i) b (by simpa using h)
      cases hqx : q x <;> simp [hqx] <;> omega

variable {q : α → Bool}

/-- A property that splits into two exclusive ones is counted as their sum. -/
theorem countP_add {r s : α → Bool} (h : ∀ a, (q a).toNat = (r a).toNat + (s a).toNat) :
    ∀ l : List α, l.countP q = l.countP r + l.countP s
  | [] => rfl
  | x :: xs => by
      have ih := countP_add h xs
      have hx := h x
      cases hq : q x <;> cases hr : r x <;> cases hs : s x <;>
        simp [hq, hr, hs] at hx ⊢ <;> omega

theorem countP_append_single (q : α → Bool) (l : List α) (b : α) :
    (l ++ [b]).countP q = l.countP q + (q b).toNat := by
  cases hq : q b <;> simp [hq]

variable {l : List α} {i : Nat}

/-- Reading a cell back: it is the one written, or an untouched one. -/
theorem getElem?_set_cases {j : Nat} {b x : α}
    (h : (l.set i b)[j]? = some x) : (i = j ∧ x = b) ∨ (i ≠ j ∧ l[j]? = some x) := by
  rw [getElem?_set] at h
  split at h
  · next hij =>
    split at h
    · exact .inl ⟨hij, (some.inj h).symm⟩
    · cases h
  · next hij => exact .inr ⟨hij, h⟩

variable {a : α}

theorem getElem?_set_same {b : α} (h : l[i]? = some a) : (l.set i b)[i]? = some b :=
  List.getElem?_set_self (List.getElem?_eq_some_iff.1 h).1

theorem getElem?_append_old {m : List α} (h : l[i]? = some a) : (l ++ m)[i]? = some a := by
  rw [List.getElem?_append_left (List.getElem?_eq_some_iff.1 h).1, h]

/-- Reading a list that grew by one: it is an old cell, or the new one. -/
theorem getElem?_concat_cases {x : α}
    (h : (l ++ [a])[i]? = some x) : l[i]? = some x ∨ (i = l.length ∧ x = a) := by
  rw [getElem?_append] at h
  split at h
  · exact .inl h
  · rw [getElem?_singleton] at h
    split at h
    · cases h
      exact .inr ⟨by omega, rfl⟩
    · cases h

/-- A cell with the property is counted. -/
theorem toNat_le_countP (q : α → Bool) (h : l[i]? = some a) : (q a).toNat ≤ l.countP q := by
  have hmem : a ∈ l := mem_of_getElem? h
  cases hq : q a with
  | false => simp
  | true => simpa using countP_pos_iff.mpr ⟨a, hmem, hq⟩

theorem countP_pos_of_getElem? (h : l[i]? = some a) (hq : q a = true) : 0 < l.countP q :=
  countP_pos_iff.mpr ⟨a, mem_of_getElem? h, hq⟩

theorem exists_getElem?_of_countP_pos
    (h : 0 < l.countP q) : ∃ (i : Nat) (a : α), l[i]? = some a ∧ q a = true := by
  obtain ⟨a, hmem, hq⟩ := countP_pos_iff.mp h
  obtain ⟨i, hi⟩ := getElem?_of_mem hmem
  exact ⟨i, a, hi, hq⟩

/-- At most one cell has the property: two cells that do are the same. -/
theorem countP_le_one_unique :
    ∀ {l : List α} {i j : Nat} {a b : α}, l.countP q ≤ 1 →
      l[i]? = some a → l[j]? = some b → q a = true → q b = true → i = j
  | [], i, j, a, b, _, hi, _, _, _ => by simp at hi
  | x :: xs, 0, 0, a, b, _, _, _, _, _ => rfl
  | x :: xs, 0, j + 1, a, b, h, hi, hj, ha, hb => by
      have hx : x = a := by simpa using hi
      have hpos := countP_pos_of_getElem? (l := xs) (by simpa using hj) hb
      rw [hx, countP_cons, if_pos ha] at h
      omega
  | x :: xs, i + 1, 0, a, b, h, hi, hj, ha, hb => by
      have hx : x = b := by simpa using hj
      have hpos := countP_pos_of_getElem? (l := xs) (by simpa using hi) ha
      rw [hx, countP_cons, if_pos hb] at h
      omega
  | x :: xs, i + 1, j + 1, a, b, h, hi, hj, ha, hb => by
      have hle : xs.countP q ≤ 1 := by
        rw [countP_cons] at h
        omega
      have := countP_le_one_unique hle (by simpa using hi) (by simpa using hj) ha hb
      omega

end Talus.Base
