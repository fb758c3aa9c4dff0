/-
  Talus.Base.Path
  **SLASH-SEPARATED PATHS.**

  A path is a byte string; `parts` cuts it at every slash and `joinParts`
  puts the pieces together again.  `clean` gives the shortest path with the
  same meaning by purely lexical work:

      //  becomes  /          ./x  becomes  x
      a/..  vanishes          /..  becomes  /

    • `parts_joinParts` — the pieces survive the round trip,
    • `clean_rooted` — what cleaning a rooted path without `..` gives,
    • `clean_clean`, `length_clean_le`, `mem_clean` — it stays as it is, is no
      longer than it was and has no byte it did not have.
-/
import Talus.Base.Json

namespace Talus.Base.Path

open Talus.Base List

/-! ## §1. Pieces. -/

/-- The byte `/`. -/
def slash : UInt8 := 47

/-- The byte `.`. -/
def dot : UInt8 := 46

/-- The pieces between the slashes. -/
def parts : Bytes → List Bytes
  | [] => [[]]
  | b :: rest =>
    if b = slash then [] :: parts rest
    else
      match parts rest with
      | p :: ps => (b :: p) :: ps
      | [] => [[b]]

/-- The pieces with a slash between each two. -/
def joinParts : List Bytes → Bytes
  | [] => []
  | [p] => p
  | p :: q :: ps => p ++ slash :: joinParts (q :: ps)

theorem parts_ne_nil (s : Bytes) : parts s ≠ [] := by
  cases s with
  | nil => simp [parts]
  | cons b rest =>
    unfold parts
    split
    · simp
    · split <;> simp

/-- A piece has no slash in it. -/
theorem slash_not_mem_parts : ∀ (s : Bytes) {p : Bytes}, p ∈ parts s → slash ∉ p
  | [], p, hp => by
      simp only [parts, List.mem_singleton] at hp
      simp [hp]
  | b :: rest, p, hp => by
      unfold parts at hp
      split at hp
      · rcases List.mem_cons.mp hp with rfl | hp
        · simp
        · exact slash_not_mem_parts rest hp
      · next hb =>
        split at hp
        · next q qs hq =>
          rcases List.mem_cons.mp hp with rfl | hp
          · have := slash_not_mem_parts rest (p := q) (by rw [hq]; simp)
            simp only [mem_cons, not_or]
            exact ⟨fun h => hb h.symm, this⟩
          · exact slash_not_mem_parts rest (by rw [hq]; exact mem_cons_of_mem _ hp)
        · simp only [mem_singleton] at hp
          subst hp
          simpa using fun h => hb h.symm

variable {p : Bytes}

/-- A piece without slashes in front is the first piece. -/
theorem parts_append (hp : slash ∉ p) (s : Bytes) : parts (p ++ slash :: s) = p :: parts s := by
  induction p with
  | nil => simp [parts]
  | cons b rest ih =>
    have hb : ¬ b = slash := fun h => hp (by simp [h])
    have hrest : slash ∉ rest := fun h => hp (mem_cons_of_mem _ h)
    rw [cons_append, parts, if_neg hb, ih hrest]

/-- A slash cuts, whatever stands before it. -/
theorem parts_append_slash (x y : Bytes) : parts (x ++ slash :: y) = parts x ++ parts y := by
  induction x with
  | nil => simp [parts]
  | cons b x ih =>
    rw [cons_append, parts, parts, ih]
    split
    · rw [cons_append]
    · cases hx : parts x with
      | nil => exact absurd hx (parts_ne_nil x)
      | cons p ps => rfl

theorem parts_single (hp : slash ∉ p) : parts p = [p] := by
  induction p with
  | nil => simp [parts]
  | cons b rest ih =>
    have hb : ¬ b = slash := fun h => hp (by simp [h])
    have hrest : slash ∉ rest := fun h => hp (mem_cons_of_mem _ h)
    rw [parts, if_neg hb, ih hrest]

/-- **The pieces survive the round trip.** -/
theorem parts_joinParts : ∀ {ps : List Bytes}, ps ≠ [] → (∀ p ∈ ps, slash ∉ p) →
    parts (joinParts ps) = ps
  | [], h, _ => absurd rfl h
  | [p], _, hs => by
      rw [joinParts]
      exact parts_single (hs p (by simp))
  | p :: q :: ps, _, hs => by
      rw [joinParts, parts_append (hs p (by simp)),
        parts_joinParts (by simp) fun r hr => hs r (List.mem_cons_of_mem _ hr)]

/-! ## §2. Cleaning. -/

/-- The pieces of a clean path, last one first. -/
def cleanStep (rooted : Bool) (acc : List Bytes) (p : Bytes) : List Bytes :=
  if p = [] ∨ p = [dot] then acc
  else if p = [dot, dot] then
    match acc with
    | [] => if rooted then [] else [p]
    | q :: rest => if q = [dot, dot] then p :: acc else rest
  else p :: acc

/-- The pieces of a clean path. -/
def cleanParts (rooted : Bool) (ps : List Bytes) : List Bytes :=
  (ps.foldl (cleanStep rooted) []).reverse

def isRooted (s : Bytes) : Bool := s.head? == some slash

/-- The shortest path with the same meaning. -/
def clean (s : Bytes) : Bytes :=
  let rooted := isRooted s
  let kept := cleanParts rooted (parts s)
  if rooted then slash :: joinParts kept
  else if kept = [] then [dot]
  else joinParts kept

/-! ## §3. Rooted paths without `..`. -/

/-- The pieces a clean path keeps. -/
def kept (ps : List Bytes) : List Bytes :=
  ps.filter fun p => !(p == [] || p == [dot])

theorem foldl_cleanStep (ps acc : List Bytes) (h : [dot, dot] ∉ ps) :
    ps.foldl (cleanStep true) acc = (kept ps).reverse ++ acc := by
  induction ps generalizing acc with
  | nil => rfl
  | cons p rest ih =>
    have hp : ¬ p = [dot, dot] := fun heq => h (by simp [heq])
    have hrest : [dot, dot] ∉ rest := fun hm => h (mem_cons_of_mem _ hm)
    rw [foldl_cons, ih _ hrest]
    unfold cleanStep
    by_cases hdrop : p = [] ∨ p = [dot]
    · rw [if_pos hdrop]
      have hk : kept (p :: rest) = kept rest := by
        unfold kept
        rw [filter_cons_of_neg]
        rcases hdrop with rfl | rfl <;> simp
      rw [hk]
    · rw [if_neg hdrop, if_neg hp]
      have hk : kept (p :: rest) = p :: kept rest := by
        unfold kept
        rw [filter_cons_of_pos]
        simpa using hdrop
      rw [hk]
      simp

variable {s : Bytes}

/-- **Cleaning a rooted path without `..`** drops the empty pieces and the
dots. -/
theorem clean_rooted (hroot : isRooted s = true) (h : [dot, dot] ∉ parts s) :
    clean s = slash :: joinParts (kept (parts s)) := by
  unfold clean cleanParts
  rw [hroot]
  simp [foldl_cleanStep _ _ h]

theorem mem_kept {ps : List Bytes} (h : p ∈ kept ps) : p ∈ ps ∧ p ≠ [] ∧ p ≠ [dot] := by
  simpa [kept] using h

theorem kept_kept (ps : List Bytes) : kept (kept ps) = kept ps := by
  unfold kept
  rw [filter_filter]
  simp

/-- The pieces of a rooted path. -/
theorem parts_rooted (ps : List Bytes) (hs : ∀ p ∈ ps, slash ∉ p) :
    parts (slash :: joinParts ps) = [] :: (if ps = [] then [[]] else ps) := by
  rw [parts, if_pos rfl]
  by_cases hnil : ps = []
  · rw [if_pos hnil, hnil]
    rfl
  · rw [if_neg hnil, parts_joinParts hnil hs]

section
variable {s : Bytes}

section

variable (hroot : isRooted s = true) (h : [dot, dot] ∉ parts s)
include hroot h

theorem isRooted_clean : isRooted (clean s) = true := by
  rw [clean_rooted hroot h]
  rfl

/-- The pieces of a clean path: those kept, behind the root. -/
theorem parts_clean :
    parts (clean s)
      = [] :: (if kept (parts s) = [] then [[]] else kept (parts s)) := by
  rw [clean_rooted hroot h]
  exact parts_rooted _ fun p hp => slash_not_mem_parts s (mem_kept hp).1

theorem dots_not_mem_clean : [dot, dot] ∉ parts (clean s) := by
  rw [parts_clean hroot h]
  intro hm
  rcases mem_cons.mp hm with hm | hm
  · cases hm
  · split at hm
    · simp at hm
    · exact h (mem_kept hm).1

/-- **A clean path stays as it is.** -/
theorem clean_clean : clean (clean s) = clean s := by
  rw [clean_rooted (isRooted_clean hroot h) (dots_not_mem_clean hroot h), parts_clean hroot h,
    clean_rooted hroot h]
  by_cases hnil : kept (parts s) = []
  · rw [if_pos hnil, hnil]
    rfl
  · rw [if_neg hnil]
    show slash :: joinParts (kept ([] :: kept (parts s))) = _
    have hk : kept ([] :: kept (parts s)) = kept (parts s) := by
      rw [show kept ([] :: kept (parts s)) = kept (kept (parts s)) from rfl, kept_kept]
    rw [hk]

end

end

/-! ## §4. Lengths and bytes. -/

/-- The length of a list of pieces, each with a slash behind it. -/
def span (ps : List Bytes) : Nat := (ps.map fun p => p.length + 1).sum

theorem span_kept_le (ps : List Bytes) : span (kept ps) ≤ span ps := by
  unfold kept
  induction ps with
  | nil => simp [span]
  | cons p rest ih =>
    unfold span at ih ⊢
    rw [filter_cons]
    split
    · rw [map_cons, map_cons, sum_cons, sum_cons]
      omega
    · rw [map_cons, sum_cons]
      omega

theorem length_joinParts : ∀ {ps : List Bytes}, ps ≠ [] → (joinParts ps).length + 1 = span ps
  | [], h => absurd rfl h
  | [p], _ => by simp [joinParts, span]
  | p :: q :: ps, _ => by
      have ih : (joinParts (q :: ps)).length + 1 = span (q :: ps) := length_joinParts (by simp)
      have hspan : span (p :: q :: ps) = p.length + 1 + span (q :: ps) := by
        simp [span]
      rw [joinParts, length_append, length_cons, hspan]
      omega

theorem span_parts (s : Bytes) : span (parts s) = s.length + 1 := by
  induction s with
  | nil => simp [parts, span]
  | cons b rest ih =>
    unfold parts
    split
    · show span ([] :: parts rest) = _
      simp only [span, map_cons, sum_cons, length_nil, length_cons] at ih ⊢
      omega
    · split
      · next p ps hp =>
        rw [hp] at ih
        simp only [span, map_cons, sum_cons, length_cons] at ih ⊢
        omega
      · next hp => exact absurd hp (parts_ne_nil rest)

/-- A clean path is no longer than the path. -/
theorem length_clean_le (hroot : isRooted s = true) (h : [dot, dot] ∉ parts s) :
    (clean s).length ≤ s.length := by
  cases s with
  | nil => cases hroot
  | cons b rest =>
    have hb : b = slash := by simpa [isRooted] using hroot
    have hparts : parts (b :: rest) = [] :: parts rest := by
      rw [parts, if_pos hb]
    have hkept : kept (parts (b :: rest)) = kept (parts rest) := by
      rw [hparts]
      rfl
    rw [clean_rooted hroot h, hkept, length_cons, length_cons]
    by_cases hnil : kept (parts rest) = []
    · rw [hnil]
      simp [joinParts]
    · have h1 := length_joinParts hnil
      have h2 := span_kept_le (parts rest)
      have h3 := span_parts rest
      omega

theorem mem_of_mem_parts : ∀ {s : Bytes} {p : Bytes} {b : UInt8}, p ∈ parts s → b ∈ p → b ∈ s
  | [], p, b, hp, hb => by
      simp only [parts, List.mem_singleton] at hp
      simp [hp] at hb
  | c :: rest, p, b, hp, hb => by
      unfold parts at hp
      split at hp
      · rcases List.mem_cons.mp hp with rfl | hp
        · cases hb
        · exact List.mem_cons_of_mem _ (mem_of_mem_parts hp hb)
      · split at hp
        · next q qs hq =>
          have hrest : ∀ r ∈ parts rest, b ∈ r → b ∈ c :: rest :=
            fun r hr hbr => mem_cons_of_mem _ (mem_of_mem_parts hr hbr)
          rcases mem_cons.mp hp with rfl | hp
          · rcases mem_cons.mp hb with rfl | hb
            · exact mem_cons_self
            · exact hrest q (by rw [hq]; simp) hb
          · exact hrest p (by rw [hq]; exact mem_cons_of_mem _ hp) hb
        · next hnil => exact absurd hnil (parts_ne_nil rest)

theorem mem_joinParts : ∀ {ps : List Bytes} {b : UInt8}, b ∈ joinParts ps →
    b = slash ∨ ∃ p ∈ ps, b ∈ p
  | [], b, h => by cases h
  | [p], b, h => .inr ⟨p, by simp, h⟩
  | p :: q :: ps, b, h => by
      rw [joinParts] at h
      rcases List.mem_append.mp h with h | h
      · exact .inr ⟨p, by simp, h⟩
      · rcases List.mem_cons.mp h with h | h
        · exact .inl h
        · rcases mem_joinParts h with h | ⟨r, hr, hb⟩
          · exact .inl h
          · exact .inr ⟨r, List.mem_cons_of_mem _ hr, hb⟩

/-- Every byte of a clean path is one of the path's own. -/
theorem mem_clean (hroot : isRooted s = true) (h : [dot, dot] ∉ parts s) {b : UInt8}
    (hb : b ∈ clean s) : b ∈ s := by
  have hslash : slash ∈ s := by
    cases s with
    | nil => cases hroot
    | cons c rest =>
      have : c = slash := by simpa [isRooted] using hroot
      simp [this]
  rw [clean_rooted hroot h] at hb
  rcases mem_cons.mp hb with rfl | hb
  · exact hslash
  · rcases mem_joinParts hb with rfl | ⟨p, hp, hbp⟩
    · exact hslash
    · exact mem_of_mem_parts (mem_kept hp).1 hbp

end Talus.Base.Path
