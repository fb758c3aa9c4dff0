/-
  Talus.Base.Json
  **THE TEXT OF A JSON DOCUMENT, AND WHAT A ROUND TRIP DOES TO A STRING.**

  A string of the source language is a sequence of BYTES, and nothing makes it
  UTF-8.  The encoder writes each byte that starts no well-formed sequence as
  the escape of U+FFFD, so such a byte takes six bytes in the document and the
  decoder hands back three: text that has been through JSON may be longer than
  it was.  The library has

    • `runeWidth`/`scrub`: the UTF-8 scanner and the round trip of a string,
    • `quote`/`object`/`array`: the encoder, with the length of what it writes,
    • `StringMap`: a map from strings to strings, written in key order,
    • `Float64`: a double by its bits, with the tests programs make on one.
-/
import Mathlib.Data.List.Sort
import Mathlib.Algebra.BigOperators.Group.List.Basic
import Mathlib.Algebra.GroupWithZero.Nat
import Mathlib.Algebra.Ring.Int.Defs

namespace Talus.Base

/-! ## §1. Strings and UTF-8. -/

/-- A byte string. -/
abbrev Bytes := List UInt8

-- one name for the instance, so that every membership test on strings is the same term
instance Bytes.lawfulBEq : LawfulBEq Bytes := inferInstance

/-- The bytes of an ASCII literal. -/
def ascii (s : String) : Bytes := s.toList.map fun c => c.toNat.toUInt8

/-- A continuation byte. -/
def isTail (b : UInt8) : Bool := 0x80 ≤ b && b ≤ 0xBF

/-- The width of the well-formed sequence a string starts with, `0` when its
first byte starts none. -/
def runeWidth : Bytes → Nat
  | [] => 0
  | b :: rest =>
    if b < 0x80 then 1
    else
      -- the second byte of some leads has a narrower range: no overlong
      -- form, no surrogate, nothing past U+10FFFF
      let second (lo hi : UInt8) : Bool := rest.head?.any fun c => lo ≤ c && c ≤ hi
      let tail (k : Nat) : Bool := (rest[k]?).any isTail
      if 0xC2 ≤ b && b ≤ 0xDF then if second 0x80 0xBF then 2 else 0
      else if b = 0xE0 then if second 0xA0 0xBF && tail 1 then 3 else 0
      else if b = 0xED then if second 0x80 0x9F && tail 1 then 3 else 0
      else if 0xE1 ≤ b && b ≤ 0xEF then if second 0x80 0xBF && tail 1 then 3 else 0
      else if b = 0xF0 then if second 0x90 0xBF && tail 1 && tail 2 then 4 else 0
      else if b = 0xF4 then if second 0x80 0x8F && tail 1 && tail 2 then 4 else 0
      else if 0xF1 ≤ b && b ≤ 0xF3 then if second 0x80 0xBF && tail 1 && tail 2 then 4 else 0
      else 0

/-- U+FFFD in UTF-8. -/
def replacement : Bytes := [0xEF, 0xBF, 0xBD]

/-- `scrub` with `k` bytes of the current sequence still to copy. -/
def scrubFrom : Nat → Bytes → Bytes
  | _, [] => []
  | k + 1, b :: bs => b :: scrubFrom k bs
  | 0, b :: bs =>
    match runeWidth (b :: bs) with
    | 0 => replacement ++ scrubFrom 0 bs
    | w + 1 => b :: scrubFrom w bs

/-- What encoding a string and decoding it again leaves: each byte outside a
well-formed sequence has become U+FFFD. -/
def scrub (s : Bytes) : Bytes := scrubFrom 0 s

theorem scrub_ascii (s : Bytes) (h : ∀ b ∈ s, b < 0x80) : scrub s = s := by
  induction s with
  | nil => rfl
  | cons b bs ih =>
    have hb : b < 0x80 := h b List.mem_cons_self
    have hw : runeWidth (b :: bs) = 1 := if_pos hb
    have hrest := ih fun c hc => h c (List.mem_cons_of_mem b hc)
    unfold scrub at hrest ⊢
    unfold scrubFrom
    rw [hw]
    exact congrArg (b :: ·) hrest

theorem scrub_ne_nil {s : Bytes} (h : s ≠ []) : scrub s ≠ [] := by
  cases s with
  | nil => exact absurd rfl h
  | cons b bs =>
    unfold scrub scrubFrom
    split
    · exact List.cons_ne_nil _ _
    · exact List.cons_ne_nil _ _

/-! ## §2. The encoder. -/

/-- One hexadecimal digit. -/
def hexDigit (n : UInt8) : UInt8 := if n < 10 then 48 + n else 87 + n

/-- An ASCII character inside a JSON string.  The encoder also escapes the
three characters that are special in HTML. -/
def escapeByte (b : UInt8) : Bytes :=
  if b = 34 || b = 92 then [92, b]
  else if b = 8 then ascii "\\b"
  else if b = 12 then ascii "\\f"
  else if b = 10 then ascii "\\n"
  else if b = 13 then ascii "\\r"
  else if b = 9 then ascii "\\t"
  else if b < 32 || b = 60 || b = 62 || b = 38 then
    ascii "\\u00" ++ [hexDigit (b / 16), hexDigit (b % 16)]
  else [b]

/-- `escape` inside a sequence: `k` more bytes, copied or already written as
an escape. -/
def escapeFrom : Bool → Nat → Bytes → Bytes
  | _, _, [] => []
  | copy, k + 1, b :: bs => (if copy then [b] else []) ++ escapeFrom copy k bs
  | _, 0, b :: bs =>
    match runeWidth (b :: bs) with
    | 0 => ascii "\\ufffd" ++ escapeFrom true 0 bs
    | 1 => escapeByte b ++ escapeFrom true 0 bs
    | w + 1 =>
      -- U+2028 and U+2029 are written as escapes
      if (b :: bs).take 3 = [0xE2, 0x80, 0xA8] then ascii "\\u2028" ++ escapeFrom false w bs
      else if (b :: bs).take 3 = [0xE2, 0x80, 0xA9] then
        ascii "\\u2029" ++ escapeFrom false w bs
      else b :: escapeFrom true w bs

/-- A JSON string. -/
def quote (s : Bytes) : Bytes := 34 :: escapeFrom true 0 s ++ [34]

/-- A JSON integer. -/
def decimal : Int → Bytes
  | .ofNat n => (Nat.toDigits 10 n).map fun c => c.toNat.toUInt8
  | .negSucc n => 45 :: (Nat.toDigits 10 (n + 1)).map fun c => c.toNat.toUInt8

/-- The items of an object or an array, with commas between them. -/
def commaSep : List Bytes → Bytes
  | [] => []
  | [x] => x
  | x :: y :: xs => x ++ 44 :: commaSep (y :: xs)

/-- A member of an object. -/
def member (name : String) (value : Bytes) : Bytes := quote (ascii name) ++ 58 :: value

/-- A JSON object out of its members. -/
def object (members : List Bytes) : Bytes := 123 :: commaSep members ++ [125]

/-- A JSON array out of its items. -/
def array (items : List Bytes) : Bytes := 91 :: commaSep items ++ [93]

/-- The bytes `items` take in an object or an array: their own and one comma
between each two. -/
theorem length_commaSep (items : List Bytes) :
    (commaSep items).length = (items.map List.length).sum + (items.length - 1) := by
  induction items with
  | nil => rfl
  | cons x xs ih =>
    cases xs with
    | nil => simp [commaSep]
    | cons y ys =>
      rw [commaSep, List.length_append, List.length_cons, ih]
      simp only [List.map_cons, List.sum_cons, List.length_cons]
      omega

theorem length_object (members : List Bytes) :
    (object members).length = (members.map List.length).sum + (members.length - 1) + 2 := by
  simp [object, length_commaSep]

theorem length_array (items : List Bytes) :
    (array items).length = (items.map List.length).sum + (items.length - 1) + 2 := by
  simp [array, length_commaSep]

/-! ## §3. Maps from strings to strings. -/

/-- A map with string keys: the pairs in no particular order, each key once. -/
structure StringMap where
  pairs : List (Bytes × Bytes)
  keysNodup : (pairs.map Prod.fst).Nodup
  deriving DecidableEq

namespace StringMap

def empty : StringMap := ⟨[], List.nodup_nil⟩

/-- Assign to a key. -/
def insert (m : StringMap) (k v : Bytes) : StringMap where
  pairs := (k, v) :: m.pairs.filter fun p => p.1 ≠ k
  keysNodup := by
    rw [List.map_cons, List.nodup_cons]
    constructor
    · intro hk
      obtain ⟨p, hp, hpk⟩ := List.mem_map.mp hk
      have := (List.mem_filter.mp hp).2
      simp [hpk] at this
    · exact m.keysNodup.sublist (List.filter_sublist.map Prod.fst)

/-- The pairs in the order the encoder writes them. -/
def sorted (m : StringMap) : List (Bytes × Bytes) :=
  m.pairs.insertionSort fun a b => a.1 ≤ b.1

/-- The map as a JSON object. -/
def json (m : StringMap) : Bytes :=
  object (m.sorted.map fun p => quote p.1 ++ 58 :: quote p.2)

/-- What a JSON round trip leaves of a map: two keys may have become one, and
then the later of the two in the document wins. -/
def scrub (m : StringMap) : StringMap :=
  m.sorted.foldl (fun acc p => acc.insert (Base.scrub p.1) (Base.scrub p.2)) empty

end StringMap

/-! ## §4. Doubles. -/

/-- A double-precision number by its IEEE 754 bits. -/
abbrev Float64 := BitVec 64

namespace Float64

/-- The bits below the sign. -/
def magnitude (v : Float64) : Nat := v.toNat % 2 ^ 63

/-- The sign bit. -/
def signBit (v : Float64) : Bool := 2 ^ 63 ≤ v.toNat

/-- The bits of infinity without a sign. -/
def infinity : Nat := 0x7FF0000000000000

def isNaN (v : Float64) : Bool := infinity < magnitude v

def isInf (v : Float64) : Bool := magnitude v = infinity

/-- Below zero: negative, not NaN and not the negative zero. -/
def negative (v : Float64) : Bool := signBit v && !isNaN v && magnitude v ≠ 0

/-- Above a positive bound, given by its bits: the bits of positive numbers
are ordered as the numbers are. -/
def above (bound : Nat) (v : Float64) : Bool := !signBit v && !isNaN v && bound < magnitude v

end Float64

end Talus.Base
