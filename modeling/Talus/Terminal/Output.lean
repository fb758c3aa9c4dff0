/-
  Talus.Terminal.Output
  **TERMINAL TEXT DOES NOT DEPEND ON HOW IT IS CUT** (`terminalOutputWriter`).

  A JSON frame is text, so the writer cuts the shell's bytes behind the last
  complete rune and keeps the rest for the next read.  A byte that starts no
  rune is complete by itself: the encoder writes it as U+FFFD, whatever follows.

    • `runeWidth_append`: a full rune is the same whatever follows,
    • `cutAt_spec`: cutting at runes commutes with decoding,
    • `output_independent_of_chunking`: a session, for every stream and split.
-/
import Talus.Base.Json

namespace Talus.Terminal

open Talus.Base List

/-! ## §1. Full runes (`unicode/utf8`). -/

/-- What the `utf8` package knows of a first byte: the size of its sequence and
the range of the second byte. -/
structure Lead where
  size : Nat
  lo : UInt8
  hi : UInt8

/-- The tables `first` and `acceptRanges`. -/
def lead (b : UInt8) : Lead :=
  if b < 0x80 then ⟨1, 0x80, 0xBF⟩
  else if 0xC2 ≤ b && b ≤ 0xDF then ⟨2, 0x80, 0xBF⟩
  else if b = 0xE0 then ⟨3, 0xA0, 0xBF⟩
  else if b = 0xED then ⟨3, 0x80, 0x9F⟩
  else if 0xE1 ≤ b && b ≤ 0xEF then ⟨3, 0x80, 0xBF⟩
  else if b = 0xF0 then ⟨4, 0x90, 0xBF⟩
  else if b = 0xF4 then ⟨4, 0x80, 0x8F⟩
  else if 0xF1 ≤ b && b ≤ 0xF3 then ⟨4, 0x80, 0xBF⟩
  else ⟨1, 0x80, 0xBF⟩

/-- `utf8.FullRune`. -/
def fullRune : Bytes → Bool
  | [] => false
  | b :: rest =>
    (lead b).size ≤ rest.length + 1
      || rest.head?.any (fun c => c < (lead b).lo || (lead b).hi < c)
      || rest[1]?.any (fun c => !isTail c)

/-- The size `utf8.DecodeRune` returns. -/
def runeSize (p : Bytes) : Nat := max 1 (runeWidth p)

/-- The bytes behind the first are those of a rune. -/
def Lead.accepts (l : Lead) (rest : Bytes) : Bool :=
  rest.head?.any (fun c => l.lo ≤ c && c ≤ l.hi)
    && (l.size ≤ 2 || rest[1]?.any isTail) && (l.size ≤ 3 || rest[2]?.any isTail)

theorem lead_size (b : UInt8) : 1 ≤ (lead b).size ∧ (lead b).size ≤ 4 := by
  unfold lead
  split_ifs <;> exact ⟨by decide, by decide⟩

theorem runeWidth_cons (b : UInt8) (rest : Bytes) : runeWidth (b :: rest) =
    if (lead b).size = 1 then if b < 0x80 then 1 else 0
    else if (lead b).accepts rest then (lead b).size else 0 := by
  generalize hl : lead b = l
  unfold lead at hl
  split_ifs at hl with h1 h2 h3 h4 h5 h6 h7 h8 <;> subst hl <;> simp [runeWidth, Lead.accepts, *]

variable {p q : Bytes}

/-- A rune is as wide as its first byte says. -/
theorem runeWidth_lead (b : UInt8) (rest : Bytes) : runeWidth (b :: rest) = 0
    ∨ runeWidth (b :: rest) = (lead b).size ∧ (lead b).size ≤ rest.length + 1 := by
  have hsize := lead_size b
  rw [runeWidth_cons]
  split_ifs with h1 _ hacc
  · exact .inr ⟨h1.symm, by omega⟩
  · exact .inl rfl
  · refine .inr ⟨rfl, ?_⟩
    unfold Lead.accepts at hacc
    match rest with
    | [] => simp at hacc
    | [c] => simp at hacc ⊢; omega
    | [c, d] => simp at hacc ⊢; omega
    | c :: d :: e :: rest => simp; omega
  · exact .inl rfl

theorem runeWidth_le (p : Bytes) : runeWidth p ≤ p.length := by
  match p with
  | [] => exact Nat.le_refl _
  | b :: rest =>
    have := runeWidth_lead b rest
    rw [length_cons]
    omega

/-- **A rune that is full is the same whatever follows.** -/
theorem runeWidth_append (h : fullRune p = true) : runeWidth (p ++ q) = runeWidth p := by
  match p with
  | [] => cases h
  | b :: rest =>
    rw [cons_append, runeWidth_cons, runeWidth_cons]
    by_cases h1 : (lead b).size = 1
    · rw [if_pos h1, if_pos h1]
    · have hacc : (lead b).accepts (rest ++ q) = (lead b).accepts rest := by
        have hsize := lead_size b
        unfold Lead.accepts
        match rest with
        | [] =>
          simp [fullRune] at h
          omega
        | [c] =>
          simp [fullRune] at h ⊢
          grind
        | [c, d] =>
          simp [fullRune] at h ⊢
          grind
        | c :: d :: e :: rest => rfl
      rw [hacc]

theorem short_of_not_full {b : UInt8} {rest : Bytes} (h : ¬fullRune (b :: rest) = true) :
    rest.length + 1 < (lead b).size := by
  simp [fullRune] at h
  omega

/-- The bytes of a rune decide it: those behind may be cut off. -/
theorem runeWidth_take {n : Nat} (b : UInt8) (rest : Bytes) (h : runeWidth (b :: rest) ≤ n + 1) :
    runeWidth (b :: rest.take n) = runeWidth (b :: rest) := by
  by_cases hf : fullRune (b :: rest.take n) = true
  · rw [← runeWidth_append (q := rest.drop n) hf, cons_append, take_append_drop]
  · have hshort := short_of_not_full hf
    have hwhole := runeWidth_lead b rest
    have hpart := runeWidth_lead b (rest.take n)
    rw [length_take] at hshort hpart
    omega

/-! ## §2. The writer. -/

/-- The loop of `write`, `n` at its end: at a rune it goes on by the rune's
size, of which `k` bytes are still to be passed over. -/
def cutAt (final : Bool) : Nat → Bytes → Nat
  | _, [] => 0
  | k + 1, _ :: bs => cutAt final k bs + 1
  | 0, b :: bs =>
    if final || fullRune (b :: bs) then cutAt final (runeSize (b :: bs) - 1) bs + 1 else 0

/-- `terminalOutputWriter`, with the frames it has sent. -/
structure OutputWriter where
  binary : Bool
  pending : Bytes
  frames : List Bytes

/-- `terminalOutputWriter.write`. -/
def OutputWriter.write (w : OutputWriter) (data : Bytes) (final : Bool) : OutputWriter :=
  if w.binary then
    if data.length = 0 then w else { w with frames := w.frames ++ [data] }
  else
    let data := w.pending ++ data
    let n := cutAt final 0 data
    if n = 0 then { w with pending := data.drop n }
    else { w with pending := data.drop n, frames := w.frames ++ [data.take n] }

/-- One turn of the output pump on a read that has not failed. -/
def OutputWriter.read (w : OutputWriter) (data : Bytes) : OutputWriter :=
  if data.length > 0 then w.write data false else w

/-- The output pump: reads, and the last one, which came with an error.  A
frame the socket does not take ends the session; here each one is taken. -/
def pump (binary : Bool) (reads : List Bytes) (last : Bytes) : OutputWriter :=
  (reads.foldl OutputWriter.read ⟨binary, [], []⟩).write last true

/-- The text of the frames sent, each decoded by itself. -/
def OutputWriter.text (w : OutputWriter) : Bytes := (w.frames.map scrub).flatten

/-! ## §3. Cutting commutes with decoding. -/

theorem drop_cutAt (k : Nat) (p : Bytes) : (p.drop (cutAt false k p)).length ≤ 3 := by
  fun_induction cutAt false k p with
  | case1 => exact Nat.zero_le _
  | case2 k b bs ih => exact ih
  | case3 b bs hf ih => exact ih
  | case4 b bs hf =>
    have hshort := short_of_not_full hf
    have hsize := lead_size b
    simp only [drop_zero, length_cons]
    omega

theorem cutAt_final (k : Nat) (p : Bytes) : cutAt true k p = p.length := by
  fun_induction cutAt true k p <;> simp_all

theorem le_cutAt (final : Bool) (k : Nat) (p : Bytes) (h : k ≤ p.length) : k ≤ cutAt final k p := by
  fun_induction cutAt final k p <;> simp_all

/-- **Cutting at runes commutes with decoding**: the part that goes out decodes
by itself, and the part that stays with what follows. -/
theorem cutAt_spec (final : Bool) (k : Nat) (p q : Bytes) (hk : k ≤ p.length)
    (hq : final = true → q = []) :
    scrubFrom k (p ++ q) = scrubFrom k (p.take (cutAt final k p))
      ++ scrub (p.drop (cutAt final k p) ++ q) := by
  -- along the bytes of `p`; at the start of a rune its width must be the same
  -- in the whole, in `p`, and in the part that goes out
  fun_induction cutAt final k p with
  | case1 k =>
    obtain rfl : k = 0 := Nat.le_zero.1 hk
    rfl
  | case2 k b bs ih =>
    simp only [cons_append, take_succ_cons, drop_succ_cons, scrubFrom, List.cons.injEq, true_and]
    exact ih (Nat.le_of_succ_le_succ hk)
  | case3 b bs hf ih =>
    have hle := runeWidth_le (b :: bs)
    rw [length_cons] at hle
    have hfit : runeSize (b :: bs) - 1 ≤ bs.length := by
      unfold runeSize
      omega
    have hout := le_cutAt final _ bs hfit
    have hreach : runeWidth (b :: bs) ≤ cutAt final (runeSize (b :: bs) - 1) bs + 1 := by
      unfold runeSize at hout ⊢
      omega
    have hwhole : runeWidth (b :: (bs ++ q)) = runeWidth (b :: bs) := by
      rcases Bool.or_eq_true _ _ ▸ hf with hf | hf
      · rw [hq hf, append_nil]
      · exact runeWidth_append (q := q) hf
    have hpart := runeWidth_take b bs hreach
    specialize ih hfit
    simp only [cons_append, take_succ_cons, drop_succ_cons, scrubFrom, hwhole, hpart]
    unfold runeSize at ih ⊢
    cases hw : runeWidth (b :: bs) with
    | zero =>
      rw [hw] at ih
      simpa using ih
    | succ w =>
      rw [hw] at ih
      simpa using ih
  | case4 b bs hf => rfl

/-! ## §4. A session. -/

variable {w : OutputWriter}

theorem write_pending (hb : w.binary = false) (data : Bytes) (final : Bool) :
    (w.write data final).pending = (w.pending ++ data).drop (cutAt final 0 (w.pending ++ data)) := by
  simp only [OutputWriter.write, hb, Bool.false_eq_true, if_false]
  split <;> rfl

theorem write_binary (data : Bytes) (final : Bool) : (w.write data final).binary = w.binary := by
  unfold OutputWriter.write
  grind

/-- One write moves bytes from what is still to be decoded to the text. -/
theorem write_text (hb : w.binary = false) (data q : Bytes) (final : Bool)
    (hq : final = true → q = []) :
    w.text ++ scrub (w.pending ++ (data ++ q))
      = (w.write data final).text ++ scrub ((w.write data final).pending ++ q) := by
  have hcut := cutAt_spec final 0 (w.pending ++ data) q (Nat.zero_le _) hq
  rw [write_pending hb, ← append_assoc w.pending, scrub, hcut]
  simp only [OutputWriter.write, hb, OutputWriter.text, Bool.false_eq_true, if_false]
  split
  · next hn => simp [hn, scrubFrom]
  · simp [scrub]

/-- What the reads of a text session keep. -/
structure Reading (w : OutputWriter) (stream : Bytes) : Prop where
  mode : w.binary = false
  pending : w.pending.length ≤ 3
  text : ∀ q, scrub (stream ++ q) = w.text ++ scrub (w.pending ++ q)

variable {stream : Bytes}

theorem Reading.read (h : Reading w stream) (data : Bytes) :
    Reading (w.read data) (stream ++ data) := by
  unfold OutputWriter.read
  split
  · refine ⟨(write_binary _ _).trans h.mode, ?_, fun q => ?_⟩
    · rw [write_pending h.mode]
      exact drop_cutAt _ _
    · rw [append_assoc, h.text, write_text h.mode data q false nofun]
  · next hd =>
    rw [length_eq_zero_iff.1 (Nat.eq_zero_of_not_pos hd), append_nil]
    exact h

theorem Reading.reads (h : Reading w stream) (reads : List Bytes) :
    Reading (reads.foldl OutputWriter.read w) (stream ++ reads.flatten) := by
  induction reads generalizing w stream with
  | nil => simpa using h
  | cons data reads ih => simpa using ih (h.read data)

/-- Binary frames are the reads that brought something. -/
theorem reads_binary (reads frames : List Bytes) :
    reads.foldl OutputWriter.read ⟨true, [], frames⟩
      = ⟨true, [], frames ++ reads.filter fun data => !data.isEmpty⟩ := by
  induction reads generalizing frames with
  | nil => simp
  | cons data reads ih =>
    cases data <;> simp [OutputWriter.read, OutputWriter.write, ih]

/-- **Terminal output does not depend on how the reads split it**: the decoded
text frames are the decoded stream, at most three bytes wait between two reads
and none after the last, and binary frames are the stream itself. -/
theorem output_independent_of_chunking (reads : List Bytes) (last : Bytes) :
    ((pump false reads last).frames.map scrub).flatten = scrub (reads.flatten ++ last)
      ∧ (∀ n, ((reads.take n).foldl OutputWriter.read ⟨false, [], []⟩).pending.length ≤ 3)
      ∧ (pump false reads last).pending = []
      ∧ (pump true reads last).frames.flatten = reads.flatten ++ last := by
  have hstart : Reading ⟨false, [], []⟩ [] := ⟨rfl, Nat.zero_le _, fun _ => rfl⟩
  have hreads := hstart.reads reads
  have hend : (pump false reads last).pending = [] :=
    (write_pending hreads.mode last true).trans (by rw [cutAt_final, drop_length])
  refine ⟨?_, fun n => (hstart.reads _).pending, hend, ?_⟩
  · have hlast := write_text hreads.mode last [] true (fun _ => rfl)
    rw [← hreads.text, append_nil] at hlast
    change _ = (pump false reads last).text ++ scrub ((pump false reads last).pending ++ []) at hlast
    rw [hend] at hlast
    simpa [OutputWriter.text, scrub, scrubFrom] using hlast.symm
  · rw [pump, reads_binary]
    cases last <;> simp [OutputWriter.write, flatten_filter_not_isEmpty]

end Talus.Terminal
