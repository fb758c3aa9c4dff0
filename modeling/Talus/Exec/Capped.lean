/-
  Talus.Exec.Capped
  **THE OUTPUT OF A COMMAND IS CAPPED** (`service/execlimit.go`).

  The two writers of a command share a lock and a total, so that a run is a
  list of writes.

    • `CappedWriter.write_eq`: what one write takes and what it drops,
    • `Kept`: a stream that has dropped a byte is full, or the total is, and
      neither ever shrinks, so that nothing behind the byte is retained,
    • `output_capped`: the result, for every list of writes.
-/
import Mathlib.Data.List.Induction
import Talus.Base.Json

namespace Talus.Exec

open Talus.Base

/-! ## §1. The writers. -/

/-- The limits of a command (`runCommand` puts a default for one that is not
positive). -/
structure Limits where
  totalMax : Int
  streamMax : Int
  total_pos : 0 < totalMax
  stream_pos : 0 < streamMax

/-- `cappedWriter`, without the lock and the total it shares. -/
structure CappedWriter where
  buf : Bytes := []
  retained : Int := 0
  discarded : Int := 0

variable (l : Limits)

/-- `cappedWriter.Write`: the writer, the total and the count it returns. -/
def CappedWriter.write (w : CappedWriter) (total : Int) (p : Bytes) : CappedWriter × Int × Nat :=
  let allow := l.streamMax - w.retained
  let room := l.totalMax - total
  let allow := if room < allow then room else allow
  let allow := if allow < 0 then 0 else allow
  let n : Int := p.length
  let take := if n > allow then allow else n
  let (w, total) :=
    if take > 0 then
      ({ w with buf := w.buf ++ p.take take.toNat, retained := w.retained + take }, total + take)
    else (w, total)
  (if n > take then { w with discarded := w.discarded + (n - take) } else w, total, p.length)

inductive Stream
  | stdout
  | stderr
  deriving DecidableEq, Repr

/-- The two writers of a command and their total. -/
structure Capture where
  writer : Stream → CappedWriter := fun _ => {}
  total : Int := 0

def Capture.write (c : Capture) (s : Stream) (p : Bytes) : Capture :=
  let r := (c.writer s).write l c.total p
  { writer := Function.update c.writer s r.1, total := r.2.1 }

/-- The writers after these writes. -/
def capture (ws : List (Stream × Bytes)) : Capture :=
  ws.foldl (fun c w => c.write l w.1 w.2) {}

structure ExecResult where
  stdout : Bytes
  stderr : Bytes
  exitCode : Int
  outputTruncated : Bool
  stdoutTruncated : Bool
  stderrTruncated : Bool
  stdoutRetained : Int
  stderrRetained : Int
  stdoutDiscarded : Int
  stderrDiscarded : Int

def execResult (stdout stderr : CappedWriter) (exitCode : Int) : ExecResult where
  stdout := stdout.buf
  stderr := stderr.buf
  exitCode
  outputTruncated := stdout.discarded > 0 || stderr.discarded > 0
  stdoutTruncated := stdout.discarded > 0
  stderrTruncated := stderr.discarded > 0
  stdoutRetained := stdout.retained
  stderrRetained := stderr.retained
  stdoutDiscarded := stdout.discarded
  stderrDiscarded := stderr.discarded

/-! ## §2. One write. -/

/-- **What one write does**: it takes the first `k` bytes, as many as the stream
and the total have room for. -/
theorem CappedWriter.write_eq (w : CappedWriter) (total : Int) (p : Bytes)
    (hstream : w.retained ≤ l.streamMax) (htotal : total ≤ l.totalMax) :
    ∃ k : Nat, (k : Int) = min ↑p.length (min (l.streamMax - w.retained) (l.totalMax - total))
      ∧ w.write l total p = (⟨w.buf ++ p.take k, w.retained + k, w.discarded + (p.length - k)⟩,
          total + k, p.length) := by
  obtain ⟨k, hk⟩ : ∃ k : Nat, (k : Int)
      = min ↑p.length (min (l.streamMax - w.retained) (l.totalMax - total)) :=
    ⟨Int.toNat _, Int.toNat_of_nonneg (by omega)⟩
  refine ⟨k, hk, ?_⟩
  unfold write
  dsimp only
  generalize htake : (if (p.length : Int) > _ then _ else (p.length : Int)) = take
  obtain rfl : take = k := by split_ifs at htake <;> omega
  have hdrop : ∀ w : CappedWriter, (if (p.length : Int) > k then
      { w with discarded := w.discarded + (p.length - k) } else w)
        = { w with discarded := w.discarded + (p.length - k) } := by
    intro w
    split_ifs with hrest
    · rfl
    · have hall : (p.length : Int) - k = 0 := by omega
      rw [hall, Int.add_zero]
  rw [hdrop]
  by_cases hpos : (k : Int) > 0
  · rw [if_pos hpos]
    rfl
  · obtain rfl : k = 0 := by omega
    simp

/-- What a writer holds of the bytes written to it. -/
structure Kept (data : Bytes) (total : Int) (w : CappedWriter) : Prop where
  buf : w.buf = data.take w.retained.toNat
  counts : w.retained + w.discarded = data.length
  nonneg : 0 ≤ w.retained ∧ 0 ≤ w.discarded
  limit : w.retained ≤ l.streamMax
  full : w.discarded = 0 ∨ w.retained = l.streamMax ∨ total = l.totalMax

variable {l}

theorem Kept.write {data p : Bytes} {total : Int} {w : CappedWriter} (h : Kept l data total w)
    (htotal : total ≤ l.totalMax) :
    Kept l (data ++ p) (w.write l total p).2.1 (w.write l total p).1 := by
  obtain ⟨k, hk, heq⟩ := w.write_eq l total p h.limit htotal
  obtain ⟨hret, hdis⟩ := h.nonneg
  have hcounts := h.counts
  have hfull := h.full
  rw [heq]
  refine ⟨?_, ?_, ⟨?_, ?_⟩, ?_, ?_⟩
  · dsimp only
    rw [h.buf]
    rcases hfull with hnone | hfull
    · -- nothing has been dropped: the writer holds all of the data
      have hlen : w.retained.toNat = data.length := by omega
      have hnext : (w.retained + k).toNat = data.length + k := by omega
      rw [hnext, hlen, List.take_length, List.take_length_add_append]
    · obtain rfl : k = 0 := by omega
      rw [List.take_zero, List.append_nil, Nat.cast_zero, Int.add_zero,
        List.take_append_of_le_length (by omega)]
  all_goals
    simp only [List.length_append, Nat.cast_add]
    omega

/-- Another writer takes of the total. -/
theorem Kept.share {data : Bytes} {total total' : Int} {w : CappedWriter} (h : Kept l data total w)
    (hle : total ≤ total') (hmax : total' ≤ l.totalMax) : Kept l data total' w :=
  { h with
    full := by
      rcases h.full with hnone | hstream | htotal
      · exact .inl hnone
      · exact .inr (.inl hstream)
      · exact .inr (.inr (by omega)) }

/-! ## §3. Runs. -/

/-- The bytes written to a stream. -/
def written (s : Stream) (ws : List (Stream × Bytes)) : Bytes :=
  ((ws.filter fun w => w.1 = s).map Prod.snd).flatten

theorem written_concat (ws : List (Stream × Bytes)) (s s' : Stream) (p : Bytes) :
    written s (ws ++ [(s', p)]) = written s ws ++ if s' = s then p else [] := by
  by_cases hs : s' = s <;> simp [written, hs]

structure CaptureInv (ws : List (Stream × Bytes)) (c : Capture) : Prop where
  kept : ∀ s, Kept l (written s ws) c.total (c.writer s)
  total : c.total = (c.writer .stdout).retained + (c.writer .stderr).retained
  bound : c.total ≤ l.totalMax

theorem CaptureInv.write {ws : List (Stream × Bytes)} {c : Capture} (h : CaptureInv (l := l) ws c)
    (s : Stream) (p : Bytes) : CaptureInv (l := l) (ws ++ [(s, p)]) (c.write l s p) := by
  have hw := (h.kept s).write (p := p) h.bound
  obtain ⟨k, hk, heq⟩ := (c.writer s).write_eq l c.total p (h.kept s).limit h.bound
  have hlimit := (h.kept s).limit
  have hbound := h.bound
  unfold Capture.write
  refine ⟨fun s' => ?_, ?_, ?_⟩
  · rw [written_concat]
    dsimp only
    by_cases hs : s' = s
    · subst hs
      rw [Function.update_self, if_pos rfl]
      exact hw
    · rw [Function.update_of_ne hs, if_neg (Ne.symm hs), List.append_nil, heq]
      exact (h.kept s').share (by dsimp only; omega) (by dsimp only; omega)
  · have htotal := h.total
    rw [heq]
    cases s <;> simp <;> omega
  · rw [heq]
    dsimp only
    omega

theorem capture_inv (ws : List (Stream × Bytes)) : CaptureInv (l := l) ws (capture l ws) := by
  induction ws using List.reverseRecOn with
  | nil =>
    exact ⟨fun s => ⟨rfl, rfl, ⟨le_refl _, le_refl _⟩, l.stream_pos.le, .inl rfl⟩, rfl,
      l.total_pos.le⟩
  | append_singleton ws w ih =>
    rw [capture, List.foldl_append]
    exact ih.write w.1 w.2

variable (l)

/-- **The output of a command is capped.**  After every list of writes to the two
streams, under every pair of positive limits:
* each stream holds a prefix of its bytes, and counts the others as discarded;
* neither stream is over its limit, and the two together not over the total;
* the next write drops nothing, or its stream or the total is then exhausted;
  it returns that it took everything;
* the flags of the result say which stream has dropped bytes. -/
theorem output_capped (ws : List (Stream × Bytes)) (exitCode : Int) :
    let c := capture l ws
    let r := execResult (c.writer .stdout) (c.writer .stderr) exitCode
    (∀ s, (c.writer s).buf <+: written s ws
        ∧ ((c.writer s).buf.length : Int) = (c.writer s).retained
        ∧ (c.writer s).retained + (c.writer s).discarded = (written s ws).length
        ∧ (c.writer s).retained ≤ l.streamMax)
      ∧ (c.writer .stdout).retained + (c.writer .stderr).retained ≤ l.totalMax
      ∧ (∀ s p, let w := (c.writer s).write l c.total p
          (w.1.discarded = (c.writer s).discarded ∨ w.1.retained = l.streamMax
            ∨ w.2.1 = l.totalMax) ∧ w.2.2 = p.length)
      ∧ (r.stdoutTruncated = true ↔ (written .stdout ws).length ≠ (c.writer .stdout).retained)
      ∧ (r.stderrTruncated = true ↔ (written .stderr ws).length ≠ (c.writer .stderr).retained)
      ∧ r.outputTruncated = (r.stdoutTruncated || r.stderrTruncated) := by
  intro c r
  have hinv : CaptureInv (l := l) ws c := capture_inv ws
  have hflag : ∀ s, decide ((c.writer s).discarded > 0) = true
      ↔ ((written s ws).length : Int) ≠ (c.writer s).retained := by
    intro s
    have hcounts := (hinv.kept s).counts
    have hnonneg := (hinv.kept s).nonneg
    rw [decide_eq_true_eq]
    omega
  refine ⟨fun s => ?_, ?_, fun s p => ?_, hflag .stdout, hflag .stderr, rfl⟩
  · have hk := hinv.kept s
    have hcounts := hk.counts
    have hnonneg := hk.nonneg
    refine ⟨hk.buf ▸ List.take_prefix _ _, ?_, hcounts, hk.limit⟩
    rw [hk.buf, List.length_take]
    omega
  · have htotal := hinv.total
    have hbound := hinv.bound
    omega
  · obtain ⟨k, hk, heq⟩ := (c.writer s).write_eq l c.total p (hinv.kept s).limit hinv.bound
    simp only [heq, and_true]
    omega

/-- Two bytes a stream, three in all. -/
def tight : Limits := ⟨3, 2, by decide, by decide⟩

/-- Three bytes to one stream and two to the other: the first is cut at its own
limit, the second at the total. -/
theorem output_capped_overrun :
    let c := capture tight [(.stdout, [1, 2, 3]), (.stderr, [4, 5])]
    (c.writer .stdout).buf = [1, 2] ∧ (c.writer .stderr).buf = [4]
      ∧ (execResult (c.writer .stdout) (c.writer .stderr) 0).stdoutTruncated = true
      ∧ (execResult (c.writer .stdout) (c.writer .stderr) 0).stderrTruncated = true := by
  obtain ⟨-, -, -, hout, herr, -⟩ :=
    output_capped tight [(.stdout, [1, 2, 3]), (.stderr, [4, 5])] 0
  exact ⟨by decide, by decide, hout.mpr (by decide), herr.mpr (by decide)⟩

end Talus.Exec
