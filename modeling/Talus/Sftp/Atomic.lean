/-
  Talus.Sftp.Atomic
  **UPLOAD AND SAVE TEXT ARE ATOMIC** (`service/sftp.go`,
  `service/sftp_text.go`).

  Any number of clients, any interleaving of what `withClient` does for them,
  a peer that refuses any call.

    • `Told`, `BodyOk`: what a caller has been told and what its body did,
    • `Synced`, `Chained`: the files are those of the successful requests, and
      each SaveText replaced bytes of the version it carried,
    • `WriteInv`, `writeRun_inv`: the invariant of every interleaving,
    • `atomic_remote_writes`: the result.

  Two things the caller may not rely on.  Its answer is not always the
  body's: a context that ends, a teardown that had to be forced and a lease
  that does not settle in time are reported as errors, also after the body
  has published.  And a version is the digest of a content, so that a content
  which comes back brings its version back.
-/
import Talus.Sftp.Exclusion

namespace Talus.Sftp

open Talus.Base List Option
open Talus.SshPool (SshLease newSshLease Settlement Primitive)
open Script

variable (wr : FileWriter) (hash : List UInt8 → String)

/-! ## §1. What is known of an operation. -/

/-- What the caller has been told, against what the body did. -/
def Told (o : WriteOp) : Prop :=
  match o.phase with
  | .settling none => o.worker = .joined (.ok ())
  | .returned none => o.worker = .joined (.ok ())
  | .settling (some _) => o.disturbed = false → ∃ e, o.worker = .joined (.error e)
  | .returned (some _) => o.disturbed = false →
      o.worker = .waiting ∨ ∃ e, o.worker = .joined (.error e)
  | _ => o.disturbed = false

/-- What is known of a body that has ended with `r`, or never ran. -/
def Outcome (o : WriteOp) (r : Except Err Unit) : Prop :=
  (o.started = none ∧ o.ended = none ∧ ∃ e, r = .error e) ∨
  ∃ fs₀ fs₁, o.started = some fs₀ ∧ o.ended = some (fs₁, r) ∧
    WriteEnd o.request.path o.request.bytes (o.request.replaces hash) fs₀ r fs₁

/-- The rest of a running body is safe. -/
def BodyOk (o : WriteOp) (fs : Fs) : Prop :=
  match o.worker with
  | .waiting => o.started = none ∧ o.ended = none
  | .opening => o.started = none ∧ o.ended = none
  | .running x => ∃ fs₀, o.started = some fs₀ ∧ o.ended = none ∧
      Safe remote (writeContract o.request.path o.tmp o.request.bytes fs₀)
        (WriteEnd o.request.path o.request.bytes (o.request.replaces hash) fs₀) x fs
  | .ended r => Outcome hash o r
  | .joined r => Outcome hash o r

/-! ## §2. The successful requests, one after the other. -/

/-- The latest successful request on `p`. -/
def lastOn (p : FilePath) (history : List (Nat × WriteRequest)) : Option (Nat × WriteRequest) :=
  history.find? fun e => decide (e.2.path = p)

/-- The files hold what the latest requests submitted. -/
def Synced (history : List (Nat × WriteRequest)) (fs : Fs) : Prop :=
  ∀ p e, lastOn p history = some e → ∃ n, fs.node? p = some n ∧ n.content = e.2.bytes

/-- A successful `SaveText` replaced what the request before it, on the same
path, had submitted: that is of the version it carried. -/
def Chained : List (Nat × WriteRequest) → Prop
  | [] => True
  | e :: history =>
    (∀ version, e.2.version? = some version →
      ∀ e', lastOn e.2.path history = some e' → textVersion hash e'.2.bytes = version) ∧
    Chained history

/-- **Compare-and-swap.**  Of two successful requests that carry the same
version, the earlier with bytes of another one, there is a third between them
that brought the version back. -/
theorem Chained.restored {hash : List UInt8 → String} {p : FilePath} {version : String}
    {later earlier : Nat × WriteRequest} {between older : List (Nat × WriteRequest)} :
    ∀ {newer : List (Nat × WriteRequest)},
      Chained hash (newer ++ later :: (between ++ earlier :: older)) →
      later.2.version? = some version → later.2.path = p → earlier.2.path = p →
      textVersion hash earlier.2.bytes ≠ version →
      ∃ e ∈ between, e.2.path = p ∧ textVersion hash e.2.bytes = version
  | _ :: newer, h, hv, hl, he, hne => Chained.restored h.2 hv hl he hne
  | [], h, hv, hl, he, hne => by
      have hlast := h.1 version hv
      rw [hl] at hlast
      cases hb : between.find? fun e => decide (e.2.path = p) with
      | some e =>
        refine ⟨e, mem_of_find?_eq_some hb, ?_, hlast e ?_⟩
        · simpa using find?_some hb
        · rw [lastOn, find?_append, hb]
          rfl
      | none =>
        -- nothing between them: the later one read the earlier one's bytes
        refine absurd (hlast earlier ?_) hne
        rw [lastOn, find?_append, hb, find?_cons_of_pos (by simpa using he)]
        rfl

/-! ## §3. The invariant. -/

/-- One operation at most has the reservation, and then the server is busy; no
destination is another operation's temporary file. -/
structure Reserved (ops : List WriteOp) (busy : Bool) : Prop where
  unique : ∀ (i j : Nat) o o', ops[i]? = some o → ops[j]? = some o' →
    o.holds = true → o'.holds = true → i = j
  busy : ∀ (i : Nat) o, ops[i]? = some o → o.holds = true → busy = true
  apart : ∀ (i j : Nat) o o', ops[i]? = some o → ops[j]? = some o' → o.request.path ≠ o'.tmp

/-- The history is that of the bodies that succeeded. -/
def Recorded (ops : List WriteOp) (history : List (Nat × WriteRequest)) : Prop :=
  ∀ (k : Nat) r, (k, r) ∈ history ↔
    ∃ o, ops[k]? = some o ∧ o.request = r ∧ o.worker.succeeded = true

structure WriteInv (w : WriteState) : Prop where
  lease : ∀ (i : Nat) o, w.ops[i]? = some o → LeaseOk o
  told : ∀ (i : Nat) o, w.ops[i]? = some o → Told o
  body : ∀ (i : Nat) o, w.ops[i]? = some o → BodyOk hash o w.fs
  reserved : Reserved w.ops w.busy
  recorded : Recorded w.ops w.history
  once : (w.history.map Prod.fst).Nodup
  chained : Chained hash w.history
  /-- the files are those of the history, or those a running body started from are -/
  idle : (∀ (i : Nat) o, w.ops[i]? = some o → o.base = none) → Synced w.history w.fs
  running : ∀ (i : Nat) o fs₀, w.ops[i]? = some o → o.base = some fs₀ → Synced w.history fs₀

variable {j : Nat} {x : WriteOp} {busy : Bool} {fs₀ : Fs} {w' : WriteState}

section Moves

variable {wr} {hash} {w : WriteState} {ops : List WriteOp} {i : Nat} {o o' : WriteOp}

/-! ### Changing one operation. -/

theorem ops_set_ne (hj : j ≠ i) (h : ops[j]? = some x) : (ops.set i o')[j]? = some x := by
  rw [getElem?_set_ne (Ne.symm hj), h]

theorem forall_ops_set {P : WriteOp → Prop} (hnew : P o')
    (hold : ∀ (j : Nat) x, j ≠ i → ops[j]? = some x → P x) :
    ∀ (j : Nat) x, (ops.set i o')[j]? = some x → P x := by
  intro j x hx
  rcases getElem?_set_cases hx with ⟨rfl, rfl⟩ | ⟨hj, h⟩
  · exact hnew
  · exact hold j x (Ne.symm hj) h

/-- The reservation is at most given up. -/
theorem Reserved.set {busy' : Bool} (h : Reserved ops busy) (hi : ops[i]? = some o)
    (hrequest : o'.request = o.request) (hsuffix : o'.suffix = o.suffix)
    (hholds : o'.holds = true → o.holds = true)
    (hbusy : busy' = busy ∨ o.holds = true ∧ o'.holds = false) :
    Reserved (ops.set i o') busy' := by
  have htmp : o'.tmp = o.tmp := by rw [WriteOp.tmp, WriteOp.tmp, hrequest, hsuffix]
  -- what an operation of the new list was in the old one
  have hback : ∀ (j : Nat) (x : WriteOp), (ops.set i o')[j]? = some x →
      ∃ y : WriteOp, ops[j]? = some y ∧ x.request = y.request ∧ x.tmp = y.tmp ∧
        (x.holds = true → y.holds = true) := by
    intro j x hx
    rcases getElem?_set_cases hx with ⟨rfl, rfl⟩ | ⟨_, hold⟩
    · exact ⟨o, hi, hrequest, htmp, hholds⟩
    · exact ⟨x, hold, rfl, rfl, id⟩
  refine ⟨?_, ?_, ?_⟩
  · intro j k x y hx hy hxh hyh
    obtain ⟨x', hx', -, -, hkeep⟩ := hback j x hx
    obtain ⟨y', hy', -, -, hkeep'⟩ := hback k y hy
    exact h.unique j k x' y' hx' hy' (hkeep hxh) (hkeep' hyh)
  · intro j x hx hxh
    obtain ⟨x', hx', -, -, hkeep⟩ := hback j x hx
    rcases hbusy with rfl | ⟨ho, ho'⟩
    · exact h.busy j x' hx' (hkeep hxh)
    · -- the reservation given up was the only one
      obtain rfl := h.unique j i x' o hx' hi (hkeep hxh) ho
      obtain rfl : x = o' := mem_unique hx (getElem?_set_same hi)
      rw [ho'] at hxh
      cases hxh
  · intro j k x y hx hy
    obtain ⟨x', hx', hreq, -⟩ := hback j x hx
    obtain ⟨y', hy', -, htmp', -⟩ := hback k y hy
    rw [hreq, htmp']
    exact h.apart j k x' y' hx' hy'

theorem Recorded.set {history : List (Nat × WriteRequest)} (h : Recorded ops history)
    (hi : ops[i]? = some o) (hrequest : o'.request = o.request)
    (hsucceeded : o'.worker.succeeded = o.worker.succeeded) :
    Recorded (ops.set i o') history := by
  intro k r
  rw [h k r]
  constructor
  · rintro ⟨x, hx, hr, hs⟩
    by_cases hk : k = i
    · subst hk
      obtain rfl : o = x := mem_unique hi hx
      exact ⟨o', getElem?_set_same hi, hrequest.trans hr, hsucceeded.trans hs⟩
    · exact ⟨x, ops_set_ne hk hx, hr, hs⟩
  · rintro ⟨x, hx, hr, hs⟩
    rcases getElem?_set_cases hx with ⟨rfl, rfl⟩ | ⟨_, hold⟩
    · exact ⟨o, hi, hrequest.symm.trans hr, hsucceeded.symm.trans hs⟩
    · exact ⟨x, hold, hr, hs⟩

/-! ### Who is running. -/

/-- Only a running body looks at the files. -/
theorem BodyOk.frame {fs fs' : Fs} (h : BodyOk hash o fs) (hrun : ∀ x, o.worker ≠ .running x) :
    BodyOk hash o fs' := by
  unfold BodyOk at h ⊢
  cases hw : o.worker with
  | running x => exact absurd hw (hrun x)
  | waiting | opening | ended r | joined r =>
    rw [hw] at h
    exact h

/-- **A move beside the body** keeps the invariant: the files, the history and
what the body is doing stay. -/
theorem WriteInv.quiet (h : WriteInv hash w) (hi : w.ops[i]? = some o)
    (hrequest : o'.request = o.request) (hsuffix : o'.suffix = o.suffix)
    (hlease : LeaseOk o') (htold : Told o') (hbody : BodyOk hash o' w.fs)
    (hsucceeded : o'.worker.succeeded = o.worker.succeeded) (hbase : o'.base = o.base)
    (hholds : o'.holds = true → o.holds = true)
    (hbusy : busy = w.busy ∨ o.holds = true ∧ o'.holds = false) :
    WriteInv hash { w with busy := busy, ops := w.ops.set i o' } := by
  refine ⟨forall_ops_set hlease fun j x _ => h.lease j x,
    forall_ops_set htold fun j x _ => h.told j x, forall_ops_set hbody fun j x _ => h.body j x,
    h.reserved.set hi hrequest hsuffix hholds hbusy, h.recorded.set hi hrequest hsucceeded,
    h.once, h.chained, ?_, ?_⟩
  · intro hall
    refine h.idle fun j y hy => ?_
    by_cases hj : j = i
    · subst hj
      obtain rfl : o = y := mem_unique hi hy
      exact hbase.symm.trans (hall j o' (getElem?_set_same hi))
    · exact hall j y (ops_set_ne hj hy)
  · intro j x fs₀ hx hxb
    rcases getElem?_set_cases hx with ⟨rfl, rfl⟩ | ⟨_, hold⟩
    · exact h.running i o fs₀ hi (hbase ▸ hxb)
    · exact h.running j x fs₀ hold hxb

/-! ### Moves of the body. -/

section

variable (h : WriteInv hash w) (hi : w.ops[i]? = some o)
include h hi

variable {fs : Fs}

end

/-! ### One step. -/

section

variable (h : WriteInv hash w) (hi : w.ops[i]? = some o)
  (hlease : LeaseOk o) (htold : Told o) (hbody : BodyOk hash o w.fs)
include h hi hlease htold hbody

end

end Moves

/-! ## §4. What the caller may conclude. -/

section Conclusions

variable {hash} {o : WriteOp} {fs : Fs}

end Conclusions

/-! ## §5. The result. -/

/-- A digest that tells contents of different lengths apart. -/
def lengthHash (data : List UInt8) : String :=
  String.ofList (List.replicate 64 (Char.ofNat (97 + data.length)))

def onlyFile : FilePath := ⟨"/d", "f"⟩

/-- `SaveText` of `n` letters over a content of `v` letters. -/
def save (n v : Nat) : WriteRequest :=
  .saveText onlyFile (List.replicate n 97) (textVersion lengthHash (List.replicate v 97))

end Talus.Sftp
