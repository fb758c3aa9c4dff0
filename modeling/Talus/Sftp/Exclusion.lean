/-
  Talus.Sftp.Exclusion
  **ONE FILE OPERATION AT A TIME, AND WHAT ITS CALLER LEARNS**
  (`SFTPService.withClient`, `service/sftp_transport.go`).

  `withClient` reserves the server, leases a connection, and lets a worker
  run the operation's body on it.  The caller waits for the result or for
  its context, then for the worker to be joined; when that takes too long it
  returns without it.  The reservation is given up when the lease settles,
  and the lease settles when the worker has been joined, whoever still waits.

      arrive      the busy check of `withClient`
      acquire     `getLeaseWithSnapshot`
      begin       `lease.begin`; its failure discards the lease
      open        the worker's session and subsystem
      call        one call of the body
      bodyEnd     the body has returned
      join        the worker is done
      supervise   `withSFTPClient` returns, `lease.end`, `lease.Release`
      cleanupDone the goroutine of `lease.end` that waited for the worker
      handBack    the goroutine of `settleLocked`; the lease is done
      release     the reservation is given up
      ret         `releaseAndWait` is over, the caller has its answer

    • `writeStep`, `writeSystem`: any number of calls, interleaved,
    • `LeaseOk`: a worker that is not joined keeps its lease active, and the
      lease the reservation.
-/
import Talus.SshPool.ServiceLease
import Talus.Sftp.Write

namespace Talus.Sftp

open Talus.Base
open Talus.SshPool (SshLease newSshLease Settlement Primitive)
open Script

/-! ## §1. Requests. -/

inductive WriteRequest
  | upload (p : FilePath) (body : Body) (size : Int) (overwrite : Bool)
  | saveText (p : FilePath) (content : List UInt8) (version : String)
  deriving DecidableEq, Repr

namespace WriteRequest

def path : WriteRequest → FilePath
  | .upload p _ _ _ => p
  | .saveText p _ _ => p

/-- The submitted bytes. -/
def bytes : WriteRequest → List UInt8
  | .upload _ body _ _ => body.bytes
  | .saveText _ content _ => content

/-- The version a `SaveText` carries. -/
def version? : WriteRequest → Option String
  | .upload _ _ _ _ => none
  | .saveText _ _ version => some version

/-- What the methods check before `withClient`. -/
def check : WriteRequest → Except Err Unit
  | .upload _ _ size _ =>
    if size < 0 ∨ size > maxSftpFileBytes then .error (.app .tooLarge) else .ok ()
  | .saveText _ content version =>
    if content.length > maxSftpTextBytes then .error (.app .textTooLarge)
    else if isText content = false then .error (.app .notText)
    else if version.utf8ByteSize ≠ 71 ∨ "sha256:".toList.isPrefixOf version.toList = false then
      .error (.app .conflict)
    else .ok ()

variable (wr : FileWriter) (hash : List UInt8 → String)

def body (ext : Extensions) (suffix : String) : WriteRequest → Program Unit
  | .upload p b size overwrite => Talus.Sftp.upload wr ext p b size overwrite suffix
  | .saveText p content version => Talus.Sftp.saveText wr hash ext p content version suffix

/-- What has to be true of the file a successful request replaces. -/
def replaces : WriteRequest → Option Node → Prop
  | .upload _ _ _ _ => fun _ => True
  | .saveText _ _ version => HasVersion hash version

end WriteRequest

/-! ## §2. Operations. -/

/-- The worker goroutine of `withSFTPClient`. -/
inductive Worker
  | waiting
  | opening
  | running (x : Program Unit)
  | ended (r : Except Err Unit)
  | joined (r : Except Err Unit)

namespace Worker

/-- Started and not joined. -/
def isOpen : Worker → Bool
  | .opening => true
  | .running _ => true
  | .ended _ => true
  | _ => false

/-- The body has succeeded. -/
def succeeded : Worker → Bool
  | .ended (.ok _) => true
  | .joined (.ok _) => true
  | _ => false

end Worker

/-- Where the caller stands. -/
inductive Phase
  | acquiring
  | leased
  | supervising
  | settling (err : Option Err)
  | returned (err : Option Err)
  deriving DecidableEq, Repr

structure WriteOp where
  request : WriteRequest
  ext : Extensions
  suffix : String
  phase : Phase
  lease : SshLease
  worker : Worker
  /-- it keeps the server's reservation -/
  holds : Bool
  /-- ghost: the files when the body started -/
  started : Option Fs
  /-- ghost: the files when the body ended, and its result -/
  ended : Option (Fs × Except Err Unit)
  /-- ghost: the caller was cut off, the teardown forced or left pending, or
  the lease did not settle in time -/
  disturbed : Bool

namespace WriteOp

def tmp (o : WriteOp) : FilePath := temporaryFor o.request.path o.suffix

/-- The files a running body started from. -/
def base (o : WriteOp) : Option Fs :=
  match o.worker with
  | .running _ => o.started
  | _ => none

end WriteOp

structure WriteState where
  fs : Fs
  /-- `busy[id]` -/
  busy : Bool
  ops : List WriteOp
  /-- ghost: the requests whose bodies succeeded, the latest first -/
  history : List (Nat × WriteRequest)

/-- What happens to one operation. -/
inductive OpMove
  | acquire (ok : Bool)
  | begin (current ctxErr : Bool)
  | open (ok : Bool)
  | call (refused : Bool)
  | bodyEnd
  | join
  | supervise (ctxDone forced unhealthy : Bool)
  | cleanupDone
  | handBack
  | release
  | ret (settled : Bool)
  deriving DecidableEq, Repr

/-- The random names are nobody's destination. -/
def WriteState.apart (w : WriteState) (p tmp : FilePath) : Bool :=
  decide (p ≠ tmp) && w.ops.all fun o => decide (o.tmp ≠ p) && decide (o.request.path ≠ tmp)

/-- A new call of `Upload` or `SaveText`. -/
def WriteState.arrive (w : WriteState) (r : WriteRequest) (ext : Extensions) (suffix : String) :
    WriteState :=
  let o : WriteOp :=
    ⟨r, ext, suffix, .acquiring, newSshLease w.ops.length, .waiting, true, none, none, false⟩
  match r.check with
  | .error e => { w with ops := w.ops ++ [{ o with phase := .returned (some e), holds := false }] }
  | .ok () =>
    if w.busy then
      { w with
        ops := w.ops ++ [{ o with phase := .returned (some (.app .busy)), holds := false }] }
    else { w with busy := true, ops := w.ops ++ [o] }

variable (wr : FileWriter) (hash : List UInt8 → String)

/-- A lease settles only when no primitive is active on it, and its goroutine
starts only then. -/
structure LeaseFlags (l : SshLease) : Prop where
  active : l.active = true → l.settled = false
  settlement : l.settlement ≠ .none → l.settled = true

namespace LeaseFlags

variable {l : SshLease}

theorem settleLocked (h : LeaseFlags l) :
    LeaseFlags l.settleLocked ∧ l.settleLocked.active = l.active := by
  unfold SshLease.settleLocked
  split
  · exact ⟨h, rfl⟩
  next hw =>
    have hidle : l.active = false := by
      simp only [SshLease.waits, Bool.or_eq_true, not_or] at hw
      simpa using hw.1.2
    refine ⟨⟨fun ha => ?_, fun _ => rfl⟩, rfl⟩
    have hcontra : l.active = true := ha
    rw [hidle] at hcontra
    cases hcontra

theorem finish (h : LeaseFlags l) (discard : Bool) :
    LeaseFlags (l.finish discard) ∧ (l.finish discard).active = l.active := by
  unfold SshLease.finish
  split
  · exact ⟨h, rfl⟩
  · exact settleLocked ⟨h.active, h.settlement⟩

theorem endPrimitive (h : LeaseFlags l) (unhealthy : Bool) :
    LeaseFlags (l.endPrimitive unhealthy) := by
  unfold SshLease.endPrimitive
  refine (settleLocked ?_).1
  exact ⟨nofun, h.settlement⟩

/-- `end` leaves the lease active while the cleanup is pending. -/
theorem cleaning (h : LeaseFlags l) : LeaseFlags { l with primitive := .cleaning } :=
  ⟨h.active, h.settlement⟩

/-- A primitive begins on a lease that is not settled. -/
theorem beginPrimitive (h : LeaseFlags l) (current ctxErr : Bool) :
    LeaseFlags (l.beginPrimitive current ctxErr).1 ∧
      ((l.beginPrimitive current ctxErr).2 = none →
        (l.beginPrimitive current ctxErr).1.active = true) := by
  unfold SshLease.beginPrimitive
  split
  · exact ⟨h, nofun⟩
  next hfree =>
    have hunsettled : l.settled = false := by
      simp only [Bool.or_eq_true, not_or] at hfree
      simpa using hfree.1.2
    split
    · exact ⟨⟨h.active, h.settlement⟩, nofun⟩
    split
    · exact ⟨h, nofun⟩
    split
    · exact ⟨h, nofun⟩
    · exact ⟨⟨fun _ => hunsettled, h.settlement⟩, fun _ => rfl⟩

end LeaseFlags

/-- How an operation's lease, worker and reservation go together. -/
structure LeaseOk (o : WriteOp) : Prop where
  flags : LeaseFlags o.lease
  worker : o.worker.isOpen = true → o.lease.active = true
  early : o.phase = .acquiring ∨ o.phase = .leased →
    o.worker = .waiting ∧ o.lease.settlement = .none
  released : o.holds = false →
    o.worker.isOpen = false ∧ o.phase ≠ .acquiring ∧ o.phase ≠ .leased

/-- **An open worker keeps the reservation.** -/
theorem LeaseOk.holds {o : WriteOp} (h : LeaseOk o) (ho : o.worker.isOpen = true) :
    o.holds = true := by
  cases hh : o.holds with
  | true => rfl
  | false =>
    have hclosed := (h.released hh).1
    rw [ho] at hclosed
    cases hclosed

end Talus.Sftp
