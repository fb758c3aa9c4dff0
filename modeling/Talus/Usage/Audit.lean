/-
  Talus.Usage.Audit
  **THE AUDIT EVENTS OF THE RECORDER.**

  `WriteAudit` writes a bounded copy of the event and, when the write fails,
  leaves it in a backlog of its own, keyed by the operation; `retryAudits`
  expires what is too old and retries what is due, with the lock released
  during the write.  The table keeps one event per operation, and a write may
  reach it also when its caller is told that it failed.

  A step of the system is what happens under one hold of the lock.
-/
import Talus.Base.Backlog
import Talus.Usage.Store

namespace Talus.Usage

open Talus.Base

/-! ## §1. Events. -/

/-- `unicode.IsControl`. -/
def isControl (c : Char) : Bool :=
  c.toNat < 0x20 || (0x7f ≤ c.toNat && c.toNat < 0xa0)

/-- The longest beginning of at most `max` bytes. -/
def takeBytes : Nat → List Char → List Char
  | _, [] => []
  | max, c :: cs => if c.utf8Size ≤ max then c :: takeBytes (max - c.utf8Size) cs else []

def boundedText (s : List Char) (max : Nat) : List Char :=
  takeBytes max (s.filter fun c => !isControl c)

structure AuditEvent where
  operationID : Option OperationID
  userID : Nat
  username : List Char
  action : List Char
  resourceType : List Char
  resourceID : Nat
  ipAddress : List Char
  details : List Char
  deriving DecidableEq

/-- The copy that `WriteAudit` makes, with the operation it is kept under;
`fresh` is the id of an event that has none. -/
def AuditEvent.safe (event : AuditEvent) (fresh : OperationID) : AuditEvent where
  operationID := some (event.operationID.getD fresh)
  userID := event.userID
  username := boundedText event.username 256
  action := boundedText event.action 96
  resourceType := boundedText event.resourceType 64
  resourceID := event.resourceID
  ipAddress := boundedText event.ipAddress 64
  details := []

/-! ## §2. The backlog. -/

structure PendingAudit where
  operationID : OperationID
  event : AuditEvent
  born : Time
  next : Time
  bytes : Nat
  attempts : Nat
  inFlight : Bool

/-- The limits of `Options` for audit events. -/
structure AuditOptions where
  limits : Limits
  retryLifetime : Duration

def auditGauge : Gauge PendingAudit OperationID where
  key := PendingAudit.operationID
  size := PendingAudit.bytes

/-- `auditPending`, `auditBytes` and `stats.AuditLost`; the other counter; and
the operations with an event in the table. -/
structure AuditState where
  queue : Backlog PendingAudit
  writeFailed : Nat
  stored : List OperationID

namespace AuditState

def countFailed (s : AuditState) : AuditState := { s with writeFailed := s.writeFailed + 1 }

def find (s : AuditState) (o : OperationID) : Option PendingAudit :=
  s.queue.entries.find? fun p => p.operationID = o

end AuditState

inductive AuditLabel
  /-- a write reaches the table -/
  | store (o : OperationID)
  /-- `WriteAudit` once its write has returned, with success or not -/
  | write (event : AuditEvent) (fresh : OperationID) (ok : Bool) (now : Time) (delay : Duration)
  | expire (o : OperationID) (now : Time)
  | pick (o : OperationID) (now : Time)
  | reply (o : OperationID) (ok : Bool) (now : Time) (delay : Duration)

/-- The retrier of an entry acts. -/
def AuditLabel.retrier : AuditLabel → Option OperationID
  | .reply o _ _ _ => some o
  | _ => none

/-- `WriteAudit` after a failed write. -/
def AuditState.enqueue (size : AuditEvent → Nat) (opts : AuditOptions) (s : AuditState)
    (o : OperationID) (safe : AuditEvent) (now : Time) (delay : Duration) : AuditState :=
  if (s.find o).isSome then s.countFailed
  else
    { s.countFailed with
      queue := s.queue.offer auditGauge opts.limits
        { operationID := o, event := safe, born := now, next := now + delay, bytes := size safe
          attempts := 0, inFlight := false } }

/-- `size` is the length of an encoded event; `available` says that there is an
audit store. -/
def auditStep (size : AuditEvent → Nat) (available : Bool) (opts : AuditOptions) (s : AuditState) :
    AuditLabel → Option AuditState
  | .store o => some { s with stored := o :: s.stored }
  | .write event fresh ok now delay =>
    let o := event.operationID.getD fresh
    if available = false then some { s.countFailed with queue := s.queue.countLost }
    else if ok then if o ∈ s.stored then some s else none
    else some (s.enqueue size opts o (event.safe fresh) now delay)
  | .expire o now => (s.find o).bind fun p =>
    if p.inFlight = false ∧ opts.retryLifetime ≤ now - p.born then
      some { s with queue := (s.queue.drop auditGauge p).countLost }
    else none
  | .pick o now => (s.find o).bind fun p =>
    if p.inFlight = false ∧ now - p.born < opts.retryLifetime ∧ p.next ≤ now then
      some { s with queue := s.queue.put auditGauge { p with inFlight := true } }
    else none
  | .reply o ok now delay => (s.find o).bind fun p =>
    if p.inFlight = false then none
    else if ok then
      if o ∈ s.stored then some { s with queue := s.queue.drop auditGauge p } else none
    else
      some { s.countFailed with
        queue := s.queue.put auditGauge
          { p with attempts := p.attempts + 1, next := now + delay, inFlight := false } }

def auditSystem (size : AuditEvent → Nat) (available : Bool) (opts : AuditOptions) :
    System AuditState AuditLabel where
  init s := s.queue.entries = [] ∧ s.queue.bytes = 0
  step := auditStep size available opts

end Talus.Usage
