/-
  Talus.Usage.Store
  **THE USAGE-LOG TABLE AND ITS TRANSACTIONS** (`UsageLogRepo`).

  Two writers share a row of `usage_logs`: the snapshots of an operation,
  merged by `Upsert` under their `state_seq`, and the reconcile passes, which
  mark rows whose owner is gone or has lost track of them.  Every transaction
  locks the rows it reads, so each is one atomic step here; the database clock
  is an argument of the step.

    • `prepare`/`merge`/`upsert`: `Upsert`, up to and inside its transaction,
    • `reconcileOwner`: the transaction `ReconcileTracked` runs per owner,
    • `registerInstance`/`heartbeat`: the owner's lease.

  The unique index on `operation_id` is the type of `Store.logs`.  Instants
  are nanoseconds since the zero instant of `time.Time`.
-/
import Talus.Base.Run

namespace Talus.Usage

open Talus.Base

/-! ## §1. Rows. -/

abbrev OperationID := String
abbrev InstanceID := String
abbrev Time := Int
abbrev Duration := Int

inductive Outcome
  | running
  | succeeded
  | failed
  | rejected
  | cancelled
  | unknown
  deriving Repr, DecidableEq

/-- `recovery_reason`; `empty` is the column's `""`. -/
inductive RecoveryReason
  | empty
  | ownerLeaseExpired
  | finalizationUnavailable
  | ownerMissing
  deriving Repr, DecidableEq

/-- `auth_type`; `unset` is `""`, which `Upsert` replaces. -/
inductive AuthType
  | unset
  | unauthenticated
  | jwt
  | apiKey
  | legacyUnknown
  deriving Repr, DecidableEq

/-- `source`; `unset` is `""`, which `Upsert` replaces. -/
inductive Source
  | unset
  | operation
  | auditLegacy
  deriving Repr, DecidableEq

inductive Phase
  | preparing
  | handshake
  | authenticated
  | ready
  | closed
  deriving Repr, DecidableEq

/-- `model.UsageLog`, column by column. -/
structure UsageLog where
  id : Nat
  operationID : OperationID
  legacyAuditEventID : Option Nat
  startedAt : Time
  finishedAt : Option Time
  durationMS : Option Int
  recordedAt : Time
  reconciledAt : Option Time
  retentionAt : Option Time
  outcome : Outcome
  phase : Phase
  stateSeq : Nat
  recoveryReason : RecoveryReason
  action : String
  resourceType : String
  resourceID : Option Nat
  resourceNameSnapshot : String
  serverID : Option Nat
  authType : AuthType
  userID : Option Nat
  usernameSnapshot : String
  apiKeyID : Option Nat
  apiKeyNameSnapshot : String
  apiKeyPrefixSnapshot : String
  requestID : String
  method : String
  routePattern : String
  httpStatus : Option Int
  clientAddress : String
  source : Source
  exitCode : Option Int
  upstreamStatus : Option Int
  errorReason : String
  metadata : String
  ownerInstanceID : Option InstanceID
  deriving Repr

/-- `model.UsageLogInstance`. -/
structure Instance where
  lastSeenAt : Time
  leaseUntil : Time
  retiredAt : Option Time
  deriving Repr, DecidableEq

/-- The two tables.  `order` lists the operations of `usage_logs` in the order
of their `id`, which the sequence `nextID` assigns. -/
structure Store where
  logs : OperationID → Option UsageLog
  order : List OperationID
  instances : InstanceID → Option Instance
  nextID : Nat

/-- The sentinel errors `Upsert` and the owner calls return. -/
inductive UsageError
  | invalid
  | ownerMissing
  | ownerRetired
  | leaseExpired
  deriving Repr, DecidableEq

/-! ## §2. Policy. -/

def microsecond : Duration := 1000
def second : Duration := 1000000000
def minute : Duration := 60 * second
def day : Duration := 24 * 60 * minute

def defaultLeaseDuration : Duration := minute
def defaultOrdinaryRetention : Duration := 30 * day
def defaultSensitiveRetention : Duration := 90 * day

/-- What the repository is configured with, and what its database does.
`jsonValid` is `json.Valid`; `timestamptz` and `jsonb` are what the columns of
these types keep of an instant (its microseconds) and of a JSON text (its
value). -/
structure Config where
  leaseDuration : Duration
  ordinaryRetention : Duration
  sensitiveRetention : Duration
  reconcileGrace : Duration
  batchSize : Nat
  jsonValid : String → Bool
  timestamptz : Time → Time
  jsonb : String → String

def usageSensitiveActions : List String :=
  ["settings.update", "credential.reveal", "api_key.rotate",
    "api_key.permissions.update", "api_key.reveal", "service.credentials",
    "server.host_key.trust"]

def usageActionSensitive (action : String) : Bool :=
  ".delete".toList.isSuffixOf action.toList || usageSensitiveActions.contains action

/-- A nonpositive duration selects the default. -/
def orDefault (d fallback : Duration) : Duration := if d ≤ 0 then fallback else d

/-- `UsagePolicy.Retention`. -/
def Config.retention (cfg : Config) (action : String) : Duration :=
  let ordinary := orDefault cfg.ordinaryRetention defaultOrdinaryRetention
  let sensitive := orDefault cfg.sensitiveRetention defaultSensitiveRetention
  if action = "settings.update" then max sensitive defaultSensitiveRetention
  else if usageActionSensitive action then sensitive
  else ordinary

/-! ## §3. Owners. -/

/-- `lockOwner`: the owner's row, refused when retired and, if `valid`, when
its lease has run out. -/
def Store.lockOwner (s : Store) (now : Time) (id : InstanceID) (valid : Bool) :
    Except UsageError Instance :=
  match s.instances id with
  | none => .error .ownerMissing
  | some owner =>
    if owner.retiredAt.isSome then .error .ownerRetired
    else if valid && decide (owner.leaseUntil ≤ now) then .error .leaseExpired
    else .ok owner

def Store.setInstance (s : Store) (id : InstanceID) (owner : Instance) : Store :=
  { s with instances := fun i => if i = id then some owner else s.instances i }

/-- `EXISTS (SELECT 1 FROM usage_logs WHERE owner_instance_id = ?)`. -/
def Store.referenced (s : Store) (id : InstanceID) : Bool :=
  s.order.any fun o => (s.logs o).any fun r => decide (r.ownerInstanceID = some id)

/-- `RegisterInstance`: a new owner, unless rows already name it. -/
def Store.registerInstance (cfg : Config) (s : Store) (now : Time)
    (id : InstanceID) : Except UsageError Store :=
  match s.instances id with
  | none =>
    if s.referenced id then .error .ownerMissing
    else .ok (s.setInstance id
      { lastSeenAt := now, leaseUntil := now + cfg.leaseDuration, retiredAt := none })
  | some _ => (s.lockOwner now id true).map fun _ => s

/-- `Heartbeat`: extends the lease of an owner that is not retired. -/
def Store.heartbeat (cfg : Config) (s : Store) (now : Time) (id : InstanceID) :
    Except UsageError Store :=
  (s.lockOwner now id false).map fun owner =>
    s.setInstance id
      { owner with lastSeenAt := now, leaseUntil := now + cfg.leaseDuration }

/-! ## §4. `Upsert`. -/

/-- The row says only that recovery gave up on it, for a reason that a later
snapshot of the operation may still overrule. -/
def UsageLog.recoveryUnknown (v : UsageLog) : Bool :=
  decide (v.outcome = .unknown) &&
    (decide (v.recoveryReason = .ownerLeaseExpired) ||
      decide (v.recoveryReason = .finalizationUnavailable))

/-- `t.Truncate(time.Microsecond)`. -/
def truncateMicros (t : Time) : Time := t - t % microsecond

/-- The defaults `Upsert` fills in on its copy of the input. -/
def UsageLog.defaulted (v : UsageLog) : UsageLog :=
  { v with
    startedAt := truncateMicros v.startedAt
    source := if v.source = .unset then .operation else v.source
    authType := if v.authType = .unset then .unauthenticated else v.authType
    metadata := if v.metadata = "" then "\x7b\x7d" else v.metadata }

/-- The closing instants `Upsert` derives: none of a running row, and the
instant retention counts from for a closed one. -/
def UsageLog.settleTimes (v : UsageLog) : Except UsageError UsageLog :=
  if v.outcome = .running then
    .ok { v with
      finishedAt := none, durationMS := none, retentionAt := none,
      reconciledAt := none, recoveryReason := .empty }
  else if v.finishedAt.isSome then .ok { v with retentionAt := v.finishedAt }
  else if v.source = .auditLegacy then .ok { v with retentionAt := some v.startedAt }
  else if v.reconciledAt.isSome then .ok { v with retentionAt := v.reconciledAt }
  else .error .invalid

/-- `Upsert` up to its transaction. -/
def prepare (cfg : Config) (input : UsageLog) : Except UsageError UsageLog :=
  if input.operationID = "" ∨ input.startedAt = 0 ∨ input.action = "" then .error .invalid
  else if input.outcome = .running ∧ input.ownerInstanceID = none then .error .ownerMissing
  else if 4096 < input.defaulted.metadata.utf8ByteSize
      ∨ cfg.jsonValid input.defaulted.metadata = false then .error .invalid
  else input.defaulted.settleTimes

/-- What the columns keep of a row.  `started_at` has whole microseconds
already. -/
def UsageLog.columns (cfg : Config) (v : UsageLog) : UsageLog :=
  { v with
    finishedAt := v.finishedAt.map cfg.timestamptz
    reconciledAt := v.reconciledAt.map cfg.timestamptz
    retentionAt := v.retentionAt.map cfg.timestamptz
    metadata := cfg.jsonb v.metadata }

/-- The columns of `values`, in its order; the others keep what the insert
stored. -/
def UsageLog.overwrite (old v : UsageLog) : UsageLog :=
  { old with
    finishedAt := v.finishedAt, durationMS := v.durationMS
    reconciledAt := v.reconciledAt, retentionAt := v.retentionAt
    outcome := v.outcome, phase := v.phase, stateSeq := v.stateSeq
    recoveryReason := v.recoveryReason
    resourceType := v.resourceType, resourceID := v.resourceID
    resourceNameSnapshot := v.resourceNameSnapshot, serverID := v.serverID
    userID := v.userID, usernameSnapshot := v.usernameSnapshot
    apiKeyID := v.apiKeyID, apiKeyNameSnapshot := v.apiKeyNameSnapshot
    apiKeyPrefixSnapshot := v.apiKeyPrefixSnapshot
    requestID := v.requestID, method := v.method, routePattern := v.routePattern
    httpStatus := v.httpStatus, clientAddress := v.clientAddress
    exitCode := v.exitCode, upstreamStatus := v.upstreamStatus
    errorReason := v.errorReason, metadata := v.metadata
    legacyAuditEventID := v.legacyAuditEventID }

/-- The columns an update must not change. -/
def UsageLog.sameIdentity (old v : UsageLog) : Bool :=
  decide (old.startedAt = v.startedAt) && decide (old.authType = v.authType) &&
    decide (old.source = v.source) && decide (old.ownerInstanceID = v.ownerInstanceID)

/-- The precedence of a snapshot over the stored row. -/
def UsageLog.supersededBy (old v : UsageLog) : Bool :=
  if old.outcome ≠ .running ∧ old.recoveryUnknown = false then false
  else if v.stateSeq ≤ old.stateSeq then false
  else if old.recoveryUnknown = true ∧ v.outcome = .running
      ∧ old.recoveryReason ≠ .ownerLeaseExpired then false
  else true

/-- A closed row whose retention has run out before it was ever stored. -/
def UsageLog.lapsed (cfg : Config) (now : Time) (v : UsageLog) : Bool :=
  match v.retentionAt with
  | none => false
  | some t => decide (t + cfg.retention v.action ≤ now)

def Store.setLog (s : Store) (o : OperationID) (r : UsageLog) : Store :=
  { s with logs := fun i => if i = o then some r else s.logs i }

/-- The insert: the table assigns `id` and `recorded_at`. -/
def Store.insertLog (s : Store) (now : Time) (v : UsageLog) : Store :=
  { s.setLog v.operationID { v with id := s.nextID, recordedAt := now } with
    order := s.order ++ [v.operationID]
    nextID := s.nextID + 1 }

/-- The transaction of `Upsert` once the owner is locked.  The second
component tells whether the row was written. -/
def merge (cfg : Config) (s : Store) (now : Time) (v : UsageLog) :
    Except UsageError (Store × Bool) :=
  match s.logs v.operationID with
  | none => if v.lapsed cfg now then .ok (s, false) else .ok (s.insertLog now (v.columns cfg), true)
  | some old =>
    if old.sameIdentity v = false then .error .invalid
    else if old.supersededBy v then
      .ok (s.setLog v.operationID (old.overwrite (v.columns cfg)), true)
    else .ok (s, false)

/-- `Upsert`. -/
def upsert (cfg : Config) (s : Store) (now : Time) (input : UsageLog) :
    Except UsageError (Store × Bool) :=
  match prepare cfg input with
  | .error e => .error e
  | .ok v =>
    match v.ownerInstanceID with
    | none => merge cfg s now v
    | some owner =>
      match s.lockOwner now owner true with
      | .error e => .error e
      | .ok _ => merge cfg s now v

/-! ## §5. `ReconcileTracked`, one owner. -/

/-- The owner has no row, is retired, or let its lease run out. -/
def Store.stale (s : Store) (now : Time) (id : InstanceID) : Bool :=
  match s.instances id with
  | none => true
  | some owner => owner.retiredAt.isSome || decide (owner.leaseUntil ≤ now)

/-- The reason the pass gives. -/
def Store.recoveryReason (s : Store) (now : Time) (id : InstanceID) : RecoveryReason :=
  match s.instances id with
  | none => .ownerMissing
  | some _ => if s.stale now id then .ownerLeaseExpired else .finalizationUnavailable

/-- The `WHERE` clause of the pass: every running row of a stale owner, and
of the live owner's own rows those past the grace period it does not track. -/
def selects (cfg : Config) (stale : Bool) (id : InstanceID) (now : Time)
    (tracked : List OperationID) (r : UsageLog) : Bool :=
  decide (r.ownerInstanceID = some id) &&
    if stale then decide (r.outcome = .running)
    else (decide (r.outcome = .running) ||
        (decide (r.outcome = .unknown) && decide (r.recoveryReason = .ownerLeaseExpired))) &&
      decide (r.recordedAt ≤ now - cfg.reconcileGrace) &&
      !tracked.contains r.operationID

/-- What the pass writes: the first reconcile instant is kept. -/
def UsageLog.mark (reason : RecoveryReason) (now : Time) (r : UsageLog) : UsageLog :=
  { r with
    outcome := .unknown
    recoveryReason := reason
    reconciledAt := if r.reconciledAt.isNone then some now else r.reconciledAt
    retentionAt := if r.reconciledAt.isNone then some now else r.retentionAt }

/-- `FOR UPDATE SKIP LOCKED … ORDER BY id LIMIT remaining`. -/
def Store.records (s : Store) (P : UsageLog → Bool) (locked : List OperationID)
    (remaining : Nat) : List OperationID :=
  (s.order.filter fun o => !locked.contains o && (s.logs o).any P).take remaining

/-- The loop over `records`: each is checked once more and marked.  The
records are distinct locked rows, so the iterations do not meet. -/
def Store.markRecords (cfg : Config) (s : Store) (stale : Bool) (now : Time)
    (tracked : List OperationID) (reason : RecoveryReason)
    (records : List OperationID) : Store :=
  { s with logs := fun o =>
      (s.logs o).map fun r =>
        if records.contains o = false then r
        else if stale = false ∧ (tracked.contains r.operationID = true
            ∨ now < r.recordedAt + cfg.reconcileGrace) then r
        else if r.outcome = .running ∨ r.outcome = .unknown then r.mark reason now
        else r }

/-- The transaction of `ReconcileTracked` for one owner, run by the instance
`self`.  `locked` are the rows other transactions hold. -/
def reconcileOwner (cfg : Config) (s : Store) (self id : InstanceID) (now : Time)
    (tracked locked : List OperationID) (remaining : Nat) : Store :=
  let stale := s.stale now id
  -- a live owner tracks its own rows: only its own pass may touch them
  if stale = false ∧ id ≠ self then s
  else
    s.markRecords cfg stale now tracked (s.recoveryReason now id)
      (s.records (selects cfg stale id now tracked) locked remaining)

/-! ## §6. The table as a transition system. -/

/-- A committed transaction on the two tables.  A pass that finds the owner
locked by another transaction commits nothing and is not a label. -/
inductive Txn
  | upsert (now : Time) (v : UsageLog)
  | reconcile (self id : InstanceID) (now : Time) (tracked locked : List OperationID)
      (remaining : Nat)
  | register (now : Time) (id : InstanceID)
  | heartbeat (now : Time) (id : InstanceID)

/-- A transaction that fails is rolled back. -/
def orElse {ε α : Type} (s : α) : Except ε α → α
  | .error _ => s
  | .ok t => t

def storeStep (cfg : Config) (s : Store) : Txn → Store
  | .upsert now v => orElse s ((upsert cfg s now v).map Prod.fst)
  | .reconcile self id now tracked locked remaining =>
    reconcileOwner cfg s self id now tracked locked remaining
  | .register now id => orElse s (s.registerInstance cfg now id)
  | .heartbeat now id => orElse s (s.heartbeat cfg now id)

/-- The tables under any sequence of transactions, from any content. -/
def storeSystem (cfg : Config) : System Store Txn where
  init _ := True
  step s t := some (storeStep cfg s t)

end Talus.Usage
