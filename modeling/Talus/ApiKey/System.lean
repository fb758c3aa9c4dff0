/-
  Talus.ApiKey.System
  **KEYS, THEIR TRANSACTIONS AND THEIR VALIDATIONS, UNDER EVERY INTERLEAVING.**

  The database commits one transaction at a time; `World.states` lists the
  states it has been in.  Against it run, interleaved at every statement:

    • `UpdatePermissions`, `Rotate` and `Delete`, each a transaction that locks
      the row and may fail at any statement, or lose the acknowledgement of its
      COMMIT; those of this process run inside the gate of
      `Talus.Admission.Gate`, those of other processes do not,
    • `Validate`, which looks the key up by hash, enters the gate, and may read
      the row again there,
    • what else writes the table: creation, the owner backfill, the migration
      of secrets; and changes of the servers table.

  Postgres is taken at its word: a statement reads committed rows, a row lock
  has one holder, and ids come from a sequence.  The unique index on
  `key_hash` is left out, so the model has runs that the index forbids.
-/
import Talus.Admission.Terminal
import Talus.ApiKey.Permissions

namespace Talus.ApiKey

open Talus.Base
open Talus.Admission (Gate Call CallOp Phase Kind Source Fate gateStep newGate)

/-! ## §1. The database. -/

structure Db where
  /-- the rows of `api_keys` by id; `none` for an id not or no longer in use -/
  keys : List (Option APIKey)
  /-- the ids in the servers table -/
  servers : List ServerID
  audit : List AuditEvent
  deriving DecidableEq

/-- What a transaction has staged when it commits. -/
inductive Write
  /-- an UPDATE of the row, the audit event, and the key to return -/
  | update (columns : Columns) (event : AuditEvent) (key : APIKey)
  | delete
  deriving DecidableEq

namespace Db

/-- `FindByID`. -/
def find (d : Db) (id : KeyID) : Option APIKey := d.keys[id]?.join

/-- `FindByHash`. -/
def findByHash (d : Db) (hash : Bytes) : Option (KeyID × APIKey) :=
  (d.keys.findIdx? fun r => r.any fun k => k.keyHash == hash).bind fun id =>
    (d.find id).map fun k => (id, k)

/-- `permissionsRevision`: a missing key has revision zero. -/
def revision (d : Db) (id : KeyID) : Int :=
  ((d.find id).map (·.permissionsRevision)).getD 0

/-- The database after a COMMIT. -/
def land (d : Db) (id : KeyID) : Write → Db
  | .update columns event _ =>
    { d with keys := d.keys.set id ((d.find id).map columns.apply)
             audit := d.audit ++ [event] }
  | .delete => { d with keys := d.keys.set id none }

/-- A legacy key without an owner. -/
def unowned (k : APIKey) : Bool := k.ownerBindingVersion == 0 && k.userID == 0

/-- `BindUnownedToDefaultAdmin`: at most a hundred keys, skipping locked rows. -/
def bindUnowned (d : Db) (locked : KeyID → Bool) (admin : Nat) : Db :=
  let batch := ((List.range d.keys.length).filter fun id =>
    (d.find id).any unowned && !locked id).take 100
  { d with keys := d.keys.mapIdx fun id r =>
      if id ∈ batch then r.map fun k => { k with userID := admin, ownerBindingVersion := 1 }
      else r }

/-- `migrateSecretRow`: a new ciphertext of the same raw key. -/
def migrateSecret (d : Db) (id : KeyID) (salt encryptedRawKey : Bytes) : Db :=
  { d with keys := d.keys.set id ((d.find id).map fun k =>
      { k with salt := salt, encryptedRawKey := encryptedRawKey, cryptoVersion := 2 }) }

end Db

/-! ## §2. Transactions of one key. -/

inductive Mutation
  | edit (input : UpdateAPIKeyPermissionsInput)
  | rotate (expectedRevision : Int) (material : Credential)
  | delete
  deriving DecidableEq

/-- The revision the caller expects. -/
def Mutation.expected? : Mutation → Option Int
  | .edit input => some input.expectedRevision
  | .rotate expectedRevision _ => some expectedRevision
  | .delete => none

/-- The error returned before the gate is entered, if any. -/
def Mutation.check (p : Principal) : Mutation → Option AppError
  | .edit input => checkEdit p input
  | .rotate expectedRevision _ => checkRotation p expectedRevision
  | .delete => if requireAPIKeyAdmin p then none else some .forbidden

/-- The statement that comes next. -/
inductive Stage
  | update
  | audit
  | commit
  deriving DecidableEq

/-- What the repository returns. -/
inductive Result
  | failed (e : RepoError)
  /-- there was nothing to change -/
  | unchanged (key : APIKey)
  /-- committed; a deletion returns no key -/
  | changed (key : Option APIKey)
  /-- `ErrAPIKeyCommitUnknown` -/
  | unknown
  deriving DecidableEq

inductive TxPhase
  /-- the row is not locked yet -/
  | queued
  /-- `SELECT … FOR UPDATE` has returned this row -/
  | locked (row : APIKey)
  | writing (stage : Stage) (w : Write)
  /-- the repository has returned `ErrAPIKeyCommitUnknown`, and the database
  has not ended the transaction -/
  | inDoubt (w : Write)
  | ended (r : Result)
  deriving DecidableEq

structure Tx where
  /-- the call of this process's gate it runs in -/
  call : Option Nat
  id : KeyID
  principal : Principal
  operationID : Bytes
  mutation : Mutation
  phase : TxPhase
  deriving DecidableEq

namespace Tx

/-- The transaction holds the lock of row `id`. -/
def holds (id : KeyID) (tx : Tx) : Bool :=
  tx.id == id &&
    match tx.phase with
    | .locked _ | .writing _ _ | .inDoubt _ => true
    | .queued | .ended _ => false

/-- What the service returns to the handler. -/
def reply (tx : Tx) : Option (Except AppError (Option APIKey)) :=
  match tx.phase with
  | .ended (.failed e) => some (.error (apiKeyPolicyError e))
  | .ended (.unchanged key) => some (.ok (some key))
  | .ended (.changed key) => some (.ok key)
  | .ended .unknown | .inDoubt _ => some (.error (apiKeyPolicyError .commitUnknown))
  | _ => none

/-- The `uncertain` result of the callback, once it has one. -/
def uncertain? (tx : Tx) : Option Bool :=
  match tx.phase with
  | .ended .unknown | .inDoubt _ => some true
  | .ended _ => some false
  | _ => none

/-- The callback on the locked row: what is staged, or how it ends. -/
def decide (tx : Tx) (servers : List ServerID) (now : Int) (row : APIKey) : Option TxPhase :=
  match tx.mutation with
  | .edit input =>
    match changePermissions servers tx.principal tx.operationID tx.id input row with
    | .error e => some (.ended (.failed (.app e)))
    | .ok none => some (.ended (.unchanged row))
    | .ok (some (key, event)) =>
      let key := { key with permissionsRevision := key.permissionsRevision + 1 }
      some (.writing .update (.update (editColumns row key now) event
        { key with permissionsUpdatedAt := some now }))
  | .rotate expectedRevision material =>
    match auditRotation tx.principal tx.operationID tx.id expectedRevision row with
    | .error e => some (.ended (.failed (.app e)))
    | .ok event =>
      let columns := rotationColumns
        { row with permissionsRevision := row.permissionsRevision + 1 } material
      some (.writing .update (.update columns event (columns.apply row)))
  | .delete => none

end Tx

/-- How COMMIT ends, when it is not a known rollback. -/
inductive CommitOutcome
  | committed
  | unknown (fate : Fate)
  deriving DecidableEq

def Write.returned : Write → Option APIKey
  | .update _ _ key => some key
  | .delete => none

def CommitOutcome.phase (w : Write) : CommitOutcome → TxPhase
  | .committed => .ended (.changed w.returned)
  | .unknown .inFlight => .inDoubt w
  | .unknown _ => .ended .unknown

/-- The write is in the database when the repository returns. -/
def CommitOutcome.lands : CommitOutcome → Bool
  | .committed | .unknown .landed => true
  | .unknown _ => false

inductive TxOp
  /-- `SELECT … FOR UPDATE`; for a deletion, the DELETE itself -/
  | lock
  /-- the callback runs, at this time of the clock -/
  | decide (now : Int)
  /-- the UPDATE, or the insertion of the audit event, succeeds -/
  | write
  /-- an error of the context or of a statement, a known rollback included -/
  | fail
  | commit (out : CommitOutcome)
  /-- the database ends a transaction of unknown outcome -/
  | resolve (landed : Bool)
  deriving DecidableEq

def TxOp.resolves : TxOp → Bool
  | .resolve _ => true
  | _ => false

/-- One step of a transaction: its new phase, and the write that lands.
`locked`: some transaction holds the lock of its row. -/
def txStep (d : Db) (locked : Bool) (tx : Tx) : TxOp → Option (TxPhase × Option Write)
  | .lock =>
    if tx.phase = .queued ∧ locked = false then
      if tx.mutation = .delete then some (.writing .commit .delete, none)
      else
        match d.find tx.id with
        | none => some (.ended (.failed .notFound), none)
        | some row => some (.locked row, none)
    else none
  | .decide now =>
    match tx.phase with
    | .locked row => (tx.decide d.servers now row).map fun ph => (ph, none)
    | _ => none
  | .write =>
    match tx.phase with
    | .writing .update w => some (.writing .audit w, none)
    | .writing .audit w => some (.writing .commit w, none)
    | _ => none
  | .fail =>
    match tx.phase with
    | .queued | .locked _ => some (.ended (.failed .other), none)
    | .writing stage _ =>
      some (.ended (.failed (if stage = .audit then .auditStorage else .other)), none)
    | _ => none
  | .commit out =>
    match tx.phase with
    | .writing .commit w => some (out.phase w, if out.lands then some w else none)
    | _ => none
  | .resolve landed =>
    match tx.phase with
    | .inDoubt w => some (.ended .unknown, if landed then some w else none)
    | _ => none

/-! ## §3. Validations. -/

inductive ValidateError
  /-- `gorm.ErrRecordNotFound` -/
  | notFound
  /-- `gate.ErrUnavailable` -/
  | unavailable
  deriving DecidableEq

/-- A call of `Validate` that has found a key.  The two times are positions in
`World.states`. -/
structure Validation where
  secret : Bytes
  id : KeyID
  /-- the variable `key` -/
  key : APIKey
  /-- `key` was read again inside the gate -/
  reloaded : Bool
  /-- ghost: when the gate section began -/
  opened : Option Nat
  /-- what it returned, and (ghost) when the gate section ended -/
  result : Option (Except ValidateError APIKey × Nat)
  deriving DecidableEq

/-- What a call of the gate is for. -/
inductive Role
  | validation (v : Validation)
  /-- the transaction with this number -/
  | mutation (t : Nat)
  deriving DecidableEq

/-! ## §4. The system. -/

/-- Who committed a transaction. -/
inductive Author
  | tx (t : Nat)
  | creation
  | ownerBackfill
  | secretMigration
  | servers
  deriving DecidableEq

/-- A committed transaction, with the state it found. -/
structure Commit where
  before : Db
  author : Author
  deriving DecidableEq

structure World where
  gate : Gate
  /-- one role per call of the gate -/
  roles : List Role
  txs : List Tx
  db : Db
  /-- ghost: the committed transactions, in order -/
  log : List Commit

namespace World

/-- The states the database has been in, the current one last. -/
def states (w : World) : List Db := w.log.map (·.before) ++ [w.db]

def rowLocked (w : World) (id : KeyID) : Bool := w.txs.any (Tx.holds id)

/-- A transaction commits and leaves `d`. -/
def commit (w : World) (author : Author) (d : Db) : World :=
  { w with db := d, log := w.log ++ [{ before := w.db, author := author }] }

/-- The transaction's process is in the callback of its gate. -/
def mayRun (w : World) (tx : Tx) : Bool :=
  match tx.call with
  | none => true
  | some k => (w.gate.calls[k]?).any fun c =>
    match c.phase with
    | .running _ _ => true
    | _ => false

/-- Write a step of transaction `t` (now `tx`) back. -/
def applyTx (w : World) (t : Nat) (tx : Tx) (r : TxPhase × Option Write) : World :=
  let w' := { w with txs := w.txs.set t { tx with phase := r.1 } }
  match r.2 with
  | none => w'
  | some wr => w'.commit (.tx t) (w.db.land tx.id wr)

/-- A version source answers with what the database holds; the locking one
waits for the row lock. -/
def answers (w : World) (id : KeyID) (src : Source) (version : Int) : Bool :=
  (src == .ordinary || !w.rowLocked id) && version == w.db.revision id

/-- The steps of `withUser` outside the callback. -/
def enabled (w : World) (c : Call) : CallOp → Bool
  | .readOk version =>
    match c.phase with
    | .reading src => w.answers c.user src version
    | _ => false
  | .finish _ => false
  | _ => true

/-- A call that ends outside its callback ends its transaction too. -/
def refuse (w : World) : Role → List Tx
  | .validation _ => w.txs
  | .mutation t =>
    w.txs.modify t fun tx =>
      if tx.phase = .queued then { tx with phase := .ended (.failed .other) } else tx

end World

/-- What a step of `withUser` does to the validation it belongs to. -/
def Validation.gateStep (v : Validation) (now : Nat) (op : CallOp) : Validation :=
  if op = .lock then { v with opened := some now }
  else if op.fails then { v with result := some (.error .unavailable, now) }
  else v

def Role.gateStep (now : Nat) (op : CallOp) : Role → Role
  | .validation v => .validation (v.gateStep now op)
  | .mutation t => .mutation t

inductive Op
  /-- a mutation arrives, `here` or at another process -/
  | request (here : Bool) (id : KeyID) (p : Principal) (operationID : Bytes) (m : Mutation)
  /-- `Validate` looks the secret up and enters the gate -/
  | validate (secret : Bytes)
  | gate (k : Nat) (op : CallOp)
  /-- `FindByID` inside the callback of `Validate` -/
  | reload (k : Nat) (answered : Bool)
  /-- the callback of `Validate` ends -/
  | answer (k : Nat)
  | tx (t : Nat) (op : TxOp)
  /-- the callback of a mutation ends -/
  | settle (k : Nat)
  | create (key : APIKey)
  | ownerBackfill (admin : Nat)
  | secretMigration (id : KeyID) (salt encryptedRawKey : Bytes)
  | setServers (servers : List ServerID)
  deriving DecidableEq

/-- The validation whose callback call `k` is in, with the revision it was
given. -/
def World.validating (w : World) (k : Nat) : Option (Int × Validation) :=
  match w.gate.calls[k]?, w.roles[k]? with
  | some c, some (.validation v) =>
    match c.phase with
    | .running _ version => some (version, v)
    | _ => none
  | _, _ => none

/-- The callback of validation `k` returns, and the gate section ends. -/
def World.close (w : World) (k : Nat) (v : Validation) (r : Except ValidateError APIKey) :
    Option World :=
  (gateStep w.gate (.call k (.finish false))).map fun g =>
    { w with gate := g
             roles := w.roles.set k (.validation { v with result := some (r, w.log.length) }) }

section Step

variable (hash : Bytes → Bytes)

/-- What the callback of `Validate` returns with this revision; `none` when it
has to read the key first. -/
def Validation.verdict (v : Validation) (revision : Int) :
    Option (Except ValidateError APIKey) :=
  if revision = 0 then some (.error .notFound)
  else if revision ≠ v.key.permissionsRevision ∧ v.reloaded = false then none
  -- rotation may finish between the lookup by hash and the admission
  else if v.key.keyHash ≠ hash v.secret then some (.error .notFound)
  else some (.ok v.key)

def keyStep (w : World) : Op → Option World
  | .request here id p operationID m =>
    let tx : Tx := ⟨none, id, p, operationID, m, .queued⟩
    match m.check p with
    | some e => some { w with txs := w.txs ++ [{ tx with phase := .ended (.failed (.app e)) }] }
    | none =>
      if here then
        (gateStep w.gate (.start id .update)).map fun g =>
          { w with gate := g
                   roles := w.roles ++ [.mutation w.txs.length]
                   txs := w.txs ++ [{ tx with call := some w.gate.calls.length }] }
      else some { w with txs := w.txs ++ [tx] }
  | .validate secret =>
    (w.db.findByHash (hash secret)).bind fun found =>
      (gateStep w.gate (.start found.1 .admission)).map fun g =>
        { w with gate := g
                 roles := w.roles ++ [.validation
                   ⟨secret, found.1, found.2, false, none, none⟩] }
  | .gate k op =>
    (w.gate.calls[k]?).bind fun c => (w.roles[k]?).bind fun role =>
      if w.enabled c op then
        (gateStep w.gate (.call k op)).map fun g =>
          { w with gate := g
                   roles := w.roles.set k (role.gateStep w.log.length op)
                   txs := if op.fails then w.refuse role else w.txs }
      else none
  | .reload k answered =>
    (w.validating k).bind fun vv =>
      if (vv.2.verdict hash vv.1).isNone then
        if answered then
          match w.db.find vv.2.id with
          | some row =>
            let v : Validation := { vv.2 with key := row, reloaded := true }
            some { w with roles := w.roles.set k (.validation v) }
          | none => w.close k vv.2 (.error .notFound)
        else w.close k vv.2 (.error .unavailable)
      else none
  | .answer k =>
    (w.validating k).bind fun vv =>
      (vv.2.verdict hash vv.1).bind fun r => w.close k vv.2 r
  | .tx t op =>
    (w.txs[t]?).bind fun tx =>
      -- a transaction in doubt has left its callback
      if op.resolves || w.mayRun tx then
        (txStep w.db (w.rowLocked tx.id) tx op).map (w.applyTx t tx)
      else none
  | .settle k =>
    match w.roles[k]? with
    | some (.mutation t) =>
      (w.txs[t]?).bind fun tx => tx.uncertain?.bind fun u =>
        (gateStep w.gate (.call k (.finish u))).map fun g => { w with gate := g }
    | _ => none
  | .create key => some (w.commit .creation { w.db with keys := w.db.keys ++ [some key] })
  | .ownerBackfill admin =>
    some (w.commit .ownerBackfill (w.db.bindUnowned w.rowLocked admin))
  | .secretMigration id salt encryptedRawKey =>
    if w.rowLocked id then none
    else some (w.commit .secretMigration (w.db.migrateSecret id salt encryptedRawKey))
  | .setServers servers => some (w.commit .servers { w.db with servers := servers })

/-- The service from its start on, over any database. -/
def keySystem : System World Op where
  init w := ∃ db, w = { gate := newGate, roles := [], txs := [], db := db, log := [] }
  step := keyStep hash

end Step

end Talus.ApiKey
