/-
  Talus.Usage.Recorder
  **THE RECORDER OF ONE PROCESS AND THE TABLE IT SHARES** (`usage.Recorder`).

  The process keeps two collections of operations whose last word is not in
  the table yet: `active` (begun, not finished with) and `pending` (the retry
  queue of terminal snapshots).  `Begin`, `Finish`, the phase writer and
  `retryPending` move operations between them and write snapshots; a reconcile
  pass of the same process locks the owner's row, takes the tracked set and
  marks the rows of its owner that are not in it.

  Concurrency is explicit:

    • each call stops where it waits for a mutex, the database or a reply, and
      its place is kept in the operation's `Cell` (`BeginPC`, `FinishPC`);
    • `mu` is held across a step only between `Begin`'s two nested locks, where
      `op.mu` is already released and `active` not yet written;
    • a write is handed to the database (`send`) and may COMMIT at any later
      instant, also after the caller has been told of a timeout;
    • `pass` is the transaction of a reconcile pass that holds the owner's row:
      an `Upsert` of that owner needs the row in share mode and waits.

  Other processes write the same tables (`foreign`).  The token buckets, the
  write slots and the sizes of encoded rows are choices of the label.
-/
import Talus.Usage.Convergence

namespace Talus.Usage

open Talus.Base

/-! ## §1. State. -/

/-- The limits of `Options` that the calls below read. -/
structure Options where
  activeLimit : Nat
  retryItems : Nat
  retryBytes : Nat
  retryLifetime : Duration

/-- What a failed `writeUsage` reports. -/
inductive WriteError
  | noWriteSlot
  | store (e : UsageError)
  | permanent
  | unavailable
  deriving Repr, DecidableEq

/-- `permanentUsageError`. -/
def WriteError.isPermanent : WriteError → Bool
  | .store .ownerMissing => true
  | .store .ownerRetired => true
  | .store .invalid => true
  | .permanent => true
  | _ => false

/-- A transaction handed to the database. -/
inductive WriteState
  | sent
  | committed
  | refused (e : UsageError)
  deriving Repr, DecidableEq

structure Write where
  row : UsageLog
  state : WriteState

/-- What the caller may be told of a write: the truth, or that the database
could not be reached, which tells it nothing. -/
def Write.reports (wr : Write) : Option WriteError → Bool
  | none => decide (wr.state = .committed)
  | some (.store e) => decide (wr.state = .refused e)
  | some .permanent => decide (wr.state = .sent)
  | some .unavailable => true
  | some .noWriteSlot => false

/-- Where a `Begin` call stands. -/
inductive BeginPC
  | idle
  | waiting
  | storing (row : UsageLog)
  | writing (row : UsageLog)
  | sent (i : Nat)
  | done

/-- Where the `Finish` call that closed the operation stands. -/
inductive FinishPC
  | idle
  | closing (row : UsageLog)
  | writing (row : UsageLog) (completion : Bool)
  | sent (row : UsageLog) (completion : Bool) (i : Nat)
  | settling (row : UsageLog) (completion : Bool) (res : Option WriteError)
  | done

structure Cell where
  op : Operation
  beginPC : BeginPC
  finishPC : FinishPC

/-- Where `retryPending` stands with a queued snapshot. -/
inductive Flight
  | idle
  | picked
  | sent (i : Nat)
  deriving Repr, DecidableEq

/-- `pendingUsage`; `inFlight` is `flight ≠ idle`. -/
structure PendingUsage where
  row : UsageLog
  born : Time
  next : Time
  bytes : Nat
  attempts : Nat
  flight : Flight
  completion : Bool

structure Stats where
  captureSkipped : Nat
  writeFailed : Nat
  finalizationRetry : Nat
  finalizationLost : Nat
  deriving Repr, DecidableEq

/-- The reconcile transaction that holds the row of `self`; `tracked` is the
snapshot of the recorder's memory, once taken. -/
structure Pass where
  self : InstanceID
  now : Time
  tracked : Option (List OperationID)

structure World where
  ops : OperationID → Option Cell
  owner : InstanceID
  /-- every instance id this process has drawn -/
  owners : List InstanceID
  leaseConfirmedUntil : Time
  active : List OperationID
  pending : List PendingUsage
  pendingBytes : Int
  stats : Stats
  mu : Option OperationID
  writes : List Write
  store : Store
  pass : Option Pass

/-! ## §2. Parts of the calls. -/

namespace World

def setCell (w : World) (o : OperationID) (cell : Cell) : World :=
  { w with ops := fun i => if i = o then some cell else w.ops i }

def countSkipped (w : World) : World :=
  { w with stats := { w.stats with captureSkipped := w.stats.captureSkipped + 1 } }

def countFailed (w : World) : World :=
  { w with stats := { w.stats with writeFailed := w.stats.writeFailed + 1 } }

def countLost (w : World) : World :=
  { w with stats := { w.stats with finalizationLost := w.stats.finalizationLost + 1 } }

/-- `writeUsage` hands the row to the database. -/
def send (w : World) (row : UsageLog) : World :=
  { w with writes := w.writes ++ [{ row := row, state := .sent }] }

/-- `trackedOperations`. -/
def trackedOperations (w : World) : List OperationID :=
  w.active ++ w.pending.map fun p => p.row.operationID

end World

def longAction (action : String) : Bool :=
  ["server.sftp.archive", "server.sftp.upload.start", "server.sftp.upload.complete",
    "server.sftp.upload.chunk", "server.sftp.upload", "server.sftp.download",
    "server.exec", "service.relay", "server.terminal"].contains action

/-- `snapshotExpired`. -/
def snapshotExpired (cfg : Config) (row : UsageLog) (now : Time) : Bool :=
  match row.retentionAt with
  | none => false
  | some t => decide (cfg.retention row.action ≤ now - t)

/-- The condition under which `Begin` skips the capture; `budget` is what
`admitLocked` answers. -/
def World.refuses (opts : Options) (w : World) (op : Operation) (now : Time)
    (budget : Bool) : Bool :=
  decide (op.row.authType = .unauthenticated) || decide (w.leaseConfirmedUntil ≤ now) ||
    decide (opts.activeLimit ≤ w.active.length) ||
    (op.captureDecided && !op.admitted) || (!op.captureDecided && !budget)

/-- `enqueueUsageLocked`; `size` is the length of the encoded row. -/
def World.enqueueUsage (opts : Options) (w : World) (row : UsageLog) (completion : Bool)
    (now : Time) (size : Nat) (delay : Duration) : World :=
  if opts.retryItems ≤ w.pending.length ∨ opts.retryBytes < w.pendingBytes + size then w.countLost
  else { w with
    pending := (w.pending.filter fun p => p.row.operationID ≠ row.operationID) ++
      [{ row := row, born := now, next := now + delay, bytes := size, attempts := 0
         flight := .idle, completion := completion }]
    pendingBytes := w.pendingBytes + size }

def World.dropActive (w : World) (o : OperationID) : World :=
  { w with active := w.active.filter (· ≠ o) }

def World.dropPending (w : World) (p : PendingUsage) : World :=
  { w with
    pending := w.pending.filter fun q => q.row.operationID ≠ p.row.operationID
    pendingBytes := w.pendingBytes - p.bytes }

def World.setPending (w : World) (p : PendingUsage) : World :=
  { w with pending := w.pending.map fun q =>
      if q.row.operationID = p.row.operationID then p else q }

def World.findPending (w : World) (o : OperationID) : Option PendingUsage :=
  w.pending.find? fun p => p.row.operationID = o

/-! ## §3. Steps of one operation's calls. -/

inductive OpLabel
  | edit (e : Edit)
  | admitShort (budget : Bool)
  | beginEnter
  | beginAdmit (now : Time) (budget : Bool)
  | beginStore
  | beginWrite (slot : Bool)
  | beginReturn (res : Option WriteError)
  | finishEnter (status : Int) (now : Time) (stamp : String)
  | finishDecide (budget : Bool)
  | finishWrite (slot : Bool)
  | finishReturn (res : Option WriteError)
  | finishSettle (now : Time) (size : Nat) (delay : Duration)
  | persistPhase (slot : Bool)
  | refreshRunning (slot : Bool)

/-- `AdmitShort`. -/
def World.admitShort (w : World) (o : OperationID) (cell : Cell) (budget : Bool) : World :=
  if cell.op.finished ∨ cell.op.captureDecided ∨ cell.op.beginAttempted
      ∨ cell.op.row.authType = .unauthenticated ∨ longAction cell.op.row.action then w
  else
    (if budget then w else w.countSkipped).setCell o
      { cell with op := { cell.op with captureDecided := true, admitted := budget } }

/-- `Begin` once it holds both mutexes.  When it admits the operation it
releases `op.mu` and keeps `r.mu`. -/
def World.beginAdmit (opts : Options) (w : World) (o : OperationID) (cell : Cell)
    (now : Time) (budget : Bool) : World :=
  -- Finish may have won the operation lock while admission waited
  if cell.op.finished then w.setCell o { cell with beginPC := .done }
  else if w.refuses opts cell.op now budget then
    w.countSkipped.setCell o { cell with beginPC := .done }
  else
    { w with mu := some o }.setCell o
      { cell with
        op := cell.op.start w.owner
        beginPC := .storing (cell.op.start w.owner).snapshot }

/-- `Finish` under `r.mu`: is the snapshot to be written at all? -/
def World.finishDecide (w : World) (o : OperationID) (cell : Cell) (row : UsageLog)
    (budget : Bool) : World :=
  let begun := cell.op.beginAttempted
  let decided := cell.op.captureDecided
  if (begun || decided) && !cell.op.admitted then w.setCell o { cell with finishPC := .done }
  else if !begun && !decided then
    if budget then
      w.setCell o
        { cell with
          op := { cell.op with captureDecided := true, admitted := true }
          finishPC := .writing row false }
    else w.countSkipped.setCell o { cell with finishPC := .done }
  else w.setCell o { cell with finishPC := .writing row begun }

/-- The end of `Finish` under `r.mu`: the transfer to the retry queue and the
removal from `active` are one critical section. -/
def World.finishSettle (cfg : Config) (opts : Options) (w : World) (o : OperationID)
    (cell : Cell) (row : UsageLog) (completion : Bool) (res : Option WriteError)
    (now : Time) (size : Nat) (delay : Duration) : World :=
  let w' := match res with
    | none => w
    | some e =>
      if !e.isPermanent && !snapshotExpired cfg row now then
        w.enqueueUsage opts row completion now size delay
      else w.countLost
  (w'.dropActive row.operationID).setCell o { cell with finishPC := .done }

/-- One step of a call that concerns the operation `o`. -/
def cellStep (cfg : Config) (opts : Options) (w : World) (o : OperationID) (cell : Cell) :
    OpLabel → Option World
  | .edit e => some (w.setCell o { cell with op := cell.op.set e })
  | .admitShort budget => if w.mu.isSome then none else some (w.admitShort o cell budget)
  | .beginEnter =>
    if cell.op.finished || cell.op.beginAttempted then some w
    else some (w.setCell o
      { cell with op := { cell.op with beginAttempted := true }, beginPC := .waiting })
  | .beginAdmit now budget =>
    match cell.beginPC with
    | .waiting => if w.mu.isSome then none else some (w.beginAdmit opts o cell now budget)
    | _ => none
  | .beginStore =>
    match cell.beginPC with
    | .storing row =>
      some ({ w with active := o :: w.active, mu := none }.setCell o
        { cell with beginPC := .writing row })
    | _ => none
  | .beginWrite slot =>
    match cell.beginPC with
    | .writing row =>
      if slot then
        some ((w.send row).setCell o { cell with beginPC := .sent w.writes.length })
      else if w.mu.isSome then none
      else some (w.countFailed.setCell o { cell with beginPC := .done })
    | _ => none
  | .beginReturn res =>
    match cell.beginPC with
    | .sent i =>
      if (w.writes[i]?).any (·.reports res) = false then none
      else if res.isNone then some (w.setCell o { cell with beginPC := .done })
      else if w.mu.isSome then none
      else some (w.countFailed.setCell o { cell with beginPC := .done })
    | _ => none
  | .finishEnter status now stamp =>
    match cell.op.finish status now stamp with
    | none => some w
    | some (op, row) => some (w.setCell o { cell with op := op, finishPC := .closing row })
  | .finishDecide budget =>
    match cell.finishPC with
    | .closing row => if w.mu.isSome then none else some (w.finishDecide o cell row budget)
    | _ => none
  | .finishWrite slot =>
    match cell.finishPC with
    | .writing row completion =>
      if slot then
        some ((w.send row).setCell o
          { cell with finishPC := .sent row completion w.writes.length })
      else if w.mu.isSome then none
      else some (w.countFailed.setCell o
        { cell with finishPC := .settling row completion (some .noWriteSlot) })
    | _ => none
  | .finishReturn res =>
    match cell.finishPC with
    | .sent row completion i =>
      if (w.writes[i]?).any (·.reports res) = false then none
      else if res.isNone then
        some (w.setCell o { cell with finishPC := .settling row completion res })
      else if w.mu.isSome then none
      else some (w.countFailed.setCell o
        { cell with finishPC := .settling row completion res })
    | _ => none
  | .finishSettle now size delay =>
    match cell.finishPC with
    | .settling row completion res =>
      if w.mu.isSome then none
      else some (w.finishSettle cfg opts o cell row completion res now size delay)
    | _ => none
  | .persistPhase slot =>
    if w.active.contains o = false ∨ cell.op.finished then none
    else if slot then some (w.send cell.op.snapshot)
    else if w.mu.isSome then none
    else some w.countFailed
  | .refreshRunning slot =>
    match cell.op.refreshRunning with
    | none => none
    | some (op, row) =>
      if w.active.contains o = false then none
      else if slot then some ((w.send row).setCell o { cell with op := op })
      else if w.mu.isSome then none
      else some (w.countFailed.setCell o { cell with op := op })

/-! ## §4. `retryPending`. -/

inductive RetryLabel
  | expire (now : Time)
  | pick (now : Time)
  | write (slot : Bool) (now : Time) (delay : Duration)
  | reply (res : Option WriteError) (now : Time) (delay : Duration)

/-- `retryPending` after the write: settled, or back into the queue. -/
def World.retryReply (w : World) (p : PendingUsage) (res : Option WriteError)
    (now : Time) (delay : Duration) : World :=
  match res with
  | none => w.dropPending p
  | some e =>
    if e.isPermanent then (w.dropPending p).countLost.countFailed
    else (w.setPending { p with
      attempts := p.attempts + 1, next := now + delay, flight := .idle }).countFailed

/-- One step of `retryPending` on a queued snapshot; the snapshot stays in the
queue while it is in flight. -/
def retryStep (cfg : Config) (opts : Options) (w : World) (p : PendingUsage) :
    RetryLabel → Option World
  | .expire now =>
    if w.mu.isSome then none
    else if p.flight = .idle ∧
        (opts.retryLifetime ≤ now - p.born ∨ snapshotExpired cfg p.row now = true) then
      some (w.dropPending p).countLost
    else none
  | .pick now =>
    if w.mu.isSome then none
    else if p.flight = .idle ∧ now - p.born < opts.retryLifetime ∧
        snapshotExpired cfg p.row now = false ∧ p.next ≤ now then
      some { (w.setPending { p with flight := .picked }) with
        stats := { w.stats with finalizationRetry := w.stats.finalizationRetry + 1 } }
    else none
  | .write slot now delay =>
    if p.flight ≠ .picked then none
    else if slot then
      some ((w.send p.row).setPending { p with flight := .sent w.writes.length })
    else if w.mu.isSome then none
    else some (w.retryReply p (some .noWriteSlot) now delay)
  | .reply res now delay =>
    match p.flight with
    | .sent i =>
      if w.mu.isSome ∨ (w.writes[i]?).any (·.reports res) = false then none
      else some (w.retryReply p res now delay)
    | _ => none

section
variable {w a b w' : World}

/-- A branch that takes the mutex. -/
theorem unlocked (h : (if w.mu.isSome then none else some a) = some w') : w.mu = none ∧ w' = a := by
  rw [Option.ite_none_left_eq_some, Option.not_isSome_iff_eq_none] at h
  exact ⟨h.1, (Option.some.inj h.2).symm⟩

/-- A write that got a slot, or was counted as failed. -/
theorem slot_cases {slot : Bool}
    (h : (if slot then some a else if w.mu.isSome then none else some b) = some w') :
    w' = a ∨ w' = b := by
  cases slot with
  | true => exact .inl (Option.some.inj h).symm
  | false => exact .inr (unlocked h).2

end

/-! ### What each step of the calls can be. -/

section

variable {cfg : Config} {opts : Options} {w w' : World} {o : OperationID} {cell : Cell}
  {now : Time} {slot : Bool} {res : Option WriteError}

theorem cellStep_beginEnter (h : cellStep cfg opts w o cell .beginEnter = some w') :
    w' = w ∨ (cell.op.finished = false ∧ cell.op.beginAttempted = false) ∧
      w' = w.setCell o
        { cell with op := { cell.op with beginAttempted := true }, beginPC := .waiting } := by
  simp only [cellStep] at h
  split at h
  · exact .inl (Option.some.inj h).symm
  · next hg =>
    rw [Bool.or_eq_true, not_or, Bool.not_eq_true, Bool.not_eq_true] at hg
    exact .inr ⟨hg, (Option.some.inj h).symm⟩

theorem cellStep_beginAdmit {budget : Bool}
    (h : cellStep cfg opts w o cell (.beginAdmit now budget) = some w') :
    cell.beginPC = .waiting ∧ w.mu = none ∧ w' = w.beginAdmit opts o cell now budget := by
  simp only [cellStep] at h
  split at h
  · next hpc => exact ⟨hpc, unlocked h⟩
  · cases h

theorem cellStep_beginStore (h : cellStep cfg opts w o cell .beginStore = some w') :
    ∃ row, cell.beginPC = .storing row ∧
      w' = { w with active := o :: w.active, mu := none }.setCell o
        { cell with beginPC := .writing row } := by
  simp only [cellStep] at h
  split at h
  · next row hpc => exact ⟨row, hpc, (Option.some.inj h).symm⟩
  · cases h

theorem cellStep_beginWrite (h : cellStep cfg opts w o cell (.beginWrite slot) = some w') :
    ∃ row, cell.beginPC = .writing row ∧
      (w' = (w.send row).setCell o { cell with beginPC := .sent w.writes.length } ∨
        w' = w.countFailed.setCell o { cell with beginPC := .done }) := by
  simp only [cellStep] at h
  split at h
  · next row hpc => exact ⟨row, hpc, slot_cases h⟩
  · cases h

theorem cellStep_beginReturn (h : cellStep cfg opts w o cell (.beginReturn res) = some w') :
    ∃ i, cell.beginPC = .sent i ∧
      (w' = w.setCell o { cell with beginPC := .done } ∨
        w' = w.countFailed.setCell o { cell with beginPC := .done }) := by
  simp only [cellStep] at h
  split at h
  · next i hpc =>
    split at h
    · cases h
    · exact ⟨i, hpc, slot_cases h⟩
  · cases h

theorem cellStep_finishEnter {status : Int} {stamp : String}
    (h : cellStep cfg opts w o cell (.finishEnter status now stamp) = some w') :
    w' = w ∨ cell.op.finished = false ∧
      w' = w.setCell o
        { cell with
          op := cell.op.closed status now stamp
          finishPC := .closing (cell.op.closed status now stamp).snapshot } := by
  simp only [cellStep, Operation.finish] at h
  cases hf : cell.op.finished with
  | true =>
    rw [hf] at h
    exact .inl (Option.some.inj h).symm
  | false =>
    rw [hf] at h
    exact .inr ⟨rfl, (Option.some.inj h).symm⟩

theorem cellStep_finishDecide {budget : Bool}
    (h : cellStep cfg opts w o cell (.finishDecide budget) = some w') :
    ∃ row, cell.finishPC = .closing row ∧ w.mu = none ∧
      w' = w.finishDecide o cell row budget := by
  simp only [cellStep] at h
  split at h
  · next row hpc => exact ⟨row, hpc, unlocked h⟩
  · cases h

theorem cellStep_finishWrite (h : cellStep cfg opts w o cell (.finishWrite slot) = some w') :
    ∃ row completion, cell.finishPC = .writing row completion ∧
      (w' = (w.send row).setCell o
          { cell with finishPC := .sent row completion w.writes.length } ∨
        w' = w.countFailed.setCell o
          { cell with finishPC := .settling row completion (some .noWriteSlot) }) := by
  simp only [cellStep] at h
  split at h
  · next row completion hpc => exact ⟨row, completion, hpc, slot_cases h⟩
  · cases h

theorem cellStep_finishReturn (h : cellStep cfg opts w o cell (.finishReturn res) = some w') :
    ∃ row completion i, cell.finishPC = .sent row completion i ∧
      (w.writes[i]?).any (·.reports res) = true ∧
      w' = (if res.isNone then w else w.countFailed).setCell o
        { cell with finishPC := .settling row completion res } := by
  simp only [cellStep] at h
  split at h
  · next row completion i hpc =>
    split at h
    · cases h
    · next hrep =>
      refine ⟨row, completion, i, hpc, by simpa using hrep, ?_⟩
      cases res with
      | none => exact (Option.some.inj h).symm
      | some e => exact (unlocked h).2
  · cases h

theorem cellStep_finishSettle {size : Nat} {delay : Duration}
    (h : cellStep cfg opts w o cell (.finishSettle now size delay) = some w') :
    ∃ row completion res, cell.finishPC = .settling row completion res ∧ w.mu = none ∧
      w' = w.finishSettle cfg opts o cell row completion res now size delay := by
  simp only [cellStep] at h
  split at h
  · next row completion res hpc => exact ⟨row, completion, res, hpc, unlocked h⟩
  · cases h

theorem cellStep_persistPhase (h : cellStep cfg opts w o cell (.persistPhase slot) = some w') :
    o ∈ w.active ∧ (w' = w.send cell.op.snapshot ∨ w' = w.countFailed) := by
  simp only [cellStep] at h
  split at h
  · cases h
  · next hg =>
    rw [not_or, Bool.not_eq_false, List.contains_iff_mem] at hg
    exact ⟨hg.1, slot_cases h⟩

theorem cellStep_refreshRunning (h : cellStep cfg opts w o cell (.refreshRunning slot) = some w') :
    cell.op.finished = false ∧ o ∈ w.active ∧
      (w' = (w.send (cell.op.edit id id).snapshot).setCell o { cell with op := cell.op.edit id id } ∨
        w' = w.countFailed.setCell o { cell with op := cell.op.edit id id }) := by
  simp only [cellStep, Operation.refreshRunning] at h
  cases hf : cell.op.finished with
  | true =>
    rw [hf] at h
    cases h
  | false =>
    rw [hf] at h
    replace h : (if w.active.contains o = false then none else _) = some w' := h
    split at h
    · cases h
    · next ha =>
      rw [Bool.not_eq_false, List.contains_iff_mem] at ha
      exact ⟨rfl, ha, slot_cases h⟩

end

/-! ## §5. The database and the reconcile passes. -/

/-- The running pass holds the row of owner `id`. -/
def World.locks (w : World) (id : InstanceID) : Bool := w.pass.any fun p => p.self = id

/-- An `Upsert` that gets as far as its transaction waits for its owner's row. -/
def World.blocked (cfg : Config) (w : World) (row : UsageLog) : Bool :=
  match prepare cfg row with
  | .error _ => false
  | .ok v => v.ownerInstanceID.any w.locks

/-- The database runs the transaction of a write. -/
def World.commit (cfg : Config) (w : World) (i : Nat) (now : Time) : Option World :=
  match w.writes[i]? with
  | none => none
  | some wr =>
    if wr.state ≠ .sent ∨ w.blocked cfg wr.row = true then none
    else
      match upsert cfg w.store now wr.row with
      | .error e => some { w with writes := w.writes.set i { wr with state := .refused e } }
      | .ok (s, _) =>
        some { w with store := s, writes := w.writes.set i { wr with state := .committed } }

/-- Transactions of other processes: their operations and instances are not
ours, and they wait for a locked owner like any other. -/
def World.permits (w : World) : Txn → Bool
  | .upsert _ v => (w.ops v.operationID).isNone && !v.ownerInstanceID.any w.locks
  | .reconcile self id _ _ _ _ => !w.owners.contains self && !w.locks id
  | .register _ id => !w.locks id
  | .heartbeat _ id => !w.locks id

inductive Label
  | create (o : OperationID) (now : Time) (action route requestID method client : String)
  | op (o : OperationID) (l : OpLabel)
  | retry (o : OperationID) (l : RetryLabel)
  | commit (i : Nat) (now : Time)
  | foreign (t : Txn)
  | register (now : Time) (id : InstanceID)
  | heartbeat (now : Time) (id : InstanceID)
  | confirmLease (upTo : Time)
  | rotateOwner (id : InstanceID)
  | sweep (id : InstanceID) (now : Time) (locked : List OperationID) (remaining : Nat)
  | passLock (self : InstanceID) (now : Time)
  | passSnapshot
  | passMark (locked : List OperationID) (remaining : Nat)
  | passAbort

def World.withStore (w : World) (s : Store) : World := { w with store := s }

/-- `ReconcileTracked` on the live owner: lock its row, take the tracked set,
select and mark, commit. -/
def passStep (cfg : Config) (w : World) : Label → Option World
  | .passLock self now =>
    if w.pass.isSome ∨ w.owners.contains self = false ∨ w.store.stale now self = true then none
    else some { w with pass := some { self := self, now := now, tracked := none } }
  | .passSnapshot =>
    match w.pass with
    | some ⟨self, now, none⟩ =>
      if w.mu.isSome then none
      else some { w with pass := some ⟨self, now, some w.trackedOperations⟩ }
    | _ => none
  | .passMark locked remaining =>
    match w.pass with
    | some ⟨self, now, some tracked⟩ =>
      some { w with
        store := reconcileOwner cfg w.store self self now tracked locked remaining
        pass := none }
    | _ => none
  | .passAbort => if w.pass.isSome then some { w with pass := none } else none
  | _ => none

def worldStep (cfg : Config) (opts : Options) (w : World) : Label → Option World
  | .create o now action route requestID method client =>
    -- the UUID is new
    if (w.ops o).isSome ∨ (w.store.logs o).isSome then none
    else some (w.setCell o
      { op := newOperation o now action route requestID method client
        beginPC := .idle, finishPC := .idle })
  | .op o l => (w.ops o).bind fun cell => cellStep cfg opts w o cell l
  | .retry o l => (w.findPending o).bind fun p => retryStep cfg opts w p l
  | .commit i now => w.commit cfg i now
  | .foreign t => if w.permits t then some (w.withStore (storeStep cfg w.store t)) else none
  | .register now id =>
    if w.owners.contains id = false ∨ w.locks id = true then none
    else some (w.withStore (storeStep cfg w.store (.register now id)))
  | .heartbeat now id =>
    if w.owners.contains id = false ∨ w.locks id = true then none
    else some (w.withStore (storeStep cfg w.store (.heartbeat now id)))
  | .confirmLease upTo =>
    if w.mu.isSome then none else some { w with leaseConfirmedUntil := upTo }
  | .rotateOwner id =>
    if w.mu.isSome ∨ w.owners.contains id = true then none
    else some { w with owner := id, owners := id :: w.owners, leaseConfirmedUntil := 0 }
  | .sweep id now locked remaining =>
    -- a pass over an owner that is gone takes no tracked set
    if w.store.stale now id = false ∨ w.locks id = true then none
    else some (w.withStore
      (storeStep cfg w.store (.reconcile w.owner id now [] locked remaining)))
  | l => passStep cfg w l

/-- A recorder that has just started, over a table keyed by `operation_id`. -/
structure World.Initial (w : World) : Prop where
  ops : ∀ o, w.ops o = none
  owners : w.owners = [w.owner]
  active : w.active = []
  pending : w.pending = []
  mu : w.mu = none
  writes : w.writes = []
  pass : w.pass = none
  keyed : ∀ o r, w.store.logs o = some r → r.operationID = o

def recorderSystem (cfg : Config) (opts : Options) : System World Label where
  init := World.Initial
  step := worldStep cfg opts

end Talus.Usage
