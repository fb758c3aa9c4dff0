/-
  Talus.Agent.Spool
  **THE AGENT'S OUTBOX: A DIRECTORY OF SAMPLES AND A LOSS COUNTER.**

  Each method of `Spool` is a program over the directory (`Talus.Base.Crash`):
  every system call in it may fail or be the last one.  The entries, the byte
  count and the counter the process holds in memory are a `Spool` value, which
  a death loses.

  The directory is kept with what a POWER LOSS may do to it.  A rename and a
  removal are certain only once the directory has been synced:

      files, dropped            what the running system sees
      created, removed, stale   what no sync has covered yet
      safe                      the samples that survive anything

  `powerLoss` picks which of the uncovered changes are undone.
-/
import Talus.Base.Crash
import Talus.Agent.Wire

namespace Talus.Agent

open Talus.Base Talus.Base.Prog

/-! ## §1. The directory. -/

/-- A `.sample` file: its name without the suffix, what its document decodes
to, and the length of the document. -/
structure File where
  name : Bytes
  sample : Sample
  size : Nat
  deriving DecidableEq

structure Outbox where
  /-- The `.sample` files. -/
  files : List File
  /-- The content of `dropped.json`; a missing file reads as zero. -/
  dropped : Nat
  /-- Files removed or replaced since the last directory sync. -/
  removed : List File
  /-- Names renamed into place since the last directory sync. -/
  created : List Bytes
  /-- Contents `dropped.json` has had since the last directory sync. -/
  stale : List Nat
  deriving DecidableEq

namespace Outbox

def names (b : Outbox) : List Bytes := b.files.map File.name

/-- The samples no crash and no power loss can take away. -/
def safe (b : Outbox) : List Bytes := b.names.filter fun i => i ∉ b.created

/-- The values the counter may have after a power loss. -/
def counters (b : Outbox) : List Nat := b.dropped :: b.stale

/-- Rename a sample file into place. -/
def replace (f : File) (b : Outbox) : Outbox :=
  { b with
    files := f :: b.files.filter fun g => g.name ≠ f.name
    removed := b.files.filter (fun g => g.name = f.name) ++ b.removed
    created := f.name :: b.created }

/-- Remove a sample file; a missing one is no error. -/
def remove (name : Bytes) (b : Outbox) : Outbox :=
  { b with
    files := b.files.filter fun g => g.name ≠ name
    removed := b.files.filter (fun g => g.name = name) ++ b.removed }

/-- Rename a new `dropped.json` into place. -/
def setDropped (count : Nat) (b : Outbox) : Outbox :=
  { b with dropped := count, stale := b.dropped :: b.stale }

/-- The directory has been synced. -/
def sync (b : Outbox) : Outbox :=
  { b with removed := [], created := [], stale := [] }

/-- Bring back the removed files a power loss undoes the removal of. -/
def restore (restored : List Bytes) : List File → List File → List File
  | [], files => files
  | f :: rest, files =>
    if f.name ∈ restored ∧ f.name ∉ files.map File.name then restore restored rest (f :: files)
    else restore restored rest files

/-- A power loss: of the uncovered renames only `kept` reached the disk, the
removals of `restored` did not, and the counter reads `count`. -/
def powerLoss (kept restored : List Bytes) (count : Nat) (b : Outbox) : Outbox where
  files := restore restored b.removed
    (b.files.filter fun f => f.name ∉ b.created ∨ f.name ∈ kept)
  dropped := count
  removed := []
  created := []
  stale := []

end Outbox

/-- The directory, with the number of `.pending-` files left in it. -/
structure Disk where
  box : Outbox
  temps : Nat
  deriving DecidableEq

/-- A system call on the sample files or the counter. -/
def onBox (change : Outbox → Outbox) (d : Disk) : Disk := { d with box := change d.box }

/-! ## §2. Files. -/

/-- `n` system calls that leave the directory as it is, up to the first that
fails. -/
def attempts : Nat → Prog Disk Bool
  | 0 => pure true
  | n + 1 => do
      let ok ← attempt id
      if ok then attempts n else pure false

def syncDirectory : Prog Disk Bool := attempt (onBox Outbox.sync)

/-- The deferred removal of the temporary file; its error is ignored. -/
def dropTemp : Prog Disk Bool := attempt fun d => { d with temps := d.temps - 1 }

/-- `writeAtomic`: a temporary file is created, filled, synced and closed,
then renamed over the target, and the directory is synced.  An error of that
last sync is reported although the rename has taken place. -/
def writeAtomic (change : Outbox → Outbox) : Prog Disk Bool := do
  let opened ← attempt fun d => { d with temps := d.temps + 1 }
  if opened then
    -- Chmod, Write and Sync stop at the first error; Close is always called
    let written ← attempts 3
    let closed ← attempt id
    if written && closed then
      let renamed ← attempt fun d => { onBox change d with temps := d.temps - 1 }
      if renamed then syncDirectory
      else
        let _ ← dropTemp
        pure false
    else
      let _ ← dropTemp
      pure false
  else pure false

/-! ## §3. The queue. -/

structure QueueEntry where
  sample : Sample
  size : Nat
  deriving DecidableEq

/-- What the process holds of the outbox. -/
structure Spool where
  entries : List QueueEntry
  bytes : Int
  dropped : Nat
  deriving DecidableEq

/-- The ids of the queued samples. -/
def Spool.ids (q : Spool) : List Bytes := q.entries.map fun e => e.sample.id

/-- What the model takes from the language runtime: the JSON codec, and a
sort of the queue by capture time that may order equal times in any way. -/
structure Runtime where
  codec : Codec
  sort : List QueueEntry → List QueueEntry
  sort_perm : ∀ l, (sort l).Perm l
  sort_sorted : ∀ l, (sort l).Pairwise fun a b => a.sample.time ≤ b.sample.time

/-- The largest document a sample file may hold. -/
def maxSampleBytes : Nat := 32 * 2 ^ 10

inductive SpoolError where
  | invalid (e : WireError)
  | marshal
  | tooLarge
  | duplicate
  | io
  deriving DecidableEq

namespace Spool

/-- The loop of `pruneLocked`: the counter is written before the file goes. -/
def pruneLoop (cutoff : Int) : List QueueEntry → Int → Nat → Prog Disk (Spool × Bool)
  | [], bytes, dropped => pure (⟨[], bytes, dropped⟩, true)
  | e :: rest, bytes, dropped =>
    if (maxQueueBytes : Int) < bytes ∨ e.sample.time < cutoff then do
      let written ← writeAtomic (Outbox.setDropped (dropped + 1))
      if written then
        let gone ← attempt (onBox (Outbox.remove e.sample.id))
        if gone then pruneLoop cutoff rest (bytes - e.size) (dropped + 1)
        else pure (⟨e :: rest, bytes, dropped + 1⟩, false)
      else pure (⟨e :: rest, bytes, dropped⟩, false)
    else pure (⟨e :: rest, bytes, dropped⟩, true)

/-- `pruneLocked`. -/
def prune (now : Int) (q : Spool) : Prog Disk (Spool × Bool) := do
  let r ← pruneLoop (now - maxAge) q.entries q.bytes q.dropped
  if r.2 then
    let ok ← syncDirectory
    pure (r.1, ok)
  else pure r

/-- `Add`; `now` is read for the validation and again, `later`, for the
pruning. -/
def add (rt : Runtime) (now later : Int) (s : Sample) (q : Spool) :
    Prog Disk (Spool × Option SpoolError) :=
  match s.validate now with
  | .error e => pure (q, some (.invalid e))
  | .ok () =>
    match s.marshal rt.codec with
    | none => pure (q, some .marshal)
    | some doc =>
      if maxSampleBytes < doc.length then pure (q, some .tooLarge)
      else if s.id ∈ q.ids then pure (q, some .duplicate)
      else do
        let written ← writeAtomic (Outbox.replace ⟨s.id, s.scrub, doc.length⟩)
        if written then
          let r ← prune later
            ⟨rt.sort (q.entries ++ [⟨s, doc.length⟩]), q.bytes + doc.length, q.dropped⟩
          pure (r.1, if r.2 then none else some .io)
        else pure (q, some .io)

/-- The newest sample first, then the oldest. -/
def batchOf (entries : List QueueEntry) : List Sample :=
  match entries.getLast? with
  | none => []
  | some newest =>
    newest.sample :: ((entries.dropLast).take (maxBatch - 1)).map QueueEntry.sample

/-- `Batch`. -/
def batch (now : Int) (q : Spool) : Prog Disk (Spool × Option (List Sample)) := do
  let r ← prune now q
  pure (r.1, if r.2 then some (batchOf r.1.entries) else none)

/-- The loop of `ackLocked`: an entry whose file cannot be removed is kept. -/
def ackLoop (ids : List Bytes) (dropped : Nat) :
    List QueueEntry → List QueueEntry → Int → Bool → Prog Disk (Spool × Bool)
  | [], kept, bytes, ok => pure (⟨kept, bytes, dropped⟩, ok)
  | e :: rest, kept, bytes, ok =>
    if e.sample.id ∈ ids then do
      let gone ← attempt (onBox (Outbox.remove e.sample.id))
      if gone then ackLoop ids dropped rest kept (bytes - e.size) ok
      else ackLoop ids dropped rest (kept ++ [e]) bytes false
    else ackLoop ids dropped rest (kept ++ [e]) bytes ok

/-- `Ack` and `ackLocked`. -/
def ack (ids : List Bytes) (q : Spool) : Prog Disk (Spool × Bool) := do
  let r ← ackLoop ids q.dropped q.entries [] q.bytes true
  let synced ← syncDirectory
  pure (r.1, r.2 && synced)

/-- `Reject`: the loss is counted before the files go. -/
def reject (ids : List Bytes) (q : Spool) : Prog Disk (Spool × Bool) :=
  let count := q.entries.countP fun e => e.sample.id ∈ ids
  if 0 < count then do
    let written ← writeAtomic (Outbox.setDropped (q.dropped + count))
    if written then ack ids { q with dropped := q.dropped + count }
    else pure (q, false)
  else ack ids q

/-- `Stats`. -/
def stats (q : Spool) : Nat × Nat := (q.entries.length, q.dropped)

/-! ## §4. Opening. -/

/-- Remove the temporary files of an earlier process. -/
def sweep : Nat → Prog Disk Bool
  | 0 => pure true
  | n + 1 => do
      let ok ← dropTemp
      if ok then sweep n else pure false

/-- Read the sample files; a file that cannot be read, is too long or is not
the sample its name says stops the opening. -/
def readAll : List File → Prog Disk (Option (List QueueEntry))
  | [] => pure (some [])
  | f :: rest => do
      let ok ← attempts 2
      if ok ∧ f.size ≤ maxSampleBytes ∧ f.sample.id.length = 32 ∧ f.sample.id = f.name then
        let r ← readAll rest
        pure (r.map (⟨f.sample, f.size⟩ :: ·))
      else pure none

/-- `OpenSpool`: the directory and its lock, the counter, the listing, the
files, the sort and a first pruning. -/
def openSpool (rt : Runtime) (now : Int) : Prog Disk (Option Spool) := do
  let ready ← attempts 6
  if ready then
    let d ← get
    let swept ← sweep d.temps
    if swept then
      let entries ← readAll d.box.files
      match entries with
      | none => pure none
      | some entries =>
        let bytes := (entries.map fun e => (e.size : Int)).sum
        let r ← prune now ⟨rt.sort entries, bytes, d.box.dropped⟩
        pure (if r.2 then some r.1 else none)
    else pure none
  else pure none

end Spool

end Talus.Agent
