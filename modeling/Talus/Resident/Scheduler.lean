/-
  Talus.Resident.Scheduler
  **INSTALL JOBS AND REMOVAL FENCES** (`service/resident_scheduler.go`, the
  scheduling part of `service/resident_deploy.go`).

  Three kinds of callers share `installJobsMu`:

      reconciler   takes a snapshot of the epoch, later asks for an install
                   job with that snapshot (`scheduleInstall`)
      job          runs, then leaves the map and closes its `done` channel
      removal      waits for other removals of the server, then takes the
                   fence: its channel goes into `removing` and the epoch is
                   raised (`fenceRemoval`); `finish` takes it out again

  Each critical section is one step of `schedSystem`, and so is each action a
  caller takes between two of them.  The log records what the fencing
  property speaks about.
-/
import Mathlib.Data.List.AList
import Talus.Base.Run
import Talus.Resident.Layout

namespace Talus.Resident

open Talus.Base

/-! ## §1. State. -/

def second : Time := 1000000000

def minute : Time := 60 * second

def residentMaxInstallJobs : Nat := 16

def residentTransferRetryDelay : Time := 30 * second

def residentBusyShortRetries : Nat := 5

structure ResidentRetry where
  key : String
  failures : Nat
  busy : Nat
  due : Time
  deriving Repr, DecidableEq

/-- What the map of retries answers for a missing key. -/
def noRetry : ResidentRetry := ⟨"", 0, 0, 0⟩

/-- `residentJob`, an entry of `installJobs`: `job` stands for its cancel
function and its `done` channel. -/
structure ResidentJob where
  hash : TokenHash
  job : Nat
  deriving Repr, DecidableEq

/-- The goroutine of `scheduleInstall` with what it has captured. -/
structure InstallJob where
  node : AgentNode
  epoch : Nat
  key : String
  retry : ResidentRetry
  /-- the `done` channel is closed -/
  done : Bool
  deriving Repr, DecidableEq

/-- Program counter of a call of `fenceRemoval`, and of its caller after it. -/
inductive RemovalPhase
  /-- at the top of the loop -/
  | entering
  /-- in the `select`, on the channel of removal `pending` -/
  | waiting (pending : Nat)
  /-- the fence is taken, `job.cancel()` is still to come -/
  | cancelling (job : Option Nat)
  /-- returned with `finish` and the `done` channel of `job` -/
  | granted (job : Option Nat)
  /-- `finish` has run -/
  | finished
  /-- returned an error -/
  | failed
  deriving Repr, DecidableEq

structure Removal where
  server : ServerID
  phase : RemovalPhase
  deriving Repr, DecidableEq

inductive SchedEvent
  /-- a pass of the reconciler takes its epoch snapshot -/
  | snapshot (pass : Nat)
  | removalBegan (removal : Nat)
  | removalEnded (removal : Nat)
  /-- `scheduleInstall` starts a job for a pass -/
  | admitted (job pass : Nat)
  deriving Repr, DecidableEq

/-- The scheduling fields of `ResidentMonitor`.  `jobs`, `removals` and
`passes` hold every goroutine, call and snapshot there has been; `cancelled`
the jobs whose context was cancelled. -/
structure Scheduler where
  installJobs : AList fun _ : ServerID => ResidentJob
  jobs : List InstallJob
  cancelled : List Nat
  removing : ServerID → Option Nat
  removals : List Removal
  installEpoch : Nat
  installRetries : ServerID → Option ResidentRetry
  passes : List Nat
  /-- ghost -/
  log : List SchedEvent

def newScheduler : Scheduler where
  installJobs := ∅
  jobs := []
  cancelled := []
  removing := fun _ => none
  removals := []
  installEpoch := 0
  installRetries := fun _ => none
  passes := []
  log := []

/-! ## §2. Jobs. -/

/-- The part of `scheduleInstall`'s test that reads the retry state. -/
def retryAllows (retry : ResidentRetry) (n : AgentNode) (key : String) (now : Time) : Bool :=
  if retry.key = key then !(now < retry.due : Bool)
  else if retry.key = "" then
    match n.lastAttempt with
    | some at_ => !(now - at_ < minute : Bool)
    | none => true
  else true

namespace Scheduler

def retryOf (m : Scheduler) (s : ServerID) : ResidentRetry :=
  (m.installRetries s).getD noRetry

/-- `scheduleInstall` lets the job in. -/
def admits (m : Scheduler) (n : AgentNode) (epoch : Nat) (key : String) (ctxErr : Bool)
    (now : Time) : Bool :=
  (m.installJobs.lookup n.serverID).isNone && (m.removing n.serverID).isNone
    && epoch == m.installEpoch && m.installJobs.entries.length < residentMaxInstallJobs
    && !ctxErr && retryAllows (m.retryOf n.serverID) n key now

/-- A job starts. -/
def start (m : Scheduler) (n : AgentNode) (epoch : Nat) (key : String) (pass : Nat) : Scheduler :=
  { m with
    installJobs := m.installJobs.insert n.serverID ⟨n.tokenHash, m.jobs.length⟩
    jobs := m.jobs ++ [⟨n, epoch, key, m.retryOf n.serverID, false⟩]
    log := m.log ++ [.admitted m.jobs.length pass] }

/-- `scheduleInstall`, for a pass with this epoch snapshot. -/
def scheduleInstall (m : Scheduler) (n : AgentNode) (epoch : Nat) (key : String) (ctxErr : Bool)
    (now : Time) (pass : Nat) : Scheduler × Bool :=
  if m.admits n epoch key ctxErr now then (m.start n epoch key pass, true) else (m, false)

end Scheduler

/-- `residentRetryDelay`; `random` is the draw of `rand.Int64N`. -/
def residentRetryDelay (failures : Nat) (random : Nat) : Time :=
  let base := min (minute * 2 ^ min (failures - 1) 4) (10 * minute)
  base + (random : Int) % (base / 2 + 1)

/-- The errors `run` returns, as the goroutine tells them apart. -/
inductive RunError
  | canceled
  | pullProgress
  | pullBusy
  | other
  deriving Repr, DecidableEq

/-- The retry state a failed job leaves. -/
def nextRetry (retry : ResidentRetry) (key : String) (err : RunError) (now : Time)
    (random : Nat) : ResidentRetry :=
  let retry := if retry.key = key then retry else ⟨key, 0, 0, 0⟩
  match err with
  | .pullProgress => { retry with busy := 0, due := now + residentTransferRetryDelay }
  | .pullBusy =>
    let busy := retry.busy + 1
    let delay := if busy > residentBusyShortRetries
      then residentRetryDelay (busy - residentBusyShortRetries) random
      else residentTransferRetryDelay
    { retry with busy := busy, due := now + delay }
  | _ =>
    let failures := retry.failures + 1
    { retry with busy := 0, failures := failures
                 due := now + residentRetryDelay failures random }

namespace Scheduler

/-- The retry state of the job's server after the job. -/
def retryAfter (m : Scheduler) (job : InstallJob) (err : Option RunError) (now : Time)
    (random : Nat) : Option ResidentRetry :=
  match err with
  | none | some .canceled => none
  | some err =>
    if job.epoch ≠ m.installEpoch ∨ (m.removing job.node.serverID).isSome then none
    else some (nextRetry job.retry job.key err now random)

/-- The last critical section of a job. -/
def complete (m : Scheduler) (k : Nat) (err : Option RunError) (now : Time) (random : Nat) :
    Option Scheduler :=
  match m.jobs[k]? with
  | some job =>
    if job.done then none
    else some { m with
      installRetries :=
        Function.update m.installRetries job.node.serverID (m.retryAfter job err now random)
      installJobs := m.installJobs.erase job.node.serverID
      jobs := m.jobs.set k { job with done := true } }
  | none => none

/-- The jobs of the map that `f` selects are cancelled. -/
def cancelJobs (m : Scheduler) (f : ServerID → ResidentJob → Bool) : Scheduler :=
  { m with
    cancelled :=
      ((m.installJobs.entries.filter fun e => f e.1 e.2).map fun e => e.2.job) ++ m.cancelled }

/-! ## §3. Removals. -/

def setPhase (m : Scheduler) (r : Nat) (rem : Removal) (phase : RemovalPhase) : Scheduler :=
  { m with removals := m.removals.set r { rem with phase := phase } }

/-- The fence is taken. -/
def grant (m : Scheduler) (r : Nat) (rem : Removal) : Scheduler :=
  { m with
    removing := Function.update m.removing rem.server (some r)
    installEpoch := m.installEpoch + 1
    removals := m.removals.set r
      { rem with phase := .cancelling ((m.installJobs.lookup rem.server).map (·.job)) }
    log := m.log ++ [.removalBegan r] }

/-- One round of the loop of `fenceRemoval`. -/
def fence (m : Scheduler) (r : Nat) (ctxErr : Bool) : Option Scheduler :=
  match m.removals[r]? with
  | some rem =>
    if rem.phase = .entering then
      match m.removing rem.server with
      | some pending => some (m.setPhase r rem (.waiting pending))
      | none => if ctxErr then some (m.setPhase r rem .failed) else some (m.grant r rem)
    else none
  | none => none

/-- A removal whose channel is closed. -/
def closed (m : Scheduler) (r : Nat) : Bool :=
  match m.removals[r]? with
  | some rem => rem.phase == .finished
  | none => false

/-- The `select` of `fenceRemoval`: the other removal has ended, or the
context has. -/
def wake (m : Scheduler) (r : Nat) (ctxDone : Bool) : Option Scheduler :=
  match m.removals[r]? with
  | some rem =>
    match rem.phase with
    | .waiting pending =>
      if ctxDone then some (m.setPhase r rem .failed)
      else if m.closed pending then some (m.setPhase r rem .entering)
      else none
    | _ => none
  | none => none

/-- `job.cancel()`, after the lock is gone. -/
def cancelReturned (m : Scheduler) (r : Nat) : Option Scheduler :=
  match m.removals[r]? with
  | some rem =>
    match rem.phase with
    | .cancelling job =>
      some { m.setPhase r rem (.granted job) with cancelled := job.toList ++ m.cancelled }
    | _ => none
  | none => none

/-- `finish`; `once` makes every call after the first do nothing. -/
def finish (m : Scheduler) (r : Nat) : Option Scheduler :=
  match m.removals[r]? with
  | some rem =>
    match rem.phase with
    | .granted _ =>
      some { m.setPhase r rem .finished with
        removing := Function.update m.removing rem.server none
        installEpoch := m.installEpoch + 1
        log := m.log ++ [.removalEnded r] }
    | .finished => some m
    | _ => none
  | none => none

end Scheduler

/-! ## §4. The system. -/

inductive SchedOp
  /-- a pass of the reconciler reads the epoch -/
  | snapshot
  /-- … and asks for an install job -/
  | schedule (pass : Nat) (n : AgentNode) (key : String) (ctxErr : Bool) (now : Time)
  | complete (k : Nat) (err : Option RunError) (now : Time) (random : Nat)
  /-- `fenceRemoval` is called -/
  | remove (s : ServerID)
  | fence (r : Nat) (ctxErr : Bool)
  | wake (r : Nat) (ctxDone : Bool)
  | cancelReturned (r : Nat)
  | finish (r : Nat)
  /-- the settings have changed -/
  | newSettings
  /-- the credential of the server is another one -/
  | cancelStale (s : ServerID) (hash : TokenHash)
  /-- the reconciler drops what belongs to servers that are gone -/
  | dropServers (live : List ServerID)
  /-- `Start` ends -/
  | stop
  deriving Repr, DecidableEq

def schedStep (m : Scheduler) : SchedOp → Option Scheduler
  | .snapshot =>
    some { m with passes := m.passes ++ [m.installEpoch]
                  log := m.log ++ [.snapshot m.passes.length] }
  | .schedule pass n key ctxErr now =>
    (m.passes[pass]?).map fun epoch => (m.scheduleInstall n epoch key ctxErr now pass).1
  | .complete k err now random => m.complete k err now random
  | .remove s => some { m with removals := m.removals ++ [⟨s, .entering⟩] }
  | .fence r ctxErr => m.fence r ctxErr
  | .wake r ctxDone => m.wake r ctxDone
  | .cancelReturned r => m.cancelReturned r
  | .finish r => m.finish r
  | .newSettings => some { m.cancelJobs fun _ _ => true with installEpoch := m.installEpoch + 1 }
  | .cancelStale s hash => some (m.cancelJobs fun s' j => s' == s && j.hash != hash)
  | .dropServers live =>
    some { m.cancelJobs fun s _ => !live.contains s with
      installRetries := fun s => if live.contains s then m.installRetries s else none }
  | .stop => some (m.cancelJobs fun _ _ => true)

def schedSystem : System Scheduler SchedOp where
  init m := m = newScheduler
  step := schedStep

end Talus.Resident
