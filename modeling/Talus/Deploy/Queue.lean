/-
  Talus.Deploy.Queue
  **THE DEPLOYMENT QUEUE.**

  Agents are deployed in the background: a request puts a job into a map from
  servers to jobs, a scheduling pass starts workers for the jobs that are due,
  and a worker that returns settles its job.  Jobs are objects: a worker keeps
  the one it was started with, while `sync` and `request` change the same
  object or take it out of the map.  So the model has a heap of jobs, and the
  map and the workers refer to places in it.

  The current generations of the servers belong to the connection pool and
  change at any time: an entry of the pool goes from one generation to the
  next, and one that is evicted starts again at the first.

  Left out: cancelling a worker's context, which only hastens its return, the
  wake-up channel and what is logged.
-/
import Mathlib.Data.List.AList
import Talus.Base.Run

namespace Talus.Deploy

open Talus.Base

/-! ## §1. Jobs, workers and the queue. -/

/-- `agentDeploymentJob`. -/
structure Job where
  generation : Nat
  due : Int
  failures : Nat
  running : Bool
  retired : Bool
  deriving DecidableEq, Repr

/-- A call of `work` that has not returned: its server, its job and the
generation it was started for. -/
structure Worker where
  server : Nat
  job : Nat
  generation : Nat
  deriving DecidableEq, Repr

/-- `agentDeploymentQueue`, with the generations of the pool. -/
structure Queue where
  jobs : AList fun _ : Nat => Nat
  heap : List Job
  live : List Nat
  active : Nat
  workers : List Worker
  /-- `q.ctx` is set -/
  started : Bool
  /-- … and done -/
  down : Bool
  /-- the generations of the entries the pool has -/
  current : Nat → Option Nat
  /-- the pool's entry has changed since the last worker of the server started -/
  moved : Nat → Bool

/-- How `execute` ends. -/
inductive Outcome
  | ok
  /-- with `ErrStaleGeneration` -/
  | stale
  | failed
  deriving DecidableEq, Repr

namespace Queue

/-- `q.current`. -/
def isCurrent (q : Queue) (id generation : Nat) : Bool := q.current id == some generation

/-- The job of a server, with its place. -/
def job? (q : Queue) (id : Nat) : Option (Nat × Job) :=
  (q.jobs.lookup id).bind fun place => (q.heap[place]?).map fun job => (place, job)

def setJob (q : Queue) (place : Nat) (job : Job) : Queue :=
  { q with heap := q.heap.set place job }

/-- `delete(q.jobs, id)`. -/
def delete (q : Queue) (id : Nat) : Queue := { q with jobs := q.jobs.erase id }

/-! ## §2. `sync` and `request`. -/

/-- The body of the loop of `sync`. -/
def retireStep (q : Queue) (id : Nat) : Queue :=
  match q.job? id with
  | none => q
  | some (place, job) =>
    if q.live.contains id && q.isCurrent id job.generation then q
    else if job.running then q.setJob place { job with retired := true }
    else (q.delete id).setJob place { job with retired := true }

def sync (q : Queue) (ids : List Nat) : Queue :=
  q.jobs.keys.foldl retireStep { q with live := ids }

/-- The request is for a live server and its current generation. -/
def accepts (q : Queue) (id generation : Nat) : Bool :=
  q.started && !q.down && q.live.contains id && q.isCurrent id generation

/-- A job that is due at once. -/
def armed (job : Job) (generation : Nat) (now : Int) : Job :=
  { job with generation := generation, due := now, failures := 0, retired := false }

/-- A job of its own for a server that has none. -/
def insertJob (q : Queue) (id : Nat) (job : Job) : Queue :=
  { q with jobs := q.jobs.insert id q.heap.length, heap := q.heap ++ [job] }

def request (q : Queue) (id generation : Nat) (now : Int) : Queue :=
  if q.accepts id generation then
    match q.job? id with
    | none => q.insertJob id (armed ⟨0, 0, 0, false, false⟩ generation now)
    | some (place, job) =>
      if job.generation = generation ∧ job.retired = false then q
      else q.setJob place (armed job generation now)
  else q

/-! ## §3. Scheduling. -/

/-- `go q.work(…)`. -/
def start (q : Queue) (id place : Nat) (job : Job) : Queue :=
  { q.setJob place { job with running := true } with
    active := q.active + 1
    workers := q.workers ++ [⟨id, place, job.generation⟩]
    moved := Function.update q.moved id false }

/-- The body of the loop of `run`. -/
def visit (limit : Nat) (now : Int) (q : Queue) (id : Nat) : Queue :=
  match q.job? id with
  | none => q
  | some (place, job) =>
    if job.running || job.retired then q
    else if q.isCurrent id job.generation = false then q.delete id
    else if limit ≤ q.active then q
    else if now < job.due then q
    else q.start id place job

/-- One pass, in the order the map is visited.  Any list of servers is
allowed, so this has more passes than the program. -/
def pass (limit : Nat) (q : Queue) (now : Int) (order : List Nat) : Queue :=
  order.foldl (visit limit now) q

/-! ## §4. A worker returns. -/

/-- Five minutes, in milliseconds. -/
def maxBackoff : Int := 300000

def backoff (retry : Int) (failures : Nat) : Int :=
  min (retry * ((1 <<< min (failures - 1) 6 : Nat) : Int)) maxBackoff

/-- What `work` does with its job under the lock. -/
def settle (retry : Int) (q : Queue) (w : Worker) (job : Job) (outcome : Outcome) (now : Int) :
    Queue :=
  if job.retired || !q.live.contains w.server || q.down then q.delete w.server
  else if job.generation ≠ w.generation then q.setJob w.job { job with due := now }
  else if outcome = .failed then
    q.setJob w.job
      { job with failures := job.failures + 1, due := now + backoff retry (job.failures + 1) }
  else q.delete w.server

/-- The job is not running any more, and its worker is gone. -/
def join (q : Queue) (i : Nat) (w : Worker) (job : Job) : Queue :=
  { q.setJob w.job { job with running := false } with
    active := q.active - 1
    workers := q.workers.eraseIdx i }

def finish (retry : Int) (q : Queue) (i : Nat) (w : Worker) (job : Job) (outcome : Outcome)
    (now : Int) : Queue :=
  settle retry (q.join i w job) w { job with running := false } outcome now

end Queue

/-! ## §5. The system. -/

inductive Event
  | start
  | shutdown
  /-- the pool invalidates an entry, or gives it another fingerprint -/
  | advance (id : Nat)
  /-- … evicts an entry that is not used -/
  | evict (id : Nat)
  /-- … has an entry for a server again -/
  | connect (id : Nat)
  | sync (ids : List Nat)
  | request (id generation : Nat) (now : Int)
  | pass (now : Int) (order : List Nat)
  | finish (i : Nat) (outcome : Outcome) (now : Int)

/-- A worker finds its generation stale if the pool had another, or none, at
some time since it started. -/
def Outcome.possible (q : Queue) (w : Worker) : Outcome → Bool
  | .stale => q.moved w.server
  | _ => true

/-- The pool changes the entry of a server. -/
def Queue.setCurrent (q : Queue) (id : Nat) (generation : Option Nat) : Queue :=
  { q with
    current := Function.update q.current id generation
    moved := Function.update q.moved id true }

def queueStep (limit : Nat) (retry : Int) (q : Queue) : Event → Option Queue
  | .start => some { q with started := true }
  | .shutdown => some { q with down := true }
  | .advance id => (q.current id).map fun generation => q.setCurrent id (some (generation + 1))
  | .evict id => some (q.setCurrent id none)
  | .connect id => if q.current id = none then some (q.setCurrent id (some 1)) else none
  | .sync ids => some (q.sync ids)
  | .request id generation now => some (q.request id generation now)
  | .pass now order => if q.started && !q.down then some (q.pass limit now order) else none
  | .finish i outcome now =>
    (q.workers[i]?).bind fun w =>
      (q.heap[w.job]?).bind fun job =>
        if outcome.possible q w then some (q.finish retry i w job outcome now) else none

def emptyQueue (q : Queue) : Prop :=
  q.jobs = ∅ ∧ q.heap = [] ∧ q.live = [] ∧ q.active = 0 ∧ q.workers = [] ∧ q.started = false ∧
    q.down = false

/-- The queue with room for `limit` workers; `newAgentDeploymentQueue` has four
and a retry time of five seconds. -/
def deploymentQueue (limit : Nat) (retry : Int) : System Queue Event where
  init := emptyQueue
  step := queueStep limit retry

end Talus.Deploy
