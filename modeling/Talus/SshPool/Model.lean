/-
  Talus.SshPool.Model
  **THE SSH CONNECTION POOL AS A TRANSITION SYSTEM.**

  `pkg/sshpool/pool.go` is shared mutable state under two kinds of lock: the
  pool's `p.mu` and one `l.mu` per lease.  Each step below is one critical
  section of the source, or one action it takes outside the locks (a channel
  send or receive on `entry.sem`, a quota report, a `Close`), so a run of the
  system is one interleaving of the goroutines that use the pool.

  An acquisition and the lease it turns into are ONE *ticket*: the ticket's
  phase is the program counter of `acquireContext` up to the moment the lease
  is returned, and of `Lease.finish` afterwards.  A ticket works on one entry
  only, so its steps are local functions of the ticket and its entry
  (`ticketStep`); the remaining steps (`acquire`, `invalidate`, `evict`,
  `close`, …) act on the pool as a whole.

  Ghost data, read by no step: the consumer's running quota sum, the clients
  ever handed in and ever closed, the number of times a ticket took a slot and
  gave one back, and the `log` of the events the generation results speak about.
-/
import Talus.Base.Run

namespace Talus.SshPool

open Talus.Base

/-! ## §1. Data. -/

abbrev ServerID := Nat
/-- The identity of one `*ssh.Client`. -/
abbrev Client := Nat
abbrev Fingerprint := String

/-- `connEntry`.  `sem` is `len(entry.sem)`; `key` is the server id the entry
was stored under when it was made. -/
structure ConnEntry where
  key : ServerID
  client : Option Client
  fingerprint : Fingerprint
  generation : Nat
  lastUsed : Int
  sem : Nat
  waiters : Nat
  deriving Repr, DecidableEq

/-- Why an acquisition returns no lease. -/
inductive AcquireError
  /-- `ErrSlotTimeout` -/
  | slotTimeout
  /-- `ctx.Err()` -/
  | context
  /-- `ErrClosed` -/
  | closed
  /-- `ErrStaleLease` -/
  | staleLease
  deriving Repr, DecidableEq

/-- How a ticket comes to give its slot back. -/
inductive Ending
  /-- `acquireContext` returns an error. -/
  | failed (err : AcquireError)
  /-- the lease was released or discarded. -/
  | settled
  deriving Repr, DecidableEq

/-- Program counter of a ticket. -/
inductive Phase
  /-- in the `select` of `acquireContext` -/
  | waiting
  /-- the `select` ended without a slot -/
  | failing (err : AcquireError)
  /-- the slot is taken, `notifyQuota(consumer, 1)` is still to come -/
  | reserved
  /-- before the second critical section of `acquireContext` -/
  | reported
  /-- the cached client is detached; it is being probed if there is one -/
  | fetched
  /-- before the third critical section of `acquireContext` -/
  | checked
  /-- the caller holds the lease and `l.done` is false -/
  | leased
  /-- `finish` has set `l.done` and not yet entered `p.mu` -/
  | finishing (discard : Bool)
  /-- before the receive in `releaseSlot` -/
  | releasing (how : Ending)
  /-- the slot is back, `notifyQuota(consumer, -1)` is still to come -/
  | released (how : Ending)
  | done (how : Ending)
  deriving Repr, DecidableEq

/-- A call of `acquireContext` and the lease it returns.  `client` is the
client the call or the lease holds, `doomed` one it has detached and is about
to `Close`. -/
structure Ticket where
  serverID : ServerID
  fingerprint : Fingerprint
  generation : Nat
  entry : Nat
  fresh : Bool
  consumer : String
  phase : Phase
  client : Option Client
  doomed : Option Client
  cacheable : Bool
  /-- ghost: how often this ticket has taken a slot -/
  took : Nat
  /-- ghost: how often it has given one back -/
  gave : Nat
  deriving Repr, DecidableEq

/-- What the generation results speak about, in the order it happened. -/
inductive PoolEvent
  /-- `SetClient` put the client into a live lease of this server,
      fingerprint, entry and generation -/
  | installed (c : Client) (s : ServerID) (f : Fingerprint) (i g : Nat)
  /-- `Invalidate(s)` -/
  | invalidated (s : ServerID)
  /-- the server was acquired under, or a lease of it rebound to, `f` -/
  | bound (s : ServerID) (f : Fingerprint)
  /-- an acquisition for this server and fingerprint returned a cached client -/
  | returned (c : Client) (s : ServerID) (f : Fingerprint) (i g : Nat)
  deriving Repr, DecidableEq

/-- `Pool`.  `closing` are the clients that calls other than acquisitions and
settlements have detached and are about to close, `active` the leases
`Close` has yet to visit. -/
structure Pool where
  maxConns : Nat
  entries : List ConnEntry
  conns : ServerID → Option Nat
  closed : Bool
  tickets : List Ticket
  active : List Nat
  closing : List Client
  /-- ghost: sum of the deltas reported for a consumer -/
  quota : String → Int
  /-- ghost: clients ever passed to `SetClient` -/
  handed : List Client
  /-- ghost: clients on which `Close` was called -/
  closedClients : List Client
  /-- ghost -/
  log : List PoolEvent

/-- `NewPool`. -/
def newPool (maxConns : Int) : Pool where
  maxConns := if maxConns < 1 then 1 else maxConns.toNat
  entries := []
  conns := fun _ => none
  closed := false
  tickets := []
  active := []
  closing := []
  quota := fun _ => 0
  handed := []
  closedClients := []
  log := []

/-- `IsCurrent`. -/
def isCurrent (p : Pool) (s : ServerID) (generation : Nat) : Bool :=
  match (p.conns s).bind (p.entries[·]?) with
  | some entry => !p.closed && entry.generation == generation
  | none => false

/-! ## §2. The steps of one ticket. -/

/-- What a step of a ticket does: the new ticket and entry, and what it adds
to the pool's lists and to its consumer's quota sum. -/
structure Effect where
  ticket : Ticket
  entry : ConnEntry
  closing : List Client := []
  closedNow : List Client := []
  handed : List Client := []
  quota : Int := 0
  log : List PoolEvent := []

/-- What a ticket reads of the pool: `closed`, `maxConns`, whether the map
still holds its entry under its server id, and the clients handed in before. -/
structure View where
  closed : Bool
  maxConns : Nat
  mapped : Bool
  handed : List Client

/-- `case entry.sem <- struct{}{}`: the slot is taken. -/
def takeSlot (v : View) (t : Ticket) (e : ConnEntry) : Option Effect :=
  if t.phase = .waiting ∧ t.doomed = none ∧ e.sem < v.maxConns then
    some { ticket := { t with phase := .reserved, took := t.took + 1 }
           entry := { e with sem := e.sem + 1 } }
  else none

/-- The other cases of the `select`: timer, context, `p.done`. -/
def giveUp (v : View) (err : AcquireError) (t : Ticket) (e : ConnEntry) :
    Option Effect :=
  if t.phase = .waiting ∧ t.doomed = none ∧ err ≠ .staleLease
      ∧ (err = .closed → v.closed = true) then
    some { ticket := { t with phase := .failing err }, entry := e }
  else none

/-- The second critical section when the `select` failed. -/
def failReturn (t : Ticket) (e : ConnEntry) : Option Effect :=
  match t.phase with
  | .failing err =>
    some { ticket := { t with phase := .done (.failed err) }
           entry := { e with waiters := e.waiters - 1 } }
  | _ => none

/-- `p.notifyQuota(consumer, 1)`. -/
def reportTake (t : Ticket) (e : ConnEntry) : Option Effect :=
  if t.phase = .reserved then
    some { ticket := { t with phase := .reported }, entry := e, quota := 1 }
  else none

/-- The three tests both later critical sections of `acquireContext` make,
in their order. -/
def staleCheck (v : View) (ctxErr : Bool) (t : Ticket) (e : ConnEntry) :
    Option AcquireError :=
  if ctxErr then some .context
  else if v.closed then some .closed
  else if e.generation ≠ t.generation ∨ e.fingerprint ≠ t.fingerprint then
    some .staleLease
  else none

/-- The second critical section with a slot: the idle client is detached. -/
def fetch (v : View) (now : Int) (ctxErr : Bool) (t : Ticket) (e : ConnEntry) :
    Option Effect :=
  if t.phase = .reported then
    let e := { e with waiters := e.waiters - 1 }
    match staleCheck v ctxErr t e with
    | some err =>
      some { ticket := { t with phase := .releasing (.failed err) }, entry := e }
    | none =>
      some { ticket := { t with phase := .fetched, client := e.client }
             entry := { e with client := none, lastUsed := now } }
  else none

/-- How the probe's `select` ends. -/
inductive Verdict
  | healthy | unhealthy | ctxDone | poolDone
  deriving Repr, DecidableEq

/-- Between the second and the third critical section: a fresh acquisition
drops the detached client unprobed, any other one waits for the probe. -/
def probe (v : View) (verdict : Verdict) (t : Ticket) (e : ConnEntry) :
    Option Effect :=
  if t.phase = .fetched then
    let drop : Phase → Option Effect := fun phase =>
      some { ticket := { t with phase := phase, client := none, doomed := t.client }
             entry := e }
    if t.client = none then
      some { ticket := { t with phase := .checked }, entry := e }
    else if t.fresh then drop .checked
    else match verdict with
      | .healthy => some { ticket := { t with phase := .checked }, entry := e }
      | .unhealthy => drop .checked
      | .ctxDone => drop (.releasing (.failed .context))
      | .poolDone => if v.closed then drop (.releasing (.failed .closed)) else none
  else none

/-- The third critical section: the lease is made, or the call fails. -/
def confirm (v : View) (ctxErr : Bool) (t : Ticket) (e : ConnEntry) :
    Option Effect :=
  if t.phase = .checked ∧ t.doomed = none then
    match staleCheck v ctxErr t e with
    | some err =>
      some { ticket := { t with phase := .releasing (.failed err), client := none,
                                doomed := t.client }
             entry := e }
    | none =>
      some { ticket := { t with phase := .leased }
             entry := e
             log := match t.client with
               | some c => [.returned c t.serverID t.fingerprint t.entry t.generation]
               | none => [] }
  else none

/-- `client.Close()` on the client the call has detached. -/
def closeDoomed (t : Ticket) (e : ConnEntry) : Option Effect :=
  match t.doomed with
  | some c => some { ticket := { t with doomed := none }, entry := e, closedNow := [c] }
  | none => none

/-- The lease exists: `acquireContext` has returned it. -/
def Phase.hasLease : Phase → Bool
  | .leased | .finishing _ => true
  | .releasing how | .released how | .done how => how == .settled
  | _ => false

/-- `SetClient`.  The caller passes a client it has newly dialled, or the one
the live lease already has. -/
def setClient (v : View) (client : Option Client) (t : Ticket) (e : ConnEntry) :
    Option Effect :=
  let isNew := t.phase ≠ .leased ∨ t.client ≠ client
  let dialled := if isNew then client.toList else []
  if t.phase.hasLease = true ∧ ∀ c ∈ dialled, c ∉ v.handed then
    if t.phase ≠ .leased then
      some { ticket := t, entry := e, closing := dialled, handed := dialled }
    else if v.closed then
      some { ticket := { t with client := none }
             entry := e
             closing := t.client.toList ++ dialled, handed := dialled }
    else
      some { ticket := { t with client := client }
             entry := e
             closing := if isNew then t.client.toList else []
             handed := dialled
             log := dialled.map fun c =>
               .installed c t.serverID t.fingerprint t.entry t.generation }
  else none

/-- `finish` up to the end of its `l.mu` section: `l.done` is set and the
client becomes a local of the call.  A second call finds `l.done` set. -/
def finish (discard : Bool) (t : Ticket) (e : ConnEntry) : Option Effect :=
  if t.phase = .leased then
    some { ticket := { t with phase := .finishing discard }, entry := e }
  else if t.phase.hasLease then some { ticket := t, entry := e }
  else none

/-- The guard under which `finish` puts the client back into the entry. -/
def mayCache (v : View) (discard : Bool) (t : Ticket) (e : ConnEntry) : Prop :=
  discard = false ∧ t.cacheable = true ∧ v.closed = false ∧ v.mapped = true
    ∧ e.generation = t.generation ∧ e.fingerprint = t.fingerprint ∧ e.client = none

instance (v : View) (discard : Bool) (t : Ticket) (e : ConnEntry) :
    Decidable (mayCache v discard t e) :=
  inferInstanceAs (Decidable (_ ∧ _))

/-- The `p.mu` section of `finish`. -/
def finishReturn (v : View) (now : Int) (t : Ticket) (e : ConnEntry) :
    Option Effect :=
  match t.phase with
  | .finishing discard =>
    if mayCache v discard t e then
      some { ticket := { t with phase := .releasing .settled, client := none }
             entry := { e with client := t.client, lastUsed := now } }
    else
      some { ticket := { t with phase := .releasing .settled, client := none,
                                doomed := t.client }
             entry := e }
  | _ => none

/-- The receive `<-sem` of `releaseSlot`; it blocks on an empty channel. -/
def releaseSlot (t : Ticket) (e : ConnEntry) : Option Effect :=
  match t.phase with
  | .releasing how =>
    if t.doomed = none ∧ 0 < e.sem then
      some { ticket := { t with phase := .released how, gave := t.gave + 1 }
             entry := { e with sem := e.sem - 1 } }
    else none
  | _ => none

/-- `p.notifyQuota(consumer, -1)` of `releaseSlot`. -/
def reportReturn (t : Ticket) (e : ConnEntry) : Option Effect :=
  match t.phase with
  | .released how =>
    some { ticket := { t with phase := .done how }, entry := e, quota := -1 }
  | _ => none

/-- `RebindFingerprint`.  It changes nothing when the lease is done or no
longer current, nor when the fingerprint is the lease's own. -/
def rebindFingerprint (v : View) (fingerprint : Fingerprint) (t : Ticket)
    (e : ConnEntry) : Option Effect :=
  if t.phase.hasLease = false then none
  else if t.phase ≠ .leased ∨ v.closed = true ∨ v.mapped = false
      ∨ e.generation ≠ t.generation ∨ e.fingerprint ≠ t.fingerprint
      ∨ fingerprint = t.fingerprint then
    some { ticket := t, entry := e }
  else
    some { ticket := { t with fingerprint := fingerprint,
                              generation := e.generation + 1, cacheable := false }
           entry := { e with client := none, fingerprint := fingerprint,
                             generation := e.generation + 1 }
           closing := e.client.toList
           log := [.bound t.serverID fingerprint] }

/-- The steps a ticket can take. -/
inductive TicketOp
  | takeSlot
  | giveUp (err : AcquireError)
  | failReturn
  | reportTake
  | fetch (now : Int) (ctxErr : Bool)
  | probe (verdict : Verdict)
  | confirm (ctxErr : Bool)
  | closeDoomed
  | setClient (client : Option Client)
  | finish (discard : Bool)
  | finishReturn (now : Int)
  | releaseSlot
  | reportReturn
  | rebindFingerprint (fingerprint : Fingerprint)
  deriving Repr, DecidableEq

def ticketStep (v : View) : TicketOp → Ticket → ConnEntry → Option Effect
  | .takeSlot => Talus.SshPool.takeSlot v
  | .giveUp err => Talus.SshPool.giveUp v err
  | .failReturn => Talus.SshPool.failReturn
  | .reportTake => Talus.SshPool.reportTake
  | .fetch now ctxErr => Talus.SshPool.fetch v now ctxErr
  | .probe verdict => Talus.SshPool.probe v verdict
  | .confirm ctxErr => Talus.SshPool.confirm v ctxErr
  | .closeDoomed => Talus.SshPool.closeDoomed
  | .setClient client => Talus.SshPool.setClient v client
  | .finish discard => Talus.SshPool.finish discard
  | .finishReturn now => Talus.SshPool.finishReturn v now
  | .releaseSlot => Talus.SshPool.releaseSlot
  | .reportReturn => Talus.SshPool.reportReturn
  | .rebindFingerprint fingerprint => Talus.SshPool.rebindFingerprint v fingerprint

/-! ## §3. The steps of the pool. -/

/-- What ticket `t` sees of the pool. -/
def Pool.view (p : Pool) (t : Ticket) : View where
  closed := p.closed
  maxConns := p.maxConns
  mapped := p.conns t.serverID == some t.entry
  handed := p.handed

/-- Write the effect of a step of ticket `k` (now `t`) back. -/
def Pool.apply (p : Pool) (k : Nat) (t : Ticket) (eff : Effect) : Pool :=
  { p with
    tickets := p.tickets.set k eff.ticket
    entries := p.entries.set t.entry eff.entry
    closing := eff.closing ++ p.closing
    quota := fun c => p.quota c + if c = t.consumer then eff.quota else 0
    handed := eff.handed ++ p.handed
    closedClients := eff.closedNow ++ p.closedClients
    log := p.log ++ eff.log }

/-- One step of ticket `k`. -/
def Pool.ticket (p : Pool) (k : Nat) (op : TicketOp) : Option Pool :=
  match p.tickets[k]? with
  | none => none
  | some t =>
    match p.entries[t.entry]? with
    | none => none
    | some e => (ticketStep (p.view t) op t e).map (p.apply k t)

/-- The ticket an acquisition starts as. -/
def newTicket (s : ServerID) (fingerprint : Fingerprint) (fresh : Bool)
    (consumer : String) (i generation : Nat) (stale : Option Client) : Ticket where
  serverID := s
  fingerprint := fingerprint
  generation := generation
  entry := i
  fresh := fresh
  consumer := consumer
  phase := .waiting
  client := none
  doomed := stale
  cacheable := true
  took := 0
  gave := 0

/-- The entry as the first critical section of `acquireContext` leaves it: a
changed fingerprint starts a new generation without a cached client. -/
def ConnEntry.acquired (e : ConnEntry) (fingerprint : Fingerprint) : ConnEntry :=
  let e := if e.fingerprint ≠ fingerprint then
      { e with client := none, fingerprint := fingerprint,
               generation := e.generation + 1 }
    else e
  { e with waiters := e.waiters + 1 }

/-- The first critical section of `acquireContext` for a server without an
entry. -/
def Pool.acquireNew (p : Pool) (s : ServerID) (fingerprint : Fingerprint)
    (fresh : Bool) (consumer : String) : Pool :=
  let e : ConnEntry :=
    { key := s, client := none, fingerprint := fingerprint, generation := 1,
      lastUsed := 0, sem := 0, waiters := 1 }
  { p with
    entries := p.entries ++ [e]
    conns := fun s' => if s' = s then some p.entries.length else p.conns s'
    tickets := p.tickets ++
      [newTicket s fingerprint fresh consumer p.entries.length 1 none]
    log := p.log ++ [.bound s fingerprint] }

/-- … and for a server with entry `e` at address `i`. -/
def Pool.acquireOld (p : Pool) (s : ServerID) (i : Nat) (e : ConnEntry)
    (fingerprint : Fingerprint) (fresh : Bool) (consumer : String) : Pool :=
  let stale := if e.fingerprint ≠ fingerprint then e.client else none
  { p with
    entries := p.entries.set i (e.acquired fingerprint)
    tickets := p.tickets ++ [newTicket s fingerprint fresh consumer i
      (e.acquired fingerprint).generation stale]
    log := p.log ++ [.bound s fingerprint] }

/-- The first critical section of `acquireContext`. -/
def Pool.acquire (p : Pool) (s : ServerID) (fingerprint : Fingerprint)
    (fresh : Bool) (consumer : String) : Option Pool :=
  -- `ErrClosed`: nothing is touched
  if p.closed then some p
  else match p.conns s with
  | none => some (p.acquireNew s fingerprint fresh consumer)
  | some i => p.entries[i]?.map (p.acquireOld s i · fingerprint fresh consumer)

/-- The entry as `Invalidate` leaves it. -/
def ConnEntry.invalidated (e : ConnEntry) : ConnEntry :=
  { e with client := none, fingerprint := "", generation := e.generation + 1 }

/-- `Invalidate` up to its unlock, for a server with entry `e` at `i`. -/
def Pool.invalidateEntry (p : Pool) (s : ServerID) (i : Nat) (e : ConnEntry) : Pool :=
  { p with
    entries := p.entries.set i e.invalidated
    closing := e.client.toList ++ p.closing
    log := p.log ++ [.invalidated s] }

/-- `Invalidate`; a server without an entry is left alone. -/
def Pool.invalidate (p : Pool) (s : ServerID) : Option Pool :=
  match p.conns s with
  | none => some { p with log := p.log ++ [.invalidated s] }
  | some i => p.entries[i]?.map (p.invalidateEntry s i)

/-- `Close()` on a client some call has detached. -/
def Pool.closeClient (p : Pool) (c : Client) : Option Pool :=
  if c ∈ p.closing then
    some { p with closing := p.closing.erase c
                  closedClients := c :: p.closedClients }
  else none

/-- The entry's client has been idle for too long. -/
def ConnEntry.idle (e : ConnEntry) (now idleLimit : Int) : Bool :=
  e.client.isSome && decide (idleLimit < now - e.lastUsed)

/-- The entry after the first test of `evict`. -/
def ConnEntry.evicted (e : ConnEntry) (now idleLimit : Int) : ConnEntry :=
  if e.idle now idleLimit then { e with client := none } else e

/-- `entry.client == nil && len(entry.sem) == 0 && entry.waiters == 0`. -/
def ConnEntry.unused (e : ConnEntry) : Bool :=
  e.client.isNone && e.sem == 0 && e.waiters == 0

/-- One iteration of the loop of `evict`, at key `s` with entry `e` at `i`: an
idle client is dropped, and an unused entry deleted. -/
def Pool.evictEntry (p : Pool) (s : ServerID) (now idleLimit : Int) (i : Nat)
    (e : ConnEntry) : Pool :=
  { p with
    entries := p.entries.set i (e.evicted now idleLimit)
    conns := fun s' =>
      if (e.evicted now idleLimit).unused ∧ s' = s then none else p.conns s'
    closing := (if e.idle now idleLimit then e.client.toList else []) ++ p.closing }

def Pool.evict (p : Pool) (s : ServerID) (now idleLimit : Int) : Option Pool :=
  match p.conns s with
  | none => none
  | some i => p.entries[i]?.map (p.evictEntry s now idleLimit i)

/-- The lease is in `p.leases`. -/
def Phase.inLeases : Phase → Bool
  | .leased | .finishing _ => true
  | _ => false

/-- The entry is the value of some key of the map. -/
def Pool.isMapped (p : Pool) (i : Nat) (e : ConnEntry) : Bool :=
  p.conns e.key == some i

/-- The critical section of `Close`. -/
def Pool.closeAll (p : Pool) : Pool :=
  { p with
    closed := true
    entries := p.entries.mapIdx fun i e =>
      if p.isMapped i e then { e with client := none } else e
    closing := (p.entries.mapIdx fun i e =>
      if p.isMapped i e then e.client else none).reduceOption ++ p.closing
    active := (List.range p.tickets.length).filter fun k =>
      (p.tickets[k]?.map (·.phase.inLeases)).getD false
    conns := fun _ => none }

/-- `Close`; `closeOnce` runs it once. -/
def Pool.close (p : Pool) : Option Pool :=
  if p.closed then some p else some p.closeAll

/-- `Close` closes the client of one lease that was active; `finish` has
taken the client of a lease that is done. -/
def Pool.closeLease (p : Pool) (k : Nat) : Option Pool :=
  if k ∈ p.active then
    match p.tickets[k]? with
    | none => none
    | some t =>
      some { p with
        active := p.active.erase k
        closedClients :=
          (if t.phase = .leased then t.client.toList else []) ++ p.closedClients }
  else none

/-- Everything that can happen to the pool. -/
inductive Op
  | acquire (s : ServerID) (fingerprint : Fingerprint) (fresh : Bool) (consumer : String)
  | ticket (k : Nat) (op : TicketOp)
  | invalidate (s : ServerID)
  | closeClient (c : Client)
  | evict (s : ServerID) (now idleLimit : Int)
  | close
  | closeLease (k : Nat)
  deriving Repr, DecidableEq

def step (p : Pool) : Op → Option Pool
  | .acquire s fingerprint fresh consumer => p.acquire s fingerprint fresh consumer
  | .ticket k op => p.ticket k op
  | .invalidate s => p.invalidate s
  | .closeClient c => p.closeClient c
  | .evict s now idleLimit => p.evict s now idleLimit
  | .close => p.close
  | .closeLease k => p.closeLease k

/-- The pool from `NewPool` on, under every interleaving of its users. -/
def system : System Pool Op where
  init p := ∃ maxConns, p = newPool maxConns
  step := step

end Talus.SshPool
