/-
  Talus.SshPool.ServiceLease
  **A SERVICE LEASE SETTLES ONCE** (`service/lease.go`).

  An `sshLease` pins one handle of the pool.  Its owner runs one primitive at
  a time on it (`begin` … `end`) and asks for the handle to be given back
  (`Release`, `Discard`, `Cancel`) whenever it likes, also while a primitive
  runs.  Three flags decide when that happens:

      active      a primitive runs, or its cleanup is still pending
      closing     some caller has asked for the handle to be given back
      unhealthy   the connection must not be cached

  `settleLocked` is called wherever one of them may have changed; it starts
  the goroutine that calls `ReleaseHandle` or `DiscardHandle`.  The pool of
  `Talus.SshPool.Model` runs beside the lease and is told of the hand-back.

    • `LeaseCore` — the flags against the log of what has happened,
    • `LeaseInv` — … and settlement has happened exactly when it had to,
    • `HandleAt` — where the pool's ticket stands meanwhile,
    • `lease_settles_once` — the result, for every interleaving.
-/
import Talus.Base.History
import Talus.SshPool.Slots

namespace Talus.SshPool

open Talus.Base List Option

/-! ## §1. The lease. -/

/-- Where the caller of the running primitive stands. -/
inductive Primitive
  | idle
  /-- between `begin` and `end` -/
  | running
  /-- `end` was told of a pending cleanup; its goroutine waits for it -/
  | cleaning
  deriving Repr, DecidableEq

/-- The goroutine of `settleLocked`. -/
inductive Settlement
  | none
  /-- started, the pool not called yet -/
  | owed (discard : Bool)
  /-- the pool has been called -/
  | handed (discard : Bool)
  deriving Repr, DecidableEq

/-- `sshLease`.  `handle` is the ticket of the pool; `cancel` is the cancel
function of the running primitive, with whether it has been called. -/
structure SshLease where
  handle : Nat
  active : Bool
  closing : Bool
  settled : Bool
  unhealthy : Bool
  cancel : Option Bool
  primitive : Primitive
  settlement : Settlement
  deriving Repr, DecidableEq

/-- `newSSHLease`. -/
def newSshLease (handle : Nat) : SshLease where
  handle := handle
  active := false
  closing := false
  settled := false
  unhealthy := false
  cancel := none
  primitive := .idle
  settlement := .none

namespace SshLease

/-- `settleLocked` returns early unless the lease is closing, idle and not
settled yet. -/
def waits (l : SshLease) : Bool := !l.closing || l.active || l.settled

def settleLocked (l : SshLease) : SshLease :=
  if l.waits then l
  else { l with settled := true, settlement := .owed l.unhealthy }

/-- `finish`; `Discard` and `Cancel` come with a cause, `Release` with none. -/
def finish (l : SshLease) (discard : Bool) : SshLease :=
  if l.settled then l
  else settleLocked { l with
    closing := true
    unhealthy := l.unhealthy || discard
    cancel := if discard then l.cancel.map fun _ => true else l.cancel }

inductive BeginError
  /-- `errSSHLeaseUnusable` -/
  | unusable
  /-- `ErrStaleGeneration` -/
  | stale
  /-- another primitive is active -/
  | busy
  /-- `ctx.Err()` -/
  | context
  deriving Repr, DecidableEq

/-- `begin`; `current` is what `IsCurrent` answers. -/
def beginPrimitive (l : SshLease) (current ctxErr : Bool) : SshLease × Option BeginError :=
  if l.closing || l.settled || l.unhealthy then (l, some .unusable)
  else if !current then ({ l with unhealthy := true }, some .stale)
  else if l.active then (l, some .busy)
  else if ctxErr then (l, some .context)
  else ({ l with active := true, cancel := some false, primitive := .running }, none)

/-- `end` without a pending cleanup. -/
def endPrimitive (l : SshLease) (unhealthy : Bool) : SshLease :=
  settleLocked { l with
    active := false
    unhealthy := l.unhealthy || unhealthy
    cancel := none
    primitive := .idle }

end SshLease

/-! ## §2. The lease beside the pool. -/

/-- What the result speaks about, in the order it happened. -/
inductive LeaseEvent
  /-- a `begin` succeeded -/
  | began
  /-- a primitive ended, with its cleanup -/
  | ended (unhealthy : Bool)
  /-- a `begin` found the target's generation changed -/
  | staled
  /-- `Release`, `Discard` or `Cancel` was called -/
  | requested (discard : Bool)
  /-- `settleLocked` settled the lease -/
  | settled (discard : Bool)
  /-- `ReleaseHandle` or `DiscardHandle` was called -/
  | handed (discard : Bool)
  deriving Repr, DecidableEq

namespace LeaseEvent

def isBegan : LeaseEvent → Bool
  | .began => true
  | _ => false

def isEnded : LeaseEvent → Bool
  | .ended _ => true
  | _ => false

def isHanded : LeaseEvent → Bool
  | .handed _ => true
  | _ => false

def isSettled : LeaseEvent → Bool
  | .settled _ => true
  | _ => false

/-- Closing is requested. -/
def closes : LeaseEvent → Bool
  | .requested _ => true
  | _ => false

/-- The connection may not be cached any more. -/
def spoils : LeaseEvent → Bool
  | .requested discard => discard
  | .ended unhealthy => unhealthy
  | .staled => true
  | _ => false

end LeaseEvent

structure LeaseWorld where
  pool : Pool
  lease : SshLease
  /-- ghost -/
  log : List LeaseEvent

inductive LeaseOp
  | begin (ctxErr : Bool)
  /-- `end` with no pending cleanup -/
  | finishPrimitive (unhealthy : Bool)
  /-- `end` with a pending cleanup -/
  | deferEnd
  /-- the pending cleanup is done: `l.end(true, nil)` -/
  | cleanupDone
  /-- `Release` for `false`, `Discard` and `Cancel` for `true` -/
  | request (discard : Bool)
  /-- the goroutine of `settleLocked` calls the pool -/
  | handBack
  /-- another user of the pool moves -/
  | pool (op : Op)
  deriving Repr, DecidableEq

/-- The event of `settleLocked`, called on `l`. -/
def settleEvent (l : SshLease) : List LeaseEvent :=
  if l.waits then [] else [.settled l.unhealthy]

/-- `begin` asks the pool about the handle's generation. -/
def LeaseWorld.current (w : LeaseWorld) : Bool :=
  match w.pool.tickets[w.lease.handle]? with
  | some t => isCurrent w.pool t.serverID t.generation
  | none => false

/-- A primitive ends now. -/
def LeaseWorld.ends (w : LeaseWorld) (unhealthy : Bool) : LeaseWorld :=
  { w with
    lease := w.lease.endPrimitive unhealthy
    log := w.log ++ .ended unhealthy ::
      settleEvent { w.lease with active := false, unhealthy := w.lease.unhealthy || unhealthy } }

/-- The handle is the lease's own: nobody else gives it back. -/
def LeaseWorld.foreign (w : LeaseWorld) : Op → Bool
  | .ticket k (.finish _) => k != w.lease.handle
  | _ => true

def leaseStep (w : LeaseWorld) : LeaseOp → Option LeaseWorld
  | .begin ctxErr =>
    let r := w.lease.beginPrimitive w.current ctxErr
    some { w with
      lease := r.1
      log := w.log ++ match r.2 with
        | none => [.began]
        | some .stale => [.staled]
        | some _ => [] }
  | .finishPrimitive unhealthy =>
    if w.lease.primitive = .running then some (w.ends unhealthy) else none
  | .deferEnd =>
    if w.lease.primitive = .running then
      some { w with lease := { w.lease with primitive := .cleaning } }
    else none
  | .cleanupDone => if w.lease.primitive = .cleaning then some (w.ends true) else none
  | .request discard =>
    some { w with
      lease := w.lease.finish discard
      log := w.log ++ .requested discard ::
        settleEvent { w.lease with closing := true, unhealthy := w.lease.unhealthy || discard } }
  | .handBack =>
    match w.lease.settlement with
    | .owed discard =>
      (w.pool.ticket w.lease.handle (.finish discard)).map fun p =>
        { pool := p
          lease := { w.lease with settlement := .handed discard }
          log := w.log ++ [.handed discard] }
    | _ => none
  | .pool op =>
    if w.foreign op then (step w.pool op).map fun p => { w with pool := p } else none

/-- A lease that has just been made for a handle of a pool in use. -/
def leaseSystem : System LeaseWorld LeaseOp where
  init w := system.Reachable w.pool
    ∧ (∃ t, w.pool.tickets[w.lease.handle]? = some t ∧ t.phase = .leased)
    ∧ w.lease = newSshLease w.lease.handle ∧ w.log = []
  step := leaseStep

/-! ## §3. The flags against the log. -/

/-- Every primitive that began has ended. -/
def Idle (log : List LeaseEvent) : Prop :=
  log.countP LeaseEvent.isBegan = log.countP LeaseEvent.isEnded

/-- What must have gone before an event. -/
def Proper (before : List LeaseEvent) : LeaseEvent → Prop
  | .began => Idle before ∧ before.any LeaseEvent.closes = false
      ∧ before.any LeaseEvent.spoils = false
  | .settled discard => Idle before ∧ before.any LeaseEvent.closes = true
      ∧ discard = before.any LeaseEvent.spoils ∧ before.any LeaseEvent.isSettled = false
  | .handed discard => Idle before ∧ .settled discard ∈ before
      ∧ before.any LeaseEvent.isHanded = false
  | _ => True

/-- The flags of a lease say what its log says; this holds also between a
change of the flags and the call of `settleLocked`. -/
structure LeaseCore (l : SshLease) (log : List LeaseEvent) : Prop where
  active : l.active = true ↔ l.primitive ≠ .idle
  cancel : l.cancel.isSome = l.active
  balance : log.countP LeaseEvent.isBegan = log.countP LeaseEvent.isEnded + l.active.toNat
  closing : l.closing = log.any LeaseEvent.closes
  unhealthy : l.settled = false → l.unhealthy = log.any LeaseEvent.spoils
  unsettled : l.settled = false → l.settlement = .none
    ∧ log.any LeaseEvent.isHanded = false ∧ log.any LeaseEvent.isSettled = false
  proper : Justified Proper log

structure LeaseInv (l : SshLease) (log : List LeaseEvent) : Prop extends LeaseCore l log where
  /-- settled exactly when closing was requested and no primitive is active -/
  settled : l.settled = (l.closing && !l.active)
  started : l.settled = true → l.settlement ≠ .none
  owed : ∀ discard, l.settlement = .owed discard →
    .settled discard ∈ log ∧ log.any LeaseEvent.isHanded = false

theorem newSshLease_inv (handle : Nat) : LeaseInv (newSshLease handle) [] := by
  refine ⟨⟨by simp [newSshLease], rfl, rfl, rfl, fun _ => rfl, fun _ => ⟨rfl, rfl, rfl⟩,
    justified_nil⟩, rfl, by simp [newSshLease], by simp [newSshLease]⟩

variable {l : SshLease} {log : List LeaseEvent}

/-- **`settleLocked`** settles a lease whose flags ask for it, and leaves the
others alone. -/
theorem LeaseCore.settle (h : LeaseCore l log)
    (hs : l.settled = false) : LeaseInv l.settleLocked (log ++ settleEvent l) := by
  obtain ⟨hnone, hhanded, hfirst⟩ := h.unsettled hs
  unfold SshLease.settleLocked settleEvent
  by_cases hw : l.waits = true
  · rw [if_pos hw, if_pos hw, append_nil]
    refine ⟨h, ?_, fun hset => ?_, fun discard hd => ?_⟩
    · simp only [SshLease.waits, hs, Bool.or_false] at hw
      rw [hs]
      cases hc : l.closing <;> cases ha : l.active <;> simp_all
    · rw [hs] at hset
      cases hset
    · rw [hnone] at hd
      cases hd
  · rw [if_neg hw, if_neg hw]
    have hflags : l.closing = true ∧ l.active = false := by
      simpa [SshLease.waits, hs] using hw
    have hidle : Idle log := by
      have hb := h.balance
      rw [hflags.2] at hb
      simpa [Idle] using hb
    refine ⟨⟨h.active, h.cancel, ?_, ?_, by simp, by simp, ?_⟩, ?_, by simp, ?_⟩
    · simpa [LeaseEvent.isBegan, LeaseEvent.isEnded] using h.balance
    · simpa [LeaseEvent.closes] using h.closing
    · exact h.proper.snoc ⟨hidle, h.closing ▸ hflags.1, h.unhealthy hs, hfirst⟩
    · simp [hflags]
    · intro discard hd
      cases hd
      simpa [LeaseEvent.isHanded] using hhanded

/-! ## §4. One step. -/

/-- `begin`: refused, refused for a changed generation, or admitted. -/
theorem LeaseInv.begin (h : LeaseInv l log) (current ctxErr : Bool) :
    LeaseInv (l.beginPrimitive current ctxErr).1
      (log ++ match (l.beginPrimitive current ctxErr).2 with
        | none => [.began]
        | some .stale => [.staled]
        | some _ => []) := by
  unfold SshLease.beginPrimitive
  split
  · simpa using h
  · next hopen =>
    obtain ⟨⟨hc, hset⟩, hu⟩ : (l.closing = false ∧ l.settled = false) ∧ l.unhealthy = false := by
      simpa [not_or] using hopen
    have hclosed := h.closing ▸ hc
    have hspoilt := h.unhealthy hset ▸ hu
    obtain ⟨hnone, hhanded, hfirst⟩ := h.unsettled hset
    split
    · -- the pinned generation is stale: the lease may only be discarded
      refine ⟨⟨h.active, h.cancel, ?_, ?_, ?_, ?_, h.proper.snoc trivial⟩, h.settled, h.started, ?_⟩
      · simpa [LeaseEvent.isBegan, LeaseEvent.isEnded] using h.balance
      · simpa [LeaseEvent.closes] using h.closing
      · simp [LeaseEvent.spoils]
      · intro _
        refine ⟨hnone, ?_, ?_⟩
        · simpa [LeaseEvent.isHanded] using hhanded
        · simpa [LeaseEvent.isSettled] using hfirst
      · simp [hnone]
    · split
      · simpa using h
      · next hidle =>
        have ha : l.active = false := by simpa using hidle
        split
        · simpa using h
        · refine ⟨⟨by simp, rfl, ?_, ?_, ?_, ?_, ?_⟩, ?_, ?_, ?_⟩
          · simpa [LeaseEvent.isBegan, LeaseEvent.isEnded, ha] using h.balance
          · simpa [LeaseEvent.closes] using h.closing
          · simpa [LeaseEvent.spoils] using h.unhealthy
          · simpa [LeaseEvent.isHanded, LeaseEvent.isSettled] using h.unsettled
          · refine h.proper.snoc ⟨?_, hclosed, hspoilt⟩
            simpa [Idle, ha] using h.balance
          · simp [hset, hc]
          · simp [hset]
          · simp [hnone]

/-- `end`: the primitive is over, and the lease settles if it was asked to. -/
theorem LeaseInv.ends (h : LeaseInv l log) (hp : l.primitive ≠ .idle) (unhealthy : Bool) :
    LeaseInv (l.endPrimitive unhealthy)
      (log ++ .ended unhealthy ::
        settleEvent { l with active := false, unhealthy := l.unhealthy || unhealthy }) := by
  have ha : l.active = true := h.active.mpr hp
  have hset : l.settled = false := by
    rw [h.settled, ha]
    simp
  have hcore : LeaseCore
      { l with active := false, unhealthy := l.unhealthy || unhealthy, cancel := none,
               primitive := .idle } (log ++ [.ended unhealthy]) := by
    refine ⟨by simp, rfl, ?_, ?_, ?_, ?_, h.proper.snoc trivial⟩
    · have hb := h.balance
      rw [ha] at hb
      simpa [LeaseEvent.isBegan, LeaseEvent.isEnded] using hb
    · simpa [LeaseEvent.closes] using h.closing
    · intro hs
      simp [LeaseEvent.spoils, h.unhealthy hs]
    · simpa [LeaseEvent.isHanded, LeaseEvent.isSettled] using h.unsettled
  simpa [SshLease.endPrimitive, settleEvent, SshLease.waits] using hcore.settle hset

/-- `Release`, `Discard`, `Cancel`: a settled lease ignores them, an idle one
settles, an active one will when its primitive ends. -/
theorem LeaseInv.request (h : LeaseInv l log) (discard : Bool) :
    LeaseInv (l.finish discard)
      (log ++ .requested discard ::
        settleEvent { l with closing := true, unhealthy := l.unhealthy || discard }) := by
  unfold SshLease.finish
  split
  · next hset =>
    have hc : l.closing = true := by
      have := h.settled
      rw [hset] at this
      simp_all
    have hev : settleEvent { l with closing := true, unhealthy := l.unhealthy || discard } = [] := by
      simp [settleEvent, SshLease.waits, hset]
    rw [hev]
    refine ⟨⟨h.active, h.cancel, ?_, ?_, by simp [hset], by simp [hset],
      h.proper.snoc trivial⟩, h.settled, h.started, ?_⟩
    · simpa [LeaseEvent.isBegan, LeaseEvent.isEnded] using h.balance
    · simp [LeaseEvent.closes, hc]
    · intro d hd
      simpa [LeaseEvent.isHanded] using h.owed d hd
  · next hopen =>
    have hset : l.settled = false := by simpa using hopen
    have hcore : LeaseCore
        { l with closing := true, unhealthy := l.unhealthy || discard
                 cancel := if discard then l.cancel.map fun _ => true else l.cancel }
        (log ++ [.requested discard]) := by
      refine ⟨h.active, ?_, ?_, by simp [LeaseEvent.closes], ?_, ?_, h.proper.snoc trivial⟩
      · rw [← h.cancel]
        cases discard <;> simp
      · simpa [LeaseEvent.isBegan, LeaseEvent.isEnded] using h.balance
      · intro hs
        simp [LeaseEvent.spoils, h.unhealthy hs]
      · simpa [LeaseEvent.isHanded, LeaseEvent.isSettled] using h.unsettled
    simpa [settleEvent, SshLease.waits] using hcore.settle hset

variable {discard : Bool}

/-- The goroutine calls the pool. -/
theorem LeaseInv.handBack (h : LeaseInv l log) (ho : l.settlement = .owed discard) :
    LeaseInv { l with settlement := .handed discard } (log ++ [.handed discard]) := by
  obtain ⟨hin, hhanded⟩ := h.owed discard ho
  have hset : l.settled = true := by
    cases hs : l.settled with
    | true => rfl
    | false =>
      have := (h.unsettled hs).1
      rw [ho] at this
      cases this
  have ha : l.active = false := by
    have := h.settled
    rw [hset] at this
    simp_all
  refine ⟨⟨h.active, h.cancel, ?_, ?_, by simp [hset], by simp [hset], ?_⟩, h.settled, by simp, by simp⟩
  · simpa [LeaseEvent.isBegan, LeaseEvent.isEnded] using h.balance
  · simpa [LeaseEvent.closes] using h.closing
  · refine h.proper.snoc ⟨?_, hin, hhanded⟩
    simpa [Idle, ha] using h.balance

/-! ## §5. The handle in the pool. -/

/-- The pool has been told to give the ticket back, as `discard` says. -/
def Phase.handedBack (discard : Bool) : Phase → Bool
  | .finishing d => d == discard
  | .releasing how | .released how | .done how => how == .settled
  | _ => false

/-- Where the ticket of a lease stands in the pool. -/
def HandleAt (l : SshLease) (t : Ticket) : Prop :=
  match l.settlement with
  | .handed discard => t.phase.handedBack discard = true
  | _ => t.phase = .leased

section
variable {v : View} {t : Ticket} {e : ConnEntry} {eff : Effect}

theorem setClient_phase {client : Option Client} (h : setClient v client t e = some eff) :
    eff.ticket.phase = t.phase := by
  simp only [setClient] at h
  split_ifs at h <;>
    · cases h
      rfl

theorem rebindFingerprint_phase {fingerprint : Fingerprint}
    (h : rebindFingerprint v fingerprint t e = some eff) : eff.ticket.phase = t.phase := by
  unfold rebindFingerprint at h
  split at h
  · cases h
  · split at h <;>
      · cases h
        rfl

/-- Only `finish` takes a ticket out of `.leased`. -/
theorem ticketStep_leased {op : TicketOp} (h : ticketStep v op t e = some eff)
    (hp : t.phase = .leased) (hop : ∀ discard, op ≠ .finish discard) :
    eff.ticket.phase = .leased := by
  cases op with
  | finish discard => exact absurd rfl (hop discard)
  | setClient c => exact (setClient_phase h).trans hp
  | rebindFingerprint f => exact (rebindFingerprint_phase h).trans hp
  | closeDoomed =>
    simp only [ticketStep, closeDoomed] at h
    split at h
    · cases h
      exact hp
    · cases h
  | takeSlot => simp [ticketStep, takeSlot, hp] at h
  | giveUp err => simp [ticketStep, giveUp, hp] at h
  | failReturn => simp [ticketStep, failReturn, hp] at h
  | reportTake => simp [ticketStep, reportTake, hp] at h
  | fetch now ctxErr => simp [ticketStep, fetch, hp] at h
  | probe verdict => simp [ticketStep, probe, hp] at h
  | confirm ctxErr => simp [ticketStep, confirm, hp] at h
  | finishReturn now => simp [ticketStep, finishReturn, hp] at h
  | releaseSlot => simp [ticketStep, releaseSlot, hp] at h
  | reportReturn => simp [ticketStep, reportReturn, hp] at h

/-- A ticket that was told to be given back stays so. -/
theorem TicketMove.handedBack (h : TicketMove v t e eff) (ht : t.phase.handedBack discard = true) :
    eff.ticket.phase.handedBack discard = true := by
  cases h <;> simp_all [Phase.handedBack]

end

variable {t : Ticket}

/-- Other tickets, and the pool's own steps, leave a ticket alone. -/
theorem step_ticket_at {p p' : Pool} {op : Op} {k : Nat} (h : step p op = some p')
    (ht : p.tickets[k]? = some t) : p'.tickets[k]? = some t ∨ ∃ top, op = .ticket k top := by
  cases op with
  | acquire s f fresh consumer =>
    left
    have hk : k < p.tickets.length := (List.getElem?_eq_some_iff.mp ht).1
    rcases acquire_cases h with ⟨_, rfl⟩ | ⟨_, _, rfl⟩ | ⟨i, e, _, _, _, rfl⟩
    · exact ht
    · simpa [Pool.acquireNew, getElem?_append_left hk] using ht
    · simpa [Pool.acquireOld, getElem?_append_left hk] using ht
  | ticket j top =>
    by_cases hj : j = k
    · exact .inr ⟨top, by rw [hj]⟩
    · obtain ⟨u, e, eff, _, _, _, rfl⟩ := ticket_cases h
      exact .inl (by simpa [Pool.apply, getElem?_set_ne hj] using ht)
  | invalidate s =>
    rcases invalidate_cases h with ⟨_, rfl⟩ | ⟨i, e, _, _, rfl⟩ <;> exact .inl ht
  | closeClient c =>
    obtain ⟨_, rfl⟩ := closeClient_cases h
    exact .inl ht
  | evict s now idleLimit =>
    obtain ⟨i, e, _, _, rfl⟩ := evict_cases h
    exact .inl ht
  | close => rcases close_cases h with ⟨_, rfl⟩ | ⟨_, rfl⟩ <;> exact .inl ht
  | closeLease j =>
    obtain ⟨u, _, rfl⟩ := closeLease_cases h
    exact .inl ht

variable {w : LeaseWorld}

/-- A foreign step of the pool leaves the handle where it is. -/
theorem HandleAt.pool {p' : Pool} {op : Op} (h : step w.pool op = some p')
    (hf : w.foreign op = true) (ht : w.pool.tickets[w.lease.handle]? = some t)
    (hat : HandleAt w.lease t) :
    ∃ t', p'.tickets[w.lease.handle]? = some t' ∧ HandleAt w.lease t' := by
  rcases step_ticket_at h ht with hsame | ⟨top, rfl⟩
  · exact ⟨t, hsame, hat⟩
  · have hop : ∀ discard, top ≠ .finish discard := by
      rintro discard rfl
      simp [LeaseWorld.foreign] at hf
    change w.pool.ticket w.lease.handle top = some p' at h
    unfold Pool.ticket at h
    rw [ht] at h
    dsimp only at h
    split at h
    · cases h
    · next e he =>
      obtain ⟨eff, heff, rfl⟩ := map_eq_some_iff.mp h
      have hk : w.lease.handle < w.pool.tickets.length := (List.getElem?_eq_some_iff.mp ht).1
      refine ⟨eff.ticket, by simp [Pool.apply, hk], ?_⟩
      unfold HandleAt at hat ⊢
      split at hat
      · exact (ticketStep_move heff).handedBack hat
      · exact ticketStep_leased heff hat hop

/-- The pool takes the handle back. -/
theorem finish_leased {p : Pool} {k : Nat} (hinv : SlotInv p) (ht : p.tickets[k]? = some t)
    (hp : t.phase = .leased) :
    ∃ p', p.ticket k (.finish discard) = some p'
      ∧ p'.tickets[k]? = some { t with phase := .finishing discard } := by
  have hk : k < p.tickets.length := (List.getElem?_eq_some_iff.mp ht).1
  obtain ⟨e, he⟩ : ∃ e, p.entries[t.entry]? = some e :=
    ⟨_, getElem?_eq_getElem (hinv.entry_lt t (mem_of_getElem? ht))⟩
  refine ⟨p.apply k t { ticket := { t with phase := .finishing discard }, entry := e }, ?_, ?_⟩
  · simp [Pool.ticket, ht, he, ticketStep, finish, hp]
  · simp [Pool.apply, hk]

/-! ## §6. Every run. -/

@[simp] theorem settleLocked_handle (l : SshLease) : l.settleLocked.handle = l.handle := by
  unfold SshLease.settleLocked
  split <;> rfl

/-- Until the pool is called, the handle is where it was. -/
theorem HandleAt.settle {m : SshLease} (h : HandleAt l t) (hl : l.settlement = .none)
    (hm : m.settlement = .none) : HandleAt m.settleLocked t := by
  unfold HandleAt at h ⊢
  rw [hl] at h
  unfold SshLease.settleLocked
  split
  · next discard hd =>
    split at hd
    · rw [hm] at hd
      cases hd
    · cases hd
  · exact h

structure LeaseWorldInv (w : LeaseWorld) : Prop where
  pool : system.Reachable w.pool
  lease : LeaseInv w.lease w.log
  handle : ∃ t, w.pool.tickets[w.lease.handle]? = some t ∧ HandleAt w.lease t

theorem LeaseWorldInv.ends (h : LeaseWorldInv w)
    (hp : w.lease.primitive ≠ .idle) (unhealthy : Bool) : LeaseWorldInv (w.ends unhealthy) := by
  obtain ⟨t, ht, hat⟩ := h.handle
  have hset : w.lease.settled = false := by
    rw [h.lease.settled, h.lease.active.mpr hp]
    simp
  have hnone := (h.lease.unsettled hset).1
  refine ⟨h.pool, h.lease.ends hp unhealthy, t, ?_, hat.settle hnone hnone⟩
  simpa [LeaseWorld.ends, SshLease.endPrimitive] using ht

theorem LeaseWorldInv.request {w' : LeaseWorld} (h : LeaseWorldInv w)
    (hw : leaseStep w (.request discard) = some w') : LeaseWorldInv w' := by
  obtain ⟨t, ht, hat⟩ := h.handle
  cases hw
  refine ⟨h.pool, h.lease.request discard, t, ?_, ?_⟩
  · unfold SshLease.finish
    split <;> simpa using ht
  · unfold SshLease.finish
    split
    · exact hat
    · next hopen =>
      have hnone := (h.lease.unsettled (by simpa using hopen)).1
      exact hat.settle hnone hnone

/-- The goroutine finds the handle where the lease left it. -/
theorem LeaseWorldInv.handBack_enabled (h : LeaseWorldInv w)
    (ho : w.lease.settlement = .owed discard) :
    ∃ w', leaseStep w .handBack = some w' ∧ LeaseWorldInv w'
      ∧ w'.lease.settlement = .handed discard
      ∧ ∃ t, w'.pool.tickets[w.lease.handle]? = some t ∧ t.phase = .finishing discard := by
  obtain ⟨t, ht, hat⟩ := h.handle
  have hp : t.phase = .leased := by
    unfold HandleAt at hat
    rw [ho] at hat
    exact hat
  obtain ⟨p', hfin, ht'⟩ :
      ∃ p', w.pool.ticket w.lease.handle (.finish discard) = some p'
        ∧ p'.tickets[w.lease.handle]? = some { t with phase := .finishing discard } :=
    finish_leased (reachable_slotInv h.pool) ht hp
  refine ⟨{ pool := p', lease := { w.lease with settlement := .handed discard }
            log := w.log ++ [.handed discard] }, ?_, ⟨?_, h.lease.handBack ho, _, ht', ?_⟩, rfl,
    _, ht', rfl⟩
  · unfold leaseStep
    rw [ho]
    simp [hfin]
  · exact h.pool.step (e := .ticket w.lease.handle (.finish discard)) hfin
  · show Phase.handedBack discard (.finishing discard) = true
    simp [Phase.handedBack]

/-- **Every step of the lease, and of the pool beside it, keeps the
invariant.** -/
theorem LeaseWorldInv.step {w' : LeaseWorld} {op : LeaseOp} (h : LeaseWorldInv w)
    (hw : leaseStep w op = some w') : LeaseWorldInv w' := by
  cases op with
  | begin ctxErr =>
    cases hw
    obtain ⟨t, ht, hat⟩ := h.handle
    have hsame : (w.lease.beginPrimitive w.current ctxErr).1.handle = w.lease.handle
        ∧ (w.lease.beginPrimitive w.current ctxErr).1.settlement = w.lease.settlement := by
      unfold SshLease.beginPrimitive
      split_ifs <;> exact ⟨rfl, rfl⟩
    refine ⟨h.pool, h.lease.begin _ _, t, ?_, ?_⟩
    · rw [hsame.1]
      exact ht
    · unfold HandleAt at hat ⊢
      rw [hsame.2]
      exact hat
  | finishPrimitive unhealthy =>
    simp only [leaseStep] at hw
    split at hw
    · next hp =>
      cases hw
      exact h.ends (by simp [hp]) unhealthy
    · cases hw
  | deferEnd =>
    simp only [leaseStep] at hw
    split at hw
    · next hp =>
      cases hw
      have ha : w.lease.active = true := h.lease.active.mpr (by simp [hp])
      -- the caller has returned, the primitive is still active
      exact ⟨h.pool, { h.lease with active := by simp [ha] }, h.handle⟩
    · cases hw
  | cleanupDone =>
    simp only [leaseStep] at hw
    split at hw
    · next hp =>
      cases hw
      exact h.ends (by simp [hp]) true
    · cases hw
  | request discard => exact h.request hw
  | handBack =>
    cases ho : w.lease.settlement with
    | owed discard =>
      obtain ⟨v, hv, hinv, _⟩ := h.handBack_enabled ho
      rw [hw] at hv
      cases hv
      exact hinv
    | none | handed discard => simp [leaseStep, ho] at hw
  | pool op =>
    simp only [leaseStep] at hw
    split at hw
    · next hf =>
      obtain ⟨p', hp, rfl⟩ := map_eq_some_iff.mp hw
      obtain ⟨t, ht, hat⟩ := h.handle
      have hmoved := HandleAt.pool hp hf ht hat
      exact ⟨h.pool.step (e := op) hp, h.lease, hmoved⟩
    · cases hw

theorem reachable_leaseWorldInv (h : leaseSystem.Reachable w) : LeaseWorldInv w := by
  refine h.invariant ?_ fun s e s' hs he => hs.step he
  rintro s ⟨hpool, ⟨t, ht, hp⟩, hnew, hlog⟩
  refine ⟨hpool, ?_, t, ht, ?_⟩
  · rw [hlog, hnew]
    exact newSshLease_inv _
  · rw [hnew]
    exact hp

/-- A handle handed back for discarding is never put back into the cache. -/
theorem finishReturn_discarded {v : View} {now : Int} {e : ConnEntry} {eff : Effect}
    (ht : t.phase.handedBack true = true) (h : finishReturn v now t e = some eff) :
    eff.entry = e := by
  unfold finishReturn at h
  split at h
  · next discard hp =>
    have hd : discard = true := by simpa [hp, Phase.handedBack] using ht
    split at h
    · next hc => exact absurd hc.1 (by simp [hd])
    · cases h
      rfl
  · cases h

/-- **A lease settles once.**  Whatever its callers, its cleanups and the pool
do, and in whatever order:
* the handle is handed back at most once, after a settlement, and with no
  primitive or cleanup under way;
* the lease is settled exactly when closing has been requested and no
  primitive or cleanup is under way, and then the hand-back is owed or done;
  while owed it can take place, and the pool's ticket is then given back as
  settled;
* a settlement discards exactly when a discard, a cancellation, an unhealthy
  end or a changed generation was recorded before it, and the pool never
  caches a discarded handle's client;
* no `begin` succeeds after closing was requested, after an unhealthy end, or
  beside another primitive. -/
theorem lease_settles_once (w : LeaseWorld) (h : leaseSystem.Reachable w) :
    w.log.countP LeaseEvent.isHanded ≤ 1 ∧ w.log.countP LeaseEvent.isSettled ≤ 1
      ∧ (∀ before discard after, w.log = before ++ .handed discard :: after →
          Idle before ∧ .settled discard ∈ before)
      ∧ (∀ before discard after, w.log = before ++ .settled discard :: after →
          Idle before ∧ (∃ d, .requested d ∈ before)
            ∧ (discard = true ↔ ∃ ev ∈ before, ev.spoils = true))
      ∧ (w.lease.settled = true ↔ (∃ d, .requested d ∈ w.log) ∧ w.lease.primitive = .idle)
      ∧ (w.lease.primitive = .idle ↔ Idle w.log)
      ∧ (w.lease.settled = true ↔ w.lease.settlement ≠ .none)
      ∧ (∀ discard, w.lease.settlement = .owed discard →
          ∃ w', leaseStep w .handBack = some w' ∧ w'.lease.settlement = .handed discard
            ∧ ∃ t, w'.pool.tickets[w.lease.handle]? = some t ∧ t.phase = .finishing discard)
      ∧ (w.lease.settlement = .handed true →
          ∃ t, w.pool.tickets[w.lease.handle]? = some t
            ∧ ∀ v now e eff, finishReturn v now t e = some eff → eff.entry = e)
      ∧ (∀ before after, w.log = before ++ .began :: after →
          Idle before ∧ ∀ ev ∈ before, ev.closes = false ∧ ev.spoils = false) := by
  have hinv := reachable_leaseWorldInv h
  have hl := hinv.lease
  have hclosed : ∀ log : List LeaseEvent,
      log.any LeaseEvent.closes = true ↔ ∃ d, .requested d ∈ log := by
    intro log
    rw [List.any_eq_true]
    constructor
    · rintro ⟨ev, hev, hc⟩
      cases ev with
      | requested d => exact ⟨d, hev⟩
      | _ => simp [LeaseEvent.closes] at hc
    · rintro ⟨d, hd⟩
      exact ⟨_, hd, rfl⟩
  have hidle : w.lease.active = false ↔ w.lease.primitive = .idle := by
    have := hl.active
    cases ha : w.lease.active <;> simp_all
  refine ⟨?_, ?_, ?_, ?_, ?_, ?_, ?_, ?_, ?_, ?_⟩
  · refine hl.proper.countP_le_one ?_
    intro before ev hp hq
    cases ev with
    | handed discard => exact hp.2.2
    | _ => simp [LeaseEvent.isHanded] at hq
  · refine hl.proper.countP_le_one ?_
    intro before ev hp hq
    cases ev with
    | settled discard => exact hp.2.2.2
    | _ => simp [LeaseEvent.isSettled] at hq
  · intro before discard after heq
    obtain ⟨hi, hs, _⟩ := hl.proper before _ after heq
    exact ⟨hi, hs⟩
  · intro before discard after heq
    obtain ⟨hi, hc, hd, _⟩ := hl.proper before _ after heq
    refine ⟨hi, (hclosed before).mp hc, ?_⟩
    rw [hd, List.any_eq_true]
  · rw [hl.settled, hl.closing, ← hclosed, ← hidle]
    simp
  · rw [← hidle]
    have hb := hl.balance
    unfold Idle
    cases ha : w.lease.active <;> rw [ha] at hb <;> simp at hb ⊢ <;> omega
  · refine ⟨hl.started, fun hne => ?_⟩
    cases hs : w.lease.settled with
    | true => rfl
    | false => exact absurd (hl.unsettled hs).1 hne
  · intro discard ho
    obtain ⟨w', hw', _, hset, ht⟩ := hinv.handBack_enabled ho
    exact ⟨w', hw', hset, ht⟩
  · intro hd
    obtain ⟨t, ht, hat⟩ := hinv.handle
    unfold HandleAt at hat
    rw [hd] at hat
    exact ⟨t, ht, fun v now e eff heff => finishReturn_discarded hat heff⟩
  · intro before after heq
    obtain ⟨hi, hc, hs⟩ := hl.proper before _ after heq
    refine ⟨hi, fun ev hev => ⟨?_, ?_⟩⟩
    · have := any_eq_false.mp hc ev hev
      simpa using this
    · have := any_eq_false.mp hs ev hev
      simpa using this

/-- One handle is borrowed. -/
def borrow : List Op :=
  [.acquire 1 "A" false "job", .ticket 0 .takeSlot, .ticket 0 .reportTake,
    .ticket 0 (.fetch 5 false), .ticket 0 (.probe .healthy), .ticket 0 (.confirm false)]

def borrowedPool : Pool := (system.run (newPool 2) borrow).getD (newPool 2)

/-- Released while a primitive runs, whose cleanup ends later: the handle is
handed back after the cleanup, to be discarded. -/
theorem lease_settles_once_late_cleanup :
    ∃ w, leaseSystem.run { pool := borrowedPool, lease := newSshLease 0, log := [] }
          [.begin false, .request false, .deferEnd, .cleanupDone, .handBack] = some w
      ∧ w.log = [.began, .requested false, .ended true, .settled true, .handed true]
      ∧ w.log.countP LeaseEvent.isHanded ≤ 1 := by
  have hpool : system.run (newPool 2) borrow = some borrowedPool := rfl
  exact System.exists_run rfl fun hrun => ⟨rfl,
    (lease_settles_once _ ⟨_, _, ⟨⟨_, _, ⟨2, rfl⟩, hpool⟩, ⟨_, rfl, rfl⟩, rfl, rfl⟩, hrun⟩).1⟩

end Talus.SshPool
