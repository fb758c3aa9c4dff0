/-
  Talus.SshPool.Slots
  **SLOTS AND QUOTA ARE CONSERVED.**

  The occupancy of an entry's semaphore is not a counter of its own: it is
  the NUMBER OF TICKETS whose phase holds a slot of that entry.  The same is
  true of its `waiters` field, and, up to the reports still under way, of the
  quota sum of each consumer.

    • `TicketMove.slots` — what one move of a ticket changes on its entry it
      changes in its own phase;
    • `SlotInv` — the three counts, over every reachable pool;
    • `slots_conserved` — occupancy, bounds, exactly-once return, eviction
      and quota, for every interleaving.
-/
import Talus.Base.Count
import Talus.SshPool.Moves

namespace Talus.SshPool

open Talus.Base List Option

/-! ## §1. What a phase stands for. -/

/-- The ticket occupies a slot of its entry's semaphore. -/
def Phase.holdsSlot : Phase → Bool
  | .reserved | .reported | .fetched | .checked | .leased | .finishing _
  | .releasing _ => true
  | _ => false

/-- A lease that has not given its slot back. -/
def Phase.unsettledLease : Phase → Bool
  | .leased | .finishing _ | .releasing .settled => true
  | _ => false

/-- An acquisition that has taken a slot and not returned yet. -/
def Phase.acquiring : Phase → Bool
  | .reserved | .reported | .fetched | .checked | .releasing (.failed _) => true
  | _ => false

/-- The ticket is counted in its entry's `waiters`. -/
def Phase.isWaiter : Phase → Bool
  | .waiting | .failing _ | .reserved | .reported => true
  | _ => false

/-- The slot is taken and the report of it still to come. -/
def Phase.takeUnreported : Phase → Bool
  | .reserved => true
  | _ => false

/-- The slot is back and the report of it still to come. -/
def Phase.returnUnreported : Phase → Bool
  | .released _ => true
  | _ => false

theorem Phase.holdsSlot_split (ph : Phase) :
    ph.holdsSlot.toNat = ph.unsettledLease.toNat + ph.acquiring.toNat := by
  cases ph with
  | releasing how => cases how <;> rfl
  | _ => rfl

/-- Ticket on entry `i` in a phase with property `q`. -/
def onEntry (i : Nat) (q : Phase → Bool) (t : Ticket) : Bool :=
  t.entry == i && q t.phase

/-- Ticket of consumer `c` in a phase with property `q`. -/
def ofConsumer (c : String) (q : Phase → Bool) (t : Ticket) : Bool :=
  t.consumer == c && q t.phase

/-- Slots occupied by borrows of consumer `c`. -/
def Pool.occupiedBy (p : Pool) (c : String) : Nat :=
  p.tickets.countP (ofConsumer c Phase.holdsSlot)

/-! ## §2. One move. -/

/-- What a move changes on the entry and in the quota sum, it changes in the
ticket's own phase. -/
structure MoveSlots (v : View) (t : Ticket) (e : ConnEntry) (eff : Effect) : Prop where
  entry : eff.ticket.entry = t.entry
  consumer : eff.ticket.consumer = t.consumer
  sem : eff.entry.sem + t.phase.holdsSlot.toNat
    = e.sem + eff.ticket.phase.holdsSlot.toNat
  bound : e.sem ≤ v.maxConns → eff.entry.sem ≤ v.maxConns
  waiters : t.phase.isWaiter.toNat ≤ e.waiters →
    eff.entry.waiters + t.phase.isWaiter.toNat
      = e.waiters + eff.ticket.phase.isWaiter.toNat
  quota : eff.quota + t.phase.holdsSlot.toNat + t.phase.returnUnreported.toNat
      + eff.ticket.phase.takeUnreported.toNat
    = eff.ticket.phase.holdsSlot.toNat + eff.ticket.phase.returnUnreported.toNat
      + (t.phase.takeUnreported.toNat : Int)

variable {t : Ticket}

theorem TicketMove.slots {v : View} {e : ConnEntry} {eff : Effect}
    (m : TicketMove v t e eff) : MoveSlots v t e eff := by
  cases m
  case takeSlot hp hd hs =>
    refine ⟨rfl, rfl, ?_, fun _ => hs, fun _ => ?_, ?_⟩ <;>
      simp [hp, Phase.holdsSlot, Phase.isWaiter, Phase.takeUnreported, Phase.returnUnreported]
  case releaseSlot how hp hd hs =>
    refine ⟨rfl, rfl, ?_, ?_, ?_, ?_⟩ <;>
      simp [hp, Phase.holdsSlot, Phase.isWaiter, Phase.takeUnreported,
        Phase.returnUnreported] <;> omega
  all_goals
    constructor <;>
      simp [*, Phase.holdsSlot, Phase.isWaiter, Phase.takeUnreported, Phase.returnUnreported]
  -- the three moves that leave `waiters`
  all_goals omega

/-! ## §3. The counts, for every reachable pool. -/

/-- The phases in which the call or the lease can hold a client. -/
def Phase.mayHold : Phase → Bool
  | .fetched | .checked | .leased | .finishing _ => true
  | _ => false

/-- The phases in which the call can have a client to close. -/
def Phase.mayDoom : Phase → Bool
  | .waiting | .checked | .releasing _ => true
  | _ => false

theorem Phase.holdsSlot_of_mayHold {ph : Phase} (h : ph.mayHold = true) : ph.holdsSlot = true := by
  cases ph <;> simp_all [Phase.mayHold, Phase.holdsSlot]

/-- A ticket by itself: it takes at most one slot, gives back what it took,
and holds clients only in the phases that can. -/
structure TicketOk (t : Ticket) : Prop where
  balance : t.took = t.gave + t.phase.holdsSlot.toNat
  took_le : t.took ≤ 1
  untaken : t.phase.isWaiter = true → t.phase.holdsSlot = false → t.took = 0
  leased : t.phase.hasLease = true → t.took = 1
  client : t.client ≠ none → t.phase.mayHold = true
  doomed : t.doomed ≠ none → t.phase.mayDoom = true
  cacheable : t.phase.hasLease = false → t.cacheable = true

theorem TicketMove.ok {v : View} {e : ConnEntry} {eff : Effect}
    (m : TicketMove v t e eff) (h : TicketOk t) : TicketOk eff.ticket := by
  obtain ⟨hb, htl, hu, hl, hc, hd, hk⟩ := h
  cases m <;> constructor <;>
    simp_all [Phase.holdsSlot, Phase.isWaiter, Phase.hasLease, Phase.mayHold, Phase.mayDoom]

theorem newTicket_ok (s : ServerID) (f : Fingerprint) (fresh : Bool) (c : String)
    (i g : Nat) (stale : Option Client) : TicketOk (newTicket s f fresh c i g stale) := by
  constructor <;> simp [newTicket, Phase.holdsSlot, Phase.isWaiter, Phase.hasLease, Phase.mayDoom]

/-- The counts of the pool. -/
structure SlotInv (p : Pool) : Prop where
  ok : ∀ t ∈ p.tickets, TicketOk t
  entry_lt : ∀ t ∈ p.tickets, t.entry < p.entries.length
  sem : ∀ (i : Nat) (e : ConnEntry), p.entries[i]? = some e →
    e.sem = p.tickets.countP (onEntry i Phase.holdsSlot)
  sem_le : ∀ (i : Nat) (e : ConnEntry), p.entries[i]? = some e → e.sem ≤ p.maxConns
  waiters : ∀ (i : Nat) (e : ConnEntry), p.entries[i]? = some e →
    e.waiters = p.tickets.countP (onEntry i Phase.isWaiter)
  quota : ∀ c, p.quota c + p.tickets.countP (ofConsumer c Phase.takeUnreported)
    = p.occupiedBy c + (p.tickets.countP (ofConsumer c Phase.returnUnreported) : Int)

theorem newPool_slotInv (maxConns : Int) : SlotInv (newPool maxConns) := by
  constructor <;> simp [newPool, Pool.occupiedBy]

variable {p p' : Pool}

/-- Steps that touch neither a ticket nor the counters of an entry. -/
theorem SlotInv.frame (h : SlotInv p) (ht : p'.tickets = p.tickets)
    (hm : p'.maxConns = p.maxConns) (hq : p'.quota = p.quota)
    (hlen : p'.entries.length = p.entries.length)
    (he : ∀ (i : Nat) (e' : ConnEntry), p'.entries[i]? = some e' →
      ∃ e, p.entries[i]? = some e ∧ e'.sem = e.sem ∧ e'.waiters = e.waiters) :
    SlotInv p' := by
  refine ⟨ht ▸ h.ok, ?_, ?_, ?_, ?_, ?_⟩
  · rw [ht, hlen]
    exact h.entry_lt
  · intro i e' hi
    obtain ⟨e, hi, hs, _⟩ := he i e' hi
    rw [hs, ht]
    exact h.sem i e hi
  · intro i e' hi
    obtain ⟨e, hi, hs, _⟩ := he i e' hi
    rw [hs, hm]
    exact h.sem_le i e hi
  · intro i e' hi
    obtain ⟨e, hi, _, hw⟩ := he i e' hi
    rw [hw, ht]
    exact h.waiters i e hi
  · intro c
    unfold Pool.occupiedBy
    rw [hq, ht]
    exact h.quota c

variable {i : Nat}

/-- Overwriting one entry without touching its counters. -/
theorem counters_set {entries : List ConnEntry} {e₀ e₁ : ConnEntry} (hi : entries[i]? = some e₀)
    (hs : e₁.sem = e₀.sem) (hw : e₁.waiters = e₀.waiters) :
    ∀ (j : Nat) e', (entries.set i e₁)[j]? = some e' →
      ∃ e, entries[j]? = some e ∧ e'.sem = e.sem ∧ e'.waiters = e.waiters := by
  intro j e' hj
  rcases getElem?_set_cases hj with ⟨rfl, rfl⟩ | ⟨_, hj⟩
  · exact ⟨e₀, hi, hs, hw⟩
  · exact ⟨e', hj, rfl, rfl⟩

variable {k : Nat}

/-- One count over the tickets, when ticket `k` moves. -/
theorem count_onEntry {t' : Ticket} (ht : p.tickets[k]? = some t) (hentry : t'.entry = t.entry)
    (q : Phase → Bool) (i : Nat) :
    (p.tickets.set k t').countP (onEntry i q)
        + (if t.entry = i then (q t.phase).toNat else 0)
      = p.tickets.countP (onEntry i q)
        + (if t.entry = i then (q t'.phase).toNat else 0) := by
  have h := countP_set_toNat (onEntry i q) t' ht
  by_cases hi : t.entry = i
  · simpa [onEntry, hentry, hi] using h
  · have hb : (t.entry == i) = false := by simpa using hi
    simpa [onEntry, hentry, hi, hb] using h

theorem count_ofConsumer {t' : Ticket}
    (ht : p.tickets[k]? = some t) (hcons : t'.consumer = t.consumer)
    (q : Phase → Bool) (c : String) :
    (p.tickets.set k t').countP (ofConsumer c q)
        + (if c = t.consumer then (q t.phase).toNat else 0)
      = p.tickets.countP (ofConsumer c q)
        + (if c = t.consumer then (q t'.phase).toNat else 0) := by
  have h := countP_set_toNat (ofConsumer c q) t' ht
  by_cases hc : t.consumer = c
  · simpa [ofConsumer, hcons, hc] using h
  · have hb : (t.consumer == c) = false := by simpa using hc
    have hc' : ¬c = t.consumer := fun h => hc h.symm
    simpa [ofConsumer, hcons, hc', hb] using h

theorem SlotInv.ticket {op : TicketOp} (h : SlotInv p)
    (hs : p.ticket k op = some p') : SlotInv p' := by
  obtain ⟨t, e, eff, ht, he, m, rfl⟩ := ticket_cases hs
  have ms := m.slots
  have htmem : t ∈ p.tickets := mem_of_getElem? ht
  have hlt : t.entry < p.entries.length := (List.getElem?_eq_some_iff.mp he).1
  have hcount := fun q i => count_onEntry ht ms.entry q i
  have hwait : t.phase.isWaiter.toNat ≤ e.waiters := by
    have hone := toNat_le_countP (onEntry t.entry Phase.isWaiter) ht
    have hw := h.waiters t.entry e he
    simp only [onEntry, beq_self_eq_true, Bool.true_and] at hone
    omega
  have hmem : ∀ t' ∈ p.tickets.set k eff.ticket, t' ∈ p.tickets ∨ t' = eff.ticket :=
    fun t' ht' => mem_or_eq_of_mem_set ht'
  constructor
  · intro t' ht'
    rcases hmem t' ht' with hin | rfl
    · exact h.ok t' hin
    · exact m.ok (h.ok t htmem)
  · intro t' ht'
    simp only [Pool.apply, length_set]
    rcases hmem t' ht' with hin | rfl
    · exact h.entry_lt t' hin
    · rw [ms.entry]
      exact hlt
  · intro i e' hi
    have hc := hcount Phase.holdsSlot i
    have hsem := ms.sem
    rcases getElem?_set_cases hi with ⟨rfl, rfl⟩ | ⟨hne, hi⟩
    · have := h.sem t.entry e he
      simp only [if_true] at hc
      simp only [Pool.apply]
      omega
    · have := h.sem i e' hi
      simp only [hne, if_false] at hc
      simp only [Pool.apply]
      omega
  · intro i e' hi
    rcases getElem?_set_cases hi with ⟨rfl, rfl⟩ | ⟨hne, hi⟩
    · exact ms.bound (h.sem_le t.entry e he)
    · exact h.sem_le i e' hi
  · intro i e' hi
    have hc := hcount Phase.isWaiter i
    have hw := ms.waiters hwait
    rcases getElem?_set_cases hi with ⟨rfl, rfl⟩ | ⟨hne, hi⟩
    · have := h.waiters t.entry e he
      simp only [if_true] at hc
      simp only [Pool.apply]
      omega
    · have := h.waiters i e' hi
      simp only [hne, if_false] at hc
      simp only [Pool.apply]
      omega
  · intro c
    have hq := h.quota c
    have hmq := ms.quota
    have h1 := count_ofConsumer ht ms.consumer Phase.takeUnreported c
    have h2 := count_ofConsumer ht ms.consumer Phase.holdsSlot c
    have h3 := count_ofConsumer ht ms.consumer Phase.returnUnreported c
    simp only [Pool.occupiedBy] at hq
    simp only [Pool.apply, Pool.occupiedBy]
    by_cases hc : c = t.consumer
    · simp only [hc, if_true] at h1 h2 h3 hq ⊢
      omega
    · simp only [hc, if_false] at h1 h2 h3 hq ⊢
      omega

variable {s : ServerID}

/-- A new ticket waits on entry `i`, and only that entry counts it. -/
theorem SlotInv.enqueue {f : Fingerprint} {fresh : Bool} {consumer : String} {g : Nat}
    {stale : Option Client} (h : SlotInv p)
    (ht : p'.tickets = p.tickets ++ [newTicket s f fresh consumer i g stale])
    (hq : p'.quota = p.quota) (hlen : p.entries.length ≤ p'.entries.length)
    (hi : i < p'.entries.length)
    (he : ∀ (j : Nat) e', p'.entries[j]? = some e' → e'.sem ≤ p'.maxConns
      ∧ e'.sem = p.tickets.countP (onEntry j Phase.holdsSlot)
      ∧ e'.waiters = p.tickets.countP (onEntry j Phase.isWaiter) + (i == j).toNat) :
    SlotInv p' := by
  have hmem : ∀ t ∈ p'.tickets, t ∈ p.tickets ∨ t = newTicket s f fresh consumer i g stale := by
    simp [ht]
  constructor
  · intro t hin
    rcases hmem t hin with hin | rfl
    · exact h.ok t hin
    · exact newTicket_ok ..
  · intro t hin
    rcases hmem t hin with hin | rfl
    · exact Nat.lt_of_lt_of_le (h.entry_lt t hin) hlen
    · exact hi
  · intro j e' hj
    rw [(he j e' hj).2.1, ht, countP_append_single]
    simp [onEntry, newTicket, Phase.holdsSlot]
  · exact fun j e' hj => (he j e' hj).1
  · intro j e' hj
    rw [(he j e' hj).2.2, ht, countP_append_single]
    simp [onEntry, newTicket, Phase.isWaiter]
  · intro c
    simpa [hq, ht, Pool.occupiedBy, countP_append_single, ofConsumer, newTicket,
      Phase.holdsSlot, Phase.takeUnreported, Phase.returnUnreported] using h.quota c

theorem SlotInv.acquire {f : Fingerprint} {fresh : Bool} {consumer : String} (h : SlotInv p)
    (hs : p.acquire s f fresh consumer = some p') : SlotInv p' := by
  rcases acquire_cases hs with ⟨_, rfl⟩ | ⟨_, _, rfl⟩ | ⟨i, e, _, _, he, rfl⟩
  · exact h
  · -- a new entry: no earlier ticket is on it
    have hzero : ∀ q, p.tickets.countP (onEntry p.entries.length q) = 0 := by
      intro q
      rw [countP_eq_zero]
      intro t ht
      simp [onEntry, Nat.ne_of_lt (h.entry_lt t ht)]
    refine h.enqueue rfl rfl (by simp [Pool.acquireNew]) (by simp [Pool.acquireNew]) ?_
    intro j e' hj
    rcases getElem?_concat_cases hj with hj | ⟨rfl, rfl⟩
    · have hne : (p.entries.length == j) = false := by
        have := (List.getElem?_eq_some_iff.mp hj).1
        simpa using Nat.ne_of_gt this
      exact ⟨h.sem_le j e' hj, h.sem j e' hj, by simp [h.waiters j e' hj, hne]⟩
    · simp [hzero]
  · have hacq : (e.acquired f).sem = e.sem ∧ (e.acquired f).waiters = e.waiters + 1 := by
      unfold ConnEntry.acquired
      split <;> exact ⟨rfl, rfl⟩
    have hlt : i < p.entries.length := (List.getElem?_eq_some_iff.mp he).1
    refine h.enqueue rfl rfl (by simp [Pool.acquireOld]) (by simpa [Pool.acquireOld]) ?_
    intro j e' hj
    rcases getElem?_set_cases hj with ⟨rfl, rfl⟩ | ⟨hne, hj⟩
    · rw [hacq.1, hacq.2]
      exact ⟨h.sem_le i e he, h.sem i e he, by simp [h.waiters i e he]⟩
    · have hb : (i == j) = false := by simpa using hne
      exact ⟨h.sem_le j e' hj, h.sem j e' hj, by simp [h.waiters j e' hj, hb]⟩

theorem SlotInv.close (h : SlotInv p) (hs : p.close = some p') : SlotInv p' := by
  rcases close_cases hs with ⟨_, rfl⟩ | ⟨_, rfl⟩
  · exact h
  · refine h.frame rfl rfl rfl (by simp [Pool.closeAll]) ?_
    intro i e' hi
    simp only [Pool.closeAll, getElem?_mapIdx] at hi
    obtain ⟨e, he, rfl⟩ := map_eq_some_iff.mp hi
    refine ⟨e, he, ?_, ?_⟩ <;> split <;> rfl

/-- **Every step of the pool keeps the counts.** -/
theorem SlotInv.step {op : Op} (h : SlotInv p) (hs : step p op = some p') : SlotInv p' := by
  cases op with
  | acquire s f fresh consumer => exact h.acquire hs
  | ticket k op => exact h.ticket hs
  | invalidate s =>
    rcases invalidate_cases hs with ⟨_, rfl⟩ | ⟨i, e, _, he, rfl⟩
    · exact h.frame rfl rfl rfl rfl fun i e hi => ⟨e, hi, rfl, rfl⟩
    · exact h.frame rfl rfl rfl (by simp [Pool.invalidateEntry]) (counters_set he rfl rfl)
  | closeClient c =>
    obtain ⟨_, rfl⟩ := closeClient_cases hs
    exact h.frame rfl rfl rfl rfl fun i e hi => ⟨e, hi, rfl, rfl⟩
  | evict s now idleLimit =>
    obtain ⟨i, e, _, he, rfl⟩ := evict_cases hs
    refine h.frame rfl rfl rfl (by simp [Pool.evictEntry]) (counters_set he ?_ ?_) <;>
      · unfold ConnEntry.evicted
        split <;> rfl
  | close => exact h.close hs
  | closeLease k =>
    obtain ⟨t, _, rfl⟩ := closeLease_cases hs
    exact h.frame rfl rfl rfl rfl fun i e hi => ⟨e, hi, rfl, rfl⟩

theorem reachable_slotInv (h : system.Reachable p) : SlotInv p := by
  refine h.invariant ?_ fun s e s' hs he => hs.step he
  rintro s ⟨maxConns, rfl⟩
  exact newPool_slotInv maxConns

/-! ## §4. Conservation. -/

/-- Holding a slot is being an unsettled lease or an acquisition under way. -/
theorem countP_holdsSlot (l : List Ticket) (i : Nat) :
    l.countP (onEntry i Phase.holdsSlot)
      = l.countP (onEntry i Phase.unsettledLease) + l.countP (onEntry i Phase.acquiring) := by
  apply countP_add
  intro t
  unfold onEntry
  by_cases hi : t.entry = i
  · simpa [hi] using t.phase.holdsSlot_split
  · have hb : (t.entry == i) = false := by simpa using hi
    simp [hb]

/-- Only `Close` and `evict` take an entry out of the map, and `evict` only an
unused one. -/
theorem step_conns {op : Op} (hs : step p op = some p') (hi : p.conns s = some i) :
    p'.conns s = some i ∨ op = .close
      ∨ ∃ now idleLimit e, op = .evict s now idleLimit ∧ p.entries[i]? = some e
          ∧ (e.evicted now idleLimit).unused = true ∧ p'.conns s = none := by
  cases op with
  | acquire s' f fresh consumer =>
    rcases acquire_cases hs with ⟨_, rfl⟩ | ⟨_, hnone, rfl⟩ | ⟨j, e, _, _, _, rfl⟩
    · exact .inl hi
    · have hne : s ≠ s' := by
        rintro rfl
        exact absurd (hnone.symm.trans hi) (by simp)
      exact .inl (by simpa [Pool.acquireNew, hne] using hi)
    · exact .inl hi
  | ticket k op =>
    obtain ⟨t, e, eff, _, _, _, rfl⟩ := ticket_cases hs
    exact .inl hi
  | invalidate s' =>
    rcases invalidate_cases hs with ⟨_, rfl⟩ | ⟨j, e, _, _, rfl⟩
    · exact .inl hi
    · exact .inl hi
  | closeClient c =>
    obtain ⟨_, rfl⟩ := closeClient_cases hs
    exact .inl hi
  | evict s' now idleLimit =>
    obtain ⟨j, e, hj, he, rfl⟩ := evict_cases hs
    by_cases hdel : (e.evicted now idleLimit).unused = true ∧ s = s'
    · obtain ⟨hun, rfl⟩ := hdel
      have hij : j = i := mem_unique hj hi
      exact .inr (.inr ⟨now, idleLimit, e, rfl, hij ▸ he, hun, by simp [Pool.evictEntry, hun]⟩)
    · exact .inl (by simpa [Pool.evictEntry, hdel] using hi)
  | close => exact .inr (.inl rfl)
  | closeLease k =>
    obtain ⟨t, _, rfl⟩ := closeLease_cases hs
    exact .inl hi

theorem evicted_same (e : ConnEntry) (now idleLimit : Int) :
    (e.evicted now idleLimit).key = e.key
      ∧ (e.evicted now idleLimit).generation = e.generation
      ∧ (e.evicted now idleLimit).fingerprint = e.fingerprint
      ∧ (e.evicted now idleLimit).sem = e.sem
      ∧ (e.evicted now idleLimit).waiters = e.waiters := by
  unfold ConnEntry.evicted
  split <;> exact ⟨rfl, rfl, rfl, rfl, rfl⟩

/-- **Slots are conserved, for every interleaving.**  In every reachable pool:
an entry's occupied slots are its unsettled leases and the acquisitions that
hold a slot, never more than `maxConns`; a lease gives its slot back once,
when it settles; an entry leaves the map before `Close` only with no slot
occupied and no waiter; and with no report under way each consumer's deltas
add up to the slots its borrows occupy. -/
theorem slots_conserved (p : Pool) (h : system.Reachable p) :
    (∀ (i : Nat) (e : ConnEntry), p.entries[i]? = some e →
      e.sem = p.tickets.countP (onEntry i Phase.unsettledLease)
            + p.tickets.countP (onEntry i Phase.acquiring)
        ∧ e.sem ≤ p.maxConns)
    ∧ (∀ t ∈ p.tickets, t.phase.hasLease = true →
        t.took = 1 ∧ t.gave + t.phase.unsettledLease.toNat = 1)
    ∧ (∀ (op : Op) (p' : Pool) (s : ServerID) (i : Nat), step p op = some p' →
        op ≠ .close → p.conns s = some i → p'.conns s ≠ some i →
        p.tickets.countP (onEntry i Phase.holdsSlot) = 0
          ∧ p.tickets.countP (onEntry i Phase.isWaiter) = 0)
    ∧ ((∀ t ∈ p.tickets, t.phase.takeUnreported = false
          ∧ t.phase.returnUnreported = false) →
        ∀ c, p.quota c = p.occupiedBy c) := by
  have hinv := reachable_slotInv h
  refine ⟨?_, ?_, ?_, ?_⟩
  · intro i e hi
    refine ⟨?_, hinv.sem_le i e hi⟩
    rw [hinv.sem i e hi, countP_holdsSlot]
  · intro t ht hl
    have hok := hinv.ok t ht
    have hone := hok.leased hl
    have hbal := hok.balance
    have hsplit := t.phase.holdsSlot_split
    have hacq : t.phase.acquiring = false := by
      cases hp : t.phase with
      | releasing how => cases how <;> simp_all [Phase.hasLease, Phase.acquiring]
      | _ => simp_all [Phase.hasLease, Phase.acquiring]
    refine ⟨hone, ?_⟩
    simp only [hacq, Bool.toNat_false] at hsplit
    omega
  · intro op p' s i hs hop hi hi'
    rcases step_conns hs hi with hsame | hclose | ⟨now, idleLimit, e, -, he, hun, -⟩
    · exact absurd hsame hi'
    · exact absurd hclose hop
    · obtain ⟨-, -, -, hsem, hwait⟩ := evicted_same e now idleLimit
      simp only [ConnEntry.unused, Bool.and_eq_true, beq_iff_eq, hsem, hwait] at hun
      exact ⟨hinv.sem i e he ▸ hun.1.2, hinv.waiters i e he ▸ hun.2⟩
  · intro hquiet c
    have hq := hinv.quota c
    have htake : p.tickets.countP (ofConsumer c Phase.takeUnreported) = 0 := by
      rw [countP_eq_zero]
      intro t ht
      simp [ofConsumer, (hquiet t ht).1]
    have hback : p.tickets.countP (ofConsumer c Phase.returnUnreported) = 0 := by
      rw [countP_eq_zero]
      intro t ht
      simp [ofConsumer, (hquiet t ht).2]
    rw [htake, hback] at hq
    omega

/-- One borrow, reported: its consumer's quota is the one slot it occupies. -/
theorem slots_conserved_one_borrow :
    ∃ p, system.run (newPool 2)
        [.acquire 1 "A" false "job", .ticket 0 .takeSlot, .ticket 0 .reportTake] = some p
      ∧ p.quota "job" = 1 ∧ p.occupiedBy "job" = 1 := by
  exact System.exists_run rfl fun hrun =>
    ⟨(slots_conserved _ ⟨_, _, ⟨2, rfl⟩, hrun⟩).2.2.2 (by decide) "job", rfl⟩

end Talus.SshPool
