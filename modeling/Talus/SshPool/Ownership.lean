/-
  Talus.SshPool.Ownership
  **EVERY OPEN CLIENT HAS EXACTLY ONE OWNER.**

  A client handed to the pool sits in an entry's cache slot, in a ticket (a
  lease, a probe, or the call around them), or with a call that has detached
  it and will close it.  `owners` counts these places over the whole pool.

    • `TicketMove.owners` — a move of a ticket takes a client from one place
      to another, and only a newly handed client adds one;
    • `OwnInv` — at most one owner, exactly one until the client is closed;
    • `open_client_owned_once` — the linear-ownership and shutdown result.
-/
import Talus.SshPool.Mapping

namespace Talus.SshPool

open Talus.Base List Option

/-! ## §1. Counting owners. -/

/-- The optional client is `c`. -/
def holds (c : Client) (o : Option Client) : Bool :=
  o == some c

theorem count_toList (o : Option Client) (c : Client) : o.toList.count c = (holds c o).toNat := by
  cases o with
  | none => rfl
  | some d =>
    by_cases h : d = c
    · simp [holds, h]
    · have hb : (d == c) = false := by simpa using h
      simp [holds, h, hb]

/-- In how many places client `c` is held. -/
def Pool.owners (p : Pool) (c : Client) : Nat :=
  p.entries.countP (fun e => holds c e.client)
    + p.tickets.countP (fun t => holds c t.client)
    + p.tickets.countP (fun t => holds c t.doomed)
    + p.closing.count c

variable {t : Ticket} {e : ConnEntry}

/-- Owners are conserved by a move: what it closes leaves, what the caller
hands in arrives. -/
theorem TicketMove.owners {v : View} {eff : Effect}
    (m : TicketMove v t e eff) (hok : TicketOk t) (c : Client) :
    (holds c eff.entry.client).toNat + (holds c eff.ticket.client).toNat
        + (holds c eff.ticket.doomed).toNat + eff.closing.count c + eff.closedNow.count c
      = (holds c e.client).toNat + (holds c t.client).toNat
        + (holds c t.doomed).toNat + eff.handed.count c := by
  have hclient : t.phase.mayHold = false → t.client = none := by
    intro hp
    by_contra hne
    exact absurd (hok.client hne) (by simp [hp])
  have hdoomed : t.phase.mayDoom = false → t.doomed = none := by
    intro hp
    by_contra hne
    exact absurd (hok.doomed hne) (by simp [hp])
  have hnone : holds c none = false := rfl
  cases m
  case fetch now hp hc =>
    simp [hclient (by rw [hp]; rfl), hnone]
  case dropped hp =>
    simp [hdoomed (by rw [hp]; rfl), hnone]
  case probeAbort err hp =>
    simp [hdoomed (by rw [hp]; rfl), hnone]
  case confirmFail err hp hd =>
    simp [hd, hnone]
  case finishCache now hp hk hm hc hn =>
    simp [hn, hnone]
  case finishDrop discard hp =>
    simp [hdoomed (by rw [hp]; rfl), hnone]
  case closeDoomed d hd =>
    have := count_toList (some d) c
    simp only [toList_some] at this
    simp [hd, hnone, this]
  case setDone client hp hn =>
    simp [count_toList]
  case setClosed client hp hn =>
    simp [count_toList, hnone]
    omega
  case setClosedOwn hp =>
    simp [count_toList, hnone]
    omega
  case setLive client hp ho hn =>
    simp [count_toList]
    omega
  case rebind fingerprint hp hm hc hf =>
    simp [count_toList, hnone]
    omega
  all_goals simp

/-- What a move hands in was not handed in before, and is at most one client. -/
theorem TicketMove.handed_new {v : View} {eff : Effect} (m : TicketMove v t e eff) (c : Client) :
    eff.handed.count c ≤ 1 ∧ (0 < eff.handed.count c → c ∉ v.handed) := by
  have hset : ∀ client : Option Client, (∀ d ∈ client, d ∉ v.handed) →
      client.toList.count c ≤ 1 ∧ (0 < client.toList.count c → c ∉ v.handed) := by
    intro client hn
    rw [count_toList]
    refine ⟨Bool.toNat_le _, fun hpos => hn c ?_⟩
    have hh : holds c client = true := by
      cases h : holds c client with
      | true => rfl
      | false => simp [h] at hpos
    simpa [holds] using hh
  cases m
  case setDone client hp hn => exact hset client hn
  case setClosed client hp hn => exact hset client hn
  case setLive client hp ho hn => exact hset client hn
  all_goals simp

/-! ## §2. The invariant. -/

/-- One owner at most, and one as long as the client is open. -/
structure OwnInv (p : Pool) : Prop where
  le_one : ∀ c, p.owners c ≤ 1
  handed : ∀ c, 0 < p.owners c → c ∈ p.handed
  kept : ∀ c ∈ p.handed, c ∈ p.closedClients ∨ p.owners c = 1

theorem newPool_ownInv (maxConns : Int) : OwnInv (newPool maxConns) := by
  constructor <;> simp [newPool, Pool.owners]

variable {p p' : Pool}

/-- Steps that hand nothing in: owners are kept up to the clients closed. -/
theorem OwnInv.frame (shut : List Client) (h : OwnInv p)
    (hh : p'.handed = p.handed) (hc : p'.closedClients = shut ++ p.closedClients)
    (hle : ∀ c, p'.owners c ≤ p.owners c)
    (hown : ∀ c, p'.owners c = p.owners c ∨ c ∈ shut) : OwnInv p' := by
  constructor
  · intro c
    exact Nat.le_trans (hle c) (h.le_one c)
  · intro c hpos
    rw [hh]
    exact h.handed c (Nat.lt_of_lt_of_le hpos (hle c))
  · intro c hmem
    rw [hh] at hmem
    rw [hc, mem_append]
    rcases hown c with heq | hs
    · rcases h.kept c hmem with hcl | hone
      · exact .inl (.inr hcl)
      · exact .inr (heq.trans hone)
    · exact .inl (.inl hs)

/-- Steps that neither hand in, close nor lose a client. -/
theorem OwnInv.keep (h : OwnInv p) (hh : p'.handed = p.handed)
    (hc : p'.closedClients = p.closedClients) (hown : ∀ c, p'.owners c = p.owners c) :
    OwnInv p' :=
  h.frame [] hh (by simpa using hc) (fun c => Nat.le_of_eq (hown c)) fun c => .inl (hown c)

theorem OwnInv.ticket {k : Nat} {op : TicketOp} (hslot : SlotInv p)
    (h : OwnInv p) (hs : p.ticket k op = some p') : OwnInv p' := by
  obtain ⟨t, e, eff, ht, he, m, rfl⟩ := ticket_cases hs
  have htmem : t ∈ p.tickets := mem_of_getElem? ht
  have hbal : ∀ c, (p.apply k t eff).owners c + eff.closedNow.count c
      = p.owners c + eff.handed.count c := by
    intro c
    have hmove := m.owners (hslot.ok t htmem) c
    have h1 := countP_set_toNat (fun e : ConnEntry => holds c e.client) eff.entry he
    have h2 := countP_set_toNat (fun t : Ticket => holds c t.client) eff.ticket ht
    have h3 := countP_set_toNat (fun t : Ticket => holds c t.doomed) eff.ticket ht
    simp only [Pool.owners, Pool.apply, count_append] at h1 h2 h3 ⊢
    omega
  have hnew := fun c => m.handed_new c
  have hfresh : ∀ c, 0 < eff.handed.count c → p.owners c = 0 := by
    intro c hpos
    by_contra hne
    exact (hnew c).2 hpos (h.handed c (Nat.pos_of_ne_zero hne))
  constructor
  · intro c
    have hb := hbal c
    have hle := h.le_one c
    rcases Nat.eq_zero_or_pos (eff.handed.count c) with hz | hpos
    · omega
    · have := hfresh c hpos
      have := (hnew c).1
      omega
  · intro c hpos
    have hb := hbal c
    simp only [Pool.apply, mem_append]
    rcases Nat.eq_zero_or_pos (eff.handed.count c) with hz | hpos'
    · exact .inr (h.handed c (by omega))
    · exact .inl (count_pos_iff.mp hpos')
  · intro c hmem
    have hb := hbal c
    -- closed by this move, or its one owner remains
    rcases Nat.eq_zero_or_pos (eff.closedNow.count c) with hz | hpos
    · rcases Nat.eq_zero_or_pos (eff.handed.count c) with hz' | hpos'
      · have hold : c ∈ p.handed := by
          rcases mem_append.mp hmem with hin | hin
          · exact absurd (count_pos_iff.mpr hin) (by omega)
          · exact hin
        rcases h.kept c hold with hcl | hone
        · exact .inl (mem_append.mpr (.inr hcl))
        · exact .inr (by omega)
      · have := hfresh c hpos'
        have := (hnew c).1
        exact .inr (by omega)
    · exact .inl (mem_append.mpr (.inl (count_pos_iff.mp hpos)))

variable {s : ServerID}

theorem OwnInv.acquire {f : Fingerprint} {fresh : Bool} {consumer : String} (h : OwnInv p)
    (hs : p.acquire s f fresh consumer = some p') : OwnInv p' := by
  rcases acquire_cases hs with ⟨_, rfl⟩ | ⟨_, _, rfl⟩ | ⟨i, e, _, _, he, rfl⟩
  · exact h
  · have howners : ∀ c, (p.acquireNew s f fresh consumer).owners c = p.owners c := by
      intro c
      simp [Pool.owners, Pool.acquireNew, newTicket, holds]
    exact h.keep rfl rfl howners
  · have howners : ∀ c, (p.acquireOld s i e f fresh consumer).owners c = p.owners c := by
      intro c
      have h1 := countP_set_toNat (fun e : ConnEntry => holds c e.client) (e.acquired f) he
      simp only [Pool.owners, Pool.acquireOld, countP_append_single]
      have hmoved : (holds c (e.acquired f).client).toNat
          + (holds c (if e.fingerprint ≠ f then e.client else none)).toNat
          = (holds c e.client).toNat := by
        unfold ConnEntry.acquired
        split <;> simp [holds]
      have hvacant : (holds c none).toNat = 0 := rfl
      simp only [newTicket, hvacant]
      omega
    exact h.keep rfl rfl howners

/-- A client goes from an entry to the calls that close. -/
theorem owners_detach {i : Nat} {e' : ConnEntry} {out : Option Client} (he : p.entries[i]? = some e)
    (hmoved : ∀ c, (holds c e'.client).toNat + (holds c out).toNat = (holds c e.client).toNat)
    (conns : ServerID → Option Nat) (log : List PoolEvent) (c : Client) :
    ({ p with entries := p.entries.set i e', conns := conns,
              closing := out.toList ++ p.closing, log := log } : Pool).owners c
      = p.owners c := by
  have h1 := countP_set_toNat (fun e : ConnEntry => holds c e.client) e' he
  have hm := hmoved c
  simp only [Pool.owners, count_append, count_toList]
  omega

theorem OwnInv.invalidate (h : OwnInv p) (hs : p.invalidate s = some p') : OwnInv p' := by
  rcases invalidate_cases hs with ⟨_, rfl⟩ | ⟨i, e, _, he, rfl⟩
  · exact h.keep rfl rfl fun c => rfl
  · have howners : ∀ c, (p.invalidateEntry s i e).owners c = p.owners c := by
      refine owners_detach he ?_ p.conns _
      intro c
      simp [ConnEntry.invalidated, holds]
    exact h.keep rfl rfl howners

theorem OwnInv.evict {now idleLimit : Int} (h : OwnInv p)
    (hs : p.evict s now idleLimit = some p') : OwnInv p' := by
  obtain ⟨i, e, _, he, rfl⟩ := evict_cases hs
  have hout : (if e.idle now idleLimit then e.client.toList else [])
      = (if e.idle now idleLimit then e.client else none).toList := by
    split <;> rfl
  have howners : ∀ c, (p.evictEntry s now idleLimit i e).owners c = p.owners c := by
    intro c
    unfold Pool.evictEntry
    rw [hout]
    refine owners_detach he ?_ _ p.log c
    intro d
    unfold ConnEntry.evicted
    split <;> simp [holds]
  exact h.keep rfl rfl howners

theorem count_reduceOption (c : Client) : ∀ l : List (Option Client),
    l.reduceOption.count c = l.countP (holds c)
  | [] => rfl
  | none :: l => count_reduceOption c l
  | some d :: l => by
      have ih := count_reduceOption c l
      show (d :: l.reduceOption).count c = _
      by_cases hd : d = c
      · subst hd
        simp [holds, ih]
      · simp [holds, hd, ih]

/-- The entries `Close` finds in the map are all those that cache a client. -/
theorem closed_clients_eq (h : MapInv p) :
    (p.entries.mapIdx fun i e => if p.isMapped i e then e.client else none)
      = p.entries.map (·.client) := by
  apply ext_getElem?
  intro i
  rw [getElem?_mapIdx, getElem?_map]
  cases he : p.entries[i]? with
  | none => rfl
  | some e =>
    simp only [map_some, some.injEq]
    split
    · rfl
    · next hm =>
      by_contra hne
      have hcl : e.client ≠ none := fun h0 => hne h0.symm
      exact absurd (h.cached i e he hcl).2 (by simpa [Pool.isMapped] using hm)

theorem OwnInv.close (hmap : MapInv p) (h : OwnInv p) (hs : p.close = some p') : OwnInv p' := by
  rcases close_cases hs with ⟨_, rfl⟩ | ⟨_, rfl⟩
  · exact h
  · have hempty : ∀ c, p.closeAll.entries.countP (fun e => holds c e.client) = 0 := by
      intro c
      rw [countP_eq_zero]
      intro e' he'
      obtain ⟨i, hi⟩ := getElem?_of_mem he'
      obtain ⟨e, _, rfl⟩ := close_entry hmap hi
      simp [holds]
    have hmoved : ∀ c, p.closeAll.closing.count c
        = p.entries.countP (fun e => holds c e.client) + p.closing.count c := by
      intro c
      simp only [Pool.closeAll]
      rw [closed_clients_eq hmap, count_append, count_reduceOption, countP_map]
      rfl
    have howners : ∀ c, p.closeAll.owners c = p.owners c := by
      intro c
      unfold Pool.owners
      rw [hempty c, hmoved c]
      show 0 + p.tickets.countP _ + p.tickets.countP _ + _ = _
      omega
    exact h.keep rfl rfl howners

theorem OwnInv.step {op : Op} (hslot : SlotInv p) (hmap : MapInv p)
    (h : OwnInv p) (hs : step p op = some p') : OwnInv p' := by
  cases op with
  | acquire s f fresh consumer => exact h.acquire hs
  | ticket k op => exact h.ticket hslot hs
  | invalidate s => exact h.invalidate hs
  | closeClient c =>
    obtain ⟨hc, rfl⟩ := closeClient_cases hs
    refine h.frame [c] rfl rfl ?_ ?_
    · intro d
      have hle : (p.closing.erase c).count d ≤ p.closing.count d :=
        List.Sublist.count_le d erase_sublist
      simp only [Pool.owners]
      omega
    · intro d
      by_cases hd : d = c
      · exact .inr (by simp [hd])
      · left
        simp only [Pool.owners]
        rw [count_erase_of_ne hd]
  | evict s now idleLimit => exact h.evict hs
  | close => exact h.close hmap hs
  | closeLease k =>
    obtain ⟨t, _, rfl⟩ := closeLease_cases hs
    exact h.frame _ rfl rfl (fun c => Nat.le_refl _) fun c => .inl rfl

theorem reachable_ownInv (h : system.Reachable p) : OwnInv p := by
  refine h.invariant_with (J := fun p => SlotInv p ∧ MapInv p)
    (fun s hs => ⟨reachable_slotInv hs, reachable_mapInv hs⟩) ?_
    fun s e s' hJ hs he => hs.step hJ.1 hJ.2 he
  rintro s ⟨maxConns, rfl⟩
  exact newPool_ownInv maxConns

/-! ## §3. Linear ownership and clean shutdown. -/

/-- Who can own a client. -/
inductive Owner
  /-- the idle slot of entry `i` -/
  | cache (i : Nat)
  /-- the live lease of ticket `k` -/
  | lease (k : Nat)
  /-- the health probe of ticket `k` -/
  | probe (k : Nat)
  /-- the acquisition or settlement of ticket `k`, between two critical
      sections or about to close the client -/
  | call (k : Nat)
  /-- a call of `SetClient`, `RebindFingerprint`, `Invalidate`, `evict` or
      `Close` that is about to close the client -/
  | closer
  deriving Repr, DecidableEq

inductive Owns (p : Pool) (c : Client) : Owner → Prop
  | cache {i : Nat} {e : ConnEntry} (he : p.entries[i]? = some e)
      (hc : e.client = some c) : Owns p c (.cache i)
  | lease {k : Nat} {t : Ticket} (ht : p.tickets[k]? = some t)
      (hp : t.phase = .leased) (hc : t.client = some c) : Owns p c (.lease k)
  | probe {k : Nat} {t : Ticket} (ht : p.tickets[k]? = some t)
      (hp : t.phase = .fetched) (hc : t.client = some c) : Owns p c (.probe k)
  | between {k : Nat} {t : Ticket} (ht : p.tickets[k]? = some t)
      (hl : t.phase ≠ .leased) (hf : t.phase ≠ .fetched) (hc : t.client = some c) :
      Owns p c (.call k)
  | doomed {k : Nat} {t : Ticket} (ht : p.tickets[k]? = some t)
      (hc : t.doomed = some c) : Owns p c (.call k)
  | closer (hc : c ∈ p.closing) : Owns p c .closer

/-- The ticket whose call holds the client, with the name of that owner. -/
def ticketOwner (k : Nat) (ph : Phase) : Owner :=
  if ph = .leased then .lease k else if ph = .fetched then .probe k else .call k

variable {c : Client}

theorem owns_ticket {k : Nat} (ht : p.tickets[k]? = some t) (hc : t.client = some c) :
    Owns p c (ticketOwner k t.phase) := by
  unfold ticketOwner
  split
  · next hp => exact .lease ht hp hc
  · next hl =>
    split
    · next hp => exact .probe ht hp hc
    · next hf => exact .between ht hl hf hc

/-- An owner is one of the four places `owners` counts. -/
theorem Owns.place {o : Owner} (h : Owns p c o) :
    (∃ (i : Nat) (e : ConnEntry), p.entries[i]? = some e ∧ e.client = some c ∧ o = .cache i)
      ∨ (∃ (k : Nat) (t : Ticket), p.tickets[k]? = some t ∧ t.client = some c
          ∧ o = ticketOwner k t.phase)
      ∨ (∃ (k : Nat) (t : Ticket), p.tickets[k]? = some t ∧ t.doomed = some c ∧ o = .call k)
      ∨ (c ∈ p.closing ∧ o = .closer) := by
  cases h with
  | cache he hc => exact .inl ⟨_, _, he, hc, rfl⟩
  | lease ht hp hc | probe ht hp hc => exact .inr (.inl ⟨_, _, ht, hc, by simp [ticketOwner, hp]⟩)
  | between ht hl hf hc => exact .inr (.inl ⟨_, _, ht, hc, by simp [ticketOwner, hl, hf]⟩)
  | doomed ht hc => exact .inr (.inr (.inl ⟨_, _, ht, hc, rfl⟩))
  | closer hc => exact .inr (.inr (.inr ⟨hc, rfl⟩))

theorem Owns.unique (h : p.owners c ≤ 1) {o o' : Owner}
    (ho : Owns p c o) (ho' : Owns p c o') : o = o' := by
  have hholds : ∀ {x : Option Client}, x = some c → holds c x = true := by
    intro x hx
    simp [holds, hx]
  have hentry : ∀ {i : Nat} {e : ConnEntry}, p.entries[i]? = some e → e.client = some c →
      0 < p.entries.countP (fun e => holds c e.client) :=
    fun he hc => countP_pos_of_getElem? he (hholds hc)
  have hticket : ∀ {k : Nat} {t : Ticket}, p.tickets[k]? = some t → t.client = some c →
      0 < p.tickets.countP (fun t => holds c t.client) :=
    fun ht hc => countP_pos_of_getElem? ht (hholds hc)
  have hdoomed : ∀ {k : Nat} {t : Ticket}, p.tickets[k]? = some t → t.doomed = some c →
      0 < p.tickets.countP (fun t => holds c t.doomed) :=
    fun ht hc => countP_pos_of_getElem? ht (hholds hc)
  have hclosing : c ∈ p.closing → 0 < p.closing.count c := count_pos_iff.mpr
  unfold Pool.owners at h
  -- two different places would count two; one place has one cell
  rcases ho.place with ⟨i, e, he, hc, rfl⟩ | ⟨k, t, ht, hc, rfl⟩ | ⟨k, t, ht, hc, rfl⟩ | ⟨hc, rfl⟩ <;>
    rcases ho'.place with ⟨i', e', he', hc', rfl⟩ | ⟨k', t', ht', hc', rfl⟩
      | ⟨k', t', ht', hc', rfl⟩ | ⟨hc', rfl⟩
  · have := countP_le_one_unique (q := fun e : ConnEntry => holds c e.client) (by omega)
      he he' (hholds hc) (hholds hc')
    rw [this]
  · have := hentry he hc
    have := hticket ht' hc'
    omega
  · have := hentry he hc
    have := hdoomed ht' hc'
    omega
  · have := hentry he hc
    have := hclosing hc'
    omega
  · have := hentry he' hc'
    have := hticket ht hc
    omega
  · have hk : k = k' := countP_le_one_unique (q := fun t : Ticket => holds c t.client)
      (by omega) ht ht' (hholds hc) (hholds hc')
    subst hk
    have htt : t = t' := mem_unique ht ht'
    rw [htt]
  · have := hticket ht hc
    have := hdoomed ht' hc'
    omega
  · have := hticket ht hc
    have := hclosing hc'
    omega
  · have := hentry he' hc'
    have := hdoomed ht hc
    omega
  · have := hticket ht' hc'
    have := hdoomed ht hc
    omega
  · have := countP_le_one_unique (q := fun t : Ticket => holds c t.doomed) (by omega)
      ht ht' (hholds hc) (hholds hc')
    rw [this]
  · have := hdoomed ht hc
    have := hclosing hc'
    omega
  · have := hentry he' hc'
    have := hclosing hc
    omega
  · have := hticket ht' hc'
    have := hclosing hc
    omega
  · have := hdoomed ht' hc'
    have := hclosing hc
    omega
  · rfl

theorem exists_owner (h : 0 < p.owners c) : ∃ o, Owns p c o := by
  unfold Pool.owners at h
  rcases Nat.eq_zero_or_pos (p.entries.countP fun e => holds c e.client) with h1 | h1
  · rcases Nat.eq_zero_or_pos (p.tickets.countP fun t => holds c t.client) with h2 | h2
    · rcases Nat.eq_zero_or_pos (p.tickets.countP fun t => holds c t.doomed) with h3 | h3
      · exact ⟨_, .closer (count_pos_iff.mp (by omega))⟩
      · obtain ⟨k, t, ht, hc⟩ := exists_getElem?_of_countP_pos h3
        exact ⟨_, .doomed ht (by simpa [holds] using hc)⟩
    · obtain ⟨k, t, ht, hc⟩ := exists_getElem?_of_countP_pos h2
      exact ⟨_, owns_ticket ht (by simpa [holds] using hc)⟩
  · obtain ⟨i, e, he, hc⟩ := exists_getElem?_of_countP_pos h1
    exact ⟨_, .cache he (by simpa [holds] using hc)⟩

/-- **Linear ownership and clean shutdown.**  In every reachable pool each
client that was handed in and is not closed has exactly one owner: an idle
cache slot, a live lease, a health probe, or the one call that has detached it
and is about to hand it on, put it back or close it.  Once the pool is closed
and every acquisition and lease has finished, no entry caches a client and
each client ever handed in is closed, or in the hands of a call that is about
to close it. -/
theorem open_client_owned_once (p : Pool) (h : system.Reachable p) :
    (∀ c ∈ p.handed, c ∉ p.closedClients → ∃! o, Owns p c o)
    ∧ (p.closed = true → (∀ t ∈ p.tickets, ∃ how, t.phase = .done how) →
        (∀ c ∈ p.handed, c ∈ p.closedClients ∨ c ∈ p.closing)
          ∧ ∀ e ∈ p.entries, e.client = none) := by
  have hown := reachable_ownInv h
  have hslot := reachable_slotInv h
  have hmap := reachable_mapInv h
  refine ⟨?_, ?_⟩
  · intro c hc hopen
    have hone : p.owners c = 1 := (hown.kept c hc).resolve_left hopen
    obtain ⟨o, ho⟩ := exists_owner (by omega : 0 < p.owners c)
    exact ⟨o, ho, fun o' ho' => Owns.unique (by omega) ho' ho⟩
  · intro hclosed hdone
    have hempty : ∀ e ∈ p.entries, e.client = none := by
      intro e he
      obtain ⟨i, hi⟩ := getElem?_of_mem he
      by_contra hne
      exact absurd (hmap.cached i e hi hne).1 (by simp [hclosed])
    refine ⟨?_, hempty⟩
    intro c hc
    rcases hown.kept c hc with hcl | hone
    · exact .inl hcl
    · obtain ⟨o, ho⟩ := exists_owner (by omega : 0 < p.owners c)
      -- a finished ticket holds nothing
      have hticket : ∀ t ∈ p.tickets, t.client = none ∧ t.doomed = none := by
        intro t ht
        obtain ⟨how, hp⟩ := hdone t ht
        constructor
        · by_contra hne
          exact absurd ((hslot.ok t ht).client hne) (by simp [hp, Phase.mayHold])
        · by_contra hne
          exact absurd ((hslot.ok t ht).doomed hne) (by simp [hp, Phase.mayDoom])
      rcases ho.place with ⟨i, e, he, hc', -⟩ | ⟨k, t, ht, hc', -⟩ | ⟨k, t, ht, hc', -⟩ | ⟨hc', -⟩
      · exact absurd (hempty e (mem_of_getElem? he)) (by simp [hc'])
      · exact absurd (hticket t (mem_of_getElem? ht)).1 (by simp [hc'])
      · exact absurd (hticket t (mem_of_getElem? ht)).2 (by simp [hc'])
      · exact .inr hc'

/-- Client 7 was released into the cache; `Invalidate` has detached it and not
yet closed it: it is open, and in no cache slot, lease or probe. -/
theorem invalidated_client_outside :
    ∃ p, system.run (newPool 1)
        [.acquire 1 "A" false "", .ticket 0 .takeSlot, .ticket 0 .reportTake,
         .ticket 0 (.fetch 0 false), .ticket 0 (.probe .healthy), .ticket 0 (.confirm false),
         .ticket 0 (.setClient (some 7)), .ticket 0 (.finish false),
         .ticket 0 (.finishReturn 0), .invalidate 1] = some p
      ∧ 7 ∈ p.handed ∧ 7 ∉ p.closedClients
      ∧ (∀ e ∈ p.entries, e.client ≠ some 7) ∧ ∀ t ∈ p.tickets, t.client ≠ some 7 := by
  refine ⟨_, rfl, ?_, ?_, ?_, ?_⟩ <;> decide

/-- The lease of client 7 is live while the pool is closed; it then finishes
and its client is closed. -/
theorem open_client_owned_once_shutdown :
    ∃ p, system.run (newPool 1)
        [.acquire 1 "A" false "", .ticket 0 .takeSlot, .ticket 0 .reportTake,
         .ticket 0 (.fetch 0 false), .ticket 0 (.probe .healthy), .ticket 0 (.confirm false),
         .ticket 0 (.setClient (some 7)), .close, .ticket 0 (.finish false),
         .ticket 0 (.finishReturn 0), .ticket 0 .closeDoomed, .ticket 0 .releaseSlot,
         .ticket 0 .reportReturn] = some p
      ∧ p.closing = [] ∧ 7 ∈ p.closedClients := by
  refine System.exists_run rfl fun hrun => ⟨rfl, ?_⟩
  have hall := (open_client_owned_once _ ⟨_, _, ⟨1, rfl⟩, hrun⟩).2 rfl ?_
  · exact (hall.1 7 (by decide)).resolve_right (by decide)
  · intro t ht
    exact ⟨.settled, by rw [mem_singleton.mp ht]⟩

end Talus.SshPool
