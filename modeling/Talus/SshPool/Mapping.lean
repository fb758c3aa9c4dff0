/-
  Talus.SshPool.Mapping
  **THE MAP, ITS ENTRIES AND THEIR TICKETS FIT TOGETHER.**

  A move of a ticket either leaves generation and fingerprint alone
  (`Steady`) or is the one move of `RebindFingerprint` (`Rebinds`).  From
  this and the slot counts, `MapInv` holds of every reachable pool:

    • the map sends a server id to an entry made for that id;
    • a ticket is never ahead of its entry's generation, and in the entry's
      generation it has the entry's fingerprint;
    • until the pool is closed, an entry some ticket still counts on, or
      which caches a client, is the one in the map.
-/
import Talus.SshPool.Slots

namespace Talus.SshPool

open Talus.Base List Option

/-! ## §1. What a move does to generations. -/

/-- A move that leaves generation and fingerprint alone, and where the clients
it moves come from. -/
structure Steady (v : View) (t : Ticket) (e : ConnEntry) (eff : Effect) : Prop where
  generation : eff.ticket.generation = t.generation
  fingerprint : eff.ticket.fingerprint = t.fingerprint
  cacheable : eff.ticket.cacheable = t.cacheable
  entryGeneration : eff.entry.generation = e.generation
  entryFingerprint : eff.entry.fingerprint = e.fingerprint
  client : ∀ c, eff.ticket.client = some c → t.client = some c
    ∨ (e.client = some c ∧ Current v t e)
    ∨ eff.log = [.installed c t.serverID t.fingerprint t.entry t.generation]
  cached : ∀ c, eff.entry.client = some c → e.client = some c
    ∨ (t.client = some c ∧ t.cacheable = true ∧ v.mapped = true ∧ Current v t e)
  log : eff.log = []
    ∨ (∃ c, eff.log = [.installed c t.serverID t.fingerprint t.entry t.generation])
    ∨ ∃ c, t.client = some c ∧ t.phase.hasLease = false ∧ Current v t e
        ∧ eff.log = [.returned c t.serverID t.fingerprint t.entry t.generation]

/-- The move of `RebindFingerprint`: entry and lease enter a new generation
together, and the lease may no longer be cached. -/
structure Rebinds (v : View) (t : Ticket) (e : ConnEntry) (eff : Effect) : Prop where
  isCurrent : Current v t e
  mapped : v.mapped = true
  generation : eff.ticket.generation = eff.entry.generation
  fingerprint : eff.ticket.fingerprint = eff.entry.fingerprint
  next : eff.entry.generation = e.generation + 1
  cacheable : eff.ticket.cacheable = false
  cached : eff.entry.client = none
  log : eff.log = [.bound t.serverID eff.entry.fingerprint]

variable {v : View} {t : Ticket} {e : ConnEntry} {eff : Effect}

theorem TicketMove.identity (m : TicketMove v t e eff) :
    eff.ticket.serverID = t.serverID ∧ eff.ticket.entry = t.entry
      ∧ eff.entry.key = e.key := by
  cases m <;> exact ⟨rfl, rfl, rfl⟩

theorem TicketMove.steady_or_rebinds (m : TicketMove v t e eff) :
    Steady v t e eff ∨ Rebinds v t e eff := by
  cases m
  case rebind fingerprint hp hm hc hf =>
    exact .inr ⟨hc, hm, rfl, rfl, rfl, rfl, rfl, rfl⟩
  case confirm hp hd hc =>
    refine .inl ⟨rfl, rfl, rfl, rfl, rfl, fun c h => .inl h, fun c h => .inl h, ?_⟩
    cases hcl : t.client with
    | none => exact .inl rfl
    | some c => exact .inr (.inr ⟨c, rfl, by rw [hp]; rfl, hc, rfl⟩)
  case setLive client hp ho hn =>
    cases client with
    | none => exact .inl ⟨rfl, rfl, rfl, rfl, rfl, by simp, fun c h => .inl h, .inl rfl⟩
    | some c =>
      refine .inl ⟨rfl, rfl, rfl, rfl, rfl, ?_, fun c h => .inl h, .inr (.inl ⟨c, rfl⟩)⟩
      intro c' hc'
      injection hc' with hc'
      subst hc'
      exact .inr (.inr rfl)
  case fetch now hp hc =>
    exact .inl ⟨rfl, rfl, rfl, rfl, rfl, fun c h => .inr (.inl ⟨h, hc⟩), by simp, .inl rfl⟩
  case finishCache now hp hk hm hc hn =>
    exact .inl ⟨rfl, rfl, rfl, rfl, rfl, by simp, fun c h => .inr ⟨h, hk, hm, hc⟩, .inl rfl⟩
  all_goals
    exact .inl ⟨rfl, rfl, rfl, rfl, rfl, by simp +contextual, fun c h => .inl h, .inl rfl⟩

/-! ## §2. The map and the generations. -/

/-- The ticket's call is still counted on its entry. -/
def Phase.inPool (ph : Phase) : Bool :=
  ph.holdsSlot || ph.isWaiter

theorem TicketMove.inPool (m : TicketMove v t e eff) (h : eff.ticket.phase.inPool = true) :
    t.phase.inPool = true := by
  cases m <;> simp_all [Phase.inPool, Phase.holdsSlot, Phase.isWaiter]

/-- A ticket and its entry: same server, the ticket not ahead, and the same
fingerprint in the same generation. -/
structure Agrees (t : Ticket) (e : ConnEntry) : Prop where
  key : e.key = t.serverID
  generation_le : t.generation ≤ e.generation
  fingerprint : t.generation = e.generation → t.fingerprint = e.fingerprint

/-- What a step may do to an entry: keep generation and fingerprint, or start
a new generation. -/
def Evolves (e e' : ConnEntry) : Prop :=
  e'.key = e.key ∧ ((e'.generation = e.generation ∧ e'.fingerprint = e.fingerprint)
    ∨ e.generation < e'.generation)

theorem Evolves.refl (e : ConnEntry) : Evolves e e :=
  ⟨rfl, .inl ⟨rfl, rfl⟩⟩

variable {e' : ConnEntry}

theorem Agrees.evolves (h : Agrees t e) (he : Evolves e e') : Agrees t e' := by
  obtain ⟨hk, ⟨hg, hf⟩ | hlt⟩ := he
  · exact ⟨hk.trans h.key, hg ▸ h.generation_le, fun hs => hf ▸ h.fingerprint (hg ▸ hs)⟩
  · have hle := h.generation_le
    exact ⟨hk.trans h.key, by omega, fun hs => by omega⟩

theorem TicketMove.evolves (m : TicketMove v t e eff) : Evolves e eff.entry := by
  rcases m.steady_or_rebinds with hst | hre
  · exact ⟨m.identity.2.2, .inl ⟨hst.entryGeneration, hst.entryFingerprint⟩⟩
  · have hn := hre.next
    exact ⟨m.identity.2.2, .inr (by omega)⟩

theorem TicketMove.agrees
    (m : TicketMove v t e eff) (h : Agrees t e) : Agrees eff.ticket eff.entry := by
  obtain ⟨hsid, _, hkey⟩ := m.identity
  rcases m.steady_or_rebinds with hst | hre
  · refine ⟨by rw [hkey, hsid]; exact h.key, ?_, ?_⟩
    · rw [hst.generation, hst.entryGeneration]
      exact h.generation_le
    · rw [hst.generation, hst.entryGeneration, hst.fingerprint, hst.entryFingerprint]
      exact h.fingerprint
  · exact ⟨by rw [hkey, hsid]; exact h.key, Nat.le_of_eq hre.generation, fun _ => hre.fingerprint⟩

theorem invalidated_evolves (e : ConnEntry) : Evolves e e.invalidated :=
  ⟨rfl, .inr (Nat.lt_succ_self _)⟩

theorem acquired_evolves (e : ConnEntry) (f : Fingerprint) : Evolves e (e.acquired f) := by
  unfold ConnEntry.acquired
  split
  · exact ⟨rfl, .inr (Nat.lt_succ_self _)⟩
  · exact ⟨rfl, .inl ⟨rfl, rfl⟩⟩

theorem acquired_fingerprint (e : ConnEntry) (f : Fingerprint) :
    (e.acquired f).fingerprint = f := by
  unfold ConnEntry.acquired
  split
  · rfl
  · next h => simpa using h

/-- The map, the entries and the tickets fit together. -/
structure MapInv (p : Pool) : Prop where
  key : ∀ s i, p.conns s = some i → ∃ e, p.entries[i]? = some e ∧ e.key = s
  agrees : ∀ t ∈ p.tickets, ∀ e, p.entries[t.entry]? = some e → Agrees t e
  live : p.closed = false → ∀ t ∈ p.tickets, t.phase.inPool = true →
    p.conns t.serverID = some t.entry
  cached : ∀ (i : Nat) (e : ConnEntry), p.entries[i]? = some e → e.client ≠ none →
    p.closed = false ∧ p.conns e.key = some i

theorem newPool_mapInv (maxConns : Int) : MapInv (newPool maxConns) := by
  constructor <;> simp [newPool]

variable {i : Nat}

/-- Overwriting one entry keeps every key and lets every entry evolve. -/
theorem getElem?_set_evolves {entries : List ConnEntry} {e₀ e₁ : ConnEntry}
    (hi : entries[i]? = some e₀) (hev : Evolves e₀ e₁) {j : Nat}
    (hj : (entries.set i e₁)[j]? = some e') :
    ∃ e, entries[j]? = some e ∧ Evolves e e' := by
  rcases getElem?_set_cases hj with ⟨rfl, rfl⟩ | ⟨_, hj⟩
  · exact ⟨e₀, hi, hev⟩
  · exact ⟨e', hj, .refl e'⟩

variable {p p' : Pool} {s : ServerID}

/-- The map finds the same server after one entry was overwritten. -/
theorem MapInv.key_set (h : MapInv p) {j : Nat} {e₀ e₁ : ConnEntry}
    (hi : p.entries[i]? = some e₀) (hk : e₁.key = e₀.key) (hj : p.conns s = some j) :
    ∃ e, (p.entries.set i e₁)[j]? = some e ∧ e.key = s := by
  obtain ⟨e, he, hkey⟩ := h.key s j hj
  by_cases hij : i = j
  · subst hij
    cases hi.symm.trans he
    exact ⟨e₁, List.getElem?_set_self (List.getElem?_eq_some_iff.mp hi).1, hk.trans hkey⟩
  · exact ⟨e, by rw [getElem?_set_ne hij]; exact he, hkey⟩

theorem MapInv.entry_key (h : MapInv p) (hi : p.conns s = some i) (he : p.entries[i]? = some e) :
    e.key = s := by
  obtain ⟨e', he', hk⟩ := h.key s i hi
  exact mem_unique he he' ▸ hk

theorem MapInv.ticket {k : Nat} {op : TicketOp} (h : MapInv p)
    (hs : p.ticket k op = some p') : MapInv p' := by
  obtain ⟨t, e, eff, ht, he, m, rfl⟩ := ticket_cases hs
  have htmem : t ∈ p.tickets := mem_of_getElem? ht
  obtain ⟨hsid, hent, hkey⟩ := m.identity
  constructor
  · exact fun s i hi => h.key_set he hkey hi
  · intro t' ht' e' he'
    rcases mem_or_eq_of_mem_set ht' with hin | rfl
    · obtain ⟨e'', he'', hev⟩ := getElem?_set_evolves he m.evolves he'
      exact (h.agrees t' hin e'' he'').evolves hev
    · rw [hent] at he'
      rcases getElem?_set_cases he' with ⟨_, rfl⟩ | ⟨hne, _⟩
      · exact m.agrees (h.agrees t htmem e he)
      · exact absurd rfl hne
  · intro hc t' ht' hin
    rcases mem_or_eq_of_mem_set ht' with hmem | rfl
    · exact h.live hc t' hmem hin
    · rw [hsid, hent]
      exact h.live hc t htmem (m.inPool hin)
  · intro i e' he' hcl
    simp only [Pool.apply] at he' ⊢
    rcases getElem?_set_cases he' with ⟨rfl, rfl⟩ | ⟨_, he'⟩
    · rw [hkey]
      rcases m.steady_or_rebinds with hst | hre
      · obtain ⟨c, hc⟩ := ne_none_iff_exists'.mp hcl
        rcases hst.cached c hc with hold | ⟨_, _, hm, hcur⟩
        · exact h.cached t.entry e he (by simp [hold])
        · refine ⟨hcur.isOpen, ?_⟩
          rw [(h.agrees t htmem e he).key]
          simpa [Pool.view] using hm
      · exact absurd hre.cached hcl
    · exact h.cached i e' he' hcl

theorem MapInv.acquire {f : Fingerprint} {fresh : Bool}
    {consumer : String} (hslot : SlotInv p) (h : MapInv p)
    (hs : p.acquire s f fresh consumer = some p') : MapInv p' := by
  rcases acquire_cases hs with ⟨_, rfl⟩ | ⟨_, hnone, rfl⟩ | ⟨i, e, _, hi, he, rfl⟩
  · exact h
  · have hkeep : ∀ {s' j}, p.conns s' = some j →
        (p.acquireNew s f fresh consumer).conns s' = some j := by
      intro s' j hj
      have hne : s' ≠ s := by
        rintro rfl
        cases hnone.symm.trans hj
      simpa [Pool.acquireNew, hne] using hj
    constructor
    · intro s' i hi
      simp only [Pool.acquireNew] at hi ⊢
      split at hi
      · next heq =>
        cases hi
        exact ⟨_, getElem?_concat_length, heq.symm⟩
      · obtain ⟨e, he, hk⟩ := h.key s' i hi
        exact ⟨e, by rw [List.getElem?_append_left (List.getElem?_eq_some_iff.mp he).1, he], hk⟩
    · intro t ht e he
      simp only [Pool.acquireNew, mem_append, mem_singleton] at ht he
      rcases ht with ht | rfl
      · rw [getElem?_append_left (hslot.entry_lt t ht)] at he
        exact h.agrees t ht e he
      · simp only [newTicket, getElem?_concat_length, some.injEq] at he
        subst he
        exact ⟨rfl, Nat.le_refl _, fun _ => rfl⟩
    · intro hc t ht hin
      rcases mem_append.1 ht with ht | ht
      · exact hkeep (h.live hc t ht hin)
      · obtain rfl := mem_singleton.1 ht
        simp [Pool.acquireNew, newTicket]
    · intro i e he hcl
      rcases getElem?_concat_cases he with he | ⟨_, rfl⟩
      · exact ⟨(h.cached i e he hcl).1, hkeep (h.cached i e he hcl).2⟩
      · exact absurd rfl hcl
  · have hev := acquired_evolves e f
    constructor
    · exact fun s' j hj => h.key_set he hev.1 hj
    · intro t ht e' he'
      simp only [Pool.acquireOld, mem_append, mem_singleton] at ht he'
      rcases ht with ht | rfl
      · obtain ⟨e'', he'', hev'⟩ := getElem?_set_evolves he hev he'
        exact (h.agrees t ht e'' he'').evolves hev'
      · rcases getElem?_set_cases he' with ⟨_, rfl⟩ | ⟨hne, _⟩
        · exact ⟨hev.1.trans (h.entry_key hi he), Nat.le_refl _, fun _ => (acquired_fingerprint e f).symm⟩
        · exact absurd rfl hne
    · intro hc t ht hin
      simp only [Pool.acquireOld, mem_append, mem_singleton] at ht hc ⊢
      rcases ht with ht | rfl
      · exact h.live hc t ht hin
      · exact hi
    · intro j e' he' hcl
      rcases getElem?_set_cases he' with ⟨rfl, rfl⟩ | ⟨_, he'⟩
      · rw [hev.1]
        refine h.cached i e he ?_
        unfold ConnEntry.acquired at hcl
        split at hcl
        · exact absurd rfl hcl
        · exact hcl
      · exact h.cached j e' he' hcl

theorem MapInv.invalidate (h : MapInv p) (hs : p.invalidate s = some p') : MapInv p' := by
  rcases invalidate_cases hs with ⟨_, rfl⟩ | ⟨i, e, _, he, rfl⟩
  · exact { h with }
  · have hev := invalidated_evolves e
    refine ⟨?_, ?_, h.live, ?_⟩
    · exact fun s' j hj => h.key_set he hev.1 hj
    · intro t ht e' he'
      obtain ⟨e'', he'', hev'⟩ := getElem?_set_evolves he hev he'
      exact (h.agrees t ht e'' he'').evolves hev'
    · intro j e' he' hcl
      rcases getElem?_set_cases he' with ⟨_, rfl⟩ | ⟨_, he'⟩
      · exact absurd rfl hcl
      · exact h.cached j e' he' hcl

theorem evicted_client {now idleLimit : Int} (h : (e.evicted now idleLimit).client ≠ none) :
    (e.evicted now idleLimit).client = e.client := by
  unfold ConnEntry.evicted at h ⊢
  split at h
  · exact absurd rfl h
  · next hi => rw [if_neg hi]

/-- A ticket still in the pool keeps its entry from being deleted. -/
theorem SlotInv.used (h : SlotInv p) (ht : t ∈ p.tickets)
    (hin : t.phase.inPool = true) (he : p.entries[t.entry]? = some e) :
    0 < e.sem ∨ 0 < e.waiters := by
  have hcount : ∀ q : Phase → Bool, q t.phase = true →
      0 < p.tickets.countP (onEntry t.entry q) := by
    intro q hq
    exact countP_pos_iff.mpr ⟨t, ht, by simp [onEntry, hq]⟩
  rcases Bool.or_eq_true _ _ ▸ hin with hh | hw
  · exact .inl (h.sem t.entry e he ▸ hcount Phase.holdsSlot hh)
  · exact .inr (h.waiters t.entry e he ▸ hcount Phase.isWaiter hw)

theorem MapInv.evict {now idleLimit : Int}
    (hslot : SlotInv p) (h : MapInv p) (hs : p.evict s now idleLimit = some p') :
    MapInv p' := by
  obtain ⟨i, e, hi, he, rfl⟩ := evict_cases hs
  obtain ⟨hkey, hgen, hfp, hsem, hwait⟩ := evicted_same e now idleLimit
  constructor
  · intro s' j hj
    simp only [Pool.evictEntry] at hj ⊢
    split at hj
    · cases hj
    · exact h.key_set he hkey hj
  · intro t ht e' he'
    obtain ⟨e'', he'', hev⟩ := getElem?_set_evolves he ⟨hkey, .inl ⟨hgen, hfp⟩⟩ he'
    exact (h.agrees t ht e'' he'').evolves hev
  · intro hc t ht hin
    have hlive := h.live hc t ht hin
    simp only [Pool.evictEntry]
    split
    · -- the deleted entry is unused, so the ticket is not on it
      next hdel =>
        obtain ⟨hun, hsid⟩ := hdel
        rw [hsid, hi] at hlive
        cases hlive
        have hused := hslot.used ht hin (he)
        simp only [ConnEntry.unused, Bool.and_eq_true, beq_iff_eq] at hun
        omega
    · exact hlive
  · intro j e' he' hcl
    have hold : p.closed = false ∧ p.conns e'.key = some j
        ∧ ¬((e.evicted now idleLimit).unused = true ∧ e'.key = s) := by
      rcases getElem?_set_cases he' with ⟨rfl, rfl⟩ | ⟨hne, he'⟩
      · obtain ⟨hc, hm⟩ := h.cached i e he (evicted_client hcl ▸ hcl)
        refine ⟨hc, hkey ▸ hm, ?_⟩
        rintro ⟨hun, _⟩
        simp only [ConnEntry.unused, Bool.and_eq_true, isNone_iff_eq_none] at hun
        exact hcl hun.1.1
      · obtain ⟨hc, hm⟩ := h.cached j e' he' hcl
        refine ⟨hc, hm, ?_⟩
        rintro ⟨_, hk⟩
        rw [hk, hi] at hm
        exact hne (some.inj hm)
    refine ⟨hold.1, ?_⟩
    simp only [Pool.evictEntry]
    rw [if_neg hold.2.2]
    exact hold.2.1

theorem close_entry (h : MapInv p) (he' : p.closeAll.entries[i]? = some e') :
    ∃ e, p.entries[i]? = some e ∧ e' = { e with client := none } := by
  simp only [Pool.closeAll, getElem?_mapIdx] at he'
  obtain ⟨e, he, rfl⟩ := map_eq_some_iff.mp he'
  refine ⟨e, he, ?_⟩
  split
  · rfl
  · next hm =>
    -- an entry outside the map caches nothing
    by_cases hcl : e.client = none
    · rw [← hcl]
    · exact absurd (h.cached i e he hcl).2 (by simpa [Pool.isMapped] using hm)

theorem MapInv.close (h : MapInv p) (hs : p.close = some p') : MapInv p' := by
  rcases close_cases hs with ⟨_, rfl⟩ | ⟨_, rfl⟩
  · exact h
  · constructor
    · intro s i hi
      exact absurd hi (by simp [Pool.closeAll])
    · intro t ht e' he'
      obtain ⟨e, he, rfl⟩ := close_entry h he'
      exact (h.agrees t ht e he).evolves ⟨rfl, .inl ⟨rfl, rfl⟩⟩
    · intro hc
      exact absurd hc (by simp [Pool.closeAll])
    · intro i e' he' hcl
      obtain ⟨e, _, rfl⟩ := close_entry h he'
      exact absurd rfl hcl

theorem MapInv.step {op : Op} (hslot : SlotInv p) (h : MapInv p)
    (hs : step p op = some p') : MapInv p' := by
  cases op with
  | acquire s f fresh consumer => exact h.acquire hslot hs
  | ticket k op => exact h.ticket hs
  | invalidate s => exact h.invalidate hs
  | closeClient c =>
    obtain ⟨_, rfl⟩ := closeClient_cases hs
    exact { h with }
  | evict s now idleLimit => exact h.evict hslot hs
  | close => exact h.close hs
  | closeLease k =>
    obtain ⟨t, _, rfl⟩ := closeLease_cases hs
    exact { h with }

theorem reachable_mapInv (h : system.Reachable p) : MapInv p := by
  refine h.invariant_with (fun s hs => reachable_slotInv hs) ?_
    fun s e s' hslot hs he => hs.step hslot he
  rintro s ⟨maxConns, rfl⟩
  exact newPool_mapInv maxConns

end Talus.SshPool
