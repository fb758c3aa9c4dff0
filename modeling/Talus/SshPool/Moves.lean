/-
  Talus.SshPool.Moves
  **WHAT A STEP OF THE POOL CAN DO, SAID ONCE.**

  `TicketMove v t e eff` lists the moves of a ticket `t` on its entry `e`
  with the guards under which the source takes them; `ticketStep_move` is
  the inversion of the executable step.  Every invariant of the pool is
  proved by cases on a move, never by unfolding the steps again.
-/
import Talus.SshPool.Model

namespace Talus.SshPool

open Talus.Base

/-- The ticket is still current on an open pool: what both later critical
sections of `acquireContext` test. -/
structure Current (v : View) (t : Ticket) (e : ConnEntry) : Prop where
  isOpen : v.closed = false
  generation : e.generation = t.generation
  fingerprint : e.fingerprint = t.fingerprint

variable {ctxErr : Bool}

theorem staleCheck_none {v : View} {t : Ticket} {e : ConnEntry} (h : staleCheck v ctxErr t e = none) :
    Current v t e := by
  unfold staleCheck at h
  split at h
  · cases h
  split at h
  · cases h
  split at h
  · cases h
  · next hclosed hsame =>
    have hc : v.closed = false := by simpa using hclosed
    have hs : e.generation = t.generation ∧ e.fingerprint = t.fingerprint := by
      simpa [not_or] using hsame
    exact ⟨hc, hs.1, hs.2⟩

/-- The moves of a ticket. -/
inductive TicketMove (v : View) (t : Ticket) (e : ConnEntry) : Effect → Prop
  /-- `finish` or `RebindFingerprint` with nothing to do -/
  | idle : TicketMove v t e { ticket := t, entry := e }
  | takeSlot (hp : t.phase = .waiting) (hd : t.doomed = none)
      (hs : e.sem < v.maxConns) :
      TicketMove v t e
        { ticket := { t with phase := .reserved, took := t.took + 1 }
          entry := { e with sem := e.sem + 1 } }
  | giveUp (err : AcquireError) (hp : t.phase = .waiting) (hd : t.doomed = none) :
      TicketMove v t e { ticket := { t with phase := .failing err }, entry := e }
  | failReturn (err : AcquireError) (hp : t.phase = .failing err) :
      TicketMove v t e
        { ticket := { t with phase := .done (.failed err) }
          entry := { e with waiters := e.waiters - 1 } }
  | reportTake (hp : t.phase = .reserved) :
      TicketMove v t e
        { ticket := { t with phase := .reported }, entry := e, quota := 1 }
  | fetchFail (err : AcquireError) (hp : t.phase = .reported) :
      TicketMove v t e
        { ticket := { t with phase := .releasing (.failed err) }
          entry := { e with waiters := e.waiters - 1 } }
  | fetch (now : Int) (hp : t.phase = .reported) (hc : Current v t e) :
      TicketMove v t e
        { ticket := { t with phase := .fetched, client := e.client }
          entry := { e with waiters := e.waiters - 1, client := none,
                            lastUsed := now } }
  /-- there was nothing to probe, or the probe succeeded -/
  | probed (hp : t.phase = .fetched) :
      TicketMove v t e { ticket := { t with phase := .checked }, entry := e }
  /-- a fresh acquisition, or the probe failed -/
  | dropped (hp : t.phase = .fetched) :
      TicketMove v t e
        { ticket := { t with phase := .checked, client := none, doomed := t.client }
          entry := e }
  /-- the context or the pool ended while the probe ran -/
  | probeAbort (err : AcquireError) (hp : t.phase = .fetched) :
      TicketMove v t e
        { ticket := { t with phase := .releasing (.failed err), client := none,
                             doomed := t.client }
          entry := e }
  | confirmFail (err : AcquireError) (hp : t.phase = .checked) (hd : t.doomed = none) :
      TicketMove v t e
        { ticket := { t with phase := .releasing (.failed err), client := none,
                             doomed := t.client }
          entry := e }
  | confirm (hp : t.phase = .checked) (hd : t.doomed = none) (hc : Current v t e) :
      TicketMove v t e
        { ticket := { t with phase := .leased }
          entry := e
          log := match t.client with
            | some c => [.returned c t.serverID t.fingerprint t.entry t.generation]
            | none => [] }
  | closeDoomed (c : Client) (hd : t.doomed = some c) :
      TicketMove v t e
        { ticket := { t with doomed := none }, entry := e, closedNow := [c] }
  /-- `SetClient` on a lease that is done -/
  | setDone (client : Option Client) (hp : t.phase.hasLease = true)
      (hn : ∀ c ∈ client, c ∉ v.handed) :
      TicketMove v t e
        { ticket := t, entry := e, closing := client.toList, handed := client.toList }
  /-- `SetClient` on a closed pool, with the client the lease has -/
  | setClosedOwn (hp : t.phase = .leased) :
      TicketMove v t e
        { ticket := { t with client := none }, entry := e
          closing := t.client.toList }
  /-- `SetClient` on a closed pool, with a new client or none -/
  | setClosed (client : Option Client) (hp : t.phase = .leased)
      (hn : ∀ c ∈ client, c ∉ v.handed) :
      TicketMove v t e
        { ticket := { t with client := none }, entry := e
          closing := t.client.toList ++ client.toList, handed := client.toList }
  /-- `SetClient` replaces the client of a live lease -/
  | setLive (client : Option Client) (hp : t.phase = .leased)
      (ho : v.closed = false) (hn : ∀ c ∈ client, c ∉ v.handed) :
      TicketMove v t e
        { ticket := { t with client := client }, entry := e
          closing := t.client.toList, handed := client.toList
          log := client.toList.map fun c =>
            .installed c t.serverID t.fingerprint t.entry t.generation }
  | finish (discard : Bool) (hp : t.phase = .leased) :
      TicketMove v t e { ticket := { t with phase := .finishing discard }, entry := e }
  | finishCache (now : Int) (hp : t.phase = .finishing false)
      (hk : t.cacheable = true) (hm : v.mapped = true) (hc : Current v t e)
      (hn : e.client = none) :
      TicketMove v t e
        { ticket := { t with phase := .releasing .settled, client := none }
          entry := { e with client := t.client, lastUsed := now } }
  | finishDrop (discard : Bool) (hp : t.phase = .finishing discard) :
      TicketMove v t e
        { ticket := { t with phase := .releasing .settled, client := none,
                             doomed := t.client }
          entry := e }
  | releaseSlot (how : Ending) (hp : t.phase = .releasing how)
      (hd : t.doomed = none) (hs : 0 < e.sem) :
      TicketMove v t e
        { ticket := { t with phase := .released how, gave := t.gave + 1 }
          entry := { e with sem := e.sem - 1 } }
  | reportReturn (how : Ending) (hp : t.phase = .released how) :
      TicketMove v t e
        { ticket := { t with phase := .done how }, entry := e, quota := -1 }
  | rebind (fingerprint : Fingerprint) (hp : t.phase = .leased)
      (hm : v.mapped = true) (hc : Current v t e) (hf : fingerprint ≠ t.fingerprint) :
      TicketMove v t e
        { ticket := { t with fingerprint := fingerprint,
                             generation := e.generation + 1, cacheable := false }
          entry := { e with client := none, fingerprint := fingerprint,
                            generation := e.generation + 1 }
          closing := e.client.toList
          log := [.bound t.serverID fingerprint] }

variable {v : View} {t : Ticket} {e : ConnEntry} {eff : Effect}

theorem fetch_move {now : Int} (h : fetch v now ctxErr t e = some eff) : TicketMove v t e eff := by
  unfold fetch at h
  split at h
  · next hp =>
    dsimp only at h
    split at h
    · next err herr =>
      cases h
      exact .fetchFail err hp
    · next hnone =>
      cases h
      have hc := staleCheck_none hnone
      exact .fetch now hp { hc with }
  · cases h

theorem probe_move {verdict : Verdict} (h : probe v verdict t e = some eff) :
    TicketMove v t e eff := by
  unfold probe at h
  split at h
  · next hp =>
    split at h
    · cases h
      exact .probed hp
    · split at h
      · cases h
        exact .dropped hp
      · cases verdict with
        | healthy =>
          cases h
          exact .probed hp
        | unhealthy =>
          cases h
          exact .dropped hp
        | ctxDone =>
          cases h
          exact .probeAbort .context hp
        | poolDone =>
          dsimp only at h
          split at h
          · cases h
            exact .probeAbort .closed hp
          · cases h
  · cases h

theorem confirm_move (h : confirm v ctxErr t e = some eff) : TicketMove v t e eff := by
  unfold confirm at h
  split at h
  · next hp =>
    split at h
    · next err herr =>
      cases h
      exact .confirmFail err hp.1 hp.2
    · next hnone =>
      cases h
      exact .confirm hp.1 hp.2 (staleCheck_none hnone)
  · cases h

theorem setClient_move {client : Option Client}
    (h : setClient v client t e = some eff) : TicketMove v t e eff := by
  unfold setClient at h
  by_cases hl : t.phase = .leased
  · have hlease : t.phase.hasLease = true := by rw [hl]; rfl
    have hlive : (t.phase ≠ .leased) = False := by simp [hl]
    by_cases hsame : t.client = client
    · -- the lease's own client again: it is kept, or closed with the pool
      subst hsame
      simp only [hlive, hlease, ne_eq, not_true_eq_false, or_self, if_false,
        List.not_mem_nil, IsEmpty.forall_iff, implies_true, and_true,
        List.append_nil, List.map_nil, if_true] at h
      split at h
      · cases h
        exact .setClosedOwn hl
      · cases h
        exact .idle
    · simp only [hlive, hlease, ne_eq, false_or, hsame, not_false_eq_true,
        if_true, Option.mem_toList, true_and, if_false] at h
      split at h
      · next hn =>
        split at h
        · cases h
          exact .setClosed client hl hn
        · next ho =>
          cases h
          exact .setLive client hl (by simpa using ho) hn
      · cases h
  · simp only [hl, ne_eq, not_false_eq_true, true_or, if_true, Option.mem_toList] at h
    split at h
    · next hn =>
      cases h
      exact .setDone client hn.1 hn.2
    · cases h

theorem finishReturn_move {now : Int} (h : finishReturn v now t e = some eff) :
    TicketMove v t e eff := by
  unfold finishReturn at h
  split at h
  · next discard hp =>
    split at h
    · next hm =>
      obtain ⟨rfl, hk, ho, hmap, hg, hf, hn⟩ := hm
      cases h
      exact .finishCache now hp hk hmap ⟨ho, hg, hf⟩ hn
    · cases h
      exact .finishDrop discard hp
  · cases h

theorem rebindFingerprint_move {fingerprint : Fingerprint}
    (h : rebindFingerprint v fingerprint t e = some eff) : TicketMove v t e eff := by
  unfold rebindFingerprint at h
  split at h
  · cases h
  split at h
  · cases h
    exact .idle
  · next hguard =>
    simp only [ne_eq, not_or, not_not, Bool.not_eq_true, Bool.not_eq_false] at hguard
    obtain ⟨hp, ho, hm, hg, hf, hnew⟩ := hguard
    cases h
    exact .rebind fingerprint hp hm ⟨ho, hg, hf⟩ hnew

/-- **Inversion**: whatever the executable step of a ticket does is one of its
moves. -/
theorem ticketStep_move {op : TicketOp} (h : ticketStep v op t e = some eff) :
    TicketMove v t e eff := by
  cases op with
  | fetch now ctxErr => exact fetch_move h
  | probe verdict => exact probe_move h
  | confirm ctxErr => exact confirm_move h
  | setClient client => exact setClient_move h
  | finishReturn now => exact finishReturn_move h
  | rebindFingerprint fingerprint => exact rebindFingerprint_move h
  | takeSlot =>
    simp only [ticketStep, takeSlot, Option.ite_none_right_eq_some] at h
    obtain ⟨⟨hp, hd, hs⟩, h⟩ := h
    cases h
    exact .takeSlot hp hd hs
  | giveUp err =>
    simp only [ticketStep, giveUp, Option.ite_none_right_eq_some] at h
    obtain ⟨⟨hp, hd, _⟩, h⟩ := h
    cases h
    exact .giveUp err hp hd
  | failReturn =>
    simp only [ticketStep, failReturn] at h
    split at h
    · next err hp =>
      cases h
      exact .failReturn err hp
    · cases h
  | reportTake =>
    simp only [ticketStep, reportTake, Option.ite_none_right_eq_some] at h
    obtain ⟨hp, h⟩ := h
    cases h
    exact .reportTake hp
  | closeDoomed =>
    simp only [ticketStep, closeDoomed] at h
    split at h
    · next c hd =>
      cases h
      exact .closeDoomed c hd
    · cases h
  | finish discard =>
    simp only [ticketStep, finish] at h
    split at h
    · next hp =>
      cases h
      exact .finish discard hp
    · split at h
      · cases h
        exact .idle
      · cases h
  | releaseSlot =>
    simp only [ticketStep, releaseSlot] at h
    split at h
    · next how hp =>
      simp only [Option.ite_none_right_eq_some] at h
      obtain ⟨⟨hd, hs⟩, h⟩ := h
      cases h
      exact .releaseSlot how hp hd hs
    · cases h
  | reportReturn =>
    simp only [ticketStep, reportReturn] at h
    split at h
    · next how hp =>
      cases h
      exact .reportReturn how hp
    · cases h

/-- A step of a ticket is one of its moves, written back. -/
theorem ticket_cases {p p' : Pool} {k : Nat} {op : TicketOp}
    (h : p.ticket k op = some p') :
    ∃ t e eff, p.tickets[k]? = some t ∧ p.entries[t.entry]? = some e
      ∧ TicketMove (p.view t) t e eff ∧ p' = p.apply k t eff := by
  unfold Pool.ticket at h
  split at h
  · cases h
  · next t ht =>
    split at h
    · cases h
    · next e he =>
      obtain ⟨eff, heff, rfl⟩ := Option.map_eq_some_iff.mp h
      exact ⟨t, e, eff, ht, he, ticketStep_move heff, rfl⟩

/-! ## §2. The steps of the pool as a whole. -/

section
variable {p p' : Pool} {s : ServerID}

theorem acquire_cases {f : Fingerprint} {fresh : Bool} {consumer : String}
    (h : p.acquire s f fresh consumer = some p') :
    (p.closed = true ∧ p' = p)
      ∨ (p.closed = false ∧ p.conns s = none ∧ p' = p.acquireNew s f fresh consumer)
      ∨ ∃ i e, p.closed = false ∧ p.conns s = some i ∧ p.entries[i]? = some e
          ∧ p' = p.acquireOld s i e f fresh consumer := by
  unfold Pool.acquire at h
  split at h
  · next hc => exact .inl ⟨hc, (Option.some.inj h).symm⟩
  · next hc =>
    have ho : p.closed = false := by simpa using hc
    split at h
    · next hs => exact .inr (.inl ⟨ho, hs, (Option.some.inj h).symm⟩)
    · next i hs =>
      obtain ⟨e, he, rfl⟩ := Option.map_eq_some_iff.mp h
      exact .inr (.inr ⟨i, e, ho, hs, he, rfl⟩)

theorem invalidate_cases (h : p.invalidate s = some p') :
    (p.conns s = none ∧ p' = { p with log := p.log ++ [.invalidated s] })
      ∨ ∃ i e, p.conns s = some i ∧ p.entries[i]? = some e
          ∧ p' = p.invalidateEntry s i e := by
  unfold Pool.invalidate at h
  split at h
  · next hs => exact .inl ⟨hs, (Option.some.inj h).symm⟩
  · next i hs =>
    obtain ⟨e, he, rfl⟩ := Option.map_eq_some_iff.mp h
    exact .inr ⟨i, e, hs, he, rfl⟩

theorem evict_cases {now idleLimit : Int} (h : p.evict s now idleLimit = some p') :
    ∃ i e, p.conns s = some i ∧ p.entries[i]? = some e
      ∧ p' = p.evictEntry s now idleLimit i e := by
  unfold Pool.evict at h
  split at h
  · cases h
  · next i hs =>
    obtain ⟨e, he, rfl⟩ := Option.map_eq_some_iff.mp h
    exact ⟨i, e, hs, he, rfl⟩

theorem closeClient_cases {c : Client} (h : p.closeClient c = some p') :
    c ∈ p.closing ∧ p' = { p with closing := p.closing.erase c
                                  closedClients := c :: p.closedClients } := by
  unfold Pool.closeClient at h
  split at h
  · next hc => exact ⟨hc, (Option.some.inj h).symm⟩
  · cases h

theorem close_cases (h : p.close = some p') :
    (p.closed = true ∧ p' = p) ∨ (p.closed = false ∧ p' = p.closeAll) := by
  unfold Pool.close at h
  split at h
  · next hc => exact .inl ⟨hc, (Option.some.inj h).symm⟩
  · next hc => exact .inr ⟨by simpa using hc, (Option.some.inj h).symm⟩

theorem closeLease_cases {k : Nat} (h : p.closeLease k = some p') :
    ∃ t, p.tickets[k]? = some t
      ∧ p' = { p with
          active := p.active.erase k
          closedClients :=
            (if t.phase = .leased then t.client.toList else []) ++ p.closedClients } := by
  unfold Pool.closeLease at h
  split at h
  · split at h
    · cases h
    · next t ht => exact ⟨t, ht, (Option.some.inj h).symm⟩
  · cases h

end

end Talus.SshPool
