/-
  Talus.SshPool.Generation
  **A CACHED CLIENT NEVER CROSSES A CONFIGURATION CHANGE.**

  The pool's log records when a client was installed on a lease, when its
  server was invalidated or bound to a fingerprint, and when a cached client
  was returned.  `FreshIn log c s f i g` says that the log installs `c` for
  server `s`, fingerprint `f`, entry `i` and generation `g`, and that nothing
  after that invalidates `s` or binds it to another fingerprint: an instance
  of `Since`.

    • `GenInv` — a client in the cache is fresh, and so is the client of a
      cacheable ticket whose generation is still the entry's;
    • `cached_client_isolated` — every cached client ever returned was fresh
      at that moment;
    • `retired_generation_not_current` — a generation retired by an
      invalidation or another fingerprint is not current again as long as
      `evict` does not delete the server's entry, and `evict_reuses_generation`
      — a deleted entry starts again at generation 1.
-/
import Talus.Base.History
import Talus.SshPool.Mapping

namespace Talus.SshPool

open Talus.Base List Option

/-! ## §1. Fresh installations in a log. -/

/-- The event neither invalidates server `s` nor binds it to a fingerprint
other than `f`. -/
def PoolEvent.Keeps (s : ServerID) (f : Fingerprint) : PoolEvent → Prop
  | .invalidated s' => s' ≠ s
  | .bound s' f' => s' = s → f' = f
  | _ => True

/-- The log installs `c` for `(s, f)` in entry `i` and generation `g`, and
keeps `(s, f)` from there on. -/
def FreshIn (log : List PoolEvent) (c : Client) (s : ServerID) (f : Fingerprint)
    (i g : Nat) : Prop :=
  Since (· = .installed c s f i g) (PoolEvent.Keeps s f) log

variable {s : ServerID} {f : Fingerprint} {i g : Nat}

theorem freshIn_installed {c : Client}
    (log : List PoolEvent) : FreshIn (log ++ [.installed c s f i g]) c s f i g := by
  refine since_snoc log ?_
  rfl

/-- The event returns a cached client. -/
def PoolEvent.isReturn : PoolEvent → Bool
  | .returned .. => true
  | _ => false

/-- A returned client is fresh in the log before its return. -/
def FreshReturn (before : List PoolEvent) (ev : PoolEvent) : Prop :=
  ∀ c s f i g, ev = .returned c s f i g → FreshIn before c s f i g

theorem freshReturn_other {ev : PoolEvent} (h : ev.isReturn = false)
    (before : List PoolEvent) : FreshReturn before ev := by
  rintro c s f i g rfl
  exact absurd h (by simp [PoolEvent.isReturn])

/-! ## §2. Freshness of every client the pool may return. -/

/-- Freshness of what the pool may return. -/
structure GenInv (p : Pool) : Prop where
  ticket : p.closed = false → ∀ t ∈ p.tickets, ∀ e c,
    p.entries[t.entry]? = some e → t.client = some c → t.cacheable = true →
    t.generation = e.generation →
    FreshIn p.log c t.serverID t.fingerprint t.entry t.generation
  entry : ∀ (i : Nat) (e : ConnEntry) (c : Client), p.entries[i]? = some e →
    e.client = some c → FreshIn p.log c e.key e.fingerprint i e.generation
  returned : Justified FreshReturn p.log

theorem newPool_genInv (maxConns : Int) : GenInv (newPool maxConns) :=
  ⟨by simp [newPool], by simp [newPool], justified_nil⟩

variable {p : Pool} {t : Ticket}

/-- A ticket that holds a client is on the entry in the map. -/
theorem mapped_of_client (hslot : SlotInv p) (hmap : MapInv p)
    (hc : p.closed = false) (ht : t ∈ p.tickets) (hcl : t.client ≠ none) :
    p.conns t.serverID = some t.entry := by
  have hhold := Phase.holdsSlot_of_mayHold ((hslot.ok t ht).client hcl)
  exact hmap.live hc t ht (by simp [Phase.inPool, hhold])

/-- Entry `e'` after a step that appends `evs` to the log without returning a
client: it is an old entry in its generation, whose server the new events keep
if the map still holds it, an old entry in a new generation, or a new entry. -/
def EntryKept (p : Pool) (evs : List PoolEvent) (i : Nat) (e' : ConnEntry) : Prop :=
  (∃ e, p.entries[i]? = some e ∧ e'.key = e.key ∧ e'.generation = e.generation
      ∧ e'.fingerprint = e.fingerprint ∧ (e'.client = none ∨ e'.client = e.client)
      ∧ (p.conns e.key = some i → ∀ ev ∈ evs, ev.Keeps e.key e.fingerprint))
    ∨ (∃ e, p.entries[i]? = some e ∧ e.generation < e'.generation ∧ e'.client = none)
    ∨ (p.entries[i]? = none ∧ e'.client = none)

variable {p' : Pool}

/-- Steps that move no client into a ticket or the cache. -/
theorem GenInv.frame {evs : List PoolEvent} (hslot : SlotInv p)
    (hmap : MapInv p) (h : GenInv p) (hclosed : p'.closed = false → p.closed = false)
    (htick : ∀ t ∈ p'.tickets, t.client ≠ none → t.cacheable = true → t ∈ p.tickets)
    (hlog : p'.log = p.log ++ evs) (hevs : ∀ ev ∈ evs, ev.isReturn = false)
    (hent : ∀ (i : Nat) (e' : ConnEntry), p'.entries[i]? = some e' → EntryKept p evs i e') :
    GenInv p' := by
  constructor
  · intro hc t ht e' c he' hcl hk hg
    have hopen := hclosed hc
    have hne : t.client ≠ none := by simp [hcl]
    have htold := htick t ht hne hk
    have hlt := hslot.entry_lt t htold
    rcases hent t.entry e' he' with ⟨e, he, -, hgen, hfp, -, hkeep⟩ | ⟨e, he, hlt', -⟩ | ⟨hnone, -⟩
    · have hagree := hmap.agrees t htold e he
      have hsame : t.generation = e.generation := hg.trans hgen
      have hm := mapped_of_client hslot hmap hopen htold hne
      rw [hlog]
      refine (h.ticket hopen t htold e c he hcl hk hsame).append ?_
      rw [hagree.fingerprint hsame, ← hagree.key]
      exact hkeep (hagree.key ▸ hm)
    · have hle := (hmap.agrees t htold e he).generation_le
      omega
    · rw [getElem?_eq_none_iff] at hnone
      omega
  · intro i e' c he' hcl
    rcases hent i e' he' with ⟨e, he, hkey, hgen, hfp, hc' | hc', hkeep⟩ | ⟨e, he, -, hc'⟩ | ⟨-, hc'⟩
    · rw [hc'] at hcl
      cases hcl
    · rw [hc'] at hcl
      rw [hlog, hkey, hgen, hfp]
      exact (h.entry i e c he hcl).append (hkeep (hmap.cached i e he (by simp [hcl])).2)
    · rw [hc'] at hcl
      cases hcl
    · rw [hc'] at hcl
      cases hcl
  · rw [hlog]
    exact h.returned.append fun ev hev => freshReturn_other (hevs ev hev)

variable {e : ConnEntry}

theorem EntryKept.same {evs : List PoolEvent} (he : p.entries[i]? = some e)
    (hkeep : p.conns e.key = some i → ∀ ev ∈ evs, ev.Keeps e.key e.fingerprint) :
    EntryKept p evs i e :=
  .inl ⟨e, he, rfl, rfl, rfl, .inr rfl, hkeep⟩

/-- Two servers with different entries are different. -/
theorem server_ne {s' : ServerID} {j : Nat} (hi : p.conns s = some i)
    (hj : p.conns s' = some j) (hij : i ≠ j) : s ≠ s' := by
  rintro rfl
  exact hij (mem_unique hi hj)

theorem Steady.keeps {v : View} {eff : Effect}
    (h : Steady v t e eff) (s : ServerID) (f : Fingerprint) :
    ∀ ev ∈ eff.log, ev.Keeps s f := by
  rcases h.log with hl | ⟨c, hl⟩ | ⟨c, _, _, _, hl⟩ <;> simp [hl, PoolEvent.Keeps]

theorem GenInv.steady {k : Nat} {eff : Effect}
    (hslot : SlotInv p) (hmap : MapInv p) (h : GenInv p) (ht : p.tickets[k]? = some t)
    (he : p.entries[t.entry]? = some e) (m : TicketMove (p.view t) t e eff)
    (hst : Steady (p.view t) t e eff) : GenInv (p.apply k t eff) := by
  have htmem : t ∈ p.tickets := mem_of_getElem? ht
  obtain ⟨hsid, hent, hkey⟩ := m.identity
  have hagree := hmap.agrees t htmem e he
  -- the cached client is fresh for the ticket too, if the ticket is current
  have hfetch : ∀ c, e.client = some c → Current (p.view t) t e →
      FreshIn p.log c t.serverID t.fingerprint t.entry t.generation := by
    intro c hc hcur
    have hf := h.entry t.entry e c he hc
    rwa [hagree.key, hcur.fingerprint, hcur.generation] at hf
  have hheld : ∀ c, t.client = some c → t.cacheable = true → Current (p.view t) t e →
      FreshIn p.log c t.serverID t.fingerprint t.entry t.generation := by
    intro c hc hk hcur
    exact h.ticket hcur.isOpen t htmem e c he hc hk hcur.generation.symm
  constructor
  · intro hopen t' ht' e' c he' hcl hk hg
    simp only [Pool.apply] at hopen ht' he' ⊢
    rcases mem_or_eq_of_mem_set ht' with hin | rfl
    · have hold : ∃ e₀, p.entries[t'.entry]? = some e₀ ∧ t'.generation = e₀.generation := by
        rcases getElem?_set_cases he' with ⟨heq, rfl⟩ | ⟨_, he'⟩
        · exact ⟨e, heq ▸ he, hg.trans hst.entryGeneration⟩
        · exact ⟨e', he', hg⟩
      obtain ⟨e₀, he₀, hg₀⟩ := hold
      exact (h.ticket hopen t' hin e₀ c he₀ hcl hk hg₀).append (hst.keeps _ _)
    · rw [hent] at he'
      rcases getElem?_set_cases he' with ⟨_, rfl⟩ | ⟨hne, _⟩
      · rw [hst.generation, hst.entryGeneration] at hg
        rw [hst.cacheable] at hk
        rw [hsid, hst.fingerprint, hent, hst.generation]
        rcases hst.client c hcl with hold | ⟨hcache, hcur⟩ | hlog
        · exact (h.ticket hopen t htmem e c he hold hk hg).append (hst.keeps _ _)
        · exact (hfetch c hcache hcur).append (hst.keeps _ _)
        · rw [hlog]
          exact freshIn_installed p.log
      · exact absurd rfl hne
  · intro i e' c he' hcl
    rcases getElem?_set_cases he' with ⟨rfl, rfl⟩ | ⟨_, he'⟩
    · rw [hkey, hst.entryFingerprint, hst.entryGeneration]
      rcases hst.cached c hcl with hold | ⟨hold, hk, _, hcur⟩
      · exact (h.entry t.entry e c he hold).append (hst.keeps _ _)
      · have hf := hheld c hold hk hcur
        rw [← hagree.key, ← hcur.fingerprint, ← hcur.generation] at hf
        exact hf.append (hst.keeps _ _)
    · exact (h.entry i e' c he' hcl).append (hst.keeps _ _)
  · simp only [Pool.apply]
    rcases hst.log with hl | ⟨c, hl⟩ | ⟨c, hold, hlease, hcur, hl⟩
    · simpa [hl] using h.returned
    · rw [hl]
      exact h.returned.snoc (freshReturn_other rfl p.log)
    · rw [hl]
      refine h.returned.snoc ?_
      intro c' s' f' i' g' heq
      injection heq with h1 h2 h3 h4 h5
      subst h1 h2 h3 h4 h5
      exact hheld c hold ((hslot.ok t htmem).cacheable hlease) hcur

theorem GenInv.ticket_step {k : Nat} {op : TicketOp} (hslot : SlotInv p)
    (hmap : MapInv p) (h : GenInv p) (hs : p.ticket k op = some p') : GenInv p' := by
  obtain ⟨t, e, eff, ht, he, m, rfl⟩ := ticket_cases hs
  rcases m.steady_or_rebinds with hst | hre
  · exact h.steady hslot hmap ht he m hst
  · have hm : p.conns t.serverID = some t.entry := by
      simpa [Pool.view] using hre.mapped
    refine h.frame hslot hmap (fun hc => hc) ?_ rfl ?_ ?_
    · intro t' ht' _ hk
      rcases mem_or_eq_of_mem_set ht' with hin | rfl
      · exact hin
      · exact absurd hk (by simp [hre.cacheable])
    · simp [hre.log, PoolEvent.isReturn]
    · intro i e' he'
      rcases getElem?_set_cases he' with ⟨rfl, rfl⟩ | ⟨hne, he'⟩
      · have hn := hre.next
        exact .inr (.inl ⟨e, he, by omega, hre.cached⟩)
      · refine .same he' fun hi => ?_
        simp [hre.log, PoolEvent.Keeps, server_ne hm hi hne]

theorem GenInv.acquire {fresh : Bool}
    {consumer : String} (hslot : SlotInv p) (hmap : MapInv p) (h : GenInv p)
    (hs : p.acquire s f fresh consumer = some p') : GenInv p' := by
  rcases acquire_cases hs with ⟨_, rfl⟩ | ⟨_, hnone, rfl⟩ | ⟨i, e, _, hi, he, rfl⟩
  · exact h
  · refine h.frame hslot hmap (fun hc => hc) ?_ rfl (by simp [PoolEvent.isReturn]) ?_
    · intro t ht hcl _
      simp only [Pool.acquireNew, mem_append, mem_singleton] at ht
      rcases ht with ht | rfl
      · exact ht
      · exact absurd rfl hcl
    · intro i e' he'
      simp only [Pool.acquireNew, getElem?_append] at he'
      split at he'
      · refine .same he' fun hi => ?_
        have hne : s ≠ e'.key := by
          rintro rfl
          exact absurd (hnone.symm.trans hi) (by simp)
        simp [PoolEvent.Keeps, hne]
      · next hge =>
        obtain ⟨hlt, rfl⟩ := List.getElem?_eq_some_iff.mp he'
        exact .inr (.inr ⟨getElem?_eq_none_iff.mpr (by omega), by simp⟩)
  · refine h.frame hslot hmap (fun hc => hc) ?_ rfl (by simp [PoolEvent.isReturn]) ?_
    · intro t ht hcl _
      simp only [Pool.acquireOld, mem_append, mem_singleton] at ht
      rcases ht with ht | rfl
      · exact ht
      · exact absurd rfl hcl
    · intro j e' he'
      rcases getElem?_set_cases he' with ⟨rfl, rfl⟩ | ⟨hne, he'⟩
      · by_cases hf : e.fingerprint = f
        · -- the same fingerprint: the generation goes on
          refine .inl ⟨e, he, ?_⟩
          simp [ConnEntry.acquired, hf, PoolEvent.Keeps]
        · refine .inr (.inl ⟨e, he, ?_⟩)
          simp [ConnEntry.acquired, hf]
      · refine .same he' fun hj => ?_
        simp [PoolEvent.Keeps, server_ne hi hj hne]

theorem GenInv.invalidate (hslot : SlotInv p)
    (hmap : MapInv p) (h : GenInv p) (hs : p.invalidate s = some p') : GenInv p' := by
  rcases invalidate_cases hs with ⟨hnone, rfl⟩ | ⟨i, e, hi, he, rfl⟩
  · refine h.frame hslot hmap (fun hc => hc) (fun t ht _ _ => ht) rfl
      (by simp [PoolEvent.isReturn]) ?_
    intro i e' he'
    refine .same he' fun hi => ?_
    have hne : s ≠ e'.key := by
      rintro rfl
      exact absurd (hnone.symm.trans hi) (by simp)
    simp [PoolEvent.Keeps, hne]
  · refine h.frame hslot hmap (fun hc => hc) (fun t ht _ _ => ht) rfl
      (by simp [PoolEvent.isReturn]) ?_
    intro j e' he'
    rcases getElem?_set_cases he' with ⟨rfl, rfl⟩ | ⟨hne, he'⟩
    · exact .inr (.inl ⟨e, he, Nat.lt_succ_self _, rfl⟩)
    · refine .same he' fun hj => ?_
      simp [PoolEvent.Keeps, server_ne hi hj hne]

theorem GenInv.close (hslot : SlotInv p) (hmap : MapInv p) (h : GenInv p)
    (hs : p.close = some p') : GenInv p' := by
  rcases close_cases hs with ⟨_, rfl⟩ | ⟨_, rfl⟩
  · exact h
  · refine h.frame hslot hmap (by simp [Pool.closeAll]) (fun t ht _ _ => ht) (append_nil _).symm
      (by simp) ?_
    intro i e' he'
    obtain ⟨e, he, rfl⟩ := close_entry hmap he'
    exact .inl ⟨e, he, rfl, rfl, rfl, .inl rfl, by simp⟩

variable {op : Op}

theorem GenInv.step (hslot : SlotInv p) (hmap : MapInv p)
    (h : GenInv p) (hs : step p op = some p') : GenInv p' := by
  cases op with
  | acquire s f fresh consumer => exact h.acquire hslot hmap hs
  | ticket k op => exact h.ticket_step hslot hmap hs
  | invalidate s => exact h.invalidate hslot hmap hs
  | closeClient c =>
    obtain ⟨_, rfl⟩ := closeClient_cases hs
    exact { h with }
  | evict s now idleLimit =>
    obtain ⟨i, e, _, he, rfl⟩ := evict_cases hs
    refine h.frame hslot hmap (fun hc => hc) (fun t ht _ _ => ht) (append_nil _).symm (by simp) ?_
    intro j e' he'
    rcases getElem?_set_cases he' with ⟨rfl, rfl⟩ | ⟨_, he'⟩
    · obtain ⟨hkey, hgen, hfp, _, _⟩ := evicted_same e now idleLimit
      refine .inl ⟨e, he, hkey, hgen, hfp, ?_, by simp⟩
      by_cases hcl : (e.evicted now idleLimit).client = none
      · exact .inl hcl
      · exact .inr (evicted_client hcl)
    · exact .same he' (by simp)
  | close => exact h.close hslot hmap hs
  | closeLease k =>
    obtain ⟨t, _, rfl⟩ := closeLease_cases hs
    exact { h with }

theorem reachable_genInv (h : system.Reachable p) : GenInv p := by
  refine h.invariant_with (J := fun p => SlotInv p ∧ MapInv p)
    (fun s hs => ⟨reachable_slotInv hs, reachable_mapInv hs⟩) ?_
    fun s e s' hJ hs he => hs.step hJ.1 hJ.2 he
  rintro s ⟨maxConns, rfl⟩
  exact newPool_genInv maxConns

/-- **Generation isolation.**  Whatever the interleaving, each cached client an
acquisition of server `s` under fingerprint `f` returned had been installed on
a lease of the same server, fingerprint, entry and generation, and between
that installation and the return `s` was neither invalidated nor bound to
another fingerprint. -/
theorem cached_client_isolated (p : Pool) (h : system.Reachable p)
    (before after : List PoolEvent) (c : Client) (s : ServerID) (f : Fingerprint)
    (i g : Nat) (hlog : p.log = before ++ .returned c s f i g :: after) :
    ∃ first between : List PoolEvent, before = first ++ .installed c s f i g :: between
      ∧ (∀ ev ∈ between, ev ≠ .invalidated s)
      ∧ ∀ f', .bound s f' ∈ between → f' = f := by
  obtain ⟨first, _, between, hb, rfl, hk⟩ :=
    (reachable_genInv h).returned before _ after hlog c s f i g rfl
  refine ⟨first, between, hb, ?_, ?_⟩
  · rintro ev hev rfl
    exact (hk _ hev) rfl
  · intro f' hf'
    exact hk _ hf' rfl

/-- A client installed on a released lease and returned by the next
acquisition of the same server and fingerprint. -/
theorem cached_client_isolated_reuse :
    ∃ p, system.run (newPool 1)
        [.acquire 1 "A" false "", .ticket 0 .takeSlot, .ticket 0 .reportTake,
         .ticket 0 (.fetch 0 false), .ticket 0 (.probe .healthy), .ticket 0 (.confirm false),
         .ticket 0 (.setClient (some 7)), .ticket 0 (.finish false),
         .ticket 0 (.finishReturn 1), .ticket 0 .releaseSlot, .ticket 0 .reportReturn,
         .acquire 1 "A" false "", .ticket 1 .takeSlot, .ticket 1 .reportTake,
         .ticket 1 (.fetch 2 false), .ticket 1 (.probe .healthy),
         .ticket 1 (.confirm false)] = some p
      ∧ ∃ first between : List PoolEvent,
          [.bound 1 "A", .installed 7 1 "A" 0 1, .bound 1 "A"]
            = first ++ .installed 7 1 "A" 0 1 :: between
          ∧ (∀ ev ∈ between, ev ≠ .invalidated 1)
          ∧ ∀ f', .bound 1 f' ∈ between → f' = "A" := by
  exact System.exists_run rfl fun hrun =>
    cached_client_isolated _ ⟨_, _, ⟨1, rfl⟩, hrun⟩ _ [] 7 1 "A" 0 1 rfl

/-! ## §3. When a generation number is current again. -/

/-- A step takes an entry from its generation to the same or a later one. -/
theorem step_evolves (hmap : MapInv p) (hs : step p op = some p') {e' : ConnEntry}
    (he : p.entries[i]? = some e) (he' : p'.entries[i]? = some e') : Evolves e e' := by
  have hold : ∀ {i₀ : Nat} {e₀ e₁ : ConnEntry}, p.entries[i₀]? = some e₀ → Evolves e₀ e₁ →
      (p.entries.set i₀ e₁)[i]? = some e' → Evolves e e' := by
    intro i₀ e₀ e₁ h₀ hev hset
    obtain ⟨e₂, he₂, hev₂⟩ := getElem?_set_evolves h₀ hev hset
    exact mem_unique he₂ he ▸ hev₂
  have hsame : p.entries[i]? = some e' → Evolves e e' := fun h =>
    mem_unique he h ▸ .refl e
  cases op with
  | acquire s f fresh consumer =>
    rcases acquire_cases hs with ⟨_, rfl⟩ | ⟨_, _, rfl⟩ | ⟨j, e₀, _, _, he₀, rfl⟩
    · exact hsame he'
    · have hlt : i < p.entries.length := (List.getElem?_eq_some_iff.mp he).1
      simp only [Pool.acquireNew, getElem?_append_left hlt] at he'
      exact hsame he'
    · exact hold he₀ (acquired_evolves e₀ f) he'
  | ticket k op =>
    obtain ⟨t, e₀, eff, _, he₀, m, rfl⟩ := ticket_cases hs
    exact hold he₀ m.evolves he'
  | invalidate s =>
    rcases invalidate_cases hs with ⟨_, rfl⟩ | ⟨j, e₀, _, he₀, rfl⟩
    · exact hsame he'
    · exact hold he₀ (invalidated_evolves e₀) he'
  | closeClient c =>
    obtain ⟨_, rfl⟩ := closeClient_cases hs
    exact hsame he'
  | evict s now idleLimit =>
    obtain ⟨j, e₀, _, he₀, rfl⟩ := evict_cases hs
    obtain ⟨hkey, hgen, hfp, _, _⟩ := evicted_same e₀ now idleLimit
    exact hold he₀ ⟨hkey, .inl ⟨hgen, hfp⟩⟩ he'
  | close =>
    rcases close_cases hs with ⟨_, rfl⟩ | ⟨_, rfl⟩
    · exact hsame he'
    · obtain ⟨e₀, he₀, rfl⟩ := close_entry hmap he'
      have heq : e = e₀ := mem_unique he he₀
      exact heq ▸ ⟨rfl, .inl ⟨rfl, rfl⟩⟩
  | closeLease k =>
    obtain ⟨t, _, rfl⟩ := closeLease_cases hs
    exact hsame he'

/-- The step is an iteration of `evict` that deletes the entry of server `s`. -/
def Deletes (s : ServerID) (p : Pool) (op : Op) : Prop :=
  ∃ now idleLimit p', op = .evict s now idleLimit ∧ step p op = some p' ∧ p'.conns s = none

theorem step_closed (hs : step p op = some p') (h : p.closed = true) : p'.closed = true := by
  cases op with
  | acquire s' f fresh consumer =>
    rcases acquire_cases hs with ⟨_, rfl⟩ | ⟨_, _, rfl⟩ | ⟨j, e, _, _, _, rfl⟩ <;> exact h
  | ticket k op =>
    obtain ⟨t, e, eff, _, _, _, rfl⟩ := ticket_cases hs
    exact h
  | invalidate s' =>
    rcases invalidate_cases hs with ⟨_, rfl⟩ | ⟨j, e, _, _, rfl⟩ <;> exact h
  | closeClient c =>
    obtain ⟨_, rfl⟩ := closeClient_cases hs
    exact h
  | evict s' now idleLimit =>
    obtain ⟨j, e, _, _, rfl⟩ := evict_cases hs
    exact h
  | close =>
    rcases close_cases hs with ⟨_, rfl⟩ | ⟨_, rfl⟩
    · exact h
    · rfl
  | closeLease k =>
    obtain ⟨t, _, rfl⟩ := closeLease_cases hs
    exact h

theorem close_closed (hs : p.close = some p') : p'.closed = true := by
  rcases close_cases hs with ⟨hc, rfl⟩ | ⟨_, rfl⟩
  · exact hc
  · rfl

/-- The pool is closed, or the map holds entry `i` for `s` with property `P`. -/
def HoldsEntry (s : ServerID) (i : Nat) (P : ConnEntry → Prop) (p : Pool) : Prop :=
  p.closed = true ∨ (p.conns s = some i ∧ ∃ e, p.entries[i]? = some e ∧ P e)

/-- A property of entries that survives `Evolves` survives every step that
does not delete the entry. -/
theorem HoldsEntry.step {P : ConnEntry → Prop} (hP : ∀ e e', Evolves e e' → P e → P e')
    (hr : system.Reachable p) (hs : system.step p op = some p') (hd : ¬Deletes s p op)
    (h : HoldsEntry s i P p) : HoldsEntry s i P p' := by
  rcases h with hc | ⟨hi, e, he, hPe⟩
  · exact .inl (step_closed hs hc)
  · rcases step_conns hs hi with hi' | rfl | ⟨now, idleLimit, e, rfl, -, -, hnone⟩
    · obtain ⟨e', he', _⟩ := (reachable_mapInv (hr.step hs)).key s i hi'
      exact .inr ⟨hi', e', he', hP e e' (step_evolves (reachable_mapInv hr) hs he he') hPe⟩
    · exact .inl (close_closed hs)
    · exact absurd ⟨now, idleLimit, p', rfl, hs, hnone⟩ hd

/-- The run rule for `HoldsEntry`. -/
theorem HoldsEntry.run {P : ConnEntry → Prop}
    (hP : ∀ e e', Evolves e e' → P e → P e') {ops : List Op}
    (hr : system.Reachable p) (hs : system.run p ops = some p')
    (hd : system.Along (fun p op => ¬Deletes s p op) p ops)
    (h : HoldsEntry s i P p) : HoldsEntry s i P p' := by
  have key : system.Reachable p' ∧ HoldsEntry s i P p' := by
    refine System.along_invariant (I := fun p => system.Reachable p ∧ HoldsEntry s i P p)
      ?_ ops p p' hd ⟨hr, h⟩ hs
    intro q op q' hq hI hstep
    exact ⟨hI.1.step hstep, hI.2.step hP hI.1 hstep hq⟩
  exact key.2

/-- The step retires the generation whose fingerprint is `f`: an invalidation
of the server, or its acquisition under another fingerprint. -/
def Retires (s : ServerID) (f : Fingerprint) : Op → Prop
  | .invalidate s' => s' = s
  | .acquire s' f' _ _ => s' = s ∧ f' ≠ f
  | _ => False

/-- In or past generation `g`, which has fingerprint `f`. -/
def InOrPast (g : Nat) (f : Fingerprint) (e : ConnEntry) : Prop :=
  g < e.generation ∨ (e.generation = g ∧ e.fingerprint = f)

theorem InOrPast.evolves (e e' : ConnEntry)
    (hev : Evolves e e') (h : InOrPast g f e) : InOrPast g f e' := by
  obtain ⟨_, ⟨hg, hf⟩ | hlt⟩ := hev
  · unfold InOrPast
    rw [hg, hf]
    exact h
  · rcases h with h | ⟨h, _⟩
    · exact .inl (by omega)
    · exact .inl (by omega)

/-- A retiring step takes the entry past generation `g`. -/
theorem HoldsEntry.retire (hop : Retires s f op) (hs : system.step p op = some p')
    (h : HoldsEntry s i (InOrPast g f) p) :
    HoldsEntry s i (fun e => g < e.generation) p' := by
  rcases h with hc | ⟨hi, e, he, hpast⟩
  · exact .inl (step_closed hs hc)
  · have hlt : i < p.entries.length := (List.getElem?_eq_some_iff.mp he).1
    have hle : g ≤ e.generation := by
      rcases hpast with h | h <;> omega
    cases op with
    | invalidate s' =>
      obtain rfl : s' = s := hop
      rcases invalidate_cases hs with ⟨hnone, _⟩ | ⟨j, e₀, hj, he₀, rfl⟩
      · exact absurd (hnone.symm.trans hi) (by simp)
      · cases hj.symm.trans hi
        obtain rfl := mem_unique he₀ he
        exact .inr ⟨hi, e₀.invalidated, getElem?_set_self hlt, Nat.lt_succ_of_le hle⟩
    | acquire s' f' fresh consumer =>
      obtain ⟨rfl, hne⟩ : s' = s ∧ f' ≠ f := hop
      rcases acquire_cases hs with ⟨hc, rfl⟩ | ⟨_, hnone, _⟩ | ⟨j, e₀, _, hj, he₀, rfl⟩
      · exact .inl hc
      · exact absurd (hnone.symm.trans hi) (by simp)
      · cases hj.symm.trans hi
        obtain rfl := mem_unique he₀ he
        refine .inr ⟨hi, e₀.acquired f', getElem?_set_self hlt, ?_⟩
        obtain ⟨_, ⟨hg, hf⟩ | hgt⟩ := acquired_evolves e₀ f'
        · -- the generation goes on only under its own fingerprint
          rw [acquired_fingerprint] at hf
          rcases hpast with hpast | ⟨_, hfp⟩
          · omega
          · exact absurd (hf.trans hfp) hne
        · omega
    | _ => exact absurd hop (by simp [Retires])

/-- **A retired generation is not current again while its entry lives.**  Let
generation `g` of `s`, with fingerprint `f`, be current in a reachable pool,
and let a later step invalidate `s` or acquire it under another fingerprint.
If no iteration of `evict` deletes the entry of `s` along the run, `g` is not
current at its end. -/
theorem retired_generation_not_current (p₀ p₁ p₂ p₃ : Pool) (s : ServerID) (g i : Nat)
    (e : ConnEntry) (op : Op) (ops₁ ops₂ : List Op) (h₀ : system.Reachable p₀)
    (hi : p₀.conns s = some i) (he : p₀.entries[i]? = some e)
    (hcur : isCurrent p₀ s g = true) (h₁ : system.run p₀ ops₁ = some p₁)
    (hop : Retires s e.fingerprint op) (h₂ : system.step p₁ op = some p₂)
    (h₃ : system.run p₂ ops₂ = some p₃)
    (hkeep : system.Along (fun p op => ¬Deletes s p op) p₀ (ops₁ ++ op :: ops₂)) :
    isCurrent p₃ s g = false := by
  have hgen : e.generation = g := by
    simp only [isCurrent, hi, bind_some, he, Bool.and_eq_true, beq_iff_eq] at hcur
    exact hcur.2
  obtain ⟨hkeep₁, hkeep₂⟩ := System.along_append ops₁ (op :: ops₂) p₀ p₁ hkeep h₁
  have hseen : HoldsEntry s i (InOrPast g e.fingerprint) p₀ :=
    .inr ⟨hi, e, he, .inr ⟨hgen, rfl⟩⟩
  have hretired := (hseen.run InOrPast.evolves h₀ h₁ hkeep₁).retire hop h₂
  have hr₂ : system.Reachable p₂ := (h₀.run h₁).step h₂
  have hpast : ∀ e e' : ConnEntry, Evolves e e' → g < e.generation → g < e'.generation := by
    rintro e e' ⟨_, ⟨hg, _⟩ | hlt⟩ h <;> omega
  rcases hretired.run hpast hr₂ h₃ (hkeep₂.2 p₂ h₂) with hc | ⟨hi₃, e₃, he₃, hlt⟩
  · unfold isCurrent
    split
    · simp [hc]
    · rfl
  · have hne : e₃.generation ≠ g := by omega
    simp [isCurrent, hi₃, he₃, hne]

/-- A lease in use keeps its entry; an invalidation then retires generation 1
for good. -/
theorem retired_generation_not_current_borrowed :
    ∃ p₁ p₂, system.run (newPool 1) [.acquire 1 "A" false ""] = some p₁
      ∧ isCurrent p₁ 1 1 = true ∧ system.step p₁ (.invalidate 1) = some p₂
      ∧ isCurrent p₂ 1 1 = false := by
  have h₁ : system.run (newPool 1) [.acquire 1 "A" false ""] = some _ := rfl
  have h₂ : system.step ((newPool 1).acquireNew 1 "A" false "") (.invalidate 1) = some _ := rfl
  refine ⟨_, _, h₁, rfl, h₂, ?_⟩
  refine retired_generation_not_current _ _ _ _ 1 1 0 _ (.invalidate 1) [] []
    ⟨_, _, ⟨1, rfl⟩, h₁⟩ rfl rfl rfl rfl rfl h₂ rfl ⟨?_, fun _ _ => trivial⟩
  rintro ⟨now, idleLimit, p', hop, -⟩
  cases hop

/-- **Eviction reuses generation numbers.**  Generation 1 of server 1 is
observed under fingerprint "A"; the lease is released, and `evict` drops its
idle client and deletes the entry, so that neither the invalidation nor the
acquisition under "B" finds a generation to advance, and generation 1 is
current once more. -/
theorem evict_reuses_generation :
    ∃ p₁ p₂, system.run (newPool 1) [.acquire 1 "A" false ""] = some p₁
      ∧ isCurrent p₁ 1 1 = true
      ∧ system.run p₁
          [.ticket 0 .takeSlot, .ticket 0 .reportTake, .ticket 0 (.fetch 0 false),
           .ticket 0 (.probe .healthy), .ticket 0 (.confirm false),
           .ticket 0 (.setClient (some 7)), .ticket 0 (.finish false),
           .ticket 0 (.finishReturn 0), .ticket 0 .releaseSlot, .ticket 0 .reportReturn,
           .evict 1 61 60, .closeClient 7, .invalidate 1, .acquire 1 "B" false ""] = some p₂
      ∧ Retires 1 "A" (.invalidate 1) ∧ Retires 1 "A" (.acquire 1 "B" false "")
      ∧ isCurrent p₂ 1 1 = true := by
  refine ⟨_, _, rfl, rfl, rfl, rfl, ⟨rfl, by decide⟩, rfl⟩

end Talus.SshPool
