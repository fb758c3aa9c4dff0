/-
  Talus.Agent.SpoolShape
  **THE SHAPE OF THE OUTBOX: WHAT IT TOUCHES, HOW IT IS ORDERED, THAT IT OPENS.**

  The ledger (`Talus.Agent.Ledger`) says that nothing leaves uncounted.  This file
  has the rest of what a method keeps, one lemma a method and a property:

    • `Footprint`: a method only syncs, writes the counter and removes files of
      queued samples; whatever such changes keep, the method keeps,
    • `Ordered`: the queue is sorted by capture time, and the byte count is the
      sum of its sizes,
    • `Bounded`: what a pruning without an error leaves is within both limits,
    • `Paid`: a pruning counts every file that goes, synced or not,
    • `openSpool_completes`: a directory of readable files opens, if no call fails.
-/
import Talus.Agent.SpoolSpec

namespace Talus.Agent

open Talus.Base Talus.Base.Prog List Option

variable {q : Spool} {d : Disk}

/-! ## §1. What a method touches. -/

/-- `I` is kept by a sync, by a write of the counter and by the removal of a file
of `ids`. -/
structure Footprint (ids : List Bytes) (I : Outbox → Prop) : Prop where
  sync : ∀ b, I b → I b.sync
  setDropped : ∀ b count, I b → I (b.setDropped count)
  remove : ∀ b, ∀ i ∈ ids, I b → I (b.remove i)

theorem Footprint.mono {ids ids' : List Bytes} {I : Outbox → Prop} (h : Footprint ids I)
    (hsub : ids' ⊆ ids) : Footprint ids' I :=
  ⟨h.sync, h.setDropped, fun b i hi => h.remove b i (hsub hi)⟩

variable {b : Outbox}

section Touches

variable {ids : List Bytes} {I : Outbox → Prop}

/-- `writeAtomic` renames or not, and syncs or not. -/
theorem writeAtomic_touches {change : Outbox → Outbox} (hsync : ∀ b, I b → I b.sync)
    (hchange : I (change d.box)) (h : I d.box) :
    wp (writeAtomic change) (fun _ d' => I d'.box) (fun d' => I d'.box) d :=
  writeAtomic_spec (Q := fun _ b => I b) (C := I) h hchange (hsync _ hchange) h hchange

theorem pruneLoop_touches (hI : Footprint ids I) (cutoff : Int) (entries : List QueueEntry) :
    ∀ (bytes : Int) (dropped : Nat) (d : Disk), (∀ e ∈ entries, e.sample.id ∈ ids) → I d.box →
      wp (Spool.pruneLoop cutoff entries bytes dropped) (fun _ d' => I d'.box)
        (fun d' => I d'.box) d := by
  induction entries with
  | nil =>
    intro bytes dropped d _ h
    exact wp_pure h
  | cons e rest ih =>
    intro bytes dropped d hids h
    unfold Spool.pruneLoop
    split
    · refine wp_bind (wp_mono (writeAtomic_touches hI.sync (hI.setDropped _ _ h) h) ?_
        fun _ h' => h')
      intro written d₁ h₁
      cases written with
      | false => exact wp_pure h₁
      | true =>
        refine wp_bind (wp_attempt ?_ (wp_pure h₁) h₁)
        exact ih _ _ _ (fun x hx => hids x (mem_cons_of_mem e hx))
          (hI.remove _ _ (hids e mem_cons_self) h₁)
    · exact wp_pure h

theorem prune_touches (hI : Footprint q.ids I) (now : Int) (h : I d.box) :
    wp (Spool.prune now q) (fun _ d' => I d'.box) (fun d' => I d'.box) d := by
  have hids : ∀ e ∈ q.entries, e.sample.id ∈ q.ids := fun e he => mem_map_of_mem he
  refine wp_bind (wp_mono (pruneLoop_touches hI _ q.entries _ _ d hids h) ?_ fun _ h' => h')
  intro r d₁ h₁
  split
  · exact wp_bind (wp_attempt (wp_pure (hI.sync _ h₁)) (wp_pure h₁) h₁)
  · exact wp_pure h₁

theorem batch_touches (hI : Footprint q.ids I) (now : Int) (h : I d.box) :
    wp (Spool.batch now q) (fun _ d' => I d'.box) (fun d' => I d'.box) d :=
  wp_bind (wp_mono (prune_touches hI now h) (fun _ _ h' => wp_pure h') fun _ h' => h')

theorem ackLoop_touches (hI : Footprint ids I) (acked : List Bytes) (dropped : Nat)
    (entries : List QueueEntry) :
    ∀ (kept : List QueueEntry) (bytes : Int) (ok : Bool) (d : Disk),
      (∀ e ∈ entries, e.sample.id ∈ ids) → I d.box →
      wp (Spool.ackLoop acked dropped entries kept bytes ok) (fun _ d' => I d'.box)
        (fun d' => I d'.box) d := by
  induction entries with
  | nil =>
    intro kept bytes ok d _ h
    exact wp_pure h
  | cons e rest ih =>
    intro kept bytes ok d hids h
    have hrest : ∀ x ∈ rest, x.sample.id ∈ ids :=
      fun x hx => hids x (mem_cons_of_mem e hx)
    unfold Spool.ackLoop
    split
    · refine wp_bind (wp_attempt ?_ (ih _ _ _ d hrest h) h)
      exact ih _ _ _ _ hrest (hI.remove _ _ (hids e mem_cons_self) h)
    · exact ih _ _ _ d hrest h

theorem ack_touches (hI : Footprint q.ids I) (acked : List Bytes) (h : I d.box) :
    wp (Spool.ack acked q) (fun _ d' => I d'.box) (fun d' => I d'.box) d := by
  have hids : ∀ e ∈ q.entries, e.sample.id ∈ q.ids := fun e he => mem_map_of_mem he
  refine wp_bind (wp_mono (ackLoop_touches hI acked q.dropped q.entries [] q.bytes true d hids h)
    ?_ fun _ h' => h')
  intro r d₁ h₁
  exact wp_bind (wp_attempt (wp_pure (hI.sync _ h₁)) (wp_pure h₁) h₁)

theorem reject_touches (hI : Footprint q.ids I) (rejected : List Bytes) (h : I d.box) :
    wp (Spool.reject rejected q) (fun _ d' => I d'.box) (fun d' => I d'.box) d := by
  unfold Spool.reject
  dsimp only
  split
  · refine wp_bind (wp_mono (writeAtomic_touches hI.sync (hI.setDropped _ _ h) h) ?_
      fun _ h' => h')
    intro written d₁ h₁
    cases written with
    | false => exact wp_pure h₁
    | true => exact ack_touches (q := { q with dropped := q.dropped + _ }) hI rejected h₁
  · exact ack_touches hI rejected h

/-- The ids an opening works on are the names of the files. -/
theorem opened_ids (rt : Runtime) (bytes : Int) (dropped : Nat)
    (hnames : ∀ f ∈ b.files, f.sample.id = f.name) :
    Spool.ids ⟨rt.sort (b.files.map fun f => ⟨f.sample, f.size⟩), bytes, dropped⟩ ⊆ b.names := by
  intro i hi
  obtain ⟨e, he, rfl⟩ := mem_map.mp hi
  obtain ⟨f, hf, rfl⟩ := mem_map.mp ((rt.sort_perm _).mem_iff.mp he)
  exact mem_map.mpr ⟨f, hf, (hnames f hf).symm⟩

theorem openSpool_touches (rt : Runtime) (now : Int) (hI : Footprint d.box.names I) (h : I d.box) :
    wp (Spool.openSpool rt now) (fun _ d' => I d'.box) (fun d' => I d'.box) d := by
  refine openSpool_rule rt now ?_ ?_
  · intro d' hd'
    rw [hd']
    exact ⟨h, h⟩
  · intro d' hd' hnames
    exact prune_touches (hI.mono (opened_ids rt _ _ hnames)) now (by rw [hd']; exact h)

end Touches

/-! ## §2. The queue. -/

/-- Sorted by capture time, with the right byte count. -/
structure Ordered (q : Spool) : Prop where
  sorted : q.entries.Pairwise fun a b => a.sample.time ≤ b.sample.time
  bytes : q.bytes = (q.entries.map fun e => (e.size : Int)).sum

/-- Within both limits at the instant `now`. -/
structure Bounded (now : Int) (q : Spool) : Prop where
  bytes : q.bytes ≤ maxQueueBytes
  age : ∀ e ∈ q.entries, now - maxAge ≤ e.sample.time

/-- What is left of a queue is a shorter queue with no more bytes. -/
structure Shrunk (q q' : Spool) : Prop where
  entries : q'.entries.Sublist q.entries
  bytes : q'.bytes ≤ q.bytes

variable {bytes : Int} {dropped : Nat}

theorem Ordered.tail {e : QueueEntry} {rest : List QueueEntry} {dropped' : Nat}
    (h : Ordered ⟨e :: rest, bytes, dropped⟩) : Ordered ⟨rest, bytes - e.size, dropped'⟩ where
  sorted := (List.pairwise_cons.mp h.sorted).2
  bytes := by
    have hb := h.bytes
    simp only [map_cons, sum_cons] at hb ⊢
    omega

theorem Ordered.count {entries : List QueueEntry} {dropped' : Nat}
    (h : Ordered ⟨entries, bytes, dropped⟩) : Ordered ⟨entries, bytes, dropped'⟩ :=
  ⟨h.sorted, h.bytes⟩

/-- Taking one entry out of the middle. -/
theorem Ordered.skip {l₁ l₂ : List QueueEntry} {e : QueueEntry}
    (h : Ordered ⟨l₁ ++ e :: l₂, bytes, dropped⟩) : Ordered ⟨l₁ ++ l₂, bytes - e.size, dropped⟩ where
  sorted := h.sorted.sublist ((List.Sublist.refl l₁).append (List.sublist_cons_self e l₂))
  bytes := by
    have hb := h.bytes
    simp only [map_append, map_cons, sum_append, sum_cons] at hb ⊢
    omega

/-- **Pruning** keeps the order, and stops only where both limits hold. -/
theorem pruneLoop_ordered (now : Int) (entries : List QueueEntry) :
    ∀ (bytes : Int) (dropped : Nat) (d : Disk), Ordered ⟨entries, bytes, dropped⟩ →
      wp (Spool.pruneLoop (now - maxAge) entries bytes dropped)
        (fun r _ => Ordered r.1 ∧ (r.2 = true → Bounded now r.1)) (fun _ => True) d := by
  induction entries with
  | nil =>
    intro bytes dropped d h
    refine wp_pure ⟨h, fun _ => ⟨?_, fun e he => absurd he not_mem_nil⟩⟩
    have hb : bytes = 0 := h.bytes
    show bytes ≤ (maxQueueBytes : Int)
    rw [hb]
    exact Int.natCast_nonneg _
  | cons e rest ih =>
    intro bytes dropped d h
    have hfail : ∀ {x : Spool}, Ordered x →
        Ordered x ∧ (false = true → Bounded now x) := fun hx => ⟨hx, nofun⟩
    unfold Spool.pruneLoop
    split
    · refine wp_bind (wp_mono (writeAtomic_touches (I := fun _ => True) (fun _ h' => h') trivial
        trivial) ?_ fun _ h' => h')
      intro written d₁ _
      cases written with
      | false => exact wp_pure (hfail h)
      | true => exact wp_bind (wp_attempt (ih _ _ _ h.tail) (wp_pure (hfail h.count)) trivial)
    · next hstop =>
      rw [not_or, Int.not_lt, Int.not_lt] at hstop
      refine wp_pure ⟨h, fun _ => ⟨hstop.1, ?_⟩⟩
      -- the head is the oldest
      intro x hx
      rcases mem_cons.mp hx with hx | hx
      · rw [hx]
        exact hstop.2
      · exact Int.le_trans hstop.2 ((pairwise_cons.mp h.sorted).1 x hx)

theorem prune_ordered (now : Int) (h : Ordered q) :
    wp (Spool.prune now q) (fun r _ => Ordered r.1 ∧ (r.2 = true → Bounded now r.1))
      (fun _ => True) d := by
  refine wp_bind (wp_mono (pruneLoop_ordered now q.entries q.bytes q.dropped d ⟨h.sorted, h.bytes⟩)
    ?_ fun _ _ => trivial)
  intro r d₁ h₁
  split
  · next hr =>
    exact wp_bind (wp_attempt (wp_pure ⟨h₁.1, fun _ => h₁.2 hr⟩)
      (wp_pure ⟨h₁.1, nofun⟩) trivial)
  · exact wp_pure h₁

theorem batch_ordered (now : Int) (h : Ordered q) :
    wp (Spool.batch now q) (fun r _ => Ordered r.1 ∧ (r.2.isSome = true → Bounded now r.1))
      (fun _ => True) d := by
  refine wp_bind (wp_mono (prune_ordered now h) ?_ fun _ _ => trivial)
  intro r d₁ h₁
  refine wp_pure ⟨h₁.1, fun hs => h₁.2 ?_⟩
  cases hr : r.2 with
  | true => rfl
  | false =>
    rw [hr] at hs
    cases hs

/-- A queue with one more entry, sorted again. -/
theorem Ordered.insert (rt : Runtime) (h : Ordered q) (e : QueueEntry) :
    Ordered ⟨rt.sort (q.entries ++ [e]), q.bytes + e.size, q.dropped⟩ where
  sorted := rt.sort_sorted _
  bytes := by
    have hperm := (rt.sort_perm (q.entries ++ [e])).map fun e => (e.size : Int)
    show q.bytes + e.size = _
    rw [hperm.sum_eq, map_append, sum_append, h.bytes]
    simp

theorem add_ordered (rt : Runtime) (now later : Int) (s : Sample) (h : Ordered q) :
    wp (Spool.add rt now later s q)
      (fun r _ => Ordered r.1 ∧ (r.2.isNone = true → Bounded later r.1)) (fun _ => True) d := by
  have hrefused : ∀ (e : SpoolError) (d : Disk), wp (pure (q, some e))
      (fun r _ => Ordered r.1 ∧ (r.2.isNone = true → Bounded later r.1)) (fun _ => True) d :=
    fun e d => wp_pure ⟨h, nofun⟩
  unfold Spool.add
  split
  · exact hrefused _ _
  split
  · exact hrefused _ _
  next doc hdoc =>
  split
  · exact hrefused _ _
  split
  · exact hrefused _ _
  refine wp_bind (wp_mono (writeAtomic_touches (I := fun _ => True) (fun _ h' => h') trivial
    trivial) ?_ fun _ h' => h')
  intro written d₁ _
  cases written with
  | false => exact hrefused _ _
  | true =>
    refine wp_bind (wp_mono (prune_ordered later (h.insert rt ⟨s, doc.length⟩)) ?_ fun _ h' => h')
    intro r d₂ h₂
    refine wp_pure ⟨h₂.1, fun hs => h₂.2 ?_⟩
    cases hr : r.2 with
    | true => rfl
    | false =>
      rw [hr] at hs
      cases hs

theorem ackLoop_ordered (ids : List Bytes) (dropped : Nat) (entries : List QueueEntry) :
    ∀ (kept : List QueueEntry) (bytes : Int) (ok : Bool) (d : Disk),
      Ordered ⟨kept ++ entries, bytes, dropped⟩ →
      wp (Spool.ackLoop ids dropped entries kept bytes ok)
        (fun r _ => Ordered r.1 ∧ Shrunk ⟨kept ++ entries, bytes, dropped⟩ r.1)
        (fun _ => True) d := by
  induction entries with
  | nil =>
    intro kept bytes ok d h
    rw [append_nil] at h
    exact wp_pure ⟨h, by rw [append_nil], Int.le_refl _⟩
  | cons e rest ih =>
    intro kept bytes ok d h
    have hkeep : ∀ (ok' : Bool) (d : Disk),
        wp (Spool.ackLoop ids dropped rest (kept ++ [e]) bytes ok')
          (fun r _ => Ordered r.1 ∧ Shrunk ⟨kept ++ e :: rest, bytes, dropped⟩ r.1)
          (fun _ => True) d := by
      intro ok' d
      have hnext := ih (kept ++ [e]) bytes ok' d (by rw [append_assoc]; exact h)
      rw [append_assoc] at hnext
      exact hnext
    unfold Spool.ackLoop
    split
    · refine wp_bind (wp_attempt ?_ (hkeep _ _) trivial)
      refine wp_mono (ih kept _ ok _ h.skip) ?_ fun _ h' => h'
      intro r d' hr
      have hle : bytes - (e.size : Int) ≤ bytes := by omega
      exact ⟨hr.1, hr.2.entries.trans
        ((List.Sublist.refl kept).append (sublist_cons_self e rest)),
        Int.le_trans hr.2.bytes hle⟩
    · exact hkeep _ _

theorem ack_ordered (ids : List Bytes) (h : Ordered q) :
    wp (Spool.ack ids q) (fun r _ => Ordered r.1 ∧ Shrunk q r.1) (fun _ => True) d := by
  refine wp_bind (wp_mono (ackLoop_ordered ids q.dropped q.entries [] q.bytes true d
    ⟨h.sorted, h.bytes⟩) ?_ fun _ h' => h')
  intro r d₁ h₁
  have hr : Ordered r.1 ∧ Shrunk q r.1 := ⟨h₁.1, h₁.2.entries, h₁.2.bytes⟩
  exact wp_bind (wp_attempt (wp_pure hr) (wp_pure hr) trivial)

theorem reject_ordered (ids : List Bytes) (h : Ordered q) :
    wp (Spool.reject ids q) (fun r _ => Ordered r.1 ∧ Shrunk q r.1) (fun _ => True) d := by
  unfold Spool.reject
  dsimp only
  split
  · refine wp_bind (wp_mono (writeAtomic_touches (I := fun _ => True) (fun _ h' => h') trivial
      trivial) ?_ fun _ h' => h')
    intro written d₁ _
    cases written with
    | false => exact wp_pure ⟨h, List.Sublist.refl _, Int.le_refl _⟩
    | true =>
      -- only the counter has changed
      have hcount : ∀ count, Ordered { q with dropped := count } := fun _ => ⟨h.sorted, h.bytes⟩
      refine wp_mono (ack_ordered ids (hcount _)) ?_ fun _ h' => h'
      intro r d' hr
      exact ⟨hr.1, hr.2.entries, hr.2.bytes⟩
  · exact ack_ordered ids h

theorem openSpool_ordered (rt : Runtime) (now : Int) :
    wp (Spool.openSpool rt now)
      (fun r _ => ∀ q, r = some q → Ordered q ∧ Bounded now q) (fun _ => True) d := by
  refine openSpool_rule rt now (fun _ _ => ⟨nofun, trivial⟩) ?_
  intro d' _ _
  refine wp_mono (prune_ordered now ⟨rt.sort_sorted _, ?_⟩) ?_ fun _ h' => h'
  · have hperm := (rt.sort_perm (d.box.files.map fun f => ⟨f.sample, f.size⟩)).map
      fun e => (e.size : Int)
    rw [hperm.sum_eq, List.map_map]
    rfl
  · intro r d'' hr q hq
    split at hq
    · next hok =>
      cases hq
      exact ⟨hr.1, hr.2 hok⟩
    · cases hq

/-! ## §3. Files that go. -/

/-- The ids of `start` that have no file any more and are not acknowledged. -/
def gone (start acked : List Bytes) (b : Outbox) : List Bytes :=
  start.filter fun i => i ∉ b.names ∧ i ∉ acked

variable {start : List Bytes}

theorem mem_gone {acked : List Bytes} {i : Bytes} :
    i ∈ gone start acked b ↔ i ∈ start ∧ i ∉ b.names ∧ i ∉ acked := by
  unfold gone
  rw [mem_filter, decide_eq_true_eq]

theorem gone_remove_le (hnd : start.Nodup) (b : Outbox) (i : Bytes) :
    (gone start [] (b.remove i)).length ≤ (gone start [] b).length + 1 := by
  have hsub : gone start [] (b.remove i) ⊆ gone start [] b ++ [i] := by
    intro j hj
    obtain ⟨hstart, hname, hack⟩ := mem_gone.mp hj
    rw [mem_append, mem_singleton]
    by_cases hji : j = i
    · exact .inr hji
    · exact .inl (mem_gone.mpr
        ⟨hstart, fun hn => hname (Outbox.mem_names_remove.mpr ⟨hn, hji⟩), hack⟩)
  have hle := ((hnd.filter _).subperm hsub).length_le
  rwa [length_append] at hle

/-- The files of `start` that have gone are counted, in memory and on disk, on top
of `n`. -/
structure Paid (start : List Bytes) (n dropped : Nat) (b : Outbox) : Prop where
  distinct : start.Nodup
  memory : (gone start [] b).length + n ≤ dropped
  disk : ∀ v ∈ b.counters, (gone start [] b).length + n ≤ v

variable {n : Nat}

/-- **Pruning pays for each file before it goes.** -/
theorem pruneLoop_paid (cutoff : Int) (entries : List QueueEntry) :
    ∀ (bytes : Int) (dropped : Nat) (d : Disk), Paid start n dropped d.box →
      wp (Spool.pruneLoop cutoff entries bytes dropped)
        (fun r d' => Paid start n r.1.dropped d'.box)
        (fun d' => ∀ v ∈ d'.box.counters, (gone start [] d'.box).length + n ≤ v) d := by
  induction entries with
  | nil =>
    intro bytes dropped d h
    exact wp_pure h
  | cons e rest ih =>
    intro bytes dropped d h
    -- the new counter on disk, not yet synced
    have hset : ∀ v ∈ (d.box.setDropped (dropped + 1)).counters,
        (gone start [] (d.box.setDropped (dropped + 1))).length + n ≤ v := by
      intro v hv
      have hgone : gone start [] (d.box.setDropped (dropped + 1)) = gone start [] d.box := rfl
      rw [hgone]
      rcases mem_cons.mp hv with hv | hv
      · have := h.memory
        rw [hv]
        show _ ≤ dropped + 1
        omega
      · exact h.disk v hv
    unfold Spool.pruneLoop
    split
    · refine wp_bind (wp_mono (writeAtomic_spec
        (Q := fun ok b => if ok then Paid start (n + 1) (dropped + 1) b else Paid start n dropped b)
        (C := fun b => ∀ v ∈ b.counters, (gone start [] b).length + n ≤ v)
        h ⟨h.distinct, h.memory, hset⟩ ?_ h.disk hset) ?_ fun _ h' => h')
      · -- synced: the counter is the only value left
        have hmem := h.memory
        have hgone : gone start [] (d.box.setDropped (dropped + 1)).sync = gone start [] d.box :=
          rfl
        refine ⟨h.distinct, ?_, fun v hv => ?_⟩
        · rw [hgone]
          omega
        · have hv : v = dropped + 1 := mem_singleton.mp hv
          rw [hgone, hv]
          omega
      · intro written d₁ h₁
        cases written with
        | false => exact wp_pure h₁
        | true =>
          have h₁ : Paid start (n + 1) (dropped + 1) d₁.box := h₁
          have hdisk : ∀ v ∈ d₁.box.counters, (gone start [] d₁.box).length + n ≤ v := by
            intro v hv
            have := h₁.disk v hv
            omega
          have hmem := h₁.memory
          refine wp_bind (wp_attempt (ih _ _ _ ?_)
            (wp_pure ⟨h₁.distinct, by show _ ≤ dropped + 1; omega, hdisk⟩) hdisk)
          -- the removal costs at most the one that was paid
          have hle := gone_remove_le h₁.distinct d₁.box e.sample.id
          refine ⟨h₁.distinct, ?_, fun v hv => ?_⟩
          · show (gone start [] (d₁.box.remove e.sample.id)).length + n ≤ dropped + 1
            omega
          · show (gone start [] (d₁.box.remove e.sample.id)).length + n ≤ v
            have := h₁.disk v hv
            omega
    · exact wp_pure h

theorem prune_paid (now : Int) (h : Paid start n q.dropped d.box) :
    wp (Spool.prune now q) (fun r d' => Paid start n r.1.dropped d'.box)
      (fun d' => ∀ v ∈ d'.box.counters, (gone start [] d'.box).length + n ≤ v) d := by
  refine wp_bind (wp_mono (pruneLoop_paid _ q.entries _ _ d h) ?_ fun _ h' => h')
  intro r d₁ h₁
  split
  · refine wp_bind (wp_attempt (wp_pure ⟨h₁.distinct, h₁.memory, fun v hv => ?_⟩) (wp_pure h₁)
      h₁.disk)
    have hv : v = d₁.box.dropped := mem_singleton.mp hv
    rw [hv]
    exact h₁.disk _ mem_cons_self
  · exact wp_pure h₁

/-- An opening counts every file it removes, also one no sync has covered. -/
theorem openSpool_paid (rt : Runtime) (now : Int) (hnd : d.box.names.Nodup)
    (h : ∀ v ∈ d.box.counters, n ≤ v) :
    wp (Spool.openSpool rt now)
      (fun r d' => (∀ v ∈ d'.box.counters, (gone d.box.names [] d'.box).length + n ≤ v) ∧
        ∀ q, r = some q → (gone d.box.names [] d'.box).length + n ≤ q.dropped)
      (fun d' => ∀ v ∈ d'.box.counters, (gone d.box.names [] d'.box).length + n ≤ v) d := by
  have hnone : gone d.box.names [] d.box = [] := by
    refine filter_eq_nil_iff.mpr fun i hi => ?_
    simp [hi]
  have hstart : Paid d.box.names n d.box.dropped d.box := by
    refine ⟨hnd, ?_, fun v hv => ?_⟩
    · rw [hnone]
      have := h d.box.dropped mem_cons_self
      simpa using this
    · rw [hnone]
      simpa using h v hv
  refine openSpool_rule rt now ?_ ?_
  · intro d' hd'
    rw [hd']
    exact ⟨⟨hstart.disk, nofun⟩, hstart.disk⟩
  · intro d' hd' _
    have hstart' : Paid d.box.names n d.box.dropped d'.box := by
      rw [hd']
      exact hstart
    refine wp_mono (prune_paid now hstart') ?_ fun _ h' => h'
    intro r d'' hr
    refine ⟨hr.disk, fun q hq => ?_⟩
    split at hq
    · cases hq
      exact hr.memory
    · cases hq

/-! ## §4. A directory that opens. -/

/-- A file the opening accepts. -/
structure File.Readable (f : File) : Prop where
  size : f.size ≤ maxSampleBytes
  id : f.sample.id.length = 32
  name : f.sample.id = f.name

/-- Every file there is, or that a power loss may bring back, can be read. -/
def Sealed (b : Outbox) : Prop := ∀ f, f ∈ b.files ∨ f ∈ b.removed → f.Readable

theorem sealed_footprint (ids : List Bytes) : Footprint ids Sealed where
  sync b h f hf := by
    obtain hf | hf := hf
    · exact h f (.inl hf)
    · exact absurd hf not_mem_nil
  setDropped b count h := h
  remove b i _ h f hf := by
    obtain hf | hf := hf
    · exact h f (.inl (mem_filter.mp hf).1)
    · rcases mem_append.mp hf with hf | hf
      · exact h f (.inl (mem_filter.mp hf).1)
      · exact h f (.inr hf)

theorem Sealed.replace (h : Sealed b) {f : File} (hf : f.Readable) : Sealed (b.replace f) := by
  rintro g (hg | hg)
  · rcases mem_cons.mp hg with hg | hg
    · rw [hg]
      exact hf
    · exact h g (.inl (mem_filter.mp hg).1)
  · rcases mem_append.mp hg with hg | hg
    · exact h g (.inl (mem_filter.mp hg).1)
    · exact h g (.inr hg)

theorem Sealed.powerLoss (h : Sealed b) (hnd : b.names.Nodup)
    (kept restored : List Bytes) (count : Nat) : Sealed (b.powerLoss kept restored count) := by
  have hnd' : ((b.files.filter fun f => f.name ∉ b.created ∨ f.name ∈ kept).map File.name).Nodup :=
    hnd.sublist (filter_sublist.map _)
  rintro f (hf | hf)
  · rcases (restore_spec restored b.removed _ hnd').2.2 f hf with hf | hf
    · exact h f (.inl (mem_filter.mp hf).1)
    · exact h f (.inr hf)
  · exact absurd hf not_mem_nil

/-- A sample that passes its checks makes a readable file. -/
theorem readable_of_valid {s : Sample} {now : Int} {size : Nat} (hv : s.validate now = .ok ())
    (hsize : size ≤ maxSampleBytes) : File.Readable ⟨s.id, s.scrub, size⟩ := by
  have hm : s.Measured := ((Sample.validate_ok_iff s now).mp hv).1.1
  refine ⟨hsize, ?_, hm.scrub_id⟩
  show s.scrub.id.length = 32
  rw [hm.scrub_id]
  exact hm.idLength

theorem add_sealed (rt : Runtime) (now later : Int) (s : Sample) (h : Sealed d.box) :
    wp (Spool.add rt now later s q) (fun _ d' => Sealed d'.box) (fun d' => Sealed d'.box) d := by
  unfold Spool.add
  split
  · exact wp_pure h
  next hvalid =>
  split
  · exact wp_pure h
  next doc hdoc =>
  split
  · exact wp_pure h
  next hsize =>
  split
  · exact wp_pure h
  have hfile : File.Readable ⟨s.id, s.scrub, doc.length⟩ :=
    readable_of_valid hvalid (Nat.le_of_not_lt hsize)
  refine wp_bind (wp_mono (writeAtomic_touches (sealed_footprint []).sync (h.replace hfile) h) ?_
    fun _ h' => h')
  intro written d₁ h₁
  cases written with
  | false => exact wp_pure h₁
  | true =>
    exact wp_bind (wp_mono (prune_touches (sealed_footprint _) later h₁)
      (fun _ _ h' => wp_pure h') fun _ h' => h')

theorem attempts_completes (k : Nat) (d : Disk) :
    Completes (attempts k) (fun ok d' => ok = true ∧ d' = d) d := by
  induction k with
  | zero => exact completes_pure ⟨rfl, rfl⟩
  | succ k ih => exact completes_bind (completes_attempt ih)

theorem writeAtomic_completes (change : Outbox → Outbox) (d : Disk) :
    Completes (writeAtomic change) (fun ok _ => ok = true) d := by
  refine completes_bind (completes_attempt ?_)
  refine completes_bind (completes_mono (attempts_completes 3 _) ?_)
  rintro written d₁ ⟨rfl, rfl⟩
  refine completes_bind (completes_attempt ?_)
  exact completes_bind (completes_attempt (completes_attempt rfl))

theorem pruneLoop_completes (cutoff : Int) (entries : List QueueEntry) :
    ∀ (bytes : Int) (dropped : Nat) (d : Disk),
      Completes (Spool.pruneLoop cutoff entries bytes dropped) (fun r _ => r.2 = true) d := by
  induction entries with
  | nil =>
    intro bytes dropped d
    exact completes_pure rfl
  | cons e rest ih =>
    intro bytes dropped d
    unfold Spool.pruneLoop
    split
    · refine completes_bind (completes_mono (writeAtomic_completes _ d) ?_)
      rintro written d₁ rfl
      exact completes_bind (completes_attempt (ih _ _ _))
    · exact completes_pure rfl

theorem prune_completes (now : Int) (q : Spool) (d : Disk) :
    Completes (Spool.prune now q) (fun r _ => r.2 = true) d := by
  refine completes_bind (completes_mono (pruneLoop_completes _ _ _ _ d) ?_)
  intro r d₁ hr
  rw [if_pos hr]
  exact completes_bind (completes_attempt (completes_pure rfl))

theorem sweep_completes (k : Nat) : ∀ d : Disk,
    Completes (Spool.sweep k) (fun ok _ => ok = true) d := by
  induction k with
  | zero =>
    intro d
    exact completes_pure rfl
  | succ k ih =>
    intro d
    exact completes_bind (completes_attempt (ih _))

theorem readAll_completes (files : List File) (h : ∀ f ∈ files, f.Readable) (d : Disk) :
    Completes (Spool.readAll files) (fun r _ => r.isSome = true) d := by
  induction files generalizing d with
  | nil => exact completes_pure rfl
  | cons f rest ih =>
    have hf := h f mem_cons_self
    refine completes_bind (completes_mono (attempts_completes 2 d) ?_)
    rintro ok d₁ ⟨rfl, rfl⟩
    rw [if_pos ⟨rfl, hf.size, hf.id, hf.name⟩]
    refine completes_bind (completes_mono (ih (fun g hg => h g (mem_cons_of_mem f hg)) d₁) ?_)
    intro r d₂ hr
    refine completes_pure ?_
    rw [isSome_map]
    exact hr

/-- **Opening succeeds** on a directory of readable files, whatever temporary files
an earlier process has left, if none of its calls fails. -/
theorem openSpool_completes (rt : Runtime) (now : Int) (h : Sealed d.box) :
    Completes (Spool.openSpool rt now) (fun r _ => r.isSome = true) d := by
  refine completes_bind (completes_mono (attempts_completes 6 d) ?_)
  rintro ready d₁ ⟨rfl, rfl⟩
  refine completes_bind (completes_get (completes_bind (completes_mono
    (sweep_completes d₁.temps d₁) ?_)))
  rintro swept d₂ rfl
  refine completes_bind (completes_mono
    (readAll_completes d₁.box.files (fun f hf => h f (.inl hf)) d₂) ?_)
  intro r d₃ hr
  obtain ⟨entries, rfl⟩ := isSome_iff_exists.mp hr
  refine completes_bind (completes_mono (prune_completes _ _ _) ?_)
  intro out d₄ hout
  refine completes_pure ?_
  rw [hout]
  rfl

end Talus.Agent
