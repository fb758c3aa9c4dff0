/-
  Talus.Agent.Ledger
  **WHAT EVERY METHOD OF THE OUTBOX KEEPS: NOTHING LEAVES UNCOUNTED.**

  Fix a list `base` of ids to watch and a list `acked` of ids that are allowed
  to leave.  The watched ids that are neither safe on disk nor acknowledged are
  `lost`, and the invariant says

      lost + n  ≤  the counter in memory          (`counted`)
      lost + n  ≤  every counter a power loss may leave   (`persisted`)

  for the same `n` before and after each method.  With `n = 0` and `base` the
  samples ever accepted this bounds all losses of a run; with `base` the queue
  before a call and `n` the counter before it, it says that THIS call has
  counted what it took out.  One specification per method serves both.

  A method that dies leaves `BoxOk`, the half of the invariant that is about
  the directory alone.
-/
import Talus.Agent.Spool
import Mathlib.Data.List.Perm.Subperm

namespace Talus.Agent

open Talus.Base Talus.Base.Prog List

/-! ## §1. Losses. -/

variable {i : Bytes} {acked' base' : List Bytes}

namespace Outbox

theorem mem_safe {b : Outbox} : i ∈ b.safe ↔ i ∈ b.names ∧ i ∉ b.created := by
  unfold safe
  rw [mem_filter, decide_eq_true_eq]

theorem mem_names_remove {b : Outbox} {j : Bytes} :
    i ∈ (b.remove j).names ↔ i ∈ b.names ∧ i ≠ j := by
  unfold names remove
  simp only [mem_map, mem_filter, decide_eq_true_eq]
  constructor
  · rintro ⟨f, ⟨hf, hj⟩, rfl⟩
    exact ⟨⟨f, hf, rfl⟩, hj⟩
  · rintro ⟨⟨f, hf, rfl⟩, hj⟩
    exact ⟨f, ⟨hf, hj⟩, rfl⟩

theorem names_replace (f : File) (b : Outbox) :
    (b.replace f).names = f.name :: (b.remove f.name).names := rfl

/-- The watched ids that are neither safe nor acknowledged. -/
def lost (base acked : List Bytes) (b : Outbox) : List Bytes :=
  base.filter fun i => i ∉ b.safe ∧ i ∉ acked

theorem mem_lost {base acked : List Bytes} {b : Outbox} :
    i ∈ b.lost base acked ↔ i ∈ base ∧ i ∉ b.safe ∧ i ∉ acked := by
  unfold lost
  rw [mem_filter, decide_eq_true_eq]

/-- If only `extra` stops being safe, only so many more ids are lost. -/
theorem lost_length_le {base acked : List Bytes} {b b' : Outbox} (extra : List Bytes)
    (hnd : base.Nodup) (hacked : acked ⊆ acked')
    (h : ∀ i ∈ base, i ∉ acked' → i ∈ b.safe → i ∉ extra → i ∈ b'.safe) :
    (b'.lost base acked').length ≤ (b.lost base acked).length + extra.length := by
  have hsub : b'.lost base acked' ⊆ b.lost base acked ++ extra := by
    intro i hi
    obtain ⟨hbase, hsafe, hack⟩ := mem_lost.mp hi
    rw [mem_append]
    by_cases hextra : i ∈ extra
    · exact Or.inr hextra
    · exact Or.inl (mem_lost.mpr ⟨hbase, fun hs => hsafe (h i hbase hack hs hextra),
        fun ha => hack (hacked ha)⟩)
  have hle := ((hnd.filter _).subperm hsub).length_le
  rwa [length_append] at hle

/-- A sync makes more samples safe. -/
theorem lost_sync_le {base acked : List Bytes} (b : Outbox) (hnd : base.Nodup) :
    (b.sync.lost base acked).length ≤ (b.lost base acked).length := by
  refine lost_length_le [] hnd (List.Subset.refl _) ?_
  intro i _ _ hi _
  exact mem_safe.mpr ⟨(mem_safe.mp hi).1, not_mem_nil⟩

/-- Removing a file costs one loss, or none if its id is acknowledged. -/
theorem lost_remove_le {base acked : List Bytes} (b : Outbox) (i : Bytes) (hnd : base.Nodup) :
    ((b.remove i).lost base acked).length ≤
      (b.lost base acked).length + if i ∈ acked then 0 else 1 := by
  have hsafe : ∀ j, j ≠ i → j ∈ b.safe → j ∈ (b.remove i).safe := by
    intro j hj hs
    obtain ⟨hname, hcreated⟩ := mem_safe.mp hs
    exact mem_safe.mpr ⟨mem_names_remove.mpr ⟨hname, hj⟩, hcreated⟩
  by_cases hi : i ∈ acked
  · rw [if_pos hi]
    refine lost_length_le [] hnd (List.Subset.refl _) ?_
    intro j _ hack hs _
    exact hsafe j (fun hj => hack (hj ▸ hi)) hs
  · rw [if_neg hi]
    refine lost_length_le [i] hnd (List.Subset.refl _) ?_
    intro j _ _ hs hj
    exact hsafe j (fun h => hj (h ▸ mem_cons_self)) hs

/-- A rename costs nothing if the name was not one of the safe watched ones. -/
theorem lost_replace_le {base acked : List Bytes} (b : Outbox) (f : File) (hnd : base.Nodup)
    (hf : f.name ∈ base → f.name ∉ b.safe) :
    ((b.replace f).lost base acked).length ≤ (b.lost base acked).length := by
  refine lost_length_le [] hnd (List.Subset.refl _) ?_
  intro i hbase _ hs _
  have hne : i ≠ f.name := by
    intro h
    exact hf (h ▸ hbase) (h ▸ hs)
  obtain ⟨hname, hcreated⟩ := mem_safe.mp hs
  refine mem_safe.mpr ⟨?_, ?_⟩
  · rw [names_replace]
    exact mem_cons_of_mem _ (mem_names_remove.mpr ⟨hname, hne⟩)
  · intro hc
    rcases mem_cons.mp hc with hc | hc
    · exact hne hc
    · exact hcreated hc

/-- Watching more ids, or with fewer of them acknowledged, loses no less. -/
theorem lost_le_of_subset {base acked : List Bytes} (b : Outbox) (hnd : base.Nodup)
    (hbase : base ⊆ base') (hacked : acked' ⊆ acked) :
    (b.lost base acked).length ≤ (b.lost base' acked').length := by
  have hsub : b.lost base acked ⊆ b.lost base' acked' := by
    intro i hi
    obtain ⟨hb, hs, ha⟩ := mem_lost.mp hi
    exact mem_lost.mpr ⟨hbase hb, hs, fun h => ha (hacked h)⟩
  exact ((hnd.filter _).subperm hsub).length_le

theorem names_remove_sublist (b : Outbox) (i : Bytes) : (b.remove i).names.Sublist b.names :=
  filter_sublist.map _

end Outbox

/-! ## §2. The invariant. -/

/-- The part of the invariant that is about the directory.  `P` is what is
known of every sample in it. -/
structure BoxOk (P : Sample → Prop) (base acked : List Bytes) (n : Nat) (b : Outbox) : Prop where
  distinct : base.Nodup
  unique : b.names.Nodup
  filed : ∀ f ∈ b.files, P f.sample
  shadow : ∀ f ∈ b.removed, P f.sample
  persisted : ∀ v ∈ b.counters, (b.lost base acked).length + n ≤ v

/-- The invariant of a running spool.  Under `D` the queue is known to be on
stable storage; while a directory is being opened it is not yet. -/
structure Ledger (P : Sample → Prop) (base acked : List Bytes) (n : Nat) (D : Prop)
    (q : Spool) (b : Outbox) : Prop extends BoxOk P base acked n b where
  carried : ∀ e ∈ q.entries, P e.sample
  nodup : q.ids.Nodup
  present : ∀ i ∈ q.ids, i ∈ b.names
  durable : D → ∀ i ∈ q.ids, i ∉ b.created
  tracked : ∀ i ∈ base, i ∈ b.names → i ∈ q.ids
  counted : (b.lost base acked).length + n ≤ q.dropped

variable {P : Sample → Prop} {base acked : List Bytes} {n : Nat} {D : Prop}
  {q : Spool} {b : Outbox}

/-! ## §3. The directory's changes. -/

variable {count : Nat} {f : File}

namespace BoxOk

theorem weaken {m : Nat} (h : BoxOk P base acked n b) (hm : m ≤ n) : BoxOk P base acked m b :=
  { h with persisted := fun v hv => by have := h.persisted v hv; omega }

theorem sync (h : BoxOk P base acked n b) : BoxOk P base acked n b.sync where
  __ := h
  shadow := fun _ hf => absurd hf List.not_mem_nil
  persisted := by
    intro v hv
    have hv' : v ∈ b.counters := by
      have : v = b.dropped := by simpa [Outbox.counters, Outbox.sync] using hv
      rw [this]
      exact mem_cons_self
    have hle := h.persisted v hv'
    have hlost : (b.sync.lost base acked).length ≤ _ := b.lost_sync_le h.distinct
    omega

theorem setDropped (h : BoxOk P base acked n b) (hc : (b.lost base acked).length + n ≤ count) :
    BoxOk P base acked n (b.setDropped count) where
  __ := h
  persisted := by
    intro v hv
    rcases mem_cons.mp hv with hv | hv
    · rw [hv]
      exact hc
    · exact h.persisted v hv

theorem remove (h : BoxOk P base acked (n + if i ∈ acked then 0 else 1) b) :
    BoxOk P base acked n (b.remove i) where
  distinct := h.distinct
  unique := h.unique.sublist (b.names_remove_sublist i)
  filed := fun f hf => h.filed f (List.mem_filter.mp hf).1
  shadow := by
    intro f hf
    rcases mem_append.mp hf with hf | hf
    · exact h.filed f (mem_filter.mp hf).1
    · exact h.shadow f hf
  persisted := by
    intro v hv
    have hle := h.persisted v hv
    have hlost : ((b.remove i).lost base acked).length ≤ _ := b.lost_remove_le i h.distinct
    omega

theorem replace (h : BoxOk P base acked n b) (hP : P f.sample)
    (hf : f.name ∈ base → f.name ∉ b.safe) : BoxOk P base acked n (b.replace f) where
  distinct := h.distinct
  unique := by
    rw [Outbox.names_replace, nodup_cons]
    refine ⟨fun hmem => ?_, h.unique.sublist (b.names_remove_sublist f.name)⟩
    exact (Outbox.mem_names_remove.mp hmem).2 rfl
  filed := by
    intro g hg
    rcases mem_cons.mp hg with hg | hg
    · rw [hg]
      exact hP
    · exact h.filed g (mem_filter.mp hg).1
  shadow := by
    intro g hg
    rcases mem_append.mp hg with hg | hg
    · exact h.filed g (mem_filter.mp hg).1
    · exact h.shadow g hg
  persisted := by
    intro v hv
    have hle := h.persisted v hv
    have hlost : ((b.replace f).lost base acked).length ≤ _ := b.lost_replace_le f h.distinct hf
    omega

theorem mono {P' : Sample → Prop}
    (h : BoxOk P base acked n b) (hP : ∀ s, P s → P' s) (hbase : base'.Sublist base)
    (hacked : acked ⊆ acked') : BoxOk P' base' acked' n b where
  distinct := h.distinct.sublist hbase
  unique := h.unique
  filed := fun f hf => hP _ (h.filed f hf)
  shadow := fun f hf => hP _ (h.shadow f hf)
  persisted := by
    intro v hv
    have hlost := b.lost_le_of_subset (h.distinct.sublist hbase) hbase.subset hacked
    have := h.persisted v hv
    omega

end BoxOk

/-! ## §4. The running spool's changes. -/

namespace Ledger

theorem weaken {m : Nat} (h : Ledger P base acked n D q b) (hm : m ≤ n) :
    Ledger P base acked m D q b :=
  { h with
    toBoxOk := h.toBoxOk.weaken hm
    counted := by have := h.counted; omega }

/-- After a sync the whole queue is on stable storage. -/
theorem sync (h : Ledger P base acked n D q b) : Ledger P base acked n True q b.sync where
  toBoxOk := h.toBoxOk.sync
  __ := h
  durable := fun _ _ _ => List.not_mem_nil
  counted := by
    have hlost : (b.sync.lost base acked).length ≤ _ := b.lost_sync_le h.distinct
    have := h.counted
    omega

/-- The counter goes up on disk, the queue is as it was. -/
theorem setDropped (h : Ledger P base acked n D q b) (hc : q.dropped ≤ count) :
    Ledger P base acked n D q (b.setDropped count) :=
  { h with
    toBoxOk := h.toBoxOk.setDropped (by have := h.counted; omega)
    counted := h.counted }

/-- The counter goes up on disk and in memory, which pays for `k` losses. -/
theorem pay {k : Nat} (h : Ledger P base acked n D q b) (hc : q.dropped + k ≤ count) :
    Ledger P base acked (n + k) True { q with dropped := count } (b.setDropped count).sync := by
  have hpaid : ((b.setDropped count).sync.lost base acked).length + (n + k) ≤ count := by
    have hlost : _ ≤ (b.lost base acked).length :=
      (b.setDropped count).lost_sync_le h.distinct
    have := h.counted
    omega
  have hbox := (h.toBoxOk.setDropped (show _ ≤ count by have := h.counted; omega)).sync
  refine { h with toBoxOk := { hbox with persisted := ?_ }, durable := ?_, counted := hpaid }
  · intro v hv
    -- the sync leaves the new value as the only one a power loss can show
    have hv' : v = count := by
      simpa [Outbox.counters, Outbox.sync, Outbox.setDropped] using hv
    exact hv' ▸ hpaid
  · exact fun _ _ _ => not_mem_nil

/-- An entry leaves the queue together with its file. -/
theorem remove {l₁ l₂ : List QueueEntry} {e : QueueEntry} {bytes bytes' : Int} {dropped : Nat}
    (h : Ledger P base acked (n + if e.sample.id ∈ acked then 0 else 1) D
      ⟨l₁ ++ e :: l₂, bytes, dropped⟩ b) :
    Ledger P base acked n D ⟨l₁ ++ l₂, bytes', dropped⟩ (b.remove e.sample.id) := by
  have hids : ∀ i, i ∈ Spool.ids ⟨l₁ ++ e :: l₂, bytes, dropped⟩ ↔
      i = e.sample.id ∨ i ∈ Spool.ids ⟨l₁ ++ l₂, bytes', dropped⟩ := by
    intro i
    simp only [Spool.ids, map_append, map_cons, mem_append, mem_cons]
    exact or_left_comm
  have hnd : e.sample.id ∉ Spool.ids ⟨l₁ ++ l₂, bytes', dropped⟩ ∧
      (Spool.ids ⟨l₁ ++ l₂, bytes', dropped⟩).Nodup := by
    have hnd := h.nodup
    unfold Spool.ids at hnd ⊢
    rw [map_append, map_cons, nodup_middle, nodup_cons] at hnd
    rw [map_append]
    exact hnd
  exact {
    toBoxOk := h.toBoxOk.remove
    carried := fun x hx => h.carried x (by
      rcases mem_append.mp hx with hx | hx
      · exact mem_append_left _ hx
      · exact mem_append_right _ (mem_cons_of_mem e hx))
    nodup := hnd.2
    present := fun i hi => Outbox.mem_names_remove.mpr
      ⟨h.present i ((hids i).mpr (Or.inr hi)), fun hie => hnd.1 (hie ▸ hi)⟩
    durable := fun hD i hi => h.durable hD i ((hids i).mpr (Or.inr hi))
    tracked := by
      intro i hbase hname
      obtain ⟨hname, hne⟩ := Outbox.mem_names_remove.mp hname
      rcases (hids i).mp (h.tracked i hbase hname) with hi | hi
      · exact absurd hi hne
      · exact hi
    counted := by
      have hlost : ((b.remove e.sample.id).lost base acked).length ≤ _ :=
        b.lost_remove_le e.sample.id h.distinct
      have := h.counted
      show _ ≤ dropped
      simp only at this
      omega }

/-- A sample file is renamed into place and the queue does not know of it: an
error after the rename. -/
theorem renamed (h : Ledger P base acked n D q b) (hP : P f.sample)
    (hbase : f.name ∉ base) (hq : f.name ∉ q.ids) :
    Ledger P base acked n D q (b.replace f) where
  toBoxOk := h.toBoxOk.replace hP fun hf => absurd hf hbase
  __ := h
  present := by
    intro i hi
    rw [Outbox.names_replace]
    have hne : i ≠ f.name := fun hif => hq (hif ▸ hi)
    exact mem_cons_of_mem _ (Outbox.mem_names_remove.mpr ⟨h.present i hi, hne⟩)
  durable := by
    intro hD i hi hc
    rcases mem_cons.mp hc with hc | hc
    · exact hq (hc ▸ hi)
    · exact h.durable hD i hi hc
  tracked := by
    intro i hi hname
    rw [Outbox.names_replace] at hname
    rcases mem_cons.mp hname with hname | hname
    · exact absurd (hname ▸ hi) hbase
    · exact h.tracked i hi (Outbox.mem_names_remove.mp hname).1
  counted := by
    have hlost : ((b.replace f).lost base acked).length ≤ _ :=
      b.lost_replace_le f h.distinct fun hf => absurd hf hbase
    have := h.counted
    omega

/-- The renamed file is synced and queued: from here on its id is watched. -/
theorem queued {s : Sample} {size : Nat} {l : List QueueEntry} {bytes : Int}
    (h : Ledger P base acked n D q b) (hf : P f.sample) (hs : P s) (hname : f.name = s.id)
    (hbase : s.id ∉ base) (hq : s.id ∉ q.ids) (hl : l.Perm (q.entries ++ [⟨s, size⟩])) :
    Ledger P (s.id :: base) acked n True ⟨l, bytes, q.dropped⟩ (b.replace f).sync := by
  have hren := (h.renamed hf (hname ▸ hbase) (hname ▸ hq)).sync
  have hids : (Spool.ids ⟨l, bytes, q.dropped⟩).Perm (q.ids ++ [s.id]) := by
    have := hl.map fun e => e.sample.id
    rwa [map_append] at this
  have hmem : ∀ i, i ∈ Spool.ids ⟨l, bytes, q.dropped⟩ ↔ i ∈ q.ids ∨ i = s.id := by
    intro i
    rw [hids.mem_iff, mem_append, mem_singleton]
  have hnew : s.id ∈ (b.replace f).sync.names := by
    rw [← hname]
    exact mem_cons_self
  -- the new id is safe, so watching it adds no loss
  have hlost : (b.replace f).sync.lost (s.id :: base) acked = (b.replace f).sync.lost base acked := by
    unfold Outbox.lost
    refine filter_cons_of_neg ?_
    have hsafe : s.id ∈ (b.replace f).sync.safe := Outbox.mem_safe.mpr ⟨hnew, not_mem_nil⟩
    simp [hsafe]
  exact {
    distinct := nodup_cons.mpr ⟨hbase, h.distinct⟩
    unique := hren.unique
    filed := hren.filed
    shadow := hren.shadow
    persisted := by rw [hlost]; exact hren.persisted
    carried := by
      intro e he
      rcases mem_append.mp (hl.mem_iff.mp he) with he | he
      · exact h.carried e he
      · rw [mem_singleton.mp he]
        exact hs
    nodup := by
      rw [hids.nodup_iff, nodup_append]
      refine ⟨h.nodup, nodup_singleton _, ?_⟩
      intro i hi j hj hij
      rw [mem_singleton] at hj
      exact hq (hj ▸ hij ▸ hi)
    present := by
      intro i hi
      rcases (hmem i).mp hi with hi | hi
      · exact hren.present i hi
      · rw [hi]
        exact hnew
    durable := fun _ _ _ => not_mem_nil
    tracked := by
      intro i hi hin
      rcases mem_cons.mp hi with hi | hi
      · exact (hmem i).mpr (Or.inr hi)
      · exact (hmem i).mpr (Or.inl (hren.tracked i hi hin))
    counted := by rw [hlost]; exact hren.counted }

/-- Watching fewer ids, with more of them acknowledged, and knowing less of
the samples. -/
theorem mono {P' : Sample → Prop}
    (h : Ledger P base acked n D q b) (hP : ∀ s, P s → P' s) (hbase : base'.Sublist base)
    (hacked : acked ⊆ acked') : Ledger P' base' acked' n D q b :=
  { h with
    toBoxOk := h.toBoxOk.mono hP hbase hacked
    carried := fun e he => hP _ (h.carried e he)
    tracked := fun i hi => h.tracked i (hbase.subset hi)
    counted := by
      have hlost := b.lost_le_of_subset (h.distinct.sublist hbase) hbase.subset hacked
      have := h.counted
      omega }

end Ledger

end Talus.Agent
