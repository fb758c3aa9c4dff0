/-
  Talus.Agent.SpoolSpec
  **ONE SPECIFICATION PER METHOD OF THE OUTBOX.**

  Each method, started in the ledger invariant, returns in it and dies in
  `BoxOk`, whatever its system calls do:

    • `prune_spec`, `batch_spec`: an eviction is counted before the file goes,
    • `add_spec`: on success the new id is watched from then on,
    • `ack_spec`: acknowledged ids leave for free,
    • `reject_spec`: the rejected entries are counted before they go,
    • `openSpool_spec`: a directory a process died in is a ledger again.
-/
import Talus.Agent.Ledger

namespace Talus.Agent

open Talus.Base Talus.Base.Prog List Option

variable {P : Sample → Prop} {base acked : List Bytes} {n : Nat} {D : Prop}
  {q : Spool} {d : Disk}

/-! ## §1. Files. -/

theorem attempts_spec (k : Nat) (d : Disk) :
    wp (attempts k) (fun _ d' => d' = d) (fun d' => d' = d) d := by
  induction k with
  | zero => exact wp_pure rfl
  | succ k ih =>
    refine wp_bind (wp_attempt ?_ ?_ rfl)
    · exact ih
    · exact wp_pure rfl

theorem dropTemp_spec (d : Disk) :
    wp dropTemp (fun _ d' => d'.box = d.box) (fun d' => d'.box = d.box) d :=
  wp_attempt rfl rfl rfl

/-- `writeAtomic` reports success only after rename and sync; a failure or a
death leaves the target as it was or renamed without a sync. -/
theorem writeAtomic_spec {change : Outbox → Outbox} {Q : Bool → Outbox → Prop}
    {C : Outbox → Prop} (hkeep : Q false d.box) (hrenamed : Q false (change d.box))
    (hdone : Q true (change d.box).sync) (hC : C d.box) (hCrenamed : C (change d.box)) :
    wp (writeAtomic change) (fun ok d' => Q ok d'.box) (fun d' => C d'.box) d := by
  -- the cleanup after an error touches the temporary file only
  have hcleanup : ∀ t, wp (do let _ ← dropTemp; pure false) (fun ok d' => Q ok d'.box)
      (fun d' => C d'.box) ⟨d.box, t⟩ := by
    intro t
    refine wp_bind (wp_mono (dropTemp_spec _) ?_ ?_)
    · intro _ d' hd'
      refine wp_pure ?_
      rw [hd']
      exact hkeep
    · intro d' hd'
      rw [hd']
      exact hC
  refine wp_bind (wp_attempt ?_ (wp_pure hkeep) hC)
  refine wp_bind (wp_mono (attempts_spec 3 _) ?_ ?_)
  · intro written d₁ hd₁
    subst hd₁
    refine wp_bind (wp_attempt ?_ ?_ hC)
    · -- closed without an error
      cases written with
      | false => exact hcleanup _
      | true =>
        refine wp_bind (wp_attempt ?_ (hcleanup _) hC)
        exact wp_attempt hdone hrenamed hCrenamed
    · rw [Bool.and_false]
      exact hcleanup _
  · intro d' hd'
    subst hd'
    exact hC

/-! ## §2. Pruning. -/

theorem pruneLoop_spec (cutoff : Int) (entries : List QueueEntry) :
    ∀ (bytes : Int) (dropped : Nat) (d : Disk),
      Ledger P base acked n D ⟨entries, bytes, dropped⟩ d.box →
      wp (Spool.pruneLoop cutoff entries bytes dropped)
        (fun r d' => Ledger P base acked n D r.1 d'.box)
        (fun d' => BoxOk P base acked n d'.box) d := by
  induction entries with
  | nil =>
    intro bytes dropped d h
    exact wp_pure h
  | cons e rest ih =>
    intro bytes dropped d h
    unfold Spool.pruneLoop
    split
    · -- the counter first: from here one loss is paid for
      refine wp_bind (wp_mono (writeAtomic_spec
        (Q := fun ok b => if ok then
          Ledger P base acked (n + 1) D ⟨e :: rest, bytes, dropped + 1⟩ b
          else Ledger P base acked n D ⟨e :: rest, bytes, dropped⟩ b)
        (C := BoxOk P base acked n)
        h (h.setDropped (Nat.le_succ _)) ?_ h.toBoxOk
        (h.setDropped (Nat.le_succ _)).toBoxOk) ?_ ?_)
      · have hpaid := h.pay (show dropped + 1 ≤ dropped + 1 from Nat.le_refl _)
        exact { hpaid with durable := fun _ => hpaid.durable trivial }
      · intro written d₁ h₁
        cases written with
        | false => exact wp_pure h₁
        | true =>
          have h₁ : Ledger P base acked (n + 1) D ⟨e :: rest, bytes, dropped + 1⟩ d₁.box := h₁
          refine wp_bind (wp_attempt ?_ (wp_pure ?_) (h₁.toBoxOk.weaken (Nat.le_succ _)))
          · refine ih _ _ _ ?_
            have hcost : (n + if e.sample.id ∈ acked then 0 else 1) ≤ n + 1 := by
              split <;> omega
            have hhead : Ledger P base acked (n + if e.sample.id ∈ acked then 0 else 1) D
                ⟨[] ++ e :: rest, bytes, dropped + 1⟩ d₁.box := h₁.weaken hcost
            exact hhead.remove
          · exact h₁.weaken (Nat.le_succ _)
      · intro _ h'
        exact h'
    · exact wp_pure h

/-- **Pruning counts what it evicts**; after a pruning without an error the
whole queue is on stable storage. -/
theorem prune_spec (now : Int) (h : Ledger P base acked n D q d.box) :
    wp (Spool.prune now q)
      (fun r d' => Ledger P base acked n D r.1 d'.box ∧
        (r.2 = true → Ledger P base acked n True r.1 d'.box))
      (fun d' => BoxOk P base acked n d'.box) d := by
  refine wp_bind (wp_mono (pruneLoop_spec _ q.entries _ _ d h) ?_ fun _ h' => h')
  intro r d₁ h₁
  split
  · refine wp_bind (wp_attempt (wp_pure ?_) (wp_pure ⟨h₁, fun hf => absurd hf Bool.false_ne_true⟩)
      h₁.toBoxOk)
    have hsync := h₁.sync
    exact ⟨{ hsync with durable := fun _ => hsync.durable trivial }, fun _ => hsync⟩
  · next hr => exact wp_pure ⟨h₁, fun hf => absurd hf hr⟩

theorem batch_spec (now : Int) (h : Ledger P base acked n D q d.box) :
    wp (Spool.batch now q)
      (fun r d' => Ledger P base acked n D r.1 d'.box ∧
        ∀ samples, r.2 = some samples → samples = Spool.batchOf r.1.entries)
      (fun d' => BoxOk P base acked n d'.box) d := by
  refine wp_bind (wp_mono (prune_spec now h) ?_ fun _ h' => h')
  intro r d₁ h₁
  refine wp_pure ⟨h₁.1, ?_⟩
  intro samples hs
  split at hs
  · exact (some.inj hs).symm
  · cases hs

/-! ## §3. Adding. -/

/-- **Adding.**  The new id must not be one of the watched ones.  Whatever
happens the old ledger is kept; on success the new id is watched as well. -/
theorem add_spec (rt : Runtime) (now later : Int) (s : Sample)
    (h : Ledger P base acked n True q d.box) (hfresh : s.id ∈ base → s.id ∈ q.ids)
    (hP : ∀ doc, s.validate now = .ok () → s.marshal rt.codec = some doc → P s ∧ P s.scrub) :
    wp (Spool.add rt now later s q)
      (fun r d' => Ledger P base acked n True r.1 d'.box ∧
        (r.2 = none → Ledger P (s.id :: base) acked n True r.1 d'.box))
      (fun d' => BoxOk P base acked n d'.box) d := by
  have hrefused : ∀ e : SpoolError, wp (pure (q, some e))
      (fun r d' => Ledger P base acked n True r.1 d'.box ∧
        (r.2 = none → Ledger P (s.id :: base) acked n True r.1 d'.box))
      (fun d' => BoxOk P base acked n d'.box) d := by
    intro e
    exact wp_pure ⟨h, nofun⟩
  unfold Spool.add
  split
  · exact hrefused _
  next hvalid =>
  split
  · exact hrefused _
  next doc hdoc =>
  split
  · exact hrefused _
  split
  · exact hrefused _
  next hdup =>
  have hbase : s.id ∉ base := fun hb => hdup (hfresh hb)
  obtain ⟨hs, hscrub⟩ := hP doc hvalid hdoc
  have hrenamed : Ledger P base acked n True q (d.box.replace ⟨s.id, s.scrub, doc.length⟩) :=
    h.renamed hscrub hbase hdup
  have hqueued : Ledger P (s.id :: base) acked n True
      ⟨rt.sort (q.entries ++ [⟨s, doc.length⟩]), q.bytes + doc.length, q.dropped⟩
      (d.box.replace ⟨s.id, s.scrub, doc.length⟩).sync :=
    h.queued hscrub hs rfl hbase hdup (rt.sort_perm _)
  refine wp_bind (wp_mono (writeAtomic_spec
    (Q := fun ok b => if ok then Ledger P (s.id :: base) acked n True
        ⟨rt.sort (q.entries ++ [(⟨s, doc.length⟩ : QueueEntry)]), q.bytes + doc.length, q.dropped⟩ b
      else Ledger P base acked n True q b)
    (C := BoxOk P base acked n)
    h hrenamed hqueued h.toBoxOk hrenamed.toBoxOk) ?_ fun _ h' => h')
  intro written d₁ h₁
  cases written with
  | false => exact wp_pure ⟨h₁, nofun⟩
  | true =>
    have h₁ : Ledger P (s.id :: base) acked n True
      ⟨rt.sort (q.entries ++ [⟨s, doc.length⟩]), q.bytes + doc.length, q.dropped⟩ d₁.box := h₁
    have hsub : base.Sublist (s.id :: base) := sublist_cons_self _ _
    refine wp_bind (wp_mono (prune_spec later h₁) ?_ ?_)
    · intro r d₂ h₂
      exact wp_pure ⟨h₂.1.mono (fun _ h => h) hsub (List.Subset.refl _), fun _ => h₂.1⟩
    · intro d₂ h₂
      exact h₂.mono (fun _ h => h) hsub (List.Subset.refl _)

/-! ## §4. Acknowledging and rejecting. -/

/-- The losses the loop of `ackLocked` can still cause: the entries it removes
that are not acknowledged. -/
def budget (ids acked : List Bytes) (entries : List QueueEntry) : Nat :=
  entries.countP fun e => e.sample.id ∈ ids ∧ e.sample.id ∉ acked

theorem ackLoop_spec (ids : List Bytes) (dropped : Nat) (entries : List QueueEntry) :
    ∀ (kept : List QueueEntry) (bytes : Int) (ok : Bool) (d : Disk),
      Ledger P base acked (n + budget ids acked entries) D ⟨kept ++ entries, bytes, dropped⟩ d.box →
      wp (Spool.ackLoop ids dropped entries kept bytes ok)
        (fun r d' => Ledger P base acked n D r.1 d'.box)
        (fun d' => BoxOk P base acked n d'.box) d := by
  induction entries with
  | nil =>
    intro kept bytes ok d h
    rw [append_nil] at h
    exact wp_pure h
  | cons e rest ih =>
    intro kept bytes ok d h
    -- an entry that stays moves from the remaining to the kept ones
    have hskip : ∀ ok', wp (Spool.ackLoop ids dropped rest (kept ++ [e]) bytes ok')
        (fun r d' => Ledger P base acked n D r.1 d'.box)
        (fun d' => BoxOk P base acked n d'.box) d := by
      intro ok'
      refine ih (kept ++ [e]) bytes ok' d ?_
      rw [append_assoc]
      refine h.weaken ?_
      unfold budget
      rw [countP_cons]
      omega
    unfold Spool.ackLoop
    split
    · next hmem =>
      refine wp_bind (wp_attempt ?_ (hskip false) (h.toBoxOk.weaken (Nat.le_add_right _ _)))
      refine ih kept _ ok _ ?_
      refine Ledger.remove (h.weaken ?_)
      unfold budget
      rw [countP_cons]
      by_cases hack : e.sample.id ∈ acked
      · rw [if_pos hack]
        omega
      · have hcount : decide (e.sample.id ∈ ids ∧ e.sample.id ∉ acked) = true :=
          decide_eq_true ⟨hmem, hack⟩
        rw [if_neg hack, if_pos hcount]
        omega
    · exact hskip ok

/-- **Acknowledging** takes out `ids`; the ones not in `acked` must have been
paid for. -/
theorem ack_spec (ids : List Bytes)
    (h : Ledger P base acked (n + budget ids acked q.entries) D q d.box) :
    wp (Spool.ack ids q)
      (fun r d' => Ledger P base acked n D r.1 d'.box)
      (fun d' => BoxOk P base acked n d'.box) d := by
  refine wp_bind (wp_mono (ackLoop_spec ids q.dropped q.entries [] q.bytes true d h) ?_
    fun _ h' => h')
  intro r d₁ h₁
  refine wp_bind (wp_attempt (wp_pure ?_) (wp_pure h₁) h₁.toBoxOk)
  have hsync := h₁.sync
  exact { hsync with durable := fun _ => hsync.durable trivial }

/-- **Rejecting** pays for the entries it takes out before it does. -/
theorem reject_spec (ids : List Bytes) (h : Ledger P base acked n D q d.box) :
    wp (Spool.reject ids q)
      (fun r d' => Ledger P base acked n D r.1 d'.box)
      (fun d' => BoxOk P base acked n d'.box) d := by
  have hbudget : budget ids acked q.entries ≤ q.entries.countP fun e => e.sample.id ∈ ids := by
    refine countP_mono_left ?_
    intro e _ he
    simp only [decide_eq_true_eq] at he ⊢
    exact he.1
  unfold Spool.reject
  dsimp only
  split
  · generalize hcount : q.entries.countP (fun e => decide (e.sample.id ∈ ids)) = count at hbudget ⊢
    have hcounter : q.dropped ≤ q.dropped + count := Nat.le_add_right _ _
    refine wp_bind (wp_mono (writeAtomic_spec
      (Q := fun ok b => if ok then
        Ledger P base acked (n + count) D { q with dropped := q.dropped + count } b
        else Ledger P base acked n D q b)
      (C := BoxOk P base acked n)
      h (h.setDropped hcounter) ?_ h.toBoxOk (h.setDropped hcounter).toBoxOk) ?_ fun _ h' => h')
    · have hpaid := h.pay (Nat.le_refl (q.dropped + count))
      exact { hpaid with durable := fun _ => hpaid.durable trivial }
    · intro written d₁ h₁
      cases written with
      | false => exact wp_pure h₁
      | true =>
        have h₁ : Ledger P base acked (n + count) D
          { q with dropped := q.dropped + count } d₁.box := h₁
        exact ack_spec ids (h₁.weaken (by simp only; omega))
  · next hzero => exact ack_spec ids (h.weaken (by omega))

/-! ## §5. Opening. -/

theorem sweep_spec (k : Nat) : ∀ d : Disk,
    wp (Spool.sweep k) (fun _ d' => d'.box = d.box) (fun d' => d'.box = d.box) d := by
  induction k with
  | zero =>
    intro d
    exact wp_pure rfl
  | succ k ih =>
    intro d
    refine wp_bind (wp_mono (dropTemp_spec d) ?_ fun _ h => h)
    intro ok d₁ h₁
    cases ok with
    | false => exact wp_pure h₁
    | true => exact wp_mono (ih d₁) (fun _ _ h => h.trans h₁) fun _ h => h.trans h₁

/-- The queue read from the directory is its files, and each holds the sample
its name says. -/
theorem readAll_spec (files : List File) (d : Disk) :
    wp (Spool.readAll files)
      (fun r d' => d' = d ∧ ∀ entries, r = some entries →
        entries = files.map (fun f => ⟨f.sample, f.size⟩) ∧ ∀ f ∈ files, f.sample.id = f.name)
      (fun d' => d' = d) d := by
  induction files with
  | nil =>
    refine wp_pure ⟨rfl, ?_⟩
    intro entries he
    exact ⟨(some.inj he).symm, fun f hf => absurd hf not_mem_nil⟩
  | cons f rest ih =>
    refine wp_bind (wp_mono (attempts_spec 2 d) ?_ fun _ h => h)
    intro ok d₁ h₁
    subst h₁
    split
    · next hgood =>
      refine wp_bind (wp_mono ih ?_ fun _ h => h)
      intro r d₂ h₂
      obtain ⟨rfl, hrest⟩ := h₂
      refine wp_pure ⟨rfl, ?_⟩
      intro entries he
      obtain ⟨tail, htail, rfl⟩ := map_eq_some_iff.mp he
      obtain ⟨heq, hnames⟩ := hrest tail htail
      refine ⟨by rw [heq]; rfl, ?_⟩
      intro g hg
      rcases mem_cons.mp hg with hg | hg
      · rw [hg]
        exact hgood.2.2.2
      · exact hnames g hg
    · exact wp_pure ⟨rfl, nofun⟩

variable {b : Outbox}

/-- The files of a directory are a queue, though not yet a synced one. -/
theorem BoxOk.opened (rt : Runtime) (h : BoxOk P base acked n b) (bytes : Int)
    (hnames : ∀ f ∈ b.files, f.sample.id = f.name) :
    Ledger P base acked n False
      ⟨rt.sort (b.files.map fun f => ⟨f.sample, f.size⟩), bytes, b.dropped⟩ b := by
  have hids : (Spool.ids ⟨rt.sort (b.files.map fun f => ⟨f.sample, f.size⟩), bytes,
      b.dropped⟩).Perm b.names := by
    have hperm := (rt.sort_perm (b.files.map fun f => ⟨f.sample, f.size⟩)).map fun e => e.sample.id
    rw [List.map_map] at hperm
    have heq : b.files.map ((fun e : QueueEntry => e.sample.id) ∘
        fun f : File => (⟨f.sample, f.size⟩ : QueueEntry)) = b.names :=
      map_congr_left fun f hf => hnames f hf
    rwa [heq] at hperm
  exact { h with
    carried := by
      intro e he
      obtain ⟨f, hf, rfl⟩ := mem_map.mp ((rt.sort_perm _).mem_iff.mp he)
      exact h.filed f hf
    nodup := hids.nodup_iff.mpr h.unique
    present := fun i hi => hids.mem_iff.mp hi
    durable := fun hf => hf.elim
    tracked := fun i _ hi => hids.mem_iff.mpr hi
    counted := h.persisted b.dropped mem_cons_self }

/-- What holds of the pruning an opening ends with holds of the opening; all it
does before leaves the sample files and the counter alone. -/
theorem openSpool_rule (rt : Runtime) (now : Int) {Q : Option Spool → Disk → Prop}
    {C : Disk → Prop} (hstop : ∀ d', d'.box = d.box → Q none d' ∧ C d')
    (hprune : ∀ d', d'.box = d.box → (∀ f ∈ d.box.files, f.sample.id = f.name) →
      wp (Spool.prune now
          ⟨rt.sort (d.box.files.map fun f => ⟨f.sample, f.size⟩),
            (d.box.files.map fun f => (f.size : Int)).sum, d.box.dropped⟩)
        (fun r d'' => Q (if r.2 then some r.1 else none) d'') C d') :
    wp (Spool.openSpool rt now) Q C d := by
  refine wp_bind (wp_mono (attempts_spec 6 d) ?_ fun d' hd' => (hstop d' (hd' ▸ rfl)).2)
  intro ready d₁ hd₁
  subst hd₁
  cases ready with
  | false => exact wp_pure (hstop d₁ rfl).1
  | true =>
    refine wp_bind (wp_get (wp_bind (wp_mono (sweep_spec d₁.temps d₁) ?_
      fun d' hd' => (hstop d' hd').2)))
    intro swept d₂ hd₂
    cases swept with
    | false => exact wp_pure (hstop d₂ hd₂).1
    | true =>
      refine wp_bind (wp_mono (readAll_spec d₁.box.files d₂) ?_
        fun d' hd' => (hstop d' (hd' ▸ hd₂)).2)
      intro r d₃ h₃
      obtain ⟨rfl, hread⟩ := h₃
      cases r with
      | none => exact wp_pure (hstop d₃ hd₂).1
      | some entries =>
        obtain ⟨heq, hnames⟩ := hread entries rfl
        subst heq
        dsimp only
        rw [List.map_map]
        exact wp_bind (wp_mono (hprune d₃ hd₂ hnames) (fun r d' h => wp_pure h) fun _ h => h)

/-- **Opening** a directory gives a running spool that accounts for every
watched id, or fails and leaves the directory accountable. -/
theorem openSpool_spec (rt : Runtime) (now : Int) (h : BoxOk P base acked n d.box) :
    wp (Spool.openSpool rt now)
      (fun r d' => BoxOk P base acked n d'.box ∧
        ∀ q, r = some q → Ledger P base acked n True q d'.box)
      (fun d' => BoxOk P base acked n d'.box) d := by
  refine openSpool_rule rt now ?_ ?_
  · intro d' hd'
    have h' : BoxOk P base acked n d'.box := by
      rw [hd']
      exact h
    exact ⟨⟨h', nofun⟩, h'⟩
  · intro d' hd' hnames
    have hopen := h.opened rt (d.box.files.map fun f => (f.size : Int)).sum hnames
    rw [← hd'] at hopen ⊢
    refine wp_mono (prune_spec now hopen) ?_ fun _ h' => h'
    intro r d'' h''
    refine ⟨h''.1.toBoxOk, ?_⟩
    intro q hq
    split at hq
    · next hr =>
      cases hq
      exact h''.2 hr
    · cases hq

/-! ## §6. Power loss. -/

/-- What comes back after a power loss keeps the surviving files, adds only
files that were removed, and no name twice. -/
theorem restore_spec (restored : List Bytes) (removed : List File) : ∀ files : List File,
    (files.map File.name).Nodup →
    ((Outbox.restore restored removed files).map File.name).Nodup ∧
    files ⊆ Outbox.restore restored removed files ∧
    ∀ f ∈ Outbox.restore restored removed files, f ∈ files ∨ f ∈ removed := by
  induction removed with
  | nil =>
    intro files hnd
    exact ⟨hnd, List.Subset.refl _, fun f hf => Or.inl hf⟩
  | cons g rest ih =>
    intro files hnd
    unfold Outbox.restore
    split
    · next hg =>
      obtain ⟨hnd', hsub, hmem⟩ := ih (g :: files) (nodup_cons.mpr ⟨hg.2, hnd⟩)
      refine ⟨hnd', fun f hf => hsub (mem_cons_of_mem g hf), ?_⟩
      intro f hf
      rcases hmem f hf with hf | hf
      · rcases mem_cons.mp hf with hf | hf
        · exact Or.inr (hf ▸ mem_cons_self)
        · exact Or.inl hf
      · exact Or.inr (mem_cons_of_mem g hf)
    · obtain ⟨hnd', hsub, hmem⟩ := ih files hnd
      refine ⟨hnd', hsub, ?_⟩
      intro f hf
      rcases hmem f hf with hf | hf
      · exact Or.inl hf
      · exact Or.inr (mem_cons_of_mem g hf)

/-- The safe samples survive a power loss. -/
theorem safe_powerLoss {i : Bytes} (kept restored : List Bytes) (count : Nat) (hnd : b.names.Nodup)
    (hi : i ∈ b.safe) : i ∈ (b.powerLoss kept restored count).safe := by
  obtain ⟨hname, hcreated⟩ := Outbox.mem_safe.mp hi
  obtain ⟨f, hf, rfl⟩ := mem_map.mp hname
  have hnd' : ((b.files.filter fun f => f.name ∉ b.created ∨ f.name ∈ kept).map File.name).Nodup :=
    hnd.sublist (filter_sublist.map _)
  refine Outbox.mem_safe.mpr ⟨mem_map.mpr ⟨f, ?_, rfl⟩, not_mem_nil⟩
  refine (restore_spec restored b.removed _ hnd').2.1 (mem_filter.mpr ⟨hf, ?_⟩)
  simp [hcreated]

theorem BoxOk.powerLoss {count : Nat} (kept restored : List Bytes) (h : BoxOk P base acked n b)
    (hcount : count ∈ b.counters) : BoxOk P base acked n (b.powerLoss kept restored count) := by
  have hnd' : ((b.files.filter fun f => f.name ∉ b.created ∨ f.name ∈ kept).map File.name).Nodup :=
    h.unique.sublist (filter_sublist.map _)
  obtain ⟨hnd, -, hmem⟩ := restore_spec restored b.removed _ hnd'
  exact {
    distinct := h.distinct
    unique := hnd
    filed := by
      intro f hf
      rcases hmem f hf with hf | hf
      · exact h.filed f (mem_filter.mp hf).1
      · exact h.shadow f hf
    shadow := fun f hf => absurd hf not_mem_nil
    persisted := by
      intro v hv
      have hv' : v = count := by simpa [Outbox.counters, Outbox.powerLoss] using hv
      have hlost : ((b.powerLoss kept restored count).lost base acked).length ≤
          (b.lost base acked).length + 0 := by
        refine Outbox.lost_length_le [] h.distinct (List.Subset.refl _) ?_
        intro i _ _ hi _
        exact safe_powerLoss kept restored count h.unique hi
      have := h.persisted count hcount
      omega }

end Talus.Agent
