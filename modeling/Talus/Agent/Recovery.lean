/-
  Talus.Agent.Recovery
  **THE OUTBOX IN USE: ANY SEQUENCE OF CALLS, FAILURES, CRASHES AND OPENINGS.**

  A machine with the state directory and at most one process on it.  Each label is
  one call of a method, with how its system calls turn out, a start of the process,
  its death between two calls, or a loss of power.

    • `outbox_recovers`: in every reachable state the directory opens again, the
      queue is in order and on disk, what prunes is within the limits when it
      succeeds, and the counter on disk covers every sample that was removed
      without an acknowledgement,
    • `ack_keeps_expired`: `Ack` and `Reject` do not prune: they may succeed and
      leave a sample that has become too old.

  `removed` is history.  It counts, call by call, the samples that were in the
  directory, or were put there by an `Add` that succeeded, and have no file after
  the call, without being among the ids of an `Ack`.
-/
import Talus.Agent.SpoolShape
import Talus.Agent.Report

namespace Talus.Agent

open Talus.Base Talus.Base.Prog List Option

/-! ## §1. The machine. -/

/-- A call of a method and the instants it is made at.  `Ack` and `Reject` do not
read the clock. -/
inductive SpoolCall where
  | add (now later : Int) (s : Sample)
  | batch (now : Int)
  | ack (now : Int) (ids : List Bytes)
  | reject (now : Int) (ids : List Bytes)

namespace SpoolCall

/-- The instant of the call; for `Add` the one it prunes at. -/
def instant : SpoolCall → Int
  | add _ later _ => later
  | batch now => now
  | ack now _ => now
  | reject now _ => now

def prunes : SpoolCall → Bool
  | add _ _ _ => true
  | batch _ => true
  | _ => false

/-- The ids the call acknowledges. -/
def acked : SpoolCall → List Bytes
  | ack _ ids => ids
  | _ => []

/-- The samples of the directory, with the one a successful `Add` puts there. -/
def held (ok : Bool) (names : List Bytes) : SpoolCall → List Bytes
  | add _ _ s => if ok then names.insert s.id else names
  | _ => names

end SpoolCall

/-- The method of a call, and whether it returns without an error. -/
def Spool.call (rt : Runtime) (q : Spool) : SpoolCall → Prog Disk (Spool × Bool)
  | .add now later s => do
      let r ← q.add rt now later s
      pure (r.1, r.2.isNone)
  | .batch now => do
      let r ← q.batch now
      pure (r.1, r.2.isSome)
  | .ack _ ids => q.ack ids
  | .reject _ ids => q.reject ids

structure Machine where
  disk : Disk
  spool : Option Spool
  /-- The last operation has returned without an error. -/
  succeeded : Bool
  /-- The samples removed without an acknowledgement so far. -/
  removed : Nat

inductive SpoolLabel where
  | «open» (now : Int) (faults : List Fault)
  | call (c : SpoolCall) (faults : List Fault)
  | crash
  | powerLoss (kept restored : List Bytes) (count temps : Nat)

/-- The instant at which an operation prunes, if it does. -/
def SpoolLabel.prunesAt : SpoolLabel → Option Int
  | .open now _ => some now
  | .call c _ => if c.prunes then some c.instant else none
  | _ => none

namespace Machine

/-- The process is gone. -/
def stopped (m : Machine) (d : Disk) (lost : List Bytes) : Machine where
  disk := d
  spool := none
  succeeded := false
  removed := m.removed + lost.length

/-- An opening has returned or died. -/
def afterOpen (m : Machine) : Ending Disk (Option Spool) → Machine
  | .done r d _ =>
    { disk := d
      spool := r
      succeeded := r.isSome
      removed := m.removed + (gone m.disk.box.names [] d.box).length }
  | .crashed d => m.stopped d (gone m.disk.box.names [] d.box)

/-- A call has returned or died. -/
def afterCall (m : Machine) (c : SpoolCall) : Ending Disk (Spool × Bool) → Machine
  | .done r d _ =>
    { disk := d
      spool := some r.1
      succeeded := r.2
      removed := m.removed + (gone (c.held r.2 m.disk.box.names) c.acked d.box).length }
  | .crashed d => m.stopped d (gone m.disk.box.names c.acked d.box)

end Machine

section

variable (rt : Runtime)

def outboxStep (m : Machine) : SpoolLabel → Option Machine
  | .open now faults =>
    match m.spool with
    | some _ => none
    | none => some (m.afterOpen (Spool.openSpool rt now m.disk faults))
  | .call c faults => do
      let q ← m.spool
      some (m.afterCall c (q.call rt c m.disk faults))
  | .crash => some (m.stopped m.disk [])
  | .powerLoss kept restored count temps =>
    if m.spool = none ∧ count ∈ m.disk.box.counters then
      some (m.stopped ⟨m.disk.box.powerLoss kept restored count, temps⟩ [])
    else none

/-- A machine whose state directory has just been created. -/
def Machine.fresh : Machine where
  disk := ⟨⟨[], 0, [], [], []⟩, 0⟩
  spool := none
  succeeded := false
  removed := 0

def outboxSystem : System Machine SpoolLabel where
  init m := m = Machine.fresh
  step := outboxStep rt

end

/-! ## §2. What a call removes is counted. -/

variable {rt : Runtime} {P : Sample → Prop} {n : Nat} {q : Spool} {d : Disk} {m m' : Machine}

variable {base acked : List Bytes} {b : Outbox}

/-- Watch the queue as it is: all of it is safe. -/
theorem Ledger.watch (h : Ledger P base acked n True q b)
    (acked' : List Bytes) : Ledger P q.ids acked' n True q b := by
  have hnone : b.lost q.ids acked' = [] := by
    refine filter_eq_nil_iff.mpr fun i hi => ?_
    have hsafe : i ∈ b.safe := Outbox.mem_safe.mpr ⟨h.present i hi, h.durable trivial i hi⟩
    simp [hsafe]
  have hzero : (b.lost q.ids acked').length = 0 := by rw [hnone]; rfl
  exact { h with
    distinct := h.nodup
    persisted := by
      intro v hv
      have := h.persisted v hv
      omega
    tracked := fun i hi _ => hi
    counted := by
      have := h.counted
      omega }

/-- What is lost is charged, and nothing is watched any more. -/
theorem BoxOk.charge {g : List Bytes} (h : BoxOk P base acked n b)
    (hg : g.Nodup) (hsub : g ⊆ b.lost base acked) : BoxOk P [] [] (n + g.length) b where
  distinct := List.nodup_nil
  __ := h
  persisted := by
    intro v hv
    have hle := (hg.subperm hsub).length_le
    have := h.persisted v hv
    show 0 + (n + g.length) ≤ v
    omega

theorem Ledger.charge {g : List Bytes}
    (h : Ledger P base acked n True q b) (hg : g.Nodup) (hsub : g ⊆ b.lost base acked) :
    Ledger P [] [] (n + g.length) True q b where
  toBoxOk := h.toBoxOk.charge hg hsub
  __ := h
  tracked := fun i hi => absurd hi List.not_mem_nil
  counted := by
    have hle := (hg.subperm hsub).length_le
    have := h.counted
    show 0 + (n + g.length) ≤ q.dropped
    omega

/-- The files of `start` that are not of `ids` are still there. -/
def Kept (start ids : List Bytes) (b : Outbox) : Prop := ∀ i ∈ start, i ∉ ids → i ∈ b.names

theorem kept_footprint (start ids : List Bytes) : Footprint ids (Kept start ids) where
  sync _ h := h
  setDropped _ _ h := h
  remove _ _ hi h j hj hjn :=
    Outbox.mem_names_remove.mpr ⟨h j hj hjn, fun hji => hjn (hji ▸ hi)⟩

theorem Kept.gone_subset {start ids : List Bytes} (h : Kept start ids b) :
    gone start acked b ⊆ b.lost ids acked := by
  intro i hi
  obtain ⟨hstart, hname, hack⟩ := mem_gone.mp hi
  have hmem : i ∈ ids := by
    by_contra hn
    exact hname (h i hstart hn)
  exact Outbox.mem_lost.mpr ⟨hmem, fun hs => hname (Outbox.mem_safe.mp hs).1, hack⟩

theorem gone_nodup {start : List Bytes} (h : start.Nodup) : (gone start acked b).Nodup := h.filter _

/-- What was watched through a call is charged after it. -/
theorem charge_call {α : Type} {c : Prog Disk (Spool × α)} {ids : List Bytes}
    (hnd : d.box.names.Nodup)
    (hspec : wp c (fun r d' => Ledger P ids acked n True r.1 d'.box)
      (fun d' => BoxOk P ids acked n d'.box) d)
    (hkept : wp c (fun _ d' => Kept d.box.names ids d'.box)
      (fun d' => Kept d.box.names ids d'.box) d) :
    wp c (fun r d' => Ledger P [] [] (n + (gone d.box.names acked d'.box).length) True r.1 d'.box)
      (fun d' => BoxOk P [] [] (n + (gone d.box.names acked d'.box).length) d'.box) d := by
  refine wp_mono (wp_and hspec hkept) ?_ ?_
  · rintro r d' ⟨hl, hk⟩
    exact hl.charge (gone_nodup hnd) hk.gone_subset
  · rintro d' ⟨hb, hk⟩
    exact hb.charge (gone_nodup hnd) hk.gone_subset

theorem kept_self (b : Outbox) (ids : List Bytes) : Kept b.names ids b := fun _ hi _ => hi

theorem batch_charged (now : Int) (h : Ledger P [] [] n True q d.box) :
    wp (Spool.batch now q)
      (fun r d' => Ledger P [] [] (n + (gone d.box.names [] d'.box).length) True r.1 d'.box)
      (fun d' => BoxOk P [] [] (n + (gone d.box.names [] d'.box).length) d'.box) d :=
  charge_call h.unique
    (wp_mono (batch_spec now (h.watch [])) (fun _ _ h' => h'.1) fun _ h' => h')
    (batch_touches (kept_footprint _ _) now (kept_self _ _))

/-- Acknowledged ids cost nothing. -/
theorem budget_self (ids : List Bytes) (entries : List QueueEntry) : budget ids ids entries = 0 := by
  unfold budget
  rw [countP_eq_zero]
  intro e _
  simp

theorem ack_charged (ids : List Bytes) (h : Ledger P [] [] n True q d.box) :
    wp (Spool.ack ids q)
      (fun r d' => Ledger P [] [] (n + (gone d.box.names ids d'.box).length) True r.1 d'.box)
      (fun d' => BoxOk P [] [] (n + (gone d.box.names ids d'.box).length) d'.box) d := by
  refine charge_call h.unique (ack_spec ids ?_) (ack_touches (kept_footprint _ _) ids (kept_self _ _))
  rw [budget_self]
  exact h.watch ids

theorem reject_charged (ids : List Bytes) (h : Ledger P [] [] n True q d.box) :
    wp (Spool.reject ids q)
      (fun r d' => Ledger P [] [] (n + (gone d.box.names [] d'.box).length) True r.1 d'.box)
      (fun d' => BoxOk P [] [] (n + (gone d.box.names [] d'.box).length) d'.box) d :=
  charge_call h.unique (reject_spec ids (h.watch []))
    (reject_touches (kept_footprint _ _) ids (kept_self _ _))

/-- `Add` may remove its own sample again, and then counts it like any other. -/
theorem add_charged (rt : Runtime) (now later : Int) (s : Sample)
    (h : Ledger (fun _ => True) [] [] n True q d.box) :
    wp (Spool.add rt now later s q)
      (fun r d' => Ledger (fun _ => True) [] []
        (n + (gone (if r.2.isNone then d.box.names.insert s.id else d.box.names) []
          d'.box).length) True r.1 d'.box)
      (fun d' => BoxOk (fun _ => True) [] [] (n + (gone d.box.names [] d'.box).length) d'.box)
      d := by
  have hw := h.watch []
  have hnd : d.box.names.Nodup := h.unique
  -- as long as the sample is not in the outbox, no file goes
  have hnone : ∀ {b : Outbox} (e : SpoolError), Ledger (fun _ => True) q.ids [] n True q b →
      d.box.names ⊆ b.names →
      Ledger (fun _ => True) [] [] (n + (gone (if (some e).isNone then d.box.names.insert s.id
        else d.box.names) [] b).length) True q b :=
    fun e hl hsub => hl.charge (gone_nodup hnd) (Kept.gone_subset fun i hi _ => hsub hi)
  unfold Spool.add
  split
  · exact wp_pure (hnone _ hw (List.Subset.refl _))
  split
  · exact wp_pure (hnone _ hw (List.Subset.refl _))
  next doc hdoc =>
  split
  · exact wp_pure (hnone _ hw (List.Subset.refl _))
  split
  · exact wp_pure (hnone _ hw (List.Subset.refl _))
  next hdup =>
  generalize hfile : (⟨s.id, s.scrub, doc.length⟩ : File) = f
  have hname : f.name = s.id := by rw [← hfile]
  have hgrow : d.box.names ⊆ (d.box.replace f).names := by
    intro i hi
    rw [Outbox.names_replace]
    by_cases hif : i = f.name
    · exact hif ▸ mem_cons_self
    · exact mem_cons_of_mem _ (Outbox.mem_names_remove.mpr ⟨hi, hif⟩)
  have hren := hw.renamed (f := f) trivial (hname ▸ hdup) (hname ▸ hdup)
  refine wp_bind (wp_mono (writeAtomic_spec
    (Q := fun ok b => d.box.names ⊆ b.names ∧
      if ok then Ledger (fun _ => True) (s.id :: q.ids) [] n True
        ⟨rt.sort (q.entries ++ [⟨s, doc.length⟩]), q.bytes + doc.length, q.dropped⟩ b
      else Ledger (fun _ => True) q.ids [] n True q b)
    (C := fun b => d.box.names ⊆ b.names ∧ BoxOk (fun _ => True) q.ids [] n b)
    ⟨List.Subset.refl _, hw⟩ ⟨hgrow, hren⟩
    ⟨hgrow, hw.queued trivial trivial hname hdup hdup (rt.sort_perm _)⟩
    ⟨List.Subset.refl _, hw.toBoxOk⟩ ⟨hgrow, hren.toBoxOk⟩) ?_ ?_)
  · rintro written d₁ ⟨hsub, h₁⟩
    cases written with
    | false => exact wp_pure (hnone _ h₁ hsub)
    | true =>
      have h₁ : Ledger (fun _ => True) (s.id :: q.ids) [] n True
        ⟨rt.sort (q.entries ++ [⟨s, doc.length⟩]), q.bytes + doc.length, q.dropped⟩ d₁.box := h₁
      -- from here on the sample is watched, whatever the call returns
      have hids : Spool.ids ⟨rt.sort (q.entries ++ [⟨s, doc.length⟩]), q.bytes + doc.length,
          q.dropped⟩ ⊆ s.id :: q.ids := by
        intro i hi
        have hperm := (rt.sort_perm (q.entries ++ [⟨s, doc.length⟩])).map fun e => e.sample.id
        have hi : i ∈ List.map (fun e : QueueEntry => e.sample.id)
            (q.entries ++ [⟨s, doc.length⟩]) := hperm.mem_iff.mp hi
        rw [map_append, mem_append] at hi
        rcases hi with hi | hi
        · exact mem_cons_of_mem _ hi
        · rw [mem_singleton.mp hi]
          exact mem_cons_self
      have hkept : Kept d.box.names (s.id :: q.ids) d₁.box := fun i hi _ => hsub hi
      refine wp_bind (wp_mono (wp_and (prune_spec later h₁)
        (prune_touches ((kept_footprint _ _).mono hids) later hkept)) ?_ ?_)
      · rintro r d₂ ⟨hl, hk⟩
        refine wp_pure (hl.1.charge (gone_nodup ?_) (Kept.gone_subset ?_))
        · split
          · exact hnd.insert
          · exact hnd
        · intro i hi hni
          split at hi
          · rcases mem_insert_iff.mp hi with hi | hi
            · exact absurd (hi ▸ mem_cons_self) hni
            · exact hk i hi hni
          · exact hk i hi hni
      · rintro d₂ ⟨hb, hk⟩
        exact hb.charge (gone_nodup hnd) hk.gone_subset
  · rintro d' ⟨hsub, hb⟩
    exact hb.charge (gone_nodup hnd) (Kept.gone_subset fun i hi _ => hsub hi)

/-! ## §3. Runs. -/

/-- **The invariant of the machine.** -/
structure MachineInv (m : Machine) : Prop where
  box : BoxOk (fun _ => True) [] [] m.removed m.disk.box
  readable : Sealed m.disk.box
  running : ∀ q, m.spool = some q →
    Ledger (fun _ => True) [] [] m.removed True q m.disk.box ∧ Ordered q

/-- What a call of a method does, all together. -/
theorem call_spec (rt : Runtime) (c : SpoolCall)
    (h : Ledger (fun _ => True) [] [] n True q d.box) (ho : Ordered q) (hs : Sealed d.box) :
    wp (q.call rt c)
      (fun r d' => (Ledger (fun _ => True) [] []
          (n + (gone (c.held r.2 d.box.names) c.acked d'.box).length) True r.1 d'.box ∧
        Ordered r.1 ∧ (c.prunes = true → r.2 = true → Bounded c.instant r.1) ∧
        (c.prunes = false → Shrunk q r.1)) ∧ Sealed d'.box)
      (fun d' => (BoxOk (fun _ => True) [] [] (n + (gone d.box.names c.acked d'.box).length) d'.box ∧
        True) ∧ Sealed d'.box) d := by
  cases c with
  | add now later s =>
    refine wp_bind (wp_mono (wp_and (wp_and (add_charged rt now later s h)
      (add_ordered rt now later s ho)) (add_sealed rt now later s hs)) ?_ fun _ h' => h')
    rintro r d' ⟨⟨hl, hord⟩, hseal⟩
    exact wp_pure ⟨⟨hl, hord.1, fun _ => hord.2, nofun⟩, hseal⟩
  | batch now =>
    refine wp_bind (wp_mono (wp_and (wp_and (batch_charged now h) (batch_ordered now ho))
      (batch_touches (sealed_footprint _) now hs)) ?_ fun _ h' => h')
    rintro r d' ⟨⟨hl, hord⟩, hseal⟩
    exact wp_pure ⟨⟨hl, hord.1, fun _ => hord.2, nofun⟩, hseal⟩
  | ack now ids =>
    refine wp_mono (wp_and (wp_and (ack_charged ids h) (ack_ordered ids ho))
      (ack_touches (sealed_footprint _) ids hs)) ?_ fun _ h' => h'
    rintro r d' ⟨⟨hl, hord⟩, hseal⟩
    exact ⟨⟨hl, hord.1, nofun, fun _ => hord.2⟩, hseal⟩
  | reject now ids =>
    refine wp_mono (wp_and (wp_and (reject_charged ids h) (reject_ordered ids ho))
      (reject_touches (sealed_footprint _) ids hs)) ?_ fun _ h' => h'
    rintro r d' ⟨⟨hl, hord⟩, hseal⟩
    exact ⟨⟨hl, hord.1, nofun, fun _ => hord.2⟩, hseal⟩

/-- What an opening does, all together. -/
theorem open_spec (rt : Runtime) (now : Int) (h : BoxOk (fun _ => True) [] [] n d.box)
    (hs : Sealed d.box) :
    wp (Spool.openSpool rt now)
      (fun r d' => BoxOk (fun _ => True) [] [] (n + (gone d.box.names [] d'.box).length) d'.box ∧
        Sealed d'.box ∧ ∀ q, r = some q → Ledger (fun _ => True) [] []
          (n + (gone d.box.names [] d'.box).length) True q d'.box ∧ Ordered q ∧ Bounded now q)
      (fun d' => BoxOk (fun _ => True) [] [] (n + (gone d.box.names [] d'.box).length) d'.box ∧
        Sealed d'.box) d := by
  have hcount : ∀ v ∈ d.box.counters, n ≤ v := fun v hv => by
    have hle : 0 + n ≤ v := h.persisted v hv
    omega
  -- the ledger watches nothing here, so what `Paid` counts can be put on top
  have hcharge : ∀ {b : Outbox}, BoxOk (fun _ => True) [] [] n b →
      (∀ v ∈ b.counters, (gone d.box.names [] b).length + n ≤ v) →
      BoxOk (fun _ => True) [] [] (n + (gone d.box.names [] b).length) b := by
    intro b hb hp
    refine { hb with persisted := fun v hv => ?_ }
    have := hp v hv
    show 0 + (n + (gone d.box.names [] b).length) ≤ v
    omega
  refine wp_mono (wp_and (wp_and (openSpool_spec rt now h) (openSpool_paid rt now h.unique hcount))
    (wp_and (openSpool_ordered rt now) (openSpool_touches rt now (sealed_footprint _) hs))) ?_ ?_
  · rintro r d' ⟨⟨⟨hb, hl⟩, hp, hmem⟩, hord, hseal⟩
    refine ⟨hcharge hb hp, hseal, fun q hq => ⟨?_, hord q hq⟩⟩
    refine { hl q hq with toBoxOk := hcharge hb hp, counted := ?_ }
    have := hmem q hq
    show 0 + (n + (gone d.box.names [] d'.box).length) ≤ q.dropped
    omega
  · rintro d' ⟨⟨hb, hp⟩, -, hseal⟩
    exact ⟨hcharge hb hp, hseal⟩

/-- The result of a call, or of its death. -/
theorem MachineInv.call (h : MachineInv m) (hq : m.spool = some q) (rt : Runtime) (c : SpoolCall)
    (faults : List Fault) :
    MachineInv (m.afterCall c (q.call rt c m.disk faults)) ∧
    ∀ q', (m.afterCall c (q.call rt c m.disk faults)).spool = some q' →
      (c.prunes = true → (m.afterCall c (q.call rt c m.disk faults)).succeeded = true →
        Bounded c.instant q') ∧ (c.prunes = false → Shrunk q q') := by
  obtain ⟨hl, ho⟩ := h.running q hq
  have hspec := call_spec rt c hl ho h.readable
  cases hr : q.call rt c m.disk faults with
  | done r d' rest =>
    obtain ⟨⟨hl', ho', hbound, hshrunk⟩, hseal⟩ := wp_done hspec hr
    refine ⟨⟨hl'.toBoxOk, hseal, ?_⟩, ?_⟩
    · intro q' hq'
      cases hq'
      exact ⟨hl', ho'⟩
    · intro q' hq'
      cases hq'
      exact ⟨hbound, hshrunk⟩
  | crashed d' =>
    obtain ⟨⟨hb, -⟩, hseal⟩ := wp_crashed hspec hr
    exact ⟨⟨hb, hseal, nofun⟩, nofun⟩

/-- The result of an opening, or of its death. -/
theorem MachineInv.opened (h : MachineInv m) (rt : Runtime) (now : Int) (faults : List Fault) :
    MachineInv (m.afterOpen (Spool.openSpool rt now m.disk faults)) ∧
    ∀ q', (m.afterOpen (Spool.openSpool rt now m.disk faults)).spool = some q' →
      Bounded now q' := by
  have hspec := open_spec rt now h.box h.readable
  cases hr : Spool.openSpool rt now m.disk faults with
  | done r d' rest =>
    obtain ⟨hb, hseal, hrun⟩ := wp_done hspec hr
    exact ⟨⟨hb, hseal, fun q' hq' => ⟨(hrun q' hq').1, (hrun q' hq').2.1⟩⟩,
      fun q' hq' => (hrun q' hq').2.2⟩
  | crashed d' =>
    obtain ⟨hb, hseal⟩ := wp_crashed hspec hr
    exact ⟨⟨hb, hseal, nofun⟩, nofun⟩

/-- **Every step keeps the invariant**, and what has pruned without an error is within
the limits. -/
theorem outboxStep_inv {l : SpoolLabel} (h : MachineInv m) (hs : outboxStep rt m l = some m') :
    MachineInv m' ∧ ∀ q', m'.spool = some q' → m'.succeeded = true →
      (∀ t, l.prunesAt = some t → Bounded t q') ∧
      (l.prunesAt = none → ∀ q, m.spool = some q → Shrunk q q') := by
  cases l with
  | «open» now faults =>
    simp only [outboxStep] at hs
    split at hs
    · cases hs
    cases hs
    obtain ⟨hinv, hbound⟩ := h.opened rt now faults
    refine ⟨hinv, fun q' hq' _ => ⟨fun t ht => ?_, nofun⟩⟩
    cases ht
    exact hbound q' hq'
  | call c faults =>
    simp only [outboxStep, bind_eq_bind, bind_eq_some_iff] at hs
    obtain ⟨q, hq, hs⟩ := hs
    cases hs
    obtain ⟨hinv, hpost⟩ := h.call hq rt c faults
    refine ⟨hinv, fun q' hq' hok => ?_⟩
    obtain ⟨hbound, hshrunk⟩ := hpost q' hq'
    constructor
    · intro t ht
      simp only [SpoolLabel.prunesAt] at ht
      split at ht
      · next hp =>
        cases ht
        exact hbound hp hok
      · cases ht
    · intro hn q₀ hq₀
      rw [hq] at hq₀
      cases hq₀
      refine hshrunk ?_
      cases hp : c.prunes with
      | false => rfl
      | true => simp [SpoolLabel.prunesAt, hp] at hn
  | crash =>
    cases hs
    exact ⟨⟨h.box, h.readable, nofun⟩, nofun⟩
  | powerLoss kept restored count temps =>
    simp only [outboxStep] at hs
    split at hs
    · next hg =>
      cases hs
      exact ⟨⟨h.box.powerLoss kept restored hg.2,
        h.readable.powerLoss h.box.unique kept restored count, nofun⟩,
        nofun⟩
    · cases hs

theorem machineInv_fresh : MachineInv Machine.fresh where
  box :=
    { distinct := List.nodup_nil
      unique := List.nodup_nil
      filed := fun _ hf => absurd hf List.not_mem_nil
      shadow := fun _ hf => absurd hf List.not_mem_nil
      persisted := fun v _ => Nat.zero_le v }
  readable := by
    rintro f (hf | hf)
    · exact absurd hf not_mem_nil
    · exact absurd hf not_mem_nil
  running := nofun

theorem reachable_machineInv (h : (outboxSystem rt).Reachable m) : MachineInv m :=
  h.invariant (fun _ hi => hi ▸ machineInv_fresh) fun _ _ _ hI hs => (outboxStep_inv hI hs).1

/-! ## §4. Recovery. -/

/-- **THE OUTBOX RECOVERS.**  After any sequence of calls, failed system calls,
crashes between any two of them, losses of power and openings:

  • an opening succeeds if none of its own calls fails,
  • the queue is sorted by capture time, its ids are distinct, its byte count is the
    sum of its sizes, and each of its samples has its file,
  • an `Add`, a `Batch` or an opening that succeeds leaves the queue within the byte
    limit and with nothing older than the maximum age at the instant it pruned;
    `Ack` and `Reject` take entries out and add nothing,
  • the counter on disk, also the one a loss of power may leave, is at least the
    number of samples removed without an acknowledgement. -/
theorem outbox_recovers (rt : Runtime) (m : Machine) (h : (outboxSystem rt).Reachable m) :
    (∀ now faults, Calm faults →
      ∃ q d rest, Spool.openSpool rt now m.disk faults = .done (some q) d rest) ∧
    (∀ q, m.spool = some q →
      q.entries.Pairwise (fun a b => a.sample.time ≤ b.sample.time) ∧ q.ids.Nodup ∧
      q.bytes = (q.entries.map fun e => (e.size : Int)).sum ∧
      ∀ e ∈ q.entries, e.sample.id ∈ m.disk.box.names) ∧
    (∀ l m' q', outboxStep rt m l = some m' → m'.spool = some q' → m'.succeeded = true →
      (∀ t, l.prunesAt = some t → Bounded t q') ∧
      (l.prunesAt = none → ∀ q, m.spool = some q → Shrunk q q')) ∧
    (m.removed ≤ m.disk.box.dropped ∧ ∀ v ∈ m.disk.box.counters, m.removed ≤ v) := by
  have hinv := reachable_machineInv h
  refine ⟨?_, ?_, fun l m' q' hs hq' hok => (outboxStep_inv hinv hs).2 q' hq' hok, ?_⟩
  · intro now faults hcalm
    obtain ⟨r, d, rest, hr, -, hsome⟩ := openSpool_completes rt now hinv.readable faults hcalm
    obtain ⟨q, rfl⟩ := isSome_iff_exists.mp hsome
    exact ⟨q, d, rest, hr⟩
  · intro q hq
    obtain ⟨hl, ho⟩ := hinv.running q hq
    exact ⟨ho.sorted, hl.nodup, ho.bytes, fun e he => hl.present _ (mem_map_of_mem he)⟩
  · have hle : ∀ v ∈ m.disk.box.counters, m.removed ≤ v := by
      intro v hv
      have hle : 0 + m.removed ≤ v := hinv.box.persisted v hv
      omega
    exact ⟨hle _ mem_cons_self, hle⟩

/-- A day after two samples were captured, an `Add` prunes, and the process dies
after the counter was written and before the first file is removed; the next
opening finishes the pruning. -/
def interruptedPruning : List SpoolLabel :=
  [.open 0 [], .call (.add 0 0 (bareSample 48)) [],
    .call (.add 0 (maxAge + 1) (bareSample 49)) (List.replicate 14 .ok ++ [.crash]),
    .open (maxAge + 1) []]

theorem outbox_recovers_interrupted :
    ∃ m, (outboxSystem plainRuntime).Reachable m ∧ m.removed = 2 ∧ m.disk.box.dropped = 3 ∧
      (∀ v ∈ m.disk.box.counters, m.removed ≤ v) := by
  have heval : ((outboxSystem plainRuntime).run Machine.fresh interruptedPruning).map
      (fun m => (m.removed, m.disk.box.dropped)) = some (2, 3) := by decide +kernel
  obtain ⟨m, hm, heq⟩ := map_eq_some_iff.mp heval
  simp only [Prod.mk.injEq] at heq
  have hreach : (outboxSystem plainRuntime).Reachable m :=
    ⟨Machine.fresh, interruptedPruning, rfl, hm⟩
  exact ⟨m, hreach, heq.1, heq.2, (outbox_recovers plainRuntime m hreach).2.2.2.2⟩

/-- **`Ack` succeeds and keeps a sample that is too old**: it does not prune.  One
nanosecond more than a day after the capture, an `Ack` that names nothing returns
without an error. -/
theorem ack_keeps_expired :
    ∃ m m' q', (outboxSystem plainRuntime).Reachable m ∧
      outboxStep plainRuntime m (.call (.ack (maxAge + 1) []) []) = some m' ∧
      m'.succeeded = true ∧ m'.spool = some q' ∧ ¬ Bounded (maxAge + 1) q' := by
  have heval : ((outboxSystem plainRuntime).run Machine.fresh
      [.open 0 [], .call (.add 0 0 (bareSample 48)) []]).any (fun m =>
        (outboxStep plainRuntime m (.call (.ack (maxAge + 1) []) [])).any fun m' =>
          m'.succeeded && m'.spool.any fun q' =>
            q'.entries.any fun e => e.sample.time < maxAge + 1 - maxAge) = true := by
    decide +kernel
  obtain ⟨m, hm, hstep⟩ := (any_eq_true _ _).mp heval
  obtain ⟨m', hm', hok⟩ := (any_eq_true _ _).mp hstep
  rw [Bool.and_eq_true] at hok
  obtain ⟨q', hq', hold⟩ := (any_eq_true _ _).mp hok.2
  obtain ⟨e, he, hlt⟩ := any_eq_true.mp hold
  refine ⟨m, m', q', ⟨Machine.fresh, _, rfl, hm⟩, hm', hok.1, hq', fun hb => ?_⟩
  exact absurd (hb.age e he) (Int.not_le.mpr (of_decide_eq_true hlt))

end Talus.Agent
