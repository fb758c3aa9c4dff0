/-
  Talus.Agent.Delivery
  **END TO END: STORED AT MOST ONCE, AND NEVER LOST IN SILENCE.**

  The agent and the Hub with a network between them that loses, repeats and
  reorders: a report once sent may be received any number of times from then
  on, in any order or never, and so may a reply.  Both ends crash and restart
  at any moment, the agent's machine may lose power, and the Hub forgets old
  receipts.  The Hub's clock does not go back; the agent's may do anything.

  Main results, for every run:

    • no sample is inserted twice, not even after its receipt is gone,
    • the accepted samples that are neither in the spool nor stored are no
      more than the counter accounts for, whatever happens next,
    • each step counts what it takes out of the spool without an
      acknowledgement,
    • what is in the spool is on stable storage, and what is acknowledged is
      stored.
-/
import Talus.Agent.Hub
import Talus.Agent.Report

namespace Talus.Agent

open Talus.Base Talus.Base.Prog List Option

/-! ## §1. The world. -/

structure World where
  client : Client
  hub : Hub

inductive WorldLabel where
  | agent (l : ClientLabel)
  | hub (l : HubLabel)

namespace World

/-- The agent's steps: ids are drawn at random and do not repeat, and a reply
is one the Hub has given. -/
def agentMay (w : World) : ClientLabel → Bool
  | .collect s _ _ _ => s.id ∉ w.client.collected.map Sample.id
  | .reply r _ => r ∈ w.hub.replies
  | _ => true

/-- The Hub's steps: a report is one the agent has sent. -/
def hubMay (w : World) : HubLabel → Bool
  | .receive r _ _ => r ∈ w.client.sent
  | _ => true

end World

section

variable (rt : Runtime) (version : Bytes)

def worldStep (w : World) : WorldLabel → Option World
  | .agent l =>
    if w.agentMay l then (clientStep rt version w.client l).map fun c => { w with client := c }
    else none
  | .hub l =>
    if w.hubMay l then (hubStep rt.codec w.hub l).map fun h => { w with hub := h }
    else none

def worldSystem : System World WorldLabel where
  init w := w.client = Client.fresh ∧ ∃ clock, w.hub = Hub.fresh clock
  step := worldStep rt version

end

/-! ## §2. What the outbox holds and has counted. -/

/-- The ids in the spool: queued by the running process or, without one, sure
to be found by the next. -/
def Client.queue (c : Client) : List Bytes :=
  match c.spool with
  | some q => q.ids
  | none => c.disk.box.safe

/-- The losses that are counted for certain: the least of the counter in memory
and the contents `dropped.json` may have after a power loss. -/
def Client.counter (c : Client) : Nat :=
  c.disk.box.stale.foldr min
    (match c.spool with
      | some q => min q.dropped c.disk.box.dropped
      | none => c.disk.box.dropped)

namespace World

/-- The accepted samples that are neither in the spool nor stored. -/
def unaccounted (w : World) : List Bytes :=
  w.client.accepted.filter fun i => i ∉ w.client.queue ∧ i ∉ w.hub.db.stored

/-- The samples that are in the spool of `w`, not in that of `w'`, and not
acknowledged. -/
def leaving (w w' : World) : List Bytes :=
  w.client.queue.filter fun i => i ∉ w'.client.queue ∧ i ∉ w'.client.acked

end World

theorem le_foldr_min {n a : Nat} {l : List Nat} : n ≤ l.foldr min a ↔ n ≤ a ∧ ∀ v ∈ l, n ≤ v := by
  induction l with
  | nil => simp
  | cons v l ih =>
    rw [foldr_cons, Nat.le_min, ih, forall_mem_cons]
    constructor
    · intro h
      exact ⟨h.2.1, h.1, h.2.2⟩
    · intro h
      exact ⟨h.2.1, h.1, h.2.2⟩

theorem le_counter_iff {n : Nat} {c : Client} :
    n ≤ c.counter ↔ (∀ q, c.spool = some q → n ≤ q.dropped) ∧ ∀ v ∈ c.disk.box.counters, n ≤ v := by
  unfold Client.counter Outbox.counters
  rw [le_foldr_min, forall_mem_cons]
  cases c.spool with
  | none => simp
  | some q =>
    simp only [Nat.le_min, some.injEq, forall_eq']
    exact and_assoc

/-- **The counter is on disk**: it is no more than `dropped.json` says. -/
theorem counter_le_dropped (c : Client) : c.counter ≤ c.disk.box.dropped :=
  (le_counter_iff.mp (Nat.le_refl c.counter)).2 _ mem_cons_self

variable {rt : Runtime} {version : Bytes} {P : Sample → Prop} {base : List Bytes} {n : Nat}
  {c c' : Client} {w w' : World}

/-- An account of watched ids bounds the losses by the counter. -/
theorem Accounted.le_counter (h : Accounted P base n c) :
    (c.disk.box.lost base c.acked).length + n ≤ c.counter := by
  rw [le_counter_iff]
  refine ⟨?_, h.box.persisted⟩
  intro q hq
  exact (h.running hq).counted

variable {i : Bytes}

/-- A watched id that is not in the spool is lost or acknowledged. -/
theorem Accounted.missing (h : Accounted P base n c) (hi : i ∈ base)
    (hqueue : i ∉ c.queue) (hacked : i ∉ c.acked) : i ∈ c.disk.box.lost base c.acked := by
  refine Outbox.mem_lost.mpr ⟨hi, ?_, hacked⟩
  intro hsafe
  apply hqueue
  unfold Client.queue
  cases hq : c.spool with
  | none => exact hsafe
  | some q => exact (h.running hq).tracked i hi (Outbox.mem_safe.mp hsafe).1

/-- What is in the spool is on stable storage. -/
theorem Accounted.queue_safe (h : Accounted P base n c) (hi : i ∈ c.queue) :
    i ∈ c.disk.box.safe := by
  unfold Client.queue at hi
  cases hq : c.spool with
  | none =>
    rw [hq] at hi
    exact hi
  | some q =>
    rw [hq] at hi
    have hrun := h.running hq
    exact Outbox.mem_safe.mpr ⟨hrun.present i hi, hrun.durable trivial i hi⟩

/-- **The queue itself may be watched**, with the counter as it stands. -/
theorem Accounted.watch (h : Accounted P base n c) : Accounted P c.queue c.counter c := by
  have hnone : c.disk.box.lost c.queue c.acked = [] := by
    rw [eq_nil_iff_forall_not_mem]
    intro i hi
    obtain ⟨hq, hsafe, -⟩ := Outbox.mem_lost.mp hi
    exact hsafe (h.queue_safe hq)
  have hcount := le_counter_iff.mp (Nat.le_refl c.counter)
  have hbox : c.queue.Nodup → BoxOk P c.queue c.acked c.counter c.disk.box := by
    intro hnd
    refine { h.box with distinct := hnd, persisted := ?_ }
    intro v hv
    rw [hnone, length_nil, Nat.zero_add]
    exact hcount.2 v hv
  unfold Accounted
  cases hq : c.spool with
  | none =>
    refine hbox ?_
    unfold Client.queue
    rw [hq]
    exact h.box.unique.filter _
  | some q =>
    have hrun := h.running hq
    have hids : c.queue = q.ids := by
      unfold Client.queue
      rw [hq]
    refine { hrun with toBoxOk := hbox (hids ▸ hrun.nodup), tracked := ?_, counted := ?_ }
    · intro i hi _
      exact hids ▸ hi
    · rw [hnone, length_nil, Nat.zero_add]
      exact hcount.1 q hq

/-! ## §3. Where samples come from. -/

/-- The collected sample with id `i` was captured at `t`. -/
def Captured (collected : List Sample) (i : Bytes) (t : Int) : Prop :=
  ∃ s ∈ collected, s.id = i ∧ s.time = t

/-- A copy of a collected sample: its id passes validation and its time is the
one the sample was captured at. -/
def Known (collected : List Sample) (s : Sample) : Prop :=
  s.Measured ∧ Captured collected s.id s.time

variable {collected : List Sample}

theorem Captured.cons {t : Int} (s : Sample)
    (h : Captured collected i t) : Captured (s :: collected) i t := by
  obtain ⟨x, hx, hrest⟩ := h
  exact ⟨x, mem_cons_of_mem s hx, hrest⟩

/-- Ids that do not repeat determine the capture time. -/
theorem captured_unique (hnd : (collected.map Sample.id).Nodup)
    (i : Bytes) (t t' : Int) (h : Captured collected i t) (h' : Captured collected i t') :
    t = t' := by
  obtain ⟨s, hs, hid, rfl⟩ := h
  obtain ⟨s', hs', hid', rfl⟩ := h'
  rw [inj_on_of_nodup_map hnd hs hs' (hid.trans hid'.symm)]

variable {s : Sample}

/-- A JSON round trip keeps what is known of a sample. -/
theorem Known.scrub (h : Known collected s) : Known collected s.scrub := by
  refine ⟨h.1.scrub, ?_⟩
  rw [h.1.scrub_id]
  exact h.2

theorem known_of_added {now : Int}
    (hs : s ∈ collected) (hv : s.validate now = .ok ()) : Known collected s :=
  ⟨((Sample.validate_ok_iff s now).mp hv).1.1, s, hs, rfl, rfl⟩

theorem Accounted.mono {P' : Sample → Prop} (h : Accounted P base n c)
    (hP : ∀ s, P s → P' s) : Accounted P' base n c := by
  unfold Accounted at h ⊢
  split
  · next q hq =>
    rw [hq] at h
    exact Ledger.mono h hP (List.Sublist.refl _) (List.Subset.refl _)
  · next hq =>
    rw [hq] at h
    exact BoxOk.mono h hP (List.Sublist.refl _) (List.Subset.refl _)

theorem Speaks.mono {P' : Sample → Prop} (h : Speaks P version c) (hP : ∀ s, P s → P' s) :
    Speaks P' version c where
  sent := fun r hr => { h.sent r hr with samples := fun s hs => hP s ((h.sent r hr).samples s hs) }
  draft := fun m hm =>
    { h.draft m hm with samples := fun s hs => hP s ((h.draft m hm).samples s hs) }

/-! ## §4. The history of a step. -/

/-- A part of the client that neither a death nor a method changes. -/
theorem settle_keeps {α β : Type} (f : Client → β) {e : Ending Disk α} {k : α → Client → Client}
    (hstop : ∀ c d, f (c.stopped d) = f c) (hdisk : ∀ (c : Client) d, f { c with disk := d } = f c)
    (hk : ∀ a c, f (k a c) = f c) : f (c.settle e k) = f c := by
  unfold Client.settle
  cases e with
  | done a d rest => exact (hk a _).trans (hdisk c d)
  | crashed d => exact hstop c d

variable {l : ClientLabel}

/-- Only `collect` captures, only `collect` accepts, only `reply` acknowledges. -/
theorem clientStep_history (hs : clientStep rt version c l = some c') :
    (∃ s now later faults, l = .collect s now later faults ∧
      c'.collected = s :: c.collected ∧ c'.acked = c.acked) ∨
    (∃ r faults, l = .reply r faults ∧ c'.collected = c.collected ∧
      c'.accepted = c.accepted ∧ c'.acked = r.ack ++ c.acked) ∨
    ((∀ s now later faults, l ≠ .collect s now later faults) ∧
      c'.collected = c.collected ∧ c'.accepted = c.accepted ∧ c'.acked = c.acked) := by
  let history : Client → List Sample × List Bytes × List Bytes :=
    fun c => (c.collected, c.accepted, c.acked)
  have hsplit : history c' = history c → c'.collected = c.collected ∧ c'.accepted = c.accepted ∧
      c'.acked = c.acked := by
    intro he
    simpa [history] using he
  cases clientStep_move rt version hs with
  | @collected s now later faults q _ =>
    refine Or.inl ⟨s, now, later, faults, rfl, ?_, ?_⟩
    · refine settle_keeps Client.collected (fun _ _ => rfl) (fun _ _ => rfl) ?_
      intro r c
      split <;> rfl
    · refine settle_keeps Client.acked (fun _ _ => rfl) (fun _ _ => rfl) ?_
      intro r c
      split <;> rfl
  | @replied r faults q _ =>
    have hkeep := settle_keeps (c := { c with acked := r.ack ++ c.acked })
      (e := q.receive r c.disk faults) (k := fun out c => { c with spool := some out.1 })
      history (fun _ _ => rfl) (fun _ _ => rfl) fun _ _ => rfl
    simp only [history, Prod.mk.injEq] at hkeep
    exact Or.inr (Or.inl ⟨r, faults, rfl, hkeep⟩)
  | opened _ | recorded _ =>
    exact Or.inr (Or.inr ⟨fun _ _ _ _ he => (by cases he), hsplit
      (settle_keeps history (fun _ _ => rfl) (fun _ _ => rfl) fun _ _ => rfl)⟩)
  | batched _ _ =>
    refine Or.inr (Or.inr ⟨fun _ _ _ _ he => (by cases he), hsplit
      (settle_keeps history (fun _ _ => rfl) (fun _ _ => rfl) ?_)⟩)
    intro r c
    split <;> rfl
  | drafted _ | beaten _ | crashed | lostPower _ _ =>
    exact Or.inr (Or.inr ⟨fun _ _ _ _ he => (by cases he), rfl, rfl, rfl⟩)

/-! ## §5. The invariant of the world. -/

structure WorldInv (version : Bytes) (w : World) : Prop where
  distinct : (w.client.collected.map Sample.id).Nodup
  accepted : ∀ i ∈ w.client.accepted, i ∈ w.client.collected.map Sample.id
  account : Accounted (Known w.client.collected) w.client.accepted 0 w.client
  speaks : Speaks (Known w.client.collected) version w.client
  acked : ∀ i ∈ w.client.acked, i ∈ w.hub.db.stored
  hub : HubOk (Captured w.client.collected) w.hub

theorem worldInv_init (h : (worldSystem rt version).init w) : WorldInv version w := by
  obtain ⟨hc, clock, hh⟩ := h
  have hdb : DatabaseOk (Captured []) clock ⟨[], []⟩ :=
    ⟨nodup_nil, fun m hm => (by cases hm), fun m hm => (by cases hm), fun r hr => (by cases hr)⟩
  obtain ⟨client, hub⟩ := w
  subst hc hh
  exact ⟨nodup_nil, nofun, accounted_fresh, speaks_fresh,
    nofun, hdb, nofun, nofun⟩

/-- A collected sample with a new id. -/
theorem WorldInv.collect {now later : Int} {faults : List Fault}
    (h : WorldInv version w) (hnew : s.id ∉ w.client.collected.map Sample.id)
    (hs : clientStep rt version w.client (.collect s now later faults) = some c')
    (hcollected : c'.collected = s :: w.client.collected) (hacked : c'.acked = w.client.acked) :
    WorldInv version { w with client := c' } := by
  have hgrow : ∀ x, Known w.client.collected x → Known (s :: w.client.collected) x :=
    fun x hx => ⟨hx.1, hx.2.cons s⟩
  have hfresh : s.id ∉ w.client.accepted := fun hi => hnew (h.accepted _ hi)
  have hadded : ∀ doc, s.validate now = .ok () → s.marshal rt.codec = some doc →
      Known (s :: w.client.collected) s ∧ Known (s :: w.client.collected) s.scrub := by
    intro doc hv _
    have hk := known_of_added (mem_cons_self (a := s) (l := w.client.collected)) hv
    exact ⟨hk, hk.scrub⟩
  have haccount := h.account.mono hgrow
  obtain ⟨hold, hcases⟩ := collect_accounted haccount (fun q _ hi => absurd hi hfresh) hadded hs
  have hspeaks := clientStep_speaks haccount (h.speaks.mono hgrow) hs
  refine ⟨?_, ?_, ?_, ?_, ?_, ?_⟩
  · show (c'.collected.map Sample.id).Nodup
    rw [hcollected]
    exact nodup_cons.mpr ⟨hnew, h.distinct⟩
  · show ∀ i ∈ c'.accepted, i ∈ c'.collected.map Sample.id
    rw [hcollected]
    intro i hi
    rcases hcases with heq | ⟨heq, -⟩
    · exact mem_cons_of_mem _ (h.accepted i (heq ▸ hi))
    · rw [heq] at hi
      rcases mem_cons.mp hi with hi | hi
      · rw [hi]
        exact mem_cons_self
      · exact mem_cons_of_mem _ (h.accepted i hi)
  · show Accounted (Known c'.collected) c'.accepted 0 c'
    rw [hcollected]
    rcases hcases with heq | ⟨heq, hacc⟩
    · rw [heq]
      exact hold
    · rw [heq]
      exact hacc
  · show Speaks (Known c'.collected) version c'
    rw [hcollected]
    exact hspeaks
  · show ∀ i ∈ c'.acked, i ∈ w.hub.db.stored
    rw [hacked]
    exact h.acked
  · show HubOk (Captured c'.collected) w.hub
    rw [hcollected]
    exact h.hub.mono fun i t ht => ht.cons s

/-- Any other step of the agent. -/
theorem WorldInv.agent (h : WorldInv version w)
    (hl : ∀ s now later faults, l ≠ .collect s now later faults)
    (hs : clientStep rt version w.client l = some c')
    (hcollected : c'.collected = w.client.collected) (haccepted : c'.accepted = w.client.accepted)
    (hacked : ∀ i ∈ c'.acked, i ∈ w.hub.db.stored) :
    WorldInv version { w with client := c' } := by
  have haccount := clientStep_accounted h.account
    (fun s now later faults he => absurd he (hl s now later faults))
    (fun s now later faults he => absurd he (hl s now later faults)) hs
  have hspeaks := clientStep_speaks h.account h.speaks hs
  refine ⟨?_, ?_, ?_, ?_, hacked, ?_⟩
  · show (c'.collected.map Sample.id).Nodup
    rw [hcollected]
    exact h.distinct
  · show ∀ i ∈ c'.accepted, i ∈ c'.collected.map Sample.id
    rw [hcollected, haccepted]
    exact h.accepted
  · show Accounted (Known c'.collected) c'.accepted 0 c'
    rw [hcollected, haccepted]
    exact haccount
  · show Speaks (Known c'.collected) version c'
    rw [hcollected]
    exact hspeaks
  · show HubOk (Captured c'.collected) w.hub
    rw [hcollected]
    exact h.hub

theorem worldStep_agent (hs : worldStep rt version w (.agent l) = some w') :
    w.agentMay l = true ∧ ∃ c', clientStep rt version w.client l = some c' ∧
      w' = { w with client := c' } := by
  simp only [worldStep] at hs
  split at hs
  · next hmay =>
    obtain ⟨c', hc', rfl⟩ := map_eq_some_iff.mp hs
    exact ⟨hmay, c', hc', rfl⟩
  · cases hs

theorem worldStep_hub {l : HubLabel} (hs : worldStep rt version w (.hub l) = some w') :
    w.hubMay l = true ∧ ∃ h', hubStep rt.codec w.hub l = some h' ∧ w' = { w with hub := h' } := by
  simp only [worldStep] at hs
  split at hs
  · next hmay =>
    obtain ⟨h', hh', rfl⟩ := map_eq_some_iff.mp hs
    exact ⟨hmay, h', hh', rfl⟩
  · cases hs

/-- **Every step of the world keeps the invariant.** -/
theorem worldStep_inv {l : WorldLabel} (h : WorldInv version w)
    (hs : worldStep rt version w l = some w') : WorldInv version w' := by
  cases l with
  | agent l =>
    obtain ⟨hmay, c', hc', rfl⟩ := worldStep_agent hs
    rcases clientStep_history hc' with ⟨s, now, later, faults, rfl, hcollected, hacked⟩ |
      ⟨r, faults, rfl, hcollected, haccepted, hacked⟩ | ⟨hother, hcollected, haccepted, hacked⟩
    · exact h.collect (of_decide_eq_true hmay) hc' hcollected hacked
    · -- an acknowledgement the Hub has given names stored samples
      refine h.agent (fun _ _ _ _ he => by cases he) hc' hcollected haccepted ?_
      have hreply : r ∈ w.hub.replies := of_decide_eq_true hmay
      rw [hacked]
      intro i hi
      rcases mem_append.mp hi with hi | hi
      · exact h.hub.replies r hreply i hi
      · exact h.acked i hi
    · exact h.agent hother hc' hcollected haccepted (by rw [hacked]; exact h.acked)
  | hub l =>
    obtain ⟨hmay, h', hh', rfl⟩ := worldStep_hub hs
    have hreq : ∀ r t handling, l = .receive r t handling →
        ∀ s ∈ r.scrub.samples, Captured w.client.collected s.id s.time := by
      intro r t handling he s hmem
      subst he
      obtain ⟨x, hx, rfl⟩ := mem_map.mp hmem
      have hsent : r ∈ w.client.sent := of_decide_eq_true hmay
      exact (((h.speaks.sent r hsent).samples x hx).scrub).2
    obtain ⟨hok, hsub⟩ := hubStep_ok (captured_unique h.distinct) h.hub hreq hh'
    exact ⟨h.distinct, h.accepted, h.account, h.speaks, fun i hi => hsub (h.acked i hi), hok⟩

theorem reachable_worldInv (h : (worldSystem rt version).Reachable w) : WorldInv version w :=
  h.invariant (fun _ hi => worldInv_init hi) fun _ _ _ hI hs => worldStep_inv hI hs

/-! ## §6. Delivery. -/

/-- A step takes out of the spool, without an acknowledgement, no more samples
than it counts. -/
theorem leaving_le {l : WorldLabel} (h : WorldInv version w)
    (hs : worldStep rt version w l = some w') :
    (w.leaving w').length + w.client.counter ≤ w'.client.counter := by
  cases l with
  | agent l =>
    obtain ⟨-, c', hc', rfl⟩ := worldStep_agent hs
    have hwatch : Accounted (fun _ => True) w.client.queue w.client.counter w.client :=
      h.account.watch.mono fun _ _ => trivial
    have hnext : Accounted (fun _ => True) w.client.queue w.client.counter c' := by
      refine clientStep_accounted hwatch ?_ (fun _ _ _ _ _ _ _ _ => ⟨trivial, trivial⟩) hc'
      intro s now later faults _ q hq hi
      unfold Client.queue at hi
      rw [hq] at hi
      exact hi
    have hsub : w.leaving { w with client := c' } ⊆ c'.disk.box.lost w.client.queue c'.acked := by
      intro i hi
      obtain ⟨hqueue, hgone⟩ := mem_filter.mp hi
      rw [decide_eq_true_eq] at hgone
      exact hnext.missing hqueue hgone.1 hgone.2
    have hle := ((hwatch.box.distinct.filter _).subperm hsub).length_le
    have hcount := hnext.le_counter
    show _ ≤ c'.counter
    exact Nat.le_trans (Nat.add_le_add_right hle _) hcount
  | hub l =>
    obtain ⟨-, h', -, rfl⟩ := worldStep_hub hs
    have hnone : w.leaving { w with hub := h' } = [] := by
      unfold World.leaving
      rw [filter_eq_nil_iff]
      intro i hi
      simp [hi]
    rw [hnone, length_nil, Nat.zero_add]

/-- **Delivery.**  In every run of the agent, the network and the Hub:
no sample is stored twice; the accepted samples that are neither in the spool
nor stored are counted; whatever leaves the spool is acknowledged or counted by
the step that takes it out; the spool is on stable storage; and what is
acknowledged is stored. -/
theorem samples_stored_once_or_counted (h : (worldSystem rt version).Reachable w) :
    w.hub.db.stored.Nodup ∧
    w.unaccounted.length ≤ w.client.counter ∧
    w.client.counter ≤ w.client.disk.box.dropped ∧
    (∀ l w', worldStep rt version w l = some w' →
      (w.leaving w').length + w.client.counter ≤ w'.client.counter) ∧
    (∀ i ∈ w.client.queue, i ∈ w.client.disk.box.safe) ∧
    ∀ i ∈ w.client.acked, i ∈ w.hub.db.stored := by
  have hinv := reachable_worldInv h
  refine ⟨hinv.hub.db.once, ?_, counter_le_dropped _, fun l w' hs => leaving_le hinv hs,
    fun i hi => hinv.account.queue_safe hi, hinv.acked⟩
  -- what is neither queued nor stored is not acknowledged either
  have hsub : w.unaccounted ⊆ w.client.disk.box.lost w.client.accepted w.client.acked := by
    intro i hi
    obtain ⟨haccepted, hgone⟩ := mem_filter.mp hi
    rw [decide_eq_true_eq] at hgone
    exact hinv.account.missing haccepted hgone.1 fun ha => hgone.2 (hinv.acked i ha)
  have hle := ((hinv.account.box.distinct.filter _).subperm hsub).length_le
  have hcount := hinv.account.le_counter
  exact Nat.le_trans hle (by omega)

/-- A report is received twice, the agent loses power with the reply still to
come, and two days later, with the receipt gone, the report comes once more. -/
def resentRun : List WorldLabel :=
  [.agent (.open 0 []), .agent (.collect (bareSample 48) 0 0 []), .agent .stats,
    .agent (.batch 0 []),
    .hub (.receive plainReport .http .slot), .hub (.start 0), .hub (.commit 0 .unknown),
    .hub (.receive plainReport .websocket .slot), .hub (.start 0), .hub (.commit 0 .committed),
    .agent .crash, .agent (.powerLoss [] [] 0 0), .agent (.open 0 []),
    .agent (.reply ⟨[List.replicate 32 48], [], false, 0⟩ [.fail]),
    .hub (.tick 176400000000000), .hub (.cleanup 3600000000000), .hub .restart,
    .hub (.receive plainReport .http .slot)]

/-- The sample of `resentRun` is stored once, its receipt is gone, and it is
still in the spool because its file could not be removed. -/
theorem samples_stored_once_or_counted_resent :
    ∃ w, (worldSystem plainRuntime (ascii "1")).Reachable w ∧
      w.hub.db.stored = [List.replicate 32 48] ∧ w.hub.db.receipts = [] ∧
      w.client.queue = [List.replicate 32 48] ∧
      w.hub.db.stored.Nodup ∧ w.unaccounted.length ≤ w.client.counter := by
  have hrun : ((worldSystem plainRuntime (ascii "1")).run ⟨Client.fresh, Hub.fresh 0⟩
      resentRun).map (fun w => (w.hub.db.stored, w.hub.db.receipts, w.client.queue)) =
      some ([List.replicate 32 48], [], [List.replicate 32 48]) := by decide +kernel
  obtain ⟨w, hw, heq⟩ := map_eq_some_iff.mp hrun
  simp only [Prod.mk.injEq] at heq
  have hreach : (worldSystem plainRuntime (ascii "1")).Reachable w :=
    ⟨⟨Client.fresh, Hub.fresh 0⟩, resentRun, ⟨rfl, 0, rfl⟩, hw⟩
  have hall := samples_stored_once_or_counted hreach
  exact ⟨w, hreach, heq.1, heq.2.1, heq.2.2, hall.1, hall.2.1⟩

end Talus.Agent
