/-
  Talus.Agent.Client
  **THE AGENT PROCESS: COLLECTION, REPORTS, REPLIES, CRASHES.**

  One machine with a label for each thing the two goroutines of `Run` do:

      collect              a sample is captured, added, and becomes `latest`
      stats                the transport loop assembles its message
      heartbeat, batch     it sends the message, without or with samples
      reply                it acknowledges and rejects what a reply names
      health               the health record next to the outbox is rewritten
      open, crash          the process starts and dies
      powerLoss            the machine loses power while no process runs

  The spool's mutex makes each of its methods one step; what the system calls
  in it do is in the label's faults.  A snapshot is kept in `latest` WHETHER OR
  NOT the outbox took it, and the message keeps the snapshot and the numbers
  it was assembled with while other steps go on.

  `collected`, `accepted` and `acked` are history: what was captured, whose
  `Add` returned without an error, and which ids a reply acknowledged.
-/
import Talus.Agent.SpoolSpec
import Talus.Base.Run

namespace Talus.Agent

open Talus.Base Talus.Base.Prog

/-! ## §1. The process. -/

structure Client where
  disk : Disk
  spool : Option Spool
  latest : Option Sample
  draft : Option Request
  sent : List Request
  collected : List Sample
  accepted : List Bytes
  acked : List Bytes
  deriving DecidableEq

/-- A fresh installation: an empty directory and no process. -/
def Client.fresh : Client where
  disk := ⟨⟨[], 0, [], [], []⟩, 0⟩
  spool := none
  latest := none
  draft := none
  sent := []
  collected := []
  accepted := []
  acked := []

/-- The process is gone; the directory, the messages under way and the history
stay. -/
def Client.stopped (c : Client) (d : Disk) : Client :=
  { c with disk := d, spool := none, latest := none, draft := none }

/-- Go on after a method, or not. -/
def Client.settle {α : Type} (c : Client) (e : Ending Disk α) (k : α → Client → Client) : Client :=
  match e with
  | .done a d _ => k a { c with disk := d }
  | .crashed d => c.stopped d

/-- The mark the collection loop leaves on a sample the outbox did not take. -/
def Sample.writeFailed (s : Sample) : Sample :=
  { s with errors := s.errors.insert (ascii "spool") (ascii "write_failed") }

/-- What the transport loop does with the reply to a batch. -/
def Spool.receive (r : Response) (q : Spool) : Prog Disk (Spool × Bool) := do
  let acked ← q.ack r.ack
  if acked.2 ∧ r.rejected ≠ [] then acked.1.reject r.rejected else pure acked

inductive ClientLabel where
  | «open» (now : Int) (faults : List Fault)
  | collect (s : Sample) (now later : Int) (faults : List Fault)
  | stats
  | heartbeat
  | batch (now : Int) (faults : List Fault)
  | reply (r : Response) (faults : List Fault)
  | health (faults : List Fault)
  | crash
  | powerLoss (kept restored : List Bytes) (count temps : Nat)

section

variable (rt : Runtime) (version : Bytes)

/-- The message of the transport loop before a batch is put in it. -/
def message (latest : Option Sample) (q : Spool) : Request where
  protocol := Agent.protocol
  version := version
  kind := .heartbeat
  latest := latest
  samples := []
  pending := q.stats.1
  dropped := q.stats.2

def clientStep (c : Client) : ClientLabel → Option Client
  | .open now faults =>
    match c.spool with
    | some _ => none
    | none =>
      some (c.settle (Spool.openSpool rt now c.disk faults) fun q c => { c with spool := q })
  | .collect s now later faults => do
      let q ← c.spool
      let c := { c with collected := s :: c.collected }
      some (c.settle (q.add rt now later s c.disk faults) fun r c =>
        match r.2 with
        | none => { c with spool := some r.1, latest := some s, accepted := s.id :: c.accepted }
        | some _ => { c with spool := some r.1, latest := some s.writeFailed })
  | .stats => do
      let q ← c.spool
      some { c with draft := some (message version c.latest q) }
  | .heartbeat => do
      let msg ← c.draft
      some { c with sent := msg :: c.sent }
  | .batch now faults => do
      let q ← c.spool
      let msg ← c.draft
      some (c.settle (q.batch now c.disk faults) fun r c =>
        match r.2 with
        | some (s :: rest) =>
          { c with
            spool := some r.1
            draft := none
            sent := { msg with kind := .samples, samples := s :: rest } :: c.sent }
        | _ => { c with spool := some r.1, draft := none })
  | .reply r faults => do
      let q ← c.spool
      let c := { c with acked := r.ack ++ c.acked }
      some (c.settle (q.receive r c.disk faults) fun out c => { c with spool := some out.1 })
  | .health faults => do
      let _ ← c.spool
      -- the rename of the health record changes nothing the outbox looks at,
      -- but the directory is synced after it
      some (c.settle (writeAtomic (fun b => b) c.disk faults) fun _ c => c)
  | .crash => some (c.stopped c.disk)
  | .powerLoss kept restored count temps =>
    if c.spool = none ∧ count ∈ c.disk.box.counters then
      some { c with disk := ⟨c.disk.box.powerLoss kept restored count, temps⟩ }
    else none

def clientSystem : System Client ClientLabel where
  init c := c = Client.fresh
  step := clientStep rt version

/-- What each label does, with the state it needs. -/
inductive ClientMove (c : Client) : ClientLabel → Client → Prop where
  | opened {now : Int} {faults : List Fault} (hspool : c.spool = none) :
      ClientMove c (.open now faults)
        (c.settle (Spool.openSpool rt now c.disk faults) fun q c => { c with spool := q })
  | collected {s : Sample} {now later : Int} {faults : List Fault} {q : Spool}
      (hspool : c.spool = some q) :
      ClientMove c (.collect s now later faults)
        (Client.settle { c with collected := s :: c.collected }
          (q.add rt now later s c.disk faults) fun r c =>
            match r.2 with
            | none => { c with spool := some r.1, latest := some s, accepted := s.id :: c.accepted }
            | some _ => { c with spool := some r.1, latest := some s.writeFailed })
  | drafted {q : Spool} (hspool : c.spool = some q) :
      ClientMove c .stats { c with draft := some (message version c.latest q) }
  | beaten {msg : Request} (hdraft : c.draft = some msg) :
      ClientMove c .heartbeat { c with sent := msg :: c.sent }
  | batched {now : Int} {faults : List Fault} {q : Spool} {msg : Request}
      (hspool : c.spool = some q) (hdraft : c.draft = some msg) :
      ClientMove c (.batch now faults)
        (c.settle (q.batch now c.disk faults) fun r c =>
          match r.2 with
          | some (s :: rest) =>
            { c with
              spool := some r.1
              draft := none
              sent := { msg with kind := .samples, samples := s :: rest } :: c.sent }
          | _ => { c with spool := some r.1, draft := none })
  | replied {r : Response} {faults : List Fault} {q : Spool} (hspool : c.spool = some q) :
      ClientMove c (.reply r faults)
        (Client.settle { c with acked := r.ack ++ c.acked } (q.receive r c.disk faults)
          fun out c => { c with spool := some out.1 })
  | recorded {faults : List Fault} {q : Spool} (hspool : c.spool = some q) :
      ClientMove c (.health faults)
        (c.settle (writeAtomic (fun b => b) c.disk faults) fun _ c => c)
  | crashed : ClientMove c .crash (c.stopped c.disk)
  | lostPower {kept restored : List Bytes} {count temps : Nat} (hspool : c.spool = none)
      (hcount : count ∈ c.disk.box.counters) :
      ClientMove c (.powerLoss kept restored count temps)
        { c with disk := ⟨c.disk.box.powerLoss kept restored count, temps⟩ }

theorem clientStep_move {c c' : Client} {l : ClientLabel}
    (hs : clientStep rt version c l = some c') : ClientMove rt version c l c' := by
  cases l <;> simp only [clientStep, Option.bind_eq_bind, Option.bind_eq_some_iff,
    Option.some.injEq, Option.ite_none_right_eq_some] at hs
  case «open» now faults =>
    split at hs
    · cases hs
    · next hspool =>
      cases hs
      exact .opened hspool
  case powerLoss kept restored count temps =>
    obtain ⟨hcount, rfl⟩ := hs
    exact .lostPower hcount.1 hcount.2
  case crash =>
    cases hs
    exact .crashed
  case heartbeat =>
    obtain ⟨msg, hdraft, rfl⟩ := hs
    exact .beaten hdraft
  case batch now faults =>
    obtain ⟨q, hspool, msg, hdraft, rfl⟩ := hs
    exact .batched hspool hdraft
  case collect s now later faults =>
    obtain ⟨q, hspool, rfl⟩ := hs
    exact .collected hspool
  case stats =>
    obtain ⟨q, hspool, rfl⟩ := hs
    exact .drafted hspool
  case reply r faults =>
    obtain ⟨q, hspool, rfl⟩ := hs
    exact .replied hspool
  case health faults =>
    obtain ⟨q, hspool, rfl⟩ := hs
    exact .recorded hspool

end

/-! ## §2. The ledger of a client. -/

/-- The outbox accounts for the watched ids, running or not. -/
def Accounted (P : Sample → Prop) (base : List Bytes) (n : Nat) (c : Client) : Prop :=
  match c.spool with
  | some q => Ledger P base c.acked n True q c.disk.box
  | none => BoxOk P base c.acked n c.disk.box

variable {rt : Runtime} {version : Bytes} {P : Sample → Prop} {base : List Bytes} {n : Nat}
  {c c' : Client}

theorem Accounted.box (h : Accounted P base n c) : BoxOk P base c.acked n c.disk.box := by
  unfold Accounted at h
  split at h
  · exact h.toBoxOk
  · exact h

theorem Accounted.running {q : Spool} (h : Accounted P base n c) (hq : c.spool = some q) :
    Ledger P base c.acked n True q c.disk.box := by
  unfold Accounted at h
  rw [hq] at h
  exact h

/-- The rule for a method: what holds of the client after what it returns in
and after what it dies in. -/
theorem settle_rule {α : Type} {m : Prog Disk α} {faults : List Fault}
    {k : α → Client → Client} {Q : α → Disk → Prop} {C : Disk → Prop} {R : Client → Prop}
    (hm : wp m Q C c.disk) (hk : ∀ a d, Q a d → R (k a { c with disk := d }))
    (hC : ∀ d, C d → R (c.stopped d)) : R (c.settle (m c.disk faults) k) := by
  unfold Client.settle
  cases hr : m c.disk faults with
  | done a d rest => exact hk a d (wp_done hm hr)
  | crashed d => exact hC d (wp_crashed hm hr)

theorem receive_spec {acked : List Bytes} {q : Spool} {d : Disk} (r : Response)
    (h : Ledger P base acked n True q d.box) (hr : ∀ i ∈ r.ack, i ∈ acked) :
    wp (Spool.receive r q) (fun out d' => Ledger P base acked n True out.1 d'.box)
      (fun d' => BoxOk P base acked n d'.box) d := by
  -- everything acknowledged may leave for free
  have hfree : budget r.ack acked q.entries = 0 := by
    unfold budget
    rw [List.countP_eq_zero]
    intro e _ he
    simp only [decide_eq_true_eq] at he
    exact he.2 (hr _ he.1)
  have hack : wp (Spool.ack r.ack q) (fun out d' => Ledger P base acked n True out.1 d'.box)
      (fun d' => BoxOk P base acked n d'.box) d := by
    refine ack_spec r.ack ?_
    rw [hfree]
    exact h
  refine wp_bind (wp_mono hack ?_ fun _ h' => h')
  intro out d₁ h₁
  split
  · exact reject_spec r.rejected h₁
  · exact wp_pure h₁

/-! ## §3. What a step keeps. -/

/-- A collected sample: the ledger is kept, and if the outbox took the sample
its id is watched from then on. -/
theorem collect_accounted {s : Sample} {now later : Int} {faults : List Fault}
    (h : Accounted P base n c) (hfresh : ∀ q, c.spool = some q → s.id ∈ base → s.id ∈ q.ids)
    (hP : ∀ doc, s.validate now = .ok () → s.marshal rt.codec = some doc → P s ∧ P s.scrub)
    (hs : clientStep rt version c (.collect s now later faults) = some c') :
    Accounted P base n c' ∧
    (c'.accepted = c.accepted ∨
      (c'.accepted = s.id :: c.accepted ∧ Accounted P (s.id :: base) n c')) := by
  cases clientStep_move rt version hs with
  | @collected _ _ _ _ q hspool =>
    refine settle_rule (R := fun c' => Accounted P base n c' ∧ (c'.accepted = c.accepted ∨
        (c'.accepted = s.id :: c.accepted ∧ Accounted P (s.id :: base) n c')))
      (add_spec rt now later s (h.running hspool) (hfresh q hspool) hP) ?_ ?_
    · intro r d hr
      split
      · next hnone => exact ⟨hr.1, Or.inr ⟨rfl, hr.2 hnone⟩⟩
      · exact ⟨hr.1, Or.inl rfl⟩
    · intro d hd
      exact ⟨hd, Or.inl rfl⟩

/-- **Every step of the client keeps the account of every list of watched ids**
that holds no id a collected sample brings in. -/
theorem clientStep_accounted {l : ClientLabel} (h : Accounted P base n c)
    (hfresh : ∀ s now later faults, l = .collect s now later faults →
      ∀ q, c.spool = some q → s.id ∈ base → s.id ∈ q.ids)
    (hP : ∀ s now later faults, l = .collect s now later faults →
      ∀ doc, s.validate now = .ok () → s.marshal rt.codec = some doc → P s ∧ P s.scrub)
    (hs : clientStep rt version c l = some c') : Accounted P base n c' := by
  cases clientStep_move rt version hs with
  | @opened now faults _ =>
    refine settle_rule (openSpool_spec rt now h.box) ?_ fun d hd => hd
    intro q d hq
    cases q with
    | none => exact hq.1
    | some q => exact hq.2 q rfl
  | @collected s now later faults q _ =>
    exact (collect_accounted h (hfresh s now later faults rfl) (hP s now later faults rfl) hs).1
  | drafted _ => exact h
  | beaten _ => exact h
  | @batched now faults q msg hspool _ =>
    refine settle_rule (batch_spec now (h.running hspool)) ?_ fun d hd => hd
    intro r d hr
    split
    · exact hr.1
    · exact hr.1
  | @replied r faults q hspool =>
    have hledger : Ledger P base (r.ack ++ c.acked) n True q c.disk.box :=
      (h.running hspool).mono (fun _ h => h) (List.Sublist.refl _) (List.subset_append_right _ _)
    refine settle_rule (receive_spec r hledger fun i hi => List.mem_append_left _ hi) ?_
      fun d hd => hd
    intro out d hout
    exact hout
  | @recorded faults q hspool =>
    have hrun := h.running hspool
    refine settle_rule (writeAtomic_spec
      (Q := fun _ b => Ledger P base c.acked n True q b) (C := BoxOk P base c.acked n)
      hrun hrun hrun.sync hrun.toBoxOk hrun.toBoxOk) ?_ fun d hd => hd
    intro _ d hd
    unfold Accounted
    rw [hspool]
    exact hd
  | crashed => exact h.box
  | lostPower hspool hcount =>
    unfold Accounted
    rw [hspool]
    exact h.box.powerLoss _ _ hcount

end Talus.Agent
