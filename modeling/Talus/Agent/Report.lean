/-
  Talus.Agent.Report
  **WHICH REPORTS OF THE AGENT THE HUB TAKES.**

  Every report the client has assembled, in every run, carries samples that
  passed `Sample.validate` when they were added (`Checked`), at most
  `maxBatch` of them, under a well-shaped envelope.  What remains open, and
  nothing else, is

    • the snapshot `latest`: it is set whether or not `Add` took it,
    • the frame: no step adds up the sizes of what goes into one report,
    • the texts of the samples: bytes that are not UTF-8 grow on the way,
    • the version and the number of pending samples.

  `report_accepted_iff` says that the Hub takes a report exactly when those
  were in order before it was sent: the version, the snapshot and the counts
  the message was assembled from, and the entries of the outbox that `Batch`
  takes.  `invalid_latest_blocks_backlog` is a run in which the snapshot was
  not.
-/
import Talus.Agent.Client

namespace Talus.Agent

open Talus.Base Talus.Base.Prog List Option

/-! ## §1. The shape of what is sent. -/

/-- What every report has, given what is known of the samples in it. -/
structure Outgoing (P : Sample → Prop) (version : Bytes) (r : Request) : Prop where
  protocol : r.protocol = Agent.protocol
  version : r.version = version
  pending : 0 ≤ r.pending
  shape : (r.kind = .heartbeat ∧ r.samples = []) ∨
    (r.kind = .samples ∧ r.samples ≠ [] ∧ r.samples.length ≤ maxBatch)
  samples : ∀ s ∈ r.samples, P s

/-- The reports sent so far and the one being assembled are in shape. -/
structure Speaks (P : Sample → Prop) (version : Bytes) (c : Client) : Prop where
  sent : ∀ r ∈ c.sent, Outgoing P version r
  draft : ∀ m, c.draft = some m → Outgoing P version m

variable {rt : Runtime} {version : Bytes} {P : Sample → Prop} {base : List Bytes} {n : Nat}
  {c c' : Client}

theorem batchOf_length_le (entries : List QueueEntry) :
    (Spool.batchOf entries).length ≤ maxBatch := by
  unfold Spool.batchOf
  split
  · exact Nat.zero_le _
  · simp only [length_cons, length_map, length_take, maxBatch]
    omega

variable {s : Sample}

theorem mem_batchOf {entries : List QueueEntry} (h : s ∈ Spool.batchOf entries) :
    ∃ e ∈ entries, e.sample = s := by
  unfold Spool.batchOf at h
  split at h
  · cases h
  · next newest hlast =>
    rcases mem_cons.mp h with h | h
    · exact ⟨newest, mem_of_getLast? hlast, h.symm⟩
    · obtain ⟨e, he, hes⟩ := mem_map.mp h
      exact ⟨e, (dropLast_sublist entries).subset (mem_of_mem_take he), hes⟩

/-- A method that sends nothing. -/
theorem settle_speaks {α : Type} {e : Ending Disk α} {k : α → Client → Client}
    (h : Speaks P version c) (hsent : ∀ a c, (k a c).sent = c.sent)
    (hdraft : ∀ a c, (k a c).draft = c.draft) : Speaks P version (c.settle e k) := by
  unfold Client.settle
  cases e with
  | done a d rest =>
    refine ⟨?_, ?_⟩
    · rw [hsent]
      exact h.sent
    · rw [hdraft]
      exact h.draft
  | crashed d => exact ⟨h.sent, fun m hm => by cases hm⟩

/-- A report put in front of the sent ones. -/
theorem Speaks.send {r : Request} (h : Speaks P version c) (hr : Outgoing P version r) :
    ∀ r' ∈ r :: c.sent, Outgoing P version r' := by
  intro r' hr'
  rcases mem_cons.mp hr' with hr' | hr'
  · rw [hr']
    exact hr
  · exact h.sent r' hr'

/-- **Every step of the client sends reports in shape.** -/
theorem clientStep_speaks {l : ClientLabel} (hacc : Accounted P base n c)
    (h : Speaks P version c) (hs : clientStep rt version c l = some c') :
    Speaks P version c' := by
  cases clientStep_move rt version hs with
  | opened _ | recorded _ => exact settle_speaks h (fun _ _ => rfl) fun _ _ => rfl
  | @collected s now later faults q _ =>
    refine settle_speaks (c := { c with collected := s :: c.collected }) ⟨h.sent, h.draft⟩ ?_ ?_
    · intro r c
      split <;> rfl
    · intro r c
      split <;> rfl
  | drafted _ =>
    refine ⟨h.sent, ?_⟩
    intro m hm
    cases hm
    exact ⟨rfl, rfl, Int.natCast_nonneg _, Or.inl ⟨rfl, rfl⟩, fun s hs => by cases hs⟩
  | beaten hdraft => exact ⟨h.send (h.draft _ hdraft), h.draft⟩
  | @batched now faults q msg hspool hdraft =>
    have hmsg := h.draft msg hdraft
    refine settle_rule (R := Speaks P version) (batch_spec now (hacc.running hspool)) ?_ ?_
    · intro r d hr
      split
      · next s rest hbatch =>
        have hof := hr.2 _ hbatch
        refine ⟨h.send ⟨hmsg.protocol, hmsg.version, hmsg.pending,
          Or.inr ⟨rfl, cons_ne_nil _ _, ?_⟩, ?_⟩, fun m hm => by cases hm⟩
        · show (s :: rest).length ≤ maxBatch
          rw [hof]
          exact batchOf_length_le _
        · intro s' hs'
          have hs' : s' ∈ Spool.batchOf r.1.entries := hof ▸ hs'
          obtain ⟨e, he, rfl⟩ := mem_batchOf hs'
          exact hr.1.carried e he
      · exact ⟨h.sent, fun m hm => by cases hm⟩
    · intro d _
      exact ⟨h.sent, fun m hm => by cases hm⟩
  | @replied r faults q _ =>
    exact settle_speaks (c := { c with acked := r.ack ++ c.acked }) ⟨h.sent, h.draft⟩
      (fun _ _ => rfl) fun _ _ => rfl
  | crashed => exact ⟨h.sent, fun m hm => by cases hm⟩
  | lostPower _ _ => exact ⟨h.sent, h.draft⟩

/-! ## §2. The samples in a report. -/

/-- What `Add` has established of a sample and a restart does not undo: the id
and the numbers pass, and the sample can be written. -/
def Checked (codec : Codec) (s : Sample) : Prop :=
  s.Measured ∧ (s.marshal codec).isSome = true

variable {codec : Codec}

theorem checked_of_added {now : Int} {doc : Bytes}
    (hv : s.validate now = .ok ()) (hm : s.marshal codec = some doc) :
    Checked codec s ∧ Checked codec s.scrub := by
  have hmeasured := ((Sample.validate_ok_iff s now).mp hv).1.1
  have hsome : (s.marshal codec).isSome = true := by rw [hm]; rfl
  exact ⟨⟨hmeasured, hsome⟩, hmeasured.scrub, (Sample.marshal_scrub_isSome codec s).mpr hsome⟩

theorem accounted_fresh : Accounted P [] 0 Client.fresh where
  distinct := nodup_nil
  unique := nodup_nil
  filed := fun f hf => by cases hf
  shadow := fun f hf => by cases hf
  persisted := fun v _ => Nat.zero_le v

theorem speaks_fresh : Speaks P version Client.fresh where
  sent := fun r hr => by cases hr
  draft := fun m hm => by cases hm

/-- The reports of every run carry checked samples only. -/
theorem reachable_speaks (h : (clientSystem rt version).Reachable c) :
    Speaks (Checked rt.codec) version c := by
  have key : Accounted (Checked rt.codec) [] 0 c ∧ Speaks (Checked rt.codec) version c := by
    refine h.invariant
      (I := fun c => Accounted (Checked rt.codec) [] 0 c ∧ Speaks (Checked rt.codec) version c) ?_ ?_
    · intro c hc
      rw [hc]
      exact ⟨accounted_fresh, speaks_fresh⟩
    · intro c l c' hI hs
      refine ⟨clientStep_accounted hI.1 ?_ ?_ hs, clientStep_speaks hI.1 hI.2 hs⟩
      · intro s now later faults _ q _ hmem
        cases hmem
      · intro s now later faults _ doc hv hm
        exact checked_of_added hv hm
  exact key.2

/-! ## §3. The size of a frame. -/

/-- The bytes of a sample's document. -/
def Sample.docSize (codec : Codec) (s : Sample) : Nat :=
  ((s.marshal codec).getD []).length

/-- The bytes of a report without its samples, whose kind is still open. -/
def envelopeSize (version : Bytes) (pending : Int) (dropped : Nat) : Nat :=
  55 + (quote version).length + (decimal pending).length + (decimal dropped).length

def snapshotSize (codec : Codec) (latest : Option Sample) : Nat :=
  (latest.toList.map fun s => s.docSize codec + 10).sum

/-- The bytes of the kind and of the batch. -/
def batchSize (codec : Codec) (batch : List Sample) : Nat :=
  if batch = [] then 11 else 9 + ((batch.map fun s => s.docSize codec + 1).sum + 12)

theorem length_member (name : String) (value : Bytes) :
    (member name value).length = (quote (ascii name)).length + 1 + value.length := by
  unfold member
  simp only [length_append, length_cons]
  omega

variable {docs : List Bytes}

/-- The documents of a list of samples that can all be written. -/
theorem mapM_marshal {l : List Sample} (h : l.mapM (Sample.marshal codec) = some docs) :
    docs.map List.length = l.map (Sample.docSize codec) := by
  induction l generalizing docs with
  | nil =>
    rw [mapM_nil] at h
    cases h
    rfl
  | cons s rest ih =>
    rw [mapM_cons] at h
    simp only [Option.bind_eq_bind, Option.bind_eq_some_iff, Option.pure_def,
      Option.some.injEq] at h
    obtain ⟨doc, hdoc, docs', hdocs, rfl⟩ := h
    rw [List.map_cons, List.map_cons, ih hdocs]
    unfold Sample.docSize
    rw [hdoc, Option.getD_some]

theorem mapM_marshal_isSome (codec : Codec) (l : List Sample) :
    (∃ docs, l.mapM (Sample.marshal codec) = some docs) ↔
      ∀ s ∈ l, (s.marshal codec).isSome = true := by
  induction l with
  | nil => simp
  | cons s rest ih =>
    rw [forall_mem_cons, ← ih, isSome_iff_exists, mapM_cons]
    simp [bind_eq_some_iff]

/-- The snapshot is one member of the report or none. -/
theorem snapshot_size {latest : Option Sample}
    (h : latest.toList.mapM (Sample.marshal codec) = some docs) :
    ((docs.map (member "latest")).map List.length).sum + docs.length =
      snapshotSize codec latest := by
  unfold snapshotSize
  have hl := mapM_marshal h
  cases latest with
  | none =>
    rw [map_eq_nil_iff.mp hl]
    rfl
  | some s =>
    obtain ⟨doc, rest, rfl, hdoc, hrest⟩ := map_eq_cons_iff.mp hl
    rw [map_eq_nil_iff.mp hrest]
    simp only [map_cons, map_nil, sum_cons, sum_nil, length_member, hdoc,
      toList_some, length_cons, length_nil]
    show 8 + 1 + _ + 0 + _ = _
    omega

/-- The batch is one member of its own, unless it is empty. -/
theorem batch_size {samples : List Sample} (h : samples.mapM (Sample.marshal codec) = some docs) :
    ((if samples = [] then [] else [member "samples" (array docs)]).map List.length).sum +
        (if samples = [] then [] else [member "samples" (array docs)]).length =
      if samples = [] then 0 else (samples.map fun s => s.docSize codec + 1).sum + 12 := by
  have hs := mapM_marshal h
  split
  · rfl
  · next hne =>
    have hlen : docs.length = samples.length := by
      have := congrArg List.length hs
      rwa [length_map, length_map] at this
    have hpos : 0 < samples.length := length_pos_iff.mpr hne
    have hsum : (samples.map fun s => s.docSize codec + 1).sum =
        (samples.map (Sample.docSize codec)).sum + samples.length := by
      rw [sum_map_add]
      simp
    simp only [map_cons, map_nil, sum_cons, sum_nil, length_member,
      length_array, length_cons, length_nil, hs, hsum]
    show 9 + 1 + _ + 0 + _ = _
    omega

/-- **The length of a report's document.** -/
theorem length_marshal {r : Request} {doc : Bytes} (hout : Outgoing P version r)
    (h : r.marshal codec = some doc) :
    doc.length = envelopeSize r.version r.pending r.dropped + snapshotSize codec r.latest +
      batchSize codec r.samples := by
  unfold Request.marshal at h
  simp only [Option.bind_eq_bind, Option.bind_eq_some_iff, Option.pure_def, Option.some.injEq] at h
  obtain ⟨latest, hlatest, samples, hsamples, rfl⟩ := h
  have hkind : (quote r.kind.text).length = if r.samples = [] then 11 else 9 := by
    rcases hout.shape with ⟨hkind, hnil⟩ | ⟨hkind, hne, -⟩
    · rw [hkind, if_pos hnil]
      rfl
    · rw [hkind, if_neg hne]
      rfl
  have hbatch : batchSize codec r.samples = (if r.samples = [] then 11 else 9) +
      if r.samples = [] then 0 else (r.samples.map fun s => s.docSize codec + 1).sum + 12 := by
    unfold batchSize
    split <;> rfl
  unfold envelopeSize
  rw [length_object, ← snapshot_size hlatest, hbatch, ← batch_size hsamples, ← hkind,
    hout.protocol]
  simp only [List.map_append, List.map_cons, List.map_nil, List.sum_append, List.sum_cons,
    sum_nil, length_append, length_cons, length_nil, length_member,
    length_map]
  -- the names of the members, quoted
  have h₁ : (quote (ascii "protocol")).length = 10 := rfl
  have h₂ : (quote (ascii "version")).length = 9 := rfl
  have h₃ : (quote (ascii "kind")).length = 6 := rfl
  have h₄ : (quote (ascii "pending")).length = 9 := rfl
  have h₅ : (quote (ascii "dropped")).length = 9 := rfl
  have h₆ : (decimal Agent.protocol).length = 1 := rfl
  omega

/-! ## §4. A concrete agent. -/

/-- A runtime whose doubles and instants all have the same text. -/
def plainRuntime : Runtime where
  codec := ⟨fun _ => ascii "0", fun _ => some (quote (ascii "2026-01-01T00:00:00Z"))⟩
  sort := List.insertionSort fun a b => a.sample.time ≤ b.sample.time
  sort_perm := List.perm_insertionSort _
  sort_sorted := List.pairwise_insertionSort _

/-- A sample that measures nothing. -/
def bareSample (digit : UInt8) : Sample where
  id := List.replicate 32 digit
  bootID := ascii "boot"
  time := 0
  cpu := none
  memoryUsed := none
  memoryTotal := none
  swapUsed := none
  swapTotal := none
  diskUsed := none
  diskTotal := none
  load1 := none
  load5 := none
  load15 := none
  netRecv := none
  netSent := none
  diskRead := none
  diskWrite := none
  uptime := none
  os := none
  cpuModel := none
  kernel := none
  errors := .empty

/-- One sample is queued and is to go out with itself as the snapshot. -/
def plainRun : List ClientLabel := [.open 0 [], .collect (bareSample 48) 0 0 [], .stats]

/-- The report with the batch that follows. -/
def plainReport : Request where
  protocol := Agent.protocol
  version := ascii "1"
  kind := .samples
  latest := some (bareSample 48)
  samples := [bareSample 48]
  pending := 1
  dropped := 0

/-! ## §5. Acceptance. -/

theorem marshal_exists_iff (codec : Codec) (r : Request) :
    (∃ doc, r.marshal codec = some doc) ↔ ∀ s ∈ r.carried, (s.marshal codec).isSome = true := by
  unfold Request.carried
  rw [forall_mem_append, ← mapM_marshal_isSome, ← mapM_marshal_isSome]
  unfold Request.marshal
  simp [bind_eq_some_iff]

/-- A sample whose numbers pass can be written if its time can. -/
theorem Sample.Measured.writable (h : s.Measured)
    (ht : (codec.timeText s.time).isSome = true) : (s.marshal codec).isSome = true := by
  refine (Sample.marshal_isSome codec s).mpr ⟨ht, ?_⟩
  rw [List.any_eq_false]
  intro v hv hbad
  have hgood := any_eq_false.mp h.metrics v hv
  exact hgood (by unfold badMetric; rw [hbad]; rfl)

/-- What is asked of the version, the snapshot, the counts and the entries that
go into a report. -/
structure InOrder (codec : Codec) (t : Transport) (version : Bytes) (latest : Option Sample)
    (pending : Int) (dropped : Nat) (batch : List Sample) : Prop where
  /-- The version is there and short enough. -/
  named : version ≠ [] ∧ (scrub version).length ≤ 128
  /-- The backlog is within the bound of the protocol. -/
  backlog : pending ≤ 100000
  /-- The snapshot, taken by the outbox or not, can be written and is valid. -/
  snapshot : ∀ s, latest = some s →
    (codec.timeText s.time).isSome = true ∧ s.scrub.Measured ∧ s.scrub.Legible
  /-- The texts of the entries are still short enough when they arrive. -/
  texts : ∀ s ∈ batch, s.scrub.Legible
  /-- All of it fits in one frame. -/
  bytes : envelopeSize version pending dropped + snapshotSize codec latest +
    batchSize codec batch + t.trailer ≤ maxFrame

/-- Of a report in shape, nothing else is checked. -/
theorem Outgoing.accepted_iff {r : Request} (hout : Outgoing (Checked codec) version r)
    (t : Transport) (now : Int) : r.accepted codec t now = true ↔
      InOrder codec t r.version r.latest r.pending r.dropped r.samples := by
  rw [Request.accepted_iff, Request.validate_ok_iff, Request.carried_scrub]
  constructor
  · intro hacc
    obtain ⟨⟨doc, hdoc, hframe⟩, henv, hall⟩ := hacc
    have hwritable := (marshal_exists_iff codec r).mp ⟨doc, hdoc⟩
    have hsound : ∀ s ∈ r.carried, s.scrub.Measured ∧ s.scrub.Legible :=
      fun s hs => hall s.scrub (mem_map_of_mem hs)
    refine ⟨⟨?_, henv.version.2⟩, henv.pending.2, ?_, ?_, ?_⟩
    · intro hnil
      have hne : scrub r.version ≠ [] := henv.version.1
      rw [hnil] at hne
      exact hne rfl
    · intro s hs
      have hmem : s ∈ r.carried := mem_append_left _ (by rw [hs]; exact mem_cons_self)
      exact ⟨((Sample.marshal_isSome codec s).mp (hwritable s hmem)).1, hsound s hmem⟩
    · intro s hs
      exact (hsound s (mem_append_right _ hs)).2
    · rw [← length_marshal hout hdoc]
      exact hframe
  · intro hord
    -- the batch was checked when it was added, the snapshot is by assumption
    have hwritable : ∀ s ∈ r.carried, (s.marshal codec).isSome = true := by
      intro s hs
      rcases mem_append.mp hs with hs | hs
      · obtain ⟨htime, hmeasured, -⟩ := hord.snapshot s (mem_toList.mp hs)
        exact (Sample.marshal_scrub_isSome codec s).mp (hmeasured.writable htime)
      · exact (hout.samples s hs).2
    obtain ⟨doc, hdoc⟩ := (marshal_exists_iff codec r).mpr hwritable
    refine ⟨⟨doc, hdoc, ?_⟩, ⟨hout.protocol, ⟨scrub_ne_nil hord.named.1, hord.named.2⟩,
      ⟨hout.pending, hord.backlog⟩, ?_⟩, ?_⟩
    · rw [length_marshal hout hdoc]
      exact hord.bytes
    · simpa [Request.scrub] using hout.shape
    · intro s' hs'
      obtain ⟨s, hs, rfl⟩ := mem_map.mp hs'
      rcases mem_append.mp hs with hs | hs
      · exact (hord.snapshot s (mem_toList.mp hs)).2
      · exact ⟨(hout.samples s hs).1.scrub, hord.texts s hs⟩

/-! ## §6. What a report is made of. -/

/-- The entries that pruning leaves: from the front, those go that are too old
and those that are over the byte limit. -/
def survivors (cutoff : Int) : List QueueEntry → Int → List QueueEntry
  | [], _ => []
  | e :: rest, bytes =>
    if (maxQueueBytes : Int) < bytes ∨ e.sample.time < cutoff then
      survivors cutoff rest (bytes - e.size)
    else e :: rest

theorem pruneLoop_survivors (cutoff : Int) (entries : List QueueEntry) :
    ∀ (bytes : Int) (dropped : Nat) (d : Disk),
      wp (Spool.pruneLoop cutoff entries bytes dropped)
        (fun r _ => r.2 = true → r.1.entries = survivors cutoff entries bytes)
        (fun _ => True) d := by
  induction entries with
  | nil => exact fun _ _ _ => wp_pure fun _ => rfl
  | cons e rest ih =>
    intro bytes dropped d
    unfold Spool.pruneLoop survivors
    split
    · refine wp_bind (wp_mono (wp_true _ d) ?_ fun _ h => h)
      rintro written d₁ -
      split
      · refine wp_bind (wp_attempt (ih _ _ _) (wp_pure fun hok => ?_) trivial)
        exact absurd hok Bool.false_ne_true
      · exact wp_pure fun hok => absurd hok Bool.false_ne_true
    · exact wp_pure fun _ => rfl

/-- **A batch is taken from the entries that pruning leaves.** -/
theorem batch_survivors (now : Int) (q : Spool) (d : Disk) :
    wp (Spool.batch now q)
      (fun r _ => ∀ samples, r.2 = some samples →
        samples = Spool.batchOf (survivors (now - maxAge) q.entries q.bytes))
      (fun _ => True) d := by
  have hprune : wp (Spool.prune now q) (fun r _ => r.2 = true →
      r.1.entries = survivors (now - maxAge) q.entries q.bytes) (fun _ => True) d := by
    refine wp_bind (wp_mono (pruneLoop_survivors _ q.entries q.bytes q.dropped d) ?_ fun _ h => h)
    intro r d₁ hr
    split
    · next hok => exact wp_bind (wp_attempt (wp_pure fun _ => hr hok) (wp_pure nofun) trivial)
    · exact wp_pure hr
  refine wp_bind (wp_mono hprune ?_ fun _ h => h)
  intro r d₁ hr
  refine wp_pure fun samples hsamples => ?_
  split at hsamples
  · next hok => rw [← some.inj hsamples, hr hok]
  · cases hsamples

/-- The samples that a step takes from the outbox into a report. -/
def Client.taken (c : Client) : ClientLabel → List Sample
  | .batch now _ =>
    c.spool.elim [] fun q => Spool.batchOf (survivors (now - maxAge) q.entries q.bytes)
  | _ => []

/-- Settling a method keeps what was sent, or puts one report in front. -/
theorem settle_sent {α : Type} {e : Ending Disk α} {k : α → Client → Client}
    (hsent : ∀ a c, (k a c).sent = c.sent) : (c.settle e k).sent = c.sent := by
  unfold Client.settle
  cases e with
  | done a d rest => exact hsent a _
  | crashed d => rfl

/-- **The step that sends a report**: it is the message under way, with what
the step takes from the outbox. -/
theorem clientStep_sends {l : ClientLabel} {r : Request} (hs : clientStep rt version c l = some c')
    (hsent : c'.sent = r :: c.sent) :
    ∃ msg, c.draft = some msg ∧ r.latest = msg.latest ∧ r.pending = msg.pending ∧
      r.dropped = msg.dropped ∧ (msg.samples = [] → r.samples = c.taken l) := by
  have hnone : c'.sent = c.sent → False := by
    intro hsame
    rw [hsame] at hsent
    exact absurd (congrArg List.length hsent) (by simp)
  cases clientStep_move rt version hs with
  | opened _ | recorded _ => exact (hnone (settle_sent fun _ _ => rfl)).elim
  | @collected s now later faults q _ =>
    refine (hnone ((settle_sent fun r c => ?_).trans rfl)).elim
    split <;> rfl
  | @replied r faults q _ => exact (hnone (settle_sent (c := { c with acked := r.ack ++ c.acked })
      fun _ _ => rfl)).elim
  | drafted _ | crashed | lostPower _ _ => exact (hnone rfl).elim
  | beaten hdraft =>
    cases hsent
    exact ⟨r, hdraft, rfl, rfl, rfl, fun hnil => hnil⟩
  | @batched now faults q msg hspool hdraft =>
    refine ⟨msg, hdraft, ?_⟩
    have hrule := batch_survivors now q c.disk
    unfold Client.settle at hsent hnone
    cases hrun : Spool.batch now q c.disk faults with
    | crashed d =>
      rw [hrun] at hnone
      exact (hnone rfl).elim
    | done a d rest =>
      rw [hrun] at hsent hnone
      have htaken := wp_done hrule hrun
      dsimp only at hsent hnone
      split at hsent
      · next s rest hbatch =>
        cases hsent
        refine ⟨rfl, rfl, rfl, fun _ => ?_⟩
        unfold Client.taken
        rw [hspool]
        exact htaken _ hbatch
      · next hbatch =>
        refine (hnone ?_).elim
        split
        · next s rest hsome => exact absurd hsome (hbatch s rest)
        · rfl

/-- The message under way was assembled in a state of the run. -/
def Drafted (rt : Runtime) (version : Bytes) (c : Client) : Prop :=
  ∀ msg, c.draft = some msg → ∃ c₀ q, (clientSystem rt version).Reachable c₀ ∧
    c₀.spool = some q ∧ msg = message version c₀.latest q

theorem settle_drafted {α : Type} {e : Ending Disk α} {k : α → Client → Client}
    (h : Drafted rt version c)
    (hdraft : ∀ a c, (k a c).draft = c.draft ∨ (k a c).draft = none) :
    Drafted rt version (c.settle e k) := by
  unfold Client.settle
  cases e with
  | done a d rest =>
    intro msg hmsg
    rcases hdraft a { c with disk := d } with hsame | hnone
    · exact h msg (hsame.symm.trans hmsg)
    · rw [hnone] at hmsg
      cases hmsg
  | crashed d => exact fun msg hmsg => by cases hmsg

theorem drafted_step {l : ClientLabel} (hreach : (clientSystem rt version).Reachable c)
    (h : Drafted rt version c) (hs : clientStep rt version c l = some c') :
    Drafted rt version c' := by
  cases clientStep_move rt version hs with
  | opened _ | recorded _ => exact settle_drafted h fun _ _ => .inl rfl
  | @collected s now later faults q _ =>
    refine settle_drafted (c := { c with collected := s :: c.collected }) h fun r c => .inl ?_
    split <;> rfl
  | @replied r faults q _ =>
    exact settle_drafted (c := { c with acked := r.ack ++ c.acked }) h fun _ _ => .inl rfl
  | @drafted q hspool =>
    intro msg hmsg
    exact ⟨c, q, hreach, hspool, (some.inj hmsg).symm⟩
  | beaten _ | lostPower _ _ => exact h
  | @batched now faults q msg _ _ =>
    refine settle_drafted h fun r c => .inr ?_
    split <;> rfl
  | crashed => exact fun msg hmsg => by cases hmsg

theorem reachable_drafted (h : (clientSystem rt version).Reachable c) : Drafted rt version c := by
  refine (h.invariant (I := fun c => (clientSystem rt version).Reachable c ∧ Drafted rt version c)
    (fun c hc => ⟨System.reachable_init hc, ?_⟩) fun c l c' hI hs =>
      ⟨hI.1.step hs, drafted_step hI.1 hI.2 hs⟩).2
  rw [show c = Client.fresh from hc]
  exact fun msg hmsg => by cases hmsg

/-! ## §7. Which reports the Hub takes. -/

/-- **Which reports the Hub takes.**  In every run of the agent, whatever was
collected, added, pruned, acknowledged or lost: a report that a step sends was
assembled from the snapshot and the counts of a state before it, and it is
accepted, at any time and over either transport, exactly when these, the
version and the entries the step takes from the outbox are in order. -/
theorem report_accepted_iff (h : (clientSystem rt version).Reachable c) {l : ClientLabel}
    {r : Request} (hs : clientStep rt version c l = some c') (hsent : c'.sent = r :: c.sent) :
    ∃ c₀ q, (clientSystem rt version).Reachable c₀ ∧ c₀.spool = some q ∧
      c.draft = some (message version c₀.latest q) ∧
      ∀ t now, r.accepted rt.codec t now = true ↔
        InOrder rt.codec t version c₀.latest q.entries.length q.dropped (c.taken l) := by
  obtain ⟨msg, hdraft, hlatest, hpending, hdropped, hsamples⟩ := clientStep_sends hs hsent
  obtain ⟨c₀, q, hreach, hspool, rfl⟩ := reachable_drafted h msg hdraft
  refine ⟨c₀, q, hreach, hspool, hdraft, fun t now => ?_⟩
  have hout := (reachable_speaks (h.step hs)).sent r (by rw [hsent]; exact mem_cons_self)
  rw [hout.accepted_iff, hout.version, hlatest, hpending, hdropped, hsamples rfl]
  rfl

/-- A report that is in order. -/
theorem report_accepted_iff_plain :
    plainReport.accepted plainRuntime.codec .websocket 0 = true ∧
      ∃ c₀ q, (clientSystem plainRuntime (ascii "1")).Reachable c₀ ∧ c₀.spool = some q ∧
        InOrder plainRuntime.codec .websocket (ascii "1") c₀.latest q.entries.length q.dropped
          [bareSample 48] := by
  have hrun : (clientSystem plainRuntime (ascii "1")).run Client.fresh plainRun = some _ := rfl
  have hacc : plainReport.accepted plainRuntime.codec .websocket 0 = true := by decide +kernel
  obtain ⟨c₀, q, hreach, hspool, -, hiff⟩ := report_accepted_iff (r := plainReport)
    (l := .batch 0 []) ⟨Client.fresh, plainRun, rfl, hrun⟩ rfl rfl
  exact ⟨hacc, c₀, q, hreach, hspool, (hiff .websocket 0).mp hacc⟩

/-- More memory in use than there is. -/
def overfullSample : Sample :=
  { bareSample 49 with memoryUsed := some 2, memoryTotal := some 1 }

/-- One good sample is queued, an invalid one is refused by the outbox and
becomes the snapshot all the same, and the backlog goes out with it. -/
def blockedRun : List ClientLabel :=
  [.open 0 [], .collect (bareSample 48) 0 0 [], .collect overfullSample 0 0 [], .stats, .batch 0 []]

/-- The report of `blockedRun`. -/
def blockedReport : Request :=
  { plainReport with latest := some overfullSample.writeFailed }

/-- **An invalid snapshot blocks a valid backlog**: the report is refused at
all times and over both transports, and would be taken without the snapshot. -/
theorem invalid_latest_blocks_backlog :
    (∃ c, (clientSystem plainRuntime (ascii "1")).Reachable c ∧ blockedReport ∈ c.sent) ∧
    (∀ t now, blockedReport.accepted plainRuntime.codec t now = false) ∧
    ∀ t, ({ blockedReport with latest := none } : Request).accepted plainRuntime.codec t 0
      = true := by
  have hrun : (clientSystem plainRuntime (ascii "1")).run Client.fresh blockedRun = some _ := rfl
  refine ⟨⟨_, ⟨Client.fresh, blockedRun, rfl, hrun⟩, ?_⟩, ?_, ?_⟩
  · exact mem_cons_self
  · intro t now
    -- the snapshot fails the comparison of used and total whatever the clock
    have hbad : ¬ overfullSample.writeFailed.scrub.Measured :=
      fun hm => absurd hm.usages (by decide)
    rw [Bool.eq_false_iff]
    intro hacc
    have hvalid := ((Request.accepted_iff _ t now blockedReport).mp hacc).2
    exact hbad (((Request.validate_ok_iff _ now).mp hvalid).2 _ mem_cons_self).1
  · intro t
    cases t <;> decide +kernel

end Talus.Agent
