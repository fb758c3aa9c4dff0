/-
  Talus.Agent.Hub
  **THE HUB'S END: VALIDATE, DEDUPLICATE, STORE, ANSWER, FORGET.**

  A report that passes the frame limit and `Request.validate` goes through
  `ResidentMonitor.receive` and, if it has samples inside the window, through
  `AgentNodeRepo.Ingest`: one transaction that writes a receipt per sample id
  and inserts a metric only where the receipt is new.  `Cleanup` deletes old
  receipts, and a restart forgets the requests in progress.

  KEY FACT (`DatabaseOk`): a stored sample still has its receipt, or its
  capture time is so long ago that no validator will take it again:

      receipt kept for     48 h after it was written
      sample accepted up to 25 h after its capture, 5 min before it
      transaction           10 s

  so a second insertion would need a sample to be at once older than
  48 h − 5 min and younger than 25 h + 10 s.
-/
import Talus.Agent.Wire
import Talus.Base.Run

namespace Talus.Agent

open Talus.Base List Option

/-! ## §1. The tables. -/

/-- How long a receipt is kept. -/
def receiptRetention : Int := 48 * hour

/-- The timeout of the context a request is handled in. -/
def requestTimeout : Int := 10 * second

/-- A row of the receipt table for one server; the id is its key. -/
structure Receipt where
  sampleID : Bytes
  receivedAt : Int
  deriving DecidableEq

/-- The receipt table, and the metrics inserted so far, each by the sample it
was made from. -/
structure Database where
  receipts : List Receipt
  metrics : List Sample
  deriving DecidableEq

namespace Database

/-- The ids of the stored samples. -/
def stored (db : Database) : List Bytes := db.metrics.map Sample.id

/-- Write the receipt unless there is one; a new receipt comes with the metric. -/
def record (now : Int) (s : Sample) (db : Database) : Database :=
  if ∃ r ∈ db.receipts, r.sampleID = s.id then db
  else ⟨⟨s.id, now⟩ :: db.receipts, s :: db.metrics⟩

/-- The transaction of `Ingest`: the first sample that does not validate undoes
all of it. -/
def ingest (now : Int) : List Sample → Database → Except WireError Database
  | [], db => .ok db
  | s :: rest, db =>
    match s.validate now with
    | .error e => .error e
    | .ok () => ingest now rest (db.record now s)

/-- `Cleanup`. -/
def cleanup (cutoff : Int) (db : Database) : Database :=
  { db with receipts := db.receipts.filter fun r => ¬ r.receivedAt < cutoff }

end Database

/-! ## §2. Requests in progress. -/

/-- A report on its way into the tables: the samples inside the window, the
ids of the others, the clock when `receive` read it and when `Ingest` did. -/
structure Ingestion where
  valid : List Sample
  rejected : List Bytes
  received : Int
  started : Option Int
  deriving DecidableEq

structure Hub where
  clock : Int
  db : Database
  ingestions : List Ingestion
  replies : List Response

def Hub.fresh (clock : Int) : Hub := ⟨clock, ⟨[], []⟩, [], []⟩

/-- What `receive` finds: the credential or the connection is no longer the
current one, no write slot is free, or there is one. -/
inductive Handling where
  | refused
  | busy
  | slot
  deriving DecidableEq

/-- What becomes of a transaction that takes effect: it is reported as
committed, its commit is reported as failed, or the node is gone by then. -/
inductive Outcome where
  | committed
  | unknown
  | gone
  deriving DecidableEq

inductive HubLabel where
  | tick (d : Nat)
  | receive (r : Request) (t : Transport) (handling : Handling)
  | start (k : Nat)
  | commit (k : Nat) (outcome : Outcome)
  | abort (k : Nat) (gone : Bool)
  | cleanup (cutoff : Int)
  | restart

def Hub.answer (h : Hub) (r : Response) : Hub := { h with replies := r :: h.replies }

/-- `receive` up to the transaction, on a decoded and validated report. -/
def Hub.receive (h : Hub) (req : Request) (handling : Handling) : Hub :=
  let late := req.samples.filter fun s => s.validate h.clock = .error .sampleTime
  let valid := req.samples.filter fun s => s.validate h.clock ≠ .error .sampleTime
  let rejected := late.map Sample.id
  if handling = .refused then h.answer ⟨[], [], true, h.clock⟩
  else if req.kind = .heartbeat then h.answer ⟨[], [], false, h.clock⟩
  else if valid = [] then h.answer ⟨[], rejected, false, h.clock⟩
  else if handling = .busy then h.answer ⟨[], rejected, true, h.clock⟩
  else { h with ingestions := ⟨valid, rejected, h.clock, none⟩ :: h.ingestions }

/-- The reply to a request whose transaction took effect. -/
def Ingestion.reply (j : Ingestion) : Outcome → Response
  | .committed => ⟨j.valid.map Sample.id, j.rejected, false, j.received⟩
  | .unknown => ⟨[], j.rejected, true, j.received⟩
  | .gone => ⟨[], j.rejected, false, j.received⟩

def hubStep (codec : Codec) (h : Hub) : HubLabel → Option Hub
  | .tick d => some { h with clock := h.clock + d }
  | .receive r t handling =>
    if r.accepted codec t h.clock then some (h.receive r.scrub handling) else none
  | .start k => do
      let j ← h.ingestions[k]?
      if j.started = none then
        some { h with ingestions := h.ingestions.set k { j with started := some h.clock } }
      else none
  | .commit k outcome => do
      let j ← h.ingestions[k]?
      let now ← j.started
      -- the transaction is bound to the context of the request
      if h.clock ≤ j.received + requestTimeout then
        match Database.ingest now j.valid h.db with
        | .error _ => none
        | .ok db =>
          some (Hub.answer { h with db := db, ingestions := h.ingestions.eraseIdx k }
            (j.reply outcome))
      else none
  | .abort k gone => do
      let j ← h.ingestions[k]?
      some (Hub.answer { h with ingestions := h.ingestions.eraseIdx k }
        ⟨[], j.rejected, !gone, j.received⟩)
  | .cleanup cutoff =>
    if cutoff ≤ h.clock - receiptRetention then some { h with db := h.db.cleanup cutoff }
    else none
  | .restart => some { h with ingestions := [] }

/-! ## §3. The tables' invariant. -/

/-- `T i t` says that the sample with id `i` was captured at `t`. -/
structure DatabaseOk (T : Bytes → Int → Prop) (clock : Int) (db : Database) : Prop where
  /-- No sample is stored twice. -/
  once : db.stored.Nodup
  known : ∀ m ∈ db.metrics, T m.id m.time
  /-- A stored sample has its receipt or is too old to be taken again. -/
  receipted : ∀ m ∈ db.metrics,
    (∃ r ∈ db.receipts, r.sampleID = m.id ∧ m.time ≤ r.receivedAt + futureWindow) ∨
      m.time + receiptRetention - futureWindow < clock
  /-- A receipt stands for a stored sample. -/
  backed : ∀ r ∈ db.receipts, r.sampleID ∈ db.stored

namespace DatabaseOk

variable {T T' : Bytes → Int → Prop} {clock clock' now : Int} {db db' : Database} {s : Sample}

theorem mono (h : DatabaseOk T clock db) (hT : ∀ i t, T i t → T' i t) (hc : clock ≤ clock') :
    DatabaseOk T' clock' db where
  __ := h
  known := fun m hm => hT _ _ (h.known m hm)
  receipted := by
    intro m hm
    rcases h.receipted m hm with hr | hold
    · exact Or.inl hr
    · exact Or.inr (by omega)

/-- **The one insertion**: a sample inside the window of a transaction that
started at most the request timeout ago. -/
theorem record (h : DatabaseOk T clock db) (hT : ∀ i t t', T i t → T i t' → t = t')
    (hs : T s.id s.time) (hw : s.InWindow now) (hnow : clock ≤ now + requestTimeout) :
    DatabaseOk T clock (db.record now s) ∧ s.id ∈ (db.record now s).stored := by
  unfold Database.record
  split
  · next hr =>
    obtain ⟨r, hr, hid⟩ := hr
    exact ⟨h, hid ▸ h.backed r hr⟩
  · next hnone =>
    -- without a receipt the sample is not stored: it would be too old
    have hnew : s.id ∉ db.stored := by
      intro hmem
      obtain ⟨m, hm, hid⟩ := mem_map.mp hmem
      have htime : m.time = s.time := hT s.id m.time s.time (hid ▸ h.known m hm) hs
      rcases h.receipted m hm with ⟨r, hr, hrid, -⟩ | hold
      · exact hnone ⟨r, hr, hrid.trans hid⟩
      · have hpast : now - pastWindow ≤ s.time := hw.1
        rw [htime] at hold
        simp only [receiptRetention, futureWindow, pastWindow, requestTimeout, maxAge, hour,
          minute, second] at hold hpast hnow
        omega
    refine ⟨⟨nodup_cons.mpr ⟨hnew, h.once⟩, ?_, ?_, ?_⟩, mem_cons_self⟩
    · intro m hm
      rcases mem_cons.mp hm with hm | hm
      · rw [hm]
        exact hs
      · exact h.known m hm
    · intro m hm
      rcases mem_cons.mp hm with hm | hm
      · rw [hm]
        exact Or.inl ⟨⟨s.id, now⟩, mem_cons_self, rfl, hw.2⟩
      · rcases h.receipted m hm with ⟨r, hr, hrest⟩ | hold
        · exact Or.inl ⟨r, mem_cons_of_mem _ hr, hrest⟩
        · exact Or.inr hold
    · intro r hr
      rcases mem_cons.mp hr with hr | hr
      · rw [hr]
        exact mem_cons_self
      · exact mem_cons_of_mem _ (h.backed r hr)

end DatabaseOk

theorem stored_subset_record (now : Int) (s : Sample) (db : Database) :
    db.stored ⊆ (db.record now s).stored := by
  unfold Database.record
  split
  · exact List.Subset.refl _
  · exact subset_cons_self _ _

theorem stored_subset_ingest {now : Int} {l : List Sample} : ∀ {db db' : Database},
    Database.ingest now l db = .ok db' → db.stored ⊆ db'.stored := by
  induction l with
  | nil =>
    intro db db' hi
    injection hi with hi
    rw [hi]
    exact List.Subset.refl _
  | cons s rest ih =>
    intro db db' hi
    unfold Database.ingest at hi
    split at hi
    · cases hi
    · exact List.Subset.trans (stored_subset_record now s db) (ih hi)

/-- **A whole transaction**: the tables stay in order, and every sample of it
is stored afterwards. -/
theorem DatabaseOk.ingest {T : Bytes → Int → Prop} {clock now : Int} {l : List Sample}
    (hT : ∀ i t t', T i t → T i t' → t = t') (hl : ∀ s ∈ l, T s.id s.time)
    (hnow : clock ≤ now + requestTimeout) : ∀ {db db' : Database}, DatabaseOk T clock db →
      Database.ingest now l db = .ok db' →
      DatabaseOk T clock db' ∧ ∀ s ∈ l, s.id ∈ db'.stored := by
  induction l with
  | nil =>
    intro db db' h hi
    cases hi
    exact ⟨h, fun s hs => by cases hs⟩
  | cons s rest ih =>
    intro db db' h hi
    unfold Database.ingest at hi
    split at hi
    · cases hi
    next hv =>
    have hw := ((Sample.validate_ok_iff s now).mp hv).2
    obtain ⟨hrec, hin⟩ := h.record hT (hl s mem_cons_self) hw hnow
    obtain ⟨hok, hrest⟩ := ih (fun x hx => hl x (mem_cons_of_mem s hx)) hrec hi
    refine ⟨hok, ?_⟩
    intro x hx
    rcases mem_cons.mp hx with hx | hx
    · rw [hx]
      exact stored_subset_ingest hi hin
    · exact hrest x hx

/-- **Forgetting receipts**: what loses its receipt is out of every window. -/
theorem DatabaseOk.cleanup {T : Bytes → Int → Prop} {clock cutoff : Int} {db : Database}
    (h : DatabaseOk T clock db) (hc : cutoff ≤ clock - receiptRetention) :
    DatabaseOk T clock (db.cleanup cutoff) where
  once := h.once
  known := h.known
  receipted := by
    intro m hm
    rcases h.receipted m hm with ⟨r, hr, hid, htime⟩ | hold
    · by_cases hkept : r.receivedAt < cutoff
      · exact Or.inr (by omega)
      · exact Or.inl ⟨r, mem_filter.mpr ⟨hr, by simpa using hkept⟩, hid, htime⟩
    · exact Or.inr hold
  backed := fun r hr => h.backed r (mem_filter.mp hr).1

/-! ## §4. The Hub's invariant. -/

/-- A request in progress: its samples are known, and its clock readings are in
order. -/
structure IngestionOk (T : Bytes → Int → Prop) (clock : Int) (j : Ingestion) : Prop where
  known : ∀ s ∈ j.valid, T s.id s.time
  received : j.received ≤ clock
  started : ∀ t, j.started = some t → j.received ≤ t

structure HubOk (T : Bytes → Int → Prop) (h : Hub) : Prop where
  db : DatabaseOk T h.clock h.db
  ingestions : ∀ j ∈ h.ingestions, IngestionOk T h.clock j
  /-- Only stored samples are acknowledged. -/
  replies : ∀ r ∈ h.replies, ∀ i ∈ r.ack, i ∈ h.db.stored

variable {T T' : Bytes → Int → Prop} {codec : Codec} {h h' : Hub}

theorem HubOk.mono (hok : HubOk T h) (hT : ∀ i t, T i t → T' i t) : HubOk T' h where
  db := hok.db.mono hT (Int.le_refl _)
  ingestions := fun j hj =>
    { hok.ingestions j hj with known := fun s hs => hT _ _ ((hok.ingestions j hj).known s hs) }
  replies := hok.replies

theorem HubOk.answer {r : Response} (hok : HubOk T h) (hr : ∀ i ∈ r.ack, i ∈ h.db.stored) :
    HubOk T (h.answer r) where
  __ := hok
  replies := by
    intro r' hr'
    rcases mem_cons.mp hr' with hr' | hr'
    · rw [hr']
      exact hr
    · exact hok.replies r' hr'

theorem receive_db (h : Hub) (req : Request) (handling : Handling) :
    (h.receive req handling).db = h.db := by
  unfold Hub.receive
  dsimp only
  split
  · rfl
  split
  · rfl
  · split
    · rfl
    · split <;> rfl

theorem HubOk.receive {req : Request} (hok : HubOk T h) (handling : Handling)
    (hreq : ∀ s ∈ req.samples, T s.id s.time) : HubOk T (h.receive req handling) := by
  have hnoack : ∀ rejected retry, HubOk T (h.answer ⟨[], rejected, retry, h.clock⟩) :=
    fun _ _ => hok.answer nofun
  unfold Hub.receive
  dsimp only
  split
  · exact hnoack _ _
  split
  · exact hnoack _ _
  split
  · exact hnoack _ _
  split
  · exact hnoack _ _
  refine ⟨hok.db, ?_, hok.replies⟩
  intro j hj
  rcases mem_cons.mp hj with hj | hj
  · rw [hj]
    exact ⟨fun s hs => hreq s (mem_filter.mp hs).1, Int.le_refl _, fun t ht => by cases ht⟩
  · exact hok.ingestions j hj

/-- **Every step of the Hub** keeps its tables in order, acknowledges only what
is stored, and takes nothing out of the metrics. -/
theorem hubStep_ok {l : HubLabel} (hfun : ∀ i t t', T i t → T i t' → t = t')
    (hok : HubOk T h)
    (hreq : ∀ r t handling, l = .receive r t handling → ∀ s ∈ r.scrub.samples, T s.id s.time)
    (hs : hubStep codec h l = some h') : HubOk T h' ∧ h.db.stored ⊆ h'.db.stored := by
  cases l with
  | tick d =>
    cases hs
    have hle : h.clock ≤ h.clock + d := by omega
    refine ⟨⟨hok.db.mono (fun _ _ ht => ht) hle, ?_, hok.replies⟩, List.Subset.refl _⟩
    intro j hj
    have hjob := hok.ingestions j hj
    exact { hjob with received := Int.le_trans hjob.received hle }
  | receive r t handling =>
    simp only [hubStep] at hs
    split at hs
    · cases hs
      refine ⟨hok.receive handling (hreq r t handling rfl), ?_⟩
      rw [receive_db]
      exact List.Subset.refl _
    · cases hs
  | start k =>
    simp only [hubStep, bind_eq_bind, bind_eq_some_iff] at hs
    obtain ⟨j, hj, hs⟩ := hs
    split at hs
    · cases hs
      refine ⟨⟨hok.db, ?_, hok.replies⟩, List.Subset.refl _⟩
      intro j' hj'
      have hjob := hok.ingestions j (mem_of_getElem? hj)
      rcases mem_or_eq_of_mem_set hj' with hj' | hj'
      · exact hok.ingestions j' hj'
      · rw [hj']
        refine { hjob with started := ?_ }
        intro t ht
        cases ht
        exact hjob.received
    · cases hs
  | commit k outcome =>
    simp only [hubStep, bind_eq_bind, bind_eq_some_iff] at hs
    obtain ⟨j, hj, now, hnow, hs⟩ := hs
    have hjob := hok.ingestions j (mem_of_getElem? hj)
    split at hs
    · next htime =>
      split at hs
      · cases hs
      next db hdb =>
      cases hs
      -- the transaction began after the request was received
      have hbound : h.clock ≤ now + requestTimeout := by
        have := hjob.started now hnow
        omega
      obtain ⟨hdbok, hin⟩ := hok.db.ingest hfun hjob.known hbound hdb
      have hsub := stored_subset_ingest hdb
      refine ⟨HubOk.answer ⟨hdbok, ?_, ?_⟩ ?_, hsub⟩
      · exact fun j' hj' => hok.ingestions j' (mem_of_mem_eraseIdx hj')
      · exact fun r hr i hi => hsub (hok.replies r hr i hi)
      · intro i hi
        cases outcome with
        | committed =>
          obtain ⟨s, hs, rfl⟩ := mem_map.mp hi
          exact hin s hs
        | unknown => cases hi
        | gone => cases hi
    · cases hs
  | abort k gone =>
    simp only [hubStep, bind_eq_bind, bind_eq_some_iff, some.injEq] at hs
    obtain ⟨j, -, rfl⟩ := hs
    refine ⟨HubOk.answer ⟨hok.db, ?_, hok.replies⟩ nofun, List.Subset.refl _⟩
    exact fun j' hj' => hok.ingestions j' (mem_of_mem_eraseIdx hj')
  | cleanup cutoff =>
    simp only [hubStep] at hs
    split at hs
    · next hc =>
      cases hs
      exact ⟨⟨hok.db.cleanup hc, hok.ingestions, hok.replies⟩, List.Subset.refl _⟩
    · cases hs
  | restart =>
    cases hs
    exact ⟨⟨hok.db, nofun, hok.replies⟩, List.Subset.refl _⟩

end Talus.Agent
