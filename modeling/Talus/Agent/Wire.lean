/-
  Talus.Agent.Wire
  **THE RESIDENT MONITORING PROTOCOL: SAMPLES, REPORTS, VALIDATION, FRAMES.**

  The messages of `agentwire`, the checks both ends make on them and the JSON
  documents that carry them.  `Sample.validate` and `Request.validate` make
  their checks in the order of the source and report the first that fails.

  The checks of a sample fall in two groups that matter later: `Measured` (the
  id, the numbers) survives a JSON round trip, `Legible` (the lengths of the
  texts) need not, because bytes that are not UTF-8 come back longer.

  The text of a double and of an instant is left to a `Codec`: both come back
  as they were sent.
-/
import Talus.Base.Json

namespace Talus.Agent

open Talus.Base

/-! ## §1. Constants. -/

/-- One second; instants and durations are in nanoseconds. -/
def second : Int := 1000000000
def minute : Int := 60 * second
def hour : Int := 60 * minute

def protocol : Int := 2
def maxBatch : Nat := 32
def maxFrame : Nat := 2 ^ 20
def maxAge : Int := 24 * hour
def maxQueueBytes : Nat := 64 * 2 ^ 20

/-- How far behind the validator's clock a capture time may be. -/
def pastWindow : Int := maxAge + hour
/-- How far ahead of it. -/
def futureWindow : Int := 5 * minute

/-! ## §2. Errors. -/

/-- The errors of the validators. -/
inductive WireError where
  | sampleID | bootID | metric | cpuPercent | counter | usage | metadata
  | tooManyErrors | collectorError
  | sampleTime
  | message | heartbeatSamples | emptyBatch
  deriving DecidableEq, Repr

def WireError.text : WireError → String
  | .sampleID => "invalid sample id"
  | .bootID => "invalid boot id"
  | .metric => "invalid metric"
  | .cpuPercent => "invalid cpu percent"
  | .counter => "invalid counter"
  | .usage => "used exceeds total"
  | .metadata => "metadata too long"
  | .tooManyErrors => "too many collector errors"
  | .collectorError => "invalid collector error"
  | .sampleTime => "sample capture time is outside the accepted window"
  | .message => "invalid agent message"
  | .heartbeatSamples => "heartbeat contains samples"
  | .emptyBatch => "sample batch is empty"

/-- `nil`, or an error a report may carry: only the capture time is wrong. -/
def tolerated : Except WireError Unit → Bool
  | .ok () => true
  | .error e => e = .sampleTime

/-! ## §3. Samples. -/

structure Sample where
  id : Bytes
  bootID : Bytes
  time : Int
  cpu : Option Float64
  memoryUsed : Option Int
  memoryTotal : Option Int
  swapUsed : Option Int
  swapTotal : Option Int
  diskUsed : Option Int
  diskTotal : Option Int
  load1 : Option Float64
  load5 : Option Float64
  load15 : Option Float64
  netRecv : Option Int
  netSent : Option Int
  diskRead : Option Int
  diskWrite : Option Int
  uptime : Option Int
  os : Option Bytes
  cpuModel : Option Bytes
  kernel : Option Bytes
  errors : StringMap
  deriving DecidableEq

namespace Sample

/-- The doubles a sample carries. -/
def metrics (s : Sample) : List Float64 :=
  [s.cpu, s.load1, s.load5, s.load15].filterMap fun v => v

/-- The integers a sample carries. -/
def counters (s : Sample) : List Int :=
  [s.memoryUsed, s.memoryTotal, s.swapUsed, s.swapTotal, s.diskUsed, s.diskTotal,
    s.netRecv, s.netSent, s.diskRead, s.diskWrite, s.uptime].filterMap fun v => v

/-- Used and total of the resources that have both. -/
def usages (s : Sample) : List (Option Int × Option Int) :=
  [(s.memoryUsed, s.memoryTotal), (s.swapUsed, s.swapTotal), (s.diskUsed, s.diskTotal)]

/-- The free texts a sample carries. -/
def texts (s : Sample) : List Bytes :=
  [s.os, s.cpuModel, s.kernel].filterMap fun v => v

end Sample

/-- A hexadecimal digit, in either case. -/
def isHexDigit (b : UInt8) : Bool :=
  (48 ≤ b && b ≤ 57) || (97 ≤ b && b ≤ 102) || (65 ≤ b && b ≤ 70)

/-- NaN, infinite or negative. -/
def badMetric (v : Float64) : Bool := v.isNaN || v.isInf || v.negative

/-- The bits of `100.0`. -/
def hundred : Nat := 0x4059000000000000

def usedExceedsTotal : Option Int × Option Int → Bool
  | (some used, some total) => total < used
  | _ => false

def badErrorEntry (p : Bytes × Bytes) : Bool :=
  32 < p.1.length || 256 < p.2.length || p.1.any fun b => b = 13 || b = 10

def validateErrors (m : StringMap) : Except WireError Unit :=
  if 16 < m.pairs.length then .error .tooManyErrors
  else if m.pairs.any badErrorEntry then .error .collectorError
  else .ok ()

/-- `Sample.Validate`. -/
def Sample.validate (s : Sample) (now : Int) : Except WireError Unit :=
  if s.id.length ≠ 32 then .error .sampleID
  else if !s.id.all isHexDigit then .error .sampleID
  else if s.bootID.length = 0 ∨ 128 < s.bootID.length then .error .bootID
  else if s.metrics.any badMetric then .error .metric
  else if s.cpu.any (Float64.above hundred) then .error .cpuPercent
  else if s.counters.any (· < 0) then .error .counter
  else if s.usages.any usedExceedsTotal then .error .usage
  else if s.texts.any (512 < ·.length) then .error .metadata
  else match validateErrors s.errors with
    | .error e => .error e
    | .ok () =>
      if s.time < now - pastWindow ∨ now + futureWindow < s.time then .error .sampleTime
      else .ok ()

/-! ## §4. What validation comes to. -/

/-- A check that fails with anything but the time error is not tolerated. -/
theorem tolerated_guard {c : Prop} [Decidable c] {e : WireError} {k : Except WireError Unit}
    (he : e ≠ .sampleTime) :
    tolerated (if c then .error e else k) = true ↔ ¬ c ∧ tolerated k = true := by
  by_cases hc : c
  · simp [hc, tolerated, he]
  · simp [hc]

/-- A check that fails ends the validation with its error. -/
theorem ok_guard {c : Prop} [Decidable c] {e : WireError} {k : Except WireError Unit} :
    (if c then .error e else k) = .ok () ↔ ¬ c ∧ k = .ok () := by
  by_cases hc : c
  · simp [hc]
  · simp [hc]

theorem tolerated_validateErrors (m : StringMap) :
    tolerated (validateErrors m) = true ↔ validateErrors m = .ok () := by
  unfold validateErrors
  rw [tolerated_guard (by decide), tolerated_guard (by decide), ok_guard, ok_guard]
  simp [tolerated]

namespace Sample

/-- The id and the numbers pass their checks. -/
structure Measured (s : Sample) : Prop where
  idLength : s.id.length = 32
  idHex : s.id.all isHexDigit = true
  metrics : s.metrics.any badMetric = false
  cpu : s.cpu.any (Float64.above hundred) = false
  counters : s.counters.any (· < 0) = false
  usages : s.usages.any usedExceedsTotal = false

/-- The texts pass theirs. -/
structure Legible (s : Sample) : Prop where
  bootID : s.bootID.length ≠ 0 ∧ s.bootID.length ≤ 128
  texts : s.texts.any (512 < ·.length) = false
  errors : validateErrors s.errors = .ok ()

/-- The capture time is inside the window around `now`. -/
def InWindow (s : Sample) (now : Int) : Prop :=
  now - pastWindow ≤ s.time ∧ s.time ≤ now + futureWindow

instance (s : Sample) (now : Int) : Decidable (s.InWindow now) :=
  inferInstanceAs (Decidable (_ ∧ _))

/-- The checks before the collector errors and the time, together. -/
theorem sound_iff (s : Sample) :
    (s.Measured ∧ s.Legible) ↔
      ¬ s.id.length ≠ 32 ∧ ¬ (!s.id.all isHexDigit) = true ∧
      ¬ (s.bootID.length = 0 ∨ 128 < s.bootID.length) ∧ ¬ s.metrics.any badMetric = true ∧
      ¬ s.cpu.any (Float64.above hundred) = true ∧ ¬ s.counters.any (· < 0) = true ∧
      ¬ s.usages.any usedExceedsTotal = true ∧ ¬ s.texts.any (512 < ·.length) = true ∧
      validateErrors s.errors = .ok () := by
  simp only [Bool.not_eq_true, Bool.not_eq_false', not_not, not_or, not_lt, ne_eq]
  constructor
  · intro h
    exact ⟨h.1.idLength, h.1.idHex, h.2.bootID, h.1.metrics, h.1.cpu, h.1.counters, h.1.usages,
      h.2.texts, h.2.errors⟩
  · intro h
    obtain ⟨hlen, hhex, hboot, hmetrics, hcpu, hcounters, husages, htexts, herrors⟩ := h
    exact ⟨⟨hlen, hhex, hmetrics, hcpu, hcounters, husages⟩, ⟨hboot, htexts, herrors⟩⟩

/-- **A sample a report may carry** is one whose id, numbers and texts pass,
whatever the clock reads. -/
theorem tolerated_validate_iff (s : Sample) (now : Int) :
    tolerated (s.validate now) = true ↔ s.Measured ∧ s.Legible := by
  rw [sound_iff]
  unfold validate
  rw [tolerated_guard (by decide), tolerated_guard (by decide), tolerated_guard (by decide),
    tolerated_guard (by decide), tolerated_guard (by decide), tolerated_guard (by decide),
    tolerated_guard (by decide), tolerated_guard (by decide), ← tolerated_validateErrors]
  -- the capture time is looked at last, and its error is the tolerated one
  cases validateErrors s.errors with
  | error e => rfl
  | ok _ =>
    have htime : tolerated (if s.time < now - pastWindow ∨ now + futureWindow < s.time
        then .error .sampleTime else .ok ()) = true := by
      split <;> rfl
    have hok : tolerated (.ok ()) = true := rfl
    simp only [htime, hok]

/-- **An accepted sample** passes every check. -/
theorem validate_ok_iff (s : Sample) (now : Int) :
    s.validate now = .ok () ↔ (s.Measured ∧ s.Legible) ∧ s.InWindow now := by
  rw [sound_iff]
  unfold validate
  rw [ok_guard, ok_guard, ok_guard, ok_guard, ok_guard, ok_guard, ok_guard, ok_guard]
  simp only [and_assoc]
  cases validateErrors s.errors with
  | error e => simp
  | ok _ =>
    have hwindow : ¬ (s.time < now - pastWindow ∨ now + futureWindow < s.time) ↔
        s.InWindow now := by
      unfold InWindow
      omega
    simp only [ok_guard, hwindow, and_true, true_and]

/-- The sample as the other end of a JSON round trip sees it. -/
def scrub (s : Sample) : Sample :=
  { s with
    id := Base.scrub s.id
    bootID := Base.scrub s.bootID
    os := s.os.map Base.scrub
    cpuModel := s.cpuModel.map Base.scrub
    kernel := s.kernel.map Base.scrub
    errors := s.errors.scrub }

theorem isHexDigit_ascii {b : UInt8} (h : isHexDigit b = true) : b < 0x80 := by
  simp only [isHexDigit, Bool.or_eq_true, Bool.and_eq_true, decide_eq_true_eq,
    UInt8.le_iff_toNat_le, UInt8.lt_iff_toNat_lt, UInt8.toNat_ofNat] at h ⊢
  omega

/-- A hexadecimal id is ASCII and comes back unchanged. -/
theorem Measured.scrub_id {s : Sample} (h : s.Measured) : s.scrub.id = s.id := by
  refine scrub_ascii s.id fun b hb => ?_
  exact isHexDigit_ascii (List.all_eq_true.mp h.idHex b hb)

/-- **The id and the numbers survive a JSON round trip.** -/
theorem Measured.scrub {s : Sample} (h : s.Measured) : s.scrub.Measured where
  idLength := by rw [h.scrub_id]; exact h.idLength
  idHex := by rw [h.scrub_id]; exact h.idHex
  metrics := h.metrics
  cpu := h.cpu
  counters := h.counters
  usages := h.usages

end Sample

/-! ## §5. The document of a sample. -/

/-- How the encoder writes doubles and instants.  An instant whose year has no
four digits cannot be written. -/
structure Codec where
  floatText : Float64 → Bytes
  timeText : Int → Option Bytes

/-- An optional double as a member of an object; NaN and the infinities have
no JSON text. -/
def Codec.floatMember (c : Codec) (name : String) : Option Float64 → Option (List Bytes)
  | none => some []
  | some v => if v.isNaN || v.isInf then none else some [member name (c.floatText v)]

def intMember (name : String) (v : Option Int) : List Bytes :=
  v.toList.map fun n => member name (decimal n)

def textMember (name : String) (v : Option Bytes) : List Bytes :=
  v.toList.map fun s => member name (quote s)

/-- `json.Marshal` of a sample. -/
def Sample.marshal (c : Codec) (s : Sample) : Option Bytes := do
  let time ← c.timeText s.time
  let cpu ← c.floatMember "cpu" s.cpu
  let load1 ← c.floatMember "load_1" s.load1
  let load5 ← c.floatMember "load_5" s.load5
  let load15 ← c.floatMember "load_15" s.load15
  return object (
    [member "id" (quote s.id), member "boot_id" (quote s.bootID), member "time" time] ++ cpu ++
    intMember "memory_used" s.memoryUsed ++ intMember "memory_total" s.memoryTotal ++
    intMember "swap_used" s.swapUsed ++ intMember "swap_total" s.swapTotal ++
    intMember "disk_used" s.diskUsed ++ intMember "disk_total" s.diskTotal ++
    load1 ++ load5 ++ load15 ++
    intMember "net_recv" s.netRecv ++ intMember "net_sent" s.netSent ++
    intMember "disk_read" s.diskRead ++ intMember "disk_write" s.diskWrite ++
    intMember "uptime" s.uptime ++
    textMember "os" s.os ++ textMember "cpu_model" s.cpuModel ++ textMember "kernel" s.kernel ++
    if s.errors.pairs = [] then [] else [member "errors" s.errors.json])

theorem Codec.floatMember_isSome (c : Codec) (name : String) (v : Option Float64) :
    (c.floatMember name v).isSome = true ↔ v.any (fun x => x.isNaN || x.isInf) = false := by
  cases v with
  | none => simp [floatMember]
  | some x =>
    unfold floatMember
    split
    · next h => simp [h]
    · next h => simp [h]

/-- Whether a sample can be written depends on its time and its doubles only. -/
theorem Sample.marshal_isSome (c : Codec) (s : Sample) :
    (s.marshal c).isSome = true ↔
      (c.timeText s.time).isSome = true ∧
      s.metrics.any (fun x => x.isNaN || x.isInf) = false := by
  have hmetrics : s.metrics.any (fun x => x.isNaN || x.isInf) = false ↔
      s.cpu.any (fun x => x.isNaN || x.isInf) = false ∧
      s.load1.any (fun x => x.isNaN || x.isInf) = false ∧
      s.load5.any (fun x => x.isNaN || x.isInf) = false ∧
      s.load15.any (fun x => x.isNaN || x.isInf) = false := by
    unfold Sample.metrics
    rw [List.any_filterMap]
    show (s.cpu.any _ || (s.load1.any _ || (s.load5.any _ || (s.load15.any _ || false)))) = false ↔ _
    rw [Bool.or_false, Bool.or_eq_false_iff, Bool.or_eq_false_iff, Bool.or_eq_false_iff]
  rw [hmetrics, ← c.floatMember_isSome "cpu" s.cpu, ← c.floatMember_isSome "load_1" s.load1,
    ← c.floatMember_isSome "load_5" s.load5, ← c.floatMember_isSome "load_15" s.load15]
  unfold Sample.marshal
  simp [Option.isSome_iff_exists, Option.bind_eq_some_iff]

theorem Sample.marshal_scrub_isSome (c : Codec) (s : Sample) :
    (s.scrub.marshal c).isSome = true ↔ (s.marshal c).isSome = true := by
  rw [Sample.marshal_isSome, Sample.marshal_isSome]
  rfl

/-! ## §6. Reports and replies. -/

/-- The kind of a report; the wire can carry any other text in its place. -/
inductive Kind where
  | heartbeat
  | samples
  | other (text : Bytes)
  deriving DecidableEq

def Kind.text : Kind → Bytes
  | .heartbeat => ascii "heartbeat"
  | .samples => ascii "samples"
  | .other t => t

structure Request where
  protocol : Int
  version : Bytes
  kind : Kind
  latest : Option Sample
  samples : List Sample
  pending : Int
  dropped : Nat
  deriving DecidableEq

/-- A reply: the ids that are stored, the ids whose capture time is outside
the window, and whether the rest is to be sent again. -/
structure Response where
  ack : List Bytes
  rejected : List Bytes
  retry : Bool
  serverTime : Int
  deriving DecidableEq

namespace Request

/-- The samples of a report in the order they are checked: the latest
snapshot, then the batch. -/
def carried (r : Request) : List Sample := r.latest.toList ++ r.samples

/-- The first error of a list of samples that is not about the capture time. -/
def validateAll (now : Int) : List Sample → Except WireError Unit
  | [] => .ok ()
  | s :: rest =>
    if tolerated (s.validate now) then validateAll now rest else s.validate now

/-- `Request.Validate`. -/
def validate (r : Request) (now : Int) : Except WireError Unit :=
  if r.protocol ≠ Agent.protocol ∨ r.version = [] ∨ 128 < r.version.length ∨
      (r.kind ≠ .heartbeat ∧ r.kind ≠ .samples) ∨ r.pending < 0 ∨ 100000 < r.pending ∨
      maxBatch < r.samples.length then .error .message
  else if r.kind = .heartbeat ∧ 0 < r.samples.length then .error .heartbeatSamples
  else if r.kind = .samples ∧ r.samples.length = 0 then .error .emptyBatch
  else validateAll now r.carried

/-- The envelope passes its checks: everything but the samples themselves. -/
structure Enveloped (r : Request) : Prop where
  protocol : r.protocol = Agent.protocol
  version : r.version ≠ [] ∧ r.version.length ≤ 128
  pending : 0 ≤ r.pending ∧ r.pending ≤ 100000
  shape : (r.kind = .heartbeat ∧ r.samples = []) ∨
    (r.kind = .samples ∧ r.samples ≠ [] ∧ r.samples.length ≤ maxBatch)

theorem validateAll_ok_iff (now : Int) (l : List Sample) :
    validateAll now l = .ok () ↔ ∀ s ∈ l, s.Measured ∧ s.Legible := by
  induction l with
  | nil => simp [validateAll]
  | cons s rest ih =>
    rw [List.forall_mem_cons, ← Sample.tolerated_validate_iff s now, ← ih]
    show (if tolerated (s.validate now) then validateAll now rest else s.validate now) = _ ↔ _
    by_cases ht : tolerated (s.validate now) = true
    · simp [ht]
    · -- the error that stops the loop is no success
      have hne : s.validate now ≠ .ok () := by
        intro h
        rw [h] at ht
        exact ht rfl
      simp [ht, hne]

/-- **An accepted report**: the envelope passes, and so does every sample,
its capture time aside.  The clock of the validator does not matter. -/
theorem validate_ok_iff (r : Request) (now : Int) :
    r.validate now = .ok () ↔ r.Enveloped ∧ ∀ s ∈ r.carried, s.Measured ∧ s.Legible := by
  rw [← validateAll_ok_iff now]
  unfold validate
  constructor
  · intro h
    split at h
    · cases h
    next henv =>
    split at h
    · cases h
    next hbeat =>
    split at h
    · cases h
    next hempty =>
    simp only [not_or, not_and_or, not_not, not_lt] at henv
    obtain ⟨hproto, hver, hlen, hkind, hlo, hhi, hbatch⟩ := henv
    refine ⟨⟨hproto, ⟨hver, hlen⟩, ⟨hlo, hhi⟩, ?_⟩, h⟩
    rcases hkind with hkind | hkind
    · refine Or.inl ⟨hkind, ?_⟩
      simpa [hkind] using hbeat
    · refine Or.inr ⟨hkind, ?_, hbatch⟩
      simpa [hkind] using hempty
  · intro h
    obtain ⟨⟨hproto, ⟨hver, hlen⟩, ⟨hlo, hhi⟩, hshape⟩, hall⟩ := h
    have hbatch : r.samples.length ≤ maxBatch := by
      rcases hshape with ⟨-, hnil⟩ | ⟨-, -, hle⟩
      · rw [hnil]
        exact Nat.zero_le _
      · exact hle
    have hkind : r.kind = .heartbeat ∨ r.kind = .samples := by
      rcases hshape with ⟨hk, -⟩ | ⟨hk, -⟩
      · exact Or.inl hk
      · exact Or.inr hk
    rw [if_neg, if_neg, if_neg, hall]
    · rcases hshape with ⟨hk, -⟩ | ⟨-, hne, -⟩
      · simp [hk]
      · simp [hne]
    · rcases hshape with ⟨-, hnil⟩ | ⟨hk, -⟩
      · simp [hnil]
      · simp [hk]
    · simp only [not_or, not_and_or, not_not, not_lt]
      exact ⟨hproto, hver, hlen, hkind, hlo, hhi, hbatch⟩

/-- The report as the Hub's decoder sees it. -/
def scrub (r : Request) : Request :=
  { r with
    version := Base.scrub r.version
    latest := r.latest.map Sample.scrub
    samples := r.samples.map Sample.scrub }

theorem carried_scrub (r : Request) : r.scrub.carried = r.carried.map Sample.scrub := by
  unfold carried scrub
  cases r.latest <;> simp

/-- `json.Marshal` of a report. -/
def marshal (c : Codec) (r : Request) : Option Bytes := do
  let latest ← r.latest.toList.mapM (Sample.marshal c)
  let samples ← r.samples.mapM (Sample.marshal c)
  return object (
    [member "protocol" (decimal r.protocol), member "version" (quote r.version),
      member "kind" (quote r.kind.text)] ++
    latest.map (member "latest") ++
    (if r.samples = [] then [] else [member "samples" (array samples)]) ++
    [member "pending" (decimal r.pending), member "dropped" (decimal r.dropped)])

end Request

/-! ## §7. Frames. -/

/-- The two ways to the Hub. -/
inductive Transport where
  | http
  | websocket
  deriving DecidableEq

/-- What the transport adds to a document: the WebSocket side writes it with
an encoder that ends it with a newline. -/
def Transport.trailer : Transport → Nat
  | .http => 0
  | .websocket => 1

/-- The Hub takes a report: it can be written at all, the frame is within the
read limit, and what the decoder makes of it validates. -/
def Request.accepted (c : Codec) (t : Transport) (now : Int) (r : Request) : Bool :=
  match r.marshal c with
  | none => false
  | some doc => doc.length + t.trailer ≤ maxFrame && r.scrub.validate now = .ok ()

theorem Request.accepted_iff (c : Codec) (t : Transport) (now : Int) (r : Request) :
    r.accepted c t now = true ↔
      (∃ doc, r.marshal c = some doc ∧ doc.length + t.trailer ≤ maxFrame) ∧
      r.scrub.validate now = .ok () := by
  unfold accepted
  cases r.marshal c with
  | none => simp
  | some doc => simp

end Talus.Agent
