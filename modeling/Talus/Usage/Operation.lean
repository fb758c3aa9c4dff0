/-
  Talus.Usage.Operation
  **AN OPERATION AND THE SNAPSHOTS IT PRODUCES** (`usage.Operation`).

  An operation is edited by its handlers until `finish` closes it; every edit
  counts up `StateSeq`.  A snapshot taken before that is a RUNNING row,
  whatever result the handlers have already supplied; the one `finish` takes
  is terminal and nothing is produced after it.

  The texts of an edit are what `boundedText`, `safeReason` and
  `normalizeMetadata` let through.

  Main results:
    • `emitted_isSnapshot`: what every snapshot has in common,
    • `emitted_terminal_unique`: there is one terminal snapshot at most.
-/
import Talus.Usage.Store

namespace Talus.Usage

/-! ## §1. Operations. -/

/-- A value `normalizeMetadata` lets through; its texts need no JSON escape. -/
inductive MetaValue
  | flag (b : Bool)
  | number (n : Int)
  | text (s : String)
  deriving Repr, DecidableEq

/-- The metadata map, in the key order `json.Marshal` writes. -/
abbrev Metadata := List (String × MetaValue)

def Metadata.set : Metadata → String → MetaValue → Metadata
  | [], key, value => [(key, value)]
  | (k, x) :: rest, key, value =>
    if key = k then (key, value) :: rest
    else if key < k then (key, value) :: (k, x) :: rest
    else (k, x) :: Metadata.set rest key value

def Metadata.has (md : Metadata) (key : String) : Bool := md.any fun entry => entry.1 = key

def MetaValue.marshal : MetaValue → String
  | .flag b => if b then "true" else "false"
  | .number n => toString n
  | .text s => "\"" ++ s ++ "\""

def Metadata.marshal (md : Metadata) : String :=
  "\x7b" ++ ",".intercalate (md.map fun entry =>
    "\"" ++ entry.1 ++ "\":" ++ entry.2.marshal) ++ "\x7d"

/-- The fields of `usage.Operation`.  The principal is kept in the row, which
`SetPrincipal` sets together with it. -/
structure Operation where
  row : UsageLog
  started : Time
  metadata : Metadata
  finished : Bool
  beginAttempted : Bool
  captureDecided : Bool
  admitted : Bool

/-- `NewOperation`, with the UUID it draws. -/
def newOperation (id : OperationID) (now : Time)
    (action route requestID method client : String) : Operation where
  row :=
    { id := 0, operationID := id, legacyAuditEventID := none, startedAt := now
      finishedAt := none, durationMS := none, recordedAt := now
      reconciledAt := none, retentionAt := none, outcome := .running
      phase := .preparing, stateSeq := 1, recoveryReason := .empty
      action := action, resourceType := "", resourceID := none
      resourceNameSnapshot := "", serverID := none, authType := .unauthenticated
      userID := none, usernameSnapshot := "", apiKeyID := none
      apiKeyNameSnapshot := "", apiKeyPrefixSnapshot := "", requestID := requestID
      method := method, routePattern := route, httpStatus := none
      clientAddress := client, source := .operation, exitCode := none
      upstreamStatus := none, errorReason := "", metadata := ""
      ownerInstanceID := none }
  started := now
  metadata := []
  finished := false
  beginAttempted := false
  captureDecided := false
  admitted := false

/-! ## §2. Edits. -/

structure Principal where
  authType : AuthType
  userID : Option Nat
  username : String
  apiKeyID : Option Nat
  apiKeyName : String
  apiKeyPrefix : String
  deriving Repr, DecidableEq

/-- A pointer to zero is stored as no pointer. -/
def nonzero (p : Option Nat) : Option Nat := p.filter (· ≠ 0)

/-- What the setters share: nothing once finished, and one more `StateSeq`. -/
def Operation.edit (op : Operation) (f : UsageLog → UsageLog)
    (g : Metadata → Metadata) : Operation :=
  if op.finished then op
  else { op with
    row := { f op.row with stateSeq := op.row.stateSeq + 1 }
    metadata := g op.metadata }

def Operation.setPrincipal (op : Operation) (p : Principal) : Operation :=
  if (p.authType ≠ .jwt ∧ p.authType ≠ .apiKey) ∨ op.row.authType ≠ .unauthenticated then op
  else op.edit (fun row => { row with
    authType := p.authType
    userID := nonzero p.userID
    usernameSnapshot := p.username
    apiKeyID := if p.authType = .jwt then none else nonzero p.apiKeyID
    apiKeyNameSnapshot := if p.authType = .jwt then "" else p.apiKeyName
    apiKeyPrefixSnapshot := if p.authType = .jwt then "" else p.apiKeyPrefix }) id

def Operation.setResource (op : Operation) (kind : String) (rid : Option Nat)
    (name : String) (serverID : Option Nat) : Operation :=
  op.edit (fun row => { row with
    resourceType := kind, resourceID := nonzero rid
    resourceNameSnapshot := name, serverID := nonzero serverID }) id

/-- `SetResult`; `validFinal` refuses `running`. -/
def Operation.setResult (op : Operation) (outcome : Outcome) (reason : String) : Operation :=
  if outcome = .running then op
  else op.edit (fun row => { row with outcome := outcome, errorReason := reason }) id

def validStatus (status : Int) : Bool := decide (100 ≤ status) && decide (status ≤ 599)

def Operation.setHTTPStatus (op : Operation) (status : Int) : Operation :=
  if validStatus status then op.edit (fun row => { row with httpStatus := some status }) id
  else op

/-- `SetHTTPError`.  A response that fails after a success only leaves a
metadata flag, and does NOT count as an edit. -/
def Operation.setHTTPError (op : Operation) (status : Int) (reason : String) : Operation :=
  if op.finished then op
  else if op.row.outcome ≠ .running then
    if op.row.outcome = .succeeded then
      { op with metadata := op.metadata.set "response_write_failed" (.flag true) }
    else op
  else if 500 ≤ status then
    op.edit (fun row => { row with outcome := .failed, errorReason := reason }) id
  else if 400 ≤ status then
    op.edit (fun row => { row with outcome := .rejected, errorReason := reason }) id
  else op

def Operation.setExecResult (op : Operation) (code : Option Int) : Operation :=
  op.edit (fun row => { row with exitCode := code }) id

def Operation.setRelayResult (op : Operation) (status bytes : Int) : Operation :=
  op.edit
    (fun row => if validStatus status then { row with upstreamStatus := some status } else row)
    (fun md => if 0 ≤ bytes then md.set "bytes_copied" (.number bytes) else md)

/-- The metadata key that keeps the instant a phase was first entered. -/
def Phase.key : Phase → String
  | .preparing => ""
  | .handshake => "handshake_at"
  | .authenticated => "authenticated_at"
  | .ready => "ready_at"
  | .closed => "closed_at"

/-- `SetPhase`; `stamp` is the current instant as RFC 3339 text. -/
def Operation.setPhase (op : Operation) (phase : Phase) (stamp : String) : Operation :=
  if phase = .closed ∨ op.row.phase = phase then op
  else op.edit (fun row => { row with phase := phase })
    (fun md => if phase = .preparing ∨ md.has phase.key then md
      else md.set phase.key (.text stamp))

def Operation.setMetadata (op : Operation) (key : String) (value : MetaValue) : Operation :=
  op.edit id (fun md => md.set key value)

/-! ## §3. Snapshots. -/

/-- The metadata column: the map with its version, unless it grew too large. -/
def Operation.marshalled (op : Operation) : String :=
  let data := (op.metadata.set "version" (.number 1)).marshal
  if 4096 < data.utf8ByteSize then "\x7b\"version\":1\x7d" else data

/-- `snapshotLocked`. -/
def Operation.snapshot (op : Operation) : UsageLog :=
  { op.row with
    outcome := if op.finished then op.row.outcome else .running
    errorReason := if op.finished then op.row.errorReason else ""
    metadata := op.marshalled }

/-- What `finish` makes of a result nobody supplied. -/
def finalResult (row : UsageLog) (status : Int) : Outcome × String :=
  if row.outcome ≠ .running then (row.outcome, row.errorReason)
  else if 500 ≤ status then (.failed, "internal_error")
  else if 400 ≤ status then (.rejected, "request_rejected")
  else (.succeeded, row.errorReason)

/-- The state `finish` leaves. -/
def Operation.closed (op : Operation) (status : Int) (now : Time) (stamp : String) :
    Operation :=
  { op with
    finished := true
    row := { op.row with
      httpStatus := if op.row.httpStatus.isNone ∧ validStatus status = true
        then some status else op.row.httpStatus
      outcome := (finalResult op.row status).1
      errorReason := (finalResult op.row status).2
      finishedAt := some now
      retentionAt := some now
      durationMS := some ((now - op.started) / 1000000)
      phase := .closed
      stateSeq := op.row.stateSeq + 1 }
    metadata := op.metadata.set "closed_at" (.text stamp) }

/-- `finish`: `none` for an operation that is already finished. -/
def Operation.finish (op : Operation) (status : Int) (now : Time) (stamp : String) :
    Option (Operation × UsageLog) :=
  if op.finished then none
  else some (op.closed status now stamp, (op.closed status now stamp).snapshot)

/-- `refreshRunning`. -/
def Operation.refreshRunning (op : Operation) : Option (Operation × UsageLog) :=
  if op.finished then none
  else some (op.edit id id, (op.edit id id).snapshot)

/-- The operation's side of `Recorder.Begin`: it is admitted under `owner`. -/
def Operation.start (op : Operation) (owner : InstanceID) : Operation :=
  { op with
    admitted := true
    row := { op.row with
      ownerInstanceID := some owner, stateSeq := op.row.stateSeq + 1 } }

/-- The setters, which produce no snapshot. -/
inductive Edit
  | setPrincipal (p : Principal)
  | setResource (kind : String) (rid : Option Nat) (name : String) (serverID : Option Nat)
  | setResult (outcome : Outcome) (reason : String)
  | setHTTPStatus (status : Int)
  | setHTTPError (status : Int) (reason : String)
  | setExecResult (code : Option Int)
  | setRelayResult (status bytes : Int)
  | setPhase (phase : Phase) (stamp : String)
  | setMetadata (key : String) (value : MetaValue)

def Operation.set (op : Operation) : Edit → Operation
  | .setPrincipal p => op.setPrincipal p
  | .setResource kind rid name serverID => op.setResource kind rid name serverID
  | .setResult outcome reason => op.setResult outcome reason
  | .setHTTPStatus status => op.setHTTPStatus status
  | .setHTTPError status reason => op.setHTTPError status reason
  | .setExecResult code => op.setExecResult code
  | .setRelayResult status bytes => op.setRelayResult status bytes
  | .setPhase phase stamp => op.setPhase phase stamp
  | .setMetadata key value => op.setMetadata key value

/-- The calls that reach an operation. -/
inductive Call
  | set (e : Edit)
  | start (owner : InstanceID)
  | persistPhase
  | refreshRunning
  | finish (status : Int) (now : Time) (stamp : String)

/-- One call: the operation it leaves, and the snapshot it produces. -/
def Operation.call (op : Operation) : Call → Operation × Option UsageLog
  | .set e => (op.set e, none)
  | .start owner =>
    if op.finished then (op, none) else (op.start owner, some (op.start owner).snapshot)
  | .persistPhase => if op.finished then (op, none) else (op, some op.snapshot)
  | .refreshRunning =>
    match op.refreshRunning with
    | none => (op, none)
    | some (op', row) => (op', some row)
  | .finish status now stamp =>
    match op.finish status now stamp with
    | none => (op, none)
    | some (op', row) => (op', some row)

/-- The snapshots a sequence of calls produces, in order. -/
def Operation.emitted : Operation → List Call → List UsageLog
  | _, [] => []
  | op, c :: cs => (op.call c).2.toList ++ Operation.emitted (op.call c).1 cs

/-! ## §4. What no call changes. -/

/-- The columns that tie a row to its operation. -/
def UsageLog.identity (row : UsageLog) :
    OperationID × Time × String × Source × RecoveryReason × AuthType :=
  (row.operationID, row.startedAt, row.action, row.source, row.recoveryReason, row.authType)

/-- What every row of an operation shares with the row it started from. -/
structure OfOperation (start row : UsageLog) : Prop where
  operationID : row.operationID = start.operationID
  startedAt : row.startedAt = start.startedAt
  action : row.action = start.action
  source : row.source = .operation
  recoveryReason : row.recoveryReason = .empty
  authType : row.authType ≠ .unset

variable {start : UsageLog} {op : Operation}

theorem newOperation_ofOperation (id : OperationID) (now : Time)
    (action route requestID method client : String) :
    OfOperation (newOperation id now action route requestID method client).row
      (newOperation id now action route requestID method client).row :=
  ⟨rfl, rfl, rfl, rfl, rfl, nofun⟩

theorem OfOperation.congr {row row' : UsageLog} (h : OfOperation start row)
    (hi : row'.identity = row.identity) : OfOperation start row' := by
  simp only [UsageLog.identity, Prod.mk.injEq] at hi
  obtain ⟨h₁, h₂, h₃, h₄, h₅, h₆⟩ := hi
  exact ⟨h₁.trans h.1, h₂.trans h.2, h₃.trans h.3, h₄.trans h.4, h₅.trans h.5, h₆ ▸ h.6⟩

/-- An edit of the row that keeps its owner and what `OfOperation` says. -/
def Keeps (op : Operation) (f : UsageLog → UsageLog) : Prop :=
  (f op.row).ownerInstanceID = op.row.ownerInstanceID ∧
    ∀ start, OfOperation start op.row → OfOperation start (f op.row)

variable {f : UsageLog → UsageLog}

theorem keeps_of_identity (ho : (f op.row).ownerInstanceID = op.row.ownerInstanceID)
    (hi : (f op.row).identity = op.row.identity) : Keeps op f :=
  ⟨ho, fun _ h => h.congr hi⟩

/-- **What a setter can do**: touch the metadata only, or edit the row. -/
theorem set_cases (op : Operation) (e : Edit) :
    (∃ md, op.set e = { op with metadata := md }) ∨ ∃ f g, op.set e = op.edit f g ∧ Keeps op f := by
  have idle : ∃ md, op = { op with metadata := md } := ⟨op.metadata, rfl⟩
  cases e with
  | setPrincipal p =>
    simp only [Operation.set, Operation.setPrincipal]
    split
    · exact .inl idle
    · next hp =>
      refine .inr ⟨_, _, rfl, rfl, fun _ h => ⟨h.1, h.2, h.3, h.4, h.5, ?_⟩⟩
      -- the principals let through are `jwt` and `apiKey`
      show p.authType ≠ .unset
      intro h0
      simp [h0] at hp
  | setResource kind rid name serverID =>
    simp only [Operation.set, Operation.setResource]
    exact .inr ⟨_, _, rfl, keeps_of_identity rfl rfl⟩
  | setResult outcome reason =>
    simp only [Operation.set, Operation.setResult]
    split
    · exact .inl idle
    · exact .inr ⟨_, _, rfl, keeps_of_identity rfl rfl⟩
  | setHTTPStatus status =>
    simp only [Operation.set, Operation.setHTTPStatus]
    split
    · exact .inr ⟨_, _, rfl, keeps_of_identity rfl rfl⟩
    · exact .inl idle
  | setHTTPError status reason =>
    simp only [Operation.set, Operation.setHTTPError]
    split
    · exact .inl idle
    · split
      · split
        · exact .inl ⟨_, rfl⟩
        · exact .inl idle
      · split
        · exact .inr ⟨_, _, rfl, keeps_of_identity rfl rfl⟩
        · split
          · exact .inr ⟨_, _, rfl, keeps_of_identity rfl rfl⟩
          · exact .inl idle
  | setExecResult code =>
    simp only [Operation.set, Operation.setExecResult]
    exact .inr ⟨_, _, rfl, keeps_of_identity rfl rfl⟩
  | setRelayResult status bytes =>
    refine .inr ⟨_, _, rfl, ?_⟩
    by_cases hv : validStatus status = true
    · exact keeps_of_identity (by simp [hv]) (by simp [hv, UsageLog.identity])
    · exact keeps_of_identity (by simp [hv]) (by simp [hv])
  | setPhase phase stamp =>
    simp only [Operation.set, Operation.setPhase]
    split
    · exact .inl idle
    · exact .inr ⟨_, _, rfl, keeps_of_identity rfl rfl⟩
  | setMetadata key value =>
    simp only [Operation.set, Operation.setMetadata]
    exact .inr ⟨_, _, rfl, keeps_of_identity rfl rfl⟩

/-- What a call that does not finish the operation leaves of it. -/
structure Evolves (op op' : Operation) : Prop where
  finished : op'.finished = op.finished
  seq : op.row.stateSeq ≤ op'.row.stateSeq
  ofOperation : ∀ start, OfOperation start op.row → OfOperation start op'.row

theorem Evolves.refl (op : Operation) : Evolves op op := ⟨rfl, Nat.le_refl _, fun _ h => h⟩

theorem edit_evolves (g : Metadata → Metadata) (hf : Keeps op f) : Evolves op (op.edit f g) := by
  unfold Operation.edit
  split
  · exact Evolves.refl op
  · exact ⟨rfl, Nat.le_succ _, fun start h => (hf.2 start h).congr rfl⟩

theorem set_evolves (op : Operation) (e : Edit) : Evolves op (op.set e) := by
  obtain ⟨md, hmd⟩ | ⟨f, g, hfg, hf⟩ := set_cases op e
  · rw [hmd]
    exact ⟨rfl, Nat.le_refl _, fun _ h => h⟩
  · rw [hfg]
    exact edit_evolves g hf

/-- A setter keeps the owner and the capture flags. -/
structure SameCapture (op op' : Operation) : Prop where
  owner : op'.row.ownerInstanceID = op.row.ownerInstanceID
  beginAttempted : op'.beginAttempted = op.beginAttempted
  captureDecided : op'.captureDecided = op.captureDecided
  admitted : op'.admitted = op.admitted

theorem edit_sameCapture (g : Metadata → Metadata) (hf : Keeps op f) :
    SameCapture op (op.edit f g) := by
  unfold Operation.edit
  split
  · exact ⟨rfl, rfl, rfl, rfl⟩
  · exact ⟨hf.1, rfl, rfl, rfl⟩

theorem set_sameCapture (op : Operation) (e : Edit) : SameCapture op (op.set e) := by
  obtain ⟨md, hmd⟩ | ⟨f, g, hfg, hf⟩ := set_cases op e
  · rw [hmd]
    exact ⟨rfl, rfl, rfl, rfl⟩
  · rw [hfg]
    exact edit_sameCapture g hf

/-! ## §5. What the snapshots are. -/

/-- **What a call can do**: evolve the operation in silence, evolve it and
produce a running snapshot of the outcome, or finish it. -/
theorem call_cases (op : Operation) (c : Call) :
    ((op.call c).2 = none ∧ Evolves op (op.call c).1) ∨
    (op.finished = false ∧ Evolves op (op.call c).1 ∧
      (op.call c).2 = some (op.call c).1.snapshot) ∨
    (∃ status now stamp, op.finished = false ∧
      op.call c = (op.closed status now stamp, some (op.closed status now stamp).snapshot)) := by
  cases c with
  | set e => exact .inl ⟨rfl, set_evolves op e⟩
  | start owner =>
    cases hf : op.finished with
    | true => simp [Operation.call, hf, Evolves.refl]
    | false =>
      refine .inr (.inl ⟨rfl, ?_, ?_⟩)
      · simp only [Operation.call, hf]
        exact ⟨rfl, Nat.le_succ _, fun _ h => h.congr rfl⟩
      · simp [Operation.call, hf]
  | persistPhase =>
    cases hf : op.finished with
    | true | false => simp [Operation.call, hf, Evolves.refl]
  | refreshRunning =>
    cases hf : op.finished with
    | true => simp [Operation.call, Operation.refreshRunning, hf, Evolves.refl]
    | false =>
      refine .inr (.inl ⟨rfl, ?_, ?_⟩)
      · simp only [Operation.call, Operation.refreshRunning, hf]
        exact edit_evolves id (keeps_of_identity rfl rfl)
      · simp [Operation.call, Operation.refreshRunning, hf]
  | finish status now stamp =>
    cases hf : op.finished with
    | true => simp [Operation.call, Operation.finish, hf, Evolves.refl]
    | false =>
      refine .inr (.inr ⟨status, now, stamp, rfl, ?_⟩)
      simp [Operation.call, Operation.finish, hf]

/-- What `Upsert` may rely on in a snapshot of the operation. -/
structure IsSnapshot (start v : UsageLog) : Prop where
  ofOperation : OfOperation start v
  metadata : v.metadata ≠ ""
  closing : v.outcome ≠ .running → v.finishedAt.isSome = true ∧ v.retentionAt = v.finishedAt

theorem marshal_ne_empty (md : Metadata) : md.marshal ≠ "" := by
  intro h
  have hlen := congrArg String.length h
  simp [Metadata.marshal] at hlen

theorem marshalled_ne_empty (op : Operation) : op.marshalled ≠ "" := by
  unfold Operation.marshalled
  dsimp only
  split
  · decide
  · exact marshal_ne_empty _

theorem finalResult_ne_running (row : UsageLog) (status : Int) :
    (finalResult row status).1 ≠ .running := by
  unfold finalResult
  split
  · next h => exact h
  · split
    · decide
    · split
      · decide
      · exact nofun

theorem snapshot_running (hf : op.finished = false) : op.snapshot.outcome = .running := by
  simp [Operation.snapshot, hf]

theorem closed_snapshot_terminal (op : Operation) (status : Int) (now : Time)
    (stamp : String) : (op.closed status now stamp).snapshot.outcome ≠ .running :=
  finalResult_ne_running op.row status

theorem snapshot_ofOperation (h : OfOperation start op.row) :
    OfOperation start op.snapshot := h.congr rfl

theorem running_isSnapshot (hf : op.finished = false) (h : OfOperation start op.row) :
    IsSnapshot start op.snapshot where
  ofOperation := snapshot_ofOperation h
  metadata := marshalled_ne_empty op
  closing := fun hr => absurd (snapshot_running hf) hr

theorem closed_isSnapshot (status : Int) (now : Time) (stamp : String)
    (h : OfOperation start op.row) : IsSnapshot start (op.closed status now stamp).snapshot where
  ofOperation := h.congr rfl
  metadata := marshalled_ne_empty (op.closed status now stamp)
  closing := fun _ => ⟨rfl, rfl⟩

/-- A finished operation produces nothing any more. -/
theorem emitted_of_finished : ∀ (cs : List Call) {op : Operation},
    op.finished = true → op.emitted cs = [] := by
  intro cs
  induction cs with
  | nil => intro op _; rfl
  | cons c cs ih =>
    intro op hf
    obtain ⟨hn, he⟩ | ⟨ho, -⟩ | ⟨status, now, stamp, ho, -⟩ := call_cases op c
    · rw [Operation.emitted, hn, ih (he.finished.trans hf)]
      rfl
    · rw [hf] at ho
      cases ho
    · rw [hf] at ho
      cases ho

/-- **The three shapes of a run**: its first call is silent, produces a
running snapshot, or produces the terminal one, which is then the only one. -/
theorem emitted_cons_cases (op : Operation) (c : Call) (cs : List Call) :
    ∃ op', (Evolves op op' ∧ op.emitted (c :: cs) = op'.emitted cs) ∨
      (op'.finished = false ∧ Evolves op op' ∧
        op.emitted (c :: cs) = op'.snapshot :: op'.emitted cs) ∨
      (∃ status now stamp, op' = op.closed status now stamp ∧
        op.emitted (c :: cs) = [op'.snapshot]) := by
  refine ⟨(op.call c).1, ?_⟩
  obtain ⟨hn, he⟩ | ⟨ho, he, hs⟩ | ⟨status, now, stamp, -, hs⟩ := call_cases op c
  · refine .inl ⟨he, ?_⟩
    rw [Operation.emitted, hn]
    rfl
  · refine .inr (.inl ⟨he.finished.trans ho, he, ?_⟩)
    rw [Operation.emitted, hs]
    rfl
  · refine .inr (.inr ⟨status, now, stamp, by rw [hs], ?_⟩)
    -- nothing follows the terminal snapshot
    have hfin : (op.closed status now stamp).finished = true := rfl
    rw [Operation.emitted, hs, emitted_of_finished cs hfin]
    rfl

/-- **Every snapshot of an operation is one `Upsert` may rely on.** -/
theorem emitted_isSnapshot : ∀ (cs : List Call) {op : Operation},
    OfOperation start op.row → ∀ v ∈ op.emitted cs, IsSnapshot start v := by
  intro cs
  induction cs with
  | nil => intro op _ v hv; cases hv
  | cons c cs ih =>
    intro op h v hv
    obtain ⟨op', ⟨he, hs⟩ | ⟨hf, he, hs⟩ | ⟨status, now, stamp, rfl, hs⟩⟩ :=
      emitted_cons_cases op c cs
    · rw [hs] at hv
      exact ih (he.ofOperation start h) v hv
    · rw [hs] at hv
      obtain rfl | hv := List.mem_cons.mp hv
      · exact running_isSnapshot hf (he.ofOperation start h)
      · exact ih (he.ofOperation start h) v hv
    · rw [hs] at hv
      obtain rfl := List.mem_singleton.mp hv
      exact closed_isSnapshot status now stamp h

/-- **An operation has one terminal snapshot at most.** -/
theorem emitted_terminal_unique : ∀ (cs : List Call) {op : Operation} {t t' : UsageLog},
    t ∈ op.emitted cs → t' ∈ op.emitted cs → t.outcome ≠ .running → t'.outcome ≠ .running →
    t = t' := by
  intro cs
  induction cs with
  | nil => intro op t t' ht; cases ht
  | cons c cs ih =>
    intro op t t' ht ht' hn hn'
    obtain ⟨op', ⟨he, hs⟩ | ⟨hf, he, hs⟩ | ⟨status, now, stamp, rfl, hs⟩⟩ :=
      emitted_cons_cases op c cs
    · rw [hs] at ht ht'
      exact ih ht ht' hn hn'
    · -- the head is a running snapshot, so both are in the tail
      rw [hs] at ht ht'
      have tail : ∀ {x : UsageLog}, x ∈ op'.snapshot :: op'.emitted cs →
          x.outcome ≠ .running → x ∈ op'.emitted cs := by
        intro x hx hxn
        obtain rfl | hx := List.mem_cons.mp hx
        · exact absurd (snapshot_running hf) hxn
        · exact hx
      exact ih (tail ht hn) (tail ht' hn') hn hn'
    · rw [hs] at ht ht'
      rw [List.mem_singleton.mp ht, List.mem_singleton.mp ht']

end Talus.Usage
