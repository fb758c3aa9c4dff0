/-
  Talus.Usage.Convergence
  **TWO WRITERS OF ONE ROW CONVERGE.**

  Whatever order, duplication or loss the snapshots of an operation suffer on
  their way to the table, and however the reconcile passes cut in:

    • `state_seq` never goes down,
    • a business-terminal row is never written again,
    • the status moves along `StatusChange` only,
    • once the terminal snapshot has been applied the row is what the columns
      keep of that snapshot, but for the two the insert assigned (`id`,
      `recorded_at`).

  Everything follows from `RowMove`, which says once what a transaction can do
  to a row that exists.
-/
import Talus.Usage.Operation

namespace Talus.Usage

open Talus.Base

variable {cfg : Config} {s s' : Store} {o : OperationID} {now : Time}

/-! ## §1. Preparing the input. -/

variable {input v : UsageLog}

theorem prepare_settles (h : prepare cfg input = .ok v) : input.defaulted.settleTimes = .ok v := by
  unfold prepare at h
  split at h
  · cases h
  split at h
  · cases h
  · split at h
    · cases h
    · exact h

/-- What `settleTimes` leaves alone. -/
structure SameCore (v w : UsageLog) : Prop where
  operationID : w.operationID = v.operationID
  action : w.action = v.action
  outcome : w.outcome = v.outcome
  stateSeq : w.stateSeq = v.stateSeq
  ownerInstanceID : w.ownerInstanceID = v.ownerInstanceID
  running : v.outcome = .running → w.recoveryReason = .empty
  closed : v.outcome ≠ .running → w.recoveryReason = v.recoveryReason

theorem settleTimes_core {w : UsageLog} (h : v.settleTimes = .ok w) : SameCore v w := by
  unfold UsageLog.settleTimes at h
  split at h
  · next hr =>
    cases h
    exact ⟨rfl, rfl, rfl, rfl, rfl, fun _ => rfl, fun hn => absurd hr hn⟩
  · next hr =>
    -- the three closed branches differ in where `retentionAt` comes from
    split at h
    · cases h
      exact ⟨rfl, rfl, rfl, rfl, rfl, fun h0 => absurd h0 hr, fun _ => rfl⟩
    · split at h
      · cases h
        exact ⟨rfl, rfl, rfl, rfl, rfl, fun h0 => absurd h0 hr, fun _ => rfl⟩
      · split at h
        · cases h
          exact ⟨rfl, rfl, rfl, rfl, rfl, fun h0 => absurd h0 hr, fun _ => rfl⟩
        · cases h

theorem prepare_core (h : prepare cfg input = .ok v) : SameCore input v := by
  obtain ⟨h₁, h₂, h₃, h₄, h₅, h₆, h₇⟩ := settleTimes_core (prepare_settles h)
  exact ⟨h₁, h₂, h₃, h₄, h₅, h₆, h₇⟩

/-- A snapshot as `Upsert` writes it: `started_at` has microseconds. -/
def UsageLog.truncated (v : UsageLog) : UsageLog :=
  { v with startedAt := truncateMicros v.startedAt }

/-- A terminal snapshot is written as it is. -/
theorem prepare_terminal {start : UsageLog} (hs : IsSnapshot start input)
    (hn : input.outcome ≠ .running) (h : prepare cfg input = .ok v) : v = input.truncated := by
  have hset := prepare_settles h
  obtain ⟨hf, hret⟩ := hs.closing hn
  have hdef : input.defaulted = input.truncated := by
    have hsrc : input.source ≠ .unset := by
      rw [hs.ofOperation.source]
      decide
    unfold UsageLog.defaulted UsageLog.truncated
    rw [if_neg hsrc, if_neg hs.ofOperation.authType, if_neg hs.metadata]
  rw [hdef] at hset
  unfold UsageLog.settleTimes at hset
  rw [if_neg (show input.truncated.outcome ≠ .running from hn),
    if_pos (show input.truncated.finishedAt.isSome = true from hf)] at hset
  cases hset
  -- `retention_at` already is `finished_at`
  show { input.truncated with retentionAt := input.finishedAt } = input.truncated
  rw [← hret]
  rfl

/-! ## §2. What a transaction can do to a row. -/

/-- The three ways a transaction `Upsert` can end well. -/
theorem upsert_cases {b : Bool} (h : upsert cfg s now input = .ok (s', b)) :
    ∃ v, prepare cfg input = .ok v ∧
      ((b = false ∧ s' = s ∧
          ∀ old, s.logs v.operationID = some old → old.supersededBy v = false) ∨
       (b = true ∧ s.logs v.operationID = none ∧ s' = s.insertLog now (v.columns cfg)) ∨
       (b = true ∧ ∃ old, s.logs v.operationID = some old ∧ old.sameIdentity v = true ∧
          old.supersededBy v = true ∧
          s' = s.setLog v.operationID (old.overwrite (v.columns cfg)))) := by
  unfold upsert at h
  split at h
  · cases h
  · next v hv =>
    have hm : merge cfg s now v = .ok (s', b) := by
      split at h
      · exact h
      · split at h
        · cases h
        · exact h
    refine ⟨v, hv, ?_⟩
    unfold merge at hm
    split at hm
    · next hnone =>
      split at hm
      · injection hm with hm
        injection hm with h1 h2
        refine .inl ⟨h2.symm, h1.symm, fun old hold => ?_⟩
        rw [hnone] at hold
        cases hold
      · injection hm with hm
        injection hm with h1 h2
        exact .inr (.inl ⟨h2.symm, hnone, h1.symm⟩)
    · next old hold =>
      split at hm
      · cases hm
      · next hid =>
        split at hm
        · next hsup =>
          injection hm with hm
          injection hm with h1 h2
          exact .inr (.inr ⟨h2.symm, old, hold, by simpa using hid, hsup, h1.symm⟩)
        · next hsup =>
          injection hm with hm
          injection hm with h1 h2
          refine .inl ⟨h2.symm, h1.symm, fun old' hold' => ?_⟩
          rw [hold] at hold'
          injection hold' with hold'
          rw [← hold']
          simpa using hsup

/-- A reconcile pass may mark a running row for any reason, and one whose
lease had expired as unavailable. -/
def Markable (r : UsageLog) (reason : RecoveryReason) : Prop :=
  (r.outcome = .running ∧ reason ≠ .empty) ∨
    (r.outcome = .unknown ∧ r.recoveryReason = .ownerLeaseExpired ∧
      reason = .finalizationUnavailable)

/-- **What a transaction can do to a row that exists.** -/
inductive RowMove (cfg : Config) (s : Store) (o : OperationID) :
    Txn → UsageLog → UsageLog → Prop
  | same {t : Txn} {r : UsageLog} : RowMove cfg s o t r r
  | update {now : Time} {input v r : UsageLog} :
      prepare cfg input = .ok v → input.operationID = o → r.sameIdentity v = true →
      r.supersededBy v = true → RowMove cfg s o (.upsert now input) r (r.overwrite (v.columns cfg))
  | mark {self id : InstanceID} {now : Time} {tracked locked : List OperationID}
      {remaining : Nat} {r : UsageLog} :
      Markable r (s.recoveryReason now id) → r.ownerInstanceID = some id →
      (s.stale now id = false → id = self ∧ tracked.contains r.operationID = false) →
      RowMove cfg s o (.reconcile self id now tracked locked remaining) r
        (r.mark (s.recoveryReason now id) now)

@[simp] theorem setLog_logs (s : Store) (o i : OperationID) (r : UsageLog) :
    (s.setLog o r).logs i = if i = o then some r else s.logs i := rfl

@[simp] theorem insertLog_logs (s : Store) (now : Time) (v : UsageLog) (i : OperationID) :
    (s.insertLog now v).logs i =
      if i = v.operationID then some { v with id := s.nextID, recordedAt := now }
      else s.logs i := rfl

theorem storeStep_upsert_error {e : UsageError}
    (h : upsert cfg s now input = .error e) : storeStep cfg s (.upsert now input) = s := by
  simp only [storeStep, h]
  rfl

theorem storeStep_upsert_ok {b : Bool}
    (h : upsert cfg s now input = .ok (s', b)) : storeStep cfg s (.upsert now input) = s' := by
  simp only [storeStep, h]
  rfl

/-- The owner calls leave the rows alone. -/
theorem storeStep_register_logs (id : InstanceID) :
    (storeStep cfg s (.register now id)).logs = s.logs := by
  simp only [storeStep, Store.registerInstance]
  cases s.instances id with
  | none =>
    dsimp only
    split
    · rfl
    · rfl
  | some owner =>
    cases s.lockOwner now id true with
    | error e => rfl
    | ok i => rfl

theorem storeStep_heartbeat_logs (id : InstanceID) :
    (storeStep cfg s (.heartbeat now id)).logs = s.logs := by
  simp only [storeStep, Store.heartbeat]
  cases s.lockOwner now id false with
  | error e => rfl
  | ok i => rfl

variable {r : UsageLog}

theorem upsert_row (hr : s.logs o = some r) :
    ∃ r', (storeStep cfg s (.upsert now input)).logs o = some r' ∧
      RowMove cfg s o (.upsert now input) r r' := by
  cases hu : upsert cfg s now input with
  | error e =>
    rw [storeStep_upsert_error hu]
    exact ⟨r, hr, .same⟩
  | ok res =>
    obtain ⟨s₁, b⟩ := res
    rw [storeStep_upsert_ok hu]
    obtain ⟨v, hv, ⟨-, rfl, -⟩ | ⟨-, hnone, rfl⟩ | ⟨-, old, hold, hid, hsup, rfl⟩⟩ := upsert_cases hu
    · exact ⟨r, hr, .same⟩
    · -- the insert is of another operation: this one has a row
      have hne : o ≠ (v.columns cfg).operationID := by
        intro heq
        rw [show v.operationID = o from heq.symm, hr] at hnone
        cases hnone
      rw [insertLog_logs, if_neg hne]
      exact ⟨r, hr, .same⟩
    · rw [setLog_logs]
      by_cases heq : o = v.operationID
      · rw [if_pos heq]
        rw [← heq, hr] at hold
        cases hold
        have ho : input.operationID = o := by rw [heq, (prepare_core hv).operationID]
        exact ⟨_, rfl, .update hv ho hid hsup⟩
      · rw [if_neg heq]
        exact ⟨r, hr, .same⟩

theorem mem_records {P : UsageLog → Bool} {locked : List OperationID} {remaining : Nat}
    (hr : s.logs o = some r) (h : o ∈ s.records P locked remaining) :
    P r = true := by
  have hf := List.mem_of_mem_take h
  have hp := (List.mem_filter.mp hf).2
  simp only [hr, Option.any_some, Bool.and_eq_true] at hp
  exact hp.2

/-- The reason a pass gives is never empty, and is unavailability only for an
owner that is not stale. -/
theorem recoveryReason_spec (s : Store) (now : Time) (id : InstanceID) :
    s.recoveryReason now id ≠ .empty ∧
      (s.recoveryReason now id = .finalizationUnavailable ↔ s.stale now id = false) := by
  unfold Store.recoveryReason Store.stale
  cases s.instances id with
  | none => simp
  | some owner =>
    dsimp only
    split
    · next h => simp [h]
    · next h => simp [h]

theorem selects_markable {stale : Bool} {id : InstanceID} {tracked : List OperationID}
    {reason : RecoveryReason} (hreason : reason ≠ .empty)
    (hfin : reason = .finalizationUnavailable ↔ stale = false)
    (h : selects cfg stale id now tracked r = true) :
    Markable r reason ∧ r.ownerInstanceID = some id ∧
      (stale = false → tracked.contains r.operationID = false) := by
  unfold selects at h
  rw [Bool.and_eq_true] at h
  obtain ⟨howner, h⟩ := h
  refine ⟨?_, by simpa using howner, ?_⟩
  · cases stale with
    | true => exact .inl ⟨by simpa using h, hreason⟩
    | false =>
      simp only [Bool.false_eq_true, if_false, Bool.and_eq_true, Bool.or_eq_true,
        decide_eq_true_eq] at h
      obtain ⟨⟨hrun | ⟨hu, hl⟩, -⟩, -⟩ := h
      · exact .inl ⟨hrun, hreason⟩
      · exact .inr ⟨hu, hl, hfin.mpr rfl⟩
  · intro hs
    subst hs
    simp only [Bool.false_eq_true, if_false, Bool.and_eq_true] at h
    simpa using h.2

theorem reconcile_row {self id : InstanceID} {tracked locked : List OperationID}
    {remaining : Nat} (hr : s.logs o = some r) :
    ∃ r', (reconcileOwner cfg s self id now tracked locked remaining).logs o = some r' ∧
      RowMove cfg s o (.reconcile self id now tracked locked remaining) r r' := by
  unfold reconcileOwner
  dsimp only
  split
  · exact ⟨r, hr, .same⟩
  · next hlive =>
    simp only [Store.markRecords, hr, Option.map_some]
    refine ⟨_, rfl, ?_⟩
    split
    · exact .same
    · next hmem =>
      split
      · exact .same
      · split
        · -- the row was selected by the `WHERE` clause
          have hin : o ∈ s.records (selects cfg (s.stale now id) id now tracked) locked
              remaining := by simpa using hmem
          obtain ⟨hne, hfin⟩ := recoveryReason_spec s now id
          obtain ⟨hmark, howner, htr⟩ := selects_markable hne hfin (mem_records hr hin)
          refine .mark hmark howner fun hst => ⟨?_, htr hst⟩
          by_contra hc
          exact hlive ⟨hst, hc⟩
        · exact .same

/-- **The inversion lemma**: rows stay, and move by `RowMove`. -/
theorem storeStep_row (t : Txn) (hr : s.logs o = some r) :
    ∃ r', (storeStep cfg s t).logs o = some r' ∧ RowMove cfg s o t r r' := by
  cases t with
  | upsert now v => exact upsert_row hr
  | reconcile self id now tracked locked remaining => exact reconcile_row hr
  | register now id =>
    rw [storeStep_register_logs]
    exact ⟨r, hr, .same⟩
  | heartbeat now id =>
    rw [storeStep_heartbeat_logs]
    exact ⟨r, hr, .same⟩

variable {r' : UsageLog}

/-- A row that appears was inserted by an `Upsert` of its operation. -/
theorem storeStep_new (t : Txn) (hn : s.logs o = none) (hr : (storeStep cfg s t).logs o = some r') :
    ∃ now input v, t = .upsert now input ∧ prepare cfg input = .ok v ∧
      input.operationID = o ∧ r' = { v.columns cfg with id := s.nextID, recordedAt := now } := by
  -- a transaction that leaves the table's rows alone makes none appear
  have still : s.logs o = some r' → False := fun h => by
    rw [hn] at h
    cases h
  cases t with
  | upsert now input =>
    cases hu : upsert cfg s now input with
    | error e =>
      rw [storeStep_upsert_error hu] at hr
      exact (still hr).elim
    | ok res =>
      obtain ⟨s₁, b⟩ := res
      rw [storeStep_upsert_ok hu] at hr
      obtain ⟨v, hv, ⟨-, rfl, -⟩ | ⟨-, hnone, rfl⟩ | ⟨-, old, hold, hid, hsup, rfl⟩⟩ :=
        upsert_cases hu
      · exact (still hr).elim
      · rw [insertLog_logs] at hr
        split at hr
        · next heq =>
          injection hr with hr
          have ho : input.operationID = o := (prepare_core hv).operationID.symm.trans heq.symm
          exact ⟨now, input, v, rfl, hv, ho, hr.symm⟩
        · exact (still hr).elim
      · rw [setLog_logs] at hr
        split at hr
        · next heq =>
          rw [← heq, hn] at hold
          cases hold
        · exact (still hr).elim
  | reconcile self id now tracked locked remaining =>
    simp only [storeStep, reconcileOwner] at hr
    split at hr
    · exact (still hr).elim
    · simp [Store.markRecords, hn] at hr
  | register now id =>
    rw [storeStep_register_logs] at hr
    exact (still hr).elim
  | heartbeat now id =>
    rw [storeStep_heartbeat_logs] at hr
    exact (still hr).elim

/-- Where a row of the new table comes from. -/
theorem storeStep_origin (t : Txn) (hr : (storeStep cfg s t).logs o = some r') :
    (∃ r, s.logs o = some r ∧ RowMove cfg s o t r r') ∨
      s.logs o = none ∧ ∃ now input v, t = .upsert now input ∧ prepare cfg input = .ok v ∧
        input.operationID = o ∧ r' = { v.columns cfg with id := s.nextID, recordedAt := now } := by
  cases hl : s.logs o with
  | none => exact .inr ⟨rfl, storeStep_new t hl hr⟩
  | some r =>
    obtain ⟨r₂, hr₂, hmove⟩ := storeStep_row t hl
    cases hr.symm.trans hr₂
    exact .inl ⟨r, rfl, hmove⟩

/-! ## §3. Status. -/

/-- What a row says about its operation: it runs, it ended, or the pass that
recovered the row could not tell. -/
inductive Status
  | running
  | terminal (outcome : Outcome)
  | recovered (reason : RecoveryReason)
  deriving Repr, DecidableEq

def UsageLog.status (r : UsageLog) : Status :=
  match r.outcome, r.recoveryReason with
  | .running, _ => .running
  | .unknown, .empty => .terminal .unknown
  | .unknown, reason => .recovered reason
  | outcome, _ => .terminal outcome

/-- The row holds what the business reported. -/
def BusinessTerminal (r : UsageLog) : Prop := ∃ outcome, r.status = .terminal outcome

/-- **The status changes a row can go through.** -/
inductive StatusChange : Status → Status → Prop
  | finish {outcome : Outcome} : outcome ≠ .running → StatusChange .running (.terminal outcome)
  | lose {reason : RecoveryReason} : reason ≠ .empty →
      StatusChange .running (.recovered reason)
  | resume : StatusChange (.recovered .ownerLeaseExpired) .running
  | giveUp : StatusChange (.recovered .ownerLeaseExpired) (.recovered .finalizationUnavailable)
  | finishExpired {outcome : Outcome} : outcome ≠ .running →
      StatusChange (.recovered .ownerLeaseExpired) (.terminal outcome)
  | finishUnavailable {outcome : Outcome} : outcome ≠ .running →
      StatusChange (.recovered .finalizationUnavailable) (.terminal outcome)

theorem status_of_running (h : r.outcome = .running) : r.status = .running := by
  simp [UsageLog.status, h]

theorem status_of_recovered (h : r.outcome = .unknown)
    (hr : r.recoveryReason ≠ .empty) : r.status = .recovered r.recoveryReason := by
  unfold UsageLog.status
  rw [h]
  cases hreason : r.recoveryReason with
  | empty => exact absurd hreason hr
  | ownerLeaseExpired => rfl
  | finalizationUnavailable => rfl
  | ownerMissing => rfl

theorem status_of_empty (h : r.recoveryReason = .empty)
    (hn : r.outcome ≠ .running) : r.status = .terminal r.outcome := by
  unfold UsageLog.status
  rw [h]
  cases ho : r.outcome with
  | running => exact absurd ho hn
  | succeeded | failed | rejected | cancelled | unknown => rfl

/-- The two statuses `recoveryUnknown` recognises. -/
theorem recoveryUnknown_cases (h : r.recoveryUnknown = true) :
    r.outcome = .unknown ∧ (r.recoveryReason = .ownerLeaseExpired ∨
      r.recoveryReason = .finalizationUnavailable) := by
  simpa [UsageLog.recoveryUnknown] using h

theorem businessTerminal_closed (h : BusinessTerminal r) :
    r.outcome ≠ .running ∧ (r.outcome = .unknown → r.recoveryReason = .empty) := by
  obtain ⟨outcome, h⟩ := h
  constructor
  · intro hr
    rw [status_of_running hr] at h
    cases h
  · intro hu
    by_contra hne
    rw [status_of_recovered hu hne] at h
    cases h

theorem supersededBy_spec {old : UsageLog} (h : old.supersededBy v = true) :
    (old.outcome = .running ∨ old.recoveryUnknown = true) ∧ old.stateSeq < v.stateSeq ∧
      (old.recoveryUnknown = true → v.outcome = .running →
        old.recoveryReason = .ownerLeaseExpired) := by
  unfold UsageLog.supersededBy at h
  split at h
  · cases h
  · next h₁ =>
    split at h
    · cases h
    · next h₂ =>
      split at h
      · cases h
      · next h₃ =>
        refine ⟨?_, by omega, ?_⟩
        · by_cases hr : old.outcome = .running
          · exact .inl hr
          · refine .inr ?_
            simpa [hr] using h₁
        · intro hrec hrun
          by_contra hne
          exact h₃ ⟨hrec, hrun, hne⟩

/-- The transaction, if it is an `Upsert` of `o`, delivers one of `snaps`. -/
def Delivers (snaps : List UsageLog) (o : OperationID) : Txn → Prop
  | .upsert _ v => v.operationID = o → v ∈ snaps
  | _ => True

/-- A snapshot leaves its own status, running or terminal. -/
theorem overwrite_status {start : UsageLog} (old : UsageLog) (hs : IsSnapshot start input)
    (hv : prepare cfg input = .ok v) :
    (input.outcome = .running ∧ (old.overwrite (v.columns cfg)).status = .running) ∨
      (input.outcome ≠ .running ∧
        (old.overwrite (v.columns cfg)).status = .terminal input.outcome) := by
  have hc := prepare_core hv
  by_cases hr : input.outcome = .running
  · exact .inl ⟨hr, status_of_running (hc.outcome.trans hr)⟩
  · refine .inr ⟨hr, ?_⟩
    have hreason : v.recoveryReason = .empty := by
      rw [hc.closed hr, hs.ofOperation.recoveryReason]
    have hst : (old.overwrite (v.columns cfg)).status = .terminal v.outcome :=
      status_of_empty (r := old.overwrite (v.columns cfg)) hreason
        (by rw [← hc.outcome] at hr; exact hr)
    rw [hst, hc.outcome]

/-- **One transaction, one row**: its sequence does not go down, a business
result stays, and the status moves as allowed. -/
structure RowKept (r r' : UsageLog) : Prop where
  seq : r.stateSeq ≤ r'.stateSeq
  terminal : BusinessTerminal r → r' = r
  status : r'.status = r.status ∨ StatusChange r.status r'.status

theorem update_kept {start : UsageLog} (hs : IsSnapshot start input)
    (hv : prepare cfg input = .ok v) (hsup : r.supersededBy v = true) :
    RowKept r (r.overwrite (v.columns cfg)) := by
  obtain ⟨hopen, hseq, hresume⟩ := supersededBy_spec hsup
  refine ⟨Nat.le_of_lt hseq, ?_, ?_⟩
  · -- a business result is neither running nor recovered
    intro ht
    obtain ⟨hnr, hun⟩ := businessTerminal_closed ht
    rcases hopen with hr | hr
    · exact absurd hr hnr
    · obtain ⟨hu, hl | hl⟩ := recoveryUnknown_cases hr
      · rw [hun hu] at hl
        cases hl
      · rw [hun hu] at hl
        cases hl
  · rcases hopen with hr | hr
    · rw [status_of_running hr]
      obtain ⟨-, hst⟩ | ⟨hn, hst⟩ := overwrite_status r hs hv
      · exact .inl hst
      · rw [hst]
        exact .inr (.finish hn)
    · obtain ⟨hu, hreason⟩ := recoveryUnknown_cases hr
      have hne : r.recoveryReason ≠ .empty := by
        rcases hreason with h | h <;> rw [h] <;> decide
      rw [status_of_recovered hu hne]
      right
      obtain ⟨hin, hst⟩ | ⟨hn, hst⟩ := overwrite_status r hs hv
      · rw [hst, hresume hr ((prepare_core hv).outcome.trans hin)]
        exact .resume
      · rw [hst]
        rcases hreason with h | h
        · rw [h]
          exact .finishExpired hn
        · rw [h]
          exact .finishUnavailable hn

theorem mark_kept {reason : RecoveryReason} (hm : Markable r reason) :
    RowKept r (r.mark reason now) := by
  have hne : reason ≠ .empty := by
    rcases hm with ⟨-, h⟩ | ⟨-, -, h⟩
    · exact h
    · rw [h]
      decide
  have hst : (r.mark reason now).status = .recovered reason :=
    status_of_recovered (r := r.mark reason now) rfl hne
  refine ⟨Nat.le_refl _, ?_, ?_⟩
  · intro ht
    obtain ⟨hnr, hun⟩ := businessTerminal_closed ht
    rcases hm with ⟨hr, -⟩ | ⟨hu, hl, -⟩
    · exact absurd hr hnr
    · rw [hun hu] at hl
      cases hl
  · right
    rw [hst]
    rcases hm with ⟨hr, -⟩ | ⟨hu, hl, hf⟩
    · rw [status_of_running hr]
      exact .lose hne
    · rw [status_of_recovered hu (by rw [hl]; decide), hl, hf]
      exact .giveUp

theorem rowMove_kept {start : UsageLog} {snaps : List UsageLog} {t : Txn}
    (hsnaps : ∀ v ∈ snaps, IsSnapshot start v) (hd : Delivers snaps o t)
    (h : RowMove cfg s o t r r') : RowKept r r' := by
  cases h with
  | same => exact ⟨Nat.le_refl _, fun _ => rfl, .inl rfl⟩
  | update hv ho hid hsup => exact update_kept (hsnaps _ (hd ho)) hv hsup
  | mark hm howner hlive => exact mark_kept hm

/-! ## §4. Whole deliveries. -/

/-- A run of the tables in which every `Upsert` of `o` delivers one of
`snaps`: any of them, in any order, any number of times. -/
structure Delivery (cfg : Config) (snaps : List UsageLog) (o : OperationID)
    (s : Store) (ts : List Txn) (s' : Store) : Prop where
  run : (storeSystem cfg).run s ts = some s'
  delivers : ∀ t ∈ ts, Delivers snaps o t

/-- What one delivering transaction preserves, a delivery preserves. -/
theorem Delivery.invariant {snaps : List UsageLog} {ts : List Txn} {I : Store → Prop}
    (h : Delivery cfg snaps o s ts s')
    (hstep : ∀ s t, Delivers snaps o t → I s → I (storeStep cfg s t)) (hs : I s) : I s' := by
  refine System.along_invariant (P := fun _ t => Delivers snaps o t) ?_ ts s s'
    (System.along_of_forall ts s h.delivers) hs h.run
  intro s t s' hd hI hst
  cases hst
  exact hstep s t hd hI

variable {start : UsageLog} {snaps : List UsageLog} {ts : List Txn}

/-- Over a whole delivery the row stays, its sequence does not go down and a
business result does not change. -/
theorem Delivery.row (hsnaps : ∀ v ∈ snaps, IsSnapshot start v)
    (h : Delivery cfg snaps o s ts s') (hr : s.logs o = some r) :
    ∃ r', s'.logs o = some r' ∧ r.stateSeq ≤ r'.stateSeq ∧ (BusinessTerminal r → r' = r) := by
  refine h.invariant (I := fun s' => ∃ r', s'.logs o = some r' ∧ r.stateSeq ≤ r'.stateSeq ∧
    (BusinessTerminal r → r' = r)) ?_ ⟨r, hr, Nat.le_refl _, fun _ => rfl⟩
  intro s₁ t hd ⟨r₁, hr₁, hseq, hterm⟩
  obtain ⟨r₂, hr₂, hmove⟩ := storeStep_row t hr₁
  have hkept := rowMove_kept hsnaps hd hmove
  refine ⟨r₂, hr₂, Nat.le_trans hseq hkept.seq, fun ht => ?_⟩
  have heq : r₁ = r := hterm ht
  rw [heq] at hkept
  exact hkept.terminal ht

/-- The row of an operation, stored from its snapshots: an open one got its
sequence from a running snapshot. -/
structure RowOf (start : UsageLog) (snaps : List UsageLog) (o : OperationID)
    (r : UsageLog) : Prop where
  operationID : r.operationID = o
  action : r.action = start.action
  seq : ∃ v ∈ snaps, r.stateSeq = v.stateSeq ∧
    (r.outcome = .running ∨ r.recoveryUnknown = true → v.outcome = .running)

/-- A snapshot stored over a row, or as a new one, makes a row of the
operation. -/
theorem rowOf_stored (hs : IsSnapshot start input) (hin : input ∈ snaps)
    (hv : prepare cfg input = .ok v) (ho : r.operationID = o) (ha : r.action = start.action)
    (hseq : r.stateSeq = v.stateSeq) (hout : r.outcome = v.outcome)
    (hreason : r.recoveryReason = v.recoveryReason) : RowOf start snaps o r := by
  have hc := prepare_core hv
  refine ⟨ho, ha, input, hin, hseq.trans hc.stateSeq, ?_⟩
  rintro (hr | hr)
  · rw [← hc.outcome, ← hout, hr]
  · by_contra hn
    obtain ⟨-, h⟩ := recoveryUnknown_cases hr
    rw [hreason, hc.closed hn, hs.ofOperation.recoveryReason] at h
    rcases h with h | h <;> cases h

theorem rowMove_rowOf {t : Txn} (hsnaps : ∀ v ∈ snaps, IsSnapshot start v) (hd : Delivers snaps o t)
    (h : RowMove cfg s o t r r') (hr : RowOf start snaps o r) : RowOf start snaps o r' := by
  cases h with
  | same => exact hr
  | update hv ho hid hsup =>
    exact rowOf_stored (hsnaps _ (hd ho)) (hd ho) hv hr.operationID hr.action rfl rfl rfl
  | mark hm howner hlive =>
    obtain ⟨v, hv, hseq, hopen⟩ := hr.seq
    refine ⟨hr.operationID, hr.action, v, hv, hseq, fun _ => hopen ?_⟩
    -- only an open row is ever marked
    rcases hm with ⟨hrun, -⟩ | ⟨hu, hl, -⟩
    · exact .inl hrun
    · refine .inr ?_
      simp [UsageLog.recoveryUnknown, hu, hl]

theorem Delivery.rowOf (hsnaps : ∀ v ∈ snaps, IsSnapshot start v)
    (h : Delivery cfg snaps o s ts s') (hnone : s.logs o = none) :
    ∀ r, s'.logs o = some r → RowOf start snaps o r := by
  refine h.invariant (I := fun s => ∀ r, s.logs o = some r → RowOf start snaps o r) ?_ ?_
  · intro s t hd hI r' hr'
    obtain ⟨r, hl, hmove⟩ | ⟨-, now, input, v, rfl, hv, ho, rfl⟩ := storeStep_origin t hr'
    · exact rowMove_rowOf hsnaps hd hmove (hI r hl)
    · have hin := hd ho
      have hc := prepare_core hv
      refine rowOf_stored (hsnaps _ hin) hin hv (hc.operationID.trans ho) ?_ rfl rfl rfl
      show v.action = start.action
      rw [hc.action, (hsnaps _ hin).ofOperation.action]
  · intro r hr
    rw [hnone] at hr
    cases hr

/-- An update that keeps the identity leaves only what the insert assigned. -/
theorem overwrite_eq {old : UsageLog} (hid : old.sameIdentity v = true)
    (ho : old.operationID = v.operationID) (ha : old.action = v.action) :
    old.overwrite v = { v with id := old.id, recordedAt := old.recordedAt } := by
  simp only [UsageLog.sameIdentity, Bool.and_eq_true, decide_eq_true_eq] at hid
  obtain ⟨⟨⟨h₁, h₂⟩, h₃⟩, h₄⟩ := hid
  unfold UsageLog.overwrite
  rw [h₁, h₂, h₃, h₄, ho, ha]

/-- The row is what the columns keep of the snapshot `t`, but for what the table
assigned. -/
def Holds (cfg : Config) (s : Store) (o : OperationID) (t : UsageLog) : Prop :=
  ∃ rid recordedAt,
    s.logs o = some { t.truncated.columns cfg with id := rid, recordedAt := recordedAt }

variable {t : UsageLog}

theorem applied_holds {s₁ s₂ : Store}
    (hsnaps : ∀ v ∈ snaps, IsSnapshot start v) (ho : start.operationID = o) (ht : t ∈ snaps)
    (hn : t.outcome ≠ .running) (hrow : ∀ r, s₁.logs o = some r → RowOf start snaps o r)
    (h : upsert cfg s₁ now t = .ok (s₂, true)) : Holds cfg s₂ o t := by
  have hs := hsnaps t ht
  obtain ⟨v, hv, ⟨hb, -⟩ | ⟨-, -, rfl⟩ | ⟨-, old, hold, hid, -, rfl⟩⟩ := upsert_cases h
  · cases hb
  · -- inserted
    obtain rfl := prepare_terminal hs hn hv
    have hto : o = (t.truncated.columns cfg).operationID :=
      ho.symm.trans hs.ofOperation.operationID.symm
    refine ⟨s₁.nextID, now, ?_⟩
    rw [insertLog_logs, if_pos hto]
  · -- updated: the row is of this operation, so identity and action agree
    obtain rfl := prepare_terminal hs hn hv
    have hto : t.truncated.operationID = o := hs.ofOperation.operationID.trans ho
    rw [hto] at hold
    have hof := hrow old hold
    have hact : old.action = t.truncated.action := hof.action.trans hs.ofOperation.action.symm
    refine ⟨old.id, old.recordedAt, ?_⟩
    have hid' : old.sameIdentity (t.truncated.columns cfg) = true := hid
    rw [setLog_logs, if_pos hto.symm, overwrite_eq hid' (hof.operationID.trans hto.symm) hact]

/-- Once held, always held. -/
theorem Delivery.holds (hsnaps : ∀ v ∈ snaps, IsSnapshot start v)
    (ht : t ∈ snaps) (hn : t.outcome ≠ .running) (h : Delivery cfg snaps o s ts s')
    (hh : Holds cfg s o t) : Holds cfg s' o t := by
  obtain ⟨rid, recordedAt, hr⟩ := hh
  obtain ⟨r', hr', -, hkeep⟩ := h.row hsnaps hr
  refine ⟨rid, recordedAt, ?_⟩
  rw [hr', hkeep]
  refine ⟨t.outcome, ?_⟩
  exact status_of_empty (r := { t.truncated.columns cfg with id := rid, recordedAt := recordedAt })
    (hsnaps t ht).ofOperation.recoveryReason hn

/-! ## §5. Convergence. -/

/-- The snapshots one operation produces under the given calls. -/
def produced (o : OperationID) (began : Time) (action route requestID method client : String)
    (calls : List Call) : List UsageLog :=
  (newOperation o began action route requestID method client).emitted calls

theorem produced_isSnapshot (o : OperationID) (began : Time)
    (action route requestID method client : String) (calls : List Call) :
    ∀ v ∈ produced o began action route requestID method client calls,
      IsSnapshot (newOperation o began action route requestID method client).row v :=
  emitted_isSnapshot calls (newOperation_ofOperation o began action route requestID method client)

/-- A delivery, from a table without the row, in which an `Upsert` of `t` was
applied to the row. -/
def Settled (cfg : Config) (snaps : List UsageLog) (o : OperationID) (t : UsageLog)
    (s : Store) : Prop :=
  ∃ s₀ pre s₁ now s₂ post, s₀.logs o = none ∧ Delivery cfg snaps o s₀ pre s₁ ∧
    upsert cfg s₁ now t = .ok (s₂, true) ∧ Delivery cfg snaps o s₂ post s

theorem Settled.holds (hsnaps : ∀ v ∈ snaps, IsSnapshot start v)
    (ho : start.operationID = o) (ht : t ∈ snaps) (hn : t.outcome ≠ .running)
    (h : Settled cfg snaps o t s) : Holds cfg s o t := by
  obtain ⟨s₀, pre, s₁, now, s₂, post, hnone, hpre, hup, hpost⟩ := h
  have hap : Holds cfg s₂ o t := applied_holds hsnaps ho ht hn (hpre.rowOf hsnaps hnone) hup
  exact hpost.holds hsnaps ht hn hap

/-- **Usage-log convergence.**  For one operation, whatever calls it sees, and
with its snapshots delivered in any order and number between any other
transactions: a transaction keeps the row, does not lower its `state_seq`,
leaves a business-terminal row as it is and moves the status along
`StatusChange` only; once the terminal snapshot is applied, the final row is
what the columns keep of that snapshot but for `id` and `recorded_at`, so any
two final rows agree in all other columns. -/
theorem usage_log_converges (cfg : Config) (o : OperationID) (began : Time)
    (action route requestID method client : String) (calls : List Call) :
    (∀ s t r, Delivers (produced o began action route requestID method client calls) o t →
      s.logs o = some r → ∃ r', (storeStep cfg s t).logs o = some r' ∧
        r.stateSeq ≤ r'.stateSeq ∧ (BusinessTerminal r → r' = r) ∧
        (r'.status = r.status ∨ StatusChange r.status r'.status)) ∧
    (∀ t ∈ produced o began action route requestID method client calls,
      t.outcome ≠ .running → ∀ s,
      Settled cfg (produced o began action route requestID method client calls) o t s →
      Holds cfg s o t) ∧
    (∀ t ∈ produced o began action route requestID method client calls,
      ∀ t' ∈ produced o began action route requestID method client calls,
      t.outcome ≠ .running → t'.outcome ≠ .running → ∀ s s',
      Settled cfg (produced o began action route requestID method client calls) o t s →
      Settled cfg (produced o began action route requestID method client calls) o t' s' →
      ∃ r r', s.logs o = some r ∧ s'.logs o = some r' ∧
        r' = { r with id := r'.id, recordedAt := r'.recordedAt }) := by
  have hsnaps := produced_isSnapshot o began action route requestID method client calls
  refine ⟨?_, ?_, ?_⟩
  · intro s t r hd hr
    obtain ⟨r', hr', hmove⟩ := storeStep_row t hr
    have hkept := rowMove_kept hsnaps hd hmove
    exact ⟨r', hr', hkept.seq, hkept.terminal, hkept.status⟩
  · intro t ht hn s hset
    exact hset.holds hsnaps rfl ht hn
  · intro t ht t' ht' hn hn' s s' hset hset'
    -- there is one terminal snapshot, so both rows are that one
    obtain rfl : t = t' := emitted_terminal_unique calls ht ht' hn hn'
    obtain ⟨rid, at₁, hr⟩ := hset.holds hsnaps rfl ht hn
    obtain ⟨rid', at₂, hr'⟩ := hset'.holds hsnaps rfl ht' hn'
    exact ⟨_, _, hr, hr', rfl⟩

/-! ## §6. Two orders of delivery. -/

/-- The repository's defaults. -/
def defaultConfig : Config where
  leaseDuration := defaultLeaseDuration
  ordinaryRetention := defaultOrdinaryRetention
  sensitiveRetention := defaultSensitiveRetention
  reconcileGrace := 30 * second
  batchSize := 200
  jsonValid := fun _ => true
  timestamptz := truncateMicros
  jsonb := id

/-- One owner, with a lease until instant 100, and no rows. -/
def ownedStore : Store where
  logs := fun _ => none
  order := []
  instances := fun i =>
    if i = "hub" then some { lastSeenAt := 0, leaseUntil := 100, retiredAt := none } else none
  nextID := 1

/-- A command that an API key runs. -/
def execCalls : List Call :=
  [.set (.setPrincipal ⟨.apiKey, none, "", some 7, "ci", "tls"⟩), .start "hub",
    .finish 200 9 "t"]

def execSnapshots : List UsageLog :=
  produced "op" 1 "server.exec" "/exec" "req" "POST" "" execCalls

/-- Its running and its terminal snapshot. -/
def execRunning : UsageLog := execSnapshots.head (by decide)
def execFinal : UsageLog := execSnapshots.getLast (by decide)

theorem exec_delivers (now : Time) (h : v ∈ execSnapshots) :
    Delivers execSnapshots "op" (.upsert now v) := fun _ => h

theorem execRunning_mem : execRunning ∈ execSnapshots := List.head_mem _
theorem execFinal_mem : execFinal ∈ execSnapshots := List.getLast_mem _

/-- The running snapshot first, or second. -/
def runningFirst : Store :=
  storeStep defaultConfig (storeStep defaultConfig ownedStore (.upsert 5 execRunning))
    (.upsert 6 execFinal)

def runningSecond : Store :=
  storeStep defaultConfig (storeStep defaultConfig ownedStore (.upsert 6 execFinal))
    (.upsert 7 execRunning)

theorem runningFirst_settled : Settled defaultConfig execSnapshots "op" execFinal runningFirst := by
  refine ⟨ownedStore, [.upsert 5 execRunning], _, 6, runningFirst, [], rfl, ⟨rfl, ?_⟩, rfl, ⟨rfl, ?_⟩⟩
  · intro t ht
    rw [List.mem_singleton.mp ht]
    exact exec_delivers 5 execRunning_mem
  · intro t ht
    cases ht

theorem runningSecond_settled :
    Settled defaultConfig execSnapshots "op" execFinal runningSecond := by
  refine ⟨ownedStore, [], _, 6, _, [.upsert 7 execRunning], rfl, ⟨rfl, ?_⟩, rfl, ⟨rfl, ?_⟩⟩
  · intro t ht
    cases ht
  · intro t ht
    rw [List.mem_singleton.mp ht]
    exact exec_delivers 7 execRunning_mem

/-- Both deliveries apply the terminal snapshot, and the rows agree. -/
theorem usage_log_converges_exec :
    ∃ r r', runningFirst.logs "op" = some r ∧ runningSecond.logs "op" = some r' ∧
      r' = { r with id := r'.id, recordedAt := r'.recordedAt } :=
  (usage_log_converges defaultConfig "op" 1 "server.exec" "/exec" "req" "POST" ""
    execCalls).2.2 execFinal execFinal_mem execFinal execFinal_mem (by decide) (by decide)
    runningFirst runningSecond runningFirst_settled runningSecond_settled

/-- **The two final rows are not equal**: `recorded_at` is the instant of the
first insert. -/
theorem recorded_at_depends_on_order :
    Settled defaultConfig execSnapshots "op" execFinal runningFirst ∧
      Settled defaultConfig execSnapshots "op" execFinal runningSecond ∧
      (runningFirst.logs "op").map (·.recordedAt) = some 5 ∧
      (runningSecond.logs "op").map (·.recordedAt) = some 6 ∧
      execFinal.recordedAt = 1 ∧
      runningFirst.logs "op" ≠ runningSecond.logs "op" := by
  have h₁ : (runningFirst.logs "op").map (·.recordedAt) = some 5 := rfl
  have h₂ : (runningSecond.logs "op").map (·.recordedAt) = some 6 := rfl
  refine ⟨runningFirst_settled, runningSecond_settled, h₁, h₂, rfl, fun heq => ?_⟩
  rw [heq, h₂] at h₁
  exact absurd h₁ (by decide)

end Talus.Usage
