/-
  Talus.Usage.RetryQueues
  **THE TWO RETRY QUEUES KEEP THEIR BOOKS.**

  The queue of terminal snapshots (`pending`) and the one of audit events
  (`auditPending`) are both a bounded backlog whose entries fly while they are
  retried.  Every step of the recorder and every step on audit events is a
  `Step` of its backlog:

    • for snapshots, the entry that `Finish` offers is new, because a queued
      operation is through with its `Finish` (`CellOk.queued`),
    • for audit events, `WriteAudit` looks first.
-/
import Talus.Usage.Audit
import Talus.Usage.LiveOwner

namespace Talus.Usage

open Talus.Base

variable {cfg : Config} {opts : Options} {w w' : World} {o : OperationID} {cell : Cell}

/-! ## §1. The queue of snapshots as a backlog. -/

def usageGauge : Gauge PendingUsage OperationID where
  key p := p.row.operationID
  size := PendingUsage.bytes

def Options.limits (opts : Options) : Limits := ⟨opts.retryItems, opts.retryBytes⟩

def World.backlog (w : World) : Backlog PendingUsage :=
  ⟨w.pending, w.pendingBytes, w.stats.finalizationLost⟩

/-- `inFlight`. -/
def PendingUsage.inFlight (p : PendingUsage) : Bool := decide (p.flight ≠ .idle)

/-- The write that the entry waits for has been committed. -/
def Delivered (w : World) (p : PendingUsage) : Prop :=
  ∃ i wr, p.flight = .sent i ∧ w.writes[i]? = some wr ∧ wr.state = .committed

/-- The operation whose retrier acts. -/
def Label.retrier : Label → Option OperationID
  | .retry o (.write _ _ _) => some o
  | .retry o (.reply _ _ _) => some o
  | _ => none

/-- A step of the recorder on its backlog. -/
abbrev UsageStep (opts : Options) (w : World) (r : Option OperationID) (b : Backlog PendingUsage) :
    Prop :=
  Step usageGauge opts.limits PendingUsage.inFlight (Delivered w) w.backlog r b

theorem usageStep_same {r : Option OperationID} (h : w'.backlog = w.backlog) :
    UsageStep opts w r w'.backlog := by
  rw [h]
  exact .keep r w.backlog.lost

theorem enqueueUsage_backlog (row : UsageLog) (completion : Bool) (now : Time) (size : Nat)
    (delay : Duration) :
    (w.enqueueUsage opts row completion now size delay).backlog =
      w.backlog.offer usageGauge opts.limits
        { row := row, born := now, next := now + delay, bytes := size, attempts := 0
          flight := .idle, completion := completion } := by
  unfold World.enqueueUsage Backlog.offer
  by_cases hfull : opts.retryItems ≤ w.pending.length ∨ opts.retryBytes < w.pendingBytes + size
  · rw [if_pos hfull]
    exact (if_pos hfull).symm
  · rw [if_neg hfull]
    exact (if_neg hfull).symm

/-! ## §2. The calls of an operation. -/

/-- The end of `Finish` offers its snapshot, which is not queued, or none. -/
theorem finishSettle_step {row : UsageLog} {completion : Bool} {res : Option WriteError}
    (hok : CellOk w o cell) (hpc : cell.finishPC = .settling row completion res) (now : Time)
    (size : Nat) (delay : Duration) :
    UsageStep opts w none
      (w.finishSettle cfg opts o cell row completion res now size delay).backlog := by
  have hrow : row.operationID = o := (hok.finishRow row (by rw [hpc]; rfl)).operationID
  have hfresh : ∀ p ∈ w.pending, p.row.operationID ≠ row.operationID := by
    intro p hp hkey
    have hdone := hok.queued ⟨p, hp, hkey.trans hrow⟩
    rw [hpc] at hdone
    cases hdone
  cases res with
  | none => exact .keep none w.backlog.lost
  | some e =>
    show UsageStep opts w none
      (if !e.isPermanent && !snapshotExpired cfg row now then
        w.enqueueUsage opts row completion now size delay else w.countLost).backlog
    by_cases hagain : (!e.isPermanent && !snapshotExpired cfg row now) = true
    · rw [if_pos hagain, enqueueUsage_backlog]
      exact .offer _ hfresh
    · rw [if_neg hagain]
      exact .keep none (w.backlog.lost + 1)

/-- No other step of the calls touches the queue. -/
theorem cellStep_backlog {l : OpLabel} (hl : ∀ now size delay, l ≠ .finishSettle now size delay)
    (h : cellStep cfg opts w o cell l = some w') : w'.backlog = w.backlog := by
  cases l with
  | finishSettle now size delay => exact absurd rfl (hl now size delay)
  | edit e =>
    cases h
    rfl
  | admitShort budget =>
    obtain ⟨-, rfl⟩ := unlocked h
    unfold World.admitShort
    split
    · rfl
    · cases budget <;> rfl
  | beginEnter => obtain rfl | ⟨-, rfl⟩ := cellStep_beginEnter h <;> rfl
  | beginAdmit now budget =>
    obtain ⟨-, -, rfl⟩ := cellStep_beginAdmit h
    unfold World.beginAdmit
    split
    · rfl
    · split <;> rfl
  | beginStore =>
    obtain ⟨_, -, rfl⟩ := cellStep_beginStore h
    rfl
  | beginWrite slot => obtain ⟨_, -, rfl | rfl⟩ := cellStep_beginWrite h <;> rfl
  | beginReturn res => obtain ⟨_, -, rfl | rfl⟩ := cellStep_beginReturn h <;> rfl
  | finishEnter status now stamp => obtain rfl | ⟨-, rfl⟩ := cellStep_finishEnter h <;> rfl
  | finishDecide budget =>
    obtain ⟨_, -, -, rfl⟩ := cellStep_finishDecide h
    simp only [World.finishDecide]
    split
    · rfl
    · split
      · split <;> rfl
      · rfl
  | finishWrite slot => obtain ⟨_, _, -, rfl | rfl⟩ := cellStep_finishWrite h <;> rfl
  | finishReturn res =>
    obtain ⟨_, _, _, -, -, rfl⟩ := cellStep_finishReturn h
    cases res <;> rfl
  | persistPhase slot => obtain ⟨-, rfl | rfl⟩ := cellStep_persistPhase h <;> rfl
  | refreshRunning slot => obtain ⟨-, -, rfl | rfl⟩ := cellStep_refreshRunning h <;> rfl

theorem cellStep_step (hok : CellOk w o cell) {l : OpLabel}
    (h : cellStep cfg opts w o cell l = some w') : UsageStep opts w none w'.backlog := by
  by_cases hl : ∀ now size delay, l ≠ .finishSettle now size delay
  · exact usageStep_same (cellStep_backlog hl h)
  · simp only [not_forall, not_not] at hl
    obtain ⟨now, size, delay, rfl⟩ := hl
    obtain ⟨row, completion, res, hpc, -, rfl⟩ := cellStep_finishSettle h
    exact finishSettle_step hok hpc now size delay

/-! ## §3. `retryPending`. -/

variable {p : PendingUsage}

theorem setPending_step {p' : PendingUsage} {r : Option OperationID} (hp : p ∈ w.pending)
    (hrow : p'.row = p.row) (hbytes : p'.bytes = p.bytes)
    (hretrier : p.flight ≠ .idle → r = some p.row.operationID) :
    UsageStep opts w r (w.setPending p').backlog :=
  .put p' p r hp (congrArg UsageLog.operationID hrow) hbytes fun hfly =>
    hretrier (of_decide_eq_true hfly)

/-- The write has returned: the entry is delivered, given up or comes back. -/
theorem retryReply_step (hp : p ∈ w.pending) {res : Option WriteError}
    (hdone : res = none → Delivered w p) (now : Time) (delay : Duration) :
    UsageStep opts w (some p.row.operationID) (w.retryReply p res now delay).backlog := by
  unfold World.retryReply
  cases res with
  | none => exact .deliver p hp (hdone rfl)
  | some e =>
    show UsageStep opts w (some p.row.operationID) (if e.isPermanent then _ else _ : World).backlog
    by_cases hperm : e.isPermanent = true
    · rw [if_pos hperm]
      exact .giveUp p hp
    · rw [if_neg hperm]
      exact setPending_step hp rfl rfl fun _ => rfl

theorem retryStep_step (hp : p ∈ w.pending) (hkey : p.row.operationID = o) {l : RetryLabel}
    (h : retryStep cfg opts w p l = some w') :
    UsageStep opts w (Label.retry o l).retrier w'.backlog := by
  subst hkey
  cases l <;> simp only [retryStep] at h
  case expire now =>
    split at h
    · cases h
    split at h
    · next hold =>
      cases h
      exact .expire p none hp (decide_eq_false fun hne => hne hold.1)
    · cases h
  case pick now =>
    split at h
    · cases h
    split at h
    · next hdue =>
      cases h
      exact setPending_step hp rfl rfl fun hfly => absurd hdue.1 hfly
    · cases h
  case write slot now delay =>
    split at h
    · cases h
    obtain rfl | rfl := slot_cases h
    · exact setPending_step hp rfl rfl fun _ => rfl
    · have herror : some WriteError.noWriteSlot = none → Delivered w p := fun h => by cases h
      exact retryReply_step hp herror now delay
  case reply res now delay =>
    split at h
    · next i hflight =>
      split at h
      · cases h
      · next hready =>
        cases h
        refine retryReply_step hp (fun hnone => ?_) now delay
        subst hnone
        -- success is reported only of a write that is committed
        have hreports : (w.writes[i]?).any (·.reports none) = true := by
          simpa using fun hno => hready (.inr hno)
        cases hw : w.writes[i]? with
        | none =>
          rw [hw] at hreports
          cases hreports
        | some wr =>
          rw [hw] at hreports
          exact ⟨i, wr, hflight, hw, of_decide_eq_true hreports⟩
    · cases h

/-- **Every step of the recorder is a step of its backlog.** -/
theorem worldStep_step (hinv : RecInv w) {l : Label} (h : worldStep cfg opts w l = some w') :
    UsageStep opts w l.retrier w'.backlog := by
  cases l with
  | op o l =>
    obtain ⟨cell, hc, hs⟩ := Option.bind_eq_some_iff.1 h
    exact cellStep_step (hinv.cells o cell hc) hs
  | retry o l =>
    obtain ⟨p, hp, hs⟩ := Option.bind_eq_some_iff.1 h
    have hkey : p.row.operationID = o := by simpa using List.find?_some hp
    exact retryStep_step (List.mem_of_find?_eq_some hp) hkey hs
  | create o now action route requestID method client | «foreign» t | register now id
  | heartbeat now id | confirmLease upTo | rotateOwner id | sweep id now locked remaining =>
    simp only [worldStep] at h
    split at h <;> cases h
    exact usageStep_same rfl
  | commit i now =>
    simp only [worldStep, World.commit] at h
    split at h
    · cases h
    · split at h
      · cases h
      · split at h <;> cases h <;> exact usageStep_same rfl
  | passLock self now | passMark locked remaining | passAbort =>
    simp only [worldStep, passStep] at h
    split at h <;> cases h
    exact usageStep_same rfl
  | passSnapshot =>
    simp only [worldStep, passStep] at h
    split at h
    · split at h <;> cases h
      exact usageStep_same rfl
    · cases h

/-! ## §4. The queue of audit events. -/

section Audit

variable {size : AuditEvent → Nat} {available : Bool} {aopts : AuditOptions} {s s' : AuditState}

/-- The table has an event of the entry's operation. -/
def AuditStored (s : AuditState) (p : PendingAudit) : Prop := p.operationID ∈ s.stored

abbrev AuditQueueStep (opts : AuditOptions) (s : AuditState) (r : Option OperationID)
    (b : Backlog PendingAudit) : Prop :=
  Step auditGauge opts.limits PendingAudit.inFlight (AuditStored s) s.queue r b

theorem AuditState.find_spec {p : PendingAudit} (h : s.find o = some p) :
    p ∈ s.queue.entries ∧ p.operationID = o :=
  ⟨List.mem_of_find?_eq_some h, by simpa using List.find?_some h⟩

theorem putAudit_step {p p' : PendingAudit} {r : Option OperationID} (hp : p ∈ s.queue.entries)
    (hkey : p'.operationID = p.operationID) (hbytes : p'.bytes = p.bytes)
    (hretrier : p.inFlight = true → r = some p.operationID) :
    AuditQueueStep aopts s r (s.queue.put auditGauge p') :=
  .put p' p r hp hkey hbytes hretrier

/-- `WriteAudit` offers an event of an operation that has none waiting. -/
theorem enqueue_step (safe : AuditEvent) (now : Time) (delay : Duration) :
    AuditQueueStep aopts s none (s.enqueue size aopts o safe now delay).queue := by
  unfold AuditState.enqueue
  by_cases hwaits : (s.find o).isSome = true
  · rw [if_pos hwaits]
    exact .keep none s.queue.lost
  · rw [if_neg hwaits]
    refine .offer _ fun p hp hkey => hwaits ?_
    exact List.find?_isSome.2 ⟨p, hp, decide_eq_true hkey⟩

/-- **Every step on audit events is a step of their backlog.** -/
theorem auditStep_step {l : AuditLabel} (h : auditStep size available aopts s l = some s') :
    AuditQueueStep aopts s l.retrier s'.queue := by
  cases l with
  | store o =>
    cases h
    exact .keep none s.queue.lost
  | write event fresh ok now delay =>
    simp only [auditStep] at h
    split at h
    · cases h
      exact .keep none (s.queue.lost + 1)
    · split at h
      · split at h <;> cases h
        exact .keep none s.queue.lost
      · cases h
        exact enqueue_step _ now delay
  | expire o now =>
    obtain ⟨p, hp, h⟩ := Option.bind_eq_some_iff.1 h
    obtain ⟨hmem, -⟩ := AuditState.find_spec hp
    split at h
    · next hold =>
      cases h
      exact .expire p none hmem hold.1
    · cases h
  | pick o now =>
    obtain ⟨p, hp, h⟩ := Option.bind_eq_some_iff.1 h
    obtain ⟨hmem, -⟩ := AuditState.find_spec hp
    split at h
    · next hdue =>
      cases h
      refine putAudit_step hmem rfl rfl fun hfly => ?_
      rw [hdue.1] at hfly
      cases hfly
    · cases h
  | reply o ok now delay =>
    obtain ⟨p, hp, h⟩ := Option.bind_eq_some_iff.1 h
    obtain ⟨hmem, rfl⟩ := AuditState.find_spec hp
    split at h
    · cases h
    split at h
    · split at h
      · next hstored =>
        cases h
        exact .deliver p hmem hstored
      · cases h
    · cases h
      exact putAudit_step hmem rfl rfl fun _ => rfl

end Audit

/-! ## §5. The result. -/

/-- A backlog that starts empty balances. -/
theorem balanced_empty {α κ : Type} {g : Gauge α κ} {limits : Limits} {b : Backlog α}
    (hentries : b.entries = []) (hbytes : b.bytes = 0) : Balanced g limits b := by
  refine ⟨?_, ?_, ?_, ?_⟩
  · rw [hentries]
    exact List.nodup_nil
  · rw [hbytes, hentries]
    rfl
  · rw [hbytes]
    exact Int.natCast_nonneg _
  · rw [hentries]
    exact Nat.zero_le _

/-- **The retry queues keep their books.**  Along every run of the recorder
that starts with nothing queued, and along every run on audit events, the byte
counters are the sums of the sizes of the queued entries and both limits hold
(`Balanced`); and every step leaves an entry that is being retried to its
retrier and, if an entry leaves, it alone leaves, persisted or counted as lost
once (`Faithful`). -/
theorem retry_queues_account (cfg : Config) (opts : Options) (size : AuditEvent → Nat)
    (available : Bool) (aopts : AuditOptions) :
    (∀ w₀ ls w, w₀.Initial → w₀.pendingBytes = 0 →
      (recorderSystem cfg opts).run w₀ ls = some w →
      Balanced usageGauge opts.limits w.backlog ∧ 0 ≤ w.pendingBytes ∧
      ∀ l w', worldStep cfg opts w l = some w' →
        Faithful usageGauge PendingUsage.inFlight (Delivered w) w.backlog l.retrier w'.backlog) ∧
    ∀ s, (auditSystem size available aopts).Reachable s →
      Balanced auditGauge aopts.limits s.queue ∧ 0 ≤ s.queue.bytes ∧
      ∀ l s', auditStep size available aopts s l = some s' →
        Faithful auditGauge PendingAudit.inFlight (AuditStored s) s.queue l.retrier s'.queue := by
  refine ⟨fun w₀ ls w hinit hbytes hrun => ?_, fun s hs => ?_⟩
  · have hinv : RecInv w ∧ Balanced usageGauge opts.limits w.backlog := by
      refine System.run_invariant
        (I := fun w => RecInv w ∧ Balanced usageGauge opts.limits w.backlog)
        (fun w l w' hw hstep => ?_) ls w₀ w ?_ hrun
      · exact ⟨worldStep_inv hw.1 hstep, (worldStep_step hw.1 hstep).balanced hw.2⟩
      · exact ⟨initial_inv hinit, balanced_empty hinit.pending hbytes⟩
    exact ⟨hinv.2, hinv.2.nonneg, fun l w' hstep => (worldStep_step hinv.1 hstep).faithful hinv.2⟩
  · have hinv : Balanced auditGauge aopts.limits s.queue :=
      hs.invariant (I := fun s => Balanced auditGauge aopts.limits s.queue)
        (fun _ hinit => balanced_empty hinit.1 hinit.2)
        (fun s l s' hs hstep => (auditStep_step hstep).balanced hs)
    exact ⟨hinv, hinv.nonneg, fun l s' hstep => (auditStep_step hstep).faithful hinv⟩

/-- With a snapshot of three hundred bytes queued, and an audit event of forty. -/
theorem retry_queues_account_waiting :
    ∃ w s, (recorderSystem defaultConfig defaultOptions).run registeredWorld queuedRun = some w ∧
      (auditSystem (fun _ => 40) true ⟨⟨256, 1048576⟩, 2 * minute⟩).Reachable s ∧
      w.pendingBytes = 300 ∧ s.queue.bytes = 40 ∧
      Balanced usageGauge defaultOptions.limits w.backlog ∧
      Balanced auditGauge ⟨256, 1048576⟩ s.queue := by
  have hrun : (recorderSystem defaultConfig defaultOptions).run registeredWorld queuedRun =
      some _ := rfl
  have haudit : (auditSystem (fun _ => 40) true ⟨⟨256, 1048576⟩, 2 * minute⟩).run
      ⟨⟨[], 0, 0⟩, 0, []⟩
      [.write ⟨some "op", 7, [], "credential.reveal".toList, [], 1, [], []⟩ "" false 5 second] =
      some _ := rfl
  have hreach : (auditSystem (fun _ => 40) true ⟨⟨256, 1048576⟩, 2 * minute⟩).Reachable _ :=
    ⟨_, _, ⟨rfl, rfl⟩, haudit⟩
  have hboth := retry_queues_account defaultConfig defaultOptions (fun _ => 40) true
    ⟨⟨256, 1048576⟩, 2 * minute⟩
  exact ⟨_, _, hrun, hreach, rfl, rfl,
    (hboth.1 registeredWorld queuedRun _ registeredWorld_initial rfl hrun).1, (hboth.2 _ hreach).1⟩

end Talus.Usage
