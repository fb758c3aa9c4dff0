/-
  Talus.Usage.Postings
  **WHAT THE CALLS AND THE RETRY QUEUE LEAVE IN THE BOOKS.**

  A step of one operation's calls, or of the retry queue on its snapshot, is
  summed up by `Posting`: the account of the operation is kept with what the step
  credits, and the others see at most one more write.

    • `cellStep_posting`: every step of `AdmitShort`, `Begin`, `Finish`, the phase
      writer and the setters,
    • `retryStep_posting`: every step of `retryPending`.
-/
import Talus.Usage.Account

namespace Talus.Usage

open Talus.Base List Option

/-! ## §1. The calls, one by one. -/

/-- What a step of the calls of `o`, or of the queue on its snapshot, leaves in
the books. -/
structure Posting (C : Prop) (l : Label) (w : World) (o : OperationID) (w' : World)
    (t : Tally) : Prop where
  account : ∃ cell', w'.ops o = some cell' ∧
    Accounted C o cell' (w'.pendingOf o) w'.writes (t.credit l w w')
  pending : ∀ i, i ≠ o → w'.pendingOf i = w.pendingOf i
  writes : w'.writes = w.writes ∨
    ∃ row, row.operationID = o ∧ w'.writes = w.writes ++ [⟨row, .sent⟩]

variable {w₁ : World} {t' : Tally} {row : UsageLog} {cfg : Config} {opts : Options}
  {completion : Bool} {p : PendingUsage}

section Postings

variable {C : Prop} {l : Label} {w w' : World} {o : OperationID} {cell : Cell} {t : Tally}

theorem credit_none (hl : l.acknowledges = false)
    (hs : w'.stats.captureSkipped = w.stats.captureSkipped)
    (hf : w'.stats.finalizationLost = w.stats.finalizationLost) : t.credit l w w' = t := by
  unfold Tally.credit
  rw [hl, hs, hf, Nat.sub_self, Nat.sub_self]
  rfl

theorem credit_skipped (hl : l.acknowledges = false) (hs : w'.stats = w.countSkipped.stats) :
    t.credit l w w' = { t with skipped := t.skipped + 1 } := by
  unfold Tally.credit
  rw [hl, hs]
  simp [World.countSkipped]

theorem credit_lost (hl : l.acknowledges = false)
    (hs : w'.stats.captureSkipped = w.stats.captureSkipped)
    (hf : w'.stats.finalizationLost = w.stats.finalizationLost + 1) :
    t.credit l w w' = { t with lost := t.lost + 1 } := by
  unfold Tally.credit
  rw [hl, hs, hf]
  simp

theorem credit_acked (hl : l.acknowledges = true)
    (hs : w'.stats.captureSkipped = w.stats.captureSkipped)
    (hf : w'.stats.finalizationLost = w.stats.finalizationLost) :
    t.credit l w w' = { t with acked := t.acked + 1 } := by
  unfold Tally.credit
  rw [hl, hs, hf]
  simp

/-- What the books read is as it was. -/
structure Uncounted (w w' : World) : Prop where
  pending : w'.pending = w.pending
  writes : w'.writes = w.writes
  skipped : w'.stats.captureSkipped = w.stats.captureSkipped
  lost : w'.stats.finalizationLost = w.stats.finalizationLost

/-- A step that changes the cell, and counters. -/
theorem posting_setCell {cell' : Cell}
    (hp : w₁.pending = w.pending) (hw : w₁.writes = w.writes) (ht : t.credit l w w₁ = t')
    (h : Accounted C o cell' (w.pendingOf o) w.writes t') :
    Posting C l w o (w₁.setCell o cell') t := by
  have hpend : ∀ i, (w₁.setCell o cell').pendingOf i = w.pendingOf i := by
    intro i
    show w₁.pending.filter _ = w.pending.filter _
    rw [hp]
  refine ⟨⟨cell', setCell_ops_self w₁ o cell', ?_⟩, fun i _ => hpend i, .inl hw⟩
  have hcredit : t.credit l w (w₁.setCell o cell') = t' := ht
  rw [hpend, hcredit]
  show Accounted C o cell' (w.pendingOf o) w₁.writes t'
  rw [hw]
  exact h

/-- A step that hands a snapshot to the database. -/
theorem posting_send {cell' : Cell} (hl : l.acknowledges = false) (hrow : row.operationID = o)
    (h : Accounted C o cell' (w.pendingOf o) (w.writes ++ [⟨row, .sent⟩]) t) :
    Posting C l w o ((w.send row).setCell o cell') t := by
  refine ⟨⟨cell', setCell_ops_self _ o cell', ?_⟩, fun _ _ => rfl, .inr ⟨row, hrow, rfl⟩⟩
  have hcredit : t.credit l w ((w.send row).setCell o cell') = t := credit_none hl rfl rfl
  rw [hcredit]
  exact h

/-- Nothing of the operation changes; a failed write may be counted. -/
theorem posting_idle (hc : w.ops o = some cell)
    (h : Accounted C o cell (w.pendingOf o) w.writes t) (hl : l.acknowledges = false) :
    Posting C l w o w t ∧ Posting C l w o w.countFailed t := by
  have hidle : t.credit l w w = t := credit_none hl rfl rfl
  have hfail : t.credit l w w.countFailed = t := credit_none hl rfl rfl
  refine ⟨⟨⟨cell, hc, ?_⟩, fun _ _ => rfl, .inl rfl⟩, ⟨⟨cell, hc, ?_⟩, fun _ _ => rfl, .inl rfl⟩⟩
  · rw [hidle]
    exact h
  · rw [hfail]
    exact h

/-- The setters do nothing to a finished operation. -/
theorem set_finished {op : Operation} (hf : op.finished = true) (e : Edit) : op.set e = op := by
  cases e with
  | setPrincipal p => simp [Operation.set, Operation.setPrincipal, Operation.edit, hf]
  | setResource kind rid name serverID =>
    simp [Operation.set, Operation.setResource, Operation.edit, hf]
  | setResult outcome reason => simp [Operation.set, Operation.setResult, Operation.edit, hf]
  | setHTTPStatus status => simp [Operation.set, Operation.setHTTPStatus, Operation.edit, hf]
  | setHTTPError status reason => simp [Operation.set, Operation.setHTTPError, hf]
  | setExecResult code => simp [Operation.set, Operation.setExecResult, Operation.edit, hf]
  | setRelayResult status bytes =>
    simp [Operation.set, Operation.setRelayResult, Operation.edit, hf]
  | setPhase phase stamp => simp [Operation.set, Operation.setPhase, Operation.edit, hf]
  | setMetadata key value => simp [Operation.set, Operation.setMetadata, Operation.edit, hf]

section

variable (h : Accounted C o cell (w.pendingOf o) w.writes t)
include h

theorem edit_posting (hok : CellOk w o cell) (e : Edit) :
    Posting C (.op o (.edit e)) w o (w.setCell o { cell with op := cell.op.set e }) t := by
  refine posting_setCell rfl rfl (credit_none rfl rfl rfl) ?_
  cases hf : cell.op.finished with
  | true =>
    rw [set_finished hf e]
    exact h
  | false =>
    exact h.setOp (hok.finish_idle hf) ((set_evolves cell.op e).finished.trans hf)
      (set_sameCapture cell.op e)

theorem admitShort_posting (hc : w.ops o = some cell) (hok : CellOk w o cell) (budget : Bool) :
    Posting C (.op o (.admitShort budget)) w o (w.admitShort o cell budget) t := by
  unfold World.admitShort
  split
  · exact (posting_idle hc h rfl).1
  · next hg =>
    simp only [not_or, Bool.not_eq_true] at hg
    obtain ⟨hf, hd, hba, -⟩ := hg
    have hidle := hok.finish_idle hf
    have hj : cell.judged = false := by
      unfold Cell.judged
      rw [hd, hba]
      rfl
    have hskip : t.skipped = 0 := by
      have hs := h.skipped
      rw [hidle, hj] at hs
      exact hs
    -- no `Begin` has been called, so none carries a row
    have hbpc : ∀ row, cell.beginPC.row? ≠ some row := by
      intro row hr
      have hni : cell.beginPC.isIdle = false := by
        cases hb : cell.beginPC <;> rw [hb] at hr <;> simp_all [BeginPC.row?, BeginPC.isIdle]
      exact absurd ((hok.attempted hni).symm.trans hba) (by simp)
    have hacc : Accounted C o
        { cell with op := { cell.op with captureDecided := true, admitted := budget } }
        (w.pendingOf o) w.writes { t with skipped := t.skipped + (!budget).toNat } := h.judge
      hidle hidle hf (by rw [hskip]; cases budget <;> rfl)
      (fun hj' => absurd hj' (by simp [Cell.judged]))
      (fun ha => absurd (ha.symm.trans hba) (by simp))
      (fun _ => h.undecided hj) (fun row hr => absurd hr (hbpc row))
    cases budget with
    | true => exact posting_setCell rfl rfl (credit_none rfl rfl rfl) hacc
    | false => exact posting_setCell rfl rfl (credit_skipped rfl rfl) hacc

theorem beginEnter_posting (hok : CellOk w o cell) (hf : cell.op.finished = false)
    (hba : cell.op.beginAttempted = false) :
    Posting C (.op o .beginEnter) w o (w.setCell o
      { cell with op := { cell.op with beginAttempted := true }, beginPC := .waiting }) t := by
  have hidle := hok.finish_idle hf
  have hj : cell.judged = cell.op.captureDecided := by
    unfold Cell.judged
    rw [hba, Bool.false_and, Bool.or_false]
  have hj' : Cell.judged
      { cell with op := { cell.op with beginAttempted := true }, beginPC := .waiting } =
      cell.judged := by
    rw [hj]
    simp [Cell.judged, BeginPC.early]
  refine posting_setCell rfl rfl (credit_none rfl rfl rfl) ?_
  refine h.judge (n := 0) hidle hidle hf ?_ ?_ (fun _ => rfl) (fun ha => ha)
    (fun row hr => absurd hr (by simp [BeginPC.row?]))
  · have hs := h.skipped
    rw [hidle] at hs
    rw [hj']
    exact hs
  · rw [hj']
    exact h.undecided

theorem beginAdmit_posting (hok : CellOk w o cell)
    (hpc : cell.beginPC = .waiting) (opts : Options) (now : Time)
    (budget : Bool)
    (hjudged : cell.op.finished = false → w.refuses opts cell.op now budget = true →
      cell.op.captureDecided = false) :
    Posting C (.op o (.beginAdmit now budget)) w o (w.beginAdmit opts o cell now budget) t := by
  have hba : cell.op.beginAttempted = true := hok.attempted (by rw [hpc]; rfl)
  have hj : cell.judged = cell.op.captureDecided := by
    unfold Cell.judged
    rw [hpc]
    simp [BeginPC.early]
  have hdone : Cell.judged { cell with beginPC := .done } = true := by
    simp [Cell.judged, hba, BeginPC.early]
  unfold World.beginAdmit
  split
  · next hf =>
    -- `Finish` has found the admission decided
    have hni : cell.finishPC.isIdle = false := by
      rw [Bool.eq_false_iff]
      intro hi
      exact absurd ((hok.finished.mp hi).symm.trans hf) (by simp)
    have hjt : cell.judged = true := by
      obtain hj | hn := h.resolved hni
      · exact hj
      · exact absurd (hba.symm.trans hn) (by simp)
    refine posting_setCell rfl rfl (credit_none rfl rfl rfl) ?_
    exact h.setBegin (hdone.trans hjt.symm) rfl fun row hr => absurd hr (by simp [BeginPC.row?])
  · next hf =>
    have hf : cell.op.finished = false := by simpa using hf
    have hidle := hok.finish_idle hf
    have hs := h.skipped
    rw [hidle] at hs
    split
    · next href =>
      have hjf : cell.judged = false := hj.trans (hjudged hf href)
      have hadm : cell.op.admitted = false := h.undecided hjf
      refine posting_setCell rfl rfl (credit_skipped rfl rfl) ?_
      refine h.judge hidle hidle hf ?_ (fun hn => absurd (hdone.symm.trans hn) (by simp))
        (fun _ => rfl) (fun ha => ha) (fun row hr => absurd hr (by simp [BeginPC.row?]))
      rw [hdone, hadm, hs, hjf]
      rfl
    · next href =>
      -- a refusal of `AdmitShort` would have been respected
      have hsk : t.skipped = 0 := by
        cases hd : cell.op.captureDecided with
        | false =>
          rw [hj, hd] at hs
          exact hs
        | true =>
          have hadm : cell.op.admitted = true := by
            cases ha : cell.op.admitted with
            | true => rfl
            | false => simp [World.refuses, hd, ha] at href
          exact h.not_skipped hadm
      refine posting_setCell rfl rfl (credit_none rfl rfl rfl) ?_
      refine h.judge (n := 0) hidle hidle hf ?_ ?_ (fun _ => rfl)
        (fun ha => absurd ha (by simp [Operation.start])) ?_
      · rw [hsk]
        simp [Operation.start]
      · intro hn
        simp [Cell.judged, Operation.start, hba, BeginPC.early] at hn
      · intro row hr
        have hrow : (cell.op.start w.owner).snapshot = row := some.inj hr
        rw [← hrow]
        exact ⟨rfl, snapshot_running hf⟩

/-- `Begin` moves on after its decision. -/
theorem beginStep_posting {b : BeginPC} (hl : l.acknowledges = false)
    (he : cell.beginPC.early = false) (hb : b.early = false) (hidle : b.isIdle = false)
    (hrow : ∀ row, b.row? = some row → cell.beginPC.row? = some row) (hsame : Uncounted w w₁) :
    Posting C l w o (w₁.setCell o { cell with beginPC := b }) t := by
  refine posting_setCell hsame.pending hsame.writes (credit_none hl hsame.skipped hsame.lost)
    (h.setBegin ?_ hidle hrow)
  unfold Cell.judged
  rw [he, hb]

/-- `Begin` ends, with or without its row. -/
theorem beginDone_posting (hl : l.acknowledges = false) (he : cell.beginPC.early = false)
    (hsame : Uncounted w w₁) : Posting C l w o (w₁.setCell o { cell with beginPC := .done }) t :=
  beginStep_posting h hl he rfl rfl (fun _ hr => absurd hr (by simp [BeginPC.row?])) hsame

theorem beginWrite_posting (hok : CellOk w o cell)
    (hpc : cell.beginPC = .writing row) (slot : Bool) :
    Posting C (.op o (.beginWrite slot)) w o
      ((w.send row).setCell o { cell with beginPC := .sent w.writes.length }) t := by
  have hr : cell.beginPC.row? = some row := by rw [hpc]; rfl
  refine posting_send rfl (hok.beginRow row hr).operationID ?_
  refine (h.append fun _ => (h.beginRow row hr).1).setBegin ?_ rfl
    fun row hr => absurd hr (by simp [BeginPC.row?])
  unfold Cell.judged
  rw [hpc]
  rfl

theorem finishEnter_posting (hc : w.ops o = some cell) (hok : CellOk w o cell)
    {status : Int} {now : Time} {stamp : String}
    (hjudged : cell.op.finished = false → cell.beginPC = .waiting →
      cell.op.captureDecided = true)
    (hs : cellStep cfg opts w o cell (.finishEnter status now stamp) = some w') :
    Posting C (.op o (.finishEnter status now stamp)) w o w' t := by
  obtain rfl | ⟨hf, rfl⟩ := cellStep_finishEnter hs
  · exact (posting_idle hc h rfl).1
  refine posting_setCell rfl rfl (credit_none rfl rfl rfl) ?_
  refine h.close (hok.finish_idle hf) ⟨rfl, rfl, rfl, rfl⟩
    (closed_snapshot_terminal cell.op status now stamp) ?_
  cases hba : cell.op.beginAttempted with
  | false => exact .inr rfl
  | true =>
    -- `Begin` is past its decision, or waits after a short admission
    refine .inl ?_
    by_cases hw : cell.beginPC = .waiting
    · simp [Cell.judged, hjudged hf hw]
    · have hni := h.begun hba
      have he : cell.beginPC.early = false := by
        cases hb : cell.beginPC <;> rw [hb] at hw hni <;>
          simp_all [BeginPC.early, BeginPC.isIdle]
      simp [Cell.judged, hba, he]

theorem finishDecide_posting (hpc : cell.finishPC = .closing row) (budget : Bool) :
    Posting C (.op o (.finishDecide budget)) w o (w.finishDecide o cell row budget) t := by
  have hres := h.resolved (by rw [hpc]; rfl)
  have hs := h.skipped
  rw [hpc] at hs
  have hs : t.skipped = (cell.judged && !cell.op.admitted).toNat := hs
  unfold World.finishDecide
  dsimp only
  split
  · next hg =>
    rw [Bool.and_eq_true, Bool.or_eq_true] at hg
    obtain ⟨hor, hadm⟩ := hg
    have hadm : cell.op.admitted = false := by simpa using hadm
    have hj : cell.judged = true := by
      obtain hj | hn := hres
      · exact hj
      · obtain hb | hd := hor
        · exact absurd (hb.symm.trans hn) (by simp)
        · simp [Cell.judged, hd]
    refine posting_setCell rfl rfl (credit_none rfl rfl rfl) ?_
    exact h.refuse (n := 0) hpc hadm (by rw [hs, hj, hadm]; rfl)
  · next hg =>
    split
    · next hnone =>
      rw [Bool.and_eq_true] at hnone
      have hb : cell.op.beginAttempted = false := by simpa using hnone.1
      have hd : cell.op.captureDecided = false := by simpa using hnone.2
      have hj : cell.judged = false := by simp [Cell.judged, hb, hd]
      have hsk : t.skipped = 0 := by
        rw [hs, hj]
        rfl
      split
      · refine posting_setCell rfl rfl (credit_none rfl rfl rfl) ?_
        exact h.admit hpc hsk
      · refine posting_setCell rfl rfl (credit_skipped rfl rfl) ?_
        exact h.refuse hpc (h.undecided hj) (by rw [hsk])
    · next hnone =>
      have hadm : cell.op.admitted = true := by
        cases ha : cell.op.admitted with
        | true => rfl
        | false => simp_all
      obtain ⟨hack, hlost, hq⟩ := h.place hpc
      refine posting_setCell rfl rfl (credit_none rfl rfl rfl) ?_
      exact h.advance hadm rfl (h.sameRow (by rw [hpc]; rfl) rfl) h.queueRow
        ⟨rfl, hack, hlost, hq⟩ (fun i hi => absurd hi (not_awaits (fun _ _ => by simp) hq))
        h.persisted
        (fun i wr _ _ _ hk => absurd hk (not_settled hack (fun _ _ => by simp [hpc]) hq))

theorem finishWrite_posting (hok : CellOk w o cell)
    (hpc : cell.finishPC = .writing row completion) (slot : Bool) :
    Posting C (.op o (.finishWrite slot)) w o
      ((w.send row).setCell o
        { cell with finishPC := .sent row completion w.writes.length }) t := by
  have hr : cell.finishPC.row? = some row := by rw [hpc]; rfl
  obtain ⟨hadm, hack, hlost, hq⟩ := h.place hpc
  refine posting_send rfl (hok.finishRow row hr).operationID ?_
  refine (h.append fun _ => hadm).advance hadm rfl (h.sameRow hr rfl) h.queueRow
    ⟨rfl, hack, hlost, hq⟩ ?_ (fun ha => absurd hack ha)
    (fun i wr _ _ _ hk => absurd hk (not_settled hack (fun _ _ => by simp [hpc]) hq))
  rintro i (⟨row', c, hs⟩ | ⟨p, hp, -⟩)
  · cases hs
    exact ⟨_, getElem?_concat_length, h.finishRow row hr⟩
  · rw [hq] at hp
    exact absurd hp not_mem_nil

/-- `Finish` is left without a reply: it goes on to its end. -/
theorem finishUnsent_posting {e : WriteError}
    (hr : cell.finishPC.row? = some row) (hadm : cell.op.admitted = true)
    (hack : t.acked = 0) (hlost : t.lost = 0) (hq : w.pendingOf o = [])
    (hnone : ∀ i wr, w.writes[i]? = some wr → wr.state = .committed → C →
      ¬cell.Awaits (w.pendingOf o) i)
    (hl : l.acknowledges = false) (hsame : Uncounted w w₁) :
    Posting C l w o
      (w₁.setCell o { cell with finishPC := .settling row completion (some e) }) t := by
  refine posting_setCell hsame.pending hsame.writes (credit_none hl hsame.skipped hsame.lost) ?_
  refine h.advance hadm rfl (h.sameRow hr rfl) h.queueRow ⟨rfl, hack, hlost, hq⟩
    (fun i hi => absurd hi (not_awaits (fun _ _ => by simp) hq)) (fun ha => absurd hack ha) ?_
  intro i wr hi hst hC hk
  obtain ha | hwait := hk
  · exact absurd hack ha
  · exact absurd hwait (hnone i wr hi hst hC)

omit h in
/-- What a caller is told that is not the acknowledgement. -/
theorem reports_error {wr : Write} {e : WriteError} (hrep : wr.reports (some e) = true)
    (hunav : e = .unavailable → wr.state ≠ .committed) : wr.state ≠ .committed := by
  intro hst
  cases e with
  | noWriteSlot => exact absurd hrep (by simp [Write.reports])
  | store e | permanent => simp [Write.reports, hst] at hrep
  | unavailable => exact hunav rfl hst

/-- `Finish` is told that its write has failed.  If the database is candid, the
write has not committed. -/
theorem finishFailed_posting {i : Nat} {e : WriteError}
    (hpc : cell.finishPC = .sent row completion i)
    (hrep : (w.writes[i]?).any (·.reports (some e)) = true)
    (hcandid : C → e = .unavailable → ∀ wr, w.writes[i]? = some wr → wr.state ≠ .committed) :
    Posting C (.op o (.finishReturn (some e))) w o
      (w.countFailed.setCell o { cell with finishPC := .settling row completion (some e) }) t := by
  obtain ⟨hadm, hack, hlost, hq⟩ := h.place hpc
  refine finishUnsent_posting h (by rw [hpc]; rfl) hadm hack hlost hq ?_ rfl ⟨rfl, rfl, rfl, rfl⟩
  intro j wr hj hst hc hwait
  obtain ⟨row', c', hpc'⟩ | ⟨p, hp, -⟩ := hwait
  · rw [hpc] at hpc'
    injection hpc' with _ _ hij
    subst hij
    rw [hj] at hrep
    exact reports_error hrep (fun he => hcandid hc he wr hj) hst
  · rw [hq] at hp
    exact absurd hp not_mem_nil

theorem finishAck_posting {i : Nat} (hpc : cell.finishPC = .sent row completion i)
    (hrep : (w.writes[i]?).any (·.reports none) = true) :
    Posting C (.op o (.finishReturn none)) w o
      (w.setCell o { cell with finishPC := .settling row completion none }) t := by
  have hr : cell.finishPC.row? = some row := by rw [hpc]; rfl
  obtain ⟨hadm, hack, hlost, hq⟩ := h.place hpc
  refine posting_setCell rfl rfl (credit_acked rfl rfl rfl) ?_
  refine h.advance hadm rfl (h.sameRow hr rfl) h.queueRow ⟨rfl, by rw [hack], hlost, hq⟩
    (fun i hi => absurd hi (not_awaits (fun _ _ => by simp) hq)) (fun _ => ?_)
    (fun i wr _ _ _ _ => .inl (Nat.succ_ne_zero _))
  obtain ⟨wr, hi, hsnap⟩ := h.sent i (.inl ⟨row, completion, hpc⟩)
  rw [hi] at hrep
  exact ⟨wr, mem_of_getElem? hi, hsnap, of_decide_eq_true hrep⟩

/-! ### The end of `Finish`. -/

omit h in
theorem pendingOf_of_pending {i : OperationID} (hp : w'.pending = w.pending) :
    w'.pendingOf i = w.pendingOf i := by
  unfold World.pendingOf
  rw [hp]

/-- `Finish` ends: acknowledged, queued or lost. -/
theorem finishDone_posting
    (hadm : cell.op.admitted = true) (hf : ∀ row c i, cell.finishPC ≠ .sent row c i)
    (hq : w.pendingOf o = []) (hw : w₁.writes = w.writes)
    (hother : ∀ i, i ≠ o → w₁.pendingOf i = w.pendingOf i)
    (ht : t.credit l w w₁ = t') (hskip : t'.skipped = t.skipped) (hack : t'.acked = t.acked)
    (hsum : t'.acked + t'.lost + (w₁.pendingOf o).length = 1)
    (hrows : ∀ p ∈ w₁.pendingOf o, p.row = cell.op.snapshot ∧ p.flight = .idle) :
    Posting C l w o (w₁.setCell o { cell with finishPC := .done }) t := by
  refine ⟨⟨_, setCell_ops_self w₁ o _, ?_⟩, fun i hi => hother i hi, .inl hw⟩
  have hcredit : t.credit l w (w₁.setCell o { cell with finishPC := .done }) = t' := ht
  rw [hcredit]
  show Accounted C o _ (w₁.pendingOf o) w₁.writes t'
  rw [hw]
  refine h.advance hadm hskip (fun row hr => absurd hr (by simp [FinishPC.row?]))
    (fun p hp => (hrows p hp).1) hsum ?_ (fun ha => h.persisted (hack ▸ ha)) ?_
  · rintro i (⟨row, c, hs⟩ | ⟨p, hp, hs⟩)
    · cases hs
    · exact absurd ((hrows p hp).2.symm.trans hs) (by simp)
  · intro i wr _ _ _ hk
    obtain ha | hwait := hk
    · exact .inl (hack ▸ ha)
    · exact absurd hwait (not_awaits (fun row c => hf row c i) hq)

theorem finishSettle_posting (hok : CellOk w o cell) {res : Option WriteError}
    (hpc : cell.finishPC = .settling row completion res) (cfg : Config) (opts : Options)
    (now : Time) (size : Nat) (delay : Duration) :
    Posting C (.op o (.finishSettle now size delay)) w o
      (w.finishSettle cfg opts o cell row completion res now size delay) t := by
  have hr : cell.finishPC.row? = some row := by rw [hpc]; rfl
  have hns : ∀ row c i, cell.finishPC ≠ .sent row c i := by simp [hpc]
  have hrow : row.operationID = o := (hok.finishRow row hr).operationID
  have hsnap := h.finishRow row hr
  unfold World.finishSettle
  cases res with
  | none =>
    obtain ⟨hadm, hack, hlost, hq⟩ := h.place hpc
    have hq' : (w.dropActive row.operationID).pendingOf o = [] := hq
    refine finishDone_posting h hadm hns hq rfl (fun _ _ => rfl) (credit_none rfl rfl rfl)
      rfl rfl ?_ ?_
    · rw [hq', hack, hlost]
      rfl
    · rw [hq']
      exact fun p hp => absurd hp not_mem_nil
  | some e =>
    obtain ⟨hadm, hack, hlost, hq⟩ := h.place hpc
    have hcount : Posting C (.op o (.finishSettle now size delay)) w o
        ((w.countLost.dropActive row.operationID).setCell o { cell with finishPC := .done })
        t := by
      have hq' : (w.countLost.dropActive row.operationID).pendingOf o = [] := hq
      refine finishDone_posting h hadm hns hq rfl (fun _ _ => rfl) (credit_lost rfl rfl rfl)
        rfl rfl ?_ ?_
      · rw [hq', hack, hlost]
        rfl
      · rw [hq']
        exact fun p hp => absurd hp not_mem_nil
    dsimp only
    split
    · obtain hw | ⟨p, bytes, hp, hfl, hw⟩ :=
        enqueueUsage_cases opts w hrow completion now size delay
      · rw [hw]
        exact hcount
      · obtain ⟨hself, hother⟩ := requeued_pendingOf (hp ▸ hrow) hw
        have hself : ((w.enqueueUsage opts row completion now size delay).dropActive
            row.operationID).pendingOf o = [p] := hself
        rw [hw] at hself hother ⊢
        refine finishDone_posting h hadm hns hq rfl hother (credit_none rfl rfl rfl) rfl rfl ?_ ?_
        · rw [hself, hack, hlost]
          rfl
        · rw [hself]
          intro q hq
          rw [mem_singleton.mp hq, hp]
          exact ⟨hsnap, hfl⟩
    · exact hcount

theorem persistPhase_posting (hc : w.ops o = some cell) (hok : CellOk w o cell)
    (ha : o ∈ w.active) (slot : Bool) :
    Posting C (.op o (.persistPhase slot)) w o (w.send cell.op.snapshot) t := by
  have hadm := (hok.admitted (hok.active ha).1).1
  have hid : cell.op.snapshot.operationID = o := (snapshot_fits hok.row rfl).operationID
  have hcredit : t.credit (.op o (.persistPhase slot)) w (w.send cell.op.snapshot) = t :=
    credit_none rfl rfl rfl
  refine ⟨⟨cell, hc, ?_⟩, fun _ _ => rfl, .inr ⟨_, hid, rfl⟩⟩
  rw [hcredit]
  exact h.append fun _ => hadm

theorem refreshRunning_posting (hok : CellOk w o cell) (ha : o ∈ w.active)
    (hf : cell.op.finished = false) (slot : Bool) :
    Posting C (.op o (.refreshRunning slot)) w o
      ((w.send (cell.op.edit id id).snapshot).setCell o { cell with op := cell.op.edit id id })
      t ∧
    Posting C (.op o (.refreshRunning slot)) w o
      (w.countFailed.setCell o { cell with op := cell.op.edit id id }) t := by
  have hkeeps : Keeps cell.op id := keeps_of_identity rfl rfl
  have hev : Evolves cell.op (cell.op.edit id id) := edit_evolves id hkeeps
  have hsame : SameCapture cell.op (cell.op.edit id id) := edit_sameCapture id hkeeps
  have hacc := h.setOp (hok.finish_idle hf) (hev.finished.trans hf) hsame
  refine ⟨?_, posting_setCell rfl rfl (credit_none rfl rfl rfl) hacc⟩
  have hadm := (hok.admitted (hok.active ha).1).1
  have hfits : RowFits cell o (cell.op.edit id id).snapshot :=
    snapshot_fits (hok.setOp hev hsame).row hsame.owner.symm
  exact posting_send rfl hfits.operationID (hacc.append fun _ => hsame.admitted.trans hadm)

end

/-- **A step of one operation's calls keeps its account.** -/
theorem cellStep_posting {b : Books} {l : OpLabel}
    (hb : b.world = w) (hc : w.ops o = some cell) (hok : CellOk w o cell)
    (h : Accounted C o cell (w.pendingOf o) w.writes t)
    (hj : Judged opts b (.op o l)) (hC : C → Candid b (.op o l))
    (hs : cellStep cfg opts w o cell l = some w') : Posting C (.op o l) w o w' t := by
  subst hb
  cases l with
  | edit e =>
    cases hs
    exact edit_posting h hok e
  | admitShort budget =>
    obtain ⟨-, rfl⟩ := unlocked hs
    exact admitShort_posting h hc hok budget
  | beginEnter =>
    obtain rfl | ⟨⟨hf, hba⟩, rfl⟩ := cellStep_beginEnter hs
    · exact (posting_idle hc h rfl).1
    · exact beginEnter_posting h hok hf hba
  | beginAdmit now budget =>
    obtain ⟨hpc, -, rfl⟩ := cellStep_beginAdmit hs
    exact beginAdmit_posting h hok hpc opts now budget (hj cell hc hpc)
  | beginStore =>
    obtain ⟨row, hpc, rfl⟩ := cellStep_beginStore hs
    refine beginStep_posting h rfl (by rw [hpc]; rfl) rfl rfl (fun row' hr => ?_)
      ⟨rfl, rfl, rfl, rfl⟩
    rw [hpc]
    exact hr
  | beginWrite slot =>
    obtain ⟨row, hpc, rfl | rfl⟩ := cellStep_beginWrite hs
    · exact beginWrite_posting h hok hpc slot
    · exact beginDone_posting h rfl (by rw [hpc]; rfl) ⟨rfl, rfl, rfl, rfl⟩
  | beginReturn res =>
    obtain ⟨i, hpc, rfl | rfl⟩ := cellStep_beginReturn hs <;>
      exact beginDone_posting h rfl (by rw [hpc]; rfl) ⟨rfl, rfl, rfl, rfl⟩
  | finishEnter status now stamp => exact finishEnter_posting h hc hok (hj cell hc) hs
  | finishDecide budget =>
    obtain ⟨row, hpc, -, rfl⟩ := cellStep_finishDecide hs
    exact finishDecide_posting h hpc budget
  | finishWrite slot =>
    obtain ⟨row, completion, hpc, rfl | rfl⟩ := cellStep_finishWrite hs
    · exact finishWrite_posting h hok hpc slot
    · obtain ⟨hadm, hack, hlost, hq⟩ := h.place hpc
      exact finishUnsent_posting h (by rw [hpc]; rfl) hadm hack hlost hq
        (fun i wr _ _ _ => not_awaits (fun _ _ => by simp [hpc]) hq) rfl ⟨rfl, rfl, rfl, rfl⟩
  | finishReturn res =>
    obtain ⟨row, completion, i, hpc, hrep, rfl⟩ := cellStep_finishReturn hs
    cases res with
    | none => exact finishAck_posting h hpc hrep
    | some e =>
      refine finishFailed_posting h hpc hrep fun hc' he wr hwr => ?_
      subst he
      exact hC hc' cell row completion i wr hc hpc hwr
  | finishSettle now size delay =>
    obtain ⟨row, completion, res, hpc, -, rfl⟩ := cellStep_finishSettle hs
    exact finishSettle_posting h hok hpc cfg opts now size delay
  | persistPhase slot =>
    obtain ⟨ha, rfl | rfl⟩ := cellStep_persistPhase hs
    · exact persistPhase_posting h hc hok ha slot
    · exact (posting_idle hc h rfl).2
  | refreshRunning slot =>
    obtain ⟨hf, ha, hw'⟩ := cellStep_refreshRunning hs
    obtain ⟨hsend, hfail⟩ := refreshRunning_posting h hok ha hf slot
    obtain rfl | rfl := hw'
    · exact hsend
    · exact hfail

/-! ## §2. The retry queue. -/

section

variable (hc : w.ops o = some cell)
  (h : Accounted C o cell (w.pendingOf o) w.writes t) (hp : p ∈ w.pendingOf o)
include hc h hp

/-- The queue moves on with the snapshot `p` of the operation. -/
theorem queueStep_posting
    (hops : w'.ops = w.ops) (hother : ∀ i, i ≠ o → w'.pendingOf i = w.pendingOf i)
    (hw : w'.writes = w.writes ∨ w'.writes = w.writes ++ [⟨p.row, .sent⟩])
    (ht : t.credit l w w' = t') (hskip : t'.skipped = t.skipped)
    (hsum : t'.acked + t'.lost + (w'.pendingOf o).length = 1)
    (hrows : ∀ q ∈ w'.pendingOf o, q.row = p.row)
    (hflight : ∀ q ∈ w'.pendingOf o, ∀ i, q.flight = .sent i →
      ∃ wr, w'.writes[i]? = some wr ∧ wr.row = p.row)
    (hper : t'.acked ≠ 0 → ∃ wr ∈ w'.writes, wr.row = p.row ∧ wr.state = .committed)
    (hknown : ∀ i wr, w'.writes[i]? = some wr → wr.state = .committed → C →
      p.flight = .sent i → t'.acked ≠ 0) : Posting C l w o w' t := by
  obtain ⟨hdone, hadm, hq, hack, hlost⟩ := h.queued hp
  have hsnap := h.queueRow p hp
  have hid : p.row.operationID = o := (mem_pendingOf.mp hp).2
  have hcell : { cell with finishPC := .done } = cell := by
    rw [← hdone]
  have hbase : Accounted C o cell (w.pendingOf o) w'.writes t := by
    obtain hw | hw := hw
    · rw [hw]
      exact h
    · rw [hw]
      exact h.append fun _ => hadm
  refine ⟨⟨cell, hops ▸ hc, ?_⟩, hother, hw.imp_right fun hw => ⟨p.row, hid, hw⟩⟩
  rw [ht]
  rw [← hcell]
  refine hbase.advance hadm hskip (fun row hr => absurd hr (by simp [FinishPC.row?]))
    (fun q hq => (hrows q hq).trans hsnap) hsum ?_ ?_ ?_
  · rintro i (⟨row, c, hs⟩ | ⟨q, hq, hs⟩)
    · cases hs
    · obtain ⟨wr, hi, hrow⟩ := hflight q hq i hs
      exact ⟨wr, hi, hrow.trans hsnap⟩
  · intro ha
    obtain ⟨wr, hwr, hrow, hst⟩ := hper ha
    exact ⟨wr, hwr, hrow.trans hsnap, hst⟩
  · intro i wr hi hst hC hk
    obtain ha | ⟨row, c, hs⟩ | ⟨q, hmem, hs⟩ := hk
    · exact absurd hack ha
    · exact absurd (hdone.symm.trans hs) (by simp)
    · rw [hq, mem_singleton] at hmem
      exact .inl (hknown i wr hi hst hC (hmem ▸ hs))

/-- The snapshot leaves the queue: acknowledged, or lost. -/
theorem dropPending_posting (hops : w'.ops = w.ops) (hpend : w'.pending = (w.dropPending p).pending)
    (hw : w'.writes = w.writes) (ht : t.credit l w w' = t') (hskip : t'.skipped = t.skipped)
    (hsum : t'.acked + t'.lost = 1)
    (hper : t'.acked ≠ 0 → ∃ wr ∈ w.writes, wr.row = p.row ∧ wr.state = .committed)
    (hknown : ∀ i wr, w.writes[i]? = some wr → wr.state = .committed → C →
      p.flight = .sent i → t'.acked ≠ 0) : Posting C l w o w' t := by
  obtain rfl : p.row.operationID = o := (mem_pendingOf.mp hp).2
  obtain ⟨hself, hother⟩ := dropPending_pendingOf w p
  have hnil : w'.pendingOf p.row.operationID = [] := (pendingOf_of_pending hpend).trans hself
  refine queueStep_posting hc h hp hops
    (fun i hi => (pendingOf_of_pending hpend).trans (hother i hi)) (.inl hw) ht hskip
    (by rw [hnil]; exact hsum) ?_ ?_ (hw ▸ hper) (hw ▸ hknown)
  all_goals
    rw [hnil]
    exact fun q hq => absurd hq not_mem_nil

/-- The snapshot stays in the queue. -/
theorem setPending_posting (p' : PendingUsage)
    (hrow : p'.row = p.row) (hl : l.acknowledges = false) (hops : w'.ops = w.ops)
    (hpend : w'.pending = (w.setPending p').pending)
    (hw : w'.writes = w.writes ∨ w'.writes = w.writes ++ [⟨p.row, .sent⟩])
    (hs : w'.stats.captureSkipped = w.stats.captureSkipped)
    (hf : w'.stats.finalizationLost = w.stats.finalizationLost)
    (hflight : ∀ i, p'.flight = .sent i → ∃ wr, w'.writes[i]? = some wr ∧ wr.row = p.row)
    (hknown : ∀ i wr, w'.writes[i]? = some wr → wr.state = .committed → C →
      p.flight ≠ .sent i) : Posting C l w o w' t := by
  obtain ⟨-, -, hq, hack, hlost⟩ := h.queued hp
  have hid : p'.row.operationID = o := by
    rw [hrow]
    exact (mem_pendingOf.mp hp).2
  subst hid
  obtain ⟨hself, hother⟩ := setPending_pendingOf w p'
  have hone : w'.pendingOf p'.row.operationID = [p'] := by
    rw [pendingOf_of_pending hpend, hself, hq]
    rfl
  refine queueStep_posting hc h hp hops
    (fun i hi => (pendingOf_of_pending hpend).trans (hother i hi)) hw
    (credit_none hl hs hf) rfl ?_ ?_ ?_ (fun ha => absurd hack ha)
    (fun i wr hi hst hC hfl => absurd hfl (hknown i wr hi hst hC))
  · rw [hone, hack, hlost]
    rfl
  · rw [hone]
    exact fun q hq => mem_singleton.mp hq ▸ hrow
  · rw [hone]
    intro q hq i hfl
    exact hflight i (mem_singleton.mp hq ▸ hfl)

/-- `retryPending` has its answer. -/
theorem retryReply_posting {res : Option WriteError} {now : Time} {delay : Duration}
    (hl : l.acknowledges = res.isNone)
    (hper : res = none → ∃ wr ∈ w.writes, wr.row = p.row ∧ wr.state = .committed)
    (hknown : ∀ e i wr, res = some e → C → p.flight = .sent i → w.writes[i]? = some wr →
      wr.state ≠ .committed) :
    Posting C l w o (w.retryReply p res now delay) t := by
  obtain ⟨-, -, -, hack, hlost⟩ := h.queued hp
  cases res with
  | none =>
    exact dropPending_posting hc h hp rfl rfl rfl (credit_acked hl rfl rfl) rfl
      (by rw [hack, hlost]) (fun _ => hper rfl) (fun _ _ _ _ _ _ => Nat.succ_ne_zero _)
  | some e =>
    simp only [World.retryReply]
    split
    · exact dropPending_posting hc h hp rfl rfl rfl (credit_lost hl rfl rfl) rfl
        (by simp [hack, hlost]) (fun ha => absurd hack ha)
        (fun i wr hi hst hC hfl => absurd hst (hknown e i wr rfl hC hfl hi))
    · exact setPending_posting hc h hp { p with
          attempts := p.attempts + 1, next := now + delay, flight := .idle } rfl hl rfl
        rfl (.inl rfl) rfl rfl (fun i hfl => absurd hfl (by simp))
        (fun i wr hi hst hC hfl => hknown e i wr rfl hC hfl hi hst)

end

/-- **A step of the retry queue keeps the account of its operation.** -/
theorem retryStep_posting {b : Books} {l : RetryLabel} (hb : b.world = w) (hc : w.ops o = some cell)
    (h : Accounted C o cell (w.pendingOf o) w.writes t) (hfind : w.findPending o = some p)
    (hC : C → Candid b (.retry o l)) (hs : retryStep cfg opts w p l = some w') :
    Posting C (.retry o l) w o w' t := by
  subst hb
  have hp : p ∈ b.world.pendingOf o := by
    refine mem_pendingOf.mpr ⟨mem_of_find?_eq_some hfind, ?_⟩
    simpa using find?_some hfind
  obtain ⟨-, -, -, hack, hlost⟩ := h.queued hp
  cases l <;> simp only [retryStep] at hs
  case expire now =>
    split at hs
    · cases hs
    split at hs
    · next hg =>
      cases hs
      exact dropPending_posting hc h hp rfl rfl rfl (credit_lost rfl rfl rfl) rfl
        (by simp [hack, hlost]) (fun ha => absurd hack ha)
        (fun i wr _ _ _ hfl => absurd (hg.1.symm.trans hfl) (by simp))
    · cases hs
  case pick now =>
    split at hs
    · cases hs
    split at hs
    · next hg =>
      cases hs
      exact setPending_posting hc h hp { p with flight := .picked } rfl rfl rfl
        rfl (.inl rfl) rfl rfl (fun i hfl => absurd hfl (by simp))
        (fun i wr _ _ _ hfl => absurd (hg.1.symm.trans hfl) (by simp))
    · cases hs
  case write slot now delay =>
    split at hs
    · cases hs
    · next hg =>
      have hpicked : p.flight = .picked := not_not.mp hg
      obtain rfl | rfl := slot_cases hs
      · refine setPending_posting hc h hp { p with flight := .sent b.world.writes.length }
          rfl rfl rfl rfl (.inr rfl) rfl rfl (fun i hfl => ?_)
          (fun i wr _ _ _ hfl => absurd (hpicked.symm.trans hfl) (by simp))
        injection hfl with hi
        rw [← hi]
        exact ⟨_, getElem?_concat_length, rfl⟩
      · exact retryReply_posting hc h hp rfl (fun hn => absurd hn (by simp))
          (fun e i wr _ _ hfl => absurd (hpicked.symm.trans hfl) (by simp))
  case reply res now delay =>
    split at hs
    · next i hfl =>
      split at hs
      · cases hs
      · next hg =>
        cases hs
        rw [not_or, Bool.not_eq_false] at hg
        obtain ⟨wr, hi, hrow⟩ := h.sent i (.inr ⟨p, hp, hfl⟩)
        have hrep := hg.2
        rw [hi] at hrep
        have hrep : wr.reports res = true := hrep
        refine retryReply_posting hc h hp ?_ ?_ ?_
        · cases res <;> rfl
        · intro hn
          subst hn
          exact ⟨wr, mem_of_getElem? hi, hrow.trans (h.queueRow p hp).symm, of_decide_eq_true hrep⟩
        · intro e j wr' he hc' hfl' hj
          subst he
          have hij : i = j := by
            have := hfl.symm.trans hfl'
            injection this
          subst hij
          cases hi.symm.trans hj
          refine reports_error hrep fun he => ?_
          subst he
          exact hC hc' p i wr hfind hfl hi
    · cases hs

end Postings

end Talus.Usage
