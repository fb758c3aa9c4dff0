/-
  Talus.Usage.Account
  **THE BOOKS OF THE RECORDER, AND THE ACCOUNT OF ONE OPERATION.**

  Admission is decided in two places: by `AdmitShort` when the caller's identity
  is known, by `Begin` for operations that take long, and by `Finish` itself when
  neither has run.  What the three leave is a pair of flags and a counter; what
  becomes of the terminal snapshot is acknowledged, queued or counted as lost.

  The BOOKS attribute the counters to operations: a step of an operation's calls,
  or of the retry queue on its snapshot, is credited with what it adds to
  `CaptureSkipped` and `FinalizationLost`, and with the acknowledgement of the
  terminal snapshot.

  `Accounted` says what the books hold of one operation at every place of its
  calls.  It is stated over the operation's cell, its queued snapshots, the writes
  and its tally, and §3 proves what each kind of change keeps: the calls of the
  model are only matched against these.
-/
import Talus.Base.Count
import Talus.Usage.LiveOwner

namespace Talus.Usage

open Talus.Base List Option

variable {cfg : Config} {opts : Options}

/-! ## §1. The books. -/

/-- What is credited to one operation. -/
@[ext] structure Tally where
  skipped : Nat
  lost : Nat
  acked : Nat
  deriving Repr, DecidableEq

def Tally.zero : Tally := ⟨0, 0, 0⟩

structure Books where
  world : World
  tally : OperationID → Tally

/-- The operation a step belongs to. -/
def Label.subject : Label → Option OperationID
  | .op o _ => some o
  | .retry o _ => some o
  | _ => none

/-- The step hands the caller the acknowledgement of a terminal snapshot. -/
def Label.acknowledges : Label → Bool
  | .op _ (.finishReturn none) => true
  | .retry _ (.reply none _ _) => true
  | _ => false

/-- What a step from `w` to `w'` adds. -/
def Tally.credit (t : Tally) (l : Label) (w w' : World) : Tally where
  skipped := t.skipped + (w'.stats.captureSkipped - w.stats.captureSkipped)
  lost := t.lost + (w'.stats.finalizationLost - w.stats.finalizationLost)
  acked := t.acked + l.acknowledges.toNat

def booksStep (cfg : Config) (opts : Options) (b : Books) (l : Label) : Option Books :=
  (worldStep cfg opts b.world l).map fun w' =>
    { world := w'
      tally := fun i =>
        if l.subject = some i then (b.tally i).credit l b.world w' else b.tally i }

/-- The recorder with its books, opened at its start. -/
def booksSystem (cfg : Config) (opts : Options) : System Books Label where
  init b := b.world.Initial ∧ b.tally = fun _ => .zero
  step := booksStep cfg opts

/-- **The condition on a step**: `Begin` refuses no operation whose admission
`AdmitShort` has decided, and `Finish` does not overtake a `Begin` that has not
been decided. -/
def Judged (opts : Options) (b : Books) : Label → Prop
  | .op o (.beginAdmit now budget) => ∀ cell, b.world.ops o = some cell →
      cell.beginPC = .waiting → cell.op.finished = false →
      b.world.refuses opts cell.op now budget = true → cell.op.captureDecided = false
  | .op o (.finishEnter _ _ _) => ∀ cell, b.world.ops o = some cell →
      cell.op.finished = false → cell.beginPC = .waiting → cell.op.captureDecided = true
  | _ => True

/-! ## §2. What is on record of one operation. -/

/-- A caller waits for the reply to write `i`, a terminal snapshot. -/
def Cell.Awaits (cell : Cell) (queue : List PendingUsage) (i : Nat) : Prop :=
  (∃ row completion, cell.finishPC = .sent row completion i) ∨ ∃ p ∈ queue, p.flight = .sent i

/-- **The database is candid**: of a write that has committed it does not say
that it could not be reached, and a terminal snapshot nobody waits for any more
does not commit. -/
def Candid (b : Books) : Label → Prop
  | .op o (.finishReturn (some .unavailable)) => ∀ cell row completion i wr,
      b.world.ops o = some cell → cell.finishPC = .sent row completion i →
      b.world.writes[i]? = some wr → wr.state ≠ .committed
  | .retry o (.reply (some .unavailable) _ _) => ∀ p i wr, b.world.findPending o = some p →
      p.flight = .sent i → b.world.writes[i]? = some wr → wr.state ≠ .committed
  | .commit i _ => ∀ wr cell, b.world.writes[i]? = some wr → wr.row.outcome ≠ .running →
      b.world.ops wr.row.operationID = some cell →
      cell.Awaits (b.world.pendingOf wr.row.operationID) i
  | _ => True

/-- The admission is decided: by `AdmitShort`, or by a `Begin` that got that
far. -/
def Cell.judged (cell : Cell) : Bool :=
  cell.op.captureDecided || (cell.op.beginAttempted && !cell.beginPC.early)

/-- Where the terminal snapshot is, by the place of `Finish`. -/
def Progress (admitted : Bool) (queue : List PendingUsage) (t : Tally) : FinishPC → Prop
  | .idle | .closing _ => t.acked = 0 ∧ t.lost = 0 ∧ queue = []
  | .writing _ _ | .sent _ _ _ | .settling _ _ (some _) =>
    admitted = true ∧ t.acked = 0 ∧ t.lost = 0 ∧ queue = []
  | .settling _ _ none => admitted = true ∧ t.acked = 1 ∧ t.lost = 0 ∧ queue = []
  | .done => t.acked + t.lost + queue.length = admitted.toNat

/-- **The account of one operation**, from its creation on.  `C` says that the
database has been candid so far. -/
structure Accounted (C : Prop) (o : OperationID) (cell : Cell) (queue : List PendingUsage)
    (writes : List Write) (t : Tally) : Prop where
  skipped : t.skipped = ((cell.finishPC.isDone || cell.judged) && !cell.op.admitted).toNat
  undecided : cell.judged = false → cell.op.admitted = false
  begun : cell.op.beginAttempted = true → cell.beginPC.isIdle = false
  /-- `Finish` found the admission decided, or no `Begin` -/
  resolved : cell.finishPC.isIdle = false → cell.judged = true ∨ cell.op.beginAttempted = false
  progress : Progress cell.op.admitted queue t cell.finishPC
  /-- nothing is written for an operation that is not admitted -/
  silent : cell.op.admitted = false → ∀ wr ∈ writes, wr.row.operationID ≠ o
  terminal : cell.op.finished = true → cell.op.snapshot.outcome ≠ .running
  beginRow : ∀ row, cell.beginPC.row? = some row →
    cell.op.admitted = true ∧ row.outcome = .running
  finishRow : ∀ row, cell.finishPC.row? = some row → row = cell.op.snapshot
  queueRow : ∀ p ∈ queue, p.row = cell.op.snapshot
  /-- the write a caller waits for is of the terminal snapshot -/
  sent : ∀ i, cell.Awaits queue i → ∃ wr, writes[i]? = some wr ∧ wr.row = cell.op.snapshot
  persisted : t.acked ≠ 0 → ∃ wr ∈ writes, wr.row = cell.op.snapshot ∧ wr.state = .committed
  known : C → ∀ i wr, writes[i]? = some wr → wr.row.operationID = o →
    wr.row.outcome ≠ .running → wr.state = .committed → t.acked ≠ 0 ∨ cell.Awaits queue i

section Account

variable {C : Prop} {o : OperationID} {cell : Cell} {queue : List PendingUsage}
  {ws : List Write} {t : Tally}

theorem not_awaits {i : Nat} (hf : ∀ row completion, cell.finishPC ≠ .sent row completion i)
    (hq : queue = []) : ¬cell.Awaits queue i := by
  rintro (⟨row, completion, hs⟩ | ⟨p, hp, -⟩)
  · exact hf row completion hs
  · rw [hq] at hp
    exact absurd hp not_mem_nil

/-- No acknowledgement, and nobody waits for one. -/
theorem not_settled {i : Nat} (hack : t.acked = 0)
    (hf : ∀ row completion, cell.finishPC ≠ .sent row completion i) (hq : queue = []) :
    ¬(t.acked ≠ 0 ∨ cell.Awaits queue i) := by
  rintro (ha | hw)
  · exact ha hack
  · exact not_awaits hf hq hw

section

variable (h : Accounted C o cell queue ws t)
include h

/-- Where the terminal snapshot is. -/
theorem Accounted.place {f : FinishPC} (hf : cell.finishPC = f) :
    Progress cell.op.admitted queue t f := hf ▸ h.progress

/-- `Finish` goes on with the snapshot it carries. -/
theorem Accounted.sameRow {f : FinishPC} {row : UsageLog} (hr : cell.finishPC.row? = some row)
    (hf : f.row? = some row) : ∀ row', f.row? = some row' → row' = cell.op.snapshot := by
  intro row' hr'
  cases hf.symm.trans hr'
  exact h.finishRow row hr

/-- A queued snapshot is all that is left of its operation. -/
theorem Accounted.queued {p : PendingUsage} (hp : p ∈ queue) :
    cell.finishPC = .done ∧ cell.op.admitted = true ∧ queue = [p] ∧ t.acked = 0 ∧ t.lost = 0 := by
  have hne : queue ≠ [] := ne_nil_of_mem hp
  cases hf : cell.finishPC with
  | done =>
    have hsum : t.acked + t.lost + queue.length = cell.op.admitted.toNat := h.place hf
    have hlen : 0 < queue.length := length_pos_of_mem hp
    have hle : cell.op.admitted.toNat ≤ 1 := Bool.toNat_le _
    have hone : queue.length = 1 := by omega
    obtain ⟨q, hq⟩ := length_eq_one_iff.mp hone
    rw [hq, mem_singleton] at hp
    have hadm : cell.op.admitted.toNat = 1 := by omega
    exact ⟨rfl, by simpa using hadm, hp ▸ hq, by omega, by omega⟩
  | idle | closing row => exact absurd (h.place hf).2.2 hne
  | writing row c | sent row c i => exact absurd (h.place hf).2.2.2 hne
  | settling row c res => cases res <;> exact absurd (h.place hf).2.2.2 hne

/-- The counter of an admitted operation. -/
theorem Accounted.not_skipped (hadm : cell.op.admitted = true) : t.skipped = 0 := by
  rw [h.skipped, hadm, Bool.not_true, Bool.and_false]
  rfl

/-! ## §3. What the steps do to the account. -/

/-- A write is handed to the database: of another operation, or of this one once
it is admitted. -/
theorem Accounted.append {row : UsageLog} (hrow : row.operationID = o → cell.op.admitted = true) :
    Accounted C o cell queue (ws ++ [⟨row, .sent⟩]) t :=
  { h with
    silent := by
      intro hadm wr hwr
      rw [mem_append, mem_singleton] at hwr
      obtain hwr | rfl := hwr
      · exact h.silent hadm wr hwr
      · exact fun hid => absurd ((hrow hid).symm.trans hadm) (by simp)
    sent := by
      intro i hi
      obtain ⟨wr, hwr, hsnap⟩ := h.sent i hi
      refine ⟨wr, ?_, hsnap⟩
      rw [List.getElem?_append_left (List.getElem?_eq_some_iff.mp hwr).1]
      exact hwr
    persisted := by
      intro ha
      obtain ⟨wr, hwr, hrest⟩ := h.persisted ha
      exact ⟨wr, mem_append_left _ hwr, hrest⟩
    known := by
      intro hC i wr hi hid hout hst
      obtain hi | ⟨-, rfl⟩ := getElem?_concat_cases hi
      · exact h.known hC i wr hi hid hout hst
      · -- the new write has not committed
        exact absurd hst (by simp) }

/-- The database runs a transaction that was handed to it. -/
theorem Accounted.commit {i : Nat} {wr : Write}
    {st : WriteState} (hi : ws[i]? = some wr) (hsent : wr.state = .sent)
    (hC : C → wr.row.operationID = o → wr.row.outcome ≠ .running → cell.Awaits queue i) :
    Accounted C o cell queue (ws.set i { wr with state := st }) t :=
  { h with
    silent := by
      intro hadm wr' hwr'
      obtain hold | rfl := mem_or_eq_of_mem_set hwr'
      · exact h.silent hadm wr' hold
      · exact h.silent hadm wr (mem_of_getElem? hi)
    sent := by
      intro j hj
      obtain ⟨wr', hwr', hsnap⟩ := h.sent j hj
      by_cases hij : i = j
      · subst hij
        have heq : wr = wr' := mem_unique hi hwr'
        exact ⟨_, List.getElem?_set_self (List.getElem?_eq_some_iff.mp hi).1, heq ▸ hsnap⟩
      · exact ⟨wr', (getElem?_set_ne hij).trans hwr', hsnap⟩
    persisted := by
      intro ha
      obtain ⟨wr', hwr', hsnap, hst⟩ := h.persisted ha
      obtain ⟨j, hj⟩ := getElem?_of_mem hwr'
      -- what has committed is not the write that waited
      have hij : i ≠ j := by
        rintro rfl
        have heq : wr = wr' := mem_unique hi hj
        rw [← heq, hsent] at hst
        cases hst
      exact ⟨wr', mem_of_getElem? ((getElem?_set_ne hij).trans hj), hsnap, hst⟩
    known := by
      intro hc j wr' hj hid hout hst
      obtain ⟨rfl, rfl⟩ | ⟨-, hj⟩ := getElem?_set_cases hj
      · exact .inr (hC hc hid hout)
      · exact h.known hc j wr' hj hid hout hst }

end

/-- Before `Finish` has entered: the flags of the admission, the place of
`Begin` and the data of the operation may change. -/
theorem Accounted.judge {cell' : Cell} {n : Nat} (h : Accounted C o cell queue ws t)
    (hf : cell.finishPC = .idle) (hf' : cell'.finishPC = .idle)
    (hfin : cell'.op.finished = false)
    (hskip : t.skipped + n = (cell'.judged && !cell'.op.admitted).toNat)
    (hund : cell'.judged = false → cell'.op.admitted = false)
    (hbegun : cell'.op.beginAttempted = true → cell'.beginPC.isIdle = false)
    (hsilent : cell'.op.admitted = false → cell.op.admitted = false)
    (hrow : ∀ row, cell'.beginPC.row? = some row →
      cell'.op.admitted = true ∧ row.outcome = .running) :
    Accounted C o cell' queue ws { t with skipped := t.skipped + n } := by
  obtain ⟨hack, hlost, hq⟩ := h.place hf
  refine ⟨?_, hund, hbegun, ?_, ?_, fun ha => h.silent (hsilent ha), ?_, hrow, ?_, ?_,
    fun i hi => absurd hi (not_awaits (fun _ _ => by simp [hf']) hq), fun ha => absurd hack ha, ?_⟩
  · rw [hf']
    exact hskip
  · rw [hf']
    exact fun hi => absurd hi (by simp [FinishPC.isIdle])
  · rw [hf']
    exact ⟨hack, hlost, hq⟩
  · rw [hfin]
    exact fun h => absurd h (by simp)
  · rw [hf']
    exact fun row hr => absurd hr (by simp [FinishPC.row?])
  · rw [hq]
    exact fun p hp => absurd hp not_mem_nil
  · intro hC i wr hi hid hout hst
    exact absurd (h.known hC i wr hi hid hout hst) (not_settled hack (fun _ _ => by simp [hf]) hq)

/-- A setter on an operation that is not finished. -/
theorem Accounted.setOp {op : Operation} (h : Accounted C o cell queue ws t)
    (hf : cell.finishPC = .idle) (hfin : op.finished = false) (hs : SameCapture cell.op op) :
    Accounted C o { cell with op := op } queue ws t := by
  have hj : Cell.judged { cell with op := op } = cell.judged := by
    unfold Cell.judged
    rw [hs.captureDecided, hs.beginAttempted]
  have hskip : t.skipped = (cell.judged && !cell.op.admitted).toNat := by
    have hsk := h.skipped
    rw [hf] at hsk
    exact hsk
  refine h.judge (n := 0) hf hf hfin ?_ ?_ ?_ ?_ ?_
  · rw [hj, hs.admitted]
    exact hskip
  · rw [hj, hs.admitted]
    exact h.undecided
  · rw [hs.beginAttempted]
    exact h.begun
  · rw [hs.admitted]
    exact fun ha => ha
  · rw [hs.admitted]
    exact h.beginRow

/-- `Begin` moves on after its decision. -/
theorem Accounted.setBegin {b : BeginPC} (h : Accounted C o cell queue ws t)
    (hj : Cell.judged { cell with beginPC := b } = cell.judged) (hidle : b.isIdle = false)
    (hrow : ∀ row, b.row? = some row → cell.beginPC.row? = some row) :
    Accounted C o { cell with beginPC := b } queue ws t where
  skipped := by
    rw [hj]
    exact h.skipped
  undecided := by
    rw [hj]
    exact h.undecided
  begun _ := hidle
  resolved := by
    rw [hj]
    exact h.resolved
  __ := h
  beginRow row hr := h.beginRow row (hrow row hr)

/-- `Finish` enters: the operation is finished and the snapshot taken. -/
theorem Accounted.close {op : Operation} (h : Accounted C o cell queue ws t)
    (hf : cell.finishPC = .idle) (hs : SameCapture cell.op op)
    (hterm : op.snapshot.outcome ≠ .running)
    (hres : cell.judged = true ∨ cell.op.beginAttempted = false) :
    Accounted C o { cell with op := op, finishPC := .closing op.snapshot } queue ws t := by
  obtain ⟨hack, hlost, hq⟩ := h.place hf
  have hj : Cell.judged { cell with op := op, finishPC := .closing op.snapshot } = cell.judged := by
    unfold Cell.judged
    rw [hs.captureDecided, hs.beginAttempted]
  refine ⟨?_, ?_, ?_, ?_, ⟨hack, hlost, hq⟩, ?_, fun _ => hterm, ?_, ?_, ?_, ?_,
    fun ha => absurd hack ha, ?_⟩
  · have hsk := h.skipped
    rw [hf] at hsk
    rw [hj, hs.admitted]
    exact hsk
  · rw [hj, hs.admitted]
    exact h.undecided
  · rw [hs.beginAttempted]
    exact h.begun
  · rw [hj, hs.beginAttempted]
    exact fun _ => hres
  · rw [hs.admitted]
    exact h.silent
  · rw [hs.admitted]
    exact h.beginRow
  · exact fun row hr => (some.inj hr).symm
  · rw [hq]
    exact fun p hp => absurd hp not_mem_nil
  · exact fun i hi => absurd hi (not_awaits (fun _ _ => by simp) hq)
  · intro hC i wr hi hid hout hst
    exact absurd (h.known hC i wr hi hid hout hst) (not_settled hack (fun _ _ => by simp [hf]) hq)

/-- `Finish` leaves an operation that is not admitted. -/
theorem Accounted.refuse {row : UsageLog} {n : Nat} (h : Accounted C o cell queue ws t)
    (hf : cell.finishPC = .closing row) (hadm : cell.op.admitted = false)
    (hskip : t.skipped + n = 1) :
    Accounted C o { cell with finishPC := .done } queue ws { t with skipped := t.skipped + n } := by
  obtain ⟨hack, hlost, hq⟩ := h.place hf
  refine ⟨?_, h.undecided, h.begun, fun _ => h.resolved (by rw [hf]; rfl), ?_, h.silent,
    h.terminal, h.beginRow, fun row hr => absurd hr (by simp [FinishPC.row?]), h.queueRow,
    fun i hi => absurd hi (not_awaits (fun _ _ => by simp) hq), h.persisted, ?_⟩
  · show t.skipped + n = (_ && !cell.op.admitted).toNat
    rw [hadm, hskip]
    rfl
  · show t.acked + t.lost + queue.length = cell.op.admitted.toNat
    rw [hack, hlost, hq, hadm]
    rfl
  · intro hC i wr hi hid hout hst
    exact absurd (h.known hC i wr hi hid hout hst) (not_settled hack (fun _ _ => by simp [hf]) hq)

/-- `Finish` admits an operation nobody has decided about. -/
theorem Accounted.admit {row : UsageLog} (h : Accounted C o cell queue ws t)
    (hf : cell.finishPC = .closing row) (hskip : t.skipped = 0) :
    Accounted C o { cell with
      op := { cell.op with captureDecided := true, admitted := true }
      finishPC := .writing row false } queue ws t := by
  obtain ⟨hack, hlost, hq⟩ := h.place hf
  refine ⟨?_, fun hj => absurd hj (by simp [Cell.judged]), h.begun,
    fun _ => .inl (by simp [Cell.judged]), ⟨rfl, hack, hlost, hq⟩, fun ha => absurd ha (by simp),
    h.terminal, fun row hr => ⟨rfl, (h.beginRow row hr).2⟩, h.sameRow (by rw [hf]; rfl) rfl, h.queueRow,
    fun i hi => absurd hi (not_awaits (fun _ _ => by simp) hq), fun ha => absurd hack ha, ?_⟩
  · rw [hskip, Bool.not_true, Bool.and_false]
    rfl
  · intro hC i wr hi hid hout hst
    exact absurd (h.known hC i wr hi hid hout hst) (not_settled hack (fun _ _ => by simp [hf]) hq)

/-- The terminal snapshot of an admitted operation moves on: in `Finish`, or in
the retry queue. -/
theorem Accounted.advance {f : FinishPC} {queue' : List PendingUsage} {t' : Tally}
    (h : Accounted C o cell queue ws t) (hadm : cell.op.admitted = true)
    (hskip : t'.skipped = t.skipped)
    (hrow : ∀ row, f.row? = some row → row = cell.op.snapshot)
    (hqueue : ∀ p ∈ queue', p.row = cell.op.snapshot)
    (hprog : Progress true queue' t' f)
    (hsent : ∀ i, Cell.Awaits { cell with finishPC := f } queue' i →
      ∃ wr, ws[i]? = some wr ∧ wr.row = cell.op.snapshot)
    (hper : t'.acked ≠ 0 → ∃ wr ∈ ws, wr.row = cell.op.snapshot ∧ wr.state = .committed)
    (hknown : ∀ i wr, ws[i]? = some wr → wr.state = .committed →
      C → t.acked ≠ 0 ∨ cell.Awaits queue i →
      t'.acked ≠ 0 ∨ Cell.Awaits { cell with finishPC := f } queue' i) :
    Accounted C o { cell with finishPC := f } queue' ws t' where
  skipped := by
    rw [hskip, h.not_skipped hadm]
    show false.toNat = (_ && !cell.op.admitted).toNat
    rw [hadm, Bool.not_true, Bool.and_false]
  __ := h
  resolved _ := by
    cases hj : cell.judged with
    | true => exact .inl hj
    | false => exact absurd ((h.undecided hj).symm.trans hadm) (by simp)
  progress := by
    show Progress cell.op.admitted queue' t' f
    rw [hadm]
    exact hprog
  silent hno := absurd (hadm.symm.trans hno) (by simp)
  finishRow := hrow
  queueRow := hqueue
  sent := hsent
  persisted := hper
  known hC i wr hi hid hout hst :=
    hknown i wr hi hst hC (h.known hC i wr hi hid hout hst)

end Account

end Talus.Usage
