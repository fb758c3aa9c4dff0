/-
  Talus.Usage.Tracking
  **A LIVE OWNER NEVER DISOWNS ITS OWN WORK.**

  The tracked set a reconcile pass works with is a snapshot of memory, taken
  at another instant than the row locks.  It is safe because

    • a row names an owner only after its operation was stored in `active`
      (or will be, before `mu` is released), and
    • an operation that has left `active` and `pending` never comes back
      (`Retired` is stable), while
    • no row of the owner can appear between the snapshot and the commit: its
      `Upsert` waits for the owner's row.

  So a row of the owner that is not in the tracked set belongs to a RETIRED
  operation, then and for ever after.  `RecInv` carries this through every
  step; a step of one operation's calls is summed up once, by `OpMove`.
-/
import Talus.Usage.Recorder

namespace Talus.Usage

open Talus.Base List Option

variable {cfg : Config} {opts : Options} {w w' : World} {o : OperationID} {cell : Cell}

/-! ## §1. Where an operation is. -/

def FinishPC.isDone : FinishPC → Bool
  | .done => true
  | _ => false

def FinishPC.isIdle : FinishPC → Bool
  | .idle => true
  | _ => false

/-- `Finish` has not got past its first critical section. -/
def FinishPC.early : FinishPC → Bool
  | .idle => true
  | .closing _ => true
  | _ => false

/-- The snapshot a `Finish` carries. -/
def FinishPC.row? : FinishPC → Option UsageLog
  | .closing row => some row
  | .writing row _ => some row
  | .sent row _ _ => some row
  | .settling row _ _ => some row
  | _ => none

/-- The snapshot a `Begin` carries. -/
def BeginPC.row? : BeginPC → Option UsageLog
  | .storing row => some row
  | .writing row => some row
  | _ => none

def BeginPC.isStoring : BeginPC → Bool
  | .storing _ => true
  | _ => false

def BeginPC.isIdle : BeginPC → Bool
  | .idle => true
  | _ => false

/-- `Begin` has not been decided. -/
def BeginPC.early : BeginPC → Bool
  | .idle => true
  | .waiting => true
  | _ => false

/-- The operation was admitted under an owner. -/
def Started (cell : Cell) : Prop := ∃ x, cell.op.row.ownerInstanceID = some x

/-- The terminal snapshot waits in the retry queue, in flight or not. -/
def Queued (w : World) (o : OperationID) : Prop := ∃ p ∈ w.pending, p.row.operationID = o

/-- The recorder is through with the operation. -/
structure Retired (w : World) (o : OperationID) : Prop where
  active : o ∉ w.active
  queued : ¬Queued w o
  done : ∀ cell, w.ops o = some cell → cell.finishPC.isDone = true

/-- The operation is active, or its terminal snapshot is in flight or queued. -/
def Busy (w : World) (o : OperationID) : Prop :=
  o ∈ w.active ∨ Queued w o ∨
    ∃ cell, w.ops o = some cell ∧ cell.finishPC.isDone = false ∧
      (Started cell ∨ cell.finishPC.isIdle = false)

theorem Retired.not_busy (h : Retired w o) : ¬Busy w o := by
  rintro (ha | hq | ⟨cell, hc, hd, -⟩)
  · exact h.active ha
  · exact h.queued hq
  · rw [h.done cell hc] at hd
    cases hd

/-! ## §2. The invariant. -/

/-- A snapshot of the operation in `cell`. -/
structure RowFits (cell : Cell) (o : OperationID) (row : UsageLog) : Prop where
  operationID : row.operationID = o
  reason : row.recoveryReason = .empty
  owner : ∀ x, row.ownerInstanceID = some x → cell.op.row.ownerInstanceID = some x

/-- What holds of one operation. -/
structure CellOk (w : World) (o : OperationID) (cell : Cell) : Prop where
  row : ∃ start, start.operationID = o ∧ OfOperation start cell.op.row
  owner : ∀ x, cell.op.row.ownerInstanceID = some x → x ∈ w.owners
  attempted : cell.beginPC.isIdle = false → cell.op.beginAttempted = true
  admitted : Started cell → cell.op.admitted = true ∧ cell.op.beginAttempted = true
  started : Started cell → cell.beginPC.early = false
  finished : cell.finishPC.isIdle = true ↔ cell.op.finished = false
  active : o ∈ w.active → Started cell ∧ cell.finishPC.isDone = false
  tracked : Started cell → cell.finishPC.isDone = false → w.mu ≠ some o → o ∈ w.active
  storing : cell.beginPC.isStoring = true ↔ w.mu = some o
  holds : w.mu = some o → Started cell ∧ cell.finishPC.early = true
  queued : Queued w o → cell.finishPC.isDone = true
  beginRow : ∀ row, cell.beginPC.row? = some row → RowFits cell o row
  finishRow : ∀ row, cell.finishPC.row? = some row → RowFits cell o row

/-- **The invariant of the recorder and its table.** -/
structure RecInv (w : World) : Prop where
  cells : ∀ o cell, w.ops o = some cell → CellOk w o cell
  owner : w.owner ∈ w.owners
  mu : ∀ o, w.mu = some o → ∃ cell, w.ops o = some cell
  active : ∀ o ∈ w.active, ∃ cell, w.ops o = some cell
  writes : ∀ wr ∈ w.writes, ∃ cell, w.ops wr.row.operationID = some cell ∧
    RowFits cell wr.row.operationID wr.row
  pending : ∀ p ∈ w.pending, ∃ cell, w.ops p.row.operationID = some cell ∧
    RowFits cell p.row.operationID p.row
  keyed : ∀ o r, w.store.logs o = some r → r.operationID = o
  rows : ∀ o r cell, w.store.logs o = some r → w.ops o = some cell →
    ∀ x, r.ownerInstanceID = some x → cell.op.row.ownerInstanceID = some x
  marked : ∀ o r cell, w.store.logs o = some r → w.ops o = some cell →
    r.recoveryReason = .finalizationUnavailable → Retired w o
  live : ∀ p, w.pass = some p → w.store.stale p.now p.self = false
  untracked : ∀ p tracked, w.pass = some p → p.tracked = some tracked →
    ∀ o r, w.store.logs o = some r → r.ownerInstanceID = some p.self → o ∉ tracked →
      Retired w o

/-! ## §3. Steps of one operation. -/

/-- What a step of the calls of `o`, or of the retry queue on `o`, can do. -/
structure OpMove (w : World) (o : OperationID) (w' : World) : Prop where
  known : (∃ cell, w.ops o = some cell) ∨ w.store.logs o = none
  cell : ∃ cell', w'.ops o = some cell' ∧ CellOk w' o cell' ∧
    ∀ cell x, w.ops o = some cell → cell.op.row.ownerInstanceID = some x →
      cell'.op.row.ownerInstanceID = some x
  ops : ∀ i, i ≠ o → w'.ops i = w.ops i
  active : ∀ i, i ≠ o → (i ∈ w'.active ↔ i ∈ w.active)
  queued : ∀ i, i ≠ o → (Queued w' i ↔ Queued w i)
  mu : ∀ i, i ≠ o → (w'.mu = some i ↔ w.mu = some i)
  writes : ∀ wr ∈ w'.writes, wr ∈ w.writes ∨
    ∀ cell', w'.ops o = some cell' → RowFits cell' o wr.row
  pending : ∀ p ∈ w'.pending, (∃ q ∈ w.pending, p.row = q.row) ∨
    ∀ cell', w'.ops o = some cell' → RowFits cell' o p.row
  retired : (∃ r, w.store.logs o = some r) → Retired w o → Retired w' o
  owner : w'.owner = w.owner
  owners : w'.owners = w.owners
  store : w'.store = w.store
  pass : w'.pass = w.pass

variable {i : OperationID}

/-- An operation with a row that has a cell now had one before. -/
theorem OpMove.before (h : OpMove w o w') {r : UsageLog} (hr : w.store.logs i = some r)
    (hc : w'.ops i = some cell) :
    ∃ c, w.ops i = some c ∧ ∀ x, c.op.row.ownerInstanceID = some x →
      cell.op.row.ownerInstanceID = some x := by
  by_cases hi : i = o
  · subst hi
    obtain ⟨cell', hc', -, hle⟩ := h.cell
    have heq : cell = cell' := mem_unique hc hc'
    rcases h.known with ⟨c, hk⟩ | hnone
    · exact ⟨c, hk, fun x hx => heq ▸ hle c x hk hx⟩
    · rw [hnone] at hr
      cases hr
  · rw [h.ops i hi] at hc
    exact ⟨cell, hc, fun _ hx => hx⟩

variable {cell' : Cell} {row : UsageLog}

theorem RowFits.mono (h : RowFits cell o row)
    (hle : ∀ x, cell.op.row.ownerInstanceID = some x → cell'.op.row.ownerInstanceID = some x) :
    RowFits cell' o row :=
  ⟨h.operationID, h.reason, fun x hx => hle x (h.owner x hx)⟩

/-- `CellOk` reads the owners, and what the collections and the mutex say of the
operation. -/
theorem CellOk.congr (hc : CellOk w o cell) (ho : ∀ x ∈ w.owners, x ∈ w'.owners)
    (ha : o ∈ w'.active ↔ o ∈ w.active) (hm : w'.mu = some o ↔ w.mu = some o)
    (hq : Queued w' o → Queued w o) : CellOk w' o cell where
  __ := hc
  owner := fun x hx => ho x (hc.owner x hx)
  active := fun h => hc.active (ha.mp h)
  tracked := fun hs hd h => ha.mpr (hc.tracked hs hd fun h0 => h (hm.mpr h0))
  storing := hc.storing.trans hm.symm
  holds := fun h => hc.holds (hm.mp h)
  queued := fun h => hc.queued (hq h)

theorem same_cell (h : w.ops o = some cell) (h' : w.ops o = some cell') : cell = cell' :=
  mem_unique h h'

theorem OpMove.retired_of (h : OpMove w o w') {r : UsageLog}
    (hr : w.store.logs i = some r) (hret : Retired w i) : Retired w' i := by
  by_cases hi : i = o
  · subst hi
    exact h.retired ⟨r, hr⟩ hret
  · refine ⟨fun ha => hret.active ((h.active i hi).mp ha),
      fun hq => hret.queued ((h.queued i hi).mp hq), fun cell hc => ?_⟩
    rw [h.ops i hi] at hc
    exact hret.done cell hc

/-- Snapshots already on their way still fit. -/
theorem OpMove.fits (h : OpMove w o w')
    (hf : ∃ cell, w.ops row.operationID = some cell ∧ RowFits cell row.operationID row) :
    ∃ cell, w'.ops row.operationID = some cell ∧ RowFits cell row.operationID row := by
  obtain ⟨cell, hc, hfit⟩ := hf
  by_cases hi : row.operationID = o
  · obtain ⟨cell', hc', -, hle⟩ := h.cell
    rw [hi] at hc hfit ⊢
    exact ⟨cell', hc', hfit.mono fun x hx => hle cell x hc hx⟩
  · rw [h.ops _ hi]
    exact ⟨cell, hc, hfit⟩

/-- New snapshots are of `o`. -/
theorem OpMove.fits_new (h : OpMove w o w')
    (hf : ∀ cell', w'.ops o = some cell' → RowFits cell' o row) :
    ∃ cell, w'.ops row.operationID = some cell ∧ RowFits cell row.operationID row := by
  obtain ⟨cell', hc', -, -⟩ := h.cell
  have hfit := hf cell' hc'
  rw [hfit.operationID]
  exact ⟨cell', hc', hfit⟩

/-- No cell goes. -/
theorem OpMove.keeps (h : OpMove w o w') (hold : i ≠ o → ∃ cell, w.ops i = some cell) :
    ∃ cell, w'.ops i = some cell := by
  by_cases hi : i = o
  · obtain ⟨cell', hc', -, -⟩ := h.cell
    exact ⟨cell', hi ▸ hc'⟩
  · rw [h.ops i hi]
    exact hold hi

/-- **A step of one operation's calls keeps the invariant.** -/
theorem OpMove.inv (h : OpMove w o w') (hinv : RecInv w) : RecInv w' where
  cells := by
    intro i cell hc
    by_cases hi : i = o
    · obtain ⟨cell', hc', hok, -⟩ := h.cell
      subst hi
      exact same_cell hc' hc ▸ hok
    · rw [h.ops i hi] at hc
      exact (hinv.cells i cell hc).congr (h.owners ▸ fun _ hx => hx) (h.active i hi) (h.mu i hi)
        (h.queued i hi).mp
  owner := by
    rw [h.owner, h.owners]
    exact hinv.owner
  mu := fun i hm => h.keeps fun hi => hinv.mu i ((h.mu i hi).mp hm)
  active := fun i ha => h.keeps fun hi => hinv.active i ((h.active i hi).mp ha)
  writes := by
    intro wr hwr
    rcases h.writes wr hwr with hold | hnew
    · exact h.fits (hinv.writes wr hold)
    · exact h.fits_new hnew
  pending := by
    intro p hp
    rcases h.pending p hp with ⟨q, hq, heq⟩ | hnew
    · rw [heq]
      exact h.fits (hinv.pending q hq)
    · exact h.fits_new hnew
  keyed := by
    rw [h.store]
    exact hinv.keyed
  rows := by
    intro i r cell hr hc x hx
    rw [h.store] at hr
    obtain ⟨c, hold, hle⟩ := h.before hr hc
    exact hle x (hinv.rows i r c hr hold x hx)
  marked := by
    intro i r cell hr hc hm
    rw [h.store] at hr
    obtain ⟨c, hold, -⟩ := h.before hr hc
    exact h.retired_of hr (hinv.marked i r c hr hold hm)
  live := by
    rw [h.pass, h.store]
    exact hinv.live
  untracked := by
    intro p tracked hp ht i r hr hx hnt
    rw [h.pass] at hp
    rw [h.store] at hr
    exact h.retired_of hr (hinv.untracked p tracked hp ht i r hr hx hnt)

/-- The collections and the database are untouched. -/
structure SameTracking (w w' : World) : Prop where
  active : w'.active = w.active
  pending : w'.pending = w.pending
  mu : w'.mu = w.mu
  owner : w'.owner = w.owner
  owners : w'.owners = w.owners
  store : w'.store = w.store
  pass : w'.pass = w.pass

theorem SameTracking.queued (h : SameTracking w w') (i : OperationID) :
    Queued w' i ↔ Queued w i := by
  unfold Queued
  rw [h.pending]

/-- A step that changes the operation's cell and may hand a snapshot to the
database, and nothing else. -/
theorem opMove_local (hc : w.ops o = some cell) (hsame : SameTracking w w')
    (ho : w'.ops o = some cell') (hops : ∀ i, i ≠ o → w'.ops i = w.ops i)
    (hwrites : ∀ wr ∈ w'.writes, wr ∈ w.writes ∨ RowFits cell' o wr.row)
    (hok : CellOk w o cell')
    (hle : ∀ x, cell.op.row.ownerInstanceID = some x → cell'.op.row.ownerInstanceID = some x)
    (hdone : cell.finishPC.isDone = true → cell'.finishPC.isDone = true) : OpMove w o w' where
  known := .inl ⟨cell, hc⟩
  cell := ⟨cell', ho, hok.congr (hsame.owners ▸ fun _ h => h) (by rw [hsame.active])
    (by rw [hsame.mu]) (hsame.queued o).mp, fun c x hc' hx => hle x (same_cell hc hc' ▸ hx)⟩
  ops := hops
  active := fun i _ => by rw [hsame.active]
  queued := fun i _ => hsame.queued i
  mu := fun i _ => by rw [hsame.mu]
  writes := by
    intro wr hwr
    rcases hwrites wr hwr with h | h
    · exact .inl h
    · exact .inr fun c hc' => same_cell ho hc' ▸ h
  pending := fun p hp => .inl ⟨p, hsame.pending ▸ hp, rfl⟩
  retired := by
    intro _ hret
    refine ⟨hsame.active ▸ hret.active, fun hq => hret.queued ((hsame.queued o).mp hq), ?_⟩
    exact fun c hc' => same_cell ho hc' ▸ hdone (hret.done cell hc)
  __ := hsame

theorem setCell_ops_self (w : World) (o : OperationID) (cell : Cell) :
    (w.setCell o cell).ops o = some cell := if_pos rfl

theorem setCell_ops_ne (w : World) (cell : Cell) (h : i ≠ o) :
    (w.setCell o cell).ops i = w.ops i := if_neg h

variable {w₁ : World}

/-- The same, for the steps below: a counter may change, and at most one
snapshot is handed over. -/
theorem opMove_setCell (hc : w.ops o = some cell)
    (hsame : SameTracking w w₁) (hops : w₁.ops = w.ops)
    (hwrites : w₁.writes = w.writes ∨
      ∃ row, RowFits cell' o row ∧ w₁.writes = w.writes ++ [{ row := row, state := .sent }])
    (hok : CellOk w o cell')
    (hle : ∀ x, cell.op.row.ownerInstanceID = some x → cell'.op.row.ownerInstanceID = some x)
    (hdone : cell.finishPC.isDone = true → cell'.finishPC.isDone = true) :
    OpMove w o (w₁.setCell o cell') := by
  refine opMove_local hc { hsame with } (setCell_ops_self w₁ o cell') (fun i hi => ?_)
    (fun wr hwr => ?_) hok hle hdone
  · rw [setCell_ops_ne w₁ cell' hi, hops]
  · change wr ∈ w₁.writes at hwr
    rcases hwrites with h | ⟨row, hfit, h⟩
    · exact .inl (h ▸ hwr)
    · rw [h] at hwr
      rcases mem_append.mp hwr with hwr | hwr
      · exact .inl hwr
      · rw [mem_singleton.mp hwr]
        exact .inr hfit

theorem SameTracking.refl (w : World) : SameTracking w w := ⟨rfl, rfl, rfl, rfl, rfl, rfl, rfl⟩

/-! ## §4. The calls, one by one. -/

/-- A `Begin` moves on without entering or leaving its locked stretch. -/
theorem CellOk.setBegin {b : BeginPC} (hc : CellOk w o cell)
    (hb : b.isStoring = cell.beginPC.isStoring)
    (ha : cell.beginPC.isIdle = false) (he : b.early = false)
    (hrow : ∀ row, b.row? = some row → RowFits cell o row) :
    CellOk w o { cell with beginPC := b } :=
  { hc with
    attempted := fun _ => hc.attempted ha
    started := fun _ => he
    storing := by rw [← hc.storing, ← hb]
    beginRow := fun row h => { hrow row h with }
    finishRow := fun row h => { hc.finishRow row h with } }

variable {f : FinishPC}

/-- A `Finish` moves on past its first critical section. -/
theorem CellOk.setFinish (hc : CellOk w o cell) (hi : f.isIdle = cell.finishPC.isIdle)
    (hd : f.isDone = cell.finishPC.isDone) (he : w.mu = some o → f.early = true)
    (hrow : ∀ row, f.row? = some row → RowFits cell o row) :
    CellOk w o { cell with finishPC := f } :=
  { hc with
    finished := by rw [← hc.finished, ← hi]
    active := fun h => ⟨(hc.active h).1, hd.trans (hc.active h).2⟩
    tracked := fun hs hnd hm => hc.tracked hs (hd.symm.trans hnd) hm
    holds := fun hm => ⟨(hc.holds hm).1, he hm⟩
    queued := fun hq => hd.trans (hc.queued hq)
    beginRow := fun row h => { hc.beginRow row h with }
    finishRow := fun row h => { hrow row h with } }

/-- A setter changes nothing that matters here. -/
theorem CellOk.setOp {op : Operation} (hc : CellOk w o cell) (he : Evolves cell.op op)
    (hs : SameCapture cell.op op) : CellOk w o { cell with op := op } where
  row := by
    obtain ⟨start, ho, hof⟩ := hc.row
    exact ⟨start, ho, he.ofOperation start hof⟩
  owner := fun x hx => hc.owner x (hs.owner ▸ hx)
  attempted := fun h => hs.beginAttempted.trans (hc.attempted h)
  admitted := by
    rintro ⟨x, hx⟩
    obtain ⟨h1, h2⟩ := hc.admitted ⟨x, hs.owner ▸ hx⟩
    exact ⟨hs.admitted.trans h1, hs.beginAttempted.trans h2⟩
  started := by
    rintro ⟨x, hx⟩
    exact hc.started ⟨x, hs.owner ▸ hx⟩
  finished := by
    show cell.finishPC.isIdle = true ↔ op.finished = false
    rw [he.finished]
    exact hc.finished
  active := by
    intro h
    obtain ⟨⟨x, hx⟩, hd⟩ := hc.active h
    exact ⟨⟨x, hs.owner.trans hx⟩, hd⟩
  tracked := by
    rintro ⟨x, hx⟩ hd hm
    exact hc.tracked ⟨x, hs.owner ▸ hx⟩ hd hm
  __ := hc
  holds := by
    intro hm
    obtain ⟨⟨x, hx⟩, he'⟩ := hc.holds hm
    exact ⟨⟨x, hs.owner.trans hx⟩, he'⟩
  beginRow := fun row h => (hc.beginRow row h).mono fun _ hx => hs.owner.trans hx
  finishRow := fun row h => (hc.finishRow row h).mono fun _ hx => hs.owner.trans hx

/-- A snapshot of the operation fits it. -/
theorem snapshot_fits {op : Operation}
    (hrow : ∃ start, start.operationID = o ∧ OfOperation start op.row)
    (ho : cell.op.row.ownerInstanceID = op.row.ownerInstanceID) : RowFits cell o op.snapshot := by
  obtain ⟨start, hid, hof⟩ := hrow
  exact ⟨hof.operationID.trans hid, hof.recoveryReason, fun x hx => ho.trans hx⟩

theorem FinishPC.isIdle_iff : f.isIdle = true ↔ f = .idle := by
  cases f <;> simp [FinishPC.isIdle]

theorem CellOk.finish_idle (hok : CellOk w o cell) (hf : cell.op.finished = false) :
    cell.finishPC = .idle :=
  FinishPC.isIdle_iff.mp (hok.finished.mpr hf)

/-- Before `Begin` has entered, the operation has no owner and no `Begin`
holds the mutex for it. -/
theorem CellOk.not_started (hc : CellOk w o cell) (h : cell.op.beginAttempted = false) :
    ¬Started cell ∧ w.mu ≠ some o := by
  have hns : ¬Started cell := by
    intro hs
    rw [(hc.admitted hs).2] at h
    cases h
  exact ⟨hns, fun hm => hns (hc.holds hm).1⟩

section

variable (hc : w.ops o = some cell) (hok : CellOk w o cell)
include hc hok

theorem edit_move (e : Edit) : OpMove w o (w.setCell o { cell with op := cell.op.set e }) :=
  opMove_setCell hc (SameTracking.refl w) rfl (.inl rfl)
    (hok.setOp (set_evolves cell.op e) (set_sameCapture cell.op e))
    (fun _ hx => (set_sameCapture cell.op e).owner.trans hx) (fun h => h)

/-- Nothing happens. -/
theorem idle_move : OpMove w o w :=
  opMove_local hc (SameTracking.refl w) hc (fun _ _ => rfl) (fun _ h => .inl h) hok
    (fun _ h => h) (fun h => h)

theorem admitShort_move (budget : Bool) : OpMove w o (w.admitShort o cell budget) := by
  unfold World.admitShort
  split
  · exact idle_move hc hok
  · next hg =>
    -- `Begin` has not been called, so there is no owner yet
    have hba : cell.op.beginAttempted = false := by simpa using fun h0 => hg (.inr (.inr (.inl h0)))
    obtain ⟨hns, hmu⟩ := hok.not_started hba
    refine opMove_setCell hc ?_ ?_ (.inl ?_) ?_ (fun _ hx => hx) (fun h => h)
    · cases budget
      · exact ⟨rfl, rfl, rfl, rfl, rfl, rfl, rfl⟩
      · exact SameTracking.refl w
    · cases budget <;> rfl
    · cases budget <;> rfl
    · exact { hok with
        admitted := fun hs => absurd hs hns
        started := fun hs => absurd hs hns
        beginRow := fun row h => { hok.beginRow row h with }
        finishRow := fun row h => { hok.finishRow row h with } }

theorem beginEnter_move (hba : cell.op.beginAttempted = false) :
    OpMove w o (w.setCell o
      { cell with op := { cell.op with beginAttempted := true }, beginPC := .waiting }) := by
  obtain ⟨hns, hmu⟩ := hok.not_started hba
  refine opMove_setCell hc (SameTracking.refl w) rfl (.inl rfl) ?_ (fun _ hx => hx) (fun h => h)
  exact { hok with
    attempted := fun _ => rfl
    admitted := fun hs => absurd hs hns
    started := fun hs => absurd hs hns
    storing := ⟨fun h => Bool.noConfusion h, fun h => absurd h hmu⟩
    beginRow := fun row h => by cases h
    finishRow := fun row h => { hok.finishRow row h with } }

end

/-- The operation is admitted: it has an owner from now on, and `mu` is held
until it is in `active`. -/
theorem beginStart_ok (hok : CellOk w o cell) (hown : w.owner ∈ w.owners)
    (hpc : cell.beginPC = .waiting) (hf : cell.op.finished = false) :
    CellOk ({ w with mu := some o }.setCell o
      { cell with
        op := cell.op.start w.owner
        beginPC := .storing (cell.op.start w.owner).snapshot }) o
      { cell with
        op := cell.op.start w.owner
        beginPC := .storing (cell.op.start w.owner).snapshot } := by
  obtain ⟨start, hid, hof⟩ := hok.row
  have hrow : ∃ start, start.operationID = o ∧ OfOperation start (cell.op.start w.owner).row :=
    ⟨start, hid, hof.congr rfl⟩
  have hidle : cell.finishPC = .idle := hok.finish_idle hf
  have hba : cell.op.beginAttempted = true := hok.attempted (by rw [hpc]; rfl)
  refine ⟨hrow, ?_, fun _ => hba, fun _ => ⟨rfl, hba⟩, fun _ => rfl, hok.finished, ?_, ?_, ?_, ?_, hok.queued,
    ?_, ?_⟩
  · intro x hx
    cases hx
    exact hown
  · intro _
    exact ⟨⟨w.owner, rfl⟩, by rw [hidle]; rfl⟩
  · intro _ _ hm
    exact absurd rfl hm
  · exact ⟨fun _ => rfl, fun _ => rfl⟩
  · intro _
    exact ⟨⟨w.owner, rfl⟩, by rw [hidle]; rfl⟩
  · intro row h
    cases h
    exact snapshot_fits hrow rfl
  · intro row h
    change cell.finishPC.row? = some row at h
    rw [hidle] at h
    cases h

theorem beginAdmit_move (hc : w.ops o = some cell) (hok : CellOk w o cell)
    (hown : w.owner ∈ w.owners) (hmu : w.mu = none) (hpc : cell.beginPC = .waiting)
    (now : Time) (budget : Bool) : OpMove w o (w.beginAdmit opts o cell now budget) := by
  -- a call that returns here leaves the operation without an owner
  have hret : CellOk w o { cell with beginPC := .done } :=
    hok.setBegin (by rw [hpc]; rfl) (by rw [hpc]; rfl) rfl (fun row h => by cases h)
  unfold World.beginAdmit
  split
  · exact opMove_setCell hc (SameTracking.refl w) rfl (.inl rfl) hret (fun _ hx => hx) (fun h => h)
  · next hf =>
    split
    · exact opMove_setCell hc ⟨rfl, rfl, rfl, rfl, rfl, rfl, rfl⟩ rfl (.inl rfl) hret
        (fun _ hx => hx) (fun h => h)
    · have hf : cell.op.finished = false := by simpa using hf
      have hns : ¬Started cell := by
        intro hs
        have h := hok.started hs
        rw [hpc] at h
        cases h
      have hnew := beginStart_ok hok hown hpc hf
      refine ⟨.inl ⟨cell, hc⟩, ⟨_, setCell_ops_self _ o _, hnew, ?_⟩,
        fun i hi => setCell_ops_ne _ _ hi, fun i _ => Iff.rfl, fun i _ => Iff.rfl, ?_,
        fun wr h => .inl h, fun p h => .inl ⟨p, h, rfl⟩, ?_, rfl, rfl, rfl, rfl⟩
      · intro c x hc' hx
        exact absurd ⟨x, same_cell hc hc' ▸ hx⟩ hns
      · intro i hi
        show some o = some i ↔ w.mu = some i
        rw [hmu]
        exact ⟨fun h => absurd (some.inj h).symm hi, nofun⟩
      · -- the operation is not finished, so it was not retired
        intro _ hret'
        have hd := hret'.done cell hc
        rw [hok.finish_idle hf] at hd
        cases hd

/-- `Begin` puts the operation into `active` and lets go of `mu`. -/
theorem beginStore_move (hc : w.ops o = some cell) (hok : CellOk w o cell)
    (hpc : cell.beginPC = .storing row) :
    OpMove w o ({ w with active := o :: w.active, mu := none }.setCell o
      { cell with beginPC := .writing row }) := by
  have hmu : w.mu = some o := hok.storing.mp (by rw [hpc]; rfl)
  obtain ⟨hs, hearly⟩ := hok.holds hmu
  have hnd : cell.finishPC.isDone = false := by
    cases hfp : cell.finishPC with
    | done => rw [hfp] at hearly; cases hearly
    | _ => rfl
  have hfit : RowFits cell o row := hok.beginRow row (by rw [hpc]; rfl)
  refine ⟨.inl ⟨cell, hc⟩, ⟨_, setCell_ops_self _ o _, ?_, ?_⟩,
    fun i hi => setCell_ops_ne _ _ hi, ?_, fun i _ => Iff.rfl, ?_,
    fun wr h => .inl h, fun p h => .inl ⟨p, h, rfl⟩, ?_, rfl, rfl, rfl, rfl⟩
  · exact { hok with
      attempted := fun _ => hok.attempted (by rw [hpc]; rfl)
      started := fun _ => rfl
      active := fun _ => ⟨hs, hnd⟩
      tracked := fun _ _ _ => mem_cons_self
      storing := ⟨nofun, nofun⟩
      holds := nofun
      beginRow := fun row' h => by
        cases h
        exact { hfit with }
      finishRow := fun row' h => { hok.finishRow row' h with } }
  · exact fun c x hc' hx => same_cell hc hc' ▸ hx
  · intro i hi
    show i ∈ o :: w.active ↔ i ∈ w.active
    rw [mem_cons]
    exact ⟨fun h => h.resolve_left hi, .inr⟩
  · intro i hi
    show none = some i ↔ w.mu = some i
    rw [hmu]
    exact ⟨nofun, fun h => absurd (some.inj h).symm hi⟩
  · intro _ hret
    rw [hret.done cell hc] at hnd
    cases hnd

/-- The start snapshot is written, or not, and `Begin` returns. -/
theorem beginDone_move {b : BeginPC} (hc : w.ops o = some cell)
    (hok : CellOk w o cell) (hpc : cell.beginPC.early = false)
    (hpc' : cell.beginPC.isStoring = false) (hb : b.isStoring = false) (hbe : b.early = false)
    (hbrow : b.row? = none) (hsame : SameTracking w w₁) (hops : w₁.ops = w.ops)
    (hwrites : w₁.writes = w.writes ∨ ∃ row, RowFits cell o row ∧
      w₁.writes = w.writes ++ [{ row := row, state := .sent }]) :
    OpMove w o (w₁.setCell o { cell with beginPC := b }) := by
  have hidle : cell.beginPC.isIdle = false := by
    cases h : cell.beginPC with
    | idle => rw [h] at hpc; cases hpc
    | _ => rfl
  refine opMove_setCell hc hsame hops ?_ (hok.setBegin (hb.trans hpc'.symm) hidle hbe ?_)
    (fun _ hx => hx) (fun h => h)
  · rcases hwrites with h | ⟨row, hfit, h⟩
    · exact .inl h
    · exact .inr ⟨row, { hfit with }, h⟩
  · intro row h
    rw [hbrow] at h
    cases h

/-- `op.finish` closes the operation. -/
theorem finishEnter_move (hc : w.ops o = some cell) (hok : CellOk w o cell)
    (hf : cell.op.finished = false) (status : Int) (now : Time) (stamp : String) :
    OpMove w o (w.setCell o
      { cell with
        op := cell.op.closed status now stamp
        finishPC := .closing (cell.op.closed status now stamp).snapshot }) := by
  obtain ⟨start, hid, hof⟩ := hok.row
  have hrow : ∃ start, start.operationID = o ∧
      OfOperation start (cell.op.closed status now stamp).row := ⟨start, hid, hof.congr rfl⟩
  have hnd : cell.finishPC.isDone = false := by rw [hok.finish_idle hf]; rfl
  refine opMove_setCell hc (SameTracking.refl w) rfl (.inl rfl) ?_ (fun _ hx => hx) ?_
  · refine ⟨hrow, hok.owner, hok.attempted, hok.admitted, hok.started,
      ⟨nofun, nofun⟩, fun h => ⟨(hok.active h).1, rfl⟩,
      fun hs _ hm => hok.tracked hs hnd hm, hok.storing, fun hm => ⟨(hok.holds hm).1, rfl⟩,
      ?_, fun row h => { hok.beginRow row h with }, ?_⟩
    · intro hq
      rw [hok.queued hq] at hnd
      cases hnd
    · intro row h
      cases h
      exact snapshot_fits hrow rfl
  · intro h
    rw [h] at hnd
    cases hnd

/-- `Finish` returns without a write: the operation never had an owner. -/
theorem finishSkip_move (hc : w.ops o = some cell) (hok : CellOk w o cell)
    (hidle : cell.finishPC.isIdle = false) (hns : ¬Started cell) (hsame : SameTracking w w₁)
    (hops : w₁.ops = w.ops) (hwrites : w₁.writes = w.writes) :
    OpMove w o (w₁.setCell o { cell with finishPC := .done }) := by
  refine opMove_setCell hc hsame hops (.inl hwrites) ?_ (fun _ hx => hx) (fun _ => rfl)
  exact { hok with
    finished := by
      rw [← hok.finished, hidle]
      exact Iff.rfl
    active := fun h => absurd (hok.active h).1 hns
    tracked := fun hs => absurd hs hns
    holds := fun hm => absurd (hok.holds hm).1 hns
    queued := fun _ => rfl
    beginRow := fun row h => { hok.beginRow row h with }
    finishRow := fun row h => by cases h }

theorem finishDecide_move (hc : w.ops o = some cell) (hok : CellOk w o cell)
    (hmu : w.mu = none) (hpc : cell.finishPC = .closing row) (budget : Bool) :
    OpMove w o (w.finishDecide o cell row budget) := by
  have hidle : cell.finishPC.isIdle = false := by rw [hpc]; rfl
  have hfit : RowFits cell o row := hok.finishRow row (by rw [hpc]; rfl)
  unfold World.finishDecide
  dsimp only
  split
  · -- a begun operation that was refused has no owner
    next hg =>
    refine finishSkip_move hc hok hidle ?_ (SameTracking.refl w) rfl rfl
    intro hs
    simp [(hok.admitted hs).1] at hg
  · split
    · next hg =>
      have hba : cell.op.beginAttempted = false := by simp_all
      obtain ⟨hns, hmu'⟩ := hok.not_started hba
      split
      · refine opMove_setCell hc (SameTracking.refl w) rfl (.inl rfl) ?_ (fun _ hx => hx) ?_
        · exact { hok with
            admitted := fun hs => absurd hs hns
            finished := by
              show false = true ↔ cell.op.finished = false
              rw [← hok.finished, hidle]
            active := fun h => absurd (hok.active h).1 hns
            tracked := fun hs => absurd hs hns
            holds := fun hm => absurd hm hmu'
            queued := fun hq => by
              have h := hok.queued hq
              rw [hpc] at h
              cases h
            beginRow := fun row' h => { hok.beginRow row' h with }
            finishRow := fun row' h => by
              cases h
              exact { hfit with } }
        · intro h
          rw [hpc] at h
          cases h
      · exact finishSkip_move hc hok hidle hns ⟨rfl, rfl, rfl, rfl, rfl, rfl, rfl⟩ rfl rfl
    · refine opMove_setCell hc (SameTracking.refl w) rfl (.inl rfl) ?_ (fun _ hx => hx) ?_
      · refine hok.setFinish (by rw [hpc]; rfl) (by rw [hpc]; rfl) ?_ ?_
        · intro hm
          rw [hmu] at hm
          cases hm
        · intro row' h
          cases h
          exact hfit
      · intro h
        rw [hpc] at h
        cases h

/-- `Finish` between its two critical sections: the snapshot is on its way,
and the operation stays where it is tracked. -/
theorem finishAdvance_move (hc : w.ops o = some cell) (hok : CellOk w o cell)
    (hrow : cell.finishPC.row? = some row) (hearly : cell.finishPC.early = false)
    (hf : f.row? = some row) (hsame : SameTracking w w₁) (hops : w₁.ops = w.ops)
    (hwrites : w₁.writes = w.writes ∨
      w₁.writes = w.writes ++ [{ row := row, state := .sent }]) :
    OpMove w o (w₁.setCell o { cell with finishPC := f }) := by
  have hfit : RowFits cell o row := hok.finishRow row hrow
  -- whoever carries a snapshot is neither idle nor done
  have carries : ∀ g : FinishPC, g.row? = some row → g.isIdle = false ∧ g.isDone = false := by
    intro g hg
    cases g with
    | idle => cases hg
    | done => cases hg
    | _ => exact ⟨rfl, rfl⟩
  obtain ⟨hi, hd⟩ := carries cell.finishPC hrow
  obtain ⟨hi', hd'⟩ := carries f hf
  refine opMove_setCell hc hsame hops ?_ ?_ (fun _ hx => hx) ?_
  · rcases hwrites with h | h
    · exact .inl h
    · exact .inr ⟨row, { hfit with }, h⟩
  · refine hok.setFinish (hi'.trans hi.symm) (hd'.trans hd.symm) ?_ ?_
    · intro hm
      rw [(hok.holds hm).2] at hearly
      cases hearly
    · intro row' h
      rw [hf] at h
      cases h
      exact hfit
  · intro h
    rw [hd] at h
    cases h

/-! ## §5. The retry queue. -/

/-- Only the queue entry of `o` changes, and it carries `row` or a snapshot
that was queued before. -/
structure Requeues (w : World) (o : OperationID) (row : UsageLog) (w' : World) : Prop where
  ops : w'.ops = w.ops
  active : w'.active = w.active
  mu : w'.mu = w.mu
  owner : w'.owner = w.owner
  owners : w'.owners = w.owners
  store : w'.store = w.store
  pass : w'.pass = w.pass
  queued : ∀ i, i ≠ o → (Queued w' i ↔ Queued w i)
  pending : ∀ p ∈ w'.pending, (∃ q ∈ w.pending, p.row = q.row) ∨ p.row = row

theorem requeues_of_same (hops : w'.ops = w.ops) (h : SameTracking w w') : Requeues w o row w' :=
  ⟨hops, h.active, h.mu, h.owner, h.owners, h.store, h.pass, fun i _ => h.queued i,
    fun p hp => .inl ⟨p, h.pending ▸ hp, rfl⟩⟩

/-- The queued snapshots of the operation. -/
def World.pendingOf (w : World) (o : OperationID) : List PendingUsage :=
  w.pending.filter fun p => p.row.operationID = o

variable {p : PendingUsage}

theorem mem_pendingOf : p ∈ w.pendingOf o ↔ p ∈ w.pending ∧ p.row.operationID = o := by
  simp [World.pendingOf]

theorem queued_congr (h : w'.pendingOf i = w.pendingOf i) : Queued w' i ↔ Queued w i := by
  unfold Queued
  simp only [← mem_pendingOf, h]

/-- Snapshots of other operations are not filtered out. -/
theorem filter_pendingOf {l : List PendingUsage} (hi : i ≠ o) :
    (l.filter fun q => q.row.operationID ≠ o).filter (fun q => q.row.operationID = i) =
      l.filter fun q => q.row.operationID = i := by
  rw [List.filter_filter]
  refine List.filter_congr fun q _ => ?_
  by_cases hq : q.row.operationID = i
  · simp [hq, hi]
  · simp [hq]

/-- What `enqueueUsageLocked` leaves: the snapshot is lost, or it is the one
queued of its operation. -/
theorem enqueueUsage_cases (opts : Options) (w : World) (hrow : row.operationID = o)
    (completion : Bool) (now : Time) (size : Nat) (delay : Duration) :
    w.enqueueUsage opts row completion now size delay = w.countLost ∨
    ∃ p bytes, p.row = row ∧ p.flight = .idle ∧
      w.enqueueUsage opts row completion now size delay = { w with
        pending := (w.pending.filter fun q => q.row.operationID ≠ o) ++ [p]
        pendingBytes := bytes } := by
  subst hrow
  unfold World.enqueueUsage
  split
  · exact .inl rfl
  · exact .inr ⟨⟨row, now, now + delay, size, 0, .idle, completion⟩, _, rfl, rfl, rfl⟩

theorem requeued_pendingOf {bytes : Int} (hp : p.row.operationID = o) (hw : w' = { w with
      pending := (w.pending.filter fun q => q.row.operationID ≠ o) ++ [p], pendingBytes := bytes }) :
    w'.pendingOf o = [p] ∧ ∀ i, i ≠ o → w'.pendingOf i = w.pendingOf i := by
  subst hw hp
  simp only [World.pendingOf, filter_append]
  refine ⟨by simp, fun i hi => ?_⟩
  rw [filter_pendingOf hi]
  simp [Ne.symm hi]

theorem dropPending_pendingOf (w : World) (p : PendingUsage) :
    (w.dropPending p).pendingOf p.row.operationID = [] ∧
    ∀ i, i ≠ p.row.operationID → (w.dropPending p).pendingOf i = w.pendingOf i :=
  ⟨by simp [World.pendingOf, World.dropPending], fun _ hi => filter_pendingOf hi⟩

theorem setPending_pendingOf (w : World) (p : PendingUsage) :
    (w.setPending p).pendingOf p.row.operationID =
      (w.pendingOf p.row.operationID).map (fun _ => p) ∧
    ∀ i, i ≠ p.row.operationID → (w.setPending p).pendingOf i = w.pendingOf i := by
  have hfilter : ∀ i, (w.setPending p).pendingOf i = (w.pendingOf i).map fun q =>
      if q.row.operationID = p.row.operationID then p else q := by
    intro i
    simp only [World.pendingOf, World.setPending, List.filter_map]
    congr 1
    refine List.filter_congr fun q _ => ?_
    -- an entry is replaced by one with the same key
    by_cases hq : q.row.operationID = p.row.operationID
    · simp [hq]
    · simp [hq]
  constructor
  · rw [hfilter]
    refine map_congr_left fun q hq => ?_
    exact if_pos (mem_pendingOf.mp hq).2
  · intro i hi
    have hsame : ∀ q ∈ w.pendingOf i,
        (if q.row.operationID = p.row.operationID then p else q) = id q := by
      intro q hq
      refine if_neg ?_
      rw [(mem_pendingOf.mp hq).2]
      exact hi
    rw [hfilter, List.map_congr_left hsame, List.map_id]

theorem enqueueUsage_requeues (hrow : row.operationID = o) (completion : Bool)
    (now : Time) (size : Nat) (delay : Duration) :
    Requeues w o row (w.enqueueUsage opts row completion now size delay) ∧
      (w.enqueueUsage opts row completion now size delay).writes = w.writes := by
  obtain hw | ⟨p, bytes, hp, -, hw⟩ := enqueueUsage_cases opts w hrow completion now size delay
  · rw [hw]
    exact ⟨requeues_of_same rfl ⟨rfl, rfl, rfl, rfl, rfl, rfl, rfl⟩, rfl⟩
  · have hother := (requeued_pendingOf (hp ▸ hrow) hw).2
    rw [hw] at hother ⊢
    refine ⟨⟨rfl, rfl, rfl, rfl, rfl, rfl, rfl, fun i hi => queued_congr (hother i hi), ?_⟩, rfl⟩
    intro q hq
    rcases mem_append.mp hq with hq | hq
    · exact .inl ⟨q, (mem_filter.mp hq).1, rfl⟩
    · rw [mem_singleton.mp hq]
      exact .inr hp

theorem dropPending_requeues (hp : p.row.operationID = o) : Requeues w o row (w.dropPending p) := by
  subst hp
  refine ⟨rfl, rfl, rfl, rfl, rfl, rfl, rfl,
    fun i hi => queued_congr ((dropPending_pendingOf w p).2 i hi), ?_⟩
  exact fun q hq => .inl ⟨q, (mem_filter.mp hq).1, rfl⟩

theorem setPending_requeues (hp : p.row.operationID = o) : Requeues w o p.row (w.setPending p) := by
  subst hp
  refine ⟨rfl, rfl, rfl, rfl, rfl, rfl, rfl,
    fun i hi => queued_congr ((setPending_pendingOf w p).2 i hi), fun q hq => ?_⟩
  obtain ⟨q', hq', rfl⟩ := mem_map.mp hq
  by_cases h : q'.row.operationID = p.row.operationID
  · rw [if_pos h]
    exact .inr rfl
  · rw [if_neg h]
    exact .inl ⟨q', hq', rfl⟩

/-- **The transfer**: out of `active` and, perhaps, into the queue in one
critical section. -/
theorem finishSettle_move {completion : Bool} {res : Option WriteError}
    (hc : w.ops o = some cell) (hok : CellOk w o cell) (hmu : w.mu = none)
    (hpc : cell.finishPC = .settling row completion res) (now : Time) (size : Nat)
    (delay : Duration) :
    OpMove w o (w.finishSettle cfg opts o cell row completion res now size delay) := by
  have hfit : RowFits cell o row := hok.finishRow row (by rw [hpc]; rfl)
  have hro : row.operationID = o := hfit.operationID
  -- what the queue makes of it
  have hq : ∃ w₁, Requeues w o row w₁ ∧ w₁.writes = w.writes ∧
      w.finishSettle cfg opts o cell row completion res now size delay =
        (w₁.dropActive row.operationID).setCell o { cell with finishPC := .done } := by
    unfold World.finishSettle
    cases res with
    | none => exact ⟨w, requeues_of_same rfl (SameTracking.refl w), rfl, rfl⟩
    | some e =>
      dsimp only
      split
      · have hen := @enqueueUsage_requeues opts w o row hro completion now size delay
        exact ⟨_, hen.1, hen.2, rfl⟩
      · exact ⟨w.countLost, requeues_of_same rfl ⟨rfl, rfl, rfl, rfl, rfl, rfl, rfl⟩, rfl, rfl⟩
  obtain ⟨w₁, hre, hwr, heq⟩ := hq
  rw [heq, hro]
  have hgone : o ∉ w₁.active.filter (· ≠ o) := by simp
  refine ⟨.inl ⟨cell, hc⟩, ⟨_, setCell_ops_self _ o _, ?_, ?_⟩, ?_, ?_, ?_, ?_,
    ?_, ?_, ?_, hre.owner, hre.owners, hre.store, hre.pass⟩
  · refine ⟨hok.row, fun x hx => hre.owners ▸ hok.owner x hx, hok.attempted, hok.admitted,
      hok.started, ?_, fun h => absurd h hgone, fun _ h => (by cases h), ?_, ?_, fun _ => rfl,
      fun row' h => { hok.beginRow row' h with }, fun row' h => (by cases h)⟩
    · show false = true ↔ cell.op.finished = false
      rw [← hok.finished, hpc]
      exact Iff.rfl
    · show cell.beginPC.isStoring = true ↔ w₁.mu = some o
      rw [hre.mu]
      exact hok.storing
    · intro hm
      change w₁.mu = some o at hm
      rw [hre.mu, hmu] at hm
      cases hm
  · exact fun c x hc' hx => same_cell hc hc' ▸ hx
  · intro i hi
    rw [setCell_ops_ne _ _ hi]
    show w₁.ops i = w.ops i
    rw [hre.ops]
  · intro i hi
    show i ∈ w₁.active.filter (· ≠ o) ↔ i ∈ w.active
    rw [hre.active, mem_filter]
    exact ⟨fun h => h.1, fun h => ⟨h, decide_eq_true hi⟩⟩
  · intro i hi
    exact hre.queued i hi
  · intro i _
    show w₁.mu = some i ↔ w.mu = some i
    rw [hre.mu]
  · intro wr h
    exact .inl (hwr ▸ h)
  · intro p hp
    rcases hre.pending p hp with h | h
    · exact .inl h
    · refine .inr fun c hc' => ?_
      rw [h, ← same_cell (setCell_ops_self _ o _) hc']
      exact { hfit with }
  · intro _ hret
    have h := hret.done cell hc
    rw [hpc] at h
    cases h

theorem send_same (w : World) (row : UsageLog) : SameTracking w (w.send row) :=
  ⟨rfl, rfl, rfl, rfl, rfl, rfl, rfl⟩

theorem countFailed_same (w : World) : SameTracking w w.countFailed :=
  ⟨rfl, rfl, rfl, rfl, rfl, rfl, rfl⟩

section

variable (hc : w.ops o = some cell) (hok : CellOk w o cell)
include hc hok

theorem persistPhase_move : OpMove w o (w.send cell.op.snapshot) := by
  refine opMove_local hc (send_same w _) hc (fun _ _ => rfl) ?_ hok (fun _ h => h) (fun h => h)
  intro wr hwr
  rcases mem_append.mp hwr with h | h
  · exact .inl h
  · rw [mem_singleton.mp h]
    exact .inr (snapshot_fits hok.row rfl)

/-- `refreshRunning` counts as an edit, and its snapshot may be written. -/
theorem refreshRunning_move (slot : Bool) :
    OpMove w o ((if slot then w.send (cell.op.edit id id).snapshot else w.countFailed).setCell o
      { cell with op := cell.op.edit id id }) := by
  have hk : Keeps cell.op id := keeps_of_identity rfl rfl
  have hs := edit_sameCapture id hk
  have hok' := hok.setOp (edit_evolves id hk) hs
  cases slot with
  | true =>
    exact opMove_setCell hc (send_same w _) rfl (.inr ⟨_, snapshot_fits hok'.row rfl, rfl⟩) hok'
      (fun _ hx => hs.owner.trans hx) (fun h => h)
  | false =>
    exact opMove_setCell hc (countFailed_same w) rfl (.inl rfl) hok'
      (fun _ hx => hs.owner.trans hx) (fun h => h)

theorem beginWrite_move {slot : Bool}
    (h : cellStep cfg opts w o cell (.beginWrite slot) = some w') : OpMove w o w' := by
  obtain ⟨row, hpc, hw'⟩ := cellStep_beginWrite h
  have hfit : RowFits cell o row := hok.beginRow row (by rw [hpc]; rfl)
  have he : cell.beginPC.early = false := by rw [hpc]; rfl
  have hst : cell.beginPC.isStoring = false := by rw [hpc]; rfl
  obtain rfl | rfl := hw'
  · exact beginDone_move hc hok he hst rfl rfl rfl (send_same w row) rfl (.inr ⟨row, hfit, rfl⟩)
  · exact beginDone_move hc hok he hst rfl rfl rfl (countFailed_same w) rfl (.inl rfl)

theorem beginReturn_move {res : Option WriteError}
    (h : cellStep cfg opts w o cell (.beginReturn res) = some w') : OpMove w o w' := by
  obtain ⟨i, hpc, hw'⟩ := cellStep_beginReturn h
  have he : cell.beginPC.early = false := by rw [hpc]; rfl
  have hst : cell.beginPC.isStoring = false := by rw [hpc]; rfl
  obtain rfl | rfl := hw'
  · exact beginDone_move hc hok he hst rfl rfl rfl (SameTracking.refl w) rfl (.inl rfl)
  · exact beginDone_move hc hok he hst rfl rfl rfl (countFailed_same w) rfl (.inl rfl)

theorem finishWrite_move {slot : Bool}
    (h : cellStep cfg opts w o cell (.finishWrite slot) = some w') : OpMove w o w' := by
  obtain ⟨row, completion, hpc, hw'⟩ := cellStep_finishWrite h
  have hrow : cell.finishPC.row? = some row := by rw [hpc]; rfl
  have he : cell.finishPC.early = false := by rw [hpc]; rfl
  obtain rfl | rfl := hw'
  · exact finishAdvance_move hc hok hrow he rfl (send_same w row) rfl (.inr rfl)
  · exact finishAdvance_move hc hok hrow he rfl (countFailed_same w) rfl (.inl rfl)

theorem finishReturn_move {res : Option WriteError}
    (h : cellStep cfg opts w o cell (.finishReturn res) = some w') : OpMove w o w' := by
  obtain ⟨row, completion, i, hpc, -, rfl⟩ := cellStep_finishReturn h
  have hrow : cell.finishPC.row? = some row := by rw [hpc]; rfl
  have he : cell.finishPC.early = false := by rw [hpc]; rfl
  cases res with
  | none => exact finishAdvance_move hc hok hrow he rfl (SameTracking.refl w) rfl (.inl rfl)
  | some e => exact finishAdvance_move hc hok hrow he rfl (countFailed_same w) rfl (.inl rfl)

/-- **Every step of the calls of `o` is an `OpMove`.** -/
theorem cellStep_move
    (hown : w.owner ∈ w.owners) {l : OpLabel} (h : cellStep cfg opts w o cell l = some w') :
    OpMove w o w' := by
  cases l with
  | edit e =>
    cases h
    exact edit_move hc hok e
  | admitShort budget =>
    obtain ⟨-, rfl⟩ := unlocked h
    exact admitShort_move hc hok budget
  | beginEnter =>
    obtain rfl | ⟨⟨-, hba⟩, rfl⟩ := cellStep_beginEnter h
    · exact idle_move hc hok
    · exact beginEnter_move hc hok hba
  | beginAdmit now budget =>
    obtain ⟨hpc, hm, rfl⟩ := cellStep_beginAdmit h
    exact beginAdmit_move hc hok hown hm hpc now budget
  | beginStore =>
    obtain ⟨row, hpc, rfl⟩ := cellStep_beginStore h
    exact beginStore_move hc hok hpc
  | beginWrite slot => exact beginWrite_move hc hok h
  | beginReturn res => exact beginReturn_move hc hok h
  | finishEnter status now stamp =>
    obtain rfl | ⟨hf, rfl⟩ := cellStep_finishEnter h
    · exact idle_move hc hok
    · exact finishEnter_move hc hok hf status now stamp
  | finishDecide budget =>
    obtain ⟨row, hpc, hm, rfl⟩ := cellStep_finishDecide h
    exact finishDecide_move hc hok hm hpc budget
  | finishWrite slot => exact finishWrite_move hc hok h
  | finishReturn res => exact finishReturn_move hc hok h
  | finishSettle now size delay =>
    obtain ⟨row, completion, res, hpc, hm, rfl⟩ := cellStep_finishSettle h
    exact finishSettle_move hc hok hm hpc now size delay
  | persistPhase slot =>
    obtain ⟨-, rfl | rfl⟩ := cellStep_persistPhase h
    · exact persistPhase_move hc hok
    · exact opMove_local hc (countFailed_same w) hc (fun _ _ => rfl)
        (fun _ hwr => .inl hwr) hok (fun _ hx => hx) (fun hd => hd)
  | refreshRunning slot =>
    obtain ⟨-, -, rfl | rfl⟩ := cellStep_refreshRunning h
    · exact refreshRunning_move hc hok true
    · exact refreshRunning_move hc hok false

/-- A step on a queued snapshot: its `Finish` is done, and stays so. -/
theorem requeues_move (hfit : RowFits cell o row) (hq : Queued w o) (hre : Requeues w o row w')
    (hwrites : ∀ wr ∈ w'.writes, wr ∈ w.writes ∨ wr.row = row) : OpMove w o w' := by
  have ho : w'.ops o = some cell := by
    rw [hre.ops]
    exact hc
  refine ⟨.inl ⟨cell, hc⟩, ⟨cell, ho, ?_, ?_⟩, fun i _ => by rw [hre.ops],
    fun i _ => by rw [hre.active], hre.queued, fun i _ => by rw [hre.mu], ?_, ?_, ?_,
    hre.owner, hre.owners, hre.store, hre.pass⟩
  · exact hok.congr (hre.owners ▸ fun _ h => h) (by rw [hre.active]) (by rw [hre.mu]) fun _ => hq
  · exact fun c x hc' hx => same_cell hc hc' ▸ hx
  · intro wr hwr
    rcases hwrites wr hwr with h | h
    · exact .inl h
    · exact .inr fun c hc' => same_cell ho hc' ▸ h ▸ hfit
  · intro p hp
    rcases hre.pending p hp with h | h
    · exact .inl h
    · exact .inr fun c hc' => same_cell ho hc' ▸ h ▸ hfit
  · intro _ hret
    exact absurd hq hret.queued

end

/-- Counters do not matter to the queue. -/
theorem Requeues.counted (h : Requeues w o row w₁)
    (hops : w'.ops = w₁.ops) (hs : SameTracking w₁ w') : Requeues w o row w' where
  ops := hops.trans h.ops
  active := hs.active.trans h.active
  mu := hs.mu.trans h.mu
  owner := hs.owner.trans h.owner
  owners := hs.owners.trans h.owners
  store := hs.store.trans h.store
  pass := hs.pass.trans h.pass
  queued := fun i hi => (hs.queued i).trans (h.queued i hi)
  pending := fun p hp => h.pending p (hs.pending ▸ hp)

theorem retryReply_requeues (hp : p.row.operationID = o)
    (res : Option WriteError) (now : Time) (delay : Duration) :
    Requeues w o p.row (w.retryReply p res now delay) ∧
      (w.retryReply p res now delay).writes = w.writes := by
  unfold World.retryReply
  cases res with
  | none => exact ⟨dropPending_requeues hp, rfl⟩
  | some e =>
    dsimp only
    split
    · exact ⟨(dropPending_requeues hp).counted rfl ⟨rfl, rfl, rfl, rfl, rfl, rfl, rfl⟩, rfl⟩
    · -- back into the queue with the same snapshot
      refine ⟨?_, rfl⟩
      have hset := setPending_requeues (w := w) (o := o)
        (p := { p with attempts := p.attempts + 1, next := now + delay, flight := .idle }) hp
      exact hset.counted rfl ⟨rfl, rfl, rfl, rfl, rfl, rfl, rfl⟩

theorem retryStep_move (hinv : RecInv w) (hp : w.findPending o = some p)
    {l : RetryLabel} (h : retryStep cfg opts w p l = some w') : OpMove w o w' := by
  have hmem : p ∈ w.pending := mem_of_find?_eq_some hp
  have hkey : p.row.operationID = o := by
    have h := find?_some hp
    simpa using h
  obtain ⟨cell, hc, hfit⟩ := hinv.pending p hmem
  rw [hkey] at hc hfit
  have hmove : ∀ {v : World}, Requeues w o p.row v →
      (∀ wr ∈ v.writes, wr ∈ w.writes ∨ wr.row = p.row) → OpMove w o v :=
    fun hre hwr => requeues_move hc (hinv.cells o cell hc) hfit ⟨p, hmem, hkey⟩ hre hwr
  cases l <;> simp only [retryStep] at h
  case expire now =>
    split at h
    · cases h
    split at h
    · cases h
      have hre : Requeues w o p.row (w.dropPending p).countLost :=
        (dropPending_requeues hkey).counted rfl ⟨rfl, rfl, rfl, rfl, rfl, rfl, rfl⟩
      exact hmove hre fun _ hwr => .inl hwr
    · cases h
  case pick now =>
    split at h
    · cases h
    split at h
    · cases h
      have hset := setPending_requeues (w := w) (o := o) (p := { p with flight := .picked }) hkey
      exact hmove (hset.counted rfl ⟨rfl, rfl, rfl, rfl, rfl, rfl, rfl⟩) fun _ hwr => .inl hwr
    · cases h
  case write slot now delay =>
    split at h
    · cases h
    obtain rfl | rfl := slot_cases h
    · have hset := setPending_requeues (w := w.send p.row) (o := o)
        (p := { p with flight := .sent w.writes.length }) hkey
      have hre : Requeues w o p.row
          ((w.send p.row).setPending { p with flight := .sent w.writes.length }) :=
        ⟨rfl, rfl, rfl, rfl, rfl, rfl, rfl, hset.queued, hset.pending⟩
      refine hmove hre fun wr hwr => ?_
      rcases mem_append.mp hwr with hwr | hwr
      · exact .inl hwr
      · rw [mem_singleton.mp hwr]
        exact .inr rfl
    · obtain ⟨hre, hwr⟩ := retryReply_requeues (w := w) hkey (some .noWriteSlot) now delay
      exact hmove hre fun _ hw => .inl (hwr ▸ hw)
  case reply res now delay =>
    split at h
    · split at h
      · cases h
      · cases h
        obtain ⟨hre, hwr⟩ := retryReply_requeues (w := w) hkey res now delay
        exact hmove hre fun _ hw => .inl (hwr ▸ hw)
    · cases h

/-- A new operation has no row, and nothing refers to it. -/
theorem create_move (hinv : RecInv w) (hnew : w.ops o = none) (hrow : w.store.logs o = none)
    (now : Time) (action route requestID method client : String) :
    OpMove w o (w.setCell o
      { op := newOperation o now action route requestID method client
        beginPC := .idle, finishPC := .idle }) := by
  have hmu : w.mu ≠ some o := by
    intro hm
    obtain ⟨cell, hc⟩ := hinv.mu o hm
    rw [hnew] at hc
    cases hc
  have hna : o ∉ w.active := by
    intro ha
    obtain ⟨cell, hc⟩ := hinv.active o ha
    rw [hnew] at hc
    cases hc
  have hnq : ¬Queued w o := by
    rintro ⟨p, hp, hk⟩
    obtain ⟨cell, hc, -⟩ := hinv.pending p hp
    rw [hk, hnew] at hc
    cases hc
  have hns : ∀ cell : Cell, cell.op = newOperation o now action route requestID method client →
      ¬Started cell := by
    rintro cell hop ⟨x, hx⟩
    rw [hop] at hx
    cases hx
  refine ⟨.inr hrow, ⟨_, setCell_ops_self _ o _, ?_, ?_⟩, fun i hi => setCell_ops_ne _ _ hi,
    fun i _ => Iff.rfl, fun i _ => Iff.rfl, fun i _ => Iff.rfl, fun wr h => .inl h,
    fun p h => .inl ⟨p, h, rfl⟩, ?_, rfl, rfl, rfl, rfl⟩
  · refine ⟨⟨_, rfl, newOperation_ofOperation o now action route requestID method client⟩,
      fun x hx => (by cases hx), fun h => (by cases h), fun hs => absurd hs (hns _ rfl),
      fun hs => absurd hs (hns _ rfl), ⟨fun _ => rfl, fun _ => rfl⟩, fun ha => absurd ha hna,
      fun hs => absurd hs (hns _ rfl), ⟨fun h => (by cases h), fun h => absurd h hmu⟩,
      fun h => absurd h hmu, fun hq => absurd hq hnq, fun row h => (by cases h),
      fun row h => (by cases h)⟩
  · intro cell x hc
    rw [hnew] at hc
    cases hc
  · rintro ⟨r, hr⟩
    rw [hrow] at hr
    cases hr

end Talus.Usage
