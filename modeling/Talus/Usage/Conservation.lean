/-
  Talus.Usage.Conservation
  **EVERY FINISHED OPERATION IS COUNTED OR RECORDED, ONCE.**

  A step is one operation's, and posts to its account (`Posting`); or a write
  commits; or it leaves the books alone.  So the books are right in every run.

    • `recorder_conserves`: in every run whose steps are `Judged` the books
      balance for each finished operation, and they are the truth about the
      table when the database is `Candid`,
    • `short_admission_counted_and_recorded`: `Begin` may refuse an operation
      that `AdmitShort` has admitted; it counts it as skipped, leaves it
      admitted, and `Finish` writes its row through the completion slot.
-/
import Talus.Usage.Postings

namespace Talus.Usage

open Talus.Base List Option

variable {cfg : Config} {opts : Options}

/-! ## §1. Runs. -/

/-- **The books are right.** -/
structure BooksInv (C : Prop) (b : Books) : Prop where
  recorder : RecInv b.world
  account : ∀ o cell, b.world.ops o = some cell →
    Accounted C o cell (b.world.pendingOf o) b.world.writes (b.tally o)
  /-- nothing is credited to an operation before it is created -/
  unknown : ∀ o, b.world.ops o = none → b.tally o = .zero
  /-- a row of an operation comes from a write of it -/
  rows : ∀ o cell r, b.world.ops o = some cell → b.world.store.logs o = some r →
    ∃ wr ∈ b.world.writes, wr.row.operationID = o

/-- What the books depend on is as it was; rows may appear for operations of other
processes. -/
structure SameAccounts (w w' : World) : Prop where
  ops : w'.ops = w.ops
  pending : w'.pending = w.pending
  writes : w'.writes = w.writes
  rows : ∀ o r', w'.store.logs o = some r' → (∃ r, w.store.logs o = some r) ∨ w.ops o = none

variable {o : OperationID}

/-- The tables change by a transaction of this process, or of another one. -/
theorem sameAccounts_store (cfg : Config) (w : World) (txn : Txn)
    (h : ∀ now input, txn = .upsert now input → w.ops input.operationID = none) :
    SameAccounts w (w.withStore (storeStep cfg w.store txn)) := by
  refine ⟨rfl, rfl, rfl, fun o r' hr => ?_⟩
  obtain ⟨r, hold, -⟩ | ⟨-, now, input, -, ht, -, hid, -⟩ := storeStep_origin txn hr
  · exact .inl ⟨r, hold⟩
  · exact .inr (hid ▸ h now input ht)

variable {w w' : World} {l : Label}

theorem passStep_same (h : passStep cfg w l = some w') : SameAccounts w w' := by
  have hkeep : ∀ o r', w.store.logs o = some r' →
      (∃ r, w.store.logs o = some r) ∨ w.ops o = none := fun o r' hr => .inl ⟨r', hr⟩
  cases l with
  | passLock self now =>
    simp only [passStep] at h
    split at h
    · cases h
    · cases h
      exact ⟨rfl, rfl, rfl, hkeep⟩
  | passAbort =>
    simp only [passStep] at h
    split at h
    · cases h
      exact ⟨rfl, rfl, rfl, hkeep⟩
    · cases h
  | passSnapshot =>
    simp only [passStep] at h
    split at h
    · split at h
      · cases h
      · cases h
        exact ⟨rfl, rfl, rfl, hkeep⟩
    · cases h
  | passMark locked remaining =>
    simp only [passStep] at h
    split at h
    · next self now tracked _ =>
      cases h
      have hsame := sameAccounts_store cfg w
        (.reconcile self self now tracked locked remaining) (fun _ _ ht => by cases ht)
      exact ⟨rfl, rfl, rfl, hsame.rows⟩
    · cases h
  | _ => cases h

/-- **What a step can do to the books**: it creates an operation, it is a step of
one operation, a write commits, or nothing happens. -/
theorem worldStep_cases (h : worldStep cfg opts w l = some w') :
    (∃ o now action route requestID method client,
      l = .create o now action route requestID method client ∧ w.ops o = none ∧
      w.store.logs o = none ∧ w' = w.setCell o
        { op := newOperation o now action route requestID method client
          beginPC := .idle, finishPC := .idle }) ∨
    (∃ o k cell, l = .op o k ∧ w.ops o = some cell ∧ cellStep cfg opts w o cell k = some w') ∨
    (∃ o k p, l = .retry o k ∧ w.findPending o = some p ∧ retryStep cfg opts w p k = some w') ∨
    (∃ i now wr st, l = .commit i now ∧ w.writes[i]? = some wr ∧ wr.state = .sent ∧
      w'.ops = w.ops ∧ w'.pending = w.pending ∧
      w'.writes = w.writes.set i { wr with state := st } ∧
      ∀ o r', w'.store.logs o = some r' →
        (∃ r, w.store.logs o = some r) ∨ ∃ wr ∈ w.writes, wr.row.operationID = o) ∨
    (l.subject = none ∧ SameAccounts w w') := by
  cases l with
  | create o now action route requestID method client =>
    simp only [worldStep] at h
    split at h
    · cases h
    · next hg =>
      injection h with h
      have hnew : w.ops o = none := by simpa using fun h0 => hg (.inl h0)
      have hrow : w.store.logs o = none := by simpa using fun h0 => hg (.inr h0)
      exact .inl ⟨o, now, action, route, requestID, method, client, rfl, hnew, hrow, h.symm⟩
  | op o k =>
    simp only [worldStep, bind_eq_some_iff] at h
    obtain ⟨cell, hc, h⟩ := h
    exact .inr (.inl ⟨o, k, cell, rfl, hc, h⟩)
  | retry o k =>
    simp only [worldStep, bind_eq_some_iff] at h
    obtain ⟨p, hp, h⟩ := h
    exact .inr (.inr (.inl ⟨o, k, p, rfl, hp, h⟩))
  | commit i now =>
    refine .inr (.inr (.inr (.inl ?_)))
    simp only [worldStep, World.commit] at h
    split at h
    · cases h
    · next wr hi =>
      split at h
      · cases h
      · next hg =>
        have hst : wr.state = .sent := not_not.mp fun hn => hg (.inl hn)
        split at h
        · next e he =>
          cases h
          exact ⟨i, now, wr, .refused e, rfl, hi, hst, rfl, rfl, rfl, fun o r' hr => .inl ⟨r', hr⟩⟩
        · next s r hr =>
          cases h
          refine ⟨i, now, wr, .committed, rfl, hi, hst, rfl, rfl, rfl, fun o r' hr' => ?_⟩
          rw [← storeStep_upsert_ok hr] at hr'
          obtain ⟨r, hold, -⟩ | ⟨-, _, _, -, heq, -, hid, -⟩ := storeStep_origin _ hr'
          · exact .inl ⟨r, hold⟩
          · cases heq
            exact .inr ⟨wr, mem_of_getElem? hi, hid⟩
  | «foreign» txn =>
    simp only [worldStep] at h
    split at h
    · next hp =>
      cases h
      refine .inr (.inr (.inr (.inr ⟨rfl, sameAccounts_store cfg w txn ?_⟩)))
      -- other processes do not write rows of our operations
      rintro now input rfl
      rw [World.permits, Bool.and_eq_true, isNone_iff_eq_none] at hp
      exact hp.1
    · cases h
  | register now id | heartbeat now id | sweep id now locked remaining =>
    simp only [worldStep] at h
    split at h
    · cases h
    · cases h
      exact .inr (.inr (.inr (.inr ⟨rfl, sameAccounts_store cfg w _ fun _ _ ht => by cases ht⟩)))
  | confirmLease upTo | rotateOwner id =>
    simp only [worldStep] at h
    split at h
    · cases h
    · cases h
      exact .inr (.inr (.inr (.inr ⟨rfl, ⟨rfl, rfl, rfl, fun o r hr => .inl ⟨r, hr⟩⟩⟩)))
  | _ =>
    simp only [worldStep] at h
    exact .inr (.inr (.inr (.inr ⟨rfl, passStep_same h⟩)))

/-- The account of an operation that has just been created. -/
theorem accounted_create (C : Prop) (hinv : RecInv w)
    (hnew : w.ops o = none) (now : Time) (action route requestID method client : String) :
    Accounted C o
      { op := newOperation o now action route requestID method client
        beginPC := .idle, finishPC := .idle } (w.pendingOf o) w.writes .zero := by
  have hnw : ∀ wr ∈ w.writes, wr.row.operationID ≠ o := by
    intro wr hwr hid
    obtain ⟨cell, hc, -⟩ := hinv.writes wr hwr
    rw [hid, hnew] at hc
    cases hc
  have hnq : w.pendingOf o = [] := by
    refine eq_nil_iff_forall_not_mem.mpr fun p hp => ?_
    obtain ⟨hmem, hid⟩ := mem_pendingOf.mp hp
    obtain ⟨cell, hc, -⟩ := hinv.pending p hmem
    rw [hid, hnew] at hc
    cases hc
  have hna : ∀ i, ¬Cell.Awaits
      { op := newOperation o now action route requestID method client
        beginPC := .idle, finishPC := .idle } (w.pendingOf o) i := fun i =>
    not_awaits (fun _ _ => by simp) hnq
  exact
    { skipped := rfl
      undecided := fun _ => rfl
      begun := fun hb => Bool.noConfusion hb
      resolved := fun hi => Bool.noConfusion hi
      progress := ⟨rfl, rfl, hnq⟩
      silent := fun _ => hnw
      terminal := fun hf => Bool.noConfusion hf
      beginRow := fun row hr => absurd hr (by simp [BeginPC.row?])
      finishRow := fun row hr => absurd hr (by simp [FinishPC.row?])
      queueRow := fun p hp => absurd (hnq ▸ hp) not_mem_nil
      sent := fun i hi => absurd hi (hna i)
      persisted := fun ha => absurd rfl ha
      known := fun _ i wr hi hid => absurd hid (hnw wr (mem_of_getElem? hi)) }

variable {C : Prop} {b : Books}

/-- A step of one operation keeps the books of all. -/
theorem Posting.books (hinv : BooksInv C b) (hstep : worldStep cfg opts b.world l = some w')
    (hsub : l.subject = some o) (hmove : OpMove b.world o w')
    (hknown : ∃ cell, b.world.ops o = some cell)
    (h : Posting C l b.world o w' (b.tally o)) :
    BooksInv C
      { world := w'
        tally := fun i =>
          if l.subject = some i then (b.tally i).credit l b.world w' else b.tally i } where
  recorder := worldStep_inv hinv.recorder hstep
  account := by
    intro i cell hc
    dsimp only at hc ⊢
    by_cases hi : i = o
    · subst hi
      obtain ⟨cell', hc', hacc⟩ := h.account
      rw [if_pos hsub, same_cell hc hc']
      exact hacc
    · rw [if_neg (by rw [hsub]; exact fun he => hi (some.inj he).symm), h.pending i hi]
      rw [hmove.ops i hi] at hc
      have hacc := hinv.account i cell hc
      obtain hw | ⟨row, hrow, hw⟩ := h.writes
      · rw [hw]
        exact hacc
      · rw [hw]
        exact hacc.append fun hid => absurd (hid.symm.trans hrow) hi
  unknown := by
    intro i hn
    dsimp only at hn ⊢
    by_cases hi : i = o
    · subst hi
      obtain ⟨cell', hc', -⟩ := h.account
      rw [hn] at hc'
      cases hc'
    · rw [if_neg (by rw [hsub]; exact fun he => hi (some.inj he).symm)]
      rw [hmove.ops i hi] at hn
      exact hinv.unknown i hn
  rows := by
    intro i cell r hci hr
    have hold : ∃ cell, b.world.ops i = some cell := by
      by_cases hi : i = o
      · rw [hi]
        exact hknown
      · exact ⟨cell, (hmove.ops i hi).symm.trans hci⟩
    obtain ⟨cell₀, hc₀⟩ := hold
    rw [hmove.store] at hr
    obtain ⟨wr, hwr, hid⟩ := hinv.rows i cell₀ r hc₀ hr
    obtain hw | ⟨row, -, hw⟩ := h.writes
    · exact ⟨wr, hw ▸ hwr, hid⟩
    · rw [hw]
      exact ⟨wr, mem_append_left _ hwr, hid⟩

/-- A step of no operation keeps the books, as long as it keeps the accounts. -/
theorem BooksInv.move (hinv : BooksInv C b) (hrec : RecInv w') (hsub : l.subject = none)
    (hops : w'.ops = b.world.ops) (hpend : w'.pending = b.world.pending)
    (hacc : ∀ o cell, b.world.ops o = some cell →
      Accounted C o cell (b.world.pendingOf o) w'.writes (b.tally o))
    (hkeep : ∀ wr ∈ b.world.writes, ∃ x ∈ w'.writes, x.row.operationID = wr.row.operationID)
    (hrows : ∀ o r', w'.store.logs o = some r' → (∃ r, b.world.store.logs o = some r)
      ∨ (∃ wr ∈ b.world.writes, wr.row.operationID = o) ∨ b.world.ops o = none) :
    BooksInv C
      { world := w'
        tally := fun i =>
          if l.subject = some i then (b.tally i).credit l b.world w' else b.tally i } := by
  simp only [hsub, reduceCtorEq, if_false]
  refine ⟨hrec, fun o cell hc => ?_, fun o hn => ?_, fun o cell r' hc hr => ?_⟩
  · rw [pendingOf_of_pending hpend]
    exact hacc o cell (hops ▸ hc)
  · exact hinv.unknown o (hops ▸ hn)
  · have hwrite : ∃ wr ∈ b.world.writes, wr.row.operationID = o := by
      obtain ⟨r, hold⟩ | hwr | hnone := hrows o r' hr
      · exact hinv.rows o cell r (hops ▸ hc) hold
      · exact hwr
      · exact absurd (hnone.symm.trans (hops ▸ hc)) (by simp)
    obtain ⟨wr, hwr, hid⟩ := hwrite
    obtain ⟨x, hx, hxid⟩ := hkeep wr hwr
    exact ⟨x, hx, hxid.trans hid⟩

/-- **A judged step keeps the books.** -/
theorem booksStep_inv {b' : Books} (hj : Judged opts b l)
    (hC : C → Candid b l) (hinv : BooksInv C b) (h : booksStep cfg opts b l = some b') :
    BooksInv C b' := by
  simp only [booksStep, map_eq_some_iff] at h
  obtain ⟨w', hstep, rfl⟩ := h
  obtain ⟨o, now, action, route, requestID, method, client, rfl, hnew, hrow, rfl⟩ |
    ⟨o, k, cell, rfl, hc, hs⟩ | ⟨o, k, p, rfl, hp, hs⟩ |
    ⟨i, now, wr, st, rfl, hi, hst, hops, hpend, hwrites, hrows⟩ | ⟨hsub, hsame⟩ :=
    worldStep_cases hstep
  · -- a new operation, with nothing credited to it yet
    refine ⟨worldStep_inv hinv.recorder hstep, fun i cell hc => ?_, fun i hn => ?_,
      fun i cell r hc hr => ?_⟩
    · by_cases hi : i = o
      · subst hi
        have heq := mem_unique (setCell_ops_self b.world i _) hc
        rw [← heq]
        have hzero : b.tally i = .zero := hinv.unknown i hnew
        show Accounted C i _ (b.world.pendingOf i) b.world.writes (b.tally i)
        rw [hzero]
        exact accounted_create C hinv.recorder hnew now action route requestID method client
      · exact hinv.account i cell ((setCell_ops_ne b.world _ hi).symm.trans hc)
    · by_cases hi : i = o
      · subst hi
        exact absurd ((setCell_ops_self b.world i _).symm.trans hn) (by simp)
      · exact hinv.unknown i ((setCell_ops_ne b.world _ hi).symm.trans hn)
    · by_cases hi : i = o
      · subst hi
        exact absurd (hrow.symm.trans hr) (by simp)
      · exact hinv.rows i cell r ((setCell_ops_ne b.world _ hi).symm.trans hc) hr
  · have hok := hinv.recorder.cells o cell hc
    exact (cellStep_posting rfl hc hok (hinv.account o cell hc) hj hC hs).books hinv hstep rfl
      (cellStep_move hc hok hinv.recorder.owner hs) ⟨cell, hc⟩
  · obtain ⟨cell, hc, -⟩ := hinv.recorder.pending p (mem_of_find?_eq_some hp)
    have hid : p.row.operationID = o := by simpa using find?_some hp
    rw [hid] at hc
    exact (retryStep_posting rfl hc (hinv.account o cell hc) hp hC hs).books hinv hstep rfl
      (retryStep_move hinv.recorder hp hs) ⟨cell, hc⟩
  · refine hinv.move (worldStep_inv hinv.recorder hstep) rfl hops hpend (fun o cell hc => ?_)
      (fun wr' hwr' => ?_) fun o r' hr => (hrows o r' hr).imp_right .inl
    · rw [hwrites]
      refine (hinv.account o cell hc).commit hi hst fun hCand hid hout => ?_
      subst hid
      exact hC hCand wr cell hi hout hc
    · rw [hwrites]
      obtain ⟨j, hj⟩ := getElem?_of_mem hwr'
      by_cases hij : i = j
      · subst hij
        cases hi.symm.trans hj
        exact ⟨_, mem_of_getElem? (getElem?_set_same hi), rfl⟩
      · exact ⟨wr', mem_of_getElem? ((getElem?_set_ne hij).trans hj), rfl⟩
  · refine hinv.move (worldStep_inv hinv.recorder hstep) hsub hsame.ops hsame.pending
      (fun o cell hc => ?_) (fun wr hwr => ⟨wr, hsame.writes ▸ hwr, rfl⟩)
      fun o r' hr => (hsame.rows o r' hr).imp_right .inr
    rw [hsame.writes]
    exact hinv.account o cell hc

theorem initial_booksInv (h : (booksSystem cfg opts).init b) :
    BooksInv C b where
  recorder := initial_inv h.1
  account o cell hc := by
    rw [h.1.ops o] at hc
    cases hc
  unknown o _ := by rw [h.2]
  rows o cell r hc := by
    rw [h.1.ops o] at hc
    cases hc

/-! ## §2. The result. -/

/-- The terminal snapshot is acknowledged: the transaction of one of its writes
has committed. -/
def Persisted (w : World) (cell : Cell) : Prop :=
  ∃ wr ∈ w.writes, wr.row = cell.op.snapshot ∧ wr.state = .committed

/-- The operation was refused: counted once as skipped, and nothing else. -/
structure Refused (b : Books) (o : OperationID) (cell : Cell) : Prop where
  admitted : cell.op.admitted = false
  tally : b.tally o = { skipped := 1, lost := 0, acked := 0 }
  pending : b.world.pendingOf o = []
  writes : ∀ wr ∈ b.world.writes, wr.row.operationID ≠ o
  row : b.world.store.logs o = none

/-- The operation was admitted: its terminal snapshot is acknowledged, counted as
lost, or in the retry queue, and only one of these. -/
structure Recorded (b : Books) (o : OperationID) (cell : Cell) : Prop where
  admitted : cell.op.admitted = true
  skipped : (b.tally o).skipped = 0
  once : (b.tally o).acked + (b.tally o).lost + (b.world.pendingOf o).length = 1
  persisted : (b.tally o).acked = 1 → Persisted b.world cell
  pending : ∀ p ∈ b.world.pendingOf o, p.row = cell.op.snapshot

theorem BooksInv.settled (hinv : BooksInv C b)
    {cell : Cell} (hc : b.world.ops o = some cell) (hdone : cell.finishPC = .done) :
    Refused b o cell ∨ Recorded b o cell := by
  have h := hinv.account o cell hc
  have hsum : (b.tally o).acked + (b.tally o).lost + (b.world.pendingOf o).length =
      cell.op.admitted.toNat := h.place hdone
  have hskip := h.skipped
  rw [hdone] at hskip
  cases hadm : cell.op.admitted with
  | false =>
    rw [hadm] at hsum hskip
    have hzero : (b.tally o).acked + (b.tally o).lost + (b.world.pendingOf o).length = 0 := hsum
    have hone : (b.tally o).skipped = 1 := hskip
    have hlen : (b.world.pendingOf o).length = 0 := by omega
    refine .inl ⟨hadm, ?_, length_eq_zero_iff.mp hlen, h.silent hadm, ?_⟩
    · have hack : (b.tally o).acked = 0 := by omega
      have hlost : (b.tally o).lost = 0 := by omega
      exact Tally.ext hone hlost hack
    · cases hr : b.world.store.logs o with
      | none => rfl
      | some r =>
        obtain ⟨wr, hwr, hid⟩ := hinv.rows o cell r hc hr
        exact absurd hid (h.silent hadm wr hwr)
  | true =>
    rw [hadm] at hsum
    exact .inr ⟨hadm, h.not_skipped hadm, hsum, fun ha => h.persisted (by rw [ha]; simp),
      h.queueRow⟩

/-- What is in the table has been acknowledged, or its acknowledgement is on the way
to the retry queue, if the database is candid. -/
theorem BooksInv.acknowledged (hinv : BooksInv True b)
    {cell : Cell} (hc : b.world.ops o = some cell) (hdone : cell.finishPC = .done)
    (hp : Persisted b.world cell) :
    (b.tally o).acked = 1 ∨ ∃ p ∈ b.world.pendingOf o, ∃ i, p.flight = .sent i := by
  have h := hinv.account o cell hc
  have hok := hinv.recorder.cells o cell hc
  obtain ⟨wr, hwr, hsnap, hst⟩ := hp
  obtain ⟨i, hi⟩ := getElem?_of_mem hwr
  have hfin : cell.op.finished = true := by
    cases hf : cell.op.finished with
    | true => rfl
    | false => exact absurd (hdone.symm.trans (hok.finish_idle hf)) (by simp)
  have hid : wr.row.operationID = o := by
    rw [hsnap]
    exact (snapshot_fits hok.row rfl).operationID
  have hout : wr.row.outcome ≠ .running := by
    rw [hsnap]
    exact h.terminal hfin
  have hsum : (b.tally o).acked + (b.tally o).lost + (b.world.pendingOf o).length =
      cell.op.admitted.toNat := h.place hdone
  have hle : cell.op.admitted.toNat ≤ 1 := Bool.toNat_le _
  obtain ha | ⟨row, c, hs⟩ | ⟨p, hp, hs⟩ := h.known trivial i wr hi hid hout hst
  · exact .inl (by omega)
  · exact absurd (hdone.symm.trans hs) (by simp)
  · exact .inr ⟨p, hp, i, hs⟩

/-- **THE RECORDER CONSERVES OPERATIONS.**  In every run of the recorder and its
tables in which `Begin` refuses no operation that `AdmitShort` has decided about
and `Finish` does not overtake a `Begin` that is not decided, each finished
operation

  • is refused: counted once in `CaptureSkipped`, with no row, no write and
    nothing queued or lost, or
  • is admitted, not counted as skipped, and its terminal snapshot is exactly one
    of acknowledged as persisted, pending in the retry queue and counted in
    `FinalizationLost`.

If the database has been candid, an acknowledgement is also the only way for the
snapshot to be in the table, but for a retry whose reply is on the way. -/
theorem recorder_conserves (cfg : Config) (opts : Options) (b₀ b : Books) (ls : List Label)
    (hinit : (booksSystem cfg opts).init b₀)
    (hjudged : (booksSystem cfg opts).Along (Judged opts) b₀ ls)
    (hrun : (booksSystem cfg opts).run b₀ ls = some b) (o : OperationID) (cell : Cell)
    (hc : b.world.ops o = some cell) (hdone : cell.finishPC = .done) :
    (Refused b o cell ∨ Recorded b o cell) ∧
    ((booksSystem cfg opts).Along Candid b₀ ls → Persisted b.world cell →
      (b.tally o).acked = 1 ∨ ∃ p ∈ b.world.pendingOf o, ∃ i, p.flight = .sent i) := by
  constructor
  · have hinv : BooksInv False b := System.along_invariant (I := BooksInv False)
      (fun s l s' hP hI hs => booksStep_inv hP (fun hf => hf.elim) hI hs) ls b₀ b hjudged
      (initial_booksInv hinit) hrun
    exact hinv.settled hc hdone
  · intro hcandid hp
    have hboth := System.along_and ls b₀ hjudged hcandid
    have hinv : BooksInv True b := System.along_invariant (I := BooksInv True)
      (fun s l s' hP hI hs => booksStep_inv hP.1 (fun _ => hP.2) hI hs) ls b₀ b hboth
      (initial_booksInv hinit) hrun
    exact hinv.acknowledged hc hdone hp

/-! ## §3. A retried snapshot, and a refusal after a short admission. -/

/-- The recorder of `registeredWorld`, with nothing in its books. -/
def openedBooks : Books where
  world := registeredWorld
  tally := fun _ => .zero

theorem openedBooks_init : (booksSystem defaultConfig defaultOptions).init openedBooks :=
  ⟨registeredWorld_initial, rfl⟩

/-- A command begins; its final write fails, is queued, and is acknowledged when it
is written again. -/
def retriedRun : List Label :=
  [.create "op" 1 "server.exec" "/exec" "req" "POST" "",
    .op "op" (.edit (.setPrincipal ⟨.apiKey, none, "", some 7, "ci", "tls"⟩)),
    .op "op" .beginEnter, .op "op" (.beginAdmit 2 true), .op "op" .beginStore,
    .op "op" (.beginWrite true), .commit 0 3, .op "op" (.beginReturn none),
    .op "op" (.finishEnter 200 4 "t"), .op "op" (.finishDecide true),
    .op "op" (.finishWrite true), .op "op" (.finishReturn (some .unavailable)),
    .op "op" (.finishSettle 5 300 second), .retry "op" (.pick (2 * second)),
    .retry "op" (.write true (2 * second) 0), .commit 2 (2 * second),
    .retry "op" (.reply none (2 * second) 0)]

theorem recorder_conserves_retried :
    ∃ b cell, (booksSystem defaultConfig defaultOptions).run openedBooks retriedRun = some b ∧
      b.world.ops "op" = some cell ∧ Recorded b "op" cell ∧
      b.tally "op" = { skipped := 0, lost := 0, acked := 1 } := by
  have hjudged : (booksSystem defaultConfig defaultOptions).Along (Judged defaultOptions)
      openedBooks retriedRun := by
    refine System.along_cons rfl trivial <| System.along_cons rfl trivial <|
      System.along_cons rfl trivial <| System.along_cons rfl ?_ <|
      System.along_cons rfl trivial <| System.along_cons rfl trivial <|
      System.along_cons rfl trivial <| System.along_cons rfl trivial <|
      System.along_cons rfl ?_ <| System.along_cons rfl trivial <|
      System.along_cons rfl trivial <| System.along_cons rfl trivial <|
      System.along_cons rfl trivial <| System.along_cons rfl trivial <|
      System.along_cons rfl trivial <| System.along_cons rfl trivial <|
      System.along_cons rfl trivial trivial
    · intro cell hc _ _ _
      cases hc
      rfl
    · intro cell hc _ hpc
      cases hc
      cases hpc
  obtain ⟨b, cell, hrun, hc, hdone, hadm, htally⟩ : ∃ b cell,
      (booksSystem defaultConfig defaultOptions).run openedBooks retriedRun = some b ∧
      b.world.ops "op" = some cell ∧ cell.finishPC = .done ∧ cell.op.admitted = true ∧
      b.tally "op" = { skipped := 0, lost := 0, acked := 1 } :=
    ⟨_, _, rfl, rfl, rfl, rfl, rfl⟩
  refine ⟨b, cell, hrun, hc, ?_, htally⟩
  obtain hrefused | hrecorded := (recorder_conserves defaultConfig defaultOptions openedBooks b
    retriedRun openedBooks_init hjudged hrun "op" cell hc hdone).1
  · exact absurd (hrefused.admitted.symm.trans hadm) (by simp)
  · exact hrecorded

/-- A short request is admitted when the caller is known.  Its handler calls `Begin`
after the lease has run out. -/
def shortThenBegin : List Label :=
  [.create "op" 1 "settings.update" "/settings" "req" "PUT" "",
    .op "op" (.edit (.setPrincipal ⟨.jwt, some 1, "ops", none, "", ""⟩)),
    .op "op" (.admitShort true), .op "op" .beginEnter,
    .op "op" (.beginAdmit (200 * second) true), .op "op" (.finishEnter 200 (201 * second) "t"),
    .op "op" (.finishDecide true)]

/-- **Counted as skipped, and recorded.**  `Begin` refuses the admitted operation and
counts it; `Finish` still finds it admitted, takes the slot reserved for operations
that have begun, and its row is acknowledged. -/
theorem short_admission_counted_and_recorded :
    ∃ b₁ cell₁ row b cell,
      (booksSystem defaultConfig defaultOptions).run openedBooks shortThenBegin = some b₁ ∧
      b₁.world.ops "op" = some cell₁ ∧ cell₁.finishPC = .writing row true ∧
      (booksSystem defaultConfig defaultOptions).run b₁
        [.op "op" (.finishWrite true), .commit 0 (201 * second), .op "op" (.finishReturn none),
          .op "op" (.finishSettle (201 * second) 300 second)] = some b ∧
      b.world.ops "op" = some cell ∧ cell.finishPC = .done ∧
      b.tally "op" = { skipped := 1, lost := 0, acked := 1 } ∧
      (b.world.store.logs "op").map (·.ownerInstanceID) = some none ∧
      ¬Refused b "op" cell ∧ ¬Recorded b "op" cell := by
  refine ⟨_, _, _, _, _, rfl, rfl, rfl, rfl, rfl, rfl, rfl, rfl, ?_, ?_⟩
  · intro h
    exact absurd h.admitted (by decide)
  · intro h
    exact absurd h.skipped (by decide)

end Talus.Usage
