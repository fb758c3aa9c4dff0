/-
  Talus.Usage.LiveOwner
  **THE DATABASE SIDE, AND THE RESULT.**

  `Talus.Usage.Tracking` follows the calls of an operation; here the same
  invariant is followed through the transactions:

    • `RecInv.withStore`: any transaction that waits for the locked owner and
      respects what is ours (`TxnOk`),
    • `passSnapshot_inv`/`passMark_inv`: the pass itself.

  Main result: `live_owner_keeps_work`.  In every reachable state the row of
  an operation that is active, or whose terminal snapshot is in flight or
  queued, does not say `finalization_unavailable`, and a pass of the live
  owner leaves it as it is.
-/
import Talus.Usage.Tracking

namespace Talus.Usage

open Talus.Base List Option

variable {cfg : Config} {opts : Options} {w w' : World} {o : OperationID} {cell : Cell}
  {s : Store} {now : Time}

/-! ## §1. What transactions leave alone. -/

variable {t : Txn}

theorem rowMove_keys {r r' : UsageLog} (h : RowMove cfg s o t r r') :
    r'.operationID = r.operationID ∧ r'.ownerInstanceID = r.ownerInstanceID := by
  cases h with
  | same | update hv ho hid hsup | mark hm howner hlive => exact ⟨rfl, rfl⟩

theorem storeStep_keyed (t : Txn) (hk : ∀ o r, s.logs o = some r → r.operationID = o) :
    ∀ o r, (storeStep cfg s t).logs o = some r → r.operationID = o := by
  intro o r' hr'
  obtain ⟨r, hl, hmove⟩ | ⟨-, now, input, v, rfl, hv, ho, rfl⟩ := storeStep_origin t hr'
  · rw [(rowMove_keys hmove).1]
    exact hk o r hl
  · show v.operationID = o
    rw [(prepare_core hv).operationID, ho]

/-- The owner whose lease a transaction writes. -/
def Txn.leaseOf : Txn → Option InstanceID
  | .register _ id => some id
  | .heartbeat _ id => some id
  | _ => none

variable {id : InstanceID}

theorem storeStep_instances (t : Txn) (h : t.leaseOf ≠ some id) :
    (storeStep cfg s t).instances id = s.instances id := by
  cases t with
  | upsert now input =>
    cases hu : upsert cfg s now input with
    | error e => rw [storeStep_upsert_error hu]
    | ok res =>
      obtain ⟨s₁, b⟩ := res
      rw [storeStep_upsert_ok hu]
      obtain ⟨v, hv, ⟨-, rfl, -⟩ | ⟨-, -, rfl⟩ | ⟨-, old, -, -, -, rfl⟩⟩ := upsert_cases hu
      · rfl
      · rfl
      · rfl
  | reconcile self id' now tracked locked remaining =>
    simp only [storeStep, reconcileOwner]
    split
    · rfl
    · rfl
  | register now id' =>
    have hne : id ≠ id' := fun heq => h (by rw [heq]; rfl)
    simp only [storeStep, Store.registerInstance]
    cases s.instances id' with
    | none =>
      dsimp only
      split
      · rfl
      · exact if_neg hne
    | some owner =>
      cases s.lockOwner now id' true with
      | error e => rfl
      | ok i => rfl
  | heartbeat now id' =>
    have hne : id ≠ id' := fun heq => h (by rw [heq]; rfl)
    simp only [storeStep, Store.heartbeat]
    cases s.lockOwner now id' false with
    | error e => rfl
    | ok i => exact if_neg hne

theorem storeStep_stale (t : Txn) (h : t.leaseOf ≠ some id) :
    (storeStep cfg s t).stale now id = s.stale now id := by
  unfold Store.stale
  rw [storeStep_instances t h]

/-- A snapshot never brings a recovery reason into the table. -/
theorem prepare_reason {input v : UsageLog} (hv : prepare cfg input = .ok v)
    (hr : input.recoveryReason = .empty) : v.recoveryReason = .empty := by
  have hc := prepare_core hv
  by_cases hrun : input.outcome = .running
  · exact hc.running hrun
  · rw [hc.closed hrun, hr]

/-! ## §2. Transactions keep the invariant. -/

/-- What a transaction must respect: our operations are written from their
snapshots only, a pass disowns retired operations only, and the owner whose
row is locked is waited for. -/
def TxnOk (cfg : Config) (w : World) : Txn → Prop
  | .upsert _ v => (∀ cell, w.ops v.operationID = some cell → RowFits cell v.operationID v) ∧
      w.blocked cfg v = false
  | .reconcile self id now tracked _ _ => ∀ o r cell, w.store.logs o = some r →
      w.ops o = some cell → r.ownerInstanceID = some id → w.store.stale now id = false →
      id = self → tracked.contains r.operationID = false → Retired w o
  | .register _ id => w.locks id = false
  | .heartbeat _ id => w.locks id = false

theorem locks_iff : w.locks id = true ↔ ∃ p, w.pass = some p ∧ p.self = id := by
  unfold World.locks
  cases w.pass with
  | none => simp
  | some p => simp

theorem TxnOk.lease (h : TxnOk cfg w t) {p : Pass} (hp : w.pass = some p) :
    t.leaseOf ≠ some p.self := by
  have hlock : w.locks p.self = true := locks_iff.mpr ⟨p, hp, rfl⟩
  intro heq
  cases t with
  | upsert now v => cases heq
  | reconcile self id now tracked locked remaining => cases heq
  | register now id | heartbeat now id =>
    cases heq
    rw [show w.locks p.self = false from h] at hlock
    cases hlock

/-- An `Upsert` that runs is not of the locked owner. -/
theorem not_blocked {input v : UsageLog} (h : w.blocked cfg input = false)
    (hv : prepare cfg input = .ok v) {p : Pass} (hp : w.pass = some p) :
    v.ownerInstanceID ≠ some p.self := by
  intro heq
  have hlock : w.locks p.self = true := locks_iff.mpr ⟨p, hp, rfl⟩
  simp [World.blocked, hv, heq, hlock] at h

theorem RecInv.marked_step (hinv : RecInv w) (hok : TxnOk cfg w t) {r' : UsageLog}
    (hr' : (storeStep cfg w.store t).logs o = some r') (hc : w.ops o = some cell)
    (hm : r'.recoveryReason = .finalizationUnavailable) : Retired w o := by
  obtain ⟨r, hl, hmove⟩ | ⟨-, now, input, v, rfl, hv, rfl, rfl⟩ := storeStep_origin t hr'
  · cases hmove with
    | same => exact hinv.marked o _ cell hl hc hm
    | @update _ _ v _ hv ho hid hsup =>
      subst ho
      change v.recoveryReason = _ at hm
      rw [prepare_reason hv (hok.1 cell hc).reason] at hm
      cases hm
    | mark hmk howner hlive =>
      have hst := (recoveryReason_spec w.store _ _).2.mp hm
      obtain ⟨hself, htr⟩ := hlive hst
      exact hok o r cell hl hc howner hst hself htr
  · change v.recoveryReason = _ at hm
    rw [prepare_reason hv (hok.1 cell hc).reason] at hm
    cases hm

/-- **A transaction keeps the invariant.** -/
theorem RecInv.withStore (hinv : RecInv w) (t : Txn) (hok : TxnOk cfg w t) :
    RecInv (w.withStore (storeStep cfg w.store t)) where
  cells := fun i c hc => { hinv.cells i c hc with }
  __ := hinv
  keyed := storeStep_keyed t hinv.keyed
  rows := by
    intro i r' c hr' hc x hx
    obtain ⟨r, hl, hmove⟩ | ⟨-, now, input, v, rfl, hv, rfl, rfl⟩ := storeStep_origin t hr'
    · rw [(rowMove_keys hmove).2] at hx
      exact hinv.rows i r c hl hc x hx
    · change v.ownerInstanceID = some x at hx
      rw [(prepare_core hv).ownerInstanceID] at hx
      exact (hok.1 c hc).owner x hx
  marked := by
    intro i r' c hr' hc hm
    exact { hinv.marked_step hok hr' hc hm with }
  live := by
    intro p hp
    show (storeStep cfg w.store t).stale p.now p.self = false
    rw [storeStep_stale t (hok.lease hp)]
    exact hinv.live p hp
  untracked := by
    intro p tracked hp ht i r' hr' hx hnt
    obtain ⟨r, hl, hmove⟩ | ⟨-, now, input, v, rfl, hv, -, rfl⟩ := storeStep_origin t hr'
    · rw [(rowMove_keys hmove).2] at hx
      exact { hinv.untracked p tracked hp ht i r hl hx hnt with }
    · -- no row of the locked owner can appear
      exact absurd hx (not_blocked hok.2 hv hp)

/-- The outcome of a transaction is written down. -/
theorem RecInv.setWrite (hinv : RecInv w) {i : Nat} {wr : Write} (hi : w.writes[i]? = some wr)
    (state : WriteState) :
    RecInv { w with writes := w.writes.set i { wr with state := state } } :=
  { hinv with
    cells := fun k c hc => { hinv.cells k c hc with }
    writes := by
      intro x hx
      rcases mem_or_eq_of_mem_set hx with hx | rfl
      · exact hinv.writes x hx
      · exact hinv.writes wr (mem_of_getElem? hi)
    marked := fun k r c hr hc hm => { hinv.marked k r c hr hc hm with }
    untracked := fun p tracked hp ht k r hr hx hnt =>
      { hinv.untracked p tracked hp ht k r hr hx hnt with } }

theorem commit_inv (hinv : RecInv w) {i : Nat} (h : w.commit cfg i now = some w') : RecInv w' := by
  unfold World.commit at h
  split at h
  · cases h
  · next wr hwr =>
    split at h
    · cases h
    · next hg =>
      have hblocked : w.blocked cfg wr.row = false := by simpa using fun h0 => hg (.inr h0)
      split at h
      · cases h
        exact hinv.setWrite hwr _
      · next s b hu =>
        cases h
        -- the row comes from a snapshot of one of our operations
        obtain ⟨cell, hc, hfit⟩ := hinv.writes wr (mem_of_getElem? hwr)
        have hok : TxnOk cfg w (.upsert now wr.row) :=
          ⟨fun c hc' => same_cell hc hc' ▸ hfit, hblocked⟩
        have hstore := hinv.withStore (.upsert now wr.row) hok
        rw [storeStep_upsert_ok hu] at hstore
        exact RecInv.setWrite hstore hwr .committed

/-! ## §3. The pass. -/

/-- `RecInv` without a pass asks for less. -/
theorem RecInv.endPass (hinv : RecInv w) : RecInv { w with pass := none } :=
  { hinv with
    cells := fun k c hc => { hinv.cells k c hc with }
    marked := fun k r c hr hc hm => { hinv.marked k r c hr hc hm with }
    live := nofun
    untracked := fun p tracked hp => by cases hp }

variable {self : InstanceID}

/-- Taking the lock: the owner is live, and nothing is tracked yet. -/
theorem passLock_inv (hinv : RecInv w) (hlive : w.store.stale now self = false) :
    RecInv { w with pass := some { self := self, now := now, tracked := none } } :=
  { hinv with
    cells := fun k c hc => { hinv.cells k c hc with }
    marked := fun k r c hr hc hm => { hinv.marked k r c hr hc hm with }
    live := fun p hp => by
      cases hp
      exact hlive
    untracked := fun p tracked hp ht => by
      injection hp with hp
      rw [← hp] at ht
      cases ht }

/-- **The snapshot**: with `mu` free, an operation that has a row of the owner
and is not tracked is retired. -/
theorem untracked_retired (hinv : RecInv w) (hmu : w.mu = none) {r : UsageLog}
    (hr : w.store.logs o = some r) (hown : r.ownerInstanceID = some self)
    (hnt : o ∉ w.trackedOperations) : Retired w o := by
  have hna : o ∉ w.active := fun h => hnt (mem_append.mpr (.inl h))
  have hnq : ¬Queued w o := by
    rintro ⟨p, hp, hk⟩
    exact hnt (mem_append.mpr (.inr (mem_map.mpr ⟨p, hp, hk⟩)))
  refine ⟨hna, hnq, fun cell hc => ?_⟩
  have hs : Started cell := ⟨self, hinv.rows o r cell hr hc self hown⟩
  cases hd : cell.finishPC.isDone with
  | true => rfl
  | false =>
    -- begun and not done: it would be in `active`
    refine absurd ((hinv.cells o cell hc).tracked hs hd ?_) hna
    rw [hmu]
    exact nofun

theorem passSnapshot_inv (hinv : RecInv w) (hmu : w.mu = none)
    (hp : w.pass = some ⟨self, now, none⟩) :
    RecInv { w with pass := some ⟨self, now, some w.trackedOperations⟩ } :=
  { hinv with
    cells := fun k c hc => { hinv.cells k c hc with }
    marked := fun k r c hr hc hm => { hinv.marked k r c hr hc hm with }
    live := fun p hp' => by
      injection hp' with hp'
      rw [← hp']
      exact hinv.live ⟨self, now, none⟩ hp
    untracked := fun p tracked hp' ht k r hr hx hnt => by
      injection hp' with hp'
      rw [← hp'] at ht hx
      injection ht with ht
      rw [← ht] at hnt
      exact { untracked_retired hinv hmu hr hx hnt with } }

variable {tracked : List OperationID}

/-- What the pass selects is retired. -/
theorem passMark_txnOk (hinv : RecInv w)
    (hp : w.pass = some ⟨self, now, some tracked⟩) (locked : List OperationID)
    (remaining : Nat) : TxnOk cfg w (.reconcile self self now tracked locked remaining) := by
  intro k r c hr _ hown _ _ htr
  refine hinv.untracked _ tracked hp rfl k r hr hown ?_
  rw [hinv.keyed k r hr] at htr
  simpa using htr

theorem passMark_inv (hinv : RecInv w)
    (hp : w.pass = some ⟨self, now, some tracked⟩) (locked : List OperationID)
    (remaining : Nat) :
    RecInv { w with
      store := reconcileOwner cfg w.store self self now tracked locked remaining
      pass := none } := by
  have hok : TxnOk cfg w (.reconcile self self now tracked locked remaining) :=
    passMark_txnOk hinv hp locked remaining
  exact (hinv.withStore _ hok).endPass

theorem passStep_inv (hinv : RecInv w) {l : Label} (h : passStep cfg w l = some w') :
    RecInv w' := by
  unfold passStep at h
  split at h
  · next self now =>
    split at h
    · cases h
    · next hg =>
      cases h
      have hlive : w.store.stale now self = false := by simpa using fun h0 => hg (.inr (.inr h0))
      exact passLock_inv hinv hlive
  · split at h
    · next self now hp =>
      split at h
      · cases h
      · next hm =>
        cases h
        exact passSnapshot_inv hinv (by simpa using hm) hp
    · cases h
  · next locked remaining =>
    split at h
    · next self now tracked hp =>
      cases h
      exact passMark_inv hinv hp locked remaining
    · cases h
  · split at h
    · cases h
      exact hinv.endPass
    · cases h
  · cases h

/-! ## §4. Every step keeps the invariant. -/

/-- Transactions of other processes respect what is ours. -/
theorem permits_txnOk (hinv : RecInv w) (h : w.permits t = true) : TxnOk cfg w t := by
  cases t with
  | upsert now v =>
    simp only [World.permits, Bool.and_eq_true, Bool.not_eq_true', isNone_iff_eq_none] at h
    refine ⟨fun cell hc => ?_, ?_⟩
    · rw [h.1] at hc
      cases hc
    · unfold World.blocked
      cases hv : prepare cfg v with
      | error e => rfl
      | ok v' =>
        dsimp only
        rw [(prepare_core hv).ownerInstanceID]
        exact h.2
  | reconcile self id now tracked locked remaining =>
    simp only [World.permits, Bool.and_eq_true, Bool.not_eq_true'] at h
    -- our rows name our owners, and `self` is none of them
    intro k r c hr hc hown _ hself _
    have hmem : id ∈ w.owners := (hinv.cells k c hc).owner id (hinv.rows k r c hr hc id hown)
    rw [hself] at hmem
    have hno := h.1
    simp [hmem] at hno
  | register now id | heartbeat now id => simpa [World.permits, TxnOk] using h

theorem sweep_txnOk (h : w.store.stale now id = true) (self : InstanceID)
    (locked : List OperationID) (remaining : Nat) :
    TxnOk cfg w (.reconcile self id now [] locked remaining) := by
  intro k r c _ _ _ hst
  rw [h] at hst
  cases hst

/-- The lease and the owner may change, as long as no owner is forgotten. -/
theorem RecInv.setOwner (hinv : RecInv w) {owners : List InstanceID} (upTo : Time)
    (hown : id ∈ owners) (hkeep : ∀ x ∈ w.owners, x ∈ owners) :
    RecInv { w with owner := id, owners := owners, leaseConfirmedUntil := upTo } :=
  { hinv with
    cells := fun k c hc => (hinv.cells k c hc).congr hkeep Iff.rfl Iff.rfl fun h => h
    owner := hown
    marked := fun k r c hr hc hm => { hinv.marked k r c hr hc hm with }
    untracked := fun p tracked hp ht k r hr hx hnt =>
      { hinv.untracked p tracked hp ht k r hr hx hnt with } }

theorem initial_inv (h : w.Initial) : RecInv w where
  cells := fun k c hc => by
    rw [h.ops k] at hc
    cases hc
  owner := by
    rw [h.owners]
    exact mem_singleton.mpr rfl
  mu := fun k hm => by
    rw [h.mu] at hm
    cases hm
  active := fun k hk => by
    rw [h.active] at hk
    cases hk
  writes := fun wr hwr => by
    rw [h.writes] at hwr
    cases hwr
  pending := fun p hp => by
    rw [h.pending] at hp
    cases hp
  keyed := h.keyed
  rows := fun k r c _ hc => by
    rw [h.ops k] at hc
    cases hc
  marked := fun k r c _ hc => by
    rw [h.ops k] at hc
    cases hc
  live := fun p hp => by
    rw [h.pass] at hp
    cases hp
  untracked := fun p tracked hp => by
    rw [h.pass] at hp
    cases hp

theorem worldStep_inv (hinv : RecInv w) {l : Label} (h : worldStep cfg opts w l = some w') :
    RecInv w' := by
  cases l <;> simp only [worldStep] at h
  case create k now action route requestID method client =>
    split at h
    · cases h
    · next hg =>
      cases h
      have hnew : w.ops k = none := by simpa using fun h0 => hg (.inl h0)
      have hrow : w.store.logs k = none := by simpa using fun h0 => hg (.inr h0)
      exact (create_move hinv hnew hrow now action route requestID method client).inv hinv
  case op k l =>
    simp only [bind_eq_some_iff] at h
    obtain ⟨c, hc, h⟩ := h
    exact (cellStep_move hc (hinv.cells k c hc) hinv.owner h).inv hinv
  case retry k l =>
    simp only [bind_eq_some_iff] at h
    obtain ⟨p, hp, h⟩ := h
    exact (retryStep_move hinv hp h).inv hinv
  case commit i now => exact commit_inv hinv h
  case «foreign» t =>
    split at h
    · next hp =>
      cases h
      exact hinv.withStore t (permits_txnOk hinv hp)
    · cases h
  case register now id | heartbeat now id =>
    split at h
    · cases h
    · next hg =>
      cases h
      have hl : w.locks id = false := by simpa using fun h0 => hg (.inr h0)
      exact hinv.withStore _ hl
  case confirmLease upTo =>
    split at h
    · cases h
    · cases h
      exact hinv.setOwner upTo hinv.owner fun _ hx => hx
  case rotateOwner id =>
    split at h
    · cases h
    · cases h
      exact hinv.setOwner 0 mem_cons_self fun _ hx => mem_cons_of_mem id hx
  case sweep id now locked remaining =>
    split at h
    · cases h
    · next hg =>
      cases h
      have hst : w.store.stale now id = true := by simpa using fun h0 => hg (.inl h0)
      exact hinv.withStore _ (sweep_txnOk hst w.owner locked remaining)
  all_goals exact passStep_inv hinv h

theorem reachable_inv (h : (recorderSystem cfg opts).Reachable w) : RecInv w :=
  h.invariant (fun _ hi => initial_inv hi) (fun _ _ _ hI hs => worldStep_inv hI hs)

/-! ## §5. The result. -/

/-- A live pass leaves the rows of operations that are not retired alone. -/
theorem passMark_keeps (hinv : RecInv w) (hb : Busy w o) (hp : w.pass = some ⟨self, now, some tracked⟩)
    (locked : List OperationID) (remaining : Nat) :
    (reconcileOwner cfg w.store self self now tracked locked remaining).logs o =
      w.store.logs o := by
  have hlive : w.store.stale now self = false := hinv.live _ hp
  cases hl : w.store.logs o with
  | none =>
    cases hn : (reconcileOwner cfg w.store self self now tracked locked remaining).logs o with
    | none => rfl
    | some r' =>
      -- a pass makes no row appear
      have hstep : (storeStep cfg w.store
          (.reconcile self self now tracked locked remaining)).logs o = some r' := hn
      obtain ⟨_, _, _, ht, -⟩ := storeStep_new _ hl hstep
      cases ht
  | some r =>
    obtain ⟨r', hr', hmove⟩ :
        ∃ r', (reconcileOwner cfg w.store self self now tracked locked remaining).logs o = some r' ∧
          RowMove cfg w.store o (.reconcile self self now tracked locked remaining) r r' :=
      reconcile_row hl
    cases hmove with
    | same => exact hr'
    | mark hmk hown hsel =>
      -- a selected row is not tracked, hence retired
      obtain ⟨-, htr⟩ := hsel hlive
      rw [hinv.keyed o r hl] at htr
      have hret := hinv.untracked _ tracked hp rfl o r hl hown (by simpa using htr)
      exact absurd hb hret.not_busy

/-- **A live owner never disowns its own work.**  In every state any
interleaving reaches, the row of an operation that is active, or whose
terminal snapshot is in flight or queued, does not carry
`finalization_unavailable`; and the owner's reconcile pass leaves it as it
is. -/
theorem live_owner_keeps_work (cfg : Config) (opts : Options) (w : World)
    (hreach : (recorderSystem cfg opts).Reachable w) (o : OperationID) (hbusy : Busy w o) :
    (∀ r, w.store.logs o = some r → r.recoveryReason ≠ .finalizationUnavailable) ∧
      ∀ locked remaining w',
        (recorderSystem cfg opts).step w (.passMark locked remaining) = some w' →
        Busy w' o ∧ w'.store.logs o = w.store.logs o := by
  have hinv := reachable_inv hreach
  -- a busy operation is one of ours
  have hours : ∃ cell, w.ops o = some cell := by
    rcases hbusy with ha | ⟨p, hp, hk⟩ | ⟨cell, hc, -⟩
    · exact hinv.active o ha
    · obtain ⟨cell, hc, -⟩ := hinv.pending p hp
      exact ⟨cell, hk ▸ hc⟩
    · exact ⟨cell, hc⟩
  refine ⟨?_, ?_⟩
  · intro r hr hm
    obtain ⟨cell, hc⟩ := hours
    exact (hinv.marked o r cell hr hc hm).not_busy hbusy
  · intro locked remaining w' hstep
    change passStep cfg w (.passMark locked remaining) = some w' at hstep
    simp only [passStep] at hstep
    split at hstep
    · next self now tracked hp =>
      cases hstep
      exact ⟨hbusy, passMark_keeps hinv hbusy hp locked remaining⟩
    · cases hstep

/-! ## §6. A pass over an active operation. -/

/-- A recorder that has just registered, with a lease of a hundred seconds. -/
def registeredWorld : World where
  ops := fun _ => none
  owner := "hub"
  owners := ["hub"]
  leaseConfirmedUntil := 100 * second
  active := []
  pending := []
  pendingBytes := 0
  stats := { captureSkipped := 0, writeFailed := 0, finalizationRetry := 0, finalizationLost := 0 }
  mu := none
  writes := []
  store :=
    { logs := fun _ => none
      order := []
      instances := fun i =>
        if i = "hub" then some { lastSeenAt := 0, leaseUntil := 100 * second, retiredAt := none }
        else none
      nextID := 1 }
  pass := none

theorem registeredWorld_initial : registeredWorld.Initial :=
  ⟨fun _ => rfl, rfl, rfl, rfl, rfl, rfl, rfl, fun _ _ h => by cases h⟩

def defaultOptions : Options where
  activeLimit := 4096
  retryItems := 1024
  retryBytes := 8388608
  retryLifetime := 2 * minute

/-- A command begins, its row is stored, its final write fails and is queued;
forty seconds later a pass takes its snapshot. -/
def queuedRun : List Label :=
  [.create "op" 1 "server.exec" "/exec" "req" "POST" "",
    .op "op" (.edit (.setPrincipal ⟨.apiKey, none, "", some 7, "ci", "tls"⟩)),
    .op "op" .beginEnter, .op "op" (.beginAdmit 2 true), .op "op" .beginStore,
    .op "op" (.beginWrite true), .commit 0 3, .op "op" (.beginReturn none),
    .op "op" (.finishEnter 200 4 "t"), .op "op" (.finishDecide true),
    .op "op" (.finishWrite true), .op "op" (.finishReturn (some .unavailable)),
    .op "op" (.finishSettle 5 300 second), .passLock "hub" (40 * second), .passSnapshot]

/-- The queued operation's row is past the grace period, and still the pass
leaves it alone. -/
theorem live_owner_keeps_work_queued :
    ∃ w w', (recorderSystem defaultConfig defaultOptions).run registeredWorld queuedRun = some w ∧
      (recorderSystem defaultConfig defaultOptions).step w (.passMark [] 200) = some w' ∧
      (w.store.logs "op").map (·.outcome) = some .running ∧
      w'.store.logs "op" = w.store.logs "op" := by
  have hrun : (recorderSystem defaultConfig defaultOptions).run registeredWorld queuedRun =
      some _ := rfl
  refine ⟨_, _, hrun, rfl, rfl, ?_⟩
  exact ((live_owner_keeps_work defaultConfig defaultOptions _
    ⟨_, queuedRun, registeredWorld_initial, hrun⟩ "op"
    (.inr (.inl ⟨_, mem_singleton.mpr rfl, rfl⟩))).2 [] 200 _ rfl).2

end Talus.Usage
