/-
  Talus.Usage.Lease
  **THE LEASE THE RECORDER BELIEVES IN.**

  The recorder owns its rows under an instance id with a lease in the
  database.  One goroutine registers the id and renews the lease; after a
  renewal it notes, on its own clock, until when the lease is surely good, and
  `Begin` admits operations before that instant only.  An id that the database
  refuses for good is replaced by a new one.

  A renewal is a call that is issued, runs its statement at some instant in
  the database, or later, or never, returns, and is then settled under the
  recorder's lock.  The lock may have to be waited for, so time passes between
  the return and the settling too.

  The clocks run at the same rate, `skew` apart.
-/
import Talus.Base.Count
import Talus.Usage.Cleanup

namespace Talus.Usage

open Talus.Base List Option

/-! ## §1. The owner's goroutine. -/

/-- `LeaseDuration` (of the store and the recorder) and `WriteTimeout`, and the
database's clock against the recorder's. -/
structure LeaseParams where
  cfg : Config
  writeTimeout : Duration
  skew : Duration

def LeaseParams.leaseDuration (p : LeaseParams) : Duration := p.cfg.leaseDuration

inductive OwnerKind
  | register
  | heartbeat
  deriving DecidableEq, Repr

/-- What an owner call returns with: an answer of the store, or anything else
(a timeout, a lost connection, no write slot). -/
inductive OwnerError
  | store (e : UsageError)
  | unavailable
  deriving DecidableEq, Repr

/-- `permanentOwnerError`. -/
def OwnerError.isPermanent : OwnerError → Bool
  | .store .ownerMissing => true
  | .store .ownerRetired => true
  | _ => false

/-- A statement handed to the database, and its answer once it has run. -/
structure OwnerWrite where
  kind : OwnerKind
  id : InstanceID
  answer : Option (Option UsageError)

/-- What the caller may be told: the truth, or nothing. -/
def OwnerWrite.reports (wr : OwnerWrite) : Option OwnerError → Bool
  | none => decide (wr.answer = some none)
  | some (.store e) => decide (wr.answer = some (some e))
  | some .unavailable => true

/-- Where the goroutine stands. -/
inductive OwnerPC
  | idle
  /-- before `registerOwner` -/
  | registering
  | calling (kind : OwnerKind) (id : InstanceID) (started : Time) (i : Nat)
  /-- before it has the lock -/
  | returned (kind : OwnerKind) (id : InstanceID) (started : Time) (res : Option OwnerError)

structure LeaseState where
  now : Time
  store : Store
  owner : InstanceID
  /-- every id this process has drawn -/
  drawn : List InstanceID
  /-- `none`: the zero time -/
  confirmedUntil : Option Time
  writes : List OwnerWrite
  pc : OwnerPC
  /-- the owners `Begin` has stamped on rows, the last one first -/
  begun : List InstanceID

namespace LeaseState

def dbNow (p : LeaseParams) (s : LeaseState) : Time := s.now + p.skew

/-- The lease part of `Begin`'s condition. -/
def admits (s : LeaseState) : Bool := s.confirmedUntil.any fun deadline => decide (s.now < deadline)

/-- `ownerWrite`: without a slot the call returns at once. -/
def issue (s : LeaseState) (kind : OwnerKind) (slot : Bool) : LeaseState :=
  if slot then
    { s with
      writes := s.writes ++ [⟨kind, s.owner, none⟩]
      pc := .calling kind s.owner s.now s.writes.length }
  else { s with pc := .returned kind s.owner s.now (some .unavailable) }

/-- The deadline is noted if the owner is still the one renewed. -/
def confirm (p : LeaseParams) (s : LeaseState) (id : InstanceID) : LeaseState :=
  if id = s.owner then
    { s with confirmedUntil := some (s.now + (p.leaseDuration - p.writeTimeout)), pc := .idle }
  else { s with pc := .idle }

/-- A refused owner is replaced, and the new one registered. -/
def rotate (s : LeaseState) (id fresh : InstanceID) : LeaseState :=
  if id = s.owner then
    { s with owner := fresh, drawn := fresh :: s.drawn, confirmedUntil := none, pc := .registering }
  else { s with pc := .registering }

/-- The end of `registerOwner` or `heartbeat`, under the lock. -/
def settle (p : LeaseParams) (s : LeaseState) (fresh : InstanceID) :
    OwnerKind → InstanceID → Option OwnerError → LeaseState
  | _, id, none => s.confirm p id
  | .register, _, some _ => { s with pc := .idle }
  | .heartbeat, id, some e => if e.isPermanent then s.rotate id fresh else { s with pc := .idle }

/-- What a statement does to the tables, and its answer. -/
def runWrite (p : LeaseParams) (s : LeaseState) (wr : OwnerWrite) : Store × Option UsageError :=
  let res := match wr.kind with
    | .register => s.store.registerInstance p.cfg (s.dbNow p) wr.id
    | .heartbeat => s.store.heartbeat p.cfg (s.dbNow p) wr.id
  match res with
  | .ok store => (store, none)
  | .error e => (s.store, some e)

end LeaseState

/-- The database's clock in a transaction. -/
def TableOp.instant : TableOp → Time
  | .txn _ (.upsert now _) => now
  | .txn _ (.reconcile _ _ now _ _ _) => now
  | .txn _ (.register now _) => now
  | .txn _ (.heartbeat now _) => now
  | .cleanup _ now _ _ => now
  | .cleanupInstance now _ => now

/-- The owner whose lease a transaction may write. -/
def TableOp.leaseOf : TableOp → Option InstanceID
  | .txn _ t => t.leaseOf
  | _ => none

inductive LeaseLabel
  | tick (d : Nat)
  /-- any other transaction, of this process or another -/
  | table (op : TableOp)
  | register (slot : Bool)
  | heartbeat (slot : Bool)
  | commit (i : Nat)
  | ret (res : Option OwnerError)
  | settle (fresh : InstanceID)
  /-- `Begin`; `allowed` is the rest of its condition -/
  | begin (allowed : Bool)

def LeaseLabel.settles : LeaseLabel → Bool
  | .settle _ => true
  | _ => false

def leaseStep (p : LeaseParams) (s : LeaseState) : LeaseLabel → Option LeaseState
  | .tick d => some { s with now := s.now + d }
  | .table op =>
    -- only the owner's goroutine writes its lease
    if op.instant = s.dbNow p ∧ op.leaseOf.all fun id => id ∉ s.drawn then
      some { s with store := tableStep s.store op }
    else none
  | .register slot =>
    match s.pc with
    | .registering => some (s.issue .register slot)
    | _ => none
  | .heartbeat slot =>
    match s.pc with
    | .idle => some (s.issue .heartbeat slot)
    | _ => none
  | .commit i =>
    (s.writes[i]?).bind fun wr =>
      if wr.answer.isSome then none
      else
        let (store, answer) := s.runWrite p wr
        some { s with store := store, writes := s.writes.set i { wr with answer := some answer } }
  | .ret res =>
    match s.pc with
    | .calling kind id started i =>
      -- every call returns within the write timeout
      if (s.writes[i]?).any (·.reports res) ∧ s.now ≤ started + p.writeTimeout then
        some { s with pc := .returned kind id started res }
      else none
    | _ => none
  | .settle fresh =>
    match s.pc with
    | .returned kind id _ res =>
      -- an id is new
      if fresh ∈ s.drawn ∨ (s.store.instances fresh).isSome then none
      else some (s.settle p fresh kind id res)
    | _ => none
  | .begin allowed =>
    some (if s.admits && allowed then { s with begun := s.owner :: s.begun } else s)

/-- `NewRecorder`, before `Start`. -/
structure LeaseState.Initial (s : LeaseState) : Prop where
  unregistered : s.store.instances s.owner = none
  drawn : s.drawn = [s.owner]
  confirmedUntil : s.confirmedUntil = none
  writes : s.writes = []
  pc : s.pc = .registering
  begun : s.begun = []

def leaseSystem (p : LeaseParams) : System LeaseState LeaseLabel where
  init := LeaseState.Initial
  step := leaseStep p

/-! ## §2. What transactions do to a lease. -/

variable {p : LeaseParams} {s s' : LeaseState} {id : InstanceID} {st st' : Store} {t : Time}

/-- What a transaction at the instant `t` can do to the row of an owner whose
lease it does not write. -/
inductive Untouched (t : Time) (st st' : Store) (id : InstanceID) : Prop
  | same (h : st'.instances id = st.instances id)
  /-- an owner that is not live is retired, … -/
  | retired (inst : Instance) (h : st.instances id = some inst) (hdead : inst.live t = false)
      (h' : st'.instances id = some { inst with retiredAt := some t })
  /-- … or removed -/
  | removed (inst : Instance) (h : st.instances id = some inst) (hdead : inst.live t = false)
      (h' : st'.instances id = none)

/-- The lease has been written at the instant `t`. -/
structure RenewedAt (p : LeaseParams) (t : Time) (st : Store) (id : InstanceID)
    (inst : Instance) : Prop where
  row : st.instances id = some inst
  lease : inst.leaseUntil = t + p.leaseDuration
  live : inst.retiredAt = none

/-- A lease ends at most its duration from now, and a retired owner's has
ended. -/
structure RowOk (p : LeaseParams) (t : Time) (inst : Instance) : Prop where
  lease : inst.leaseUntil ≤ t + p.leaseDuration
  retired : inst.retiredAt.isSome = true → inst.leaseUntil ≤ t

variable {inst : Instance}

/-- An owner that is not live has run out. -/
theorem RowOk.expired (h : RowOk p t inst) (hdead : inst.live t = false) : inst.leaseUntil ≤ t := by
  unfold Instance.live at hdead
  cases hr : inst.retiredAt with
  | some time => exact h.retired (by rw [hr]; rfl)
  | none =>
    rw [hr] at hdead
    simpa using hdead

theorem RowOk.later {t' : Time} (h : RowOk p t inst) (hle : t ≤ t') : RowOk p t' inst := by
  refine ⟨Int.le_trans h.lease (Int.add_le_add_right hle _), fun hr => ?_⟩
  exact Int.le_trans (h.retired hr) hle

theorem Untouched.rowOk (h : Untouched t st st' id)
    (hok : ∀ inst, st.instances id = some inst → RowOk p t inst) :
    ∀ inst, st'.instances id = some inst → RowOk p t inst := by
  intro inst hinst
  cases h with
  | same h =>
    rw [h] at hinst
    exact hok inst hinst
  | retired old h hdead h' =>
    rw [h'] at hinst
    cases hinst
    have hold := hok old h
    exact ⟨hold.lease, fun _ => hold.expired hdead⟩
  | removed old h hdead h' =>
    rw [h'] at hinst
    cases hinst

theorem Untouched.none (h : Untouched t st st' id) (hnone : st.instances id = none) :
    st'.instances id = none := by
  cases h with
  | same h => exact h.trans hnone
  | retired old h hdead h' => cases h.symm.trans hnone
  | removed old h hdead h' => exact h'

theorem RenewedAt.rowOk (h : RenewedAt p t st id inst) : RowOk p t inst := by
  refine ⟨Int.le_of_eq h.lease, fun hr => ?_⟩
  rw [h.live] at hr
  cases hr

/-- The lease holds until the instant `deadline` of the recorder's clock, or
that has passed. -/
def GoodUntil (p : LeaseParams) (now : Time) (st : Store) (id : InstanceID) (deadline : Time) :
    Prop :=
  deadline ≤ now ∨ ∃ inst, st.instances id = some inst ∧ deadline + p.skew ≤ inst.leaseUntil

variable {now deadline : Time}

theorem GoodUntil.later {now' : Time} (h : GoodUntil p now st id deadline) (hle : now ≤ now') :
    GoodUntil p now' st id deadline :=
  h.imp_left fun hpast => Int.le_trans hpast hle

theorem GoodUntil.sooner {deadline' : Time} (h : GoodUntil p now st id deadline)
    (hle : deadline' ≤ deadline) : GoodUntil p now st id deadline' := by
  rcases h with hpast | ⟨inst, hinst, hlease⟩
  · exact .inl (Int.le_trans hle hpast)
  · exact .inr ⟨inst, hinst, Int.le_trans (Int.add_le_add_right hle _) hlease⟩

theorem GoodUntil.untouched (h : GoodUntil p now st id deadline)
    (hmove : Untouched (now + p.skew) st st' id)
    (hok : ∀ inst, st.instances id = some inst → RowOk p (now + p.skew) inst) :
    GoodUntil p now st' id deadline := by
  rcases h with hpast | ⟨inst, hinst, hlease⟩
  · exact .inl hpast
  · -- a row that is retired or removed has run out
    have hpast : inst.live (now + p.skew) = false → deadline ≤ now := fun hdead =>
      Int.le_of_add_le_add_right (Int.le_trans hlease ((hok inst hinst).expired hdead))
    cases hmove with
    | same h => exact .inr ⟨inst, h.trans hinst, hlease⟩
    | retired old h hdead _ | removed old h hdead _ =>
      cases h.symm.trans hinst
      exact .inl (hpast hdead)

theorem GoodUntil.renewed (h : GoodUntil p now st id deadline)
    (hrenewed : RenewedAt p (now + p.skew) st' id inst)
    (hok : ∀ inst, st.instances id = some inst → RowOk p (now + p.skew) inst) :
    GoodUntil p now st' id deadline := by
  rcases h with hpast | ⟨old, hold, hlease⟩
  · exact .inl hpast
  · refine .inr ⟨inst, hrenewed.row, ?_⟩
    rw [hrenewed.lease]
    exact Int.le_trans hlease (hok old hold).lease

variable {started : Time}

/-- A lease written now is good for its duration from any earlier instant. -/
theorem RenewedAt.goodUntil (h : RenewedAt p (now + p.skew) st id inst) (hle : started ≤ now) :
    GoodUntil p now st id (started + p.leaseDuration) := by
  refine .inr ⟨inst, h.row, ?_⟩
  rw [h.lease]
  have hstart : started + p.leaseDuration + p.skew = started + p.skew + p.leaseDuration := by
    rw [Int.add_assoc, Int.add_comm p.leaseDuration, ← Int.add_assoc]
  rw [hstart]
  exact Int.add_le_add_right (Int.add_le_add_right hle _) _

/-! ### The transactions of others. -/

theorem cleanup_untouched (cfg : Config) (n : Nat) (backfilled : Bool) :
    Untouched t st (st.cleanup cfg t n backfilled) id := by
  unfold Store.cleanup
  split
  · exact .same rfl
  · next o v _ =>
    split
    · exact .same rfl
    · split
      · exact .same rfl
      · split
        · split
          · exact .same rfl
          · next ow owner hsome =>
            split
            · exact .same rfl
            · next hdead =>
              split
              · by_cases hid : id = ow
                · subst hid
                  obtain ⟨ow', -, hmap⟩ := bind_eq_some_iff.mp hsome
                  obtain ⟨owner', hs, hpair⟩ := map_eq_some_iff.mp hmap
                  cases hpair
                  exact .retired owner hs (by simpa using hdead) (if_pos rfl)
                · exact .same (if_neg hid)
              · exact .same rfl
        · exact .same rfl

theorem cleanupInstance_untouched (ow : InstanceID) :
    Untouched t st (st.cleanupInstance t ow) id := by
  unfold Store.cleanupInstance
  split
  · exact .same rfl
  · next owner hs =>
    split
    · exact .same rfl
    · next hdead =>
      by_cases hid : id = ow
      · subst hid
        refine .removed owner hs ?_ (if_pos rfl)
        simpa using fun hlive : owner.live t = true => hdead (by rw [hlive]; rfl)
      · exact .same (if_neg hid)

theorem tableStep_untouched {op : TableOp} (h : op.leaseOf ≠ some id) :
    Untouched op.instant st (tableStep st op) id := by
  cases op with
  | txn cfg txn => exact .same (storeStep_instances txn h)
  | cleanup cfg now n backfilled => exact cleanup_untouched cfg n backfilled
  | cleanupInstance now ow => exact cleanupInstance_untouched ow

/-! ### The owner's statements. -/

theorem runWrite_ne {wr : OwnerWrite} (hne : id ≠ wr.id) :
    (s.runWrite p wr).1.instances id = s.store.instances id := by
  obtain ⟨kind, id', answer⟩ := wr
  cases kind with
  | register =>
    have h : (storeStep p.cfg s.store (.register (s.dbNow p) id')).instances id =
        s.store.instances id :=
      storeStep_instances _ fun heq => hne (some.inj heq).symm
    simp only [LeaseState.runWrite]
    simp only [storeStep] at h
    cases hres : s.store.registerInstance p.cfg (s.dbNow p) id' with
    | ok st =>
      rw [hres] at h
      exact h
    | error e => rfl
  | heartbeat =>
    have h : (storeStep p.cfg s.store (.heartbeat (s.dbNow p) id')).instances id =
        s.store.instances id :=
      storeStep_instances _ fun heq => hne (some.inj heq).symm
    simp only [LeaseState.runWrite]
    simp only [storeStep] at h
    cases hres : s.store.heartbeat p.cfg (s.dbNow p) id' with
    | ok st =>
      rw [hres] at h
      exact h
    | error e => rfl

/-- A statement leaves the owner's row, or writes its lease; it succeeds
without writing it only as a registration that finds the row. -/
theorem runWrite_self (p : LeaseParams) (s : LeaseState) (wr : OwnerWrite) :
    ((s.runWrite p wr).1.instances wr.id = s.store.instances wr.id ∧
      ((s.runWrite p wr).2 = none → wr.kind = .register ∧ s.store.instances wr.id ≠ none)) ∨
    ((s.runWrite p wr).2 = none ∧
      ∃ inst, RenewedAt p (s.dbNow p) (s.runWrite p wr).1 wr.id inst) := by
  obtain ⟨kind, id, answer⟩ := wr
  cases kind with
  | register =>
    simp only [LeaseState.runWrite, Store.registerInstance]
    cases hrow : s.store.instances id with
    | none =>
      by_cases href : s.store.referenced id = true
      · refine .inl ⟨?_, fun h => ?_⟩
        · simp [href, hrow]
        · simp [href] at h
      · refine .inr ⟨?_, ⟨s.dbNow p, s.dbNow p + p.cfg.leaseDuration, none⟩, ?_, rfl, rfl⟩
        · simp [href]
        · simp [href, Store.setInstance]
    | some inst =>
      refine .inl ⟨?_, fun _ => ⟨trivial, fun h => by cases h⟩⟩
      cases hlock : s.store.lockOwner (s.dbNow p) id true with
      | ok owner | error e => simp [Except.map, hrow]
  | heartbeat =>
    simp only [LeaseState.runWrite, Store.heartbeat]
    cases hlock : s.store.lockOwner (s.dbNow p) id false with
    | error e => exact .inl ⟨rfl, fun h => by cases h⟩
    | ok owner =>
      refine .inr ⟨rfl, _, if_pos rfl, rfl, ?_⟩
      -- a retired owner is refused
      unfold Store.lockOwner at hlock
      split at hlock
      · cases hlock
      · next inst hrow =>
        split at hlock
        · cases hlock
        · next hlive =>
          cases hlock
          simpa using hlive

/-! ## §3. The invariant. -/

/-- What holds of the goroutine where it stands. -/
def CallOk (p : LeaseParams) (s : LeaseState) : OwnerPC → Prop
  | .idle => True
  | .registering => s.store.instances s.owner = none ∧ ∀ wr ∈ s.writes, wr.id ≠ s.owner
  | .calling kind id started i =>
    id = s.owner ∧ started ≤ s.now ∧ ∃ wr, s.writes[i]? = some wr ∧ wr.kind = kind ∧
      wr.id = id ∧
      (wr.answer = some none → GoodUntil p s.now s.store id (started + p.leaseDuration)) ∧
      -- a registration that has not run will make the row
      (kind = .register → wr.answer = none → s.store.instances id = none ∧
        ∀ j wr', s.writes[j]? = some wr' → wr'.id = id → j = i)
  | .returned _ id started res =>
    id = s.owner ∧
      (res = none → GoodUntil p s.now s.store id (started + p.leaseDuration))

structure LeaseInv (p : LeaseParams) (s : LeaseState) : Prop where
  owner : s.owner ∈ s.drawn
  writes : ∀ wr ∈ s.writes, wr.id ∈ s.drawn
  rows : ∀ id ∈ s.drawn, ∀ inst, s.store.instances id = some inst → RowOk p (s.dbNow p) inst
  confirmed : ∀ deadline, s.confirmedUntil = some deadline →
    GoodUntil p s.now s.store s.owner deadline
  call : CallOk p s s.pc

section

variable (h : LeaseInv p s)
include h

theorem LeaseInv.tick (d : Nat) : LeaseInv p { s with now := s.now + d } := by
  have hle : s.now ≤ s.now + d := Int.le_add_of_nonneg_right (Int.natCast_nonneg d)
  refine ⟨h.owner, h.writes, fun id hid inst hinst => ?_, fun u hu => (h.confirmed u hu).later hle, ?_⟩
  · exact (h.rows id hid inst hinst).later (Int.add_le_add_right hle _)
  · have hcall := h.call
    show CallOk p _ s.pc
    cases hpc : s.pc with
    | idle => trivial
    | registering =>
      rw [hpc] at hcall
      exact hcall
    | calling kind id started i =>
      rw [hpc] at hcall
      obtain ⟨hid, hstart, wr, hwr, hkind, hwid, hgood, hfresh⟩ := hcall
      exact ⟨hid, Int.le_trans hstart hle, wr, hwr, hkind, hwid,
        fun hans => (hgood hans).later hle, hfresh⟩
    | returned kind id started res =>
      rw [hpc] at hcall
      exact ⟨hcall.1, fun hres => (hcall.2 hres).later hle⟩

/-- Transactions of others leave our leases, or they have run out. -/
theorem LeaseInv.table (hmove : ∀ id ∈ s.drawn, Untouched (s.dbNow p) s.store st' id) :
    LeaseInv p { s with store := st' } := by
  have hgood : ∀ id ∈ s.drawn, ∀ deadline, GoodUntil p s.now s.store id deadline →
      GoodUntil p s.now st' id deadline := fun id hid _ hg =>
    hg.untouched (hmove id hid) (h.rows id hid)
  refine ⟨h.owner, h.writes, fun id hid => (hmove id hid).rowOk (h.rows id hid),
    fun u hu => hgood _ h.owner u (h.confirmed u hu), ?_⟩
  have hcall := h.call
  show CallOk p _ s.pc
  cases hpc : s.pc with
  | idle => trivial
  | registering =>
    rw [hpc] at hcall
    exact ⟨(hmove _ h.owner).none hcall.1, hcall.2⟩
  | calling kind id started i =>
    rw [hpc] at hcall
    obtain ⟨rfl, hstart, wr, hwr, hkind, hwid, hrenewed, hfresh⟩ := hcall
    refine ⟨rfl, hstart, wr, hwr, hkind, hwid, fun hans => hgood _ h.owner _ (hrenewed hans),
      fun hk hans => ?_⟩
    obtain ⟨hnone, hother⟩ := hfresh hk hans
    exact ⟨(hmove _ h.owner).none hnone, hother⟩
  | returned kind id started res =>
    rw [hpc] at hcall
    obtain ⟨rfl, hrenewed⟩ := hcall
    exact ⟨rfl, fun hres => hgood _ h.owner _ (hrenewed hres)⟩

/-- **A statement of ours runs.** -/
theorem LeaseInv.commit {i : Nat} {wr : OwnerWrite}
    (hi : s.writes[i]? = some wr) (hsent : wr.answer = none) :
    LeaseInv p { s with
      store := (s.runWrite p wr).1
      writes := s.writes.set i { wr with answer := some (s.runWrite p wr).2 } } := by
  have hmem : wr ∈ s.writes := List.mem_of_getElem? hi
  have hlen := (List.getElem?_eq_some_iff.1 hi).1
  have hgood : ∀ id ∈ s.drawn, ∀ deadline, GoodUntil p s.now s.store id deadline →
      GoodUntil p s.now (s.runWrite p wr).1 id deadline := by
    intro id hid deadline hg
    by_cases hne : id = wr.id
    · subst hne
      rcases runWrite_self p s wr with ⟨hsame, -⟩ | ⟨-, inst, hrenewed⟩
      · exact hg.untouched (.same hsame) (h.rows _ hid)
      · exact hg.renewed hrenewed (h.rows _ hid)
    · exact hg.untouched (.same (runWrite_ne hne)) (h.rows _ hid)
  refine ⟨h.owner, fun wr' hwr' => ?_, fun id hid inst hinst => ?_,
    fun u hu => hgood _ h.owner u (h.confirmed u hu), ?_⟩
  · rcases mem_or_eq_of_mem_set hwr' with hold | rfl
    · exact h.writes wr' hold
    · exact h.writes wr hmem
  · by_cases hne : id = wr.id
    · subst hne
      rcases runWrite_self p s wr with ⟨hsame, -⟩ | ⟨-, inst', hrenewed⟩
      · exact h.rows _ hid inst (hsame.symm.trans hinst)
      · cases hrenewed.row.symm.trans hinst
        exact hrenewed.rowOk
    · exact h.rows id hid inst ((runWrite_ne hne).symm.trans hinst)
  · have hcall := h.call
    show CallOk p _ s.pc
    cases hpc : s.pc with
    | idle => trivial
    | registering =>
      rw [hpc] at hcall
      have hne : s.owner ≠ wr.id := Ne.symm (hcall.2 wr hmem)
      refine ⟨(runWrite_ne hne).trans hcall.1, fun wr' hwr' => ?_⟩
      rcases mem_or_eq_of_mem_set hwr' with hold | rfl
      · exact hcall.2 wr' hold
      · exact hcall.2 wr hmem
    | calling kind id started k =>
      rw [hpc] at hcall
      obtain ⟨rfl, hstart, wr₀, hwr₀, hkind, hwid, hrenewed, hfresh⟩ := hcall
      by_cases hik : i = k
      · -- the statement of the call itself
        subst hik
        cases hi.symm.trans hwr₀
        refine ⟨rfl, hstart, _, getElem?_set_self hlen, hkind, hwid, fun hans => ?_,
          nofun⟩
        have hok : (s.runWrite p wr).2 = none := some.inj hans
        rw [← hwid]
        rcases runWrite_self p s wr with ⟨-, hfound⟩ | ⟨-, inst, hnew⟩
        · obtain ⟨hregister, hrow⟩ := hfound hok
          rw [hwid] at hrow
          exact absurd (hfresh (hkind.symm.trans hregister) hsent).1 hrow
        · exact hnew.goodUntil hstart
      · refine ⟨rfl, hstart, wr₀, (getElem?_set_ne hik).trans hwr₀, hkind, hwid,
          fun hans => hgood _ h.owner _ (hrenewed hans), fun hk hans => ?_⟩
        obtain ⟨hnone, hother⟩ := hfresh hk hans
        have hne : s.owner ≠ wr.id := fun heq => hik (hother i wr hi heq.symm)
        refine ⟨(runWrite_ne hne).trans hnone, fun j wr' hj hid => ?_⟩
        rcases getElem?_set_cases hj with ⟨-, rfl⟩ | ⟨-, hold⟩
        · exact absurd hid.symm hne
        · exact hother j wr' hold hid
    | returned kind id started res =>
      rw [hpc] at hcall
      obtain ⟨rfl, hrenewed⟩ := hcall
      exact ⟨rfl, fun hres => hgood _ h.owner _ (hrenewed hres)⟩

theorem LeaseInv.issue (kind : OwnerKind) (slot : Bool)
    (hfresh : kind = .register → s.store.instances s.owner = none ∧
      ∀ wr ∈ s.writes, wr.id ≠ s.owner) : LeaseInv p (s.issue kind slot) := by
  cases slot with
  | false => exact ⟨h.owner, h.writes, h.rows, h.confirmed, rfl, nofun⟩
  | true =>
    refine ⟨h.owner, fun wr hwr => ?_, h.rows, h.confirmed, rfl, Int.le_refl _, _,
      getElem?_concat_length, rfl, rfl, nofun, fun hk _ => ?_⟩
    · rcases mem_append.1 hwr with hold | hnew
      · exact h.writes wr hold
      · cases mem_singleton.1 hnew
        exact h.owner
    · obtain ⟨hnone, hother⟩ := hfresh hk
      refine ⟨hnone, fun j wr' hj hid => ?_⟩
      rcases getElem?_concat_cases hj with hold | ⟨hlast, -⟩
      · exact absurd hid (hother wr' (mem_of_getElem? hold))
      · exact hlast

/-- The goroutine is through with its call. -/
theorem LeaseInv.rest : LeaseInv p { s with pc := .idle } :=
  { h with call := trivial }

/-- **The deadline that is noted in time is no later than the lease.** -/
theorem LeaseInv.confirm (hgood : GoodUntil p s.now s.store s.owner (started + p.leaseDuration))
    (hprompt : s.now ≤ started + p.writeTimeout) : LeaseInv p (s.confirm p s.owner) := by
  unfold LeaseState.confirm
  rw [if_pos rfl]
  refine ⟨h.owner, h.writes, h.rows, fun u hu => ?_, trivial⟩
  cases hu
  refine hgood.sooner ?_
  change @LE.le Int _ _ _ at hprompt ⊢
  omega

theorem LeaseInv.rotate {fresh : InstanceID} (hnew : fresh ∉ s.drawn)
    (hnone : s.store.instances fresh = none) : LeaseInv p (s.rotate s.owner fresh) := by
  unfold LeaseState.rotate
  rw [if_pos rfl]
  refine ⟨mem_cons_self, fun wr hwr => mem_cons_of_mem _ (h.writes wr hwr),
    fun id hid inst hinst => ?_, nofun, hnone, fun wr hwr heq => ?_⟩
  · rcases mem_cons.1 hid with rfl | hid
    · cases hnone.symm.trans hinst
    · exact h.rows id hid inst hinst
  · have hid : wr.id = fresh := heq
    exact hnew (hid ▸ h.writes wr hwr)

end

/-! ## §4. Every prompt step keeps it. -/

/-- The call that waits to be settled began more than the write timeout ago. -/
def LeaseState.overdue (p : LeaseParams) (s : LeaseState) : Bool :=
  match s.pc with
  | .returned _ _ started _ => decide (started + p.writeTimeout < s.now)
  | _ => false

/-- A call is settled within the write timeout of its start. -/
def Prompt (p : LeaseParams) (s : LeaseState) (l : LeaseLabel) : Prop :=
  l.settles = true → s.overdue p = false

instance (p : LeaseParams) (s : LeaseState) (l : LeaseLabel) : Decidable (Prompt p s l) :=
  inferInstanceAs (Decidable (_ → _))

theorem leaseInv_settle (h : LeaseInv p s) {kind : OwnerKind}
    {res : Option OwnerError} (hpc : s.pc = .returned kind id started res)
    (hprompt : s.now ≤ started + p.writeTimeout) {fresh : InstanceID} (hnew : fresh ∉ s.drawn)
    (hnone : s.store.instances fresh = none) : LeaseInv p (s.settle p fresh kind id res) := by
  have hcall := h.call
  rw [hpc] at hcall
  obtain ⟨rfl, hgood⟩ := hcall
  cases res with
  | none =>
    have hconfirm := h.confirm (hgood rfl) hprompt
    cases kind <;> exact hconfirm
  | some e =>
    cases kind with
    | register => exact h.rest
    | heartbeat =>
      show LeaseInv p (if e.isPermanent then _ else _)
      by_cases hperm : e.isPermanent = true
      · rw [if_pos hperm]
        exact h.rotate hnew hnone
      · rw [if_neg hperm]
        exact h.rest

theorem leaseInv_step (s : LeaseState) (l : LeaseLabel) (s' : LeaseState) (hprompt : Prompt p s l)
    (h : LeaseInv p s) (hstep : leaseStep p s l = some s') : LeaseInv p s' := by
  cases l <;> simp only [leaseStep] at hstep
  case tick d =>
    cases hstep
    exact h.tick d
  case table op =>
    split at hstep
    · next hop =>
      cases hstep
      refine h.table fun id hid => ?_
      rw [← hop.1]
      refine tableStep_untouched fun hlease => ?_
      have hours := hop.2
      rw [hlease] at hours
      exact of_decide_eq_true hours hid
    · cases hstep
  case register slot =>
    split at hstep
    · next hpc =>
      cases hstep
      have hcall := h.call
      rw [hpc] at hcall
      exact h.issue .register slot fun _ => hcall
    · cases hstep
  case heartbeat slot =>
    split at hstep
    · cases hstep
      exact h.issue .heartbeat slot nofun
    · cases hstep
  case commit i =>
    obtain ⟨wr, hi, hstep⟩ := bind_eq_some_iff.1 hstep
    split at hstep
    · cases hstep
    · next hsent =>
      cases hstep
      exact h.commit hi (by simpa using hsent)
  case ret res =>
    split at hstep
    · next kind id started i hpc =>
      split at hstep
      · next hok =>
        cases hstep
        have hcall := h.call
        rw [hpc] at hcall
        obtain ⟨hid, -, wr, hwr, -, -, hgood, -⟩ := hcall
        refine ⟨h.owner, h.writes, h.rows, h.confirmed, hid, fun hres => hgood ?_⟩
        -- success is reported only of a statement that succeeded
        have hreports := hok.1
        rw [hwr, hres] at hreports
        exact of_decide_eq_true hreports
      · cases hstep
    · cases hstep
  case settle fresh =>
    split at hstep
    · next kind id started res hpc =>
      split at hstep
      · cases hstep
      · next hfresh =>
        cases hstep
        obtain ⟨hnew, hnone⟩ := not_or.1 hfresh
        have hintime : s.now ≤ started + p.writeTimeout := by
          have hdue := hprompt rfl
          unfold LeaseState.overdue at hdue
          rw [hpc] at hdue
          exact Int.not_lt.1 (of_decide_eq_false hdue)
        exact leaseInv_settle h hpc hintime hnew (by simpa using hnone)
    · cases hstep
  case begin allowed =>
    split at hstep
    · cases hstep
      exact { h with }
    · cases hstep
      exact h

theorem leaseInv_initial (h : s.Initial) : LeaseInv p s := by
  refine ⟨?_, fun wr hwr => ?_, fun id hid inst hinst => ?_, fun u hu => ?_, ?_⟩
  · rw [h.drawn]
    exact mem_singleton_self _
  · rw [h.writes] at hwr
    cases hwr
  · rw [h.drawn] at hid
    rw [mem_singleton.1 hid, h.unregistered] at hinst
    cases hinst
  · rw [h.confirmedUntil] at hu
    cases hu
  · rw [h.pc]
    refine ⟨h.unregistered, fun wr hwr => ?_⟩
    rw [h.writes] at hwr
    cases hwr

/-! ## §5. The result. -/

/-- The stored lease of the owner has not run out. -/
def LeaseLive (p : LeaseParams) (s : LeaseState) (id : InstanceID) : Prop :=
  ∃ inst, s.store.instances id = some inst ∧ s.dbNow p < inst.leaseUntil

theorem leaseLive_of_admits (h : LeaseInv p s) (hadmits : s.admits = true) :
    LeaseLive p s s.owner := by
  cases hu : s.confirmedUntil with
  | none =>
    unfold LeaseState.admits at hadmits
    rw [hu] at hadmits
    cases hadmits
  | some deadline =>
    unfold LeaseState.admits at hadmits
    rw [hu] at hadmits
    have hbefore : s.now < deadline := of_decide_eq_true hadmits
    rcases h.confirmed deadline hu with hpast | ⟨inst, hinst, hlease⟩
    · exact absurd (Int.lt_of_lt_of_le hbefore hpast) (Int.lt_irrefl _)
    · exact ⟨inst, hinst, Int.lt_of_lt_of_le (Int.add_lt_add_right hbefore _) hlease⟩

/-- **The recorder trusts no expired lease** while its owner calls are settled
within the write timeout of their start: in every run of registrations,
heartbeats, transactions of others and `Begin` calls in which they are, an
operation that `Begin` admits is stamped with an owner whose stored lease has
not run out at that instant. -/
theorem begin_within_lease (p : LeaseParams) (s₀ : LeaseState) (ls : List LeaseLabel)
    (s : LeaseState) (hinit : s₀.Initial) (hrun : (leaseSystem p).run s₀ ls = some s)
    (hprompt : (leaseSystem p).Along (Prompt p) s₀ ls) (allowed : Bool) (s' : LeaseState)
    (hbegin : leaseStep p s (.begin allowed) = some s') (hadmitted : s'.begun ≠ s.begun) :
    s'.begun = s.owner :: s.begun ∧ LeaseLive p s s.owner := by
  have hinv : LeaseInv p s := System.along_invariant (I := LeaseInv p) leaseInv_step ls s₀ s hprompt
    (leaseInv_initial hinit) hrun
  simp only [leaseStep] at hbegin
  split at hbegin
  · next hadmits =>
    cases hbegin
    exact ⟨rfl, leaseLive_of_admits hinv (Bool.and_eq_true_iff.1 hadmits).1⟩
  · cases hbegin
    exact absurd rfl hadmitted

/-- The defaults: a lease of a minute, writes within 200 ms. -/
def leaseDefaults : LeaseParams := ⟨defaultConfig, 200000000, 0⟩

/-- `NewRecorder`. -/
def newLease : LeaseState where
  now := 0
  store := { logs := fun _ => none, order := [], instances := fun _ => none, nextID := 1 }
  owner := "hub"
  drawn := ["hub"]
  confirmedUntil := none
  writes := []
  pc := .registering
  begun := []

theorem newLease_initial : newLease.Initial := ⟨rfl, rfl, rfl, rfl, rfl, rfl⟩

/-- A registration that is settled at once, and an operation thirty seconds
later. -/
def promptRun : List LeaseLabel :=
  [.register true, .tick 100000000, .commit 0, .ret none, .settle "next", .tick 30000000000]

theorem begin_within_lease_registered :
    ∃ s s', (leaseSystem leaseDefaults).run newLease promptRun = some s ∧
      leaseStep leaseDefaults s (.begin true) = some s' ∧ s'.begun ≠ s.begun ∧
      LeaseLive leaseDefaults s s.owner := by
  have hprompt : (leaseSystem leaseDefaults).Along (Prompt leaseDefaults) newLease promptRun := by
    decide +kernel
  have hrun : ((leaseSystem leaseDefaults).run newLease promptRun).map (fun s =>
      (leaseStep leaseDefaults s (.begin true)).map fun s' => decide (s'.begun ≠ s.begun)) =
      some (some true) := by
    decide +kernel
  obtain ⟨s, hs, hnext⟩ := map_eq_some_iff.1 hrun
  obtain ⟨s', hs', hnew⟩ := map_eq_some_iff.1 hnext
  have hadmitted := of_decide_eq_true hnew
  exact ⟨s, s', hs, hs', hadmitted, (begin_within_lease leaseDefaults newLease promptRun s
    newLease_initial hs hprompt true s' hs' hadmitted).2⟩

/-- **A lease trusted after its end**: the registration has returned at once,
but the goroutine waits a second for the recorder's lock before it notes the
deadline.  Half a second after the lease has run out an operation is admitted. -/
theorem begin_after_lease_end :
    ∃ s s', (leaseSystem leaseDefaults).run newLease
        [.register true, .commit 0, .ret none, .tick 1000000000, .settle "next",
          .tick 59500000000] = some s ∧
      leaseStep leaseDefaults s (.begin true) = some s' ∧ s'.begun = [s.owner] ∧
      (s.store.instances s.owner).map (fun inst => decide (inst.leaseUntil ≤ s.dbNow leaseDefaults)) =
        some true :=
  ⟨_, _, rfl, rfl, rfl, by decide⟩

end Talus.Usage
