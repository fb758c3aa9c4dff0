/-
  Talus.ApiKey.Changes
  **OPTIMISTIC CONCURRENCY OF PERMISSION EDITS AND ROTATIONS.**

  An edit or a rotation carries the revision its caller has seen.  The row lock
  makes the row a transaction has read the current one until it ends
  (`LockInv`), so what it stages is a change of the current row by one
  revision; and what it has once landed keeps the revision of the row above
  the one it expected (`ChangeInv`).  Hence:

    • `key_changes_serial`: of the transactions with one expected revision at
      most one commits, each commit is one change of one row with one audit
      event, and what failed for a known reason or found nothing to change has
      committed nothing,
    • `unknown_commit_changes_key`: a COMMIT whose acknowledgement is lost is an
      error for the caller, and the change may be there all the same.

  The proofs go through `Effect`: what a step can do to the transactions, the
  database and its log, whatever it does to the gate.
-/
import Talus.ApiKey.System

namespace Talus.ApiKey

open Talus.Base List Option
open Talus.Admission (Gate Call CallOp Phase Kind Source Fate gateStep newGate)

/-! ## §1. Rows of the database. -/

variable {d : Db} {row : APIKey}

namespace Db

theorem find_lt {id : KeyID} (h : d.find id = some row) : id < d.keys.length := by
  unfold find at h
  by_cases hlt : id < d.keys.length
  · exact hlt
  · rw [getElem?_eq_none (Nat.le_of_not_lt hlt)] at h
    cases h

/-- Reading a row back after row `id` was replaced. -/
theorem find_set (d d' : Db) (id j : KeyID) (r : Option APIKey)
    (h : d'.keys = d.keys.set id r) (hid : id < d.keys.length) :
    d'.find j = if id = j then r else d.find j := by
  unfold find
  rw [h, getElem?_set]
  by_cases hj : id = j
  · rw [if_pos hj, if_pos hid, if_pos hj]
    rfl
  · rw [if_neg hj, if_neg hj]

theorem find_set_ne (d d' : Db) {id j : KeyID} (r : Option APIKey)
    (h : d'.keys = d.keys.set id r) (hne : id ≠ j) : d'.find j = d.find j := by
  unfold find
  rw [h, getElem?_set_ne hne]

theorem find_land_ne (d : Db) {id j : KeyID} (w : Write) (hne : id ≠ j) :
    (d.land id w).find j = d.find j := by
  cases w with
  | update c ev key | delete => exact find_set_ne d _ _ rfl hne

theorem find_land_update {id : KeyID} (c : Columns) (ev : AuditEvent)
    (key : APIKey) (h : d.find id = some row) :
    (d.land id (.update c ev key)).find id = some (c.apply row) := by
  rw [find_set d (d.land id (.update c ev key)) id id _ rfl (find_lt h), if_pos rfl, h]
  rfl

theorem find_land_delete (d : Db) (id : KeyID) : (d.land id .delete).find id = none := by
  unfold find land
  rw [getElem?_set_self']
  cases d.keys[id]? <;> rfl

theorem length_land (d : Db) (id : KeyID) (w : Write) :
    (d.land id w).keys.length = d.keys.length := by
  cases w <;> exact length_set

theorem find_bindUnowned (d : Db) (locked : KeyID → Bool) (admin : Nat) (id : KeyID) :
    (d.bindUnowned locked admin).find id = d.find id ∨
      (locked id = false ∧ (d.bindUnowned locked admin).find id =
        (d.find id).map fun k => { k with userID := admin, ownerBindingVersion := 1 }) := by
  unfold find bindUnowned
  rw [getElem?_mapIdx]
  cases hr : d.keys[id]? with
  | none => exact .inl rfl
  | some r =>
    show (if _ then _ else r) = r ∨ _ ∧ (if _ then _ else r) = _
    split
    · next hb =>
      -- the batch has only unlocked rows
      have hunlocked := (mem_filter.mp (mem_of_mem_take hb)).2
      rw [Bool.and_eq_true, Bool.not_eq_true'] at hunlocked
      exact .inr ⟨hunlocked.2, rfl⟩
    · exact .inl rfl

theorem find_append (d d' : Db) (key : APIKey) (h : d'.keys = d.keys ++ [some key])
    {id : KeyID} (hid : id < d.keys.length) : d'.find id = d.find id := by
  unfold find
  rw [h, getElem?_append_left hid]

end Db

/-! ## §2. Revisions only rise. -/

/-- The two rows admit the same secret to the same things. -/
def SamePolicy (r r' : APIKey) : Prop :=
  r'.keyHash = r.keyHash ∧ r'.scopes = r.scopes ∧ r'.serverIDs = r.serverIDs

/-- A key that is still there has a higher revision, or the same and then the
same policy; ids are not used again. -/
structure Forward (d d' : Db) : Prop where
  length_le : d.keys.length ≤ d'.keys.length
  row : ∀ id, id < d.keys.length → ∀ r', d'.find id = some r' → ∃ r, d.find id = some r ∧
    (r.permissionsRevision < r'.permissionsRevision
      ∨ r.permissionsRevision = r'.permissionsRevision ∧ SamePolicy r r')

/-- Every row that was there keeps its revision and its policy. -/
structure Keeps (d d' : Db) : Prop where
  length_le : d.keys.length ≤ d'.keys.length
  row : ∀ id, id < d.keys.length → ∀ r', d'.find id = some r' → ∃ r, d.find id = some r
    ∧ r.permissionsRevision = r'.permissionsRevision ∧ SamePolicy r r'

variable {d' : Db}

theorem Keeps.forward (h : Keeps d d') : Forward d d' where
  length_le := h.length_le
  row id hid r' hr' :=
    let ⟨r, hr, hsame⟩ := h.row id hid r' hr'
    ⟨r, hr, .inr hsame⟩

theorem keeps_of_find (hlen : d.keys.length ≤ d'.keys.length)
    (h : ∀ id, id < d.keys.length → d'.find id = d.find id) : Keeps d d' where
  length_le := hlen
  row id hid r' hr' := ⟨r', h id hid ▸ hr', rfl, rfl, rfl, rfl⟩

theorem Forward.refl (d : Db) : Forward d d :=
  (keeps_of_find (Nat.le_refl _) fun _ _ => rfl).forward

theorem keeps_bindUnowned (d : Db) (locked : KeyID → Bool) (admin : Nat) :
    Keeps d (d.bindUnowned locked admin) := by
  constructor
  · exact Nat.le_of_eq (length_mapIdx).symm
  · intro id _ r' hr'
    obtain hf | ⟨_, hf⟩ := d.find_bindUnowned locked admin id
    · exact ⟨r', hf ▸ hr', rfl, rfl, rfl, rfl⟩
    · rw [hf] at hr'
      obtain ⟨r, hr, rfl⟩ := map_eq_some_iff.mp hr'
      exact ⟨r, hr, rfl, rfl, rfl, rfl⟩

theorem keeps_migrateSecret (d : Db) (id : KeyID) (salt raw : Bytes) :
    Keeps d (d.migrateSecret id salt raw) := by
  constructor
  · exact Nat.le_of_eq (length_set).symm
  · intro j hj r' hr'
    by_cases hne : id = j
    · subst hne
      rw [Db.find_set d (d.migrateSecret id salt raw) id id _ rfl hj, if_pos rfl] at hr'
      obtain ⟨r, hr, rfl⟩ := map_eq_some_iff.mp hr'
      exact ⟨r, hr, rfl, rfl, rfl, rfl⟩
    · rw [Db.find_set_ne d (d.migrateSecret id salt raw) _ rfl hne] at hr'
      exact ⟨r', hr', rfl, rfl, rfl, rfl⟩

/-! ## §3. What a transaction stages. -/

/-- The mutation turns `row` into `row'`. -/
def Mutation.Planned (row row' : APIKey) : Mutation → Prop
  | .edit input => Edited input row row'
  | .rotate expectedRevision material => Rotated expectedRevision material row row'
  | .delete => False

theorem Mutation.Planned.raised {m : Mutation} {row' : APIKey} (h : m.Planned row row') :
    row'.permissionsRevision = row.permissionsRevision + 1 := by
  cases m with
  | edit input => exact Edited.raised h
  | rotate e material => exact Rotated.raised h
  | delete => exact absurd h id

theorem Mutation.Planned.expected {m : Mutation} {row' : APIKey} (h : m.Planned row row') :
    m.expected? = some row.permissionsRevision := by
  cases m with
  | edit input => exact congrArg some (Edited.expected h).symm
  | rotate e material => exact congrArg some (Rotated.expected h).symm
  | delete => exact absurd h id

/-- What is staged is a change of the row the database holds. -/
def Staged (d : Db) (tx : Tx) : Write → Prop
  | .update c ev _ => ∃ row, d.find tx.id = some row
      ∧ tx.mutation.Planned row (c.apply row) ∧ ev.resourceID = tx.id
  | .delete => tx.mutation = .delete

/-- A transaction between its lock and its end agrees with the database. -/
def TxOk (d : Db) (tx : Tx) : Prop :=
  match tx.phase with
  | .locked row => d.find tx.id = some row
  | .writing _ w | .inDoubt w => Staged d tx w
  | .queued | .ended _ => True

variable {tx : Tx} {ph : TxPhase}

/-- The outcome of the callback. -/
theorem decide_cases {servers : List ServerID} {now : Int} (h : tx.decide servers now row = some ph) :
    (∃ e, ph = .ended (.failed (.app e))) ∨ ph = .ended (.unchanged row) ∨
      ∃ c ev key, ph = .writing .update (.update c ev key)
        ∧ tx.mutation.Planned row (c.apply row) ∧ ev.resourceID = tx.id := by
  unfold Tx.decide at h
  cases hm : tx.mutation with
  | edit input =>
    rw [hm] at h
    dsimp only at h
    split at h
    · next e _ => exact .inl ⟨e, (some.inj h).symm⟩
    · exact .inr (.inl (some.inj h).symm)
    · next key ev hc =>
      exact .inr (.inr ⟨_, ev, _, (some.inj h).symm, edited_of_change hc now,
        (changePermissions_some hc).2.2.2.2.2⟩)
  | rotate expectedRevision material =>
    rw [hm] at h
    dsimp only at h
    split at h
    · next e _ => exact .inl ⟨e, (some.inj h).symm⟩
    · next ev ha =>
      exact .inr (.inr ⟨_, ev, _, (some.inj h).symm, rotated_of_audit ha material,
        (auditRotation_ok ha).2⟩)
  | delete =>
    rw [hm] at h
    cases h

/-- The steps of a transaction, with the guards under which it takes them. -/
inductive TxMove (d : Db) (locked : Bool) (tx : Tx) : TxPhase × Option Write → Prop
  /-- the lock is taken, or the row is missing -/
  | lockDelete (hq : tx.phase = .queued) (hl : locked = false) (hm : tx.mutation = .delete) :
      TxMove d locked tx (.writing .commit .delete, none)
  | lockRow (row : APIKey) (hq : tx.phase = .queued) (hl : locked = false)
      (hf : d.find tx.id = some row) : TxMove d locked tx (.locked row, none)
  | decide (now : Int) (row : APIKey) (ph : TxPhase) (hp : tx.phase = .locked row)
      (hd : tx.decide d.servers now row = some ph) : TxMove d locked tx (ph, none)
  | write (stage stage' : Stage) (w : Write) (hp : tx.phase = .writing stage w) :
      TxMove d locked tx (.writing stage' w, none)
  /-- a known failure of a transaction that has not ended -/
  | fail (e : RepoError) (hp : ∀ r, tx.phase ≠ .ended r) :
      TxMove d locked tx (.ended (.failed e), none)
  | commit (w : Write) (out : CommitOutcome) (hp : tx.phase = .writing .commit w) :
      TxMove d locked tx (out.phase w, if out.lands then some w else none)
  | resolve (w : Write) (landed : Bool) (hp : tx.phase = .inDoubt w) :
      TxMove d locked tx (.ended .unknown, if landed then some w else none)

variable {locked : Bool} {r : TxPhase × Option Write}

theorem txStep_move {op : TxOp} (h : txStep d locked tx op = some r) : TxMove d locked tx r := by
  cases op <;> simp only [txStep] at h
  case lock =>
    split at h
    · next hg =>
      split at h
      · next hm => exact some.inj h ▸ .lockDelete hg.1 hg.2 hm
      · split at h
        · have hp : ∀ r, tx.phase ≠ .ended r := fun r hr => by
            rw [hg.1] at hr
            cases hr
          exact some.inj h ▸ .fail .notFound hp
        · next row hf => exact some.inj h ▸ .lockRow row hg.1 hg.2 hf
    · cases h
  case decide now =>
    split at h
    · next row hp =>
      obtain ⟨ph, hd, rfl⟩ := map_eq_some_iff.mp h
      exact .decide now row ph hp hd
    · cases h
  case write =>
    split at h
    · next w hp => exact some.inj h ▸ .write .update .audit w hp
    · next w hp => exact some.inj h ▸ .write .audit .commit w hp
    · cases h
  case fail =>
    split at h
    · next hp => exact some.inj h ▸ .fail .other (by simp [hp])
    · next row hp => exact some.inj h ▸ .fail .other (by simp [hp])
    · next stage w hp => exact some.inj h ▸ .fail _ (by simp [hp])
    · cases h
  case commit out =>
    split at h
    · next w hp => exact some.inj h ▸ .commit w out hp
    · cases h
  case resolve landed =>
    split at h
    · next w hp => exact some.inj h ▸ .resolve w landed hp
    · cases h

/-! ## §4. What a step can do to the transactions and the database. -/

/-- What is not a transaction of §3 leaves locked rows alone, and leaves every
row its revision and its policy. -/
structure EnvWrite (w : World) (d : Db) : Prop where
  locked : ∀ id row, w.rowLocked id = true → w.db.find id = some row → d.find id = some row
  keeps : Keeps w.db d

/-- **The effect of a step**, whatever it does to the gate and the roles. -/
inductive Effect (w w' : World) : Prop
  | idle (ht : w'.txs = w.txs) (hd : w'.db = w.db) (hl : w'.log = w.log)
  /-- a mutation arrives: queued, or refused at once -/
  | arrive (tx : Tx) (hp : tx.phase = .queued ∨ ∃ e, tx.phase = .ended (.failed e))
      (ht : w'.txs = w.txs ++ [tx]) (hd : w'.db = w.db) (hl : w'.log = w.log)
  /-- a transaction takes a step, or its call ends outside the callback -/
  | move (t : Nat) (tx : Tx) (r : TxPhase × Option Write) (hx : w.txs[t]? = some tx)
      (hm : TxMove w.db (w.rowLocked tx.id) tx r)
      (ht : w'.txs = w.txs.set t { tx with phase := r.1 })
      (hd : w'.db = (r.2.map (w.db.land tx.id)).getD w.db)
      (hl : w'.log = w.log ++ (r.2.map fun _ => ⟨w.db, .tx t⟩).toList)
  | environment (author : Author) (d : Db) (ha : ∀ t, author ≠ .tx t) (he : EnvWrite w d)
      (ht : w'.txs = w.txs) (hd : w'.db = d) (hl : w'.log = w.log ++ [⟨w.db, author⟩])

theorem envWrite_create (w : World) (key : APIKey) :
    EnvWrite w { w.db with keys := w.db.keys ++ [some key] } where
  locked id row _ hf := by
    rw [Db.find_append w.db _ key rfl (Db.find_lt hf)]
    exact hf
  keeps := by
    refine keeps_of_find ?_ fun id hid => Db.find_append w.db _ key rfl hid
    show w.db.keys.length ≤ (w.db.keys ++ [some key]).length
    rw [length_append]
    omega

theorem envWrite_bindUnowned (w : World) (admin : Nat) :
    EnvWrite w (w.db.bindUnowned w.rowLocked admin) where
  locked id row hl hf := by
    obtain h | ⟨hfree, _⟩ := w.db.find_bindUnowned w.rowLocked admin id
    · rw [h]
      exact hf
    · rw [hfree] at hl
      cases hl
  keeps := keeps_bindUnowned w.db w.rowLocked admin

theorem envWrite_migrateSecret (w : World) {id : KeyID} (salt raw : Bytes)
    (hfree : w.rowLocked id = false) : EnvWrite w (w.db.migrateSecret id salt raw) where
  locked j row hl hf := by
    have hne : id ≠ j := by
      rintro rfl
      rw [hfree] at hl
      cases hl
    rw [Db.find_set_ne w.db (w.db.migrateSecret id salt raw) _ rfl hne]
    exact hf
  keeps := keeps_migrateSecret w.db id salt raw

theorem envWrite_servers (w : World) (servers : List ServerID) :
    EnvWrite w { w.db with servers := servers } where
  locked _ _ _ hf := hf
  keeps := keeps_of_find (Nat.le_refl _) fun _ _ => rfl

variable {w w' : World}

theorem close_store {k : Nat} {v : Validation}
    {r : Except ValidateError APIKey} (h : w.close k v r = some w') :
    w'.txs = w.txs ∧ w'.db = w.db ∧ w'.log = w.log := by
  obtain ⟨g, _, rfl⟩ := map_eq_some_iff.mp h
  exact ⟨rfl, rfl, rfl⟩

theorem effect_of_close {k : Nat} {v : Validation}
    {r : Except ValidateError APIKey} (h : w.close k v r = some w') : Effect w w' :=
  let ⟨ht, hd, hl⟩ := close_store h
  .idle ht hd hl

theorem effect_of_refuse (w : World) (role : Role) (g : Gate) (roles : List Role) :
    Effect w { w with gate := g, roles := roles, txs := w.refuse role } := by
  cases role with
  | validation v => exact .idle rfl rfl rfl
  | mutation t =>
    cases hx : w.txs[t]? with
    | none =>
      have hsame : w.refuse (.mutation t) = w.txs :=
        modify_eq_self (getElem?_eq_none_iff.mp hx)
      exact .idle hsame rfl rfl
    | some tx =>
      have hmod : w.refuse (.mutation t) = w.txs.set t
          (if tx.phase = .queued then { tx with phase := .ended (.failed .other) } else tx) := by
        simp only [World.refuse]
        rw [modify_eq_set_getElem?, hx]
        rfl
      by_cases hq : tx.phase = .queued
      · rw [if_pos hq] at hmod
        refine .move t tx (.ended (.failed .other), none) hx (.fail .other ?_) hmod rfl ?_
        · intro r hr
          rw [hq] at hr
          cases hr
        · exact (append_nil w.log).symm
      · rw [if_neg hq] at hmod
        have hself : w.txs.set t tx = w.txs := by
          obtain ⟨hlt, rfl⟩ := List.getElem?_eq_some_iff.mp hx
          exact set_getElem_self hlt
        exact .idle (hmod.trans hself) rfl rfl

variable {t : Nat}

theorem effect_of_applyTx (hx : w.txs[t]? = some tx) (hm : TxMove w.db (w.rowLocked tx.id) tx r) :
    Effect w (w.applyTx t tx r) := by
  obtain ⟨ph, wr⟩ := r
  cases wr with
  | none => exact .move t tx (ph, none) hx hm rfl rfl (append_nil w.log).symm
  | some wr => exact .move t tx (ph, some wr) hx hm rfl rfl rfl

variable {hash : Bytes → Bytes}

/-- **Every step has one of the four effects.** -/
theorem keyStep_effect {op : Op} (h : keyStep hash w op = some w') : Effect w w' := by
  cases op with
  | request here id p operationID m =>
    simp only [keyStep] at h
    split at h
    · next e _ =>
      rw [← some.inj h]
      exact .arrive _ (.inr ⟨_, rfl⟩) rfl rfl rfl
    · split at h
      · obtain ⟨g, _, rfl⟩ := map_eq_some_iff.mp h
        exact .arrive _ (.inl rfl) rfl rfl rfl
      · rw [← some.inj h]
        exact .arrive _ (.inl rfl) rfl rfl rfl
  | validate secret =>
    obtain ⟨found, _, h⟩ := bind_eq_some_iff.mp h
    obtain ⟨g, _, rfl⟩ := map_eq_some_iff.mp h
    exact .idle rfl rfl rfl
  | gate k op =>
    obtain ⟨c, _, h⟩ := bind_eq_some_iff.mp h
    obtain ⟨role, _, h⟩ := bind_eq_some_iff.mp h
    split at h
    · obtain ⟨g, _, rfl⟩ := map_eq_some_iff.mp h
      by_cases hf : op.fails = true
      · simp only [hf, if_true]
        exact effect_of_refuse w role g _
      · simp only [hf]
        exact .idle rfl rfl rfl
    · cases h
  | reload k answered =>
    obtain ⟨vv, _, h⟩ := bind_eq_some_iff.mp h
    split at h
    · split at h
      · split at h
        · rw [← some.inj h]
          exact .idle rfl rfl rfl
        · exact effect_of_close h
      · exact effect_of_close h
    · cases h
  | answer k =>
    obtain ⟨vv, _, h⟩ := bind_eq_some_iff.mp h
    obtain ⟨r, _, h⟩ := bind_eq_some_iff.mp h
    exact effect_of_close h
  | tx t op =>
    obtain ⟨tx, hx, h⟩ := bind_eq_some_iff.mp h
    split at h
    · obtain ⟨r, hr, rfl⟩ := map_eq_some_iff.mp h
      exact effect_of_applyTx hx (txStep_move hr)
    · cases h
  | settle k =>
    simp only [keyStep] at h
    split at h
    · obtain ⟨tx, _, h⟩ := bind_eq_some_iff.mp h
      obtain ⟨u, _, h⟩ := bind_eq_some_iff.mp h
      obtain ⟨g, _, rfl⟩ := map_eq_some_iff.mp h
      exact .idle rfl rfl rfl
    · cases h
  | create key =>
    rw [← some.inj h]
    exact .environment .creation _ (by simp) (envWrite_create w key) rfl rfl rfl
  | ownerBackfill admin =>
    rw [← some.inj h]
    exact .environment .ownerBackfill _ (by simp) (envWrite_bindUnowned w admin) rfl rfl rfl
  | secretMigration id salt raw =>
    simp only [keyStep] at h
    split at h
    · cases h
    · next hl =>
      rw [← some.inj h]
      exact .environment .secretMigration _ (by simp)
        (envWrite_migrateSecret w salt raw (by simpa using hl)) rfl rfl rfl
  | setServers servers =>
    rw [← some.inj h]
    exact .environment .servers _ (by simp) (envWrite_servers w servers) rfl rfl rfl

/-! ## §5. The row lock. -/

theorem txOk_of_not_holds (h : tx.holds tx.id = false) : TxOk d tx := by
  unfold TxOk
  unfold Tx.holds at h
  rw [beq_self_eq_true, Bool.true_and] at h
  cases hp : tx.phase <;> rw [hp] at h <;> trivial

/-- Only the transaction's own row matters to it. -/
theorem TxOk.mono (hok : TxOk d tx)
    (h : ∀ row, d.find tx.id = some row → d'.find tx.id = some row) : TxOk d' tx := by
  have hst : ∀ w, Staged d tx w → Staged d' tx w := by
    intro w hw
    cases w with
    | update c ev key =>
      obtain ⟨row, hf, hrest⟩ := hw
      exact ⟨row, h row hf, hrest⟩
    | delete => exact hw
  unfold TxOk at hok ⊢
  cases hp : tx.phase with
  | queued => trivial
  | locked row =>
    rw [hp] at hok
    exact h row hok
  | writing stage w | inDoubt w =>
    rw [hp] at hok
    exact hst w hok
  | ended r => trivial

structure LockInv (w : World) : Prop where
  ok : ∀ (t : Nat) tx, w.txs[t]? = some tx → TxOk w.db tx
  /-- a row lock has one holder -/
  alone : ∀ id (t t' : Nat) tx tx', w.txs[t]? = some tx → w.txs[t']? = some tx' →
    tx.holds id = true → tx'.holds id = true → t = t'

theorem World.rowLocked_of_holds {id : KeyID}
    (hx : w.txs[t]? = some tx) (h : tx.holds id = true) : w.rowLocked id = true :=
  any_eq_true.mpr ⟨tx, mem_of_getElem? hx, h⟩

/-- Whoever holds the lock after a step held it before or has just taken it. -/
theorem TxMove.holds (m : TxMove d locked tx r) {id : KeyID}
    (h : ({ tx with phase := r.1 } : Tx).holds id = true) :
    tx.holds id = true ∨ tx.id = id ∧ locked = false := by
  have hid : tx.id = id := beq_iff_eq.mp (Bool.and_eq_true_iff.mp h).1
  have held : ∀ {ph : TxPhase}, tx.phase = ph →
      (∀ x, ({ tx with phase := ph } : Tx).holds x = (tx.id == x)) → tx.holds id = true := by
    intro ph hp hall
    have hx := hall id
    rw [← hp] at hx
    rw [show tx.holds id = (tx.id == id) from hx]
    exact beq_iff_eq.mpr hid
  cases m with
  | lockDelete _ hl _ => exact .inr ⟨hid, hl⟩
  | lockRow _ _ hl _ => exact .inr ⟨hid, hl⟩
  | decide now row ph hp _ | write stage stage' w hp | commit w out hp | resolve w landed hp =>
    exact .inl (held hp fun x => Bool.and_true _)
  | fail e _ =>
    -- it has ended
    exact absurd (Bool.and_eq_true_iff.mp h).2 (by simp)

variable {wr : Write}

/-- What lands is what was staged, by the holder of the lock. -/
theorem TxMove.staged (m : TxMove d locked tx (ph, some wr)) (hok : TxOk d tx) :
    Staged d tx wr ∧ tx.holds tx.id = true := by
  unfold TxOk at hok
  unfold Tx.holds
  generalize hr : (ph, some wr) = r at m
  cases m with
  | commit w out hp =>
    rw [hp] at hok ⊢
    have hw : (if out.lands then some w else none) = some wr := (Prod.mk.inj hr).2.symm
    split at hw
    · cases hw
      exact ⟨hok, by simp⟩
    · cases hw
  | resolve w landed hp =>
    rw [hp] at hok ⊢
    have hw : (if landed then some w else none) = some wr := (Prod.mk.inj hr).2.symm
    split at hw
    · cases hw
      exact ⟨hok, by simp⟩
    · cases hw
  | lockDelete | lockRow | decide | write | fail => exact absurd (Prod.mk.inj hr).2 (by simp)

/-- A transaction that goes on agrees with the database, which its own step
has not changed unless it has ended. -/
theorem TxMove.ok (m : TxMove d locked tx r) (hok : TxOk d tx) :
    TxOk ((r.2.map (d.land tx.id)).getD d) { tx with phase := r.1 } := by
  unfold TxOk at hok
  cases m with
  | lockDelete _ _ hm => exact hm
  | lockRow row _ _ hf => exact hf
  | decide now row ph hp hd =>
    rw [hp] at hok
    obtain ⟨e, rfl⟩ | rfl | ⟨c, ev, key, rfl, hplan, hev⟩ := decide_cases hd
    · trivial
    · trivial
    · exact ⟨row, hok, hplan, hev⟩
  | write stage stage' w hp =>
    rw [hp] at hok
    exact hok
  | fail e _ => trivial
  | commit w out hp =>
    rw [hp] at hok
    cases out with
    | committed => trivial
    | unknown fate =>
      cases fate with
      | landed => trivial
      | lost => trivial
      | inFlight => exact hok
  | resolve w landed hp => trivial

theorem LockInv.step (h : LockInv w) (e : Effect w w') : LockInv w' := by
  cases e with
  | idle ht hd hl =>
    constructor
    · rw [ht, hd]
      exact h.ok
    · rw [ht]
      exact h.alone
  | arrive tx hp ht hd hl =>
    have hfree : ∀ id, tx.holds id = false := by
      intro id
      unfold Tx.holds
      obtain hp | ⟨e, hp⟩ := hp <;> rw [hp] <;> exact Bool.and_false _
    constructor
    · rw [ht, hd]
      intro t x hx
      obtain hx | ⟨-, rfl⟩ := getElem?_concat_cases hx
      · exact h.ok t x hx
      · exact txOk_of_not_holds (hfree _)
    · rw [ht]
      intro id t t' x x' hx hx' hh hh'
      obtain hx | ⟨-, rfl⟩ := getElem?_concat_cases hx
      · obtain hx' | ⟨-, rfl⟩ := getElem?_concat_cases hx'
        · exact h.alone id t t' x x' hx hx' hh hh'
        · exact absurd hh' (by simp [hfree])
      · exact absurd hh (by simp [hfree])
  | move t tx r hx hm ht hd hl =>
    have hok := h.ok t tx hx
    constructor
    · rw [ht, hd]
      intro t' x hget
      obtain ⟨-, rfl⟩ | ⟨hne, hx'⟩ := getElem?_set_cases hget
      · exact hm.ok hok
      · -- another transaction: what lands is not in a row it has locked
        by_cases hh : x.holds x.id = true
        · refine (h.ok t' x hx').mono fun row hf => ?_
          obtain ⟨ph, wr⟩ := r
          cases wr with
          | none => exact hf
          | some wr =>
            have hother : tx.id ≠ x.id := by
              intro heq
              have hmine := (hm.staged hok).2
              rw [heq] at hmine
              exact hne (h.alone x.id t t' tx x hx hx' hmine hh)
            show (w.db.land tx.id wr).find x.id = some row
            rw [Db.find_land_ne _ _ hother]
            exact hf
        · exact txOk_of_not_holds (by simpa using hh)
    · rw [ht]
      -- a lock is taken only when nobody holds it
      have new : ∀ id (t' : Nat) x, w.txs[t']? = some x → x.holds id = true →
          ({ tx with phase := r.1 } : Tx).holds id = true → t = t' := by
        intro id t' x hx' hh hmine
        obtain hold | ⟨rfl, hfree⟩ := hm.holds hmine
        · exact h.alone id t t' tx x hx hx' hold hh
        · rw [World.rowLocked_of_holds hx' hh] at hfree
          cases hfree
      intro id i j x x' hi hj hh hh'
      obtain ⟨rfl, rfl⟩ | ⟨hni, hi⟩ := getElem?_set_cases hi
      · obtain ⟨rfl, rfl⟩ | ⟨hnj, hj⟩ := getElem?_set_cases hj
        · rfl
        · exact new id j x' hj hh' hh
      · obtain ⟨rfl, rfl⟩ | ⟨hnj, hj⟩ := getElem?_set_cases hj
        · exact (new id i x hi hh hh').symm
        · exact h.alone id i j x x' hi hj hh hh'
  | environment author d ha he ht hd hl =>
    constructor
    · rw [ht, hd]
      intro t x hx
      by_cases hh : x.holds x.id = true
      · exact (h.ok t x hx).mono fun row hf =>
          he.locked x.id row (World.rowLocked_of_holds hx hh) hf
      · exact txOk_of_not_holds (by simpa using hh)
    · rw [ht]
      exact h.alone

theorem reachable_lockInv (h : (keySystem hash).Reachable w) : LockInv w := by
  refine h.invariant ?_ fun s op s' hs he => hs.step (keyStep_effect he)
  rintro _ ⟨db, rfl⟩
  exact ⟨fun t tx hx => absurd hx (by simp), fun _ t _ tx _ hx => absurd hx (by simp)⟩

/-! ## §6. What has been committed. -/

/-- The phases of a transaction whose write may have landed. -/
def TxPhase.mayHaveLanded : TxPhase → Bool
  | .ended (.changed _) | .ended .unknown => true
  | _ => false

/-- **One committed mutation**: an edit or a rotation changes its row as
planned and adds one audit event, a deletion removes the row; nothing else is
written. -/
structure Changed (tx : Tx) (before after : Db) : Prop where
  row : (tx.mutation = .delete ∧ after.find tx.id = none ∧ after.audit = before.audit)
    ∨ ∃ row row' event, before.find tx.id = some row ∧ after.find tx.id = some row'
      ∧ tx.mutation.Planned row row'
      ∧ after.audit = before.audit ++ [event] ∧ event.resourceID = tx.id
  others : ∀ id, id ≠ tx.id → after.find id = before.find id
  servers : after.servers = before.servers

theorem changed_land (h : Staged d tx wr) : Changed tx d (d.land tx.id wr) := by
  cases wr with
  | update c event key =>
    obtain ⟨row, hf, hplan, hev⟩ := h
    exact ⟨.inr ⟨row, c.apply row, event, hf, Db.find_land_update c event key hf, hplan,
      rfl, hev⟩, fun id hne => Db.find_land_ne d _ (Ne.symm hne), rfl⟩
  | delete =>
    exact ⟨.inl ⟨h, Db.find_land_delete d tx.id, rfl⟩,
      fun id hne => Db.find_land_ne d _ (Ne.symm hne), rfl⟩

theorem Changed.forward (h : Changed tx d (d.land tx.id wr)) : Forward d (d.land tx.id wr) := by
  constructor
  · exact Nat.le_of_eq (Db.length_land d tx.id wr).symm
  · intro id hid r' hr'
    by_cases hne : id = tx.id
    · subst hne
      obtain ⟨-, hnone, -⟩ | ⟨row, row', event, hf, hf', hplan, -⟩ := h.row
      · rw [hnone] at hr'
        cases hr'
      · rw [hf'] at hr'
        cases hr'
        have hraised := hplan.raised
        exact ⟨row, hf, .inl (by omega)⟩
    · rw [h.others id hne] at hr'
      exact ⟨r', hr', .inr ⟨rfl, rfl, rfl, rfl⟩⟩

/-- A commit added to the log: of a transaction that had not ended before, or
of the environment. -/
inductive Committed (w w' : World) (author : Author) : Prop
  | tx (t : Nat) (tx tx' : Tx) (ha : author = .tx t) (hx : w.txs[t]? = some tx)
      (hopen : tx.phase.mayHaveLanded = false) (hx' : w'.txs[t]? = some tx')
      (hland : tx'.phase.mayHaveLanded = true) (hch : Changed tx' w.db w'.db)
  | environment (ha : ∀ t, author ≠ .tx t) (hk : Keeps w.db w'.db)

/-- **How a step moves the log on.** -/
structure Advance (w w' : World) : Prop where
  /-- what has ended stays as it is -/
  final : ∀ (t : Nat) tx, w.txs[t]? = some tx → tx.phase.mayHaveLanded = true →
    w'.txs[t]? = some tx
  forward : Forward w.db w'.db
  log : (w'.log = w.log ∧ w'.db = w.db
      ∧ ∀ (t : Nat) tx' key, w'.txs[t]? = some tx' → tx'.phase = .ended (.changed key) →
          w.txs[t]? = some tx')
    ∨ ∃ author, w'.log = w.log ++ [⟨w.db, author⟩] ∧ Committed w w' author
      ∧ ∀ (t : Nat) tx' key, w'.txs[t]? = some tx' → tx'.phase = .ended (.changed key) →
          w.txs[t]? = some tx' ∨ author = .tx t

/-- A transaction moves only before it has ended. -/
theorem TxMove.not_landed (m : TxMove d locked tx r) : tx.phase.mayHaveLanded = false := by
  cases m with
  | lockDelete hp _ _ | lockRow _ hp _ _ | decide _ _ _ hp _ | write _ _ _ hp | commit _ _ hp
  | resolve _ _ hp => rw [hp]; rfl
  | fail _ hp =>
    cases hq : tx.phase with
    | ended r => exact absurd hq (hp r)
    | queued | locked _ | writing _ _ | inDoubt _ => rfl

/-- A write lands with the last step of its transaction, and a transaction
that reports a change has landed its write. -/
theorem TxMove.lands {wr : Option Write} (m : TxMove d locked tx (ph, wr)) :
    (∀ x, wr = some x → ph.mayHaveLanded = true)
      ∧ (∀ key, ph = .ended (.changed key) → wr ≠ none) := by
  generalize hr : (ph, wr) = r at m
  cases m with
  | lockDelete | lockRow | write | fail =>
    obtain ⟨rfl, rfl⟩ := Prod.mk.inj hr
    exact ⟨fun x hx => absurd hx (by simp), fun key hk => absurd hk (by simp)⟩
  | decide now row ph' hp hd =>
    obtain ⟨rfl, rfl⟩ := Prod.mk.inj hr
    refine ⟨fun x hx => absurd hx (by simp), fun key hk => ?_⟩
    obtain ⟨e, rfl⟩ | rfl | ⟨c, ev, k, rfl, -⟩ := decide_cases hd <;>
      cases hk
  | commit w out hp =>
    obtain ⟨rfl, rfl⟩ := Prod.mk.inj hr
    cases out with
    | committed => exact ⟨fun _ _ => rfl, fun _ _ => by simp [CommitOutcome.lands]⟩
    | unknown fate =>
      refine ⟨fun x hx => ?_, fun key hk => ?_⟩
      · cases fate with
        | landed => rfl
        | lost | inFlight => exact absurd hx (by simp [CommitOutcome.lands])
      · cases fate <;> exact absurd hk (by simp [CommitOutcome.phase])
  | resolve w landed hp =>
    obtain ⟨rfl, rfl⟩ := Prod.mk.inj hr
    exact ⟨fun _ _ => rfl, fun key hk => absurd hk (by simp)⟩

theorem LockInv.advance (h : LockInv w) (e : Effect w w') : Advance w w' := by
  cases e with
  | idle ht hd hl =>
    refine ⟨fun t tx hx _ => ht ▸ hx, hd ▸ Forward.refl w.db, .inl ⟨hl, hd, ?_⟩⟩
    intro t tx' key hx' _
    exact ht ▸ hx'
  | arrive tx hp ht hd hl =>
    refine ⟨fun t x hx _ => ?_, hd ▸ Forward.refl w.db, .inl ⟨hl, hd, ?_⟩⟩
    · rw [ht, List.getElem?_append_left (List.getElem?_eq_some_iff.mp hx).1]
      exact hx
    · intro t tx' key hx' hk
      rw [ht] at hx'
      obtain hx' | ⟨-, rfl⟩ := getElem?_concat_cases hx'
      · exact hx'
      · obtain hp | ⟨e, hp⟩ := hp <;> rw [hp] at hk <;> cases hk
  | move t tx r hx hm ht hd hl =>
    have hself : w'.txs[t]? = some { tx with phase := r.1 } := by
      rw [ht, List.getElem?_set_self (List.getElem?_eq_some_iff.mp hx).1]
    have hfinal : ∀ (t' : Nat) x, w.txs[t']? = some x → x.phase.mayHaveLanded = true →
        w'.txs[t']? = some x := by
      intro t' x hx' hlanded
      by_cases hne : t = t'
      · subst hne
        rw [hx] at hx'
        cases hx'
        rw [hm.not_landed] at hlanded
        cases hlanded
      · rw [ht, getElem?_set_ne hne]
        exact hx'
    obtain ⟨ph, wr⟩ := r
    cases wr with
    | none =>
      have hd' : w'.db = w.db := hd
      refine ⟨hfinal, hd' ▸ Forward.refl w.db, .inl ⟨?_, hd', ?_⟩⟩
      · rw [hl]
        exact append_nil w.log
      · intro t' tx' key hx' hk
        rw [ht] at hx'
        obtain ⟨rfl, rfl⟩ | ⟨-, hx'⟩ := getElem?_set_cases hx'
        · exact absurd rfl (hm.lands.2 key hk)
        · exact hx'
    | some wr =>
      have hd' : w'.db = w.db.land tx.id wr := hd
      have hch : Changed { tx with phase := ph } w.db (w.db.land tx.id wr) := by
        have hc := changed_land (hm.staged (h.ok t tx hx)).1
        exact { hc with }
      refine ⟨hfinal, hd' ▸ hch.forward, .inr ⟨.tx t, hl, ?_, ?_⟩⟩
      · exact .tx t tx _ rfl hx hm.not_landed hself (hm.lands.1 wr rfl) (hd' ▸ hch)
      · intro t' tx' key hx' hk
        rw [ht] at hx'
        obtain ⟨rfl, rfl⟩ | ⟨-, hx'⟩ := getElem?_set_cases hx'
        · exact .inr rfl
        · exact .inl hx'
  | environment author d ha he ht hd hl =>
    refine ⟨fun t tx hx _ => ht ▸ hx, hd ▸ he.keeps.forward, .inr ⟨author, hl, ?_, ?_⟩⟩
    · exact .environment ha (hd ▸ he.keeps)
    · intro t tx' key hx' _
      exact .inl (ht ▸ hx')

/-! ## §7. Serialization by revision. -/

/-- A committed edit or rotation found the revision it expected and left the
next one. -/
theorem Changed.expected {before after : Db} {e : Int} (h : Changed tx before after)
    (he : tx.mutation.expected? = some e) :
    ∃ row row', before.find tx.id = some row ∧ after.find tx.id = some row'
      ∧ row.permissionsRevision = e ∧ row'.permissionsRevision = e + 1 := by
  obtain ⟨hdel, -⟩ | ⟨row, row', event, hf, hf', hplan, -⟩ := h.row
  · rw [hdel] at he
    exact absurd he (by simp [Mutation.expected?])
  · have hrev : row.permissionsRevision = e := mem_unique hplan.expected he
    exact ⟨row, row', hf, hf', hrev, hrev ▸ hplan.raised⟩

structure ChangeInv (w : World) : Prop where
  landed : ∀ (i : Nat) c t, w.log[i]? = some c → c.author = .tx t →
    ∃ tx after, w.txs[t]? = some tx ∧ tx.phase.mayHaveLanded = true
      ∧ w.states[i + 1]? = some after ∧ Changed tx c.before after
  kept : ∀ (i : Nat) c, w.log[i]? = some c → (∀ t, c.author ≠ .tx t) →
    ∃ after, w.states[i + 1]? = some after ∧ Keeps c.before after
  once : ∀ (i j : Nat) c c' t, w.log[i]? = some c → w.log[j]? = some c' →
    c.author = .tx t → c'.author = .tx t → i = j
  /-- the revision stays above every revision that was expected with success -/
  above : ∀ (i : Nat) c t tx e, w.log[i]? = some c → c.author = .tx t →
    w.txs[t]? = some tx → tx.mutation.expected? = some e → tx.id < w.db.keys.length
      ∧ ∀ row, w.db.find tx.id = some row → e < row.permissionsRevision
  serial : ∀ (i j : Nat) c c' t t' tx tx' e, w.log[i]? = some c → w.log[j]? = some c' →
    c.author = .tx t → c'.author = .tx t' → w.txs[t]? = some tx → w.txs[t']? = some tx' →
    tx.id = tx'.id → tx.mutation.expected? = some e → tx'.mutation.expected? = some e → i = j
  acknowledged : ∀ (t : Nat) tx key, w.txs[t]? = some tx → tx.phase = .ended (.changed key) →
    ∃ (i : Nat) (c : Commit), w.log[i]? = some c ∧ c.author = .tx t

theorem World.length_states (w : World) : w.states.length = w.log.length + 1 := by
  simp [World.states]

variable {i : Nat} {c : Commit}

theorem World.states_before (w : World) (h : w.log[i]? = some c) :
    w.states[i]? = some c.before := by
  unfold World.states
  rw [getElem?_append_left, getElem?_map, h]
  · rfl
  · rw [length_map]
    exact (List.getElem?_eq_some_iff.mp h).1

theorem World.states_append {author : Author}
    (hl : w'.log = w.log ++ [⟨w.db, author⟩]) : w'.states = w.states ++ [w'.db] := by
  unfold World.states
  rw [hl, map_append]
  rfl

/-- A landed transaction is the same before and after a step. -/
theorem ChangeInv.tx_eq (h : ChangeInv w) (a : Advance w w') (hc : w.log[i]? = some c)
    (hauth : c.author = .tx t)
    (hx : w'.txs[t]? = some tx) : w.txs[t]? = some tx := by
  obtain ⟨tx₀, _, hx₀, hland, _⟩ := h.landed i c t hc hauth
  rw [a.final t tx₀ hx₀ hland] at hx
  exact hx ▸ hx₀

/-- The steps without a commit. -/
theorem ChangeInv.quiet (h : ChangeInv w) (a : Advance w w')
    (hl : w'.log = w.log) (hd : w'.db = w.db)
    (hack : ∀ (t : Nat) tx' key, w'.txs[t]? = some tx' → tx'.phase = .ended (.changed key) →
      w.txs[t]? = some tx') : ChangeInv w' := by
  have hs : w'.states = w.states := by
    unfold World.states
    rw [hl, hd]
  constructor
  · intro i c t hc hauth
    rw [hl] at hc
    obtain ⟨tx, after, hx, hland, hrest⟩ := h.landed i c t hc hauth
    rw [hs]
    exact ⟨tx, after, a.final t tx hx hland, hland, hrest⟩
  · intro i c hc hauth
    rw [hl] at hc
    rw [hs]
    exact h.kept i c hc hauth
  · intro i j c c' t hc hc' ht ht'
    rw [hl] at hc hc'
    exact h.once i j c c' t hc hc' ht ht'
  · intro i c t tx e hc hauth hx he
    rw [hl] at hc
    rw [hd]
    exact h.above i c t tx e hc hauth (h.tx_eq a hc hauth hx) he
  · intro i j c c' t t' tx tx' e hc hc' ht ht' hx hx' hid he he'
    rw [hl] at hc hc'
    exact h.serial i j c c' t t' tx tx' e hc hc' ht ht' (h.tx_eq a hc ht hx)
      (h.tx_eq a hc' ht' hx') hid he he'
  · intro t tx key hx hk
    rw [hl]
    exact h.acknowledged t tx key (hack t tx key hx hk) hk

/-- A new commit with the expected revision of an earlier one would have found
a lower revision than the one the earlier left. -/
theorem ChangeInv.fresh (h : ChangeInv w) (a : Advance w w') {tx' : Tx} {e : Int}
    (hc : w.log[i]? = some c) (hauth : c.author = .tx t)
    (hx : w'.txs[t]? = some tx) (hch : Changed tx' w.db w'.db) (hid : tx.id = tx'.id)
    (he : tx.mutation.expected? = some e) (he' : tx'.mutation.expected? = some e) : False := by
  obtain ⟨row, _, hf, _, hrev, _⟩ := hch.expected he'
  have habove := (h.above i c t tx e hc hauth (h.tx_eq a hc hauth hx) he).2 row (hid ▸ hf)
  omega

theorem ChangeInv.commit (h : ChangeInv w) (a : Advance w w') {author : Author}
    (hl : w'.log = w.log ++ [⟨w.db, author⟩]) (hcom : Committed w w' author)
    (hack : ∀ (t : Nat) tx' key, w'.txs[t]? = some tx' → tx'.phase = .ended (.changed key) →
      w.txs[t]? = some tx' ∨ author = .tx t) : ChangeInv w' := by
  have hs := World.states_append hl
  -- the states up to the old one are where they were, and the new one is next
  have hold : ∀ {i : Nat} {c : Commit}, w.log[i]? = some c →
      w'.states[i + 1]? = w.states[i + 1]? := by
    intro i c hc
    have hlt := (List.getElem?_eq_some_iff.mp hc).1
    rw [hs, getElem?_append_left (by rw [World.length_states]; omega)]
  have hnew : w'.states[w.log.length + 1]? = some w'.db := by
    rw [hs, ← World.length_states, getElem?_concat_length]
  -- the transaction behind the new commit
  have hbehind : ∀ t, author = .tx t → ∃ tx tx', w.txs[t]? = some tx
      ∧ tx.phase.mayHaveLanded = false ∧ w'.txs[t]? = some tx'
      ∧ tx'.phase.mayHaveLanded = true ∧ Changed tx' w.db w'.db := by
    intro t ht
    cases hcom with
    | tx t' tx tx' ha hx hopen hx' hland hch =>
      rw [ha] at ht
      cases ht
      exact ⟨tx, tx', hx, hopen, hx', hland, hch⟩
    | environment ha _ => exact absurd ht (ha t)
  -- it had not committed before
  have hfirst : ∀ {i : Nat} {c : Commit} {t : Nat}, w.log[i]? = some c → c.author = .tx t →
      author ≠ .tx t := by
    intro i c t hc hauth ht
    obtain ⟨tx, _, hx, hopen, _⟩ := hbehind t ht
    obtain ⟨tx₀, _, hx₀, hland, _⟩ := h.landed i c t hc hauth
    rw [hx] at hx₀
    cases hx₀
    rw [hopen] at hland
    cases hland
  constructor
  · intro i c t hc hauth
    rw [hl] at hc
    obtain hc | ⟨rfl, rfl⟩ := getElem?_concat_cases hc
    · obtain ⟨tx, after, hx, hland, hst, hch⟩ := h.landed i c t hc hauth
      exact ⟨tx, after, a.final t tx hx hland, hland, (hold hc).trans hst, hch⟩
    · obtain ⟨_, tx', _, _, hx', hland, hch⟩ := hbehind t hauth
      exact ⟨tx', w'.db, hx', hland, hnew, hch⟩
  · intro i c hc hauth
    rw [hl] at hc
    obtain hc | ⟨rfl, rfl⟩ := getElem?_concat_cases hc
    · obtain ⟨after, hst, hk⟩ := h.kept i c hc hauth
      exact ⟨after, (hold hc).trans hst, hk⟩
    · cases hcom with
      | tx t _ _ ha => exact absurd ha (hauth t)
      | environment _ hk => exact ⟨w'.db, hnew, hk⟩
  · intro i j c c' t hc hc' ht ht'
    rw [hl] at hc hc'
    obtain hc | ⟨rfl, rfl⟩ := getElem?_concat_cases hc
    · obtain hc' | ⟨rfl, rfl⟩ := getElem?_concat_cases hc'
      · exact h.once i j c c' t hc hc' ht ht'
      · exact absurd ht' (hfirst hc ht)
    · obtain hc' | ⟨rfl, rfl⟩ := getElem?_concat_cases hc'
      · exact absurd ht (hfirst hc' ht')
      · rfl
  · intro i c t tx e hc hauth hx he
    rw [hl] at hc
    obtain hc | ⟨rfl, rfl⟩ := getElem?_concat_cases hc
    · obtain ⟨hid, habove⟩ := h.above i c t tx e hc hauth (h.tx_eq a hc hauth hx) he
      refine ⟨Nat.lt_of_lt_of_le hid a.forward.length_le, fun row' hf' => ?_⟩
      obtain ⟨row, hf, hrev⟩ := a.forward.row tx.id hid row' hf'
      have := habove row hf
      obtain hlt | ⟨heq, -⟩ := hrev <;> omega
    · obtain ⟨_, tx', _, _, hx', _, hch⟩ := hbehind t hauth
      rw [hx] at hx'
      cases hx'
      obtain ⟨_, row', _, hf', _, hrev'⟩ := hch.expected he
      refine ⟨Db.find_lt hf', fun row hf => ?_⟩
      rw [hf'] at hf
      cases hf
      omega
  · intro i j c c' t t' tx tx' e hc hc' ht ht' hx hx' hid he he'
    rw [hl] at hc hc'
    obtain hc | ⟨rfl, rfl⟩ := getElem?_concat_cases hc
    · obtain hc' | ⟨rfl, rfl⟩ := getElem?_concat_cases hc'
      · exact h.serial i j c c' t t' tx tx' e hc hc' ht ht' (h.tx_eq a hc ht hx)
          (h.tx_eq a hc' ht' hx') hid he he'
      · obtain ⟨_, y, _, _, hy, _, hch⟩ := hbehind t' ht'
        rw [hx'] at hy
        cases hy
        exact (h.fresh a hc ht hx hch hid he he').elim
    · obtain hc' | ⟨rfl, rfl⟩ := getElem?_concat_cases hc'
      · obtain ⟨_, y, _, _, hy, _, hch⟩ := hbehind t ht
        rw [hx] at hy
        cases hy
        exact (h.fresh a hc' ht' hx' hch hid.symm he' he).elim
      · rfl
  · intro t tx key hx hk
    rw [hl]
    obtain hx | ht := hack t tx key hx hk
    · obtain ⟨i, c, hc, hauth⟩ := h.acknowledged t tx key hx hk
      exact ⟨i, c, by rw [List.getElem?_append_left (List.getElem?_eq_some_iff.mp hc).1, hc], hauth⟩
    · exact ⟨w.log.length, ⟨w.db, author⟩, by simp, ht⟩

theorem ChangeInv.step (h : ChangeInv w) (a : Advance w w') : ChangeInv w' := by
  obtain ⟨hl, hd, hack⟩ | ⟨author, hl, hcom, hack⟩ := a.log
  · exact h.quiet a hl hd hack
  · exact h.commit a hl hcom hack

theorem reachable_changeInv (h : (keySystem hash).Reachable w) : ChangeInv w := by
  refine h.invariant_with (fun _ hr => reachable_lockInv hr) ?_
    fun s op s' hlock hs he => hs.step (hlock.advance (keyStep_effect he))
  rintro _ ⟨db, rfl⟩
  constructor <;> simp

/-- **Edits and rotations of a key are serialized by its revision.**  In every
reachable state:

  • of the edits and rotations of one key with one expected revision at most
    one has committed;
  • every commit of an edit found that revision in the row and left the next
    one, wrote one audit event, changed one of the two permission sets to what
    was asked and no credential column; every commit of a rotation did the same
    to the credential columns and to no permission column; no other row was
    touched (`Changed`, `Edited`, `Rotated`);
  • a transaction that found nothing to change or failed, at any statement and
    for a known reason, has committed nothing; what has committed has said so
    or has answered that its outcome is unknown;
  • no commit of any kind empties a server restriction, unless it is an edit
    whose caller gave the empty list. -/
theorem key_changes_serial (hash : Bytes → Bytes) (w : World) (hw : (keySystem hash).Reachable w) :
    (∀ (i j : Nat) c c' t t' tx tx' e, w.log[i]? = some c → w.log[j]? = some c' →
        c.author = .tx t → c'.author = .tx t' → w.txs[t]? = some tx → w.txs[t']? = some tx' →
        tx.id = tx'.id → tx.mutation.expected? = some e → tx'.mutation.expected? = some e →
        t = t' ∧ i = j)
      ∧ (∀ (i : Nat) c t, w.log[i]? = some c → c.author = .tx t →
          ∃ tx after, w.txs[t]? = some tx ∧ w.states[i]? = some c.before
            ∧ w.states[i + 1]? = some after ∧ Changed tx c.before after)
      ∧ (∀ (t : Nat) tx, w.txs[t]? = some tx →
          ((∃ e, tx.phase = .ended (.failed e)) ∨ ∃ key, tx.phase = .ended (.unchanged key)) →
          ∀ (i : Nat) c, w.log[i]? = some c → c.author ≠ .tx t)
      ∧ (∀ (t : Nat) tx key, w.txs[t]? = some tx → tx.phase = .ended (.changed key) →
          ∃ (i : Nat) (c : Commit), w.log[i]? = some c ∧ c.author = .tx t)
      ∧ ∀ (i : Nat) c after id row row', w.log[i]? = some c → w.states[i + 1]? = some after →
          c.before.find id = some row → after.find id = some row' →
          row.serverList ≠ [] → row'.serverList = [] →
          ∃ t tx input, c.author = .tx t ∧ w.txs[t]? = some tx ∧ tx.id = id
            ∧ tx.mutation = .edit input ∧ input.serverIDs = some [] := by
  have h := reachable_changeInv hw
  refine ⟨?_, ?_, ?_, h.acknowledged, ?_⟩
  · intro i j c c' t t' tx tx' e hc hc' ht ht' hx hx' hid he he'
    have hij := h.serial i j c c' t t' tx tx' e hc hc' ht ht' hx hx' hid he he'
    subst hij
    rw [hc] at hc'
    cases hc'
    rw [ht] at ht'
    cases ht'
    exact ⟨rfl, rfl⟩
  · intro i c t hc ht
    obtain ⟨tx, after, hx, _, hst, hch⟩ := h.landed i c t hc ht
    exact ⟨tx, after, hx, w.states_before hc, hst, hch⟩
  · intro t tx hx hend i c hc ht
    obtain ⟨tx', _, hx', hland, _⟩ := h.landed i c t hc ht
    rw [hx] at hx'
    cases hx'
    obtain ⟨e, hp⟩ | ⟨key, hp⟩ := hend <;> rw [hp] at hland <;>
      exact absurd hland (by simp [TxPhase.mayHaveLanded])
  · intro i c after id row row' hc hst hf hf' hne hnil
    -- only an edit of this very row can have changed the list
    have hauth : ∃ t, c.author = .tx t := by
      by_contra hno
      obtain ⟨after', hst', hk⟩ := h.kept i c hc fun t ht => hno ⟨t, ht⟩
      rw [hst] at hst'
      cases hst'
      obtain ⟨r, hr, -, -, -, hservers⟩ := hk.row id (Db.find_lt hf) row' hf'
      rw [hf] at hr
      cases hr
      unfold APIKey.serverList at hne hnil
      rw [hservers] at hnil
      exact hne hnil
    obtain ⟨t, ht⟩ := hauth
    obtain ⟨tx, after', hx, _, hst', hch⟩ := h.landed i c t hc ht
    rw [hst] at hst'
    cases hst'
    by_cases hid : id = tx.id
    · subst hid
      obtain ⟨-, hgone, -⟩ | ⟨r, r', event, hr, hr', hplan, -⟩ := hch.row
      · rw [hf'] at hgone
        cases hgone
      · rw [hf] at hr
        rw [hf'] at hr'
        cases hr
        cases hr'
        cases hm : tx.mutation with
        | edit input =>
          rw [hm] at hplan
          exact ⟨t, tx, input, ht, hx, rfl, hm, Edited.serverList_nil hplan hne hnil⟩
        | rotate e material =>
          rw [hm] at hplan
          unfold APIKey.serverList at hne hnil
          rw [(Rotated.permissions hplan).2.1] at hnil
          exact absurd hnil hne
        | delete =>
          rw [hm] at hplan
          exact absurd hplan (fun h => h)
    · rw [hch.others id hid, hf] at hf'
      cases hf'
      exact absurd hnil hne

/-- A key restricted to two servers, one of them deleted by now. -/
def sampleKey : APIKey where
  userID := 1
  ownerBindingVersion := 1
  keyHash := ascii "h"
  keyPrefix := ascii "p"
  scopes := some [ascii "servers:read"]
  serverIDs := some [1, 2]
  encryptedRawKey := ascii "c"
  salt := ascii "s"
  cryptoVersion := 2
  permissionsRevision := 1
  permissionsUpdatedAt := none

def sampleWorld : World where
  gate := newGate
  roles := []
  txs := []
  db := { keys := [none, some sampleKey], servers := [1], audit := [] }
  log := []

def sampleAdmin : Principal := ⟨ascii "jwt", ascii "admin", some 1, ascii "root"⟩

/-- Two edits of the key with the same expected revision, of two processes;
the second waits for the row lock. -/
def racingEdits : List Op :=
  [.request false 1 sampleAdmin (ascii "a") (.edit ⟨1, none, some [2]⟩),
    .request false 1 sampleAdmin (ascii "b") (.edit ⟨1, none, some []⟩),
    .tx 0 .lock, .tx 0 (.decide 5), .tx 0 .write, .tx 0 .write, .tx 0 (.commit .committed),
    .tx 1 .lock, .tx 1 (.decide 6)]

theorem key_changes_serial_racing_edits :
    ∃ w tx, (keySystem id).run sampleWorld racingEdits = some w ∧ w.txs[1]? = some tx
      ∧ tx.reply = some (.error .apiKeyRevisionConflict)
      ∧ ∀ (i : Nat) c, w.log[i]? = some c → c.author ≠ .tx 1 := by
  have heval : ((keySystem id).run sampleWorld racingEdits).any (fun w => w.txs[1]?.any fun tx =>
      tx.phase = .ended (.failed (.app .apiKeyRevisionConflict))) = true := by
    decide +kernel
  obtain ⟨w, hrun, hany⟩ := (any_eq_true _ _).mp heval
  obtain ⟨tx, hx, hphase⟩ := (any_eq_true _ _).mp hany
  rw [decide_eq_true_eq] at hphase
  have hw := System.reachable_init (S := keySystem id) (s := sampleWorld) ⟨_, rfl⟩
  refine ⟨w, tx, hrun, hx, ?_, ?_⟩
  · unfold Tx.reply
    rw [hphase]
    rfl
  · exact (key_changes_serial id w (hw.run hrun)).2.2.1 1 tx hx (.inl ⟨_, hphase⟩)

/-- An edit in this process whose COMMIT lands and is not acknowledged. -/
def lostAcknowledgement : List Op :=
  [.request true 1 sampleAdmin (ascii "a") (.edit ⟨1, none, some [2]⟩),
    .gate 0 .lock, .gate 0 (.readOk 1), .gate 0 .enter,
    .tx 0 .lock, .tx 0 (.decide 5), .tx 0 .write, .tx 0 .write,
    .tx 0 (.commit (.unknown .landed)), .settle 0]

/-- **A failed edit may have changed the key**: the service answers that it is
unavailable, the row has the new restriction and revision, and the audit event
is there. -/
theorem unknown_commit_changes_key :
    ∃ w tx row row', (keySystem id).run sampleWorld lostAcknowledgement = some w
      ∧ w.txs[0]? = some tx ∧ tx.reply = some (.error .unavailable)
      ∧ sampleWorld.db.find 1 = some row ∧ w.db.find 1 = some row'
      ∧ row.serverIDs = some [1, 2] ∧ row'.serverIDs = some [2]
      ∧ row'.permissionsRevision = row.permissionsRevision + 1
      ∧ sampleWorld.db.audit.length = 0 ∧ w.db.audit.length = 1 := by
  have heval : ((keySystem id).run sampleWorld lostAcknowledgement).any (fun w =>
      (w.txs[0]?.any fun tx => tx.phase = .ended .unknown)
        && (w.db.find 1).any (fun row => row.serverIDs = some [2]
          ∧ row.permissionsRevision = 2)
        && decide (w.db.audit.length = 1)) = true := by
    decide +kernel
  obtain ⟨w, hrun, hall⟩ := (any_eq_true _ _).mp heval
  rw [Bool.and_eq_true, Bool.and_eq_true] at hall
  obtain ⟨⟨htx, hrow⟩, haudit⟩ := hall
  obtain ⟨tx, hx, hphase⟩ := (any_eq_true _ _).mp htx
  obtain ⟨row', hf, hnew⟩ := (any_eq_true _ _).mp hrow
  rw [decide_eq_true_eq] at hphase hnew haudit
  refine ⟨w, tx, sampleKey, row', hrun, hx, ?_, rfl, hf, rfl, hnew.1, hnew.2, rfl, haudit⟩
  unfold Tx.reply
  rw [hphase]
  rfl

end Talus.ApiKey
