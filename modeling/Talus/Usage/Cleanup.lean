/-
  Talus.Usage.Cleanup
  **DELETION OF EXPIRED USAGE LOGS.**

  `Cleanup` reads candidate ids without locks and then deletes row by row, in
  one transaction each that locks the owner before the row and repeats every
  check under the locks; `cleanupInstances` deletes owners no row refers to.
  Any id may be a candidate here, so nothing rests on the first query.  The
  retention policy is the one in force at the transaction: it is part of the
  label, like the clock.

  What is proved of every interleaving with the transactions of
  `Talus.Usage.Store`:

    • `usage_cleanup_safe`: a deleted row was closed, its retention had elapsed
      and, if its owner's lease had expired, the owner was not live; the owner
      of such a row is refused from then on,
    • `late_snapshot_recreates_row`: the owner of a row that was deleted in any
      other state goes on, and a late running snapshot of it is inserted again.
-/
import Talus.Usage.LiveOwner

namespace Talus.Usage

open Talus.Base List Option

/-! ## §1. The transactions of `Cleanup`. -/

/-- The row with this `id`. -/
def Store.byID (s : Store) (id : Nat) : Option (OperationID × UsageLog) :=
  s.order.findSome? fun o => (s.logs o).bind fun r => if r.id = id then some (o, r) else none

def Store.deleteLog (s : Store) (o : OperationID) : Store :=
  { s with logs := fun i => if i = o then none else s.logs i
           order := s.order.filter (· ≠ o) }

def Store.deleteInstance (s : Store) (id : InstanceID) : Store :=
  { s with instances := fun i => if i = id then none else s.instances i }

/-- The row was given up because its owner's lease had run out. -/
def UsageLog.ownerExpired (v : UsageLog) : Bool :=
  decide (v.outcome = .unknown) && decide (v.recoveryReason = .ownerLeaseExpired)

/-- The owner is neither retired nor past its lease. -/
def Instance.live (now : Time) (owner : Instance) : Bool :=
  owner.retiredAt.isNone && decide (now < owner.leaseUntil)

/-- The owner's row, when the log names one and the instance exists. -/
def Store.ownerOf (s : Store) (v : UsageLog) : Option (InstanceID × Instance) :=
  v.ownerInstanceID.bind fun id => (s.instances id).map fun owner => (id, owner)

/-- One transaction of `Cleanup`.  `backfilled`: the import of legacy audit
events is complete. -/
def Store.cleanup (cfg : Config) (s : Store) (now : Time) (id : Nat) (backfilled : Bool) :
    Store :=
  match s.byID id with
  | none => s
  | some (o, v) =>
    if v.outcome = .running ∨ v.lapsed cfg now = false then s
    else if v.source = .auditLegacy ∧ backfilled = false then s
    else if v.ownerExpired then
      match s.ownerOf v with
      | none => s.deleteLog o
      | some (ow, owner) =>
        if owner.live now then s
        -- the owner is retired in the same transaction
        else if owner.retiredAt.isNone then
          (s.setInstance ow { owner with retiredAt := some now }).deleteLog o
        else s.deleteLog o
    else s.deleteLog o

/-- One transaction of `cleanupInstances`. -/
def Store.cleanupInstance (s : Store) (now : Time) (id : InstanceID) : Store :=
  match s.instances id with
  | none => s
  | some owner => if owner.live now || s.referenced id then s else s.deleteInstance id

inductive TableOp
  /-- `Upsert`, `Heartbeat`, `RegisterInstance` or a pass of `Reconcile` -/
  | txn (cfg : Config) (t : Txn)
  | cleanup (cfg : Config) (now : Time) (id : Nat) (backfilled : Bool)
  | cleanupInstance (now : Time) (id : InstanceID)

def tableStep (s : Store) : TableOp → Store
  | .txn cfg t => storeStep cfg s t
  | .cleanup cfg now id backfilled => s.cleanup cfg now id backfilled
  | .cleanupInstance now id => s.cleanupInstance now id

/-- The two tables under any sequence of transactions, from any content. -/
def tableSystem : System Store TableOp where
  init _ := True
  step s op := some (tableStep s op)

/-! ## §2. What a cleanup can do. -/

variable {s : Store} {o : OperationID} {v : UsageLog}

theorem byID_some {id : Nat} (h : s.byID id = some (o, v)) : s.logs o = some v := by
  obtain ⟨o', _, hb⟩ := exists_of_findSome?_eq_some h
  obtain ⟨r, hr, hif⟩ := bind_eq_some_iff.mp hb
  split at hif
  · obtain ⟨rfl, rfl⟩ := Prod.mk.inj (some.inj hif)
    exact hr
  · cases hif

/-- **The row may be deleted**: it is closed, its retention has elapsed under
this policy, and if it was given up because of its owner's lease, that owner
is not live. -/
structure Eligible (cfg : Config) (now : Time) (s : Store) (r : UsageLog) : Prop where
  closed : r.outcome ≠ .running
  elapsed : ∃ t, r.retentionAt = some t ∧ t + cfg.retention r.action ≤ now
  ownerGone : r.ownerExpired = true → ∀ ow owner, r.ownerInstanceID = some ow →
    s.instances ow = some owner → owner.live now = false

/-- The owner is missing or retired. -/
def Store.Refuses (s : Store) (ow : InstanceID) : Prop :=
  ∀ owner, s.instances ow = some owner → owner.retiredAt.isSome = true

/-- The outcomes of the transaction. -/
inductive Cleaned (cfg : Config) (now : Time) (s : Store) : Store → Prop
  | kept : Cleaned cfg now s s
  | deleted (o : OperationID) (v : UsageLog) (s₁ : Store) (hv : s.logs o = some v)
      (he : Eligible cfg now s v)
      /- the owner of a row with an expired lease has been retired, or was -/
      (hr : v.ownerExpired = true → ∀ ow, v.ownerInstanceID = some ow → s₁.Refuses ow)
      (hlogs : s₁.logs = s.logs)
      (hinst : ∀ ow owner, s₁.instances ow = some owner → s.instances ow = some owner
        ∨ owner.retiredAt.isSome = true) :
      Cleaned cfg now s (s₁.deleteLog o)

variable {cfg : Config} {now : Time}

theorem lapsed_elapsed (h : v.lapsed cfg now ≠ false) :
    ∃ t, v.retentionAt = some t ∧ t + cfg.retention v.action ≤ now := by
  unfold UsageLog.lapsed at h
  cases hr : v.retentionAt with
  | none =>
    rw [hr] at h
    exact absurd rfl h
  | some t =>
    rw [hr] at h
    exact ⟨t, rfl, by simpa using h⟩

/-- A retired owner is refused, whatever else the tables hold. -/
theorem refuses_setInstance (s : Store) (ow : InstanceID) {owner : Instance}
    (h : owner.retiredAt.isSome = true) : (s.setInstance ow owner).Refuses ow := by
  intro owner' ho'
  have heq : owner = owner' := mem_unique (if_pos rfl) ho'
  exact heq ▸ h

theorem cleanup_cleaned (cfg : Config) (s : Store) (now : Time) (id : Nat) (backfilled : Bool) :
    Cleaned cfg now s (s.cleanup cfg now id backfilled) := by
  unfold Store.cleanup
  split
  · exact .kept
  · next o v hby =>
    have hv := byID_some hby
    split
    · exact .kept
    · next hclosed =>
      rw [not_or] at hclosed
      have helapsed := lapsed_elapsed hclosed.2
      split
      · exact .kept
      · split
        · next hexp =>
          split
          · next hnone =>
            -- the owner is missing
            have hgone : ∀ ow, v.ownerInstanceID = some ow → s.instances ow = none := by
              intro ow how
              unfold Store.ownerOf at hnone
              rw [how] at hnone
              exact map_eq_none_iff.mp hnone
            refine .deleted o v s hv ⟨hclosed.1, helapsed, ?_⟩ ?_ rfl fun _ _ h => .inl h
            · intro _ ow owner how hs
              rw [hgone ow how] at hs
              cases hs
            · intro _ ow how owner hs
              rw [hgone ow how] at hs
              cases hs
          · next ow owner hsome =>
            -- the owner's row is locked and read
            obtain ⟨ow', how, hmap⟩ := bind_eq_some_iff.mp hsome
            obtain ⟨owner', hs, hpair⟩ := map_eq_some_iff.mp hmap
            obtain ⟨rfl, rfl⟩ := Prod.mk.inj hpair
            split
            · exact .kept
            · next hdead =>
              have helig : Eligible cfg now s v := by
                refine ⟨hclosed.1, helapsed, fun _ ow owner how' hs' => ?_⟩
                cases how.symm.trans how'
                cases hs.symm.trans hs'
                simpa using hdead
              split
              · refine .deleted o v _ hv helig ?_ rfl ?_
                · intro _ ow how'
                  cases how.symm.trans how'
                  exact refuses_setInstance s ow' rfl
                · intro ow owner hs'
                  by_cases hne : ow = ow'
                  · exact .inr (refuses_setInstance s ow' rfl owner (hne ▸ hs'))
                  · exact .inl ((if_neg hne).symm.trans hs')
              · next hret =>
                refine .deleted o v s hv helig ?_ rfl fun _ _ h => .inl h
                intro _ ow how' owner hs'
                cases how.symm.trans how'
                cases hs.symm.trans hs'
                cases hr : owner'.retiredAt with
                | none => exact absurd (by rw [hr]; rfl) hret
                | some t => rfl
        · next hexp =>
          refine .deleted o v s hv ⟨hclosed.1, helapsed, fun h => absurd h hexp⟩
            (fun h => absurd h hexp) rfl fun _ _ h => .inl h

theorem deleteLog_logs (s : Store) (o i : OperationID) :
    (s.deleteLog o).logs i = if i = o then none else s.logs i := rfl

theorem cleanupInstance_logs (s : Store) (now : Time) (id : InstanceID) :
    (s.cleanupInstance now id).logs = s.logs := by
  unfold Store.cleanupInstance
  split
  · rfl
  · split <;> rfl

variable {ow : InstanceID}

/-- Owners only disappear. -/
theorem cleanupInstance_instances {id : InstanceID}
    {owner : Instance} (h : (s.cleanupInstance now id).instances ow = some owner) :
    s.instances ow = some owner := by
  unfold Store.cleanupInstance at h
  split at h
  · exact h
  · split at h
    · exact h
    · change (if ow = id then none else s.instances ow) = some owner at h
      split at h
      · cases h
      · exact h

/-! ## §3. A deleted row was eligible. -/

/-- Only `Cleanup` deletes rows, and only eligible ones. -/
theorem deleted_eligible {op : TableOp} {r : UsageLog}
    (hr : s.logs o = some r) (hgone : (tableStep s op).logs o = none) :
    ∃ cfg now id backfilled, op = .cleanup cfg now id backfilled ∧ Eligible cfg now s r := by
  cases op with
  | txn cfg t =>
    obtain ⟨r', hr', _⟩ : ∃ r', (storeStep cfg s t).logs o = some r' ∧ RowMove cfg s o t r r' :=
      storeStep_row t hr
    exact absurd (hr'.symm.trans hgone) (by simp)
  | cleanup cfg now id backfilled =>
    refine ⟨cfg, now, id, backfilled, rfl, ?_⟩
    simp only [tableStep] at hgone
    generalize hs' : s.cleanup cfg now id backfilled = s' at hgone
    have hc := cleanup_cleaned cfg s now id backfilled
    rw [hs'] at hc
    cases hc with
    | kept => exact absurd (hr.symm.trans hgone) (by simp)
    | deleted o' v s₁ hv he _ hlogs _ =>
      rw [deleteLog_logs] at hgone
      split at hgone
      · next heq =>
        subst heq
        cases hr.symm.trans hv
        exact he
      · rw [hlogs] at hgone
        exact absurd (hr.symm.trans hgone) (by simp)
  | cleanupInstance now id =>
    simp only [tableStep, cleanupInstance_logs] at hgone
    exact absurd (hr.symm.trans hgone) (by simp)

/-! ## §4. A retired owner stays refused. -/

/-- The step registers this owner. -/
def TableOp.registers (ow : InstanceID) : TableOp → Prop
  | .txn _ (.register _ id) => id = ow
  | _ => False

/-- The owner is refused, and the operation has no row of it. -/
structure Forgotten (ow : InstanceID) (o : OperationID) (s : Store) : Prop where
  refused : s.Refuses ow
  gone : ∀ r, s.logs o = some r → r.ownerInstanceID ≠ some ow

/-- `lockOwner` for a refused owner. -/
theorem Store.Refuses.lockOwner (h : s.Refuses ow) (now : Time)
    (valid : Bool) : ∃ e, s.lockOwner now ow valid = .error e := by
  unfold Store.lockOwner
  cases hs : s.instances ow with
  | none => exact ⟨_, rfl⟩
  | some owner =>
    dsimp only
    rw [if_pos (h owner hs)]
    exact ⟨_, rfl⟩

/-- **No snapshot of a refused owner is taken.** -/
theorem Store.Refuses.upsert (h : s.Refuses ow) (cfg : Config)
    (now : Time) (hv : v.ownerInstanceID = some ow) :
    ∃ e, Usage.upsert cfg s now v = .error e := by
  unfold Usage.upsert
  cases hp : prepare cfg v with
  | error e => exact ⟨e, rfl⟩
  | ok v' =>
    have how : v'.ownerInstanceID = some ow := (prepare_core hp).ownerInstanceID.trans hv
    obtain ⟨e, he⟩ := h.lockOwner now true
    dsimp only
    rw [how]
    dsimp only
    rw [he]
    exact ⟨e, rfl⟩

theorem Store.Refuses.txn (h : s.Refuses ow)
    {t : Txn} (hno : ¬ (TableOp.txn cfg t).registers ow) : (storeStep cfg s t).Refuses ow := by
  by_cases hlease : t.leaseOf = some ow
  · cases t with
    | upsert now v | reconcile self id now tracked locked remaining =>
      exact absurd hlease (by simp [Txn.leaseOf])
    | register now id =>
      have hid : id = ow := some.inj hlease
      exact absurd hid hno
    | heartbeat now id =>
      -- a heartbeat does not revive a retired owner
      have hid : id = ow := some.inj hlease
      obtain ⟨e, he⟩ := h.lockOwner now false
      have hsame : storeStep cfg s (.heartbeat now id) = s := by
        simp only [storeStep, Store.heartbeat, hid, he]
        rfl
      rw [hsame]
      exact h
  · intro owner ho
    rw [storeStep_instances t hlease] at ho
    exact h owner ho

theorem Forgotten.step {op : TableOp}
    (h : Forgotten ow o s) (hno : ¬ op.registers ow) : Forgotten ow o (tableStep s op) := by
  cases op with
  | txn cfg t =>
    refine ⟨h.refused.txn hno, fun r' hr' => ?_⟩
    obtain ⟨r, hl, hmove⟩ | ⟨hl, now, input, v, rfl, hv, -, rfl⟩ := storeStep_origin t hr'
    · -- an update keeps the owner of the row
      rw [(rowMove_keys hmove).2]
      exact h.gone r hl
    · -- an insert of this owner would have been refused
      intro how
      have hown : input.ownerInstanceID = some ow :=
        (prepare_core hv).ownerInstanceID.symm.trans how
      obtain ⟨e, he⟩ := h.refused.upsert cfg now hown
      rw [tableStep, storeStep_upsert_error he, hl] at hr'
      cases hr'
  | cleanup cfg now id backfilled =>
    simp only [tableStep]
    generalize hs' : s.cleanup cfg now id backfilled = s'
    have hc := cleanup_cleaned cfg s now id backfilled
    rw [hs'] at hc
    cases hc with
    | kept => exact h
    | deleted o' v s₁ _ _ _ hlogs hinst =>
      constructor
      · intro owner hs
        obtain hold | hret := hinst ow owner hs
        · exact h.refused owner hold
        · exact hret
      · intro r hr
        rw [deleteLog_logs, hlogs] at hr
        split at hr
        · cases hr
        · exact h.gone r hr
  | cleanupInstance now id =>
    refine ⟨fun owner ho => h.refused owner (cleanupInstance_instances ho), ?_⟩
    simp only [tableStep, cleanupInstance_logs]
    exact h.gone

/-- Over a whole run that does not register the owner again. -/
theorem Forgotten.run (ops : List TableOp) :
    ∀ {s s' : Store}, Forgotten ow o s → (∀ op ∈ ops, ¬ op.registers ow) →
      tableSystem.run s ops = some s' → Forgotten ow o s' := by
  induction ops with
  | nil =>
    intro s s' h _ hrun
    exact some.inj hrun ▸ h
  | cons op ops ih =>
    intro s s' h hno hrun
    obtain ⟨t, ht, hrest⟩ := tableSystem.run_cons hrun
    have ht' : tableStep s op = t := some.inj ht
    refine ih ?_ (fun op' hop' => hno op' (mem_cons_of_mem op hop')) hrest
    rw [← ht']
    exact h.step (hno op mem_cons_self)

/-- The deletion of a row whose owner's lease had expired forgets the owner. -/
theorem forgotten_of_deleted {id : Nat} {backfilled : Bool} {r : UsageLog}
    (hr : s.logs o = some r) (hgone : (s.cleanup cfg now id backfilled).logs o = none)
    (hexp : r.ownerExpired = true) (how : r.ownerInstanceID = some ow) :
    Forgotten ow o (s.cleanup cfg now id backfilled) := by
  have hc := cleanup_cleaned cfg s now id backfilled
  generalize s.cleanup cfg now id backfilled = s' at hc hgone
  refine ⟨?_, fun r' hr' => absurd (hr'.symm.trans hgone) (by simp)⟩
  cases hc with
  | kept => exact absurd (hr.symm.trans hgone) (by simp)
  | deleted o' v s₁ hv _ hret hlogs _ =>
    rw [deleteLog_logs, hlogs] at hgone
    split at hgone
    · next heq =>
      subst heq
      cases hr.symm.trans hv
      exact hret hexp ow how
    · exact absurd (hr.symm.trans hgone) (by simp)

/-! ## §5. Late snapshots. -/

/-- A running snapshot has no retention to lapse. -/
theorem prepare_running_lapsed {v' : UsageLog}
    (hp : prepare cfg v = .ok v') (hrun : v.outcome = .running) :
    v'.lapsed cfg now = false := by
  have hset := prepare_settles hp
  unfold UsageLog.settleTimes at hset
  rw [if_pos (show v.defaulted.outcome = .running from hrun)] at hset
  rw [← Except.ok.inj hset]
  rfl

/-- A running snapshot of an operation without a row is inserted exactly while
its owner is live. -/
theorem upsert_running_new {v' : UsageLog} (hp : prepare cfg v = .ok v') (hrun : v.outcome = .running)
    (how : v.ownerInstanceID = some ow) (hnew : s.logs v.operationID = none) :
    (∃ s', upsert cfg s now v = .ok (s', true)) ↔
      ∃ owner, s.instances ow = some owner ∧ owner.live now = true := by
  have hcore := prepare_core hp
  have hmerge : merge cfg s now v' = .ok (s.insertLog now (v'.columns cfg), true) := by
    unfold merge
    rw [hcore.operationID, hnew]
    rw [prepare_running_lapsed hp hrun]
    rfl
  unfold upsert Store.lockOwner
  rw [hp]
  dsimp only
  rw [hcore.ownerInstanceID, how]
  dsimp only
  cases hs : s.instances ow with
  | none =>
    constructor
    · rintro ⟨s', h⟩
      cases h
    · rintro ⟨owner, ho, -⟩
      cases ho
  | some owner =>
    unfold Instance.live
    cases hr : owner.retiredAt with
    | some t => simp [hr]
    | none =>
      by_cases hlease : owner.leaseUntil ≤ now
      · have hdead : ¬ now < owner.leaseUntil := Int.not_lt.mpr hlease
        simp [hr, hlease, hdead]
      · have hlive : now < owner.leaseUntil := Int.not_le.mp hlease
        simp [hr, hlease, hlive, hmerge]

/-- **Cleanup is safe.**  From any content of the tables and in any interleaving
of `Upsert`, `Heartbeat`, `RegisterInstance`, `Reconcile`, `Cleanup` and the
instance cleanup of any number of owners:

  • a step that deletes a row is a transaction of `Cleanup`, and the row was not
    running, its retention had elapsed under the policy in force, and it was
    not an `owner_lease_expired` row of a live owner;
  • when it was an `owner_lease_expired` row, its owner is refused after that
    transaction and for good: as long as that id is not registered again, every
    `Upsert` of it fails and the operation has no row of it;
  • in general a late running snapshot of an operation without a row is inserted
    exactly while its owner is present, not retired and within its lease. -/
theorem usage_cleanup_safe :
    (∀ (s : Store) (op : TableOp) o r, s.logs o = some r → (tableStep s op).logs o = none →
        ∃ cfg now id backfilled, op = .cleanup cfg now id backfilled ∧ Eligible cfg now s r)
      ∧ (∀ (s s' : Store) cfg now id backfilled o r ow (ops : List TableOp),
          s.logs o = some r → (s.cleanup cfg now id backfilled).logs o = none →
          r.ownerExpired = true → r.ownerInstanceID = some ow →
          (∀ op ∈ ops, ¬ op.registers ow) →
          tableSystem.run (s.cleanup cfg now id backfilled) ops = some s' →
          Forgotten ow o s' ∧ ∀ cfg' now' v, v.ownerInstanceID = some ow →
            ∃ e, upsert cfg' s' now' v = .error e)
      ∧ ∀ (cfg : Config) (s : Store) now v v' ow, prepare cfg v = .ok v' →
          v.outcome = .running → v.ownerInstanceID = some ow → s.logs v.operationID = none →
          ((∃ s', upsert cfg s now v = .ok (s', true)) ↔
            ∃ owner, s.instances ow = some owner ∧ owner.live now = true) := by
  refine ⟨fun s op o r hr hgone => deleted_eligible hr hgone, ?_, ?_⟩
  · intro s s' cfg now id backfilled o r ow ops hr hgone hexp how hno hrun
    have hforgot := (forgotten_of_deleted hr hgone hexp how).run ops hno hrun
    exact ⟨hforgot, fun cfg' now' v hv => hforgot.refused.upsert cfg' now' hv⟩
  · intro cfg s now v v' ow hp hrun how hnew
    exact upsert_running_new hp hrun how hnew

/-- The owner of a running row dies, another instance gives the row up, and it
is deleted a month later. -/
def ownerDied : List TableOp :=
  [.txn defaultConfig (.upsert 5 execRunning),
    .txn defaultConfig (.reconcile "other" "hub" 200 [] [] 200)]

def ownerDiedStore : Store := ownerDied.foldl tableStep ownedStore

theorem usage_cleanup_safe_owner_died :
    (ownerDiedStore.cleanup defaultConfig (31 * day) 1 false).logs "op" = none
      ∧ ∃ s', tableSystem.run (ownerDiedStore.cleanup defaultConfig (31 * day) 1 false)
            [.txn defaultConfig (.heartbeat (32 * day) "hub"),
              .cleanupInstance (32 * day) "hub"] = some s'
          ∧ ∃ e, upsert defaultConfig s' (33 * day) execRunning = .error e := by
  have hrow : ∃ r, ownerDiedStore.logs "op" = some r ∧ r.ownerExpired = true
      ∧ r.ownerInstanceID = some "hub" := ⟨_, rfl, rfl, rfl⟩
  obtain ⟨r, hr, hexp, how⟩ := hrow
  have hgone : (ownerDiedStore.cleanup defaultConfig (31 * day) 1 false).logs "op" = none := by
    rfl
  refine ⟨hgone, _, rfl, ?_⟩
  refine (usage_cleanup_safe.2.1 ownerDiedStore _ defaultConfig (31 * day) 1 false "op" r "hub"
    [.txn defaultConfig (.heartbeat (32 * day) "hub"), .cleanupInstance (32 * day) "hub"]
    hr hgone hexp how ?_ rfl).2 defaultConfig (33 * day) execRunning rfl
  intro op hop
  simp only [mem_cons, not_mem_nil, or_false] at hop
  obtain rfl | rfl := hop
  · exact fun h => h
  · exact fun h => h

/-- A finished operation of a healthy owner is deleted, and then its running
snapshot comes once more. -/
def lateSnapshot : List TableOp :=
  [.txn defaultConfig (.upsert 5 execRunning), .txn defaultConfig (.upsert 6 execFinal),
    .txn defaultConfig (.heartbeat (31 * day) "hub"),
    .cleanup defaultConfig (31 * day + 1) 1 false,
    .txn defaultConfig (.upsert (31 * day + 2) execRunning)]

/-- **A deleted row may come back as running**: only the owner of an
`owner_lease_expired` row is retired. -/
theorem late_snapshot_recreates_row :
    ∃ before after s r r', tableSystem.run ownedStore (lateSnapshot.take 3) = some before
      ∧ before.logs "op" = some r ∧ r.outcome = .succeeded ∧ r.ownerInstanceID = some "hub"
      ∧ tableSystem.run ownedStore (lateSnapshot.take 4) = some after ∧ after.logs "op" = none
      ∧ tableSystem.run ownedStore lateSnapshot = some s ∧ s.logs "op" = some r'
      ∧ r'.outcome = .running ∧ r'.ownerInstanceID = some "hub" :=
  ⟨_, _, _, _, _, rfl, rfl, rfl, rfl, rfl, rfl, rfl, rfl, rfl, rfl⟩

end Talus.Usage
