/-
  Talus.ApiKey.Validate
  **A KEY IS ADMITTED AS IT WAS COMMITTED, INSIDE THE GATE SECTION.**

  `Validate` reads the key by hash before it enters the gate, and trusts that
  copy when the revision read inside the gate is the copy's own.  Why that is
  sound, whatever happens in between: a revision determines the policy
  (`Forward`), so the copy agrees with the row that was current when the
  revision was read.  With another revision the row is read again, and the hash
  is compared with the presented secret in both cases.

  Neither the gate's exclusion nor the fence is needed for it: mutations of
  other processes and transactions in doubt may commit at any moment.
-/
import Talus.Admission.Revocation
import Talus.ApiKey.Changes

namespace Talus.ApiKey

open Talus.Base List Option
open Talus.Admission (Gate Call CallOp CallMove Phase Kind Source Fate GateOp gateStep newGate
  call_cases)

variable {hash : Bytes → Bytes}

/-! ## §1. What stays true of the past. -/

variable {w w' : World} {d : Db}

theorem Advance.states (a : Advance w w') {t : Nat}
    (h : w.states[t]? = some d) : w'.states[t]? = some d := by
  obtain ⟨hl, hd, -⟩ | ⟨author, hl, -, -⟩ := a.log
  · have hs : w'.states = w.states := by
      unfold World.states
      rw [hl, hd]
    rw [hs]
    exact h
  · rw [World.states_append hl,
      List.getElem?_append_left (List.getElem?_eq_some_iff.mp h).1]
    exact h

theorem Advance.length_le (a : Advance w w') : w.log.length ≤ w'.log.length := by
  obtain ⟨hl, -, -⟩ | ⟨author, hl, -, -⟩ := a.log
  · rw [hl]
  · rw [hl, length_append]
    omega

theorem World.states_last (w : World) : w.states[w.log.length]? = some w.db := by
  unfold World.states
  rw [getElem?_append_right (by rw [length_map]), length_map]
  simp

/-- `key` agrees with the row of key `id` that was current at some time from
`opened` to `closed`. -/
def CurrentAt (w : World) (id : KeyID) (key : APIKey) (opened closed : Nat) : Prop :=
  ∃ t db row, opened ≤ t ∧ t ≤ closed ∧ w.states[t]? = some db ∧ db.find id = some row
    ∧ key.keyHash = row.keyHash ∧ key.scopes = row.scopes ∧ key.serverIDs = row.serverIDs
    ∧ key.permissionsRevision = row.permissionsRevision

variable {key : APIKey}

theorem CurrentAt.mono {id : KeyID} {o c c' : Nat}
    (h : CurrentAt w id key o c) (a : Advance w w') (hc : c ≤ c') :
    CurrentAt w' id key o c' := by
  obtain ⟨t, db, row, hot, htc, hst, hrest⟩ := h
  exact ⟨t, db, row, hot, Nat.le_trans htc hc, a.states hst, hrest⟩

/-! ## §2. The invariant of a validation. -/

/-- The copy may be old, but a row of its revision has its policy. -/
def Known (d : Db) (id : KeyID) (key : APIKey) : Prop :=
  id < d.keys.length ∧ ∀ r, d.find id = some r →
    key.permissionsRevision < r.permissionsRevision
      ∨ key.permissionsRevision = r.permissionsRevision ∧ SamePolicy key r

theorem known_of_find {id : KeyID} (h : d.find id = some key) : Known d id key := by
  refine ⟨Db.find_lt h, fun r hr => ?_⟩
  rw [h] at hr
  cases hr
  exact .inr ⟨rfl, rfl, rfl, rfl⟩

theorem Known.forward {d' : Db} {id : KeyID} (h : Known d id key)
    (hf : Forward d d') : Known d' id key := by
  refine ⟨Nat.lt_of_lt_of_le h.1 hf.length_le, fun r' hr' => ?_⟩
  obtain ⟨r, hr, hrr'⟩ := hf.row id h.1 r' hr'
  obtain hlt | ⟨heq, hsame⟩ := h.2 r hr
  · obtain hlt' | ⟨heq', -⟩ := hrr' <;> exact .inl (by omega)
  · obtain hlt' | ⟨heq', hsame'⟩ := hrr'
    · exact .inl (by omega)
    · exact .inr ⟨heq.trans heq', hsame'.1.trans hsame.1, hsame'.2.1.trans hsame.2.1,
        hsame'.2.2.trans hsame.2.2⟩

/-- **A revision names one policy.**  A row found later under `id` has a higher
revision, or the same one with the same secret, scopes and servers. -/
theorem revision_names_policy (hash : Bytes → Bytes) (w w' : World) (ops : List Op) (id : KeyID)
    (hw : (keySystem hash).Reachable w) (hkey : w.db.find id = some key)
    (hrun : (keySystem hash).run w ops = some w') : Known w'.db id key := by
  have hinv := System.run_invariant (S := keySystem hash)
    (I := fun w => (keySystem hash).Reachable w ∧ Known w.db id key)
    (fun _ _ _ hs he => ⟨hs.1.step he,
      hs.2.forward ((reachable_lockInv hs.1).advance (keyStep_effect he)).forward⟩)
    ops w w' ⟨hw, known_of_find hkey⟩ hrun
  exact hinv.2

theorem revision_names_policy_migration :
    ∃ w, (keySystem id).run sampleWorld [.secretMigration 1 [] []] = some w
      ∧ Known w.db 1 sampleKey :=
  System.exists_run rfl fun hrun =>
    revision_names_policy id _ _ _ 1 (System.reachable_init ⟨_, rfl⟩) rfl hrun

/-- What holds of a validation while its call is in phase `ph`. -/
structure ValidationOk (hash : Bytes → Bytes) (w : World) (v : Validation) (ph : Phase) :
    Prop where
  known : Known w.db v.id v.key
  opened : ph.holds = true → ∃ o, v.opened = some o ∧ o ≤ w.log.length
  /-- the key is read again only inside the callback -/
  reloaded : v.reloaded = true → (∃ src version, ph = .running src version) ∨ ph = .done
  unfinished : ph ≠ .done → v.result = none
  /-- a copy with the revision the gate has read, or read again, is current -/
  current : ∀ version o, ph.version? = some version → v.opened = some o → version ≠ 0 →
    (version = v.key.permissionsRevision ∨ v.reloaded = true) →
    CurrentAt w v.id v.key o w.log.length
  admitted : ∀ key closed, v.result = some (.ok key, closed) →
    key.keyHash = hash v.secret ∧ ∃ o, v.opened = some o ∧ CurrentAt w v.id key o closed

variable {v : Validation}

theorem ValidationOk.mono {ph : Phase}
    (h : ValidationOk hash w v ph) (a : Advance w w') : ValidationOk hash w' v ph where
  known := h.known.forward a.forward
  opened hh :=
    let ⟨o, ho, hle⟩ := h.opened hh
    ⟨o, ho, Nat.le_trans hle a.length_le⟩
  reloaded := h.reloaded
  unfinished := h.unfinished
  current version o hv ho hz hor := (h.current version o hv ho hz hor).mono a a.length_le
  admitted key closed hr :=
    let ⟨hk, o, ho, hc⟩ := h.admitted key closed hr
    ⟨hk, o, ho, hc.mono a (Nat.le_refl closed)⟩

structure ValidInv (hash : Bytes → Bytes) (w : World) : Prop where
  paired : w.roles.length = w.gate.calls.length
  ok : ∀ (k : Nat) v, w.roles[k]? = some (.validation v) →
    ∃ c, w.gate.calls[k]? = some c ∧ c.user = v.id ∧ ValidationOk hash w v c.phase

variable {k : Nat}

/-- The rule for steps of one call. -/
theorem ValidInv.set (h : ValidInv hash w) (a : Advance w w')
    {c' : Call} {role' : Role} (hk : k < w.gate.calls.length)
    (hcalls : w'.gate.calls = w.gate.calls.set k c')
    (hroles : w'.roles = w.roles.set k role')
    (hnew : ∀ v, role' = .validation v → c'.user = v.id ∧ ValidationOk hash w' v c'.phase) :
    ValidInv hash w' := by
  constructor
  · rw [hcalls, hroles, length_set, length_set]
    exact h.paired
  · intro j v hv
    rw [hroles] at hv
    rw [hcalls]
    obtain ⟨rfl, hrole⟩ | ⟨hne, hv⟩ := getElem?_set_cases hv
    · exact ⟨c', getElem?_set_self hk, hnew v hrole.symm⟩
    · obtain ⟨c, hc, hid, hok⟩ := h.ok j v hv
      exact ⟨c, by rw [getElem?_set_ne hne]; exact hc, hid, hok.mono a⟩

/-- The rule for steps that add a call. -/
theorem ValidInv.append (h : ValidInv hash w) (a : Advance w w') {c' : Call}
    {role' : Role} (hcalls : w'.gate.calls = w.gate.calls ++ [c'])
    (hroles : w'.roles = w.roles ++ [role'])
    (hnew : ∀ v, role' = .validation v → c'.user = v.id ∧ ValidationOk hash w' v c'.phase) :
    ValidInv hash w' := by
  constructor
  · rw [hcalls, hroles, length_append, length_append, h.paired]
    rfl
  · intro j v hv
    rw [hroles] at hv
    rw [hcalls]
    obtain hv | ⟨rfl, hrole⟩ := getElem?_concat_cases hv
    · obtain ⟨c, hc, hid, hok⟩ := h.ok j v hv
      refine ⟨c, ?_, hid, hok.mono a⟩
      rw [List.getElem?_append_left (List.getElem?_eq_some_iff.mp hc).1]
      exact hc
    · refine ⟨c', ?_, hnew v hrole.symm⟩
      rw [h.paired, getElem?_concat_length]

/-- The rule for steps that touch neither the calls nor their roles. -/
theorem ValidInv.frame (h : ValidInv hash w) (a : Advance w w')
    (hcalls : w'.gate.calls = w.gate.calls) (hroles : w'.roles = w.roles) :
    ValidInv hash w' := by
  constructor
  · rw [hcalls, hroles]
    exact h.paired
  · intro k v hv
    rw [hroles] at hv
    obtain ⟨c, hc, hid, hok⟩ := h.ok k v hv
    exact ⟨c, by rw [hcalls]; exact hc, hid, hok.mono a⟩

/-! ## §3. The steps of the gate. -/

/-- The revision a source answers with is that of the current row. -/
theorem find_of_revision {id : KeyID} {version : Int} (h : version = d.revision id)
    (hz : version ≠ 0) : ∃ row, d.find id = some row ∧ row.permissionsRevision = version := by
  unfold Db.revision at h
  cases hf : d.find id with
  | none =>
    rw [hf] at h
    exact absurd h hz
  | some row =>
    rw [hf] at h
    exact ⟨row, rfl, h.symm⟩

/-- The call ends, with an error or with an admission that is in order. -/
theorem ValidationOk.close {ph : Phase}
    (h : ValidationOk hash w v ph) {res : Except ValidateError APIKey} {n : Nat}
    (hres : ∀ key, res = .ok key →
      key.keyHash = hash v.secret ∧ ∃ o, v.opened = some o ∧ CurrentAt w v.id key o n) :
    ValidationOk hash w { v with result := some (res, n) } .done where
  known := h.known
  opened hh := absurd hh (by simp [Phase.holds])
  reloaded _ := .inr rfl
  unfinished hne := absurd rfl hne
  current _ _ hv := absurd hv (by simp [Phase.version?])
  admitted key closed hr := by
    obtain ⟨hok, rfl⟩ := Prod.mk.inj (some.inj hr)
    exact hres key hok

/-- A step of `withUser` outside the callback keeps the validation's
invariant. -/
theorem ValidationOk.gateMove {c : Call} {op : CallOp}
    {r : Phase × Admission.UserState × List Admission.GateEvent} {st : Admission.UserState}
    (h : ValidationOk hash w v c.phase) (hid : c.user = v.id) (m : CallMove c st op r)
    (hen : w.enabled c op = true) :
    ValidationOk hash w (v.gateStep w.log.length op) r.1 := by
  -- before the callback nothing was read again and nothing was returned
  have hfresh : (∀ src version, c.phase ≠ .running src version) → c.phase ≠ .done →
      v.reloaded = false := by
    intro hrun hdone
    cases hr : v.reloaded with
    | false => rfl
    | true =>
      obtain ⟨src, version, hp⟩ | hp := h.reloaded hr
      · exact absurd hp (hrun src version)
      · exact absurd hp hdone
  cases m with
  | giveUp hp | readFail src hp | lateFail src version hp =>
    exact h.close fun key hk => absurd hk (by simp)
  | lock hp hl =>
    have hold := hfresh (by simp [hp]) (by simp [hp])
    have hnone := h.unfinished (by simp [hp])
    exact {
      known := h.known
      opened := fun _ => ⟨w.log.length, rfl, Nat.le_refl _⟩
      reloaded := fun hr => absurd hr (by simp [Validation.gateStep, hold])
      unfinished := fun _ => hnone
      current := fun _ _ hv => absurd hv (by simp [Phase.version?])
      admitted := fun _ _ hr => absurd (hnone.symm.trans hr) (by simp) }
  | readOk src version hp =>
    have hold := hfresh (by simp [hp]) (by simp [hp])
    have hopened := h.opened (by rw [hp]; rfl)
    refine ⟨h.known, fun _ => hopened, fun hr => ?_, fun _ => h.unfinished (by simp [hp]), ?_,
      h.admitted⟩
    · exact absurd (hold.symm.trans hr) (by simp)
    · intro version' o hv ho hz hor
      cases hv
      obtain ⟨o', ho', hle⟩ := hopened
      cases ho'.symm.trans ho
      -- the copy has the revision of the current row, hence its policy
      have hrev : version = v.key.permissionsRevision :=
        hor.resolve_right fun hr => absurd (hold.symm.trans hr) (by simp)
      have hans : version = w.db.revision v.id := by
        simp only [World.enabled, hp, World.answers, hid, Bool.and_eq_true, beq_iff_eq] at hen
        exact hen.2
      obtain ⟨row, hf, hrow⟩ := find_of_revision hans hz
      obtain hlt | ⟨-, hsame⟩ := h.known.2 row hf
      · exact absurd hlt (by omega)
      · exact ⟨w.log.length, w.db, row, hle, Nat.le_refl _, w.states_last, hf,
          hsame.1.symm, hsame.2.1.symm, hsame.2.2.symm, (hrow.trans hrev).symm⟩
  | enter src version hp =>
    rw [hp] at h
    exact {
      known := h.known
      opened := fun _ => h.opened rfl
      reloaded := fun _ => .inl ⟨src, version, rfl⟩
      unfinished := fun _ => h.unfinished (by simp)
      current := fun version' o hv => h.current version' o hv
      admitted := h.admitted }
  | finish src version hp | finishUncertain src version hp hk =>
    exact absurd hen (by simp [World.enabled])

/-! ## §4. The callback. -/

variable {vv : Int × Validation}

theorem validating_cases (h : w.validating k = some vv) : ∃ c src, w.gate.calls[k]? = some c
      ∧ w.roles[k]? = some (.validation vv.2) ∧ c.phase = .running src vv.1 := by
  unfold World.validating at h
  split at h
  · next c v hc hv =>
    split at h
    · next src version hp =>
      rw [← some.inj h]
      exact ⟨c, src, hc, hv, hp⟩
    · cases h
  · cases h

/-- What the callback answers; an admission has compared revision and hash. -/
theorem verdict_ok {revision : Int} (h : v.verdict hash revision = some (.ok key)) :
    key = v.key ∧ revision ≠ 0 ∧ v.key.keyHash = hash v.secret
      ∧ (revision = v.key.permissionsRevision ∨ v.reloaded = true) := by
  unfold Validation.verdict at h
  split at h
  · cases h
  · next hz =>
    split at h
    · cases h
    · next hor =>
      split at h
      · cases h
      · next hh =>
        refine ⟨(Except.ok.inj (some.inj h)).symm, hz, not_not.mp hh, ?_⟩
        by_cases hr : revision = v.key.permissionsRevision
        · exact .inl hr
        · cases hre : v.reloaded with
          | false => exact absurd ⟨hr, hre⟩ hor
          | true => exact .inr rfl

/-- The callback returns: the call is done, and the result is in order. -/
theorem ValidInv.close (h : ValidInv hash w) (a : Advance w w') {res : Except ValidateError APIKey}
    (hv : w.validating k = some vv) (hc : w.close k vv.2 res = some w')
    (hres : ∀ key, res = .ok key → vv.2.verdict hash vv.1 = some (.ok key)) :
    ValidInv hash w' := by
  obtain ⟨c, src, hcall, hrole, hp⟩ := validating_cases hv
  obtain ⟨c₀, hc₀, hid, hok⟩ := h.ok k vv.2 hrole
  rw [hcall] at hc₀
  cases hc₀
  obtain ⟨g, hg, rfl⟩ := map_eq_some_iff.mp hc
  obtain ⟨c', r, hc', m, rfl⟩ := call_cases hg
  rw [hcall] at hc'
  cases hc'
  have hdone : r.1 = .done := by cases m; rfl
  refine h.set a (List.getElem?_eq_some_iff.mp hcall).1 rfl rfl ?_
  intro v hv'
  cases hv'
  refine ⟨hid, ?_⟩
  show ValidationOk hash _ _ r.1
  rw [hdone]
  refine ((hok.close (n := w.log.length) ?_).mono a)
  intro key hk
  obtain ⟨rfl, hz, hh, hor⟩ := verdict_ok (hres key hk)
  obtain ⟨o, ho, -⟩ := hok.opened (by rw [hp]; rfl)
  exact ⟨hh, o, ho, hok.current vv.1 o (by rw [hp]; rfl) ho hz hor⟩

/-- The key is read again: the copy is the current row. -/
theorem ValidInv.reload (h : ValidInv hash w)
    {row : APIKey} {v' : Validation} (hv : w.validating k = some vv)
    (hf : w.db.find vv.2.id = some row) (hv' : v' = { vv.2 with key := row, reloaded := true })
    (a : Advance w { w with roles := w.roles.set k (.validation v') }) :
    ValidInv hash { w with roles := w.roles.set k (.validation v') } := by
  obtain ⟨c, src, hcall, hrole, hp⟩ := validating_cases hv
  obtain ⟨c₀, hc₀, hid, hok⟩ := h.ok k vv.2 hrole
  rw [hcall] at hc₀
  cases hc₀
  obtain ⟨hlt, hself⟩ := List.getElem?_eq_some_iff.mp hcall
  have hcalls : w.gate.calls = w.gate.calls.set k c := (hself ▸ set_getElem_self hlt).symm
  refine h.set a hlt hcalls rfl fun v hv'' => ?_
  cases hv''
  subst hv'
  refine ⟨hid, ?_⟩
  exact {
    known := known_of_find hf
    opened := hok.opened
    reloaded := fun _ => .inl ⟨src, vv.1, hp⟩
    unfinished := hok.unfinished
    current := fun version o _ ho _ _ => by
      obtain ⟨o', ho', hle⟩ := hok.opened (by rw [hp]; rfl)
      cases ho'.symm.trans ho
      exact ⟨w.log.length, w.db, row, hle, Nat.le_refl _, w.states_last, hf, rfl, rfl, rfl, rfl⟩
    admitted := fun key closed hr =>
      absurd ((hok.unfinished (by simp [hp])).symm.trans hr) (by simp) }

/-! ## §5. Whole runs. -/

theorem start_calls {g g' : Gate} {u : Nat} {kind : Kind}
    (h : gateStep g (.start u kind) = some g') : g'.calls = g.calls ++ [⟨u, kind, .waiting⟩] := by
  rw [← some.inj h]

theorem findByHash_find {h : Bytes} {found : KeyID × APIKey}
    (hf : d.findByHash h = some found) : d.find found.1 = some found.2 := by
  obtain ⟨id, _, hmap⟩ := bind_eq_some_iff.mp hf
  obtain ⟨k, hk, rfl⟩ := map_eq_some_iff.mp hmap
  exact hk

theorem ValidInv.step {op : Op} (h : ValidInv hash w) (a : Advance w w')
    (hs : keyStep hash w op = some w') : ValidInv hash w' := by
  cases op with
  | request here id p operationID m =>
    simp only [keyStep] at hs
    split at hs
    · rw [← some.inj hs] at a ⊢
      exact h.frame a rfl rfl
    · split at hs
      · obtain ⟨g, hg, rfl⟩ := map_eq_some_iff.mp hs
        exact h.append a (start_calls hg) rfl fun v hv => absurd hv (by simp)
      · rw [← some.inj hs] at a ⊢
        exact h.frame a rfl rfl
  | validate secret =>
    obtain ⟨found, hfound, hs⟩ := bind_eq_some_iff.mp hs
    obtain ⟨g, hg, rfl⟩ := map_eq_some_iff.mp hs
    refine h.append a (start_calls hg) rfl fun v hv => ?_
    cases hv
    exact ⟨rfl, {
      known := known_of_find (findByHash_find hfound)
      opened := fun hh => absurd hh (by simp [Phase.holds])
      reloaded := fun hr => absurd hr (by simp)
      unfinished := fun _ => rfl
      current := fun _ _ hv => absurd hv (by simp [Phase.version?])
      admitted := fun _ _ hr => absurd hr (by simp) }⟩
  | gate k op =>
    obtain ⟨c, hc, hs⟩ := bind_eq_some_iff.mp hs
    obtain ⟨role, hrole, hs⟩ := bind_eq_some_iff.mp hs
    split at hs
    · next hen =>
      obtain ⟨g, hg, rfl⟩ := map_eq_some_iff.mp hs
      obtain ⟨c', r, hc', m, rfl⟩ := call_cases hg
      rw [hc] at hc'
      cases hc'
      refine h.set a (List.getElem?_eq_some_iff.mp hc).1 rfl rfl fun v hv => ?_
      cases role with
      | mutation t => exact absurd hv (by simp [Role.gateStep])
      | validation v₀ =>
        cases hv
        obtain ⟨c₀, hc₀, hid, hok⟩ := h.ok k v₀ hrole
        rw [hc] at hc₀
        cases hc₀
        have hid' : c.user = (v₀.gateStep w.log.length op).id := by
          rw [hid]
          unfold Validation.gateStep
          split
          · rfl
          · split <;> rfl
        exact ⟨hid', (hok.gateMove hid m hen).mono a⟩
    · cases hs
  | reload k answered =>
    obtain ⟨vv, hv, hs⟩ := bind_eq_some_iff.mp hs
    split at hs
    · split at hs
      · split at hs
        · next row hf =>
          rw [← some.inj hs] at a ⊢
          exact h.reload hv hf rfl a
        · exact h.close a hv hs fun key hk => absurd hk (by simp)
      · exact h.close a hv hs fun key hk => absurd hk (by simp)
    · cases hs
  | answer k =>
    obtain ⟨vv, hv, hs⟩ := bind_eq_some_iff.mp hs
    obtain ⟨r, hr, hs⟩ := bind_eq_some_iff.mp hs
    exact h.close a hv hs fun key hk => hk ▸ hr
  | tx t op =>
    obtain ⟨tx, hx, hs⟩ := bind_eq_some_iff.mp hs
    split at hs
    · obtain ⟨⟨ph, wr⟩, hr, rfl⟩ := map_eq_some_iff.mp hs
      cases wr with
      | none | some wr => exact h.frame a rfl rfl
    · cases hs
  | settle k =>
    simp only [keyStep] at hs
    split at hs
    · next t hrole =>
      obtain ⟨tx, _, hs⟩ := bind_eq_some_iff.mp hs
      obtain ⟨u, _, hs⟩ := bind_eq_some_iff.mp hs
      obtain ⟨g, hg, rfl⟩ := map_eq_some_iff.mp hs
      obtain ⟨c, r, hc, m, rfl⟩ := call_cases hg
      obtain ⟨hlt, hself⟩ := List.getElem?_eq_some_iff.mp hrole
      have hroles : w.roles = w.roles.set k (.mutation t) :=
        (hself ▸ set_getElem_self hlt).symm
      exact h.set a (List.getElem?_eq_some_iff.mp hc).1 rfl hroles fun v hv => absurd hv (by simp)
    · cases hs
  | create key | ownerBackfill admin | setServers servers =>
    rw [← some.inj hs] at a ⊢
    exact h.frame a rfl rfl
  | secretMigration id salt raw =>
    simp only [keyStep] at hs
    split at hs
    · cases hs
    · rw [← some.inj hs] at a ⊢
      exact h.frame a rfl rfl

theorem reachable_validInv (h : (keySystem hash).Reachable w) : ValidInv hash w := by
  refine h.invariant_with (fun _ hr => reachable_lockInv hr) ?_
    fun s op s' hlock hs he => hs.step (hlock.advance (keyStep_effect he)) he
  rintro _ ⟨db, rfl⟩
  exact ⟨rfl, fun k v hv => absurd hv (by simp)⟩

/-- **API-key admission is sound.**  In every reachable state, a key that
`Validate` has returned stores the hash of the presented secret and has the
hash, scopes, server restriction and revision of one committed state of its
row, current at some moment from the beginning to the end of the call's gate
section.  So a secret whose hash no row held in any state of that section is
not admitted. -/
theorem validate_admits_committed (hash : Bytes → Bytes) (w : World)
    (hw : (keySystem hash).Reachable w) (k : Nat) (v : Validation)
    (hv : w.roles[k]? = some (.validation v)) :
    (∀ key closed, v.result = some (.ok key, closed) →
        key.keyHash = hash v.secret
          ∧ ∃ opened, v.opened = some opened ∧ CurrentAt w v.id key opened closed)
      ∧ ∀ opened closed res, v.opened = some opened → v.result = some (res, closed) →
          (∀ (t : Nat) db id row, opened ≤ t → t ≤ closed → w.states[t]? = some db →
            db.find id = some row → row.keyHash ≠ hash v.secret) →
          ∃ e, res = .error e := by
  obtain ⟨c, _, _, hok⟩ := (reachable_validInv hw).ok k v hv
  refine ⟨hok.admitted, ?_⟩
  intro opened closed res ho hr hgone
  cases res with
  | error e => exact ⟨e, rfl⟩
  | ok key =>
    obtain ⟨hkey, o, ho', t, db, row, hot, htc, hst, hf, hhash, -⟩ := hok.admitted key closed hr
    cases ho'.symm.trans ho
    exact absurd (hhash.symm.trans hkey) (hgone t db v.id row hot htc hst hf)

/-- The key is edited between the lookup by hash and the gate, by another
process, and its owner is bound meanwhile. -/
def editedMeanwhile : List Op :=
  [.validate (ascii "h"),
    .request false 1 sampleAdmin (ascii "a") (.edit ⟨1, some [ascii "metrics:read"], some [2]⟩),
    .tx 0 .lock, .tx 0 (.decide 5), .tx 0 .write, .tx 0 .write, .tx 0 (.commit .committed),
    .gate 0 .lock, .gate 0 (.readOk 2), .gate 0 .enter, .reload 0 true, .ownerBackfill 9, .answer 0]

/-- The admission a call has ended with. -/
def Role.admission? : Role → Option (Validation × APIKey × Nat)
  | .validation v =>
    match v.result with
    | some (.ok key, closed) => some (v, key, closed)
    | _ => none
  | .mutation _ => none

theorem admission?_some {role : Role} {a : Validation × APIKey × Nat}
    (h : role.admission? = some a) :
    role = .validation a.1 ∧ a.1.result = some (.ok a.2.1, a.2.2) := by
  cases role with
  | mutation t => exact absurd h (by simp [Role.admission?])
  | validation v =>
    simp only [Role.admission?] at h
    split at h
    · next key closed hres =>
      rw [← some.inj h]
      exact ⟨rfl, hres⟩
    · cases h

/-- It is admitted with the scopes and the servers of the edit. -/
theorem validate_admits_committed_edited :
    ∃ w v key, (keySystem id).run sampleWorld editedMeanwhile = some w
      ∧ w.roles[0]? = some (.validation v) ∧ v.result = some (.ok key, 2)
      ∧ key.scopes = some [ascii "metrics:read"] ∧ key.serverIDs = some [2]
      ∧ key.permissionsRevision = 2 ∧ key.keyHash = ascii "h"
      ∧ ∃ opened, v.opened = some opened ∧ CurrentAt w v.id key opened 2 := by
  have heval : ((keySystem id).run sampleWorld editedMeanwhile).any (fun (w : World) =>
      (w.roles[0]?.bind Role.admission?).any fun a =>
        a.1.secret = ascii "h" ∧ a.2.1.scopes = some [ascii "metrics:read"]
          ∧ a.2.1.serverIDs = some [2] ∧ a.2.1.permissionsRevision = 2 ∧ a.2.2 = 2) = true := by
    decide +kernel
  obtain ⟨w, hrun, hany⟩ := (any_eq_true _ _).mp heval
  obtain ⟨⟨v, key, closed⟩, hadm, hfacts⟩ := (any_eq_true _ _).mp hany
  obtain ⟨role, hrole, hsome⟩ := bind_eq_some_iff.mp hadm
  obtain ⟨rfl, hres⟩ := admission?_some hsome
  obtain ⟨hsecret, hsc, hsv, hrev, rfl⟩ := of_decide_eq_true hfacts
  have hw := System.reachable_init (S := keySystem id) (s := sampleWorld) ⟨_, rfl⟩
  obtain ⟨hkey, hcur⟩ := (validate_admits_committed id w (hw.run hrun) 0 v hrole).1 key 2 hres
  exact ⟨w, v, key, hrun, hrole, hres, hsc, hsv, hrev, hkey.trans hsecret, hcur⟩

end Talus.ApiKey
