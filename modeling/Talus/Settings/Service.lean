/-
  Talus.Settings.Service
  **HUBS THAT SHARE ONE SETTINGS ROW.**

  A Hub holds the row it last observed and publishes a runtime snapshot; any
  number of Hubs run against one row, and the mutex of each makes it do one
  thing at a time:

    • it starts: `Load` reads the row (and inserts it when it is missing), the
      overrides are merged over the deployment's configuration,
    • `Refresh` reads the row and, if its revision is another, merges it,
    • `Update` merges a request into the overrides held in memory, stores the
      canonical values under the next revision together with an audit event,
      and publishes what it merged.

  Between the read or the transaction and what the Hub makes of it, other Hubs
  go on.  A transaction that fails has no effect; the acknowledgement of one
  that committed may be lost.
-/
import Talus.Base.Run
import Talus.Settings.Config

namespace Talus.Settings

open Talus.Base

/-! ## §1. The stored row. -/

/-- The `overrides` column. -/
inductive Document
  | object (values : Overrides)
  | null
  | other

/-- `model.SystemSettings`, of which there is one. -/
structure Row where
  revision : Nat
  overrides : Document

/-- What `Load` inserts when there is no row. -/
def firstRow : Row := ⟨1, .object ∅⟩

/-- `SettingsLoadError`. -/
structure LoadError where
  revision : Nat
  key : String
  deriving DecidableEq, Repr

/-- The key of the first validation error. -/
def failureKey (errors : Failure) : String := (errors.head?.map SettingError.key).getD "overrides"

variable (parse : UrlParser)

def mergeStoredSettings (base : Config) (row : Row) : Except LoadError (Config × Overrides) :=
  match row.overrides with
  | .object values =>
    match mergeSettings parse base values with
    | .ok desired => .ok (desired, values)
    | .error errors => .error ⟨row.revision, failureKey errors⟩
  | .null => .error ⟨row.revision, "overrides"⟩
  | .other => .error ⟨row.revision, "overrides"⟩

/-! ## §2. The service of one Hub. -/

structure SettingsRecovery where
  revision : Nat
  key : String
  deriving DecidableEq, Repr

/-- `SystemSettingsService`. -/
structure Hub where
  base : Config
  boot : Config
  runtime : Config
  row : Row
  overrides : Overrides
  recovery : Option SettingsRecovery

inductive StartError
  | load (e : LoadError)
  | deployment (errors : Failure)

def newSystemSettingsService (base : Config) (row : Row) : Except StartError Hub :=
  match mergeStoredSettings parse base row with
  | .ok (boot, values) => .ok ⟨base, boot, boot, row, values, none⟩
  | .error e =>
    if base.settingsIgnoreInvalidOverrides = false then .error (.load e)
    else match mergeSettings parse base ∅ with
      | .error errors => .error (.deployment errors)
      | .ok boot => .ok ⟨base, boot, boot, row, ∅, some ⟨row.revision, e.key⟩⟩

namespace Hub

/-- `Refresh`, after `Load` has returned `row`. -/
def refresh (h : Hub) (row : Row) : Except LoadError Hub :=
  if row.revision = h.row.revision then .ok h
  else match mergeStoredSettings parse h.base row with
    | .error e => .error e
    | .ok (desired, values) =>
      .ok { h with
        row := row
        overrides := values
        recovery := none
        runtime := applyLive desired h.boot }

end Hub

structure SettingsUpdate where
  revision : Nat
  values : Overrides
  confirmRetentionChange : Bool

/-- What the caller of `Update` puts into the audit event. -/
structure Caller where
  operationId : Option String
  userId : Nat
  username : String
  ipAddress : String
  deriving DecidableEq, Repr

structure Change where
  before : Raw
  after : Raw
  wasOverride : Bool
  isOverride : Bool
  deriving DecidableEq, Repr

/-- The details of the audit event. -/
structure Details where
  revision : Nat
  changes : List (String × Change)
  recovery : Option SettingsRecovery
  deriving DecidableEq, Repr

structure AuditEvent where
  operationId : String
  userId : Nat
  username : String
  ipAddress : String
  action : String
  resourceType : String
  resourceId : Nat
  details : Details
  deriving DecidableEq, Repr

inductive UpdateError
  | conflict
  | invalid
  | unknownSetting (key : String)
  | invalidSettings (errors : Failure)
  | retentionConfirmation
  | store

/-- An update that has passed its checks. -/
structure Prepared where
  expected : Nat
  next : Row
  values : Overrides
  desired : Config
  audit : AuditEvent

/-- One value of the request: `null` restores the deployment's. -/
def patchValue (values : Overrides) (entry : (_ : String) × Raw) : Except UpdateError Overrides :=
  match known entry.1 with
  | none => .error (.unknownSetting entry.1)
  | some _ =>
    if entry.2 = .null then .ok (values.erase entry.1) else .ok (values.insert entry.1 entry.2)

namespace Hub

/-- `before`: the configuration of the overrides in memory, or on an error
the deployment's. -/
def current (h : Hub) : Config := (mergeSettings parse h.base h.overrides).toOption.getD h.base

/-- The `changes` of the audit event. -/
def changes (h : Hub) (req : SettingsUpdate) (desired : Config) (values : Overrides) :
    List (String × Change) :=
  (fields.filter fun f => decide (f.key ∈ req.values)).map fun f =>
    (f.key, ⟨encode f ((h.current parse).setting f), encode f (desired.setting f),
      decide (f.key ∈ h.overrides), decide (f.key ∈ values)⟩)

/-- The audit event; `fresh` is the operation id made when the caller has none. -/
def event (h : Hub) (caller : Caller) (fresh : String) (details : Details) : AuditEvent where
  operationId := if caller.operationId.getD "" = "" then fresh else caller.operationId.getD ""
  userId := caller.userId
  username := caller.username
  ipAddress := caller.ipAddress
  action := "settings.update"
  resourceType := "settings"
  resourceId := 1
  details := { details with recovery := h.recovery }

theorem event_audits (h : Hub) (caller : Caller) (fresh : String) (details : Details) :
    (h.event caller fresh details).details.revision = details.revision ∧
      (h.event caller fresh details).action = "settings.update" := ⟨rfl, rfl⟩

/-- What `Update` hands to `Save`: the canonical values are stored, what was
merged is published. -/
def prepared (h : Hub) (req : SettingsUpdate) (caller : Caller) (fresh : String)
    (desired : Config) (values : Overrides) : Prepared where
  expected := h.row.revision
  next := ⟨h.row.revision + 1, .object (canonicalValues desired values)⟩
  values := canonicalValues desired values
  desired := desired
  audit := h.event caller fresh
    ⟨h.row.revision + 1, h.changes parse req desired (canonicalValues desired values), none⟩

/-- `Update` up to `Save`. -/
def prepareUpdate (h : Hub) (req : SettingsUpdate) (caller : Caller) (fresh : String) :
    Except UpdateError Prepared :=
  if req.revision ≠ h.row.revision then .error .conflict
  else if req.values.entries.length = 0 ∨ req.values.entries.length > fields.length then
    .error .invalid
  else match req.values.entries.foldlM patchValue h.overrides with
    | .error e => .error e
    | .ok values =>
      match mergeSettings parse h.base values with
      | .error errors => .error (.invalidSettings errors)
      | .ok desired =>
        if retentionConfirmationRequired (h.current parse) desired ∧
            req.confirmRetentionChange = false then
          .error .retentionConfirmation
        else .ok (h.prepared parse req caller fresh desired values)

/-- `Update` after `Save`. -/
def adopt (h : Hub) (p : Prepared) : Hub :=
  { h with
    row := p.next
    overrides := p.values
    recovery := none
    runtime := applyLive p.desired h.boot }

end Hub

/-- What `prepareUpdate` has made sure of. -/
structure Prepares (h : Hub) (req : SettingsUpdate) (p : Prepared) : Prop where
  requested : req.revision = p.expected
  expected : p.expected = h.row.revision
  revision : p.next.revision = p.expected + 1
  document : p.next.overrides = .object p.values
  audited : p.audit.details.revision = p.next.revision ∧ p.audit.action = "settings.update"
  merged : ∃ values, req.values.entries.foldlM patchValue h.overrides = .ok values ∧
    mergeSettings parse h.base values = .ok p.desired ∧
    p.values = canonicalValues p.desired values

variable {req : SettingsUpdate}

variable {h : Hub}

theorem prepares_prepared (caller : Caller) (fresh : String) {desired : Config} {values : Overrides}
    (hrev : req.revision = h.row.revision)
    (hpatch : req.values.entries.foldlM patchValue h.overrides = .ok values)
    (hmerge : mergeSettings parse h.base values = .ok desired) :
    Prepares parse h req (h.prepared parse req caller fresh desired values) where
  requested := hrev
  expected := rfl
  revision := rfl
  document := rfl
  audited := h.event_audits _ _ _
  merged := ⟨values, hpatch, hmerge, rfl⟩

variable {caller : Caller} {fresh : String}

/-- **Inversion** of the checks. -/
theorem prepareUpdate_cases {p : Prepared} (hp : h.prepareUpdate parse req caller fresh = .ok p) :
    ∃ values desired, req.revision = h.row.revision ∧
      req.values.entries.foldlM patchValue h.overrides = .ok values ∧
      mergeSettings parse h.base values = .ok desired ∧
      (req.confirmRetentionChange = false →
        retentionConfirmationRequired (h.current parse) desired = false) ∧
      p = h.prepared parse req caller fresh desired values := by
  unfold Hub.prepareUpdate at hp
  split at hp
  · cases hp
  rename_i hrev
  split at hp
  · cases hp
  split at hp
  · cases hp
  rename_i values hpatch
  split at hp
  · cases hp
  rename_i desired hmerge
  split at hp
  · cases hp
  rename_i hconfirm
  cases hp
  exact ⟨values, desired, not_not.1 hrev, hpatch, hmerge, fun hno => by simpa [hno] using hconfirm, rfl⟩

theorem prepareUpdate_ok {p : Prepared} (hp : h.prepareUpdate parse req caller fresh = .ok p) :
    Prepares parse h req p := by
  obtain ⟨values, desired, hrev, hpatch, hmerge, -, rfl⟩ := prepareUpdate_cases parse hp
  exact prepares_prepared parse caller fresh hrev hpatch hmerge

/-- What the overrides become: the request's value where it has one, `null`
taking it away, and otherwise the Hub's. -/
def patched (overrides request : Overrides) (key : String) : Option Raw :=
  match request.lookup key with
  | some raw => if raw = .null then none else some raw
  | none => overrides.lookup key

theorem patchValue_ok {values values' : Overrides} {entry : (_ : String) × Raw}
    (hp : patchValue values entry = .ok values') (key : String) :
    values'.lookup key =
      if entry.1 = key then (if entry.2 = .null then none else some entry.2)
      else values.lookup key := by
  unfold patchValue at hp
  split at hp
  · cases hp
  by_cases hkey : entry.1 = key
  · subst hkey
    rw [if_pos rfl]
    split at hp <;> rename_i hnull <;> cases hp
    · rw [if_pos hnull, AList.lookup_erase]
    · rw [if_neg hnull, AList.lookup_insert]
  · rw [if_neg hkey]
    split at hp <;> cases hp
    · exact AList.lookup_erase_ne (Ne.symm hkey)
    · exact AList.lookup_insert_ne (Ne.symm hkey)

theorem lookup_patched {overrides request values : Overrides}
    (hp : request.entries.foldlM patchValue overrides = .ok values) (key : String) :
    values.lookup key = patched overrides request key := by
  -- the keys of a map are distinct, so the first entry for the key decides
  suffices h : ∀ (es : List ((_ : String) × Raw)) (overrides : Overrides), es.NodupKeys →
      es.foldlM patchValue overrides = .ok values →
      values.lookup key = match es.dlookup key with
        | some raw => if raw = .null then none else some raw
        | none => overrides.lookup key from h _ _ request.nodupKeys hp
  intro es
  induction es with
  | nil =>
    intro overrides _ hp
    cases hp
    rfl
  | cons e es ih =>
    intro overrides hnodup hp
    rw [List.foldlM_cons] at hp
    cases hstep : patchValue overrides e with
    | error err => rw [hstep] at hp; cases hp
    | ok next =>
      rw [hstep] at hp
      obtain ⟨hout, hrest⟩ := List.nodupKeys_cons.1 hnodup
      rw [ih next hrest hp]
      by_cases hkey : e.1 = key
      · subst hkey
        rw [List.dlookup_eq_none.2 hout, List.dlookup_cons_eq]
        dsimp only
        rw [patchValue_ok hstep, if_pos rfl]
      · rw [List.dlookup_cons_ne es e (Ne.symm hkey)]
        rw [patchValue_ok hstep, if_neg hkey]

/-! ## §3. Any number of Hubs. -/

/-- What a Hub is doing. -/
inductive Activity
  | idle
  /-- `Load` has been sent -/
  | reading
  | loaded (row : Row)
  /-- before the transaction of `Save` -/
  | saving (p : Prepared)
  /-- it has committed, and the Hub knows -/
  | saved (p : Prepared)

structure Slot where
  base : Config
  /-- `none` while the process is down or starting -/
  hub : Option Hub
  activity : Activity
  /-- ghost: the updates that have reached their transaction, or were lost -/
  updates : Nat

/-- Ghost: a committed transaction of `Save`. -/
structure Commit where
  hub : Nat
  update : Nat
  expected : Nat
  row : Row
  event : AuditEvent

structure World where
  row : Option Row
  /-- the table `audit_events`, the latest first -/
  audits : List AuditEvent
  slots : List Slot
  /-- ghost: every row there has been, the latest first -/
  stored : List Row
  commits : List Commit

/-- How the transaction of `Save` ends. -/
inductive Outcome
  | failed
  | answered
  /-- it ran, but its answer does not arrive -/
  | lost
  deriving DecidableEq, Repr

inductive Event
  | join (base : Config)
  | restart (i : Nat) (base : Config)
  | refresh (i : Nat)
  | insert (i : Nat)
  | read (i : Nat) (ok : Bool)
  | finish (i : Nat)
  | update (i : Nat) (req : SettingsUpdate) (caller : Caller) (fresh : String)
  | save (i : Nat) (outcome : Outcome)
  | adopt (i : Nat)

namespace World

def hub? (w : World) (i : Nat) : Option Hub := (w.slots[i]?).bind Slot.hub

def setSlot (w : World) (i : Nat) (s : Slot) : World := { w with slots := w.slots.set i s }

/-- The transaction of `Save` changes the row: its revision is the expected. -/
def accepts (w : World) (p : Prepared) : Bool := w.row.map Row.revision == some p.expected

/-- The committed transaction. -/
def commit (w : World) (i : Nat) (s : Slot) (p : Prepared) : World :=
  { w with
    row := some p.next
    audits := p.audit :: w.audits
    stored := p.next :: w.stored
    commits := ⟨i, s.updates, p.expected, p.next, p.audit⟩ :: w.commits }

end World

/-- What becomes of a Hub that has read the row. -/
def Slot.finish (s : Slot) (row : Row) : Slot :=
  { s with
    activity := .idle
    hub := match s.hub with
      | none => (newSystemSettingsService parse s.base row).toOption
      | some h => some ((h.refresh parse row).toOption.getD h) }

/-- What `slotStep` does with the Hub `i`, which is `s` now. -/
def slotStep (w : World) (i : Nat) (s : Slot) : Event → Option World
  | .restart _ base => some (w.setSlot i ⟨base, none, .reading, s.updates + 1⟩)
  | .refresh _ =>
    match s.hub, s.activity with
    | some _, .idle => some (w.setSlot i { s with activity := .reading })
    | _, _ => none
  | .insert _ =>
    match s.activity, w.row with
    | .reading, none => some { w with row := some firstRow, stored := [firstRow] }
    | _, _ => none
  | .read _ ok =>
    match s.activity, w.row with
    | .reading, some row =>
      some (w.setSlot i { s with activity := if ok then .loaded row else .idle })
    | .reading, none => if ok then none else some (w.setSlot i { s with activity := .idle })
    | _, _ => none
  | .finish _ =>
    match s.activity with
    | .loaded row => some (w.setSlot i (s.finish parse row))
    | _ => none
  | .update _ req caller fresh =>
    match s.hub, s.activity with
    | some h, .idle =>
      match h.prepareUpdate parse req caller fresh with
      | .error _ => some w
      | .ok p => some (w.setSlot i { s with activity := .saving p })
    | _, _ => none
  | .save _ outcome =>
    match s.activity with
    | .saving p =>
      if outcome = .failed ∨ w.accepts p = false then
        some (w.setSlot i { s with activity := .idle, updates := s.updates + 1 })
      else
        some ((w.commit i s p).setSlot i
          { s with
            activity := if outcome = .answered then .saved p else .idle
            updates := s.updates + 1 })
    | _ => none
  | .adopt _ =>
    match s.hub, s.activity with
    | some h, .saved p =>
      some (w.setSlot i { s with hub := some (h.adopt p), activity := .idle })
    | _, _ => none
  | .join _ => none

/-- The Hub an event is about. -/
def Event.hub : Event → Nat
  | .join _ => 0
  | .restart i _ => i
  | .refresh i => i
  | .insert i => i
  | .read i _ => i
  | .finish i => i
  | .update i _ _ _ => i
  | .save i _ => i
  | .adopt i => i

def settingsStep (w : World) : Event → Option World
  | .join base => some { w with slots := w.slots ++ [⟨base, none, .reading, 0⟩] }
  | e => (w.slots[e.hub]?).bind fun s => slotStep parse w e.hub s e

def settingsSystem : System World Event where
  init w := w.slots = [] ∧ w.commits = [] ∧ w.stored = w.row.toList
  step := settingsStep parse

/-! ## §4. What one step does. -/

/-- What a step leaves of the store, of the table and of the Hubs. -/
inductive Moves (w : World) : Event → World → Prop
  | join (base : Config) :
      Moves w (.join base) { w with slots := w.slots ++ [⟨base, none, .reading, 0⟩] }
  | restart {i s} (base : Config) (hs : w.slots[i]? = some s) :
      Moves w (.restart i base) (w.setSlot i ⟨base, none, .reading, s.updates + 1⟩)
  | refresh {i s} (hs : w.slots[i]? = some s) (ha : s.activity = .idle) :
      Moves w (.refresh i) (w.setSlot i { s with activity := .reading })
  | insert {i s} (hs : w.slots[i]? = some s) (hrow : w.row = none) :
      Moves w (.insert i) { w with row := some firstRow, stored := [firstRow] }
  | read {i s row} (hs : w.slots[i]? = some s) (hrow : w.row = some row) :
      Moves w (.read i true) (w.setSlot i { s with activity := .loaded row })
  | unread {i s} (hs : w.slots[i]? = some s) :
      Moves w (.read i false) (w.setSlot i { s with activity := .idle })
  | finish {i s row} (hs : w.slots[i]? = some s) (ha : s.activity = .loaded row) :
      Moves w (.finish i) (w.setSlot i (s.finish parse row))
  | reject {i s h e} (req : SettingsUpdate) (caller : Caller) (fresh : String)
      (hs : w.slots[i]? = some s) (hh : s.hub = some h)
      (hp : h.prepareUpdate parse req caller fresh = .error e) :
      Moves w (.update i req caller fresh) w
  | prepare {i s h p} (req : SettingsUpdate) (caller : Caller) (fresh : String)
      (hs : w.slots[i]? = some s) (hh : s.hub = some h) (ha : s.activity = .idle)
      (hp : h.prepareUpdate parse req caller fresh = .ok p) :
      Moves w (.update i req caller fresh) (w.setSlot i { s with activity := .saving p })
  | fail {i s p} (outcome : Outcome) (hs : w.slots[i]? = some s) (ha : s.activity = .saving p)
      (hf : outcome = .failed ∨ w.accepts p = false) :
      Moves w (.save i outcome)
        (w.setSlot i { s with activity := .idle, updates := s.updates + 1 })
  | commit {i s p} (hs : w.slots[i]? = some s) (ha : s.activity = .saving p)
      (hc : w.accepts p = true) :
      Moves w (.save i .answered)
        ((w.commit i s p).setSlot i { s with activity := .saved p, updates := s.updates + 1 })
  | lose {i s p} (hs : w.slots[i]? = some s) (ha : s.activity = .saving p)
      (hc : w.accepts p = true) :
      Moves w (.save i .lost)
        ((w.commit i s p).setSlot i { s with activity := .idle, updates := s.updates + 1 })
  | adopt {i s h p} (hs : w.slots[i]? = some s) (hh : s.hub = some h)
      (ha : s.activity = .saved p) :
      Moves w (.adopt i) (w.setSlot i { s with hub := some (h.adopt p), activity := .idle })

variable {w w' : World} {i : Nat} {s : Slot}

theorem save_moves {outcome : Outcome}
    (hs : w.slots[i]? = some s) (h : slotStep parse w i s (.save i outcome) = some w') :
    Moves parse w (.save i outcome) w' := by
  simp only [slotStep] at h
  split at h
  · rename_i p ha
    split at h
    · rename_i hf
      cases h
      exact .fail outcome hs ha hf
    · rename_i hf
      rw [not_or] at hf
      have hc : w.accepts p = true := by simpa using hf.2
      cases outcome with
      | failed => exact absurd rfl hf.1
      | answered => cases h; exact .commit hs ha hc
      | lost => cases h; exact .lose hs ha hc
  · cases h

theorem update_moves (hs : w.slots[i]? = some s)
    (h : slotStep parse w i s (.update i req caller fresh) = some w') :
    Moves parse w (.update i req caller fresh) w' := by
  simp only [slotStep] at h
  split at h
  · rename_i hub hh ha
    split at h
    · rename_i e hp
      cases h
      exact .reject req caller fresh hs hh hp
    · rename_i p hp
      cases h
      exact .prepare req caller fresh hs hh ha hp
  · cases h

theorem read_moves {ok : Bool}
    (hs : w.slots[i]? = some s) (h : slotStep parse w i s (.read i ok) = some w') :
    Moves parse w (.read i ok) w' := by
  simp only [slotStep] at h
  split at h
  · rename_i row _ hrow
    cases h
    cases ok with
    | true => exact .read hs hrow
    | false => exact .unread hs
  · cases ok with
    | true => cases h
    | false => cases h; exact .unread hs
  · cases h

/-- **The inversion of a step.** -/
theorem moves_of_step {e : Event} (h : settingsStep parse w e = some w') : Moves parse w e w' := by
  cases e with
  | join base => cases h; exact .join base
  | restart i base =>
    obtain ⟨s, hs, h⟩ := Option.bind_eq_some_iff.1 h
    cases h
    exact .restart base hs
  | refresh i =>
    obtain ⟨s, hs, h⟩ := Option.bind_eq_some_iff.1 h
    simp only [slotStep] at h
    split at h
    · rename_i ha
      cases h
      exact .refresh hs ha
    · cases h
  | insert i =>
    obtain ⟨s, hs, h⟩ := Option.bind_eq_some_iff.1 h
    simp only [slotStep] at h
    split at h
    · rename_i hrow
      cases h
      exact .insert hs hrow
    · cases h
  | read i ok =>
    obtain ⟨s, hs, h⟩ := Option.bind_eq_some_iff.1 h
    exact read_moves parse hs h
  | finish i =>
    obtain ⟨s, hs, h⟩ := Option.bind_eq_some_iff.1 h
    simp only [slotStep] at h
    split at h
    · rename_i row ha
      cases h
      exact .finish hs ha
    · cases h
  | update i req caller fresh =>
    obtain ⟨s, hs, h⟩ := Option.bind_eq_some_iff.1 h
    exact update_moves parse hs h
  | save i outcome =>
    obtain ⟨s, hs, h⟩ := Option.bind_eq_some_iff.1 h
    exact save_moves parse hs h
  | adopt i =>
    obtain ⟨s, hs, h⟩ := Option.bind_eq_some_iff.1 h
    simp only [slotStep] at h
    split at h
    · rename_i h' p hh ha
      cases h
      exact .adopt hs hh ha
    · cases h

end Talus.Settings
