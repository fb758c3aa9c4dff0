/-
  Talus.ApiKey.Permissions
  **WHAT A PERMISSION EDIT AND A ROTATION DO TO ONE KEY.**

  The callbacks of `service/apikey_permissions.go` and
  `service/apikey_rotation.go`, and the columns the repository then writes, as
  functions of the locked row:

    • `samePermissionSet`/`uniquePermissions`: lists of permissions as sets,
    • `changePermissions`: the callback of `UpdatePermissions`, with its error
      paths; `none` means that there is nothing to change,
    • `auditRotation`: the callback of `Rotate`,
    • `Columns`: an UPDATE names the columns it writes and no others.

  A slice read from a NULL column is `nil`.  It equals the empty slice in every
  comparison below, but not in the JSON of the audit event, and the column
  stays NULL when an edit does not touch it.
-/
import Talus.Base.Json

namespace Talus.ApiKey

open Talus.Base List Option

abbrev KeyID := Nat
abbrev ServerID := Nat

def maxInt64 : Nat := 2 ^ 63 - 1

/-! ## §1. Data. -/

/-- What a rotation replaces; `generateKey` fills these fields. -/
structure Credential where
  keyHash : Bytes
  keyPrefix : Bytes
  encryptedRawKey : Bytes
  salt : Bytes
  cryptoVersion : Int
  deriving DecidableEq

/-- A row of `api_keys`; its id is its place in the table. -/
structure APIKey where
  userID : Nat
  ownerBindingVersion : Nat
  keyHash : Bytes
  keyPrefix : Bytes
  /-- `none` for NULL -/
  scopes : Option (List Bytes)
  /-- `none` for NULL; no ids means no restriction -/
  serverIDs : Option (List ServerID)
  encryptedRawKey : Bytes
  salt : Bytes
  cryptoVersion : Int
  permissionsRevision : Int
  permissionsUpdatedAt : Option Int
  deriving DecidableEq

namespace APIKey

/-- The credential columns. -/
def credential (k : APIKey) : Credential where
  keyHash := k.keyHash
  keyPrefix := k.keyPrefix
  encryptedRawKey := k.encryptedRawKey
  salt := k.salt
  cryptoVersion := k.cryptoVersion

/-- The slice the scopes column is read into. -/
def scopeList (k : APIKey) : List Bytes := k.scopes.getD []

/-- The slice the server column is read into. -/
def serverList (k : APIKey) : List ServerID := k.serverIDs.getD []

end APIKey

structure AuditEvent where
  operationID : Bytes
  userID : Nat
  username : Bytes
  action : Bytes
  resourceType : Bytes
  resourceID : KeyID
  details : Bytes
  deriving DecidableEq

/-- Who asks, as the middleware left it in the context. -/
structure Principal where
  authType : Bytes
  role : Bytes
  userID : Option Nat
  username : Bytes
  deriving DecidableEq

/-- The application errors of the service, by their reasons. -/
inductive AppError
  | forbidden
  | invalidRequest
  | scopesRequired
  | invalidScopes (scopes : List Bytes)
  | apiKeyRevisionConflict
  | invalidServerID
  | serversNotFound (servers : List ServerID)
  | apiKeyNotFound
  | unavailable
  deriving DecidableEq

/-- The errors a gate section of the service ends with. -/
inductive RepoError
  /-- `gorm.ErrRecordNotFound` -/
  | notFound
  /-- an error of the callback -/
  | app (e : AppError)
  /-- `ErrAuditStorage` -/
  | auditStorage
  /-- `ErrAPIKeyCommitUnknown` -/
  | commitUnknown
  /-- of the gate, the context or the driver -/
  | other
  deriving DecidableEq

def apiKeyPolicyError : RepoError → AppError
  | .notFound => .apiKeyNotFound
  | .app e => e
  | .auditStorage | .commitUnknown | .other => .unavailable

structure UpdateAPIKeyPermissionsInput where
  expectedRevision : Int
  scopes : Option (List Bytes)
  serverIDs : Option (List ServerID)
  deriving DecidableEq

/-! ## §2. Permissions as sets. -/

section Sets

variable {α : Type} [DecidableEq α]

/-- The loop of `uniquePermissions`; `seen` is the map. -/
def uniqueFrom (seen : List α) : List α → List α
  | [] => []
  | v :: vs => if v ∈ seen then uniqueFrom seen vs else v :: uniqueFrom (v :: seen) vs

/-- The distinct values, in the order of their first occurrences. -/
def uniquePermissions (values : List α) : List α := uniqueFrom [] values

/-- The two maps hold the distinct values of `a` and of `b`. -/
def samePermissionSet (a b : List α) : Bool :=
  b.all (fun v => decide (v ∈ a))
    && (uniquePermissions a).length == (uniquePermissions b).length

theorem mem_uniqueFrom (seen vs : List α) (x : α) : x ∈ uniqueFrom seen vs ↔ x ∈ vs ∧ x ∉ seen := by
  induction vs generalizing seen with
  | nil => simp [uniqueFrom]
  | cons v vs ih =>
    unfold uniqueFrom
    split
    · next hv =>
      rw [ih]
      constructor
      · rintro ⟨hx, hs⟩
        exact ⟨mem_cons_of_mem v hx, hs⟩
      · rintro ⟨hx, hs⟩
        -- the value that was skipped is in `seen`, so `x` is another one
        refine ⟨(mem_cons.mp hx).resolve_left ?_, hs⟩
        rintro rfl
        exact hs hv
    · next hv =>
      rw [mem_cons, ih, mem_cons, mem_cons, not_or]
      by_cases hx : x = v
      · subst hx
        simp [hv]
      · simp [hx]

theorem nodup_uniqueFrom (seen vs : List α) : (uniqueFrom seen vs).Nodup := by
  induction vs generalizing seen with
  | nil => exact nodup_nil
  | cons v vs ih =>
    unfold uniqueFrom
    split
    · exact ih seen
    · refine nodup_cons.mpr ⟨?_, ih (v :: seen)⟩
      intro hv
      exact ((mem_uniqueFrom (v :: seen) vs v).mp hv).2 mem_cons_self

@[simp] theorem mem_uniquePermissions (vs : List α) (x : α) :
    x ∈ uniquePermissions vs ↔ x ∈ vs := by
  unfold uniquePermissions
  rw [mem_uniqueFrom]
  simp

theorem nodup_uniquePermissions (vs : List α) : (uniquePermissions vs).Nodup :=
  nodup_uniqueFrom [] vs

/-- **The comparison of the two maps is equality of the two sets**: `b` has no
value outside `a`, and as many distinct ones. -/
theorem samePermissionSet_iff (a b : List α) :
    samePermissionSet a b = true ↔ ∀ x, x ∈ a ↔ x ∈ b := by
  unfold samePermissionSet
  rw [Bool.and_eq_true, List.all_eq_true, beq_iff_eq]
  constructor
  · rintro ⟨hsub, hlen⟩ x
    have hsub' : ∀ v ∈ b, v ∈ a := fun v hv => of_decide_eq_true (hsub v hv)
    refine ⟨fun hx => ?_, hsub' x⟩
    -- distinct values of `b` among the equally many distinct values of `a`
    have hperm : (uniquePermissions b).Perm (uniquePermissions a) := by
      have hss : (uniquePermissions b).Subperm (uniquePermissions a) := by
        refine (subperm_of_subset (nodup_uniquePermissions b) ?_)
        intro v hv
        rw [mem_uniquePermissions] at hv ⊢
        exact hsub' v hv
      exact hss.perm_of_length_le (Nat.le_of_eq hlen)
    rw [← mem_uniquePermissions b]
    exact hperm.mem_iff.mpr ((mem_uniquePermissions a x).mpr hx)
  · intro h
    refine ⟨fun v hv => decide_eq_true ((h v).mpr hv), ?_⟩
    refine List.Perm.length_eq ?_
    refine (perm_ext_iff_of_nodup (nodup_uniquePermissions a)
      (nodup_uniquePermissions b)).mpr fun x => ?_
    rw [mem_uniquePermissions, mem_uniquePermissions]
    exact h x

end Sets

/-! ## §3. Checks before the gate. -/

def requireAPIKeyAdmin (p : Principal) : Bool :=
  p.authType == ascii "jwt" && p.role == ascii "admin" && p.userID.any (· != 0)

def validScopes : List Bytes :=
  [ascii "files:read", ascii "files:write", ascii "files:delete", ascii "servers:read",
   ascii "servers:write", ascii "servers:exec", ascii "servers:terminal",
   ascii "metrics:read", ascii "credentials:read", ascii "services:read",
   ascii "services:relay"]

/-- The scopes that are not valid ones. -/
def validateScopes (scopes : List Bytes) : List Bytes :=
  scopes.filter fun s => decide (s ∉ validScopes)

/-- The error `UpdatePermissions` returns before it enters the gate, if any. -/
def checkEdit (p : Principal) (input : UpdateAPIKeyPermissionsInput) : Option AppError :=
  if !requireAPIKeyAdmin p then some .forbidden
  else if input.expectedRevision ≤ 0 || (input.scopes.isNone && input.serverIDs.isNone) then
    some .invalidRequest
  else
    match input.scopes with
    | none => none
    | some scopes =>
      if scopes.isEmpty then some .scopesRequired
      else if validateScopes scopes = [] then none
      else some (.invalidScopes (validateScopes scopes))

/-- The same for `Rotate`. -/
def checkRotation (p : Principal) (expectedRevision : Int) : Option AppError :=
  if !requireAPIKeyAdmin p then some .forbidden
  else if expectedRevision ≤ 0 then some .invalidRequest
  else none

/-! ## §4. The callback of a permission edit. -/

/-- A slice in JSON: `nil` is `null`. -/
def jsonSlice {α : Type} (item : α → Bytes) : Option (List α) → Bytes
  | none => ascii "null"
  | some xs => array (xs.map item)

/-- The local type `policy` of the callback, in JSON. -/
def jsonPolicy (scopes : Option (List Bytes)) (serverIDs : Option (List ServerID))
    (revision : Int) : Bytes :=
  object [member "scopes" (jsonSlice quote scopes),
    member "server_ids" (jsonSlice (fun id => decimal (Int.ofNat id)) serverIDs),
    member "revision" (quote (decimal revision))]

/-- `FindExistingIDs`. -/
def findExistingIDs (servers ids : List ServerID) : List ServerID :=
  servers.filter fun id => decide (id ∈ ids)

/-- The new server slice: sorted and without repetitions.  Only ids the key
did not have must name a server, so a deleted server may stay listed. -/
def newServerIDs (servers old ids : List ServerID) : Except AppError (List ServerID) :=
  let ids := (uniquePermissions ids).insertionSort (· ≤ ·)
  if ids.any fun v => v == 0 || decide (maxInt64 < v) then .error .invalidServerID
  else
    let added := ids.filter fun v => decide (v ∉ old)
    let existing := findExistingIDs servers added
    if existing.length ≠ added.length then
      .error (.serversNotFound (added.filter fun v => decide (v ∉ existing)))
    else .ok ids

/-- The scopes after the edit; the slice is kept when the caller gave none. -/
def UpdateAPIKeyPermissionsInput.newScopes (input : UpdateAPIKeyPermissionsInput)
    (key : APIKey) : Option (List Bytes) :=
  match input.scopes with
  | none => key.scopes
  | some scopes => some ((uniquePermissions scopes).insertionSort (· ≤ ·))

/-- The servers after the edit; the slice is kept when the caller gave none. -/
def UpdateAPIKeyPermissionsInput.newServers (input : UpdateAPIKeyPermissionsInput)
    (servers : List ServerID) (key : APIKey) : Except AppError (Option (List ServerID)) :=
  match input.serverIDs with
  | none => .ok key.serverIDs
  | some ids => (newServerIDs servers key.serverList ids).map some

/-- An audit event of the service. -/
def newEvent (p : Principal) (operationID : Bytes) (action : String) (id : KeyID)
    (details : Bytes) : AuditEvent where
  operationID := operationID
  userID := p.userID.getD 0
  username := p.username
  action := ascii action
  resourceType := ascii "api_key"
  resourceID := id
  details := details

/-- **The callback of `UpdatePermissions`** on the locked row: an error, or
nothing to change, or the changed key and its audit event. -/
def changePermissions (servers : List ServerID) (p : Principal) (operationID : Bytes)
    (id : KeyID) (input : UpdateAPIKeyPermissionsInput) (key : APIKey) :
    Except AppError (Option (APIKey × AuditEvent)) :=
  if key.permissionsRevision ≠ input.expectedRevision then .error .apiKeyRevisionConflict
  else if key.permissionsRevision = maxInt64 then .error .apiKeyRevisionConflict
  else
    match input.newServers servers key with
    | .error e => .error e
    | .ok serverIDs =>
      let key' : APIKey := { key with scopes := input.newScopes key, serverIDs := serverIDs }
      if samePermissionSet key.scopeList key'.scopeList
          && samePermissionSet key.serverList key'.serverList then .ok none
      else
        let details := object
          [member "before" (jsonPolicy key.scopes key.serverIDs key.permissionsRevision),
           member "after"
            (jsonPolicy key'.scopes key'.serverIDs (key.permissionsRevision + 1))]
        if 256 * 1024 < details.length then .error .invalidRequest
        else .ok (some (key', newEvent p operationID "api_key.permissions.update" id details))

/-- **The callback of `Rotate`**. -/
def auditRotation (p : Principal) (operationID : Bytes) (id : KeyID)
    (expectedRevision : Int) (key : APIKey) : Except AppError AuditEvent :=
  if key.permissionsRevision ≠ expectedRevision ∨ key.permissionsRevision = maxInt64 then
    .error .apiKeyRevisionConflict
  else
    .ok (newEvent p operationID "api_key.rotate" id (object
      [member "revision_before" (quote (decimal expectedRevision)),
       member "revision_after" (quote (decimal (expectedRevision + 1)))]))

/-! ## §5. The columns an UPDATE writes. -/

/-- The columns of one UPDATE; `none` for a column it does not name. -/
structure Columns where
  permissionsRevision : Int
  permissionsUpdatedAt : Option Int
  scopes : Option (Option (List Bytes))
  serverIDs : Option (Option (List ServerID))
  credential : Option Credential
  deriving DecidableEq

/-- The columns of an edit; `key` is the row the callback has changed, with
its revision already raised.  Scopes and servers are named only when their
slices differ from the previous ones. -/
def editColumns (previous key : APIKey) (now : Int) : Columns where
  permissionsRevision := key.permissionsRevision
  permissionsUpdatedAt := some now
  scopes := if previous.scopeList = key.scopeList then none else some key.scopes
  serverIDs := if previous.serverList = key.serverList then none else some key.serverIDs
  credential := none

/-- The columns of a rotation. -/
def rotationColumns (key : APIKey) (material : Credential) : Columns where
  permissionsRevision := key.permissionsRevision
  permissionsUpdatedAt := none
  scopes := none
  serverIDs := none
  credential := some material

/-- The row after the UPDATE. -/
def Columns.apply (c : Columns) (row : APIKey) : APIKey :=
  let m := c.credential.getD row.credential
  { row with
    permissionsRevision := c.permissionsRevision
    permissionsUpdatedAt := c.permissionsUpdatedAt.or row.permissionsUpdatedAt
    scopes := c.scopes.getD row.scopes
    serverIDs := c.serverIDs.getD row.serverIDs
    keyHash := m.keyHash
    keyPrefix := m.keyPrefix
    encryptedRawKey := m.encryptedRawKey
    salt := m.salt
    cryptoVersion := m.cryptoVersion }

/-! ## §6. What an edit and a rotation change. -/

/-- The scope set an edit asks for: what the caller gave, or what is there. -/
def UpdateAPIKeyPermissionsInput.wantedScopes (input : UpdateAPIKeyPermissionsInput)
    (row : APIKey) : List Bytes :=
  input.scopes.getD row.scopeList

/-- The server set an edit asks for. -/
def UpdateAPIKeyPermissionsInput.wantedServers (input : UpdateAPIKeyPermissionsInput)
    (row : APIKey) : List ServerID :=
  input.serverIDs.getD row.serverList

/-- Two lists with the same members. -/
def SameSet {α : Type} (a b : List α) : Prop := ∀ x, x ∈ a ↔ x ∈ b

theorem SameSet.trans {α : Type} {a b c : List α} (h : SameSet a b) (h' : SameSet b c) :
    SameSet a c :=
  fun x => (h x).trans (h' x)

theorem SameSet.symm {α : Type} {a b : List α} (h : SameSet a b) : SameSet b a :=
  fun x => (h x).symm

/-- **A permission edit of `row` that asks for `input` gives `row'`.** -/
structure Edited (input : UpdateAPIKeyPermissionsInput) (row row' : APIKey) : Prop where
  expected : row.permissionsRevision = input.expectedRevision
  raised : row'.permissionsRevision = row.permissionsRevision + 1
  /-- the credential columns are untouched -/
  credential : row'.credential = row.credential
  owner : row'.userID = row.userID ∧ row'.ownerBindingVersion = row.ownerBindingVersion
  scopes : SameSet row'.scopeList (input.wantedScopes row)
  servers : SameSet row'.serverList (input.wantedServers row)
  /-- it is a change of one of the two sets -/
  changed : ¬ (SameSet (input.wantedScopes row) row.scopeList
    ∧ SameSet (input.wantedServers row) row.serverList)

/-- **A rotation of `row` to `material` gives `row'`.** -/
structure Rotated (expectedRevision : Int) (material : Credential) (row row' : APIKey) :
    Prop where
  expected : row.permissionsRevision = expectedRevision
  raised : row'.permissionsRevision = row.permissionsRevision + 1
  /-- the permission columns are untouched -/
  permissions : row'.scopes = row.scopes ∧ row'.serverIDs = row.serverIDs
    ∧ row'.permissionsUpdatedAt = row.permissionsUpdatedAt
  owner : row'.userID = row.userID ∧ row'.ownerBindingVersion = row.ownerBindingVersion
  credential : row'.credential = material

variable {servers : List ServerID}

theorem newServerIDs_mem {old ids ids' : List ServerID}
    (h : newServerIDs servers old ids = .ok ids') : SameSet ids' ids := by
  unfold newServerIDs at h
  dsimp only at h
  split at h
  · cases h
  split at h
  · cases h
  · intro x
    rw [← Except.ok.inj h, mem_insertionSort, mem_uniquePermissions]

theorem newScopes_mem (input : UpdateAPIKeyPermissionsInput) (key : APIKey) :
    SameSet ((input.newScopes key).getD []) (input.wantedScopes key) := by
  intro x
  unfold UpdateAPIKeyPermissionsInput.newScopes UpdateAPIKeyPermissionsInput.wantedScopes
  cases input.scopes with
  | none => rfl
  | some scopes =>
    show x ∈ (uniquePermissions scopes).insertionSort (· ≤ ·) ↔ x ∈ scopes
    rw [mem_insertionSort, mem_uniquePermissions]

variable {input : UpdateAPIKeyPermissionsInput} {key : APIKey}

theorem newServers_mem {serverIDs : Option (List ServerID)}
    (h : input.newServers servers key = .ok serverIDs) :
    SameSet (serverIDs.getD []) (input.wantedServers key) := by
  unfold UpdateAPIKeyPermissionsInput.newServers at h
  unfold UpdateAPIKeyPermissionsInput.wantedServers
  cases hids : input.serverIDs with
  | none =>
    rw [hids] at h
    rw [← Except.ok.inj h]
    exact fun _ => Iff.rfl
  | some ids =>
    rw [hids] at h
    change (newServerIDs servers key.serverList ids).map some = .ok serverIDs at h
    cases hn : newServerIDs servers key.serverList ids with
    | error e =>
      rw [hn] at h
      exact absurd h (by simp [Except.map])
    | ok ids' =>
      rw [hn] at h
      rw [← Except.ok.inj h]
      exact newServerIDs_mem hn

variable {p : Principal} {operationID : Bytes} {id : KeyID} {ev : AuditEvent}

/-- What the callback of an edit returns when there is something to change. -/
theorem changePermissions_some {key' : APIKey}
    (h : changePermissions servers p operationID id input key = .ok (some (key', ev))) :
    key.permissionsRevision = input.expectedRevision
      ∧ key' = { key with scopes := key'.scopes, serverIDs := key'.serverIDs }
      ∧ SameSet key'.scopeList (input.wantedScopes key)
      ∧ SameSet key'.serverList (input.wantedServers key)
      ∧ ¬ (SameSet (input.wantedScopes key) key.scopeList
          ∧ SameSet (input.wantedServers key) key.serverList)
      ∧ ev.resourceID = id := by
  unfold changePermissions at h
  split at h
  · cases h
  · next hrev =>
    split at h
    · cases h
    split at h
    · cases h
    · next serverIDs hs =>
      dsimp only at h
      split at h
      · cases h
      · next hdiff =>
        split at h
        · cases h
        obtain ⟨rfl, rfl⟩ := Prod.mk.inj (some.inj (Except.ok.inj h))
        have hsc := newScopes_mem input key
        have hsv := newServers_mem hs
        refine ⟨not_not.mp hrev, rfl, hsc, hsv, ?_, rfl⟩
        rintro ⟨h1, h2⟩
        -- both sets as they were: the callback would have returned `nil, nil`
        refine hdiff (Bool.and_eq_true_iff.mpr ⟨?_, ?_⟩)
        · exact (samePermissionSet_iff _ _).mpr (hsc.trans h1).symm
        · exact (samePermissionSet_iff _ _).mpr (hsv.trans h2).symm

/-- What the callback of a rotation needs. -/
theorem auditRotation_ok {expectedRevision : Int}
    (h : auditRotation p operationID id expectedRevision key = .ok ev) :
    key.permissionsRevision = expectedRevision ∧ ev.resourceID = id := by
  unfold auditRotation at h
  split at h
  · cases h
  · next hrev =>
    rw [not_or, not_not] at hrev
    rw [← Except.ok.inj h]
    exact ⟨hrev.1, rfl⟩

/-- The scopes column after an edit is read as the callback left the slice. -/
theorem editColumns_scopeList (previous key : APIKey) (now : Int) :
    ((editColumns previous key now).apply previous).scopeList = key.scopeList := by
  show (Option.getD (if previous.scopeList = key.scopeList then none else some key.scopes)
    previous.scopes).getD [] = key.scopes.getD []
  by_cases h : previous.scopeList = key.scopeList
  · rw [if_pos h]
    exact h
  · rw [if_neg h]
    rfl

theorem editColumns_serverList (previous key : APIKey) (now : Int) :
    ((editColumns previous key now).apply previous).serverList = key.serverList := by
  show (Option.getD (if previous.serverList = key.serverList then none else some key.serverIDs)
    previous.serverIDs).getD [] = key.serverIDs.getD []
  by_cases h : previous.serverList = key.serverList
  · rw [if_pos h]
    exact h
  · rw [if_neg h]
    rfl

variable {row : APIKey}

/-- **The repository's UPDATE after the callback of an edit is an edit.** -/
theorem edited_of_change
    (h : changePermissions servers p operationID id input row = .ok (some (key, ev)))
    (now : Int) :
    Edited input row
      ((editColumns row { key with permissionsRevision := key.permissionsRevision + 1 }
        now).apply row) := by
  obtain ⟨hrev, hkey, hsc, hsv, hdiff, _⟩ := changePermissions_some h
  have hkr : key.permissionsRevision = row.permissionsRevision := by rw [hkey]
  constructor
  · exact hrev
  · show key.permissionsRevision + 1 = row.permissionsRevision + 1
    rw [hkr]
  · rfl
  · exact ⟨rfl, rfl⟩
  · rw [editColumns_scopeList]
    exact hsc
  · rw [editColumns_serverList]
    exact hsv
  · exact hdiff

theorem rotated_of_audit {expectedRevision : Int}
    (h : auditRotation p operationID id expectedRevision row = .ok ev)
    (material : Credential) :
    Rotated expectedRevision material row
      ((rotationColumns { row with permissionsRevision := row.permissionsRevision + 1 }
        material).apply row) where
  expected := (auditRotation_ok h).1
  raised := rfl
  permissions := ⟨rfl, rfl, rfl⟩
  owner := ⟨rfl, rfl⟩
  credential := rfl

/-- **An edit never lifts a restriction by itself**: the list becomes empty
only when the caller gave the empty list. -/
theorem Edited.serverList_nil {row' : APIKey}
    (h : Edited input row row') (hne : row.serverList ≠ []) (hnil : row'.serverList = []) :
    input.serverIDs = some [] := by
  have hs := h.servers
  unfold UpdateAPIKeyPermissionsInput.wantedServers at hs
  rw [hnil] at hs
  cases hids : input.serverIDs with
  | none =>
    -- the list is kept as it is, so it is not empty
    rw [hids] at hs
    obtain ⟨x, hx⟩ := exists_mem_of_ne_nil _ hne
    exact absurd ((hs x).mpr hx) not_mem_nil
  | some ids =>
    rw [hids] at hs
    have hnone : ids = [] := eq_nil_iff_forall_not_mem.mpr fun x hx =>
      absurd ((hs x).mpr hx) not_mem_nil
    rw [hnone]

end Talus.ApiKey
