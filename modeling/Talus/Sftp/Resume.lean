/-
  Talus.Sftp.Resume
  **THE FIVE OPERATIONS OF A RESUMABLE UPLOAD** (`service/sftp_resume.go`).

  The Hub keeps nothing between two requests: what it has to know is in the
  ticket the client sends back, sealed, and in the temporary file.

      StartUpload      checks the destination, writes the ticket, creates the
                       temporary file
      UploadStatus     how much of the temporary file is there
      UploadChunk      appends a chunk, if its offset is where the file ends
      CompleteUpload   checks size and digest, checks that the destination is
                       the one StartUpload saw, publishes
      CancelUpload     removes the temporary file

  §1–§3 are the operations.  §4 states what an operation on a ticket may do
  to the files (`uploadContract`), and one theorem for each operation says
  that it keeps to it: `start_safe`, `status_safe`, `chunk_safe`,
  `complete_safe`, `cancel_safe`.
-/
import Talus.Sftp.Remote

namespace Talus.Sftp

open Talus.Base List Option
open Script

/-! ## §1. Tickets. -/

/-- `MaxSFTPChunkBytes`. -/
def maxSftpChunkBytes : Int := 1048576

/-- `sftpUploadLifetime`, in seconds. -/
def sftpUploadLifetime : Int := 24 * 3600

def sftpUploadTicketVersion : Nat := 2

variable {δ : Type}

/-- `sftpFileVersion`; `mode` is `uint32(info.Mode())`. -/
structure FileVersion (δ : Type) where
  size : Nat
  mode : Kind × Nat
  modified : Int
  sha256 : δ
  deriving DecidableEq, Repr

/-- The version of a file as `StartUpload` records it. -/
def Node.version (hash : List UInt8 → δ) (n : Node) : FileVersion δ where
  size := n.content.length
  mode := (n.kind, n.perm)
  modified := n.modified
  sha256 := hash n.content

/-- `sftpUploadTicket`.  The token is this, sealed: a client can neither read
nor change it. -/
structure Ticket (δ : Type) where
  version : Nat
  owner : String
  serverId : Nat
  route : String
  destination : FilePath
  temporary : FilePath
  size : Nat
  sha256 : δ
  expiresAt : Int
  previous : Option (FileVersion δ)
  deriving DecidableEq, Repr

/-- `SFTPUpload`. -/
structure Upload (δ : Type) where
  path : FilePath
  size : Nat
  offset : Nat
  sha256 : δ
  expiresAt : Int
  completed : Bool
  deriving DecidableEq, Repr

/-- `uploadStatus(ticket, offset)`. -/
def Ticket.status (t : Ticket δ) (offset : Nat) : Upload δ where
  path := t.destination
  size := t.size
  offset := offset
  sha256 := t.sha256
  expiresAt := t.expiresAt
  completed := false

/-- What a request brings along: who sends it (`sftpOwner`), to which server,
the fingerprint of the route the connection took, the Hub's clock, and what
the peer offers. -/
structure Caller where
  owner : Option String
  serverId : Nat
  route : String
  now : Int
  ext : Extensions
  deriving DecidableEq, Repr

/-- `readUpload`, after the token was opened. -/
def readUpload (c : Caller) (t : Ticket δ) (allowExpired : Bool) : Except Err Unit :=
  if t.version ≠ sftpUploadTicketVersion ∨ t.serverId ≠ c.serverId ∨ t.size > maxSftpFileBytes then
    .error (.app .invalidUpload)
  else if c.owner.isNone then .error .forbidden
  else if c.owner ≠ some t.owner then .error .forbidden
  else if c.now > t.expiresAt ∧ allowExpired = false then .error (.app .uploadExpired)
  else .ok ()

def validateUploadRoute (c : Caller) (t : Ticket δ) : Except Err Unit :=
  if c.route ≠ t.route then .error (.app .conflict) else .ok ()

/-- The ticket is accepted from this caller. -/
def ticketChecks (c : Caller) (t : Ticket δ) (allowExpired : Bool) : Except Err Unit := do
  readUpload c t allowExpired
  validateUploadRoute c t

/-- The checks of `UploadChunk` before it looks at the peer. -/
def chunkChecks (c : Caller) (t : Ticket δ) (offset size : Int) : Except Err Unit := do
  readUpload c t false
  if offset < 0 ∨ size ≤ 0 ∨ size > maxSftpChunkBytes ∨ offset > t.size ∨ size > t.size - offset then
    .error (.app .invalidUpload)
  else validateUploadRoute c t

/-! ## §2. Starting an upload. -/

variable (hash : List UInt8 → δ)

/-- The version of what is to be replaced. -/
def previousVersion (destination : FilePath) :
    Option FileInfo → Program (Option (FileVersion δ))
  | none => pure none
  | some info => do
      let digest ← hashRemoteFile hash destination maxSftpFileBytes
      pure (some ⟨info.size, (info.kind, info.perm), info.modified, digest⟩)

/-- `StartUpload`.  `destination` is what `mutablePath` makes of the requested
path and `digest` what the hexadecimal text decodes to, `none` if they are
refused; `sealed` is the length of the token, `none` if sealing fails. -/
def startUpload (c : Caller) (destination : Option FilePath) (size : Int) (digest : Option δ)
    (overwrite : Bool) (suffix : String) (sealed : Option Nat) : Program (Ticket δ) :=
  match destination, digest with
  | none, _ => throw (.app .invalidPath)
  | some _, none => throw (.app .invalidUpload)
  | some destination, some digest =>
    if size < 0 ∨ size > maxSftpFileBytes then throw (.app .tooLarge)
    else match c.owner with
    | none => throw .forbidden
    | some owner => do
        let parent : String ← request (.realPath destination.dir)
        let destination : FilePath := ⟨parent, destination.base⟩
        let temporary : FilePath := ⟨parent, temporaryName suffix⟩
        let pending ← pendingDestination c.ext destination overwrite
        let previous ← previousVersion hash destination pending
        match sealed with
        | none => throw .failed
        | some length =>
          if length > 16384 then throw (.app .invalidPath)
          else do
            let f : Nat ← request (.create temporary)
            onError
              (do request (.chmod temporary temporaryPerm)
                  request (.close f)
                  pure {
                    version := sftpUploadTicketVersion
                    owner := owner
                    serverId := c.serverId
                    route := c.route
                    destination := destination
                    temporary := temporary
                    size := size.toNat
                    sha256 := digest
                    expiresAt := c.now + sftpUploadLifetime
                    previous := previous })
              (ignore (Call.remove temporary))

/-! ## §3. The operations on a ticket. -/

section Operations

variable [DecidableEq δ]

def completedUploadMatches (t : Ticket δ) : Program Bool := do
  let info ← lstat t.destination
  if info.kind ≠ .regular ∨ info.size ≠ t.size then pure false
  else do
    let digest ← hashRemoteFile hash t.destination maxSftpFileBytes
    pure (decide (digest = t.sha256))

/-- `checkErr == nil && committed`. -/
def committed (t : Ticket δ) : Program Bool :=
  (completedUploadMatches hash t).handle fun _ => pure false

def uploadStatus (c : Caller) (t : Ticket δ) : Program (Upload δ) := do
  fromExcept (ticketChecks c t false)
  let found ← lstatFound t.temporary
  match found with
  | none => do
      let done ← committed hash t
      if done then pure { t.status t.size with completed := true }
      else throw .notExist
  | some info =>
    if info.kind ≠ .regular ∨ info.size > t.size then throw (.app .conflict)
    else pure (t.status info.size)

def uploadChunk (wr : FileWriter) (c : Caller) (t : Ticket δ) (offset size : Int) (body : Body) :
    Program (Upload δ) := do
  fromExcept (chunkChecks c t offset size)
  let info ← lstat t.temporary
  if info.kind ≠ .regular ∨ (info.size : Int) ≠ offset then throw (.app .conflict)
  else do
    let f : Nat ← request (.openWrite t.temporary)
    -- one byte more than declared, to notice a longer body
    let n ← copyBuffer wr f offset.toNat body (size.toNat + 1)
    if (n : Int) ≠ size then throw (.app .sizeMismatch)
    else do
      request (.close f)
      request .ctxErr
      pure (t.status (offset.toNat + n))

/-- `CompleteUpload` where `StartUpload` found no destination. -/
def publishNew (c : Caller) (t : Ticket δ) : Program Unit :=
  commitNew c.ext t.temporary t.destination

/-- `CompleteUpload` where `StartUpload` found the version `previous`. -/
def publishOver (t : Ticket δ) (previous : FileVersion δ) : Program Unit := do
  let found ← lstatAny t.destination
  match found with
  | none => throw (.app .conflict)
  | some current =>
    if current.kind ≠ .regular ∨ current.size ≠ previous.size ∨
        (current.kind, current.perm) ≠ previous.mode ∨ current.modified ≠ previous.modified then
      throw (.app .conflict)
    else do
      let digest ← hashRemoteFile hash t.destination maxSftpFileBytes
      if digest ≠ previous.sha256 then throw (.app .conflict)
      else do
        request (.chmod t.temporary current.perm)
        request (.posixRename t.temporary t.destination)
        pure ()

def completeUpload (c : Caller) (t : Ticket δ) : Program Unit := do
  fromExcept (ticketChecks c t false)
  let found ← lstatFound t.temporary
  match found with
  | none => do
      let done ← committed hash t
      if done then pure () else throw .notExist
  | some info =>
    if info.kind ≠ .regular ∨ info.size ≠ t.size then throw (.app .sizeMismatch)
    else do
      let digest ← hashRemoteFile hash t.temporary maxSftpFileBytes
      if digest ≠ t.sha256 then throw (.app .checksumMismatch)
      else match t.previous with
      | none => publishNew c t
      | some previous => publishOver hash t previous

end Operations

/-- A missing file was removed. -/
def removedBy : Except Err Unit → Except Err Unit
  | .error .notExist => .ok ()
  | r => r

def cancelUpload (c : Caller) (t : Ticket δ) : Program Unit := do
  fromExcept (ticketChecks c t true)
  ask (Call.remove t.temporary) removedBy

/-! ## §4. What an operation may do to the files. -/

/-- The temporary file, while there is one, is a regular file that holds a
prefix of `declared`. -/
def TempOk (t : Ticket δ) (declared : List UInt8) (fs : Fs) : Prop :=
  ∀ i, fs.names t.temporary = some i →
    (fs.nodes i).kind = .regular ∧ (fs.nodes i).content <+: declared

/-- The temporary file has no other name. -/
def Private (t : Ticket δ) (fs : Fs) : Prop :=
  ∀ i p, fs.names t.temporary = some i → fs.names p = some i → p = t.temporary

/-- What the ticket promises of the published file. -/
def Delivers (t : Ticket δ) (n : Node) : Prop :=
  n.kind = .regular ∧ n.content.length = t.size ∧ hash n.content = t.sha256

/-- The upload is over: the destination holds the file, the temporary name is
gone. -/
def Finished (t : Ticket δ) (fs : Fs) : Prop :=
  fs.names t.temporary = none ∧ ∃ n, fs.node? t.destination = some n ∧ Delivers hash t n

/-- The destination, still of the version `StartUpload` saw, becomes the file
of the ticket. -/
def Publishes (t : Ticket δ) (fs fs' : Fs) : Prop :=
  (fs.node? t.destination).map (Node.version hash) = t.previous ∧
    ∃ n, fs'.node? t.destination = some n ∧ Delivers hash t n

/-- **The contract of an operation on a ticket**, with the calls that may be
refused. -/
def uploadContract (t : Ticket δ) (declared : List UInt8) (may : Call → Prop) :
    Contract Fs Call where
  may := may
  inv := TempOk t declared
  guar fs fs' := fs'.node? t.destination = fs.node? t.destination ∨ Publishes hash t fs fs'

/-- Where an operation on a ticket ends: the temporary file is private again,
and if the destination was published, now (it is not `before` any more) or
earlier, the upload is over. -/
def uploadPost (t : Ticket δ) (before : Option Node) (landed : Bool) (fs : Fs) : Prop :=
  Private t fs ∧ (fs.node? t.destination ≠ before ∨ landed = true → Finished hash t fs)

section Contracts

variable {hash} {t : Ticket δ} {c : Caller} {declared : List UInt8} {may : Call → Prop}
  {landed : Bool} {fs : Fs} {α : Type}

/-- What an operation starts from. -/
structure Settled (hash : List UInt8 → δ) (t : Ticket δ) (declared : List UInt8) (landed : Bool)
    (fs : Fs) : Prop where
  temp : TempOk t declared fs
  alone : Private t fs
  done : landed = true → Finished hash t fs

section

variable (h : Settled hash t declared landed fs)
include h

/-- As long as nothing has changed, an operation may stop. -/
theorem Settled.post : uploadPost hash t (fs.node? t.destination) landed fs :=
  ⟨h.alone, fun hor => hor.elim (fun hne => absurd rfl hne) h.done⟩

theorem Settled.steady :
    Steady (uploadContract hash t declared may)
      (fun (_ : Except Err α) fs' => uploadPost hash t (fs.node? t.destination) landed fs') fs :=
  ⟨h.temp, Or.inl rfl, fun _ => h.post⟩

/-- Taking away the temporary name leaves an upload that is not over. -/
theorem Settled.unlink
    (hne : t.destination ≠ t.temporary) {i : Nat} (hi : fs.names t.temporary = some i) :
    (fs.unlink t.temporary).node? t.destination = fs.node? t.destination ∧
      TempOk t declared (fs.unlink t.temporary) ∧
      uploadPost hash t (fs.node? t.destination) landed (fs.unlink t.temporary) := by
  have hdest : (fs.unlink t.temporary).node? t.destination = fs.node? t.destination :=
    Fs.node?_unlink_ne hne
  have hgone : (fs.unlink t.temporary).names t.temporary = none := Fs.unlink_names_self
  refine ⟨hdest, fun j hj => ?_, fun j p hj _ => ?_, ?_⟩
  · rw [hgone] at hj
    cases hj
  · rw [hgone] at hj
    cases hj
  · rintro (hchanged | hlanded)
    · exact absurd hdest hchanged
    · have habsent := (h.done hlanded).1
      rw [hi] at habsent
      cases habsent

/-- What a growing temporary file keeps. -/
theorem Settled.grown (hne : t.destination ≠ t.temporary)
    {i : Nat} (hi : fs.names t.temporary = some i) {data : List UInt8} {fs' : Fs}
    (hdata : (fs.nodes i).content ++ data <+: declared) (hg : Grown fs i data fs') :
    fs'.node? t.destination = fs.node? t.destination ∧ Settled hash t declared landed fs' := by
  have hdest : fs.names t.destination ≠ some i := fun hd => hne (h.alone i _ hi hd)
  refine ⟨hg.node? hdest, ?_, ?_, ?_⟩
  · intro j hj
    rw [hg.names] at hj
    obtain rfl : i = j := mem_unique hi hj
    rw [hg.kind, hg.content]
    exact ⟨(h.temp i hi).1, hdata⟩
  · intro j p hj hp
    rw [hg.names] at hj hp
    exact h.alone j p hj hp
  · intro hlanded
    have habsent := (h.done hlanded).1
    rw [hi] at habsent
    cases habsent

end

/-- The declared chunk goes where the temporary file ends, so that all of it
may arrive there. -/
def RoomFor (t : Ticket δ) (declared : List UInt8) (offset : Int) (data : List UInt8) (fs : Fs) :
    Prop :=
  ∀ i, fs.names t.temporary = some i → ((fs.nodes i).content.length : Int) = offset →
    (fs.nodes i).content ++ data <+: declared

/-- **A chunk that is not longer than it declares** only ever appends declared
bytes to the temporary file. -/
theorem cancel_safe (h : Settled hash t declared landed fs) (hne : t.destination ≠ t.temporary) :
    Safe remote (uploadContract hash t declared may)
      (fun _ fs' => uploadPost hash t (fs.node? t.destination) landed fs')
      (cancelUpload c t) fs := by
  refine safe_fromExcept h.steady fun _ _ => safe_ask h.temp ?_ fun _ => ⟨h.temp, h.post⟩
  cases hi : fs.names t.temporary with
  | none =>
    have hserve : remote.effect fs (.remove t.temporary) = (.error .notExist, fs) := by
      show serve fs (.remove t.temporary) = _
      simp only [serve, hi]
    rw [hserve]
    exact ⟨Or.inl rfl, h.temp, h.post⟩
  | some i =>
    have hserve : remote.effect fs (.remove t.temporary) = (.ok (), fs.unlink t.temporary) := by
      show serve fs (.remove t.temporary) = _
      simp only [serve, hi]
    obtain ⟨hdest, htemp, hpost⟩ := h.unlink hne hi
    rw [hserve]
    exact ⟨Or.inl hdest, htemp, hpost⟩

theorem chunk_safe {wr : FileWriter} {offset size : Int} {body : Body}
    (h : Settled hash t declared landed fs) (hne : t.destination ≠ t.temporary)
    (hbody : (body.bytes.length : Int) ≤ size)
    (hroom : chunkChecks c t offset size = .ok () → RoomFor t declared offset body.bytes fs) :
    Safe remote (uploadContract hash t declared may)
      (fun _ fs' => uploadPost hash t (fs.node? t.destination) landed fs')
      (uploadChunk wr c t offset size body) fs := by
  refine safe_fromExcept h.steady fun _ hchecks => safe_lstat h.steady fun n hn => ?_
  split
  · exact safe_throw h.steady _
  next hok =>
    refine safe_perform h.steady fun i fs₁ hserve => ?_
    obtain ⟨hi, rfl⟩ := serve_openWrite hserve
    refine ⟨Or.inl rfl, ?_⟩
    -- the handle is the temporary file's, and the offset its end
    obtain ⟨j, hj, rfl⟩ := Fs.names_of_node? hn
    obtain rfl : j = i := mem_unique hj hi
    have hoff : ((fs₁.nodes j).content.length : Int) = offset := by
      simp only [not_or, not_not] at hok
      exact hok.2
    have htake : body.bytes.take (size.toNat + 1) = body.bytes :=
      take_of_length_le (by omega)
    have hpart : ∀ data fs', data <+: body.bytes.take (size.toNat + 1) → Grown fs₁ j data fs' →
        fs'.node? t.destination = fs₁.node? t.destination ∧ Settled hash t declared landed fs' := by
      intro data fs' hdata hg
      rw [htake] at hdata
      refine h.grown hne hi ?_ hg
      exact ((prefix_append_right_inj _).mpr hdata).trans (hroom hchecks j hi hoff)
    have hsteady : ∀ data fs', data <+: body.bytes.take (size.toNat + 1) → Grown fs₁ j data fs' →
        Steady (uploadContract hash t declared may) (fun (_ : Except Err (Upload δ)) fs'' =>
          uploadPost hash t (fs₁.node? t.destination) landed fs'') fs' := by
      intro data fs' hdata hg
      obtain ⟨hdest, hset⟩ := hpart data fs' hdata hg
      rw [← hdest]
      exact hset.steady
    refine safe_copyBuffer (by omega) hsteady ?_ ?_
    · intro pre piece fs' fs'' hpre hg hg'
      have hmid := hpart pre fs' ((prefix_append _ _).trans hpre) hg
      have hend := hpart (pre ++ piece) fs'' hpre (hg.trans hg')
      exact Or.inl (hend.1.trans hmid.1.symm)
    · intro fs' hg
      have hs := hsteady _ fs' (prefix_refl _) hg
      split
      · exact safe_throw hs _
      · refine safe_perform hs fun _ fs₂ hclose => ?_
        cases hclose
        refine ⟨hs.guar, safe_perform hs fun _ fs₃ hctx => ?_⟩
        cases hctx
        exact ⟨hs.guar, safe_pure hs.inv (hs.error .failed)⟩

/-- A file that passed the checks of `CompleteUpload` is the one promised. -/
theorem delivers_of_checks {n m : Node} (hn : fs.node? t.temporary = some n)
    (hm : fs.node? t.temporary = some m)
    (hinfo : ¬(n.info.kind ≠ .regular ∨ n.info.size ≠ t.size))
    (hdigest : ¬hash m.content ≠ t.sha256) : Delivers hash t n := by
  simp only [not_or, not_not] at hinfo hdigest
  obtain rfl : n = m := mem_unique hn hm
  exact ⟨hinfo.1, hinfo.2, hdigest⟩

variable {i : Nat}

/-- Publication takes the temporary name away and gives its file to the
destination. -/
theorem moved_post (declared : List UInt8) (landed : Bool) (before : Option Node)
    (hne : t.destination ≠ t.temporary) (hi : fs.names t.temporary = some i)
    (hdel : Delivers hash t (fs.nodes i)) :
    let fs' := fs.move t.temporary t.destination
    (∃ n, fs'.node? t.destination = some n ∧ Delivers hash t n) ∧
      TempOk t declared fs' ∧ uploadPost hash t before landed fs' := by
  intro fs'
  have ⟨hgone, hdest⟩ : fs'.names t.temporary = none ∧
      fs'.names t.destination = fs.names t.temporary := Fs.move_names_source hne.symm
  have hnode : fs'.node? t.destination = some (fs.nodes i) :=
    Fs.node?_eq_some (hdest.trans hi)
  refine ⟨⟨_, hnode, hdel⟩, fun j hj => ?_, fun j p hj _ => ?_, fun _ => ⟨hgone, _, hnode, hdel⟩⟩
  · rw [hgone] at hj
    cases hj
  · rw [hgone] at hj
    cases hj

/-- Publishing where there was nothing.  The name that the link leaves behind
is removed, because that call is not refused. -/
theorem publishNew_safe (h : Settled hash t declared landed fs) (hne : t.destination ≠ t.temporary)
    (hmay : ¬may (.remove t.temporary)) (hi : fs.names t.temporary = some i)
    (hdel : Delivers hash t (fs.nodes i)) (hprev : t.previous = none) :
    Safe remote (uploadContract hash t declared may)
      (fun _ fs' => uploadPost hash t (fs.node? t.destination) landed fs')
      (publishNew c t) fs := by
  obtain ⟨hpub, htemp, hpost⟩ := moved_post declared landed (fs.node? t.destination) hne hi hdel
  have hversion : fs.names t.destination = none →
      (fs.node? t.destination).map (Node.version hash) = t.previous := by
    intro hfree
    rw [Fs.node?_eq_none hfree, hprev]
    rfl
  refine safe_commitNew h.steady hne hi
    (fun hfree => ⟨Or.inr ⟨hversion hfree, hpub⟩, htemp, hpost⟩)
    fun hfree => ⟨Or.inr ⟨hversion hfree, fs.nodes i, ?_, hdel⟩, ?_, Or.inl rfl, Or.inl ?_,
      fun hm => absurd hm hmay⟩
  · exact Fs.node?_eq_some (Fs.share_names_self.trans hi)
  · -- between the two calls the file has both names
    intro j hj
    rw [Fs.share_names_ne hne.symm] at hj
    exact h.temp j hj
  · exact Fs.node?_unlink_ne hne

/-- The checks on the destination compare it with the recorded version. -/
theorem version_of_checks {n m : Node} {v : FileVersion δ} (hm : m = n)
    (hinfo : ¬(n.info.kind ≠ .regular ∨ n.info.size ≠ v.size ∨
      (n.info.kind, n.info.perm) ≠ v.mode ∨ n.info.modified ≠ v.modified))
    (hdigest : ¬hash m.content ≠ v.sha256) : n.version hash = v := by
  subst hm
  simp only [not_or, not_not] at hinfo hdigest
  obtain ⟨_, hsize, hmode, hmod⟩ := hinfo
  cases v
  simp only [Node.version, FileVersion.mk.injEq]
  exact ⟨hsize, hmode, hmod, hdigest⟩

variable [DecidableEq δ]

/-- Looking whether the upload is over changes nothing. -/
theorem safe_committed {Q : Except Err α → Fs → Prop} {K : Contract Fs Call} {f : Bool → Program α}
    (hs : Steady K Q fs) (h : ∀ b, Safe remote K Q (f b) fs) :
    Safe remote K Q (committed hash t >>= f) fs := by
  apply safe_bind
  apply safe_handle
  -- whether it answers or fails, the files are still `fs`
  have hs' : Steady K (orElse remote K (andThen remote K Q f) fun _ => pure false) fs :=
    ⟨hs.inv, hs.guar, fun _ => ⟨hs.inv, h false⟩⟩
  refine safe_lstat hs' fun n _ => ?_
  split
  · exact safe_pure hs.inv (h false)
  · exact safe_hashRemoteFile hs' fun m _ _ _ => safe_pure hs.inv (h _)

theorem status_safe (h : Settled hash t declared landed fs) :
    Safe remote (uploadContract hash t declared may)
      (fun _ fs' => uploadPost hash t (fs.node? t.destination) landed fs')
      (uploadStatus hash c t) fs := by
  refine safe_fromExcept h.steady fun _ _ => safe_lstatFound h.steady (fun _ => ?_) fun n _ => ?_
  · refine safe_committed h.steady fun b => ?_
    split
    · exact safe_pure h.temp h.post
    · exact safe_throw h.steady _
  · show Safe _ _ _ (ite _ _ _) _
    split
    · exact safe_throw h.steady _
    · exact safe_pure h.temp h.post

/-- Publishing over the recorded version: the temporary file takes over its
permission bits and its name. -/
theorem publishOver_safe (h : Settled hash t declared landed fs) (hne : t.destination ≠ t.temporary)
    (hi : fs.names t.temporary = some i) (hdel : Delivers hash t (fs.nodes i))
    {previous : FileVersion δ} (hprev : t.previous = some previous) :
    Safe remote (uploadContract hash t declared may)
      (fun _ fs' => uploadPost hash t (fs.node? t.destination) landed fs')
      (publishOver hash t previous) fs := by
  refine safe_lstatAny h.steady (safe_throw h.steady _) fun n hd => ?_
  show Safe _ _ _ (ite _ _ _) _
  split
  · exact safe_throw h.steady _
  next hinfo =>
    refine safe_hashRemoteFile h.steady fun m hm _ _ => ?_
    split
    · exact safe_throw h.steady _
    next hdigest =>
      have hversion : n.version hash = previous :=
        version_of_checks (mem_unique hm hd) hinfo hdigest
      refine safe_perform h.steady fun _ fs₁ hchmod => ?_
      obtain ⟨j, hj, rfl⟩ := serve_chmod hchmod
      obtain rfl : i = j := mem_unique hi hj
      generalize hfs₁ : fs.edit i _ = fs₁
      -- only the permission bits of the temporary file differ
      have hdest : fs₁.node? t.destination = fs.node? t.destination := by
        rw [← hfs₁]
        exact Fs.node?_edit_ne fun hdi => hne (h.alone i _ hi hdi)
      have hi₁ : fs₁.names t.temporary = some i := by rw [← hfs₁, Fs.edit_names, hi]
      have hset : Settled hash t declared landed fs₁ := by
        subst hfs₁
        refine ⟨fun j hj => ?_, h.alone, fun hl => ?_⟩
        · obtain rfl : i = j := mem_unique hi hj
          rw [Fs.edit_nodes_self]
          exact h.temp i hi
        · have habsent := (h.done hl).1
          rw [hi] at habsent
          cases habsent
      have hdel₁ : Delivers hash t (fs₁.nodes i) := by
        rw [← hfs₁, Fs.edit_nodes_self]
        exact hdel
      refine ⟨Or.inl hdest, ?_⟩
      rw [← hdest]
      refine safe_perform hset.steady fun _ fs₂ hrename => ?_
      obtain ⟨k, hk, ⟨hsame, rfl⟩ | ⟨_, rfl⟩⟩ := serve_posixRename hrename
      · exact absurd (hset.alone k _ hk hsame) hne
      · obtain ⟨hpub, htemp, hpost⟩ :=
          moved_post declared landed (fs₁.node? t.destination) hne hi₁ hdel₁
        refine ⟨Or.inr ⟨?_, hpub⟩, safe_pure htemp hpost⟩
        rw [hdest, hd, hprev, map_some, hversion]

/-- **Completing an upload** changes the destination only from the recorded
version to the promised file. -/
theorem complete_safe (h : Settled hash t declared landed fs) (hne : t.destination ≠ t.temporary)
    (hmay : ¬may (.remove t.temporary)) :
    Safe remote (uploadContract hash t declared may)
      (fun _ fs' => uploadPost hash t (fs.node? t.destination) landed fs')
      (completeUpload hash c t) fs := by
  refine safe_fromExcept h.steady fun _ _ => safe_lstatFound h.steady (fun _ => ?_) fun n hn => ?_
  · refine safe_committed h.steady fun b => ?_
    split
    · exact safe_pure h.temp h.post
    · exact safe_throw h.steady _
  · show Safe _ _ _ (ite _ _ _) _
    split
    · exact safe_throw h.steady _
    next hinfo =>
      refine safe_hashRemoteFile h.steady fun m hm _ _ => ?_
      split
      · exact safe_throw h.steady _
      next hdigest =>
        have hdel := delivers_of_checks hn hm hinfo hdigest
        obtain ⟨i, hi, rfl⟩ := Fs.names_of_node? hn
        cases hprev : t.previous with
        | none => exact publishNew_safe h hne hmay hi hdel hprev
        | some previous => exact publishOver_safe h hne hi hdel hprev

end Contracts

/-! ## §5. A new ticket. -/

/-- What a ticket says when `StartUpload` returns it: the temporary file is
new and empty, and `previous` is the version the destination has. -/
structure Begun (t : Ticket δ) (fs : Fs) : Prop where
  apart : t.destination ≠ t.temporary
  bounded : t.size ≤ maxSftpFileBytes
  empty : ∃ i, fs.names t.temporary = some i ∧ (fs.nodes i).kind = .regular ∧
    (fs.nodes i).content = []
  alone : Private t fs
  previous : (fs.node? t.destination).map (Node.version hash) = t.previous

/-- `StartUpload` touches no file but its temporary one. -/
def startContract (suffix : String) : Contract Fs Call where
  may _ := True
  inv _ := True
  guar fs fs' := ∀ p, p.base ≠ temporaryName suffix → fs'.node? p = fs.node? p

section Start

variable {hash} {suffix : String} {fs : Fs} {α : Type} {Q : Except Err α → Fs → Prop}

theorem start_steady (herr : ∀ e fs', Q (.error e) fs') (fs : Fs) :
    Steady (startContract suffix) Q fs :=
  ⟨trivial, fun _ _ => rfl, fun e => herr e fs⟩

/-- Removing the temporary file after an error. -/
theorem start_cleanup (herr : ∀ e fs', Q (.error e) fs') {p : FilePath}
    (hp : p.base = temporaryName suffix) (e : Err) (fs : Fs) :
    Safe remote (startContract suffix) Q
      (((ignore (Call.remove p)).handle fun _ => .ret ()).bind fun _ => .fail e) fs := by
  refine safe_cleanup trivial ⟨fun q hq => ?_, trivial, herr _ _⟩ fun _ => herr _ _
  have hne : q ≠ p := fun hqp => hq (hqp ▸ hp)
  show (serve fs (.remove p)).2.node? q = fs.node? q
  simp only [serve]
  split
  · exact Fs.node?_unlink_ne hne
  · rfl

/-- The temporary file of `t`, created in `fs`, is made private and returned
with the ticket. -/
theorem start_prepared {t : Ticket δ} {f : Nat} {temporary : FilePath}
    (htemp : t.temporary = temporary) (hname : temporary.base = temporaryName suffix)
    (ht : t.destination ≠ t.temporary ∧ t.size ≤ maxSftpFileBytes ∧
      (fs.node? t.destination).map (Node.version hash) = t.previous) :
    Safe remote (startContract suffix) (fun r fs' => ∀ t', r = .ok t' → Begun hash t' fs')
      (onError (do
          request (.chmod temporary temporaryPerm)
          request (.close f)
          pure t)
        (ignore (Call.remove temporary)))
      (fs.alloc temporary ⟨.regular, createdPerm, [], fs.clock⟩) := by
  subst htemp
  have herr : ∀ e (fs' : Fs), ∀ t', (Except.error e : Except Err (Ticket δ)) = .ok t' →
      Begun hash t' fs' := by
    intro e fs' t' ht'
    cases ht'
  apply safe_handle
  have hs : ∀ fs, Steady (startContract suffix) (orElse remote (startContract suffix)
      (fun (r : Except Err (Ticket δ)) fs' => ∀ t', r = .ok t' → Begun hash t' fs')
      fun e => ((ignore (Call.remove t.temporary)).handle fun _ => .ret ()).bind
        fun _ => .fail e) fs :=
    fun fs => ⟨trivial, fun _ _ => rfl, fun e => start_cleanup herr hname e fs⟩
  refine safe_perform (hs _) fun _ fs₁ hchmod => ?_
  obtain ⟨i, hi, rfl⟩ := serve_chmod hchmod
  obtain rfl : fs.next = i := mem_unique Fs.alloc_names_self hi
  -- no other name stands for the new inode
  have hother : ∀ p, p ≠ t.temporary →
      (fs.alloc t.temporary ⟨.regular, createdPerm, [], fs.clock⟩).names p ≠ some fs.next := by
    intro p hp hnext
    rw [Fs.alloc_names_ne hp] at hnext
    exact Nat.lt_irrefl _ (fs.fresh p _ hnext)
  refine ⟨fun p hp => Fs.node?_edit_ne (hother p fun hpt => hp (hpt ▸ hname)), ?_⟩
  refine safe_perform (hs _) fun _ fs₂ hclose => ?_
  cases hclose
  refine ⟨fun _ _ => rfl, safe_pure trivial ?_⟩
  intro t' ht'
  cases ht'
  refine ⟨ht.1, ht.2.1, ⟨fs.next, hi, ?_, ?_⟩, ?_, ?_⟩
  · rw [Fs.edit_nodes_self, Fs.alloc_nodes_next]
  · rw [Fs.edit_nodes_self, Fs.alloc_nodes_next]
  · intro j p hj hp
    obtain rfl : fs.next = j := mem_unique hi hj
    exact by_contra fun hne => hother p hne hp
  · rw [Fs.node?_edit_ne (hother _ ht.1), Fs.node?_alloc_ne ht.1]
    exact ht.2.2

/-- Recording the version to be replaced. -/
theorem safe_previousVersion {ext : Extensions} {destination : FilePath} {overwrite : Bool}
    {f : Option (FileVersion δ) → Program α} {K : Contract Fs Call} (hs : Steady K Q fs)
    (h : Safe remote K Q (f ((fs.node? destination).map (Node.version hash))) fs) :
    Safe remote K Q (pendingDestination ext destination overwrite >>= fun pending =>
      previousVersion hash destination pending >>= f) fs := by
  refine safe_pendingDestination hs (fun hn => ?_) fun n hn hkind _ => ?_
  · rw [hn] at h
    exact h
  · rw [hn] at h
    apply safe_bind
    refine safe_hashRemoteFile hs.bind fun m hm _ _ => safe_pure hs.inv ?_
    obtain rfl : n = m := mem_unique hn hm
    exact h

/-- **Starting an upload** leaves every other file alone and returns a ticket
that describes what it found. -/
theorem start_safe {c : Caller} {destination : Option FilePath} {size : Int} {digest : Option δ}
    {overwrite : Bool} {sealed : Option Nat}
    (hsuffix : ∀ d, destination = some d → d.base ≠ temporaryName suffix) :
    Safe remote (startContract suffix)
      (fun r fs' => ∀ t, r = .ok t → Begun hash t fs')
      (startUpload hash c destination size digest overwrite suffix sealed) fs := by
  have hs : ∀ fs, Steady (startContract suffix)
      (fun (r : Except Err (Ticket δ)) fs' => ∀ t, r = .ok t → Begun hash t fs') fs :=
    start_steady nofun
  match destination, digest with
  | none, _ => exact safe_throw (hs fs) _
  | some _, none => exact safe_throw (hs fs) _
  | some destination, some digest =>
    have hbase := hsuffix destination rfl
    simp only [startUpload]
    split
    · exact safe_throw (hs fs) _
    next hsize =>
    split
    · exact safe_throw (hs fs) _
    next owner _ =>
    refine safe_perform (hs fs) fun parent fs₁ hreal => ?_
    obtain ⟨_, rfl⟩ := serve_realPath hreal
    refine ⟨fun _ _ => rfl, safe_previousVersion (hs fs₁) ?_⟩
    split
    · exact safe_throw (hs fs₁) _
    split
    · exact safe_throw (hs fs₁) _
    refine safe_perform (hs fs₁) fun f fs₂ hcreate => ?_
    obtain ⟨habsent, rfl, rfl⟩ := serve_create hcreate
    refine ⟨fun p hp => Fs.node?_alloc_ne fun hpt => hp (congrArg FilePath.base hpt), ?_⟩
    apply start_prepared
    · rfl
    · rfl
    · refine ⟨fun hdt => hbase (congrArg FilePath.base hdt), ?_, rfl⟩
      show size.toNat ≤ maxSftpFileBytes
      omega

end Start

end Talus.Sftp
