/-
  Talus.Sftp.Remote
  **THE FILES OF AN SFTP PEER AND THE CALLS THE HUB MAKES ON THEM**
  (`service/sftp.go`, `service/sftp_resume.go`).

  Names stand for inodes and inodes for contents, because the difference can
  be seen: publishing a new file by a hard link gives its content two names
  until the temporary one is removed, and an open handle keeps writing to
  what its name stood for.

    • `Fs`: names, inodes, the peer's clock; no name stands for an inode that
      has not been handed out,
    • `Call`, `remote`: the SFTP requests, each atomic; one that fails leaves
      the files as they are,
    • `FileWriter`: what the SFTP library promises about writing a file,
    • `hashRemoteFile`, `pendingDestination`, `commitNew`, `copyBuffer`: the
      pieces the operations share, each with its rule.
-/
import Mathlib.Logic.Function.Basic
import Talus.Base.Script

namespace Talus.Sftp

open Talus.Base List Option Function

/-! ## §1. Files. -/

/-- A cleaned path, as `path.Dir` and `path.Base` split it. -/
structure FilePath where
  dir : String
  base : String
  deriving DecidableEq, Repr

inductive Kind
  | regular
  | directory
  | symlink
  | other
  deriving DecidableEq, Repr

/-- What an inode holds.  `perm` are the permission bits, `modified` the
modification time in the seconds the protocol carries. -/
structure Node where
  kind : Kind
  perm : Nat
  content : List UInt8
  modified : Int
  deriving DecidableEq, Repr

/-- `os.FileInfo`, as `Lstat` answers it; its `Mode()` is `kind` and `perm`. -/
structure FileInfo where
  kind : Kind
  perm : Nat
  size : Nat
  modified : Int
  deriving DecidableEq, Repr

def Node.info (n : Node) : FileInfo where
  kind := n.kind
  perm := n.perm
  size := n.content.length
  modified := n.modified

/-- The files of the peer.  `real` is the directory a directory's name
resolves to. -/
structure Fs where
  names : FilePath → Option Nat
  nodes : Nat → Node
  next : Nat
  clock : Int
  real : String → Option String
  fresh : ∀ p i, names p = some i → i < next

namespace Fs

/-- The file of this name. -/
def node? (fs : Fs) (p : FilePath) : Option Node := (fs.names p).map fs.nodes

/-- `q` becomes a name of what `p` stands for. -/
def share (fs : Fs) (p q : FilePath) : Fs :=
  { fs with
    names := Function.update fs.names q (fs.names p)
    fresh := by
      intro r i hr
      by_cases hq : r = q
      · subst hq
        rw [Function.update_self] at hr
        exact fs.fresh p i hr
      · rw [Function.update_of_ne hq] at hr
        exact fs.fresh r i hr }

def unlink (fs : Fs) (p : FilePath) : Fs :=
  { fs with
    names := Function.update fs.names p none
    fresh := by
      intro r i hr
      by_cases hp : r = p
      · subst hp
        rw [Function.update_self] at hr
        cases hr
      · rw [Function.update_of_ne hp] at hr
        exact fs.fresh r i hr }

/-- A new file under the name `p`. -/
def alloc (fs : Fs) (p : FilePath) (n : Node) : Fs :=
  { fs with
    names := Function.update fs.names p (some fs.next)
    nodes := Function.update fs.nodes fs.next n
    next := fs.next + 1
    fresh := by
      intro r i hr
      by_cases hp : r = p
      · subst hp
        rw [Function.update_self] at hr
        cases hr
        exact Nat.lt_succ_self _
      · rw [Function.update_of_ne hp] at hr
        exact Nat.lt_succ_of_lt (fs.fresh r i hr) }

/-- Change what inode `i` holds. -/
def edit (fs : Fs) (i : Nat) (n : Node) : Fs :=
  { fs with nodes := Function.update fs.nodes i n }

/-- `p` gives up its name to `q`. -/
def move (fs : Fs) (p q : FilePath) : Fs := (fs.share p q).unlink p

section Lemmas

variable {fs : Fs} {p q r : FilePath} {i j : Nat} {n : Node}

theorem node?_eq_some (h : fs.names p = some i) : fs.node? p = some (fs.nodes i) := by
  rw [node?, h]
  rfl

theorem node?_eq_none (h : fs.names p = none) : fs.node? p = none := by
  rw [node?, h]
  rfl

theorem names_of_node? (h : fs.node? p = some n) : ∃ i, fs.names p = some i ∧ fs.nodes i = n := by
  simpa [node?] using h

@[simp] theorem share_names_self : (fs.share p q).names q = fs.names p :=
  update_self ..

theorem share_names_ne (h : r ≠ q) : (fs.share p q).names r = fs.names r :=
  update_of_ne h ..

@[simp] theorem share_nodes : (fs.share p q).nodes = fs.nodes := rfl

@[simp] theorem unlink_names_self : (fs.unlink p).names p = none :=
  update_self ..

theorem unlink_names_ne (h : r ≠ p) : (fs.unlink p).names r = fs.names r :=
  update_of_ne h ..

@[simp] theorem unlink_nodes : (fs.unlink p).nodes = fs.nodes := rfl

@[simp] theorem alloc_names_self : (fs.alloc p n).names p = some fs.next :=
  update_self ..

theorem alloc_names_ne (h : r ≠ p) : (fs.alloc p n).names r = fs.names r :=
  update_of_ne h ..

@[simp] theorem alloc_nodes_next : (fs.alloc p n).nodes fs.next = n :=
  update_self ..

theorem alloc_nodes_ne (h : i ≠ fs.next) : (fs.alloc p n).nodes i = fs.nodes i :=
  update_of_ne h ..

@[simp] theorem edit_names : (fs.edit i n).names = fs.names := rfl

@[simp] theorem edit_nodes_self : (fs.edit i n).nodes i = n :=
  update_self ..

theorem edit_nodes_ne (h : j ≠ i) : (fs.edit i n).nodes j = fs.nodes j :=
  update_of_ne h ..

theorem move_names_source (h : p ≠ q) : (fs.move p q).names p = none ∧
    (fs.move p q).names q = fs.names p := by
  refine ⟨unlink_names_self, ?_⟩
  rw [move, unlink_names_ne h.symm, share_names_self]

theorem move_names_ne (hp : r ≠ p) (hq : r ≠ q) : (fs.move p q).names r = fs.names r := by
  rw [move, unlink_names_ne hp, share_names_ne hq]

@[simp] theorem move_nodes : (fs.move p q).nodes = fs.nodes := rfl

/-! ### What other names see. -/

theorem node?_unlink_ne (h : r ≠ p) : (fs.unlink p).node? r = fs.node? r := by
  simp [node?, unlink_names_ne h]

/-- A new file is seen under its own name only. -/
theorem node?_alloc_ne (h : r ≠ p) : (fs.alloc p n).node? r = fs.node? r := by
  rw [node?, node?, alloc_names_ne h]
  cases hr : fs.names r with
  | none => rfl
  | some i => exact congrArg some (alloc_nodes_ne (Nat.ne_of_lt (fs.fresh r i hr)))

/-- Writing to an inode is seen under its names only. -/
theorem node?_edit_ne (h : fs.names r ≠ some i) : (fs.edit i n).node? r = fs.node? r := by
  rw [node?, node?, edit_names]
  cases hr : fs.names r with
  | none => rfl
  | some j =>
    have hne : j ≠ i := fun hj => h (hj ▸ hr)
    exact congrArg some (edit_nodes_ne hne)

end Lemmas

end Fs

/-! ## §2. Errors. -/

/-- The reasons of `SFTPError`. -/
inductive SftpReason
  | alreadyExists
  | notRegular
  | atomicUnsupported
  | conflict
  | sizeMismatch
  | checksumMismatch
  | invalidUpload
  | invalidPath
  | tooLarge
  | textTooLarge
  | notText
  | uploadExpired
  | busy
  deriving DecidableEq, Repr

def SftpReason.text : SftpReason → String
  | .alreadyExists => "sftp_exists"
  | .notRegular => "sftp_not_regular"
  | .atomicUnsupported => "sftp_atomic_unsupported"
  | .conflict => "sftp_conflict"
  | .sizeMismatch => "sftp_size_mismatch"
  | .checksumMismatch => "sftp_checksum_mismatch"
  | .invalidUpload => "sftp_invalid_upload"
  | .invalidPath => "sftp_invalid_path"
  | .tooLarge => "sftp_too_large"
  | .textTooLarge => "sftp_text_too_large"
  | .notText => "sftp_not_text"
  | .uploadExpired => "sftp_upload_expired"
  | .busy => "sftp_busy"

inductive Err
  /-- `SFTPError(reason)` -/
  | app (reason : SftpReason)
  /-- `server.ErrForbidden` -/
  | forbidden
  /-- `fs.ErrNotExist` -/
  | notExist
  /-- any other failure of the connection or the peer -/
  | failed
  /-- `ctx.Err()`, `context.Cause(ctx)` -/
  | canceled
  deriving DecidableEq, Repr

/-! ## §3. Calls. -/

inductive Call
  | realPath (dir : String)
  | lstat (p : FilePath)
  /-- `OpenFile(p, O_CREATE|O_EXCL|O_WRONLY)` -/
  | create (p : FilePath)
  /-- `OpenFile(p, O_WRONLY)` -/
  | openWrite (p : FilePath)
  /-- `Open(p)` -/
  | openRead (p : FilePath)
  /-- up to `limit` bytes from the start -/
  | read (h : Nat) (limit : Nat)
  | write (h : Nat) (offset : Nat) (data : List UInt8)
  | close (h : Nat)
  | chmod (p : FilePath) (perm : Nat)
  | link (p q : FilePath)
  | rename (p q : FilePath)
  | posixRename (p q : FilePath)
  | remove (p : FilePath)
  /-- the program looks at `ctx.Err()`; refused when the context is done -/
  | ctxErr
  deriving DecidableEq, Repr

@[reducible] def Call.Answer : Call → Type
  | .realPath _ => String
  | .lstat _ => FileInfo
  | .create _ => Nat
  | .openWrite _ => Nat
  | .openRead _ => Nat
  | .read _ _ => List UInt8
  | _ => Unit

/-- The content after `data` was written at `offset`; a gap reads as zeros. -/
def pwrite (content : List UInt8) (offset : Nat) (data : List UInt8) : List UInt8 :=
  (content ++ List.replicate (offset - content.length) 0).take offset ++ data ++
    content.drop (offset + data.length)

theorem pwrite_end (content data : List UInt8) :
    pwrite content content.length data = content ++ data := by
  simp [pwrite]

/-- The permission bits a server gives to a file it creates. -/
def createdPerm : Nat := 0o644

/-- Serve one request. -/
def serve (fs : Fs) : (c : Call) → Except Err c.Answer × Fs
  | .realPath dir =>
    match fs.real dir with
    | some d => (.ok d, fs)
    | none => (.error .notExist, fs)
  | .lstat p =>
    match fs.node? p with
    | some n => (.ok n.info, fs)
    | none => (.error .notExist, fs)
  | .create p =>
    match fs.names p with
    | some _ => (.error .failed, fs)
    | none => (.ok fs.next, fs.alloc p ⟨.regular, createdPerm, [], fs.clock⟩)
  | .openWrite p =>
    match fs.names p with
    | some i => (.ok i, fs)
    | none => (.error .notExist, fs)
  | .openRead p =>
    match fs.names p with
    | some i => (.ok i, fs)
    | none => (.error .notExist, fs)
  | .read h limit => (.ok ((fs.nodes h).content.take limit), fs)
  | .write h offset data =>
    (.ok (), fs.edit h { fs.nodes h with
      content := pwrite (fs.nodes h).content offset data
      modified := fs.clock })
  | .close _ => (.ok (), fs)
  | .chmod p perm =>
    match fs.names p with
    | some i => (.ok (), fs.edit i { fs.nodes i with perm := perm })
    | none => (.error .notExist, fs)
  | .link p q =>
    match fs.names p, fs.names q with
    | some _, none => (.ok (), fs.share p q)
    | none, _ => (.error .notExist, fs)
    | _, _ => (.error .failed, fs)
  | .rename p q =>
    match fs.names p, fs.names q with
    | some _, none => (.ok (), fs.move p q)
    | none, _ => (.error .notExist, fs)
    | _, _ => (.error .failed, fs)
  | .posixRename p q =>
    match fs.names p with
    | none => (.error .notExist, fs)
    -- two names of one file: rename(2) does nothing
    | some i => if fs.names q = some i then (.ok (), fs) else (.ok (), fs.move p q)
  | .remove p =>
    match fs.names p with
    | some _ => (.ok (), fs.unlink p)
    | none => (.error .notExist, fs)
  | .ctxErr => (.ok (), fs)

def refusal : Call → Err
  | .ctxErr => .canceled
  | _ => .failed

/-- **A request that fails has no effect.** -/
theorem serve_error (fs : Fs) (c : Call) (e : Err) (h : (serve fs c).1 = .error e) :
    (serve fs c).2 = fs := by
  cases c with
  | read _ _ => rfl
  | write _ _ _ => cases h
  | close _ => rfl
  | ctxErr => rfl
  | posixRename p q =>
    simp only [serve] at h ⊢
    split at h
    · rfl
    · split at h <;> cases h
  | _ =>
    simp only [serve] at h ⊢
    split at h <;> first | rfl | cases h

def remote : Peer Fs Call Call.Answer Err where
  effect := serve
  refusal := refusal
  effect_error := serve_error

/-! ### What a served request says. -/

section Served

variable {fs fs' : Fs} {p q : FilePath}

theorem serve_lstat {info : FileInfo} (h : serve fs (.lstat p) = (.ok info, fs')) :
    (∃ n, fs.node? p = some n ∧ info = n.info) ∧ fs' = fs := by
  simp only [serve] at h
  split at h
  next n hn =>
    cases h
    exact ⟨⟨n, hn, rfl⟩, rfl⟩
  next => cases h

theorem serve_realPath {dir d : String} (h : serve fs (.realPath dir) = (.ok d, fs')) :
    fs.real dir = some d ∧ fs' = fs := by
  simp only [serve] at h
  split at h
  next d' hd =>
    cases h
    exact ⟨hd, rfl⟩
  next => cases h

variable {i : Nat}

theorem serve_create (h : serve fs (.create p) = (.ok i, fs')) :
    fs.names p = none ∧ i = fs.next ∧ fs' = fs.alloc p ⟨.regular, createdPerm, [], fs.clock⟩ := by
  simp only [serve] at h
  split at h
  next => cases h
  next hp =>
    cases h
    exact ⟨hp, rfl, rfl⟩

theorem serve_openWrite (h : serve fs (.openWrite p) = (.ok i, fs')) :
    fs.names p = some i ∧ fs' = fs := by
  simp only [serve] at h
  split at h
  next j hj =>
    cases h
    exact ⟨hj, rfl⟩
  next => cases h

theorem serve_openRead (h : serve fs (.openRead p) = (.ok i, fs')) :
    fs.names p = some i ∧ fs' = fs := by
  simp only [serve] at h
  split at h
  next j hj =>
    cases h
    exact ⟨hj, rfl⟩
  next => cases h

variable {a : Unit}

theorem serve_chmod {perm : Nat} (h : serve fs (.chmod p perm) = (.ok a, fs')) :
    ∃ i, fs.names p = some i ∧ fs' = fs.edit i { fs.nodes i with perm := perm } := by
  simp only [serve] at h
  split at h
  next i hi =>
    cases h
    exact ⟨i, hi, rfl⟩
  next => cases h

theorem serve_link (h : serve fs (.link p q) = (.ok a, fs')) :
    (∃ i, fs.names p = some i) ∧ fs.names q = none ∧ fs' = fs.share p q := by
  simp only [serve] at h
  split at h
  next i hp hq =>
    cases h
    exact ⟨⟨i, hp⟩, hq, rfl⟩
  next => cases h
  next => cases h

theorem serve_rename (h : serve fs (.rename p q) = (.ok a, fs')) :
    (∃ i, fs.names p = some i) ∧ fs.names q = none ∧ fs' = fs.move p q := by
  simp only [serve] at h
  split at h
  next i hp hq =>
    cases h
    exact ⟨⟨i, hp⟩, hq, rfl⟩
  next => cases h
  next => cases h

theorem serve_posixRename (h : serve fs (.posixRename p q) = (.ok a, fs')) :
    ∃ i, fs.names p = some i ∧
      (fs.names q = some i ∧ fs' = fs ∨ fs.names q ≠ some i ∧ fs' = fs.move p q) := by
  simp only [serve] at h
  split at h
  next => cases h
  next i hp =>
    split at h
    next hq =>
      cases h
      exact ⟨i, hp, Or.inl ⟨hq, rfl⟩⟩
    next hq =>
      cases h
      exact ⟨i, hp, Or.inr ⟨hq, rfl⟩⟩

theorem serve_remove (h : serve fs (.remove p) = (.ok a, fs')) :
    (∃ i, fs.names p = some i) ∧ fs' = fs.unlink p := by
  simp only [serve] at h
  split at h
  next i hp =>
    cases h
    exact ⟨⟨i, hp⟩, rfl⟩
  next => cases h

end Served

/-! ## §4. Programs. -/

/-- A program of the Hub. -/
abbrev Program (α : Type) := Script Call Call.Answer Err α

open Script

/-- One request. -/
def request (c : Call) : Program c.Answer := perform c

def lstat (p : FilePath) : Program FileInfo := request (.lstat p)

/-- `errors.Is(err, fs.ErrNotExist)` is no error for the caller. -/
def foundBy : Except Err FileInfo → Except Err (Option FileInfo)
  | .ok info => .ok (some info)
  | .error .notExist => .ok none
  | .error e => .error e

/-- `Lstat`, where a missing file is an answer. -/
def lstatFound (p : FilePath) : Program (Option FileInfo) := ask (Call.lstat p) foundBy

/-- `Lstat`, where every error is the answer `none`. -/
def lstatAny (p : FilePath) : Program (Option FileInfo) :=
  ask (Call.lstat p) fun r => .ok r.toOption

/-- The digests of SHA-256 are opaque: `hash` is the digest of a content. -/
def hashRemoteFile {δ : Type} (hash : List UInt8 → δ) (p : FilePath) (limit : Nat) : Program δ := do
  let info ← lstat p
  if info.kind ≠ .regular then throw (.app .notRegular)
  else if info.size > limit then throw (.app .tooLarge)
  else do
    let file ← request (.openRead p)
    let data : List UInt8 ← request (.read file (limit + 1))
    if data.length ≠ info.size then throw (.app .conflict)
    else pure (hash data)

/-- `MaxSFTPFileBytes`. -/
def maxSftpFileBytes : Nat := 64 * 1048576

/-- The base name of a temporary file; `suffix` is `randomFileSuffix()`. -/
def temporaryName (suffix : String) : String := ".talus-upload-" ++ suffix

/-- The mode of a temporary file. -/
def temporaryPerm : Nat := 0o600

/-- What the peer's version packet offered: `hardlink@openssh.com` and
`posix-rename@openssh.com`. -/
structure Extensions where
  hardlink : Bool
  posixRename : Bool
  deriving DecidableEq, Repr

def pendingDestination (ext : Extensions) (p : FilePath) (overwrite : Bool) :
    Program (Option FileInfo) := do
  let found ← lstatFound p
  match found with
  | none => pure none
  | some info =>
    if !overwrite then throw (.app .alreadyExists)
    else if info.kind ≠ .regular then throw (.app .notRegular)
    else if !ext.posixRename then throw (.app .atomicUnsupported)
    else pure (some info)

/-- Publish `tmp` under the name `p` that has to be free: by a hard link, which
cannot replace a file, or by the v3 rename, which must not. -/
def commitNew (ext : Extensions) (tmp p : FilePath) : Program Unit := do
  let found ← lstatFound p
  match found with
  | some _ => throw (.app .alreadyExists)
  | none =>
    if ext.hardlink then do
      request (.link tmp p)
      ignore (Call.remove tmp)
      pure ()
    else do
      request (.rename tmp p)
      pure ()

/-- A request body: the pieces it arrives in, and whether it breaks off after
them instead of ending. -/
structure Body where
  pieces : List (List UInt8)
  broken : Bool
  deriving DecidableEq, Repr

def Body.bytes (b : Body) : List UInt8 := b.pieces.flatten

/-- The program writes `data` to `h` from `offset` on, one WRITE after the
other, and then goes on as `fin`.  A WRITE that fails is its last, and its
error. -/
inductive Writes {α : Type} (h : Nat) (fin : Program α) : Nat → List UInt8 → Program α → Prop
  | done (offset : Nat) : Writes h fin offset [] fin
  | packet {offset : Nat} {piece rest : List UInt8} {k : Except Err Unit → Program α}
      (next : Writes h fin (offset + piece.length) rest (k (.ok ())))
      (stop : ∀ e, ∃ e', k (.error e) = .fail e') :
      Writes h fin offset (piece ++ rest) (.call (.write h offset piece) k)

/-- The methods of the SFTP library's `File` by which the Hub writes, with what
the library documents of them.  How the bytes are cut into packets is left
open.  The Hub does not ask for concurrent writes (`sftp.NewClientPipe` in
`service/sftp_transport.go`), and without them no WRITE is made at a later
offset after one has failed. -/
structure FileWriter where
  /-- `File.ReadFrom` at `offset`, of a body cut off after `limit` bytes -/
  readFrom (h offset : Nat) (body : Body) (limit : Nat) : Program Nat
  /-- `File.Write` at `offset` -/
  write (h offset : Nat) (data : List UInt8) : Program Unit
  /-- `ReadFrom` reads until EOF, writes what it has read and returns how much
  that was -/
  readFrom_eof (h offset : Nat) (body : Body) (limit : Nat) :
    (body.broken = true → limit ≤ body.bytes.length) →
      Writes h (pure (body.bytes.take limit).length) offset (body.bytes.take limit)
        (readFrom h offset body limit)
  /-- any other error of the reader is returned -/
  readFrom_broken (h offset : Nat) (body : Body) (limit : Nat) :
    body.broken = true → body.bytes.length < limit →
      ∃ data e, data <+: body.bytes ∧ Writes h (.fail e) offset data (readFrom h offset body limit)
  /-- `Write` writes all of `data`, or returns an error -/
  write_all (h offset : Nat) (data : List UInt8) :
    Writes h (pure ()) offset data (write h offset data)

/-- `io.CopyBuffer(f, io.LimitReader(body, limit))`, which leaves the copy to
the `ReadFrom` of its destination. -/
def copyBuffer (wr : FileWriter) (h offset : Nat) (body : Body) (limit : Nat) : Program Nat :=
  wr.readFrom h offset body limit

/-! ## §5. Their rules. -/

section Rules

variable {α : Type} {K : Contract Fs Call} {Q : Except Err α → Fs → Prop} {fs : Fs} {p : FilePath}

theorem safe_lstat {f : FileInfo → Program α} (hs : Steady K Q fs)
    (h : ∀ n, fs.node? p = some n → Safe remote K Q (f n.info) fs) :
    Safe remote K Q (lstat p >>= f) fs := by
  refine safe_perform hs fun info fs' hserve => ?_
  obtain ⟨⟨n, hn, rfl⟩, rfl⟩ := serve_lstat hserve
  exact ⟨hs.guar, h n hn⟩

theorem lstat_pure : (remote.effect fs (.lstat p)).2 = fs := by
  show (serve fs (.lstat p)).2 = fs
  simp only [serve]
  split <;> rfl

theorem lstat_answer : (remote.effect fs (.lstat p)).1 =
    match fs.node? p with
    | some n => .ok n.info
    | none => .error .notExist := by
  show (serve fs (.lstat p)).1 = _
  simp only [serve]
  split <;> rfl

variable {f : Option FileInfo → Program α}

theorem safe_lstatFound (hs : Steady K Q fs)
    (hnone : fs.node? p = none → Safe remote K Q (f none) fs)
    (hsome : ∀ n, fs.node? p = some n → Safe remote K Q (f (some n.info)) fs) :
    Safe remote K Q (lstatFound p >>= f) fs := by
  refine safe_query hs lstat_pure ?_ nofun
  intro b hb
  rw [lstat_answer] at hb
  cases hn : fs.node? p with
  | none =>
    rw [hn] at hb
    cases hb
    exact hnone hn
  | some n =>
    rw [hn] at hb
    cases hb
    exact hsome n hn

/-- Here `none` also stands for a request that failed. -/
theorem safe_lstatAny (hs : Steady K Q fs) (hnone : Safe remote K Q (f none) fs)
    (hsome : ∀ n, fs.node? p = some n → Safe remote K Q (f (some n.info)) fs) :
    Safe remote K Q (lstatAny p >>= f) fs := by
  refine safe_query hs lstat_pure ?_ fun _ b hb => by
    cases hb
    exact hnone
  intro b hb
  rw [lstat_answer] at hb
  cases hn : fs.node? p with
  | none =>
    rw [hn] at hb
    cases hb
    exact hnone
  | some n =>
    rw [hn] at hb
    cases hb
    exact hsome n hn

/-- Hashing a file changes nothing; what it returns is the digest of a regular
file's content. -/
theorem safe_hashRemoteFile {δ : Type} {hash : List UInt8 → δ} {limit : Nat} {f : δ → Program α}
    (hs : Steady K Q fs)
    (h : ∀ n, fs.node? p = some n → n.kind = .regular → n.content.length ≤ limit →
      Safe remote K Q (f (hash n.content)) fs) :
    Safe remote K Q (hashRemoteFile hash p limit >>= f) fs := by
  apply safe_bind
  refine safe_lstat hs.bind fun n hn => ?_
  split
  · exact safe_throw hs.bind _
  next hkind =>
    split
    · exact safe_throw hs.bind _
    next hsize =>
      refine safe_perform hs.bind fun i fs' hserve => ?_
      obtain ⟨hi, rfl⟩ := serve_openRead hserve
      refine ⟨hs.guar, safe_perform hs.bind fun data fs'' hread => ?_⟩
      cases hread
      refine ⟨hs.guar, ?_⟩
      obtain ⟨j, hj, hnj⟩ := Fs.names_of_node? hn
      obtain rfl : j = i := mem_unique hj hi
      -- the file fits, so that the limit cuts nothing off
      have hlen : n.content.length ≤ limit := Nat.le_of_not_lt hsize
      have htake : (fs'.nodes j).content.take (limit + 1) = n.content := by
        rw [hnj]
        exact take_of_length_le (Nat.le_succ_of_le hlen)
      split
      · exact safe_throw hs.bind _
      · refine safe_pure hs.inv ?_
        rw [htake]
        exact h n hn (not_not.mp hkind) hlen

/-- What a destination has to be for the upload to go on. -/
theorem safe_pendingDestination {ext : Extensions} {overwrite : Bool} (hs : Steady K Q fs)
    (hnew : fs.node? p = none → Safe remote K Q (f none) fs)
    (hold : ∀ n, fs.node? p = some n → n.kind = .regular → ext.posixRename = true →
      Safe remote K Q (f (some n.info)) fs) :
    Safe remote K Q (pendingDestination ext p overwrite >>= f) fs := by
  apply safe_bind
  refine safe_lstatFound hs.bind (fun hn => safe_pure hs.inv (hnew hn)) fun n hn => ?_
  show Safe _ _ _ (ite _ _ _) _
  split
  · exact safe_throw hs.bind _
  split
  · exact safe_throw hs.bind _
  next hkind =>
    split
    · exact safe_throw hs.bind _
    next hext =>
      exact safe_pure hs.inv (hold n hn (not_not.mp hkind) (by simpa using hext))

variable {i : Nat}

/-- **Publishing under a free name.**  Between the link and the removal the
file has both names; if the removal is refused it keeps them. -/
theorem safe_commitNew {Q : Except Err Unit → Fs → Prop} {ext : Extensions} {tmp : FilePath}
    (hs : Steady K Q fs) (hne : p ≠ tmp) (hi : fs.names tmp = some i)
    (hmove : fs.names p = none → K.guar fs (fs.move tmp p) ∧ K.inv (fs.move tmp p) ∧
      Q (.ok ()) (fs.move tmp p))
    (hlink : fs.names p = none → K.guar fs (fs.share tmp p) ∧ K.inv (fs.share tmp p) ∧
      K.guar (fs.share tmp p) (fs.share tmp p) ∧
      K.guar (fs.share tmp p) (fs.move tmp p) ∧
      (K.may (.remove tmp) → Q (.ok ()) (fs.share tmp p))) :
    Safe remote K Q (commitNew ext tmp p) fs := by
  refine safe_lstatFound hs (fun hfree => ?_) fun n _ => safe_throw hs _
  have hnone : fs.names p = none := by
    cases hp : fs.names p with
    | none => rfl
    | some j =>
      rw [Fs.node?_eq_some hp] at hfree
      cases hfree
  obtain ⟨hguar, hinv, hpost⟩ := hmove hnone
  show Safe _ _ _ (ite _ _ _) _
  split
  · obtain ⟨hguarL, hinvL, hrefl, hguarR, hleft⟩ := hlink hnone
    refine safe_perform hs fun _ fs₁ hserve => ?_
    obtain ⟨_, _, rfl⟩ := serve_link hserve
    refine ⟨hguarL, safe_ignore ⟨hinvL, hrefl⟩ (fun _ fs₂ hremove => ?_) ?_⟩
    · obtain ⟨_, rfl⟩ := serve_remove hremove
      exact ⟨hguarR, safe_pure hinv hpost⟩
    · rintro (hm | ⟨e, he⟩)
      · exact safe_pure hinvL (hleft hm)
      · have hname : (fs.share tmp p).names tmp = some i := by
          rw [Fs.share_names_ne hne.symm, hi]
        have hserve : (serve (fs.share tmp p) (.remove tmp)).1 = .error e := he
        simp only [serve, hname] at hserve
        cases hserve
  · refine safe_perform hs fun _ fs₁ hserve => ?_
    obtain ⟨_, _, rfl⟩ := serve_rename hserve
    exact ⟨hguar, safe_pure hinv hpost⟩

/-- `fs'` differs from `fs` by `data` appended to the inode `i`, whose
modification time may have changed with it. -/
structure Grown (fs : Fs) (i : Nat) (data : List UInt8) (fs' : Fs) : Prop where
  names : fs'.names = fs.names
  others : ∀ j, j ≠ i → fs'.nodes j = fs.nodes j
  kind : (fs'.nodes i).kind = (fs.nodes i).kind
  perm : (fs'.nodes i).perm = (fs.nodes i).perm
  content : (fs'.nodes i).content = (fs.nodes i).content ++ data

namespace Grown

variable {fs' fs'' : Fs} {i : Nat} {data data' : List UInt8}

theorem refl (fs : Fs) (i : Nat) : Grown fs i [] fs :=
  ⟨rfl, fun _ _ => rfl, rfl, rfl, (append_nil _).symm⟩

theorem trans (h : Grown fs i data fs') (h' : Grown fs' i data' fs'') :
    Grown fs i (data ++ data') fs'' where
  names := h'.names.trans h.names
  others j hj := (h'.others j hj).trans (h.others j hj)
  kind := h'.kind.trans h.kind
  perm := h'.perm.trans h.perm
  content := by rw [h'.content, h.content, append_assoc]

/-- Names of other inodes see no difference. -/
theorem node? (h : Grown fs i data fs') (hp : fs.names p ≠ some i) : fs'.node? p = fs.node? p := by
  rw [Fs.node?, Fs.node?, h.names]
  cases hn : fs.names p with
  | none => rfl
  | some j =>
    have hj : j ≠ i := fun hj => hp (hj ▸ hn)
    exact congrArg some (h.others j hj)

theorem of_write {offset : Nat} {a : Unit} (hoff : offset = (fs.nodes i).content.length)
    (h : serve fs (.write i offset data) = (.ok a, fs')) : Grown fs i data fs' := by
  cases h
  refine ⟨rfl, fun j hj => Fs.edit_nodes_ne hj, ?_, ?_, ?_⟩ <;> rw [Fs.edit_nodes_self]
  show pwrite _ offset data = _
  rw [hoff, pwrite_end]

end Grown

/-- **Writing to the end of a file** passes through the states in which a part
of the data has arrived. -/
theorem Writes.safe {data : List UInt8} {fin : Program α} {fs₀ : Fs}
    (hs : ∀ pre fs', pre <+: data → Grown fs₀ i pre fs' → Steady K Q fs')
    (hg : ∀ pre piece fs' fs'', pre ++ piece <+: data → Grown fs₀ i pre fs' →
      Grown fs' i piece fs'' → K.guar fs' fs'')
    (hdone : ∀ fs', Grown fs₀ i data fs' → Safe remote K Q fin fs')
    {offset : Nat} {rest : List UInt8} {x : Program α} (hx : Writes i fin offset rest x) :
    ∀ pre fs, pre ++ rest = data → Grown fs₀ i pre fs →
      offset = (fs.nodes i).content.length → Safe remote K Q x fs := by
  induction hx with
  | done offset =>
    intro pre fs hdata hgrown _
    obtain rfl : pre = data := by simpa using hdata
    exact hdone fs hgrown
  | @packet offset piece rest k next stop ih =>
    intro pre fs hdata hgrown hoff
    have hnext : pre ++ piece <+: data := ⟨rest, by simpa using hdata⟩
    have hsteady := hs pre fs ((prefix_append _ _).trans hnext) hgrown
    have hwrite : Grown fs i piece (serve fs (.write i offset piece)).2 := Grown.of_write hoff rfl
    refine ⟨hsteady.inv, ⟨hg pre piece fs _ hnext hgrown hwrite, ?_⟩, fun _ => ?_⟩
    · refine ih (pre ++ piece) _ (by simpa using hdata) (hgrown.trans hwrite) ?_
      show _ = ((serve fs (.write i offset piece)).2.nodes i).content.length
      rw [hwrite.content, length_append, hoff]
    · obtain ⟨e', he'⟩ := stop (refusal (.write i offset piece))
      show Safe remote K Q (k (.error (refusal (.write i offset piece)))) fs
      rw [he']
      exact safe_throw hsteady e'

variable {wr : FileWriter}

/-- **Copying a body to the end of a file.** -/
theorem safe_copyBuffer {offset limit : Nat} {body : Body} {f : Nat → Program α}
    (hoff : offset = (fs.nodes i).content.length)
    (hs : ∀ pre fs', pre <+: body.bytes.take limit → Grown fs i pre fs' → Steady K Q fs')
    (hg : ∀ pre piece fs' fs'', pre ++ piece <+: body.bytes.take limit → Grown fs i pre fs' →
      Grown fs' i piece fs'' → K.guar fs' fs'')
    (hdone : ∀ fs', Grown fs i (body.bytes.take limit) fs' →
      Safe remote K Q (f (body.bytes.take limit).length) fs') :
    Safe remote K Q (copyBuffer wr i offset body limit >>= f) fs := by
  apply safe_bind
  by_cases hbreak : body.broken = true ∧ body.bytes.length < limit
  · -- the body breaks off: a part of what came is written, and the copy fails
    obtain ⟨data, e, hdata, hx⟩ := wr.readFrom_broken i offset body limit hbreak.1 hbreak.2
    rw [← take_of_length_le (Nat.le_of_lt hbreak.2)] at hdata
    refine hx.safe (fun pre fs' hpre hgrown => (hs pre fs' (hpre.trans hdata) hgrown).bind)
      (fun pre piece fs' fs'' hpre => hg pre piece fs' fs'' (hpre.trans hdata)) ?_
      [] fs rfl (Grown.refl fs i) hoff
    intro fs' hgrown
    exact safe_throw (hs data fs' hdata hgrown).bind e
  · have hx := wr.readFrom_eof i offset body limit fun hb => Nat.not_lt.mp fun hl => hbreak ⟨hb, hl⟩
    refine hx.safe (fun pre fs' hpre hgrown => (hs pre fs' hpre hgrown).bind) hg ?_
      [] fs rfl (Grown.refl fs i) hoff
    intro fs' hgrown
    exact safe_pure (hs _ fs' (prefix_refl _) hgrown).inv (hdone fs' hgrown)

end Rules

/-! ## §6. Their calm runs. -/

section Calm

variable {α : Type} {fs : Fs} {p : FilePath}

theorem calm_request {c : Call} {f : c.Answer → Program α} {a : c.Answer} {fs' : Fs}
    (h : serve fs c = (.ok a, fs')) :
    calm remote (request c >>= f) fs = calm remote (f a) fs' := calm_perform h

theorem calm_lstatFound {f : Option FileInfo → Program α} :
    calm remote (lstatFound p >>= f) fs = calm remote (f ((fs.node? p).map Node.info)) fs := by
  apply calm_bind_ok
  rw [lstatFound, calm_ask, lstat_answer, lstat_pure]
  cases fs.node? p with
  | none => rfl
  | some n => rfl

theorem calm_lstat {f : FileInfo → Program α} {n : Node} (hn : fs.node? p = some n) :
    calm remote (lstat p >>= f) fs = calm remote (f n.info) fs := by
  apply calm_request
  simp only [serve, hn]

/-- A regular file within the limit has a digest. -/
theorem calm_hashRemoteFile {δ : Type} (hash : List UInt8 → δ) {limit : Nat} {n : Node}
    (hn : fs.node? p = some n) (hkind : n.kind = .regular) (hsize : n.content.length ≤ limit) :
    calm remote (hashRemoteFile hash p limit) fs = (.ok (hash n.content), fs) := by
  obtain ⟨i, hi, rfl⟩ := Fs.names_of_node? hn
  have hregular : ¬(fs.nodes i).info.kind ≠ .regular := not_not.mpr hkind
  have hfits : ¬(fs.nodes i).info.size > limit := Nat.not_lt.mpr hsize
  have hall : ¬(fs.nodes i).content.length ≠ (fs.nodes i).info.size := not_not.mpr rfl
  have hopen : serve fs (.openRead p) = (.ok i, fs) := by simp only [serve, hi]
  have hread : serve fs (.read i (limit + 1)) = (.ok (fs.nodes i).content, fs) := by
    simp only [serve]
    rw [take_of_length_le (Nat.le_succ_of_le hsize)]
  rw [hashRemoteFile, calm_lstat hn, if_neg hregular, if_neg hfits, calm_request hopen,
    calm_request hread, if_neg hall]
  rfl

/-- With no WRITE refused, all of them are made. -/
theorem Writes.calm {h offset : Nat} {fin x : Program α} {data : List UInt8}
    (hx : Writes h fin offset data x) :
    ∀ fs, ∃ fs', Script.calm remote x fs = Script.calm remote fin fs' := by
  induction hx with
  | done offset => exact fun fs => ⟨fs, rfl⟩
  | packet next stop ih => exact fun fs => ih _

/-- A body that ends within the limit is copied whole. -/
theorem calm_copyBuffer (wr : FileWriter) (fs : Fs) (h offset limit : Nat) {body : Body}
    (hbroken : body.broken = false) (hlen : body.bytes.length ≤ limit) :
    ∃ fs', calm remote (copyBuffer wr h offset body limit) fs = (.ok body.bytes.length, fs') := by
  have hx := wr.readFrom_eof h offset body limit (by simp [hbroken])
  obtain ⟨fs', hcalm⟩ := hx.calm fs
  rw [take_of_length_le hlen] at hcalm
  exact ⟨fs', hcalm⟩

end Calm

/-! ## §7. A writer. -/

theorem Writes.single {α : Type} {h offset : Nat} {data : List UInt8} {fin : Program α}
    {k : Except Err Unit → Program α} (next : k (.ok ()) = fin)
    (stop : ∀ e, ∃ e', k (.error e) = .fail e') :
    Writes h fin offset data (.call (.write h offset data) k) := by
  have hdone : Writes h fin (offset + data.length) [] (k (.ok ())) := next ▸ .done _
  have hone := Writes.packet hdone stop
  rwa [append_nil] at hone

/-- The one that sends each content in a single packet. -/
def singlePacket : FileWriter where
  readFrom h offset body limit := do
    request (.write h offset (body.bytes.take limit))
    if body.broken ∧ body.bytes.length < limit then throw .failed
    else pure (body.bytes.take limit).length
  write h offset data := request (.write h offset data)
  readFrom_eof h offset body limit hwhole := by
    have hgo : ¬(body.broken ∧ body.bytes.length < limit) :=
      fun hb => absurd (hwhole hb.1) (Nat.not_le.mpr hb.2)
    rw [if_neg hgo]
    exact .single rfl fun e => ⟨e, rfl⟩
  readFrom_broken h offset body limit hb hlen := by
    refine ⟨body.bytes, .failed, prefix_refl _, ?_⟩
    rw [if_pos ⟨hb, hlen⟩, take_of_length_le (Nat.le_of_lt hlen)]
    exact .single rfl fun e => ⟨e, rfl⟩
  write_all h offset data := .single rfl fun e => ⟨e, rfl⟩

end Talus.Sftp
