/-
  Talus.Sftp.Protocol
  **A RESUMABLE UPLOAD FROM ITS FIRST REQUEST TO ITS LAST**
  (`service/sftp_resume.go`, `handler/sftp.go`).

  One ticket, any client: requests come in any order and any number, with any
  offsets and bodies; the peer refuses any call; between two requests other
  users of the peer create, change, rename, link and remove files, all but
  the temporary one.  A request runs call by call, so that a Hub which dies
  or loses the connection is one whose remaining calls are refused.

      declared    the chunks that were accepted, each laid at its offset and
                  cut to the size it declared
      landed      the upload was published and nobody has changed the
                  destination since
      original    the destination when StartUpload returned

    • `Orderly`: no chunk brings more bytes than it declares, and the
      temporary name goes away after the link that published it,
    • `UploadInv`, `uploadStep_inv`: what every orderly step keeps,
    • `resumable_upload`: the result.

  Both halves of `Orderly` are needed.  The copy of a chunk takes one byte
  more than declared, to notice a longer body, but what it has written stays
  (the first run of
  `overlong_chunk_and_link_left_behind`).  The removal after the link is not checked, and
  the next CompleteUpload takes the published file for somebody else's
  (the second run).
-/
import Talus.Base.Run
import Talus.Sftp.Resume

namespace Talus.Sftp

open Talus.Base List Option
open Script

variable {δ : Type}

/-! ## §1. The system. -/

inductive UploadRequest (δ : Type)
  | start (destination : Option FilePath) (size : Int) (digest : Option δ) (overwrite : Bool)
      (suffix : String) (sealed : Option Nat)
  | status
  | chunk (offset size : Int) (body : Body)
  | complete
  | cancel

inductive UploadReply (δ : Type)
  | ticket (t : Ticket δ)
  | upload (u : Upload δ)
  | done

/-- A request in progress: what is left of it, and the destination when it
began. -/
structure Running (δ : Type) where
  request : UploadRequest δ
  rest : Program (UploadReply δ)
  before : Option Node

structure UploadState (δ : Type) where
  fs : Fs
  ticket : Option (Ticket δ)
  running : Option (Running δ)
  /-- ghost -/
  declared : List UInt8
  /-- ghost -/
  landed : Bool
  /-- ghost -/
  original : Option Node

/-- What other users of the peer do. -/
inductive Foreign
  /-- a new file under the name `p` -/
  | put (p : FilePath) (n : Node)
  /-- the file `p` is changed in place -/
  | edit (p : FilePath) (n : Node)
  | unlink (p : FilePath)
  | move (p q : FilePath)
  | link (p q : FilePath)
  | clock (now : Int)
  deriving DecidableEq, Repr

namespace Foreign

def apply (fs : Fs) : Foreign → Fs
  | .put p n => fs.alloc p n
  | .edit p n =>
    match fs.names p with
    | some i => fs.edit i n
    | none => fs
  | .unlink p => fs.unlink p
  | .move p q => fs.move p q
  | .link p q => fs.share p q
  | .clock now => { fs with clock := now }

/-- The names it uses. -/
def names : Foreign → List FilePath
  | .put p _ => [p]
  | .edit p _ => [p]
  | .unlink p => [p]
  | .move p q => [p, q]
  | .link p q => [p, q]
  | .clock _ => []

end Foreign

inductive UploadEvent (δ : Type)
  | begin (c : Caller) (r : UploadRequest δ)
  /-- the next call of the request, served or refused -/
  | call (refused : Bool)
  | finish
  | foreign (f : Foreign)

variable [DecidableEq δ] (wr : FileWriter) (hash : List UInt8 → δ)

/-- The program of a request.  There is nothing to ask about before a ticket
exists, and a run is about one ticket.  A random suffix is not the name the
client asks for. -/
def program (c : Caller) : UploadRequest δ → Option (Ticket δ) → Option (Program (UploadReply δ))
  | .start destination size digest overwrite suffix sealed, none =>
    if destination.map FilePath.base = some (temporaryName suffix) then none
    else some do
      let t ← startUpload hash c destination size digest overwrite suffix sealed
      pure (.ticket t)
  | .status, some t => some do
      let u ← uploadStatus hash c t
      pure (.upload u)
  | .chunk offset size body, some t => some do
      let u ← uploadChunk wr c t offset size body
      pure (.upload u)
  | .complete, some t => some do
      completeUpload hash c t
      pure .done
  | .cancel, some t => some do
      cancelUpload c t
      pure .done
  | _, _ => none

/-- The end of the temporary file. -/
def tempEnd (t : Ticket δ) (fs : Fs) : Option Int :=
  (fs.node? t.temporary).map fun n => (n.content.length : Int)

/-- The chunks as declared, after the request `r`: a chunk that passes the
checks and begins where the temporary file ends is laid there. -/
def declare (c : Caller) (t : Ticket δ) (fs : Fs) (declared : List UInt8) :
    UploadRequest δ → List UInt8
  | .chunk offset size body =>
    if (chunkChecks c t offset size).isOk ∧ tempEnd t fs = some offset then
      declared.take offset.toNat ++ body.bytes.take size.toNat
    else declared
  | _ => declared

def UploadState.destination? (w : UploadState δ) : Option Node :=
  w.ticket.bind fun t => w.fs.node? t.destination

def uploadStep (w : UploadState δ) : UploadEvent δ → Option (UploadState δ)
  | .begin c r =>
    match w.running with
    | some _ => none
    | none =>
      (program wr hash c r w.ticket).map fun x => { w with
        running := some ⟨r, x, w.destination?⟩
        declared := match w.ticket with
          | some t => declare c t w.fs w.declared r
          | none => w.declared }
  | .call refused =>
    match w.running with
    | some ⟨r, .call c k, before⟩ =>
      some { w with
        fs := (remote.answer w.fs c refused).2
        running := some ⟨r, k (remote.answer w.fs c refused).1, before⟩ }
    | _ => none
  | .finish =>
    match w.running with
    | some ⟨_, .ret a, before⟩ =>
      match w.ticket, a with
      | none, .ticket t =>
        some { w with
          ticket := some t
          running := none
          original := w.fs.node? t.destination }
      | _, _ =>
        some { w with
          running := none
          landed := w.landed || decide (w.destination? ≠ before) }
    | some ⟨_, .fail _, before⟩ =>
      some { w with
        running := none
        landed := w.landed || decide (w.destination? ≠ before) }
    | _ => none
  | .foreign f =>
    match w.running with
    | some _ => none
    | none =>
      match w.ticket with
      | none => some { w with fs := f.apply w.fs }
      | some t =>
        if t.temporary ∈ f.names then none
        else some { w with
          fs := f.apply w.fs
          landed := w.landed &&
            decide ((f.apply w.fs).node? t.destination = w.fs.node? t.destination) }

def uploadSystem : System (UploadState δ) (UploadEvent δ) where
  init w := w.ticket = none ∧ w.running = none ∧ w.declared = [] ∧ w.landed = false ∧
    w.original = none
  step := uploadStep wr hash

/-- The calls of a request that may be refused in an orderly run: all but the
removal of the temporary name after the link. -/
def mayRefuse : UploadRequest δ → Call → Prop
  | .complete, .remove _ => False
  | _, _ => True

/-- **The condition**: a chunk brings no more bytes than it declares, and
CompleteUpload's removal of the temporary name is not refused. -/
def Orderly (w : UploadState δ) : UploadEvent δ → Prop
  | .begin _ (.chunk _ size body) => (body.bytes.length : Int) ≤ size
  | .call true => ∀ r c, w.running = some r → r.rest.next? = some c → mayRefuse r.request c
  | _ => True

/-! ## §2. Other users leave the temporary file alone. -/

section Foreigners

variable {t : Ticket δ} {fs : Fs} {f : Foreign}

omit [DecidableEq δ] in
/-- A file stays private if every other name stands for something that had
another name before, or is new. -/
theorem Private.of_sources {fs' : Fs} (h : Private t fs)
    (htemp : fs'.names t.temporary = fs.names t.temporary)
    (hother : ∀ r i, r ≠ t.temporary → fs'.names r = some i →
      (∃ r', r' ≠ t.temporary ∧ fs.names r' = some i) ∨ fs.next ≤ i) : Private t fs' := by
  intro i r hi hr
  rw [htemp] at hi
  by_contra hne
  rcases hother r i hne hr with ⟨r', hr', hold⟩ | hnew
  · exact hr' (h i r' hi hold)
  · exact absurd (fs.fresh _ i hi) (Nat.not_lt.mpr hnew)

omit [DecidableEq δ] in
/-- What is done to other names neither changes the temporary file nor gives
it another name. -/
theorem Foreign.spares (hf : t.temporary ∉ f.names) (h : Private t fs) :
    (f.apply fs).names t.temporary = fs.names t.temporary ∧
    (∀ i, fs.names t.temporary = some i → (f.apply fs).nodes i = fs.nodes i) ∧
    Private t (f.apply fs) := by
  have hname : (f.apply fs).names t.temporary = fs.names t.temporary := by
    cases f with
    | put p n => exact Fs.alloc_names_ne fun hp => hf (by simp [Foreign.names, hp])
    | edit p n =>
      simp only [Foreign.apply]
      split <;> rfl
    | unlink p => exact Fs.unlink_names_ne fun hp => hf (by simp [Foreign.names, hp])
    | move p q =>
      exact Fs.move_names_ne (fun hp => hf (by simp [Foreign.names, hp]))
        fun hq => hf (by simp [Foreign.names, hq])
    | link p q => exact Fs.share_names_ne fun hq => hf (by simp [Foreign.names, hq])
    | clock now => rfl
  refine ⟨hname, ?_, h.of_sources hname ?_⟩
  · intro i hi
    cases f with
    | put p n => exact Fs.alloc_nodes_ne (Nat.ne_of_lt (fs.fresh _ i hi))
    | edit p n =>
      simp only [Foreign.apply]
      split
      next j hj =>
        refine Fs.edit_nodes_ne fun hij => hf ?_
        simp [Foreign.names, h i p hi (hij ▸ hj)]
      next => rfl
    | _ => rfl
  · intro r i hr hri
    cases f with
    | put p n =>
      by_cases hrp : r = p
      · subst hrp
        have hnext : fs.next = i := mem_unique Fs.alloc_names_self hri
        exact Or.inr (Nat.le_of_eq hnext)
      · exact Or.inl ⟨r, hr, (Fs.alloc_names_ne hrp).symm.trans hri⟩
    | edit p n =>
      simp only [Foreign.apply] at hri
      split at hri <;> exact Or.inl ⟨r, hr, hri⟩
    | unlink p =>
      have hrp : r ≠ p := by
        rintro rfl
        exact absurd (Fs.unlink_names_self.symm.trans hri) (by simp)
      exact Or.inl ⟨r, hr, (Fs.unlink_names_ne hrp).symm.trans hri⟩
    | move p q =>
      have hrp : r ≠ p := by
        rintro rfl
        exact absurd (Fs.unlink_names_self.symm.trans hri) (by simp)
      replace hri := (Fs.unlink_names_ne hrp).symm.trans hri
      by_cases hrq : r = q
      · subst hrq
        exact Or.inl ⟨p, fun hp => hf (by simp [Foreign.names, hp]),
          Fs.share_names_self.symm.trans hri⟩
      · exact Or.inl ⟨r, hr, (Fs.share_names_ne hrq).symm.trans hri⟩
    | link p q =>
      by_cases hrq : r = q
      · subst hrq
        exact Or.inl ⟨p, fun hp => hf (by simp [Foreign.names, hp]),
          Fs.share_names_self.symm.trans hri⟩
      · exact Or.inl ⟨r, hr, (Fs.share_names_ne hrq).symm.trans hri⟩
    | clock now => exact Or.inl ⟨r, hr, hri⟩

omit [DecidableEq δ] in
/-- Between two requests, other users keep what a ticket stands on; whether
the upload is still over depends on the destination. -/
theorem Settled.foreign {declared : List UInt8} {landed : Bool}
    (h : Settled hash t declared landed fs) (hf : t.temporary ∉ f.names) :
    Settled hash t declared
      (landed && decide ((f.apply fs).node? t.destination = fs.node? t.destination))
      (f.apply fs) := by
  obtain ⟨hname, hnode, hprivate⟩ := Foreign.spares hf h.alone
  refine ⟨fun i hi => ?_, hprivate, fun hlanded => ?_⟩
  · rw [hname] at hi
    rw [hnode i hi]
    exact h.temp i hi
  · simp only [Bool.and_eq_true, decide_eq_true_eq] at hlanded
    obtain ⟨habsent, hdone⟩ := h.done hlanded.1
    rw [Finished, hname, hlanded.2]
    exact ⟨habsent, hdone⟩

end Foreigners

/-! ## §3. The invariant. -/

/-- What stays true of a ticket. -/
structure TicketOk (t : Ticket δ) (declared : List UInt8) (original : Option Node) : Prop where
  apart : t.destination ≠ t.temporary
  bounded : t.size ≤ maxSftpFileBytes
  fits : declared.length ≤ t.size
  original : original.map (Node.version hash) = t.previous

/-- **The invariant**: before there is a ticket, only a StartUpload runs;
after that, between two requests the files are settled, and while one runs
the rest of its program is safe. -/
inductive UploadInv : UploadState δ → Prop
  | fresh (fs : Fs) : UploadInv ⟨fs, none, none, [], false, none⟩
  | starting (fs : Fs) (r : UploadRequest δ) (x : Program (UploadReply δ)) (suffix : String)
      (safe : Safe remote (startContract suffix)
        (fun a fs' => ∀ t, a = .ok (.ticket t) → Begun hash t fs') x fs) :
      UploadInv ⟨fs, none, some ⟨r, x, none⟩, [], false, none⟩
  | idle (fs : Fs) (t : Ticket δ) (declared : List UInt8) (landed : Bool) (original : Option Node)
      (ok : TicketOk hash t declared original) (settled : Settled hash t declared landed fs) :
      UploadInv ⟨fs, some t, none, declared, landed, original⟩
  | busy (fs : Fs) (t : Ticket δ) (r : UploadRequest δ) (x : Program (UploadReply δ))
      (before : Option Node) (declared : List UInt8) (landed : Bool) (original : Option Node)
      (ok : TicketOk hash t declared original)
      (safe : Safe remote (uploadContract hash t declared (mayRefuse r))
        (fun _ fs' => uploadPost hash t before landed fs') x fs) :
      UploadInv ⟨fs, some t, some ⟨r, x, before⟩, declared, landed, original⟩

section Steps

variable {wr} {hash} {c : Caller} {t : Ticket δ} {fs : Fs} {declared : List UInt8}

omit [DecidableEq δ] in
theorem chunkChecks_ok {offset size : Int} (h : chunkChecks c t offset size = .ok ()) :
    0 ≤ offset ∧ 0 < size ∧ offset + size ≤ t.size := by
  simp only [chunkChecks, bind, Except.bind] at h
  split at h
  · cases h
  split at h
  · cases h
  next hrange =>
    omega

omit [DecidableEq δ] in
/-- A chunk that is laid at the end of the temporary file follows what is
there. -/
theorem declare_chunk {offset size : Int} {body : Body} (hok : TempOk t declared fs)
    (hbody : (body.bytes.length : Int) ≤ size) (hfits : declared.length ≤ t.size) :
    let declared' := declare c t fs declared (.chunk offset size body)
    TempOk t declared' fs ∧ declared'.length ≤ t.size ∧
      (chunkChecks c t offset size = .ok () → RoomFor t declared' offset body.bytes fs) := by
  intro declared'
  have htake : body.bytes.take size.toNat = body.bytes := take_of_length_le (by omega)
  by_cases hacc : (chunkChecks c t offset size).isOk ∧ tempEnd t fs = some offset
  · have hd : declared' = declared.take offset.toNat ++ body.bytes := by
      show (if _ then _ else _) = _
      rw [if_pos hacc, htake]
    have hchecks : chunkChecks c t offset size = .ok () := by
      cases hc : chunkChecks c t offset size with
      | ok u => rfl
      | error e =>
        rw [hc] at hacc
        cases hacc.1
    obtain ⟨hpos, -, hrange⟩ := chunkChecks_ok hchecks
    -- what is declared up to the offset is the temporary file itself
    have hall : ∀ i, fs.names t.temporary = some i →
        declared' = (fs.nodes i).content ++ body.bytes := by
      intro i hi
      have hend := hacc.2
      rw [tempEnd, Fs.node?_eq_some hi, map_some, some.injEq] at hend
      obtain ⟨suffix, hs⟩ := (hok i hi).2
      rw [hd, ← hs, take_left' (by omega)]
    refine ⟨fun i hi => ⟨(hok i hi).1, ?_⟩, ?_, fun _ i hi _ => ?_⟩
    · rw [hall i hi]
      exact prefix_append _ _
    · rw [hd, length_append, length_take]
      omega
    · exact (hall i hi) ▸ prefix_refl _
  · have hd : declared' = declared := if_neg hacc
    rw [hd]
    refine ⟨hok, hfits, fun hchecks i hi hoff => absurd ⟨?_, ?_⟩ hacc⟩
    · rw [hchecks]
      rfl
    · rw [tempEnd, Fs.node?_eq_some hi, map_some, hoff]

omit [DecidableEq δ] in
/-- Replying changes nothing about how a program ends. -/
theorem reply_safe {α : Type} {K : Contract Fs Call} {post : Fs → Prop} {x : Program α}
    (g : α → UploadReply δ) (h : Safe remote K (fun _ fs' => post fs') x fs) :
    Safe remote K (fun (_ : Except Err (UploadReply δ)) fs' => post fs')
      (x >>= fun a => pure (g a)) fs :=
  safe_map (g := g) (fun _ _ h => h) (fun _ _ h => h) h

/-- **A request begins** from settled files with a safe program. -/
theorem begin_inv {landed : Bool} {original : Option Node} {r : UploadRequest δ}
    {x : Program (UploadReply δ)} (ok : TicketOk hash t declared original)
    (settled : Settled hash t declared landed fs)
    (hx : program wr hash c r (some t) = some x)
    (horderly : Orderly ⟨fs, some t, none, declared, landed, original⟩ (.begin c r)) :
    UploadInv hash ⟨fs, some t, some ⟨r, x, fs.node? t.destination⟩,
      declare c t fs declared r, landed, original⟩ := by
  cases r with
  | start => cases hx
  | status =>
    cases hx
    exact .busy _ _ _ _ _ _ _ _ ok (reply_safe .upload (status_safe settled))
  | chunk offset size body =>
    cases hx
    obtain ⟨htemp, hfits, hroom⟩ :=
      declare_chunk (c := c) settled.temp horderly ok.fits
    refine .busy _ _ _ _ _ _ _ _ ⟨ok.apart, ok.bounded, hfits, ok.original⟩ ?_
    exact reply_safe .upload
      (chunk_safe ⟨htemp, settled.alone, settled.done⟩ ok.apart horderly hroom)
  | complete =>
    cases hx
    exact .busy _ _ _ _ _ _ _ _ ok (reply_safe (fun _ => .done) (complete_safe settled ok.apart id))
  | cancel =>
    cases hx
    exact .busy _ _ _ _ _ _ _ _ ok (reply_safe (fun _ => .done) (cancel_safe settled ok.apart))

/-- A StartUpload begins. -/
theorem begin_start_inv {r : UploadRequest δ} {x : Program (UploadReply δ)}
    (hx : program wr hash c r none = some x) :
    UploadInv hash ⟨fs, none, some ⟨r, x, none⟩, [], false, none⟩ := by
  cases r with
  | start destination size digest overwrite suffix sealed =>
    simp only [program] at hx
    split at hx
    · cases hx
    next hsuffix =>
      cases hx
      refine .starting fs _ _ suffix (safe_map (g := UploadReply.ticket) ?_ ?_ (start_safe ?_))
      · intro t fs' h t' ht'
        cases ht'
        exact h t rfl
      · intro e fs' _ t ht
        cases ht
      · rintro d rfl hd
        exact hsuffix (congrArg some hd)
  | status | chunk | complete | cancel => cases hx

omit [DecidableEq δ] in
/-- A request on a ticket ends. -/
theorem finish_inv {before original : Option Node} {landed : Bool}
    (ok : TicketOk hash t declared original) (htemp : TempOk t declared fs)
    (hpost : uploadPost hash t before landed fs) :
    UploadInv hash ⟨fs, some t, none, declared,
      landed || decide (fs.node? t.destination ≠ before), original⟩ := by
  refine .idle _ _ _ _ _ ok ⟨htemp, hpost.1, fun hlanded => hpost.2 ?_⟩
  simp only [Bool.or_eq_true, decide_eq_true_eq] at hlanded
  exact hlanded.symm

omit [DecidableEq δ] in
/-- StartUpload returns a ticket. -/
theorem finish_start_inv (h : Begun hash t fs) :
    UploadInv hash ⟨fs, some t, none, [], false, fs.node? t.destination⟩ := by
  obtain ⟨i, hi, hkind, hempty⟩ := h.empty
  refine .idle _ _ _ _ _ ⟨h.apart, h.bounded, Nat.zero_le _, h.previous⟩
    ⟨fun j hj => ?_, h.alone, nofun⟩
  obtain rfl : i = j := mem_unique hi hj
  rw [hempty]
  exact ⟨hkind, prefix_refl _⟩

/-- **One orderly step keeps the invariant.** -/
theorem uploadStep_inv (w : UploadState δ) (e : UploadEvent δ) (w' : UploadState δ)
    (ho : Orderly w e) (hw : UploadInv hash w) (hs : uploadStep wr hash w e = some w') :
    UploadInv hash w' := by
  cases e with
  | begin c r =>
    cases hw with
    | fresh fs =>
      simp only [uploadStep, map_eq_some_iff] at hs
      obtain ⟨x, hx, rfl⟩ := hs
      exact begin_start_inv hx
    | idle fs t declared landed original ok settled =>
      simp only [uploadStep, map_eq_some_iff] at hs
      obtain ⟨x, hx, rfl⟩ := hs
      exact begin_inv ok settled hx ho
    | starting => cases hs
    | busy => cases hs
  | call refused =>
    cases hw with
    | fresh fs => cases hs
    | idle => cases hs
    | starting fs r x suffix safe =>
      cases x with
      | ret a => cases hs
      | fail e => cases hs
      | call c k =>
        cases hs
        exact .starting _ _ _ suffix (safe.answer _ fun _ => trivial).2
    | busy fs t r x before declared landed original ok safe =>
      cases x with
      | ret a => cases hs
      | fail e => cases hs
      | call c k =>
        cases hs
        refine .busy _ _ _ _ _ _ _ _ ok (safe.answer _ ?_).2
        rintro rfl
        exact ho _ c rfl rfl
  | finish =>
    cases hw with
    | fresh fs => cases hs
    | idle => cases hs
    | starting fs r x suffix safe =>
      cases x with
      | call c k => cases hs
      | fail e =>
        cases hs
        exact .fresh fs
      | ret a =>
        cases a with
        | ticket t =>
          cases hs
          exact finish_start_inv (safe.2 t rfl)
        | upload u | done =>
          cases hs
          exact .fresh fs
    | busy fs t r x before declared landed original ok safe =>
      cases x with
      | call c k => cases hs
      | fail e | ret a =>
        cases hs
        exact finish_inv ok safe.1 safe.2
  | foreign f =>
    cases hw with
    | fresh fs =>
      cases hs
      exact .fresh _
    | starting => cases hs
    | busy => cases hs
    | idle fs t declared landed original ok settled =>
      simp only [uploadStep] at hs
      split at hs
      · cases hs
      next hf =>
        cases hs
        exact .idle _ _ _ _ _ ok (settled.foreign hash hf)

end Steps

/-! ## §4. What a client sees when nothing fails. -/

section Answers

variable {wr} {hash} {c : Caller} {t : Ticket δ} {fs : Fs}

omit [DecidableEq δ] in
/-- A chunk within the upload passes the checks if its ticket does. -/
theorem chunkChecks_of_range {offset size : Int} (h : ticketChecks c t false = .ok ())
    (hoffset : 0 ≤ offset) (hsize : 0 < size) (hmax : size ≤ maxSftpChunkBytes)
    (hrange : offset + size ≤ t.size) : chunkChecks c t offset size = .ok () := by
  simp only [ticketChecks, chunkChecks, bind, Except.bind] at h ⊢
  split at h
  · cases h
  · rw [if_neg (by omega)]
    exact h

theorem status_present {n : Node} (hc : ticketChecks c t false = .ok ())
    (hn : fs.node? t.temporary = some n) (hkind : n.kind = .regular)
    (hsize : n.content.length ≤ t.size) :
    calm remote (uploadStatus hash c t) fs = (.ok (t.status n.content.length), fs) := by
  have hok : ¬(n.info.kind ≠ .regular ∨ n.info.size > t.size) := by
    rintro (hbad | hbad)
    · exact hbad hkind
    · exact Nat.not_lt.mpr hsize hbad
  rw [uploadStatus, calm_fromExcept hc, calm_lstatFound, hn]
  exact congrArg (calm remote · fs) (if_neg hok)

/-- The published file is recognised. -/
theorem committed_finished (hb : t.size ≤ maxSftpFileBytes) (hf : Finished hash t fs) :
    calm remote (committed hash t) fs = (.ok true, fs) := by
  obtain ⟨-, n, hn, hkind, hsize, hdigest⟩ := hf
  have hok : ¬(n.info.kind ≠ .regular ∨ n.info.size ≠ t.size) := by
    rintro (hbad | hbad)
    · exact hbad hkind
    · exact hbad hsize
  have hhash := calm_hashRemoteFile hash hn hkind (hsize ▸ hb)
  apply calm_handle_ok
  rw [completedUploadMatches, calm_lstat hn, if_neg hok, calm_bind_ok hhash]
  simp [hdigest]

theorem status_finished (hc : ticketChecks c t false = .ok ()) (hb : t.size ≤ maxSftpFileBytes)
    (hf : Finished hash t fs) :
    calm remote (uploadStatus hash c t) fs =
      (.ok { t.status t.size with completed := true }, fs) := by
  rw [uploadStatus, calm_fromExcept hc, calm_lstatFound, Fs.node?_eq_none hf.1]
  exact calm_bind_ok (committed_finished hb hf)

theorem complete_finished (hc : ticketChecks c t false = .ok ()) (hb : t.size ≤ maxSftpFileBytes)
    (hf : Finished hash t fs) : calm remote (completeUpload hash c t) fs = (.ok (), fs) := by
  rw [completeUpload, calm_fromExcept hc, calm_lstatFound, Fs.node?_eq_none hf.1]
  exact calm_bind_ok (committed_finished hb hf)

/-- An offset is reported only while the temporary file is there, and it is
its end. -/
theorem status_offset {u : Upload δ} (hu : (calm remote (uploadStatus hash c t) fs).1 = .ok u)
    (hopen : u.completed = false) :
    ∃ n, fs.node? t.temporary = some n ∧ n.kind = .regular ∧ u.offset = n.content.length := by
  let K : Contract Fs Call := ⟨fun _ => True, fun _ => True, fun _ _ => True⟩
  let Q : Except Err (Upload δ) → Fs → Prop := fun r _ => ∀ u, r = .ok u → u.completed = false →
    ∃ n, fs.node? t.temporary = some n ∧ n.kind = .regular ∧ u.offset = n.content.length
  have hs : Steady K Q fs := ⟨trivial, trivial, nofun⟩
  have hsafe : Safe remote K Q (uploadStatus hash c t) fs := by
    refine safe_fromExcept hs fun _ _ => safe_lstatFound hs (fun _ => ?_) fun n hn => ?_
    · refine safe_committed hs fun b => ?_
      split
      · refine safe_pure trivial fun u hu hcompleted => ?_
        cases hu
        cases hcompleted
      · exact safe_throw hs _
    · show Safe _ _ _ (ite _ _ _) _
      split
      · exact safe_throw hs _
      next hok =>
        simp only [not_or, not_not] at hok
        refine safe_pure trivial fun u hu _ => ?_
        cases hu
        exact ⟨n, hn, hok.1, rfl⟩
  exact hsafe.calm u hu hopen

omit [DecidableEq δ] in
/-- A chunk of exactly the declared size, sent where the file ends, is
accepted. -/
theorem chunk_accepted {n : Node} {size : Nat} {body : Body}
    (hc : ticketChecks c t false = .ok ()) (hn : fs.node? t.temporary = some n)
    (hkind : n.kind = .regular) (hsize : 0 < size) (hmax : (size : Int) ≤ maxSftpChunkBytes)
    (hrange : n.content.length + size ≤ t.size) (hwhole : body.broken = false)
    (hbody : body.bytes.length = size) :
    (calm remote (uploadChunk wr c t n.content.length size body) fs).1 =
      .ok (t.status (n.content.length + size)) := by
  obtain ⟨i, hi, rfl⟩ := Fs.names_of_node? hn
  have hchecks : chunkChecks c t (fs.nodes i).content.length size = .ok () :=
    chunkChecks_of_range hc (by omega) (by omega) hmax (by omega)
  have hok : ¬((fs.nodes i).info.kind ≠ .regular ∨
      ((fs.nodes i).info.size : Int) ≠ (fs.nodes i).content.length) := by
    rintro (hbad | hbad)
    · exact hbad hkind
    · exact hbad rfl
  have hopen : serve fs (.openWrite t.temporary) = (.ok i, fs) := by simp only [serve, hi]
  obtain ⟨fs', hcopy⟩ := calm_copyBuffer wr fs i (fs.nodes i).content.length (size + 1)
    hwhole (by omega)
  rw [uploadChunk, calm_fromExcept hchecks, calm_lstat hn, if_neg hok, calm_request hopen]
  simp only [Int.toNat_natCast]
  rw [calm_bind_ok hcopy, hbody, if_neg (by simp)]
  rfl

end Answers

/-! ## §5. The result. -/

/-- **A resumable upload.**  In every run whose steps are orderly:

* the temporary file is a prefix of the chunks as declared, and so never
  longer than the upload;
* between two requests, Status reports its end, and a chunk of the declared
  size sent there is accepted;
* a call of the Hub changes the destination only if it is of the version it
  had when StartUpload returned, and only to the promised size and digest;
  StartUpload changes no file but its temporary one;
* once the upload has landed, and as long as nobody changes the destination,
  CompleteUpload succeeds and Status reports it complete. -/
theorem resumable_upload {w₀ w : UploadState δ} {es : List (UploadEvent δ)}
    (hinit : (uploadSystem wr hash).init w₀) (hrun : (uploadSystem wr hash).run w₀ es = some w)
    (horderly : (uploadSystem wr hash).Along Orderly w₀ es) :
    (∀ t, w.ticket = some t →
      (∀ n, w.fs.node? t.temporary = some n →
        n.content <+: w.declared ∧ n.content.length ≤ t.size) ∧
      (w.running = none → ∀ c, ticketChecks c t false = .ok () →
        (∀ n, w.fs.node? t.temporary = some n →
          (calm remote (uploadStatus hash c t) w.fs).1 = .ok (t.status n.content.length)) ∧
        (∀ u, (calm remote (uploadStatus hash c t) w.fs).1 = .ok u → u.completed = false →
          ∀ (size : Nat) (body : Body), 0 < size → (size : Int) ≤ maxSftpChunkBytes →
            u.offset + size ≤ t.size →
            body.broken = false → body.bytes.length = size →
            (calm remote (uploadChunk wr c t u.offset size body) w.fs).1 =
              .ok (t.status (u.offset + size))) ∧
        (w.landed = true →
          (calm remote (completeUpload hash c t) w.fs).1 = .ok () ∧
          (calm remote (uploadStatus hash c t) w.fs).1 =
            .ok { t.status t.size with completed := true })) ∧
      (∀ refused w', Orderly w (.call refused) → uploadStep wr hash w (.call refused) = some w' →
        w'.fs.node? t.destination ≠ w.fs.node? t.destination →
        (w.fs.node? t.destination).map (Node.version hash) =
            w.original.map (Node.version hash) ∧
          ∃ n, w'.fs.node? t.destination = some n ∧ n.content.length = t.size ∧
            hash n.content = t.sha256)) ∧
    (w.ticket = none → ∀ refused w', uploadStep wr hash w (.call refused) = some w' →
      ∃ suffix, ∀ p, p.base ≠ temporaryName suffix → w'.fs.node? p = w.fs.node? p) := by
  have hinv : UploadInv hash w := by
    refine System.along_invariant (I := UploadInv hash)
      (fun s e s' ho hI hs => uploadStep_inv s e s' ho hI hs) es w₀ w horderly ?_ hrun
    obtain ⟨h₁, h₂, h₃, h₄, h₅⟩ := hinit
    obtain ⟨fs, ticket, running, declared, landed, original⟩ := w₀
    cases h₁
    cases h₂
    cases h₃
    cases h₄
    cases h₅
    exact .fresh fs
  cases hinv with
  | fresh fs =>
    exact ⟨fun t ht => (by cases ht), fun _ refused w' hs => (by cases hs)⟩
  | starting fs r x suffix safe =>
    refine ⟨nofun, fun _ refused w' hs => ⟨suffix, ?_⟩⟩
    cases x with
    | ret a => cases hs
    | fail e => cases hs
    | call c k =>
      cases hs
      rcases (safe.answer refused fun _ => trivial).1 with hsame | hguar
      · exact fun p _ => congrArg (Fs.node? · p) hsame
      · exact hguar
  | idle fs t declared landed original ok settled =>
    refine ⟨fun t' ht' => ?_, nofun⟩
    cases ht'
    have htemp : ∀ n, fs.node? t.temporary = some n →
        n.kind = .regular ∧ n.content <+: declared ∧ n.content.length ≤ t.size := by
      intro n hn
      obtain ⟨i, hi, rfl⟩ := Fs.names_of_node? hn
      obtain ⟨hkind, hsofar⟩ := settled.temp i hi
      exact ⟨hkind, hsofar, Nat.le_trans hsofar.length_le ok.fits⟩
    refine ⟨fun n hn => (htemp n hn).2, fun _ c hc => ⟨fun n hn => ?_, ?_, fun hl => ?_⟩,
      fun refused w' _ hs => by cases hs⟩
    · obtain ⟨hkind, -, hlen⟩ := htemp n hn
      rw [status_present hc hn hkind hlen]
    · intro u hu hopen size body hsize hmax hrange hwhole hbody
      obtain ⟨n, hn, hkind, hoff⟩ := status_offset hu hopen
      rw [hoff] at hrange ⊢
      exact chunk_accepted hc hn hkind hsize hmax hrange hwhole hbody
    · have hf := settled.done hl
      rw [complete_finished hc ok.bounded hf, status_finished hc ok.bounded hf]
      exact ⟨rfl, rfl⟩
  | busy fs t r x before declared landed original ok safe =>
    refine ⟨fun t' ht' => ?_, nofun⟩
    cases ht'
    refine ⟨fun n hn => ?_, fun h => by (cases h), fun refused w' ho hs hchanged => ?_⟩
    · obtain ⟨i, hi, rfl⟩ := Fs.names_of_node? hn
      have hsofar := (safe.inv i hi).2
      exact ⟨hsofar, Nat.le_trans hsofar.length_le ok.fits⟩
    · cases x with
      | ret a => cases hs
      | fail e => cases hs
      | call c k =>
        cases hs
        have hmay : refused = true → mayRefuse r c := by
          rintro rfl
          exact ho _ c rfl rfl
        rcases (safe.answer refused hmay).1 with hsame | hsame | hpub
        · exact absurd (congrArg (Fs.node? · t.destination) hsame) hchanged
        · exact absurd hsame hchanged
        · obtain ⟨hversion, n, hn, hdel⟩ := hpub
          exact ⟨hversion.trans ok.original.symm, n, hn, hdel.2⟩

/-! ### A run of one byte. -/

/-- A peer with no files. -/
def emptyFs : Fs where
  names _ := none
  nodes _ := ⟨.other, 0, [], 0⟩
  next := 0
  clock := 7
  real := some
  fresh := by
    intro p i h
    cases h

def newUpload : UploadState (List UInt8) := ⟨emptyFs, none, none, [], false, none⟩

def oneCaller : Caller := ⟨some "user:1", 1, "route", 1000, ⟨true, true⟩⟩

/-- StartUpload for a file of the one byte `1`. -/
def startOne : List (UploadEvent (List UInt8)) :=
  .begin oneCaller (.start (some ⟨"/d", "f"⟩) 1 (some [1]) false "s" (some 400)) ::
    List.replicate 5 (.call false) ++ [.finish]

/-- A chunk declared as one byte. -/
def chunkOne (bytes : List UInt8) : List (UploadEvent (List UInt8)) :=
  .begin oneCaller (.chunk 0 1 ⟨[bytes], false⟩) :: List.replicate 3 (.call false)

/-- CompleteUpload up to the removal of the temporary name. -/
def completeOne (refused : Bool) : List (UploadEvent (List UInt8)) :=
  .begin oneCaller .complete :: List.replicate 6 (.call false) ++ [.call refused, .finish]

def uploadOne : List (UploadEvent (List UInt8)) :=
  startOne ++ chunkOne [1] ++ [.call false, .call false, .finish] ++ completeOne false

/-- An event that is orderly whatever the state: a chunk that keeps to its
size, a call that is served. -/
def plain : UploadEvent δ → Bool
  | .begin _ (.chunk _ size body) => decide ((body.bytes.length : Int) ≤ size)
  | .call refused => !refused
  | _ => true

omit [DecidableEq δ] in
theorem orderly_of_plain {e : UploadEvent δ} (h : plain e = true) (w : UploadState δ) :
    Orderly w e := by
  cases e with
  | begin c r =>
    cases r with
    | chunk offset size body =>
      have hsize : (body.bytes.length : Int) ≤ size := of_decide_eq_true h
      exact hsize
    | _ => trivial
  | call refused =>
    cases refused with
    | true => cases h
    | false => trivial
  | finish => trivial
  | foreign f => trivial

/-- The byte is uploaded, published and reported. -/
theorem resumable_upload_one_byte : ∃ w t,
    (uploadSystem singlePacket id).run newUpload uploadOne = some w ∧ w.ticket = some t ∧
    w.fs.node? t.destination = some ⟨.regular, 0o600, [1], 7⟩ ∧
    (calm remote (completeUpload id oneCaller t) w.fs).1 = .ok () := by
  obtain ⟨w, t, hrun, ht, hidle, hlanded, hchecks, hdest⟩ : ∃ w t,
      (uploadSystem singlePacket id).run newUpload uploadOne = some w ∧ w.ticket = some t ∧
      w.running = none ∧ w.landed = true ∧ ticketChecks oneCaller t false = .ok () ∧
      w.fs.node? t.destination = some ⟨.regular, 0o600, [1], 7⟩ := by
    refine ⟨_, _, rfl, rfl, rfl, ?_, rfl, ?_⟩ <;> decide +kernel
  have horderly : (uploadSystem singlePacket id).Along Orderly newUpload uploadOne := by
    have hplain : uploadOne.all plain = true := by decide +kernel
    exact System.along_mono (P := fun _ e => plain e = true) (fun w _ h => orderly_of_plain h w) _ _
      (System.along_of_forall _ _ (all_eq_true.mp hplain))
  have h := (resumable_upload singlePacket id ⟨rfl, rfl, rfl, rfl, rfl⟩ hrun horderly).1 t ht
  exact ⟨w, t, hrun, ht, hdest, ((h.2.1 hidle oneCaller hchecks).2.2 hlanded).1⟩

/-- **Where the condition is not met.**  A chunk declared as one byte brings
two: the second stays in the temporary file, which is longer than the upload
from then on, and neither Status nor CompleteUpload accept it.  And when the
removal after the link is refused, the upload has landed, but the next
CompleteUpload finds the destination taken and Status reports it open. -/
theorem overlong_chunk_and_link_left_behind :
    (∃ w t n, (uploadSystem singlePacket id).run newUpload
        (startOne ++ chunkOne [1, 2] ++ [.finish]) = some w ∧
      w.ticket = some t ∧ w.fs.node? t.temporary = some n ∧ t.size = 1 ∧ w.declared = [1] ∧
      n.content = [1, 2] ∧
      (calm remote (uploadStatus id oneCaller t) w.fs).1 = .error (.app .conflict) ∧
      (calm remote (completeUpload id oneCaller t) w.fs).1 = .error (.app .sizeMismatch)) ∧
    (∃ w t, (uploadSystem singlePacket id).run newUpload
        (startOne ++ chunkOne [1] ++ [.call false, .call false, .finish] ++ completeOne true) =
          some w ∧
      w.ticket = some t ∧ w.landed = true ∧
      w.fs.node? t.destination = some ⟨.regular, 0o600, [1], 7⟩ ∧
      (calm remote (completeUpload id oneCaller t) w.fs).1 = .error (.app .alreadyExists) ∧
      (calm remote (uploadStatus id oneCaller t) w.fs).1 = .ok (t.status 1)) := by
  constructor
  · refine ⟨_, _, _, rfl, rfl, rfl, ?_, ?_, ?_, rfl, rfl⟩ <;> decide +kernel
  · refine ⟨_, _, rfl, rfl, ?_, ?_, rfl, rfl⟩ <;> decide +kernel

end Talus.Sftp
