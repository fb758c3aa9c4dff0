/-
  Talus.Session.Pages
  **WHAT A LATE 401 REVOKES IS A LOGIN ITS PAGE HAS NOT SEEN.**

  `clearAuthToken(expectedEpoch)` compares the epoch of the page it runs in and
  then empties the `localStorage` that all pages share.  The epoch tells apart
  the sessions of one page; a login in another page reaches it by a `storage`
  event, which may still be on its way.

  Every clearance names the token it acts for, and the store remembers the one
  that emptied it, so a page that logs out because it found the store empty is
  charged to the rejection or expiry behind it.
-/
import Talus.Base.Run

namespace Talus.Session

open Talus.Base List Option

variable {T : Type} [DecidableEq T]

/-! ## §1. Pages and their store. -/

/-- `auth.ts` in one page. -/
structure Page (T : Type) where
  token : Option T
  authEpoch : Nat
  expiresAt : Option Int

/-- A request on its way: the page, and the token and epoch it was sent with. -/
structure Request (T : Type) where
  page : Nat
  token : Option T
  requestEpoch : Nat

/-- The pages of one browser.  The last three fields are history: the logins so
far, the last one that stored a token, and the token whose rejection or expiry
emptied the store. -/
structure Browser (T : Type) where
  storage : Option T
  pages : Nat → Option (Page T)
  requests : List (Request T)
  logins : Nat
  stored : T → Nat
  revoked : Option T

/-- The session has expired. -/
def Page.expired (page : Page T) (now : Int) : Bool := page.expiresAt.any (· ≤ now)

/-- `decodeToken`: the expiry of a well-formed token that has not expired. -/
def decodeToken (expiry : T → Option Int) (now : Int) (t : T) : Option Int :=
  (expiry t).filter (now < ·)

namespace Browser

variable (b : Browser T) (i : Nat) (page : Page T)

/-- `persistToken(token)`, by a login. -/
def persist (t : T) : Browser T :=
  { b with
    storage := some t
    logins := b.logins + 1
    stored := fun u => if u = t then b.logins + 1 else b.stored u }

/-- `persistToken(null)`, on account of `why`. -/
def erase (why : Option T) : Browser T :=
  { b with storage := none, revoked := if b.storage.isSome then why else b.revoked }

def setPage : Browser T :=
  { b with pages := fun j => if j = i then some page else b.pages j }

/-- A token that does not decode is taken out of the store. -/
def discard (token : Option T) (decoded : Option Int) : Browser T :=
  if token.isSome && decoded.isNone then b.erase token else b

/-- `replaceToken`, with what `decodeToken` makes of the token. -/
def replaceToken (token : Option T) (decoded : Option Int) (forceEpoch : Bool) : Browser T :=
  let nextToken := if decoded.isSome then token else none
  let b := b.discard token decoded
  if nextToken = page.token ∧ forceEpoch = false then b
  else b.setPage i
    { token := nextToken, authEpoch := page.authEpoch + 1, expiresAt := decoded }

/-- `clearAuthToken`, once `expectedEpoch` was compared. -/
def clearAuthToken (valid : Bool) (why : Option T) : Browser T :=
  if valid then (b.erase why).replaceToken i page none none false else b

/-- `initialize`, in a page that has just loaded. -/
def initializePage (expiry : T → Option Int) (now : Int) : Browser T :=
  let decoded := b.storage.bind (decodeToken expiry now)
  let token := if decoded.isSome then b.storage else none
  (b.discard b.storage decoded).setPage i
    { token := token, authEpoch := 0, expiresAt := decoded }

end Browser

/-! ## §2. The interleavings. -/

/-- What the pages do, in any order.  `Date.now()` returns what the label says. -/
inductive Label (T : Type) where
  | load (i : Nat) (now : Int)
  | login (i : Nat) (t : T) (now : Int)
  | logout (i : Nat)
  /-- The clock is looked at: by the expiry timer, which every `replaceToken` sets
  anew for the epoch it starts, by `getAuthToken`, or by `recheck`. -/
  | expire (i : Nat) (now : Int)
  /-- The store is read, by `recheck` or for a `storage` event, which may come at any
  later time and is not looked into. -/
  | read (i : Nat) (now : Int)
  /-- A request leaves, with a token `getAuthToken` did not find expired. -/
  | send (i : Nat) (now : Int)
  /-- A 401 for the `k`th request.  `inline` is what `classifyUnauthorized` made of
  its reason. -/
  | unauthorized (k : Nat) (inline aborted : Bool)

variable (expiry : T → Option Int)

/-- The 401 is for this page's present session, and not for a form. -/
def applies (page : Page T) (r : Request T) (inline aborted : Bool) : Bool :=
  !aborted && r.requestEpoch == page.authEpoch && !inline

def step (b : Browser T) : Label T → Option (Browser T)
  | .load i now =>
    match b.pages i with
    | none => some (b.initializePage i expiry now)
    | some _ => none
  | .login i t now => (b.pages i).map fun page =>
    (b.persist t).replaceToken i page (some t) (decodeToken expiry now t) true
  | .logout i => (b.pages i).map fun page => b.clearAuthToken i page true none
  | .expire i now => (b.pages i).map fun page =>
    b.clearAuthToken i page (page.expired now) page.token
  | .read i now => (b.pages i).map fun page =>
    b.replaceToken i page b.storage (b.storage.bind (decodeToken expiry now)) false
  | .send i now => (b.pages i).bind fun page =>
    if page.expired now then none
    else some { b with requests := b.requests ++ [⟨i, page.token, page.authEpoch⟩] }
  | .unauthorized k inline aborted => b.requests[k]?.bind fun r =>
    (b.pages r.page).map fun page =>
      b.clearAuthToken r.page page (applies page r inline aborted) r.token

/-- No page is open; a token left in the store counts as stored by a first login. -/
def start (storage : Option T) : Browser T :=
  { storage := storage, pages := fun _ => none, requests := [], logins := 1
    stored := fun t => if storage = some t then 1 else 0, revoked := none }

def browser : System (Browser T) (Label T) where
  init b := ∃ storage, b = start storage
  step := step expiry

/-! ## §3. Who is charged with what. -/

/-- What a page that reads the store acts for: the token it finds or, if there is
none, the one whose rejection or expiry took it away. -/
def Browser.reads (b : Browser T) : Option T := b.storage.or b.revoked

/-- The token a step acts for: the one a rejected request was sent with, the one
that may expire, or what is read from the store. -/
def blamed (b : Browser T) : Label T → Option T
  | .load .. | .read .. => b.reads
  | .expire i _ => (b.pages i).bind (·.token)
  | .unauthorized k _ _ => b.requests[k]?.bind (·.token)
  | .login .. | .logout _ | .send .. => none

/-- The step gets past the guard of `clearAuthToken`, on account of that token. -/
def clears (b : Browser T) : Label T → Bool
  | .expire i now => (b.pages i).any (·.expired now)
  | .unauthorized k inline aborted => b.requests[k]?.any fun r =>
    (b.pages r.page).any fun page => applies page r inline aborted
  | _ => false

/-- A token in the store, or in a page, stays there. -/
structure Keeps (b b' : Browser T) (u : T) : Prop where
  storage : b.storage = some u → b'.storage = some u
  pages : ∀ i page, b.pages i = some page → page.token = some u →
    ∃ page', b'.pages i = some page' ∧ page'.token = some u

/-- **A step never revokes a newer session**: acting for `t`, it leaves a token
that a later login stored where it is. -/
def Spares (b : Browser T) (l : Label T) : Prop :=
  ∀ t u b', blamed b l = some t → b.stored t < b.stored u → step expiry b l = some b' →
    Keeps b b' u

/-- The page has seen the latest login: where it clears on account of a token, the
store is empty or holds that very token. -/
def Seen (b : Browser T) (l : Label T) : Prop :=
  clears b l = true → blamed b l = none ∨ b.storage = none ∨ b.storage = blamed b l

instance (b : Browser T) (l : Label T) : Decidable (Seen b l) :=
  inferInstanceAs (Decidable (_ → _))

/-! ## §4. The invariant. -/

/-- What is read from the store was stored by the latest login, and a request of
the present session of a page carries its token. -/
structure SessionInv (b : Browser T) : Prop where
  newest : ∀ t, b.reads = some t → ∀ u, u ≠ t → b.stored u < b.stored t
  bound : ∀ u, b.stored u ≤ b.logins
  sent : ∀ r ∈ b.requests, ∃ page, b.pages r.page = some page ∧
    (r.requestEpoch < page.authEpoch ∨
      r.requestEpoch = page.authEpoch ∧ page.token = r.token)

variable {expiry} {b b' b₁ : Browser T} {l : Label T} {i : Nat} {page page' : Page T}
  {why token : Option T} {t u : T}

omit [DecidableEq T] in
theorem discard_pages {decoded : Option Int} : (b.discard token decoded).pages = b.pages := by
  unfold Browser.discard
  split <;> rfl

/-- `replaceToken` shows the token if it decodes, in the old epoch or a new one. -/
theorem Browser.replaceToken_cases (b : Browser T) (i : Nat) (page : Page T) (token : Option T)
    (decoded : Option Int) (force : Bool) :
    ((if decoded.isSome then token else none) = page.token ∧
      b.replaceToken i page token decoded force = b.discard token decoded) ∨
    ∃ page', page'.token = (if decoded.isSome then token else none) ∧
      page'.authEpoch = page.authEpoch + 1 ∧
      b.replaceToken i page token decoded force = (b.discard token decoded).setPage i page' := by
  unfold Browser.replaceToken
  by_cases hs : (if decoded.isSome then token else none) = page.token ∧ force = false
  · exact .inl ⟨hs.1, if_pos hs⟩
  · exact .inr ⟨_, rfl, rfl, if_neg hs⟩

namespace SessionInv

omit [DecidableEq T] in
theorem erase (h : SessionInv b) (hw : why = none ∨ b.storage = none ∨ b.storage = why) :
    SessionInv (b.erase why) where
  newest := by
    intro t ht
    have hr : (if b.storage.isSome then why else b.revoked) = some t := ht
    refine h.newest t ?_
    unfold Browser.reads
    cases hs : b.storage with
    | none => simpa [hs] using hr
    | some u =>
      rw [hs] at hr hw
      rcases hw with hw | hw | hw
      · rw [hw] at hr
        cases hr
      · cases hw
      · exact hw.trans hr
  __ := h

theorem persist (h : SessionInv b) (t : T) : SessionInv (b.persist t) where
  newest := by
    intro t' ht u hu
    cases ht
    show (if u = t then b.logins + 1 else b.stored u) < if t = t then b.logins + 1 else b.stored t
    rw [if_neg hu, if_pos rfl]
    exact Nat.lt_succ_of_le (h.bound u)
  bound := by
    intro u
    show (if u = t then b.logins + 1 else b.stored u) ≤ b.logins + 1
    split
    · exact Nat.le_refl _
    · exact Nat.le_succ_of_le (h.bound u)
  sent := h.sent

omit [DecidableEq T] in
/-- A page may change its session if it counts the epoch up. -/
theorem setPage (h : SessionInv b) (hp : b.pages i = some page)
    (hn : page.authEpoch < page'.authEpoch ∨
      page'.authEpoch = page.authEpoch ∧ page'.token = page.token) :
    SessionInv (b.setPage i page') where
  __ := h
  sent := by
    intro r hr
    obtain ⟨q, hq, he⟩ := h.sent r hr
    by_cases hi : r.page = i
    · refine ⟨page', if_pos hi, ?_⟩
      have hqp : q = page := by
        rw [hi, hp] at hq
        exact (some.inj hq).symm
      subst hqp
      rcases hn with hn | ⟨hn, ht⟩
      · exact .inl (by omega)
      · rw [hn, ht]
        exact he
    · exact ⟨q, (if_neg hi).trans hq, he⟩

omit [DecidableEq T] in
theorem discard (h : SessionInv b) (ht : token = none ∨ b.storage = token)
    (decoded : Option Int) : SessionInv (b.discard token decoded) := by
  unfold Browser.discard
  split
  · exact h.erase (ht.imp_right .inr)
  · exact h

theorem replaceToken (h : SessionInv b) (hp : b.pages i = some page)
    (ht : token = none ∨ b.storage = token) (decoded : Option Int) (force : Bool) :
    SessionInv (b.replaceToken i page token decoded force) := by
  have hb := h.discard ht decoded
  obtain ⟨-, heq⟩ | ⟨page', -, he, heq⟩ := b.replaceToken_cases i page token decoded force
  · exact heq ▸ hb
  · rw [heq]
    exact hb.setPage ((congrFun discard_pages i).trans hp) (.inl (by omega))

theorem clearAuthToken (h : SessionInv b) (hp : b.pages i = some page) {valid : Bool}
    (hw : valid = true → why = none ∨ b.storage = none ∨ b.storage = why) :
    SessionInv (b.clearAuthToken i page valid why) := by
  unfold Browser.clearAuthToken
  split
  · next hv => exact (h.erase (hw hv)).replaceToken hp (.inl rfl) none false
  · exact h

end SessionInv

/-- **A step of a page that has seen the latest login keeps the invariant.** -/
theorem step_inv (h : SessionInv b) (hseen : Seen b l) (hs : step expiry b l = some b') :
    SessionInv b' := by
  cases l with
  | load i now =>
    unfold step at hs
    cases hp : b.pages i with
    | some page => simp [hp] at hs
    | none =>
      simp only [hp, some.injEq] at hs
      subst hs
      have hb := h.discard (.inr rfl) (b.storage.bind (decodeToken expiry now))
      refine ⟨hb.newest, hb.bound, fun r hr => ?_⟩
      obtain ⟨q, hq, he⟩ := hb.sent r hr
      -- the page has not sent anything yet
      have hi : r.page ≠ i := by
        rintro rfl
        rw [discard_pages, hp] at hq
        cases hq
      exact ⟨q, (if_neg hi).trans hq, he⟩
  | login i t now =>
    obtain ⟨page, hp, rfl⟩ := map_eq_some_iff.mp hs
    exact (h.persist t).replaceToken hp (.inr rfl) _ true
  | logout i =>
    obtain ⟨page, hp, rfl⟩ := map_eq_some_iff.mp hs
    exact h.clearAuthToken hp fun _ => .inl rfl
  | expire i now =>
    obtain ⟨page, hp, rfl⟩ := map_eq_some_iff.mp hs
    refine h.clearAuthToken hp fun hv => ?_
    simpa [blamed, hp] using hseen (by simpa [clears, hp] using hv)
  | read i now =>
    obtain ⟨page, hp, rfl⟩ := map_eq_some_iff.mp hs
    exact h.replaceToken hp (.inr rfl) _ false
  | send i now =>
    obtain ⟨page, hp, hs⟩ := bind_eq_some_iff.mp hs
    obtain ⟨-, hs⟩ := ite_none_left_eq_some.mp hs
    cases hs
    refine ⟨h.newest, h.bound, fun r hr => ?_⟩
    rcases mem_append.mp hr with hr | hr
    · exact h.sent r hr
    · rw [mem_singleton.mp hr]
      exact ⟨page, hp, .inr ⟨rfl, rfl⟩⟩
  | unauthorized k inline aborted =>
    obtain ⟨r, hr, hs⟩ := bind_eq_some_iff.mp hs
    obtain ⟨page, hp, rfl⟩ := map_eq_some_iff.mp hs
    refine h.clearAuthToken hp fun hv => ?_
    simpa [blamed, hr] using hseen (by simpa [clears, hr, hp] using hv)

/-! ## §5. What a clearance takes away. -/

omit [DecidableEq T] in
theorem Keeps.refl (b : Browser T) (u : T) : Keeps b b u :=
  ⟨id, fun _ page h ht => ⟨page, h, ht⟩⟩

omit [DecidableEq T] in
theorem Keeps.setPage (h : Keeps b b₁ u) (hp : b₁.pages i = some page)
    (ht : page.token = some u → page'.token = some u) : Keeps b (b₁.setPage i page') u where
  storage := h.storage
  pages := by
    intro j q hq hqu
    obtain ⟨q', hq', hqu'⟩ := h.pages j q hq hqu
    by_cases hj : j = i
    · subst hj
      rw [hp] at hq'
      cases hq'
      exact ⟨page', if_pos rfl, ht hqu'⟩
    · exact ⟨q', (if_neg hj).trans hq', hqu'⟩

/-- A clearance for `t` in a page that shows `t` takes away `t` and what is in the
store. -/
theorem clearAuthToken_cases {valid : Bool} (hp : b.pages i = some page)
    (ht : valid = true → page.token = some t) :
    (valid = false ∧ b.clearAuthToken i page valid why = b) ∨
    valid = true ∧ (b.clearAuthToken i page valid why).storage = none ∧
      ∀ u, u ≠ t → b.storage ≠ some u → Keeps b (b.clearAuthToken i page valid why) u := by
  cases valid with
  | false => exact .inl ⟨rfl, rfl⟩
  | true =>
    refine .inr ⟨rfl, ?_⟩
    unfold Browser.clearAuthToken
    rw [if_pos rfl]
    have he : ∀ u, b.storage ≠ some u → Keeps b (b.erase why) u :=
      fun u hs => ⟨fun h => absurd h hs, (Keeps.refl b u).pages⟩
    obtain ⟨-, heq⟩ | ⟨page', -, -, heq⟩ :=
      (b.erase why).replaceToken_cases i page none none false
    · rw [heq]
      exact ⟨rfl, fun u _ hs => he u hs⟩
    · rw [heq]
      refine ⟨rfl, fun u hne hs => (he u hs).setPage hp fun hu => ?_⟩
      exact absurd (mem_unique hu (ht rfl)) hne

/-- **What a step that acts for `t` can do**: it reads the store, or changes
nothing, or empties the store and takes `t` from its own page. -/
theorem acts_cases (h : SessionInv b) (hs : step expiry b l = some b') (ht : blamed b l = some t) :
    b.reads = some t ∨ (clears b l = false ∧ b' = b) ∨
      clears b l = true ∧ b'.storage = none ∧ ∀ u, u ≠ t → b.storage ≠ some u → Keeps b b' u := by
  cases l with
  | load i now => exact .inl ht
  | read i now => exact .inl ht
  | expire i now =>
    obtain ⟨page, hp, rfl⟩ := map_eq_some_iff.mp hs
    have htok : page.token = some t := by simpa [blamed, hp] using ht
    simpa [clears, hp] using .inr (clearAuthToken_cases hp fun _ => htok)
  | unauthorized k inline aborted =>
    obtain ⟨r, hr, hs⟩ := bind_eq_some_iff.mp hs
    obtain ⟨page, hp, rfl⟩ := map_eq_some_iff.mp hs
    have htok : r.token = some t := by simpa [blamed, hr] using ht
    -- the epochs agree, so the page still shows the token of the request
    have hpage : applies page r inline aborted = true → page.token = some t := by
      intro hv
      obtain ⟨q, hq, he⟩ := h.sent r (mem_of_getElem? hr)
      rw [hp] at hq
      cases hq
      simp only [applies, Bool.and_eq_true, beq_iff_eq] at hv
      rcases he with he | ⟨-, he⟩
      · omega
      · exact he.trans htok
    simpa [clears, hr, hp] using .inr (clearAuthToken_cases hp hpage)
  | _ => cases ht

/-- One step spares the newer sessions exactly if its page has seen the latest
login. -/
theorem spares_iff_seen (h : SessionInv b) (hs : step expiry b l = some b') :
    Spares expiry b l ↔ Seen b l := by
  constructor
  · intro hsp hc
    cases ht : blamed b l with
    | none => exact .inl rfl
    | some t =>
      cases hu : b.storage with
      | none => exact .inr (.inl rfl)
      | some u =>
        refine .inr (.inr ?_)
        by_contra hne
        -- the token in the store is newer, and is gone after the step
        have hr : b.reads = some u := by rw [Browser.reads, hu]; rfl
        have htu : t ≠ u := fun h0 => hne (h0 ▸ rfl)
        have hkeep := (hsp t u b' ht (h.newest u hr t htu) hs).storage hu
        rcases acts_cases h hs ht with hr' | ⟨hc', -⟩ | ⟨-, hst, -⟩
        · exact htu (mem_unique hr' hr)
        · rw [hc] at hc'
          cases hc'
        · rw [hst] at hkeep
          cases hkeep
  · intro hseen t u b₁ ht hlt hs₁
    have hut : u ≠ t := by
      rintro rfl
      exact Nat.lt_irrefl _ hlt
    rcases acts_cases h hs₁ ht with hr | ⟨-, rfl⟩ | ⟨hc, -, hk⟩
    · exact absurd (h.newest t hr u hut) (Nat.lt_asymm hlt)
    · exact Keeps.refl _ u
    · refine hk u hut fun hu => ?_
      have h0 := hseen hc
      rw [hu, ht] at h0
      rcases h0 with h0 | h0 | h0
      · cases h0
      · cases h0
      · exact hut (some.inj h0)

theorem start_inv (storage : Option T) : SessionInv (start storage) where
  newest := by
    intro t ht u hu
    have hs : storage = some t := by simpa [Browser.reads, start] using ht
    have hu' : storage ≠ some u := fun h => hu (mem_unique h hs)
    show (if storage = some u then 1 else 0) < if storage = some t then 1 else 0
    rw [if_neg hu', if_pos hs]
    exact Nat.one_pos
  bound := by
    intro u
    show (if storage = some u then 1 else 0) ≤ 1
    split <;> omega
  sent := nofun

theorem along_iff : ∀ (ls : List (Label T)) (b b' : Browser T), SessionInv b →
    (browser expiry).run b ls = some b' →
    ((browser expiry).Along (Spares expiry) b ls ↔ (browser expiry).Along Seen b ls)
  | [], _, _, _, _ => Iff.rfl
  | l :: ls, b, b', h, hr => by
    obtain ⟨b₁, hs, hr⟩ := (browser expiry).run_cons hr
    have hhead := spares_iff_seen h hs
    constructor
    · intro ⟨hsp, hrest⟩
      have hseen := hhead.mp hsp
      exact System.along_cons hs hseen
        ((along_iff ls b₁ b' (step_inv h hseen hs) hr).mp (hrest b₁ hs))
    · intro ⟨hseen, hrest⟩
      exact System.along_cons hs (hhead.mpr hseen)
        ((along_iff ls b₁ b' (step_inv h hseen hs) hr).mpr (hrest b₁ hs))

/-- **A run never revokes a newer session exactly if every page that clears a token,
rejected or expired, has by then seen the latest login.**  Any number of pages, any
order of their steps, any clocks and any tokens. -/
theorem late_unauthorized_iff (storage : Option T) (ls : List (Label T)) (b : Browser T)
    (hr : (browser expiry).run (start storage) ls = some b) :
    (browser expiry).Along (Spares expiry) (start storage) ls ↔
      (browser expiry).Along Seen (start storage) ls :=
  along_iff ls _ b (start_inv storage) hr

/-- The second page reads the login of the first before its old request is rejected. -/
theorem late_unauthorized_iff_seen :
    ∃ b, (browser fun _ : Nat => some 1000).run (start (some 1))
        [.load 0 0, .load 1 0, .send 1 0, .login 0 2 0, .read 1 0, .unauthorized 0 false false] =
          some b ∧
      (browser fun _ : Nat => some 1000).Along (Spares fun _ => some 1000) (start (some 1))
        [.load 0 0, .load 1 0, .send 1 0, .login 0 2 0, .read 1 0, .unauthorized 0 false false] :=
  ⟨_, rfl, (late_unauthorized_iff (some 1) _ _ rfl).mpr (by decide)⟩

/-- **A 401 for token 1 revokes the session of token 2**: page 1 has not heard of the
login in page 0, empties the store, and page 0 follows it. -/
theorem late_unauthorized_revokes :
    ((browser fun _ : Nat => some 1000).run (start (some 1))
      [.load 0 0, .load 1 0, .send 1 0, .login 0 2 0]).map
        (fun b => (b.storage, (b.pages 0).bind (·.token), b.requests[0]?.bind (·.token))) =
      some (some 2, some 2, some 1) ∧
    ((browser fun _ : Nat => some 1000).run (start (some 1))
      [.load 0 0, .load 1 0, .send 1 0, .login 0 2 0, .unauthorized 0 false false, .read 0 0]).map
        (fun b => (b.storage, (b.pages 0).bind (·.token))) = some (none, none) := by
  decide

end Talus.Session
