/-
  Talus.Relay.Url
  **URLS AS `net/url` READS AND PRINTS THEM.**

  The relay parses the base URL of a service, changes its path and query,
  prints it, replaces placeholders in the text and parses the text again.
  This file has the parts of `net/url` that take part: percent-encoding for
  each component, the authority, `Parse`, `String` and `EscapedPath`, for
  texts that begin with `http://` or `https://` — the registration of a
  service accepts no others.

  `ipv6` is `netip.ParseAddr`, which looks at the inside of a bracketed host.

    • `decode_escape`: what was escaped decodes to itself,
    • `parseAuthority_print`: an authority that is printed and read again is the
      one it was,
    • `segments_of_unescape`: decoding a path keeps every literal segment.
-/
import Talus.Base.Path
import Mathlib.Data.List.TakeWhile

namespace Talus.Relay

open Talus.Base List Option
open Talus.Base.Path (slash dot parts)

/-! ## §1. Bytes. -/

def percent : UInt8 := 37
def questionMark : UInt8 := 63
def hash : UInt8 := 35
def colon : UInt8 := 58
def atSign : UInt8 := 64
def openBrace : UInt8 := 123
def closeBrace : UInt8 := 125

def isAlnum (c : UInt8) : Bool :=
  (97 ≤ c && c ≤ 122) || (65 ≤ c && c ≤ 90) || (48 ≤ c && c ≤ 57)

/-- `strings.Cut` at the first `c`. -/
def cut (c : UInt8) (s : Bytes) : Bytes × Bytes :=
  (s.takeWhile (· != c), (s.dropWhile (· != c)).drop 1)

/-- The text before and after the last `c`. -/
def cutLast (c : UInt8) : Bytes → Option (Bytes × Bytes)
  | [] => none
  | b :: s =>
    match cutLast c s with
    | some (x, y) => some (b :: x, y)
    | none => if b = c then some ([], s) else none

/-! ## §2. Percent-encoding. -/

/-- `encoding`, the modes that take part. -/
inductive Encoding
  | path | host | zone | userPassword | fragment
  deriving DecidableEq, Repr

def Encoding.isHost : Encoding → Bool
  | .host | .zone => true
  | _ => false

/-- Reserved bytes, `$&+,/:;=?@`. -/
def escapeReserved (c : UInt8) : Encoding → Bool
  | .path => c == questionMark
  | .userPassword => c == atSign || c == slash || c == questionMark || c == colon
  | .fragment => false
  | .host | .zone => true

def shouldEscape (c : UInt8) (mode : Encoding) : Bool :=
  if isAlnum c then false
  else if mode.isHost && (ascii "!$&'()*+,;=:[]<>\"").contains c then false
  else if (ascii "-_.~").contains c then false
  else if (ascii "$&+,/:;=?@").contains c then escapeReserved c mode
  else if mode = .fragment && (ascii "!()*").contains c then false
  else true

def upperHex (n : UInt8) : UInt8 := if n < 10 then 48 + n else 55 + n

def isHex (c : UInt8) : Bool :=
  (48 ≤ c && c ≤ 57) || (97 ≤ c && c ≤ 102) || (65 ≤ c && c ≤ 70)

def unhex (c : UInt8) : UInt8 :=
  if 48 ≤ c && c ≤ 57 then c - 48
  else if 97 ≤ c && c ≤ 102 then c - 87
  else if 65 ≤ c && c ≤ 70 then c - 55
  else 0

def escapeByte (mode : Encoding) (c : UInt8) : Bytes :=
  if shouldEscape c mode then [percent, upperHex (c / 16), upperHex (c % 16)] else [c]

def escape (mode : Encoding) (s : Bytes) : Bytes := s.flatMap (escapeByte mode)

/-- `%` and two digits are allowed here. -/
def tripleOk (mode : Encoding) : Bytes → Bool
  | a :: b :: _ =>
    isHex a && isHex b &&
      match mode with
      | .host => !(unhex a < 8 && !(a == 50 && b == 53))
      | .zone =>
        let v := unhex a * 16 + unhex b
        !(!(a == 50 && b == 53) && v != 32 && shouldEscape v .host)
      | _ => true
  | _ => false

/-- A byte that stands for itself is allowed here. -/
def plainOk (mode : Encoding) (c : UInt8) : Bool :=
  !(mode.isHost && c < 0x80 && shouldEscape c mode)

/-- The first loop of `unescape`, `skip` bytes of a triple still to pass. -/
def unescapeOkFrom (mode : Encoding) : Nat → Bytes → Bool
  | _, [] => true
  | skip + 1, _ :: s => unescapeOkFrom mode skip s
  | 0, c :: s =>
    if c = percent then tripleOk mode s && unescapeOkFrom mode 2 s
    else plainOk mode c && unescapeOkFrom mode 0 s

/-- The byte of a triple. -/
def tripleByte : Bytes → UInt8
  | a :: b :: _ => unhex a * 16 + unhex b
  | _ => 0

/-- The second loop of `unescape`. -/
def decodeFrom : Nat → Bytes → Bytes
  | _, [] => []
  | skip + 1, _ :: s => decodeFrom skip s
  | 0, c :: s =>
    if c = percent then tripleByte s :: decodeFrom 2 s else c :: decodeFrom 0 s

def unescapeOk (mode : Encoding) (s : Bytes) : Bool := unescapeOkFrom mode 0 s

def decode (s : Bytes) : Bytes := decodeFrom 0 s

def unescape (mode : Encoding) (s : Bytes) : Option Bytes :=
  if unescapeOk mode s then some (decode s) else none

/-- `validEncoded`, of a path or a fragment as it was written. -/
def validEncoded (mode : Encoding) (s : Bytes) : Bool :=
  s.all fun c => (ascii "!$&'()*+,;=:@[]%").contains c || !shouldEscape c mode

/-! ## §3. The authority. -/

structure Userinfo where
  username : Bytes
  password : Option Bytes
  deriving DecidableEq, Repr

def Userinfo.print (u : Userinfo) : Bytes :=
  escape .userPassword u.username ++
    match u.password with
    | none => []
    | some p => colon :: escape .userPassword p

def validUserinfo (s : Bytes) : Bool :=
  s.all fun c => isAlnum c || (ascii "-._:~!$&'()*+,;=%@").contains c

/-- Empty, or `:` and digits. -/
def validOptionalPort : Bytes → Bool
  | [] => true
  | c :: s => c == colon && s.all fun b => 48 ≤ b && b ≤ 57

variable (ipv6 : Bytes → Bool)

/-- Where the zone begins, with `%25`. -/
def zoneStart (inside : Bytes) : Option Nat :=
  (List.range (inside.length + 1)).find? fun i => [percent, 50, 53].isPrefixOf (inside.drop i)

/-- The inside of the brackets of a host. -/
def unescapeBracketed (inside : Bytes) : Option Bytes :=
  match zoneStart inside with
  | none => unescape .host inside
  | some i => do
      let host ← unescape .host (inside.take i)
      let zone ← unescape .zone (inside.drop i)
      pure (host ++ zone)

/-- Only an IPv6 address may stand in brackets. -/
def parseBracketed (inside : Bytes) : Option Bytes := (unescapeBracketed inside).filter ipv6

/-- `[`, the inside, `]` and a port. -/
def parseLiteral (rest : Bytes) : Option Bytes := do
  let (inside, port) ← cutLast 93 rest
  if validOptionalPort port then do
    let port ← unescape .host port
    let name ← parseBracketed ipv6 inside
    pure (91 :: name ++ 93 :: port)
  else none

def parseHost (host : Bytes) : Option Bytes :=
  match host with
  | 91 :: rest => if rest.contains 91 then none else parseLiteral ipv6 rest
  | _ =>
    if host.contains 91 then none
    else if host.contains colon && !validOptionalPort (host.dropWhile (· != colon)) then none
    else unescape .host host

def parseUserinfo (s : Bytes) : Option Userinfo :=
  if validUserinfo s = false then none
  else if s.contains colon then do
    let (username, password) := cut colon s
    let username ← unescape .userPassword username
    let password ← unescape .userPassword password
    pure ⟨username, some password⟩
  else do
    let username ← unescape .userPassword s
    pure ⟨username, none⟩

def parseAuthority (authority : Bytes) : Option (Option Userinfo × Bytes) :=
  match cutLast atSign authority with
  | none => do
      let host ← parseHost ipv6 authority
      pure (none, host)
  | some (info, host) => do
      let host ← parseHost ipv6 host
      let user ← parseUserinfo info
      pure (some user, host)

/-! ## §4. URLs. -/

/-- `url.URL`; the scheme is `http` or `https`. -/
structure Url where
  scheme : Bytes
  user : Option Userinfo
  host : Bytes
  path : Bytes
  rawPath : Bytes
  forceQuery : Bool
  rawQuery : Bytes
  fragment : Bytes
  rawFragment : Bytes
  deriving DecidableEq, Repr

/-- A path or fragment as it is printed: as it was written, if that is valid
and still means the same. -/
def escaped (mode : Encoding) (raw text : Bytes) : Bytes :=
  if raw ≠ [] ∧ validEncoded mode raw = true ∧ unescape mode raw = some text then raw
  else escape mode text

/-- How a text was written, where that is not how it would be escaped. -/
def rawOf (mode : Encoding) (written text : Bytes) : Bytes :=
  if written = escape mode text then [] else written

namespace Url

def escapedPath (u : Url) : Bytes :=
  if u.path = [42] then
    if u.rawPath ≠ [] ∧ validEncoded .path u.rawPath = true ∧
        unescape .path u.rawPath = some u.path then u.rawPath
    else [42]
  else escaped .path u.rawPath u.path

def printUser : Option Userinfo → Bytes
  | none => []
  | some user => user.print ++ [atSign]

/-- `//`, the user and the host. -/
def printAuthority (u : Url) : Bytes :=
  if u.host ≠ [] ∨ u.path ≠ [] ∨ u.user ≠ none then
    slash :: slash :: (printUser u.user ++ escape .host u.host)
  else []

def printQuery (u : Url) : Bytes :=
  if u.forceQuery = true ∨ u.rawQuery ≠ [] then questionMark :: u.rawQuery else []

def printFragment (u : Url) : Bytes :=
  if u.fragment ≠ [] then hash :: escaped .fragment u.rawFragment u.fragment else []

/-- The path, set apart from the host. -/
def printPath (u : Url) : Bytes :=
  if u.escapedPath ≠ [] ∧ u.escapedPath.head? ≠ some slash ∧ u.host ≠ [] then
    slash :: u.escapedPath
  else u.escapedPath

/-- `URL.String`. -/
def print (u : Url) : Bytes :=
  u.scheme ++ colon :: (u.printAuthority ++ u.printPath ++ u.printQuery ++ u.printFragment)

end Url

def http : Bytes := ascii "http"
def https : Bytes := ascii "https"

/-- The scheme of a text that begins with `http://` or `https://`, and what
follows the slashes. -/
def splitScheme (s : Bytes) : Option (Bytes × Bytes) :=
  if (ascii "http://").isPrefixOf s then some (http, s.drop 7)
  else if (ascii "https://").isPrefixOf s then some (https, s.drop 8)
  else none

/-- `stringContainsCTLByte`. -/
def containsCtl (s : Bytes) : Bool := s.any fun b => b < 32 || b == 127

/-- `Parse`. -/
def parse (raw : Bytes) : Option Url := do
  let (text, frag) := cut hash raw
  if containsCtl text then none
  else do
    let (scheme, rest) ← splitScheme text
    let (before, query) := cut questionMark rest
    let (user, host) ← parseAuthority ipv6 (before.takeWhile (· != slash))
    let written := before.dropWhile (· != slash)
    let path ← unescape .path written
    let fragment ← unescape .fragment frag
    pure {
      scheme := scheme, user := user, host := host
      path := path, rawPath := rawOf .path written path
      forceQuery := rest.contains questionMark && query == []
      rawQuery := query
      fragment := fragment, rawFragment := rawOf .fragment frag fragment }

/-- `removeEmptyPort`: a host that ends with `:` loses it. -/
def removeEmptyPort (host : Bytes) : Bytes :=
  match cutLast colon host with
  | some (name, []) => name
  | _ => host

/-- The URL of `http.NewRequest`. -/
def newRequest (raw : Bytes) : Option Url :=
  (parse ipv6 raw).map fun u => { u with host := removeEmptyPort u.host }

/-! ## §5. Decoding what was escaped. -/

variable {mode : Encoding} {s t x y : Bytes} {c : UInt8}

theorem decodeFrom_eq (skip : Nat) (s : Bytes) : decodeFrom skip s = decode (s.drop skip) := by
  induction s generalizing skip with
  | nil => cases skip <;> rfl
  | cons c s ih =>
    cases skip with
    | zero => rfl
    | succ skip => exact ih skip

theorem unescapeOkFrom_eq (skip : Nat) (s : Bytes) :
    unescapeOkFrom mode skip s = unescapeOk mode (s.drop skip) := by
  induction s generalizing skip with
  | nil => cases skip <;> rfl
  | cons c s ih =>
    cases skip with
    | zero => rfl
    | succ skip => exact ih skip

theorem decode_cons (h : c ≠ percent) : decode (c :: s) = c :: decode s := by
  simp only [decode, decodeFrom, if_neg h]

theorem decode_percent (s : Bytes) : decode (percent :: s) = tripleByte s :: decode (s.drop 2) := by
  rw [decode, decodeFrom, if_pos rfl, decodeFrom_eq]

theorem unescapeOk_cons (h : c ≠ percent) :
    unescapeOk mode (c :: s) = (plainOk mode c && unescapeOk mode s) := by
  simp only [unescapeOk, unescapeOkFrom, if_neg h]

theorem unescapeOk_percent (s : Bytes) :
    unescapeOk mode (percent :: s) = (tripleOk mode s && unescapeOk mode (s.drop 2)) := by
  rw [unescapeOk, unescapeOkFrom, if_pos rfl, unescapeOkFrom_eq]

theorem unescape_eq_some : unescape mode s = some x ↔ unescapeOk mode s = true ∧ decode s = x := by
  unfold unescape
  split
  · rename_i h
    simp [h]
  · rename_i h
    simp [h]

/-- A property of every byte, checked on all of them. -/
theorem forall_byte {P : UInt8 → Prop} (h : ∀ n : Fin 256, P (UInt8.ofNat n.val)) (c : UInt8) :
    P c := by
  have hc := h ⟨c.toNat, c.toNat_lt⟩
  rwa [UInt8.ofNat_toNat] at hc

theorem unhex_upperHex (c : UInt8) : unhex (upperHex (c / 16)) * 16 + unhex (upperHex (c % 16)) = c :=
  forall_byte (P := fun c => unhex (upperHex (c / 16)) * 16 + unhex (upperHex (c % 16)) = c)
    (by decide +kernel) c

theorem isHex_upperHex (c : UInt8) :
    isHex (upperHex (c / 16)) = true ∧ isHex (upperHex (c % 16)) = true :=
  forall_byte
    (P := fun c => isHex (upperHex (c / 16)) = true ∧ isHex (upperHex (c % 16)) = true)
    (by decide +kernel) c

theorem shouldEscape_percent (mode : Encoding) : shouldEscape percent mode = true := by
  cases mode <;> decide +kernel

/-- **What was escaped decodes to itself.** -/
theorem decode_escape_append (s t : Bytes) : decode (escape mode s ++ t) = s ++ decode t := by
  induction s with
  | nil => rfl
  | cons c s ih =>
    show decode (escapeByte mode c ++ escape mode s ++ t) = _
    unfold escapeByte
    split
    · show decode (percent :: upperHex (c / 16) :: upperHex (c % 16) :: (escape mode s ++ t)) = _
      rw [decode_percent]
      show (unhex _ * 16 + unhex _) :: decode (escape mode s ++ t) = _
      rw [unhex_upperHex, ih, cons_append]
    · rename_i hplain
      have hne : c ≠ percent := by
        rintro rfl
        exact hplain (shouldEscape_percent mode)
      show decode (c :: (escape mode s ++ t)) = _
      rw [decode_cons hne, ih, cons_append]

theorem decode_escape (s : Bytes) : decode (escape mode s) = s := by
  have h := @decode_escape_append mode s []
  rwa [append_nil, show decode [] = [] from rfl, append_nil] at h

theorem eq_of_unescape_escape {mode' : Encoding} (h : unescape mode' (escape mode s) = some x) :
    x = s := by
  rw [← (unescape_eq_some.1 h).2, decode_escape]

/-- An escaped path or fragment is well-formed. -/
theorem unescapeOk_escape (hmode : mode.isHost = false) (s : Bytes) :
    unescapeOk mode (escape mode s) = true := by
  induction s with
  | nil => rfl
  | cons c s ih =>
    show unescapeOk mode (escapeByte mode c ++ escape mode s) = true
    unfold escapeByte
    split
    · show unescapeOk mode (percent :: upperHex (c / 16) :: upperHex (c % 16) :: escape mode s) = _
      rw [unescapeOk_percent, Bool.and_eq_true]
      refine ⟨?_, ih⟩
      obtain ⟨h₁, h₂⟩ := isHex_upperHex c
      cases mode with
      | host => cases hmode
      | zone => cases hmode
      | path | userPassword | fragment => simp [tripleOk, h₁, h₂]
    · rename_i hplain
      have hne : c ≠ percent := by
        rintro rfl
        exact hplain (shouldEscape_percent mode)
      show unescapeOk mode (c :: escape mode s) = true
      rw [unescapeOk_cons hne, ih]
      simp [plainOk, hmode]

/-- Whole triples are decoded one by one. -/
theorem decode_append (h : unescapeOk mode s = true) (t : Bytes) :
    decode (s ++ t) = decode s ++ decode t := by
  -- a triple takes three bytes at once
  induction hn : s.length using Nat.strong_induction_on generalizing s with
  | _ n ih =>
    subst hn
    match s with
    | [] => rfl
    | c :: s =>
      by_cases hc : c = percent
      · subst hc
        rw [unescapeOk_percent, Bool.and_eq_true] at h
        match s with
        | [] => cases h.1
        | [a] => cases h.1
        | a :: b :: s =>
          have hrest : decode (s ++ t) = decode s ++ decode t :=
            ih s.length (by simp; omega) h.2 rfl
          show decode (percent :: a :: b :: (s ++ t)) = _
          rw [decode_percent, decode_percent]
          show tripleByte (a :: b :: (s ++ t)) :: decode (s ++ t) = _
          rw [hrest]
          rfl
      · rw [unescapeOk_cons hc, Bool.and_eq_true] at h
        rw [cons_append, decode_cons hc, decode_cons hc, ih s.length (by simp) h.2 rfl, cons_append]

/-- A byte that is no digit ends every triple before it. -/
theorem unescapeOk_append (hc : isHex c = false) (h : unescapeOk mode (s ++ c :: t) = true) :
    unescapeOk mode s = true ∧ unescapeOk mode (c :: t) = true := by
  induction hn : s.length using Nat.strong_induction_on generalizing s with
  | _ n ih =>
    subst hn
    match s with
    | [] => exact ⟨rfl, h⟩
    | b :: s =>
      by_cases hb : b = percent
      · subst hb
        rw [cons_append, unescapeOk_percent, Bool.and_eq_true] at h
        obtain ⟨htriple, hrest⟩ := h
        match s with
        | [] =>
          cases t with
          | nil => cases htriple
          | cons b t =>
            simp only [nil_append, tripleOk, hc, Bool.false_and] at htriple
            cases htriple
        | [a] =>
          simp only [cons_append, nil_append, tripleOk, hc, Bool.and_false,
            Bool.false_and] at htriple
          cases htriple
        | a :: b :: s =>
          obtain ⟨hs, ht⟩ := ih s.length (by simp; omega) hrest rfl
          refine ⟨?_, ht⟩
          rw [unescapeOk_percent, Bool.and_eq_true]
          exact ⟨htriple, hs⟩
      · rw [cons_append, unescapeOk_cons hb, Bool.and_eq_true] at h
        obtain ⟨hs, ht⟩ := ih s.length (by simp) h.2 rfl
        refine ⟨?_, ht⟩
        rw [unescapeOk_cons hb, Bool.and_eq_true]
        exact ⟨h.1, hs⟩

/-! ## §6. Cutting. -/

theorem bne_of_not_mem (h : c ∉ x) : ∀ b ∈ x, (b != c) = true := by
  intro b hb
  rw [bne_iff_ne]
  rintro rfl
  exact h hb

theorem cut_append (h : c ∉ x) : cut c (x ++ c :: y) = (x, y) := by
  have hx := bne_of_not_mem h
  unfold cut
  rw [takeWhile_append_of_pos hx, dropWhile_append_of_pos hx]
  simp

theorem cutLast_of_not_mem (h : c ∉ s) : cutLast c s = none := by
  induction s with
  | nil => rfl
  | cons b s ih =>
    rw [mem_cons, not_or] at h
    rw [cutLast, ih h.2]
    exact if_neg fun hb => h.1 hb.symm

theorem cutLast_append (h : c ∉ y) : cutLast c (x ++ c :: y) = some (x, y) := by
  induction x with
  | nil =>
    rw [nil_append, cutLast, cutLast_of_not_mem h]
    exact if_pos rfl
  | cons b x ih => rw [cons_append, cutLast, ih]

theorem eq_of_cutLast (h : cutLast c s = some (x, y)) : s = x ++ c :: y := by
  induction s generalizing x with
  | nil => cases h
  | cons b s ih =>
    rw [cutLast] at h
    cases hs : cutLast c s with
    | some r =>
      rw [hs] at h
      cases h
      rw [cons_append, ← ih hs]
    | none =>
      rw [hs] at h
      by_cases hb : b = c
      · rw [if_pos hb] at h
        cases h
        rw [hb, nil_append]
      · rw [if_neg hb] at h
        cases h

/-! ## §7. What an escaped text has no byte of. -/

theorem not_mem_escape (hesc : shouldEscape c mode = true) (hne : c ≠ percent)
    (hhex : isHex c = false) (s : Bytes) : c ∉ escape mode s := by
  intro h
  obtain ⟨b, -, hb⟩ := mem_flatMap.1 h
  unfold escapeByte at hb
  split at hb
  · rw [mem_cons, mem_cons, mem_singleton] at hb
    obtain ⟨h₁, h₂⟩ := isHex_upperHex b
    rcases hb with rfl | rfl | rfl
    · exact hne rfl
    · exact absurd (hhex.symm.trans h₁) (by decide)
    · exact absurd (hhex.symm.trans h₂) (by decide)
  · rename_i hplain
    rw [mem_singleton] at hb
    exact hplain (hb ▸ hesc)

/-! ## §8. The authority, printed and read again. -/

variable {ipv6}

theorem unescapeBracketed_eq (h : unescapeBracketed s = some x) (t : Bytes) :
    decode (s ++ t) = x ++ decode t := by
  unfold unescapeBracketed at h
  split at h
  · obtain ⟨hok, hdec⟩ := unescape_eq_some.1 h
    rw [decode_append hok, hdec]
  · rename_i i _
    simp only [bind_eq_bind, bind_eq_some_iff] at h
    obtain ⟨host, hhost, zone, hz, h⟩ := h
    cases h
    obtain ⟨hok, hdec⟩ := unescape_eq_some.1 hhost
    obtain ⟨hok', hdec'⟩ := unescape_eq_some.1 hz
    calc decode (s ++ t) = decode (s.take i ++ (s.drop i ++ t)) := by
          rw [← append_assoc, take_append_drop]
      _ = host ++ zone ++ decode t := by
          rw [decode_append hok, decode_append hok', hdec, hdec', append_assoc]

/-- A host is read by decoding it. -/
theorem parseHost_eq (h : parseHost ipv6 s = some x) : x = decode s := by
  unfold parseHost at h
  split at h
  · rename_i rest
    split at h
    · cases h
    unfold parseLiteral at h
    simp only [bind_eq_bind, bind_eq_some_iff] at h
    obtain ⟨⟨inside, port⟩, hcut, h⟩ := h
    split at h
    · simp only [bind_eq_some_iff] at h
      obtain ⟨port', hport, name, hname, h⟩ := h
      cases h
      rw [eq_of_cutLast hcut, decode_cons (by decide),
        unescapeBracketed_eq (filter_eq_some_iff.1 hname).1,
        decode_cons (by decide), (unescape_eq_some.1 hport).2]
      rfl
    · cases h
  · split at h
    · cases h
    · split at h
      · cases h
      · exact (unescape_eq_some.1 h).2.symm

theorem parseUserinfo_print {user user' : Userinfo}
    (h : parseUserinfo user.print = some user') : user' = user := by
  have hcolon : ∀ s, colon ∉ escape .userPassword s :=
    not_mem_escape (by decide +kernel) (by decide) (by decide)
  obtain ⟨username, password⟩ := user
  unfold parseUserinfo at h
  split at h
  · cases h
  cases password with
  | none =>
    have hprint : Userinfo.print ⟨username, none⟩ = escape .userPassword username :=
      append_nil _
    rw [hprint, if_neg (by simpa using hcolon username)] at h
    simp only [bind_eq_bind, bind_eq_some_iff] at h
    obtain ⟨u, hu, h⟩ := h
    cases h
    rw [eq_of_unescape_escape hu]
  | some password =>
    have hprint : Userinfo.print ⟨username, some password⟩ =
      escape .userPassword username ++ colon :: escape .userPassword password := rfl
    rw [hprint, if_pos (by simp), cut_append (hcolon username)] at h
    simp only [bind_eq_bind, bind_eq_some_iff] at h
    obtain ⟨u, hu, p, hp, h⟩ := h
    cases h
    rw [eq_of_unescape_escape hu, eq_of_unescape_escape hp]

/-- **The authority is stable**: printed and read again, it is what it was. -/
theorem parseAuthority_print {user user' : Option Userinfo} {host host' : Bytes}
    (h : parseAuthority ipv6 (Url.printUser user ++ escape .host host) = some (user', host')) :
    user' = user ∧ host' = host := by
  have hat : atSign ∉ escape .host host :=
    not_mem_escape (by decide +kernel) (by decide) (by decide) host
  have hhost : ∀ {x}, parseHost ipv6 (escape .host host) = some x → x = host := fun hx => by
    rw [parseHost_eq hx, decode_escape]
  unfold parseAuthority at h
  cases user with
  | none =>
    rw [show Url.printUser none ++ escape .host host = escape .host host from rfl,
      cutLast_of_not_mem hat] at h
    simp only [bind_eq_bind, bind_eq_some_iff] at h
    obtain ⟨x, hx, h⟩ := h
    cases h
    exact ⟨rfl, hhost hx⟩
  | some user =>
    rw [show Url.printUser (some user) ++ escape .host host =
      user.print ++ atSign :: escape .host host by simp [Url.printUser], cutLast_append hat] at h
    simp only [bind_eq_bind, bind_eq_some_iff] at h
    obtain ⟨x, hx, u, hu, h⟩ := h
    cases h
    exact ⟨congrArg some (parseUserinfo_print hu), hhost hx⟩

/-! ## §9. Segments. -/

/-- A segment of dots that is written out stays one when the path is
decoded. -/
theorem segments_of_unescape {seg : Bytes} (hseg : seg = [dot] ∨ seg = [dot, dot])
    (hok : unescapeOk mode s = true) (hmem : seg ∈ parts s) : seg ∈ parts (decode s) := by
  -- from slash to slash
  induction hn : s.length using Nat.strong_induction_on generalizing s with
  | _ n ih =>
    subst hn
    have hself : ∀ s : Bytes, seg = s → seg ∈ parts (decode s) := by
      rintro s rfl
      rcases hseg with rfl | rfl <;> decide
    by_cases hslash : slash ∈ s
    · obtain ⟨a, b, rfl, ha⟩ := eq_append_cons_of_mem hslash
      obtain ⟨hoka, hokb⟩ := unescapeOk_append (by decide) hok
      rw [unescapeOk_cons (by decide), Bool.and_eq_true] at hokb
      rw [decode_append hoka, decode_cons (by decide), Path.parts_append_slash, mem_append]
      rw [Path.parts_append ha, mem_cons] at hmem
      rcases hmem with hmem | hmem
      · exact .inl (hself a hmem)
      · exact .inr (ih b.length (by simp; omega) hokb.2 hmem rfl)
    · rw [Path.parts_single hslash, mem_singleton] at hmem
      exact hself s hmem

end Talus.Relay
