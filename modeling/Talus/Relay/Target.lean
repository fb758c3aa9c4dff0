/-
  Talus.Relay.Target
  **THE URL A RELAYED REQUEST IS SENT TO.**

  `buildTargetURL` joins the base URL of a service and the path a caller gives,
  `substitute` puts the service's credentials into the printed URL, and the
  request is made from the text that results.  A credential map is visited in
  an order the program does not choose, so `substitute` takes the pairs in the
  order of the visit.

    • `IsTarget.print`: the printed target is a part up to and with the path,
      which has no braces, and a part that begins with `?` or `#`,
    • `substitute_target`: only the second part is touched by the credentials.
-/
import Talus.Base.Rewrite
import Talus.Relay.Url

namespace Talus.Relay

open Talus.Base List Option
open Talus.Base.Path (slash dot parts)

/-! ## §1. Placeholders. -/

/-- `{{key}}`. -/
def placeholder (key : Bytes) : Bytes := openBrace :: openBrace :: (key ++ [closeBrace, closeBrace])

/-- `strings.ReplaceAll` of one placeholder. -/
def credentialRule (pair : Bytes × Bytes) : Rule UInt8 := ⟨placeholder pair.1, pair.2⟩

/-- `substitute`, with the credentials in the order they are visited. -/
def substitute (order : List (Bytes × Bytes)) (input : Bytes) : Bytes :=
  rewriteSeq (order.map credentialRule) input

/-! ## §2. The target. -/

/-- Text without one slash at its end. -/
def trimSuffixSlash (s : Bytes) : Bytes := if s.getLast? = some slash then s.dropLast else s

/-- Text without one slash at its start. -/
def trimPrefixSlash (s : Bytes) : Bytes := if s.head? = some slash then s.drop 1 else s

def cleanRelayPath (p : Bytes) : Bytes :=
  if p = [] ∨ p = [slash] then p
  else
    let cleaned := Path.clean p
    if p.getLast? = some slash ∧ cleaned.getLast? ≠ some slash then cleaned ++ [slash]
    else cleaned

/-- The path of the base with the path of the relay. -/
def joinPath (basePath rel : Bytes) : Bytes :=
  if basePath = [] ∧ rel = [] then [slash]
  else if rel = [] then basePath ++ [slash]
  else basePath ++ slash :: rel

variable (ipv6 : Bytes → Bool)

/-- The base URL with the path and query of the relay. -/
def targetUrl (base : Url) (path : Bytes) : Url :=
  let (relPath, rawQuery) := cut questionMark path
  { base with
    path := cleanRelayPath (joinPath (trimSuffixSlash base.path) (trimPrefixSlash relPath))
    rawQuery := if rawQuery ≠ [] then rawQuery else base.rawQuery }

def buildTargetURL (baseURL path : Bytes) : Option Bytes :=
  (parse ipv6 baseURL).map fun base => (targetUrl base path).print

/-- The check of `validateAndEncryptCredentials`. -/
def validBaseURL (baseURL : Bytes) : Bool :=
  (ascii "http://").isPrefixOf baseURL || (ascii "https://").isPrefixOf baseURL

/-- The URL of the request that is sent. -/
def relayTarget (baseURL path : Bytes) (order : List (Bytes × Bytes)) : Option Url :=
  (buildTargetURL ipv6 baseURL path).bind fun target => newRequest ipv6 (substitute order target)

/-! ## §3. Clean paths. -/

/-- No empty segment and no dots among the pieces of a clean rooted path. -/
theorem cleanParts_plain {ps : List Bytes} (hps : ∀ p ∈ ps, slash ∉ p) :
    ∀ p ∈ Path.cleanParts true ps, slash ∉ p ∧ p ≠ [dot] ∧ p ≠ [dot, dot] := by
  suffices h : ∀ acc : List Bytes, (∀ p ∈ acc, slash ∉ p ∧ p ≠ [dot] ∧ p ≠ [dot, dot]) →
      ∀ p ∈ ps.foldl (Path.cleanStep true) acc, slash ∉ p ∧ p ≠ [dot] ∧ p ≠ [dot, dot] by
    intro p hp
    unfold Path.cleanParts at hp
    exact h [] (by simp) p (mem_reverse.1 hp)
  induction ps with
  | nil => exact fun acc hacc => hacc
  | cons q ps ih =>
    intro acc hacc
    refine ih (fun p hp => hps p (mem_cons_of_mem q hp)) _ fun p hp => ?_
    unfold Path.cleanStep at hp
    split at hp
    · exact hacc p hp
    · rename_i hq
      rw [not_or] at hq
      split at hp
      · -- a `..` takes the piece before it away
        split at hp
        · simp at hp
        rename_i q' rest
        split at hp
        · rename_i hdots
          exact absurd hdots (hacc q' mem_cons_self).2.2
        · exact hacc p (mem_cons_of_mem q' hp)
      · rename_i hdots
        rcases mem_cons.1 hp with rfl | hp
        · exact ⟨hps p mem_cons_self, hq.2, hdots⟩
        · exact hacc p hp

/-- A path that is rooted and has no dot segment. -/
structure Plain (p : Bytes) : Prop where
  rooted : ∃ rest, p = slash :: rest
  dots : ∀ seg ∈ parts p, seg ≠ [dot] ∧ seg ≠ [dot, dot]

theorem plain_clean {p : Bytes} (h : Path.isRooted p = true) : Plain (Path.clean p) := by
  unfold Path.clean
  simp only [h, if_true]
  refine ⟨⟨_, rfl⟩, fun seg hseg => ?_⟩
  have hplain := cleanParts_plain fun q hq => Path.slash_not_mem_parts p hq
  rw [Path.parts_rooted _ fun q hq => (hplain q hq).1, mem_cons] at hseg
  rcases hseg with rfl | hseg
  · exact ⟨by simp, by simp⟩
  · split at hseg
    · cases mem_singleton.1 hseg
      exact ⟨by simp, by simp⟩
    · exact (hplain seg hseg).2

theorem plain_cleanRelayPath {rest : Bytes} : Plain (cleanRelayPath (slash :: rest)) := by
  unfold cleanRelayPath
  split
  · rename_i hroot
    have hnil : rest = [] := by simpa using hroot
    subst hnil
    exact ⟨⟨[], rfl⟩, by decide⟩
  · have hclean : Plain (Path.clean (slash :: rest)) := plain_clean rfl
    simp only
    split
    · -- the slash at the end adds an empty segment
      obtain ⟨⟨rest', hrest'⟩, hdots⟩ := hclean
      refine ⟨⟨rest' ++ [slash], by rw [hrest', cons_append]⟩, fun seg hseg => ?_⟩
      rw [Path.parts_append_slash, mem_append] at hseg
      rcases hseg with hseg | hseg
      · exact hdots seg hseg
      · cases mem_singleton.1 hseg
        exact ⟨by simp, by simp⟩
    · exact hclean

/-- Empty, or rooted. -/
def Rootish (p : Bytes) : Prop := p = [] ∨ ∃ rest, p = slash :: rest

theorem joinPath_rooted {p : Bytes} (h : Rootish p) (rel : Bytes) :
    ∃ rest, joinPath (trimSuffixSlash p) rel = slash :: rest := by
  have htrim : Rootish (trimSuffixSlash p) := by
    unfold trimSuffixSlash
    split
    · rcases h with rfl | ⟨rest, rfl⟩
      · exact .inl rfl
      · cases rest with
        | nil => exact .inl rfl
        | cons b rest => exact .inr ⟨(b :: rest).dropLast, rfl⟩
    · exact h
  unfold joinPath
  rcases htrim with hnil | ⟨rest, hrest⟩
  · rw [hnil]
    split
    · exact ⟨[], rfl⟩
    · split
      · exact ⟨[], rfl⟩
      · exact ⟨rel, rfl⟩
  · rw [hrest]
    split
    · exact ⟨[], rfl⟩
    · split
      · exact ⟨rest ++ [slash], rfl⟩
      · exact ⟨rest ++ slash :: rel, rfl⟩

/-! ## §4. What a parsed URL is like. -/

variable {ipv6}

theorem rootish_dropWhile (s : Bytes) : Rootish (s.dropWhile (· != slash)) := by
  cases h : s.dropWhile (· != slash) with
  | nil => exact .inl rfl
  | cons b rest =>
    have hne : s.dropWhile (· != slash) ≠ [] := by rw [h]; simp
    have hb := head_dropWhile_not (· != slash) hne
    simp only [h, head_cons, bne_eq_false_iff_eq] at hb
    exact .inr ⟨rest, by rw [hb]⟩

/-- The scheme is one of two; the path and how it was written are empty or
begin with a slash. -/
structure Parsed (u : Url) : Prop where
  scheme : u.scheme = http ∨ u.scheme = https
  path : Rootish u.path
  rawPath : Rootish u.rawPath

theorem parsed_of_parse {raw : Bytes} {u : Url} (h : parse ipv6 raw = some u) : Parsed u := by
  unfold parse at h
  simp only [bind_eq_bind] at h
  split at h
  · cases h
  simp only [bind_eq_some_iff] at h
  obtain ⟨⟨scheme, rest⟩, hscheme, ⟨user, host⟩, -, path, hpath, fragment, -, h⟩ := h
  cases h
  have hwritten := rootish_dropWhile (cut questionMark rest).1
  refine ⟨?_, ?_, ?_⟩
  · unfold splitScheme at hscheme
    split at hscheme
    · cases hscheme
      exact .inl rfl
    · split at hscheme
      · cases hscheme
        exact .inr rfl
      · cases hscheme
  · rw [← (unescape_eq_some.1 hpath).2]
    rcases hwritten with hnil | ⟨written, hw⟩
    · rw [hnil]
      exact .inl rfl
    · rw [hw, decode_cons (by decide)]
      exact .inr ⟨_, rfl⟩
  · show Rootish (rawOf _ _ _)
    unfold rawOf
    split
    · exact .inl rfl
    · exact hwritten

/-! ## §5. The printed target. -/

/-- A byte the parts before the query do not have: it is escaped wherever it
would stand. -/
structure Absent (c : UInt8) : Prop where
  path : shouldEscape c .path = true
  host : shouldEscape c .host = true
  user : shouldEscape c .userPassword = true
  written : c ∉ ascii "!$&'()*+,;=:@[]%"
  ne_percent : c ≠ percent
  not_hex : isHex c = false
  ne_at : c ≠ atSign
  ne_colon : c ≠ colon

theorem absent_openBrace : Absent openBrace := by constructor <;> decide +kernel
theorem absent_questionMark : Absent questionMark := by constructor <;> decide +kernel
theorem absent_hash : Absent hash := by constructor <;> decide +kernel

variable {c : UInt8} {u : Url}

theorem Absent.not_mem_user (h : Absent c) (user : Option Userinfo) : c ∉ Url.printUser user := by
  have hesc := not_mem_escape h.user h.ne_percent h.not_hex
  cases user with
  | none => exact not_mem_nil
  | some user =>
    obtain ⟨username, password⟩ := user
    unfold Url.printUser Userinfo.print
    cases password with
    | none => simp [hesc, h.ne_at]
    | some p => simp [hesc, h.ne_at, h.ne_colon]

theorem slash_not_mem_user (user : Option Userinfo) : slash ∉ Url.printUser user := by
  have hesc : ∀ s, slash ∉ escape .userPassword s :=
    not_mem_escape (by decide +kernel) (by decide) (by decide)
  cases user with
  | none => exact not_mem_nil
  | some user =>
    obtain ⟨username, password⟩ := user
    have h₁ : slash ≠ atSign := by decide
    have h₂ : slash ≠ colon := by decide
    unfold Url.printUser Userinfo.print
    cases password with
    | none => simp [hesc, h₁]
    | some p => simp [hesc, h₁, h₂]

/-- A printed path: what it decodes to, and what is not in it. -/
theorem escaped_path (raw p : Bytes) :
    unescape .path (escaped .path raw p) = some p ∧ ∀ {c}, Absent c → c ∉ escaped .path raw p := by
  unfold escaped
  split
  · rename_i hraw
    obtain ⟨-, hvalid, hdec⟩ := hraw
    refine ⟨hdec, fun {c} hc hmem => ?_⟩
    unfold validEncoded at hvalid
    have hb := all_eq_true.1 hvalid c hmem
    have hlist : (ascii "!$&'()*+,;=:@[]%").contains c = false := by
      simpa using hc.written
    rw [hlist, hc.path] at hb
    cases hb
  · exact ⟨unescape_eq_some.2 ⟨unescapeOk_escape rfl p, decode_escape p⟩,
      fun hc => not_mem_escape hc.path hc.ne_percent hc.not_hex p⟩

/-- A target: a rooted path without dot segments. -/
structure IsTarget (u : Url) : Prop extends Parsed u where
  plain : Plain u.path

theorem isTarget_targetUrl (h : Parsed u) (path : Bytes) : IsTarget (targetUrl u path) := by
  obtain ⟨rest, hrest⟩ := joinPath_rooted h.path (trimPrefixSlash (cut questionMark path).1)
  have hplain : Plain (targetUrl u path).path := by
    show Plain (cleanRelayPath
      (joinPath (trimSuffixSlash u.path) (trimPrefixSlash (cut questionMark path).1)))
    rw [hrest]
    exact plain_cleanRelayPath
  exact ⟨⟨h.scheme, .inr hplain.rooted, h.rawPath⟩, hplain⟩

theorem IsTarget.escapedPath (h : IsTarget u) : u.escapedPath = escaped .path u.rawPath u.path := by
  unfold Url.escapedPath
  rw [if_neg]
  intro hstar
  obtain ⟨rest, hrest⟩ := h.plain.rooted
  rw [hrest] at hstar
  exact absurd hstar (by simp [slash])

theorem IsTarget.escapedPath_rooted (h : IsTarget u) : ∃ rest, u.escapedPath = slash :: rest := by
  rw [h.escapedPath]
  unfold escaped
  split
  · rename_i hraw
    exact h.rawPath.resolve_left hraw.1
  · obtain ⟨rest, hrest⟩ := h.plain.rooted
    rw [hrest]
    exact ⟨escape .path rest, rfl⟩

/-- The user and the host as they are printed. -/
def printedAuthority (u : Url) : Bytes := Url.printUser u.user ++ escape .host u.host

/-- The target up to and with its path. -/
def front (u : Url) : Bytes :=
  u.scheme ++ colon :: slash :: slash :: (printedAuthority u ++ u.escapedPath)

/-- The query and the fragment. -/
def back (u : Url) : Bytes := u.printQuery ++ u.printFragment

theorem IsTarget.print (h : IsTarget u) : u.print = front u ++ back u := by
  obtain ⟨rest, hrest⟩ := h.plain.rooted
  obtain ⟨rest', hrest'⟩ := h.escapedPath_rooted
  unfold Url.print Url.printAuthority Url.printPath front back printedAuthority
  rw [if_pos (.inr (.inl (by rw [hrest]; simp))), if_neg (by rw [hrest']; simp)]
  simp

theorem IsTarget.not_mem_front (h : IsTarget u) (hc : Absent c) (hslash : c ≠ slash)
    (hscheme : c ∉ http ∧ c ∉ https) : c ∉ front u := by
  have huser := hc.not_mem_user u.user
  have hhost := not_mem_escape hc.host hc.ne_percent hc.not_hex u.host
  have hpath : c ∉ u.escapedPath := by
    rw [h.escapedPath]
    exact (escaped_path u.rawPath u.path).2 hc
  have hs : c ∉ u.scheme := by
    rcases h.scheme with hs | hs
    · rw [hs]; exact hscheme.1
    · rw [hs]; exact hscheme.2
  unfold front printedAuthority
  simp [huser, hhost, hpath, hs, hslash, hc.ne_colon]

/-- The rest is empty, or begins with `?` or `#`. -/
theorem back_cases (u : Url) :
    back u = [] ∨ ∃ c rest, back u = c :: rest ∧ (c = questionMark ∨ c = hash) := by
  unfold back Url.printQuery Url.printFragment
  split
  · exact .inr ⟨questionMark, _, rfl, .inl rfl⟩
  · split
    · exact .inr ⟨hash, _, rfl, .inr rfl⟩
    · exact .inl rfl

/-! ## §6. Substituting in it. -/

theorem substitute_append {order : List (Bytes × Bytes)} {s : Bytes} (h : openBrace ∉ s)
    (t : Bytes) : substitute order (s ++ t) = s ++ substitute order t := by
  unfold substitute
  induction order generalizing t with
  | nil => rfl
  | cons pair order ih =>
    rw [map_cons, rewriteSeq_cons, rewriteSeq_cons, ← ih]
    congr 1
    -- a placeholder begins with a brace
    refine rewriteAll_append fun r hr b hb hsuf hpre => h ?_
    cases mem_singleton.1 hr
    obtain ⟨b₀, rest, rfl⟩ := exists_cons_of_ne_nil hb
    have hfirst : b₀ = openBrace := by
      have hcons : openBrace :: _ <+: b₀ :: (rest ++ t) := hpre
      exact (cons_prefix_cons.1 hcons).1.symm
    exact hfirst ▸ hsuf.subset mem_cons_self

theorem substitute_nil (order : List (Bytes × Bytes)) : substitute order [] = [] := by
  unfold substitute
  induction order with
  | nil => rfl
  | cons pair order ih => rw [map_cons, rewriteSeq_cons, rewriteAll_nil, ih]

/-- The credentials only touch what stands behind the `?` or `#`. -/
theorem substitute_target (h : IsTarget u) (order : List (Bytes × Bytes)) :
    ∃ tail, substitute order u.print = front u ++ tail ∧
      (tail = [] ∨ ∃ c rest, tail = c :: rest ∧ (c = questionMark ∨ c = hash)) := by
  have hfront : openBrace ∉ front u :=
    h.not_mem_front absent_openBrace (by decide) (by decide)
  rw [h.print, substitute_append hfront]
  refine ⟨_, rfl, ?_⟩
  rcases back_cases u with hnil | ⟨c, rest, hback, hc⟩
  · exact .inl (by rw [hnil, substitute_nil])
  · have hbrace : openBrace ∉ [c] := by
      rcases hc with rfl | rfl <;> decide
    refine .inr ⟨c, substitute order rest, ?_, hc⟩
    rw [hback]
    exact substitute_append hbrace rest

end Talus.Relay
