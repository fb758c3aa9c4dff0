/-
  Talus.Relay.Authority
  **A RELAYED REQUEST STAYS ON ITS SERVICE.**

  The target is printed, placeholders in it are replaced by secrets, and the
  text is parsed again.  Nothing a caller or a secret can say reaches the part
  before the `?` or `#`: the path is escaped there, and a secret only takes the
  place of braces, which that part does not have.  So the second parse finds
  the scheme, user, host and path that were printed.

    • `parse_front`: what is read back from a target with any query,
    • `relay_stays_on_service`: the request has the scheme and authority of the
      base URL and no dot segment in its path.
-/
import Talus.Relay.Target

namespace Talus.Relay

open Talus.Base List Option
open Talus.Base.Path (slash dot parts)

variable {ipv6 : Bytes → Bool} {u sent : Url} {tail : Bytes}

/-! ## §1. Reading a target back. -/

theorem cut_append_left {c : UInt8} {x : Bytes} (h : c ∉ x) (y : Bytes) :
    (cut c (x ++ y)).1 = x ++ (cut c y).1 := by
  unfold cut
  rw [takeWhile_append_of_pos (bne_of_not_mem h)]

theorem splitScheme_front (h : IsTarget u) (t : Bytes) :
    splitScheme (front u ++ t) = some (u.scheme, printedAuthority u ++ u.escapedPath ++ t) := by
  have hhttp : http = [104, 116, 116, 112] := by decide +kernel
  have hhttps : https = [104, 116, 116, 112, 115] := by decide +kernel
  have hone : ascii "http://" = [104, 116, 116, 112, 58, 47, 47] := by decide +kernel
  have htwo : ascii "https://" = [104, 116, 116, 112, 115, 58, 47, 47] := by decide +kernel
  unfold splitScheme front
  rw [hone, htwo]
  rcases h.scheme with hs | hs
  · rw [hs, hhttp]
    simp [colon, slash]
  · rw [hs, hhttps]
    simp [colon, slash]

/-- The text of the authority has no slash, and the path begins with one. -/
theorem authority_path (h : IsTarget u) :
    (printedAuthority u ++ u.escapedPath).takeWhile (· != slash) = printedAuthority u ∧
      (printedAuthority u ++ u.escapedPath).dropWhile (· != slash) = u.escapedPath := by
  have hno : ∀ b ∈ printedAuthority u, (b != slash) = true := bne_of_not_mem fun hb => by
    rcases mem_append.1 hb with hb | hb
    · exact slash_not_mem_user u.user hb
    · exact not_mem_escape (by decide +kernel) (by decide) (by decide) u.host hb
  obtain ⟨rest, hrest⟩ := h.escapedPath_rooted
  rw [takeWhile_append_of_pos hno, dropWhile_append_of_pos hno, hrest]
  simp

theorem IsTarget.hash_not_mem (h : IsTarget u) : hash ∉ front u :=
  h.not_mem_front absent_hash (by decide) (by decide)

theorem IsTarget.questionMark_not_mem (h : IsTarget u) :
    questionMark ∉ printedAuthority u ++ u.escapedPath := by
  intro hmem
  refine h.not_mem_front absent_questionMark (by decide) (by decide) ?_
  unfold front
  exact mem_append_right _ (mem_cons_of_mem _ (mem_cons_of_mem _ (mem_cons_of_mem _ hmem)))

/-- **What is read back**: behind the front of a target may stand anything that
begins with `?` or `#`. -/
theorem parse_front (h : IsTarget u)
    (htail : tail = [] ∨ ∃ c rest, tail = c :: rest ∧ (c = questionMark ∨ c = hash))
    (hparse : parse ipv6 (front u ++ tail) = some sent) :
    sent.scheme = u.scheme ∧ sent.user = u.user ∧ sent.host = u.host ∧ sent.path = u.path ∧
      sent.rawPath = rawOf .path u.escapedPath u.path := by
  -- before the fragment: the front, and perhaps a query
  obtain ⟨q, hq, hqcases⟩ : ∃ q, (cut hash (front u ++ tail)).1 = front u ++ q ∧
      (cut questionMark (printedAuthority u ++ u.escapedPath ++ q)).1 =
        printedAuthority u ++ u.escapedPath := by
    refine ⟨(cut hash tail).1, cut_append_left h.hash_not_mem tail, ?_⟩
    rw [cut_append_left h.questionMark_not_mem]
    rcases htail with rfl | ⟨c, rest, rfl, rfl | rfl⟩ <;> simp [cut, questionMark, hash]
  unfold parse at hparse
  simp only [bind_eq_bind, hq] at hparse
  split at hparse
  · cases hparse
  rw [splitScheme_front h] at hparse
  simp only [bind_some, hqcases, (authority_path h).1, (authority_path h).2,
    bind_eq_some_iff] at hparse
  obtain ⟨⟨user, host⟩, hauth, path, hpath, fragment, -, hsent⟩ := hparse
  cases hsent
  obtain ⟨huser, hhost⟩ := parseAuthority_print hauth
  have hpath' : path = u.path := by
    rw [h.escapedPath, (escaped_path u.rawPath u.path).1] at hpath
    exact (some.inj hpath).symm
  subst hpath'
  exact ⟨rfl, huser, hhost, rfl, rfl⟩

/-! ## §2. The request. -/

/-- A dot segment of the path as it goes on the wire would be one of the path
it means. -/
theorem escapedPath_plain (h : Plain u.path) :
    ∀ seg ∈ parts u.escapedPath, seg ≠ [dot] ∧ seg ≠ [dot, dot] := by
  have hstar : u.escapedPath = escaped .path u.rawPath u.path := by
    obtain ⟨rest, hrest⟩ := h.rooted
    unfold Url.escapedPath
    rw [if_neg (by rw [hrest]; simp [slash])]
  obtain ⟨hok, hdec⟩ := unescape_eq_some.1 (escaped_path u.rawPath u.path).1
  rw [← hstar] at hok hdec
  intro seg hseg
  constructor
  · intro hdot
    have hmem := segments_of_unescape (.inl hdot) hok hseg
    rw [hdec] at hmem
    exact (h.dots seg hmem).1 hdot
  · intro hdot
    have hmem := segments_of_unescape (.inr hdot) hok hseg
    rw [hdec] at hmem
    exact (h.dots seg hmem).2 hdot

/-- **Relay requests stay on the registered service.**  For every base URL,
every path and every credential map, in whatever order it is visited: the
request that is sent has the scheme, user and host of the base URL — a host
that ends with an empty port is sent without its colon — and no dot segment in
its path. -/
theorem relay_stays_on_service {baseURL path : Bytes} {order : List (Bytes × Bytes)}
    (hsent : relayTarget ipv6 baseURL path order = some sent) :
    ∃ base, parse ipv6 baseURL = some base ∧ sent.scheme = base.scheme ∧
      sent.user = base.user ∧ sent.host = removeEmptyPort base.host ∧
      ∀ seg ∈ parts sent.escapedPath, seg ≠ [dot] ∧ seg ≠ [dot, dot] := by
  unfold relayTarget buildTargetURL at hsent
  obtain ⟨target, htarget, hsent⟩ := bind_eq_some_iff.1 hsent
  obtain ⟨base, hparse, rfl⟩ := map_eq_some_iff.1 htarget
  have hu : IsTarget (targetUrl base path) := isTarget_targetUrl (parsed_of_parse hparse) path
  obtain ⟨tail, hsub, htail⟩ := substitute_target hu order
  unfold newRequest at hsent
  obtain ⟨read, hread, rfl⟩ := map_eq_some_iff.1 hsent
  rw [hsub] at hread
  obtain ⟨hscheme, huser, hhost, hpath, -⟩ := parse_front hu htail hread
  refine ⟨base, hparse, hscheme, huser, congrArg removeEmptyPort hhost, ?_⟩
  exact escapedPath_plain (by
    show Plain read.path
    rw [hpath]
    exact hu.plain)

/-- A path that looks like another host, with dots, and a secret with an `@`. -/
theorem relay_stays_on_service_hostile :
    ∃ sent base, relayTarget (fun _ => false) (ascii "https://api.test:8443/v1")
        (ascii "//evil.test/../../x?y=" ++ placeholder (ascii "k")) [(ascii "k", ascii "@evil.test/")]
          = some sent ∧
      parse (fun _ => false) (ascii "https://api.test:8443/v1") = some base ∧
      sent.scheme = base.scheme ∧ sent.user = base.user ∧
      sent.host = removeEmptyPort base.host ∧
      ∀ seg ∈ parts sent.escapedPath, seg ≠ [dot] ∧ seg ≠ [dot, dot] := by
  obtain ⟨sent, hsent⟩ : ∃ sent, relayTarget (fun _ => false) (ascii "https://api.test:8443/v1")
      (ascii "//evil.test/../../x?y=" ++ placeholder (ascii "k"))
      [(ascii "k", ascii "@evil.test/")] = some sent :=
    isSome_iff_exists.1 (by decide +kernel)
  obtain ⟨base, h⟩ := relay_stays_on_service hsent
  exact ⟨sent, base, hsent, h⟩

/-- Registration accepts a base URL with an empty port, and what is sent has
another authority. -/
theorem empty_port_not_sent :
    validBaseURL (ascii "https://api.test:/v1") = true ∧
    ∃ base sent, parse (fun _ => false) (ascii "https://api.test:/v1") = some base ∧
      relayTarget (fun _ => false) (ascii "https://api.test:/v1") (ascii "/x") [] = some sent ∧
      base.host = ascii "api.test:" ∧ sent.host = ascii "api.test" := by
  have hbase : (parse (fun _ => false) (ascii "https://api.test:/v1")).map Url.host =
      some (ascii "api.test:") := by decide +kernel
  have hsent : (relayTarget (fun _ => false) (ascii "https://api.test:/v1") (ascii "/x") []).map
      Url.host = some (ascii "api.test") := by decide +kernel
  obtain ⟨base, hparse, hhost⟩ := map_eq_some_iff.1 hbase
  obtain ⟨sent, hrelay, hhost'⟩ := map_eq_some_iff.1 hsent
  exact ⟨by decide +kernel, base, sent, hparse, hrelay, hhost, hhost'⟩

end Talus.Relay
