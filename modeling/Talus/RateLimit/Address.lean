/-
  Talus.RateLimit.Address
  **WHOSE QUOTA A LOGIN ATTEMPT USES.**

  Behind a proxy `clientIP` means to read the rightmost entry of
  `X-Forwarded-For`, the one the proxy has appended.  It asks the header for
  its first line only, so it does so exactly when the request has one line.
-/
import Talus.RateLimit.Window
import Talus.Settings.Config

namespace Talus.RateLimit

open List

/-! ## §1. The request. -/

/-- What the `utf8` package splits a string into: runes, and bytes that belong
to none. -/
inductive Symbol
  | rune (c : Char)
  | byte (b : UInt8)
  deriving DecidableEq, Repr

abbrev Text := List Symbol

def comma : Symbol := .rune ','
def colon : Symbol := .rune ':'
def blank : Symbol := .rune ' '
def leftBracket : Symbol := .rune '['
def rightBracket : Symbol := .rune ']'

def isSpace : Symbol → Bool
  | .rune c => Settings.isSpace c
  | .byte _ => false

/-- `strings.TrimSpace`. -/
def trimSpace (s : Text) : Text := (s.dropWhile isSpace).rdropWhile isSpace

/-- `net.SplitHostPort`, the host; `none` is its error. -/
def splitHostPort (s : Text) : Option Text :=
  if colon ∉ s then none
  else
    let host := s.reverse.dropWhile (· ≠ colon) |>.drop 1 |>.reverse
    match s with
    | [] => none
    | first :: rest =>
      if first = leftBracket then
        -- the bracket must close right before the last colon
        if host.getLast? = some rightBracket ∧ rightBracket ∉ host.dropLast then
          if leftBracket ∈ rest ∨ rightBracket ∈ s.drop host.length then none
          else some (host.dropLast.drop 1)
        else none
      else if colon ∈ host ∨ leftBracket ∈ s ∨ rightBracket ∈ s then none
      else some host

structure Request where
  /-- the lines of `X-Forwarded-For`, in order -/
  forwarded : List Text
  remoteAddr : Text

/-- `r.Header.Get("X-Forwarded-For")`: the first line. -/
def Request.get (r : Request) : Text := r.forwarded.head?.getD []

def remoteHost (r : Request) : Text := (splitHostPort r.remoteAddr).getD r.remoteAddr

def clientIP (r : Request) (trustProxy : Bool) : Text :=
  -- what follows the last comma, or all of it; empty if there is no header
  let ip := trimSpace (r.get.rtakeWhile (· ≠ comma))
  if trustProxy ∧ ip ≠ [] then ip else remoteHost r

/-- `IPRateLimiter.Limit`: whether the request is served. -/
def IPRateLimiter.limit (rl : IPRateLimiter Text) (r : Request) (now : Int) :
    Bool × IPRateLimiter Text :=
  rl.allow (clientIP r rl.trustProxy) now

/-! ## §2. The proxy. -/

/-- How the proxy adds its element: after a comma and some blanks at the end
of the last line, or on a line of its own. -/
inductive Append
  | lastLine (blanks : Nat)
  | furtherLine
  deriving DecidableEq

/-- The lines that arrive, from those the client sent. -/
def Append.proxied : Append → List Text → Text → List Text
  | .furtherLine, lines, element => lines ++ [element]
  | .lastLine blanks, lines, element =>
    match lines.getLast? with
    | none => [element]
    | some line =>
      lines.dropLast ++ [line ++ comma :: (List.replicate blanks blank ++ element)]

/-- The proxy leaves a single line. -/
def Append.OneLine (how : Append) (n : Nat) : Prop := n = 0 ∨ (n = 1 ∧ how ≠ .furtherLine)

variable {how : Append} {n : Nat} {element : Text} {lines : List Text}

theorem rtakeWhile_comma (hcomma : comma ∉ element) (s : Text) :
    (s ++ comma :: element).rtakeWhile (· ≠ comma) = element ∧
      element.rtakeWhile (· ≠ comma) = element := by
  have hpos : ∀ x ∈ element.reverse, decide (x ≠ comma) = true := fun x hx =>
    decide_eq_true (ne_of_mem_of_not_mem (mem_reverse.1 hx) hcomma)
  constructor
  · unfold List.rtakeWhile
    rw [reverse_append, reverse_cons, append_assoc, takeWhile_append_of_pos hpos]
    simp
  · exact rtakeWhile_eq_self_iff.2 fun x hx => hpos x (mem_reverse.2 hx)

/-- **One line**: what is read from it is the proxy's element. -/
theorem get_oneLine (hcomma : comma ∉ element) (h : how.OneLine lines.length) (remote : Text) :
    ∃ blanks, (Request.get ⟨how.proxied lines element, remote⟩).rtakeWhile (· ≠ comma) =
      List.replicate blanks blank ++ element := by
  rcases h with hnil | ⟨hone, hhow⟩
  · cases length_eq_zero_iff.1 hnil
    refine ⟨0, ?_⟩
    cases how <;> exact (rtakeWhile_comma hcomma []).2
  · obtain ⟨line, rfl⟩ := length_eq_one_iff.1 hone
    cases how with
    | furtherLine => exact absurd rfl hhow
    | lastLine blanks =>
      refine ⟨blanks, (rtakeWhile_comma ?_ line).1⟩
      rw [mem_append, not_or]
      exact ⟨fun hc => absurd (eq_of_mem_replicate hc) (by decide), hcomma⟩

/-- Several lines: the first is the client's. -/
theorem get_first {line : Text} (h : ¬ how.OneLine (line :: lines).length) (remote : Text) :
    Request.get ⟨how.proxied (line :: lines) element, remote⟩ = line := by
  cases how with
  | furtherLine => rfl
  | lastLine blanks =>
    cases lines with
    | nil => exact absurd (.inr ⟨rfl, nofun⟩) h
    | cons second lines =>
      simp [Request.get, Append.proxied, getLast?_eq_some_getLast]

theorem trimSpace_blanks (blanks : Nat) (s : Text) :
    trimSpace (List.replicate blanks blank ++ s) = trimSpace s := by
  unfold trimSpace
  rw [dropWhile_append_of_pos fun x hx => by
    rw [eq_of_mem_replicate hx]
    decide]

/-! ## §3. The identity. -/

theorem clientIP_oneLine (hcomma : comma ∉ element) (h : how.OneLine lines.length)
    (remote : Text) : clientIP ⟨how.proxied lines element, remote⟩ true =
      if trimSpace element ≠ [] then trimSpace element else (splitHostPort remote).getD remote := by
  obtain ⟨blanks, hget⟩ := get_oneLine hcomma h remote
  unfold clientIP
  rw [hget, trimSpace_blanks]
  simp only [true_and]
  rfl

/-- With several lines the client's first decides. -/
theorem clientIP_several {c : Char} (hc : c = 'a' ∨ c = 'b') (h : ¬ how.OneLine n)
    (element remote : Text) : ∃ lines : List Text, lines.length = n ∧
      clientIP ⟨how.proxied lines element, remote⟩ true = [.rune c] := by
  obtain ⟨m, rfl⟩ := Nat.exists_eq_succ_of_ne_zero fun hn => h (.inl hn)
  refine ⟨[.rune c] :: List.replicate m [], by simp, ?_⟩
  have hline : trimSpace (List.rtakeWhile (· ≠ comma) [.rune c]) = [.rune c] := by
    rcases hc with rfl | rfl <;> decide
  unfold clientIP
  rw [get_first (by simpa using h), hline]
  exact if_pos ⟨rfl, cons_ne_nil _ _⟩

/-- **The client address is the proxy's element exactly when one line
arrives.**  For every way the proxy appends a comma-free element to `n` lines
of the client: the identity is the element whatever the lines are, if and only
if the element is trimmed and one line arrives; the identity does not depend
on the lines if and only if one line arrives; and then requests that differ in
them share one quota. -/
theorem client_address_iff (how : Append) (n : Nat) (element : Text) (hne : element ≠ [])
    (hcomma : comma ∉ element) :
    ((∀ lines : List Text, lines.length = n → ∀ remote,
        clientIP ⟨how.proxied lines element, remote⟩ true = element) ↔
      trimSpace element = element ∧ how.OneLine n) ∧
    ((∀ lines lines' : List Text, lines.length = n → lines'.length = n → ∀ remote,
        clientIP ⟨how.proxied lines element, remote⟩ true =
          clientIP ⟨how.proxied lines' element, remote⟩ true) ↔ how.OneLine n) ∧
    (∀ lines lines' : List Text, how.OneLine lines.length → how.OneLine lines'.length →
      ∀ remote (rl : IPRateLimiter Text) now, rl.trustProxy = true →
        rl.limit ⟨how.proxied lines element, remote⟩ now =
          rl.limit ⟨how.proxied lines' element, remote⟩ now) := by
  have hshared : (∀ lines lines' : List Text, lines.length = n → lines'.length = n → ∀ remote,
      clientIP ⟨how.proxied lines element, remote⟩ true =
        clientIP ⟨how.proxied lines' element, remote⟩ true) ↔ how.OneLine n := by
    constructor
    · intro hsame
      by_contra hseveral
      obtain ⟨lines, hn, ha⟩ := clientIP_several (.inl rfl) hseveral element []
      obtain ⟨lines', hn', hb⟩ := clientIP_several (.inr rfl) hseveral element []
      have habsurd := ha.symm.trans ((hsame lines lines' hn hn' []).trans hb)
      exact absurd habsurd (by decide)
    · rintro hone lines lines' rfl hn' remote
      rw [clientIP_oneLine hcomma hone, clientIP_oneLine hcomma (hn' ▸ hone)]
  refine ⟨⟨fun hall => ?_, fun ⟨htrim, hone⟩ lines hn remote => ?_⟩, hshared,
    fun lines lines' h h' remote rl now htrust => ?_⟩
  · have hone := hshared.1 fun lines lines' hn hn' remote =>
      (hall lines hn remote).trans (hall lines' hn' remote).symm
    refine ⟨?_, hone⟩
    -- an element of spaces only would be read as the remote host, which is anything
    have hempty : how.OneLine (List.replicate n ([] : Text)).length := by simpa using hone
    have hread := fun remote => (clientIP_oneLine hcomma hempty remote).symm.trans
      (hall _ length_replicate remote)
    by_cases hspaces : trimSpace element = []
    · have ha := hread [.rune 'a']
      have hb := hread [.rune 'b']
      rw [hspaces, if_neg (by simp)] at ha hb
      exact absurd (ha.trans hb.symm) (by decide)
    · have htrim := hread []
      rwa [if_pos hspaces] at htrim
  · rw [clientIP_oneLine hcomma (hn ▸ hone), htrim, if_pos hne]
  · unfold IPRateLimiter.limit
    rw [htrust, clientIP_oneLine hcomma h, clientIP_oneLine hcomma h']

theorem client_address_iff_extended : ∃ element : Text, element ≠ [] ∧ comma ∉ element ∧
    ∀ line remote : Text,
      clientIP ⟨(Append.lastLine 1).proxied [line] element, remote⟩ true = element :=
  ⟨[.rune '9'], by decide, by decide, fun line remote =>
    (client_address_iff (.lastLine 1) 1 [.rune '9'] (by decide) (by decide)).1.2
      ⟨by decide, .inr ⟨rfl, by decide⟩⟩ [line] rfl remote⟩

/-- The client sends the line `6` and the proxy adds its own, `9`: the client
has chosen its identity. -/
theorem client_chooses_identity :
    clientIP ⟨Append.furtherLine.proxied [[.rune '6']] [.rune '9'], []⟩ true = [.rune '6'] := by
  decide

end Talus.RateLimit
