/-
  Talus.Settings.Config
  **THE ADMINISTRATOR'S SETTINGS, MERGED OVER THE DEPLOYMENT'S.**

  `config.MergeSettings` applies a sparse document of overrides to the
  configuration the environment gives, and validates the result as a whole.
  An override is a JSON value, here the token its text holds; a Go map is an
  `AList` ranged over in the order of its entries, which `mergeSettings_perm`
  shows not to matter.

  Main results:
    • `mergeSettings_ok_iff` — what a successful merge is, entry by entry,
    • `mergeSettings_canonical_iff` — the merged values, encoded again, merge
      to the same configuration exactly when the Hub URL has settled,
    • `settled_iff`, `hubUrl_settled_iff` — and it has unless trimming the
      slashes off the text in the document bares a space.
-/
import Mathlib.Algebra.GroupWithZero.Nat
import Mathlib.Algebra.Order.BigOperators.Group.List
import Mathlib.Algebra.Order.Group.Nat
import Mathlib.Data.List.AList
import Mathlib.Data.List.DropRight

namespace Talus.Settings

open List Option Function

/-! ## §1. The table of settings. -/

/-- The fields of `Config` that `Settings` lists. -/
inductive Field
  | agentHubUrl | monitorInterval | agentAllowHttp
  | sshTimeout | sshMaxIdle
  | execTimeout | execTimeoutMax | execOutputLimit | execOutputStreamLimit
  | usageRetentionDays | usageSensitiveRetentionDays
  | metricsRetentionEnabled | metricsRetentionDryRun
  | loginRateLimit | logLevel | logFormat
  | dbMaxOpenConnections | usageWriteConcurrency | usageActiveLimit
  deriving DecidableEq, Repr

inductive Kind
  | string | number | boolean
  deriving DecidableEq, Repr

/-- The Go type of a setting of this kind. -/
def Kind.Value : Kind → Type
  | .string => List Char
  | .number => Int
  | .boolean => Bool

inductive Apply
  | agent | nextOperation | maintenance | live | restart
  deriving DecidableEq, Repr

structure Setting where
  key : String
  kind : Kind
  apply : Apply
  min : Int := 0
  max : Int := 0
  choices : List (List Char) := []
  deriving Repr

/-- `Settings`, by field. -/
def Field.setting : Field → Setting
  | .agentHubUrl => { key := "AGENT_HUB_URL", kind := .string, apply := .agent }
  | .monitorInterval =>
    { key := "MONITOR_INTERVAL", kind := .number, apply := .agent, min := 1, max := 60 }
  | .agentAllowHttp => { key := "AGENT_ALLOW_HTTP", kind := .boolean, apply := .agent }
  | .sshTimeout =>
    { key := "SSH_TIMEOUT", kind := .number, apply := .nextOperation, min := 1, max := 300 }
  | .sshMaxIdle =>
    { key := "SSH_MAX_IDLE", kind := .number, apply := .nextOperation, min := 1, max := 86400 }
  | .execTimeout =>
    { key := "EXEC_TIMEOUT", kind := .number, apply := .nextOperation, min := 1, max := 300 }
  | .execTimeoutMax =>
    { key := "EXEC_TIMEOUT_MAX", kind := .number, apply := .nextOperation, min := 1, max := 300 }
  | .execOutputLimit =>
    { key := "EXEC_OUTPUT_LIMIT", kind := .number, apply := .nextOperation
      min := 1, max := 8388608 }
  | .execOutputStreamLimit =>
    { key := "EXEC_OUTPUT_STREAM_LIMIT", kind := .number, apply := .nextOperation
      min := 1, max := 4194304 }
  | .usageRetentionDays =>
    { key := "USAGE_LOG_RETENTION_DAYS", kind := .number, apply := .maintenance
      min := 1, max := 36500 }
  | .usageSensitiveRetentionDays =>
    { key := "USAGE_LOG_SENSITIVE_RETENTION_DAYS", kind := .number, apply := .maintenance
      min := 1, max := 36500 }
  | .metricsRetentionEnabled =>
    { key := "METRICS_RETENTION_ENABLED", kind := .boolean, apply := .maintenance }
  | .metricsRetentionDryRun =>
    { key := "METRICS_RETENTION_DRY_RUN", kind := .boolean, apply := .maintenance }
  | .loginRateLimit =>
    { key := "LOGIN_RATE_LIMIT", kind := .number, apply := .live, min := 1, max := 10000 }
  | .logLevel =>
    { key := "LOG_LEVEL", kind := .string, apply := .live
      choices := ["debug".toList, "info".toList, "warn".toList, "error".toList] }
  | .logFormat =>
    { key := "LOG_FORMAT", kind := .string, apply := .live
      choices := ["json".toList, "text".toList] }
  | .dbMaxOpenConnections =>
    { key := "DB_MAX_OPEN_CONNECTIONS", kind := .number, apply := .restart
      min := 12, max := 10000 }
  | .usageWriteConcurrency =>
    { key := "USAGE_LOG_WRITE_CONCURRENCY", kind := .number, apply := .restart
      min := 1, max := 10000 }
  | .usageActiveLimit =>
    { key := "USAGE_LOG_ACTIVE_LIMIT", kind := .number, apply := .restart
      min := 1, max := 1000000 }

/-- The order of `Settings`. -/
def fields : List Field :=
  [.agentHubUrl, .monitorInterval, .agentAllowHttp, .sshTimeout, .sshMaxIdle, .execTimeout,
    .execTimeoutMax, .execOutputLimit, .execOutputStreamLimit, .usageRetentionDays,
    .usageSensitiveRetentionDays, .metricsRetentionEnabled, .metricsRetentionDryRun,
    .loginRateLimit, .logLevel, .logFormat, .dbMaxOpenConnections, .usageWriteConcurrency,
    .usageActiveLimit]

namespace Field

def key (f : Field) : String := f.setting.key

def kind (f : Field) : Kind := f.setting.kind

end Field

/-- `known[key]`. -/
def known (key : String) : Option Field := fields.find? fun f => f.key == key

theorem known_key (f : Field) : known f.key = some f := by
  cases f <;> decide +kernel

variable {f : Field}

theorem key_of_known {key : String} (h : known key = some f) : f.key = key := by
  have := find?_some h
  simpa using this

theorem key_injective {g : Field} (h : f.key = g.key) : f = g := by
  have hf := known_key f
  rw [h, known_key g] at hf
  exact (some.inj hf).symm

/-! ## §2. Configurations. -/

/-- `SettingValidationError`. -/
structure SettingError where
  key : String
  message : String
  deriving DecidableEq, Repr

/-- Errors joined; `errors.As` finds the first. -/
abbrev Failure := List SettingError

def invalidSetting {α : Type} (key message : String) : Except Failure α :=
  .error [⟨key, message⟩]

structure Config where
  setting : (f : Field) → f.kind.Value
  bootstrapToken : String
  jwtSecret : String
  masterKey : String
  settingsRecoveryParseError : Option SettingError
  monitorToleratedRounds : Int
  monitorAllowedLatency : Int
  /-- no error when empty -/
  metricsRetentionParseError : Failure
  metricsRetentionParseErrors : Option (List (String × SettingError))
  settingsIgnoreInvalidOverrides : Bool

namespace Config

def agentHubUrl (c : Config) : List Char := c.setting .agentHubUrl
def monitorInterval (c : Config) : Int := c.setting .monitorInterval
def agentAllowHttp (c : Config) : Bool := c.setting .agentAllowHttp
def sshTimeout (c : Config) : Int := c.setting .sshTimeout
def execTimeout (c : Config) : Int := c.setting .execTimeout
def execTimeoutMax (c : Config) : Int := c.setting .execTimeoutMax
def execOutputLimit (c : Config) : Int := c.setting .execOutputLimit
def execOutputStreamLimit (c : Config) : Int := c.setting .execOutputStreamLimit
def usageRetentionDays (c : Config) : Int := c.setting .usageRetentionDays
def usageSensitiveRetentionDays (c : Config) : Int := c.setting .usageSensitiveRetentionDays
def metricsRetentionEnabled (c : Config) : Bool := c.setting .metricsRetentionEnabled
def metricsRetentionDryRun (c : Config) : Bool := c.setting .metricsRetentionDryRun
def loginRateLimit (c : Config) : Int := c.setting .loginRateLimit

end Config

/-! ## §3. Validation. -/

/-- What the checks read of a `url.URL`. -/
structure Url where
  scheme : String
  host : String
  /-- `User != nil` -/
  user : Bool
  rawQuery : String
  fragment : String
  deriving DecidableEq, Repr

/-- `agentwire.Config`. -/
structure AgentConfig where
  hubUrl : List Char
  token : List Char
  stateDir : String
  intervalSeconds : Int
  allowHttp : Bool

def isHex (c : Char) : Bool :=
  ('0' ≤ c && c ≤ '9') || ('a' ≤ c && c ≤ 'f') || ('A' ≤ c && c ≤ 'F')

/-- `u.Scheme != "https" && (!c.AllowHTTP || u.Scheme != "http")` and the
checks before it. -/
def Url.refused (u : Url) (allowHttp : Bool) : Bool :=
  u.host == "" || u.user || u.rawQuery != "" || u.fragment != "" ||
    (u.scheme != "https" && (!allowHttp || u.scheme != "http"))

/-- `url.Parse`: a URL, or an error. -/
abbrev UrlParser := List Char → Option Url

variable (parse : UrlParser)

def AgentConfig.validate (c : AgentConfig) : Except String Unit :=
  if (parse c.hubUrl).all fun u => u.refused c.allowHttp then
    .error "agent Hub URL must be HTTPS (HTTP requires explicit opt-in), without credentials, query or fragment"
  else if c.token.length ≠ 64 ∨ c.stateDir = "" ∨ c.intervalSeconds < 1 ∨ c.intervalSeconds > 60 then
    .error "invalid agent configuration"
  else if c.token.all isHex = false then .error "invalid agent token"
  else .ok ()

namespace Config

/-- What database settings cannot repair. -/
def validateDeployment (c : Config) : Except Failure Unit :=
  if c.bootstrapToken ≠ "" ∧
      (c.bootstrapToken.utf8ByteSize < 32 ∨ c.bootstrapToken.utf8ByteSize > 256) then
    invalidSetting "BOOTSTRAP_TOKEN" "must be empty or contain 32 to 256 bytes"
  else if c.bootstrapToken ≠ "" ∧
      (c.bootstrapToken = c.jwtSecret ∨ c.bootstrapToken = c.masterKey) then
    invalidSetting "BOOTSTRAP_TOKEN" "must be independent from JWT_SECRET and VPSMANAGER_MASTER_KEY"
  else match c.settingsRecoveryParseError with
    | some e => .error [e]
    | none =>
      if c.monitorToleratedRounds < 0 then
        invalidSetting "MONITOR_TOLERATED_ROUNDS" "must not be negative"
      else if c.monitorAllowedLatency < 0 then
        invalidSetting "MONITOR_ALLOWED_LATENCY_SECONDS" "must not be negative"
      else .ok ()

/-- The node configuration `Validate` builds around the Hub URL. -/
def agentConfig (c : Config) : AgentConfig :=
  ⟨c.agentHubUrl, List.replicate 64 '0', "/configured-at-install", c.monitorInterval,
    c.agentAllowHttp⟩

def validateHubUrl (c : Config) : Except Failure Unit :=
  if c.agentHubUrl = [] then .ok ()
  else match c.agentConfig.validate parse with
    | .error e => invalidSetting "AGENT_HUB_URL" e
    | .ok () => .ok ()

def validateLimits (c : Config) : Except Failure Unit :=
  if c.execTimeout ≤ 0 then
    invalidSetting "EXEC_TIMEOUT" s!"must be positive, got {c.execTimeout}"
  else if c.execTimeoutMax ≤ 0 ∨ c.execTimeoutMax < c.execTimeout ∨ c.execTimeoutMax > 300 then
    invalidSetting "EXEC_TIMEOUT_MAX"
      s!"must be positive, >= EXEC_TIMEOUT and <= 300, got {c.execTimeoutMax}/{c.execTimeout}"
  else if c.execOutputLimit ≤ 0 ∨ c.execOutputLimit > 8388608 then
    invalidSetting "EXEC_OUTPUT_LIMIT"
      s!"must be positive and <= 8388608, got {c.execOutputLimit}"
  else if c.execOutputStreamLimit ≤ 0 ∨ c.execOutputStreamLimit > c.execOutputLimit ∨
      c.execOutputStreamLimit > 4194304 then
    invalidSetting "EXEC_OUTPUT_STREAM_LIMIT"
      s!"must be positive, <= EXEC_OUTPUT_LIMIT and <= 4194304, got {c.execOutputStreamLimit}/{c.execOutputLimit}"
  else if c.sshTimeout ≤ 0 then
    invalidSetting "SSH_TIMEOUT" s!"must be positive, got {c.sshTimeout}"
  else if c.loginRateLimit < 0 then
    invalidSetting "LOGIN_RATE_LIMIT" s!"must not be negative, got {c.loginRateLimit}"
  else .ok ()

def validate (c : Config) : Except Failure Unit := do
  c.validateDeployment
  if c.monitorInterval ≤ 0 then
    invalidSetting "MONITOR_INTERVAL" s!"must be a positive integer, got {c.monitorInterval}"
  c.validateHubUrl parse
  if c.metricsRetentionParseError ≠ [] then throw c.metricsRetentionParseError
  c.validateLimits

end Config

/-! ## §4. Decoding and encoding one override. -/

/-- A `json.RawMessage`: the token its text holds. -/
inductive Raw
  | null
  | bool (b : Bool)
  /-- a number without fraction and exponent -/
  | integer (v : Int)
  /-- any other number -/
  | fraction
  | string (s : List Char)
  | array
  | object
  deriving DecidableEq, Repr

/-- `unicode.IsSpace`. -/
def isSpace (c : Char) : Bool :=
  c.toNat ∈ [0x09, 0x0A, 0x0B, 0x0C, 0x0D, 0x20, 0x85, 0xA0, 0x1680, 0x2028, 0x2029, 0x202F,
    0x205F, 0x3000] || (0x2000 ≤ c.toNat && c.toNat ≤ 0x200A)

/-- `strings.TrimSpace`. -/
def trimSpace (s : List Char) : List Char := (s.dropWhile isSpace).rdropWhile isSpace

/-- `strings.TrimRight(s, "/")`. -/
def trimSlashes (s : List Char) : List Char := s.rdropWhile (· == '/')

/-- `len(s)` of a Go string. -/
def byteLength (s : List Char) : Nat := (s.map Char.utf8Size).sum

/-- `AGENT_HUB_URL` is trimmed, the other strings are kept. -/
def canonical (f : Field) (v : List Char) : List Char :=
  if f = .agentHubUrl then trimSlashes (trimSpace v) else v

def decodeString (f : Field) : Raw → Except String (List Char)
  | .string v =>
    if byteLength v > 2048 then .error "invalid string"
    else if f.setting.choices ≠ [] ∧ canonical f v ∉ f.setting.choices then
      .error "invalid choice"
    else .ok (canonical f v)
  | _ => .error "invalid string"

def decodeBool : Raw → Except String Bool
  | .bool b => .ok b
  | _ => .error "expected boolean"

/-- The bounds lie in the range of an int64, so a literal outside it is
refused with the same message. -/
def decodeNumber (d : Setting) : Raw → Except String Int
  | .integer v =>
    if v < d.min ∨ v > d.max then .error s!"expected integer in [{d.min}, {d.max}]" else .ok v
  | _ => .error s!"expected integer in [{d.min}, {d.max}]"

def decodeKind (f : Field) (raw : Raw) : (kind : Kind) → Except String kind.Value
  | .string => decodeString f raw
  | .boolean => decodeBool raw
  | .number => decodeNumber f.setting raw

/-- `switch d.Kind`. -/
def decode (f : Field) (raw : Raw) : Except String f.kind.Value := decodeKind f raw f.kind

def encodeKind : (kind : Kind) → kind.Value → Raw
  | .string, v => .string v
  | .boolean, b => .bool b
  | .number, v => .integer v

/-- `json.Marshal(SettingValue(c, d))`. -/
def encode (f : Field) (v : f.kind.Value) : Raw := encodeKind f.kind v

theorem encode_ne_null (f : Field) (v : f.kind.Value) : encode f v ≠ .null := by
  unfold encode
  generalize f.kind = kind at v ⊢
  cases kind <;> intro h <;> cases h

/-! ## §5. Trimming twice. -/

/-- The Hub URL `u` is left alone by another round of trimming. -/
def Settled (u : List Char) : Prop := trimSlashes (trimSpace u) = u

/-- Trimming the slashes off the Hub URL `u` bares a space at its end. -/
def baresSpace (u : List Char) : Bool := (trimSlashes (trimSpace u)).getLast?.any isSpace

/-- What is left of a text begins with no space. -/
theorem dropWhile_trimmed (u : List Char) :
    (trimSlashes (trimSpace u)).dropWhile isSpace = trimSlashes (trimSpace u) := by
  have hpre : trimSlashes (trimSpace u) <+: u.dropWhile isSpace :=
    ( rdropWhile_prefix _ _).trans ( rdropWhile_prefix _ _)
  cases hv : trimSlashes (trimSpace u) with
  | nil => rfl
  | cons c v =>
    obtain ⟨t, ht⟩ := hv ▸ hpre
    have hne : u.dropWhile isSpace ≠ [] := by rw [← ht]; simp
    have hc : isSpace c = false := by
      have := head_dropWhile_not isSpace hne
      simpa only [← ht, cons_append, head_cons] using this
    rw [dropWhile_cons_of_neg (by simp [hc])]

/-- **A trimmed URL has settled** unless a space was bared. -/
theorem settled_iff (u : List Char) :
    Settled (trimSlashes (trimSpace u)) ↔ baresSpace u = false := by
  unfold Settled baresSpace
  have hslashes : trimSlashes (trimSlashes (trimSpace u)) = trimSlashes (trimSpace u) :=
    rdropWhile_idempotent _ _
  have hspace : trimSpace (trimSlashes (trimSpace u)) =
      (trimSlashes (trimSpace u)).rdropWhile isSpace := by
    rw [trimSpace, dropWhile_trimmed]
  generalize trimSlashes (trimSpace u) = v at hslashes hspace ⊢
  have hlast : v.rdropWhile isSpace = v ↔ v.getLast?.any isSpace = false := by
    rw [rdropWhile_eq_self_iff]
    cases h : v.getLast? with
    | none => simp [getLast?_eq_none_iff.1 h]
    | some c =>
      have hne : v ≠ [] := by rintro rfl; cases h
      have hc : v.getLast hne = c := by rwa [getLast?_eq_some_getLast hne, some.injEq] at h
      simp [hne, hc]
  rw [hspace, ← hlast]
  constructor
  · intro h
    -- both trims only shorten
    have hle := ( rdropWhile_prefix (· == '/') (v.rdropWhile isSpace)).length_le
    have hpre := rdropWhile_prefix isSpace v
    refine hpre.eq_of_length (Nat.le_antisymm hpre.length_le ?_)
    rwa [show (v.rdropWhile isSpace).rdropWhile (· == '/') = v from h] at hle
  · intro h
    rw [h, hslashes]

/-! ## §6. An override, encoded again. -/

theorem byteLength_canonical_le (f : Field) (v : List Char) :
    byteLength (canonical f v) ≤ byteLength v := by
  unfold canonical byteLength
  split
  · have hsub : (trimSlashes (trimSpace v)).Sublist v := by
      unfold trimSlashes trimSpace
      exact (( rdropWhile_prefix _ _).trans ( rdropWhile_prefix _ _)).sublist.trans
        (dropWhile_sublist _)
    exact (hsub.map Char.utf8Size).sum_le_sum fun _ _ => Nat.zero_le _
  · exact Nat.le_refl _

/-- The value is its own canonical form. -/
def Stable (f : Field) : (kind : Kind) → kind.Value → Prop
  | .string, v => canonical f v = v
  | .boolean, _ => True
  | .number, _ => True

theorem decodeString_again {raw : Raw} {v : List Char} (h : decodeString f raw = .ok v) :
    decodeString f (.string v) = .ok v ↔ canonical f v = v := by
  cases raw with
  | string s =>
    simp only [decodeString] at h
    split at h
    · cases h
    rename_i hlen
    split at h
    · cases h
    rename_i hchoice
    cases h
    have hlen' : ¬ byteLength (canonical f s) > 2048 := by
      have := byteLength_canonical_le f s
      omega
    simp only [decodeString]
    rw [if_neg hlen']
    constructor
    · intro h
      split at h
      · cases h
      · exact Except.ok.inj h
    · intro h
      rw [h, if_neg hchoice]
  | _ => cases h

theorem decodeKind_again {raw : Raw} : ∀ {kind : Kind} {v : kind.Value},
    decodeKind f raw kind = .ok v →
      (decodeKind f (encodeKind kind v) kind = .ok v ↔ Stable f kind v)
  | .string, _, h => decodeString_again h
  | .boolean, _, _ => iff_of_true rfl trivial
  | .number, v, h => by
      cases raw with
      | integer n =>
        simp only [decodeKind, decodeNumber] at h
        split at h
        · cases h
        rename_i hbounds
        cases h
        refine iff_of_true ?_ trivial
        show decodeNumber f.setting (.integer v) = .ok v
        simp only [decodeNumber]
        rw [if_neg hbounds]
      | _ => cases h

theorem canonical_of_ne (h : f ≠ .agentHubUrl) (v : List Char) : canonical f v = v := by
  unfold canonical
  rw [if_neg h]

/-- Only the Hub URL has a canonical form of its own. -/
theorem stable_of_ne (h : f ≠ .agentHubUrl) :
    ∀ (kind : Kind) (v : kind.Value), Stable f kind v
  | .string, v => canonical_of_ne h v
  | .boolean, _ => trivial
  | .number, _ => trivial

/-! ## §7. Merging. -/

/-- `map[string]json.RawMessage`. -/
abbrev Overrides := AList fun _ : String => Raw

/-- The parse errors of the environment that no override supersedes. -/
def remainingParseErrors (base : Config) (values : Overrides) : Failure :=
  match base.metricsRetentionParseErrors with
  | none => base.metricsRetentionParseError
  | some errors => (errors.filter fun e => decide (e.1 ∉ values)).map Prod.snd

/-- The body of the loop over the overrides. -/
def applyOverride (result : Config) (entry : (_ : String) × Raw) : Except Failure Config :=
  match known entry.1 with
  | none => invalidSetting entry.1 "unknown setting"
  | some f =>
    if entry.2 = .null then invalidSetting entry.1 "null is not a stored override"
    else match decode f entry.2 with
      | .error message => invalidSetting entry.1 message
      | .ok v => .ok { result with setting := Function.update result.setting f v }

def mergeSettings (base : Config) (values : Overrides) : Except Failure Config := do
  let result ← values.entries.foldlM applyOverride
    { base with metricsRetentionParseError := remainingParseErrors base values }
  result.validate parse
  return result

/-- What an entry of the document sets. -/
structure Sets (entry : (_ : String) × Raw) (f : Field) (v : f.kind.Value) : Prop where
  known : known entry.1 = some f
  nonnull : entry.2 ≠ .null
  decoded : decode f entry.2 = .ok v

variable {c : Config}

theorem applyOverride_ok {result : Config} {entry : (_ : String) × Raw}
    (h : applyOverride result entry = .ok c) :
    ∃ f v, Sets entry f v ∧ c = { result with setting := Function.update result.setting f v } := by
  unfold applyOverride at h
  cases hk : known entry.1 with
  | none => rw [hk] at h; cases h
  | some f =>
    rw [hk] at h
    dsimp only at h
    split at h
    · cases h
    rename_i hnull
    cases hd : decode f entry.2 with
    | error message => rw [hd] at h; cases h
    | ok v =>
      rw [hd] at h
      cases h
      exact ⟨f, v, ⟨hk, hnull, hd⟩, rfl⟩

theorem applyOverride_sets {result : Config} {entry : (_ : String) × Raw}
    {v : f.kind.Value} (h : Sets entry f v) :
    applyOverride result entry =
      .ok { result with setting := Function.update result.setting f v } := by
  unfold applyOverride
  rw [h.known]
  dsimp only
  rw [if_neg h.nonnull, h.decoded]

/-- The configuration `c` after the entries `es` were applied to `start`. -/
structure Applied (start : Config) (es : List ((_ : String) × Raw)) (c : Config) : Prop where
  set : ∀ e ∈ es, ∃ f, Sets e f (c.setting f)
  kept : ∀ f, f.key ∉ es.keys → c.setting f = start.setting f
  rest : c = { start with setting := c.setting }

theorem applied_of_foldlM : ∀ {es : List ((_ : String) × Raw)} {start c : Config},
    es.NodupKeys → es.foldlM applyOverride start = .ok c → Applied start es c
  | [], start, c, _, h => by
      cases h
      exact ⟨by simp, fun _ _ => rfl, rfl⟩
  | e :: es, start, c, hnodup, h => by
      rw [List.foldlM_cons] at h
      cases he : applyOverride start e with
      | error x => rw [he] at h; cases h
      | ok next =>
        rw [he] at h
        obtain ⟨f, v, hsets, rfl⟩ := applyOverride_ok he
        rw [List.nodupKeys_cons] at hnodup
        have ih := applied_of_foldlM hnodup.2 h
        have hkey : f.key = e.1 := key_of_known hsets.known
        -- no later entry touches the field, its key being used up
        have hv : c.setting f = v := by
          rw [ih.kept f (hkey ▸ hnodup.1)]
          exact update_self _ _ _
        refine ⟨?_, ?_, ih.rest⟩
        · intro e' he'
          rcases mem_cons.1 he' with rfl | he'
          · exact ⟨f, hv ▸ hsets⟩
          · exact ih.set e' he'
        · intro g hg
          rw [keys_cons, mem_cons, not_or] at hg
          rw [ih.kept g hg.2]
          refine update_of_ne ?_ _ _
          rintro rfl
          exact hg.1 hkey

theorem foldlM_of_applied : ∀ {es : List ((_ : String) × Raw)} {start c : Config},
    es.NodupKeys → Applied start es c → es.foldlM applyOverride start = .ok c
  | [], start, c, _, h => by
      have hset : c.setting = start.setting := funext fun f => h.kept f (by simp)
      rw [h.rest, hset]
      rfl
  | e :: es, start, c, hnodup, h => by
      obtain ⟨f, hsets⟩ := h.set e mem_cons_self
      have hkey : f.key = e.1 := key_of_known hsets.known
      rw [nodupKeys_cons] at hnodup
      rw [foldlM_cons, applyOverride_sets hsets]
      refine foldlM_of_applied hnodup.2 ⟨fun e' he' => h.set e' (mem_cons_of_mem e he'), ?_, ?_⟩
      · intro g hg
        by_cases hgf : g = f
        · subst hgf
          exact (update_self g _ start.setting).symm
        · have hne : g.key ≠ e.1 := fun heq => hgf (key_injective (heq.trans hkey.symm))
          rw [h.kept g (by simp [hne, hg])]
          exact (update_of_ne hgf _ start.setting).symm
      · exact h.rest

variable {base : Config} {values : Overrides}

/-- **What a successful merge is**: every entry is a known, non-null override
that decodes to the value the result has, every other field is the
deployment's, and the result is valid. -/
theorem mergeSettings_ok_iff :
    mergeSettings parse base values = .ok c ↔
      Applied { base with metricsRetentionParseError := remainingParseErrors base values }
        values.entries c ∧ c.validate parse = .ok () := by
  unfold mergeSettings
  constructor
  · intro h
    cases hf : values.entries.foldlM applyOverride
        { base with metricsRetentionParseError := remainingParseErrors base values } with
    | error e => rw [hf] at h; cases h
    | ok result =>
      rw [hf] at h
      cases hv : result.validate parse with
      | error e => simp [hv, bind, Except.bind] at h
      | ok u =>
        have hc : result = c := by
          simpa [hv, bind, Except.bind, pure, Except.pure] using h
        subst hc
        exact ⟨applied_of_foldlM values.nodupKeys hf, hv⟩
  · rintro ⟨happ, hv⟩
    rw [foldlM_of_applied values.nodupKeys happ]
    simp [hv, bind, Except.bind, pure, Except.pure]

/-- **The order in which a map is ranged over does not matter.** -/
theorem mergeSettings_perm {values' : Overrides}
    (hperm : values.entries.Perm values'.entries) (h : mergeSettings parse base values = .ok c) :
    mergeSettings parse base values' = .ok c := by
  rw [mergeSettings_ok_iff] at h ⊢
  have hmem : ∀ key : String, key ∈ values ↔ key ∈ values' := fun _ => AList.mem_of_perm hperm
  have hrest : remainingParseErrors base values = remainingParseErrors base values' := by
    unfold remainingParseErrors
    simp only [hmem]
  rw [← hrest]
  refine ⟨⟨fun e he => h.1.set e (hperm.mem_iff.2 he), fun f hf => h.1.kept f ?_, h.1.rest⟩, h.2⟩
  exact fun hkey => hf ((hmem f.key).1 hkey)

/-! ## §8. The document an update stores. -/

/-- Every override becomes the encoding of the merged value. -/
@[irreducible] def canonicalValues (desired : Config) (values : Overrides) : Overrides :=
  fields.foldl
    (fun vs f => if f.key ∈ vs then vs.insert f.key (encode f (desired.setting f)) else vs) values

theorem lookup_foldl_canonical (desired : Config) (g : String) :
    ∀ (fs : List Field) (vs : Overrides),
      (fs.foldl (fun vs f =>
          if f.key ∈ vs then vs.insert f.key (encode f (desired.setting f)) else vs) vs).lookup g =
        match fs.find? fun f => f.key == g with
        | some f => (vs.lookup g).map fun _ => encode f (desired.setting f)
        | none => vs.lookup g
  | [], vs => rfl
  | f :: fs, vs => by
      rw [List.foldl_cons, lookup_foldl_canonical desired g fs]
      by_cases hfg : f.key = g
      · subst hfg
        rw [List.find?_cons_of_pos (by simp)]
        have hsame : ∀ f', fs.find? (fun x => x.key == f.key) = some f' → f' = f := by
          intro f' hf'
          have hkey := find?_some hf'
          exact key_injective (beq_iff_eq.1 hkey)
        by_cases hmem : f.key ∈ vs
        · obtain ⟨raw, hraw⟩ := isSome_iff_exists.1 (AList.lookup_isSome.2 hmem)
          rw [if_pos hmem, AList.lookup_insert, hraw]
          cases hfind : fs.find? (fun x => x.key == f.key) with
          | none => rfl
          | some f' => rw [hsame f' hfind]; rfl
        · rw [if_neg hmem, AList.lookup_eq_none.2 hmem]
          cases fs.find? (fun x => x.key == f.key) <;> rfl
      · rw [find?_cons_of_neg (by simpa using hfg)]
        have hlook : (if f.key ∈ vs then vs.insert f.key (encode f (desired.setting f)) else
            vs).lookup g = vs.lookup g := by
          split
          · exact AList.lookup_insert_ne (Ne.symm hfg)
          · rfl
        rw [hlook]

variable {desired : Config}

/-- A known key keeps its place and gets its canonical value. -/
theorem lookup_canonicalValues {key : String} (hk : known key = some f) :
    (canonicalValues desired values).lookup key =
      (values.lookup key).map fun _ => encode f (desired.setting f) := by
  unfold canonicalValues
  rw [lookup_foldl_canonical]
  unfold known at hk
  rw [hk]

theorem mem_canonicalValues (desired : Config) (key : String) :
    key ∈ canonicalValues desired values ↔ key ∈ values := by
  rw [← AList.lookup_isSome, ← AList.lookup_isSome]
  unfold canonicalValues
  rw [lookup_foldl_canonical]
  cases fields.find? fun f => f.key == key with
  | none => exact Iff.rfl
  | some f => rw [isSome_map]

/-- The entries of the stored document, from those of the merged one. -/
theorem canonical_entry {parse : UrlParser}
    (h : mergeSettings parse base values = .ok desired) {e : (_ : String) × Raw}
    (he : e ∈ (canonicalValues desired values).entries) :
    ∃ f raw, known e.1 = some f ∧ decode f raw = .ok (desired.setting f) ∧
      e.2 = encode f (desired.setting f) := by
  have hlook : (canonicalValues desired values).lookup e.1 = some e.2 :=
    AList.mem_lookup_iff.2 he
  have hmem : e.1 ∈ values := by
    rw [← mem_canonicalValues desired, ← AList.lookup_isSome, hlook]
    rfl
  obtain ⟨raw, hraw⟩ := isSome_iff_exists.1 (AList.lookup_isSome.2 hmem)
  have hentry : (⟨e.1, raw⟩ : (_ : String) × Raw) ∈ values.entries := AList.mem_lookup_iff.1 hraw
  obtain ⟨f, hsets⟩ := ((mergeSettings_ok_iff parse).1 h).1.set _ hentry
  rw [lookup_canonicalValues hsets.known, hraw] at hlook
  exact ⟨f, raw, hsets.known, hsets.decoded, (some.inj hlook).symm⟩

/-- **The stored document merges to what its writer published exactly when the
Hub URL, if it is overridden, has settled.** -/
theorem mergeSettings_canonical_iff (h : mergeSettings parse base values = .ok desired) :
    mergeSettings parse base (canonicalValues desired values) = .ok desired ↔
      (Field.agentHubUrl.key ∈ values → Settled desired.agentHubUrl) := by
  constructor
  · intro hagain hmem
    have hkey : Field.agentHubUrl.key ∈ canonicalValues desired values :=
      (mem_canonicalValues desired _).2 hmem
    obtain ⟨raw, hraw⟩ := isSome_iff_exists.1 (AList.lookup_isSome.2 hkey)
    have hentry : (⟨_, raw⟩ : (_ : String) × Raw) ∈ (canonicalValues desired values).entries :=
      AList.mem_lookup_iff.1 hraw
    obtain ⟨f, raw₀, hk, hdecoded, hencoded⟩ := canonical_entry h hentry
    obtain ⟨g, hsets⟩ := ((mergeSettings_ok_iff parse).1 hagain).1.set _ hentry
    -- both readings of the entry are about the Hub URL
    have hf : f = .agentHubUrl := mem_unique hk (known_key _)
    have hg : g = f := mem_unique hsets.known hk
    subst hg hf
    have hd := hsets.decoded
    rw [hencoded] at hd
    exact (decodeKind_again hdecoded).1 hd
  · intro hsettled
    obtain ⟨happ, hvalid⟩ := (mergeSettings_ok_iff parse).1 h
    have hrest : remainingParseErrors base (canonicalValues desired values) =
        remainingParseErrors base values := by
      unfold remainingParseErrors
      simp only [mem_canonicalValues]
    rw [mergeSettings_ok_iff, hrest]
    refine ⟨⟨?_, ?_, happ.rest⟩, hvalid⟩
    · intro e he
      obtain ⟨f, raw, hk, hdecoded, hencoded⟩ := canonical_entry h he
      refine ⟨f, hk, hencoded ▸ encode_ne_null f _, ?_⟩
      have hstable : Stable f f.kind (desired.setting f) := by
        by_cases hf : f = .agentHubUrl
        · subst hf
          have hmem : e.1 ∈ values :=
            (mem_canonicalValues desired _).1 (AList.mem_keys.2 (mem_map.2 ⟨e, he, rfl⟩))
          exact hsettled (key_of_known hk ▸ hmem)
        · exact stable_of_ne hf _ _
      rw [hencoded]
      exact (decodeKind_again hdecoded).2 hstable
    · intro f hf
      refine happ.kept f fun hkey => hf ?_
      exact AList.mem_keys.1 ((mem_canonicalValues desired _).2 (AList.mem_keys.2 hkey))

/-- **The Hub URL of a merge has settled** exactly if trimming the text of the
document bares no space. -/
theorem hubUrl_settled_iff (h : mergeSettings parse base values = .ok desired) :
    (Field.agentHubUrl.key ∈ values → Settled desired.agentHubUrl) ↔
      ∀ u, values.lookup Field.agentHubUrl.key = some (.string u) → baresSpace u = false := by
  have htext : ∀ {raw}, values.lookup Field.agentHubUrl.key = some raw →
      ∃ u, raw = .string u ∧ desired.agentHubUrl = trimSlashes (trimSpace u) := by
    intro raw hraw
    obtain ⟨g, hsets⟩ := ((mergeSettings_ok_iff parse).1 h).1.set ⟨_, raw⟩
      (AList.mem_lookup_iff.1 hraw)
    have hg : g = .agentHubUrl := mem_unique hsets.known (known_key _)
    subst hg
    have hd : decodeString .agentHubUrl raw = .ok desired.agentHubUrl := hsets.decoded
    cases raw with
    | string u =>
      simp only [decodeString] at hd
      split at hd
      · cases hd
      split at hd
      · cases hd
      · exact ⟨u, rfl, (Except.ok.inj hd).symm⟩
    | _ => cases hd
  constructor
  · intro hsettled u hu
    obtain ⟨u', hraw, hurl⟩ := htext hu
    cases hraw
    rw [← settled_iff, ← hurl]
    exact hsettled (AList.lookup_isSome.1 (by rw [hu]; rfl))
  · intro hplain hmem
    obtain ⟨raw, hraw⟩ := isSome_iff_exists.1 (AList.lookup_isSome.2 hmem)
    obtain ⟨u, rfl, hurl⟩ := htext hraw
    rw [hurl, settled_iff]
    exact hplain u hraw

/-! ## §9. What a running Hub takes over. -/

/-- The capacities stay those of the start until the next restart. -/
def applyLive (desired boot : Config) : Config :=
  { desired with
    setting := fun f => if f.setting.apply = .restart then boot.setting f else desired.setting f }

theorem applyLive_self (c : Config) : applyLive c c = c := by
  unfold applyLive
  simp only [ite_self]

/-- Two starts with the same capacities. -/
def SameCapacities (boot boot' : Config) : Prop :=
  ∀ f : Field, f.setting.apply = .restart → boot.setting f = boot'.setting f

theorem applyLive_congr {boot boot' : Config} (h : SameCapacities boot boot') :
    applyLive desired boot = applyLive desired boot' := by
  unfold applyLive
  congr 1
  funext f
  split
  · rename_i hrestart
    exact h f hrestart
  · rfl

def retentionConfirmationRequired (before after : Config) : Bool :=
  after.usageRetentionDays < before.usageRetentionDays ||
    after.usageSensitiveRetentionDays < before.usageSensitiveRetentionDays ||
    (after.metricsRetentionEnabled && !after.metricsRetentionDryRun &&
      (!before.metricsRetentionEnabled || before.metricsRetentionDryRun))

end Talus.Settings
