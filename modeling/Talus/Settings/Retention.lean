/-
  Talus.Settings.Retention
  **RETENTION DAYS, FROM THE CONFIGURATION TO `Cleanup`.**

  `retentionPolicy` turns the two day counts of the running configuration into
  durations of 64 bits, and a nonpositive duration selects the default.
  `RetentionConfirmationRequired` compares the plain counts before that.  An
  override has at most 36500 days; the environment's counts have no upper
  bound, and from 106752 days on the product wraps.

    • `honours_iff`: the counts are honoured exactly when both products fit,
    • `usage_retention_honoured`: from a deployment whose counts fit, the counts
      in force are honoured after any updates and refreshes, and an unconfirmed
      update frees no row as long as the overrides in memory still merge,
    • `wrapped_retention_deletes`: 200000 days are kept for 30.
-/
import Talus.Settings.Convergence
import Talus.Usage.Cleanup

namespace Talus.Settings

open Talus.Base

/-! ## §1. The policy of a configuration. -/

/-- `time.Duration(days) * 24 * time.Hour`; the product wraps. -/
def daysDuration (days : Int) : Usage.Duration := (days * Usage.day).bmod (2 ^ 64)

/-- `UsageLogRepo.retentionPolicy`; `rest` is what else the repository is
configured with. -/
def retentionPolicy (rest : Usage.Config) (c : Config) : Usage.Config :=
  { rest with
    ordinaryRetention := daysDuration c.usageRetentionDays
    sensitiveRetention := daysDuration c.usageSensitiveRetentionDays }

/-- The day count configured for an action. -/
def Config.retentionDays (c : Config) (action : String) : Int :=
  if Usage.usageActionSensitive action then c.usageSensitiveRetentionDays
  else c.usageRetentionDays

/-- No row is eligible for `Cleanup` before its days have passed. -/
def Honours (rest : Usage.Config) (c : Config) : Prop :=
  ∀ now s r, Usage.Eligible (retentionPolicy rest c) now s r →
    ∃ t, r.retentionAt = some t ∧ t + c.retentionDays r.action * Usage.day ≤ now

/-- Whole days in the range of a duration. -/
def maxDays : Int := 106751

/-- Both counts are positive, and their durations do not wrap. -/
structure Fits (c : Config) : Prop where
  ordinary : 0 < c.usageRetentionDays ∧ c.usageRetentionDays ≤ maxDays
  sensitive : 0 < c.usageSensitiveRetentionDays ∧ c.usageSensitiveRetentionDays ≤ maxDays

theorem day_eq : Usage.day = 86400000000000 := rfl

section
variable {n : Int} (h0 : 0 < n)
include h0

theorem daysDuration_fits (h : n ≤ maxDays) : daysDuration n = n * Usage.day := by
  unfold maxDays at h
  unfold daysDuration
  rw [day_eq]
  exact Int.bmod_eq_of_le (by omega) (by omega)

theorem orDefault_fits (h : n ≤ maxDays) (fallback : Usage.Duration) :
    Usage.orDefault (daysDuration n) fallback = n * Usage.day := by
  have hpos : 0 < n * Usage.day := Int.mul_pos h0 (by decide)
  rw [daysDuration_fits h0 h, Usage.orDefault, if_neg (Int.not_le.2 hpos)]

/-- **A count is kept exactly when its duration fits**: a wrapped one is
shorter, or selects a default of at most 90 days. -/
theorem kept_iff {fallback : Usage.Duration} (hd : fallback ≤ 90 * Usage.day) :
    n * Usage.day ≤ Usage.orDefault (daysDuration n) fallback ↔ n ≤ maxDays := by
  constructor
  · intro hkept
    have hhi : daysDuration n < 2 ^ 63 := Int.bmod_lt (by decide)
    have hle : ∀ d e : Int, d < 2 ^ 63 → e ≤ 90 * 86400000000000 →
        n * 86400000000000 ≤ (if d ≤ 0 then e else d) → n ≤ 106751 := by
      intro d e h63 h90 hn
      split at hn <;> omega
    exact hle _ _ hhi hd hkept
  · intro h
    exact Int.le_of_eq (orDefault_fits h0 h fallback).symm

end

variable {rest : Usage.Config} {c : Config}

theorem honours_iff_retention : Honours rest c ↔
    ∀ action, c.retentionDays action * Usage.day ≤ (retentionPolicy rest c).retention action := by
  constructor
  · intro h action
    -- a closed row of this action, at the moment its retention ends
    obtain ⟨t, ht, hle⟩ := h ((retentionPolicy rest c).retention action) Usage.ownerDiedStore
      { Usage.execRunning with outcome := .succeeded, retentionAt := some 0, action := action }
      ⟨by simp, ⟨0, rfl, Int.le_of_eq (Int.zero_add _)⟩, by simp [Usage.UsageLog.ownerExpired]⟩
    cases ht
    simpa using hle
  · intro h now s r he
    obtain ⟨t, ht, hle⟩ := he.elapsed
    exact ⟨t, ht, Int.le_trans (Int.add_le_add_left (h r.action) t) hle⟩

/-- **The configured days are honoured exactly when both counts fit.** -/
theorem honours_iff (ho : 0 < c.usageRetentionDays) (hs : 0 < c.usageSensitiveRetentionDays) :
    Honours rest c ↔ c.usageRetentionDays ≤ maxDays ∧ c.usageSensitiveRetentionDays ≤ maxDays := by
  rw [honours_iff_retention]
  constructor
  · intro h
    exact ⟨(kept_iff ho (by decide)).1 (h ""), (kept_iff hs (by decide)).1 (h "api_key.rotate")⟩
  · rintro ⟨hof, hsf⟩ action
    have hord := (kept_iff ho (by decide : Usage.defaultOrdinaryRetention ≤ _)).2 hof
    have hsen := (kept_iff hs (by decide : Usage.defaultSensitiveRetention ≤ _)).2 hsf
    unfold Config.retentionDays Usage.Config.retention
    by_cases ha : action = "settings.update"
    · subst ha
      exact Int.le_trans hsen (Int.le_max_left _ _)
    · rw [if_neg ha]
      split
      · exact hsen
      · exact hord

/-- Where the counts fit, longer counts keep every row longer. -/
theorem retention_mono {c' : Config} (hf : Fits c) (hf' : Fits c')
    (ho : c.usageRetentionDays ≤ c'.usageRetentionDays)
    (hs : c.usageSensitiveRetentionDays ≤ c'.usageSensitiveRetentionDays) (action : String) :
    (retentionPolicy rest c).retention action ≤ (retentionPolicy rest c').retention action := by
  have hord := Int.mul_le_mul_of_nonneg_right ho (by decide : 0 ≤ Usage.day)
  have hsen := Int.mul_le_mul_of_nonneg_right hs (by decide : 0 ≤ Usage.day)
  simp only [Usage.Config.retention, retentionPolicy,
    orDefault_fits hf.ordinary.1 hf.ordinary.2, orDefault_fits hf.sensitive.1 hf.sensitive.2,
    orDefault_fits hf'.ordinary.1 hf'.ordinary.2, orDefault_fits hf'.sensitive.1 hf'.sensitive.2]
  split
  · exact max_le_max_right _ hsen
  · split
    · exact hsen
    · exact hord

/-! ## §2. What a merge makes of the counts. -/

variable (parse : UrlParser) {base : Config} {values : Overrides}

variable {f : Field}

/-- An overridden field is decoded from its entry. -/
theorem merged_entry (h : mergeSettings parse base values = .ok c) (hk : f.key ∈ values) :
    ∃ e ∈ values.entries, known e.1 = some f ∧ decode f e.2 = .ok (c.setting f) := by
  obtain ⟨e, he, hkey⟩ := List.mem_map.1 (AList.mem_keys.1 hk)
  obtain ⟨g, hsets⟩ := ((mergeSettings_ok_iff parse).1 h).1.set e he
  obtain rfl : g = f := key_injective ((key_of_known hsets.known).trans hkey)
  exact ⟨e, he, hsets.known, hsets.decoded⟩

/-- Any other field is the deployment's. -/
theorem merged_kept (h : mergeSettings parse base values = .ok c) (hk : f.key ∉ values) :
    c.setting f = base.setting f :=
  ((mergeSettings_ok_iff parse).1 h).1.kept f fun hv => hk (AList.mem_keys.2 hv)

theorem merged_cases (h : mergeSettings parse base values = .ok c) (f : Field) :
    c.setting f = base.setting f ∨ ∃ raw, decode f raw = .ok (c.setting f) := by
  by_cases hk : f.key ∈ values
  · obtain ⟨e, -, -, hd⟩ := merged_entry parse h hk
    exact .inr ⟨e.2, hd⟩
  · exact .inl (merged_kept parse h hk)

theorem decodeNumber_bounds {d : Setting} {raw : Raw} {v : Int}
    (h : decodeNumber d raw = .ok v) : d.min ≤ v ∧ v ≤ d.max := by
  cases raw with
  | integer n =>
    simp only [decodeNumber] at h
    split at h
    · cases h
    · cases h
      omega
  | _ => cases h

theorem merged_fits (hb : Fits base) (h : mergeSettings parse base values = .ok c) : Fits c := by
  have hone : ∀ {n m : Int} {d : Setting}, 1 ≤ d.min → d.max ≤ 36500 → 0 < m ∧ m ≤ maxDays →
      (n = m ∨ ∃ raw, decodeNumber d raw = .ok n) → 0 < n ∧ n ≤ maxDays := by
    rintro n m d hmin hmax hm (rfl | ⟨raw, hd⟩)
    · exact hm
    · have := decodeNumber_bounds hd
      unfold maxDays
      omega
  exact ⟨hone (by decide) (by decide) hb.ordinary (merged_cases parse h .usageRetentionDays),
    hone (by decide) (by decide) hb.sensitive (merged_cases parse h .usageSensitiveRetentionDays)⟩

/-- The stored document of an update gives every field but the Hub URL the
value that was published. -/
theorem canonical_same {desired : Config} (h : mergeSettings parse base values = .ok desired)
    (hc : mergeSettings parse base (canonicalValues desired values) = .ok c) (hf : f ≠ .agentHubUrl) :
    c.setting f = desired.setting f := by
  by_cases hk : f.key ∈ canonicalValues desired values
  · obtain ⟨e, he, hf', hread⟩ := merged_entry parse hc hk
    obtain ⟨g, raw, hg, hdec, henc⟩ := canonical_entry h he
    obtain rfl : g = f := Option.mem_unique hg hf'
    rw [henc] at hread
    exact Except.ok.inj (hread.symm.trans ((decodeKind_again hdec).2 (stable_of_ne hf _ _)))
  · have hv : f.key ∉ values := fun hv => hk ((mem_canonicalValues desired _).2 hv)
    exact (merged_kept parse hc hk).trans (merged_kept parse h hv).symm

/-! ## §3. A Hub under updates and refreshes. -/

inductive HubEvent
  | update (req : SettingsUpdate) (caller : Caller) (fresh : String)
  /-- `Refresh`; the row may be any other Hub's -/
  | refresh (row : Row)

/-- A refused update and a failed refresh change nothing. -/
def hubStep (h : Hub) : HubEvent → Hub
  | .update req caller fresh =>
    match h.prepareUpdate parse req caller fresh with
    | .ok p => h.adopt p
    | .error _ => h
  | .refresh row => (h.refresh parse row).toOption.getD h

/-- One Hub of a deployment, whatever row it starts with. -/
def hubSystem (base : Config) : System Hub HubEvent where
  init h := ∃ row, newSystemSettingsService parse base row = .ok h
  step h e := some (hubStep parse h e)

/-- The overrides in memory merge, so an update is compared with them. -/
def Merges (h : Hub) : Prop := ∃ c, mergeSettings parse h.base h.overrides = .ok c

/-- An accepted update without the confirmation makes no row eligible. -/
def Spares (rest : Usage.Config) (h : Hub) : HubEvent → Prop
  | .update req caller fresh => req.confirmRetentionChange = false →
    ∀ p, h.prepareUpdate parse req caller fresh = .ok p → ∀ now s r,
      Usage.Eligible (retentionPolicy rest (h.adopt p).runtime) now s r →
        Usage.Eligible (retentionPolicy rest h.runtime) now s r
  | .refresh _ => True

/-- The counts in force fit, and are those of the overrides in memory. -/
structure DaysInv (base : Config) (h : Hub) : Prop where
  deployed : h.base = base
  fits : Fits h.runtime
  merged : ∀ c, mergeSettings parse base h.overrides = .ok c →
    h.runtime.usageRetentionDays = c.usageRetentionDays ∧
      h.runtime.usageSensitiveRetentionDays = c.usageSensitiveRetentionDays

section
variable {parse} {h : Hub} (hb : Fits base)
include hb

/-- A Hub that has published the merge of its overrides. -/
theorem DaysInv.published (hd : h.base = base) {desired : Config}
    (hm : mergeSettings parse base h.overrides = .ok desired)
    (hr : h.runtime = applyLive desired h.boot) : DaysInv parse base h := by
  have hfits := merged_fits parse hb hm
  refine ⟨hd, hr ▸ ⟨hfits.ordinary, hfits.sensitive⟩, fun c hc => ?_⟩
  obtain rfl := Except.ok.inj (hm.symm.trans hc)
  rw [hr]
  exact ⟨rfl, rfl⟩

theorem daysInv_started {row : Row} (hs : newSystemSettingsService parse base row = .ok h) :
    DaysInv parse base h := by
  unfold newSystemSettingsService at hs
  split at hs
  · rename_i boot values hm
    cases hs
    exact .published hb rfl (mergeStored_ok hm).2 (applyLive_self boot).symm
  · split at hs
    · cases hs
    split at hs
    · cases hs
    · rename_i boot hm
      cases hs
      exact .published hb rfl hm (applyLive_self boot).symm

theorem DaysInv.step (hinv : DaysInv parse base h) (e : HubEvent) :
    DaysInv parse base (hubStep parse h e) := by
  cases e with
  | update req caller fresh =>
    simp only [hubStep]
    split
    · rename_i p hp
      obtain ⟨values, -, hm, hv⟩ := (prepareUpdate_ok parse hp).merged
      rw [hinv.deployed] at hm
      have hfits := merged_fits parse hb hm
      refine ⟨hinv.deployed, ⟨hfits.ordinary, hfits.sensitive⟩, fun c hc => ?_⟩
      have hsame : ∀ f : Field, f ≠ .agentHubUrl → c.setting f = p.desired.setting f :=
        fun f hf => canonical_same parse hm (hv ▸ hc) hf
      exact ⟨(hsame _ (by decide)).symm, (hsame _ (by decide)).symm⟩
    · exact hinv
  | refresh row =>
    simp only [hubStep, Hub.refresh]
    split
    · exact hinv
    · split
      · exact hinv
      · rename_i desired values hm
        rw [hinv.deployed] at hm
        exact .published hb hinv.deployed (mergeStored_ok hm).2 rfl

/-- An accepted update without the confirmation shortens no count. -/
theorem DaysInv.spares (hinv : DaysInv parse base h) (hm : Merges parse h) (e : HubEvent) :
    Spares parse rest h e := by
  cases e with
  | refresh row => trivial
  | update req caller fresh =>
    intro hno p hp now s r he
    obtain ⟨c, hc⟩ := hm
    obtain ⟨hord, hsen⟩ := hinv.merged c (hinv.deployed ▸ hc)
    have hstep := hinv.step hb (.update req caller fresh)
    simp only [hubStep, hp] at hstep
    obtain ⟨values, desired, -, -, -, hlonger, rfl⟩ := prepareUpdate_cases parse hp
    have hlonger := hlonger hno
    simp only [Hub.current, hc, Except.toOption, Option.getD_some, retentionConfirmationRequired,
      Bool.or_eq_false_iff, decide_eq_false_iff_not, Int.not_lt] at hlonger
    have hmono : (retentionPolicy rest h.runtime).retention r.action ≤ _ :=
      retention_mono hinv.fits hstep.fits (hord ▸ hlonger.1.1) (hsen ▸ hlonger.1.2) r.action
    obtain ⟨t, ht, hle⟩ := he.elapsed
    exact ⟨he.closed, ⟨t, ht, Int.le_trans (Int.add_le_add_left hmono t) hle⟩, he.ownerGone⟩

end

/-- **Configured retention.**  Of a deployment with positive counts:

  • its counts are honoured exactly when both fit in 64 bits as durations,
  • if they fit, then in every state of a Hub, whatever row it started with and
    whatever updates and refreshes it saw, the counts in force are honoured,
    and if the overrides in memory merge, an update accepted without the
    confirmation makes no row eligible. -/
theorem usage_retention_honoured (parse : UrlParser) (rest : Usage.Config) (base : Config)
    (ho : 0 < base.usageRetentionDays) (hs : 0 < base.usageSensitiveRetentionDays) :
    (Honours rest base ↔
        base.usageRetentionDays ≤ maxDays ∧ base.usageSensitiveRetentionDays ≤ maxDays)
      ∧ (base.usageRetentionDays ≤ maxDays → base.usageSensitiveRetentionDays ≤ maxDays →
          ∀ h, (hubSystem parse base).Reachable h → Honours rest h.runtime ∧
            (Merges parse h → ∀ e, Spares parse rest h e)) := by
  refine ⟨honours_iff ho hs, fun hof hsf h hr => ?_⟩
  have hb : Fits base := ⟨⟨ho, hof⟩, ⟨hs, hsf⟩⟩
  have hinv : DaysInv parse base h := by
    refine hr.invariant ?_ ?_
    · rintro h ⟨row, hrow⟩
      exact daysInv_started hb hrow
    · rintro h e _ hinv ⟨⟩
      exact hinv.step hb e
  have hfits := hinv.fits
  exact ⟨(honours_iff hfits.ordinary.1 hfits.sensitive.1).2
    ⟨hfits.ordinary.2, hfits.sensitive.2⟩, fun hm e => hinv.spares hb hm e⟩

/-- The environment sets 200000 days for ordinary rows. -/
def longDeployment : Config :=
  { defaults with
    setting := Function.update defaults.setting .usageRetentionDays (200000 : Int) }

/-- **200000 days are kept for 30.**  The product wraps to a negative duration,
and the default takes its place: a row is eligible after 30 days.  A Hub that
keeps rows for 36500 days accepts the reset to the deployment's count without
the confirmation, 200000 being more, and a row 30 days old becomes eligible. -/
theorem wrapped_retention_deletes :
    ¬ Honours Usage.defaultConfig longDeployment ∧
    ∃ h p, newSystemSettingsService plainUrl longDeployment
        ⟨1, .object (AList.singleton "USAGE_LOG_RETENTION_DAYS" (.integer 36500))⟩ = .ok h ∧
      h.prepareUpdate plainUrl
          ⟨1, AList.singleton "USAGE_LOG_RETENTION_DAYS" .null, false⟩
          ⟨none, 1, "admin", ""⟩ "op" = .ok p ∧
      (retentionPolicy Usage.defaultConfig h.runtime).retention "exec" = 36500 * Usage.day ∧
      (retentionPolicy Usage.defaultConfig (h.adopt p).runtime).retention "exec" =
        30 * Usage.day := by
  refine ⟨fun hh => absurd ((honours_iff (by decide) (by decide)).1 hh).1 (by decide), ?_⟩
  exact ⟨_, _, rfl, rfl, by decide +kernel, by decide +kernel⟩

/-- A Hub with the application's defaults. -/
theorem usage_retention_honoured_defaults : ∃ h,
    newSystemSettingsService plainUrl defaults firstRow = .ok h ∧ Merges plainUrl h ∧
    Honours Usage.defaultConfig h.runtime ∧ ∀ e, Spares plainUrl Usage.defaultConfig h e := by
  have hstart : newSystemSettingsService plainUrl defaults firstRow = .ok _ := rfl
  obtain ⟨hdays, hspares⟩ := (usage_retention_honoured plainUrl Usage.defaultConfig defaults
    (by decide) (by decide)).2 (by decide) (by decide) _
    (System.reachable_init ⟨firstRow, hstart⟩)
  exact ⟨_, hstart, ⟨_, rfl⟩, hdays, hspares ⟨_, rfl⟩⟩

end Talus.Settings
