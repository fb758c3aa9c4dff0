/-
  Talus.Settings.Convergence
  **EVERY HUB MAKES THE SAME OF A REVISION, ONCE THE HUB URL HAS SETTLED.**

  Two invariants over every run:

    • `LedgerInv` — the stored rows are the first one and, above it, one per
      committed update, each a revision higher and with one audit event,
    • `ViewInv` — a Hub's snapshot is what the row it observed merges to.

  The second needs the updates to store what they publish.  They do, except
  when trimming the slashes off AGENT_HUB_URL bares a space, which the next
  Hub then trims too: see `hub_url_trimmed_again`.
-/
import Talus.Settings.Service
import Mathlib.Data.List.Chain

namespace Talus.Settings

open Talus.Base List Option

variable (parse : UrlParser)

/-! ## §1. What a Hub makes of a row. -/

/-- The configuration a Hub with this deployment starts from. -/
def observe (base : Config) (row : Row) : Option Config :=
  match mergeStoredSettings parse base row with
  | .ok (desired, _) => some desired
  | .error _ =>
    if base.settingsIgnoreInvalidOverrides then (mergeSettings parse base ∅).toOption else none

variable {base desired : Config} {row : Row} {values : Overrides}

theorem observe_merged {parse : UrlParser}
    (h : mergeStoredSettings parse base row = .ok (desired, values)) :
    observe parse base row = some desired := by
  unfold observe
  rw [h]

theorem mergeStored_ok {parse : UrlParser}
    (h : mergeStoredSettings parse base row = .ok (desired, values)) :
    row.overrides = .object values ∧ mergeSettings parse base values = .ok desired := by
  unfold mergeStoredSettings at h
  split at h
  · rename_i vs hdoc
    split at h
    · rename_i c hmerge
      cases h
      exact ⟨hdoc, hmerge⟩
    · cases h
  · cases h
  · cases h

theorem mergeStored_object {parse : UrlParser}
    (hdoc : row.overrides = .object values) (desired : Config) :
    mergeStoredSettings parse base row = .ok (desired, values) ↔
      mergeSettings parse base values = .ok desired := by
  refine ⟨fun h => (mergeStored_ok h).2, fun h => ?_⟩
  unfold mergeStoredSettings
  rw [hdoc]
  dsimp only
  rw [h]

/-- The snapshot of a Hub is what the row it observed merges to. -/
structure HubOk (stored : List Row) (base : Config) (h : Hub) : Prop where
  base : h.base = base
  row : h.row ∈ stored
  observed : ∃ desired, observe parse h.base h.row = some desired ∧
    h.runtime = applyLive desired h.boot
  plain : h.recovery = none → ∃ desired values,
    mergeStoredSettings parse h.base h.row = .ok (desired, values)

variable {stored : List Row}

theorem HubOk.of_merged {parse : UrlParser} {h : Hub} (hbase : h.base = base) (hrow : h.row ∈ stored)
    (hm : mergeStoredSettings parse h.base h.row = .ok (desired, values))
    (hrun : h.runtime = applyLive desired h.boot) : HubOk parse stored base h :=
  ⟨hbase, hrow, ⟨desired, observe_merged hm, hrun⟩, fun _ => ⟨desired, values, hm⟩⟩

theorem newService_ok {h : Hub}
    (hrow : row ∈ stored) (hnew : newSystemSettingsService parse base row = .ok h) :
    HubOk parse stored base h := by
  unfold newSystemSettingsService at hnew
  split at hnew
  · rename_i boot values hm
    cases hnew
    exact .of_merged rfl hrow hm (applyLive_self boot).symm
  · rename_i e hm
    split at hnew
    · cases hnew
    rename_i hignore
    split at hnew
    · cases hnew
    rename_i boot hdeploy
    cases hnew
    -- the document is ignored as a whole
    refine ⟨rfl, hrow, ⟨boot, ?_, (applyLive_self boot).symm⟩, nofun⟩
    unfold observe
    rw [hm]
    rw [if_pos (by simpa using hignore), hdeploy]
    rfl

theorem refresh_ok {h h' : Hub} (hok : HubOk parse stored base h) (hrow : row ∈ stored)
    (href : h.refresh parse row = .ok h') : HubOk parse stored base h' := by
  unfold Hub.refresh at href
  split at href
  · cases href
    exact hok
  · split at href
    · cases href
    · rename_i desired values hm
      cases href
      exact .of_merged hok.base hrow hm rfl

/-! ## §2. Updates that store what they publish. -/

/-- The text of AGENT_HUB_URL that the update is to merge, if there is one, does
not bare a space when it is trimmed. -/
def Hub.keepsUrl (h : Hub) (req : SettingsUpdate) : Bool :=
  match patched h.overrides req.values Field.agentHubUrl.key with
  | some (.string u) => !baresSpace u
  | _ => true

/-- **What is stored merges to what is published exactly if the text of the
Hub URL bares no space.** -/
theorem stored_iff_keepsUrl {h : Hub} {req : SettingsUpdate} {p : Prepared}
    (hp : Prepares parse h req p) :
    mergeStoredSettings parse h.base p.next = .ok (p.desired, p.values) ↔
      h.keepsUrl req = true := by
  obtain ⟨values, hpatch, hmerge, hvalues⟩ := hp.merged
  rw [mergeStored_object hp.document, hvalues, mergeSettings_canonical_iff parse hmerge,
    hubUrl_settled_iff parse hmerge, lookup_patched hpatch]
  unfold Hub.keepsUrl
  split
  · rename_i u hu
    rw [hu]
    constructor
    · intro hplain
      rw [hplain u rfl]
      rfl
    · intro hplain u' hu'
      cases hu'
      simpa using hplain
  · rename_i hother
    exact iff_of_true (fun u hu => absurd hu (hother u)) rfl

/-- The condition on the steps of a run: an update is given no text of the Hub
URL, by its caller or by the overrides of its Hub, that bares a space. -/
def keepsUrl (w : World) : Event → Bool
  | .update i req _ _ => (w.hub? i).all (·.keepsUrl req)
  | _ => true

theorem hub?_of_slot {w : World} {i : Nat} {s : Slot} (hs : w.slots[i]? = some s) :
    w.hub? i = s.hub := by
  unfold World.hub?
  rw [hs]
  rfl

/-! ## §3. The views. -/

def ActivityOk (stored : List Row) (base : Config) : Activity → Prop
  | .idle => True
  | .reading => True
  | .loaded row => row ∈ stored
  | .saving p => mergeStoredSettings parse base p.next = .ok (p.desired, p.values)
  | .saved p =>
    p.next ∈ stored ∧ mergeStoredSettings parse base p.next = .ok (p.desired, p.values)

structure SlotOk (stored : List Row) (s : Slot) : Prop where
  hub : ∀ h, s.hub = some h → HubOk parse stored s.base h
  activity : ActivityOk parse stored s.base s.activity

/-- The invariant of the Hubs. -/
structure ViewInv (w : World) : Prop where
  head : w.row = w.stored.head?
  slots : ∀ s ∈ w.slots, SlotOk parse w.stored s

theorem SlotOk.mono {parse : UrlParser} {stored' : List Row} {s : Slot}
    (hsub : stored ⊆ stored') (h : SlotOk parse stored s) : SlotOk parse stored' s := by
  refine ⟨fun hub hh => ?_, ?_⟩
  · have := h.hub hub hh
    exact ⟨this.base, hsub this.row, this.observed, this.plain⟩
  · have hact := h.activity
    unfold ActivityOk at hact ⊢
    split at hact
    · trivial
    · trivial
    · exact hsub hact
    · exact hact
    · exact ⟨hsub hact.1, hact.2⟩

theorem ViewInv.slot {parse : UrlParser} {w : World} {i : Nat} {s : Slot} (h : ViewInv parse w)
    (hs : w.slots[i]? = some s) : SlotOk parse w.stored s :=
  h.slots s (mem_of_getElem? hs)

theorem ViewInv.setSlot {parse : UrlParser} {w : World} {s : Slot} (h : ViewInv parse w) (i : Nat)
    (hs : SlotOk parse w.stored s) : ViewInv parse (w.setSlot i s) := by
  refine ⟨h.head, fun t ht => ?_⟩
  rcases mem_or_eq_of_mem_set ht with ht | rfl
  · exact h.slots t ht
  · exact hs

theorem ViewInv.commit {parse : UrlParser} {w : World} {s : Slot} {p : Prepared}
    (h : ViewInv parse w) (i : Nat) : ViewInv parse (w.commit i s p) :=
  ⟨rfl, fun t ht => (h.slots t ht).mono (subset_cons_self _ _)⟩

theorem SlotOk.finish {parse : UrlParser} {s : Slot}
    (h : SlotOk parse stored s) (hrow : row ∈ stored) : SlotOk parse stored (s.finish parse row) := by
  refine ⟨fun hub hh => ?_, trivial⟩
  unfold Slot.finish at hh
  split at hh
  · -- a start
    cases hnew : newSystemSettingsService parse s.base row with
    | error e => rw [hnew] at hh; cases hh
    | ok h' =>
      rw [hnew] at hh
      cases hh
      exact newService_ok parse hrow hnew
  · rename_i old hold
    have hok := h.hub old hold
    cases href : old.refresh parse row with
    | error e => rw [href] at hh; cases hh; exact hok
    | ok h' =>
      rw [href] at hh
      cases hh
      exact refresh_ok parse hok hrow href

/-- **One step keeps the views.** -/
theorem viewInv_step {w w' : World} {e : Event} (hP : keepsUrl w e = true) (hw : ViewInv parse w)
    (h : settingsStep parse w e = some w') : ViewInv parse w' := by
  cases moves_of_step parse h with
  | join base =>
    refine ⟨hw.head, fun t ht => ?_⟩
    rcases mem_append.1 ht with ht | ht
    · exact hw.slots t ht
    · cases mem_singleton.1 ht
      exact ⟨fun _ hh => (nomatch hh), trivial⟩
  | restart base hs => exact hw.setSlot _ ⟨fun _ hh => (nomatch hh), trivial⟩
  | refresh hs ha | unread hs | fail outcome hs ha hf =>
    exact hw.setSlot _ ⟨(hw.slot hs).hub, trivial⟩
  | insert hs hrow =>
    -- with no row, nothing has been stored yet
    have hnil : w.stored = [] := head?_eq_none_iff.1 (hw.head.symm.trans hrow)
    refine ⟨rfl, fun t ht => (hw.slots t ht).mono ?_⟩
    rw [hnil]
    exact nil_subset _
  | read hs hrow =>
    exact hw.setSlot _ ⟨(hw.slot hs).hub, mem_of_mem_head? (hw.head ▸ hrow)⟩
  | finish hs ha =>
    have hact := (hw.slot hs).activity
    rw [ha] at hact
    exact hw.setSlot _ ((hw.slot hs).finish hact)
  | reject req caller fresh hs hh hp => exact hw
  | @prepare i s hub p req caller fresh hs hh ha hp =>
    have hok := (hw.slot hs).hub hub hh
    have hkeeps : hub.keepsUrl req = true := by
      have hall : (w.hub? i).all (·.keepsUrl req) = true := hP
      rwa [hub?_of_slot hs, hh] at hall
    have hstored := (stored_iff_keepsUrl parse (prepareUpdate_ok parse hp)).2 hkeeps
    rw [hok.base] at hstored
    exact hw.setSlot _ ⟨(hw.slot hs).hub, hstored⟩
  | @commit i s p hs ha hc =>
    have hnew : ViewInv parse (w.commit i s p) := hw.commit i
    have hact := (hw.slot hs).activity
    rw [ha] at hact
    exact hnew.setSlot _ ⟨(hnew.slot hs).hub, mem_cons_self, hact⟩
  | @lose i s p hs ha hc =>
    have hnew : ViewInv parse (w.commit i s p) := hw.commit i
    exact hnew.setSlot _ ⟨(hnew.slot hs).hub, trivial⟩
  | @adopt i s hub p hs hh ha =>
    have hok := (hw.slot hs).hub hub hh
    have hact := (hw.slot hs).activity
    rw [ha] at hact
    refine hw.setSlot _ ⟨fun h' hh' => ?_, trivial⟩
    cases hh'
    have hmerged : mergeStoredSettings parse hub.base p.next = .ok (p.desired, p.values) := by
      rw [hok.base]
      exact hact.2
    exact .of_merged hok.base hact.1 hmerged rfl

/-! ## §4. The ledger. -/

/-- A prepared update asks for the next revision and names it in its event. -/
def Prepared.Numbered (p : Prepared) : Prop :=
  p.next.revision = p.expected + 1 ∧ p.audit.details.revision = p.next.revision ∧
    p.audit.action = "settings.update"

/-- One revision after another. -/
def Follows (newer older : Row) : Prop := newer.revision = older.revision + 1

/-- The commit has a number its Hub has left behind. -/
def Counted (slots : List Slot) (c : Commit) : Prop :=
  ∃ s, slots[c.hub]? = some s ∧ c.update < s.updates

/-- The invariant of the store, in a run from `w₀`. -/
structure LedgerInv (w₀ w : World) : Prop where
  head : w.row = w.stored.head?
  chain : w.stored.IsChain Follows
  rows : ∃ first : Option Row, w.stored = w.commits.map Commit.row ++ first.toList ∧
    (first = w₀.row ∨ w₀.row = none ∧ first = some firstRow)
  events : w.audits = w.commits.map Commit.event ++ w₀.audits
  made : ∀ c ∈ w.commits, c.row.revision = c.expected + 1 ∧
    c.event.details.revision = c.row.revision ∧ c.event.action = "settings.update"
  counted : ∀ c ∈ w.commits, Counted w.slots c
  once : (w.commits.map fun c => (c.hub, c.update)).Nodup
  saving : ∀ s ∈ w.slots, ∀ p, s.activity = .saving p → p.Numbered

variable {w₀ w w' : World} {i : Nat} {s s' : Slot}

theorem Counted.set {slots : List Slot} {c : Commit} (h : Counted slots c)
    (hs : slots[i]? = some s) (hup : s.updates ≤ s'.updates) : Counted (slots.set i s') c := by
  obtain ⟨t, ht, hlt⟩ := h
  have hlen : i < slots.length := (List.getElem?_eq_some_iff.1 hs).1
  by_cases hci : c.hub = i
  · refine ⟨s', by rw [hci, getElem?_set_self hlen], ?_⟩
    rw [hci, hs] at ht
    cases ht
    omega
  · exact ⟨t, by rw [getElem?_set_ne (Ne.symm hci), ht], hlt⟩

/-- The ledger does not depend on the Hubs but for their counts. -/
theorem LedgerInv.setSlot (h : LedgerInv w₀ w) (hs : w.slots[i]? = some s)
    (hup : s.updates ≤ s'.updates) (hsaving : ∀ p, s'.activity = .saving p → p.Numbered) :
    LedgerInv w₀ (w.setSlot i s') := by
  refine ⟨h.head, h.chain, h.rows, h.events, h.made, fun c hc => (h.counted c hc).set hs hup,
    h.once, fun t ht p hp => ?_⟩
  rcases mem_or_eq_of_mem_set ht with ht | rfl
  · exact h.saving t ht p hp
  · exact hsaving p hp

/-- A committed update is one more row, one more event, and a new number. -/
theorem LedgerInv.commit {p : Prepared} (h : LedgerInv w₀ w) (hs : w.slots[i]? = some s)
    (ha : s.activity = .saving p) (hc : w.accepts p = true) (hup : s'.updates = s.updates + 1)
    (hsaving : ∀ p, s'.activity ≠ .saving p) :
    LedgerInv w₀ ((w.commit i s p).setSlot i s') := by
  have hp : p.Numbered := h.saving s (mem_of_getElem? hs) p ha
  have hexpected : w.row.map Row.revision = some p.expected := beq_iff_eq.1 hc
  refine ⟨rfl, ?_, ?_, ?_, ?_, ?_, ?_, ?_⟩
  · show (p.next :: w.stored).IsChain Follows
    rw [isChain_cons]
    refine ⟨fun older hold => ?_, h.chain⟩
    rw [h.head, mem_def.1 hold] at hexpected
    unfold Follows
    rw [hp.1, ← some.inj hexpected]
  · obtain ⟨first, hrows, hfirst⟩ := h.rows
    refine ⟨first, ?_, hfirst⟩
    show p.next :: w.stored = p.next :: w.commits.map Commit.row ++ first.toList
    rw [hrows]
    rfl
  · show p.audit :: w.audits = p.audit :: w.commits.map Commit.event ++ w₀.audits
    rw [h.events]
    rfl
  · intro c hcm
    rcases mem_cons.1 hcm with rfl | hcm
    · exact hp
    · exact h.made c hcm
  · intro c hcm
    have hlen : i < w.slots.length := (List.getElem?_eq_some_iff.1 hs).1
    rcases mem_cons.1 hcm with rfl | hcm
    · refine ⟨s', getElem?_set_self hlen, ?_⟩
      show s.updates < s'.updates
      omega
    · exact (h.counted c hcm).set hs (by omega)
  · show ((i, s.updates) :: w.commits.map fun c => (c.hub, c.update)).Nodup
    rw [nodup_cons]
    refine ⟨fun hmem => ?_, h.once⟩
    -- an earlier commit of this Hub has a smaller number
    obtain ⟨c, hcm, hpair⟩ := mem_map.1 hmem
    obtain ⟨t, ht, hlt⟩ := h.counted c hcm
    rw [(Prod.mk.inj hpair).1, hs] at ht
    cases ht
    have := (Prod.mk.inj hpair).2
    omega
  · intro t ht q hq
    rcases mem_or_eq_of_mem_set ht with ht | rfl
    · exact h.saving t ht q hq
    · exact absurd hq (hsaving q)

/-- **One step keeps the ledger.** -/
theorem ledgerInv_step {e : Event} (hw : LedgerInv w₀ w)
    (h : settingsStep parse w e = some w') : LedgerInv w₀ w' := by
  cases moves_of_step parse h with
  | join base =>
    refine ⟨hw.head, hw.chain, hw.rows, hw.events, hw.made, fun c hc => ?_, hw.once, ?_⟩
    · obtain ⟨s, hs, hlt⟩ := hw.counted c hc
      exact ⟨s, List.getElem?_append_left (List.getElem?_eq_some_iff.1 hs).1 ▸ hs, hlt⟩
    · intro s hs p hp
      rcases mem_append.1 hs with hs | hs
      · exact hw.saving s hs p hp
      · cases mem_singleton.1 hs
        cases hp
  | restart base hs | fail outcome hs ha hf =>
    exact hw.setSlot hs (Nat.le_succ _) fun p hp => nomatch hp
  | refresh hs ha | read hs hrow | unread hs | finish hs ha | adopt hs hh ha =>
    exact hw.setSlot hs (Nat.le_refl _) fun p hp => nomatch hp
  | insert hs hrow =>
    have hnil : w.stored = [] := head?_eq_none_iff.1 (hw.head.symm.trans hrow)
    obtain ⟨first, hrows, hfirst⟩ := hw.rows
    rw [hnil] at hrows
    have hnone : w.commits.map Commit.row = [] ∧ first.toList = [] :=
      append_eq_nil_iff.1 hrows.symm
    have hempty : first = none := toList_eq_nil_iff.1 hnone.2
    refine ⟨rfl, isChain_singleton _, ⟨some firstRow, ?_, ?_⟩, hw.events, hw.made,
      hw.counted, hw.once, hw.saving⟩
    · show [firstRow] = w.commits.map Commit.row ++ [firstRow]
      rw [hnone.1]
      rfl
    · rcases hfirst with hfirst | hfirst
      · exact .inr ⟨hfirst ▸ hempty, rfl⟩
      · exact .inr ⟨hfirst.1, rfl⟩
  | reject req caller fresh hs hh hp => exact hw
  | prepare req caller fresh hs hh ha hp =>
    refine hw.setSlot hs (Nat.le_refl _) fun q hq => ?_
    cases hq
    have hprep := prepareUpdate_ok parse hp
    exact ⟨hprep.revision, hprep.audited⟩
  | commit hs ha hc | lose hs ha hc => exact hw.commit hs ha hc rfl nofun

theorem ledgerInv_init (h : (settingsSystem parse).init w₀) : LedgerInv w₀ w₀ := by
  obtain ⟨hslots, hcommits, hstored⟩ := h
  refine ⟨?_, ?_, ⟨w₀.row, ?_, .inl rfl⟩, ?_, ?_, ?_, ?_, ?_⟩
  · rw [hstored]
    cases w₀.row <;> rfl
  · rw [hstored]
    cases w₀.row <;> simp
  all_goals simp [hslots, hcommits, hstored]

theorem viewInv_init (h : (settingsSystem parse).init w₀) : ViewInv parse w₀ := by
  refine ⟨(ledgerInv_init parse h).head, fun s hs => ?_⟩
  rw [h.1] at hs
  cases hs

/-- A revision names one row. -/
theorem LedgerInv.row_unique (h : LedgerInv w₀ w) {r r' : Row} (hr : r ∈ w.stored)
    (hr' : r' ∈ w.stored) (hrev : r.revision = r'.revision) : r = r' := by
  have hdec : w.stored.Pairwise fun newer older => older.revision < newer.revision := by
    refine isChain_iff_pairwise.1 (h.chain.imp fun newer older hf => ?_)
    unfold Follows at hf
    omega
  have hnodup : (w.stored.map Row.revision).Nodup :=
    pairwise_map.2 (hdec.imp fun hlt => Nat.ne_of_gt hlt)
  exact inj_on_of_nodup_map hnodup hr hr' hrev

/-! ## §5. Updates that fail. -/

/-- The step ends an `Update` with an error. -/
inductive Fails (w : World) : Event → Prop
  | rejected {i h e} (req : SettingsUpdate) (caller : Caller) (fresh : String)
      (hh : w.hub? i = some h) (hp : h.prepareUpdate parse req caller fresh = .error e) :
      Fails w (.update i req caller fresh)
  /-- `Save` returns an error -/
  | failed (i : Nat) {outcome : Outcome} (ho : outcome ≠ .answered) : Fails w (.save i outcome)
  | conflict {i s p} (outcome : Outcome) (hs : w.slots[i]? = some s)
      (ha : s.activity = .saving p) (hc : w.accepts p = false) : Fails w (.save i outcome)

/-- The condition on such a step: the answer of a transaction of `Save` that
commits arrives. -/
def Answered (w : World) : Event → Prop
  | .save i .lost => ∀ s p, w.slots[i]? = some s → s.activity = .saving p → w.accepts p = false
  | _ => True

theorem hub?_setSlot (hs : w.slots[i]? = some s) (hh : s'.hub = s.hub) (j : Nat) :
    (w.setSlot i s').hub? j = w.hub? j := by
  by_cases hj : j = i
  · subst hj
    have hlen : j < w.slots.length := (List.getElem?_eq_some_iff.1 hs).1
    rw [hub?_of_slot hs, hub?_of_slot (s := s') (getElem?_set_self hlen), hh]
  · unfold World.hub? World.setSlot
    rw [getElem?_set_ne (Ne.symm hj)]

theorem fails_unchanged {e : Event} (hanswered : Answered w e) (hf : Fails parse w e)
    (h : settingsStep parse w e = some w') :
    w'.row = w.row ∧ w'.audits = w.audits ∧ ∀ j, w'.hub? j = w.hub? j := by
  cases moves_of_step parse h with
  | join base | restart base hs | refresh hs ha | insert hs hrow | read hs hrow | unread hs
  | finish hs ha | adopt hs hh ha => cases hf
  | reject req caller fresh hs hh hp => exact ⟨rfl, rfl, fun _ => rfl⟩
  | prepare req caller fresh hs hh ha hp | fail outcome hs ha hc =>
    exact ⟨rfl, rfl, hub?_setSlot hs rfl⟩
  | commit hs ha hc =>
    -- the transaction was accepted, and answered
    cases hf with
    | failed _ ho => exact absurd rfl ho
    | conflict outcome hs' ha' hc' =>
      cases hs.symm.trans hs'
      cases ha.symm.trans ha'
      exact absurd (hc.symm.trans hc') (by decide)
  | lose hs ha hc => exact absurd (hc.symm.trans (hanswered _ _ hs ha)) (by decide)

/-! ## §6. Convergence. -/

theorem ViewInv.hubOk {parse : UrlParser} (h : ViewInv parse w) {hub : Hub}
    (hh : w.hub? i = some hub) : HubOk parse w.stored hub.base hub := by
  obtain ⟨s, hs, hhub⟩ := bind_eq_some_iff.1 hh
  have hok := (h.slot hs).hub hub hhub
  exact ⟨rfl, hok.row, hok.observed, hok.plain⟩

/-- What a Hub's snapshot is, when its document was not ignored: any order of
the overrides gives it. -/
theorem HubOk.any_order {parse : UrlParser} {h : Hub}
    (hok : HubOk parse stored base h) (hobs : observe parse h.base h.row = some desired)
    (hplain : h.recovery = none) :
    ∃ values, h.row.overrides = .object values ∧ ∀ values' : Overrides,
      values.entries.Perm values'.entries → mergeSettings parse h.base values' = .ok desired := by
  obtain ⟨desired', values, hm⟩ := hok.plain hplain
  rw [observe_merged hm] at hobs
  cases hobs
  exact ⟨values, (mergeStored_ok hm).1, fun values' hperm =>
    mergeSettings_perm parse hperm (mergeStored_ok hm).2⟩

/-- **Settings converge.**  In every interleaving of starts, refreshes and
updates of any number of Hubs, with any deployment configurations and any
document in the row at first:

* the stored rows are the first one and, above it, one per committed update,
  each one revision higher than the row it expected, with one audit event;
* an update that fails changes neither the row nor a snapshot, if the answer of
  a transaction that commits arrives;
* if no update is given a text of the Hub URL that bares a space, the snapshot
  of a Hub is what the row it observed merges to, in any order, and two Hubs
  with one deployment and the same capacities that observed one revision have
  the same snapshot;
* an update stores what it publishes exactly if it is given no such text. -/
theorem settings_convergence {es : List Event} (hinit : (settingsSystem parse).init w₀)
    (hrun : (settingsSystem parse).run w₀ es = some w) :
    (w.row = w.stored.head? ∧ w.stored.IsChain Follows ∧
      (∃ first : Option Row, w.stored = w.commits.map Commit.row ++ first.toList ∧
        (first = w₀.row ∨ w₀.row = none ∧ first = some firstRow)) ∧
      w.audits = w.commits.map Commit.event ++ w₀.audits ∧
      (∀ c ∈ w.commits, c.row.revision = c.expected + 1 ∧
        c.event.details.revision = c.row.revision ∧ c.event.action = "settings.update") ∧
      (w.commits.map fun c => (c.hub, c.update)).Nodup) ∧
    (∀ e w', settingsStep parse w e = some w' → Answered w e → Fails parse w e →
      w'.row = w.row ∧ w'.audits = w.audits ∧ ∀ j, w'.hub? j = w.hub? j) ∧
    ((settingsSystem parse).Along (fun w e => keepsUrl w e = true) w₀ es →
      (∀ i h, w.hub? i = some h → h.row ∈ w.stored ∧
        ∃ desired, observe parse h.base h.row = some desired ∧
          h.runtime = applyLive desired h.boot ∧
          (h.recovery = none → ∃ values, h.row.overrides = .object values ∧
            ∀ values' : Overrides, values.entries.Perm values'.entries →
              mergeSettings parse h.base values' = .ok desired)) ∧
      (∀ i j h h', w.hub? i = some h → w.hub? j = some h' → h.base = h'.base →
        SameCapacities h.boot h'.boot → h.row.revision = h'.row.revision →
        h.runtime = h'.runtime)) ∧
    (∀ (h : Hub) req caller fresh p, h.prepareUpdate parse req caller fresh = .ok p →
      (mergeStoredSettings parse h.base p.next = .ok (p.desired, p.values) ↔
        h.keepsUrl req = true)) := by
  have hledger : LedgerInv w₀ w := System.run_invariant (I := LedgerInv w₀)
    (fun s e s' hI hs => ledgerInv_step parse hI hs) es w₀ w (ledgerInv_init parse hinit) hrun
  refine ⟨⟨hledger.head, hledger.chain, hledger.rows, hledger.events, hledger.made, hledger.once⟩,
    fun e w' hs hanswered hf => fails_unchanged parse hanswered hf hs, fun halong => ?_,
    fun h req caller fresh p hp => stored_iff_keepsUrl parse (prepareUpdate_ok parse hp)⟩
  have hview : ViewInv parse w := System.along_invariant (I := ViewInv parse)
    (fun s e s' hP hI hs => viewInv_step parse hP hI hs) es w₀ w halong (viewInv_init parse hinit)
    hrun
  refine ⟨fun i h hh => ?_, fun i j h h' hh hh' hbase hboot hrev => ?_⟩
  · have hok := hview.hubOk hh
    obtain ⟨desired, hobs, hruntime⟩ := hok.observed
    exact ⟨hok.row, desired, hobs, hruntime, hok.any_order hobs⟩
  · have hok := hview.hubOk hh
    have hok' := hview.hubOk hh'
    obtain ⟨desired, hobs, hruntime⟩ := hok.observed
    obtain ⟨desired', hobs', hruntime'⟩ := hok'.observed
    -- one revision is one row, and one row reads the same for both
    have hrow : h.row = h'.row := hledger.row_unique hok.row hok'.row hrev
    rw [hbase, hrow, hobs'] at hobs
    cases hobs
    rw [hruntime, hruntime', applyLive_congr hboot]

/-! ## §7. Two Hubs. -/

/-- `url.Parse` on what the runs below give it: a scheme, and after `//` a host
and a path; the host has no ASCII character but letters, digits, `-` and `.`. -/
def plainUrl : UrlParser := fun s =>
  let scheme := s.takeWhile (· != ':')
  let rest := (s.dropWhile (· != ':')).drop 1
  if "//".toList.isPrefixOf rest then
    let host := (rest.drop 2).takeWhile (· != '/')
    if host.all fun c => 0x80 ≤ c.toNat || c.isAlphanum || c == '-' || c == '.' then
      some ⟨String.ofList scheme, String.ofList host, false, "", ""⟩
    else none
  else some ⟨String.ofList scheme, "", false, "", ""⟩

/-- A deployment with the defaults of the application. -/
def defaults : Config where
  setting
    | .agentHubUrl => []
    | .monitorInterval => (5 : Int)
    | .agentAllowHttp => false
    | .sshTimeout => (10 : Int)
    | .sshMaxIdle => (300 : Int)
    | .execTimeout => (30 : Int)
    | .execTimeoutMax => (300 : Int)
    | .execOutputLimit => (8388608 : Int)
    | .execOutputStreamLimit => (4194304 : Int)
    | .usageRetentionDays => (30 : Int)
    | .usageSensitiveRetentionDays => (90 : Int)
    | .metricsRetentionEnabled => false
    | .metricsRetentionDryRun => true
    | .loginRateLimit => (10 : Int)
    | .logLevel => "info".toList
    | .logFormat => "json".toList
    | .dbMaxOpenConnections => (32 : Int)
    | .usageWriteConcurrency => (4 : Int)
    | .usageActiveLimit => (4096 : Int)
  bootstrapToken := ""
  jwtSecret := "s"
  masterKey := "m"
  settingsRecoveryParseError := none
  monitorToleratedRounds := 1
  monitorAllowedLatency := 0
  metricsRetentionParseError := []
  metricsRetentionParseErrors := some []
  settingsIgnoreInvalidOverrides := false

def emptyWorld : World := ⟨none, [], [], [], []⟩

/-- The first Hub sets AGENT_HUB_URL, the second refreshes. -/
def setHubUrl (url : String) : List Event :=
  [.join defaults, .insert 0, .read 0 true, .finish 0,
    .join defaults, .read 1 true, .finish 1,
    .update 0 ⟨1, AList.singleton "AGENT_HUB_URL" (.string url.toList), false⟩
      ⟨none, 1, "admin", ""⟩ "op",
    .save 0 .answered, .adopt 0,
    .refresh 1, .read 1 true, .finish 1]

/-- The revision each Hub has observed, and the Hub URL it uses. -/
def World.urls (w : World) : List (Option (Nat × String)) :=
  w.slots.map fun s => s.hub.map fun h => (h.row.revision, String.ofList h.runtime.agentHubUrl)

/-- Both Hubs observe revision 2 and use the URL it stores. -/
theorem settings_convergence_two_hubs : ∃ w h desired,
    (settingsSystem plainUrl).run emptyWorld (setHubUrl "https://h/p/") = some w ∧
    w.urls = [some (2, "https://h/p"), some (2, "https://h/p")] ∧
    w.hub? 1 = some h ∧ observe plainUrl h.base h.row = some desired ∧
    h.runtime = applyLive desired h.boot := by
  have hurls : ((settingsSystem plainUrl).run emptyWorld (setHubUrl "https://h/p/")).map
      (fun w => (w.urls, (w.hub? 1).isSome)) =
        some ([some (2, "https://h/p"), some (2, "https://h/p")], true) := by decide +kernel
  obtain ⟨w, hrun, hsummary⟩ := map_eq_some_iff.1 hurls
  obtain ⟨h, hh⟩ := isSome_iff_exists.1 (Prod.mk.inj hsummary).2
  have hkeeps : (settingsSystem plainUrl).Along (fun w e => keepsUrl w e = true) emptyWorld
      (setHubUrl "https://h/p/") := by decide +kernel
  obtain ⟨_, desired, hobs, hruntime, _⟩ :=
    ((settings_convergence plainUrl ⟨rfl, rfl, rfl⟩ hrun).2.2.1 hkeeps).1 1 h hh
  exact ⟨w, h, desired, hrun, (Prod.mk.inj hsummary).1, hh, hobs, hruntime⟩

/-- **The Hub URL is trimmed again.**  One update of AGENT_HUB_URL, and the Hub
that made it and the Hub that refreshes use two different URLs at revision 2.
If what is left of the URL is a space that is trimmed (U+00A0), every other
Hub refuses the document: it keeps revision 1, and does not start again. -/
theorem hub_url_trimmed_again :
    ((settingsSystem plainUrl).run emptyWorld (setHubUrl "https://h/p /")).map World.urls =
      some [some (2, "https://h/p "), some (2, "https://h/p")] ∧
    ((settingsSystem plainUrl).run emptyWorld (setHubUrl "https://\u00a0/")).map World.urls =
      some [some (2, "https://\u00a0"), some (1, "")] ∧
    ((settingsSystem plainUrl).run emptyWorld (setHubUrl "https://\u00a0/" ++
        [.restart 1 defaults, .read 1 true, .finish 1])).map World.urls =
      some [some (2, "https://\u00a0"), none] := by
  refine ⟨?_, ?_, ?_⟩ <;> decide +kernel

end Talus.Settings
