/-
  Talus.Admission.Revocation
  **A REVOKED TERMINAL STAYS REVOKED.**

  The version a callback receives is the subject's CURRENT version: while a
  call holds the gate nobody else writes the row, and a transaction of unknown
  outcome keeps its subject fenced, so that the read which ends the fence has
  waited for it (`ErrandOk.stable`).  Sessions are therefore registered and
  permitted under the current version only, versions never come back, and
  `MarkRevoked` reaches every session that a lost acknowledgement might have
  outdated.

    • `HubInv` — the fence covers every transaction in flight;
    • `Retired` — a session no later step can permit;
    • `revoked_terminal_never_permitted` — the result for every interleaving.
-/
import Talus.Admission.Terminal

namespace Talus.Admission

open Talus.Base List Option

/-! ## §1. The invariant. -/

/-- The call runs its callback, or has a version to run it with. -/
def Phase.version? : Phase → Option Int
  | .fetched _ v | .running _ v => some v
  | _ => none

variable {v : Int}

theorem Phase.holds_of_version? {ph : Phase} (h : ph.version? = some v) : ph.holds = true := by
  cases ph <;> simp_all [Phase.version?, Phase.holds]

/-- A mutation of `u` whose outcome is uncertain still holds the gate. -/
def UncertainHolder (h : Hub) (u : UserID) : Prop :=
  ∃ (k : Nat) (c : Call) (e : Errand) (out : Outcome), h.gate.calls[k]? = some c
    ∧ h.errands[k]? = some e ∧ c.user = u ∧ c.phase.holds = true
    ∧ e.outcome = some out ∧ out.uncertain = true

/-- An errand as its call can have it. -/
structure ErrandOk (h : Hub) (c : Call) (e : Errand) : Prop where
  /-- only a mutation that runs or has run has an outcome -/
  outcome : e.outcome ≠ none → e.request.kind = .update
    ∧ ((∃ src v, c.phase = .running src v) ∨ c.phase = .done)
  /-- an API key registers with a positive revision -/
  positive : ∀ v, e.request = .register v → h.subject = .apiKey → 0 < v
  /-- a terminal asks for its own session -/
  own : ∀ id, (e.request = .ready id ∨ e.request = .input id) →
    ∃ s, h.sessions[id]? = some s ∧ s.user = c.user
  /-- the version in hand is the current one, and no transaction is in flight -/
  stable : e.outcome = none → ∀ v, c.phase.version? = some v →
    h.inFlight c.user = none ∧ h.currentVersion c.user = some v

/-- A session's version is not ahead of its row. -/
def SessionOk (h : Hub) (s : Session) : Prop :=
  (∀ b, h.rows s.user = some b → s.version ≤ b) ∧ (h.subject = .apiKey → 0 < s.version)

structure HubInv (h : Hub) : Prop where
  gate : GateInv h.gate
  length : h.errands.length = h.gate.calls.length
  errands : ∀ (k : Nat) (c : Call) (e : Errand), h.gate.calls[k]? = some c →
    h.errands[k]? = some e → ErrandOk h c e
  fenced : ∀ u m, h.inFlight u = some m →
    (h.gate.users u).fenced = true ∨ UncertainHolder h u
  sessions : ∀ s ∈ h.sessions, SessionOk h s

/-! ## §2. What the steps do. -/

/-- What the callback of an admission can do. -/
inductive Admitted (h : Hub) (u : UserID) (v : Int) : Request → Hub → Prop
  | refused (r : Request) : Admitted h u v r h
  | registered : Admitted h u v (.register v) { h with sessions := register h.sessions u v }
  | ready (id : Nat) (s : Session) (hs : h.sessions[id]? = some s)
      (hm : mayReady v s = true) :
      Admitted h u v (.ready id)
        { h with sessions := h.sessions.set id { s with state := .ready }
                 grants := id :: h.grants }
  | input (id : Nat) (s : Session) (hs : h.sessions[id]? = some s)
      (hm : mayInput v s = true) :
      Admitted h u v (.input id) { h with grants := id :: h.grants }

theorem admitted_cases (h : Hub) (u : UserID) (v : Int) (r : Request) :
    Admitted h u v r (h.admitted u v r) := by
  cases r with
  | register expectedVersion =>
    simp only [Hub.admitted]
    split
    · next heq => exact heq ▸ .registered
    · exact .refused _
  | ready id =>
    simp only [Hub.admitted]
    split
    · next s hs =>
      split
      · next hm => exact .ready id s hs hm
      · exact .refused _
    · exact .refused _
  | input id =>
    simp only [Hub.admitted]
    split
    · next s hs =>
      split
      · next hm => exact .input id s hs hm
      · exact .refused _
    · exact .refused _
  | mutate m => exact .refused _
  | other => exact .refused _

variable {u : UserID} {out : Outcome} {h h' : Hub} {k : Nat}

theorem enter_cases {r : Request} (hs : hubStep h (.enter u r) = some h') :
    h.wellPosed u r = true ∧ ∃ g, gateStep h.gate (.start u r.kind) = some g
      ∧ h' = { h with gate := g, errands := h.errands ++ [{ request := r, outcome := none }] } := by
  simp only [hubStep] at hs
  split at hs
  · next hw =>
    obtain ⟨g, hg, rfl⟩ := map_eq_some_iff.mp hs
    exact ⟨hw, g, hg, rfl⟩
  · cases hs

theorem gate_cases {op : CallOp} (hs : hubStep h (.gate k op) = some h') :
    ∃ c g, h.gate.calls[k]? = some c ∧ gateStep h.gate (.call k op) = some g
      ∧ h' = { h with gate := g } ∧ (∀ b, op ≠ .finish b)
      ∧ (∀ v src, op = .readOk v → c.phase = .reading src → h.answers c.user src v = true) := by
  simp only [hubStep] at hs
  split at hs
  · cases hs
  · next c hc =>
    split at hs
    · next hen =>
      obtain ⟨g, hg, rfl⟩ := map_eq_some_iff.mp hs
      refine ⟨c, g, hc, hg, rfl, ?_, ?_⟩
      · rintro b rfl
        exact absurd hen (by simp [Hub.enabled])
      · rintro v src rfl hp
        simpa [Hub.enabled, hp] using hen
    · cases hs

theorem respond_cases (hs : hubStep h (.respond k) = some h') :
    ∃ c e g src v, h.gate.calls[k]? = some c ∧ h.errands[k]? = some e
      ∧ c.phase = .running src v ∧ e.request.kind = .admission
      ∧ gateStep h.gate (.call k (.finish false)) = some g
      ∧ Admitted { h with gate := g } c.user v e.request h' := by
  simp only [hubStep] at hs
  split at hs
  · next c e hc he =>
    split at hs
    · next src v hp =>
      split at hs
      · next hk =>
        obtain ⟨g, hg, rfl⟩ := map_eq_some_iff.mp hs
        exact ⟨c, e, g, src, v, hc, he, hp, hk, hg, admitted_cases ..⟩
      · cases hs
    · cases hs
  · cases hs

theorem commit_cases (hs : hubStep h (.commit k out) = some h') :
    ∃ c e src v m, h.gate.calls[k]? = some c ∧ h.errands[k]? = some e
      ∧ c.phase = .running src v ∧ e.request = .mutate m ∧ e.outcome = none
      ∧ h' = h.commit k c.user m out := by
  simp only [hubStep] at hs
  split at hs
  · next c e hc he =>
    split at hs
    · next src v m hp hr ho =>
      split at hs
      · exact ⟨c, e, src, v, m, hc, he, hp, hr, ho, (some.inj hs).symm⟩
      · cases hs
    · cases hs
  · cases hs

theorem settle_cases (hs : hubStep h (.settle k) = some h') :
    ∃ c e out g, h.gate.calls[k]? = some c ∧ h.errands[k]? = some e
      ∧ e.outcome = some out
      ∧ gateStep h.gate (.call k (.finish out.uncertain)) = some g
      ∧ h' = { h with
          gate := g
          sessions := if out.revokes then h.sessions.map (Session.markRevoked c.user)
            else h.sessions } := by
  simp only [hubStep] at hs
  split at hs
  · next c e hc he =>
    split at hs
    · next out ho =>
      obtain ⟨g, hg, rfl⟩ := map_eq_some_iff.mp hs
      exact ⟨c, e, out, g, hc, he, ho, hg, rfl⟩
    · cases hs
  · cases hs

theorem resolve_cases {landed : Bool} (hs : hubStep h (.resolve u landed) = some h') :
    ∃ m, h.inFlight u = some m
      ∧ h' = { h with
          rows := h.setRow u (if landed then m.apply (h.rows u) else h.rows u)
          inFlight := h.setInFlight u none } := by
  simp only [hubStep] at hs
  split at hs
  · next m hm => exact ⟨m, hm, (some.inj hs).symm⟩
  · cases hs

theorem done_cases {id : Nat} (hs : hubStep h (.done id) = some h') :
    ∃ s, h.sessions[id]? = some s
      ∧ h' = { h with sessions := h.sessions.set id { s with present := false } } := by
  simp only [hubStep] at hs
  split at hs
  · next s hsn => exact ⟨s, hsn, (some.inj hs).symm⟩
  · cases hs

/-! ## §3. The invariant is kept. -/

/-- A subject's current version is in its row, if there is one. -/
theorem row_of_currentVersion {b : Int}
    (hv : h.currentVersion u = some v) (hb : h.rows u = some b) : b = v := by
  unfold Hub.currentVersion at hv
  split at hv
  · exact mem_unique hb hv
  · simpa [hb] using hv

variable {c : Call}

/-- Nothing is in flight when the ordinary source is read. -/
theorem HubInv.settled_of_reading (hi : HubInv h)
    (hk : h.gate.calls[k]? = some c) (hp : c.phase = .reading .ordinary) :
    h.inFlight c.user = none := by
  by_contra hne
  obtain ⟨m, hm⟩ := ne_none_iff_exists'.mp hne
  have hopen := hi.gate.reading k c hk hp
  rcases hi.fenced c.user m hm with hf | ⟨j, c', e, out, hj, he, hu, hh, ho, _⟩
  · exact absurd hf (by simp [hopen])
  · -- the holder would be this call, which only reads
    have hkj := hi.gate.holder_unique hk hj hu (by simp [hp, Phase.holds]) hh
    subst hkj
    cases hk.symm.trans hj
    rcases ((hi.errands k c e hk he).outcome (by simp [ho])).2 with ⟨src, v, hr⟩ | hd
    · exact absurd (hp.symm.trans hr) (by simp)
    · exact absurd (hp.symm.trans hd) (by simp)

variable {j : Nat}

/-- Another call of the same user does not hold the gate while `k` does. -/
theorem HubInv.not_holding (hi : HubInv h) {c' : Call}
    (hk : h.gate.calls[k]? = some c) (hc : c.phase.holds = true)
    (hj : h.gate.calls[j]? = some c') (hkj : k ≠ j) (hu : c'.user = c.user) :
    c'.phase.holds = false := by
  by_contra hne
  exact hkj (hi.gate.holder_unique hk hj hu hc (by simpa using hne))

theorem HubInv.enter {r : Request} (hi : HubInv h)
    (hs : hubStep h (.enter u r) = some h') : HubInv h' := by
  obtain ⟨hw, g, hg, rfl⟩ := enter_cases hs
  have hinv := hi.gate.step hg
  cases hg
  refine ⟨hinv, by simp [hi.length], ?_, ?_, hi.sessions⟩
  · intro k c e hk he
    simp only [getElem?_append] at hk he
    rw [hi.length] at he
    split at hk
    · next hlt =>
      rw [if_pos hlt] at he
      have hok := hi.errands k c e hk he
      exact { hok with }
    · next hlt =>
      rw [if_neg hlt] at he
      obtain ⟨_, rfl⟩ := List.getElem?_eq_some_iff.mp hk
      obtain ⟨_, rfl⟩ := List.getElem?_eq_some_iff.mp he
      refine ⟨by simp, ?_, ?_, by simp [Phase.version?]⟩
      · intro v hv hsub
        simp only [getElem_singleton] at hv
        simp only [hv, Hub.wellPosed, Bool.and_eq_true, Bool.or_eq_true, beq_iff_eq,
          decide_eq_true_eq] at hw
        exact hw.2.resolve_left (by simp [show h.subject = _ from hsub])
      · intro id hid
        simp only [getElem_singleton] at hid ⊢
        have hmap : h.sessions[id]?.map (·.user) = some u := by
          rcases hid with hid | hid <;> simpa [hid, Hub.wellPosed] using hw
        exact map_eq_some_iff.mp hmap
  · intro u' m hm
    rcases hi.fenced u' m hm with hf | ⟨j, c, e, out, hj, he, hu, hh, ho, hunc⟩
    · exact .inl hf
    · exact .inr ⟨j, c, e, out, getElem?_append_old hj, getElem?_append_old he, hu, hh, ho, hunc⟩

variable {e : Errand}

/-- A step of call `k`: it has to keep its own errand in order, and to keep its
user fenced while a transaction is in flight. -/
theorem HubInv.move (hi : HubInv h)
    {r : Phase × UserState × List GateEvent} (hk : h.gate.calls[k]? = some c)
    (he : h.errands[k]? = some e) (hg : GateInv (h.gate.apply k c r))
    (hself : ErrandOk h { c with phase := r.1 } e)
    (hkeep : h.inFlight c.user ≠ none → (h.gate.users c.user).fenced = true →
      r.2.1.fenced = true)
    (hholder : h.inFlight c.user ≠ none →
      (∃ out, e.outcome = some out ∧ out.uncertain = true) → r.2.1.fenced = true) :
    HubInv { h with gate := h.gate.apply k c r } := by
  refine ⟨hg, by simp [Gate.apply, hi.length], ?_, ?_, hi.sessions⟩
  · intro j c' e' hj he'
    rcases getElem?_set_cases hj with ⟨rfl, rfl⟩ | ⟨_, hj⟩
    · cases he'.symm.trans he
      exact { hself with }
    · have hok := hi.errands j c' e' hj he'
      exact { hok with }
  · intro u m hm
    have hfl : h.inFlight u ≠ none := by
      have hm' : h.inFlight u = some m := hm
      simp [hm']
    -- an uncertain holder other than `k` still holds the gate
    have hother : ∀ {j : Nat} {c' : Call} {e' : Errand} {out : Outcome}, k ≠ j →
        h.gate.calls[j]? = some c' → h.errands[j]? = some e' → c'.user = u →
        c'.phase.holds = true → e'.outcome = some out → out.uncertain = true →
        UncertainHolder { h with gate := h.gate.apply k c r } u := by
      intro j c' e' out hkj hj he' hu hh ho hunc
      exact ⟨j, c', e', out, (getElem?_set_ne hkj).trans hj, he', hu, hh, ho, hunc⟩
    by_cases hu : u = c.user
    · subst hu
      show (if c.user = c.user then r.2.1 else _).fenced = true ∨ _
      rw [if_pos rfl]
      rcases hi.fenced c.user m hm with hf | ⟨j, c', e', out, hj, he', hu', hh, ho, hunc⟩
      · exact .inl (hkeep hfl hf)
      · by_cases hkj : k = j
        · subst hkj
          have hee : e' = e := mem_unique he' he
          exact .inl (hholder hfl ⟨out, hee ▸ ho, hunc⟩)
        · exact .inr (hother hkj hj he' hu' hh ho hunc)
    · show (if u = c.user then r.2.1 else h.gate.users u).fenced = true ∨ _
      rw [if_neg hu]
      rcases hi.fenced u m hm with hf | ⟨j, c', e', out, hj, he', hu', hh, ho, hunc⟩
      · exact .inl hf
      · have hkj : k ≠ j := by
          rintro rfl
          exact hu (hu' ▸ congrArg Call.user (mem_unique hj hk))
        exact .inr (hother hkj hj he' hu' hh ho hunc)

/-- The same for a call without an outcome that has no version in hand. -/
theorem HubInv.move_idle (hi : HubInv h) {r : Phase × UserState × List GateEvent}
    (hk : h.gate.calls[k]? = some c) (he : h.errands[k]? = some e)
    (hg : GateInv (h.gate.apply k c r)) (ho : e.outcome = none) (hv : r.1.version? = none)
    (hkeep : h.inFlight c.user ≠ none → (h.gate.users c.user).fenced = true →
      r.2.1.fenced = true) : HubInv { h with gate := h.gate.apply k c r } := by
  have hok := hi.errands k c e hk he
  exact hi.move hk he hg ⟨by simp [ho], hok.positive, hok.own, by simp [hv]⟩ hkeep (by simp [ho])

theorem HubInv.exists_errand (hi : HubInv h)
    (hk : h.gate.calls[k]? = some c) : ∃ e, h.errands[k]? = some e := by
  have hlt : k < h.errands.length := hi.length ▸ (List.getElem?_eq_some_iff.mp hk).1
  exact ⟨_, getElem?_eq_getElem hlt⟩

theorem HubInv.gate_step {op : CallOp} (hi : HubInv h)
    (hs : hubStep h (.gate k op) = some h') : HubInv h' := by
  obtain ⟨c, g, hk, hg, rfl, hfin, hread⟩ := gate_cases hs
  have hinv := hi.gate.step hg
  obtain ⟨c', r, hk', m, rfl⟩ := call_cases hg
  obtain rfl := mem_unique hk' hk
  obtain ⟨e, he⟩ := hi.exists_errand hk
  have hok := hi.errands k c' e hk he
  -- before its callback starts a call has no outcome
  have hnone : (∀ src v, c'.phase ≠ .running src v) → c'.phase ≠ .done → e.outcome = none := by
    intro hr hd
    by_contra hne
    rcases (hok.outcome hne).2 with ⟨src, v, hp⟩ | hp
    · exact hr src v hp
    · exact hd hp
  cases m with
  | giveUp hp | lock hp _ | readFail _ hp | lateFail _ _ hp =>
    have ho := hnone (by simp [hp]) (by simp [hp])
    exact hi.move_idle hk he hinv ho rfl fun _ hf => hf
  | readOk src v hp =>
    have ho := hnone (by simp [hp]) (by simp [hp])
    have hans := hread v src rfl hp
    simp only [Hub.answers, Bool.and_eq_true, Bool.or_eq_true, beq_iff_eq,
      isNone_iff_eq_none] at hans
    have hquiet : h.inFlight c'.user = none := by
      rcases hans.1 with hsrc | hnf
      · exact hi.settled_of_reading hk (hsrc ▸ hp)
      · exact hnf
    refine hi.move hk he hinv ⟨by simp [ho], hok.positive, hok.own, ?_⟩ (fun _ hf => hf) (by simp [ho])
    intro _ v' hv'
    have hvv : v = v' := by simpa [Phase.version?] using hv'
    exact ⟨hquiet, hvv ▸ hans.2⟩
  | enter src v hp =>
    have ho := hnone (by simp [hp]) (by simp [hp])
    have hst := hok.stable ho v (by simp [hp, Phase.version?])
    refine hi.move hk he hinv ⟨by simp [ho], hok.positive, hok.own, ?_⟩
      (fun hfl => absurd hst.1 hfl) (fun hfl => absurd hst.1 hfl)
    intro _ v' hv'
    have hvv : v = v' := by simpa [Phase.version?] using hv'
    exact hvv ▸ hst
  | finish src v hp => exact absurd rfl (hfin false)
  | finishUncertain src v hp hkind => exact absurd rfl (hfin true)

/-- Sessions are never forgotten and never change hands. -/
def SessionsKept (ss ss' : List Session) : Prop :=
  ∀ (id : Nat) (s : Session), ss[id]? = some s → ∃ s', ss'[id]? = some s' ∧ s'.user = s.user

variable {s : Session}

theorem sessionsKept_set {ss : List Session} {id : Nat} {s' : Session}
    (hs : ss[id]? = some s) (hu : s'.user = s.user) : SessionsKept ss (ss.set id s') := by
  intro j t hj
  by_cases hij : id = j
  · subst hij
    have hts : s = t := mem_unique hs hj
    exact ⟨s', getElem?_set_same hs, hts ▸ hu⟩
  · exact ⟨t, (getElem?_set_ne hij).trans hj, rfl⟩

theorem HubInv.with_sessions (hi : HubInv h) {ss : List Session}
    (hkept : SessionsKept h.sessions ss) (hss : ∀ s ∈ ss, SessionOk h s) (gs : List Nat) :
    HubInv { h with sessions := ss, grants := gs } := by
  refine ⟨hi.gate, hi.length, ?_, ?_, hss⟩
  · intro k c e hk he
    have hok := hi.errands k c e hk he
    refine ⟨hok.outcome, hok.positive, ?_, hok.stable⟩
    intro id hid
    obtain ⟨s, hs, hu⟩ := hok.own id hid
    obtain ⟨s', hs', hu'⟩ := hkept id s hs
    exact ⟨s', hs', hu'.trans hu⟩
  · intro u m hm
    rcases hi.fenced u m hm with hf | ⟨j, c, e, out, hj⟩
    · exact .inl hf
    · exact .inr ⟨j, c, e, out, hj⟩

/-- The version a callback runs with is the current one. -/
theorem HubInv.running_current (hi : HubInv h)
    {src : Source} (hk : h.gate.calls[k]? = some c) (he : h.errands[k]? = some e)
    (hp : c.phase = .running src v) (ho : e.outcome = none) :
    h.inFlight c.user = none ∧ h.currentVersion c.user = some v :=
  (hi.errands k c e hk he).stable ho v (by simp [hp, Phase.version?])

theorem HubInv.outcome_none (hi : HubInv h)
    (hk : h.gate.calls[k]? = some c) (he : h.errands[k]? = some e)
    (hkind : e.request.kind = .admission) : e.outcome = none := by
  by_contra hne
  exact absurd ((hi.errands k c e hk he).outcome hne).1 (by simp [hkind])

theorem HubInv.respond (hi : HubInv h) (hs : hubStep h (.respond k) = some h') : HubInv h' := by
  obtain ⟨c, e, g, src, v, hk, he, hp, hkind, hg, hadm⟩ := respond_cases hs
  have ho := hi.outcome_none hk he hkind
  have hcur := hi.running_current hk he hp ho
  have hok := hi.errands k c e hk he
  have hinv := hi.gate.step hg
  obtain ⟨c', r, hk', m, rfl⟩ := call_cases hg
  obtain rfl := mem_unique hk' hk
  have hnew : HubInv { h with gate := h.gate.apply k c' r } := by
    cases m with
    | finish src' v' hp' =>
      exact hi.move_idle hk he hinv ho rfl fun _ hf => hf
  generalize hreq : e.request = req at hadm
  cases hadm with
  | refused => exact hnew
  | registered =>
    refine hnew.with_sessions ?_ ?_ h.grants
    · exact fun id s hsn => ⟨s, getElem?_append_old hsn, rfl⟩
    intro s hsn
    simp only [register, mem_append, mem_singleton] at hsn
    rcases hsn with hold | rfl
    · exact hnew.sessions s hold
    · refine ⟨?_, hok.positive v hreq⟩
      intro b hb
      have hrow : b = v := row_of_currentVersion hcur.2 hb
      show v ≤ b
      omega
  | ready id s hsn hm =>
    refine hnew.with_sessions ?_ ?_ _
    · exact sessionsKept_set hsn rfl
    intro s' hs'
    rcases mem_or_eq_of_mem_set hs' with hold | rfl
    · exact hnew.sessions s' hold
    · exact hnew.sessions s (mem_of_getElem? hsn)
  | input id s hsn hm => exact hnew.with_sessions (fun id s hs => ⟨s, hs, rfl⟩) hnew.sessions _

/-- Rows only move forward. -/
def Forward (row row' : Option Int) : Prop :=
  ∀ b, row' = some b → ∃ a, row = some a ∧ a ≤ b

theorem Forward.refl (row : Option Int) : Forward row row :=
  fun b hb => ⟨b, hb, Int.le_refl b⟩

theorem forward_apply (m : Mutation) (row : Option Int) : Forward row (m.apply row) := by
  intro b hb
  cases m with
  | delete => exact absurd hb (by simp [Mutation.apply])
  | _ =>
    obtain ⟨a, ha, rfl⟩ := map_eq_some_iff.mp hb
    exact ⟨a, ha, by omega⟩

theorem forward_setRow {row : Option Int} (hf : Forward (h.rows u) row) (u' : UserID) :
    Forward (h.rows u') (h.setRow u row u') := by
  unfold Hub.setRow
  split
  · next hu => exact hu ▸ hf
  · exact .refl _

theorem SessionOk.forward (hok : SessionOk h s)
    (hsub : h'.subject = h.subject) (hrow : Forward (h.rows s.user) (h'.rows s.user)) :
    SessionOk h' s := by
  refine ⟨?_, fun hk => hok.2 (hsub ▸ hk)⟩
  intro b hb
  obtain ⟨a, ha, hab⟩ := hrow b hb
  exact Int.le_trans (hok.1 a ha) hab

theorem HubInv.commit (hi : HubInv h) (hs : hubStep h (.commit k out) = some h') : HubInv h' := by
  obtain ⟨c, e, src, v, m, hk, he, hp, hreq, ho, rfl⟩ := commit_cases hs
  have hcur := hi.running_current hk he hp ho
  have hhold : c.phase.holds = true := by simp [hp, Phase.holds]
  refine ⟨hi.gate, by simp [Hub.commit, hi.length], ?_, ?_, ?_⟩
  · intro j c' e' hj he'
    rcases getElem?_set_cases he' with ⟨rfl, rfl⟩ | ⟨hkj, he'⟩
    · cases hj.symm.trans hk
      exact ⟨fun _ => ⟨rfl, .inl ⟨src, v, hp⟩⟩, by simp, by simp, by simp⟩
    · have hok := hi.errands j c' e' hj he'
      refine ⟨hok.outcome, hok.positive, hok.own, ?_⟩
      intro ho' v' hv'
      -- a call of another user: its row is not touched
      have hu : c'.user ≠ c.user := by
        intro hu
        have hfree := hi.not_holding hk hhold hj hkj hu
        exact absurd (Phase.holds_of_version? hv') (by simp [hfree])
      have hst := hok.stable ho' v' hv'
      simpa [Hub.commit, Hub.setInFlight, Hub.setRow, Hub.currentVersion, hu] using hst
  · intro u m' hm'
    by_cases hu : u = c.user
    · subst hu
      refine .inr ⟨k, c, _, out, hk, getElem?_set_same he, rfl, hhold, rfl, ?_⟩
      simp only [Hub.commit, Hub.setInFlight, if_true] at hm'
      split at hm'
      · next hout => simp [hout, Outcome.uncertain]
      · exact absurd (hcur.1.symm.trans hm') (by simp)
    · have hm : h.inFlight u = some m' := by
        simpa [Hub.commit, Hub.setInFlight, hu] using hm'
      rcases hi.fenced u m' hm with hf | ⟨j, c', e', out', hj, he', hu', hrest⟩
      · exact .inl hf
      · have hkj : k ≠ j := by
          rintro rfl
          exact hu (hu' ▸ congrArg Call.user (mem_unique hj hk))
        exact .inr ⟨j, c', e', out', hj, (getElem?_set_ne hkj).trans he', hu', hrest⟩
  · intro s hsn
    refine (hi.sessions s hsn).forward rfl (forward_setRow ?_ s.user)
    split
    · exact forward_apply m _
    · exact .refl _

theorem HubInv.settle (hi : HubInv h) (hs : hubStep h (.settle k) = some h') : HubInv h' := by
  obtain ⟨c, e, out, g, hk, he, ho, hg, rfl⟩ := settle_cases hs
  have hok := hi.errands k c e hk he
  have hinv := hi.gate.step hg
  obtain ⟨c', r, hk', m, rfl⟩ := call_cases hg
  obtain rfl := mem_unique hk' hk
  have hupd : e.outcome ≠ none := by simp [ho]
  have hnew : HubInv { h with gate := h.gate.apply k c' r } := by
    generalize hunc : out.uncertain = unc at m
    cases m with
    | finish src v hp =>
      refine hi.move hk he hinv
        ⟨fun _ => ⟨(hok.outcome hupd).1, .inr rfl⟩, hok.positive, hok.own, by simp [ho]⟩
        (fun _ hf => hf) ?_
      rintro _ ⟨out', ho', hunc'⟩
      have hoo : out = out' := mem_unique ho ho'
      exact absurd (hoo ▸ hunc') (by simp [hunc])
    | finishUncertain src v hp hkind =>
      exact hi.move hk he hinv
        ⟨fun _ => ⟨(hok.outcome hupd).1, .inr rfl⟩, hok.positive, hok.own, by simp [ho]⟩
        (fun _ _ => by simp [UserState.fenced]) (fun _ _ => by simp [UserState.fenced])
  refine hnew.with_sessions ?_ ?_ h.grants
  · intro id s hsn
    split
    · refine ⟨s.markRevoked c'.user, by rw [getElem?_map, hsn]; rfl, ?_⟩
      unfold Session.markRevoked
      split <;> rfl
    · exact ⟨s, hsn, rfl⟩
  intro s hsn
  split at hsn
  · obtain ⟨s₀, hs₀, rfl⟩ := mem_map.mp hsn
    have hok₀ := hnew.sessions s₀ hs₀
    unfold Session.markRevoked
    split <;> exact hok₀
  · exact hnew.sessions s hsn

theorem HubInv.resolve {landed : Bool} (hi : HubInv h)
    (hs : hubStep h (.resolve u landed) = some h') : HubInv h' := by
  obtain ⟨m, hm, rfl⟩ := resolve_cases hs
  refine ⟨hi.gate, hi.length, ?_, ?_, ?_⟩
  · intro k c e hk he
    have hok := hi.errands k c e hk he
    refine ⟨hok.outcome, hok.positive, hok.own, ?_⟩
    intro ho v hv
    have hst := hok.stable ho v hv
    -- a subject with a transaction in flight has no version in anybody's hands
    have hu : c.user ≠ u := by
      intro hu
      exact absurd (hm.symm.trans (hu ▸ hst.1)) (by simp)
    simpa [Hub.setInFlight, Hub.setRow, Hub.currentVersion, hu] using hst
  · intro u' m' hm'
    have hold : h.inFlight u' = some m' := by
      simp only [Hub.setInFlight] at hm'
      split at hm'
      · cases hm'
      · exact hm'
    rcases hi.fenced u' m' hold with hf | ⟨j, c, e, out, hj⟩
    · exact .inl hf
    · exact .inr ⟨j, c, e, out, hj⟩
  · intro s hsn
    refine (hi.sessions s hsn).forward rfl (forward_setRow ?_ s.user)
    split
    · exact forward_apply m _
    · exact .refl _

/-- **Every step of the Hub keeps the invariant.** -/
theorem HubInv.step {op : Op} (hi : HubInv h) (hs : hubStep h op = some h') : HubInv h' := by
  cases op with
  | enter u r => exact hi.enter hs
  | gate k op => exact hi.gate_step hs
  | respond k => exact hi.respond hs
  | commit k out => exact hi.commit hs
  | settle k => exact hi.settle hs
  | resolve u landed => exact hi.resolve hs
  | done id =>
    obtain ⟨s, hsn, rfl⟩ := done_cases hs
    refine hi.with_sessions ?_ ?_ h.grants
    · exact sessionsKept_set hsn rfl
    intro s' hs'
    rcases mem_or_eq_of_mem_set hs' with hold | rfl
    · exact hi.sessions s' hold
    · exact hi.sessions s (mem_of_getElem? hsn)

theorem reachable_hubInv (hr : hubSystem.Reachable h) : HubInv h := by
  refine hr.invariant ?_ fun s e s' hs he => hs.step he
  rintro s ⟨subject, rows, inFlight, rfl⟩
  refine ⟨newGate_inv, rfl, by simp [newGate], ?_, by simp⟩
  intro u m _
  exact .inl rfl

/-! ## §4. Revocation. -/

/-- Nothing can permit session `j` any more: it is revoked, gone, or its
subject's row has moved past its version. -/
def Retired (j : Nat) (h : Hub) : Prop :=
  ∃ s, h.sessions[j]? = some s ∧ (s.state = .revoked ∨ s.present = false
    ∨ ∀ b, h.rows s.user = some b → s.version < b)

/-- A retired session fails the version test or the registry's. -/
theorem Retired.not_permitted (hret : Retired j h)
    (hs : h.sessions[j]? = some s) (hok : SessionOk h s)
    (hcur : h.currentVersion s.user = some v) (hv : v = s.version)
    (hp : s.present = true) : s.state = .revoked := by
  obtain ⟨s', hs', hrev | hgone | hold⟩ := hret
  · exact mem_unique hs' hs ▸ hrev
  · have hss : s' = s := mem_unique hs' hs
    exact absurd (hss ▸ hgone) (by simp [hp])
  · have hss : s' = s := mem_unique hs' hs
    subst hss hv
    unfold Hub.currentVersion at hcur
    split at hcur
    · exact absurd (hold _ hcur) (by omega)
    · next hsub =>
      -- a missing key has revision zero, which no session has
      cases hrow : h.rows s'.user with
      | none =>
        have hpos := hok.2 hsub
        simp only [hrow, getD_none, some.injEq] at hcur
        omega
      | some b =>
        have hlt := hold b hrow
        simp only [hrow, getD_some, some.injEq] at hcur
        omega

theorem Retired.rows_forward (hret : Retired j h)
    (hs : h'.sessions = h.sessions) (hrow : ∀ u, Forward (h.rows u) (h'.rows u)) :
    Retired j h' := by
  obtain ⟨s, hsn, hcase⟩ := hret
  refine ⟨s, hs ▸ hsn, hcase.imp id (Or.imp id ?_)⟩
  intro hold b hb
  obtain ⟨a, ha, hab⟩ := hrow s.user b hb
  have hlt := hold a ha
  omega

/-- Overwriting sessions keeps `j` retired if it is kept revoked, gone or as
it is. -/
theorem Retired.sessions (hret : Retired j h) (hrow : h'.rows = h.rows)
    (hs : ∀ s, h.sessions[j]? = some s → ∃ s', h'.sessions[j]? = some s'
      ∧ s'.user = s.user ∧ s'.version = s.version
      ∧ (s.state = .revoked → s'.state = .revoked)
      ∧ (s.present = false → s'.present = false)) : Retired j h' := by
  obtain ⟨s, hsn, hcase⟩ := hret
  obtain ⟨s', hsn', hu, hv, hrev, hgone⟩ := hs s hsn
  refine ⟨s', hsn', hcase.imp hrev (Or.imp hgone ?_)⟩
  rw [hrow, hu, hv]
  exact fun hold => hold

/-- **A retired session stays retired and is granted nothing.** -/
theorem Retired.step {op : Op} (hi : HubInv h) (hret : Retired j h) (hs : hubStep h op = some h') :
    Retired j h' ∧ h'.grants.count j = h.grants.count j := by
  cases op with
  | enter u r =>
    obtain ⟨_, g, _, rfl⟩ := enter_cases hs
    exact ⟨hret, rfl⟩
  | gate k op =>
    obtain ⟨c, g, _, _, rfl, _⟩ := gate_cases hs
    exact ⟨hret, rfl⟩
  | respond k =>
    obtain ⟨c, e, g, src, v, hk, he, hp, hkind, hg, hadm⟩ := respond_cases hs
    have ho := hi.outcome_none hk he hkind
    have hcur := (hi.running_current hk he hp ho).2
    have hown := (hi.errands k c e hk he).own
    -- the session a request is for is not `j`
    have hother : ∀ id s, h.sessions[id]? = some s → (e.request = .ready id ∨ e.request = .input id) →
        v = s.version → s.present = true → s.state ≠ .revoked → id ≠ j := by
      rintro id s hsn hreq hv hpres hst rfl
      obtain ⟨s', hsn', hu⟩ := hown id hreq
      obtain rfl := mem_unique hsn' hsn
      exact hst (hret.not_permitted hsn (hi.sessions s' (mem_of_getElem? hsn)) (hu ▸ hcur) hv hpres)
    generalize hreq : e.request = req at hadm
    cases hadm with
    | refused => exact ⟨hret, rfl⟩
    | registered =>
      refine ⟨hret.sessions rfl ?_, rfl⟩
      exact fun s hsn => ⟨s, getElem?_append_old hsn, rfl, rfl, fun h => h, fun h => h⟩
    | ready id s hsn hm =>
      simp only [mayReady, Bool.and_eq_true, beq_iff_eq] at hm
      have hne := hother id s hsn (.inl hreq) hm.1.1 hm.1.2 (by simp [hm.2])
      refine ⟨hret.sessions rfl ?_, count_cons_of_ne hne⟩
      exact fun s' hs' =>
        ⟨s', (getElem?_set_ne hne).trans hs', rfl, rfl, fun h => h, fun h => h⟩
    | input id s hsn hm =>
      simp only [mayInput, Bool.and_eq_true, beq_iff_eq] at hm
      have hne := hother id s hsn (.inr hreq) hm.1.1 hm.1.2 (by simp [hm.2])
      exact ⟨hret, count_cons_of_ne hne⟩
  | commit k out =>
    obtain ⟨c, e, src, v, m, _, _, _, _, _, rfl⟩ := commit_cases hs
    refine ⟨hret.rows_forward rfl (forward_setRow ?_), rfl⟩
    split
    · exact forward_apply m _
    · exact .refl _
  | settle k =>
    obtain ⟨c, e, out, g, _, _, _, _, rfl⟩ := settle_cases hs
    refine ⟨hret.sessions rfl ?_, rfl⟩
    intro s hsn
    show ∃ s', (if out.revokes then _ else _)[j]? = _ ∧ _
    split
    · refine ⟨s.markRevoked c.user, by rw [getElem?_map, hsn]; rfl, ?_⟩
      unfold Session.markRevoked
      split
      · exact ⟨rfl, rfl, fun _ => rfl, fun h => h⟩
      · exact ⟨rfl, rfl, fun h => h, fun h => h⟩
    · exact ⟨s, hsn, rfl, rfl, fun h => h, fun h => h⟩
  | resolve u landed =>
    obtain ⟨m, _, rfl⟩ := resolve_cases hs
    refine ⟨hret.rows_forward rfl (forward_setRow ?_), rfl⟩
    split
    · exact forward_apply m _
    · exact .refl _
  | done id =>
    obtain ⟨s, hsn, rfl⟩ := done_cases hs
    refine ⟨hret.sessions rfl ?_, rfl⟩
    intro s' hs'
    by_cases hij : id = j
    · subst hij
      cases hsn.symm.trans hs'
      exact ⟨_, getElem?_set_same hsn, rfl, rfl, fun h => h, fun _ => rfl⟩
    · exact ⟨s', (getElem?_set_ne hij).trans hs', rfl, rfl, fun h => h, fun h => h⟩

theorem Retired.run {ops : List Op} (hr : hubSystem.Reachable h)
    (hret : Retired j h) (hs : hubSystem.run h ops = some h') :
    h'.grants.count j = h.grants.count j := by
  have key : hubSystem.Reachable h' ∧ Retired j h' ∧ h'.grants.count j = h.grants.count j := by
    refine System.run_invariant (I := fun x => hubSystem.Reachable x ∧ Retired j x
      ∧ x.grants.count j = h.grants.count j) ?_ ops h h' ⟨hr, hret, rfl⟩ hs
    intro x op x' hI hstep
    obtain ⟨hret', hcount⟩ := hI.2.1.step (reachable_hubInv hI.1) hstep
    exact ⟨hI.1.step hstep, hret', hcount.trans hI.2.2⟩
  exact key.2.2

/-- The end of a mutation's gate section retires the sessions of its subject
that `MarkRevoked` found, and those that are not of the current version. -/
theorem settle_retires (hi : HubInv h) (hk : h.gate.calls[k]? = some c)
    (he : h.errands[k]? = some e) (ho : e.outcome = some out)
    (hs : hubStep h (.settle k) = some h') (hj : h.sessions[j]? = some s)
    (hu : s.user = c.user)
    (hold : out.revokes = true ∨ h'.currentVersion s.user ≠ some s.version) :
    Retired j h' := by
  obtain ⟨c', e', out', g, hk', he', ho', _, rfl⟩ := settle_cases hs
  have hcc : c' = c := mem_unique hk' hk
  have hee : e' = e := mem_unique he' he
  subst hcc hee
  obtain rfl := mem_unique ho' ho
  by_cases hrev : out'.revokes = true
  · refine ⟨s.markRevoked c'.user, ?_, ?_⟩
    · show (if out'.revokes then _ else _)[j]? = _
      rw [if_pos hrev, getElem?_map, hj]
      rfl
    · unfold Session.markRevoked
      by_cases hp : s.present = true
      · exact .inl (by simp [hu, hp])
      · exact .inr (.inl (by simp [hu, hp]))
  · refine ⟨s, ?_, .inr (.inr ?_)⟩
    · show (if out'.revokes then _ else _)[j]? = _
      rw [if_neg hrev]
      exact hj
    · intro b hb
      have hle := (hi.sessions s (mem_of_getElem? hj)).1 b hb
      have hne : s.version ≠ b := by
        rintro rfl
        refine hold.resolve_left hrev ?_
        have hb' : h.rows s.user = some s.version := hb
        unfold Hub.currentVersion
        split
        · exact hb'
        · simp [hb']
      omega

/-- **Terminal revocation.**  In every reachable Hub: a session is registered
only under the version current under the gate; and once the gate section of a
mutation has ended, no session of that subject that existed then and that the
mutation may have outdated (it was committed or its outcome is unknown), or
whose version is not the current one, ever again obtains `Admit` or
`InputPermit`. -/
theorem revoked_terminal_never_permitted (h : Hub) (hr : hubSystem.Reachable h) :
    (∀ op h' (j : Nat) (s : Session), hubStep h op = some h' → h.sessions[j]? = none →
      h'.sessions[j]? = some s → h.currentVersion s.user = some s.version)
    ∧ (∀ (k : Nat) (c : Call) (e : Errand) (out : Outcome) (h' h'' : Hub) (ops : List Op)
        (j : Nat) (s : Session),
        h.gate.calls[k]? = some c → h.errands[k]? = some e → e.outcome = some out →
        hubStep h (.settle k) = some h' → hubSystem.run h' ops = some h'' →
        h.sessions[j]? = some s → s.user = c.user →
        (out.revokes = true ∨ h'.currentVersion s.user ≠ some s.version) →
        h''.grants.count j = h'.grants.count j) := by
  have hi := reachable_hubInv hr
  refine ⟨?_, ?_⟩
  · intro op h' j s hs hj hj'
    cases op with
    | respond k =>
      obtain ⟨c, e, g, src, v, hk, he, hp, hkind, _, hadm⟩ := respond_cases hs
      have ho := hi.outcome_none hk he hkind
      have hcur := (hi.running_current hk he hp ho).2
      generalize e.request = req at hadm
      cases hadm with
      | registered =>
        simp only [register, getElem?_append] at hj'
        split at hj'
        · exact absurd (hj.symm.trans hj') (by simp)
        · obtain ⟨_, rfl⟩ := List.getElem?_eq_some_iff.mp hj'
          simpa using hcur
      | refused | input id s' hsn hm => exact absurd (hj.symm.trans hj') (by simp)
      | ready id s' hsn hm =>
        have hlen : (h.sessions.set id { s' with state := .ready })[j]? = none := by
          rw [List.getElem?_eq_none_iff, List.length_set]
          exact getElem?_eq_none_iff.mp hj
        exact absurd (hlen.symm.trans hj') (by simp)
    | enter u r =>
      obtain ⟨_, g, _, rfl⟩ := enter_cases hs
      exact absurd (hj.symm.trans hj') (by simp)
    | gate k op =>
      obtain ⟨c, g, _, _, rfl, _⟩ := gate_cases hs
      exact absurd (hj.symm.trans hj') (by simp)
    | commit k out =>
      obtain ⟨c, e, src, v, m, _, _, _, _, _, rfl⟩ := commit_cases hs
      exact absurd (hj.symm.trans hj') (by simp)
    | settle k =>
      obtain ⟨c, e, out, g, _, _, _, _, rfl⟩ := settle_cases hs
      have hlen : h.sessions.length ≤ j := getElem?_eq_none_iff.mp hj
      have hlt := (List.getElem?_eq_some_iff.mp hj').1
      simp only at hlt
      split at hlt
      · rw [length_map] at hlt
        omega
      · omega
    | resolve u landed =>
      obtain ⟨m, _, rfl⟩ := resolve_cases hs
      exact absurd (hj.symm.trans hj') (by simp)
    | done id =>
      obtain ⟨s', _, rfl⟩ := done_cases hs
      have hlen : h.sessions.length ≤ j := getElem?_eq_none_iff.mp hj
      have hlt := (List.getElem?_eq_some_iff.mp hj').1
      simp only [length_set] at hlt
      omega
  · intro k c e out h' h'' ops j s hk he ho hs hrun hj hu hold
    exact (settle_retires hi hk he ho hs hj hu hold).run (hr.step (e := .settle k) hs) hrun

/-- User 1 registers a terminal under version 3; a password change of unknown
outcome, still in flight, revokes it, and its second admission is refused even
though the change is lost in the end. -/
theorem revoked_terminal_never_permitted_unknown_commit :
    ∃ h h' h'' : Hub,
      hubSystem.run ⟨.user, newGate, [], fun _ => some 3, fun _ => none, [], []⟩
          [.enter 1 (.register 3), .gate 0 .lock, .gate 0 (.readOk 3), .gate 0 .enter, .respond 0,
           .enter 1 (.mutate .changePassword), .gate 1 .lock, .gate 1 (.readOk 3),
           .gate 1 .enter, .commit 1 (.unknown .inFlight)] = some h
      ∧ hubStep h (.settle 1) = some h' ∧ h'.grants.count 0 = 0
      ∧ hubSystem.run h'
          [.resolve 1 false, .enter 1 (.ready 0), .gate 2 .lock, .gate 2 (.readOk 3),
           .gate 2 .enter, .respond 2] = some h''
      ∧ h''.grants.count 0 = h'.grants.count 0 := by
  have hrun : hubSystem.run ⟨.user, newGate, [], fun _ => some 3, fun _ => none, [], []⟩
      [.enter 1 (.register 3), .gate 0 .lock, .gate 0 (.readOk 3), .gate 0 .enter, .respond 0,
       .enter 1 (.mutate .changePassword), .gate 1 .lock, .gate 1 (.readOk 3),
       .gate 1 .enter, .commit 1 (.unknown .inFlight)] = some _ := rfl
  refine ⟨_, _, _, hrun, rfl, rfl, rfl, ?_⟩
  exact (revoked_terminal_never_permitted _ ⟨_, _, ⟨_, _, _, rfl⟩, hrun⟩).2 1 _ _ _ _ _
    [.resolve 1 false, .enter 1 (.ready 0), .gate 2 .lock, .gate 2 (.readOk 3),
     .gate 2 .enter, .respond 2] 0 _ rfl rfl rfl rfl rfl rfl rfl (.inl rfl)

end Talus.Admission
