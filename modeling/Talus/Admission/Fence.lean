/-
  Talus.Admission.Fence
  **THE UNCERTAINTY FENCE HOLDS.**

  A user is fenced from construction, and again from an `Update` whose outcome
  is unknown, until the recovery source succeeds.  The argument is short once
  the lock is known to be exclusive: while a call holds the lock nobody else
  changes the user's flags, so what `withUser` saw when it chose its source is
  still true when the callback starts.

    • `GateInv` — exclusivity, and "unfenced" means "recovered since the last
      uncertain outcome";
    • `fence_holds` — the result for every interleaving.
-/
import Talus.Base.Count
import Talus.Base.History
import Talus.Admission.Gate

namespace Talus.Admission

open Talus.Base

/-! ## §1. The invariant. -/

/-- The recovery source has succeeded for `u` since the last uncertain outcome
of an `Update` of `u` (or since construction). -/
def Cleared (u : UserID) (log : List GateEvent) : Prop :=
  Since (· = .recovered u) (· ≠ .uncertain u) log

/-- Callbacks with an ordinary version run on a cleared user only. -/
def ClearedCallback (before : List GateEvent) (ev : GateEvent) : Prop :=
  ∀ u, ev = .callback u .ordinary → Cleared u before

/-- The call is of user `u` and holds its lock. -/
def holdsLockOf (u : UserID) (c : Call) : Bool :=
  c.user == u && c.phase.holds

structure GateInv (g : Gate) : Prop where
  exclusive : ∀ u, g.calls.countP (holdsLockOf u) = (g.users u).locked.toNat
  reading : ∀ (k : Nat) (c : Call), g.calls[k]? = some c → c.phase = .reading .ordinary →
    (g.users c.user).fenced = false
  fetched : ∀ (k : Nat) (c : Call) (src : Source) (v : Int), g.calls[k]? = some c →
    c.phase = .fetched src v → Cleared c.user g.log
  cleared : ∀ u, (g.users u).fenced = false → Cleared u g.log
  callbacks : Justified ClearedCallback g.log

theorem newGate_inv : GateInv newGate := by
  refine ⟨by simp [newGate], by simp [newGate], by simp [newGate], ?_, justified_nil⟩
  intro u hu
  exact absurd hu (by simp [newGate, UserState.fenced])

/-! ## §2. One step. -/

variable {c : Call} {op : CallOp} {r : Phase × UserState × List GateEvent}

/-- What a move does to the lock, it does to its own phase. -/
theorem CallMove.lock_balance {st : UserState} (m : CallMove c st op r)
    (hst : c.phase.holds = true → st.locked = true) :
    r.2.1.locked.toNat + c.phase.holds.toNat = st.locked.toNat + r.1.holds.toNat := by
  cases m <;> simp_all [Phase.holds]

variable {g : Gate} {k : Nat}

theorem GateInv.locked_of_holds (h : GateInv g)
    (hk : g.calls[k]? = some c) (hh : c.phase.holds = true) :
    (g.users c.user).locked = true := by
  have hpos := countP_pos_of_getElem? (q := holdsLockOf c.user) hk (by simp [holdsLockOf, hh])
  rw [h.exclusive c.user] at hpos
  cases hl : (g.users c.user).locked with
  | true => rfl
  | false => simp [hl] at hpos

/-- **The lock is exclusive**: one call of a user at a time. -/
theorem GateInv.holder_unique (h : GateInv g) {j : Nat} {c' : Call}
    (hk : g.calls[k]? = some c) (hj : g.calls[j]? = some c') (hu : c'.user = c.user)
    (hc : c.phase.holds = true) (hc' : c'.phase.holds = true) : k = j := by
  have hle : g.calls.countP (holdsLockOf c.user) ≤ 1 := by
    rw [h.exclusive c.user]
    exact Bool.toNat_le _
  exact countP_le_one_unique hle hk hj (by simp [holdsLockOf, hc]) (by simp [holdsLockOf, hu, hc'])

/-- While one call moves, no other call of its user is between taking the lock
and releasing it; giving up in the queue moves nothing. -/
theorem GateInv.alone (h : GateInv g) {j : Nat} {c' : Call} (hk : g.calls[k]? = some c)
    (m : CallMove c (g.users c.user) op r) (hop : op ≠ .giveUp)
    (hj : g.calls[j]? = some c') (hjk : k ≠ j) (hu : c'.user = c.user) :
    c'.phase.holds = false := by
  by_contra hne
  have hholds : c'.phase.holds = true := by simpa using hne
  have hlock : (g.users c.user).locked = true := hu ▸ h.locked_of_holds hj hholds
  have hself : c.phase.holds = true := by
    cases m <;> simp_all [Phase.holds]
  exact hjk (h.holder_unique hk hj hu hself hholds)

/-- What the call that moves contributes to the invariant. -/
structure MoveFence (c : Call) (st : UserState) (log : List GateEvent)
    (r : Phase × UserState × List GateEvent) : Prop where
  reading : r.1 = .reading .ordinary → r.2.1.fenced = false
  fetched : ∀ src v, r.1 = .fetched src v → Cleared c.user (log ++ r.2.2)
  cleared : r.2.1.fenced = false → Cleared c.user (log ++ r.2.2)
  callbacks : Justified ClearedCallback (log ++ r.2.2)
  others : ∀ u, u ≠ c.user → ∀ ev ∈ r.2.2, ev ≠ .uncertain u

theorem GateInv.moveFence (h : GateInv g) (hk : g.calls[k]? = some c)
    (m : CallMove c (g.users c.user) op r) :
    MoveFence c (g.users c.user) g.log r := by
  -- a move that logs nothing and leaves the two flags alone
  have quiet : ∀ (ph : Phase) (st : UserState), st.fenced = (g.users c.user).fenced →
      (ph = .reading .ordinary → st.fenced = false) → (∀ src v, ph ≠ .fetched src v) →
      MoveFence c (g.users c.user) g.log (ph, st, []) := by
    intro ph st hf hr hph
    refine ⟨hr, fun src v he => absurd he (hph src v), ?_, ?_, by simp⟩
    · intro hc
      simpa using h.cleared c.user (hf ▸ hc)
    · simpa using h.callbacks
  cases m with
  | giveUp hp | readFail src hp | lateFail src v hp | finish src v hp =>
    exact quiet _ _ rfl (by simp) (by simp)
  | lock hp hl =>
    refine quiet _ _ rfl ?_ (by simp)
    intro hsrc
    injection hsrc with hsrc
    unfold UserState.source at hsrc
    split at hsrc
    · cases hsrc
    · next hf => simpa [UserState.fenced] using hf
  | readOk src v hp =>
    cases src with
    | ordinary =>
      have hun := h.reading k c hk hp
      have hcl := h.cleared c.user hun
      exact ⟨by simp, fun _ _ _ => by simpa using hcl, fun _ => by simpa using hcl,
        by simpa using h.callbacks, by simp⟩
    | recovery =>
      have hcl : Cleared c.user (g.log ++ [.recovered c.user]) := since_snoc g.log rfl
      refine ⟨by simp, fun _ _ _ => by simpa using hcl, fun _ => by simpa using hcl, ?_, by simp⟩
      refine h.callbacks.snoc ?_
      intro u hu
      cases hu
  | enter src v hp =>
    have hcl := h.fetched k c src v hk hp
    refine ⟨by simp, by simp, fun _ => hcl.append (by simp), ?_, by simp⟩
    refine h.callbacks.snoc ?_
    intro u hu
    injection hu with hu _
    exact hu ▸ hcl
  | finishUncertain src v hp hkind =>
    refine ⟨by simp, by simp, ?_, ?_, ?_⟩
    · intro hf
      exact absurd hf (by simp [UserState.fenced])
    · refine h.callbacks.snoc ?_
      intro u hu
      cases hu
    · intro u hu ev hev
      rw [List.mem_singleton.mp hev]
      simpa using Ne.symm hu

variable {g' : Gate}

theorem GateInv.call (h : GateInv g) (hs : gateStep g (.call k op) = some g') : GateInv g' := by
  obtain ⟨c, r, hk, m, rfl⟩ := call_cases hs
  have mf := h.moveFence hk m
  have hcleared : ∀ u, Cleared u g.log → u ≠ c.user → Cleared u (g.log ++ r.2.2) :=
    fun u hu hne => hu.append (mf.others u hne)
  -- the calls read back: the one that moved, or another one
  have hread : ∀ {j : Nat} {c' : Call}, (g.apply k c r).calls[j]? = some c' →
      (k = j ∧ c' = { c with phase := r.1 }) ∨ (k ≠ j ∧ g.calls[j]? = some c') :=
    fun hj => getElem?_set_cases hj
  constructor
  · intro u
    have hcount := countP_set_toNat (holdsLockOf u) { c with phase := r.1 } hk
    have hold := h.exclusive u
    have hbal := m.lock_balance (h.locked_of_holds hk)
    simp only [Gate.apply]
    by_cases hu : u = c.user
    · subst hu
      simp only [holdsLockOf, beq_self_eq_true, Bool.true_and, if_true] at hcount ⊢
      omega
    · have hb : (c.user == u) = false := by simpa using Ne.symm hu
      simp only [holdsLockOf, hb, Bool.false_and, Bool.toNat_false, hu, if_false] at hcount ⊢
      omega
  · intro j c' hj hp
    simp only [Gate.apply]
    rcases hread hj with ⟨_, rfl⟩ | ⟨hjk, hold⟩
    · simpa using mf.reading hp
    · by_cases hu : c'.user = c.user
      · by_cases hop : op = .giveUp
        · subst hop
          cases m
          simpa [hu] using h.reading j c' hold hp
        · exact absurd (h.alone hk m hop hold hjk hu) (by simp [hp, Phase.holds])
      · simpa [hu] using h.reading j c' hold hp
  · intro j c' src v hj hp
    rcases hread hj with ⟨_, rfl⟩ | ⟨hjk, hold⟩
    · exact mf.fetched src v hp
    · by_cases hu : c'.user = c.user
      · by_cases hop : op = .giveUp
        · subst hop
          cases m
          simpa [Gate.apply] using h.fetched j c' src v hold hp
        · exact absurd (h.alone hk m hop hold hjk hu) (by simp [hp, Phase.holds])
      · exact hcleared _ (h.fetched j c' src v hold hp) hu
  · intro u hf
    simp only [Gate.apply] at hf ⊢
    by_cases hu : u = c.user
    · subst hu
      exact mf.cleared (by simpa using hf)
    · exact hcleared u (h.cleared u (by simpa [hu] using hf)) hu
  · exact mf.callbacks

theorem GateInv.start {u : UserID} {kind : Kind} (h : GateInv g)
    (hs : gateStep g (.start u kind) = some g') : GateInv g' := by
  cases hs
  have hread : ∀ {j : Nat} {c' : Call}, (g.calls ++ [⟨u, kind, .waiting⟩])[j]? = some c' →
      g.calls[j]? = some c' ∨ c'.phase = .waiting := by
    intro j c' hj
    rw [List.getElem?_append] at hj
    split at hj
    · exact .inl hj
    · obtain ⟨_, rfl⟩ := List.getElem?_eq_some_iff.mp hj
      exact .inr (by simp)
  constructor
  · intro u'
    simpa [holdsLockOf, Phase.holds] using h.exclusive u'
  · intro j c' hj hp
    rcases hread hj with hj | hw
    · exact h.reading j c' hj hp
    · exact absurd (hw.symm.trans hp) (by simp)
  · intro j c' src v hj hp
    rcases hread hj with hj | hw
    · exact h.fetched j c' src v hj hp
    · exact absurd (hw.symm.trans hp) (by simp)
  · exact h.cleared
  · exact h.callbacks

/-- **Every step of the gate keeps the invariant.** -/
theorem GateInv.step {op : GateOp} (h : GateInv g) (hs : gateStep g op = some g') : GateInv g' := by
  cases op with
  | start u kind => exact h.start hs
  | call k op => exact h.call hs

theorem reachable_gateInv (h : gateSystem.Reachable g) : GateInv g := by
  refine h.invariant ?_ fun s e s' hs he => hs.step he
  rintro s rfl
  exact newGate_inv

/-! ## §3. The fence. -/

/-- The steps by which a call ends without running its callback. -/
def CallOp.fails : CallOp → Bool
  | .giveUp | .readFail | .lateFail => true
  | _ => false

/-- The two flags of a user that make up the fence. -/
def UserState.fence (st : UserState) : Bool × Bool :=
  (st.initialized, st.pending)

theorem CallMove.fence_of_fails {st : UserState} (m : CallMove c st op r)
    (hop : op.fails = true) : r.2.1.fence = st.fence := by
  cases m <;> first | rfl | exact absurd hop (by simp [CallOp.fails])

/-- **The uncertainty fence.**  In every reachable gate: a callback of user `u`
ran with a version of the ordinary source only after the recovery source had
succeeded for `u`, with no uncertain `Update` of `u` in between; a new gate
fences everyone and an uncertain `Update` fences its user; a call that fails
leaves every fence as it is; and a step of a call touches the fence of its own
user only. -/
theorem fence_holds (g : Gate) (h : gateSystem.Reachable g) :
    (∀ before after u, g.log = before ++ .callback u .ordinary :: after →
      ∃ first between, before = first ++ .recovered u :: between
        ∧ GateEvent.uncertain u ∉ between)
    ∧ (∀ u, (newGate.users u).fenced = true)
    ∧ (∀ k c g', g.calls[k]? = some c → gateStep g (.call k (.finish true)) = some g' →
        (g'.users c.user).fenced = true)
    ∧ (∀ k op g', gateStep g (.call k op) = some g' → op.fails = true →
        ∀ u, (g'.users u).fence = (g.users u).fence)
    ∧ (∀ k c op g', g.calls[k]? = some c → gateStep g (.call k op) = some g' →
        ∀ u, u ≠ c.user → (g'.users u).fence = (g.users u).fence) := by
  refine ⟨?_, fun u => rfl, ?_, ?_, ?_⟩
  · intro before after u hlog
    obtain ⟨first, _, between, hb, rfl, hafter⟩ :=
      (reachable_gateInv h).callbacks before _ after hlog u rfl
    exact ⟨first, between, hb, fun hin => hafter _ hin rfl⟩
  · intro k c g' hk hs
    obtain ⟨c', r, hk', m, rfl⟩ := call_cases hs
    cases hk'.symm.trans hk
    cases m
    simp [Gate.apply, UserState.fenced]
  · intro k op g' hs hop u
    obtain ⟨c, r, _, m, rfl⟩ := call_cases hs
    simp only [Gate.apply]
    split
    · next hu => rw [m.fence_of_fails hop, hu]
    · rfl
  · intro k c op g' hk hs u hu
    obtain ⟨c', r, hk', m, rfl⟩ := call_cases hs
    cases hk'.symm.trans hk
    simp [Gate.apply, hu]

/-- A first admission recovers user 1; an uncertain mutation fences it; a
recovery fails, the next one succeeds, and only then a callback runs with an
ordinary version. -/
theorem fence_holds_after_failed_recovery :
    ∃ g, gateSystem.run newGate
        [.start 1 .update, .call 0 .lock, .call 0 (.readOk 5), .call 0 .enter,
         .call 0 (.finish true),
         .start 1 .admission, .call 1 .lock, .call 1 .readFail,
         .start 1 .admission, .call 2 .lock, .call 2 (.readOk 6), .call 2 .enter,
         .call 2 (.finish false),
         .start 1 .admission, .call 3 .lock, .call 3 (.readOk 6), .call 3 .enter] = some g
      ∧ ∃ first between,
          [.recovered 1, .callback 1 .recovery, .uncertain 1, .recovered 1,
           .callback 1 .recovery] = first ++ .recovered 1 :: between
          ∧ GateEvent.uncertain 1 ∉ between := by
  exact System.exists_run rfl fun hrun => (fence_holds _ ⟨_, _, rfl, hrun⟩).1 _ [] 1 rfl

end Talus.Admission
