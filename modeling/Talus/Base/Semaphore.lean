/-
  Talus.Base.Semaphore
  **NESTED SEMAPHORES THAT ARE TAKEN WITHOUT WAITING.**

  A call of some kind takes the semaphores of its kind one after the other,
  each only if it has room; the first that has none turns the call back.  A
  call that has them all works, and then gives them back in the opposite
  order.  Any number of calls do this at once, a step at a time.

    • `HeldInv`: a semaphore is used as often as calls hold it, and never
      beyond its capacity,
    • `countHeld_le`: calls that take `k'` before `k` hold `k'` at least as
      often as `k`, with `countHeld_lt` when one of them is between the two.
-/
import Talus.Base.Run
import Talus.Base.Count

namespace Talus.Base

open List Option Function

/-! ## §1. Calls. -/

/-- Semaphores `κ` and what each kind of call takes, in order. -/
structure Discipline (κ τ : Type) where
  capacity : κ → Nat
  needs : τ → List κ
  nodup : ∀ t, (needs t).Nodup

/-- A call that holds the first `held` of its semaphores.  One that is leaving
takes no more. -/
structure Call (τ : Type) where
  kind : τ
  held : Nat
  leaving : Bool
  deriving DecidableEq, Repr

/-- A call that has not returned. -/
def Call.inProgress {τ : Type} (c : Call τ) : Bool := !c.leaving || decide (0 < c.held)

/-- The semaphores' counters, and every call so far. -/
structure Slots (κ τ : Type) where
  used : κ → Nat
  calls : List (Call τ)

inductive SlotEvent (τ : Type)
  | enter (kind : τ)
  /-- the next semaphore is taken, or the call turns back -/
  | take (i : Nat)
  /-- a call that has them all is done -/
  | done (i : Nat)
  | release (i : Nat)

variable {κ τ : Type} [DecidableEq κ]

namespace Discipline

variable (D : Discipline κ τ)

def holds (k : κ) (c : Call τ) : Bool := decide (k ∈ (D.needs c.kind).take c.held)

/-- A call that has all it needs and is not done. -/
def working (c : Call τ) : Bool := !c.leaving && decide (c.held = (D.needs c.kind).length)

/-- The call would be turned back by its next semaphore. -/
def refused (s : Slots κ τ) (c : Call τ) : Bool :=
  !c.leaving && ((D.needs c.kind)[c.held]?).any fun k => decide (D.capacity k ≤ s.used k)

def take (s : Slots κ τ) (i : Nat) (c : Call τ) (k : κ) : Slots κ τ :=
  if s.used k < D.capacity k then
    ⟨Function.update s.used k (s.used k + 1), s.calls.set i { c with held := c.held + 1 }⟩
  else { s with calls := s.calls.set i { c with leaving := true } }

def step (s : Slots κ τ) : SlotEvent τ → Option (Slots κ τ)
  | .enter kind => some { s with calls := s.calls ++ [⟨kind, 0, false⟩] }
  | .take i => (s.calls[i]?).bind fun c =>
    if c.leaving then none else ((D.needs c.kind)[c.held]?).map (D.take s i c)
  | .done i => (s.calls[i]?).bind fun c =>
    if D.working c then some { s with calls := s.calls.set i { c with leaving := true } } else none
  | .release i => (s.calls[i]?).bind fun c =>
    if c.leaving && decide (0 < c.held) then
      ((D.needs c.kind)[c.held - 1]?).map fun k =>
        ⟨Function.update s.used k (s.used k - 1), s.calls.set i { c with held := c.held - 1 }⟩
    else none

/-- No call, nothing used. -/
def free (s : Slots κ τ) : Prop := (∀ k, s.used k = 0) ∧ s.calls = []

def slots : System (Slots κ τ) (SlotEvent τ) where
  init := free
  step := D.step

end Discipline

/-! ## §2. The counters count. -/

variable {D : Discipline κ τ} {s s' : Slots κ τ}

variable {c : Call τ}

/-- What a call holds when it has taken one more. -/
theorem holds_succ {k : κ} (hk : (D.needs c.kind)[c.held]? = some k) (k' : κ) :
    (D.holds k' { c with held := c.held + 1 }).toNat =
      (D.holds k' c).toNat + (decide (k' = k)).toNat := by
  have htake : (D.needs c.kind).take (c.held + 1) = (D.needs c.kind).take c.held ++ [k] := by
    rw [take_add_one, hk]
    rfl
  have hnodup : ((D.needs c.kind).take (c.held + 1)).Nodup :=
    (D.nodup c.kind).sublist (take_sublist _ _)
  rw [htake] at hnodup
  have hfresh : k ∉ (D.needs c.kind).take c.held := fun hmem =>
    (nodup_append.1 hnodup).2.2 k hmem k (mem_singleton_self k) rfl
  unfold Discipline.holds
  simp only [htake, mem_append, mem_singleton]
  by_cases hkk : k' = k
  · subst hkk
    simp [hfresh]
  · simp [hkk]

structure HeldInv (D : Discipline κ τ) (s : Slots κ τ) : Prop where
  used : ∀ k, s.used k = s.calls.countP (D.holds k)
  bound : ∀ k, s.used k ≤ D.capacity k

variable {i : Nat}

/-- A call that turns back holds what it held. -/
theorem heldInv_leave (h : HeldInv D s) (hc : s.calls[i]? = some c) :
    HeldInv D { s with calls := s.calls.set i { c with leaving := true } } := by
  refine ⟨fun k => ?_, h.bound⟩
  have hset := countP_set_toNat (D.holds k) { c with leaving := true } hc
  have hsame : D.holds k { c with leaving := true } = D.holds k c := rfl
  have hused := h.used k
  show s.used k = (s.calls.set i { c with leaving := true }).countP (D.holds k)
  rw [hsame] at hset
  omega

theorem heldInv_take (h : HeldInv D s) {k : κ}
    (hc : s.calls[i]? = some c) (hk : (D.needs c.kind)[c.held]? = some k) :
    HeldInv D (D.take s i c k) := by
  unfold Discipline.take
  by_cases hroom : s.used k < D.capacity k
  · rw [if_pos hroom]
    refine ⟨fun k' => ?_, fun k' => ?_⟩
    · have hset := countP_set_toNat (D.holds k') { c with held := c.held + 1 } hc
      have hone := holds_succ hk k'
      have hused := h.used k'
      show Function.update s.used k (s.used k + 1) k' =
        (s.calls.set i { c with held := c.held + 1 }).countP (D.holds k')
      by_cases hkk : k' = k
      · subst hkk
        rw [update_self]
        simp at hone
        omega
      · rw [update_of_ne hkk]
        simp [hkk] at hone
        omega
    · show Function.update s.used k (s.used k + 1) k' ≤ _
      by_cases hkk : k' = k
      · subst hkk
        rw [update_self]
        exact hroom
      · rw [update_of_ne hkk]
        exact h.bound k'
  · rw [if_neg hroom]
    exact heldInv_leave h hc

theorem heldInv_release (h : HeldInv D s) {k : κ} (hc : s.calls[i]? = some c) (hheld : 0 < c.held)
    (hk : (D.needs c.kind)[c.held - 1]? = some k) :
    HeldInv D ⟨Function.update s.used k (s.used k - 1),
      s.calls.set i { c with held := c.held - 1 }⟩ := by
  -- the call as it is now has taken one more than the call as it will be
  have hback : ({ c with held := c.held - 1 + 1 } : Call τ) = c := by
    rw [Nat.sub_add_cancel hheld]
  have hone : ∀ k', (D.holds k' c).toNat =
      (D.holds k' { c with held := c.held - 1 }).toNat + (decide (k' = k)).toNat := by
    intro k'
    have := holds_succ (D := D) (c := { c with held := c.held - 1 }) hk k'
    rwa [hback] at this
  refine ⟨fun k' => ?_, fun k' => ?_⟩
  · have hset := countP_set_toNat (D.holds k') { c with held := c.held - 1 } hc
    have hk' := hone k'
    have hused := h.used k'
    show Function.update s.used k (s.used k - 1) k' =
      (s.calls.set i { c with held := c.held - 1 }).countP (D.holds k')
    by_cases hkk : k' = k
    · subst hkk
      rw [update_self]
      simp at hk'
      omega
    · rw [update_of_ne hkk]
      simp [hkk] at hk'
      omega
  · show Function.update s.used k (s.used k - 1) k' ≤ _
    have hbound := h.bound k'
    by_cases hkk : k' = k
    · subst hkk
      rw [update_self]
      omega
    · rw [update_of_ne hkk]
      exact hbound

theorem heldInv_step (s : Slots κ τ) (e : SlotEvent τ) (s' : Slots κ τ) (h : HeldInv D s)
    (hstep : D.step s e = some s') : HeldInv D s' := by
  cases e with
  | enter kind =>
    cases hstep
    refine ⟨fun k => ?_, h.bound⟩
    show s.used k = (s.calls ++ [_]).countP (D.holds k)
    rw [countP_append_single, h.used k]
    simp [Discipline.holds]
  | take i =>
    obtain ⟨c, hc, hstep⟩ := bind_eq_some_iff.1 hstep
    split at hstep
    · cases hstep
    · obtain ⟨k, hk, rfl⟩ := map_eq_some_iff.1 hstep
      exact heldInv_take h hc hk
  | done i =>
    obtain ⟨c, hc, hstep⟩ := bind_eq_some_iff.1 hstep
    split at hstep
    · cases hstep
      exact heldInv_leave h hc
    · cases hstep
  | release i =>
    obtain ⟨c, hc, hstep⟩ := bind_eq_some_iff.1 hstep
    split at hstep
    case isTrue hleaving =>
      obtain ⟨k, hk, rfl⟩ := map_eq_some_iff.1 hstep
      exact heldInv_release h hc (by simpa using (Bool.and_eq_true_iff.1 hleaving).2) hk
    case isFalse => cases hstep

/-- **Every counter is the number of holders, within its capacity.** -/
theorem heldInv_reachable (h : D.slots.Reachable s) : HeldInv D s := by
  refine h.invariant (fun s₀ hfree => ⟨fun k => ?_, fun k => ?_⟩) heldInv_step
  · rw [hfree.1 k, hfree.2]
    rfl
  · rw [hfree.1 k]
    exact Nat.zero_le _

/-! ## §3. The order in which semaphores are taken. -/

/-- Calls of the kinds `P` that hold `k`. -/
def Discipline.countHeld (D : Discipline κ τ) (s : Slots κ τ) (P : τ → Bool) (k : κ) : Nat :=
  s.calls.countP fun c => P c.kind && D.holds k c

/-- Calls of kinds `P` take `k'` before `k`. -/
def Discipline.Before (D : Discipline κ τ) (P : τ → Bool) (k' k : κ) : Prop :=
  ∀ t, P t = true → ∀ n, k ∈ (D.needs t).take n → k' ∈ (D.needs t).take n

variable {P Q : τ → Bool} {k k' : κ}

/-- Whoever holds the inner semaphore holds the outer one. -/
theorem holds_before (hbefore : D.Before P k' k)
    (h : (P c.kind && D.holds k c) = true) : (P c.kind && D.holds k' c) = true := by
  obtain ⟨hP, hk⟩ := Bool.and_eq_true_iff.1 h
  rw [hP, Bool.true_and]
  exact decide_eq_true (hbefore c.kind hP c.held (of_decide_eq_true hk))

theorem countHeld_le (hbefore : D.Before P k' k) (s : Slots κ τ) :
    D.countHeld s P k ≤ D.countHeld s P k' :=
  countP_mono_left fun _ _ hc => holds_before hbefore hc

/-- A call that holds the outer semaphore only makes the difference. -/
theorem countHeld_lt (hbefore : D.Before P k' k) (hc : c ∈ s.calls)
    (hP : P c.kind = true) (houter : D.holds k' c = true) (hinner : D.holds k c = false) :
    D.countHeld s P k < D.countHeld s P k' := by
  unfold Discipline.countHeld
  obtain ⟨front, back, hsplit⟩ := append_of_mem hc
  have hle : ∀ l : List (Call τ), (l.countP fun c => P c.kind && D.holds k c) ≤
      l.countP fun c => P c.kind && D.holds k' c := fun l =>
    countP_mono_left fun _ _ hc => holds_before hbefore hc
  have hfront := hle front
  have hback := hle back
  rw [hsplit]
  simp only [countP_append, countP_cons, hP, houter, hinner, Bool.and_true,
    Bool.and_false, if_true, Bool.false_eq_true, if_false]
  omega

/-- The holders of a semaphore, split by kind. -/
theorem countHeld_split (s : Slots κ τ) (P : τ → Bool) (k : κ) :
    s.calls.countP (D.holds k) = D.countHeld s P k + D.countHeld s (fun t => !P t) k :=
  countP_add (fun c => by cases hP : P c.kind <;> simp [hP]) s.calls

theorem countHeld_or (hdisjoint : ∀ t, ¬ (P t = true ∧ Q t = true)) (s : Slots κ τ) (k : κ) :
    D.countHeld s (fun t => P t || Q t) k = D.countHeld s P k + D.countHeld s Q k := by
  refine countP_add (fun c => ?_) s.calls
  have := hdisjoint c.kind
  cases hP : P c.kind <;> cases hQ : Q c.kind <;> simp_all

theorem HeldInv.countHeld_le_capacity (h : HeldInv D s) (P : τ → Bool) (k : κ) :
    D.countHeld s P k ≤ D.capacity k := by
  refine Nat.le_trans ?_ (h.bound k)
  rw [h.used k]
  exact countP_mono_left fun c _ hc => (Bool.and_eq_true_iff.1 hc).2

end Talus.Base
