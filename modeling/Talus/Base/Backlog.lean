/-
  Talus.Base.Backlog
  **A BOUNDED BACKLOG.**

  Entries wait under a key until they are delivered or given up.  A running
  total of their sizes is kept beside them, and a counter of what was lost.
  The backlog takes an entry only within its limits on number and total size.

    • `Balanced`: the total is the sum of the sizes, keys are unique, both
      limits hold,
    • `Balanced.offer`, `.put`, `.drop`, `.countLost`: every operation keeps
      it, an offer for a key that is not waiting already,
    • `Step`: what may happen to entries of which some are in flight, and
      `Step.faithful`: those stay until their retrier settles them, and what
      leaves is delivered or counted.
-/
import Mathlib.Algebra.BigOperators.Group.List.Basic
import Mathlib.Algebra.GroupWithZero.Nat
import Mathlib.Data.List.Nodup

namespace Talus.Base

open List

/-- The key and the size of an entry. -/
structure Gauge (α κ : Type) where
  key : α → κ
  size : α → Nat

structure Limits where
  items : Nat
  bytes : Nat

structure Backlog (α : Type) where
  entries : List α
  bytes : Int
  lost : Nat

variable {α κ : Type} [DecidableEq κ]

namespace Backlog

def countLost (b : Backlog α) : Backlog α := { b with lost := b.lost + 1 }

/-- Take an entry, in place of one with its key, or count it as lost. -/
def offer (g : Gauge α κ) (limits : Limits) (b : Backlog α) (a : α) : Backlog α :=
  if limits.items ≤ b.entries.length ∨ limits.bytes < b.bytes + g.size a then b.countLost
  else
    { b with
      entries := (b.entries.filter fun x => g.key x ≠ g.key a) ++ [a]
      bytes := b.bytes + g.size a }

/-- Change the entry with this key. -/
def put (g : Gauge α κ) (b : Backlog α) (a : α) : Backlog α :=
  { b with entries := b.entries.map fun x => if g.key x = g.key a then a else x }

def drop (g : Gauge α κ) (b : Backlog α) (a : α) : Backlog α :=
  { b with
    entries := b.entries.filter fun x => g.key x ≠ g.key a
    bytes := b.bytes - g.size a }

end Backlog

/-! ## §1. Keys. -/

variable {g : Gauge α κ} {limits : Limits} {b b' : Backlog α} {a x : α}

/-- The keys are unique. -/
def Gauge.Keyed (g : Gauge α κ) (l : List α) : Prop := (l.map g.key).Nodup

omit [DecidableEq κ] in
theorem Gauge.Keyed.unique {l : List α} (h : g.Keyed l) (ha : a ∈ l) (hx : x ∈ l)
    (hkey : g.key x = g.key a) : x = a :=
  inj_on_of_nodup_map h hx ha hkey

/-- What is kept when one key goes. -/
theorem sum_filter_key {l : List α} (h : g.Keyed l) (ha : a ∈ l) :
    ((l.filter fun x => g.key x ≠ g.key a).map g.size).sum + g.size a = (l.map g.size).sum := by
  induction l with
  | nil => cases ha
  | cons y l ih =>
    obtain ⟨hy, hl⟩ := nodup_cons.1 (show (g.key y :: l.map g.key).Nodup from h)
    rcases mem_cons.1 ha with rfl | ha
    · have hall : l.filter (fun x => g.key x ≠ g.key a) = l := by
        refine filter_eq_self.2 fun x hx => decide_eq_true fun hk => hy ?_
        exact hk ▸ mem_map_of_mem hx
      rw [filter_cons_of_neg (by simp), hall]
      simp [Nat.add_comm]
    · have hne : g.key y ≠ g.key a := fun hk => hy (hk ▸ mem_map_of_mem ha)
      rw [filter_cons_of_pos (by simpa using hne)]
      have := ih hl ha
      simp only [map_cons, sum_cons]
      omega

theorem filter_key_of_fresh {l : List α} (h : ∀ x ∈ l, g.key x ≠ g.key a) :
    (l.filter fun x => g.key x ≠ g.key a) = l :=
  filter_eq_self.2 fun x hx => decide_eq_true (h x hx)

/-! ## §2. The books balance. -/

structure Balanced (g : Gauge α κ) (limits : Limits) (b : Backlog α) : Prop where
  keyed : g.Keyed b.entries
  bytes : b.bytes = (b.entries.map g.size).sum
  total : b.bytes ≤ limits.bytes
  items : b.entries.length ≤ limits.items

namespace Balanced

omit [DecidableEq κ] in
theorem nonneg (h : Balanced g limits b) : 0 ≤ b.bytes := by
  rw [h.bytes]
  exact Int.natCast_nonneg _

omit [DecidableEq κ] in
theorem countLost (h : Balanced g limits b) : Balanced g limits b.countLost :=
  { h with }

/-- **An entry with a key of its own is taken.** -/
theorem offer (h : Balanced g limits b) (hfresh : ∀ x ∈ b.entries, g.key x ≠ g.key a) :
    Balanced g limits (b.offer g limits a) := by
  unfold Backlog.offer
  by_cases hfull : limits.items ≤ b.entries.length ∨ limits.bytes < b.bytes + g.size a
  · rw [if_pos hfull]
    exact h.countLost
  · rw [if_neg hfull, filter_key_of_fresh hfresh]
    have hbytes := h.bytes
    refine ⟨?_, ?_, ?_, ?_⟩
    · show ((b.entries ++ [a]).map g.key).Nodup
      rw [map_append, nodup_append]
      refine ⟨h.keyed, by simp, fun k hk k' hk' hkk => ?_⟩
      obtain ⟨x, hx, rfl⟩ := mem_map.1 hk
      exact hfresh x hx (hkk.trans (by simpa using hk'))
    · show b.bytes + g.size a = (((b.entries ++ [a]).map g.size).sum : Nat)
      rw [map_append, sum_append, hbytes]
      simp
    · show b.bytes + g.size a ≤ limits.bytes
      omega
    · show (b.entries ++ [a]).length ≤ limits.items
      rw [length_append]
      simp only [length_singleton]
      omega

/-- **An entry changes**, with the size it had. -/
theorem put (h : Balanced g limits b) (hx : x ∈ b.entries) (hkey : g.key a = g.key x)
    (hsize : g.size a = g.size x) : Balanced g limits (b.put g a) := by
  have hkeys : (b.put g a).entries.map g.key = b.entries.map g.key := by
    show (b.entries.map _).map g.key = _
    rw [map_map]
    refine map_congr_left fun y _ => ?_
    by_cases hy : g.key y = g.key a
    · simp [hy]
    · simp [hy]
  have hsizes : (b.put g a).entries.map g.size = b.entries.map g.size := by
    show (b.entries.map _).map g.size = _
    rw [map_map]
    refine map_congr_left fun y hy => ?_
    by_cases hk : g.key y = g.key a
    · -- it is the entry that is changed
      have hyx : y = x := h.keyed.unique hx hy (hk.trans hkey)
      show g.size (if g.key y = g.key a then a else y) = g.size y
      rw [if_pos hk, hsize, hyx]
    · simp [hk]
  refine ⟨?_, ?_, h.total, ?_⟩
  · show ((b.put g a).entries.map g.key).Nodup
    rw [hkeys]
    exact h.keyed
  · show b.bytes = _
    rw [hsizes]
    exact h.bytes
  · show (b.entries.map _).length ≤ limits.items
    rw [length_map]
    exact h.items

/-- **An entry leaves.** -/
theorem drop (h : Balanced g limits b) (ha : a ∈ b.entries) : Balanced g limits (b.drop g a) := by
  have hsum := sum_filter_key h.keyed ha
  have hbytes := h.bytes
  have htotal := h.total
  have hsub : (b.entries.filter fun x => g.key x ≠ g.key a).Sublist b.entries :=
    filter_sublist
  refine ⟨h.keyed.sublist (hsub.map g.key), ?_, ?_, Nat.le_trans hsub.length_le h.items⟩
  · show b.bytes - g.size a = (((b.entries.filter fun x => g.key x ≠ g.key a).map g.size).sum : Nat)
    omega
  · show b.bytes - g.size a ≤ limits.bytes
    omega

end Balanced

/-! ## §3. Who is still there. -/

/-- Changing or dropping one entry leaves the others. -/
theorem mem_put_of_ne (hx : x ∈ b.entries) (hne : g.key x ≠ g.key a) : x ∈ (b.put g a).entries :=
  mem_map.2 ⟨x, hx, if_neg hne⟩

theorem mem_drop_of_ne (hx : x ∈ b.entries) (hne : g.key x ≠ g.key a) : x ∈ (b.drop g a).entries :=
  mem_filter.2 ⟨hx, decide_eq_true hne⟩

/-- An offer for a new key leaves every entry. -/
theorem mem_offer (hx : x ∈ b.entries) (hfresh : ∀ y ∈ b.entries, g.key y ≠ g.key a) :
    x ∈ (b.offer g limits a).entries := by
  unfold Backlog.offer
  by_cases hfull : limits.items ≤ b.entries.length ∨ limits.bytes < b.bytes + g.size a
  · rw [if_pos hfull]
    exact hx
  · rw [if_neg hfull, filter_key_of_fresh hfresh]
    exact mem_append_left _ hx

/-! ## §4. Retrying. -/

section Retrying

variable {flying : α → Bool} {delivered : α → Prop} {r : Option κ}

/-- A step on the backlog.  An entry is retried with the lock released and is
marked as flying meanwhile; `r` is the key of the entry whose retrier acts, if
one does. -/
inductive Step (g : Gauge α κ) (limits : Limits) (flying : α → Bool) (delivered : α → Prop)
    (b : Backlog α) : Option κ → Backlog α → Prop
  /-- something is lost that did not wait, or nothing happens -/
  | keep (r : Option κ) (lost : Nat) : Step g limits flying delivered b r { b with lost := lost }
  | offer (a : α) (hfresh : ∀ x ∈ b.entries, g.key x ≠ g.key a) :
      Step g limits flying delivered b none (b.offer g limits a)
  /-- a retry begins, or comes back -/
  | put (a x : α) (r : Option κ) (hx : x ∈ b.entries) (hkey : g.key a = g.key x)
      (hsize : g.size a = g.size x) (hretrier : flying x = true → r = some (g.key x)) :
      Step g limits flying delivered b r (b.put g a)
  | expire (a : α) (r : Option κ) (ha : a ∈ b.entries) (hidle : flying a = false) :
      Step g limits flying delivered b r (b.drop g a).countLost
  | deliver (a : α) (ha : a ∈ b.entries) (hdone : delivered a) :
      Step g limits flying delivered b (some (g.key a)) (b.drop g a)
  | giveUp (a : α) (ha : a ∈ b.entries) :
      Step g limits flying delivered b (some (g.key a)) (b.drop g a).countLost

/-- An entry in flight stays until its retrier acts; and an entry that leaves,
leaves alone, delivered or counted as lost once. -/
def Faithful (g : Gauge α κ) (flying : α → Bool) (delivered : α → Prop) (b : Backlog α)
    (r : Option κ) (b' : Backlog α) : Prop :=
  (∀ x ∈ b.entries, flying x = true → r ≠ some (g.key x) → x ∈ b'.entries) ∧
  ∀ x ∈ b.entries, (∀ y ∈ b'.entries, g.key y ≠ g.key x) →
    ((b'.lost = b.lost ∧ delivered x) ∨ b'.lost = b.lost + 1) ∧
      ∀ y ∈ b.entries, g.key y ≠ g.key x → y ∈ b'.entries

theorem Step.balanced (h : Step g limits flying delivered b r b') (hb : Balanced g limits b) :
    Balanced g limits b' := by
  cases h with
  | keep r lost => exact { hb with }
  | offer a hfresh => exact hb.offer hfresh
  | put a x r hx hkey hsize _ => exact hb.put hx hkey hsize
  | expire a r ha _ | giveUp a ha => exact (hb.drop ha).countLost
  | deliver a ha _ => exact hb.drop ha

/-- The entry that was dropped is the one that left. -/
theorem drop_alone (hb : Balanced g limits b) (ha : a ∈ b.entries) (hx : x ∈ b.entries)
    (hgone : ∀ y ∈ (b.drop g a).entries, g.key y ≠ g.key x) :
    x = a ∧ ∀ y ∈ b.entries, g.key y ≠ g.key x → y ∈ (b.drop g a).entries := by
  have hsame : g.key x = g.key a := by
    by_contra hne
    exact hgone x (mem_drop_of_ne hx hne) rfl
  refine ⟨hb.keyed.unique ha hx hsame, fun y hy hne => mem_drop_of_ne hy ?_⟩
  rw [← hsame]
  exact hne

/-- **Every step is faithful.** -/
theorem Step.faithful (h : Step g limits flying delivered b r b') (hb : Balanced g limits b) :
    Faithful g flying delivered b r b' := by
  cases h with
  | keep r lost =>
    exact ⟨fun x hx _ _ => hx, fun x hx hgone => absurd rfl (hgone x hx)⟩
  | offer a hfresh =>
    exact ⟨fun x hx _ _ => mem_offer hx hfresh,
      fun x hx hgone => absurd rfl (hgone x (mem_offer hx hfresh))⟩
  | put a x r hx hkey hsize hretrier =>
    refine ⟨fun y hy hfly hr => mem_put_of_ne hy fun hk => hr ?_, fun y hy hgone => ?_⟩
    · have hyx : y = x := hb.keyed.unique hx hy (hk.trans hkey)
      rw [hyx] at hfly ⊢
      exact hretrier hfly
    · -- an entry with its key is still there
      exfalso
      by_cases hk : g.key y = g.key a
      · exact hgone a (mem_map.2 ⟨y, hy, if_pos hk⟩) hk.symm
      · exact hgone y (mem_put_of_ne hy hk) rfl
  | expire a r ha hidle =>
    refine ⟨fun x hx hfly _ => mem_drop_of_ne hx fun hk => ?_, fun x hx hgone => ?_⟩
    · rw [hb.keyed.unique ha hx hk, hidle] at hfly
      cases hfly
    · exact ⟨.inr rfl, (drop_alone hb ha hx hgone).2⟩
  | deliver a ha hdone =>
    refine ⟨fun x hx _ hr => mem_drop_of_ne hx fun hk => hr (by rw [hk]), fun x hx hgone => ?_⟩
    obtain ⟨rfl, hothers⟩ := drop_alone hb ha hx hgone
    exact ⟨.inl ⟨rfl, hdone⟩, hothers⟩
  | giveUp a ha =>
    refine ⟨fun x hx _ hr => mem_drop_of_ne hx fun hk => hr (by rw [hk]), fun x hx hgone => ?_⟩
    exact ⟨.inr rfl, (drop_alone hb ha hx hgone).2⟩

end Retrying

end Talus.Base
