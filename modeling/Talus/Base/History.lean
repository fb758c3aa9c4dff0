/-
  Talus.Base.History
  **SPEAKING ABOUT A LOG OF EVENTS.**

  Two notions suffice for the temporal statements made over a log that only
  grows at its end:

    • `Since a b log` — some event of the log meets `a`, and every later one
      meets `b` (the past-time operator "b since a");
    • `Justified Q log` — each event of the log meets `Q` together with the
      events BEFORE it.

  Both come with the rule for appending to the log, which is all an invariant
  proof needs.
-/
import Mathlib.Data.List.Induction

namespace Talus.Base

variable {ε : Type} {a b : ε → Prop} {Q : List ε → ε → Prop} {log evs : List ε}

/-! ## §1. Since. -/

/-- Some event meets `a`, and every later one meets `b`. -/
def Since (a b : ε → Prop) (log : List ε) : Prop :=
  ∃ before ev after, log = before ++ ev :: after ∧ a ev ∧ ∀ x ∈ after, b x

theorem Since.append (h : Since a b log) (hb : ∀ x ∈ evs, b x) : Since a b (log ++ evs) := by
  obtain ⟨before, ev, after, rfl, ha, hafter⟩ := h
  refine ⟨before, ev, after ++ evs, by simp, ha, ?_⟩
  intro x hx
  rcases List.mem_append.mp hx with hx | hx
  · exact hafter x hx
  · exact hb x hx

theorem since_snoc (log : List ε) {ev : ε} (ha : a ev) : Since a b (log ++ [ev]) :=
  ⟨log, ev, [], rfl, ha, by simp⟩

/-! ## §2. Events justified by what came before. -/

/-- Each event meets `Q` together with the events before it. -/
def Justified (Q : List ε → ε → Prop) (log : List ε) : Prop :=
  ∀ before ev after, log = before ++ ev :: after → Q before ev

theorem justified_nil : Justified Q [] := by
  intro before ev after h
  simp at h

theorem Justified.snoc {ev : ε} (h : Justified Q log) (hev : Q log ev) :
    Justified Q (log ++ [ev]) := by
  intro before x after heq
  rcases List.append_eq_append_iff.mp heq with ⟨mid, hb, he⟩ | ⟨mid, hl, he⟩
  · -- `before` reaches past the old log: the event is the new one
    cases mid with
    | nil =>
      simp only [List.nil_append, List.cons.injEq] at he
      simp only [List.append_nil] at hb
      rw [hb, ← he.1]
      exact hev
    | cons y ys => simp at he
  · cases mid with
    | nil =>
      simp only [List.nil_append, List.cons.injEq] at he
      simp only [List.append_nil] at hl
      rw [← hl, he.1]
      exact hev
    | cons y ys =>
      obtain ⟨rfl, _⟩ := he
      exact h before _ ys hl

/-- Appending events that need no justification. -/
theorem Justified.append : ∀ {evs log : List ε}, Justified Q log →
    (∀ x ∈ evs, ∀ before, Q before x) → Justified Q (log ++ evs)
  | [], log, h, _ => by simpa using h
  | ev :: evs, log, h, hfree => by
      have hev : Justified Q (log ++ [ev]) :=
        h.snoc (hfree ev List.mem_cons_self log)
      have hrest := Justified.append hev fun x hx => hfree x (List.mem_cons_of_mem _ hx)
      simpa using hrest

theorem Justified.of_append (h : Justified Q (log ++ evs)) : Justified Q log := by
  intro before ev after heq
  exact h before ev (after ++ evs) (by simp [heq])

/-- An event that is justified only before the first of its kind happens at
most once. -/
theorem Justified.countP_le_one {q : ε → Bool} (h : Justified Q log)
    (hfirst : ∀ before ev, Q before ev → q ev = true → before.any q = false) :
    log.countP q ≤ 1 := by
  induction log using List.reverseRecOn with
  | nil => simp
  | append_singleton l ev ih =>
    rw [List.countP_append, List.countP_singleton]
    by_cases hq : q ev = true
    · have hnone := hfirst l ev (h l ev [] rfl) hq
      have hzero : l.countP q = 0 := by
        rw [List.countP_eq_zero]
        simpa using hnone
      simp [hzero, hq]
    · rw [if_neg hq]
      exact ih h.of_append

end Talus.Base
