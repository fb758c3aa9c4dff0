/-
  Talus.Base.Run
  **RUNS OF A LABELLED TRANSITION SYSTEM.**

  A system is a set of initial states and an EXECUTABLE partial step: the
  label carries every choice the environment makes (which thread moves, how
  an operation ends, what the clock reads), so `step` is a function and a
  concrete run can be evaluated.  On top of it:

    • `run`/`Reachable`: whole runs and the states they reach,
    • `run_append`: runs compose,
    • `Reachable.invariant`/`run_invariant`: what one step preserves, every
      run preserves,
    • `Along`: a condition met by every step of a run, with `along_invariant`,
      the rule for runs whose steps all meet one.
-/
import Mathlib.Data.List.Basic

namespace Talus.Base

/-- A transition system: initial states and an executable partial step. -/
structure System (σ ε : Type) where
  init : σ → Prop
  step : σ → ε → Option σ

namespace System

variable {σ ε : Type} (S : System σ ε)

/-! ## §1. Runs. -/

/-- Replay a list of labels; `none` as soon as one of them is not enabled. -/
def run : σ → List ε → Option σ
  | s, [] => some s
  | s, e :: es => (S.step s e).bind fun s' => run s' es

/-- A state some run reaches from an initial state. -/
def Reachable (s : σ) : Prop :=
  ∃ s₀ es, S.init s₀ ∧ S.run s₀ es = some s

theorem run_cons {s s' : σ} {e : ε} {es : List ε}
    (h : S.run s (e :: es) = some s') :
    ∃ t, S.step s e = some t ∧ S.run t es = some s' := by
  simpa only [run, Option.bind_eq_some_iff] using h

theorem run_append (es fs : List ε) : ∀ (s : σ),
    S.run s (es ++ fs) = (S.run s es).bind fun t => S.run t fs := by
  induction es with
  | nil => intro s; rfl
  | cons e es ih =>
    intro s
    simp only [List.cons_append, run]
    cases hs : S.step s e with
    | none => rfl
    | some t => simpa using ih t

variable {S}

/-- A run, with what follows from its being one. -/
theorem exists_run {s t : σ} {es : List ε} {P : σ → Prop} (h : S.run s es = some t)
    (hP : S.run s es = some t → P t) : ∃ t, S.run s es = some t ∧ P t :=
  ⟨t, h, hP h⟩

theorem reachable_init {s : σ} (h : S.init s) : S.Reachable s :=
  ⟨s, [], h, rfl⟩

theorem Reachable.run {s t : σ} {es : List ε} (h : S.Reachable s)
    (hr : S.run s es = some t) : S.Reachable t := by
  obtain ⟨s₀, fs, hi, hf⟩ := h
  refine ⟨s₀, fs ++ es, hi, ?_⟩
  rw [run_append, hf]
  exact hr

theorem Reachable.step {s t : σ} {e : ε} (h : S.Reachable s)
    (hs : S.step s e = some t) : S.Reachable t := by
  have hr : S.run s [e] = some t := by simp [System.run, hs]
  exact h.run hr

/-! ## §2. The invariant rules. -/

/-- **What one step preserves, a whole run preserves.** -/
theorem run_invariant {I : σ → Prop}
    (hstep : ∀ s e s', I s → S.step s e = some s' → I s') :
    ∀ (es : List ε) (s s' : σ), I s → S.run s es = some s' → I s'
  | [], s, s', hI, h => by
      cases h
      exact hI
  | e :: es, s, s', hI, h => by
      obtain ⟨t, ht, hr⟩ := S.run_cons h
      exact run_invariant hstep es t s' (hstep s e t hI ht) hr

/-- **The invariant rule**: initial and preserved, hence true of every
reachable state. -/
theorem Reachable.invariant {I : σ → Prop} {s : σ} (h : S.Reachable s)
    (hinit : ∀ s, S.init s → I s)
    (hstep : ∀ s e s', I s → S.step s e = some s' → I s') : I s := by
  obtain ⟨s₀, es, hi, hr⟩ := h
  exact run_invariant hstep es s₀ s (hinit s₀ hi) hr

/-- An invariant may be proved with another one at hand. -/
theorem Reachable.invariant_with {I J : σ → Prop} {s : σ} (h : S.Reachable s)
    (hJ : ∀ s, S.Reachable s → J s)
    (hinit : ∀ s, S.init s → I s)
    (hstep : ∀ s e s', J s → I s → S.step s e = some s' → I s') : I s := by
  have key : S.Reachable s ∧ I s := by
    refine h.invariant (I := fun s => S.Reachable s ∧ I s) ?_ ?_
    · intro s hs
      exact ⟨reachable_init hs, hinit s hs⟩
    · intro s e s' hs he
      exact ⟨hs.1.step he, hstep s e s' (hJ s hs.1) hs.2 he⟩
  exact key.2

/-! ## §3. Runs whose steps all meet a condition. -/

variable (S)

/-- Every step of the run meets `P`, a condition on the state before it and
its label. -/
def Along (P : σ → ε → Prop) : σ → List ε → Prop
  | _, [] => True
  | s, e :: es => P s e ∧ ∀ t, S.step s e = some t → Along P t es

variable {S}

/-- The invariant rule along a run whose steps all meet `P`. -/
theorem along_invariant {P : σ → ε → Prop} {I : σ → Prop}
    (hstep : ∀ s e s', P s e → I s → S.step s e = some s' → I s') :
    ∀ (es : List ε) (s s' : σ), S.Along P s es → I s →
      S.run s es = some s' → I s'
  | [], s, s', _, hI, h => by
      cases h
      exact hI
  | e :: es, s, s', hP, hI, h => by
      obtain ⟨t, ht, hr⟩ := S.run_cons h
      exact along_invariant hstep es t s' (hP.2 t ht)
        (hstep s e t hP.1 hI ht) hr

/-- The condition along a run can be evaluated. -/
instance decidableAlong {P : σ → ε → Prop} [∀ s e, Decidable (P s e)] :
    ∀ (s : σ) (es : List ε), Decidable (S.Along P s es)
  | _, [] => isTrue trivial
  | s, e :: es =>
    have : Decidable (∀ t, S.step s e = some t → S.Along P t es) :=
      match S.step s e with
      | none => isTrue nofun
      | some t =>
        have : Decidable (S.Along P t es) := decidableAlong t es
        decidable_of_iff (S.Along P t es)
          ⟨fun ha _ ht => Option.some.inj ht ▸ ha, fun ha => ha t rfl⟩
    inferInstanceAs (Decidable (_ ∧ _))

theorem along_cons {P : σ → ε → Prop} {s t : σ} {e : ε} {es : List ε}
    (hs : S.step s e = some t) (hP : P s e) (h : S.Along P t es) : S.Along P s (e :: es) := by
  refine ⟨hP, fun t' ht' => ?_⟩
  rw [hs] at ht'
  cases ht'
  exact h

theorem along_of_forall {P : ε → Prop} : ∀ (es : List ε) (s : σ),
    (∀ e ∈ es, P e) → S.Along (fun _ e => P e) s es
  | [], _, _ => trivial
  | e :: es, _, h =>
    ⟨h e List.mem_cons_self, fun t _ =>
      along_of_forall es t fun x hx => h x (List.mem_cons_of_mem e hx)⟩

theorem along_mono {P Q : σ → ε → Prop} (h : ∀ s e, P s e → Q s e) :
    ∀ (es : List ε) (s : σ), S.Along P s es → S.Along Q s es
  | [], _, _ => trivial
  | _ :: es, s, hP => ⟨h s _ hP.1, fun t ht => along_mono h es t (hP.2 t ht)⟩

theorem along_and {P Q : σ → ε → Prop} : ∀ (es : List ε) (s : σ),
    S.Along P s es → S.Along Q s es → S.Along (fun s e => P s e ∧ Q s e) s es
  | [], _, _, _ => trivial
  | _ :: es, _, hP, hQ =>
    ⟨⟨hP.1, hQ.1⟩, fun t ht => along_and es t (hP.2 t ht) (hQ.2 t ht)⟩

theorem along_append {P : σ → ε → Prop} :
    ∀ (es fs : List ε) (s t : σ), S.Along P s (es ++ fs) →
      S.run s es = some t → S.Along P s es ∧ S.Along P t fs
  | [], fs, s, t, hP, h => by
      cases h
      exact ⟨trivial, hP⟩
  | e :: es, fs, s, t, hP, h => by
      obtain ⟨u, hu, hr⟩ := S.run_cons h
      obtain ⟨h1, h2⟩ := along_append es fs u t (hP.2 u hu) hr
      refine ⟨⟨hP.1, ?_⟩, h2⟩
      intro v hv
      have huv : u = v := Option.mem_unique hu hv
      exact huv ▸ h1

end System

end Talus.Base
