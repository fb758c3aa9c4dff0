/-
  Talus.Base.Crash
  **PROGRAMS THAT MAY FAIL OR DIE AT EVERY SYSTEM CALL.**

  A program works on the state that OUTLIVES it (a directory, a table) and
  consumes one `Fault` per system call: the call succeeds, it fails and the
  program goes on with the error, or the process dies there.  What the process
  holds in memory is passed as values, so a death loses exactly that.

    • `Prog`, `attempt`: the programs and their one effect,
    • `wp c Q C`: however its calls turn out, a `c` that returns ends in `Q`,
      and a `c` that dies leaves a state in `C`,
    • `wp_pure`/`wp_bind`/`wp_attempt`/`wp_mono`/`wp_and`: the rules,
    • `Completes c Q`: if no call fails, `c` returns in `Q`; its rules likewise.

  The crash condition `C` has to hold BEFORE every call, not only at the end:
  it is the part of an invariant that may never be broken, not even for the
  time between two writes.
-/
import Mathlib.Data.List.Basic

namespace Talus.Base

/-! ## §1. Programs. -/

/-- How one system call turns out. -/
inductive Fault where
  | ok
  | fail
  | crash
  deriving DecidableEq, Repr

/-- How a program ends: it returns, with the faults it has not used, or dies
and leaves only the lasting state. -/
inductive Ending (σ α : Type) where
  | done (a : α) (s : σ) (rest : List Fault)
  | crashed (s : σ)

/-- A program over the lasting state `σ`. -/
def Prog (σ α : Type) : Type := σ → List Fault → Ending σ α

namespace Prog

variable {σ α β : Type}

instance : Monad (Prog σ) where
  pure a := fun s fs => .done a s fs
  bind c k := fun s fs =>
    match c s fs with
    | .done a s' rest => k a s' rest
    | .crashed s' => .crashed s'

/-- One system call: it changes the lasting state by `effect`, or fails and
changes nothing, or the process dies before it.  Dying right after it is dying
before the next one.  A list of faults that has run out means success. -/
def attempt (effect : σ → σ) : Prog σ Bool
  | s, [] => .done true (effect s) []
  | s, .ok :: fs => .done true (effect s) fs
  | s, .fail :: fs => .done false s fs
  | s, .crash :: _ => .crashed s

/-- Read the lasting state. -/
def get : Prog σ σ := fun s fs => .done s s fs

/-! ## §2. Weakest preconditions. -/

/-- Whatever the faults, `c` started in `s` returns in `Q` or dies in `C`. -/
def wp (c : Prog σ α) (Q : α → σ → Prop) (C : σ → Prop) (s : σ) : Prop :=
  ∀ fs, match c s fs with
    | .done a s' _ => Q a s'
    | .crashed s' => C s'

variable {Q : α → σ → Prop} {C : σ → Prop} {s : σ}

variable {a : α}

theorem wp_pure (h : Q a s) : wp (pure a) Q C s :=
  fun _ => h

theorem wp_true (c : Prog σ α) (s : σ) : wp c (fun _ _ => True) (fun _ => True) s := by
  intro fs
  cases c s fs <;> trivial

theorem wp_bind {c : Prog σ β} {k : β → Prog σ α}
    (h : wp c (fun b s' => wp (k b) Q C s') C s) : wp (c >>= k) Q C s := by
  intro fs
  have hc := h fs
  show match (match c s fs with
    | .done a s' rest => k a s' rest
    | .crashed s' => .crashed s') with
    | .done a s' _ => Q a s'
    | .crashed s' => C s'
  cases hr : c s fs with
  | done b s' rest =>
    rw [hr] at hc
    exact hc rest
  | crashed s' =>
    rw [hr] at hc
    exact hc

theorem wp_attempt {effect : σ → σ} {Q : Bool → σ → Prop}
    (hok : Q true (effect s)) (hfail : Q false s) (hcrash : C s) :
    wp (attempt effect) Q C s := by
  intro fs
  match fs with
  | [] => exact hok
  | .ok :: _ => exact hok
  | .fail :: _ => exact hfail
  | .crash :: _ => exact hcrash

theorem wp_get {Q : σ → σ → Prop} (h : Q s s) : wp get Q C s :=
  fun _ => h

variable {c : Prog σ α} {Q' : α → σ → Prop}

/-- **Consequence.** -/
theorem wp_mono {C' : σ → Prop} (h : wp c Q C s) (hQ : ∀ a s', Q a s' → Q' a s')
    (hC : ∀ s', C s' → C' s') : wp c Q' C' s := by
  intro fs
  have hc := h fs
  cases hr : c s fs with
  | done a s' rest =>
    rw [hr] at hc
    exact hQ a s' hc
  | crashed s' =>
    rw [hr] at hc
    exact hC s' hc

/-- Two specifications of one program hold together. -/
theorem wp_and {C' : σ → Prop} (h : wp c Q C s) (h' : wp c Q' C' s) :
    wp c (fun a s' => Q a s' ∧ Q' a s') (fun s' => C s' ∧ C' s') s := by
  intro fs
  have hc := h fs
  have hc' := h' fs
  cases hr : c s fs with
  | done a s' rest | crashed s' =>
    rw [hr] at hc hc'
    exact ⟨hc, hc'⟩

/-- What `wp` says of a run that returned. -/
theorem wp_done {fs rest : List Fault} {s' : σ} (h : wp c Q C s) (hr : c s fs = .done a s' rest) :
    Q a s' := by
  have hc := h fs
  rw [hr] at hc
  exact hc

/-- What `wp` says of a run that died. -/
theorem wp_crashed {fs : List Fault} {s' : σ} (h : wp c Q C s) (hr : c s fs = .crashed s') :
    C s' := by
  have hc := h fs
  rw [hr] at hc
  exact hc

/-! ## §3. Runs in which no call fails. -/

/-- Every call succeeds. -/
def Calm (fs : List Fault) : Prop := ∀ f ∈ fs, f = .ok

/-- Started in `s`, and if no call fails, `c` returns in `Q`. -/
def Completes (c : Prog σ α) (Q : α → σ → Prop) (s : σ) : Prop :=
  ∀ fs, Calm fs → ∃ a s' rest, c s fs = .done a s' rest ∧ Calm rest ∧ Q a s'

theorem completes_pure (h : Q a s) : Completes (pure a) Q s :=
  fun fs hfs => ⟨a, s, fs, rfl, hfs, h⟩

theorem completes_bind {c : Prog σ β} {k : β → Prog σ α}
    (h : Completes c (fun b s' => Completes (k b) Q s') s) : Completes (c >>= k) Q s := by
  intro fs hfs
  obtain ⟨b, s₁, rest, hc, hrest, hk⟩ := h fs hfs
  obtain ⟨a, s₂, rest₂, hc₂, hrest₂, hQ⟩ := hk rest hrest
  refine ⟨a, s₂, rest₂, ?_, hrest₂, hQ⟩
  show (match c s fs with
    | .done a s' rest => k a s' rest
    | .crashed s' => .crashed s') = _
  rw [hc]
  exact hc₂

theorem completes_attempt {effect : σ → σ} {Q : Bool → σ → Prop} (h : Q true (effect s)) :
    Completes (attempt effect) Q s := by
  intro fs hfs
  match fs with
  | [] => exact ⟨true, _, [], rfl, hfs, h⟩
  | .ok :: rest => exact ⟨true, _, rest, rfl, fun f hf => hfs f (List.mem_cons_of_mem _ hf), h⟩
  | .fail :: _ => exact absurd (hfs _ List.mem_cons_self) (by simp)
  | .crash :: _ => exact absurd (hfs _ List.mem_cons_self) (by simp)

theorem completes_get {Q : σ → σ → Prop} (h : Q s s) : Completes get Q s :=
  fun fs hfs => ⟨s, s, fs, rfl, hfs, h⟩

theorem completes_mono (h : Completes c Q s) (hQ : ∀ a s', Q a s' → Q' a s') :
    Completes c Q' s := by
  intro fs hfs
  obtain ⟨a, s', rest, hc, hrest, h'⟩ := h fs hfs
  exact ⟨a, s', rest, hc, hrest, hQ a s' h'⟩

end Prog

end Talus.Base
