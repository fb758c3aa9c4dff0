/-
  Talus.Base.Script
  **PROGRAMS THAT TALK TO A PEER WHICH MAY REFUSE ANY CALL.**

  A `Script` is the tree of the calls a program makes: at a `call` it hands
  control to the peer and goes on with the answer.  The peer answers from its
  own state; it may also REFUSE the call, which changes nothing.  Because the
  rest of the program is a value, a system can interleave scripts call by
  call, and a program that is cut off is one whose remaining calls are all
  refused.

    • `Script`, `Peer`: programs, and what a call does,
    • `Safe P K Q`: however the calls turn out, every state on the way meets
      the contract `K` and the end meets `Q`,
    • `safe_bind`/`safe_perform`/`safe_handle`/…: the rules,
    • `calm`: the run in which no call is refused, with its equations.
-/
import Mathlib.Data.List.Basic

namespace Talus.Base

/-! ## §1. Scripts. -/

/-- A program that makes calls `C`, answered in `R`, and fails with `ε`. -/
inductive Script (C : Type) (R : C → Type) (ε α : Type) where
  | ret (a : α)
  | fail (e : ε)
  | call (c : C) (k : Except ε (R c) → Script C R ε α)

namespace Script

variable {C : Type} {R : C → Type} {ε α β : Type}

protected def bind : Script C R ε α → (α → Script C R ε β) → Script C R ε β
  | .ret a, f => f a
  | .fail e, _ => .fail e
  | .call c k, f => .call c fun r => (k r).bind f

/-- Go on with `h` where the program fails. -/
protected def handle : Script C R ε α → (ε → Script C R ε α) → Script C R ε α
  | .ret a, _ => .ret a
  | .fail e, h => h e
  | .call c k, h => .call c fun r => (k r).handle h

instance : Monad (Script C R ε) where
  pure := .ret
  bind := Script.bind

instance : MonadExcept ε (Script C R ε) where
  throw := .fail
  tryCatch := Script.handle

def fromExcept : Except ε α → Script C R ε α
  | .ok a => .ret a
  | .error e => .fail e

/-- Make one call and read its answer by `g`. -/
def ask (c : C) (g : Except ε (R c) → Except ε α) : Script C R ε α :=
  .call c fun r => fromExcept (g r)

/-- Make one call and fail where it fails. -/
def perform (c : C) : Script C R ε (R c) := ask c id

/-- Make one call and ignore whether it fails. -/
def ignore (c : C) : Script C R ε Unit := ask c fun _ => .ok ()

/-- The call the program is about to make. -/
def next? : Script C R ε α → Option C
  | .call c _ => some c
  | _ => none

/-- What a program that fails leaves behind is cleaned up by `cleanup`, whose
own failure changes nothing about the error. -/
def onError (x : Script C R ε α) (cleanup : Script C R ε Unit) : Script C R ε α :=
  x.handle fun e => (cleanup.handle fun _ => .ret ()).bind fun _ => .fail e

end Script

/-- The peer: what a call does to its state when it is served.  A call that
fails has no effect. -/
structure Peer (σ C : Type) (R : C → Type) (ε : Type) where
  effect : σ → (c : C) → Except ε (R c) × σ
  refusal : C → ε
  effect_error : ∀ s c e, (effect s c).1 = .error e → (effect s c).2 = s

namespace Peer

variable {σ C : Type} {R : C → Type} {ε : Type} (P : Peer σ C R ε)

/-- A call is served, or refused. -/
def answer (s : σ) (c : C) (refused : Bool) : Except ε (R c) × σ :=
  if refused then (.error (P.refusal c), s) else P.effect s c

end Peer

/-! ## §2. Contracts. -/

/-- What a program may rely on and has to keep: the calls that `may` be
refused, an invariant of every state it passes through, and a relation that
each of its calls keeps. -/
structure Contract (σ C : Type) where
  may : C → Prop
  inv : σ → Prop
  guar : σ → σ → Prop

namespace Script

variable {σ C : Type} {R : C → Type} {ε α β : Type}

/-- Started in `s`, the program keeps `K` at every call and ends in `Q`,
whichever of the calls that `K.may` name are refused. -/
def Safe (P : Peer σ C R ε) (K : Contract σ C) (Q : Except ε α → σ → Prop) :
    Script C R ε α → σ → Prop
  | .ret a, s => K.inv s ∧ Q (.ok a) s
  | .fail e, s => K.inv s ∧ Q (.error e) s
  | .call c k, s => K.inv s ∧
      (K.guar s (P.effect s c).2 ∧ Safe P K Q (k (P.effect s c).1) (P.effect s c).2) ∧
      (K.may c → Safe P K Q (k (.error (P.refusal c))) s)

variable {P : Peer σ C R ε} {K : Contract σ C} {Q : Except ε α → σ → Prop} {s : σ}

theorem Safe.inv : ∀ {x : Script C R ε α}, Safe P K Q x s → K.inv s
  | .ret _, h => h.1
  | .fail _, h => h.1
  | .call _ _, h => h.1

variable {c : C}

/-- **One call of a safe program**: it keeps the relation, or changes nothing,
and the rest of the program is safe again. -/
theorem Safe.answer {k : Except ε (R c) → Script C R ε α} (h : Safe P K Q (.call c k) s)
    (refused : Bool) (hmay : refused = true → K.may c) :
    ((P.answer s c refused).2 = s ∨ K.guar s (P.answer s c refused).2) ∧
      Safe P K Q (k (P.answer s c refused).1) (P.answer s c refused).2 := by
  cases refused with
  | true => exact ⟨Or.inl rfl, h.2.2 (hmay rfl)⟩
  | false => exact ⟨Or.inr h.2.1.1, h.2.1.2⟩

/-! ## §3. The rules. -/

/-- The program may stop with an error here, and a call that changes nothing
is within the contract. -/
structure Steady (K : Contract σ C) (Q : Except ε α → σ → Prop) (s : σ) : Prop where
  inv : K.inv s
  guar : K.guar s s
  error : ∀ e, Q (.error e) s

theorem safe_pure {a : α} (hI : K.inv s) (h : Q (.ok a) s) :
    Safe P K Q (pure a : Script C R ε α) s := ⟨hI, h⟩

theorem safe_throw (hs : Steady K Q s) (e : ε) :
    Safe P K Q (throw e : Script C R ε α) s := ⟨hs.inv, hs.error e⟩

/-- What the first half of a sequence has to end in. -/
def andThen (P : Peer σ C R ε) (K : Contract σ C) (Q : Except ε α → σ → Prop)
    (f : β → Script C R ε α) : Except ε β → σ → Prop
  | .ok b, s => Safe P K Q (f b) s
  | .error e, s => Q (.error e) s

variable {f : β → Script C R ε α}

theorem safe_bind :
    ∀ {x : Script C R ε β} {s : σ}, Safe P K (andThen P K Q f) x s → Safe P K Q (x >>= f) s
  | .ret _, _, h => h.2
  | .fail _, _, h => h
  | .call _ _, _, h =>
    ⟨h.1, ⟨h.2.1.1, safe_bind h.2.1.2⟩, fun hm => safe_bind (h.2.2 hm)⟩

theorem Steady.bind (hs : Steady K Q s) : Steady K (andThen P K Q f) s := { hs with }

/-- A result is passed on in another form. -/
theorem safe_map {g : β → α} {Q' : Except ε β → σ → Prop}
    (hok : ∀ b s', Q' (.ok b) s' → Q (.ok (g b)) s')
    (herror : ∀ e s', Q' (.error e) s' → Q (.error e) s') :
    ∀ {x : Script C R ε β} {s : σ}, Safe P K Q' x s → Safe P K Q (x >>= fun b => pure (g b)) s
  | .ret _, _, h => ⟨h.1, hok _ _ h.2⟩
  | .fail _, _, h => ⟨h.1, herror _ _ h.2⟩
  | .call _ _, _, h =>
    ⟨h.1, ⟨h.2.1.1, safe_map hok herror h.2.1.2⟩, fun hm => safe_map hok herror (h.2.2 hm)⟩

/-- What a program has to end in whose failures `h` handles. -/
def orElse (P : Peer σ C R ε) (K : Contract σ C) (Q : Except ε α → σ → Prop)
    (h : ε → Script C R ε α) : Except ε α → σ → Prop
  | .ok a, s => Q (.ok a) s
  | .error e, s => Safe P K Q (h e) s

theorem safe_handle {h : ε → Script C R ε α} :
    ∀ {x : Script C R ε α} {s : σ}, Safe P K (orElse P K Q h) x s → Safe P K Q (x.handle h) s
  | .ret _, _, hx => hx
  | .fail _, _, hx => hx.2
  | .call _ _, _, hx =>
    ⟨hx.1, ⟨hx.2.1.1, safe_handle hx.2.1.2⟩, fun hm => safe_handle (hx.2.2 hm)⟩

theorem safe_fromExcept {r : Except ε β} (hs : Steady K Q s)
    (h : ∀ b, r = .ok b → Safe P K Q (f b) s) : Safe P K Q (fromExcept r >>= f) s := by
  cases r with
  | ok b => exact h b rfl
  | error e => exact safe_throw hs e

/-- One call, its answer read by `g`. -/
theorem safe_ask {g : Except ε (R c) → Except ε α} (hI : K.inv s)
    (hserve : K.guar s (P.effect s c).2 ∧
      Safe P K Q (fromExcept (g (P.effect s c).1)) (P.effect s c).2)
    (hrefuse : K.may c → Safe P K Q (fromExcept (g (.error (P.refusal c)))) s) :
    Safe P K Q (ask c g) s := ⟨hI, hserve, hrefuse⟩

/-- **One call that has to succeed.**  Failing has no effect, so that only the
success needs an argument. -/
theorem safe_perform {f : R c → Script C R ε α} (hs : Steady K Q s)
    (h : ∀ a s', P.effect s c = (.ok a, s') → K.guar s s' ∧ Safe P K Q (f a) s') :
    Safe P K Q (perform c >>= f) s := by
  apply safe_bind
  refine safe_ask hs.inv ?_ fun _ => ⟨hs.inv, hs.error _⟩
  cases hr : (P.effect s c).1 with
  | ok a =>
    have hstep := h a (P.effect s c).2 (Prod.ext hr rfl)
    exact ⟨hstep.1, hstep.2.inv, hstep.2⟩
  | error e =>
    rw [P.effect_error s c e hr]
    exact ⟨hs.guar, hs.inv, hs.error e⟩

/-- A call that changes nothing, and the error it may fail with is read as a
result. -/
theorem safe_query {g : Except ε (R c) → Except ε β} (hs : Steady K Q s)
    (hpure : (P.effect s c).2 = s) (hserve : ∀ b, g (P.effect s c).1 = .ok b → Safe P K Q (f b) s)
    (hrefuse : K.may c → ∀ b, g (.error (P.refusal c)) = .ok b → Safe P K Q (f b) s) :
    Safe P K Q (ask c g >>= f) s := by
  apply safe_bind
  -- whichever answer is read, the state is still the one before the call
  have hread : ∀ r, (∀ b, g r = .ok b → Safe P K Q (f b) s) →
      Safe P K (andThen P K Q f) (fromExcept (g r)) s := by
    intro r hr
    cases hg : g r with
    | ok b => exact ⟨hs.inv, hr b hg⟩
    | error e => exact ⟨hs.inv, hs.error e⟩
  refine safe_ask hs.inv ?_ fun hm => hread _ (hrefuse hm)
  rw [hpure]
  exact ⟨hs.guar, hread _ hserve⟩

/-- A call whose failure is ignored. -/
theorem safe_ignore {f : Unit → Script C R ε α} (hs : K.inv s ∧ K.guar s s)
    (hserve : ∀ a s', P.effect s c = (.ok a, s') → K.guar s s' ∧ Safe P K Q (f ()) s')
    (hfailed : (K.may c ∨ ∃ e, (P.effect s c).1 = .error e) → Safe P K Q (f ()) s) :
    Safe P K Q (ignore c >>= f) s := by
  apply safe_bind
  refine safe_ask hs.1 ?_ fun hm => ⟨hs.1, hfailed (Or.inl hm)⟩
  cases hr : (P.effect s c).1 with
  | ok a =>
    have hstep := hserve a (P.effect s c).2 (Prod.ext hr rfl)
    exact ⟨hstep.1, hstep.2.inv, hstep.2⟩
  | error e =>
    rw [P.effect_error s c e hr]
    exact ⟨hs.2, hs.1, hfailed (Or.inr ⟨e, hr⟩)⟩

/-- What an error leaves behind is cleaned up by one call. -/
theorem safe_cleanup {e : ε} (hI : K.inv s)
    (hserve : K.guar s (P.effect s c).2 ∧ K.inv (P.effect s c).2 ∧ Q (.error e) (P.effect s c).2)
    (hrefuse : K.may c → Q (.error e) s) :
    Safe P K Q (((ignore c).handle fun _ => .ret ()).bind fun _ => .fail e : Script C R ε α) s :=
  ⟨hI, ⟨hserve.1, hserve.2⟩, fun hm => ⟨hI, hrefuse hm⟩⟩

/-! ## §4. The run in which no call is refused. -/

/-- Serve every call. -/
def calm (P : Peer σ C R ε) : Script C R ε α → σ → Except ε α × σ
  | .ret a, s => (.ok a, s)
  | .fail e, s => (.error e, s)
  | .call c k, s => calm P (k (P.effect s c).1) (P.effect s c).2

@[simp] theorem calm_pure (a : α) : calm P (pure a : Script C R ε α) s = (.ok a, s) := rfl

@[simp] theorem calm_throw (e : ε) : calm P (throw e : Script C R ε α) s = (.error e, s) := rfl

variable {s' : σ}

theorem calm_bind_ok {b : β} :
    ∀ {x : Script C R ε β} {s : σ}, calm P x s = (.ok b, s') →
      calm P (x >>= f) s = calm P (f b) s'
  | .ret _, _, h => by
      cases h
      rfl
  | .fail _, _, h => by cases h
  | .call c k, s, h =>
    calm_bind_ok (x := k (P.effect s c).1) (s := (P.effect s c).2) h

theorem calm_fromExcept {r : Except ε β} {b : β} (h : r = .ok b) :
    calm P (fromExcept r >>= f) s = calm P (f b) s := by
  subst h
  rfl

theorem calm_handle_ok {h : ε → Script C R ε α} {a : α} :
    ∀ {x : Script C R ε α} {s : σ}, calm P x s = (.ok a, s') →
      calm P (x.handle h) s = (.ok a, s')
  | .ret _, _, hx => hx
  | .fail _, _, hx => by cases hx
  | .call c k, s, hx =>
    calm_handle_ok (x := k (P.effect s c).1) (s := (P.effect s c).2) hx

/-- The calm run of a safe program ends as the contract says. -/
theorem Safe.calm : ∀ {x : Script C R ε α} {s : σ}, Safe P K Q x s →
    Q (calm P x s).1 (calm P x s).2
  | .ret _, _, h => h.2
  | .fail _, _, h => h.2
  | .call c k, s, h =>
    Safe.calm (x := k (P.effect s c).1) (s := (P.effect s c).2) h.2.1.2

theorem calm_ask {g : Except ε (R c) → Except ε α} :
    calm P (ask c g) s = (g (P.effect s c).1, (P.effect s c).2) := by
  show calm P (fromExcept (g (P.effect s c).1)) (P.effect s c).2 = _
  cases g (P.effect s c).1 with
  | ok a => rfl
  | error e => rfl

theorem calm_perform {f : R c → Script C R ε α} {a : R c} (h : P.effect s c = (.ok a, s')) :
    calm P (perform c >>= f) s = calm P (f a) s' := by
  apply calm_bind_ok
  rw [perform, calm_ask, h]
  rfl

end Script

end Talus.Base
