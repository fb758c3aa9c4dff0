/-
  Talus.Admission.Gate
  **THE PER-USER GATE AS A TRANSITION SYSTEM.**

  `gate/gate.go` serializes admissions and credential mutations of one user:
  `withUser` takes the user's lock, reads a version from the ordinary source
  or, while the user is FENCED, from the locking recovery source, clears the
  fence and runs the callback; `Update` fences the user again when its
  callback reports an uncertain outcome.

  A call's phase is the program counter of `withUser`.  What the environment
  decides (whether a source answers and with which version, whether the
  context ends, what the callback reports) is in the labels.  The log records
  the three facts the fence is about.
-/
import Talus.Base.Run

namespace Talus.Admission

open Talus.Base

abbrev UserID := Nat

/-! ## §1. Data. -/

/-- The two version sources. -/
inductive Source
  /-- an ordinary read -/
  | ordinary
  /-- the locking recovery read -/
  | recovery
  deriving Repr, DecidableEq

/-- `userState`; `locked` is the state of the `lock` channel. -/
structure UserState where
  locked : Bool
  initialized : Bool
  pending : Bool
  deriving Repr, DecidableEq

/-- `!state.initialized || state.pending`: the next read must be a recovery. -/
def UserState.fenced (st : UserState) : Bool :=
  !st.initialized || st.pending

/-- The source `withUser` chooses under the lock. -/
def UserState.source (st : UserState) : Source :=
  if st.fenced then .recovery else .ordinary

/-- Program counter of `withUser`. -/
inductive Phase
  /-- in the `select` on the lock -/
  | waiting
  /-- the lock is held, the chosen source has not answered -/
  | reading (src : Source)
  /-- the source has answered, the fence is not yet cleared -/
  | fetched (src : Source) (version : Int)
  /-- the callback runs with this version -/
  | running (src : Source) (version : Int)
  | done
  deriving Repr, DecidableEq

/-- The call holds its user's lock. -/
def Phase.holds : Phase → Bool
  | .waiting | .done => false
  | _ => true

/-- `Admit` and `Recover` pass a plain callback, `Update` one that may report
an uncertain outcome. -/
inductive Kind
  | admission
  | update
  deriving Repr, DecidableEq

structure Call where
  user : UserID
  kind : Kind
  phase : Phase
  deriving Repr, DecidableEq

inductive GateEvent
  /-- the recovery source succeeded for the user -/
  | recovered (u : UserID)
  /-- a callback of the user runs with a version of this source -/
  | callback (u : UserID) (src : Source)
  /-- an `Update` of the user reported an uncertain outcome -/
  | uncertain (u : UserID)
  deriving Repr, DecidableEq

structure Gate where
  users : UserID → UserState
  calls : List Call
  log : List GateEvent

/-- `New`: users start fenced, since no read of theirs has succeeded yet. -/
def newGate : Gate where
  users := fun _ => { locked := false, initialized := false, pending := false }
  calls := []
  log := []

/-! ## §2. The steps of one call. -/

inductive CallOp
  /-- the context ends before the lock is taken -/
  | giveUp
  /-- the lock is taken and the source chosen -/
  | lock
  /-- the context has ended, or the source returns an error -/
  | readFail
  /-- the source returns a version -/
  | readOk (version : Int)
  /-- the context has ended when the source has answered -/
  | lateFail
  /-- the fence is cleared and the callback starts -/
  | enter
  /-- the callback returns, the lock is released -/
  | finish (uncertain : Bool)
  deriving Repr, DecidableEq

/-- One step of a call: the new phase, the new state of its user, and what is
logged. -/
def callStep (c : Call) (st : UserState) :
    CallOp → Option (Phase × UserState × List GateEvent)
  | .giveUp =>
    match c.phase with
    | .waiting => some (.done, st, [])
    | _ => none
  | .lock =>
    match c.phase with
    | .waiting =>
      if st.locked then none
      else some (.reading st.source, { st with locked := true }, [])
    | _ => none
  | .readFail =>
    match c.phase with
    | .reading _ => some (.done, { st with locked := false }, [])
    | _ => none
  | .readOk version =>
    match c.phase with
    | .reading src =>
      some (.fetched src version, st,
        if src = .recovery then [.recovered c.user] else [])
    | _ => none
  | .lateFail =>
    match c.phase with
    | .fetched _ _ => some (.done, { st with locked := false }, [])
    | _ => none
  | .enter =>
    match c.phase with
    | .fetched src version =>
      some (.running src version, { st with initialized := true, pending := false },
        [.callback c.user src])
    | _ => none
  | .finish uncertain =>
    match c.phase with
    | .running _ _ =>
      -- only the callback of `Update` has an outcome to report
      if c.kind = .admission ∧ uncertain = true then none
      else some (.done,
        { st with locked := false, pending := if uncertain then true else st.pending },
        if uncertain then [.uncertain c.user] else [])
    | _ => none

/-! ## §3. The gate. -/

inductive GateOp
  | start (u : UserID) (kind : Kind)
  | call (k : Nat) (op : CallOp)
  deriving Repr, DecidableEq

/-- Write a step of call `k` (now `c`) back. -/
def Gate.apply (g : Gate) (k : Nat) (c : Call)
    (r : Phase × UserState × List GateEvent) : Gate where
  users := fun u => if u = c.user then r.2.1 else g.users u
  calls := g.calls.set k { c with phase := r.1 }
  log := g.log ++ r.2.2

def gateStep (g : Gate) : GateOp → Option Gate
  | .start u kind => some { g with calls := g.calls ++ [⟨u, kind, .waiting⟩] }
  | .call k op =>
    match g.calls[k]? with
    | none => none
    | some c => (callStep c (g.users c.user) op).map (g.apply k c)

/-- The gate from `New` on, under every interleaving of its callers. -/
def gateSystem : System Gate GateOp where
  init g := g = newGate
  step := gateStep

/-! ## §4. What a step of a call can do. -/

/-- The steps of a call, with the guards under which it takes them. -/
inductive CallMove (c : Call) (st : UserState) :
    CallOp → Phase × UserState × List GateEvent → Prop
  | giveUp (hp : c.phase = .waiting) : CallMove c st .giveUp (.done, st, [])
  | lock (hp : c.phase = .waiting) (hl : st.locked = false) :
      CallMove c st .lock (.reading st.source, { st with locked := true }, [])
  | readFail (src : Source) (hp : c.phase = .reading src) :
      CallMove c st .readFail (.done, { st with locked := false }, [])
  | readOk (src : Source) (version : Int) (hp : c.phase = .reading src) :
      CallMove c st (.readOk version)
        (.fetched src version, st, if src = .recovery then [.recovered c.user] else [])
  | lateFail (src : Source) (version : Int) (hp : c.phase = .fetched src version) :
      CallMove c st .lateFail (.done, { st with locked := false }, [])
  | enter (src : Source) (version : Int) (hp : c.phase = .fetched src version) :
      CallMove c st .enter
        (.running src version, { st with initialized := true, pending := false },
          [.callback c.user src])
  | finish (src : Source) (version : Int) (hp : c.phase = .running src version) :
      CallMove c st (.finish false) (.done, { st with locked := false }, [])
  | finishUncertain (src : Source) (version : Int) (hp : c.phase = .running src version)
      (hk : c.kind = .update) :
      CallMove c st (.finish true)
        (.done, { st with locked := false, pending := true }, [.uncertain c.user])

theorem callStep_move {c : Call} {st : UserState} {op : CallOp}
    {r : Phase × UserState × List GateEvent} (h : callStep c st op = some r) :
    CallMove c st op r := by
  cases op <;> simp only [callStep] at h
  case giveUp =>
    split at h
    · next hp => exact Option.some.inj h ▸ .giveUp hp
    · cases h
  case lock =>
    split at h
    · next hp =>
      split at h
      · cases h
      · next hl => exact Option.some.inj h ▸ .lock hp (by simpa using hl)
    · cases h
  case readFail =>
    split at h
    · next src hp => exact Option.some.inj h ▸ .readFail src hp
    · cases h
  case readOk version =>
    split at h
    · next src hp => exact Option.some.inj h ▸ .readOk src version hp
    · cases h
  case lateFail =>
    split at h
    · next src version hp => exact Option.some.inj h ▸ .lateFail src version hp
    · cases h
  case enter =>
    split at h
    · next src version hp => exact Option.some.inj h ▸ .enter src version hp
    · cases h
  case finish uncertain =>
    split at h
    · next src version hp =>
      split at h
      · cases h
      · next hk =>
        cases uncertain with
        | false => exact Option.some.inj h ▸ .finish src version hp
        | true =>
          have hu : c.kind = .update := by
            cases hc : c.kind with
            | admission => exact absurd ⟨hc, rfl⟩ hk
            | update => rfl
          exact Option.some.inj h ▸ .finishUncertain src version hp hu
    · cases h

theorem call_cases {g g' : Gate} {k : Nat} {op : CallOp}
    (h : gateStep g (.call k op) = some g') :
    ∃ c r, g.calls[k]? = some c ∧ CallMove c (g.users c.user) op r ∧ g' = g.apply k c r := by
  simp only [gateStep] at h
  split at h
  · cases h
  · next c hc =>
    obtain ⟨r, hr, rfl⟩ := Option.map_eq_some_iff.mp h
    exact ⟨c, r, hc, callStep_move hr, rfl⟩

end Talus.Admission
