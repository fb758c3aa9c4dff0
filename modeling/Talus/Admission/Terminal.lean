/-
  Talus.Admission.Terminal
  **TERMINAL SESSIONS BEHIND THE GATE.**

  The gate of `Talus.Admission.Gate`, put to the use the Hub makes of it: the
  version sources read a database row, terminals register and ask for
  permission inside `Admit`, and credential mutations (`ChangePassword`,
  `UpdatePermissions`, `Rotate`, `Delete`) run inside `Update` and mark the
  subject's registered terminals revoked.

  A mutation's COMMIT may lose its acknowledgement.  Its transaction has then
  landed, is lost, or is still IN FLIGHT: it holds the row lock, so a locking
  read waits for it, while an ordinary read still sees the old row.

  There are two instances of the system, with users and with API keys as
  subjects; they differ in what the sources answer for a missing row.
-/
import Talus.Admission.Fence

namespace Talus.Admission

open Talus.Base

/-! ## §1. Data. -/

/-- Which of the two gates: JWT users, or API keys. -/
inductive Subject
  | user
  | apiKey
  deriving Repr, DecidableEq

/-- `SessionState`. -/
inductive SessionState
  | preparing
  | ready
  | revoked
  deriving Repr, DecidableEq

/-- A terminal of the registry; `present` until `Registry.Done` removes it. -/
structure Session where
  user : UserID
  version : Int
  state : SessionState
  present : Bool
  deriving Repr, DecidableEq

inductive Mutation
  | changePassword
  | updatePermissions
  | rotate
  | delete
  deriving Repr, DecidableEq

/-- What a committed mutation leaves of the version column. -/
def Mutation.apply : Mutation → Option Int → Option Int
  | .delete, _ => none
  | _, row => row.map (· + 1)

/-- What became of a transaction whose COMMIT was not acknowledged. -/
inductive Fate
  | landed
  | lost
  | inFlight
  deriving Repr, DecidableEq

/-- How the repository call of a mutation ends. -/
inductive Outcome
  /-- a known failure: nothing was written -/
  | failed
  /-- `UpdatePermissions` found nothing to change -/
  | unchanged
  | committed
  /-- `ErrCommitUnknown`, `ErrAPIKeyCommitUnknown` -/
  | unknown (fate : Fate)
  deriving Repr, DecidableEq

/-- The `uncertain` result of the callback. -/
def Outcome.uncertain : Outcome → Bool
  | .unknown _ => true
  | _ => false

/-- The callback calls `MarkRevoked`. -/
def Outcome.revokes : Outcome → Bool
  | .committed | .unknown _ => true
  | _ => false

/-- The mutation is in the row when the repository call returns. -/
def Outcome.written : Outcome → Bool
  | .committed | .unknown .landed => true
  | _ => false

/-- What a call of the gate is for. -/
inductive Request
  /-- the first admission of a terminal, with the version its credential has -/
  | register (expectedVersion : Int)
  /-- the second admission of terminal `id`, once its shell has started -/
  | ready (id : Nat)
  /-- an input or resize message of terminal `id` -/
  | input (id : Nat)
  | mutate (m : Mutation)
  /-- `Recover`, and admissions that touch no terminal -/
  | other
  deriving Repr, DecidableEq

def Request.kind : Request → Kind
  | .mutate _ => .update
  | _ => .admission

/-- A call's request, and the outcome once its repository call has ended. -/
structure Errand where
  request : Request
  outcome : Option Outcome
  deriving Repr, DecidableEq

structure Hub where
  subject : Subject
  gate : Gate
  /-- one errand per call of the gate -/
  errands : List Errand
  /-- the version column; no row for a missing subject -/
  rows : UserID → Option Int
  /-- a transaction of unknown outcome that has not ended -/
  inFlight : UserID → Option Mutation
  /-- sessions ever registered; the index is the session's id -/
  sessions : List Session
  /-- ghost: ids of the sessions that obtained `Admit` or `InputPermit` -/
  grants : List Nat

/-- What the ordinary source answers: `TokenVersion` fails for a missing user,
`PermissionsRevision` answers zero for a missing key. -/
def Hub.currentVersion (h : Hub) (u : UserID) : Option Int :=
  match h.subject with
  | .user => h.rows u
  | .apiKey => some ((h.rows u).getD 0)

/-- The source answers `version` for `u`: the locking read only when no
transaction on the row is in flight. -/
def Hub.answers (h : Hub) (u : UserID) (src : Source) (version : Int) : Bool :=
  (src == .ordinary || (h.inFlight u).isNone) && h.currentVersion u == some version

/-! ## §2. The registry. -/

/-- `Registry.Register`. -/
def register (sessions : List Session) (u : UserID) (version : Int) : List Session :=
  sessions ++ [{ user := u, version := version, state := .preparing, present := true }]

/-- `version == reg.Version && Registry.Admit(reg.ID)`. -/
def mayReady (version : Int) (s : Session) : Bool :=
  version == s.version && s.present && s.state == .preparing

/-- `version == reg.Version && Registry.InputPermit(reg.ID)`. -/
def mayInput (version : Int) (s : Session) : Bool :=
  version == s.version && s.present && s.state == .ready

/-- `MarkRevoked` on one session: only registered ones of the user. -/
def Session.markRevoked (u : UserID) (s : Session) : Session :=
  if s.user = u ∧ s.present = true then { s with state := .revoked } else s

/-! ## §3. The steps. -/

/-- The callback of an admission, run with `version` for subject `u`. -/
def Hub.admitted (h : Hub) (u : UserID) (version : Int) : Request → Hub
  | .register expectedVersion =>
    if expectedVersion = version then
      { h with sessions := register h.sessions u version }
    else h
  | .ready id =>
    match h.sessions[id]? with
    | some s =>
      if mayReady version s then
        { h with sessions := h.sessions.set id { s with state := .ready }
                 grants := id :: h.grants }
      else h
    | none => h
  | .input id =>
    match h.sessions[id]? with
    | some s => if mayInput version s then { h with grants := id :: h.grants } else h
    | none => h
  | _ => h

/-- The mutation can end this way: a known failure always can; anything else
needs the row lock, and the row unless it is deleted. -/
def Hub.mayEnd (h : Hub) (u : UserID) (m : Mutation) (out : Outcome) : Bool :=
  out == .failed
    || ((h.inFlight u).isNone && (m == .delete || (h.rows u).isSome)
        && (out != .unchanged || m == .updatePermissions))

inductive Op
  /-- a request enters `Admit` or `Update` -/
  | enter (u : UserID) (r : Request)
  /-- a step of `withUser` outside the callback -/
  | gate (k : Nat) (op : CallOp)
  /-- the callback of an admission, and the release of the lock -/
  | respond (k : Nat)
  /-- the repository call of a mutation -/
  | commit (k : Nat) (out : Outcome)
  /-- the rest of a mutation's callback, the fence, and the release of the lock -/
  | settle (k : Nat)
  /-- a transaction in flight ends -/
  | resolve (u : UserID) (landed : Bool)
  /-- `Registry.Done` -/
  | done (id : Nat)
  deriving Repr, DecidableEq

/-- A request as the callers make it: a terminal's first admission has a
subject id and, for an API key, a positive revision; later ones are for its own
session. -/
def Hub.wellPosed (h : Hub) (u : UserID) : Request → Bool
  | .register expectedVersion =>
    u != 0 && (h.subject == .user || decide (0 < expectedVersion))
  | .ready id | .input id => (h.sessions[id]?.map (·.user)) == some u
  | _ => true

def Hub.setRow (h : Hub) (u : UserID) (row : Option Int) : UserID → Option Int :=
  fun u' => if u' = u then row else h.rows u'

def Hub.setInFlight (h : Hub) (u : UserID) (m : Option Mutation) :
    UserID → Option Mutation :=
  fun u' => if u' = u then m else h.inFlight u'

/-- The state of the database and of errand `k` after the repository call. -/
def Hub.commit (h : Hub) (k : Nat) (u : UserID) (m : Mutation) (out : Outcome) : Hub :=
  { h with
    rows := h.setRow u (if out.written then m.apply (h.rows u) else h.rows u)
    inFlight := h.setInFlight u (if out = .unknown .inFlight then some m else h.inFlight u)
    errands := h.errands.set k { request := .mutate m, outcome := some out } }

/-- The steps of `withUser` outside the callback: a source answers with what
the database holds. -/
def Hub.enabled (h : Hub) (c : Call) : CallOp → Bool
  | .readOk version =>
    match c.phase with
    | .reading src => h.answers c.user src version
    | _ => false
  | .finish _ => false
  | _ => true

def hubStep (h : Hub) : Op → Option Hub
  | .enter u r =>
    if h.wellPosed u r then
      (gateStep h.gate (.start u r.kind)).map fun g =>
        { h with gate := g, errands := h.errands ++ [{ request := r, outcome := none }] }
    else none
  | .gate k op =>
    match h.gate.calls[k]? with
    | none => none
    | some c =>
      if h.enabled c op then
        (gateStep h.gate (.call k op)).map fun g => { h with gate := g }
      else none
  | .respond k =>
    match h.gate.calls[k]?, h.errands[k]? with
    | some c, some e =>
      match c.phase with
      | .running _ version =>
        if e.request.kind = .admission then
          (gateStep h.gate (.call k (.finish false))).map fun g =>
            { h with gate := g }.admitted c.user version e.request
        else none
      | _ => none
    | _, _ => none
  | .commit k out =>
    match h.gate.calls[k]?, h.errands[k]? with
    | some c, some e =>
      match c.phase, e.request, e.outcome with
      | .running _ _, .mutate m, none =>
        if h.mayEnd c.user m out then some (h.commit k c.user m out) else none
      | _, _, _ => none
    | _, _ => none
  | .settle k =>
    match h.gate.calls[k]?, h.errands[k]? with
    | some c, some e =>
      match e.outcome with
      | some out =>
        (gateStep h.gate (.call k (.finish out.uncertain))).map fun g =>
          { h with
            gate := g
            sessions := if out.revokes then
                h.sessions.map (Session.markRevoked c.user)
              else h.sessions }
      | none => none
    | _, _ => none
  | .resolve u landed =>
    match h.inFlight u with
    | some m =>
      some { h with
        rows := h.setRow u (if landed then m.apply (h.rows u) else h.rows u)
        inFlight := h.setInFlight u none }
    | none => none
  | .done id =>
    match h.sessions[id]? with
    | some s => some { h with sessions := h.sessions.set id { s with present := false } }
    | none => none

/-- The Hub from its start on, over any database; transactions of an earlier
process may still be in flight. -/
def hubSystem : System Hub Op where
  init h := ∃ subject rows inFlight, h =
    { subject := subject, gate := newGate, errands := [], rows := rows,
      inFlight := inFlight, sessions := [], grants := [] }
  step := hubStep

end Talus.Admission
