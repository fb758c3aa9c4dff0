/-
  Talus.Resident.Presence
  **WHO OWNS A SERVER'S PRESENCE** (`service/resident_monitor.go`, the
  reconciliation loop of `service/resident_deploy.go`).

  Each server has at most one `residentRuntime` in the map `nodes`.  A
  WebSocket handler registers on it: it raises the runtime's generation, puts
  its own `close` function there and keeps the generation; its deferred
  cleanup clears `connected` and `close` of the runtime it then finds in the
  map, IF THE GENERATION IS STILL ITS OWN.  The runtime is replaced by a new
  one, with generation 0, when the credential changes or the server has been
  gone for a while, so the number alone does not say whose runtime it is:

      A registers on runtime 0            generation 1
      the credential is replaced          runtime 1, generation 0; A is closed
      B registers on runtime 1            generation 1, `close` is B's
      A's cleanup runs                    finds generation 1: B is cleared

  Sections 1 and 2 are the model, one step per critical section; section 3 the
  invariant, which holds as long as each cleanup meets its own runtime or
  another generation; section 4 the result and the run above.
-/
import Talus.Base.Count
import Talus.Resident.Scheduler

namespace Talus.Resident

open Talus.Base List Option Function

/-! ## §1. State. -/

/-- Program counter of a WebSocket handler. -/
inductive ConnPhase
  /-- authenticated and upgraded, before `m.mu` -/
  | upgraded
  /-- registered, `oldClose()` is still to come -/
  | registered
  /-- in the loop -/
  | serving
  /-- the loop has returned, the deferred cleanup is still to come -/
  | left
  /-- … and `conn.Close()` is still to come -/
  | cleaned
  | gone
  deriving Repr, DecidableEq

/-- A WebSocket connection and its handler. -/
structure Conn where
  node : AgentNode
  phase : ConnPhase
  isOpen : Bool
  generation : Nat
  /-- ghost: the runtime it has registered on -/
  runtime : Nat
  /-- `oldClose`: the connection it has taken the runtime from -/
  owes : Option Nat
  deriving Repr, DecidableEq

/-- `residentRuntime`; `close` is the connection its close function belongs
to. -/
structure Runtime where
  node : AgentNode
  lastContact : Option Time
  connected : Bool
  close : Option Nat
  generation : Nat
  deriving Repr, DecidableEq

def newRuntime (n : AgentNode) : Runtime where
  node := n
  lastContact := none
  connected := false
  close := none
  generation := 0

/-- The presence fields of `ResidentMonitor`; `nodes` points into `runtimes`,
which holds every runtime there has been. -/
structure Presence where
  nodes : ServerID → Option Nat
  runtimes : List Runtime
  conns : List Conn
  closed : Bool
  revoked : ServerID → Option Time

def newPresence : Presence where
  nodes := fun _ => none
  runtimes := []
  conns := []
  closed := false
  revoked := fun _ => none

/-- `conn.Close()` for each of the connections. -/
def closeConns (cs : List Nat) (conns : List Conn) : List Conn :=
  conns.mapIdx fun c conn => if c ∈ cs then { conn with isOpen := false } else conn

/-! ## §2. Steps. -/

namespace Presence

/-- `m.closed || m.now().Before(m.revoked[id])`. -/
def refuses (p : Presence) (s : ServerID) (now : Time) : Bool :=
  p.closed || (p.revoked s).any fun until_ => now < until_

/-- `runtimeLocked`. -/
def runtimeLocked (p : Presence) (n : AgentNode) : Presence × Nat :=
  match p.nodes n.serverID with
  | some r => (p, r)
  | none =>
    ({ p with runtimes := p.runtimes ++ [newRuntime n]
              nodes := Function.update p.nodes n.serverID (some p.runtimes.length) },
      p.runtimes.length)

def setConn (p : Presence) (c : Nat) (conn : Conn) : Presence :=
  { p with conns := p.conns.set c conn }

/-- The registration of a handler, under `m.mu`. -/
def accept (p : Presence) (c : Nat) (conn : Conn) (now : Time) : Option Presence :=
  if p.refuses conn.node.serverID now then some (p.setConn c { conn with phase := .cleaned })
  else
    let q := p.runtimeLocked conn.node
    (q.1.runtimes[q.2]?).map fun v =>
      { q.1 with
        runtimes := q.1.runtimes.set q.2
          { v with generation := v.generation + 1, close := some c, connected := true }
        conns := q.1.conns.set c
          { conn with phase := .registered, generation := v.generation + 1, runtime := q.2
                      owes := v.close } }

/-- `oldClose()`. -/
def callOld (p : Presence) (c : Nat) (conn : Conn) : Presence :=
  { p with
    conns := closeConns conn.owes.toList
      (p.conns.set c { conn with phase := .serving, owes := none }) }

/-- `receive` up to the end of its first critical section; generation 0 is the
HTTP endpoint. -/
def receive (p : Presence) (n : AgentNode) (generation : Nat) (now : Time) : Option Presence :=
  if p.refuses n.serverID now then some p
  else
    let q := p.runtimeLocked n
    (q.1.runtimes[q.2]?).map fun v =>
      if v.node.tokenHash ≠ n.tokenHash ∨ (generation ≠ 0 ∧ v.generation ≠ generation) then q.1
      else { q.1 with
        runtimes := q.1.runtimes.set q.2
          { v with lastContact := some now
                   connected := v.connected || (generation == 0 && v.close == none) } }

/-- The deferred cleanup: the runtime it finds in the map, by its generation. -/
def cleanup (p : Presence) (c : Nat) (conn : Conn) : Option Presence :=
  let q := p.setConn c { conn with phase := .cleaned }
  match p.nodes conn.node.serverID with
  | none => some q
  | some r =>
    (p.runtimes[r]?).map fun v =>
      if v.generation = conn.generation then
        { q with runtimes := p.runtimes.set r { v with connected := false, close := none } }
      else q

/-- The reconciler has the row `n` of a server. -/
def reconcile (p : Presence) (n : AgentNode) : Option Presence :=
  let q := p.runtimeLocked n
  (q.1.runtimes[q.2]?).map fun v =>
    if v.node.tokenHash ≠ n.tokenHash then
      { q.1 with
        conns := closeConns v.close.toList q.1.conns
        runtimes := q.1.runtimes ++ [newRuntime n]
        nodes := Function.update q.1.nodes n.serverID (some q.1.runtimes.length) }
    else { q.1 with runtimes := q.1.runtimes.set q.2 { v with node := n } }

/-- The connections whose close function stands in the runtime of a server
that `sel` selects. -/
def registered (p : Presence) (sel : ServerID → Bool) : List Nat :=
  (List.range p.runtimes.length).filterMap fun r =>
    (p.runtimes[r]?).bind fun v =>
      if p.nodes v.node.serverID = some r ∧ sel v.node.serverID = true then v.close else none

/-- Runtimes of selected servers are closed and leave the map. -/
def drop (p : Presence) (sel : ServerID → Bool) : Presence :=
  { p with
    conns := closeConns (p.registered sel) p.conns
    nodes := fun s => if sel s then none else p.nodes s }

/-- `Disconnect`. -/
def disconnect (p : Presence) (s : ServerID) (now : Time) : Presence :=
  { p.drop (· == s) with
    revoked := Function.update
      (fun s' => (p.revoked s').filter fun until_ => now < until_) s (some (now + minute)) }

/-- `Close`. -/
def close (p : Presence) : Presence :=
  { p with
    closed := true
    conns := closeConns (p.registered fun _ => true) p.conns
    runtimes := p.runtimes.mapIdx fun r v =>
      if p.nodes v.node.serverID = some r then { v with close := none, connected := false } else v }

end Presence

inductive PresenceOp
  /-- a handler has authenticated `n` and upgraded its connection -/
  | upgrade (n : AgentNode)
  | accept (c : Nat) (now : Time)
  | callOld (c : Nat)
  /-- a message on the connection -/
  | message (c : Nat) (now : Time)
  /-- the connection breaks -/
  | hangUp (c : Nat)
  /-- the loop returns: a read or write has failed, or a message was invalid -/
  | leave (c : Nat)
  | cleanup (c : Nat)
  /-- the deferred `conn.Close()` -/
  | closeOwn (c : Nat)
  /-- a report through the HTTP endpoint -/
  | http (n : AgentNode) (now : Time)
  /-- `setDeployment` looks the runtime up -/
  | deployment (n : AgentNode)
  | reconcile (n : AgentNode)
  /-- the reconciler drops servers that are gone -/
  | dropServers (live : List ServerID)
  | disconnect (s : ServerID) (now : Time)
  | close
  deriving Repr, DecidableEq

/-- A step of the handler of `c`, which must be at `phase`. -/
def Presence.atPhase (p : Presence) (c : Nat) (phase : ConnPhase) : Option Conn :=
  (p.conns[c]?).filter fun conn => conn.phase = phase

def presenceStep (p : Presence) : PresenceOp → Option Presence
  | .upgrade n =>
    if p.closed then some p
    else some { p with conns := p.conns ++ [⟨n, .upgraded, true, 0, 0, none⟩] }
  | .accept c now => (p.atPhase c .upgraded).bind fun conn => p.accept c conn now
  | .callOld c => (p.atPhase c .registered).map fun conn => p.callOld c conn
  | .message c now =>
    (p.atPhase c .serving).bind fun conn => p.receive conn.node conn.generation now
  | .hangUp c => some { p with conns := closeConns [c] p.conns }
  | .leave c => (p.atPhase c .serving).map fun conn => p.setConn c { conn with phase := .left }
  | .cleanup c => (p.atPhase c .left).bind fun conn => p.cleanup c conn
  | .closeOwn c =>
    (p.atPhase c .cleaned).map fun conn =>
      p.setConn c { conn with phase := .gone, isOpen := false }
  | .http n now => p.receive n 0 now
  | .deployment n => some (p.runtimeLocked n).1
  | .reconcile n => p.reconcile n
  | .dropServers live => some (p.drop fun s => !live.contains s)
  | .disconnect s now => some (p.disconnect s now)
  | .close => some p.close

def presenceSystem : System Presence PresenceOp where
  init p := p = newPresence
  step := presenceStep

/-! ## §3. The invariant. -/

/-- The handler has registered and not cleaned up yet. -/
def ConnPhase.live : ConnPhase → Bool
  | .registered | .serving | .left => true
  | _ => false

/-- The close function of `c` stands in the runtime of its server. -/
def Presence.Registered (p : Presence) (c : Nat) (conn : Conn) : Prop :=
  p.nodes conn.node.serverID = some conn.runtime
    ∧ ∃ v, p.runtimes[conn.runtime]? = some v ∧ v.close = some c ∧ v.connected = true

/-- Another handler has taken the runtime and is about to close `c`. -/
def Presence.Superseded (p : Presence) (c : Nat) : Prop :=
  ∃ (d : Nat) (conn : Conn), p.conns[d]? = some conn ∧ conn.phase = .registered
    ∧ conn.owes = some c

structure PresenceInv (p : Presence) : Prop where
  mapped : ∀ s r, p.nodes s = some r → ∃ v, p.runtimes[r]? = some v ∧ v.node.serverID = s
  /-- generations only rise -/
  older : ∀ (c : Nat) (conn : Conn), p.conns[c]? = some conn → conn.phase.live = true →
    ∃ v, p.runtimes[conn.runtime]? = some v ∧ conn.generation ≤ v.generation
  /-- a runtime with a handler's generation is still the handler's -/
  own : ∀ (c : Nat) (conn : Conn) (v : Runtime), p.conns[c]? = some conn →
    conn.phase.live = true → p.runtimes[conn.runtime]? = some v →
    v.generation = conn.generation →
    v.close = some c ∨ (p.closed = true ∧ v.close = none ∧ v.connected = false)
  reach : ∀ (c : Nat) (conn : Conn), p.conns[c]? = some conn → conn.phase.live = true →
    conn.isOpen = true → p.Registered c conn ∨ p.Superseded c

theorem newPresence_inv : PresenceInv newPresence := by
  constructor <;> simp [newPresence]

/-! ### Connections close. -/

variable {cs : List Nat} {c : Nat} {conn' : Conn}

theorem getElem?_closeConns {conns : List Conn} (h : (closeConns cs conns)[c]? = some conn') :
    ∃ conn, conns[c]? = some conn
      ∧ conn' = if c ∈ cs then { conn with isOpen := false } else conn := by
  unfold closeConns at h
  rw [getElem?_mapIdx] at h
  obtain ⟨conn, hc, rfl⟩ := map_eq_some_iff.mp h
  exact ⟨conn, hc, rfl⟩

/-- What closing a connection leaves as it was. -/
theorem closeConns_same {conns : List Conn} (h : (closeConns cs conns)[c]? = some conn') :
    ∃ conn, conns[c]? = some conn ∧ conn'.node = conn.node ∧ conn'.phase = conn.phase
      ∧ conn'.generation = conn.generation ∧ conn'.runtime = conn.runtime
      ∧ (conn'.isOpen = true → conn.isOpen = true ∧ c ∉ cs) := by
  obtain ⟨conn, hc, rfl⟩ := getElem?_closeConns h
  refine ⟨conn, hc, ?_⟩
  by_cases hin : c ∈ cs
  · simp [hin]
  · simp [hin]

variable {p : Presence}

theorem superseded_closeConns (h : p.Superseded c) :
    Presence.Superseded { p with conns := closeConns cs p.conns } c := by
  obtain ⟨d, conn, hd, hphase, howes⟩ := h
  refine ⟨d, if d ∈ cs then { conn with isOpen := false } else conn, ?_, ?_, ?_⟩
  · show (closeConns cs p.conns)[d]? = _
    unfold closeConns
    rw [getElem?_mapIdx, hd]
    rfl
  · split <;> exact hphase
  · split <;> exact howes

/-- **Handlers change**: those that are live have been, with the same
registration. -/
theorem PresenceInv.moveConns (h : PresenceInv p) {conns' : List Conn}
    (hback : ∀ (x : Nat) (cx : Conn), conns'[x]? = some cx → cx.phase.live = true →
      ∃ old, p.conns[x]? = some old ∧ old.phase.live = true ∧ cx.node = old.node
        ∧ cx.generation = old.generation ∧ cx.runtime = old.runtime
        ∧ (cx.isOpen = true → old.isOpen = true))
    (hsup : ∀ (x : Nat) (cx : Conn), conns'[x]? = some cx → cx.isOpen = true → p.Superseded x →
      Presence.Superseded { p with conns := conns' } x) :
    PresenceInv { p with conns := conns' } := by
  refine ⟨h.mapped, fun x cx hx hlive => ?_, fun x cx v hx hlive hv hgen => ?_,
    fun x cx hx hlive hopen => ?_⟩
  · obtain ⟨old, hold, hl, -, hg, hr, -⟩ := hback x cx hx hlive
    rw [hg, hr]
    exact h.older x old hold hl
  · obtain ⟨old, hold, hl, -, hg, hr, -⟩ := hback x cx hx hlive
    rw [hr] at hv
    exact h.own x old v hold hl hv (hgen.trans hg)
  · obtain ⟨old, hold, hl, hn, -, hr, ho⟩ := hback x cx hx hlive
    rcases h.reach x old hold hl (ho hopen) with hreg | hs
    · left
      unfold Presence.Registered at hreg ⊢
      rw [hn, hr]
      exact hreg
    · exact .inr (hsup x cx hx hopen hs)

/-- **Runtimes change**, but not their generations. -/
theorem PresenceInv.moveRuntimes (h : PresenceInv p) {nodes' : ServerID → Option Nat}
    {runtimes' : List Runtime} {closed' : Bool}
    (hmapped : ∀ s r, nodes' s = some r → ∃ v, runtimes'[r]? = some v ∧ v.node.serverID = s)
    (hkept : ∀ (r : Nat) (v : Runtime), p.runtimes[r]? = some v →
      ∃ v', runtimes'[r]? = some v' ∧ v'.generation = v.generation)
    (hown : ∀ (c : Nat) (conn : Conn) (v v' : Runtime), p.conns[c]? = some conn →
      conn.phase.live = true → p.runtimes[conn.runtime]? = some v →
      runtimes'[conn.runtime]? = some v' →
      v.close = some c ∨ (p.closed = true ∧ v.close = none ∧ v.connected = false) →
      v'.close = some c ∨ (closed' = true ∧ v'.close = none ∧ v'.connected = false))
    (hreach : ∀ (c : Nat) (conn : Conn), p.conns[c]? = some conn → conn.phase.live = true →
      conn.isOpen = true → p.Registered c conn →
      Presence.Registered { p with nodes := nodes', runtimes := runtimes' } c conn) :
    PresenceInv { p with nodes := nodes', runtimes := runtimes', closed := closed' } := by
  refine ⟨hmapped, fun c conn hc hlive => ?_, fun c conn v' hc hlive hv' hgen => ?_,
    fun c conn hc hlive hopen => ?_⟩
  · obtain ⟨v, hv, hle⟩ := h.older c conn hc hlive
    obtain ⟨v', hv', hg⟩ := hkept _ v hv
    exact ⟨v', hv', hg ▸ hle⟩
  · obtain ⟨v, hv, -⟩ := h.older c conn hc hlive
    obtain ⟨u, hu, hg⟩ := hkept _ v hv
    cases hu.symm.trans hv'
    exact hown c conn v _ hc hlive hv hv' (h.own c conn v hc hlive hv (hg.symm.trans hgen))
  · exact (h.reach c conn hc hlive hopen).imp_left (hreach c conn hc hlive hopen)

theorem PresenceInv.closeConns (h : PresenceInv p) (cs : List Nat) :
    PresenceInv { p with conns := closeConns cs p.conns } := by
  refine h.moveConns (fun x cx hx hlive => ?_) fun _ _ _ _ hs => superseded_closeConns hs
  obtain ⟨old, hold, hn, hp, hg, hr, ho⟩ := closeConns_same hx
  exact ⟨old, hold, hp ▸ hlive, hn, hg, hr, fun hopen => (ho hopen).1⟩

/-! ### Handlers move. -/

variable {conn : Conn}

/-- A handler that is not about to close `x` is rewritten. -/
theorem superseded_set {x : Nat} (hc : p.conns[c]? = some conn)
    (hno : conn.phase = .registered → conn.owes ≠ some x) (h : p.Superseded x) :
    (p.setConn c conn').Superseded x := by
  obtain ⟨d, cd, hd, hphase, howes⟩ := h
  have hne : c ≠ d := by
    rintro rfl
    rw [hc] at hd
    cases hd
    exact hno hphase howes
  exact ⟨d, cd, (getElem?_set_ne hne).trans hd, hphase, howes⟩

section

variable (h : PresenceInv p)
include h

/-- A handler that is not live, or whose record changes in nothing the others
see, is rewritten. -/
theorem PresenceInv.setConn (hc : p.conns[c]? = some conn)
    (hsame : conn'.phase.live = true → conn.phase.live = true ∧ conn'.node = conn.node
      ∧ conn'.generation = conn.generation ∧ conn'.runtime = conn.runtime
      ∧ (conn'.isOpen = true → conn.isOpen = true))
    (howes : conn.phase ≠ .registered) : PresenceInv (p.setConn c conn') := by
  refine h.moveConns (fun x cx hx hlive => ?_) ?_
  · rcases getElem?_set_cases hx with ⟨rfl, rfl⟩ | ⟨-, hx⟩
    · exact ⟨conn, hc, hsame hlive⟩
    · exact ⟨cx, hx, hlive, rfl, rfl, rfl, fun ho => ho⟩
  · -- nobody waits for this handler to close a connection
    exact fun x cx _ _ hs => superseded_set hc (fun hphase => absurd hphase howes) hs

/-! ### Runtimes change. -/

/-- Runtimes are added and the map changes, not for open connections. -/
theorem PresenceInv.extend {nodes' : ServerID → Option Nat} {extra : List Runtime}
    (hmapped : ∀ s r, nodes' s = some r →
      ∃ v, (p.runtimes ++ extra)[r]? = some v ∧ v.node.serverID = s)
    (hnodes : ∀ (c : Nat) (conn : Conn), p.conns[c]? = some conn → conn.isOpen = true →
      p.Registered c conn → nodes' conn.node.serverID = p.nodes conn.node.serverID) :
    PresenceInv { p with nodes := nodes', runtimes := p.runtimes ++ extra } := by
  refine h.moveRuntimes hmapped (fun r v hv => ⟨v, getElem?_append_old hv, rfl⟩)
    (fun c conn v v' _ _ hv hv' hown => ?_) fun c conn hc _ hopen hreg => ?_
  · cases (getElem?_append_old hv).symm.trans hv'
    exact hown
  · obtain ⟨hmap, v, hv, hclose⟩ := id hreg
    exact ⟨(hnodes c conn hc hopen hreg).trans hmap, v, getElem?_append_old hv, hclose⟩

/-- A server without a runtime gets one. -/
theorem PresenceInv.runtimeLocked (n : AgentNode) :
    PresenceInv (p.runtimeLocked n).1
      ∧ (p.runtimeLocked n).1.nodes n.serverID = some (p.runtimeLocked n).2 := by
  unfold Presence.runtimeLocked
  split
  · next r hr => exact ⟨h, hr⟩
  · next hnone =>
    refine ⟨h.extend (fun s r hs => ?_) fun c conn _ _ hreg => update_of_ne ?_ _ _, update_self ..⟩
    · by_cases heq : s = n.serverID
      · subst heq
        rw [update_self] at hs
        cases hs
        exact ⟨newRuntime n, getElem?_concat_length, rfl⟩
      · rw [update_of_ne heq] at hs
        obtain ⟨v, hv, hsrv⟩ := h.mapped s r hs
        exact ⟨v, getElem?_append_old hv, hsrv⟩
    · intro heq
      have hmap := hreg.1
      rw [heq, hnone] at hmap
      cases hmap

variable {r : Nat} {v : Runtime}

/-- A runtime keeps its server and its generation, and the map is as it was. -/
theorem PresenceInv.mapped_set {v' : Runtime} (hv : p.runtimes[r]? = some v)
    (hsrv : v'.node.serverID = v.node.serverID) :
    ∀ s i, p.nodes s = some i → ∃ u, (p.runtimes.set r v')[i]? = some u ∧ u.node.serverID = s := by
  intro s i hs
  obtain ⟨u, hu, hus⟩ := h.mapped s i hs
  by_cases hi : r = i
  · subst hi
    cases hv.symm.trans hu
    exact ⟨v', getElem?_set_same hv, hsrv.trans hus⟩
  · exact ⟨u, (getElem?_set_ne hi).trans hu, hus⟩

/-- A runtime is rewritten with the same generation; its handler, if it is
live, must still find itself there. -/
theorem PresenceInv.rewrite {v' : Runtime} (hv : p.runtimes[r]? = some v)
    (hsrv : v'.node.serverID = v.node.serverID) (hgen : v'.generation = v.generation)
    (hown : ∀ (c : Nat) (conn : Conn), p.conns[c]? = some conn → conn.phase.live = true →
      (v.close = some c → v'.close = some c ∧ (v.connected = true → v'.connected = true)) ∧
      (p.closed = true → v.close = none → v.connected = false →
        v'.close = none ∧ v'.connected = false)) :
    PresenceInv { p with runtimes := p.runtimes.set r v' } := by
  refine h.moveRuntimes (h.mapped_set hv hsrv) (fun i u hu => ?_)
    (fun c conn u u' hc hlive hu hu' ho => ?_) fun c conn hc hlive _ hreg => ?_
  · by_cases hi : r = i
    · subst hi
      cases hv.symm.trans hu
      exact ⟨v', getElem?_set_same hv, hgen⟩
    · exact ⟨u, (getElem?_set_ne hi).trans hu, rfl⟩
  · rcases getElem?_set_cases hu' with ⟨hi, rfl⟩ | ⟨-, hu'⟩
    · rw [← hi, hv] at hu
      cases hu
      rcases ho with hclose | ⟨hcl, hno, hoff⟩
      · exact .inl ((hown c conn hc hlive).1 hclose).1
      · exact .inr ⟨hcl, (hown c conn hc hlive).2 hcl hno hoff⟩
    · cases hu.symm.trans hu'
      exact ho
  · obtain ⟨hmap, u, hu, hclose, hon⟩ := hreg
    by_cases hi : r = conn.runtime
    · rw [← hi, hv] at hu
      cases hu
      obtain ⟨hkeep, hup⟩ := (hown c conn hc hlive).1 hclose
      exact ⟨hmap, v', hi ▸ getElem?_set_same hv, hkeep, hup hon⟩
    · exact ⟨hmap, u, (getElem?_set_ne hi).trans hu, hclose, hon⟩

/-- **A handler registers**: the connection it takes the runtime from is
superseded. -/
theorem PresenceInv.accept (hc : p.conns[c]? = some conn) (hup : conn.phase = .upgraded)
    (hmap : p.nodes conn.node.serverID = some r) (hv : p.runtimes[r]? = some v) :
    PresenceInv { p with
      runtimes := p.runtimes.set r
        { v with generation := v.generation + 1, close := some c, connected := true }
      conns := p.conns.set c
        { conn with phase := .registered, generation := v.generation + 1, runtime := r
                    owes := v.close } } := by
  refine ⟨h.mapped_set hv rfl, ?_, ?_, ?_⟩
  · intro x cx hx hlive
    rcases getElem?_set_cases hx with ⟨rfl, rfl⟩ | ⟨-, hx⟩
    · exact ⟨_, getElem?_set_same hv, Nat.le_refl _⟩
    · obtain ⟨u, hu, hle⟩ := h.older x cx hx hlive
      by_cases hi : r = cx.runtime
      · rw [← hi, hv] at hu
        cases hu
        exact ⟨_, by rw [← hi]; exact getElem?_set_same hv, Nat.le_succ_of_le hle⟩
      · exact ⟨u, (getElem?_set_ne hi).trans hu, hle⟩
  · intro x cx u hx hlive hu hg
    rcases getElem?_set_cases hx with ⟨rfl, rfl⟩ | ⟨-, hx⟩
    · cases (getElem?_set_same hv).symm.trans hu
      exact .inl rfl
    · rcases getElem?_set_cases hu with ⟨hi, rfl⟩ | ⟨-, hu⟩
      · -- an older handler of this runtime has a smaller generation
        obtain ⟨u', hu', hle⟩ := h.older x cx hx hlive
        rw [← hi, hv] at hu'
        cases hu'
        change v.generation + 1 = cx.generation at hg
        omega
      · exact h.own x cx u hx hlive hu hg
  · intro x cx hx hlive hopen
    rcases getElem?_set_cases hx with ⟨rfl, rfl⟩ | ⟨-, hx⟩
    · exact .inl ⟨hmap, _, getElem?_set_same hv, rfl, rfl⟩
    · rcases h.reach x cx hx hlive hopen with ⟨hmap', u, hu, hux, hon⟩ | hs
      · by_cases hi : r = cx.runtime
        · rw [← hi, hv] at hu
          cases hu
          exact .inr ⟨c, _, getElem?_set_same hc, rfl, hux⟩
        · exact .inl ⟨hmap', u, (getElem?_set_ne hi).trans hu, hux, hon⟩
      · exact .inr (superseded_set hc (fun hphase => by cases hup.symm.trans hphase) hs)

/-- `oldClose()`: the superseded connection is closed. -/
theorem PresenceInv.callOld (hc : p.conns[c]? = some conn) (hreg : conn.phase = .registered) :
    PresenceInv (p.callOld c conn) := by
  refine h.moveConns (fun x cx hx hlive => ?_) ?_
  · obtain ⟨mid, hmid, hn, hp, hg, hr, ho⟩ := closeConns_same hx
    rcases getElem?_set_cases hmid with ⟨rfl, rfl⟩ | ⟨-, hmid⟩
    · exact ⟨conn, hc, by rw [hreg]; rfl, hn, hg, hr, fun hopen => (ho hopen).1⟩
    · exact ⟨mid, hmid, hp ▸ hlive, hn, hg, hr, fun hopen => (ho hopen).1⟩
  · intro x cx hx hopen hs
    obtain ⟨_, -, -, -, -, -, ho⟩ := closeConns_same hx
    exact superseded_closeConns (superseded_set hc
      (fun _ howes => (ho hopen).2 (by rw [howes]; simp)) hs)

/-- Servers lose their runtime, or get another one: the connections registered
there have to be closed. -/
theorem PresenceInv.remap (cs : List Nat) (nodes' : ServerID → Option Nat) (extra : List Runtime)
    (hnodes : ∀ s, nodes' s = p.nodes s ∨
      ∀ (c : Nat) (conn : Conn), p.conns[c]? = some conn → conn.node.serverID = s →
        p.Registered c conn → c ∈ cs)
    (hmapped : ∀ s r, nodes' s = some r →
      ∃ v, (p.runtimes ++ extra)[r]? = some v ∧ v.node.serverID = s) :
    PresenceInv { p with conns := Talus.Resident.closeConns cs p.conns, nodes := nodes'
                         runtimes := p.runtimes ++ extra } := by
  refine (h.closeConns cs).extend hmapped fun c conn hc hopen hreg => ?_
  rcases hnodes conn.node.serverID with hsame | hclosed
  · exact hsame
  · -- registered there, hence closed
    obtain ⟨old, hc', hn, -, -, hr, ho⟩ := closeConns_same hc
    have hR : p.Registered c old := by
      unfold Presence.Registered at hreg ⊢
      rw [← hn, ← hr]
      exact hreg
    exact absurd (hclosed c old hc' (by rw [hn]) hR) (ho hopen).2

theorem mem_registered {sel : ServerID → Bool} (hreg : p.Registered c conn)
    (hsel : sel conn.node.serverID = true) :
    c ∈ p.registered sel := by
  obtain ⟨hmap, v, hv, hclose, -⟩ := hreg
  obtain ⟨v', hv', hsrv⟩ := h.mapped _ _ hmap
  rw [hv] at hv'
  cases hv'
  refine mem_filterMap.mpr ⟨conn.runtime, ?_, ?_⟩
  · exact List.mem_range.mpr (List.getElem?_eq_some_iff.mp hv).1
  · rw [hv, bind_some, if_pos ⟨by rw [hsrv]; exact hmap, by rw [hsrv]; exact hsel⟩]
    exact hclose

theorem PresenceInv.drop (sel : ServerID → Bool) : PresenceInv (p.drop sel) := by
  have hmove := h.remap (p.registered sel) (fun s => if sel s then none else p.nodes s) [] ?_ ?_
  · rw [append_nil] at hmove
    exact hmove
  · intro s
    by_cases hs : sel s = true
    · right
      rintro c conn hc rfl hreg
      exact mem_registered h hreg hs
    · exact .inl (if_neg hs)
  · intro s r hr
    rw [append_nil]
    split at hr
    · cases hr
    · exact h.mapped s r hr

theorem PresenceInv.close : PresenceInv p.close := by
  -- a runtime before and after `Close`
  have hrt : ∀ (r : Nat) (v : Runtime), p.runtimes[r]? = some v → ∃ v',
      p.close.runtimes[r]? = some v' ∧ v'.node = v.node ∧ v'.generation = v.generation
        ∧ (v' = v ∨ (v'.close = none ∧ v'.connected = false)) := by
    intro r v hv
    refine ⟨if p.nodes v.node.serverID = some r then { v with close := none, connected := false }
      else v, ?_, ?_⟩
    · show (p.runtimes.mapIdx _)[r]? = _
      rw [getElem?_mapIdx, hv]
      rfl
    · split
      · exact ⟨rfl, rfl, .inr ⟨rfl, rfl⟩⟩
      · exact ⟨rfl, rfl, .inl rfl⟩
  refine (h.closeConns (p.registered fun _ => true)).moveRuntimes (fun s r hs => ?_)
    (fun r v hv => ?_) (fun c conn v v' _ _ hv hv' hown => ?_) fun c conn hc _ hopen hreg => ?_
  · obtain ⟨v, hv, hsrv⟩ := h.mapped s r hs
    obtain ⟨v', hv', hn, -⟩ := hrt r v hv
    exact ⟨v', hv', by rw [hn]; exact hsrv⟩
  · obtain ⟨v', hv', -, hg, -⟩ := hrt r v hv
    exact ⟨v', hv', hg⟩
  · obtain ⟨u, hu, -, -, hor⟩ := hrt _ v hv
    cases hu.symm.trans hv'
    rcases hor with rfl | hoff
    · exact hown.imp_right fun hno => ⟨rfl, hno.2⟩
    · exact .inr ⟨rfl, hoff⟩
  · -- an open connection is not registered any more
    obtain ⟨old, -, hn, -, -, hr, ho⟩ := closeConns_same hc
    have hR : p.Registered c old := by
      unfold Presence.Registered at hreg ⊢
      rw [← hn, ← hr]
      exact hreg
    exact absurd (mem_registered h hR rfl) (ho hopen).2

end

/-- The cleanup of `c` meets its own runtime, or another generation. -/
def OwnCleanup (p : Presence) : PresenceOp → Prop
  | .cleanup c =>
    ∀ conn r v, p.conns[c]? = some conn → p.nodes conn.node.serverID = some r →
      p.runtimes[r]? = some v → v.generation = conn.generation → r = conn.runtime
  | _ => True

variable {p' : Presence}

/-- **The cleanup of a handler**, when it meets its own runtime or another
generation. -/
theorem PresenceInv.cleanup (h : PresenceInv p)
    (hc : p.conns[c]? = some conn) (hleft : conn.phase = .left)
    (hown : OwnCleanup p (.cleanup c)) (hs : p.cleanup c conn = some p') : PresenceInv p' := by
  have hlive : conn.phase.live = true := by
    rw [hleft]
    rfl
  have hmoved : PresenceInv (p.setConn c { conn with phase := .cleaned }) := by
    refine h.setConn hc ?_ (by rw [hleft]; simp)
    intro hl
    cases hl
  unfold Presence.cleanup at hs
  split at hs
  · cases hs
    exact hmoved
  · next r hr =>
    obtain ⟨v, hv, rfl⟩ := map_eq_some_iff.mp hs
    split
    · next hgen =>
      have hmine : r = conn.runtime := hown conn r v hc hr hv hgen
      have hstate := h.own c conn v hc hlive (hmine ▸ hv) hgen
      refine hmoved.rewrite hv rfl rfl fun x cx hx hl => ⟨fun hclose => ?_, fun _ _ _ => ⟨rfl, rfl⟩⟩
      -- the runtime is this handler's, which is not live any more
      rcases hstate with hclose' | ⟨-, hno, -⟩
      · cases hclose.symm.trans hclose'
        cases (getElem?_set_same hc).symm.trans hx
        cases hl
      · rw [hno] at hclose
        cases hclose
    · exact hmoved

theorem atPhase_some {phase : ConnPhase}
    (h : p.atPhase c phase = some conn) : p.conns[c]? = some conn ∧ conn.phase = phase := by
  unfold Presence.atPhase at h
  rw [filter_eq_some_iff] at h
  exact ⟨h.1, by simpa using h.2⟩

theorem PresenceInv.upgrade (h : PresenceInv p)
    (hnew : conn.phase = .upgraded) : PresenceInv { p with conns := p.conns ++ [conn] } := by
  have hold : ∀ (x : Nat) (cx : Conn), (p.conns ++ [conn])[x]? = some cx →
      cx.phase.live = true → p.conns[x]? = some cx := by
    intro x cx hx hl
    rcases getElem?_concat_cases hx with hx | ⟨-, rfl⟩
    · exact hx
    · rw [hnew] at hl
      cases hl
  refine h.moveConns (fun x cx hx hl => ⟨cx, hold x cx hx hl, hl, rfl, rfl, rfl, fun ho => ho⟩) ?_
  rintro x cx - - ⟨d, cd, hd, hphase, ho⟩
  exact ⟨d, cd, getElem?_append_old hd, hphase, ho⟩

theorem runtimeLocked_conns (p : Presence) (n : AgentNode) :
    (p.runtimeLocked n).1.conns = p.conns ∧ (p.runtimeLocked n).1.closed = p.closed := by
  unfold Presence.runtimeLocked
  split <;> exact ⟨rfl, rfl⟩

theorem PresenceInv.receive (h : PresenceInv p) {n : AgentNode}
    {generation : Nat} {now : Time} (hs : p.receive n generation now = some p') :
    PresenceInv p' := by
  unfold Presence.receive at hs
  split at hs
  · cases hs
    exact h
  · next hopen =>
    have hq := (h.runtimeLocked n).1
    obtain ⟨v, hv, rfl⟩ := map_eq_some_iff.mp hs
    split
    · exact hq
    · refine hq.rewrite hv rfl rfl fun c conn _ _ => ⟨fun hclose => ⟨hclose, fun hon => ?_⟩,
        fun hcl => ?_⟩
      · simp [hon]
      · -- a closed monitor has refused the report
        rw [(runtimeLocked_conns p n).2] at hcl
        simp [Presence.refuses, hcl] at hopen

theorem PresenceInv.reconcile (h : PresenceInv p) {n : AgentNode}
    (hs : p.reconcile n = some p') : PresenceInv p' := by
  unfold Presence.reconcile at hs
  obtain ⟨hq, hmap⟩ := h.runtimeLocked n
  obtain ⟨v, hv, rfl⟩ := map_eq_some_iff.mp hs
  obtain ⟨u, hu, hsrv⟩ := hq.mapped _ _ hmap
  rw [hv] at hu
  cases hu
  split
  · refine hq.remap v.close.toList _ [newRuntime n] ?_ ?_
    · intro s
      by_cases hs' : s = n.serverID
      · -- what stands in the runtime is closed before it is replaced
        right
        rintro c conn hc hcs ⟨hcm, w, hw, hwc, -⟩
        rw [hcs, hs', hmap] at hcm
        rw [← some.inj hcm, hv] at hw
        cases hw
        rw [hwc]
        simp
      · exact .inl (update_of_ne hs' _ _)
    · intro s r hr
      by_cases hs' : s = n.serverID
      · subst hs'
        rw [update_self] at hr
        cases hr
        exact ⟨newRuntime n, getElem?_concat_length, rfl⟩
      · rw [update_of_ne hs'] at hr
        obtain ⟨w, hw, hws⟩ := hq.mapped s r hr
        exact ⟨w, getElem?_append_old hw, hws⟩
  · exact hq.rewrite hv hsrv.symm rfl fun c conn _ _ =>
      ⟨fun hclose => ⟨hclose, fun hon => hon⟩, fun _ hno hoff => ⟨hno, hoff⟩⟩

/-- **Every step keeps the owners**, if cleanups meet their own runtime or
another generation. -/
theorem PresenceInv.step {op : PresenceOp} (hown : OwnCleanup p op)
    (h : PresenceInv p) (hs : presenceStep p op = some p') : PresenceInv p' := by
  cases op with
  | upgrade n =>
    simp only [presenceStep] at hs
    split at hs
    · cases hs
      exact h
    · cases hs
      exact h.upgrade rfl
  | accept c now =>
    obtain ⟨conn, hat, hacc⟩ := bind_eq_some_iff.mp hs
    obtain ⟨hc, hup⟩ := atPhase_some hat
    unfold Presence.accept at hacc
    split at hacc
    · cases hacc
      refine h.setConn hc ?_ (by rw [hup]; simp)
      intro hl
      cases hl
    · obtain ⟨v, hv, rfl⟩ := map_eq_some_iff.mp hacc
      obtain ⟨hq, hmap⟩ := h.runtimeLocked conn.node
      refine hq.accept ?_ hup hmap hv
      rw [(runtimeLocked_conns p conn.node).1]
      exact hc
  | callOld c =>
    obtain ⟨conn, hat, rfl⟩ := map_eq_some_iff.mp hs
    obtain ⟨hc, hreg⟩ := atPhase_some hat
    exact h.callOld hc hreg
  | message c now =>
    obtain ⟨conn, -, hrec⟩ := bind_eq_some_iff.mp hs
    exact h.receive hrec
  | hangUp c =>
    cases hs
    exact h.closeConns [c]
  | leave c =>
    obtain ⟨conn, hat, rfl⟩ := map_eq_some_iff.mp hs
    obtain ⟨hc, hserv⟩ := atPhase_some hat
    refine h.setConn hc ?_ (by rw [hserv]; simp)
    intro _
    exact ⟨by rw [hserv]; rfl, rfl, rfl, rfl, fun ho => ho⟩
  | cleanup c =>
    obtain ⟨conn, hat, hcl⟩ := bind_eq_some_iff.mp hs
    obtain ⟨hc, hleft⟩ := atPhase_some hat
    exact h.cleanup hc hleft hown hcl
  | closeOwn c =>
    obtain ⟨conn, hat, rfl⟩ := map_eq_some_iff.mp hs
    obtain ⟨hc, hcleaned⟩ := atPhase_some hat
    refine h.setConn hc ?_ (by rw [hcleaned]; simp)
    intro hl
    cases hl
  | http n now => exact h.receive hs
  | deployment n =>
    cases hs
    exact (h.runtimeLocked n).1
  | reconcile n => exact h.reconcile hs
  | dropServers live =>
    cases hs
    exact h.drop _
  | disconnect s now =>
    cases hs
    have hd := h.drop (· == s)
    exact { hd with }
  | close =>
    cases hs
    exact h.close

/-! ## §4. Ownership. -/

/-- A registered connection is closed by what closes the registered ones. -/
theorem closed_of_registered (h : PresenceInv p) {sel : ServerID → Bool}
    (hc : p.conns[c]? = some conn) (hreg : p.Registered c conn)
    (hsel : sel conn.node.serverID = true) :
    (closeConns (p.registered sel) p.conns)[c]? = some { conn with isOpen := false } := by
  unfold closeConns
  rw [getElem?_mapIdx, hc, map_some, if_pos (mem_registered h hreg hsel)]

/-- **Presence has one owner**, in every run in which each cleanup meets the
runtime its handler has registered on, or another generation:
* an open connection whose handler has not begun its own cleanup is registered
  in the runtime of its server, which shows it as connected, or the handler
  that has taken the runtime from it is about to close it;
* `Disconnect` and `Close` close every registered connection;
* a cleanup that meets its own runtime or another generation changes no
  runtime in which another connection, or none, is registered. -/
theorem presence_owned (p : Presence) (ops : List PresenceOp)
    (hrun : presenceSystem.run newPresence ops = some p)
    (hown : presenceSystem.Along OwnCleanup newPresence ops) :
    (∀ (c : Nat) (conn : Conn), p.conns[c]? = some conn → conn.phase.live = true →
        conn.isOpen = true → p.Registered c conn ∨ p.Superseded c)
      ∧ (∀ (c : Nat) (conn : Conn) (now : Time), p.conns[c]? = some conn → p.Registered c conn →
          (p.disconnect conn.node.serverID now).conns[c]? = some { conn with isOpen := false }
            ∧ p.close.conns[c]? = some { conn with isOpen := false })
      ∧ ∀ (c : Nat) (p' : Presence), OwnCleanup p (.cleanup c) →
          presenceStep p (.cleanup c) = some p' →
          ∀ (r : Nat) (v : Runtime), p.runtimes[r]? = some v → v.close ≠ some c →
            p'.runtimes[r]? = some v := by
  have hinv : PresenceInv p :=
    System.along_invariant (P := OwnCleanup) (I := PresenceInv)
      (fun s e s' hP hI hs => hI.step hP hs) ops newPresence p hown newPresence_inv hrun
  refine ⟨hinv.reach, ?_, ?_⟩
  · intro c conn now hc hreg
    exact ⟨closed_of_registered hinv hc hreg (by simp), closed_of_registered hinv hc hreg rfl⟩
  · intro c p' hmine hs r v hv hne
    obtain ⟨conn, hat, hcl⟩ := bind_eq_some_iff.mp hs
    obtain ⟨hc, hleft⟩ := atPhase_some hat
    unfold Presence.cleanup at hcl
    split at hcl
    · cases hcl
      exact hv
    · next i hi =>
      obtain ⟨u, hu, rfl⟩ := map_eq_some_iff.mp hcl
      split
      · next hgen =>
        show (p.runtimes.set i _)[r]? = some v
        by_cases hir : i = r
        · -- its own runtime: it is still registered there, or all is closed
          subst hir
          rw [hv] at hu
          cases hu
          have hrt := hmine conn i v hc hi hv hgen
          rcases hinv.own c conn v hc (by rw [hleft]; rfl) (hrt ▸ hv) hgen with hreg | ⟨-, hno, hoff⟩
          · exact absurd hreg hne
          · rw [List.getElem?_set_self (List.getElem?_eq_some_iff.mp hv).1]
            cases v
            simp_all
        · rw [getElem?_set_ne hir]
          exact hv
      · exact hv

/-- A second connection of the same credential takes the runtime over. -/
def takeover : List PresenceOp :=
  [.upgrade (newNode 7 (ascii "i") "t" "h"), .accept 0 0, .callOld 0,
    .upgrade (newNode 7 (ascii "i") "t" "h"), .accept 1 1, .callOld 1, .leave 0, .cleanup 0]

theorem presence_owned_takeover :
    ∃ p conn, presenceSystem.run newPresence takeover = some p ∧ p.conns[1]? = some conn
      ∧ conn.isOpen = true ∧ (p.Registered 1 conn ∨ p.Superseded 1) := by
  have hrun : presenceSystem.run newPresence takeover = some _ := rfl
  have hown : presenceSystem.Along OwnCleanup newPresence takeover := by
    refine System.along_cons rfl trivial (System.along_cons rfl trivial (System.along_cons rfl trivial
      (System.along_cons rfl trivial (System.along_cons rfl trivial (System.along_cons rfl trivial
        (System.along_cons rfl trivial (System.along_cons rfl ?_ trivial)))))))
    -- the first connection meets the generation of the second
    intro conn r v hc hr hv hgen
    cases hc
    cases hr
    cases hv
    cases hgen
  exact ⟨_, _, hrun, rfl, rfl, (presence_owned _ _ hrun hown).1 1 _ rfl rfl rfl⟩

/-- The credential is replaced between the two connections, and the cleanup of
the first one comes late. -/
def replacedCredential : List PresenceOp :=
  [.upgrade (newNode 7 (ascii "i") "t" "h"), .accept 0 0, .callOld 0,
    .reconcile (newNode 7 (ascii "i") "u" "k"),
    .upgrade (newNode 7 (ascii "i") "u" "k"), .accept 1 1, .callOld 1, .leave 0, .cleanup 0]

/-- The second connection, with the current credential, is open and served,
but its runtime has neither its close function nor its presence: neither
`Disconnect` nor `Close` closes it. -/
theorem cleanup_clears_other_connection :
    ∃ p conn v, presenceSystem.run newPresence replacedCredential = some p
      ∧ p.conns[1]? = some conn ∧ conn.phase = .serving ∧ conn.isOpen = true
      ∧ p.nodes 7 = some 1 ∧ p.runtimes[1]? = some v
      ∧ v.node.tokenHash = conn.node.tokenHash ∧ v.close = none ∧ v.connected = false
      ∧ ¬ (p.Registered 1 conn ∨ p.Superseded 1)
      ∧ (p.disconnect 7 5).conns[1]? = some conn ∧ p.close.conns[1]? = some conn := by
  have hrun : presenceSystem.run newPresence replacedCredential = some _ := rfl
  refine ⟨_, _, _, hrun, rfl, rfl, rfl, rfl, rfl, rfl, rfl, rfl, ?_, rfl, rfl⟩
  rintro (⟨-, v, hv, hclose, -⟩ | ⟨d, conn, hd, hphase, -⟩)
  · cases hv
    cases hclose
  · -- no handler is between its registration and `oldClose()`
    match d with
    | 0 =>
      cases hd
      cases hphase
    | 1 =>
      cases hd
      cases hphase
    | n + 2 => cases hd

end Talus.Resident
