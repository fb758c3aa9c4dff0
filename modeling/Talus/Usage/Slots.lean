/-
  Talus.Usage.Slots
  **THE WRITE SLOTS OF THE RECORDER.**

  A write to the usage store goes through channels used as semaphores, taken
  without waiting: `writeUsage` takes an ordinary slot (unless it completes a
  long operation), a write slot and one of all slots; `ownerWrite` and
  `maintenanceWriteWithin` take their own slot and one of all.  `NewRecorder`
  sizes them from two settings.

  One write slot is meant to be left for completions by giving ordinary writes
  one slot fewer than there are write slots.  A recorder with a single write
  slot has none to leave, because the ordinary slots are at least one too.

    • `storeWrites_le`: a quarter of the connections bounds all writes,
    • `completion_reserved_iff`: the reservation holds exactly when the sizes
      give two write slots.
-/
import Talus.Base.Semaphore

namespace Talus.Usage

open Talus.Base

/-! ## §1. The slots. -/

/-- The settings of `Options` that size the channels. -/
structure SlotOptions where
  dbMaxOpenConnections : Int
  writeConcurrency : Int

/-- `Options.defaults`, as far as these two go. -/
def SlotOptions.defaults (o : SlotOptions) : SlotOptions where
  dbMaxOpenConnections := if o.dbMaxOpenConnections ≤ 0 then 32 else o.dbMaxOpenConnections
  writeConcurrency := if o.writeConcurrency ≤ 0 then 4 else o.writeConcurrency

inductive Slot
  | ordinarySlots
  | writeSlots
  | allSlots
  | heartbeatSlot
  | maintenanceSlot
  deriving DecidableEq, Repr

inductive WriteKind
  /-- `writeUsage` of a row that is not a completion -/
  | ordinary
  | completion
  | owner
  | maintenance
  deriving DecidableEq, Repr

namespace SlotOptions

def allCapacity (o : SlotOptions) : Int := max 0 (o.defaults.dbMaxOpenConnections.tdiv 4)

def regular (o : SlotOptions) : Int := min o.defaults.writeConcurrency (max 1 (o.allCapacity - 2))

/-- The capacities `NewRecorder` makes its channels with. -/
def capacity (o : SlotOptions) : Slot → Nat
  | .ordinarySlots => (max 1 (o.regular - 1)).toNat
  | .writeSlots => o.regular.toNat
  | .allSlots => o.allCapacity.toNat
  | .heartbeatSlot => 1
  | .maintenanceSlot => 1

end SlotOptions

/-- The slots each function takes, in its order. -/
def WriteKind.needs : WriteKind → List Slot
  | .ordinary => [.ordinarySlots, .writeSlots, .allSlots]
  | .completion => [.writeSlots, .allSlots]
  | .owner => [.heartbeatSlot, .allSlots]
  | .maintenance => [.maintenanceSlot, .allSlots]

def recorderSlots (o : SlotOptions) : Discipline Slot WriteKind where
  capacity := o.capacity
  needs := WriteKind.needs
  nodup := by
    intro t
    cases t <;> decide

/-! ## §2. Who holds what. -/

section Holders

variable {o : SlotOptions} {s : Slots Slot WriteKind}

/-- A write of a usage row. -/
def WriteKind.usage : WriteKind → Bool
  | .ordinary | .completion => true
  | _ => false

/-- A semaphore of a kind's list is taken before the ones that follow it. -/
theorem before_of_needs {P : WriteKind → Bool} {k' k : Slot}
    (h : ∀ t, P t = true → ∀ n < 4, k ∈ t.needs.take n → k' ∈ t.needs.take n) :
    (recorderSlots o).Before P k' k := by
  intro t hP n hmem
  have hlong : t.needs.length ≤ 3 := by cases t <;> decide
  by_cases hn : n < 4
  · exact h t hP n hn hmem
  · have hall : ∀ m, 3 ≤ m → t.needs.take m = t.needs := fun m hm =>
      List.take_of_length_le (Nat.le_trans hlong hm)
    have h3 := h t hP 3 (by decide)
    rw [hall 3 (Nat.le_refl 3)] at h3
    show k' ∈ t.needs.take n
    rw [hall n (by omega)]
    refine h3 ?_
    have : k ∈ t.needs.take n := hmem
    rwa [hall n (by omega)] at this

theorem ordinary_before : (recorderSlots o).Before (· == .ordinary) .ordinarySlots .writeSlots :=
  before_of_needs fun t => by cases t <;> decide

theorem write_before_all : (recorderSlots o).Before WriteKind.usage .writeSlots .allSlots :=
  before_of_needs fun t => by cases t <;> decide

theorem ordinary_write_before_all :
    (recorderSlots o).Before (· == .ordinary) .writeSlots .allSlots :=
  before_of_needs fun t => by cases t <;> decide

theorem heartbeat_before : (recorderSlots o).Before (· == .owner) .heartbeatSlot .allSlots :=
  before_of_needs fun t => by cases t <;> decide

theorem maintenance_before :
    (recorderSlots o).Before (· == .maintenance) .maintenanceSlot .allSlots :=
  before_of_needs fun t => by cases t <;> decide

/-- Ordinary writes hold no more write slots than there are ordinary slots. -/
theorem ordinary_writeSlots_le (h : HeldInv (recorderSlots o) s) :
    (recorderSlots o).countHeld s (· == .ordinary) .writeSlots ≤ o.capacity .ordinarySlots :=
  Nat.le_trans (countHeld_le ordinary_before s) (h.countHeld_le_capacity _ _)

/-- Owner and maintenance writes hold two of all slots at most. -/
theorem background_allSlots_le (h : HeldInv (recorderSlots o) s) :
    (recorderSlots o).countHeld s (fun t => t == .owner || t == .maintenance) .allSlots ≤ 2 := by
  rw [countHeld_or fun t => by cases t <;> decide]
  have howner : (recorderSlots o).countHeld s (· == .owner) .allSlots ≤ 1 :=
    Nat.le_trans (countHeld_le heartbeat_before s) (h.countHeld_le_capacity _ _)
  have hmaintenance : (recorderSlots o).countHeld s (· == .maintenance) .allSlots ≤ 1 :=
    Nat.le_trans (countHeld_le maintenance_before s) (h.countHeld_le_capacity _ _)
  omega

theorem not_usage : (fun t : WriteKind => !t.usage) = fun t => t == .owner || t == .maintenance := by
  funext t
  cases t <;> rfl

theorem not_completion : (fun t : WriteKind => !(t == .completion)) =
    fun t => t == .ordinary || (t == .owner || t == .maintenance) := by
  funext t
  cases t <;> rfl

end Holders

/-! ## §3. The capacities. -/

section Capacities

variable {o : SlotOptions}

/-- What the settings accept. -/
structure Accepted (o : SlotOptions) : Prop where
  connections : 12 ≤ o.dbMaxOpenConnections
  concurrency : 1 ≤ o.writeConcurrency

theorem Accepted.allCapacity (h : Accepted o) : o.allCapacity = o.dbMaxOpenConnections / 4 := by
  have hdb := h.connections
  have hdefault : o.defaults.dbMaxOpenConnections = o.dbMaxOpenConnections := if_neg (by omega)
  unfold SlotOptions.allCapacity
  rw [hdefault, Int.tdiv_eq_ediv_of_nonneg (by omega)]
  omega

theorem Accepted.regular (h : Accepted o) :
    o.regular = min o.writeConcurrency (max 1 (o.dbMaxOpenConnections / 4 - 2)) := by
  have hwc := h.concurrency
  have hdefault : o.defaults.writeConcurrency = o.writeConcurrency := if_neg (by omega)
  unfold SlotOptions.regular
  rw [hdefault, h.allCapacity]

/-- The write slots and two more are within all slots. -/
theorem Accepted.room (h : Accepted o) : o.capacity .writeSlots + 2 ≤ o.capacity .allSlots := by
  have hdb := h.connections
  have hwc := h.concurrency
  simp only [SlotOptions.capacity, h.regular, h.allCapacity]
  omega

/-- Ordinary writes have a slot less than there are write slots, if there are
two of them. -/
theorem Accepted.ordinary_lt (h : Accepted o)
    (hsizes : 2 ≤ o.writeConcurrency ∧ 16 ≤ o.dbMaxOpenConnections) :
    o.capacity .ordinarySlots < o.capacity .writeSlots := by
  obtain ⟨hwc, hdb⟩ := hsizes
  simp only [SlotOptions.capacity, h.regular]
  omega

/-- Otherwise there is one of each. -/
theorem Accepted.single (h : Accepted o)
    (hsizes : ¬ (2 ≤ o.writeConcurrency ∧ 16 ≤ o.dbMaxOpenConnections)) :
    o.capacity .ordinarySlots = 1 ∧ o.capacity .writeSlots = 1 := by
  have hdb := h.connections
  have hwc := h.concurrency
  simp only [SlotOptions.capacity, h.regular]
  omega

end Capacities

/-! ## §4. The reservation. -/

section Reservation

variable {o : SlotOptions} {s : Slots Slot WriteKind}

/-- The writes that are in the store. -/
def storeWrites (o : SlotOptions) (s : Slots Slot WriteKind) : Nat :=
  s.calls.countP (recorderSlots o).working

/-- **At most a quarter of the connections are used.** -/
theorem storeWrites_le (h : HeldInv (recorderSlots o) s) :
    storeWrites o s ≤ o.capacity .allSlots := by
  refine Nat.le_trans ?_ (h.bound .allSlots)
  rw [h.used .allSlots]
  refine List.countP_mono_left fun c _ hc => decide_eq_true ?_
  have hheld : c.held = c.kind.needs.length :=
    of_decide_eq_true (Bool.and_eq_true_iff.1 hc).2
  rw [hheld]
  show Slot.allSlots ∈ c.kind.needs.take c.kind.needs.length
  rw [List.take_length]
  cases c.kind <;> decide

/-- A completion is refused only while another completion is in progress. -/
def CompletionAdmitted (o : SlotOptions) (s : Slots Slot WriteKind) : Prop :=
  ∀ (i : Nat) (c : Call WriteKind), s.calls[i]? = some c → c.kind = .completion →
    (recorderSlots o).refused s c = true →
    ∃ (j : Nat) (c' : Call WriteKind), j ≠ i ∧ s.calls[j]? = some c' ∧ c'.kind = .completion ∧
      c'.inProgress = true

/-- The other writes leave a write slot and one of all. -/
def OthersLeaveRoom (o : SlotOptions) (s : Slots Slot WriteKind) : Prop :=
  (recorderSlots o).countHeld s (· != .completion) .writeSlots < o.capacity .writeSlots ∧
  (recorderSlots o).countHeld s (· != .completion) .allSlots < o.capacity .allSlots

section

variable (h : HeldInv (recorderSlots o) s)
include h

/-- Of the others only ordinary writes take write slots. -/
theorem others_writeSlots_le :
    (recorderSlots o).countHeld s (· != .completion) .writeSlots ≤ o.capacity .ordinarySlots := by
  refine Nat.le_trans (List.countP_mono_left fun c _ hc => ?_) (ordinary_writeSlots_le h)
  obtain ⟨hkind, hheld⟩ := Bool.and_eq_true_iff.1 hc
  rw [hheld, Bool.and_true]
  have hmem : Slot.writeSlots ∈ c.kind.needs :=
    List.mem_of_mem_take (of_decide_eq_true hheld)
  cases hk : c.kind <;> rw [hk] at hkind hmem
  · rfl
  · cases hkind
  · exact absurd hmem (by decide)
  · exact absurd hmem (by decide)

theorem others_allSlots_le :
    (recorderSlots o).countHeld s (· != .completion) .allSlots ≤ o.capacity .ordinarySlots + 2 := by
  have hsplit : (recorderSlots o).countHeld s (· != .completion) .allSlots =
      (recorderSlots o).countHeld s (· == .ordinary) .allSlots +
        (recorderSlots o).countHeld s (fun t => t == .owner || t == .maintenance) .allSlots := by
    rw [show (fun t : WriteKind => t != .completion) =
      fun t => t == .ordinary || (t == .owner || t == .maintenance) from not_completion]
    exact countHeld_or (fun t => by cases t <;> decide) s .allSlots
  have hordinary := Nat.le_trans (countHeld_le ordinary_write_before_all s)
    (ordinary_writeSlots_le h)
  have hbackground := background_allSlots_le h
  omega

theorem othersLeaveRoom (hordinary : o.capacity .ordinarySlots < o.capacity .writeSlots)
    (hall : o.capacity .writeSlots + 2 ≤ o.capacity .allSlots) : OthersLeaveRoom o s := by
  refine ⟨Nat.lt_of_le_of_lt (others_writeSlots_le h) hordinary, ?_⟩
  have hle := others_allSlots_le h
  omega

/-- The write slots are not all held by ordinary writes: when none is free,
another completion holds one. -/
theorem writeSlots_refused (hordinary : o.capacity .ordinarySlots < o.capacity .writeSlots)
    (hfull : o.capacity .writeSlots ≤ s.used .writeSlots) :
    ∃ (j : Nat) (c : Call WriteKind), s.calls[j]? = some c ∧ c.kind = .completion ∧
      (recorderSlots o).holds .writeSlots c = true := by
  have hsplit := countHeld_split (D := recorderSlots o) s (· == .completion) .writeSlots
  have hothers := others_writeSlots_le h
  have hsame : (recorderSlots o).countHeld s (fun t => !(t == .completion)) .writeSlots =
      (recorderSlots o).countHeld s (· != .completion) .writeSlots := rfl
  rw [h.used] at hfull
  have hpos : 0 < (recorderSlots o).countHeld s (· == .completion) .writeSlots := by omega
  obtain ⟨j, c, hj, hc⟩ := exists_getElem?_of_countP_pos hpos
  obtain ⟨hkind, hheld⟩ := Bool.and_eq_true_iff.1 hc
  exact ⟨j, c, hj, by simpa using hkind, hheld⟩

/-- One of all slots is never refused to a completion that has its write slot:
the writes with a write slot and the two in the background leave room. -/
theorem allSlots_room
    (hall : o.capacity .writeSlots + 2 ≤ o.capacity .allSlots) {c : Call WriteKind}
    (hc : c ∈ s.calls) (hkind : c.kind = .completion) (hheld : c.held = 1) :
    s.used .allSlots < o.capacity .allSlots := by
  have hsplit := countHeld_split (D := recorderSlots o) s WriteKind.usage .allSlots
  rw [not_usage] at hsplit
  have hbackground := background_allSlots_le h
  have htaken : (recorderSlots o).holds .writeSlots c = true ∧
      (recorderSlots o).holds .allSlots c = false := by
    unfold Discipline.holds
    rw [hheld, hkind]
    exact ⟨rfl, rfl⟩
  have hbetween := countHeld_lt write_before_all hc (by rw [hkind]; rfl) htaken.1 htaken.2
  have hwrites := h.countHeld_le_capacity WriteKind.usage .writeSlots
  have hcap : (recorderSlots o).capacity .writeSlots = o.capacity .writeSlots := rfl
  rw [h.used]
  omega

theorem completionAdmitted (hordinary : o.capacity .ordinarySlots < o.capacity .writeSlots)
    (hall : o.capacity .writeSlots + 2 ≤ o.capacity .allSlots) : CompletionAdmitted o s := by
  intro i c hi hkind hrefused
  have hnext := (Bool.and_eq_true_iff.1 hrefused).2
  rw [show (recorderSlots o).needs c.kind = [.writeSlots, .allSlots] by rw [hkind]; rfl] at hnext
  match hheld : c.held with
  | 0 =>
    rw [hheld] at hnext
    obtain ⟨j, c', hj, hkind', hholds⟩ :=
      writeSlots_refused h hordinary (of_decide_eq_true hnext)
    have hpos : 0 < c'.held := by
      refine Nat.pos_of_ne_zero fun hzero => ?_
      unfold Discipline.holds at hholds
      rw [hzero] at hholds
      simp at hholds
    refine ⟨j, c', ?_, hj, hkind', ?_⟩
    · -- the refused call holds nothing yet
      rintro rfl
      rw [hi] at hj
      cases hj
      omega
    · unfold Call.inProgress
      simp [hpos]
  | 1 =>
    rw [hheld] at hnext
    have hroom := allSlots_room h hall (List.mem_of_getElem? hi) hkind hheld
    have hfull : o.capacity .allSlots ≤ s.used .allSlots := of_decide_eq_true hnext
    omega
  | n + 2 =>
    rw [hheld] at hnext
    cases hnext

end

/-- With one write slot an ordinary write holds all there are. -/
theorem single_taken (hsingle : o.capacity .ordinarySlots = 1 ∧ o.capacity .writeSlots = 1) :
    ∃ s, (recorderSlots o).slots.Reachable s ∧ ¬ CompletionAdmitted o s ∧
      ¬ OthersLeaveRoom o s := by
  obtain ⟨hordinary, hwrite⟩ := hsingle
  let used : Slot → Nat :=
    Function.update (Function.update (fun _ => 0) .ordinarySlots 1) .writeSlots 1
  refine ⟨⟨used, [⟨.ordinary, 2, false⟩, ⟨.completion, 0, false⟩]⟩,
    ⟨⟨fun _ => 0, []⟩, [.enter .ordinary, .take 0, .take 0, .enter .completion],
      ⟨fun _ => rfl, rfl⟩, ?_⟩, ?_, ?_⟩
  · simp [System.run, Discipline.slots, Discipline.step, Discipline.take, recorderSlots,
      WriteKind.needs, hordinary, hwrite, used]
  · intro hadmitted
    obtain ⟨j, c', hne, hj, hkind, -⟩ := hadmitted 1 ⟨.completion, 0, false⟩ rfl rfl (by
      show (true && decide (o.capacity .writeSlots ≤ 1)) = true
      rw [hwrite]
      rfl)
    rcases j with - | - | j
    · cases hj
      cases hkind
    · exact hne rfl
    · cases hj
  · rintro ⟨hroom, -⟩
    rw [hwrite] at hroom
    exact Nat.lt_irrefl 1 hroom

/-- **The reservation of a completion slot.**  For all sizes the settings
accept, at most a quarter of the connections write at once; and the two things
the reservation promises, that a completion is refused only while another is in
progress and that the other writes leave it the slots it needs, hold in every
run exactly when there are at least two write slots: a concurrency of two and
sixteen connections. -/
theorem completion_reserved_iff (o : SlotOptions) (h : Accepted o) :
    (∀ s, (recorderSlots o).slots.Reachable s →
      (storeWrites o s : Int) ≤ o.dbMaxOpenConnections / 4) ∧
    ((∀ s, (recorderSlots o).slots.Reachable s → CompletionAdmitted o s) ↔
      2 ≤ o.writeConcurrency ∧ 16 ≤ o.dbMaxOpenConnections) ∧
    ((∀ s, (recorderSlots o).slots.Reachable s → OthersLeaveRoom o s) ↔
      2 ≤ o.writeConcurrency ∧ 16 ≤ o.dbMaxOpenConnections) := by
  refine ⟨fun s hs => ?_, ⟨fun hall => ?_, fun hsizes s hs => ?_⟩,
    ⟨fun hall => ?_, fun hsizes s hs => ?_⟩⟩
  · have hle := storeWrites_le (heldInv_reachable hs)
    have hcap : (o.capacity .allSlots : Int) = o.dbMaxOpenConnections / 4 := by
      have hdb := h.connections
      simp only [SlotOptions.capacity, h.allCapacity]
      omega
    omega
  · by_contra hsizes
    obtain ⟨s, hs, hno, -⟩ := single_taken (h.single hsizes)
    exact hno (hall s hs)
  · exact completionAdmitted (heldInv_reachable hs) (h.ordinary_lt hsizes) h.room
  · by_contra hsizes
    obtain ⟨s, hs, -, hno⟩ := single_taken (h.single hsizes)
    exact hno (hall s hs)
  · exact othersLeaveRoom (heldInv_reachable hs) (h.ordinary_lt hsizes) h.room

/-- The default sizes have the reservation. -/
theorem completion_reserved_default :
    Accepted ⟨32, 4⟩ ∧
      ∀ s, (recorderSlots ⟨32, 4⟩).slots.Reachable s → CompletionAdmitted ⟨32, 4⟩ s := by
  have haccepted : Accepted ⟨32, 4⟩ := ⟨by decide, by decide⟩
  exact ⟨haccepted, (completion_reserved_iff ⟨32, 4⟩ haccepted).2.1.2 ⟨by decide, by decide⟩⟩

/-- **A completion refused for an ordinary write**: with a write concurrency of
one, the only other call is the start row of some operation. -/
theorem completion_refused_by_ordinary :
    ∃ s, (recorderSlots ⟨32, 1⟩).slots.Reachable s ∧
      s.calls = [⟨.ordinary, 2, false⟩, ⟨.completion, 0, false⟩] ∧
      (recorderSlots ⟨32, 1⟩).refused s ⟨.completion, 0, false⟩ = true := by
  have hrun : ((recorderSlots ⟨32, 1⟩).slots.run ⟨fun _ => 0, []⟩
      [.enter .ordinary, .take 0, .take 0, .enter .completion]).map (fun s =>
        (s.calls, (recorderSlots ⟨32, 1⟩).refused s ⟨.completion, 0, false⟩)) =
      some ([⟨.ordinary, 2, false⟩, ⟨.completion, 0, false⟩], true) := by
    decide +kernel
  obtain ⟨s, hs, hboth⟩ := Option.map_eq_some_iff.1 hrun
  obtain ⟨hcalls, hrefused⟩ := Prod.mk.inj hboth
  exact ⟨s, ⟨_, _, ⟨fun _ => rfl, rfl⟩, hs⟩, hcalls, hrefused⟩

end Reservation

end Talus.Usage
