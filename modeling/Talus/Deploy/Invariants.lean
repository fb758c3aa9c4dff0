/-
  Talus.Deploy.Invariants
  **ONE WORKER PER SERVER, AND NO REQUEST LOST.**

  Every operation of the queue touches one server at a time (`Touch`): its job
  changes in its place, enters or leaves the map, a worker starts or joins.
  What the touched server has afterwards decides whether `QueueInv` is kept
  and whether a request, `Pending`, still stands.

    • `queueInv_step`: the invariant,
    • `genInv_step`: the generation of a worker does not come back, if the pool
      keeps the entries of the servers that have a job,
    • `standing_step`: a request then stands until it succeeds, is superseded or
      is retired,
    • `deployment_queue`: both, over whole runs.
-/
import Talus.Deploy.Queue

namespace Talus.Deploy

open Talus.Base List Option Function
open Queue

variable {limit : Nat} {retry : Int} {q q' : Queue} {id place i : Nat} {job job' : Job}
  {w : Worker}

/-! ## §1. One server at a time. -/

theorem job?_eq_some : q.job? id = some (place, job) ↔
    q.jobs.lookup id = some place ∧ q.heap[place]? = some job := by
  unfold job?
  rw [bind_eq_some_iff]
  constructor
  · rintro ⟨p, hp, h⟩
    obtain ⟨j, hj, heq⟩ := map_eq_some_iff.1 h
    cases heq
    exact ⟨hp, hj⟩
  · rintro ⟨hp, hj⟩
    exact ⟨place, hp, map_eq_some_iff.2 ⟨job, hj, rfl⟩⟩

/-- **One server is touched**: its job becomes `v`, the other servers' stay. -/
structure Touch (q q' : Queue) (id : Nat) (v : Option (Nat × Job)) : Prop where
  self : q'.job? id = v
  other : ∀ id', id' ≠ id → q'.job? id' = q.job? id'
  live : q'.live = q.live
  current : q'.current = q.current
  down : q'.down = q.down

/-- The map refers to jobs, for each server to its own. -/
structure Placed (q : Queue) : Prop where
  placed : ∀ id place, q.jobs.lookup id = some place → place < q.heap.length
  own : ∀ id id' place, q.jobs.lookup id = some place → q.jobs.lookup id' = some place → id = id'

variable {v v' : Option (Nat × Job)}

theorem Touch.none (q : Queue) (id : Nat) : Touch q q id (q.job? id) :=
  ⟨rfl, fun _ _ => rfl, rfl, rfl, rfl⟩

theorem Touch.trans {q'' : Queue} (h : Touch q q' id v) (h' : Touch q' q'' id v') :
    Touch q q'' id v' :=
  ⟨h'.self, fun id' hid => (h'.other id' hid).trans (h.other id' hid), h'.live.trans h.live,
    h'.current.trans h.current, h'.down.trans h.down⟩

namespace Placed

theorem setJob (h : Placed q) (hjob : q.job? id = some (place, job)) (job' : Job) :
    Placed (q.setJob place job') ∧ Touch q (q.setJob place job') id (some (place, job')) := by
  obtain ⟨hlookup, hplace⟩ := job?_eq_some.1 hjob
  have hlen := (List.getElem?_eq_some_iff.1 hplace).1
  refine ⟨⟨fun id' p hp => ?_, h.own⟩, ?_, fun id' hid => ?_, rfl, rfl, rfl⟩
  · show p < (q.heap.set place job').length
    rw [length_set]
    exact h.placed id' p hp
  · exact job?_eq_some.2 ⟨hlookup, getElem?_set_self hlen⟩
  · unfold job?
    cases hp : q.jobs.lookup id' with
    | none => simp [Queue.setJob, hp]
    | some p =>
      have hne : place ≠ p := fun heq => hid (h.own id' id p hp (heq ▸ hlookup))
      simp [Queue.setJob, hp, getElem?_set_ne hne]

theorem delete (h : Placed q) (id : Nat) :
    Placed (q.delete id) ∧ Touch q (q.delete id) id none := by
  have hlookup : ∀ id' p, (q.delete id).jobs.lookup id' = some p → q.jobs.lookup id' = some p := by
    intro id' p hp
    by_cases hid : id' = id
    · subst hid
      rw [show (q.delete id').jobs.lookup id' = none from AList.lookup_erase id' q.jobs] at hp
      cases hp
    · replace hp : (q.jobs.erase id).lookup id' = some p := hp
      rwa [AList.lookup_erase_ne hid] at hp
  refine ⟨⟨fun id' p hp => h.placed id' p (hlookup id' p hp),
    fun a b p ha hb => h.own a b p (hlookup a p ha) (hlookup b p hb)⟩, ?_, fun id' hid => ?_,
    rfl, rfl, rfl⟩
  · simp [job?, Queue.delete]
  · simp [job?, Queue.delete, AList.lookup_erase_ne hid]

theorem insertJob (h : Placed q) (id : Nat) (job : Job) :
    Placed (q.insertJob id job) ∧ Touch q (q.insertJob id job) id (some (q.heap.length, job)) := by
  have hold : ∀ {id' p}, (q.insertJob id job).jobs.lookup id' = some p →
      (id' = id ∧ p = q.heap.length) ∨ (p < q.heap.length ∧ q.jobs.lookup id' = some p) := by
    intro id' p hp
    replace hp : (q.jobs.insert id q.heap.length).lookup id' = some p := hp
    by_cases hid : id' = id
    · subst hid
      rw [AList.lookup_insert] at hp
      exact .inl ⟨rfl, (some.inj hp).symm⟩
    · rw [AList.lookup_insert_ne hid] at hp
      exact .inr ⟨h.placed id' p hp, hp⟩
  refine ⟨⟨fun id' p hp => ?_, fun a b p ha hb => ?_⟩, ?_, fun id' hid => ?_, rfl, rfl, rfl⟩
  · show p < (q.heap ++ [job]).length
    rw [length_append, length_singleton]
    rcases hold hp with ⟨-, rfl⟩ | ⟨hlt, -⟩ <;> omega
  · rcases hold ha with ⟨ha', hpa⟩ | ⟨hlta, ha'⟩ <;> rcases hold hb with ⟨hb', hpb⟩ | ⟨hltb, hb'⟩
    · rw [ha', hb']
    · omega
    · omega
    · exact h.own a b p ha' hb'
  · exact job?_eq_some.2 ⟨AList.lookup_insert _, getElem?_concat_length⟩
  · unfold job?
    cases hp : q.jobs.lookup id' with
    | none => simp [Queue.insertJob, AList.lookup_insert_ne hid, hp]
    | some p =>
      simp [Queue.insertJob, AList.lookup_insert_ne hid, hp,
        getElem?_append_left (h.placed id' p hp)]

end Placed

/-! ## §2. The invariant. -/

structure QueueInv (limit : Nat) (q : Queue) : Prop where
  /-- the map refers to jobs -/
  placed : ∀ id place, q.jobs.lookup id = some place → place < q.heap.length
  /-- each to its own -/
  own : ∀ id id' place, q.jobs.lookup id = some place → q.jobs.lookup id' = some place → id = id'
  /-- the job of a worker is the one in the map, and is running -/
  worker : ∀ w ∈ q.workers, ∃ job, q.job? w.server = some (w.job, job) ∧ job.running = true
  nodup : (q.workers.map Worker.server).Nodup
  /-- a running job has a worker -/
  running : ∀ id place job, q.job? id = some (place, job) → job.running = true →
    ∃ w ∈ q.workers, w.server = id
  active : q.active = q.workers.length
  bound : q.active ≤ limit
  /-- a retired job that is not running is not in the map -/
  retired : ∀ id place job, q.job? id = some (place, job) → job.retired = true →
    job.running = true

/-- A job that is not retired is of a live server. -/
def LiveInv (q : Queue) : Prop :=
  ∀ id place job, q.job? id = some (place, job) → job.retired = false → id ∈ q.live

/-- A touch keeps it, if what the server gets is of a live one. -/
theorem LiveInv.touch (hl : LiveInv q) (ht : Touch q q' id v)
    (hv : ∀ p j, v = some (p, j) → j.retired = false → id ∈ q.live) : LiveInv q' := by
  intro id' p j hj hret
  rw [ht.live]
  by_cases hid : id' = id
  · subst hid
    exact hv p j (ht.self.symm.trans hj) hret
  · exact hl id' p j ((ht.other id' hid).symm.trans hj) hret

namespace QueueInv

section

variable (h : QueueInv limit q)
include h

theorem toPlaced : Placed q := ⟨h.placed, h.own⟩

/-- **A touch keeps the invariant** if it fits the workers of the server that
is touched and leaves those of the others. -/
theorem touch (hp : Placed q') (ht : Touch q q' id v)
    (hothers : ∀ w : Worker, w.server ≠ id → (w ∈ q'.workers ↔ w ∈ q.workers))
    (hworker : ∀ w ∈ q'.workers, w.server = id → ∃ job, v = some (w.job, job) ∧ job.running = true)
    (hjob : ∀ p job, v = some (p, job) →
      (job.running = true → ∃ w ∈ q'.workers, w.server = id) ∧
      (job.retired = true → job.running = true))
    (hnodup : (q'.workers.map Worker.server).Nodup) (hactive : q'.active = q'.workers.length)
    (hbound : q'.active ≤ limit) : QueueInv limit q' := by
  refine ⟨hp.placed, hp.own, fun w hw => ?_, hnodup, fun id' p j hj hrun => ?_, hactive, hbound,
    fun id' p j hj hret => ?_⟩
  · by_cases hid : w.server = id
    · obtain ⟨job, hv, hrun⟩ := hworker w hw hid
      exact ⟨job, hid ▸ ht.self.trans hv, hrun⟩
    · rw [ht.other _ hid]
      exact h.worker w ((hothers w hid).1 hw)
  · by_cases hid : id' = id
    · subst hid
      exact (hjob p j (ht.self.symm.trans hj)).1 hrun
    · obtain ⟨w, hw, rfl⟩ := h.running id' p j ((ht.other id' hid).symm.trans hj) hrun
      exact ⟨w, (hothers w hid).2 hw, rfl⟩
  · by_cases hid : id' = id
    · subst hid
      exact (hjob p j (ht.self.symm.trans hj)).2 hret
    · exact h.retired id' p j ((ht.other id' hid).symm.trans hj) hret

/-- No worker runs for a server whose job is not running. -/
theorem idle (hrun : ∀ p j, q.job? id = some (p, j) → j.running = false) :
    ∀ w ∈ q.workers, w.server ≠ id := by
  rintro w hw rfl
  obtain ⟨j, hj, hrunning⟩ := h.worker w hw
  rw [hrun w.job j hj] at hrunning
  cases hrunning

/-- A server without a worker gets a job that is not running, or none. -/
theorem touchIdle (hp : Placed q') (ht : Touch q q' id v) (hidle : ∀ w ∈ q.workers, w.server ≠ id)
    (hv : ∀ p j, v = some (p, j) → j.running = false ∧ j.retired = false)
    (hworkers : q'.workers = q.workers) (hactive : q'.active = q.active) : QueueInv limit q' := by
  refine h.touch hp ht (fun w _ => by rw [hworkers]) (fun w hw hid => ?_) (fun p j hj => ?_)
    (hworkers ▸ h.nodup) (by rw [hactive, hworkers, h.active]) (hactive ▸ h.bound)
  · exact absurd hid (hidle w (hworkers ▸ hw))
  · obtain ⟨hrun, hret⟩ := hv p j hj
    rw [hrun, hret]
    exact ⟨nofun, nofun⟩

/-- A job changes in its place, still running if it was. -/
theorem setJob (hjob : q.job? id = some (place, job))
    (hrunning : job'.running = job.running) (hretired : job'.retired = true → job.running = true) :
    QueueInv limit (q.setJob place job') := by
  obtain ⟨hp, ht⟩ := h.toPlaced.setJob hjob job'
  refine h.touch hp ht (fun _ _ => Iff.rfl) (fun w hw hid => ?_) (fun p j hj => ?_) h.nodup
    h.active h.bound
  · obtain ⟨j, hj, hrun⟩ := h.worker w hw
    rw [hid, hjob] at hj
    cases hj
    exact ⟨job', rfl, hrunning.trans hrun⟩
  · cases hj
    rw [hrunning]
    exact ⟨h.running id place job hjob, hretired⟩

/-- **A worker starts** for a job that is not running, if there is room. -/
theorem start (hjob : q.job? id = some (place, job))
    (hrun : job.running = false) (hroom : q.active < limit) :
    QueueInv limit (q.start id place job) ∧
      Touch q (q.start id place job) id (some (place, { job with running := true })) := by
  obtain ⟨hp, ht⟩ := h.toPlaced.setJob hjob { job with running := true }
  have hidle := h.idle fun p j hj => by
    cases hjob.symm.trans hj
    exact hrun
  have ht' : Touch q (q.start id place job) id (some (place, { job with running := true })) :=
    ⟨ht.self, ht.other, rfl, rfl, rfl⟩
  refine ⟨h.touch ⟨hp.placed, hp.own⟩ ht' (fun w hw => ?_) (fun w hw hid => ?_) (fun p j hj => ?_)
    ?_ ?_ hroom, ht'⟩
  · show w ∈ q.workers ++ [_] ↔ _
    rw [mem_append, mem_singleton, or_iff_left]
    rintro rfl
    exact hw rfl
  · rcases mem_append.1 hw with hw | hw
    · exact absurd hid (hidle w hw)
    · cases mem_singleton.1 hw
      exact ⟨_, rfl, rfl⟩
  · cases hj
    exact ⟨fun _ => ⟨_, mem_append_right _ (mem_singleton_self _), rfl⟩, fun _ => rfl⟩
  · show ((q.workers ++ [_]).map Worker.server).Nodup
    rw [map_append, nodup_append]
    refine ⟨h.nodup, by simp, fun a ha b hb hab => ?_⟩
    obtain ⟨w, hw, rfl⟩ := mem_map.1 ha
    have hb' : b = id := by simpa using hb
    exact hidle w hw (hab.trans hb')
  · show q.active + 1 = (q.workers ++ [_]).length
    rw [length_append, h.active]
    rfl

/-- The workers that are left when one has returned. -/
theorem mem_eraseIdx (hw : q.workers[i]? = some w) (u : Worker) :
    u ∈ q.workers.eraseIdx i ↔ u ∈ q.workers ∧ u.server ≠ w.server := by
  rw [mem_eraseIdx_iff_getElem?]
  constructor
  · rintro ⟨k, hk, hu⟩
    refine ⟨mem_of_getElem? hu, fun hsame => hk ?_⟩
    have hk' : (q.workers.map Worker.server)[k]? = some w.server := by
      rw [getElem?_map, hu, ← hsame]
      rfl
    have hi' : (q.workers.map Worker.server)[i]? = some w.server := by
      rw [getElem?_map, hw]
      rfl
    have hlt := (List.getElem?_eq_some_iff.1 hk').1
    exact (getElem?_inj hlt h.nodup).1 (hk'.trans hi'.symm)
  · rintro ⟨hu, hne⟩
    obtain ⟨k, hk⟩ := mem_iff_getElem?.1 hu
    refine ⟨k, ?_, hk⟩
    rintro rfl
    cases hw.symm.trans hk
    exact hne rfl

/-- **A worker joins**: its job is not running any more, and it stays in the
map only if it is not retired. -/
theorem joined (hw : q.workers[i]? = some w) (hp : Placed q') (ht : Touch q q' w.server v)
    (hv : ∀ p j, v = some (p, j) → j.running = false ∧ j.retired = false)
    (hworkers : q'.workers = q.workers.eraseIdx i) (hactive : q'.active = q.active - 1) :
    QueueInv limit q' := by
  refine h.touch hp ht (fun u hu => ?_) (fun u hu hid => ?_) (fun p j hj => ?_) ?_ ?_ ?_
  · rw [hworkers, h.mem_eraseIdx hw, and_iff_left hu]
  · rw [hworkers, h.mem_eraseIdx hw] at hu
    exact absurd hid hu.2
  · obtain ⟨hrun, hret⟩ := hv p j hj
    rw [hrun, hret]
    exact ⟨nofun, nofun⟩
  · rw [hworkers]
    exact h.nodup.sublist ((eraseIdx_sublist _ _).map Worker.server)
  · rw [hactive, hworkers, length_eraseIdx, h.active,
      if_pos (List.getElem?_eq_some_iff.1 hw).1]
  · rw [hactive]
    exact Nat.le_trans (Nat.sub_le _ _) h.bound

end

end QueueInv

/-! ## §3. `sync`. -/

/-- What the loop of `sync` does to one server. -/
theorem retireStep_cases (q : Queue) (id : Nat) :
    (retireStep q id = q ∧ ∀ place job, q.job? id = some (place, job) →
      id ∈ q.live ∧ q.isCurrent id job.generation = true) ∨
    ∃ place job, q.job? id = some (place, job) ∧
      ¬ (id ∈ q.live ∧ q.isCurrent id job.generation = true) ∧
      ((job.running = true ∧ retireStep q id = q.setJob place { job with retired := true }) ∨
       (job.running = false ∧
        retireStep q id = (q.delete id).setJob place { job with retired := true })) := by
  unfold retireStep
  cases hjob : q.job? id with
  | none => exact .inl ⟨rfl, nofun⟩
  | some entry =>
    obtain ⟨place, job⟩ := entry
    simp only
    by_cases hstays : (q.live.contains id && q.isCurrent id job.generation) = true
    · rw [if_pos hstays]
      refine .inl ⟨rfl, fun p j hj => ?_⟩
      cases hj
      simpa using hstays
    · rw [if_neg hstays]
      refine .inr ⟨place, job, rfl, by simpa using hstays, ?_⟩
      cases hrun : job.running with
      | true => exact .inl ⟨rfl, if_pos rfl⟩
      | false => exact .inr ⟨rfl, if_neg (by decide)⟩

/-- One server in the loop: a job that is not retired afterwards is as it was,
and of a live server; a job of a live server's current generation stays. -/
theorem retireStep_spec (h : QueueInv limit q) (id : Nat) :
    QueueInv limit (retireStep q id) ∧ (retireStep q id).workers = q.workers ∧
      ∃ v, Touch q (retireStep q id) id v ∧
        (∀ p j, v = some (p, j) → j.retired = false → q.job? id = some (p, j) ∧ id ∈ q.live) ∧
        (∀ p j, q.job? id = some (p, j) → id ∈ q.live → q.isCurrent id j.generation = true →
          v = some (p, j)) := by
  rcases retireStep_cases q id with ⟨hsame, hlive⟩ | ⟨place, job, hjob, hgone, hcases⟩
  · rw [hsame]
    exact ⟨h, rfl, _, Touch.none q id, fun p j hj _ => ⟨hj, (hlive p j hj).1⟩, fun _ _ hj _ _ => hj⟩
  · obtain ⟨hp, ht⟩ := h.toPlaced.setJob hjob { job with retired := true }
    have hstays : ∀ p j, q.job? id = some (p, j) → id ∈ q.live →
        q.isCurrent id j.generation = true → False := by
      intro p j hj hlive hcurrent
      cases hj.symm.trans hjob
      exact hgone ⟨hlive, hcurrent⟩
    rcases hcases with ⟨hrun, heq⟩ | ⟨hrun, heq⟩
    · rw [heq]
      refine ⟨h.setJob hjob rfl fun _ => hrun, rfl, _, ht, fun p j hj hret => ?_,
        fun p j hj hl hc => (hstays p j hj hl hc).elim⟩
      cases hj
      cases hret
    · -- a job that leaves the map may change before it does
      obtain ⟨hp', ht'⟩ := hp.delete id
      rw [heq]
      refine ⟨h.touchIdle hp' (ht.trans ht') (h.idle fun p j hj => ?_) (nofun)
        rfl rfl, rfl, none, ht.trans ht', nofun,
        fun p j hj hl hc => (hstays p j hj hl hc).elim⟩
      cases hj.symm.trans hjob
      exact hrun

/-- The whole loop. -/
theorem retireAll (ids : List Nat) (h : QueueInv limit q) :
    QueueInv limit (ids.foldl retireStep q) ∧
    ((ids.foldl retireStep q).live = q.live ∧ (ids.foldl retireStep q).current = q.current ∧
      (ids.foldl retireStep q).workers = q.workers ∧ (ids.foldl retireStep q).down = q.down) ∧
    (∀ id p j, (ids.foldl retireStep q).job? id = some (p, j) → j.retired = false →
      q.job? id = some (p, j) ∧ (id ∈ ids → id ∈ q.live)) ∧
    (∀ id p j, q.job? id = some (p, j) → id ∈ q.live → q.isCurrent id j.generation = true →
      (ids.foldl retireStep q).job? id = some (p, j)) := by
  induction ids generalizing q with
  | nil =>
    exact ⟨h, ⟨rfl, rfl, rfl, rfl⟩, fun _ _ _ hj _ => ⟨hj, nofun⟩,
      fun _ _ _ hj _ _ => hj⟩
  | cons a ids ih =>
    obtain ⟨hstep, hworkers, v, ht, hold, hstays⟩ := retireStep_spec h a
    obtain ⟨hinv, ⟨hl, hc, hw, hd⟩, hback, hkeep⟩ := ih hstep
    refine ⟨hinv, ⟨hl.trans ht.live, hc.trans ht.current, hw.trans hworkers, hd.trans ht.down⟩,
      fun id p j hj hret => ?_, fun id p j hj hmem hcur => ?_⟩
    · obtain ⟨hj', hrest⟩ := hback id p j hj hret
      rw [ht.live] at hrest
      by_cases hid : id = a
      · subst hid
        obtain ⟨hj'', hlive⟩ := hold p j (ht.self.symm.trans hj') hret
        exact ⟨hj'', fun _ => hlive⟩
      · rw [ht.other id hid] at hj'
        exact ⟨hj', fun hmem => hrest ((mem_cons.1 hmem).resolve_left hid)⟩
    · refine hkeep id p j ?_ (ht.live ▸ hmem) ?_
      · by_cases hid : id = a
        · subst hid
          exact ht.self.trans (hstays p j hj hmem hcur)
        · exact (ht.other id hid).trans hj
      · unfold isCurrent at hcur ⊢
        rw [ht.current]
        exact hcur

theorem withLive_inv (h : QueueInv limit q) (ids : List Nat) :
    QueueInv limit { q with live := ids } :=
  { h with }

theorem sync_inv (h : QueueInv limit q) (ids : List Nat) : QueueInv limit (q.sync ids) :=
  (retireAll _ (withLive_inv h ids)).1

theorem sync_live (h : QueueInv limit q) (ids : List Nat) : LiveInv (q.sync ids) := by
  intro id p j hj hret
  obtain ⟨-, ⟨hl, -⟩, hback, -⟩ := retireAll q.jobs.keys (withLive_inv h ids)
  obtain ⟨hold, hmem⟩ := hback id p j hj hret
  show id ∈ (q.jobs.keys.foldl retireStep { q with live := ids }).live
  rw [hl]
  refine hmem (AList.mem_keys.1 (AList.lookup_isSome.1 ?_))
  rw [show q.jobs.lookup id = some p from (job?_eq_some.1 hold).1]
  rfl

/-! ## §4. `request`. -/

/-- What `request` does. -/
theorem request_cases (q : Queue) (id generation : Nat) (now : Int) :
    (q.accepts id generation = false ∧ q.request id generation now = q) ∨
    (q.accepts id generation = true ∧ q.job? id = none ∧
      q.request id generation now = q.insertJob id ⟨generation, now, 0, false, false⟩) ∨
    (q.accepts id generation = true ∧ ∃ place job, q.job? id = some (place, job) ∧
      ((job.generation = generation ∧ job.retired = false ∧ q.request id generation now = q) ∨
       q.request id generation now = q.setJob place (armed job generation now))) := by
  unfold request
  cases haccepts : q.accepts id generation with
  | false => exact .inl ⟨rfl, if_neg (by decide)⟩
  | true =>
    rw [if_pos rfl]
    cases hjob : q.job? id with
    | none => exact .inr (.inl ⟨rfl, rfl, rfl⟩)
    | some entry =>
      obtain ⟨place, job⟩ := entry
      refine .inr (.inr ⟨rfl, place, job, rfl, ?_⟩)
      by_cases hsame : job.generation = generation ∧ job.retired = false
      · exact .inl ⟨hsame.1, hsame.2, if_pos hsame⟩
      · exact .inr (if_neg hsame)

theorem accepts_iff {generation : Nat} : q.accepts id generation = true ↔
    q.started = true ∧ q.down = false ∧ id ∈ q.live ∧ q.current id = some generation := by
  unfold accepts isCurrent
  simp [and_assoc]

/-- An accepted request touches its server, which then has a job for the
generation. -/
theorem request_spec (h : QueueInv limit q) (id generation : Nat) (now : Int) :
    QueueInv limit (q.request id generation now) ∧
    (q.request id generation now).workers = q.workers ∧
    (q.request id generation now = q ∨ q.accepts id generation = true) ∧
    ∃ v, Touch q (q.request id generation now) id v ∧
      (q.accepts id generation = true →
        ∃ p j, v = some (p, j) ∧ j.generation = generation ∧ j.retired = false) := by
  rcases request_cases q id generation now with
    ⟨hno, heq⟩ | ⟨hyes, hnone, heq⟩ | ⟨hyes, place, job, hjob, ⟨hgen, hret, heq⟩ | heq⟩
  · rw [heq]
    exact ⟨h, rfl, .inl rfl, _, Touch.none q id, fun hyes => by rw [hno] at hyes; cases hyes⟩
  · rw [heq]
    obtain ⟨hp, ht⟩ := h.toPlaced.insertJob id ⟨generation, now, 0, false, false⟩
    refine ⟨h.touchIdle hp ht (h.idle fun p j hj => ?_) (fun p j hj => ?_) rfl rfl, rfl, .inr hyes,
      _, ht, fun _ => ⟨_, _, rfl, rfl, rfl⟩⟩
    · rw [hnone] at hj
      cases hj
    · cases hj
      exact ⟨rfl, rfl⟩
  · rw [heq]
    exact ⟨h, rfl, .inl rfl, _, Touch.none q id, fun _ => ⟨place, job, hjob, hgen, hret⟩⟩
  · rw [heq]
    exact ⟨h.setJob hjob rfl nofun, rfl, .inr hyes, _,
      (h.toPlaced.setJob hjob _).2, fun _ => ⟨_, _, rfl, rfl, rfl⟩⟩

theorem request_live (h : QueueInv limit q) (hl : LiveInv q) (id generation : Nat) (now : Int) :
    LiveInv (q.request id generation now) := by
  obtain ⟨-, -, hsame | hyes, v, ht, -⟩ := request_spec h id generation now
  · rw [hsame]
    exact hl
  · exact hl.touch ht fun _ _ _ _ => (accepts_iff.1 hyes).2.2.1

/-! ## §5. A scheduling pass. -/

/-- What the loop of `run` does with one server. -/
theorem visit_cases (limit : Nat) (now : Int) (q : Queue) (id : Nat) :
    visit limit now q id = q ∨
    ∃ place job, q.job? id = some (place, job) ∧ job.running = false ∧ job.retired = false ∧
      ((q.isCurrent id job.generation = false ∧ visit limit now q id = q.delete id) ∨
       (q.active < limit ∧ q.isCurrent id job.generation = true ∧
        visit limit now q id = q.start id place job)) := by
  unfold visit
  cases hjob : q.job? id with
  | none => exact .inl rfl
  | some entry =>
    obtain ⟨place, job⟩ := entry
    simp only
    by_cases hskip : (job.running || job.retired) = true
    · exact .inl (if_pos hskip)
    rw [if_neg hskip]
    have hidle : job.running = false ∧ job.retired = false := by simpa using hskip
    by_cases hstale : q.isCurrent id job.generation = false
    · exact .inr ⟨place, job, rfl, hidle.1, hidle.2, .inl ⟨hstale, if_pos hstale⟩⟩
    rw [if_neg hstale]
    by_cases hfull : limit ≤ q.active
    · exact .inl (if_pos hfull)
    rw [if_neg hfull]
    by_cases hwait : now < job.due
    · exact .inl (if_pos hwait)
    rw [if_neg hwait]
    exact .inr ⟨place, job, rfl, hidle.1, hidle.2, .inr ⟨Nat.lt_of_not_le hfull,
      by simpa using hstale, rfl⟩⟩

/-- A visit drops a job whose generation has passed, or starts a worker for
it; otherwise the server keeps what it has. -/
theorem visit_spec (h : QueueInv limit q) (now : Int) (id : Nat) :
    QueueInv limit (visit limit now q id) ∧ q.workers ⊆ (visit limit now q id).workers ∧
      ∃ v, Touch q (visit limit now q id) id v ∧
        (∀ p j, v = some (p, j) → ∃ j', q.job? id = some (p, j') ∧ j'.retired = j.retired) ∧
        (∀ p j, q.job? id = some (p, j) → q.isCurrent id j.generation = true →
          ∃ p' j', v = some (p', j') ∧ j'.generation = j.generation ∧ j'.retired = j.retired) := by
  rcases visit_cases limit now q id with
    heq | ⟨place, job, hjob, hrun, -, ⟨hstale, heq⟩ | ⟨hroom, -, heq⟩⟩
  · rw [heq]
    exact ⟨h, List.Subset.refl _, _, Touch.none q id, fun p j hj => ⟨j, hj, rfl⟩,
      fun p j hj _ => ⟨p, j, hj, rfl, rfl⟩⟩
  · rw [heq]
    obtain ⟨hp, ht⟩ := h.toPlaced.delete id
    refine ⟨h.touchIdle hp ht (h.idle fun p j hj => ?_) (nofun) rfl rfl,
      List.Subset.refl _, none, ht, nofun, fun p j hj hcur => ?_⟩
    · cases hj.symm.trans hjob
      exact hrun
    · cases hj.symm.trans hjob
      rw [hcur] at hstale
      cases hstale
  · rw [heq]
    obtain ⟨hinv, ht⟩ := h.start hjob hrun hroom
    refine ⟨hinv, subset_append_left _ _, _, ht, fun p j hj => ?_, fun p j hj _ => ?_⟩
    · cases hj
      exact ⟨job, hjob, rfl⟩
    · cases hj.symm.trans hjob
      exact ⟨_, _, rfl, rfl, rfl⟩

/-- What every visit keeps, a pass keeps. -/
theorem pass_induction {P : Queue → Prop} (now : Int) (h : QueueInv limit q) (hP : P q)
    (hvisit : ∀ q id, QueueInv limit q → P q → P (visit limit now q id)) (order : List Nat) :
    QueueInv limit (q.pass limit now order) ∧ P (q.pass limit now order) := by
  unfold Queue.pass
  induction order generalizing q with
  | nil => exact ⟨h, hP⟩
  | cons id order ih => exact ih (visit_spec h now id).1 (hvisit q id h hP)

theorem pass_live (h : QueueInv limit q) (hl : LiveInv q) (now : Int) (order : List Nat) :
    QueueInv limit (q.pass limit now order) ∧ LiveInv (q.pass limit now order) := by
  refine pass_induction now h hl (fun q id h hl => ?_) order
  obtain ⟨-, -, v, ht, hold, -⟩ := visit_spec h now id
  refine hl.touch ht fun p j hv hret => ?_
  obtain ⟨j', hj', hsame⟩ := hold p j hv
  exact hl id p j' hj' (hsame.trans hret)

theorem pass_workers (h : QueueInv limit q) (now : Int) (order : List Nat) :
    q.workers ⊆ (q.pass limit now order).workers :=
  (pass_induction (P := fun q' => q.workers ⊆ q'.workers) now h (List.Subset.refl _)
    (fun _ id h hsub => List.Subset.trans hsub (visit_spec h now id).2.1) order).2

/-! ## §6. A worker returns. -/

/-- A returning worker takes its server out of the map, or leaves a job that
is not retired. -/
theorem finish_cases (retry : Int) (q : Queue) (i : Nat) (w : Worker) (job : Job)
    (outcome : Outcome) (now : Int) :
    (q.finish retry i w job outcome now = (q.join i w job).delete w.server ∧
      (job.retired = true ∨ w.server ∉ q.live ∨ q.down = true ∨
        (job.generation = w.generation ∧ outcome ≠ .failed))) ∨
    (∃ due failures, q.finish retry i w job outcome now =
        (q.join i w job).setJob w.job { job with running := false, due, failures }) ∧
      job.retired = false ∧ w.server ∈ q.live := by
  unfold finish settle
  by_cases hgone : (job.retired || !q.live.contains w.server || q.down) = true
  · refine .inl ⟨if_pos hgone, ?_⟩
    simp only [Bool.or_eq_true, Bool.not_eq_true', contains_eq_mem, decide_eq_false_iff_not]
      at hgone
    tauto
  · have hkept : job.retired = false ∧ w.server ∈ q.live ∧ q.down = false := by
      simpa [and_assoc] using hgone
    have hgone' : ¬ (({ job with running := false } : Job).retired ||
        !(q.join i w job).live.contains w.server || (q.join i w job).down) = true := hgone
    rw [if_neg hgone']
    by_cases hnew : job.generation ≠ w.generation
    · exact .inr ⟨⟨now, job.failures, if_pos hnew⟩, hkept.1, hkept.2.1⟩
    · have hnew' : ¬ ({ job with running := false } : Job).generation ≠ w.generation := hnew
      rw [if_neg hnew']
      by_cases hfailed : outcome = .failed
      · exact .inr ⟨⟨_, _, if_pos hfailed⟩, hkept.1, hkept.2.1⟩
      · exact .inl ⟨if_neg hfailed, .inr (.inr (.inr ⟨not_not.1 hnew, hfailed⟩))⟩

theorem finish_spec (retry : Int) (h : QueueInv limit q) (hw : q.workers[i]? = some w)
    (hjob : q.heap[w.job]? = some job) (outcome : Outcome) (now : Int) :
    QueueInv limit (q.finish retry i w job outcome now) ∧
    (q.finish retry i w job outcome now).workers = q.workers.eraseIdx i ∧
    q.job? w.server = some (w.job, job) ∧
    ∃ v, Touch q (q.finish retry i w job outcome now) w.server v ∧
      ((v = none ∧ (job.retired = true ∨ w.server ∉ q.live ∨ q.down = true ∨
          (job.generation = w.generation ∧ outcome ≠ .failed))) ∨
        (∃ j, v = some (w.job, j) ∧ j.generation = job.generation ∧ j.retired = false) ∧
          w.server ∈ q.live) := by
  obtain ⟨j, hj, -⟩ := h.worker w (mem_of_getElem? hw)
  cases (job?_eq_some.1 hj).2.symm.trans hjob
  obtain ⟨hp, ht⟩ := h.toPlaced.setJob hj { job with running := false }
  have hp' : Placed (q.join i w job) := ⟨hp.placed, hp.own⟩
  have ht' : Touch q (q.join i w job) w.server (some (w.job, { job with running := false })) :=
    ⟨ht.self, ht.other, rfl, rfl, rfl⟩
  rcases finish_cases retry q i w job outcome now with
    ⟨heq, hgone⟩ | ⟨⟨due, failures, heq⟩, hret, hlive⟩
  · rw [heq]
    obtain ⟨hp'', ht''⟩ := hp'.delete w.server
    exact ⟨h.joined hw hp'' (ht'.trans ht'') (nofun) rfl rfl, rfl, hj, none,
      ht'.trans ht'', .inl ⟨rfl, hgone⟩⟩
  · rw [heq]
    obtain ⟨hp'', ht''⟩ := hp'.setJob ht'.self { job with running := false, due, failures }
    refine ⟨h.joined hw hp'' (ht'.trans ht'') (fun p j hv => ?_) rfl rfl, rfl, hj, _,
      ht'.trans ht'', .inr ⟨⟨_, rfl, rfl, hret⟩, hlive⟩⟩
    cases hv
    exact ⟨rfl, hret⟩

/-! ## §7. Every step keeps the invariant. -/

/-- What a step can be. -/
theorem queueStep_finish {outcome : Outcome} {now : Int}
    (hstep : queueStep limit retry q (.finish i outcome now) = some q') :
    ∃ w job, q.workers[i]? = some w ∧ q.heap[w.job]? = some job ∧
      outcome.possible q w = true ∧ q' = q.finish retry i w job outcome now := by
  obtain ⟨w, hw, hstep⟩ := bind_eq_some_iff.1 hstep
  obtain ⟨job, hjob, hstep⟩ := bind_eq_some_iff.1 hstep
  by_cases hpossible : outcome.possible q w = true
  · rw [if_pos hpossible] at hstep
    exact ⟨w, job, hw, hjob, hpossible, (some.inj hstep).symm⟩
  · rw [if_neg hpossible] at hstep
    cases hstep

theorem queueStep_pass {now : Int} {order : List Nat}
    (hstep : queueStep limit retry q (.pass now order) = some q') :
    q' = q.pass limit now order := by
  replace hstep : (if q.started && !q.down then some (q.pass limit now order) else none) = some q' :=
    hstep
  split at hstep
  · exact (some.inj hstep).symm
  · cases hstep

theorem queueStep_advance (hstep : queueStep limit retry q (.advance id) = some q') :
    ∃ generation, q.current id = some generation ∧ q' = q.setCurrent id (some (generation + 1)) := by
  obtain ⟨generation, hgen, heq⟩ := map_eq_some_iff.1 hstep
  exact ⟨generation, hgen, heq.symm⟩

theorem queueStep_connect (hstep : queueStep limit retry q (.connect id) = some q') :
    q.current id = none ∧ q' = q.setCurrent id (some 1) := by
  replace hstep : (if q.current id = none then some (q.setCurrent id (some 1)) else none) = some q' :=
    hstep
  split at hstep
  · rename_i hnone
    exact ⟨hnone, (some.inj hstep).symm⟩
  · cases hstep

theorem queueInv_setCurrent (h : QueueInv limit q ∧ LiveInv q) (id : Nat) (generation : Option Nat) :
    QueueInv limit (q.setCurrent id generation) ∧ LiveInv (q.setCurrent id generation) :=
  ⟨{ h.1 with }, h.2⟩

theorem queueInv_step (q : Queue) (e : Event) (q' : Queue) (h : QueueInv limit q ∧ LiveInv q)
    (hstep : queueStep limit retry q e = some q') : QueueInv limit q' ∧ LiveInv q' := by
  obtain ⟨hinv, hlive⟩ := h
  cases e with
  | start | shutdown =>
    cases hstep
    exact ⟨{ hinv with }, hlive⟩
  | advance id =>
    obtain ⟨generation, -, rfl⟩ := queueStep_advance hstep
    exact queueInv_setCurrent ⟨hinv, hlive⟩ id _
  | evict id =>
    cases hstep
    exact queueInv_setCurrent ⟨hinv, hlive⟩ id none
  | connect id =>
    rw [(queueStep_connect hstep).2]
    exact queueInv_setCurrent ⟨hinv, hlive⟩ id _
  | sync ids =>
    cases hstep
    exact ⟨sync_inv hinv ids, sync_live hinv ids⟩
  | request id generation now =>
    cases hstep
    exact ⟨(request_spec hinv id generation now).1, request_live hinv hlive id generation now⟩
  | pass now order =>
    rw [queueStep_pass hstep]
    exact pass_live hinv hlive now order
  | finish i outcome now =>
    obtain ⟨w, job, hw, hjob, -, rfl⟩ := queueStep_finish hstep
    obtain ⟨hinv', -, -, v, ht, hv⟩ := finish_spec retry hinv hw hjob outcome now
    refine ⟨hinv', hlive.touch ht fun p j hj _ => ?_⟩
    rcases hv with ⟨hnone, -⟩ | ⟨-, hmem⟩
    · rw [hnone] at hj
      cases hj
    · exact hmem

theorem queueInv_empty (h : emptyQueue q) : QueueInv limit q ∧ LiveInv q := by
  obtain ⟨hjobs, hheap, -, hactive, hworkers, -, -⟩ := h
  have hlookup : ∀ id place, q.jobs.lookup id ≠ some place := by
    intro id place
    rw [hjobs, AList.lookup_empty]
    exact nofun
  have hjob : ∀ id place job, q.job? id ≠ some (place, job) := fun id place job h =>
    hlookup id place (job?_eq_some.1 h).1
  refine ⟨⟨fun id p hp => absurd hp (hlookup id p), fun id _ p hp => absurd hp (hlookup id p),
    fun w hw => ?_, ?_, fun id p j hj => absurd hj (hjob id p j), ?_, ?_,
    fun id p j hj => absurd hj (hjob id p j)⟩, fun id p j hj => absurd hj (hjob id p j)⟩
  · rw [hworkers] at hw
    cases hw
  · rw [hworkers]
    exact nodup_nil
  · rw [hactive, hworkers]
    rfl
  · rw [hactive]
    exact Nat.zero_le limit

theorem queueInv_reachable (h : (deploymentQueue limit retry).Reachable q) :
    QueueInv limit q ∧ LiveInv q :=
  h.invariant (fun _ => queueInv_empty) queueInv_step

/-! ## §8. Generations that do not come back. -/

/-- The pool keeps the entry of a server that has a job. -/
def KeepsEntry (q : Queue) : Event → Prop
  | .evict id => q.job? id = none
  | _ => True

/-- The generation of a worker is the current one or an earlier one, and an
earlier one if the pool's entry has changed since it started. -/
def GenInv (q : Queue) : Prop :=
  ∀ w ∈ q.workers, ∃ generation, q.current w.server = some generation ∧
    w.generation ≤ generation ∧ (q.moved w.server = true → w.generation < generation)

theorem GenInv.of_workers (h : GenInv q) (hworkers : q'.workers ⊆ q.workers)
    (hcurrent : q'.current = q.current) (hmoved : q'.moved = q.moved) : GenInv q' := by
  intro w hw
  rw [hcurrent, hmoved]
  exact h w (hworkers hw)

theorem moved_sync (q : Queue) (ids : List Nat) : (q.sync ids).moved = q.moved := by
  suffices h : ∀ (keys : List Nat) (q : Queue), (keys.foldl retireStep q).moved = q.moved from h _ _
  intro keys
  induction keys with
  | nil => exact fun _ => rfl
  | cons a keys ih =>
    intro q
    refine (ih (retireStep q a)).trans ?_
    rcases retireStep_cases q a with ⟨heq, -⟩ | ⟨place, job, -, -, ⟨-, heq⟩ | ⟨-, heq⟩⟩ <;>
      rw [heq] <;> rfl

theorem moved_request (q : Queue) (id generation : Nat) (now : Int) :
    (q.request id generation now).moved = q.moved := by
  rcases request_cases q id generation now with
    ⟨-, heq⟩ | ⟨-, -, heq⟩ | ⟨-, place, job, -, ⟨-, -, heq⟩ | heq⟩ <;> rw [heq] <;> rfl

theorem moved_finish (q : Queue) (i : Nat) (w : Worker) (job : Job) (outcome : Outcome)
    (now : Int) : (q.finish retry i w job outcome now).moved = q.moved := by
  rcases finish_cases retry q i w job outcome now with ⟨heq, -⟩ | ⟨⟨due, failures, heq⟩, -⟩ <;>
    rw [heq] <;> rfl

/-- Where the pool changes an entry that no worker's generation is above. -/
theorem GenInv.setCurrent (h : GenInv q) {generation : Option Nat}
    (habove : ∀ w ∈ q.workers, w.server = id → ∃ g, generation = some g ∧ w.generation < g) :
    GenInv (q.setCurrent id generation) := by
  intro w hw
  by_cases hid : w.server = id
  · obtain ⟨g, rfl, hlt⟩ := habove w hw hid
    refine ⟨g, ?_, Nat.le_of_lt hlt, fun _ => hlt⟩
    show update q.current id (some g) w.server = some g
    rw [hid, update_self]
  · obtain ⟨g, hg, hle, hmoved⟩ := h w hw
    refine ⟨g, ?_, hle, fun hm => hmoved ?_⟩
    · exact (update_of_ne hid ..).trans hg
    · replace hm : update q.moved id true w.server = true := hm
      rwa [update_of_ne hid] at hm

/-- A worker starts with the current generation. -/
theorem genInv_visit (h : GenInv q) (now : Int) (id : Nat) : GenInv (visit limit now q id) := by
  rcases visit_cases limit now q id with
    heq | ⟨place, job, -, -, -, ⟨-, heq⟩ | ⟨-, hcurrent, heq⟩⟩
  · rwa [heq]
  · rw [heq]
    exact h.of_workers (List.Subset.refl _) rfl rfl
  · rw [heq]
    intro w hw
    show ∃ g, q.current w.server = some g ∧ w.generation ≤ g ∧
      (update q.moved id false w.server = true → w.generation < g)
    rcases mem_append.1 hw with hw | hw
    · obtain ⟨g, hg, hle, hmoved⟩ := h w hw
      refine ⟨g, hg, hle, fun hm => ?_⟩
      by_cases hid : w.server = id
      · rw [hid, update_self] at hm
        cases hm
      · rw [update_of_ne hid] at hm
        exact hmoved hm
    · cases mem_singleton.1 hw
      refine ⟨job.generation, by simpa [Queue.isCurrent] using hcurrent, Nat.le_refl _, fun hm => ?_⟩
      replace hm : update q.moved id false id = true := hm
      rw [update_self] at hm
      cases hm

/-- **No generation comes back** to a worker, if the pool keeps the entries of
the servers that have a job. -/
theorem genInv_step (q : Queue) (e : Event) (q' : Queue) (hkeeps : KeepsEntry q e)
    (h : (QueueInv limit q ∧ LiveInv q) ∧ GenInv q) (hstep : queueStep limit retry q e = some q') :
    GenInv q' := by
  obtain ⟨⟨hinv, -⟩, hgen⟩ := h
  cases e with
  | start | shutdown =>
    cases hstep
    exact hgen.of_workers (List.Subset.refl _) rfl rfl
  | advance id =>
    obtain ⟨generation, hcurrent, rfl⟩ := queueStep_advance hstep
    refine hgen.setCurrent fun w hw hid => ⟨generation + 1, rfl, ?_⟩
    obtain ⟨g, hg, hle, -⟩ := hgen w hw
    cases (hid ▸ hg).symm.trans hcurrent
    omega
  | evict id =>
    cases hstep
    refine hgen.setCurrent fun w hw hid => ?_
    -- a worker's server has a job
    obtain ⟨job, hjob, -⟩ := hinv.worker w hw
    rw [hid, show q.job? id = none from hkeeps] at hjob
    cases hjob
  | connect id =>
    obtain ⟨hnone, rfl⟩ := queueStep_connect hstep
    refine hgen.setCurrent fun w hw hid => ?_
    obtain ⟨g, hg, -⟩ := hgen w hw
    rw [hid, hnone] at hg
    cases hg
  | sync ids =>
    cases hstep
    obtain ⟨-, ⟨-, hcurrent, hworkers, -⟩, -⟩ := retireAll q.jobs.keys (withLive_inv hinv ids)
    exact hgen.of_workers (hworkers ▸ List.Subset.refl _) hcurrent (moved_sync q ids)
  | request id generation now =>
    cases hstep
    obtain ⟨-, hworkers, -, v, ht, -⟩ := request_spec hinv id generation now
    exact hgen.of_workers (hworkers ▸ List.Subset.refl _) ht.current (moved_request ..)
  | pass now order =>
    rw [queueStep_pass hstep]
    exact (pass_induction now hinv hgen (fun q id _ hgen => genInv_visit hgen now id) order).2
  | finish i outcome now =>
    obtain ⟨w, job, hw, hjob, -, rfl⟩ := queueStep_finish hstep
    obtain ⟨-, hworkers, -, v, ht, -⟩ := finish_spec retry hinv hw hjob outcome now
    exact hgen.of_workers (hworkers ▸ eraseIdx_subset) ht.current (moved_finish ..)

/-! ## §9. A request stands. -/

/-- The server has a job for the generation in the map, not retired; it runs
or has a due time. -/
def Pending (q : Queue) (id generation : Nat) : Prop :=
  ∃ place job, q.job? id = some (place, job) ∧ job.generation = generation ∧ job.retired = false

/-- The event that ends a request: a worker succeeds with it, the pool moves on
to the next generation, the server is synced away, or all stops. -/
def Ends (q : Queue) (id generation : Nat) : Event → Prop
  | .finish i outcome _ => outcome = .ok ∧ ∃ w, q.workers[i]? = some w ∧ w.server = id ∧
      w.generation = generation
  | .advance id' => id' = id
  | .sync ids => id ∉ ids
  | .shutdown => True
  | _ => False

/-- A request that stands, with what makes it one for the current generation. -/
structure Standing (q : Queue) (id generation : Nat) : Prop where
  up : q.down = false
  current : q.current id = some generation
  pending : Pending q id generation

variable {generation : Nat}

theorem Standing.isCurrent (h : Standing q id generation) : q.isCurrent id generation = true := by
  unfold Queue.isCurrent
  rw [h.current]
  exact beq_self_eq_true _

/-- A request stands through a touch, if its own server keeps a job for it. -/
theorem Standing.touch (hs : Standing q id generation) {id' : Nat} (ht : Touch q q' id' v)
    (hv : id' = id → ∃ p j, v = some (p, j) ∧ j.generation = generation ∧ j.retired = false) :
    Standing q' id generation := by
  refine ⟨ht.down.trans hs.up, (congrFun ht.current id).trans hs.current, ?_⟩
  by_cases hid : id' = id
  · obtain ⟨p, j, hj, hgen, hret⟩ := hv hid
    subst hid
    exact ⟨p, j, ht.self.trans hj, hgen, hret⟩
  · obtain ⟨p, j, hj, hgen, hret⟩ := hs.pending
    exact ⟨p, j, (ht.other id (Ne.symm hid)).trans hj, hgen, hret⟩

theorem standing_sync (h : QueueInv limit q) (hs : Standing q id generation) {ids : List Nat}
    (hmem : id ∈ ids) : Standing (q.sync ids) id generation := by
  obtain ⟨-, ⟨-, hcurrent, -, hdown⟩, -, hkeep⟩ := retireAll q.jobs.keys (withLive_inv h ids)
  obtain ⟨place, job, hjob, rfl, hret⟩ := hs.pending
  exact ⟨hdown.trans hs.up, (congrFun hcurrent id).trans hs.current,
    place, job, hkeep id place job hjob hmem hs.isCurrent, rfl, hret⟩

theorem standing_request (h : QueueInv limit q) (hs : Standing q id generation)
    (id' generation' : Nat) (now : Int) :
    Standing (q.request id' generation' now) id generation := by
  obtain ⟨-, -, hsame | hyes, v, ht, hv⟩ := request_spec h id' generation' now
  · rw [hsame]
    exact hs
  · refine hs.touch ht fun hid => ?_
    -- only the current generation is accepted, and that is the one requested
    subst hid
    cases (accepts_iff.1 hyes).2.2.2.symm.trans hs.current
    exact hv hyes

theorem standing_pass (h : QueueInv limit q) (hs : Standing q id generation) (now : Int)
    (order : List Nat) : Standing (q.pass limit now order) id generation := by
  refine (pass_induction (P := (Standing · id generation)) now h hs (fun q id' h hs => ?_) order).2
  obtain ⟨-, -, v, ht, -, hkeep⟩ := visit_spec h now id'
  refine hs.touch ht fun hid => ?_
  subst hid
  obtain ⟨p, j, hj, rfl, hret⟩ := hs.pending
  obtain ⟨p', j', hv, hgen, hret'⟩ := hkeep p j hj hs.isCurrent
  exact ⟨p', j', hv, hgen, hret'.trans hret⟩

theorem standing_finish (h : QueueInv limit q) (hl : LiveInv q) (hgens : GenInv q)
    (hs : Standing q id generation) (hw : q.workers[i]? = some w)
    (hjob : q.heap[w.job]? = some job) {outcome : Outcome}
    (hpossible : outcome.possible q w = true) (now : Int)
    (hgoes : ¬ (outcome = .ok ∧ w.server = id ∧ w.generation = generation)) :
    Standing (q.finish retry i w job outcome now) id generation := by
  obtain ⟨-, -, hold, v, ht, hv⟩ := finish_spec retry h hw hjob outcome now
  refine hs.touch ht fun hid => ?_
  -- the worker's job is the one that stands
  subst hid
  obtain ⟨p, j, hj, hgen, hret⟩ := hs.pending
  cases hj.symm.trans hold
  rcases hv with ⟨-, hretired | hdead | hover | ⟨hsame, hended⟩⟩ | ⟨⟨j, hv, hsame, hret'⟩, -⟩
  · rw [hret] at hretired
    cases hretired
  · exact absurd (hl w.server w.job job hj hret) hdead
  · rw [hs.up] at hover
    cases hover
  · cases outcome with
    | ok => exact absurd ⟨rfl, rfl, hsame.symm.trans hgen⟩ hgoes
    | stale =>
      -- the generation is current, so the entry has not changed
      obtain ⟨g, hg, -, hmoved⟩ := hgens w (mem_of_getElem? hw)
      have hlt := hmoved hpossible
      cases hg.symm.trans hs.current
      omega
    | failed => exact absurd rfl hended
  · exact ⟨w.job, j, hv, hsame.trans hgen, hret'⟩

/-- **A request stands through every step that does not end it.** -/
theorem standing_step (q : Queue) (e : Event) (q' : Queue) (hkeeps : KeepsEntry q e)
    (hend : ¬ Ends q id generation e)
    (h : ((QueueInv limit q ∧ LiveInv q) ∧ GenInv q) ∧ Standing q id generation)
    (hstep : queueStep limit retry q e = some q') : Standing q' id generation := by
  obtain ⟨⟨⟨hinv, hlive⟩, hgens⟩, hs⟩ := h
  have hother : ∀ {id'} generation', id ≠ id' →
      Standing (q.setCurrent id' generation') id generation := fun generation' hid =>
    ⟨hs.up, (update_of_ne hid ..).trans hs.current, hs.pending⟩
  cases e with
  | start =>
    cases hstep
    exact { hs with }
  | shutdown => exact absurd trivial hend
  | advance id' =>
    obtain ⟨g, -, rfl⟩ := queueStep_advance hstep
    exact hother _ fun hid => hend hid.symm
  | evict id' =>
    cases hstep
    refine hother _ fun hid => ?_
    obtain ⟨p, j, hj, -⟩ := hs.pending
    rw [hid, show q.job? id' = none from hkeeps] at hj
    cases hj
  | connect id' =>
    obtain ⟨hnone, rfl⟩ := queueStep_connect hstep
    refine hother _ fun hid => ?_
    rw [← hid, hs.current] at hnone
    cases hnone
  | sync ids =>
    cases hstep
    exact standing_sync hinv hs (not_not.1 hend)
  | request id' generation' now =>
    cases hstep
    exact standing_request hinv hs id' generation' now
  | pass now order =>
    rw [queueStep_pass hstep]
    exact standing_pass hinv hs now order
  | finish i outcome now =>
    obtain ⟨w, job, hw, hjob, hpossible, rfl⟩ := queueStep_finish hstep
    exact standing_finish hinv hlive hgens hs hw hjob hpossible now fun ⟨hok, hid, hgen⟩ =>
      hend ⟨hok, w, hw, hid, hgen⟩

/-- A request that is accepted stands. -/
theorem standing_accepted (h : QueueInv limit q) (haccepts : q.accepts id generation = true)
    (now : Int) : Standing (q.request id generation now) id generation := by
  obtain ⟨-, hup, -, hcur⟩ := accepts_iff.1 haccepts
  obtain ⟨-, -, -, v, ht, hv⟩ := request_spec h id generation now
  obtain ⟨p, j, hj, hgen, hret⟩ := hv haccepts
  exact ⟨ht.down.trans hup, (congrFun ht.current id).trans hcur, p, j, ht.self.trans hj, hgen, hret⟩

/-! ## §10. The queue. -/

/-- A new worker's server had none: it starts only when the one before it has
returned. -/
theorem started_alone (h : (deploymentQueue limit retry).Reachable q) {e : Event}
    (hstep : queueStep limit retry q e = some q') (hnew : w ∈ q'.workers) (hold : w ∉ q.workers) :
    ∀ v ∈ q.workers, v.server ≠ w.server := by
  have hinv := (queueInv_reachable h).1
  have hkept : q'.workers ⊆ q.workers ∨ q.workers ⊆ q'.workers := by
    cases e with
    | start | shutdown | evict _ =>
      cases hstep
      exact .inl (List.Subset.refl _)
    | advance id =>
      obtain ⟨-, -, rfl⟩ := queueStep_advance hstep
      exact .inl (List.Subset.refl _)
    | connect id =>
      rw [(queueStep_connect hstep).2]
      exact .inl (List.Subset.refl _)
    | sync ids =>
      cases hstep
      obtain ⟨-, ⟨-, -, hworkers, -⟩, -⟩ := retireAll q.jobs.keys (withLive_inv hinv ids)
      exact .inl (hworkers ▸ List.Subset.refl _)
    | request id generation now =>
      cases hstep
      exact .inl ((request_spec hinv id generation now).2.1 ▸ List.Subset.refl _)
    | pass now order =>
      rw [queueStep_pass hstep]
      exact .inr (pass_workers hinv now order)
    | finish i outcome now =>
      obtain ⟨w', job, hw, hjob, -, rfl⟩ := queueStep_finish hstep
      rw [(finish_spec retry hinv hw hjob outcome now).2.1]
      exact .inl (eraseIdx_subset)
  rcases hkept with hsub | hsub
  · exact absurd (hsub hnew) hold
  · intro v hv hsame
    have hnodup := (queueInv_step q e q' (queueInv_reachable h) hstep).1.nodup
    have hvw : v = w := inj_on_of_nodup_map hnodup (hsub hv) hnew hsame
    exact hold (hvw ▸ hv)

/-- **The deployment queue.**  In every reachable state the counter is the
number of running workers and within the limit, no server has two, each runs
the job its server has in the map, and a retired job that is not running is not
in the map.  A worker starts only for a server that has none.  And if the pool
keeps the entries of the servers that have a job, a request that is accepted
leaves its server in the map, with a job for its generation, for as long as no
event ends it. -/
theorem deployment_queue (limit : Nat) (retry : Int) (q : Queue)
    (h : (deploymentQueue limit retry).Reachable q) :
    (q.active = q.workers.length ∧ q.active ≤ limit ∧ (q.workers.map Worker.server).Nodup ∧
      (∀ w ∈ q.workers, ∃ job, q.job? w.server = some (w.job, job) ∧ job.running = true) ∧
      (∀ id place job, q.job? id = some (place, job) → job.retired = true →
        job.running = true)) ∧
    (∀ e q', queueStep limit retry q e = some q' →
      ∀ w ∈ q'.workers, w ∉ q.workers → ∀ v ∈ q.workers, v.server ≠ w.server) ∧
    (∀ q₀ es₀, emptyQueue q₀ → (deploymentQueue limit retry).Along KeepsEntry q₀ es₀ →
      (deploymentQueue limit retry).run q₀ es₀ = some q →
      ∀ id generation now, q.accepts id generation = true → ∀ es q',
      (deploymentQueue limit retry).Along (fun s e => KeepsEntry s e ∧ ¬ Ends s id generation e)
        (q.request id generation now) es →
      (deploymentQueue limit retry).run (q.request id generation now) es = some q' →
      Pending q' id generation) := by
  have hinv := queueInv_reachable h
  refine ⟨⟨hinv.1.active, hinv.1.bound, hinv.1.nodup, hinv.1.worker, hinv.1.retired⟩,
    fun e q' hstep w hnew hold => started_alone h hstep hnew hold, ?_⟩
  intro q₀ es₀ hempty halong₀ hrun₀ id generation now haccepts es q' halong hrun
  have hkeep : ∀ s e s', KeepsEntry s e → (QueueInv limit s ∧ LiveInv s) ∧ GenInv s →
      queueStep limit retry s e = some s' → (QueueInv limit s' ∧ LiveInv s') ∧ GenInv s' :=
    fun s e s' hkeeps hs hstep =>
      ⟨queueInv_step s e s' hs.1 hstep, genInv_step s e s' hkeeps hs hstep⟩
  have hbefore : (QueueInv limit q ∧ LiveInv q) ∧ GenInv q :=
    System.along_invariant (I := fun s => (QueueInv limit s ∧ LiveInv s) ∧ GenInv s) hkeep es₀ q₀ q
      halong₀ ⟨queueInv_empty hempty, fun w hw => by rw [hempty.2.2.2.2.1] at hw; cases hw⟩ hrun₀
  have hstands := standing_accepted hinv.1 haccepts now
  have hfinal := System.along_invariant
    (I := fun s => ((QueueInv limit s ∧ LiveInv s) ∧ GenInv s) ∧ Standing s id generation)
    (fun s e s' hend hs hstep =>
      ⟨hkeep s e s' hend.1 hs.1 hstep, standing_step s e s' hend.1 hend.2 hs hstep⟩)
    es _ q' halong ⟨hkeep q (.request id generation now) _ trivial hbefore rfl, hstands⟩ hrun
  exact hfinal.2.pending

/-- The queue before it is started, and a pool without entries. -/
def fresh : Queue := ⟨∅, [], [], 0, [], false, false, fun _ => none, fun _ => false⟩

theorem emptyQueue_fresh : emptyQueue fresh := ⟨rfl, rfl, rfl, rfl, rfl, rfl, rfl⟩

/-- A deployment that fails stands: its server keeps its job. -/
theorem deployment_queue_after_failure :
    ∃ q q', (deploymentQueue 4 5000).Reachable q ∧ q.accepts 1 1 = true ∧
      (deploymentQueue 4 5000).run (q.request 1 1 0) [.pass 0 [1], .finish 0 .failed 10] = some q' ∧
      Pending q' 1 1 := by
  have hrun : ((deploymentQueue 4 5000).run fresh [.start, .connect 1, .sync [1]]).map
        (fun q => (q.accepts 1 1, ((deploymentQueue 4 5000).run (q.request 1 1 0)
          [.pass 0 [1], .finish 0 .failed 10]).isSome)) = some (true, true) := by
    decide +kernel
  obtain ⟨q, hq, hboth⟩ := map_eq_some_iff.1 hrun
  obtain ⟨haccepts, hsome⟩ := Prod.mk.inj hboth
  obtain ⟨q', hq'⟩ := isSome_iff_exists.1 hsome
  have hreach : (deploymentQueue 4 5000).Reachable q := ⟨_, _, emptyQueue_fresh, hq⟩
  refine ⟨q, q', hreach, haccepts, hq', ?_⟩
  refine (deployment_queue 4 5000 q hreach).2.2 fresh _ emptyQueue_fresh ?_ hq 1 1 0 haccepts _ q'
    ?_ hq'
  · exact ⟨trivial, fun _ _ => ⟨trivial, fun _ _ => ⟨trivial, fun _ _ => trivial⟩⟩⟩
  · exact ⟨⟨trivial, fun hend => hend⟩,
      fun _ _ => ⟨⟨trivial, fun hend => (nomatch hend.1)⟩, fun _ _ => trivial⟩⟩

/-- A deployment fails, the pool evicts the entry of its server, and the next
pass takes the job out of the map: nothing has ended the request. -/
theorem request_lost_by_eviction :
    ∃ q q', (deploymentQueue 4 5000).Reachable q ∧ q.accepts 1 1 = true ∧
      (deploymentQueue 4 5000).Along (fun s e => ¬ Ends s 1 1 e) (q.request 1 1 0)
        [.pass 0 [1], .finish 0 .failed 10, .evict 1, .pass 5010 [1]] ∧
      (deploymentQueue 4 5000).run (q.request 1 1 0)
        [.pass 0 [1], .finish 0 .failed 10, .evict 1, .pass 5010 [1]] = some q' ∧
      ¬ Pending q' 1 1 := by
  have hrun : ((deploymentQueue 4 5000).run fresh [.start, .connect 1, .sync [1]]).map
        (fun q => (q.accepts 1 1, ((deploymentQueue 4 5000).run (q.request 1 1 0)
          [.pass 0 [1], .finish 0 .failed 10, .evict 1, .pass 5010 [1]]).map (·.job? 1))) =
        some (true, some none) := by
    decide +kernel
  obtain ⟨q, hq, hboth⟩ := map_eq_some_iff.1 hrun
  obtain ⟨haccepts, hsome⟩ := Prod.mk.inj hboth
  obtain ⟨q', hq', hjob⟩ := map_eq_some_iff.1 hsome
  refine ⟨q, q', ⟨_, _, emptyQueue_fresh, hq⟩, haccepts, ?_, hq', ?_⟩
  · exact ⟨fun hend => hend, fun _ _ => ⟨fun hend => (nomatch hend.1),
      fun _ _ => ⟨fun hend => hend, fun _ _ => ⟨fun hend => hend, fun _ _ => trivial⟩⟩⟩⟩
  · rintro ⟨p, j, hj, -⟩
    rw [hjob] at hj
    cases hj

end Talus.Deploy
