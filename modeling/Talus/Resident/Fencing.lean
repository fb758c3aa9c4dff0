/-
  Talus.Resident.Fencing
  **A REMOVAL FENCES ITS SERVER.**

  Two invariants of `schedSystem`, each from one lemma per critical section:

    • `SchedInv` — the map of jobs is the set of running goroutines, one per
      server and at most sixteen; the map of fences is the set of removals
      that hold one, and what such a removal was handed is the only job of
      its server that can still run,
    • `EpochInv` — a snapshot equal to the epoch has seen every removal.

  `install_fencing` reads the result off.
-/
import Talus.Base.Count
import Talus.Base.History
import Talus.Resident.Scheduler

namespace Talus.Resident

open Talus.Base List Option Function

/-! ## §1. Jobs and fences. -/

/-- The removal holds the fence of its server. -/
def RemovalPhase.holds : RemovalPhase → Bool
  | .cancelling _ | .granted _ => true
  | _ => false

/-- The job whose `done` channel the removal was handed. -/
def RemovalPhase.job : RemovalPhase → Option Nat
  | .cancelling job | .granted job => job
  | _ => none

def InstallJob.runs (job : InstallJob) : Bool := !job.done

structure SchedInv (m : Scheduler) : Prop where
  /-- an entry of the map is a running job of its server … -/
  mapped : ∀ s j, m.installJobs.lookup s = some j →
    ∃ job, m.jobs[j.job]? = some job ∧ job.runs = true ∧ job.node.serverID = s
  /-- … and every running job is in the map -/
  running : ∀ (k : Nat) (job : InstallJob), m.jobs[k]? = some job → job.runs = true →
    ∃ j, m.installJobs.lookup job.node.serverID = some j ∧ j.job = k
  count : m.jobs.countP InstallJob.runs = m.installJobs.entries.length
  bound : m.installJobs.entries.length ≤ residentMaxInstallJobs
  fenced : ∀ (r : Nat) (rem : Removal), m.removals[r]? = some rem → rem.phase.holds = true →
    m.removing rem.server = some r
  /-- only the returned job can still run behind a fence -/
  returned : ∀ (r : Nat) (rem : Removal) (k : Nat) (job : InstallJob),
    m.removals[r]? = some rem → rem.phase.holds = true → m.jobs[k]? = some job →
    job.runs = true → job.node.serverID = rem.server → rem.phase.job = some k

theorem newScheduler_inv : SchedInv newScheduler := by
  constructor <;> simp [newScheduler]

variable {m m' : Scheduler}

/-! ### Jobs start and end. -/

variable {now : Time}

/-- What an admission has checked. -/
theorem admits_iff {n : AgentNode} {epoch : Nat} {key : String} {ctxErr : Bool} :
    m.admits n epoch key ctxErr now = true ↔
      m.installJobs.lookup n.serverID = none ∧ m.removing n.serverID = none
        ∧ epoch = m.installEpoch ∧ m.installJobs.entries.length < residentMaxInstallJobs
        ∧ ctxErr = false ∧ retryAllows (m.retryOf n.serverID) n key now = true := by
  simp [Scheduler.admits, and_assoc]

theorem SchedInv.start (h : SchedInv m) {n : AgentNode} {epoch : Nat}
    {key : String} (pass : Nat) (hfree : m.installJobs.lookup n.serverID = none)
    (hopen : m.removing n.serverID = none)
    (hroom : m.installJobs.entries.length < residentMaxInstallJobs) :
    SchedInv (m.start n epoch key pass) := by
  have hnew : n.serverID ∉ m.installJobs := AList.lookup_eq_none.mp hfree
  have hlen : (m.installJobs.insert n.serverID ⟨n.tokenHash, m.jobs.length⟩).entries.length
      = m.installJobs.entries.length + 1 := by
    rw [AList.entries_insert_of_notMem hnew, length_cons]
  -- a job of the new list is an old one or the one that starts
  have hsplit : ∀ (k : Nat) (job : InstallJob),
      (m.start n epoch key pass).jobs[k]? = some job →
      m.jobs[k]? = some job ∨ k = m.jobs.length ∧ job.node = n := by
    intro k job hk
    rcases getElem?_concat_cases hk with hold | ⟨hlen, rfl⟩
    · exact .inl hold
    · exact .inr ⟨hlen, rfl⟩
  constructor
  · intro s j hj
    change (m.installJobs.insert n.serverID _).lookup s = some j at hj
    by_cases hs : s = n.serverID
    · subst hs
      rw [AList.lookup_insert] at hj
      cases hj
      exact ⟨_, getElem?_concat_length, rfl, rfl⟩
    · rw [AList.lookup_insert_ne hs] at hj
      obtain ⟨job, hget, hrun, hsrv⟩ := h.mapped s j hj
      have hlt := (List.getElem?_eq_some_iff.mp hget).1
      exact ⟨job, by rw [← hget]; exact getElem?_append_left hlt, hrun, hsrv⟩
  · intro k job hk hrun
    rcases hsplit k job hk with hold | ⟨rfl, rfl⟩
    · obtain ⟨j, hj, hjk⟩ := h.running k job hold hrun
      have hs : job.node.serverID ≠ n.serverID := by
        intro heq
        rw [heq, hfree] at hj
        cases hj
      refine ⟨j, ?_, hjk⟩
      show (m.installJobs.insert n.serverID _).lookup job.node.serverID = some j
      rw [AList.lookup_insert_ne hs]
      exact hj
    · exact ⟨_, AList.lookup_insert _, rfl⟩
  · show (m.jobs ++ [_]).countP InstallJob.runs = _
    rw [countP_append_single, h.count]
    exact hlen.symm
  · show (m.installJobs.insert n.serverID _).entries.length ≤ _
    omega
  · exact h.fenced
  · intro r rem k job hr hh hk hrun hsrv
    rcases hsplit k job hk with hold | ⟨rfl, rfl⟩
    · exact h.returned r rem k job hr hh hold hrun hsrv
    · have := h.fenced r rem hr hh
      rw [← hsrv, hopen] at this
      cases this

variable {k random : Nat} {err : Option RunError}

theorem complete_cases (h : m.complete k err now random = some m') :
    ∃ job, m.jobs[k]? = some job ∧ job.runs = true
      ∧ m'.installJobs = m.installJobs.erase job.node.serverID
      ∧ m'.jobs = m.jobs.set k { job with done := true }
      ∧ m'.removing = m.removing ∧ m'.removals = m.removals := by
  unfold Scheduler.complete at h
  split at h
  · next job hk =>
    split at h
    · cases h
    · next hdone =>
      cases h
      exact ⟨job, hk, by simpa [InstallJob.runs] using hdone, rfl, rfl, rfl, rfl⟩
  · cases h

/-- A job that still runs after another has completed. -/
theorem complete_running (h : m.complete k err now random = some m') {i : Nat} {job' : InstallJob}
    (hi : m'.jobs[i]? = some job') (hrun : job'.runs = true) :
    i ≠ k ∧ m.jobs[i]? = some job' := by
  obtain ⟨job, -, -, -, hjobs, -⟩ := complete_cases h
  rw [hjobs] at hi
  rcases getElem?_set_cases hi with ⟨rfl, rfl⟩ | ⟨hne, hi⟩
  · simp [InstallJob.runs] at hrun
  · exact ⟨hne.symm, hi⟩

theorem length_erase_of_lookup {l : AList fun _ : ServerID => ResidentJob} {s : ServerID}
    {j : ResidentJob} (h : l.lookup s = some j) :
    (l.erase s).entries.length + 1 = l.entries.length := by
  have hmem : s ∈ l.keys := AList.lookup_isSome.mp (by rw [h]; rfl)
  have hpos := length_pos_of_mem hmem
  have hlen : (l.erase s).keys.length = l.keys.length - 1 := by
    rw [AList.keys_erase, length_erase_of_mem hmem]
  simp only [AList.keys, List.keys, length_map] at hpos hlen
  omega

theorem SchedInv.complete (h : SchedInv m) (hs : m.complete k err now random = some m') :
    SchedInv m' := by
  obtain ⟨job, hk, hrun, hmap, hjobs, hfence, hrem⟩ := complete_cases hs
  obtain ⟨j, hj, hjk⟩ := h.running k job hk hrun
  constructor
  · intro s j' hj'
    rw [hmap] at hj'
    by_cases hsk : s = job.node.serverID
    · subst hsk
      rw [AList.lookup_erase] at hj'
      cases hj'
    · rw [AList.lookup_erase_ne hsk] at hj'
      obtain ⟨job', hget, hrun', hsrv⟩ := h.mapped s j' hj'
      have hne : k ≠ j'.job := by
        rintro rfl
        rw [hk] at hget
        cases hget
        exact hsk hsrv.symm
      exact ⟨job', by rw [hjobs, getElem?_set_ne hne]; exact hget, hrun', hsrv⟩
  · intro i job' hi hrun'
    obtain ⟨hne, hold⟩ := complete_running hs hi hrun'
    obtain ⟨j', hj', hji⟩ := h.running i job' hold hrun'
    have hsrv : job'.node.serverID ≠ job.node.serverID := by
      intro heq
      rw [heq, hj] at hj'
      cases hj'
      exact hne (hji.symm.trans hjk)
    refine ⟨j', ?_, hji⟩
    rw [hmap, AList.lookup_erase_ne hsrv]
    exact hj'
  · have hc := countP_set_toNat InstallJob.runs { job with done := true } hk
    have hl := length_erase_of_lookup hj
    have := h.count
    have hoff : InstallJob.runs { job with done := true } = false := rfl
    rw [hjobs, hmap]
    rw [hrun, hoff, Bool.toNat_true, Bool.toNat_false] at hc
    omega
  · have hl := length_erase_of_lookup hj
    have := h.bound
    rw [hmap]
    omega
  · rw [hfence, hrem]
    exact h.fenced
  · intro r rem i job' hr hh hi hrun' hsrv
    rw [hrem] at hr
    obtain ⟨-, hold⟩ := complete_running hs hi hrun'
    exact h.returned r rem i job' hr hh hold hrun' hsrv

/-! ### Removals. -/

variable {r : Nat} {rem : Removal}

/-- A removal that holds no fence moves to another phase without one. -/
theorem SchedInv.setPhase (h : SchedInv m) {phase : RemovalPhase} (hphase : phase.holds = false) :
    SchedInv (m.setPhase r rem phase) := by
  have hold : ∀ (i : Nat) (rem' : Removal), (m.setPhase r rem phase).removals[i]? = some rem' →
      rem'.phase.holds = true → m.removals[i]? = some rem' := by
    intro i rem' hi hh
    rcases getElem?_set_cases hi with ⟨rfl, rfl⟩ | ⟨_, hi⟩
    · rw [hphase] at hh
      cases hh
    · exact hi
  refine ⟨h.mapped, h.running, h.count, h.bound, ?_, ?_⟩
  · intro i rem' hi hh
    exact h.fenced i rem' (hold i rem' hi hh) hh
  · intro i rem' k job hi hh
    exact h.returned i rem' k job (hold i rem' hi hh) hh

/-- The fence is taken while nobody holds it. -/
theorem SchedInv.grant (h : SchedInv m)
    (hfree : m.removing rem.server = none) : SchedInv (m.grant r rem) := by
  refine ⟨h.mapped, h.running, h.count, h.bound, ?_, ?_⟩
  · intro i rem' hi hh
    change Function.update m.removing rem.server (some r) rem'.server = some i
    rcases getElem?_set_cases hi with ⟨rfl, rfl⟩ | ⟨_, hi⟩
    · exact update_self ..
    · have hheld := h.fenced i rem' hi hh
      have hne : rem'.server ≠ rem.server := by
        intro heq
        rw [heq, hfree] at hheld
        cases hheld
      rw [update_of_ne hne]
      exact hheld
  · intro i rem' k job hi hh hk hrun hsrv
    rcases getElem?_set_cases hi with ⟨rfl, rfl⟩ | ⟨_, hi⟩
    · -- the job of the map is the job that runs
      obtain ⟨j, hj, rfl⟩ := h.running k job hk hrun
      have hsrv : job.node.serverID = rem.server := hsrv
      show (m.installJobs.lookup rem.server).map (·.job) = some j.job
      rw [← hsrv, hj]
      rfl
    · exact h.returned i rem' k job hi hh hk hrun hsrv

/-- `job.cancel()` keeps the fence and the job. -/
theorem SchedInv.granted (h : SchedInv m)
    {job : Option Nat} (hr : m.removals[r]? = some rem) (hp : rem.phase = .cancelling job) :
    SchedInv (m.setPhase r rem (.granted job)) := by
  refine ⟨h.mapped, h.running, h.count, h.bound, ?_, ?_⟩
  · intro i rem' hi hh
    rcases getElem?_set_cases hi with ⟨rfl, rfl⟩ | ⟨_, hi⟩
    · exact h.fenced r rem hr (by rw [hp]; rfl)
    · exact h.fenced i rem' hi hh
  · intro i rem' k job' hi hh hk hrun hsrv
    rcases getElem?_set_cases hi with ⟨rfl, rfl⟩ | ⟨_, hi⟩
    · have := h.returned r rem k job' hr (by rw [hp]; rfl) hk hrun hsrv
      rw [hp] at this
      exact this
    · exact h.returned i rem' k job' hi hh hk hrun hsrv

/-- `finish` gives up the fence it holds, and no other. -/
theorem SchedInv.finish (h : SchedInv m) (hs : m.finish r = some m') : SchedInv m' := by
  unfold Scheduler.finish at hs
  split at hs
  · next rem hr =>
    split at hs
    · next job hp =>
      cases hs
      have hmine : m.removing rem.server = some r := h.fenced r rem hr (by rw [hp]; rfl)
      have hbase : SchedInv (m.setPhase r rem .finished) := h.setPhase rfl
      refine { hbase with fenced := ?_ }
      intro i rem' hi hh
      change Function.update m.removing rem.server none rem'.server = some i
      rcases getElem?_set_cases hi with ⟨rfl, rfl⟩ | ⟨hne, hi⟩
      · cases hh
      · have hheld := h.fenced i rem' hi hh
        have hsrv : rem'.server ≠ rem.server := by
          intro heq
          rw [heq, hmine] at hheld
          cases hheld
          exact hne rfl
        rw [update_of_ne hsrv]
        exact hheld
    · cases hs
      exact h
    · cases hs
  · cases hs

theorem SchedInv.remove (h : SchedInv m) (s : ServerID) :
    SchedInv { m with removals := m.removals ++ [⟨s, .entering⟩] } := by
  have hold : ∀ (i : Nat) (rem : Removal),
      (m.removals ++ [⟨s, .entering⟩])[i]? = some rem → rem.phase.holds = true →
      m.removals[i]? = some rem := by
    intro i rem hi hh
    rcases getElem?_concat_cases hi with hi | ⟨_, rfl⟩
    · exact hi
    · cases hh
  refine ⟨h.mapped, h.running, h.count, h.bound, ?_, ?_⟩
  · intro i rem hi hh
    exact h.fenced i rem (hold i rem hi hh) hh
  · intro i rem k job hi hh
    exact h.returned i rem k job (hold i rem hi hh) hh

/-- **Every step keeps jobs and fences in order.** -/
theorem SchedInv.step {op : SchedOp} (h : SchedInv m)
    (hs : schedStep m op = some m') : SchedInv m' := by
  cases op with
  | snapshot | newSettings | cancelStale s hash | dropServers live | stop =>
    cases hs
    exact { h with }
  | schedule pass n key ctxErr now =>
    obtain ⟨epoch, _, rfl⟩ := map_eq_some_iff.mp hs
    unfold Scheduler.scheduleInstall
    split
    · next hadm =>
      obtain ⟨hfree, hopen, -, hroom, -⟩ := admits_iff.mp hadm
      exact h.start pass hfree hopen hroom
    · exact h
  | complete k err now random => exact h.complete hs
  | remove s =>
    cases hs
    exact h.remove s
  | fence r ctxErr =>
    simp only [schedStep, Scheduler.fence] at hs
    split at hs
    · split at hs
      · split at hs
        · cases hs
          exact h.setPhase rfl
        · next hfree =>
          split at hs
          · cases hs
            exact h.setPhase rfl
          · cases hs
            exact h.grant hfree
      · cases hs
    · cases hs
  | wake r ctxDone =>
    simp only [schedStep, Scheduler.wake] at hs
    split at hs
    · split at hs
      · split at hs
        · cases hs
          exact h.setPhase rfl
        · split at hs
          · cases hs
            exact h.setPhase rfl
          · cases hs
      · cases hs
    · cases hs
  | cancelReturned r =>
    simp only [schedStep, Scheduler.cancelReturned] at hs
    split at hs
    · next rem hr =>
      split at hs
      · next job hp =>
        cases hs
        exact { h.granted hr hp with }
      · cases hs
    · cases hs
  | finish r => exact h.finish hs

theorem reachable_schedInv (h : schedSystem.Reachable m) : SchedInv m := by
  refine h.invariant ?_ fun s e s' hs he => hs.step he
  rintro s rfl
  exact newScheduler_inv

/-! ## §2. Epochs. -/

/-- A removal begins or ends. -/
def SchedEvent.fences : SchedEvent → Bool
  | .removalBegan _ | .removalEnded _ => true
  | _ => false

/-- No removal has begun or ended since pass `p` took its snapshot. -/
def Undisturbed (p : Nat) (log : List SchedEvent) : Prop :=
  Since (· = .snapshot p) (fun ev => ev.fences = false) log

/-- A job is admitted for an undisturbed pass. -/
def Fresh (before : List SchedEvent) : SchedEvent → Prop
  | .admitted _ p => Undisturbed p before
  | _ => True

structure EpochInv (m : Scheduler) : Prop where
  past : ∀ (p e : Nat), m.passes[p]? = some e → e ≤ m.installEpoch
  current : ∀ (p : Nat), m.passes[p]? = some m.installEpoch → Undisturbed p m.log
  fresh : Justified Fresh m.log

/-- A step that raises the epoch makes every snapshot stale. -/
theorem EpochInv.raise (h : EpochInv m)
    (hepoch : m'.installEpoch = m.installEpoch + 1) (hpass : m'.passes = m.passes)
    (hlog : m'.log = m.log ∨ ∃ ev, m'.log = m.log ++ [ev] ∧ ev.fences = true) :
    EpochInv m' := by
  refine ⟨?_, ?_, ?_⟩
  · intro p e hp
    rw [hpass] at hp
    have := h.past p e hp
    omega
  · intro p hp
    rw [hpass, hepoch] at hp
    have := h.past p _ hp
    omega
  · rcases hlog with hlog | ⟨ev, hlog, hev⟩
    · rw [hlog]
      exact h.fresh
    · rw [hlog]
      refine h.fresh.snoc ?_
      cases ev with
      | admitted k p => cases hev
      | _ => trivial

theorem EpochInv.snapshot (h : EpochInv m) :
    EpochInv { m with passes := m.passes ++ [m.installEpoch]
                      log := m.log ++ [.snapshot m.passes.length] } := by
  refine ⟨?_, ?_, h.fresh.snoc trivial⟩
  · intro p e hp
    show e ≤ m.installEpoch
    rcases getElem?_concat_cases hp with hold | ⟨_, rfl⟩
    · exact h.past p e hold
    · exact Nat.le_refl _
  · intro p hp
    rcases getElem?_concat_cases hp with hold | ⟨rfl, _⟩
    · refine (h.current p hold).append ?_
      simp [SchedEvent.fences]
    · exact since_snoc _ rfl

/-- **Every step keeps the epochs in order.** -/
theorem EpochInv.step {op : SchedOp} (h : EpochInv m)
    (hs : schedStep m op = some m') : EpochInv m' := by
  cases op with
  | snapshot =>
    cases hs
    exact h.snapshot
  | schedule pass n key ctxErr now =>
    obtain ⟨epoch, hp, rfl⟩ := map_eq_some_iff.mp hs
    unfold Scheduler.scheduleInstall
    split
    · next hadm =>
      obtain ⟨-, -, rfl, -⟩ := admits_iff.mp hadm
      refine ⟨h.past, fun p hp' => ?_, h.fresh.snoc (h.current pass hp)⟩
      refine (h.current p hp').append ?_
      simp [SchedEvent.fences]
    · exact h
  | complete k err now random =>
    simp only [schedStep, Scheduler.complete] at hs
    split at hs
    · split at hs
      · cases hs
      · cases hs
        exact { h with }
    · cases hs
  | remove s | cancelStale s hash | dropServers live | stop =>
    cases hs
    exact { h with }
  | fence r ctxErr =>
    simp only [schedStep, Scheduler.fence] at hs
    split at hs
    · split at hs
      · split at hs
        · cases hs
          exact { h with }
        · split at hs
          · cases hs
            exact { h with }
          · cases hs
            exact h.raise rfl rfl (.inr ⟨_, rfl, rfl⟩)
      · cases hs
    · cases hs
  | wake r ctxDone =>
    simp only [schedStep, Scheduler.wake] at hs
    split at hs
    · split at hs
      · split at hs
        · cases hs
          exact { h with }
        · split at hs
          · cases hs
            exact { h with }
          · cases hs
      · cases hs
    · cases hs
  | cancelReturned r =>
    simp only [schedStep, Scheduler.cancelReturned] at hs
    split at hs
    · split at hs
      · cases hs
        exact { h with }
      · cases hs
    · cases hs
  | finish r =>
    simp only [schedStep, Scheduler.finish] at hs
    split at hs
    · split at hs
      · cases hs
        exact h.raise rfl rfl (.inr ⟨_, rfl, rfl⟩)
      · cases hs
        exact h
      · cases hs
    · cases hs
  | newSettings =>
    cases hs
    exact h.raise rfl rfl (.inl rfl)

theorem reachable_epochInv (h : schedSystem.Reachable m) : EpochInv m := by
  refine h.invariant ?_ fun s e s' hs he => hs.step he
  rintro s rfl
  exact ⟨by simp [newScheduler], by simp [newScheduler], justified_nil⟩

/-! ## §3. The fence. -/

/-- The fence of a removal whose returned job is over. -/
def Scheduler.joined (m : Scheduler) (rem : Removal) : Prop :=
  rem.phase.holds = true ∧ ∀ k, rem.phase.job = some k →
    ∃ job, m.jobs[k]? = some job ∧ job.done = true

/-- **A removal fences its server.**  In every reachable state, for every
interleaving of passes, jobs, removals and settings changes:
* a server has at most one running install job, and at most sixteen run;
* while a removal holds the fence and the job it was handed is over, no job
  of its server runs, and `scheduleInstall` admits none;
* two removals of one server never hold the fence together;
* every job was admitted for a pass since whose snapshot no removal, of
  whatever server, has begun or ended. -/
theorem install_fencing (m : Scheduler) (h : schedSystem.Reachable m) :
    (∀ (k k' : Nat) (job job' : InstallJob), m.jobs[k]? = some job → m.jobs[k']? = some job' →
        job.runs = true → job'.runs = true → job.node.serverID = job'.node.serverID → k = k')
      ∧ m.jobs.countP InstallJob.runs ≤ 16
      ∧ (∀ (r : Nat) (rem : Removal), m.removals[r]? = some rem → m.joined rem →
          (∀ job ∈ m.jobs, job.node.serverID = rem.server → job.runs = false)
            ∧ ∀ n epoch key ctxErr now pass, n.serverID = rem.server →
                m.scheduleInstall n epoch key ctxErr now pass = (m, false))
      ∧ (∀ (r r' : Nat) (rem rem' : Removal), m.removals[r]? = some rem →
          m.removals[r']? = some rem' → rem.phase.holds = true → rem'.phase.holds = true →
          rem.server = rem'.server → r = r')
      ∧ (∀ before k p after, m.log = before ++ .admitted k p :: after →
          ∃ early late, before = early ++ .snapshot p :: late
            ∧ ∀ ev ∈ late, ev.fences = false) := by
  have hinv := reachable_schedInv h
  refine ⟨?_, ?_, ?_, ?_, ?_⟩
  · intro k k' job job' hk hk' hrun hrun' hsame
    obtain ⟨j, hj, rfl⟩ := hinv.running k job hk hrun
    obtain ⟨j', hj', rfl⟩ := hinv.running k' job' hk' hrun'
    rw [hsame, hj'] at hj
    cases hj
    rfl
  · rw [hinv.count]
    exact hinv.bound
  · intro r rem hr ⟨hholds, hover⟩
    have hfence := hinv.fenced r rem hr hholds
    refine ⟨?_, ?_⟩
    · intro job hmem hsrv
      obtain ⟨k, hk⟩ := mem_iff_getElem?.mp hmem
      cases hrun : job.runs with
      | false => rfl
      | true =>
        -- a job that runs behind the fence is the one the removal waited for
        have hret := hinv.returned r rem k job hr hholds hk hrun hsrv
        obtain ⟨job', hk', hdone⟩ := hover k hret
        rw [hk] at hk'
        cases hk'
        simp [InstallJob.runs, hdone] at hrun
    · intro n epoch key ctxErr now pass hsrv
      unfold Scheduler.scheduleInstall
      rw [if_neg]
      intro hadm
      have hopen := (admits_iff.mp hadm).2.1
      rw [hsrv, hfence] at hopen
      cases hopen
  · intro r r' rem rem' hr hr' hh hh' hsame
    have h1 := hinv.fenced r rem hr hh
    have h2 := hinv.fenced r' rem' hr' hh'
    rw [hsame, h2] at h1
    cases h1
    rfl
  · intro before k p after heq
    obtain ⟨early, ev, late, hsplit, rfl, hlate⟩ := (reachable_epochInv h).fresh before _ after heq
    exact ⟨early, late, hsplit, hlate⟩

/-- A removal takes the fence while a job runs. -/
def removalDuringJob : List SchedOp :=
  [.snapshot, .schedule 0 (newNode 7 (ascii "i") "t" "h") "k" false 0, .remove 7, .fence 0 false,
    .cancelReturned 0, .complete 0 (some .canceled) 5 0, .snapshot]

def afterRemoval : Scheduler := (schedSystem.run newScheduler removalDuringJob).getD newScheduler

/-- When it has joined the job, nothing of the server runs, and a request with
the newest snapshot is refused. -/
theorem install_fencing_joined :
    schedSystem.run newScheduler removalDuringJob = some afterRemoval
      ∧ afterRemoval.joined ⟨7, .granted (some 0)⟩
      ∧ (∀ job ∈ afterRemoval.jobs, job.node.serverID = 7 → job.runs = false)
      ∧ afterRemoval.scheduleInstall (newNode 7 (ascii "i") "t" "h") 1 "k" false 9 1 = (afterRemoval, false) := by
  have hrun : schedSystem.run newScheduler removalDuringJob = some afterRemoval := rfl
  have hall := install_fencing afterRemoval ⟨_, _, rfl, hrun⟩
  have hjoined : afterRemoval.joined ⟨7, .granted (some 0)⟩ := by
    refine ⟨rfl, fun k hk => ?_⟩
    cases hk
    exact ⟨_, rfl, rfl⟩
  have hquiet := hall.2.2.1 0 ⟨7, .granted (some 0)⟩ rfl hjoined
  exact ⟨hrun, hjoined, hquiet.1, hquiet.2 _ _ _ _ _ _ rfl⟩

end Talus.Resident
