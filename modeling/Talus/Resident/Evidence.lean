/-
  Talus.Resident.Evidence
  **NO INSTALLATION IS FORGOTTEN, IF JOBS START FROM THE CURRENT ROW.**

  The row has to know every place an agent of its credential may lie on
  (`Covers`).  While a job runs, what keeps it true depends on its stage:

      before `track`   the row still names the layouts the job was given
      after it         the row knows the new layout and those left to retire,
                       and the host has files on no other place

  `StageOk` says that, `InstallInv` joins it with the rows, and
  `InstallInv.jobMove` is the one lemma for every step of a job.

    • `layouts_remembered` — the result, for runs in which each admitted job
      is given the layouts of the current row,
    • `stale_snapshot_forgets_layout` — a run in which one is not.
-/
import Talus.Resident.Fencing
import Talus.Resident.Install

namespace Talus.Resident

open Talus.Base List Option Function

/-! ## §1. Places. -/

variable {home : Bytes}

section
variable {host : Host} {installID : Bytes}

/-- The home is part of the base. -/
theorem agentLayoutFor_home {uid uid' : Int} {home' : Bytes} (hu : uid ≠ 0) (hu' : uid' ≠ 0)
    (h : (agentLayoutFor installID uid home).base = (agentLayoutFor installID uid' home').base) :
    (agentLayoutFor installID uid home).home = (agentLayoutFor installID uid' home').home := by
  unfold agentLayoutFor at h ⊢
  rw [if_neg hu, if_neg hu'] at h ⊢
  rw [append_assoc, append_assoc] at h
  exact append_cancel_right h

theorem agentLayoutFor_uid (uid : Int) (home : Bytes) :
    (agentLayoutFor installID uid home).uid = uid := by
  unfold agentLayoutFor
  by_cases h : uid = 0
  · simp [h]
  · simp [h]

theorem agentLayoutFor_os (uid : Int) (home : Bytes) :
    (agentLayoutFor installID uid home).os = .empty := by
  unfold agentLayoutFor
  split <;> rfl

/-- Layouts with the same paths are in the same place. -/
theorem place_of_same {a b : AgentLayout} (ha : Named installID a) (hb : Named installID b)
    (h : sameInstallLayout a b = true) : host.place a = host.place b := by
  simp only [sameInstallLayout, Bool.and_eq_true, beq_iff_eq] at h
  obtain ⟨⟨⟨hos, huid⟩, hbase⟩, -⟩ := h
  unfold Host.place
  by_cases hw : a.os = .windows
  · have hw' : b.os = .windows := hos ▸ hw
    rw [if_pos hw, if_pos hw', hbase]
  · have hw' : ¬ b.os = .windows := hos ▸ hw
    rw [if_neg hw, if_neg hw']
    by_cases hz : a.uid = 0
    · have hz' : b.uid = 0 := huid ▸ hz
      rw [if_pos hz, if_pos hz']
    · have hz' : ¬ b.uid = 0 := huid ▸ hz
      rw [if_neg hz, if_neg hz', huid]
      -- neither is a Windows layout, so both come from `agentLayoutFor`
      rcases layoutOf_cases ha with ⟨_, hos', _⟩ | ⟨u, hm, -, -, -, -, -, rfl⟩
      · exact absurd hos' hw
      · rcases layoutOf_cases hb with ⟨_, hos', _⟩ | ⟨u', hm', -, -, -, -, -, rfl⟩
        · exact absurd hos' hw'
        · rw [agentLayoutFor_uid] at hz hz'
          rw [agentLayoutFor_home hz hz' hbase]

/-- A Windows layout has no account. -/
theorem named_not_windows {l : AgentLayout} (h : Named installID l) (hz : l.uid ≠ 0) :
    ¬ l.os = .windows := by
  rcases layoutOf_cases h with ⟨hm, -, -, -, rfl⟩ | ⟨u, hm, -, -, -, -, -, rfl⟩
  · exact absurd rfl hz
  · rw [agentLayoutFor_os]
    simp

/-- What `residentInstallRetirements` passes over is in the current place. -/
theorem place_of_kept {current old : AgentLayout} (hc : Named installID current)
    (ho : Named installID old) (h : retires host.sameFile current old = some false) :
    host.place old = host.place current := by
  unfold retires at h
  split at h
  · next hsame => exact place_of_same ho hc hsame
  · split at h
    · next hz =>
      split at h
      · cases h
      · next hdir =>
        split at h
        · next huid =>
          -- the same account and the same directory under two names
          have hsamedir : host.dir old.home = host.dir current.home := by
            split at hdir
            · next heq => rw [heq]
            · simpa [Host.sameFile] using hdir
          unfold Host.place
          rw [if_neg (named_not_windows ho hz.1), if_neg (named_not_windows hc hz.2),
            if_neg hz.1, if_neg hz.2, huid, hsamedir]
        · cases h
      · split at h <;> cases h
    · cases h

end

/-! ## §2. What a plan promises. -/

/-- The layouts of a row, and nothing else of it. -/
theorem known_congr {a b : AgentNode} (h : SameLayouts a b) (hid : a.installID = b.installID) :
    knownInstallLayouts a = knownInstallLayouts b := by
  obtain ⟨h1, h2, h3, h4⟩ := h
  unfold knownInstallLayouts recordedLayout
  rw [h1, h2, h3, h4, hid]

variable {places : List Place}

variable {host : Host}

theorem Covers.congr {a b : AgentNode} (h : Covers host a places)
    (hknown : knownInstallLayouts b = knownInstallLayouts a) : Covers host b places := by
  unfold Covers
  rw [hknown]
  exact h

structure PlanOk (host : Host) (node : AgentNode) (plan : Plan) : Prop where
  final : layoutOf node.installID plan.final.os (some plan.final.uid)
    (some (Path.clean plan.final.home)) = some plan.layout
  /-- `TrackInstallLayouts` is given the new layout and those to retire -/
  targets : ∀ l ∈ plan.layout :: plan.retirements, Named node.installID l
    ∧ ∃ e ∈ plan.targets,
        layoutOf node.installID e.os (some e.uid) (some (Path.clean e.home)) = some l
  /-- what the record knows is the new place or will be retired -/
  split : ∀ l ∈ knownInstallLayouts node, host.place l = host.place plan.layout
    ∨ ∃ old ∈ plan.retirements, host.place old = host.place l

variable {n : AgentNode} {found : List (Int × Bytes)}

theorem discovered_named :
    ∀ (acc : List AgentLayout), (∀ a ∈ found, 0 ≤ a.1 ∧ validInstallHome a.2 = true) →
      (∀ l ∈ acc, Named n.installID l) →
      ∀ l ∈ found.foldl (addDiscovered n.installID) acc, Named n.installID l := by
  induction found with
  | nil => exact fun acc _ hacc => hacc
  | cons a rest ih =>
    intro acc hvalid hacc
    refine ih _ (fun x hx => hvalid x (mem_cons_of_mem _ hx)) fun l hl => ?_
    obtain ⟨hu, hv⟩ := hvalid a mem_cons_self
    unfold addDiscovered at hl
    dsimp only at hl
    split at hl
    · exact hacc l hl
    · rcases mem_append.mp hl with hl | hl
      · exact hacc l hl
      · rw [mem_singleton.mp hl]
        exact named_agentLayoutFor hu (validInstallHome_clean hv).1

/-- The layouts a job starts from, known or discovered, can be named; if any
is known, they are the known ones. -/
theorem previousLayouts_named {root : Bool}
    {previous : List AgentLayout} (h : previousLayouts n root found = some previous) :
    (∀ l ∈ previous, Named n.installID l) ∧ ∀ l ∈ knownInstallLayouts n, l ∈ previous := by
  unfold previousLayouts at h
  split at h
  · next hnone =>
    refine ⟨?_, by simp [hnone]⟩
    unfold discoverInstallLayouts at h
    split at h
    · cases h
    split at h
    · next hall =>
      dsimp only at h
      split at h
      · cases h
      · cases h
        refine discovered_named [] ?_ (by simp)
        simpa using hall
    · cases h
  · cases h
    exact ⟨fun l hl => known_named hl, fun l hl => hl⟩

variable {plan : Plan}

theorem linuxPlan_ok {uid : Int} {root : Bool}
    (h : host.linuxPlan n uid home root found = some plan) : PlanOk host n plan := by
  unfold Host.linuxPlan at h
  split at h
  · next hvalid =>
    have hnew : Named n.installID (agentLayoutFor n.installID uid home) :=
      named_agentLayoutFor hvalid.1 hvalid.2
    split at h
    · cases h
    · next previous hprev =>
      obtain ⟨retirements, hret, rfl⟩ := map_eq_some_iff.mp h
      obtain ⟨hnamed, hknown⟩ := previousLayouts_named hprev
      have hback := hnew
      unfold Named at hback
      rw [agentLayoutFor_os, agentLayoutFor_uid] at hback
      refine ⟨hback, ?_, ?_⟩
      · intro l hl
        rcases mem_cons.mp hl with rfl | hl
        · refine ⟨hnew, ⟨.empty, uid, (agentLayoutFor n.installID uid home).home⟩, ?_, hback⟩
          simp [agentLayoutFor_uid]
        · have hmem := retirements_subset hret l hl
          refine ⟨hnamed l hmem, ⟨l.os, l.uid, l.home⟩, ?_, hnamed l hmem⟩
          exact mem_append_left _ (mem_map.mpr ⟨l, hmem, rfl⟩)
      · intro l hl
        rcases retirements_split hret l (hknown l hl) with hin | hkept
        · exact .inr ⟨l, hin, rfl⟩
        · exact .inl (place_of_kept hnew (known_named hl) hkept)
  · cases h

theorem windowsPlan_ok (h : host.windowsPlan n home = some plan) : PlanOk host n plan := by
  unfold Host.windowsPlan at h
  dsimp only at h
  split at h
  · next hvalid =>
    cases h
    have hnew : Named n.installID (windowsAgentLayout n.installID home) :=
      named_windows hvalid.1
    refine ⟨hnew, ?_, ?_⟩
    · intro l hl
      rw [mem_singleton.mp hl]
      exact ⟨hnew, _, mem_cons_self, hnew⟩
    · intro l hl
      left
      have hall := all_eq_true.mp hvalid.2 l hl
      simp only [Bool.and_eq_true, decide_eq_true_eq, beq_iff_eq] at hall
      unfold Host.place
      rw [if_pos hall.1, if_pos (show (windowsAgentLayout n.installID home).os = .windows from rfl),
        hall.2]
  · cases h

/-! ## §3. What holds while a job is at a stage. -/

/-- The row knows the new layout and those left to retire, and nothing lies
elsewhere. -/
structure Tracked (host : Host) (row : AgentNode) (plan : Plan) (places : List Place)
    (left : List AgentLayout) : Prop where
  final : layoutOf row.installID plan.final.os (some plan.final.uid)
    (some (Path.clean plan.final.home)) = some plan.layout
  known : ∀ l ∈ plan.layout :: left, ∃ l' ∈ knownInstallLayouts row, host.place l' = host.place l
  rest : ∀ place ∈ places, place = host.place plan.layout ∨ ∃ l ∈ left, host.place l = place

variable {row : AgentNode} {left : List AgentLayout}

theorem Tracked.covers (h : Tracked host row plan places left) : Covers host row places := by
  intro place hp
  rcases h.rest place hp with rfl | ⟨l, hl, rfl⟩
  · exact h.known _ mem_cons_self
  · exact h.known l (mem_cons_of_mem _ hl)

def StageOk (host : Host) (row node : AgentNode) (places : List Place) : Stage → Prop
  | .starting | .resolving => SameLayouts row node
  | .planned plan => SameLayouts row node ∧ PlanOk host node plan
  | .tracked plan => Tracked host row plan places plan.retirements
  | .activated plan left => Tracked host row plan places left
  | .returned _ | .stored _ => True

variable {node : AgentNode}

/-- **`TrackInstallLayouts`** puts every layout of the plan into the row. -/
theorem tracked_of_planned (hid : row.installID = node.installID) (hcov : Covers host row places)
    (hsame : SameLayouts row node) (hplan : PlanOk host node plan) :
    Tracked host (trackInstallLayouts row plan.targets) plan places plan.retirements := by
  have hknown := known_congr hsame hid
  refine ⟨?_, ?_, ?_⟩
  · show layoutOf row.installID _ _ _ = _
    rw [hid]
    exact hplan.final
  · intro l hl
    obtain ⟨hnamed, e, he, hle⟩ := hplan.targets l hl
    rw [← hid] at hle hnamed
    obtain ⟨l', hl', hsm⟩ := known_of_tracked he hle
    exact ⟨l', hl', place_of_same (known_named hl') hnamed hsm⟩
  · intro place hp
    obtain ⟨l, hl, rfl⟩ := hcov place hp
    rw [hknown] at hl
    rcases hplan.split l hl with hnew | ⟨old, hold, heq⟩
    · exact .inl hnew
    · exact .inr ⟨old, hold, heq⟩

theorem Tracked.put (h : Tracked host row plan places left) :
    Tracked host row plan (host.place plan.layout :: places) left := by
  refine ⟨h.final, h.known, ?_⟩
  intro place hp
  rcases mem_cons.mp hp with rfl | hp
  · exact .inl rfl
  · exact h.rest place hp

/-- A retirement takes its place off the host. -/
theorem Tracked.retired {old : AgentLayout} (h : Tracked host row plan places (old :: left)) :
    Tracked host row plan (places.filter (· ≠ host.place old)) left := by
  refine ⟨h.final, ?_, ?_⟩
  · intro l hl
    refine h.known l ?_
    rcases mem_cons.mp hl with rfl | hl
    · exact mem_cons_self
    · exact mem_cons_of_mem _ (mem_cons_of_mem _ hl)
  · intro place hp
    obtain ⟨hp, hne⟩ := mem_filter.mp hp
    rcases h.rest place hp with hnew | ⟨l, hl, heq⟩
    · exact .inl hnew
    · rcases mem_cons.mp hl with rfl | hl
      · simp [heq] at hne
      · exact .inr ⟨l, hl, heq⟩

/-- **`SetInstallPlatformLayout`** forgets nothing once every retirement has
succeeded. -/
theorem Tracked.recorded (h : Tracked host row plan places []) :
    Covers host (setInstallPlatformLayout row plan.final) places := by
  intro place hp
  rw [known_of_set h.final]
  rcases h.rest place hp with rfl | ⟨l, hl, -⟩
  · exact ⟨plan.layout, mem_cons_self, rfl⟩
  · cases hl

/-! ## §4. The invariant. -/

structure InstallInv (host : Host) (w : InstallWorld) : Prop where
  sched : SchedInv w.sched
  row_issued : ∀ s n, w.rows s = some n →
    n.serverID = s ∧ w.issued n.tokenHash = some (s, n.installID)
  read_issued : ∀ r ∈ w.reads, w.issued r.2.tokenHash = some (r.2.serverID, r.2.installID)
  job_issued : ∀ job ∈ w.sched.jobs,
    w.issued job.node.tokenHash = some (job.node.serverID, job.node.installID)
  works : w.works.length = w.sched.jobs.length
  unissued : ∀ t, w.issued t = none → w.remote t = []
  covered : ∀ s n, w.rows s = some n → Covers host n (w.remote n.tokenHash)
  /-- a job whose credential is still the row's -/
  stage : ∀ (k : Nat) (job : InstallJob) (work : Work), w.sched.jobs[k]? = some job →
    w.works[k]? = some work → job.runs = true →
    ∀ n, w.rows job.node.serverID = some n → n.tokenHash = job.node.tokenHash →
      StageOk host n job.node (w.remote n.tokenHash) work.stage

/-- A rewrite of a row that keeps whose it is. -/
def KeepsIdentity (f : AgentNode → AgentNode) : Prop :=
  ∀ n, (f n).serverID = n.serverID ∧ (f n).installID = n.installID ∧ (f n).tokenHash = n.tokenHash

variable {f : AgentNode → AgentNode} {s : ServerID}

/-- A row after an update is the updated one, or an old one. -/
theorem updateRow_cases {rows : ServerID → Option AgentNode} {n' : AgentNode}
    (h : updateRow rows node f s = some n') :
    (∃ n, s = node.serverID ∧ rows s = some n ∧ n.tokenHash = node.tokenHash ∧ n' = f n)
      ∨ (rows s = some n' ∧ (s = node.serverID → n'.tokenHash ≠ node.tokenHash)) := by
  cases hn : rows node.serverID with
  | none =>
    simp only [updateRow, hn] at h
    refine .inr ⟨h, ?_⟩
    rintro rfl
    rw [hn] at h
    cases h
  | some n =>
    simp only [updateRow, hn] at h
    split at h
    · next htok =>
      by_cases hs : s = node.serverID
      · subst hs
        rw [update_self] at h
        cases h
        exact .inl ⟨n, rfl, hn, htok, rfl⟩
      · rw [update_of_ne hs] at h
        exact .inr ⟨h, fun hs' => absurd hs' hs⟩
    · next htok =>
      refine .inr ⟨h, ?_⟩
      rintro rfl
      rw [hn] at h
      cases h
      exact htok

/-- **Every step of a running job**: it may rewrite the row of its own
credential and change the places of its own credential; what remains to be
shown is about that row alone. -/
theorem InstallInv.jobMove {w w' : InstallWorld} (h : InstallInv host w) {k : Nat}
    {job : InstallJob} {work work' : Work} (hk : w.sched.jobs[k]? = some job)
    (hw : w.works[k]? = some work) (hrun : job.runs = true) (hf : KeepsIdentity f)
    (hsched : w'.sched = w.sched) (hworks : w'.works = w.works.set k work')
    (hreads : w'.reads = w.reads) (hissued : w'.issued = w.issued)
    (hrows : w'.rows = updateRow w.rows job.node f)
    (hremote : ∀ t, t ≠ job.node.tokenHash → w'.remote t = w.remote t)
    (hlocal : ∀ n, n.tokenHash = job.node.tokenHash → n.installID = job.node.installID →
      Covers host n (w.remote job.node.tokenHash) →
      StageOk host n job.node (w.remote job.node.tokenHash) work.stage →
      Covers host (f n) (w'.remote job.node.tokenHash)
        ∧ StageOk host (f n) job.node (w'.remote job.node.tokenHash) work'.stage) :
    InstallInv host w' := by
  have hjob := h.job_issued job (mem_of_getElem? hk)
  -- the row of the job's credential, before and after
  have hown : ∀ n, w.rows job.node.serverID = some n → n.tokenHash = job.node.tokenHash →
      Covers host (f n) (w'.remote job.node.tokenHash)
        ∧ StageOk host (f n) job.node (w'.remote job.node.tokenHash) work'.stage := by
    intro n hn htok
    have hid : n.installID = job.node.installID := by
      have := (h.row_issued _ n hn).2
      rw [htok, hjob] at this
      exact (Prod.mk.inj (some.inj this)).2.symm
    have hcov := h.covered _ n hn
    have hst := h.stage k job work hk hw hrun n hn htok
    rw [htok] at hcov hst
    exact hlocal n htok hid hcov hst
  -- a row of another server has another credential
  have hother : ∀ s n, w.rows s = some n → n.tokenHash = job.node.tokenHash →
      s = job.node.serverID := by
    intro s n hn htok
    have := (h.row_issued s n hn).2
    rw [htok, hjob] at this
    exact (Prod.mk.inj (some.inj this)).1.symm
  constructor
  · rw [hsched]
    exact h.sched
  · intro s n' hn'
    rw [hrows] at hn'
    rw [hissued]
    rcases updateRow_cases hn' with ⟨n, -, hn, -, rfl⟩ | ⟨hn, -⟩
    · obtain ⟨h1, h2, h3⟩ := hf n
      rw [h1, h2, h3]
      exact h.row_issued s n hn
    · exact h.row_issued s n' hn
  · rw [hreads, hissued]
    exact h.read_issued
  · rw [hsched, hissued]
    exact h.job_issued
  · rw [hworks, hsched, length_set]
    exact h.works
  · intro t ht
    rw [hissued] at ht
    have hne : t ≠ job.node.tokenHash := by
      rintro rfl
      rw [hjob] at ht
      cases ht
    rw [hremote t hne]
    exact h.unissued t ht
  · intro s n' hn'
    rw [hrows] at hn'
    rcases updateRow_cases hn' with ⟨n, rfl, hn, htok, rfl⟩ | ⟨hn, hne⟩
    · rw [(hf n).2.2, htok]
      exact (hown n hn htok).1
    · have htok : n'.tokenHash ≠ job.node.tokenHash := by
        intro htok
        exact hne (hother s n' hn htok) htok
      rw [hremote _ htok]
      exact h.covered s n' hn
  · intro i job' wk hi hwk hrun' n' hn' htok'
    rw [hsched] at hi
    rw [hworks] at hwk
    rw [hrows] at hn'
    rcases updateRow_cases hn' with ⟨n, hsrv, hn, htok, rfl⟩ | ⟨hn, hne⟩
    · -- the row was the job's: no other job of that server runs
      obtain ⟨j, hj, rfl⟩ := h.sched.running k job hk hrun
      obtain ⟨j', hj', rfl⟩ := h.sched.running i job' hi hrun'
      rw [hsrv, hj] at hj'
      cases hj'
      rw [hk] at hi
      cases hi
      rw [List.getElem?_set_self (List.getElem?_eq_some_iff.mp hw).1] at hwk
      cases hwk
      rw [(hf n).2.2, htok]
      exact (hown n hn htok).2
    · have htok : n'.tokenHash ≠ job.node.tokenHash := by
        intro heq
        exact hne (hother _ n' hn heq) heq
      have hik : k ≠ i := by
        rintro rfl
        rw [hk] at hi
        cases hi
        exact htok htok'
      rw [getElem?_set_ne hik] at hwk
      rw [hremote _ htok]
      exact h.stage i job' wk hi hwk hrun' n' hn htok'

/-! ## §5. The steps of a job. -/

theorem updateRow_id (rows : ServerID → Option AgentNode) (node : AgentNode) :
    updateRow rows node id = rows := by
  cases hn : rows node.serverID with
  | none => simp only [updateRow, hn]
  | some n =>
    simp only [updateRow, hn]
    split
    · rw [id, ← hn, update_eq_self]
    · rfl

theorem keepsIdentity_id : KeepsIdentity id := fun _ => ⟨rfl, rfl, rfl⟩

theorem keepsIdentity_deployment (state hash config : String) (now : Time) :
    KeepsIdentity (setDeployment state hash config now) := fun _ => ⟨rfl, rfl, rfl⟩

theorem keepsIdentity_track (targets : List AgentInstallLayout) :
    KeepsIdentity (trackInstallLayouts · targets) := fun _ => ⟨rfl, rfl, rfl⟩

theorem keepsIdentity_set (layout : AgentInstallLayout) :
    KeepsIdentity (setInstallPlatformLayout · layout) := fun _ => ⟨rfl, rfl, rfl⟩

variable {op : InstallOp}

section
variable {host : Host} {w : InstallWorld} {k : Nat} {job : InstallJob} {work : Work}

section

variable (h : InstallInv host w) (hk : w.sched.jobs[k]? = some job) (hw : w.works[k]? = some work)
  (hrun : job.runs = true)
include h hk hw hrun

/-- A step that changes neither row nor host. -/
theorem InstallInv.setStage (stage : Stage)
    (hlocal : ∀ n places, StageOk host n job.node places work.stage →
      StageOk host n job.node places stage) : InstallInv host (w.setStage k work stage) := by
  refine h.jobMove hk hw hrun keepsIdentity_id rfl rfl rfl rfl (updateRow_id _ _).symm
    (fun _ _ => rfl) ?_
  intro n _ _ hcov hst
  exact ⟨hcov, hlocal n _ hst⟩

/-- A step that writes to the row. -/
theorem InstallInv.write (applied : Bool) (hf : KeepsIdentity f) (stage : Stage)
    (hdone : applied = true → ∀ n places, n.installID = job.node.installID →
      Covers host n places → StageOk host n job.node places work.stage →
      Covers host (f n) places ∧ StageOk host (f n) job.node places stage)
    (hnot : applied = false → ∀ n places, StageOk host n job.node places work.stage →
      StageOk host n job.node places stage) :
    InstallInv host ((w.write applied job.node f).setStage k work stage) := by
  cases applied with
  | true =>
    refine h.jobMove hk hw hrun hf rfl rfl rfl rfl rfl (fun _ _ => rfl) ?_
    intro n _ hid hcov hst
    exact hdone rfl n _ hid hcov hst
  | false => exact h.setStage hk hw hrun stage (hnot rfl)

/-- A write the job depends on. -/
theorem InstallInv.mustWrite (outcome : Outcome) (hf : KeepsIdentity f) (next : Stage)
    (hdone : ∀ n places, n.installID = job.node.installID →
      Covers host n places → StageOk host n job.node places work.stage →
      Covers host (f n) places ∧ StageOk host (f n) job.node places next) :
    InstallInv host (w.mustWrite k job work outcome f next) := by
  unfold InstallWorld.mustWrite
  refine h.write hk hw hrun _ hf _ ?_ ?_
  · intro _ n places hid hcov hst
    obtain ⟨hcov', hst'⟩ := hdone n places hid hcov hst
    refine ⟨hcov', ?_⟩
    split
    · exact hst'
    · trivial
  · intro hfailed n places _
    -- the write is not there, so the outcome is an error
    have hout : outcome = .failed := by simpa using hfailed
    rw [if_neg (by simp [hout])]
    trivial

/-- Files may lie in one more place of the job's credential, or in one less. -/
theorem InstallInv.remote (places : List Place) (stage : Stage)
    (hlocal : ∀ n, Covers host n (w.remote job.node.tokenHash) →
      StageOk host n job.node (w.remote job.node.tokenHash) work.stage →
      Covers host n places ∧ StageOk host n job.node places stage) :
    InstallInv host (InstallWorld.setStage
      { w with remote := Function.update w.remote job.node.tokenHash places } k work stage) := by
  refine h.jobMove hk hw hrun keepsIdentity_id rfl rfl rfl rfl (updateRow_id _ _).symm ?_ ?_
  · intro t ht
    exact update_of_ne ht _ _
  · intro n _ _ hcov hst
    show Covers host n (Function.update w.remote job.node.tokenHash places job.node.tokenHash)
      ∧ StageOk host n job.node
        (Function.update w.remote job.node.tokenHash places job.node.tokenHash) stage
    rw [update_self]
    exact hlocal n hcov hst

/-! ### One lemma for each. -/

theorem InstallInv.begun (hstage : work.stage = .starting) (now : Time) (applied : Bool) :
    InstallInv host ((w.write applied job.node
      (setDeployment "installing" job.node.installedHash job.node.configHash now)).setStage
        k work .resolving) := by
  refine h.write hk hw hrun applied (keepsIdentity_deployment _ _ _ _) .resolving ?_ ?_
  · intro _ n places _ hcov hst
    rw [hstage] at hst
    exact ⟨hcov.congr rfl, hst⟩
  · intro _ n places hst
    rw [hstage] at hst
    exact hst

variable {plan : Plan}

theorem InstallInv.planned (hstage : work.stage = .resolving) (hplan : PlanOk host job.node plan) :
    InstallInv host (w.setStage k work (.planned plan)) := by
  refine h.setStage hk hw hrun _ fun n places hst => ?_
  rw [hstage] at hst
  exact ⟨hst, hplan⟩

theorem InstallInv.tracked (hstage : work.stage = .planned plan) (outcome : Outcome) :
    InstallInv host (w.mustWrite k job work outcome (trackInstallLayouts · plan.targets)
      (.tracked plan)) := by
  refine h.mustWrite hk hw hrun outcome (keepsIdentity_track _) _ ?_
  intro n places hid hcov hst
  rw [hstage] at hst
  have htracked := tracked_of_planned hid hcov hst.1 hst.2
  exact ⟨htracked.covers, htracked⟩

theorem InstallInv.touched (hstage : work.stage = .tracked plan) :
    InstallInv host (w.put job.node.tokenHash (host.place plan.layout)) := by
  obtain ⟨hlt, heq⟩ := List.getElem?_eq_some_iff.mp hw
  have hput := h.remote hk hw hrun
    (host.place plan.layout :: w.remote job.node.tokenHash) work.stage ?_
  · -- the stage is set to what it is
    have hsame : w.works.set k { work with stage := work.stage } = w.works := by
      rw [← heq, set_getElem_self]
    rw [InstallWorld.setStage, hsame] at hput
    exact hput
  · intro n hcov hst
    rw [hstage] at hst ⊢
    exact ⟨hst.put.covers, hst.put⟩

theorem InstallInv.activated (hstage : work.stage = .tracked plan) :
    InstallInv host ((w.put job.node.tokenHash (host.place plan.layout)).setStage k work
      (.activated plan plan.retirements)) := by
  refine h.remote hk hw hrun _ _ fun n hcov hst => ?_
  rw [hstage] at hst
  exact ⟨hst.put.covers, hst.put⟩

theorem InstallInv.retired {old : AgentLayout} {left : List AgentLayout}
    (hstage : work.stage = .activated plan (old :: left)) :
    InstallInv host ((w.clear job.node.tokenHash (host.place old)).setStage k work
      (.activated plan left)) := by
  refine h.remote hk hw hrun _ _ fun n hcov hst => ?_
  rw [hstage] at hst
  exact ⟨hst.retired.covers, hst.retired⟩

theorem InstallInv.recorded (hstage : work.stage = .activated plan []) (outcome : Outcome) :
    InstallInv host (w.mustWrite k job work outcome (setInstallPlatformLayout · plan.final)
      (.returned none)) := by
  refine h.mustWrite hk hw hrun outcome (keepsIdentity_set _) _ ?_
  intro n places _ _ hst
  rw [hstage] at hst
  exact ⟨hst.recorded, trivial⟩

theorem InstallInv.stored (err : Option RunError) (state hash config : String) (now : Time)
    (applied : Bool) :
    InstallInv host ((w.write applied job.node (setDeployment state hash config now)).setStage
      k work (.stored err)) := by
  refine h.write hk hw hrun applied (keepsIdentity_deployment _ _ _ _) _ ?_ ?_
  · intro _ n places _ hcov _
    exact ⟨hcov.congr rfl, trivial⟩
  · intro _ n places _
    trivial

end

/-- The job is over; the others go on. -/
theorem InstallInv.complete (h : InstallInv host w) {m : Scheduler} {err : Option RunError}
    {now : Time} {random : Nat} (hs : w.sched.complete k err now random = some m) :
    InstallInv host { w with sched := m } := by
  obtain ⟨job₀, hk₀, -, -, hjobs, -⟩ := complete_cases hs
  refine ⟨h.sched.complete hs, h.row_issued, h.read_issued, ?_, ?_, h.unissued, h.covered, ?_⟩
  · intro job' hmem
    change job' ∈ m.jobs at hmem
    rw [hjobs] at hmem
    rcases mem_or_eq_of_mem_set hmem with hmem | rfl
    · exact h.job_issued job' hmem
    · exact h.job_issued job₀ (mem_of_getElem? hk₀)
  · show w.works.length = m.jobs.length
    rw [hjobs, length_set]
    exact h.works
  · intro i job' wk hi hwk hrun'
    exact h.stage i job' wk (complete_running hs hi hrun').2 hwk hrun'

/-- **Every step of a job keeps the evidence.** -/
theorem InstallInv.jobStep {w' : InstallWorld} (h : InstallInv host w)
    (hk : w.sched.jobs[k]? = some job) (hw : w.works[k]? = some work) (hrun : job.runs = true)
    (hs : w.jobStep host k job work op = some w') : InstallInv host w' := by
  cases op <;> simp only [InstallWorld.jobStep] at hs
  case begin _ now applied =>
    split at hs
    · next hstage =>
      cases hs
      exact h.begun hk hw hrun hstage now applied
    · cases hs
  case planLinux _ uid home root found =>
    split at hs
    · next hstage =>
      obtain ⟨plan, hplan, rfl⟩ := map_eq_some_iff.mp hs
      exact h.planned hk hw hrun hstage (linuxPlan_ok hplan)
    · cases hs
  case planWindows _ home =>
    split at hs
    · next hstage =>
      obtain ⟨plan, hplan, rfl⟩ := map_eq_some_iff.mp hs
      exact h.planned hk hw hrun hstage (windowsPlan_ok hplan)
    · cases hs
  case track _ outcome =>
    split at hs
    · next plan hstage =>
      cases hs
      exact h.tracked hk hw hrun hstage outcome
    · cases hs
  case touch _ =>
    split at hs
    · next plan hstage =>
      cases hs
      exact h.touched hk hw hrun hstage
    · cases hs
  case activate _ =>
    split at hs
    · next plan hstage =>
      cases hs
      exact h.activated hk hw hrun hstage
    · cases hs
  case retire _ ok =>
    split at hs
    · next plan old left hstage =>
      split at hs <;> cases hs
      · exact h.retired hk hw hrun hstage
      · exact h.setStage hk hw hrun _ fun _ _ _ => trivial
    · cases hs
  case record _ outcome =>
    split at hs
    · next plan hstage =>
      cases hs
      exact h.recorded hk hw hrun hstage outcome
    · cases hs
  case fail _ err =>
    split at hs <;> cases hs <;> exact h.setStage hk hw hrun _ fun _ _ _ => trivial
  case store _ now applied =>
    split at hs
    · cases hs
      exact h.stored hk hw hrun _ _ _ _ now applied
    · cases hs
  case complete _ now random =>
    split at hs
    · obtain ⟨m, hm, rfl⟩ := map_eq_some_iff.mp hs
      exact h.complete hm
    · cases hs
  all_goals cases hs

end

/-! ## §6. Every run. -/

section
variable {host : Host} {w w' : InstallWorld}

/-- A new credential: nothing of it lies anywhere, and no job has it. -/
theorem InstallInv.issue (h : InstallInv host w) {hash : TokenHash}
    {installID : Bytes} {target : String} (pass : Nat) (hfresh : w.issued hash = none) :
    InstallInv host { w with
      rows := Function.update w.rows s (some (newNode s installID target hash))
      issued := Function.update w.issued hash (some (s, installID))
      reads := w.reads ++ [(pass, newNode s installID target hash)] } := by
  -- a credential that was issued before is another one
  have hkeep : ∀ t x, w.issued t = some x →
      Function.update w.issued hash (some (s, installID)) t = some x := by
    intro t x ht
    have hne : t ≠ hash := by
      rintro rfl
      rw [hfresh] at ht
      cases ht
    rw [update_of_ne hne]
    exact ht
  have hrow : ∀ s' n', Function.update w.rows s (some (newNode s installID target hash)) s' = some n'
      → (s' = s ∧ n' = newNode s installID target hash) ∨ (s' ≠ s ∧ w.rows s' = some n') := by
    intro s' n' hn'
    by_cases hs : s' = s
    · subst hs
      rw [update_self] at hn'
      exact .inl ⟨rfl, (some.inj hn').symm⟩
    · rw [update_of_ne hs] at hn'
      exact .inr ⟨hs, hn'⟩
  refine ⟨h.sched, ?_, ?_, ?_, h.works, ?_, ?_, ?_⟩
  · intro s' n' hn'
    rcases hrow s' n' hn' with ⟨rfl, rfl⟩ | ⟨-, hn⟩
    · exact ⟨rfl, update_self ..⟩
    · obtain ⟨h1, h2⟩ := h.row_issued s' n' hn
      exact ⟨h1, hkeep _ _ h2⟩
  · intro r hr
    rcases mem_append.mp hr with hr | hr
    · exact hkeep _ _ (h.read_issued r hr)
    · rw [mem_singleton.mp hr]
      exact update_self ..
  · intro job hjob
    exact hkeep _ _ (h.job_issued job hjob)
  · intro t ht
    refine h.unissued t ?_
    by_cases hne : t = hash
    · rw [hne]
      exact hfresh
    · change Function.update w.issued hash (some (s, installID)) t = none at ht
      rw [update_of_ne hne] at ht
      exact ht
  · intro s' n' hn'
    rcases hrow s' n' hn' with ⟨rfl, rfl⟩ | ⟨-, hn⟩
    · intro place hp
      change place ∈ w.remote hash at hp
      rw [h.unissued hash hfresh] at hp
      cases hp
    · exact h.covered s' n' hn
  · intro k job work hk hw hrun n' hn' htok
    rcases hrow _ n' hn' with ⟨-, rfl⟩ | ⟨-, hn⟩
    · -- the job's credential was issued before this one
      have hjob := h.job_issued job (mem_of_getElem? hk)
      rw [← htok] at hjob
      change w.issued hash = _ at hjob
      rw [hfresh] at hjob
      cases hjob
    · exact h.stage k job work hk hw hrun n' hn htok

theorem InstallInv.read (h : InstallInv host w) (pass : Nat)
    (hn : w.rows s = some n) : InstallInv host { w with reads := w.reads ++ [(pass, n)] } := by
  refine { h with read_issued := ?_ }
  intro r hr
  rcases mem_append.mp hr with hr | hr
  · exact h.read_issued r hr
  · rw [mem_singleton.mp hr]
    obtain ⟨hs, hissued⟩ := h.row_issued s n hn
    rw [hs]
    exact hissued

theorem InstallInv.ensure (h : InstallInv host w) {pass : Nat} {target : String}
    {hash : TokenHash} {installID : Bytes}
    (hs : w.ensure pass s target hash installID = some w') : InstallInv host w' := by
  simp only [InstallWorld.ensure] at hs
  split at hs
  · next n hn =>
    split at hs
    · cases hs
      exact h.read pass hn
    · split at hs
      · next hfresh =>
        cases hs
        exact h.issue pass hfresh
      · cases hs
  · split at hs
    · next hfresh =>
      cases hs
      exact h.issue pass hfresh
    · cases hs

/-- A job starts, with the layouts of the row if it has the row's credential. -/
theorem InstallInv.start (h : InstallInv host w) {pass epoch : Nat} {key : String}
    {ctxErr : Bool} {now : Time} {work : Work} (hread : (pass, n) ∈ w.reads)
    (hadm : w.sched.admits n epoch key ctxErr now = true) (hstage : work.stage = .starting)
    (hcurrent : ∀ row, w.rows n.serverID = some row → row.tokenHash = n.tokenHash →
      SameLayouts row n) :
    InstallInv host { w with sched := w.sched.start n epoch key pass
                             works := w.works ++ [work] } := by
  obtain ⟨hfree, hopen, -, hroom, -⟩ := admits_iff.mp hadm
  refine ⟨h.sched.start pass hfree hopen hroom, h.row_issued, h.read_issued, ?_, ?_, h.unissued,
    h.covered, ?_⟩
  · intro job hjob
    rcases mem_append.mp hjob with hjob | hjob
    · exact h.job_issued job hjob
    · rw [mem_singleton.mp hjob]
      exact h.read_issued _ hread
  · show (w.works ++ [work]).length = (w.sched.jobs ++ [_]).length
    rw [length_append, length_append, h.works]
    rfl
  · intro k job wk hk hwk hrun row hrow htok
    rcases getElem?_concat_cases hk with hk | ⟨hlen, rfl⟩
    · have hlt : k < w.works.length := by
        rw [h.works]
        exact (List.getElem?_eq_some_iff.mp hk).1
      change (w.works ++ [work])[k]? = some wk at hwk
      rw [getElem?_append_left hlt] at hwk
      exact h.stage k job wk hk hwk hrun row hrow htok
    · rcases getElem?_concat_cases hwk with hwk | ⟨-, rfl⟩
      · have := (List.getElem?_eq_some_iff.mp hwk).1
        rw [h.works] at this
        omega
      · rw [hstage]
        exact hcurrent row hrow htok

/-- Scheduler steps that neither start nor end a job. -/
theorem schedStep_jobs {m m' : Scheduler} {op : SchedOp} (hop : op.keepsJobs = true)
    (h : schedStep m op = some m') : m'.jobs = m.jobs := by
  cases op with
  | schedule pass n key ctxErr now => cases hop
  | complete k err now random => cases hop
  | fence r ctxErr =>
    simp only [schedStep, Scheduler.fence] at h
    split at h
    · split at h
      · split at h
        · cases h
          rfl
        · split at h <;>
            · cases h
              rfl
      · cases h
    · cases h
  | wake r ctxDone =>
    simp only [schedStep, Scheduler.wake] at h
    split at h
    · split at h
      · split at h
        · cases h
          rfl
        · split at h
          · cases h
            rfl
          · cases h
      · cases h
    · cases h
  | cancelReturned r =>
    simp only [schedStep, Scheduler.cancelReturned] at h
    split at h
    · split at h
      · cases h
        rfl
      · cases h
    · cases h
  | finish r =>
    simp only [schedStep, Scheduler.finish] at h
    split at h
    · split at h
      · cases h
        rfl
      · cases h
        rfl
      · cases h
    · cases h
  | _ =>
    cases h
    rfl

/-- A step of a job is enabled only while the job runs. -/
theorem installStep_job {k : Nat} (hop : op.job? = some k) (hs : installStep host w op = some w') :
    ∃ job work, w.sched.jobs[k]? = some job ∧ w.works[k]? = some work ∧ job.runs = true
      ∧ w.jobStep host k job work op = some w' := by
  have hgo : (w.job k).bind (fun jw => w.jobStep host k jw.1 jw.2 op) = some w' := by
    cases op <;> cases hop <;> exact hs
  obtain ⟨⟨job, work⟩, hjob, hstep⟩ := bind_eq_some_iff.mp hgo
  unfold InstallWorld.job at hjob
  split at hjob
  · next j wk hj hwk =>
    split at hjob
    · cases hjob
    · next hdone =>
      cases hjob
      exact ⟨_, _, hj, hwk, by simpa [InstallJob.runs] using hdone, hstep⟩
  · cases hjob

/-- **Every step keeps the evidence**, if an admitted job is given the current
row. -/
theorem InstallInv.step (hcur : AdmitsCurrent w op) (h : InstallInv host w)
    (hs : installStep host w op = some w') : InstallInv host w' := by
  cases hop : op.job? with
  | some k =>
    obtain ⟨job, work, hk, hw, hrun, hstep⟩ := installStep_job hop hs
    exact h.jobStep hk hw hrun hstep
  | none =>
    cases op with
    | ensure pass s target hash installID => exact h.ensure hs
    | schedule read desired config revision lastContact now ctxErr =>
      simp only [installStep, InstallWorld.schedule] at hs
      split at hs
      · cases hs
      · next pass n hread =>
        split at hs
        · cases hs
        · next epoch hpass =>
          split at hs
          · next hneed =>
            split at hs
            · next hadm =>
              cases hs
              exact h.start (mem_of_getElem? hread) hadm rfl
                (hcur pass n epoch hread hpass hneed hadm)
            · cases hs
              exact h
          · cases hs
            exact h
    | sched op =>
      simp only [installStep] at hs
      split at hs
      · next hkeep =>
        obtain ⟨m, hm, rfl⟩ := map_eq_some_iff.mp hs
        have hjobs := schedStep_jobs hkeep hm
        refine ⟨h.sched.step hm, h.row_issued, h.read_issued, ?_, ?_, h.unissued, h.covered, ?_⟩
        · show ∀ job ∈ m.jobs, _
          rw [hjobs]
          exact h.job_issued
        · show w.works.length = m.jobs.length
          rw [hjobs]
          exact h.works
        · intro k job work hk
          change m.jobs[k]? = some job at hk
          rw [hjobs] at hk
          exact h.stage k job work hk
      · cases hs
    | delete s =>
      cases hs
      -- a row that is still there was there before
      have hrow : ∀ s' n, Function.update w.rows s none s' = some n → w.rows s' = some n := by
        intro s' n hn
        by_cases heq : s' = s
        · subst heq
          rw [update_self] at hn
          cases hn
        · rw [update_of_ne heq] at hn
          exact hn
      exact { h with
        row_issued := fun s' n hn => h.row_issued s' n (hrow s' n hn)
        covered := fun s' n hn => h.covered s' n (hrow s' n hn)
        stage := fun k job work hk hw hrun n hn => h.stage k job work hk hw hrun n (hrow _ n hn) }
    | crash =>
      cases hs
      refine ⟨newScheduler_inv, h.row_issued, by simp, by simp [newScheduler], rfl, h.unissued,
        h.covered, ?_⟩
      intro k job work hk
      simp [newScheduler] at hk
    | _ => cases hop

theorem installInv_init (h : (installSystem host).init w) : InstallInv host w := by
  obtain ⟨hsched, hworks, hreads, hrows, hun⟩ := h
  refine ⟨hsched ▸ newScheduler_inv, ?_, by simp [hreads], by simp [hsched, newScheduler],
    by simp [hworks, hsched, newScheduler], hun, ?_, by simp [hsched, newScheduler]⟩
  · intro s n hn
    obtain ⟨h1, h2, -⟩ := hrows s n hn
    exact ⟨h1, h2⟩
  · intro s n hn
    exact (hrows s n hn).2.2

/-- A write of a job leaves rows of other credentials alone. -/
theorem updateRow_other {rows : ServerID → Option AgentNode} (hn : rows s = some n)
    (htok : n.tokenHash ≠ node.tokenHash) : updateRow rows node f s = some n := by
  cases hrow : rows node.serverID with
  | none =>
    simp only [updateRow, hrow]
    exact hn
  | some r =>
    simp only [updateRow, hrow]
    split
    · next hr =>
      have hs : s ≠ node.serverID := by
        rintro rfl
        rw [hrow] at hn
        cases hn
        exact htok hr
      rw [update_of_ne hs]
      exact hn
    · exact hn

theorem write_other {b : Bool} (hn : w.rows s = some n) (htok : n.tokenHash ≠ node.tokenHash) :
    (w.write b node f).rows s = some n := by
  unfold InstallWorld.write
  split
  · exact updateRow_other hn htok
  · exact hn

/-- **A job with a replaced credential changes no record.** -/
theorem jobStep_other {k : Nat} {job : InstallJob} {work : Work}
    (hs : w.jobStep host k job work op = some w')
    (hn : w.rows s = some n) (htok : n.tokenHash ≠ job.node.tokenHash) : w'.rows s = some n := by
  cases op <;> simp only [InstallWorld.jobStep] at hs
  case begin _ now applied | track _ outcome | record _ outcome | store _ now applied =>
    split at hs
    · cases hs
      exact write_other hn htok
    · cases hs
  case planLinux _ uid home root found | planWindows _ home =>
    split at hs
    · obtain ⟨plan, -, rfl⟩ := map_eq_some_iff.mp hs
      exact hn
    · cases hs
  case complete _ now random =>
    split at hs
    · obtain ⟨m, -, rfl⟩ := map_eq_some_iff.mp hs
      exact hn
    · cases hs
  case retire _ ok =>
    split at hs
    · split at hs <;>
        · cases hs
          exact hn
    · cases hs
  case touch _ | activate _ =>
    split at hs
    · cases hs
      exact hn
    · cases hs
  case fail _ err =>
    split at hs
    · cases hs
      exact hn
    · cases hs
    · cases hs
    · cases hs
      exact hn
  all_goals cases hs

end

/-- **No installation is forgotten, if jobs start from the current row.**  In
every run in which each admitted job is given the layouts its row has at that
moment, whatever fails and whenever the Hub dies, a row knows every place on
which an agent of its credential may lie; and in every run, whatever jobs are
given, a step of a job leaves a row with another credential as it is. -/
theorem layouts_remembered (host : Host) (w₀ w : InstallWorld) (ops : List InstallOp)
    (hinit : (installSystem host).init w₀) (hrun : (installSystem host).run w₀ ops = some w) :
    ((installSystem host).Along AdmitsCurrent w₀ ops →
        ∀ s n, w.rows s = some n → Covers host n (w.remote n.tokenHash))
      ∧ ∀ op w' k job, installStep host w op = some w' → op.job? = some k →
          w.sched.jobs[k]? = some job →
          ∀ s n, w.rows s = some n → n.tokenHash ≠ job.node.tokenHash → w'.rows s = some n := by
  refine ⟨fun hcur => ?_, ?_⟩
  · have hinv : InstallInv host w :=
      System.along_invariant (P := AdmitsCurrent) (I := InstallInv host)
        (fun s e s' hP hI hs => hI.step hP hs) ops w₀ w hcur (installInv_init hinit) hrun
    exact hinv.covered
  · intro op w' k job hs hop hk s n hn htok
    obtain ⟨job', work, hk', -, -, hstep⟩ := installStep_job hop hs
    rw [hk] at hk'
    cases hk'
    exact jobStep_other hstep hn htok

/-! ## §7. A job that starts from an old row. -/

/-- Homes that end in different letters are different directories. -/
def plainHost : Host where
  dir home := (home.getLast?.getD 0).toNat
  fold := id

/-- One server, its agent installed for account 1000. -/
def oneServer : InstallWorld where
  sched := newScheduler
  works := []
  reads := []
  rows := fun s => if s = 7 then
      some { newNode 7 (ascii "i") "t" "h" with
        installUID := some 1000, installHome := some (ascii "/home/a") }
    else none
  issued := fun t => if t = "h" then some (7, ascii "i") else none
  remote := fun t => if t = "h" then [.user 1000 97] else []

theorem oneServer_init : (installSystem plainHost).init oneServer := by
  refine ⟨rfl, rfl, rfl, ?_, ?_⟩
  · intro s n hn
    by_cases hs : s = 7
    · subst hs
      cases hn
      refine ⟨rfl, rfl, ?_⟩
      intro place hp
      rw [mem_singleton.mp hp]
      exact ⟨_, mem_cons_self, by decide +kernel⟩
    · simp [oneServer, hs] at hn
  · intro t ht
    by_cases heq : t = "h"
    · simp [oneServer, heq] at ht
    · simp [oneServer, heq]

/-- A job for account 1001 writes to the host and dies with the Hub. -/
def interruptedJob : List InstallOp :=
  [.sched .snapshot, .ensure 0 7 "t" "x" [], .schedule 0 "d" "c" 1 0 0 false,
    .begin 0 1 true, .planLinux 0 1001 (ascii "/home/b") false [], .track 0 .ok, .touch 0, .crash]

/-- The row knows both places. -/
theorem layouts_remembered_interrupted :
    ∃ w n, (installSystem plainHost).run oneServer interruptedJob = some w
      ∧ w.rows 7 = some n ∧ w.remote "h" = [.user 1001 98, .user 1000 97]
      ∧ Covers plainHost n (w.remote n.tokenHash) := by
  have hrun : (installSystem plainHost).run oneServer interruptedJob = some _ := rfl
  have hcur : (installSystem plainHost).Along AdmitsCurrent oneServer interruptedJob := by
    refine System.along_cons rfl trivial (System.along_cons rfl trivial (System.along_cons rfl ?_ ?_))
    · intro pass n epoch hread _ _ _ row hrow _
      cases hread
      cases hrow
      exact ⟨rfl, rfl, rfl, rfl⟩
    · -- no other step admits a job
      exact System.along_cons rfl trivial (System.along_cons rfl trivial (System.along_cons rfl trivial
        (System.along_cons rfl trivial (System.along_cons rfl trivial trivial))))
  exact ⟨_, _, hrun, rfl, rfl,
    (layouts_remembered plainHost _ _ _ oneServer_init hrun).1 hcur 7 _ rfl⟩

/-- A second pass reads the row before the first job tracks its layout, and
its own job starts after the first one has failed: the connection has been
edited meanwhile, so its retry key is another one. -/
def overlappingPasses : List InstallOp :=
  [.sched .snapshot, .ensure 0 7 "t" "x" [], .schedule 0 "d" "c" 1 0 0 false,
    .begin 0 1 true, .planLinux 0 1001 (ascii "/home/b") false [],
    .sched .snapshot, .ensure 1 7 "t" "x" [],
    .track 0 .ok, .touch 0, .fail 0 .other, .store 0 2 true, .complete 0 3 0,
    .schedule 1 "d" "c" 2 0 4 false, .begin 1 5 true,
    .planLinux 1 0 (ascii "/root") true [],
    .track 1 .ok, .activate 1, .retire 1 true, .record 1 .ok]

/-- The second job retires what its old record knew and clears the pending
layouts: the files of the first job are on no list. -/
theorem stale_snapshot_forgets_layout :
    (installSystem plainHost).init oneServer
      ∧ ∃ w n, (installSystem plainHost).run oneServer overlappingPasses = some w
        ∧ w.rows 7 = some n ∧ n.tokenHash = "h" ∧ Place.user 1001 98 ∈ w.remote "h"
        ∧ ¬ Covers plainHost n (w.remote n.tokenHash) := by
  have hrun : (installSystem plainHost).run oneServer overlappingPasses = some _ := rfl
  refine ⟨oneServer_init, _, _, hrun, rfl, rfl, by decide +kernel, ?_⟩
  intro hcov
  obtain ⟨l, hl, hplace⟩ := hcov (.user 1001 98) (by decide +kernel)
  revert hplace
  revert l
  decide +kernel

end Talus.Resident
