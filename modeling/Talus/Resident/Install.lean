/-
  Talus.Resident.Install
  **INSTALL JOBS, THE ROW THEY KEEP AND THE HOST THEY WRITE TO**
  (`installJob`, `install`, `installWindows` of `service/resident_deploy.go`
  and `service/resident_windows_deploy.go`, the writes of
  `repository/agent_node.go`).

  A job works from the node record its pass has read:

      resolve    the account, its layout, the layouts to retire
      track      every one of them goes into the row (`TrackInstallLayouts`)
      touch      files are staged, the service is activated
      retire     the old layouts are uninstalled, one after the other
      record     the row names the new layout and no pending one

  It can fail after any step, and the Hub can die between any two.  The world
  of `installSystem` holds the scheduler of `Talus.Resident.Scheduler`, one
  stage per job, the table of rows, and for each credential the PLACES of the
  host on which files of its agent may lie: a place enters when a job first
  writes there and leaves when a retirement of it succeeds.
-/
import Talus.Resident.Scheduler

namespace Talus.Resident

open Talus.Base

/-! ## §1. The host. -/

/-- What a host makes of paths: the directory a home leads to, and the one
spelling of each path that differs only in case. -/
structure Host where
  dir : Bytes → Nat
  fold : Bytes → Bytes

/-- Where an installation lies. -/
inductive Place
  | windows (base : Bytes)
  | root
  | user (uid : Int) (dir : Nat)
  deriving Repr, DecidableEq

def Host.place (host : Host) (l : AgentLayout) : Place :=
  if l.os = .windows then .windows (host.fold l.base)
  else if l.uid = 0 then .root
  else .user l.uid (host.dir l.home)

/-- `test a -ef b`. -/
def Host.sameFile (host : Host) : SameFile := fun a b => some (host.dir a == host.dir b)

/-! ## §2. What a job resolves before it writes. -/

structure Plan where
  /-- where this job installs -/
  layout : AgentLayout
  retirements : List AgentLayout
  /-- for `TrackInstallLayouts` -/
  targets : List AgentInstallLayout
  /-- for `SetInstallPlatformLayout` -/
  final : AgentInstallLayout
  deriving Repr, DecidableEq

/-- The accounts of `parseDiscoveredInstallLayouts`, one for each uid and
base. -/
def addDiscovered (installID : Bytes) (acc : List AgentLayout) (account : Int × Bytes) :
    List AgentLayout :=
  let l := agentLayoutFor installID account.1 (Path.clean account.2)
  if acc.any fun e => e.uid == l.uid && Path.clean e.base == Path.clean l.base then acc
  else acc ++ [l]

/-- `discoverInstallLayouts`; `root` says whether the scan saw every account.
The Windows branch asks a Linux host for a Windows context and fails. -/
def discoverInstallLayouts (n : AgentNode) (root : Bool) (found : List (Int × Bytes)) :
    Option (List AgentLayout) :=
  if n.installOS = .windows then none
  else if found.all fun a => decide (0 ≤ a.1) && validInstallHome a.2 then
    let layouts := found.foldl (addDiscovered n.installID) []
    if !root ∧ layouts = [] ∧ (n.deployment = "ready" ∨ n.installedHash ≠ "") then none
    else some layouts
  else none

/-- The layouts a Linux job may have to retire. -/
def previousLayouts (n : AgentNode) (root : Bool) (found : List (Int × Bytes)) :
    Option (List AgentLayout) :=
  if knownInstallLayouts n = [] then discoverInstallLayouts n root found
  else some (knownInstallLayouts n)

/-- `install` up to `TrackInstallLayouts`, logged in as `uid` with `home`. -/
def Host.linuxPlan (host : Host) (n : AgentNode) (uid : Int) (home : Bytes) (root : Bool)
    (found : List (Int × Bytes)) : Option Plan :=
  if 0 ≤ uid ∧ validInstallHome home = true then
    let layout := agentLayoutFor n.installID uid home
    match previousLayouts n root found with
    | none => none
    | some previous =>
      (residentInstallRetirements host.sameFile layout previous).map fun retirements =>
        { layout := layout
          retirements := retirements
          targets := previous.map (fun old => ⟨old.os, old.uid, old.home⟩)
            ++ [⟨.empty, layout.uid, layout.home⟩]
          final := ⟨.empty, uid, layout.home⟩ }
  else none

/-- `installWindows` up to `TrackInstallLayouts`. -/
def Host.windowsPlan (host : Host) (n : AgentNode) (home : Bytes) : Option Plan :=
  let layout := windowsAgentLayout n.installID home
  if validWindowsHome home = true
      ∧ (knownInstallLayouts n).all (fun old =>
          decide (old.os = .windows) && host.fold old.base == host.fold layout.base) = true then
    some { layout := layout
           retirements := []
           targets := [⟨.windows, 0, home⟩]
           final := ⟨.windows, 0, home⟩ }
  else none

/-! ## §3. The world. -/

/-- Program counter of a job. -/
inductive Stage
  /-- before the first `Deployment` write -/
  | starting
  | resolving
  | planned (plan : Plan)
  /-- the row has every layout: the job may write to the host -/
  | tracked (plan : Plan)
  /-- the new service runs; `left` is still to be retired -/
  | activated (plan : Plan) (left : List AgentLayout)
  /-- `install` has returned -/
  | returned (err : Option RunError)
  /-- … and its outcome is in the row -/
  | stored (err : Option RunError)
  deriving Repr, DecidableEq

structure Work where
  desired : String
  config : String
  stage : Stage
  deriving Repr, DecidableEq

/-- `works` runs beside `sched.jobs`; `reads` are the records that passes have
read.  `issued` and `remote` are ghosts: the server and installation id each
credential was made for, and the places its agents may lie on. -/
structure InstallWorld where
  sched : Scheduler
  works : List Work
  reads : List (Nat × AgentNode)
  rows : ServerID → Option AgentNode
  issued : TokenHash → Option (ServerID × Bytes)
  remote : TokenHash → List Place

/-- How a write to the database ends for its caller. -/
inductive Outcome
  | ok
  | failed
  /-- an error, though the write is there -/
  | lost
  deriving Repr, DecidableEq

/-- The rows after an update `WHERE server_id = ? AND token_hash = ?`. -/
def updateRow (rows : ServerID → Option AgentNode) (node : AgentNode)
    (f : AgentNode → AgentNode) : ServerID → Option AgentNode :=
  match rows node.serverID with
  | some n =>
    if n.tokenHash = node.tokenHash then Function.update rows node.serverID (some (f n))
    else rows
  | none => rows

/-- The `WHERE` clause finds a row. -/
def holdsRow (rows : ServerID → Option AgentNode) (node : AgentNode) : Bool :=
  match rows node.serverID with
  | some n => n.tokenHash == node.tokenHash
  | none => false

/-- `Deployment`. -/
def setDeployment (state hash config : String) (now : Time) (n : AgentNode) : AgentNode :=
  { n with deployment := state, installedHash := hash, configHash := config
           lastAttempt := some now }

/-- The state `installJob` stores. -/
def deploymentState : Option RunError → String
  | none => "ready"
  | some .pullProgress | some .pullBusy => "pending"
  | some _ => "failed"

/-- `residentInstallNeeded`. -/
def residentInstallNeeded (n : AgentNode) (desired config : String) (lastContact now : Time) :
    Bool :=
  !((recordedLayout n).isSome && n.pendingInstallLayouts.isEmpty && n.deployment == "ready"
    && n.installedHash == desired && n.configHash == config
    && decide (now - lastContact < 90 * second))

/-- The retry key of a pass. -/
def installKey (desired config : String) (revision : Nat) : String :=
  desired ++ ":" ++ config ++ ":" ++ toString revision

/-! ## §4. Steps. -/

inductive InstallOp
  /-- a pass calls `Ensure`: `target` is what the server's row asks for now,
  `hash` and `installID` are drawn if a credential has to be made -/
  | ensure (pass : Nat) (s : ServerID) (target : String) (hash : TokenHash) (installID : Bytes)
  /-- … and asks for a job with what it has read -/
  | schedule (read : Nat) (desired config : String) (revision : Nat) (lastContact now : Time)
      (ctxErr : Bool)
  | begin (k : Nat) (now : Time) (applied : Bool)
  | planLinux (k : Nat) (uid : Int) (home : Bytes) (root : Bool) (found : List (Int × Bytes))
  | planWindows (k : Nat) (home : Bytes)
  | track (k : Nat) (outcome : Outcome)
  /-- a command that may write files of the new installation -/
  | touch (k : Nat)
  /-- the activation reports success -/
  | activate (k : Nat)
  | retire (k : Nat) (ok : Bool)
  | record (k : Nat) (outcome : Outcome)
  /-- a step of the job fails -/
  | fail (k : Nat) (err : RunError)
  /-- the last `Deployment` write -/
  | store (k : Nat) (now : Time) (applied : Bool)
  | complete (k : Nat) (now : Time) (random : Nat)
  /-- another step of the scheduler -/
  | sched (op : SchedOp)
  /-- the row is deleted with its server -/
  | delete (s : ServerID)
  /-- the Hub dies and starts again -/
  | crash
  deriving Repr

namespace InstallWorld

/-- The job `k`, still running, with its work. -/
def job (w : InstallWorld) (k : Nat) : Option (InstallJob × Work) :=
  match w.sched.jobs[k]?, w.works[k]? with
  | some job, some work => if job.done then none else some (job, work)
  | _, _ => none

def setStage (w : InstallWorld) (k : Nat) (work : Work) (stage : Stage) : InstallWorld :=
  { w with works := w.works.set k { work with stage := stage } }

/-- A write of job `k` to its row, if it is applied. -/
def write (w : InstallWorld) (applied : Bool) (node : AgentNode) (f : AgentNode → AgentNode) :
    InstallWorld :=
  if applied then { w with rows := updateRow w.rows node f } else w

/-- Files of the credential may lie at `place` from now on. -/
def put (w : InstallWorld) (hash : TokenHash) (place : Place) : InstallWorld :=
  { w with remote := Function.update w.remote hash (place :: w.remote hash) }

/-- … and no longer. -/
def clear (w : InstallWorld) (hash : TokenHash) (place : Place) : InstallWorld :=
  { w with remote := Function.update w.remote hash ((w.remote hash).filter (· ≠ place)) }

/-- `Ensure`. -/
def ensure (w : InstallWorld) (pass : Nat) (s : ServerID) (target : String) (hash : TokenHash)
    (installID : Bytes) : Option InstallWorld :=
  let issue (installID : Bytes) : Option InstallWorld :=
    if w.issued hash = none then
      let n := newNode s installID target hash
      some { w with
        rows := Function.update w.rows s (some n)
        issued := Function.update w.issued hash (some (s, installID))
        reads := w.reads ++ [(pass, n)] }
    else none
  match w.rows s with
  | some n =>
    if n.target = target then some { w with reads := w.reads ++ [(pass, n)] }
    else issue (if n.installID = [] then installID else n.installID)
  | none => issue installID

/-- A pass asks for a job with the record it has read. -/
def schedule (w : InstallWorld) (read : Nat) (desired config : String) (revision : Nat)
    (lastContact now : Time) (ctxErr : Bool) : Option InstallWorld :=
  match w.reads[read]? with
  | none => none
  | some (pass, n) =>
    match w.sched.passes[pass]? with
    | none => none
    | some epoch =>
      if residentInstallNeeded n desired config lastContact now then
        let key := installKey desired config revision
        if w.sched.admits n epoch key ctxErr now then
          some { w with sched := w.sched.start n epoch key pass
                        works := w.works ++ [⟨desired, config, .starting⟩] }
        else some w
      else some w

/-- A write on which the job depends: with an error the job returns. -/
def mustWrite (w : InstallWorld) (k : Nat) (job : InstallJob) (work : Work) (outcome : Outcome)
    (f : AgentNode → AgentNode) (next : Stage) : InstallWorld :=
  let found := holdsRow w.rows job.node
  (w.write (outcome != .failed) job.node f).setStage k work
    (if outcome = .ok ∧ found = true then next else .returned (some .other))

/-- The steps of a running job. -/
def jobStep (host : Host) (w : InstallWorld) (k : Nat) (job : InstallJob) (work : Work) :
    InstallOp → Option InstallWorld
  | .begin _ now applied =>
    if work.stage = .starting then
      some ((w.write applied job.node
        (setDeployment "installing" job.node.installedHash job.node.configHash now)).setStage
          k work .resolving)
    else none
  | .planLinux _ uid home root found =>
    if work.stage = .resolving then
      (host.linuxPlan job.node uid home root found).map fun plan =>
        w.setStage k work (.planned plan)
    else none
  | .planWindows _ home =>
    if work.stage = .resolving then
      (host.windowsPlan job.node home).map fun plan => w.setStage k work (.planned plan)
    else none
  | .track _ outcome =>
    match work.stage with
    | .planned plan =>
      some (w.mustWrite k job work outcome (trackInstallLayouts · plan.targets)
        (.tracked plan))
    | _ => none
  | .touch _ =>
    match work.stage with
    | .tracked plan => some (w.put job.node.tokenHash (host.place plan.layout))
    | _ => none
  | .activate _ =>
    match work.stage with
    | .tracked plan =>
      some ((w.put job.node.tokenHash (host.place plan.layout)).setStage k work
        (.activated plan plan.retirements))
    | _ => none
  | .retire _ ok =>
    match work.stage with
    | .activated plan (old :: left) =>
      if ok then
        some ((w.clear job.node.tokenHash (host.place old)).setStage k work
          (.activated plan left))
      else some (w.setStage k work (.returned (some .other)))
    | _ => none
  | .record _ outcome =>
    match work.stage with
    | .activated plan [] =>
      some (w.mustWrite k job work outcome (setInstallPlatformLayout · plan.final)
        (.returned none))
    | _ => none
  | .fail _ err =>
    match work.stage with
    | .returned none => some (w.setStage k work (.returned (some err)))
    | .returned _ | .stored _ => none
    | _ => some (w.setStage k work (.returned (some err)))
  | .store _ now applied =>
    match work.stage with
    | .returned err =>
      let hash := if err = none then work.desired else job.node.installedHash
      let config := if err = none then work.config else job.node.configHash
      some ((w.write applied job.node
        (setDeployment (deploymentState err) hash config now)).setStage k work (.stored err))
    | _ => none
  | .complete _ now random =>
    match work.stage with
    | .stored err => (w.sched.complete k err now random).map fun m => { w with sched := m }
    | _ => none
  | _ => none

end InstallWorld

/-- The job a step belongs to. -/
def InstallOp.job? : InstallOp → Option Nat
  | .begin k _ _ | .planLinux k _ _ _ _ | .planWindows k _ | .track k _ | .touch k | .activate k
  | .retire k _ | .record k _ | .fail k _ | .store k _ _ | .complete k _ _ => some k
  | _ => none

/-- Scheduling and completing a job go through `schedule` and `complete`. -/
def SchedOp.keepsJobs : SchedOp → Bool
  | .schedule .. | .complete .. => false
  | _ => true

def installStep (host : Host) (w : InstallWorld) (op : InstallOp) : Option InstallWorld :=
  match op with
  | .ensure pass s target hash installID => w.ensure pass s target hash installID
  | .schedule read desired config revision lastContact now ctxErr =>
    w.schedule read desired config revision lastContact now ctxErr
  | .sched op =>
    if op.keepsJobs then (schedStep w.sched op).map fun m => { w with sched := m } else none
  | .delete s => some { w with rows := Function.update w.rows s none }
  | .crash => some { w with sched := newScheduler, works := [], reads := [] }
  | op =>
    match op.job? with
    | none => none
    | some k => (w.job k).bind fun jw => w.jobStep host k jw.1 jw.2 op

/-! ## §5. What is remembered. -/

/-- The row knows each of the places. -/
def Covers (host : Host) (n : AgentNode) (places : List Place) : Prop :=
  ∀ place ∈ places, ∃ l ∈ knownInstallLayouts n, host.place l = place

/-- A Hub starts on a table whose rows know where their agents are. -/
def installSystem (host : Host) : System InstallWorld InstallOp where
  init w := w.sched = newScheduler ∧ w.works = [] ∧ w.reads = []
    ∧ (∀ s n, w.rows s = some n →
        n.serverID = s ∧ w.issued n.tokenHash = some (s, n.installID)
          ∧ Covers host n (w.remote n.tokenHash))
    ∧ ∀ t, w.issued t = none → w.remote t = []
  step := installStep host

/-- Two records name the same layouts. -/
def SameLayouts (a b : AgentNode) : Prop :=
  a.installOS = b.installOS ∧ a.installUID = b.installUID ∧ a.installHome = b.installHome
    ∧ a.pendingInstallLayouts = b.pendingInstallLayouts

/-- A job that is admitted gets the layouts of the row as it is now, unless
its credential has been replaced. -/
def AdmitsCurrent (w : InstallWorld) : InstallOp → Prop
  | .schedule read desired config revision lastContact now ctxErr =>
    ∀ pass n epoch, w.reads[read]? = some (pass, n) → w.sched.passes[pass]? = some epoch →
      residentInstallNeeded n desired config lastContact now = true →
      w.sched.admits n epoch (installKey desired config revision) ctxErr now = true →
      ∀ row, w.rows n.serverID = some row → row.tokenHash = n.tokenHash → SameLayouts row n
  | _ => True

end Talus.Resident
