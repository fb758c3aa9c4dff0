/-
  Talus.Resident.Layout
  **WHERE AN AGENT IS INSTALLED** (`model/agent_node.go`, the layout functions
  of `service/resident_deploy.go`, `repository/agent_node.go`).

  A node's row says where its last completed installation went
  (`installOS`, `installUID`, `installHome`) and which locations an unfinished
  one may have touched (`pendingInstallLayouts`).  An installation location is
  an account and its paths:

      uid 0       /var/lib/talus-agent/<id>, /etc/systemd/system
      uid u       <home>/.local/share/talus-agent/<id>, <home>/.config/systemd/user
      windows     <home>/Talus-Agent/<id>
-/
import Talus.Base.Path

namespace Talus.Resident

open Talus.Base List Option

abbrev ServerID := Nat

abbrev TokenHash := String

/-- Nanoseconds. -/
abbrev Time := Int

/-! ## §1. The row. -/

/-- The `OS` column; the empty string means legacy Linux. -/
inductive InstallOs
  | empty
  | linux
  | windows
  | other (name : String)
  deriving Repr, DecidableEq

/-- `model.AgentInstallLayout`. -/
structure AgentInstallLayout where
  os : InstallOs
  uid : Int
  home : Bytes
  deriving Repr, DecidableEq

/-- `model.AgentNode`. -/
structure AgentNode where
  serverID : ServerID
  installID : Bytes
  tokenHash : TokenHash
  target : String
  installedHash : String
  configHash : String
  deployment : String
  lastAttempt : Option Time
  lastContact : Option Time
  installOS : InstallOs
  installUID : Option Int
  installHome : Option Bytes
  pendingInstallLayouts : List AgentInstallLayout
  deriving Repr, DecidableEq

/-- The row `Ensure` writes for a new credential. -/
def newNode (s : ServerID) (installID : Bytes) (target : String) (hash : TokenHash) :
    AgentNode where
  serverID := s
  installID := installID
  tokenHash := hash
  target := target
  installedHash := ""
  configHash := ""
  deployment := "pending"
  lastAttempt := none
  lastContact := none
  installOS := .empty
  installUID := none
  installHome := none
  pendingInstallLayouts := []

/-! ## §2. Layouts. -/

/-- `agentLayout`. -/
structure AgentLayout where
  os : InstallOs
  uid : Int
  home : Bytes
  base : Bytes
  unitDir : Bytes
  deriving Repr, DecidableEq

def agentLayoutFor (installID : Bytes) (uid : Int) (home : Bytes) : AgentLayout :=
  let home := Path.clean home
  if uid = 0 then
    { os := .empty, uid := 0, home := home
      base := ascii "/var/lib/talus-agent/" ++ installID
      unitDir := ascii "/etc/systemd/system" }
  else
    { os := .empty, uid := uid, home := home
      base := home ++ ascii "/.local/share/talus-agent/" ++ installID
      unitDir := home ++ ascii "/.config/systemd/user" }

/-- `agentwindows.Layout.Base` under `windowsAgentLayout`. -/
def windowsAgentLayout (installID home : Bytes) : AgentLayout where
  os := .windows
  uid := 0
  home := home
  base := home ++ ascii "/Talus-Agent/" ++ installID
  unitDir := []

def validInstallHome (home : Bytes) : Bool :=
  home.length ≠ 0 && home.length ≤ 512 && home.head? == some Path.slash
    && !(home.any fun b => b == 13 || b == 10 || b == 0)
    && !(Path.parts home).contains [Path.dot, Path.dot]

/-- `isASCIILetter`. -/
def isAsciiLetter (b : UInt8) : Bool := (65 ≤ b && b ≤ 90) || (97 ≤ b && b ≤ 122)

/-- `agentwindows.ValidHome`. -/
def validWindowsHome (home : Bytes) : Bool :=
  3 ≤ home.length && home.length ≤ 240 && home[1]? == some 58 && home[2]? == some Path.slash
    && home.head?.any isAsciiLetter
    && !((home.drop 2).any fun b => (ascii "\\\r\n:*?\"<>|").contains b || b == 0)
    && (Path.parts (home.drop 3)).all (fun part =>
      !(part == [Path.dot, Path.dot] || part.getLast? == some Path.dot
        || part.getLast? == some 32))
    && Path.clean home == home

/-- `recordedLayout` of the columns `os`, `uid` and `home`. -/
def layoutOf (installID : Bytes) (os : InstallOs) (uid : Option Int) (home : Option Bytes) :
    Option AgentLayout :=
  match os, uid, home with
  | .windows, _, some home =>
    if validWindowsHome home then some (windowsAgentLayout installID home) else none
  | .empty, some uid, some home | .linux, some uid, some home =>
    if 0 ≤ uid ∧ validInstallHome home = true then some (agentLayoutFor installID uid home)
    else none
  | _, _, _ => none

/-- `recordedLayout`: the layout of the last completed installation. -/
def recordedLayout (n : AgentNode) : Option AgentLayout :=
  layoutOf n.installID n.installOS n.installUID n.installHome

def sameInstallLayout (a b : AgentLayout) : Bool :=
  a.os == b.os && a.uid == b.uid && a.base == b.base && a.unitDir == b.unitDir

/-- One round of the loop of `knownInstallLayouts`. -/
def addKnown (installID : Bytes) (layouts : List AgentLayout) (pending : AgentInstallLayout) :
    List AgentLayout :=
  match layoutOf installID pending.os (some pending.uid) (some pending.home) with
  | none => layouts
  | some layout =>
    if layouts.any fun existing => sameInstallLayout existing layout then layouts
    else layouts ++ [layout]

/-- `knownInstallLayouts`: the recorded layout and those of unfinished
installations. -/
def knownInstallLayouts (n : AgentNode) : List AgentLayout :=
  n.pendingInstallLayouts.foldl (addKnown n.installID) (recordedLayout n).toList

/-! ## §3. What an installation does to the row. -/

/-- `add` of `TrackInstallLayouts`. -/
def addLayout (layouts : List AgentInstallLayout) (layout : AgentInstallLayout) :
    List AgentInstallLayout :=
  let layout := { layout with home := Path.clean layout.home }
  if layouts.contains layout then layouts else layouts ++ [layout]

/-- The row after `TrackInstallLayouts`. -/
def trackInstallLayouts (current : AgentNode) (targets : List AgentInstallLayout) : AgentNode :=
  let recorded := match current.installUID, current.installHome with
    | some uid, some home => [⟨current.installOS, uid, home⟩]
    | _, _ => []
  { current with
    pendingInstallLayouts :=
      (recorded ++ current.pendingInstallLayouts ++ targets).foldl addLayout [] }

/-- The row after `SetInstallPlatformLayout`. -/
def setInstallPlatformLayout (current : AgentNode) (layout : AgentInstallLayout) : AgentNode :=
  { current with
    installOS := layout.os
    installUID := some layout.uid
    installHome := some (Path.clean layout.home)
    pendingInstallLayouts := [] }

/-- What `test old -ef new` answers: an error or an exit code above 1 is
`none`. -/
abbrev SameFile := Bytes → Bytes → Option Bool

/-- One round of `residentInstallRetirements`: `none` is its error. -/
def retires (sameFile : SameFile) (current old : AgentLayout) : Option Bool :=
  if sameInstallLayout old current then some false
  else if old.uid ≠ 0 ∧ current.uid ≠ 0 then
    match if old.home = current.home then some true else sameFile old.home current.home with
    | none => none
    -- the same directory: an alias of the current layout, or two accounts in one place
    | some true => if old.uid = current.uid then some false else none
    | some false => if old.uid = current.uid then none else some true
  else some true

def residentInstallRetirements (sameFile : SameFile) (current : AgentLayout) :
    List AgentLayout → Option (List AgentLayout)
  | [] => some []
  | old :: previous =>
    match retires sameFile current old with
    | none => none
    | some r =>
      (residentInstallRetirements sameFile current previous).map fun rest =>
        if r then old :: rest else rest

/-! ## §4. Layouts and the columns that name them. -/

/-- The layout is one a row can name: its own columns lead back to it. -/
def Named (installID : Bytes) (l : AgentLayout) : Prop :=
  layoutOf installID l.os (some l.uid) (some (Path.clean l.home)) = some l

variable {home : Bytes}

theorem validInstallHome_iff :
    validInstallHome home = true ↔
      home.length ≠ 0 ∧ home.length ≤ 512 ∧ Path.isRooted home = true
        ∧ (∀ b ∈ home, b ≠ 13 ∧ b ≠ 10 ∧ b ≠ 0)
        ∧ [Path.dot, Path.dot] ∉ Path.parts home := by
  simp [validInstallHome, Path.isRooted, and_assoc]

theorem validInstallHome_clean (h : validInstallHome home = true) :
    validInstallHome (Path.clean home) = true ∧ Path.clean (Path.clean home) = Path.clean home := by
  obtain ⟨hne, hle, hroot, hbytes, hdots⟩ := validInstallHome_iff.mp h
  have hroot' := Path.isRooted_clean hroot hdots
  refine ⟨validInstallHome_iff.mpr ⟨?_, ?_, hroot', ?_, Path.dots_not_mem_clean hroot hdots⟩,
    Path.clean_clean hroot hdots⟩
  · rw [Path.clean_rooted hroot hdots, length_cons]
    omega
  · exact (Path.length_clean_le hroot hdots).trans hle
  · exact fun b hb => hbytes b (Path.mem_clean hroot hdots hb)

theorem clean_validWindowsHome (h : validWindowsHome home = true) : Path.clean home = home := by
  simp only [validWindowsHome, Bool.and_eq_true] at h
  simpa using h.2

variable {installID : Bytes}

theorem agentLayoutFor_clean {uid : Int} (h : validInstallHome home = true) :
    agentLayoutFor installID uid (Path.clean home) = agentLayoutFor installID uid home := by
  unfold agentLayoutFor
  rw [(validInstallHome_clean h).2]

variable {l : AgentLayout}

/-- What columns name a layout, and which. -/
theorem layoutOf_cases {os : InstallOs} {uid : Option Int}
    {home : Option Bytes} (h : layoutOf installID os uid home = some l) :
    (∃ hm, os = .windows ∧ home = some hm ∧ validWindowsHome hm = true
        ∧ l = windowsAgentLayout installID hm)
      ∨ ∃ u hm, (os = .empty ∨ os = .linux) ∧ uid = some u ∧ home = some hm ∧ 0 ≤ u
        ∧ validInstallHome hm = true ∧ l = agentLayoutFor installID u hm := by
  unfold layoutOf at h
  split at h
  · split at h
    · next hv =>
      cases h
      exact .inl ⟨_, rfl, rfl, hv, rfl⟩
    · cases h
  · split at h
    · next hv =>
      cases h
      exact .inr ⟨_, _, .inl rfl, rfl, rfl, hv.1, hv.2, rfl⟩
    · cases h
  · split at h
    · next hv =>
      cases h
      exact .inr ⟨_, _, .inr rfl, rfl, rfl, hv.1, hv.2, rfl⟩
    · cases h
  · cases h

theorem named_windows (h : validWindowsHome home = true) :
    Named installID (windowsAgentLayout installID home) := by
  show (if validWindowsHome (Path.clean home) = true
    then some (windowsAgentLayout installID (Path.clean home)) else none) = _
  rw [clean_validWindowsHome h, if_pos h]

theorem named_agentLayoutFor {uid : Int} (hu : 0 ≤ uid)
    (h : validInstallHome home = true) : Named installID (agentLayoutFor installID uid home) := by
  obtain ⟨hvalid, hclean⟩ := validInstallHome_clean h
  have hcols : (agentLayoutFor installID uid home).os = .empty
      ∧ (agentLayoutFor installID uid home).uid = uid
      ∧ (agentLayoutFor installID uid home).home = Path.clean home := by
    unfold agentLayoutFor
    by_cases hz : uid = 0
    · simp [hz]
    · simp [hz]
  unfold Named
  rw [hcols.1, hcols.2.1, hcols.2.2, hclean]
  show (if 0 ≤ uid ∧ validInstallHome (Path.clean home) = true
    then some (agentLayoutFor installID uid (Path.clean home)) else none) = _
  rw [if_pos ⟨hu, hvalid⟩, agentLayoutFor_clean h]

theorem layoutOf_named {os : InstallOs} {uid : Option Int}
    {home : Option Bytes} (h : layoutOf installID os uid home = some l) :
    Named installID l := by
  rcases layoutOf_cases h with ⟨hm, -, -, hv, rfl⟩ | ⟨u, hm, -, -, -, hu, hv, rfl⟩
  · exact named_windows hv
  · exact named_agentLayoutFor hu hv

/-! ### `knownInstallLayouts`. -/

variable {e : AgentInstallLayout}

theorem mem_addKnown_of_mem {acc : List AgentLayout} (h : l ∈ acc) : l ∈ addKnown installID acc e := by
  unfold addKnown
  split
  · exact h
  · split
    · exact h
    · exact mem_append_left _ h

theorem mem_foldl_addKnown :
    ∀ (es : List AgentInstallLayout) {acc : List AgentLayout}, l ∈ acc →
      l ∈ es.foldl (addKnown installID) acc
  | [], _, h => h
  | _ :: es, _, h => mem_foldl_addKnown es (mem_addKnown_of_mem h)

theorem sameInstallLayout_self (l : AgentLayout) : sameInstallLayout l l = true := by
  simp [sameInstallLayout]

/-- Each entry that names a layout is known, up to its paths. -/
theorem foldl_addKnown_covers (hl : layoutOf installID e.os (some e.uid) (some e.home) = some l) :
    ∀ (es : List AgentInstallLayout) (acc : List AgentLayout), e ∈ es →
      ∃ l' ∈ es.foldl (addKnown installID) acc, sameInstallLayout l' l = true
  | e' :: es, acc, h => by
      rcases List.mem_cons.mp h with rfl | h
      · rw [List.foldl_cons]
        by_cases hany : acc.any (fun existing => sameInstallLayout existing l) = true
        · obtain ⟨l', hmem, hsame⟩ := any_eq_true.mp hany
          exact ⟨l', mem_foldl_addKnown es (mem_addKnown_of_mem hmem), hsame⟩
        · refine ⟨l, mem_foldl_addKnown es ?_, sameInstallLayout_self l⟩
          unfold addKnown
          rw [hl]
          dsimp only
          rw [if_neg hany]
          exact mem_append_right _ mem_cons_self
      · exact foldl_addKnown_covers hl es _ h

theorem foldl_addKnown_named :
    ∀ (es : List AgentInstallLayout) (acc : List AgentLayout),
      (∀ l ∈ acc, Named installID l) → ∀ l ∈ es.foldl (addKnown installID) acc, Named installID l
  | [], _, h => h
  | e :: es, acc, h => by
      refine foldl_addKnown_named es _ fun l hl => ?_
      unfold addKnown at hl
      split at hl
      · exact h l hl
      · next l' hl' =>
        split at hl
        · exact h l hl
        · rcases List.mem_append.mp hl with hl | hl
          · exact h l hl
          · rw [List.mem_singleton.mp hl]
            exact layoutOf_named hl'

variable {n : AgentNode}

/-- Every known layout can be named. -/
theorem known_named (h : l ∈ knownInstallLayouts n) : Named n.installID l := by
  refine foldl_addKnown_named _ _ ?_ l h
  intro l' hl'
  cases hrec : recordedLayout n with
  | none => simp [hrec] at hl'
  | some r =>
    rw [hrec] at hl'
    rw [mem_singleton.mp hl']
    exact layoutOf_named hrec

/-- A pending entry's layout is known. -/
theorem known_of_pending (h : e ∈ n.pendingInstallLayouts)
    (hl : layoutOf n.installID e.os (some e.uid) (some e.home) = some l) :
    ∃ l' ∈ knownInstallLayouts n, sameInstallLayout l' l = true :=
  foldl_addKnown_covers hl _ _ h

/-! ### `TrackInstallLayouts`. -/

theorem mem_addLayout_of_mem {acc : List AgentInstallLayout} {x : AgentInstallLayout}
    (h : x ∈ acc) : x ∈ addLayout acc e := by
  unfold addLayout
  dsimp only
  split
  · exact h
  · exact mem_append_left _ h

theorem mem_foldl_addLayout_of_mem {x : AgentInstallLayout} :
    ∀ (es : List AgentInstallLayout) {acc : List AgentInstallLayout}, x ∈ acc →
      x ∈ es.foldl addLayout acc
  | [], _, h => h
  | _ :: es, _, h => mem_foldl_addLayout_of_mem es (mem_addLayout_of_mem h)

theorem mem_foldl_addLayout :
    ∀ (es : List AgentInstallLayout) (acc : List AgentInstallLayout), e ∈ es →
      { e with home := Path.clean e.home } ∈ es.foldl addLayout acc
  | e' :: es, acc, h => by
      rcases mem_cons.mp h with rfl | h
      · refine mem_foldl_addLayout_of_mem es ?_
        unfold addLayout
        dsimp only
        split
        · next hin => simpa using hin
        · exact mem_append_right _ mem_cons_self
      · exact mem_foldl_addLayout es _ h

/-- A target that names a layout is known afterwards. -/
theorem known_of_tracked {targets : List AgentInstallLayout} (h : e ∈ targets)
    (hl : layoutOf n.installID e.os (some e.uid) (some (Path.clean e.home)) = some l) :
    ∃ l' ∈ knownInstallLayouts (trackInstallLayouts n targets), sameInstallLayout l' l = true := by
  refine known_of_pending (e := { e with home := Path.clean e.home }) ?_ hl
  exact mem_foldl_addLayout _ _ (mem_append_right _ h)

/-- After `SetInstallPlatformLayout` one layout is known. -/
theorem known_of_set
    (hl : layoutOf n.installID e.os (some e.uid) (some (Path.clean e.home)) = some l) :
    knownInstallLayouts (setInstallPlatformLayout n e) = [l] := by
  show (layoutOf n.installID e.os (some e.uid) (some (Path.clean e.home))).toList = [l]
  rw [hl]
  rfl

/-! ### `residentInstallRetirements`. -/

/-- A previous layout is retired, or `retires` has found it to be the current
one. -/
theorem retirements_split {sameFile : SameFile} {current : AgentLayout} :
    ∀ {previous retirements : List AgentLayout},
      residentInstallRetirements sameFile current previous = some retirements →
      ∀ old ∈ previous, old ∈ retirements ∨ retires sameFile current old = some false
  | old' :: previous, retirements, h, old, hold => by
      unfold residentInstallRetirements at h
      split at h
      · cases h
      · next r hr =>
        obtain ⟨rest, hrest, rfl⟩ := map_eq_some_iff.mp h
        rcases mem_cons.mp hold with rfl | hold
        · cases r with
          | true => exact .inl (by simp)
          | false => exact .inr hr
        · rcases retirements_split hrest old hold with hin | hsame
          · left
            split
            · exact mem_cons_of_mem _ hin
            · exact hin
          · exact .inr hsame

theorem retirements_subset {sameFile : SameFile} {current : AgentLayout} :
    ∀ {previous retirements : List AgentLayout},
      residentInstallRetirements sameFile current previous = some retirements →
      ∀ l ∈ retirements, l ∈ previous
  | [], retirements, h, l, hl => by
      cases h
      cases hl
  | old :: previous, retirements, h, l, hl => by
      unfold residentInstallRetirements at h
      split at h
      · cases h
      · next r hr =>
        obtain ⟨rest, hrest, rfl⟩ := map_eq_some_iff.mp h
        split at hl
        · rcases mem_cons.mp hl with rfl | hl
          · exact mem_cons_self
          · exact mem_cons_of_mem _ (retirements_subset hrest l hl)
        · exact mem_cons_of_mem _ (retirements_subset hrest l hl)

end Talus.Resident
