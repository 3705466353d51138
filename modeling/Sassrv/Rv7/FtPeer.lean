import Mathlib.Data.List.Nodup
import Mathlib.Data.List.Sort
import Sassrv.SubMgr.Text

/-! The peers of an rv7 fault tolerance group, as a member or a monitor of the
group keeps them: a list without two entries for one inbox. The pass that sorts,
ranks and reaps the list is the same in both. -/
namespace Sassrv.Rv7.Ft
open SubMgr

inductive FtState where
  | noState
  | inbox
  | status
  | sync
  | stop
  | start
  | active
  | activeStop
  deriving DecidableEq, Repr

/-- `TibrvFtPeer`. Every interval is a number of milliseconds that the source has
divided by 1000.0, and stands here as that number. -/
structure FtPeer where
  inbox : Text
  hbIval : BitVec 32 := 0
  prepareIval : BitVec 32 := 0
  activateIval : BitVec 32 := 0
  lastSeen : BitVec 64 := 0
  syncTime : BitVec 64 := 0
  lastSync : BitVec 64 := 0
  hbNs : BitVec 64 := 0
  activateNs : BitVec 64 := 0
  weight : BitVec 16 := 0
  activeGoal : BitVec 16 := 0
  rank : BitVec 16 := 0
  /-- Whether the listeners for the end of its host, session and transport are open. -/
  isListening : Bool := false
  pubErr : BitVec 8 := 0
  isRunning : Bool := false
  isStopped : Bool := false
  isUnresponsive : Bool := false
  deriving DecidableEq

/-- The fields that `publish` appends for `flds > 0`. -/
structure FtValues where
  maxActives : BitVec 32
  hbInterval : BitVec 32
  pendInterval : BitVec 32
  actInterval : BitVec 32
  deriving DecidableEq

/-- A message of a member, as far as `update_peer` reads it. -/
structure FtMsg where
  reply : Text
  weight : Option (BitVec 32)
  values : Option FtValues
  deriving DecidableEq

/-- What comes from elsewhere: the list sort of raikv and the conversions
between intervals and times, which the source makes in floating point. -/
structure FtEnv where
  sort : (FtPeer → FtPeer → Int) → List FtPeer → List FtPeer
  sort_perm : ∀ cmp peers, (sort cmp peers).Perm peers
  /-- An interval in nanoseconds. -/
  toNs : BitVec 32 → BitVec 64
  /-- An interval in milliseconds, as `publish` sends it. -/
  toMs : BitVec 32 → BitVec 32
  /-- Whether a time is at least an interval. -/
  reaches : BitVec 64 → BitVec 32 → Bool

variable (env : FtEnv)

/-- The message that `api_FtMember::publish` formats for the member. -/
def publish (me : FtPeer) (flds : BitVec 8) : FtMsg where
  reply := me.inbox
  weight := some (me.weight.setWidth 32)
  values :=
    if 0 < flds then
      some
        { maxActives := me.activeGoal.setWidth 32
          hbInterval := env.toMs me.hbIval
          pendInterval := env.toMs me.prepareIval
          actInterval := env.toMs me.activateIval }
    else none

def strcmp : Text → Text → Int
  | [], [] => 0
  | [], _ :: _ => -1
  | _ :: _, [] => 1
  | a :: as, b :: bs => if a = b then strcmp as bs else if a < b then -1 else 1

def comparePeer (p1 p2 : FtPeer) : Int :=
  if p1.isStopped ≠ p2.isStopped then
    if p1.isStopped then 1 else -1
  else if p1.isUnresponsive ≠ p2.isUnresponsive then
    if p1.isUnresponsive then 1 else -1
  else if p2.weight < p1.weight then -1
  else if p1.weight < p2.weight then 1
  else if p1.isRunning ≠ p2.isRunning then
    if p1.isRunning then -1 else 1
  else strcmp (p2.inbox.drop 16) (p1.inbox.drop 16)

/-- The listeners need the last part of the inbox behind its sixteenth byte. -/
def FtPeer.startListeners (p : FtPeer) : FtPeer :=
  if 46 ∈ p.inbox.drop 16 then { p with isListening := true } else p

def FtPeer.stopEvents (p : FtPeer) : FtPeer :=
  { p with isStopped := true, isRunning := false, isListening := false }

def newPeer (m : FtMsg) (weight : BitVec 32) : FtPeer :=
  { inbox := m.reply, weight := weight.setWidth 16 : FtPeer }.startListeners

/-- A message of the peer arrives. -/
def FtPeer.see (now : BitVec 64) (weight : BitVec 32) (p : FtPeer) : FtPeer :=
  { p with lastSeen := now, syncTime := 0, weight := weight.setWidth 16, isUnresponsive := false }

def FtPeer.stopIf (state : FtState) (p : FtPeer) : FtPeer :=
  if p.isStopped || state = .stop then p.stopEvents else p

def FtPeer.setValues (v : FtValues) (p : FtPeer) : FtPeer :=
  { p with
    activeGoal := v.maxActives.setWidth 16
    hbIval := v.hbInterval
    hbNs := env.toNs v.hbInterval
    prepareIval := v.pendInterval
    activateIval := v.actInterval
    activateNs := env.toNs v.actInterval }

/-- A peer runs from its first active message until it says that it stops or starts. -/
def FtPeer.enter (state : FtState) (now : BitVec 64) (p : FtPeer) : FtPeer :=
  { p with
    lastSeen := now
    syncTime := 0
    isUnresponsive := false
    isRunning :=
      match state with
      | .active => true
      | .activeStop => false
      | .stop => false
      | .start => false
      | _ => p.isRunning }

def FtPeer.isPast (now ns : BitVec 64) (p : FtPeer) : Bool :=
  decide (p.lastSeen < now) && decide (ns < now - p.lastSeen)

def FtPeer.expire (now ns : BitVec 64) (p : FtPeer) : FtPeer :=
  if p.isPast now ns then { p with isRunning := false } else p

def rankPeers (peers : List FtPeer) : List FtPeer :=
  peers.mapIdx fun i x => { x with rank := BitVec.ofNat 16 i }

/-- The last peer goes if it has stopped and has been quiet for its own interval. -/
def reap (now : BitVec 64) (peers : List FtPeer) : List FtPeer :=
  match peers.getLast? with
  | some x => if x.isStopped && decide (x.activateNs < now - x.lastSeen) then peers.dropLast else peers
  | none => peers

def findPeer (inbox : Text) (peers : List FtPeer) : Option FtPeer :=
  peers.find? fun x => x.inbox = inbox

def modifyPeer (inbox : Text) (f : FtPeer → FtPeer) (peers : List FtPeer) : List FtPeer :=
  peers.map fun x => if x.inbox = inbox then f x else x

/-- The peers sorted and ranked after an event of a peer with the given interval. -/
def order (now ns : BitVec 64) (peers : List FtPeer) : List FtPeer :=
  rankPeers (env.sort comparePeer (peers.map (FtPeer.expire now ns)))

variable {env} {peers : List FtPeer} {inbox : Text} {now ns : BitVec 64} {x : FtPeer}

@[simp] theorem FtPeer.expire_inbox (now ns : BitVec 64) (p : FtPeer) :
    (p.expire now ns).inbox = p.inbox := by
  unfold FtPeer.expire
  split <;> rfl

@[simp] theorem FtPeer.expire_lastSeen (now ns : BitVec 64) (p : FtPeer) :
    (p.expire now ns).lastSeen = p.lastSeen := by
  unfold FtPeer.expire
  split <;> rfl

@[simp] theorem FtPeer.expire_activateNs (now ns : BitVec 64) (p : FtPeer) :
    (p.expire now ns).activateNs = p.activateNs := by
  unfold FtPeer.expire
  split <;> rfl

theorem FtPeer.expire_isRunning (now ns : BitVec 64) (p : FtPeer) :
    (p.expire now ns).isRunning = true ↔ p.isRunning = true ∧ p.isPast now ns = false := by
  unfold FtPeer.expire
  cases p.isPast now ns <;> simp

theorem newPeer_inbox (m : FtMsg) (weight : BitVec 32) : (newPeer m weight).inbox = m.reply := by
  unfold newPeer FtPeer.startListeners
  split <;> rfl

theorem newPeer_activateNs (m : FtMsg) (weight : BitVec 32) : (newPeer m weight).activateNs = 0 := by
  unfold newPeer FtPeer.startListeners
  split <;> rfl

theorem FtPeer.stopIf_inbox (state : FtState) (p : FtPeer) : (p.stopIf state).inbox = p.inbox := by
  unfold FtPeer.stopIf
  split <;> rfl

theorem FtPeer.stopIf_activateNs (state : FtState) (p : FtPeer) :
    (p.stopIf state).activateNs = p.activateNs := by
  unfold FtPeer.stopIf
  split <;> rfl

theorem mem_rankPeers :
    x ∈ rankPeers peers → ∃ y ∈ peers, x = { y with rank := x.rank } := by
  intro hMem
  obtain ⟨i, hi, rfl⟩ := List.mem_mapIdx.mp hMem
  exact ⟨peers[i], List.getElem_mem hi, rfl⟩

theorem rankPeers_mem (h : x ∈ peers) : ∃ r, { x with rank := r } ∈ rankPeers peers := by
  obtain ⟨i, hi, rfl⟩ := List.mem_iff_getElem.mp h
  exact ⟨BitVec.ofNat 16 i, List.mem_mapIdx.mpr ⟨i, hi, rfl⟩⟩

theorem rankPeers_inboxes (peers : List FtPeer) :
    (rankPeers peers).map FtPeer.inbox = peers.map FtPeer.inbox := by
  apply List.ext_getElem
  · simp [rankPeers]
  · intro i _ _
    simp [rankPeers]

/-- The order changes ranks and the running flag of peers that have been quiet. -/
theorem mem_order (h : x ∈ order env now ns peers) :
    ∃ y ∈ peers, x = { y.expire now ns with rank := x.rank } := by
  obtain ⟨z, hMem, hEq⟩ := mem_rankPeers h
  obtain ⟨y, hy, rfl⟩ := List.mem_map.mp ((env.sort_perm _ _).mem_iff.mp hMem)
  exact ⟨y, hy, hEq⟩

theorem order_mem (env : FtEnv) (now ns : BitVec 64) (h : x ∈ peers) :
    ∃ r, { x.expire now ns with rank := r } ∈ order env now ns peers := by
  apply rankPeers_mem
  exact (env.sort_perm _ _).mem_iff.mpr (List.mem_map_of_mem h)

theorem order_inboxes (env : FtEnv) (now ns : BitVec 64) (peers : List FtPeer) :
    ((order env now ns peers).map FtPeer.inbox).Perm (peers.map FtPeer.inbox) := by
  unfold order
  rw [rankPeers_inboxes]
  refine ((env.sort_perm _ _).map _).trans ?_
  rw [List.map_map]
  exact .of_eq (List.map_congr_left fun y _ => y.expire_inbox now ns)

theorem reap_sublist (now : BitVec 64) (peers : List FtPeer) : (reap now peers).Sublist peers := by
  unfold reap
  split
  · split
    · exact List.dropLast_sublist peers
    · exact List.Sublist.refl _
  · exact List.Sublist.refl _

/-- Only a stopped peer that has been quiet is reaped. -/
theorem mem_reap (h : x ∈ peers)
    (hKept : ¬(x.isStopped = true ∧ x.activateNs < now - x.lastSeen)) : x ∈ reap now peers := by
  unfold reap
  split
  · next last hLast =>
      split
      · next hQuiet =>
          obtain ⟨init, rfl⟩ := List.getLast?_eq_some_iff.mp hLast
          rcases List.mem_append.mp h with hInit | hEnd
          · simpa using hInit
          · rw [List.mem_singleton.mp hEnd] at hKept
            exact absurd (by simpa using hQuiet) hKept
      · exact h
  · exact h

theorem mem_modifyPeer {f : FtPeer → FtPeer} :
    x ∈ modifyPeer inbox f peers ↔ ∃ y ∈ peers, (if y.inbox = inbox then f y else y) = x :=
  List.mem_map

theorem modifyPeer_inboxes {f : FtPeer → FtPeer} (hf : ∀ y, (f y).inbox = y.inbox) :
    (modifyPeer inbox f peers).map FtPeer.inbox = peers.map FtPeer.inbox := by
  unfold modifyPeer
  rw [List.map_map]
  apply List.map_congr_left
  intro y _
  rw [Function.comp_apply]
  split
  · exact hf y
  · rfl

theorem findPeer_some (h : findPeer inbox peers = some x) : x ∈ peers ∧ x.inbox = inbox :=
  ⟨List.mem_of_find?_eq_some h, by simpa using List.find?_some h⟩

theorem findPeer_none (h : findPeer inbox peers = none) (hMem : x ∈ peers) : x.inbox ≠ inbox := by
  have hNot := List.find?_eq_none.mp h x hMem
  simpa using hNot

theorem findPeer_concat {p : FtPeer} (h : p.inbox ≠ inbox) (peers : List FtPeer) :
    findPeer inbox (peers ++ [p]) = findPeer inbox peers := by
  unfold findPeer
  rw [List.find?_append, List.find?_singleton]
  simp [h]

/-- A change of every peer that keeps the inboxes changes the peer that is found. -/
theorem findPeer_map {f : FtPeer → FtPeer} (hf : ∀ y, (f y).inbox = y.inbox) (inbox : Text)
    (peers : List FtPeer) : findPeer inbox (peers.map f) = (findPeer inbox peers).map f := by
  unfold findPeer
  rw [List.find?_map]
  congr 2
  funext y
  rw [Function.comp_apply, hf]

theorem findPeer_modifyPeer {f : FtPeer → FtPeer} (hf : ∀ y, (f y).inbox = y.inbox)
    (inbox other : Text) (peers : List FtPeer) :
    findPeer inbox (modifyPeer other f peers) =
      (findPeer inbox peers).map fun y => if y.inbox = other then f y else y := by
  apply findPeer_map
  intro y
  split
  · exact hf y
  · rfl

theorem findPeer_of_mem (hNodup : (peers.map FtPeer.inbox).Nodup) (h : x ∈ peers) :
    findPeer x.inbox peers = some x := by
  obtain ⟨y, hFind⟩ := Option.isSome_iff_exists.mp
    (List.find?_isSome (p := fun y : FtPeer => decide (y.inbox = x.inbox)).mpr ⟨x, h, by simp⟩)
  obtain ⟨hMem, hSame⟩ := findPeer_some hFind
  have hEq : y = x := List.inj_on_of_nodup_map hNodup hMem h hSame
  rw [findPeer, hFind, hEq]

/-- The order of the list does not matter to what is found. -/
theorem findPeer_perm {others : List FtPeer} (hNodup : (peers.map FtPeer.inbox).Nodup)
    (hPerm : others.Perm peers) (h : findPeer inbox peers = some x) :
    findPeer inbox others = some x := by
  obtain ⟨hMem, rfl⟩ := findPeer_some h
  exact findPeer_of_mem ((hPerm.map _).nodup_iff.mpr hNodup) (hPerm.mem_iff.mpr hMem)

theorem findPeer_rankPeers (hNodup : (peers.map FtPeer.inbox).Nodup)
    (h : findPeer inbox peers = some x) :
    ∃ r, findPeer inbox (rankPeers peers) = some { x with rank := r } := by
  obtain ⟨hMem, rfl⟩ := findPeer_some h
  obtain ⟨r, hRanked⟩ := rankPeers_mem hMem
  have hFind := findPeer_of_mem (by rwa [rankPeers_inboxes]) hRanked
  exact ⟨r, hFind⟩

/-- Sorting and ranking keep every peer but for its rank. -/
theorem findPeer_ranked (env : FtEnv) (hNodup : (peers.map FtPeer.inbox).Nodup)
    (h : findPeer inbox peers = some x) :
    ((rankPeers (env.sort comparePeer peers)).map FtPeer.inbox).Nodup ∧
      ∃ r, findPeer inbox (rankPeers (env.sort comparePeer peers)) = some { x with rank := r } := by
  have hSorted := env.sort_perm comparePeer peers
  have hSortedNodup := (hSorted.map FtPeer.inbox).nodup_iff.mpr hNodup
  rw [rankPeers_inboxes]
  exact ⟨hSortedNodup, findPeer_rankPeers hSortedNodup (findPeer_perm hNodup hSorted h)⟩

theorem map_inboxes {f : FtPeer → FtPeer} (hf : ∀ y, (f y).inbox = y.inbox)
    (peers : List FtPeer) : (peers.map f).map FtPeer.inbox = peers.map FtPeer.inbox := by
  rw [List.map_map]
  exact List.map_congr_left fun y _ => hf y

theorem findPeer_reap (hNodup : (peers.map FtPeer.inbox).Nodup) (hStopped : x.isStopped = false)
    (h : findPeer inbox peers = some x) : findPeer inbox (reap now peers) = some x := by
  obtain ⟨hMem, rfl⟩ := findPeer_some h
  refine findPeer_of_mem (hNodup.sublist ((reap_sublist now peers).map _)) (mem_reap hMem ?_)
  simp [hStopped]

/-- Sorts by insertion, with exact conversions. -/
def sampleFtEnv : FtEnv where
  sort cmp peers := peers.insertionSort fun p q => cmp p q ≤ 0
  sort_perm _ peers := peers.perm_insertionSort _
  toNs ms := ms.setWidth 64 * 1000000
  toMs ms := ms
  reaches t ms := decide (ms.setWidth 64 * 1000000 ≤ t)

end Sassrv.Rv7.Ft
