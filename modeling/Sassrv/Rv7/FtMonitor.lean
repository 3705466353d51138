import Sassrv.Lib.Table
import Sassrv.Lib.Transition
import Sassrv.Rv7.FtPeer

/-! The monitor of an rv7 fault tolerance group, and the number of active members
that it reports. Each message of a member expires every other member that has
been quiet for longer than the activation interval of the sender, an interval that
the messages to a monitor never carry. -/
namespace Sassrv.Rv7.Ft
open SubMgr Transition

/-- `api_FtMonitor`, without the callback and its closure. -/
structure FtMonitor where
  lostNs : BitVec 64
  peers : List FtPeer := []
  inactiveId : BitVec 32 := 0
  lastActiveCount : BitVec 16 := 0
  isDestroyed : Bool := false

/-- The count that the callback is called with. -/
abbrev Calls := List (BitVec 16)

namespace FtMonitor

variable (env : FtEnv) (mon : FtMonitor)

/-- The new count is stored, and reported if it is another one. -/
def report (count : BitVec 16) : FtMonitor × Calls :=
  ({ mon with lastActiveCount := count }, if count = mon.lastActiveCount then [] else [count])

def activeCount (peers : List FtPeer) : BitVec 16 :=
  BitVec.ofNat 16 (peers.countP FtPeer.isRunning)

/-- The rest of `update_peer` once the list holds the peer `inbox` as it is now. The
timer is made anew, with the id that `CreateTimer` stores. -/
def settle (inbox : Text) (now : BitVec 64) (timer : BitVec 32) (peers : List FtPeer) :
    FtMonitor × Calls :=
  let ns := ((findPeer inbox peers).map FtPeer.activateNs).getD 0
  let ranked := order env now ns peers
  { mon with peers := reap now ranked, inactiveId := timer }.report (activeCount ranked)

def setIf (values : Option FtValues) (p : FtPeer) : FtPeer :=
  match values with
  | some v => p.setValues env v
  | none => p

/-- The list with the sender of a message as the message leaves it. -/
def heard (m : FtMsg) (weight : BitVec 32) (state : FtState) (now : BitVec 64) : List FtPeer :=
  match findPeer m.reply mon.peers with
  | some _ =>
      modifyPeer m.reply (fun p => (setIf env m.values ((p.see now weight).stopIf state)).enter state now)
        mon.peers
  | none => mon.peers ++ [(setIf env m.values (newPeer m weight)).enter state now]

/-- `update_peer` for a message. -/
def updatePeer (m : FtMsg) (state : FtState) (now : BitVec 64) (timer : BitVec 32) :
    FtMonitor × Calls :=
  if mon.isDestroyed then (mon, [])
  else if m.reply.length < 16 then (mon, [])
  else
    match m.weight with
    | none => (mon, [])
    | some weight => mon.settle env m.reply now timer (mon.heard env m weight state now)

/-- `update_peer` for an advisory that a peer has ended. -/
def endPeer (inbox : Text) (now : BitVec 64) (timer : BitVec 32) : FtMonitor × Calls :=
  if mon.isDestroyed then (mon, [])
  else
    mon.settle env inbox now timer
      (modifyPeer inbox (fun p => p.stopEvents.enter .stop now) mon.peers)

def stopCb (m : FtMsg) (now : BitVec 64) (timer : BitVec 32) : FtMonitor × Calls :=
  mon.updatePeer env m .stop now timer

def activeHbCb (m : FtMsg) (now : BitVec 64) (timer : BitVec 32) : FtMonitor × Calls :=
  mon.updatePeer env m .active now timer

def activeStartCb (m : FtMsg) (now : BitVec 64) (timer : BitVec 32) : FtMonitor × Calls :=
  mon.updatePeer env m .active now timer

def activeStopCb (m : FtMsg) (now : BitVec 64) (timer : BitVec 32) : FtMonitor × Calls :=
  mon.updatePeer env m .activeStop now timer

/-- The timer expires by the interval of the monitor, not by one of a peer. -/
def lapse (now : BitVec 64) (p : FtPeer) : FtPeer :=
  if p.isRunning && decide (mon.lostNs < now - p.lastSeen) then { p with isRunning := false } else p

def inactiveCb (now : BitVec 64) : FtMonitor × Calls :=
  if mon.isDestroyed then (mon, [])
  else
    let peers := mon.peers.map (mon.lapse now)
    let count := activeCount peers
    { mon with peers := peers, inactiveId := if count = 0 then 0 else mon.inactiveId }.report count

end FtMonitor

/-- The subjects that a monitor listens to. -/
inductive Announcement where
  | stop
  | activeHb
  | activeStart
  | activeStop
  deriving DecidableEq, Repr

def Announcement.isActive : Announcement → Bool
  | .activeHb => true
  | .activeStart => true
  | _ => false

def FtMonitor.receive (env : FtEnv) (mon : FtMonitor) (kind : Announcement) :
    FtMsg → BitVec 64 → BitVec 32 → FtMonitor × Calls :=
  match kind with
  | .stop => mon.stopCb env
  | .activeHb => mon.activeHbCb env
  | .activeStart => mon.activeStartCb env
  | .activeStop => mon.activeStopCb env

/-- A message carries what `publish` formats for the member that sends it. -/
inductive MonitorInput where
  | message (sender : FtPeer) (kind : Announcement) (now : BitVec 64) (timer : BitVec 32)
  | inactive (now : BitVec 64)

def MonitorInput.now : MonitorInput → BitVec 64
  | .message _ _ now _ => now
  | .inactive now => now

/-- An inbox is longer than the prefix that the order of peers skips. -/
def MonitorInput.WellFormed : MonitorInput → Prop
  | .message sender _ _ _ => 16 ≤ sender.inbox.length
  | .inactive _ => True

/-- A monitor beside what it has been told: for each member whether its latest
message was an active one, and when it arrived. -/
structure Watch where
  mon : FtMonitor
  latest : Table Text (Bool × BitVec 64)
  clock : BitVec 64

namespace Watch

/-- The members whose latest message was an active one, no more than the lost
interval ago. -/
def active (w : Watch) : Nat :=
  w.latest.entries.countP fun e => e.2.1 && decide (w.clock - e.2.2 ≤ w.mon.lostNs)

def note (w : Watch) : MonitorInput → Table Text (Bool × BitVec 64)
  | .message sender kind now _ => w.latest.insert sender.inbox (kind.isActive, now)
  | .inactive _ => w.latest

def receive (env : FtEnv) (w : Watch) : MonitorInput → FtMonitor × Calls
  | .message sender kind now timer => w.mon.receive env kind (publish env sender 0) now timer
  | .inactive now => w.mon.inactiveCb now

def next (env : FtEnv) (w : Watch) (input : MonitorInput) : Watch where
  mon := (w.receive env input).1
  latest := w.note input
  clock := input.now

end Watch

/-- The clock does not go back, and a monitor starts without peers. -/
def watchSystem (env : FtEnv) : System Watch MonitorInput (BitVec 16) where
  init w := ∃ lostNs, w = ⟨{ lostNs := lostNs }, Table.empty, 0⟩
  step w input emitted w' := input.WellFormed ∧ w.clock ≤ input.now ∧
    emitted = (w.receive env input).2 ∧ w' = w.next env input

/-- Every other member whose latest message was an active one has just been heard as
well, or not within the lost interval; and the count fits the 16 bits it is kept in. -/
def Watch.Spaced (w : Watch) : MonitorInput → Prop
  | .message sender kind now timer =>
      (∀ inbox t, inbox ≠ sender.inbox → w.latest.find? inbox = some (true, t) →
        t = now ∨ w.mon.lostNs < now - t) ∧
      { w with latest := w.note (.message sender kind now timer), clock := now }.active < 2 ^ 16
  | .inactive _ => True

/-- The running peers of a list are what `p` says about inboxes and times. -/
def Shows (peers : List FtPeer) (p : Text → BitVec 64 → Prop) : Prop :=
  ∀ inbox t, p inbox t ↔ ∃ x ∈ peers, x.inbox = inbox ∧ x.lastSeen = t ∧ x.isRunning = true

def Watch.IsActive (w : Watch) (inbox : Text) (t : BitVec 64) : Prop :=
  w.latest.find? inbox = some (true, t) ∧ w.clock - t ≤ w.mon.lostNs

/-- No peer has an interval, and the running ones are those that are to be counted. -/
structure Watch.Exact (w : Watch) : Prop where
  isDestroyed : w.mon.isDestroyed = false
  nodup : (w.mon.peers.map FtPeer.inbox).Nodup
  activateNs : ∀ x ∈ w.mon.peers, x.activateNs = 0
  past : ∀ inbox e, w.latest.find? inbox = some e → e.2 ≤ w.clock
  shows : Shows w.mon.peers w.IsActive
  count : w.mon.lastActiveCount.toNat = w.active

variable {env : FtEnv} {w w' : Watch} {peers : List FtPeer}

/-- Two lists without repeated keys that select the same keys select equally many. -/
theorem Watch.active_eq (hNodup : (peers.map FtPeer.inbox).Nodup) (hShows : Shows peers w.IsActive) :
    peers.countP FtPeer.isRunning = w.active := by
  let isCounted : Text × Bool × BitVec 64 → Bool := fun e =>
    e.2.1 && decide (w.clock - e.2.2 ≤ w.mon.lostNs)
  have hLeft : ((peers.filter FtPeer.isRunning).map FtPeer.inbox).Nodup :=
    hNodup.sublist (List.filter_sublist.map FtPeer.inbox)
  have hRight : ((w.latest.entries.filter isCounted).map Prod.fst).Nodup :=
    w.latest.nodup.sublist (List.filter_sublist.map Prod.fst)
  have hPerm : ((peers.filter FtPeer.isRunning).map FtPeer.inbox).Perm
      ((w.latest.entries.filter isCounted).map Prod.fst) := by
    refine (List.perm_ext_iff_of_nodup hLeft hRight).mpr fun inbox => ?_
    constructor
    · intro hMem
      obtain ⟨x, hx, rfl⟩ := List.mem_map.mp hMem
      obtain ⟨hPeer, hRunning⟩ := List.mem_filter.mp hx
      obtain ⟨hLatest, hRecent⟩ := (hShows x.inbox x.lastSeen).mpr ⟨x, hPeer, rfl, rfl, hRunning⟩
      refine List.mem_map.mpr ⟨_, List.mem_filter.mpr ⟨Table.find?_eq_some.mp hLatest, ?_⟩, rfl⟩
      simpa [isCounted] using hRecent
    · intro hMem
      obtain ⟨⟨key, isActive, t⟩, he, rfl⟩ := List.mem_map.mp hMem
      obtain ⟨hEntry, hRecent⟩ := List.mem_filter.mp he
      simp only [isCounted, Bool.and_eq_true, decide_eq_true_eq] at hRecent
      obtain ⟨rfl, hRecent⟩ := hRecent
      obtain ⟨x, hPeer, rfl, -, hRunning⟩ :=
        (hShows key t).mp ⟨Table.find?_eq_some.mpr hEntry, hRecent⟩
      exact List.mem_map_of_mem (List.mem_filter.mpr ⟨hPeer, hRunning⟩)
  have hLength := hPerm.length_eq
  rw [List.length_map, List.length_map, ← List.countP_eq_length_filter,
    ← List.countP_eq_length_filter] at hLength
  exact hLength

/-- The state that the handler of a subject passes on. -/
def Announcement.state : Announcement → FtState
  | .stop => .stop
  | .activeHb => .active
  | .activeStart => .active
  | .activeStop => .activeStop

theorem FtMonitor.receive_eq (env : FtEnv) (mon : FtMonitor) (kind : Announcement) (m : FtMsg)
    (now : BitVec 64) (timer : BitVec 32) :
    mon.receive env kind m now timer = mon.updatePeer env m kind.state now timer := by
  cases kind <;> rfl

theorem Announcement.enter_isRunning (kind : Announcement) (now : BitVec 64) (p : FtPeer) :
    (p.enter kind.state now).isRunning = kind.isActive := by
  cases kind <;> rfl

/-- A list of peers before and after a message of the member `inbox`. -/
structure Hears (inbox : Text) (isActive : Bool) (now : BitVec 64) (before after : List FtPeer) :
    Prop where
  nodup : (after.map FtPeer.inbox).Nodup
  activateNs : ∀ x ∈ after, x.activateNs = 0
  found : ∃ x ∈ after, x.inbox = inbox
  sender : ∀ x ∈ after, x.inbox = inbox → x.lastSeen = now ∧ x.isRunning = isActive
  others : ∀ x, x.inbox ≠ inbox → (x ∈ after ↔ x ∈ before)

theorem Watch.Exact.hears (env : FtEnv) (h : w.Exact) (sender : FtPeer) (kind : Announcement) (now : BitVec 64)
    (weight : BitVec 32) :
    Hears sender.inbox kind.isActive now w.mon.peers
      (w.mon.heard env (publish env sender 0) weight kind.state now) := by
  let f : FtPeer → FtPeer := fun p => ((p.see now weight).stopIf kind.state).enter kind.state now
  have hInbox : ∀ p, (f p).inbox = p.inbox := fun p => FtPeer.stopIf_inbox ..
  cases hFind : findPeer sender.inbox w.mon.peers with
  | some found =>
      obtain ⟨hFound, hKey⟩ := findPeer_some hFind
      have hHeard : w.mon.heard env (publish env sender 0) weight kind.state now =
          modifyPeer sender.inbox f w.mon.peers := by
        simp only [FtMonitor.heard, publish, hFind]
        rfl
      rw [hHeard]
      constructor
      · rw [modifyPeer_inboxes hInbox]
        exact h.nodup
      · intro x hx
        obtain ⟨y, hy, rfl⟩ := mem_modifyPeer.mp hx
        split
        · exact (FtPeer.stopIf_activateNs ..).trans (h.activateNs y hy)
        · exact h.activateNs y hy
      · refine ⟨f found, mem_modifyPeer.mpr ⟨found, hFound, if_pos hKey⟩, ?_⟩
        exact (hInbox found).trans hKey
      · intro x hx hSame
        obtain ⟨y, -, rfl⟩ := mem_modifyPeer.mp hx
        by_cases hy : y.inbox = sender.inbox
        · rw [if_pos hy]
          exact ⟨rfl, kind.enter_isRunning now _⟩
        · rw [if_neg hy] at hSame
          exact absurd hSame hy
      · intro x hOther
        constructor
        · intro hx
          obtain ⟨y, hy, rfl⟩ := mem_modifyPeer.mp hx
          by_cases hSame : y.inbox = sender.inbox
          · rw [if_pos hSame, hInbox] at hOther
            exact absurd hSame hOther
          · rwa [if_neg hSame]
        · intro hx
          exact mem_modifyPeer.mpr ⟨x, hx, if_neg hOther⟩
  | none =>
      let p := (newPeer (publish env sender 0) weight).enter kind.state now
      have hHeard : w.mon.heard env (publish env sender 0) weight kind.state now =
          w.mon.peers ++ [p] := by
        simp only [FtMonitor.heard, publish, hFind]
        rfl
      have hKey : p.inbox = sender.inbox := newPeer_inbox ..
      have hNew : ∀ x ∈ w.mon.peers, x.inbox ≠ sender.inbox := fun x => findPeer_none hFind
      rw [hHeard]
      constructor
      · rw [List.map_append, List.map_singleton, hKey]
        refine List.nodup_append.mpr ⟨h.nodup, List.nodup_singleton _, ?_⟩
        intro inbox hMem other hOther
        obtain ⟨x, hx, rfl⟩ := List.mem_map.mp hMem
        rw [List.mem_singleton.mp hOther]
        exact hNew x hx
      · intro x hx
        rcases List.mem_append.mp hx with hx | hx
        · exact h.activateNs x hx
        · rw [List.mem_singleton.mp hx]
          exact newPeer_activateNs ..
      · exact ⟨p, by simp, hKey⟩
      · intro x hx hSame
        rcases List.mem_append.mp hx with hx | hx
        · exact absurd hSame (hNew x hx)
        · rw [List.mem_singleton.mp hx]
          exact ⟨rfl, kind.enter_isRunning now _⟩
      · intro x hOther
        rw [List.mem_append, List.mem_singleton, or_iff_left]
        rintro rfl
        exact hOther hKey

/-- Without an interval whoever was heard before now is past. -/
theorem FtPeer.isPast_zero {now : BitVec 64} {p : FtPeer} :
    p.isPast now 0 = false ↔ now ≤ p.lastSeen := by
  unfold FtPeer.isPast
  rw [Bool.and_eq_false_iff, decide_eq_false_iff_not, decide_eq_false_iff_not]
  constructor
  · rintro (hPast | hPast) <;> bv_omega
  · intro hNow
    exact .inl (by bv_omega)

section Message

variable {sender : FtPeer} {kind : Announcement} {now : BitVec 64} {timer : BitVec 32}
  {after : List FtPeer}

theorem Hears.interval {inbox : Text} {isActive : Bool} {before : List FtPeer}
    (hHears : Hears inbox isActive now before after) :
    ((findPeer inbox after).map FtPeer.activateNs).getD 0 = 0 := by
  cases hFind : findPeer inbox after with
  | none => rfl
  | some x => exact hHears.activateNs x (findPeer_some hFind).1

/-- After a message only the members heard at that very time run. -/
theorem Watch.Exact.running_now (h : w.Exact) (hClock : w.clock ≤ now)
    (hHears : Hears sender.inbox kind.isActive now w.mon.peers after) {x : FtPeer}
    (hMem : x ∈ after) (hRunning : (x.expire now 0).isRunning = true) : x.lastSeen = now := by
  obtain ⟨hRuns, hPast⟩ := (FtPeer.expire_isRunning ..).mp hRunning
  by_cases hSender : x.inbox = sender.inbox
  · exact (hHears.sender x hMem hSender).1
  · have hBefore := (hHears.others x hSender).mp hMem
    obtain ⟨hLatest, -⟩ := (h.shows _ _).mpr ⟨x, hBefore, rfl, rfl, hRuns⟩
    have hSeen : x.lastSeen ≤ w.clock := h.past _ _ hLatest
    have hNow := FtPeer.isPast_zero.mp hPast
    exact BitVec.le_antisymm (BitVec.le_trans hSeen hClock) hNow

theorem Watch.Exact.shows_order (env : FtEnv) (h : w.Exact) (hClock : w.clock ≤ now)
    (hSpaced : w.Spaced (.message sender kind now timer))
    (hHears : Hears sender.inbox kind.isActive now w.mon.peers after) :
    Shows (order env now 0 after) fun inbox t =>
      (w.latest.insert sender.inbox (kind.isActive, now)).find? inbox = some (true, t) ∧
        now - t ≤ w.mon.lostNs := by
  intro inbox t
  constructor
  · rintro ⟨hLatest, hRecent⟩
    rw [Table.find?_insert] at hLatest
    suffices hRuns : ∃ y ∈ after, y.inbox = inbox ∧ y.lastSeen = t ∧ y.isRunning = true ∧ t = now by
      obtain ⟨y, hy, rfl, rfl, hRunning, hNow⟩ := hRuns
      obtain ⟨r, hMem⟩ := order_mem env now 0 hy
      refine ⟨_, hMem, y.expire_inbox now 0, y.expire_lastSeen now 0, ?_⟩
      have hHere : now ≤ y.lastSeen := hNow ▸ BitVec.le_refl _
      exact (FtPeer.expire_isRunning ..).mpr ⟨hRunning, FtPeer.isPast_zero.mpr hHere⟩
    by_cases hSender : inbox = sender.inbox
    · rw [if_pos hSender, Option.some.injEq, Prod.mk.injEq] at hLatest
      obtain ⟨hActive, rfl⟩ := hLatest
      obtain ⟨y, hy, hKey⟩ := hHears.found
      obtain ⟨hSeen, hRunning⟩ := hHears.sender y hy hKey
      exact ⟨y, hy, hKey.trans hSender.symm, hSeen, hRunning.trans hActive, rfl⟩
    · rw [if_neg hSender] at hLatest
      have hPast : t ≤ w.clock := h.past _ _ hLatest
      rcases hSpaced.1 inbox t hSender hLatest with rfl | hLost
      · have hRecent : w.clock - t ≤ w.mon.lostNs := by bv_omega
        obtain ⟨y, hy, rfl, hSeen, hRunning⟩ := (h.shows _ _).mp ⟨hLatest, hRecent⟩
        exact ⟨y, (hHears.others y hSender).mpr hy, rfl, hSeen, hRunning, rfl⟩
      · exact absurd hLost (by bv_omega)
  · rintro ⟨x, hMem, rfl, rfl, hRunning⟩
    obtain ⟨y, hy, hEq⟩ := mem_order hMem
    have hInbox : x.inbox = y.inbox := by rw [hEq]; exact y.expire_inbox now 0
    have hSeen : x.lastSeen = y.lastSeen := by rw [hEq]; exact y.expire_lastSeen now 0
    have hRuns : (y.expire now 0).isRunning = true := by rw [hEq] at hRunning; exact hRunning
    have hNow := h.running_now hClock hHears hy hRuns
    rw [hInbox, hSeen, hNow, Table.find?_insert]
    refine ⟨?_, by bv_omega⟩
    have hRunning := ((FtPeer.expire_isRunning ..).mp hRuns).1
    by_cases hSender : y.inbox = sender.inbox
    · rw [if_pos hSender, ← (hHears.sender y hy hSender).2, hRunning]
    · have hBefore := (hHears.others y hSender).mp hy
      rw [if_neg hSender, ← hNow]
      exact ((h.shows _ _).mpr ⟨y, hBefore, rfl, rfl, hRunning⟩).1

/-- Reaping takes no peer that runs. -/
theorem Watch.Exact.shows_reap (h : w.Exact) (hClock : w.clock ≤ now)
    (hHears : Hears sender.inbox kind.isActive now w.mon.peers after)
    {p : Text → BitVec 64 → Prop} (hShows : Shows (order env now 0 after) p) :
    Shows (reap now (order env now 0 after)) p := by
  intro inbox t
  rw [hShows inbox t]
  constructor
  · rintro ⟨x, hMem, rfl, rfl, hRunning⟩
    refine ⟨x, mem_reap hMem ?_, rfl, rfl, hRunning⟩
    rintro ⟨-, hQuiet⟩
    obtain ⟨y, hy, hEq⟩ := mem_order hMem
    have hSeen : x.lastSeen = y.lastSeen := by rw [hEq]; exact y.expire_lastSeen now 0
    have hRuns : (y.expire now 0).isRunning = true := by rw [hEq] at hRunning; exact hRunning
    rw [hSeen, h.running_now hClock hHears hy hRuns] at hQuiet
    bv_omega
  · rintro ⟨x, hMem, hRest⟩
    exact ⟨x, (reap_sublist now _).subset hMem, hRest⟩

theorem FtMonitor.report_calls {mon : FtMonitor} {count : BitVec 16} {a b : Nat}
    (hBefore : mon.lastActiveCount.toNat = a) (hAfter : count.toNat = b) :
    (mon.report count).2 = if b = a then [] else [BitVec.ofNat 16 b] := by
  subst hBefore hAfter
  simp only [FtMonitor.report, BitVec.ofNat_toNat, BitVec.setWidth_eq, BitVec.toNat_inj]

theorem FtMonitor.activeCount_toNat (h : peers.countP FtPeer.isRunning < 2 ^ 16) :
    (activeCount peers).toNat = peers.countP FtPeer.isRunning := by
  rw [activeCount, BitVec.toNat_ofNat, Nat.mod_eq_of_lt h]

/-- The list in which the running peers are counted after a message. -/
def Watch.ranked (env : FtEnv) (w : Watch) (sender : FtPeer) (kind : Announcement)
    (now : BitVec 64) : List FtPeer :=
  order env now 0
    (w.mon.heard env (publish env sender 0) (sender.weight.setWidth 32) kind.state now)

theorem Watch.Exact.receive_message (env : FtEnv) (h : w.Exact) (kind : Announcement)
    (now : BitVec 64) (timer : BitVec 32) (hLong : 16 ≤ sender.inbox.length) :
    w.receive env (.message sender kind now timer) =
      { w.mon with
        peers := reap now (w.ranked env sender kind now)
        inactiveId := timer }.report (FtMonitor.activeCount (w.ranked env sender kind now)) := by
  have hReply : ¬(publish env sender 0).reply.length < 16 := Nat.not_lt.mpr hLong
  have hHears := h.hears env sender kind now (sender.weight.setWidth 32)
  change w.mon.receive env kind (publish env sender 0) now timer = _
  rw [FtMonitor.receive_eq, FtMonitor.updatePeer, h.isDestroyed, if_neg Bool.false_ne_true,
    if_neg hReply]
  change w.mon.settle env sender.inbox now timer (w.mon.heard env (publish env sender 0)
    (sender.weight.setWidth 32) kind.state now) = _
  unfold FtMonitor.settle
  rw [hHears.interval]
  rfl

theorem Watch.Exact.message (env : FtEnv) (h : w.Exact) (hClock : w.clock ≤ now)
    (hLong : 16 ≤ sender.inbox.length) (hSpaced : w.Spaced (.message sender kind now timer)) :
    (w.next env (.message sender kind now timer)).Exact ∧
      (w.receive env (.message sender kind now timer)).2 =
        if (w.next env (.message sender kind now timer)).active = w.active then []
        else [BitVec.ofNat 16 (w.next env (.message sender kind now timer)).active] := by
  have hHears := h.hears env sender kind now (sender.weight.setWidth 32)
  have hReceive := h.receive_message env kind now timer hLong
  have hOrder := h.shows_order env hClock hSpaced hHears
  have hMon : (w.next env (.message sender kind now timer)).mon =
      { w.mon with
        peers := reap now (w.ranked env sender kind now)
        inactiveId := timer
        lastActiveCount := FtMonitor.activeCount (w.ranked env sender kind now) } :=
    congrArg Prod.fst hReceive
  have hNodup : ((w.ranked env sender kind now).map FtPeer.inbox).Nodup :=
    (order_inboxes env now 0 _).nodup_iff.mpr hHears.nodup
  have hShows : Shows (w.ranked env sender kind now)
      (w.next env (.message sender kind now timer)).IsActive := by
    intro inbox t
    rw [Watch.IsActive, hMon]
    exact hOrder inbox t
  have hActive := Watch.active_eq hNodup hShows
  have hFits : (w.next env (.message sender kind now timer)).active < 2 ^ 16 := by
    rw [Watch.active, hMon]
    exact hSpaced.2
  have hCount : (FtMonitor.activeCount (w.ranked env sender kind now)).toNat =
      (w.next env (.message sender kind now timer)).active := by
    rw [FtMonitor.activeCount_toNat (hActive ▸ hFits), hActive]
  constructor
  · constructor
    · rw [hMon]
      exact h.isDestroyed
    · rw [hMon]
      exact hNodup.sublist ((reap_sublist now _).map FtPeer.inbox)
    · rw [hMon]
      intro x hx
      obtain ⟨y, hy, hEq⟩ := mem_order ((reap_sublist now _).subset hx)
      rw [hEq]
      exact (y.expire_activateNs now 0).trans (hHears.activateNs y hy)
    · intro inbox e hFind
      change (w.latest.insert sender.inbox (kind.isActive, now)).find? inbox = some e at hFind
      rw [Table.find?_insert] at hFind
      split at hFind
      · rw [← Option.some.inj hFind]
        exact BitVec.le_refl _
      · exact BitVec.le_trans (h.past inbox e hFind) hClock
    · have hReaped := h.shows_reap hClock hHears hShows
      intro inbox t
      rw [hReaped inbox t, hMon]
      rfl
    · rw [hMon]
      exact hCount
  · rw [hReceive]
    exact FtMonitor.report_calls h.count hCount

end Message

section Inactive

variable {now : BitVec 64}

theorem FtMonitor.lapse_inbox (mon : FtMonitor) (now : BitVec 64) (p : FtPeer) :
    (mon.lapse now p).inbox = p.inbox := by
  unfold FtMonitor.lapse
  split <;> rfl

theorem FtMonitor.lapse_lastSeen (mon : FtMonitor) (now : BitVec 64) (p : FtPeer) :
    (mon.lapse now p).lastSeen = p.lastSeen := by
  unfold FtMonitor.lapse
  split <;> rfl

theorem FtMonitor.lapse_activateNs (mon : FtMonitor) (now : BitVec 64) (p : FtPeer) :
    (mon.lapse now p).activateNs = p.activateNs := by
  unfold FtMonitor.lapse
  split <;> rfl

theorem FtMonitor.lapse_isRunning {mon : FtMonitor} {now : BitVec 64} {p : FtPeer} :
    (mon.lapse now p).isRunning = true ↔ p.isRunning = true ∧ now - p.lastSeen ≤ mon.lostNs := by
  unfold FtMonitor.lapse
  split
  · next hLost => simp_all
  · next hLost =>
      rw [Bool.and_eq_true, decide_eq_true_eq, not_and, BitVec.not_lt] at hLost
      exact (and_iff_left_of_imp hLost).symm

theorem Watch.Exact.shows_lapse (h : w.Exact) (hClock : w.clock ≤ now) :
    Shows (w.mon.peers.map (w.mon.lapse now)) fun inbox t =>
      w.latest.find? inbox = some (true, t) ∧ now - t ≤ w.mon.lostNs := by
  intro inbox t
  constructor
  · rintro ⟨hLatest, hRecent⟩
    have hPast : t ≤ w.clock := h.past _ _ hLatest
    have hBefore : w.clock - t ≤ w.mon.lostNs := by bv_omega
    obtain ⟨x, hMem, rfl, rfl, hRunning⟩ := (h.shows _ _).mp ⟨hLatest, hBefore⟩
    refine ⟨_, List.mem_map_of_mem hMem, w.mon.lapse_inbox now x, w.mon.lapse_lastSeen now x, ?_⟩
    exact FtMonitor.lapse_isRunning.mpr ⟨hRunning, hRecent⟩
  · rintro ⟨x, hMem, rfl, rfl, hRunning⟩
    obtain ⟨y, hy, rfl⟩ := List.mem_map.mp hMem
    obtain ⟨hRuns, hRecent⟩ := FtMonitor.lapse_isRunning.mp hRunning
    rw [FtMonitor.lapse_inbox, FtMonitor.lapse_lastSeen]
    exact ⟨((h.shows _ _).mpr ⟨y, hy, rfl, rfl, hRuns⟩).1, hRecent⟩

theorem Watch.Exact.inactive (env : FtEnv) (h : w.Exact) (hClock : w.clock ≤ now) :
    (w.next env (.inactive now)).Exact ∧
      (w.receive env (.inactive now)).2 =
        if (w.next env (.inactive now)).active = w.active then []
        else [BitVec.ofNat 16 (w.next env (.inactive now)).active] := by
  let peers := w.mon.peers.map (w.mon.lapse now)
  have hReceive : w.receive env (.inactive now) =
      { w.mon with
        peers := peers
        inactiveId := if FtMonitor.activeCount peers = 0 then 0 else w.mon.inactiveId }.report
          (FtMonitor.activeCount peers) := by
    have hHere : ¬w.mon.isDestroyed = true := by simp [h.isDestroyed]
    change w.mon.inactiveCb now = _
    rw [FtMonitor.inactiveCb, if_neg hHere]
  have hMon : (w.next env (.inactive now)).mon =
      { w.mon with
        peers := peers
        inactiveId := if FtMonitor.activeCount peers = 0 then 0 else w.mon.inactiveId
        lastActiveCount := FtMonitor.activeCount peers } := congrArg Prod.fst hReceive
  have hInboxes : peers.map FtPeer.inbox = w.mon.peers.map FtPeer.inbox := by
    rw [List.map_map]
    exact List.map_congr_left fun x _ => w.mon.lapse_inbox now x
  have hShows : Shows peers (w.next env (.inactive now)).IsActive := by
    intro inbox t
    rw [Watch.IsActive, hMon]
    exact h.shows_lapse hClock inbox t
  have hActive := Watch.active_eq (hInboxes ▸ h.nodup) hShows
  have hFits : peers.countP FtPeer.isRunning < 2 ^ 16 := by
    have hFewer : peers.countP FtPeer.isRunning ≤ w.mon.peers.countP FtPeer.isRunning := by
      rw [List.countP_map]
      exact List.countP_mono_left fun x _ hRuns => (FtMonitor.lapse_isRunning.mp hRuns).1
    have hCounted := Watch.active_eq h.nodup h.shows
    have hBound := w.mon.lastActiveCount.isLt
    rw [h.count, ← hCounted] at hBound
    exact Nat.lt_of_le_of_lt hFewer hBound
  have hCount : (FtMonitor.activeCount peers).toNat = (w.next env (.inactive now)).active := by
    rw [FtMonitor.activeCount_toNat hFits, hActive]
  constructor
  · constructor
    · rw [hMon]
      exact h.isDestroyed
    · rw [hMon]
      exact hInboxes ▸ h.nodup
    · rw [hMon]
      intro x hx
      obtain ⟨y, hy, rfl⟩ := List.mem_map.mp hx
      exact (w.mon.lapse_activateNs now y).trans (h.activateNs y hy)
    · intro inbox e hFind
      exact BitVec.le_trans (h.past inbox e hFind) hClock
    · rw [hMon]
      exact hShows
    · rw [hMon]
      exact hCount
  · rw [hReceive]
    exact FtMonitor.report_calls h.count hCount

end Inactive

theorem Watch.Exact.step {input : MonitorInput} {emitted : List (BitVec 16)} (h : w.Exact)
    (hSpaced : w.Spaced input) (hStep : (watchSystem env).step w input emitted w') :
    w'.Exact ∧ emitted = if w'.active = w.active then [] else [BitVec.ofNat 16 w'.active] := by
  obtain ⟨hFormed, hClock, rfl, rfl⟩ := hStep
  cases input with
  | message sender kind now timer => exact h.message env hClock hFormed hSpaced
  | inactive now => exact h.inactive env hClock

theorem Watch.exact_of_reachable (h : ((watchSystem env).guard Watch.Spaced).Reachable w) :
    w.Exact := by
  refine h.invariant ?_ ?_
  · rintro w ⟨lostNs, rfl⟩
    constructor
    · rfl
    · exact List.nodup_nil
    · intro x hx
      cases hx
    · intro inbox e hFind
      cases hFind
    · intro inbox t
      constructor
      · rintro ⟨⟨⟩, -⟩
      · rintro ⟨x, hx, -⟩
        cases hx
    · rfl
  · intro w input emitted w' hExact hStep
    exact (hExact.step hStep.1 hStep.2).1

/-- A monitor reports the members that were active within the lost interval, and calls
back when their number changes, as long as no message finds another of them heard
before but within that interval. -/
theorem active_count_reported (env : FtEnv) (w : Watch)
    (h : ((watchSystem env).guard Watch.Spaced).Reachable w) :
    w.mon.lastActiveCount.toNat = w.active ∧
    ∀ input emitted w', w.Spaced input → (watchSystem env).step w input emitted w' →
      emitted = if w'.active = w.active then [] else [BitVec.ofNat 16 w'.active] := by
  have hExact := Watch.exact_of_reachable h
  refine ⟨hExact.count, fun input emitted w' hSpaced hStep => ?_⟩
  exact (hExact.step hSpaced hStep).2

def firstMember : FtPeer := { inbox := text "_INBOX.0A000001.7F1.1" }

def secondMember : FtPeer := { inbox := text "_INBOX.0A000002.7F2.1" }

/-- A monitor with a lost interval of ten seconds. -/
def sampleWatch : Watch := ⟨{ lostNs := 10000000000 }, Table.empty, 0⟩

def firstHeard (now : BitVec 64) : Watch :=
  sampleWatch.next sampleFtEnv (.message firstMember .activeStart now 1)

def secondHeard (before now : BitVec 64) : Watch :=
  (firstHeard before).next sampleFtEnv (.message secondMember .activeStart now 2)

theorem secondMember_long : 16 ≤ secondMember.inbox.length := by decide

theorem firstHeard_reachable (now : BitVec 64) :
    ((watchSystem sampleFtEnv).guard Watch.Spaced).Reachable (firstHeard now) := by
  have hStart : ((watchSystem sampleFtEnv).guard Watch.Spaced).Reachable sampleWatch :=
    System.reachable_of_init ⟨_, rfl⟩
  have hLong : 16 ≤ firstMember.inbox.length := by decide
  have hClock : (0 : BitVec 64) ≤ now := by bv_omega
  refine hStart.take (.message firstMember .activeStart now 1) _ ⟨?_, ?_⟩ ⟨hLong, hClock, rfl, rfl⟩
  · intro inbox t _ hFind
    cases hFind
  · exact Nat.lt_of_le_of_lt List.countP_le_length (by decide : 1 < 2 ^ 16)

/-- Two members that start at the same time are both counted. -/
theorem active_count_reported_two :
    (secondHeard 5 5).mon.lastActiveCount.toNat = (secondHeard 5 5).active := by
  refine (active_count_reported sampleFtEnv _ ?_).1
  refine (firstHeard_reachable 5).take (.message secondMember .activeStart 5 2) _ ⟨?_, ?_⟩
    ⟨secondMember_long, by decide, rfl, rfl⟩
  · intro inbox t _ hFind
    change (Table.insert Table.empty firstMember.inbox (true, 5)).find? inbox = some (true, t) at hFind
    rw [Table.find?_insert] at hFind
    split at hFind
    · exact .inl (Prod.mk.inj (Option.some.inj hFind)).2.symm
    · cases hFind
  · decide +kernel

/-- A member that starts a nanosecond after another takes its place in the count. -/
theorem active_count_misses_member :
    ∃ w, (watchSystem sampleFtEnv).Reachable w ∧ w.mon.lastActiveCount = 1 ∧ w.active = 2 := by
  refine ⟨secondHeard 1 2, ?_, by decide +kernel, by decide +kernel⟩
  have hStep : (watchSystem sampleFtEnv).step (firstHeard 1)
      (.message secondMember .activeStart 2 2) _ (secondHeard 1 2) :=
    ⟨secondMember_long, by decide, rfl, rfl⟩
  exact (firstHeard_reachable 1).of_guard.step hStep

end Sassrv.Rv7.Ft
