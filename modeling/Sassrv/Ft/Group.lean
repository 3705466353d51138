import Mathlib
import Sassrv.Lib.Ranking

/-! The member table of an FT instance: `FtPeer`, `FtQueue`, `FtPeerFree`, the
index by start time and the state counters, from `ft.h` and `ft.cpp`. -/
namespace Sassrv.Ft
open Ranking

abbrev Text := List UInt8

inductive FtState where
  | listen
  | join
  | primary
  | secondary
  | finish
  deriving DecidableEq, Repr

def FtState.code : FtState → Nat
  | .listen => 0
  | .join => 1
  | .primary => 2
  | .secondary => 3
  | .finish => 4

def FtState.ofCode : Nat → Option FtState
  | 0 => some .listen
  | 1 => some .join
  | 2 => some .primary
  | 3 => some .secondary
  | 4 => some .finish
  | _ => none

inductive FtMsgType where
  | announce
  | heartbeat
  | keepalive
  | activate
  | deactivate
  | ack
  | finish
  | exiting
  deriving DecidableEq, Repr

def FtMsgType.code : FtMsgType → Nat
  | .announce => 0
  | .heartbeat => 1
  | .keepalive => 2
  | .activate => 3
  | .deactivate => 4
  | .ack => 5
  | .finish => 6
  | .exiting => 7

def FtMsgType.ofCode : Nat → Option FtMsgType
  | 0 => some .announce
  | 1 => some .heartbeat
  | 2 => some .keepalive
  | 3 => some .activate
  | 4 => some .deactivate
  | 5 => some .ack
  | 6 => some .finish
  | 7 => some .exiting
  | _ => none

structure FtPeerMsg where
  type : FtMsgType
  state : FtState
  memberCnt : Nat := 0
  hbIval : Nat := 0
  actIval : Nat := 0
  prepIval : Nat := 0
  startNs : Nat
  weight : Nat := 0
  curTime : Nat := 0
  finTime : Nat := 0
  reply : Text := []
  user : Text := []
  syncInbox : Text := []
  deriving DecidableEq

/-- The counters, with a mark that the code does not have: it is set when a
counter is decremented at zero. -/
structure FtStateCount where
  primary : Nat := 0
  secondary : Nat := 0
  join : Nat := 0
  wrapped : Bool := false
  deriving DecidableEq

/-- `--` on a `uint32_t`. -/
def decrement (n : Nat) : Nat := if n = 0 then 2 ^ 32 - 1 else n - 1

def FtStateCount.leave (c : FtStateCount) : FtState → FtStateCount
  | .join => { c with join := decrement c.join, wrapped := c.wrapped || c.join == 0 }
  | .primary => { c with primary := decrement c.primary, wrapped := c.wrapped || c.primary == 0 }
  | .secondary =>
      { c with secondary := decrement c.secondary, wrapped := c.wrapped || c.secondary == 0 }
  | _ => c

/-- The counters have 32 bits, which an increment does not leave with fewer than `2 ^ 32`
members; a decrement at zero does, so that one wraps here as well. -/
def FtStateCount.enter (c : FtStateCount) : FtState → FtStateCount
  | .join => { c with join := c.join + 1 }
  | .primary => { c with primary := c.primary + 1 }
  | .secondary => { c with secondary := c.secondary + 1 }
  | _ => c

def FtStateCount.update (c : FtStateCount) (oldState newState : FtState) : FtStateCount :=
  (c.leave oldState).enter newState

structure FtPeer where
  startNs : Nat := 0
  weight : Nat := 0
  lastRcvNs : Nat := 0
  latencyAccum : Int := 0
  pos : Nat := 0
  latencyCnt : Nat := 0
  state : FtState := .listen
  oldState : FtState := .listen
  user : Text := []
  syncInbox : Text := []

def FtPeer.latency (p : FtPeer) : Int :=
  if p.latencyCnt % 256 = 0 then 0 else p.latencyAccum.tdiv ((p.latencyCnt % 256 : Nat) : Int)

def FtPeer.accumLatency (p : FtPeer) (lat : Int) : FtPeer :=
  let p := if (p.latencyCnt + 1) % 256 = 0 then
      { p with latencyAccum := p.latency, latencyCnt := p.latencyCnt + 1 }
    else p
  { p with latencyAccum := p.latencyAccum + lat, latencyCnt := p.latencyCnt + 1 }

def FtPeer.isGreaterWeight (p1 p2 : FtPeer) : Bool :=
  if p1.weight > p2.weight then true
  else if p1.weight = p2.weight then decide (p1.startNs < p2.startNs)
  else false

def FtPeer.isGreater (p1 p2 : FtPeer) : Bool :=
  let s1 := if p1.state.code > FtState.join.code then 1 else 0
  let s2 := if p2.state.code > FtState.join.code then 1 else 0
  if s1 > s2 then true
  else if s1 = s2 then p1.isGreaterWeight p2
  else false

/-- An `FtPeer *`: the member `me` of the instance, or a slot of the chain. -/
inductive PeerRef where
  | me
  | slot (block index : Nat)
  deriving DecidableEq, Repr

/-- One block of sixteen slots, named by the order of allocation. -/
structure FtPeerFree where
  block : Nat
  usedMask : BitVec 16
  deriving DecidableEq

/-- `ft_queue`, the peers it points at, `peer_ht`, `ft_free` and
`state_count`. `live` is `ft_queue.ptr` up to `count`; `stale` is what the
array still holds behind it. -/
structure FtGroup where
  peer : PeerRef → FtPeer := fun _ => {}
  live : List PeerRef := []
  stale : List PeerRef := []
  seqno : Nat := 0
  peerHt : List (Nat × PeerRef) := []
  ftFree : List FtPeerFree := []
  stateCount : FtStateCount := {}

namespace FtGroup

/-- `ft_queue.ptr[ i ]` -/
def ptr (g : FtGroup) (i : Nat) : Option PeerRef := (g.live ++ g.stale)[i]?

def modify (g : FtGroup) (p : PeerRef) (change : FtPeer → FtPeer) : FtGroup :=
  { g with peer := Function.update g.peer p (change (g.peer p)) }

/-- `FtPeer::set` -/
def set (g : FtGroup) (p : PeerRef) (m : FtPeerMsg) : FtGroup :=
  let g' := g.modify p (fun x => { x with
    startNs := m.startNs
    weight := m.weight
    oldState := x.state
    state := m.state
    user := m.user
    syncInbox := m.syncInbox })
  { g' with stateCount := g.stateCount.update (g.peer p).state m.state }

/-- `FtPeer::update_state` -/
def updateState (g : FtGroup) (p : PeerRef) (newState : FtState) : FtGroup :=
  let g' := g.modify p (fun x => { x with oldState := x.state, state := newState })
  { g' with stateCount := g.stateCount.update (g.peer p).state newState }

/-- Give the entries of a list the positions after `j`. -/
def renumber : List PeerRef → Nat → (PeerRef → FtPeer) → PeerRef → FtPeer
  | [], _, peer => peer
  | r :: rest, j, peer =>
      renumber rest (j + 1) (Function.update peer r { peer r with pos := j + 1 })

/-- `FtQueue::reorder` on the queue of `others` with `p` at its end. -/
def reorder (g : FtGroup) (others : List PeerRef) (p : PeerRef) : FtGroup :=
  let (front, passed) := sift (fun x => (g.peer x).isGreater (g.peer p)) others.reverse []
  { g with
    live := front ++ p :: passed
    peer := renumber (p :: passed) front.length g.peer }

/-- `FtQueue::insert` -/
def insert (g : FtGroup) (p : PeerRef) : FtGroup :=
  let g' := g.reorder g.live p
  { g' with stale := g.stale.drop 1, seqno := g.seqno + 1 }

/-- `FtQueue::get_pos`, the length of the queue when `p` is not in it. -/
def getPos (g : FtGroup) (p : PeerRef) : Nat :=
  let j := (g.peer p).pos
  if j > 0 ∧ g.ptr (j - 1) = some p then j - 1 else g.live.idxOf p

/-- The shift of the entries behind `j` one place forward. -/
def closeGap (g : FtGroup) (j : Nat) : FtGroup :=
  { g with
    live := g.live.eraseIdx j
    peer := renumber (g.live.drop (j + 1)) j g.peer }

/-- `FtQueue::remove` -/
def remove (g : FtGroup) (p : PeerRef) : FtGroup :=
  if (g.peer p).pos = 0 ∨ g.getPos p = g.live.length then g
  else
    let g' := (g.closeGap (g.getPos p)).modify p (fun x => { x with pos := 0 })
    { g' with stale := g.live.getLast?.toList ++ g.stale, seqno := g.seqno + 1 }

/-- `FtQueue::in_order2` -/
def inOrder2 (g : FtGroup) (p : PeerRef) : Bool :=
  let j := (g.peer p).pos
  if j = 0 ∨ g.ptr (j - 1) ≠ some p then false
  else
    (decide (j - 1 = 0) ||
      (g.ptr (j - 2)).any (fun x => (g.peer x).isGreater (g.peer p))) &&
    (decide (j = g.live.length) ||
      (g.ptr j).any (fun x => (g.peer p).isGreater (g.peer x)))

/-- `FtQueue::update` -/
def update (g : FtGroup) (p : PeerRef) : FtGroup :=
  if (g.peer p).pos = 0 ∨ g.getPos p = g.live.length then g.insert p
  else if g.inOrder2 p then g
  else
    let g' := g.closeGap (g.getPos p)
    { g'.reorder g'.live p with seqno := g.seqno + 1 }

/-- What `set_state` does to `me` before it acts on the new state. The queue
is repaired when `me` leaves the join state for a rank. -/
def restate (g : FtGroup) (state : FtState) : FtGroup :=
  if state ≠ (g.peer .me).state then
    let g' := g.updateState .me state
    if (g.peer .me).state = .join ∧ (state = .primary ∨ state = .secondary) then g'.update .me
    else g'
  else g

/-- `peer_ht->find` -/
def find (g : FtGroup) (startNs : Nat) : Option PeerRef := g.peerHt.lookup startNs

end FtGroup

/-- `FtPeerFree::is_all_used` -/
def FtPeerFree.isAllUsed (chain : List FtPeerFree) : Bool :=
  chain.all (fun f => f.usedMask == 0xffff)

/-- The lowest clear bit of a mask. -/
def firstClear (mask : BitVec 16) : Nat :=
  (List.range 16).findIdx (fun i => !mask.getLsbD i)

/-- `FtPeerFree::make_peer`. The chain ends only after every block was full. -/
def FtPeerFree.makePeer : List FtPeerFree → Option (List FtPeerFree × PeerRef)
  | [] => none
  | f :: next =>
      if f.usedMask ≠ 0xffff then
        let i := firstClear f.usedMask
        some ({ f with usedMask := f.usedMask ||| BitVec.twoPow 16 i } :: next,
          .slot f.block i)
      else (FtPeerFree.makePeer next).map (fun made => (f :: made.1, made.2))

/-- `FtPeerFree::release_peer` -/
def FtPeerFree.releasePeer (chain : List FtPeerFree) (p : PeerRef) : List FtPeerFree :=
  match p with
  | .me => chain
  | .slot block i => chain.map (fun f =>
      if f.block = block then { f with usedMask := f.usedMask &&& ~~~BitVec.twoPow 16 i } else f)

namespace FtGroup

/-- `RvFt::make_peer` -/
def makePeer (g : FtGroup) (m : FtPeerMsg) : Option (FtGroup × PeerRef) := do
  let chain := if FtPeerFree.isAllUsed g.ftFree then
      ⟨g.ftFree.length, 0⟩ :: g.ftFree
    else g.ftFree
  let (chain, p) ← FtPeerFree.makePeer chain
  let g' := { g with ftFree := chain }.modify p (fun _ => {})
  return (g'.set p m, p)

/-- What the code does to a peer that left or is missing: its state, its
place in the queue, its index entry and its slot. -/
def dropPeer (g : FtGroup) (p : PeerRef) (state : FtState) : FtGroup :=
  let g := (g.updateState p state).remove p
  { g with
    peerHt := g.peerHt.filter (fun entry => entry.1 ≠ (g.peer p).startNs)
    ftFree := FtPeerFree.releasePeer g.ftFree p }

end FtGroup

end Sassrv.Ft
