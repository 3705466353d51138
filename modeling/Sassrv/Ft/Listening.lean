import Sassrv.Ft.Sending

/-! The handlers of `RvFt` together with the listener. Here `on_ft_change` is
a call out of the handler in the middle of its work, and the listener may call
`stop`, `activate` and `deactivate` from it. What a handler does besides
sending is marked in order. With a listener that calls nothing these are the
handlers of the instance alone. -/
namespace Sassrv.Ft
open Transition

/-- The places of `ft.cpp` that call `on_ft_change`. -/
inductive FtSite where
  | listen
  | join
  | activate
  | deactivate
  /-- in front of `set_activate_timer` -/
  | prepare
  /-- at a finish message with a time -/
  | deadline
  | finish
  | update
  deriving DecidableEq, Repr

def FtSite.action : FtSite → FtAction
  | .listen => .listen
  | .join => .join
  | .activate => .activate
  | .deactivate => .deactivate
  | .prepare => .prepare
  | .deadline => .prepare
  | .finish => .finish
  | .update => .update

/-- A call that the listener makes from `on_ft_change`. -/
inductive FtReaction where
  | stop
  | activate
  | deactivate
  deriving DecidableEq, Repr

/-- What the handlers do: `ft_queue.ptr[ index ]` is read while the queue has
`count` members, `me` enters a state, the listener is told, `set_state` returns
to its caller. -/
inductive FtMark where
  | read (index count : Nat)
  | entered (state : FtState)
  | notified (action : FtAction)
  | returned (oldState state : FtState) (f : RvFt)

/-- An instance at work. The script holds the calls that the listener makes
from the notifications to come, and `firing` the timer whose callback runs. -/
structure Watched where
  ft : RvFt
  marks : List FtMark := []
  script : List (List FtReaction) := []
  firing : Option (Nat × FtAction) := none

/-- `on_ft_change` -/
abbrev Listener := FtSite → Watched → Option Watched

namespace Watched
open RvFt

abbrev edit (w : Watched) (change : RvFt → RvFt) : Watched := { w with ft := change w.ft }

abbrev mark (w : Watched) (m : FtMark) : Watched := { w with marks := w.marks ++ [m] }

/-- A read of `ft_queue.ptr[ i ]`. -/
abbrev reads (w : Watched) (i : Nat) : Watched := w.mark (.read i w.ft.group.live.length)

def notifyChange (cb : Listener) (site : FtSite) (w : Watched) : Option Watched := do
  let w ← cb site ((w.edit (·.emit (.onFtChange site.action))).mark (.notified site.action))
  return w.edit (fun f => { f with lastSeqno := f.group.seqno })

def notifyUpdate (cb : Listener) (w : Watched) : Option Watched :=
  if w.ft.lastSeqno ≠ w.ft.group.seqno then w.notifyChange cb .update else some w

/-- `set_prepare_timer` -/
def setPrepareTimer (w : Watched) : Option Watched := do
  let w := w.reads 0
  let p ← w.ft.group.ptr 0
  return w.edit (·.setPrepareTimer p)

/-- `set_activate_timer` -/
def setActivateTimer (w : Watched) : Option Watched := do
  let w := w.reads 0
  let p ← w.ft.group.ptr 0
  return w.edit (·.setActivateTimer p)

def armTakeover (cb : Listener) (p : PeerRef) (action : FtAction) (originNs : Nat)
    (w : Watched) : Option Watched :=
  if w.ft.prepareMs > 0 ∧ w.ft.expiredDeltaMs originNs w.ft.prepareMs > 0 then w.setPrepareTimer
  else do
    let w ← if action = .prepare ∧ ¬ (w.ft.me.state = .join ∧ p ≠ .me ∧
        (w.ft.group.peer p).isGreaterWeight w.ft.me) then
        w.notifyChange cb .prepare
      else some w
    w.setActivateTimer

def prepareTakeover (cb : Listener) (setState : FtState → Watched → Option Watched)
    (action : FtAction) (deadline : Nat) (w : Watched) : Option Watched := do
  let w := w.reads 0
  let p ← w.ft.group.ptr 0
  if p = .me ∨ w.ft.me.state = .join then
    if w.ft.expiredDeltaMs w.ft.startMono w.ft.activateMs ≤ 0 then
      let w ← if p = .me ∨
          (w.ft.me.state = .join ∧ w.ft.me.isGreaterWeight (w.ft.group.peer p)) then
          setState .primary w
        else setState .secondary w
      w.notifyUpdate cb
    else w.armTakeover cb p action w.ft.startMono
  else
    let w := w.reads 1
    if w.ft.group.ptr 1 ≠ some .me then return w
    else if deadline ≠ 0 then
      let w := w.edit (fun f => (f.cancelTimer .prepare).cancelTimer .activate)
      if w.ft.prepareMs > 0 then w.notifyChange cb .deadline else return w
    else w.armTakeover cb p action (w.ft.group.peer p).lastRcvNs

def finish (cb : Listener) (w : Watched) : Option Watched :=
  let w := if w.ft.me.state ≠ .listen then w.edit (·.sendMsg .exiting []) else w
  let w := w.edit (·.cancelTimer .heartbeat)
  let w := w.edit (·.stopTimers)
  let w := w.edit (fun f => f.emit (.unsubscribe f.ftSub))
  w.notifyChange cb .finish

def enterState (w : Watched) (state : FtState) : Watched :=
  if state ≠ w.ft.me.state then (w.edit (·.enterState state)).mark (.entered state) else w

/-- `set_state` on the state that it was told to enter. -/
def actOnState (cb : Listener) (setState : FtState → Watched → Option Watched)
    (oldState state : FtState) (w : Watched) : Option Watched :=
  match state with
  | .listen => some (w.edit (·.sendMsg .announce []))
  | .join => do
      let w := w.edit (fun f => f.withGroup (f.group.insert .me))
      let w := w.edit (·.sendMsg .announce [])
      let w ← w.prepareTakeover cb setState .join 0
      w.notifyChange cb .join
  | .primary => do
      let w := w.edit (fun f => { f with activateNs := f.stateNs })
      let w ← w.notifyChange cb .activate
      return w.edit (·.sendMsg .activate [])
  | .secondary => do
      let w ← if oldState ≠ .secondary then
          let w := w.edit (fun f => { f with deactivateNs := f.stateNs })
          let w := w.edit (·.sendMsg .deactivate [])
          w.notifyChange cb .deactivate
        else some w
      w.prepareTakeover cb setState .deactivate 0
  | .finish => w.finish cb

/-- `set_state`. The depth bounds its recursion through `prepare_takeover`. -/
def setState (cb : Listener) : Nat → FtState → Watched → Option Watched
  | 0, _, _ => none
  | depth + 1, state, w => do
      let oldState := w.ft.me.state
      let w ← (w.enterState state).actOnState cb (setState cb depth) oldState state
      return w.mark (.returned oldState state w.ft)

/-- `start`, which enters the listen state of a new life. -/
def start (cb : Listener) (depth : Nat) (param : FtParameters) (w : Watched) : Option Watched := do
  let w := (w.edit (·.prepared param)).mark (.entered .listen)
  let w := if w.ft.joinMs ≠ 0 then w.edit (·.addTimer .join) else w
  let w := w.edit (·.startHb param.heartbeatMs param.activateMs param.prepareMs)
  let w ← w.setState cb depth .listen
  w.notifyChange cb .listen

def stop (cb : Listener) (depth : Nat) (w : Watched) : Option Watched :=
  if w.ft.finishMs = 0 then w.setState cb depth .finish
  else if w.ft.timerMask .finish then some w
  else some (w.edit (fun f => (f.sendMsg .finish []).addTimer .finish))

def activate (cb : Listener) (depth : Nat) (w : Watched) : Option Watched :=
  if w.ft.me.state = .listen then
    (w.edit (fun f => { f with startMono := f.monoNs }.cancelTimer .join)).setState cb depth .join
  else some w

def deactivate (cb : Listener) (depth : Nat) (w : Watched) : Option Watched := do
  if w.ft.me.state ≠ .listen then
    let w := w.edit (fun f => f.withGroup (f.group.remove .me))
    let w ← (w.edit (·.stopTimers)).setState cb depth .listen
    w.notifyChange cb .listen
  else return w

/-- `timer_clear` -/
abbrev clearMask (w : Watched) (action : FtAction) : Watched :=
  w.edit (fun f => { f with timerMask := Function.update f.timerMask action false })

def takeoverTimer (cb : Listener) (depth : Nat) (action : FtAction) (ival : Int) (w : Watched) :
    Option Watched := do
  let w := w.clearMask action
  let w ← if isAccurate ival ∧ (w.ft.me.state = .secondary ∨ w.ft.me.state = .join) then
      (w.edit (·.trimFtQueue)).prepareTakeover cb (setState cb depth) action 0
    else some w
  w.notifyUpdate cb

def heartbeatTimer (cb : Listener) (depth : Nat) (w : Watched) : Option Watched := do
  let accurate := isAccurate (w.ft.expiredDeltaMs w.ft.lastHbNs w.ft.heartbeatMs)
  let w := if accurate then w.edit (·.trimFtQueue) else w
  let w ← if w.ft.me.state = .primary then some (w.edit (·.sendMsg .heartbeat []))
    else if w.ft.me.state ≠ .listen then
      (if accurate then w.prepareTakeover cb (setState cb depth) .heartbeat 0 else some w).map
        (·.edit (·.sendMsg .keepalive []))
    else some w
  (w.edit (fun f => { f with lastHbNs := f.monoNs })).notifyUpdate cb

def timerCb (cb : Listener) (depth : Nat) (id : Nat) (action : FtAction) (w : Watched) :
    Option (Watched × Bool) := do
  if id ≠ w.ft.tid then return (w, false)
  match action with
  | .activate =>
      let ival := w.ft.expiredDeltaMs w.ft.activateOrigin w.ft.activateMs
      return (← w.takeoverTimer cb depth .activate ival, false)
  | .prepare =>
      let ival := w.ft.expiredDeltaMs w.ft.prepareOrigin w.ft.prepareMs
      return (← w.takeoverTimer cb depth .prepare ival, false)
  | .heartbeat => return (← w.heartbeatTimer cb depth, true)
  | .join => return (← (w.clearMask .join).setState cb depth .join, false)
  | .finish => return (← (w.clearMask .finish).setState cb depth .finish, false)
  | _ => return (w, false)

def checkRank (cb : Listener) (depth : Nat) (w : Watched) : Option Watched :=
  if w.ft.me.state = .secondary then
    if w.ft.group.ptr 0 ≠ some .me then (w.reads 0).setState cb depth .secondary
    else (w.reads 0).setState cb depth .primary
  else if w.ft.me.state = .primary then
    if w.ft.group.ptr 0 ≠ some .me then (w.reads 0).setState cb depth .secondary
    else some (w.reads 0)
  else some w

/-- The end of `on_peer_msg`. -/
def checkAndAck (cb : Listener) (depth : Nat) (m : FtPeerMsg) (w : Watched) : Option Watched := do
  let w ← w.checkRank cb depth
  let w ← w.notifyUpdate cb
  return w.edit (·.ackAnnounce m)

/-- `on_peer_msg` for a sender that is in the queue. -/
def onAdmitted (cb : Listener) (depth : Nat) (m : FtPeerMsg) (p : PeerRef) (w : Watched) :
    Option Watched :=
  if w.ft.me.state = .listen then w.notifyUpdate cb
  else if m.type = .finish then do
    let w := w.reads 0
    let w ← if w.ft.group.ptr 0 = some p then
        w.prepareTakeover cb (setState cb depth) .finish m.finTime
      else some w
    w.notifyUpdate cb
  else w.checkAndAck cb depth m

/-- `on_peer_msg` once the sender is recorded. -/
def onRecorded (cb : Listener) (depth : Nat) (m : FtPeerMsg) (p : PeerRef) (w : Watched) :
    Option Watched :=
  if m.type ≠ .exiting then
    (w.edit (fun f => f.withGroup (f.group.update p))).onAdmitted cb depth m p
  else (w.edit (fun f => f.withGroup (f.group.dropPeer p .finish))).checkAndAck cb depth m

/-- "went back to listen state" -/
def dropListener (w : Watched) (m : FtPeerMsg) : Watched :=
  match w.ft.group.find m.startNs with
  | some p => w.edit (fun f => f.withGroup (f.group.dropPeer p .listen))
  | none => w

/-- `on_peer_msg` below its head. -/
def onFollowed (cb : Listener) (depth : Nat) (m : FtPeerMsg) (w : Watched) : Option Watched := do
  if m.state = .listen then
    let w ← (w.dropListener m).notifyUpdate cb
    return w.edit (·.ackAnnounce m)
  else
    match ← w.ft.recordPeer m with
    | none => return w
    | some (f, p) => onRecorded cb depth m p { w with ft := f }

def onPeerMsg (cb : Listener) (depth : Nat) (m : FtPeerMsg) (w : Watched) : Option Watched :=
  (w.edit (fun f => { f with lastRcvNs := f.monoNs }.followOldest m)).onFollowed cb depth m

def processPub (cb : Listener) (depth : Nat) (pub : EvPublish) (w : Watched) :
    Option (Watched × Bool) := do
  let i := w.ft.client.isInbox pub.subject
  if pub.subject ≠ w.ft.ftSub ∧ i ≠ w.ft.inboxNum then
    if i = w.ft.syncInboxNum then return (w.edit (·.emit .onFtSync), true)
    else return (w, false)
  else
    match pub.fields.bind (FtFields.peerMsg · pub.reply) with
    | none => return (w, false)
    | some m =>
        if m.startNs = w.ft.me.startNs then return (w, true)
        else return (← w.onPeerMsg cb depth m, true)

def fire (cb : Listener) (depth : Nat) (id : Nat) (action : FtAction) (w : Watched) :
    Option Watched := do
  if (id, action) ∈ w.ft.timers then
    let w := w.edit (fun f => { f with timers := f.timers.erase (id, action) })
    let (w, again) ← { w with firing := some (id, action) }.timerCb cb depth id action
    let w := { w with firing := none }
    return if again then w.edit (fun f => { f with timers := f.timers ++ [(id, action)] }) else w
  else none

def dispatch (cb : Listener) (depth : Nat) : FtCall → Watched → Option Watched
  | .start param, w => w.start cb depth param
  | .stop, w => w.stop cb depth
  | .activate, w => w.activate cb depth
  | .deactivate, w => w.deactivate cb depth
  | .timer id action, w => w.fire cb depth id action
  | .publish pub, w => do return (← w.processPub cb depth pub).1

/-- A listener that calls nothing. -/
def silent : Listener := fun _ w => some w

end Watched

end Sassrv.Ft
