import Sassrv.Ft.Group
import Sassrv.Lib.Transition

/-! One FT instance: the handlers of `RvFt` from `ft.cpp`. Clocks are in
nanoseconds and do not wrap. What the handlers send and report is collected
in `out`. When an armed timer fires is left to the environment. -/
namespace Sassrv.Ft
open Transition

inductive FtAction where
  | listen
  | join
  | activate
  | deactivate
  | heartbeat
  | prepare
  | finish
  | update
  deriving DecidableEq, Repr

instance : LawfulBEq (Nat × FtAction) := inferInstance

structure FtParameters where
  weight : Nat := 20
  joinMs : Nat := 500
  heartbeatMs : Nat := 3000
  activateMs : Nat := 7000
  prepareMs : Nat := 6500
  finishMs : Nat := 500
  inboxNum : Nat := 10
  syncInboxNum : Nat := 11
  ftSub : Text := []
  user : Text := []

/-- The two operations of the client on inbox subjects. -/
structure EvRvClient where
  makeInbox : Nat → Text
  isInbox : Text → Nat

/-- Calls out of the instance: the listener and the client. -/
inductive FtOut where
  | onFtChange (action : FtAction)
  | onFtSync
  | subscribe (subject : Text)
  | unsubscribe (subject : Text)
  | publish (dest : Text) (msg : FtPeerMsg)

/-- The content of a publication as `unpack_rv` and `get_map` leave it. Type
and state are 255 when their fields are missing. -/
structure FtFields where
  type : Nat := 255
  state : Nat := 255
  memberCnt : Nat := 0
  hbIval : Nat := 0
  actIval : Nat := 0
  prepIval : Nat := 0
  startNs : Nat := 0
  weight : Nat := 0
  curTime : Nat := 0
  finTime : Nat := 0
  user : Text := []
  syncInbox : Text := []

/-- A publication; the content is absent when it is empty or no rv message. -/
structure EvPublish where
  subject : Text
  reply : Text
  fields : Option FtFields

structure RvFt where
  client : EvRvClient
  group : FtGroup := {}
  nowNs : Nat := 0
  monoNs : Nat := 0
  timers : List (Nat × FtAction) := []
  out : List FtOut := []
  tid : Nat := 0
  stateNs : Nat := 0
  startMono : Nat := 0
  lastRcvNs : Nat := 0
  lastHbNs : Nat := 0
  activateNs : Nat := 0
  deactivateNs : Nat := 0
  prepareOrigin : Nat := 0
  prepareExpires : Nat := 0
  activateOrigin : Nat := 0
  activateExpires : Nat := 0
  oldestPeer : Nat := 0
  lastSeqno : Nat := 0
  joinMs : Nat := 0
  heartbeatMs : Nat := 0
  activateMs : Nat := 0
  prepareMs : Nat := 0
  finishMs : Nat := 0
  inboxNum : Nat := 0
  syncInboxNum : Nat := 0
  timerMask : FtAction → Bool := fun _ => false
  ftSub : Text := []
  syncInbox : Text := []

namespace RvFt

/-- The member `me`. -/
def me (f : RvFt) : FtPeer := f.group.peer .me

def withGroup (f : RvFt) (group : FtGroup) : RvFt := { f with group := group }

def emit (f : RvFt) (event : FtOut) : RvFt := { f with out := f.out ++ [event] }

def notifyChange (f : RvFt) (action : FtAction) : RvFt :=
  { f.emit (.onFtChange action) with lastSeqno := f.group.seqno }

def notifyUpdate (f : RvFt) : RvFt :=
  if f.lastSeqno ≠ f.group.seqno then
    { f.emit (.onFtChange .update) with lastSeqno := f.group.seqno }
  else f

/-- `send_msg`. An empty destination is the group's subject. -/
def sendMsg (f : RvFt) (type : FtMsgType) (dest : Text) : RvFt :=
  f.emit (.publish (if dest = [] then f.ftSub else dest) {
    type := type
    state := f.me.state
    memberCnt := f.group.live.length
    hbIval := f.heartbeatMs
    actIval := f.activateMs
    prepIval := f.prepareMs
    startNs := f.me.startNs
    weight := f.me.weight
    curTime := f.nowNs
    finTime := if type = .finish then f.nowNs + f.finishMs * 1000000 % 2 ^ 32 else 0
    reply := if type = .announce then f.client.makeInbox f.inboxNum else []
    user := f.me.user
    syncInbox := f.syncInbox })

/-- `timer_active`, then `add_timer_millis` or `add_timer_micros`. -/
def addTimer (f : RvFt) (action : FtAction) : RvFt :=
  { f with
    timerMask := Function.update f.timerMask action true
    timers := f.timers ++ [(f.tid, action)] }

/-- `timer_clear`, then `remove_timer_cb` if the timer was set. -/
def cancelTimer (f : RvFt) (action : FtAction) : RvFt :=
  if f.timerMask action then
    { f with
      timerMask := Function.update f.timerMask action false
      timers := f.timers.filter (fun t => t ≠ (f.tid, action)) }
  else f

def stopTimers (f : RvFt) : RvFt :=
  (((f.cancelTimer .join).cancelTimer .activate).cancelTimer .prepare).cancelTimer .finish

def finish (f : RvFt) : RvFt :=
  let f := if f.me.state ≠ .listen then f.sendMsg .exiting [] else f
  let f := f.cancelTimer .heartbeat
  let f := f.stopTimers
  let f := f.emit (.unsubscribe f.ftSub)
  f.notifyChange .finish

def expiredDeltaMs (f : RvFt) (stampNs deltaMs : Nat) : Int :=
  let delta := stampNs + deltaMs * 1000 * 1000
  if delta < f.monoNs then -(((f.monoNs - delta) / 1000 / 1000 : Nat) : Int)
  else (((delta - f.monoNs) / 1000 / 1000 : Nat) : Int)

/-- The origin and the delay that `set_timer` computes. It reads
`ft_queue.ptr[ 0 ]`. -/
def timerSpan (f : RvFt) (p : PeerRef) (deltaMs : Nat) : Nat × Nat :=
  let originNs := if f.me.state ≠ .join ∧ p ≠ .me then (f.group.peer p).lastRcvNs
    else f.startMono
  (originNs, originNs + deltaMs * 1000 * 1000 - f.monoNs)

def setPrepareTimer (f : RvFt) (p : PeerRef) : RvFt :=
  let (originNs, expireNs) := f.timerSpan p f.prepareMs
  if f.timerMask .prepare ∧ f.prepareOrigin + f.prepareExpires = originNs + expireNs then f
  else
    let f := (f.cancelTimer .prepare).addTimer .prepare
    { f with prepareOrigin := originNs, prepareExpires := expireNs }

def setActivateTimer (f : RvFt) (p : PeerRef) : RvFt :=
  let (originNs, expireNs) := f.timerSpan p f.activateMs
  if f.timerMask .activate ∧ f.activateOrigin + f.activateExpires = originNs + expireNs then f
  else
    let f := (f.cancelTimer .activate).addTimer .activate
    { f with activateOrigin := originNs, activateExpires := expireNs }

/-- The loop of `trim_ft_queue` below index `i`. -/
def trimLoop : Nat → RvFt → RvFt
  | 0, f => f
  | i + 1, f =>
      match f.group.ptr i with
      | none => f
      | some p =>
          if p ≠ .me ∧ f.expiredDeltaMs (f.group.peer p).lastRcvNs f.activateMs ≤ 0 then
            trimLoop i (f.withGroup (f.group.dropPeer p .finish))
          else trimLoop i f

def trimFtQueue (f : RvFt) : RvFt := trimLoop f.group.live.length f

/-- The end of `prepare_takeover`: the timers up to the takeover. -/
def armTakeover (f : RvFt) (p : PeerRef) (action : FtAction) (originNs : Nat) : RvFt :=
  if f.prepareMs > 0 ∧ f.expiredDeltaMs originNs f.prepareMs > 0 then f.setPrepareTimer p
  else
    let f := if action = .prepare ∧
        ¬ (f.me.state = .join ∧ p ≠ .me ∧ (f.group.peer p).isGreaterWeight f.me) then
        f.notifyChange .prepare
      else f
    f.setActivateTimer p

/-- `prepare_takeover`, given the `set_state` that it calls. It has no result
when the queue array was never filled and `ptr[ 0 ]` is null. -/
def prepareTakeover (setState : FtState → RvFt → Option RvFt) (action : FtAction)
    (deadline : Nat) (f : RvFt) : Option RvFt := do
  let p ← f.group.ptr 0
  if p = .me ∨ f.me.state = .join then
    if f.expiredDeltaMs f.startMono f.activateMs ≤ 0 then
      let f ← if p = .me ∨ (f.me.state = .join ∧ f.me.isGreaterWeight (f.group.peer p)) then
          setState .primary f
        else setState .secondary f
      return f.notifyUpdate
    else return f.armTakeover p action f.startMono
  else if f.group.ptr 1 ≠ some .me then return f
  else if deadline ≠ 0 then
    let f := (f.cancelTimer .prepare).cancelTimer .activate
    return if f.prepareMs > 0 then f.notifyChange .prepare else f
  else return f.armTakeover p action (f.group.peer p).lastRcvNs

/-- The head of `set_state`. -/
def enterState (f : RvFt) (state : FtState) : RvFt :=
  if state ≠ f.me.state then { f.withGroup (f.group.restate state) with stateNs := f.monoNs }
  else f

/-- `set_state`. The first argument bounds the depth of its recursion through
`prepare_takeover`. -/
def setStateWithin : Nat → FtState → RvFt → Option RvFt
  | 0, _, _ => none
  | depth + 1, state, f =>
      let oldState := f.me.state
      let f := f.enterState state
      match state with
      | .listen => some (f.sendMsg .announce [])
      | .join => do
          let f := f.withGroup (f.group.insert .me)
          let f := f.sendMsg .announce []
          let f ← f.prepareTakeover (setStateWithin depth) .join 0
          return f.notifyChange .join
      | .primary =>
          let f := { f with activateNs := f.stateNs }
          let f := f.notifyChange .activate
          some (f.sendMsg .activate [])
      | .secondary =>
          let f := if oldState ≠ .secondary then
              let f := { f with deactivateNs := f.stateNs }
              let f := f.sendMsg .deactivate []
              f.notifyChange .deactivate
            else f
          f.prepareTakeover (setStateWithin depth) .deactivate 0
      | .finish => some f.finish

/-- `set_state` calls itself at most twice: join, secondary, primary. -/
def setState (state : FtState) (f : RvFt) : Option RvFt := setStateWithin 3 state f

/-- The intervals that `start_hb` ends up with, and whether any changed. -/
def hbIntervals (f : RvFt) (hbIval actIval prepIval : Nat) : Nat × Nat × Nat :=
  let heartbeatMs := if hbIval ≠ 0 then hbIval else f.heartbeatMs
  let activateMs := if actIval ≠ 0 then actIval else f.activateMs
  let prepareMs := if prepIval ≠ 0 then prepIval else f.prepareMs
  let activateMs := if activateMs ≤ heartbeatMs then
      (heartbeatMs * 2 + heartbeatMs / 10) % 2 ^ 32
    else activateMs
  let prepareMs := if prepareMs ≠ 0 ∧ (prepareMs < heartbeatMs ∨ prepareMs ≥ activateMs) then
      (heartbeatMs + activateMs) % 2 ^ 32 / 2
    else prepareMs
  (heartbeatMs, activateMs, prepareMs)

/-- Whether `start_hb` takes the branches that set `changed`. -/
def hbChanged (f : RvFt) (hbIval actIval prepIval : Nat) : Bool :=
  let heartbeatMs := if hbIval ≠ 0 then hbIval else f.heartbeatMs
  let activateMs := if actIval ≠ 0 then actIval else f.activateMs
  let prepareMs := if prepIval ≠ 0 then prepIval else f.prepareMs
  let newAct := (f.hbIntervals hbIval actIval prepIval).2.1
  (decide (heartbeatMs ≠ f.heartbeatMs) || decide (activateMs ≠ f.activateMs) ||
    decide (prepareMs ≠ f.prepareMs) || decide (activateMs ≤ heartbeatMs) ||
    decide (prepareMs ≠ 0 ∧ (prepareMs < heartbeatMs ∨ prepareMs ≥ newAct)))

def startHb (f : RvFt) (hbIval actIval prepIval : Nat) : RvFt :=
  let changed := f.hbChanged hbIval actIval prepIval
  let (heartbeatMs, activateMs, prepareMs) := f.hbIntervals hbIval actIval prepIval
  let f := { f with heartbeatMs := heartbeatMs, activateMs := activateMs, prepareMs := prepareMs }
  let f := if changed then
      ((f.cancelTimer .activate).cancelTimer .prepare).cancelTimer .heartbeat
    else f
  if f.timerMask .heartbeat then f
  else { f.addTimer .heartbeat with lastHbNs := f.monoNs }

/-- `start`, called at the times `nowNs` and `monoNs`. -/
def start (f : RvFt) (param : FtParameters) : Option RvFt := do
  let user := param.user.take 63
  let group := { f.group with stateCount := {} }.modify .me (fun _ =>
    { startNs := f.nowNs, weight := param.weight, user := user })
  let f := { f with
    group := group.updateState .me .listen
    tid := f.nowNs
    stateNs := f.monoNs
    startMono := f.monoNs
    joinMs := param.joinMs
    heartbeatMs := param.heartbeatMs
    activateMs := param.activateMs
    prepareMs := param.prepareMs
    finishMs := param.finishMs
    inboxNum := param.inboxNum
    syncInboxNum := param.syncInboxNum
    syncInbox := f.client.makeInbox param.syncInboxNum
    ftSub := param.ftSub.take 63 }
  let f := f.emit (.subscribe f.ftSub)
  let f := if f.joinMs ≠ 0 then f.addTimer .join else f
  let f := f.startHb param.heartbeatMs param.activateMs param.prepareMs
  let f ← f.setState .listen
  return f.notifyChange .listen

def stop (f : RvFt) : Option RvFt :=
  if f.finishMs = 0 then f.setState .finish
  else if f.timerMask .finish then some f
  else some ((f.sendMsg .finish []).addTimer .finish)

def activate (f : RvFt) : Option RvFt :=
  if f.me.state = .listen then
    ({ f with startMono := f.monoNs }.cancelTimer .join).setState .join
  else some f

def deactivate (f : RvFt) : Option RvFt := do
  if f.me.state ≠ .listen then
    let f := f.withGroup (f.group.remove .me)
    let f ← f.stopTimers.setState .listen
    return f.notifyChange .listen
  else return f

/-- `ival > -100 && ival < 100` -/
def isAccurate (ival : Int) : Bool := decide (ival > -100 ∧ ival < 100)

/-- The callback of the activate and prepare timers. -/
def takeoverTimer (f : RvFt) (action : FtAction) (ival : Int) : Option RvFt := do
  let f := { f with timerMask := Function.update f.timerMask action false }
  let f ← if isAccurate ival ∧ (f.me.state = .secondary ∨ f.me.state = .join) then
      f.trimFtQueue.prepareTakeover setState action 0
    else some f
  return f.notifyUpdate

/-- The callback of the heartbeat timer. -/
def heartbeatTimer (f : RvFt) : Option RvFt := do
  let accurate := isAccurate (f.expiredDeltaMs f.lastHbNs f.heartbeatMs)
  let f := if accurate then f.trimFtQueue else f
  let f ← if f.me.state = .primary then some (f.sendMsg .heartbeat [])
    else if f.me.state ≠ .listen then
      (if accurate then f.prepareTakeover setState .heartbeat 0 else some f).map
        (fun f => f.sendMsg .keepalive [])
    else some f
  return { f with lastHbNs := f.monoNs }.notifyUpdate

/-- `timer_cb`, with its result: whether the timer is armed again. -/
def timerCb (f : RvFt) (id : Nat) (action : FtAction) : Option (RvFt × Bool) := do
  if id ≠ f.tid then return (f, false)
  match action with
  | .activate =>
      return (← f.takeoverTimer .activate (f.expiredDeltaMs f.activateOrigin f.activateMs), false)
  | .prepare =>
      return (← f.takeoverTimer .prepare (f.expiredDeltaMs f.prepareOrigin f.prepareMs), false)
  | .heartbeat => return (← f.heartbeatTimer, true)
  | .join =>
      let f := { f with timerMask := Function.update f.timerMask .join false }
      return (← f.setState .join, false)
  | .finish =>
      let f := { f with timerMask := Function.update f.timerMask .finish false }
      return (← f.setState .finish, false)
  | _ => return (f, false)

/-- `cur_time - peer.cur_time` as an `int64_t` -/
def latencyNs (curTime sent : Nat) : Int :=
  (BitVec.ofNat 64 curTime - BitVec.ofNat 64 sent).toInt

/-- The outcome of `check_latency`: the message is discarded, or accepted
with or without a new sample. -/
def checkLatency (f : RvFt) (p : FtPeer) (ns : Int) : Option FtPeer :=
  let skew := p.latency
  if skew ≠ 0 then
    let ms := ns.tdiv (1000 * 1000)
    let skew := skew.tdiv (1000 * 1000)
    if ms < -((f.activateMs : Int) - skew) ∨ ms > (f.activateMs : Int) + skew then none
    else if ms < -((f.heartbeatMs : Int) - skew) ∨ ms > (f.heartbeatMs : Int) + skew then some p
    else some (p.accumLatency ns)
  else some (p.accumLatency ns)

/-- The head of `on_peer_msg`: in the listen state the intervals of the
oldest peer are taken over. -/
def followOldest (f : RvFt) (m : FtPeerMsg) : RvFt :=
  if f.me.state = .listen ∧ m.startNs < f.me.startNs ∧
      (f.oldestPeer = 0 ∨ m.startNs < f.oldestPeer) then
    { f with oldestPeer := m.startNs }.startHb m.hbIval m.actIval m.prepIval
  else f

/-- The record of the sender of a message, found or made and then set. There
is none when the message is discarded. -/
def recordPeer (f : RvFt) (m : FtPeerMsg) : Option (Option (RvFt × PeerRef)) :=
  match f.group.find m.startNs with
  | none => do
      let (group, p) ← f.group.makePeer m
      let group := group.modify p (fun x => x.accumLatency (latencyNs f.nowNs m.curTime))
      let group := group.modify p (fun x => { x with lastRcvNs := f.lastRcvNs })
      return some (f.withGroup { group with peerHt := (m.startNs, p) :: group.peerHt }, p)
  | some p =>
      match f.checkLatency (f.group.peer p) (latencyNs f.nowNs m.curTime) with
      | none => some none
      | some sampled =>
          let group := (f.group.modify p (fun _ => sampled)).set p m
          let group := group.modify p (fun x => { x with lastRcvNs := f.lastRcvNs })
          some (some (f.withGroup group, p))

/-- "check if I am primary or secondary" -/
def checkRank (f : RvFt) : Option RvFt := do
  if f.me.state = .secondary then
    if f.group.ptr 0 ≠ some .me then f.setState .secondary else f.setState .primary
  else if f.me.state = .primary then
    if f.group.ptr 0 ≠ some .me then f.setState .secondary else return f
  else return f

/-- "ack the announcements" -/
def ackAnnounce (f : RvFt) (m : FtPeerMsg) : RvFt :=
  if m.type = .announce ∧ f.me.state ≠ .listen then f.sendMsg .ack m.reply else f

def onPeerMsg (f : RvFt) (m : FtPeerMsg) : Option RvFt := do
  let f := { f with lastRcvNs := f.monoNs }
  let f := f.followOldest m
  if m.state = .listen then
    let f := match f.group.find m.startNs with
      | some p => f.withGroup (f.group.dropPeer p .listen)
      | none => f
    return f.notifyUpdate.ackAnnounce m
  else
    match ← f.recordPeer m with
    | none => return f
    | some (f, p) =>
        if m.type ≠ .exiting then
          let f := f.withGroup (f.group.update p)
          if f.me.state = .listen then return f.notifyUpdate
          else if m.type = .finish then
            let f ← if f.group.ptr 0 = some p then
                f.prepareTakeover setState .finish m.finTime
              else some f
            return f.notifyUpdate
          else
            let f ← f.checkRank
            return f.notifyUpdate.ackAnnounce m
        else
          let f := f.withGroup (f.group.dropPeer p .finish)
          let f ← f.checkRank
          return f.notifyUpdate.ackAnnounce m

/-- The message of a publication whose fields pass the checks of
`process_pub`. -/
def FtFields.peerMsg (x : FtFields) (reply : Text) : Option FtPeerMsg := do
  let type ← FtMsgType.ofCode x.type
  let state ← FtState.ofCode x.state
  if x.startNs = 0 then none
  else return { x with type := type, state := state, reply := reply }

/-- `process_pub`, with its result: whether the publication was for FT. -/
def processPub (f : RvFt) (pub : EvPublish) : Option (RvFt × Bool) := do
  let i := f.client.isInbox pub.subject
  if pub.subject ≠ f.ftSub ∧ i ≠ f.inboxNum then
    if i = f.syncInboxNum then return (f.emit .onFtSync, true)
    else return (f, false)
  else
    match pub.fields.bind (FtFields.peerMsg · pub.reply) with
    | none => return (f, false)
    | some m =>
        if m.startNs = f.me.startNs then return (f, true)
        else return (← f.onPeerMsg m, true)

end RvFt

/-- Calls into one instance. -/
inductive FtCall where
  | start (param : FtParameters)
  | stop
  | activate
  | deactivate
  | timer (id : Nat) (action : FtAction)
  | publish (pub : EvPublish)

/-- A call at the two times that the event loop has read before it. -/
structure FtInput where
  nowNs : Nat
  monoNs : Nat
  call : FtCall

namespace RvFt

/-- A timer that fires leaves the timer queue, and is put back when its
callback says so. Only armed timers fire. -/
def fire (f : RvFt) (id : Nat) (action : FtAction) : Option RvFt := do
  if (id, action) ∈ f.timers then
    let (f, again) ← { f with timers := f.timers.erase (id, action) }.timerCb id action
    return if again then { f with timers := f.timers ++ [(id, action)] } else f
  else none

def dispatch (f : RvFt) : FtCall → Option RvFt
  | .start param => f.start param
  | .stop => f.stop
  | .activate => f.activate
  | .deactivate => f.deactivate
  | .timer id action => f.fire id action
  | .publish pub => do return (← f.processPub pub).1

/-- The state in which a call begins. -/
def atTime (f : RvFt) (nowNs monoNs : Nat) : RvFt :=
  { f with nowNs := nowNs, monoNs := monoNs, out := [] }

def handle (f : RvFt) (input : FtInput) : Option (RvFt × List FtOut) := do
  let f ← (f.atTime input.nowNs input.monoNs).dispatch input.call
  return (f, f.out)

end RvFt

/-- One instance from its first `start` on. The monotonic clock does not run
backwards. -/
def ftSystem : System RvFt FtInput FtOut where
  init := fun f => ∃ client nowNs monoNs param,
    ({ client, nowNs, monoNs : RvFt }).start param = some f
  step := fun f input emitted g =>
    f.monoNs ≤ input.monoNs ∧ f.handle input = some (g, emitted)

end Sassrv.Ft
