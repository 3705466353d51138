import Sassrv.Lib.Transition
import Sassrv.Rv7.FtPeer

/-! A member of an rv7 fault tolerance group. A call runs under the mutex of the
member from one end to the other, except that `do_callback` releases it around the
callback of the application: there the call is cut, what is left of it is kept
among the suspended calls, and calls of other threads can come in between. -/
namespace Sassrv.Rv7.Ft
open SubMgr Transition

inductive TimerKind where
  | prepare
  | activate
  | hb
  deriving DecidableEq, Repr

/-- `tibrvftAction`. -/
inductive Action where
  | prepareToActivate
  | activate
  | deactivate
  deriving DecidableEq, Repr

/-- `api_FtMember`, without the callback and its closure. The list of peers holds the
member's own record, the one with the inbox `self`. -/
structure FtMember where
  self : Text
  peers : List FtPeer
  activateId : BitVec 32 := 0
  prepareId : BitVec 32 := 0
  hbId : BitVec 32 := 0
  startTime : BitVec 64 := 0
  prepareTime : BitVec 64 := 0
  fterrTime : BitVec 64 := 0
  isDestroyed : Bool := false

inductive FtSubject where
  | start
  | sync
  | status
  | activeHb
  | activeStart
  | activeStop
  | inbox (name : Text)
  deriving DecidableEq

inductive FtOutput where
  | callback (action : Action)
  | publish (subject : FtSubject) (m : FtMsg)
  | advisory (cl nm : Text) (de : Option Text)

/-- What the api answers during one stretch of code: the times that `update_peer` or
the heartbeat, the two kinds of advisories, `update_time` and `prepare` read, and the
ids of new timers. -/
structure Api where
  now : BitVec 64
  warned : BitVec 64
  crowded : BitVec 64
  updated : BitVec 64
  prepared : BitVec 64
  timer : TimerKind → BitVec 32

/-- A member while a call works on it, with the timers that exist. -/
structure FtWork where
  member : FtMember
  timers : List (TimerKind × BitVec 32)
  out : List FtOutput := []

/-- The callback windows, by what is left of the call. The calls of `activate_now` keep
what `update_peer` still needs: the peer and the state of the message. -/
inductive Cont where
  | activateTimer
  | prepareTimer
  | nowPrepared (inbox : Text) (state : FtState)
  | nowActivated (inbox : Text) (state : FtState)
  | deactivated
  deriving DecidableEq

def FtMember.me (m : FtMember) : FtPeer := (findPeer m.self m.peers).getD { inbox := m.self }

def FtMember.idOf (m : FtMember) : TimerKind → BitVec 32
  | .prepare => m.prepareId
  | .activate => m.activateId
  | .hb => m.hbId

def FtMember.setId (m : FtMember) (kind : TimerKind) (id : BitVec 32) : FtMember :=
  match kind with
  | .prepare => { m with prepareId := id }
  | .activate => { m with activateId := id }
  | .hb => { m with hbId := id }

namespace FtWork

variable (env : FtEnv) (api : Api) (w : FtWork)

def emit (output : FtOutput) : FtWork := { w with out := w.out ++ [output] }

def setMe (f : FtPeer → FtPeer) : FtWork :=
  { w with member := { w.member with peers := modifyPeer w.member.self f w.member.peers } }

def setPeers (peers : List FtPeer) : FtWork := { w with member := { w.member with peers := peers } }

def publish (subject : FtSubject) (flds : BitVec 8) : FtWork :=
  w.emit (.publish subject (Ft.publish env w.member.me flds))

/-- An advisory to the application, at most one for each heartbeat interval. -/
def publishRvftsub (now : BitVec 64) (cl nm : Text) (de : Option Text) : Bool × FtWork :=
  if now < w.member.fterrTime + w.member.me.hbNs then (false, w)
  else (true, { w with member := { w.member with fterrTime := now } }.emit (.advisory cl nm de))

def createTimer (kind : TimerKind) : FtWork :=
  { w with
    member := w.member.setId kind (api.timer kind)
    timers := if api.timer kind = 0 then w.timers else w.timers ++ [(kind, api.timer kind)] }

def destroyTimer (kind : TimerKind) : FtWork :=
  if w.member.idOf kind = 0 then w
  else
    { w with
      member := w.member.setId kind 0
      timers := w.timers.filter fun t => t.2 ≠ w.member.idOf kind }

def stopTimers : FtWork := ((w.destroyTimer .prepare).destroyTimer .activate).destroyTimer .hb

/-- A peer in front that does not run is asked to answer. -/
def askHead : FtWork :=
  match w.member.peers with
  | [] => w
  | p :: rest =>
      if p.inbox ≠ w.member.self && !p.isRunning && decide (p.syncTime = 0) &&
          decide (p.lastSync + p.activateNs < api.prepared) then
        (w.setPeers ({ p with syncTime := api.prepared, lastSync := api.prepared } :: rest)).publish
          env .sync 1
      else w

def prepare : FtWork :=
  let w := w.stopTimers
  let kind :=
    if w.member.me.prepareIval ≠ 0 && decide (w.member.me.prepareIval < w.member.me.activateIval)
    then .prepare else .activate
  let w := w.createTimer api kind
  if w.member.idOf kind ≠ 0 then w.askHead env api else w

def isBelowGoal : Bool := decide (w.member.me.rank < w.member.me.activeGoal)

/-- `do_callback` up to the release of the mutex. -/
def doCallback (action : Action) : FtWork :=
  if w.member.isDestroyed then w else w.emit (.callback action)

/-- One peer in the walk of `update_time`: whether it changes, and what it becomes. -/
def agePeer (now : BitVec 64) (x : FtPeer) : Bool × FtPeer :=
  let quiet := x.isRunning && x.isPast now x.activateNs
  let x := if quiet then { x with isRunning := false } else x
  let mute := !x.isRunning && decide (x.syncTime ≠ 0) && decide (x.rank = 0) &&
    decide (x.syncTime + x.activateNs < now)
  (quiet || mute, if mute then { x with isUnresponsive := true } else x)

def updateTime : FtWork :=
  let w := w.setMe fun p => { p with lastSeen := api.updated }
  let aged := w.member.peers.map (agePeer api.updated)
  let peers := aged.map Prod.snd
  w.setPeers (if aged.any Prod.fst then rankPeers (env.sort comparePeer peers) else peers)

/-- The end of `update_peer` for a member that is not to be active. -/
def standBy : FtWork := w.stopTimers.prepare env api

/-- The second half of the decision of `update_peer`. -/
def deactivate : FtWork × Option Cont :=
  if !w.isBelowGoal && decide (w.member.hbId ≠ 0) then (w.doCallback .deactivate, some .deactivated)
  else (w.standBy env api, none)

/-- The rest of `update_peer` for an active member. -/
def stayActive (inbox : Text) (state : FtState) : FtWork × Option Cont :=
  if w.isBelowGoal && w.member.me.isRunning then
    let rank := ((findPeer inbox w.member.peers).map FtPeer.rank).getD 0
    if state = .active && decide (w.member.me.activeGoal ≤ rank) then
      ((w.publishRvftsub api.crowded (text "WARN") (text "TOO_MANY_ACTIVE") none).2, none)
    else (w, none)
  else w.deactivate env api

/-- The return of `activate_now` into `update_peer`. -/
def activatedNow (inbox : Text) (state : FtState) : FtWork × Option Cont :=
  let w := if w.member.hbId = 0 then w.prepare env api else w
  if w.member.hbId = 0 then (w, none) else w.stayActive env api inbox state

/-- The member announces that it is active and tells the application. -/
def startActive : FtWork :=
  ((w.setMe fun p => { p with isRunning := true }).publish env .activeStart 0).doCallback .activate

def activateNow2 (inbox : Text) (state : FtState) : FtWork × Option Cont :=
  if !w.member.isDestroyed && w.isBelowGoal then
    (w.startActive env, some (.nowActivated inbox state))
  else w.activatedNow env api inbox state

/-- Whether `PREPARE_TO_ACTIVATE` is due. -/
def isPrepareDue : Bool :=
  decide (w.member.prepareTime + env.toNs w.member.me.prepareIval < api.updated)

def setPrepared : FtWork :=
  { w with member := { w.member with prepareTime := api.updated } }.doCallback .prepareToActivate

def activateNow (inbox : Text) (state : FtState) : FtWork × Option Cont :=
  let w := w.updateTime env api
  let uptime := w.member.me.lastSeen - w.member.startTime
  if env.reaches uptime w.member.me.activateIval && env.reaches uptime w.member.me.prepareIval then
    let w := w.stopTimers
    if w.isBelowGoal then
      if decide (0 < w.member.me.prepareIval) &&
          decide (w.member.me.prepareIval < w.member.me.activateIval) && w.isPrepareDue env api then
        (w.setPrepared api, some (.nowPrepared inbox state))
      else w.activateNow2 env api inbox state
    else w.activatedNow env api inbox state
  else if w.member.hbId = 0 then (w, none) else w.stayActive env api inbox state

/-- What `update_peer` decides once the peers are ranked. -/
def decideState (inbox : Text) (state : FtState) : FtWork × Option Cont :=
  if w.isBelowGoal then
    if w.member.hbId = 0 then w.activateNow env api inbox state
    else w.stayActive env api inbox state
  else w.deactivate env api

/-- The intervals and the goal of the member itself, for a new peer that tells none. -/
def ownValues : FtValues where
  maxActives := w.member.me.activeGoal.setWidth 32
  hbInterval := env.toMs w.member.me.hbIval
  pendInterval := env.toMs w.member.me.prepareIval
  actInterval := env.toMs w.member.me.activateIval

/-- One of the checks for parameters that differ: at most one advisory for each peer. -/
def warnOnce (inbox : Text) (differs : Bool) (bit : BitVec 8) (cl de : Text) : Bool × FtWork :=
  let err := ((findPeer inbox w.member.peers).map FtPeer.pubErr).getD 0
  if differs && decide (err &&& bit = 0) then
    let (sent, w) := w.publishRvftsub api.warned cl (text "PARAM_MISMATCH") (some de)
    if sent then
      (true, w.setPeers (modifyPeer inbox (fun p => { p with pubErr := p.pubErr ||| bit })
        w.member.peers))
    else (false, w)
  else (false, w)

def checkValues (inbox : Text) (v : FtValues) : FtWork :=
  let me := w.member.me
  let (sent, w) := w.warnOnce api inbox (decide (v.maxActives ≠ me.activeGoal.setWidth 32)) 1
    (text "ERROR") (text "Active goal")
  if sent then w
  else
    let (sent, w) := w.warnOnce api inbox (decide (v.hbInterval ≠ me.hbIval)) 2
      (text "WARN") (text "Heartbeat interval")
    if sent then w
    else
      (w.warnOnce api inbox (decide (v.actInterval ≠ me.activateIval)) 4
        (text "ERROR") (text "Activate interval")).2

def setValues (inbox : Text) (v : FtValues) : FtWork :=
  (w.setPeers (modifyPeer inbox (FtPeer.setValues env v) w.member.peers)).checkValues api inbox v

/-- The sender of a message is found in the list or added to it. -/
def admitPeer (m : FtMsg) (weight : BitVec 32) (state : FtState) : FtWork :=
  match findPeer m.reply w.member.peers with
  | some _ =>
      let w := w.setPeers (modifyPeer m.reply (fun p => (p.see api.now weight).stopIf state)
        w.member.peers)
      let w := if state = .sync then w.publish env (.inbox m.reply) 1 else w
      match m.values with
      | some v => w.setValues env api m.reply v
      | none => w
  | none =>
      let w := w.publish env (.inbox m.reply) 1
      (w.setPeers (w.member.peers ++ [newPeer m weight])).setValues env api m.reply
        (m.values.getD (w.ownValues env))

/-- The pass of `update_peer` over the list, for the peer of the event. -/
def rankAll (inbox : Text) (state : FtState) : FtWork :=
  let peers := modifyPeer inbox (FtPeer.enter state api.now) w.member.peers
  let ns := ((findPeer inbox peers).map FtPeer.activateNs).getD 0
  w.setPeers (reap api.now (order env api.now ns peers))

def seeMe : FtWork := w.setMe fun p => { p with lastSeen := api.now }

/-- `update_peer` for a message. -/
def updatePeer (m : FtMsg) (state : FtState) : FtWork × Option Cont :=
  match m.weight with
  | none => (w, none)
  | some weight =>
      if m.reply.length < 16 then (w, none)
      else if m.reply = w.member.self then (w.seeMe api, none)
      else
        (((w.seeMe api).admitPeer env api m weight state).rankAll env api m.reply state).decideState
          env api m.reply state

/-- `update_peer` for an advisory that a peer has ended. -/
def endPeer (inbox : Text) : FtWork × Option Cont :=
  let w := w.setPeers (modifyPeer inbox FtPeer.stopEvents w.member.peers)
  (w.rankAll env api inbox .stop).decideState env api inbox .stop

def activateTimerCb : FtWork × Option Cont :=
  if w.member.isDestroyed then (w, none)
  else if w.member.hbId = 0 then
    let w := w.stopTimers.updateTime env api
    if w.isBelowGoal then (w.startActive env, some .activateTimer)
    else (if w.member.hbId = 0 then w.prepare env api else w, none)
  else (w, none)

/-- The end of `prepare_timer_cb`. -/
def waitActivate : FtWork :=
  let w := if !w.member.isDestroyed && w.isBelowGoal then w.createTimer api .activate else w
  if w.member.activateId = 0 then w.prepare env api else w

def prepareTimerCb : FtWork × Option Cont :=
  if w.member.isDestroyed then (w, none)
  else if w.member.hbId = 0 then
    let w := w.stopTimers.updateTime env api
    if w.isBelowGoal && w.isPrepareDue env api then (w.setPrepared api, some .prepareTimer)
    else (w.waitActivate env api, none)
  else (w, none)

def hbTimerCb : FtWork :=
  if w.member.isDestroyed then w
  else if w.isBelowGoal then
    (w.setMe fun p => { p with lastSeen := api.now, isRunning := true }).publish env .activeHb 0
  else w.prepare env api

/-- A call goes on after the callback. -/
def resume : Cont → FtWork × Option Cont
  | .activateTimer =>
      let w := if w.member.isDestroyed then w else w.createTimer api .hb
      (if w.member.hbId = 0 then w.prepare env api else w, none)
  | .prepareTimer => (w.waitActivate env api, none)
  | .nowPrepared inbox state => w.activateNow2 env api inbox state
  | .nowActivated inbox state =>
      let w := if !w.member.isDestroyed && w.isBelowGoal then w.createTimer api .hb else w
      w.activatedNow env api inbox state
  | .deactivated =>
      if w.member.isDestroyed then (w, none)
      else if w.isBelowGoal then (w, none)
      else
        (((w.setMe fun p => { p with isRunning := false }).publish env .activeStop 0).standBy
          env api, none)

/-- `SetFtMemberWeight`, which does not take the mutex. -/
def setWeight (weight : BitVec 16) : FtWork :=
  if weight = w.member.me.weight then w
  else (w.setMe fun p => { p with weight := weight }).publish env .status 1

end FtWork

/-- The arguments of `CreateFtMember`, and the inbox that it makes up. -/
structure FtArgs where
  inbox : Text
  weight : BitVec 16
  activeGoal : BitVec 16
  hbIval : BitVec 32
  prepareIval : BitVec 32
  activateIval : BitVec 32

def FtArgs.me (env : FtEnv) (args : FtArgs) (now : BitVec 64) : FtPeer where
  inbox := args.inbox
  weight := args.weight
  activeGoal := args.activeGoal
  hbIval := args.hbIval
  hbNs := env.toNs args.hbIval
  prepareIval := args.prepareIval
  activateIval := args.activateIval
  activateNs := env.toNs args.activateIval
  lastSeen := now

/-- The member as `CreateFtMember` leaves it. -/
def FtArgs.create (env : FtEnv) (api : Api) (args : FtArgs) : FtWork :=
  let member : FtMember :=
    { self := args.inbox
      peers := [args.me env api.now]
      startTime := api.now }
  ({ member := member, timers := [] : FtWork }.publish env .start 1).prepare env api

/-- The events of a member. A message comes with the state of the subject it was sent on. -/
inductive MemberInput where
  | message (m : FtMsg) (state : FtState)
  | peerStop (inbox : Text)
  | activateTimer
  | prepareTimer
  | hbTimer
  | setWeight (weight : BitVec 16)
  | resume (c : Cont)
  deriving DecidableEq

/-- A member between two stretches of code, with the calls whose callback has not returned. -/
structure FtSession where
  work : FtWork
  waiting : List Cont := []

namespace FtSession

def handle (env : FtEnv) (s : FtSession) (api : Api) : MemberInput → FtWork × Option Cont
  | .message m state => s.work.updatePeer env api m state
  | .peerStop inbox => s.work.endPeer env api inbox
  | .activateTimer => s.work.activateTimerCb env api
  | .prepareTimer => s.work.prepareTimerCb env api
  | .hbTimer => (s.work.hbTimerCb env api, none)
  | .setWeight weight => (s.work.setWeight env weight, none)
  | .resume c => s.work.resume env api c

def remaining (s : FtSession) : MemberInput → List Cont
  | .resume c => s.waiting.erase c
  | _ => s.waiting

/-- The state after an event, with the outputs taken out. -/
def next (env : FtEnv) (s : FtSession) (input : Api × MemberInput) : FtSession where
  work := { (s.handle env input.1 input.2).1 with out := [] }
  waiting := (s.handle env input.1 input.2).2.toList ++ s.remaining input.2

/-- An advisory is about another peer of the list, and only a suspended call goes on. -/
def Enabled (s : FtSession) : MemberInput → Prop
  | .peerStop inbox => inbox ≠ s.work.member.self ∧ ∃ x ∈ s.work.member.peers, x.inbox = inbox
  | .resume c => c ∈ s.waiting
  | _ => True

end FtSession

/-- A new timer of the api has an id. -/
def Api.Lawful (api : Api) : Prop := ∀ kind, api.timer kind ≠ 0

def memberSystem (env : FtEnv) : System FtSession (Api × MemberInput) FtOutput where
  init s := ∃ api args, api.Lawful ∧ s = ⟨{ FtArgs.create env api args with out := [] }, []⟩
  step s input emitted s' := input.1.Lawful ∧ s.Enabled input.2 ∧
    emitted = (s.handle env input.1 input.2).1.out ∧ s' = s.next env input

end Sassrv.Rv7.Ft
