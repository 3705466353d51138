import Sassrv.Lib.Partial
import Sassrv.Lib.Table
import Sassrv.SubMgr.Text

/-! `EvRvService`, the connection of a client to the daemon, once the two records of
the handshake are through: the messages that it reads, the messages of the network
that are routed to it, and the host that it reaches both through. `host` is null
until an `I` message starts the network of a service. -/
namespace Sassrv.Daemon
open SubMgr

def isInboxSubject (sub : Text) : Bool := decide (7 < sub.length) && (text "_INBOX.").isPrefixOf sub

/-- The subjects that have no advisories and do not show in the answers. -/
def isRestrictedSubject (sub : Text) : Bool :=
  (decide (4 < sub.length) && (text "_RV.").isPrefixOf sub) || isInboxSubject sub

def hexchar2 (n : Nat) : UInt8 := if n < 10 then UInt8.ofNat (48 + n) else UInt8.ofNat (55 + n)

/-- The parts of `RvHost` that the connection goes to. -/
structure Host where
  networkStarted : Bool
  /-- The service, when its name is put in front of subjects. -/
  service : Option Text := none
  daemonId : Text := []
  lossSubjects : List Text := []
  subMap : Table Text (BitVec 32) := .empty
  bytesRecv : Nat := 0
  msgsRecv : Nat := 0
  msgsSent : Nat := 0

/-- `mtype` of a message, as far as `unpack` lets it through. -/
inductive MType where
  | advisory
  | cancel
  | data
  | info
  | listen
  | response
  | process
  deriving DecidableEq

/-- The fields of an `I` message that are read; `readable` is that the iteration over them
does not fail. -/
structure Info where
  readable : Bool := true
  session : Option Text := none
  service : Text := []
  network : Text := []

structure Envelope where
  mtype : MType
  sub : Text := []
  isWild : Bool := false
  info : Info := {}

instance neZeroStatus : NeZero 5 := inferInstance

/-- A complete message: its length and what `unpack` makes of it, the fields or
the status of an error. -/
structure Message where
  len : Nat
  unpacked : Except (Fin 5) Envelope

/-- A message of the network; `isLoss` is a status that reports lost messages, and
`encodes` that the message can be put in a client's format. -/
structure Publish where
  subject : Text
  isLoss : Bool := false
  encodes : Bool := true

inductive Flow where
  | good
  | backpressure
  | stalled
  deriving DecidableEq

/-- What comes from elsewhere: the id the daemon makes up for the connection,
patterns, the listener that starts networks and the routes that take messages. The
number is how often the connection has asked before. -/
structure Env where
  gob : Text
  converts : Text → Bool
  compiles : Text → Bool
  isMatch : Text → Text → Bool
  /-- `notify != NULL`. -/
  notified : Bool
  startNetwork : Nat → Text → Text → Int × Host
  forwardMsg : Nat → Flow

/-- What the connection sends and has the host send. -/
inductive Sent where
  | initRefused (status : Int)
  | initResp
  | connected
  | hostStart
  | sessionStart
  | listenStart (sub : Text) (refcnt : BitVec 32)
  | listenStop (sub : Text)
  | published (sub : Text)
  | delivered (sub : Text)
  deriving DecidableEq

structure Service where
  host : Option Host := none
  hostStarted : Bool := false
  sentInitresp : Bool := false
  sentRvdconn : Bool := false
  isDaemon : Bool := false
  isSession : Bool := false
  sentSessionStart : Bool := false
  isBackpressure : Bool := false
  session : Text := []
  pre : Text := []
  subTab : Table Text (BitVec 32) := .empty
  patTab : Table Text (BitVec 32) := .empty
  asked : Nat := 0
  sent : List Sent := []
  /-- Complete messages that wait to be dispatched. -/
  buffer : List Message := []
  closed : Bool := false

/-- `this->host->`. -/
def Service.hostAt (s : Service) : Result Host :=
  match s.host with
  | none => .error .nullPointer
  | some host => .ok host

def Service.send (s : Service) (out : Sent) : Service := { s with sent := s.sent ++ [out] }

def Service.setHost (s : Service) (host : Host) : Service := { s with host := some host }

/-- `sub_tab.put`, and the count it returns. -/
def putSub (s : Service) (sub : Text) : Service × BitVec 32 :=
  match s.subTab.find? sub with
  | some n => ({ s with subTab := s.subTab.insert sub (n + 1) }, n + 1)
  | none => ({ s with subTab := s.subTab.insert sub 1 }, 1)

/-- A pattern in `pat_tab`; one that does not compile is counted and not entered. -/
def putPattern (env : Env) (s : Service) (sub : Text) : Service × BitVec 32 :=
  if env.converts sub then
    match s.patTab.find? sub with
    | some n => ({ s with patTab := s.patTab.insert sub (n + 1) }, n + 1)
    | none =>
        if env.compiles sub then ({ s with patTab := s.patTab.insert sub 1 }, 1) else (s, 1)
  else (s, 0)

/-- `RvHost::add_ref`. -/
def Host.addRef (host : Host) (sub : Text) : Host × BitVec 32 :=
  let n := (host.subMap.find? sub).getD 0 + 1
  ({ host with subMap := host.subMap.insert sub n }, n)

/-- `RvHost::rem_ref` of one reference. -/
def Host.remRef (host : Host) (sub : Text) : Host × BitVec 32 :=
  match host.subMap.find? sub with
  | none => (host, 0)
  | some n =>
      if n ≤ 1 then ({ host with subMap := host.subMap.erase sub }, 0)
      else ({ host with subMap := host.subMap.insert sub (n - 1) }, n - 1)

/-- The references of a daemon session are those of its host. -/
def addHostRef (s : Service) (sub : Text) (refcnt : BitVec 32) : Result (Service × BitVec 32) :=
  if refcnt ≠ 0 ∧ s.isDaemon then do
    let host ← s.hostAt
    return (s.setHost (host.addRef sub).1, (host.addRef sub).2)
  else .ok (s, refcnt)

/-- The subject of an `L` message in its table. -/
def enterSub (env : Env) (s : Service) (m : Envelope) : Service × BitVec 32 :=
  if m.isWild then putPattern env s (s.pre ++ m.sub) else putSub s (s.pre ++ m.sub)

def sendListenStart (s : Service) (sub : Text) (refcnt : BitVec 32) : Result Service :=
  if refcnt ≠ 0 then do
    let _ ← s.hostAt
    return s.send (.listenStart sub refcnt)
  else .ok s

def addSub (env : Env) (s : Service) (m : Envelope) : Result Service := do
  let r ← addHostRef (enterSub env s m).1 (s.pre ++ m.sub) (enterSub env s m).2
  sendListenStart r.1 m.sub r.2

/-- The count that stands for a subject that is not there. -/
def notFound : BitVec 32 := BitVec.allOnes 32

def remSubTab (s : Service) (sub : Text) : Service × BitVec 32 :=
  match s.subTab.find? sub with
  | none => (s, notFound)
  | some n =>
      if n = 1 then ({ s with subTab := s.subTab.erase sub }, 0)
      else ({ s with subTab := s.subTab.insert sub (n - 1) }, n - 1)

def remPattern (env : Env) (s : Service) (sub : Text) : Service × BitVec 32 :=
  if env.converts sub then
    match s.patTab.find? sub with
    | none => (s, notFound)
    | some n =>
        if n = 1 then ({ s with patTab := s.patTab.erase sub }, 0)
        else ({ s with patTab := s.patTab.insert sub (n - 1) }, n - 1)
  else (s, notFound)

def remHostRef (s : Service) (sub : Text) (refcnt : BitVec 32) : Result (Service × BitVec 32) :=
  if refcnt ≠ notFound ∧ s.isDaemon then do
    let host ← s.hostAt
    return (s.setHost (host.remRef sub).1, (host.remRef sub).2)
  else .ok (s, refcnt)

/-- The subject of a `C` message out of its table. -/
def leaveSub (env : Env) (s : Service) (m : Envelope) : Service × BitVec 32 :=
  if m.isWild then remPattern env s (s.pre ++ m.sub) else remSubTab s (s.pre ++ m.sub)

def sendListenStop (s : Service) (sub : Text) (refcnt : BitVec 32) : Result Service :=
  if refcnt = 0 then do
    let _ ← s.hostAt
    return s.send (.listenStop sub)
  else .ok s

def remSub (env : Env) (s : Service) (m : Envelope) : Result Service := do
  let r ← remHostRef (leaveSub env s m).1 (s.pre ++ m.sub) (leaveSub env s m).2
  sendListenStop r.1 m.sub r.2

/-- `fwd_pub`; the message carries the address of the host. -/
def fwdPub (env : Env) (s : Service) (m : Envelope) : Result (Service × Flow) := do
  let _ ← s.hostAt
  let flow := env.forwardMsg s.asked
  return ({ s with asked := s.asked + 1 }.send (.published (s.pre ++ m.sub)), flow)

/-- `send_start`. -/
def sendStart (s : Service) (host : Host) : Service :=
  let s := if s.isDaemon || s.isSession then s.send .hostStart else s
  let s := if s.isSession && !s.sentSessionStart then
      { s with sentSessionStart := true }.send .sessionStart
    else s
  { s with pre := host.service.getD s.pre }

/-- The state after the second `I` message: the session of the daemon, or the one
that the client names. -/
def setSession (env : Env) (s : Service) (host : Host) : Service :=
  if s.sentRvdconn then
    if 9 < s.session.length ∧ s.session.drop 9 = env.gob then
      { s with
        session := host.daemonId
        isDaemon := true }
    else { s with isSession := true }
  else s

/-- `respond_info` after `start_network`, which has set the host. -/
def respondStarted (env : Env) (s : Service) (status : Int) (host : Host) : Service :=
  let s := { s with hostStarted := s.hostStarted || host.networkStarted }
  let s :=
    if status ≠ 0 then s.send (.initRefused status)
    else if !s.sentInitresp then { s with sentInitresp := true }.send .initResp
    else { s with sentRvdconn := true }.send .connected
  let s := if status = 0 then setSession env s host else s
  if s.hostStarted then sendStart s host else s

/-- `respond_info`: whether it went through, as `dispatch_msg` tests it. The listener
finds or makes the host whatever its status. A session that is read before the iteration
fails is stored all the same. -/
def respondInfo (env : Env) (s : Service) (info : Info) : Result (Service × Bool) :=
  let s := { s with session := info.session.getD s.session }
  if info.readable then do
    let service := if info.service = [] then text "7500" else info.service
    let (status, started) := env.startNetwork s.asked service info.network
    let s := { s with asked := s.asked + 1 }.setHost started
    let host ← s.hostAt
    return (respondStarted env s status host, true)
  else .ok (s, false)

def errBackpressure : Int := 6

/-- `dispatch_msg` on an unpacked message, and its status. -/
def dispatchEnvelope (env : Env) (s : Service) (m : Envelope) : Result (Service × Int) := do
  match m.mtype with
  | .data =>
      let (s, flow) ← fwdPub env s m
      let s := { s with isBackpressure := flow ≠ .good }
      return (s, if flow = .stalled then errBackpressure else 0)
  | .cancel =>
      let s ← remSub env s m
      return (s, 0)
  | .listen =>
      let s ← addSub env s m
      return (s, 0)
  | .info =>
      let (s, done) ← respondInfo env s m.info
      return (s, if done then 0 else -1)
  | _ => return (s, -1)

/-- `dispatch_msg`. A message of eight bytes is a ping. -/
def dispatchMsg (env : Env) (s : Service) (m : Message) : Result (Service × Int) :=
  match m.unpacked with
  | .error status => .ok (s, if m.len = 8 then 0 else Int.ofNat status.val + 1)
  | .ok envelope => dispatchEnvelope env s envelope

/-- The counters of the host after a message. -/
def countMsg (s : Service) (m : Message) : Result Service := do
  let host ← s.hostAt
  return s.setHost { host with
    bytesRecv := host.bytesRecv + m.len
    msgsRecv := host.msgsRecv + 1 }

/-- `process`: a message with a status stays in the buffer and ends the loop; a
positive status other than backpressure closes the connection. -/
def process (env : Env) (s : Service) : List Message → Result Service
  | [] => .ok { s with buffer := [] }
  | m :: rest => do
      let (s, status) ← dispatchMsg env s m
      if status = 0 then
        let s ← countMsg s m
        process env s rest
      else
        return { s with
          buffer := m :: rest
          closed := decide (0 < status ∧ status ≠ errBackpressure) }

def isSubscribed (env : Env) (s : Service) (subject : Text) : Bool :=
  s.subTab.contains subject || s.patTab.entries.any fun e => env.isMatch e.1 subject

/-- A report of lost messages goes to the listener's owner or to the host. -/
def reportLoss (env : Env) (s : Service) (pub : Publish) : Result Unit :=
  if pub.isLoss ∧ !env.notified then do
    let _ ← s.hostAt
    return ()
  else .ok ()

def fwdMsg (env : Env) (s : Service) (pub : Publish) : Result Service :=
  if pub.subject.length < s.pre.length then .ok s
  else do
    reportLoss env s pub
    if pub.encodes then
      let host ← s.hostAt
      return (s.setHost { host with msgsSent := host.msgsSent + 1 }).send (.delivered pub.subject)
    else return s

/-- `on_msg`. -/
def onMsg (env : Env) (s : Service) (pub : Publish) : Result Service :=
  if isSubscribed env s pub.subject then fwdMsg env s pub
  else do
    let host ← s.hostAt
    if pub.subject ∈ host.lossSubjects then fwdMsg env s pub else return s

inductive Input where
  /-- The client's next messages, as they come in one read. -/
  | read (msgs : List Message)
  | onMsg (pub : Publish)

/-- A connection has routes from its first subscription on. -/
def Service.isRouted (s : Service) : Bool := s.subTab.entries ≠ [] || s.patTab.entries ≠ []

def handle (env : Env) (s : Service) : Input → Result Service
  | .read msgs => if s.closed then .ok s else process env s (s.buffer ++ msgs)
  | .onMsg pub => if s.isRouted && !s.closed then onMsg env s pub else .ok s

def serve (env : Env) (inputs : List Input) : Result Service := inputs.foldlM (handle env) {}

/-- A field of a message in the bytes of the wire, with a short size. -/
def wireField (name : String) (type : UInt8) (data : Text) : Text :=
  UInt8.ofNat (name.length + 1) :: text name ++ [0, type, UInt8.ofNat data.length] ++ data

/-- A short message in the bytes of the wire. -/
def wireMsg (fields : List Text) : Text :=
  [0, 0, 0, UInt8.ofNat (8 + fields.flatten.length), 0x99, 0x55, 0xee, 0xaa] ++ fields.flatten

end Sassrv.Daemon
