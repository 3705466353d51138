import Sassrv.Daemon.Service
import Sassrv.Lib.Transition

/-! The daemon with all of its connections: `RvHostDB`, whose hosts the connections
share, and the steps that reach across connections. A connection is an `EvRvService`
that keeps the name of its host; the host is read from the table for the length of a
call and written back after it. -/
namespace Sassrv.Daemon
open SubMgr Transition

/-- `RvHostError` other than `HOST_OK`. -/
inductive HostError where
  | gethostnameFailed
  | noInterfaceFound
  | hostnameNotFound
  | sameSvcTwoNets
  | networkNotFound
  | badServiceNum
  | badParameters
  deriving DecidableEq

def HostError.code : HostError → Int
  | .gethostnameFailed => 1
  | .noInterfaceFound => 2
  | .hostnameNotFound => 3
  | .sameSvcTwoNets => 5
  | .networkNotFound => 17
  | .badServiceNum => 18
  | .badParameters => 19

def statusCode : Except HostError Unit → Int
  | .ok _ => 0
  | .error e => e.code

structure Mcast where
  hostIp : BitVec 32
  fakeIp : BitVec 32 := 0

/-- What the system answers while an `I` message is handled: the addresses of the
network, the time as text, and for how long the listener delays the start. -/
structure Answers where
  parsed : Except HostError Mcast
  stamp : Text := []
  delaySecs : Nat := 0

/-- `RvHost`. The two timers are those of the status and of a delayed start. -/
structure RvHost extends Host where
  network : Text := []
  hostIp : BitVec 32 := 0
  hasServicePrefix : Bool
  startInProgress : Bool := false
  statusTimer : Bool := false
  delayTimer : Bool := false
  activeClients : BitVec 64 := 0

/-- File descriptors are `int`. -/
abbrev Fd := Fin (2 ^ 31)

/-- `EvRvService` with the name of the host that it points at; the host of the
service itself is empty between calls. -/
structure Conn extends Service where
  hostName : Option Text := none
  /-- The id that the daemon makes up for the connection. -/
  gob : Text
  /-- `listener.has_service_prefix`. -/
  hasServicePrefix : Bool := false
  sentSessionStop : Bool := false

structure Net where
  hosts : Table Text RvHost := .empty
  conns : Table Fd Conn := .empty

inductive Output where
  | sent (fd : Fd) (session : Text) (out : Sent)
  | sessionStop (fd : Fd) (session : Text)
  | unreachable (fd : Fd) (session : Text)
  /-- `listener.stop_host`, which is called when `stop_network` returns true. -/
  | stopHost (service : Text)
  deriving DecidableEq

inductive NetInput where
  | connect (fd : Fd) (gob : Text) (hasServicePrefix : Bool)
  | info (fd : Fd) (info : Info) (answers : Answers)
  | listen (fd : Fd) (m : Envelope)
  | cancel (fd : Fd) (m : Envelope)
  /-- The timer of a delayed start. -/
  | timer (service : Text)
  /-- The end of a connection, and whether the process is about to end. -/
  | close (fd : Fd) (quit : Bool)

/-- The service that an `I` message names. -/
def Info.serviceName (info : Info) : Text := if info.service = [] then text "7500" else info.service

/-- `set_prefix` of a service. -/
def servicePrefix (service : Text) : Text :=
  let body := if service.getLast? = some 46 then service.dropLast else service
  (if service.head? = some 95 then [] else text "_") ++ body ++ text "."

def newHost (service : Text) (hasPrefix : Bool) : RvHost where
  networkStarted := false
  service := if hasPrefix then some (servicePrefix service) else none
  hasServicePrefix := hasPrefix

/-- What the host sends out; advisories of restricted subjects are left out. -/
def Sent.isSent : Sent → Bool
  | .listenStart sub _ => !isRestrictedSubject sub
  | .listenStop sub => !isRestrictedSubject sub
  | _ => true

/-- `atoi`. -/
def atoi (t : Text) : Int :=
  let digits (t : Text) : Nat :=
    (t.takeWhile fun c => 48 ≤ c && c ≤ 57).foldl (fun n c => 10 * n + (c.toNat - 48)) 0
  match t.dropWhile fun c => c == 32 || (9 ≤ c && c ≤ 13) with
  | 45 :: rest => -(digits rest)
  | 43 :: rest => digits rest
  | rest => digits rest

/-- `ip4_hex_string`; the first byte of the address is its highest. -/
def ip4HexString (ip : BitVec 32) : Text :=
  (List.range 8).map fun k => hexchar2 (ip.toNat / 16 ^ (7 - k) % 16)

def maxRvNetworkLen : Nat := 1680

def maxRvServiceLen : Nat := 32

def RvHost.isSameNetwork (h : RvHost) (network : Text) : Bool := h.network = network

/-- `copy_network`. -/
def RvHost.copyNetwork (h : RvHost) (service network : Text) (mc : Mcast) (stamp : Text) :
    RvHost × Except HostError Unit :=
  if maxRvServiceLen < service.length + 1 ∨ maxRvNetworkLen < network.length + 1 then
    (h, .error .badParameters)
  else
    let h := { h with network := network }
    if atoi service ≤ 0 ∨ 0xffff < atoi service then (h, .error .badServiceNum)
    else
      let ip := if mc.fakeIp ≠ 0 then mc.fakeIp else mc.hostIp
      ({ h with
        hostIp := mc.hostIp
        daemonId := ip4HexString ip ++ text ".DAEMON." ++ stamp }, .ok ())

/-- `RvHost::start_network`. -/
def RvHost.startNetwork (h : RvHost) (service network : Text) (mc : Mcast) (stamp : Text) :
    RvHost × Except HostError Unit :=
  if h.networkStarted then
    (h, if h.isSameNetwork network then .ok () else .error .sameSvcTwoNets)
  else h.copyNetwork service network mc stamp

/-- `check_network`. -/
def RvHost.checkNetwork (h : RvHost) (service network : Text) (answers : Answers) :
    RvHost × Except HostError Unit :=
  if h.hostIp = 0 ∨ h.isSameNetwork network = false then
    match answers.parsed with
    | .error e => (h, .error e)
    | .ok mc => h.startNetwork service network mc answers.stamp
  else (h, .ok ())

/-- `start_service`. -/
def Net.startService (d : Net) (service : Text) (hasPrefix : Bool) : Net × Except HostError Unit :=
  match d.hosts.find? service with
  | none => ({ d with hosts := d.hosts.insert service (newHost service hasPrefix) }, .ok ())
  | some h => (d, if h.hasServicePrefix = hasPrefix then .ok () else .error .badServiceNum)

def Conn.isAt (c : Conn) (service : Text) : Bool := c.hostName = some service

/-- A connection as `start_host2` leaves it. -/
def Conn.start (c : Conn) (host : Host) : Conn :=
  { c with toService := sendStart { c.toService with hostStarted := true } host }

/-- `start_host2`: the connections that wait for the host are counted and started. -/
def Net.startHost2 (d : Net) (service : Text) (delaySecs : Nat) : Net :=
  match d.hosts.find? service with
  | none => d
  | some h =>
      if delaySecs ≠ 0 then { d with hosts := d.hosts.insert service { h with delayTimer := true } }
      else
        let waiting := d.conns.entries.countP fun e => e.2.isAt service && !e.2.hostStarted
        { hosts := d.hosts.insert service { h with
            statusTimer := true
            activeClients := h.activeClients + BitVec.ofNat 64 waiting
            networkStarted := true
            startInProgress := false }
          conns := d.conns.map fun c => if c.isAt service then c.start h.toHost else c }

/-- `RvHost::start_host`, or the delayed start of a listener that has one. A host that
runs has its subscriptions reasserted. -/
def Net.startHost (d : Net) (service : Text) (delaySecs : Nat) : Net :=
  match d.hosts.find? service with
  | none => d
  | some h => if h.statusTimer && delaySecs = 0 then d else d.startHost2 service delaySecs

/-- `EvRvListen::start_host`. -/
def Net.listenerStartHost (d : Net) (service network : Text) (answers : Answers) :
    Net × Except HostError Unit :=
  match d.hosts.find? service with
  | none => (d, .ok ())
  | some h =>
      if !h.networkStarted && !h.startInProgress then
        match h.checkNetwork service network answers with
        | (h, .error e) => ({ d with hosts := d.hosts.insert service h }, .error e)
        | (h, .ok _) =>
            let h := { h with startInProgress := true }
            (({ d with hosts := d.hosts.insert service h } : Net).startHost service
              answers.delaySecs, .ok ())
      else if h.hostIp = 0 ∨ h.isSameNetwork network = false then (d, .error .sameSvcTwoNets)
      else (d, .ok ())

/-- `EvRvListen::start_network`: the connection points at the host whatever the
status is. -/
def Net.startNetwork (d : Net) (fd : Fd) (c : Conn) (info : Info) (answers : Answers) :
    Net × Except HostError Unit :=
  match d.startService info.serviceName c.hasServicePrefix with
  | (d, status) =>
      let d := { d with conns := d.conns.modify fd fun c => { c with
        hostName := some info.serviceName } }
      match status with
      | .error e => (d, .error e)
      | .ok _ => d.listenerStartHost info.serviceName info.network answers

/-- `respond_info` after `start_network`. -/
def Net.respondStarted (env : Env) (d : Net) (fd : Fd) (service : Text) (status : Int) : Net :=
  match d.hosts.find? service, d.conns.find? fd with
  | some h, some c =>
      { hosts :=
          if h.networkStarted && !c.hostStarted then
            d.hosts.insert service { h with activeClients := h.activeClients + 1 }
          else d.hosts
        conns := d.conns.insert fd { c with
          toService := Daemon.respondStarted { env with gob := c.gob } c.toService status h.toHost } }
  | _, _ => d

def Net.respondInfo (env : Env) (d : Net) (fd : Fd) (c : Conn) (info : Info) (answers : Answers) : Net :=
  let d := { d with conns := d.conns.modify fd fun c => { c with
    session := info.session.getD c.session } }
  if info.readable then
    match d.startNetwork fd c info answers with
    | (d, status) => d.respondStarted env fd info.serviceName (statusCode status)
  else d

/-- `this->host` for the length of a call. -/
def Net.load (d : Net) (c : Conn) : Service :=
  { c.toService with host := (c.hostName.bind d.hosts.find?).map RvHost.toHost }

/-- The connection and its host after a call. -/
def Net.store (d : Net) (fd : Fd) (c : Conn) (s : Service) : Net where
  hosts :=
    match c.hostName, s.host with
    | some service, some host => d.hosts.modify service fun h => { h with toHost := host }
    | _, _ => d.hosts
  conns := d.conns.insert fd { c with toService := { s with host := none } }

/-- A call of a connection that is there. -/
def Net.call (d : Net) (fd : Fd) (f : Service → Result Service) : Result Net :=
  match d.conns.find? fd with
  | none => .ok d
  | some c => do
      let s ← f (d.load c)
      return d.store fd c s

/-- `RvHost::rem_ref`. -/
def Host.remRefs (host : Host) (sub : Text) (cnt : BitVec 32) : Host × BitVec 32 :=
  match host.subMap.find? sub with
  | none => (host, 0)
  | some n =>
      if n ≤ cnt then ({ host with subMap := host.subMap.erase sub }, 0)
      else ({ host with subMap := host.subMap.insert sub (n - cnt) }, n - cnt)

/-- The references of a subject at the end of a connection. -/
def stopSub (s : Service) (e : Text × BitVec 32) : Service :=
  if s.pre.length < e.1.length then
    match s.host with
    | none => s
    | some host =>
        let r := if s.isDaemon then host.remRefs e.1 e.2 else (host, 0)
        if r.2 = 0 then (s.setHost r.1).send (.listenStop (e.1.drop s.pre.length))
        else s.setHost r.1
  else s

/-- `rem_all_sub`, as far as the host goes. -/
def remAllSub (quit : Bool) (s : Service) : Service :=
  if !quit && s.host.isSome then (s.subTab.entries ++ s.patTab.entries).foldl stopSub s else s

/-- `send_stop` after `rem_all_sub`. -/
def Conn.sendStop (fd : Fd) (c : Conn) : List Output :=
  if c.isSession then
    if c.sentSessionStart && !c.sentSessionStop then [.sessionStop fd c.session] else []
  else if c.isDaemon then
    if !c.sentSessionStop then [.unreachable fd c.session] else []
  else []

def RvHost.stopNetwork (h : RvHost) : RvHost × Bool :=
  if h.networkStarted then
    let h := { h with activeClients := h.activeClients - 1 }
    if h.activeClients = 0 then
      ({ h with
        networkStarted := false
        startInProgress := false }, true)
    else (h, false)
  else (h, false)

/-- `RvHost::stop_host`. -/
def RvHost.stopHost (h : RvHost) : RvHost :=
  if h.statusTimer then
    { h with
      statusTimer := false
      delayTimer := false }
  else h

/-- The messages that have been sent since the last step. -/
def Net.outputs (d : Net) : List Output :=
  d.conns.entries.flatMap fun e => (e.2.sent.filter Sent.isSent).map (.sent e.1 e.2.session)

def Net.flush (d : Net) : Net × List Output :=
  ({ d with conns := d.conns.map fun c => { c with sent := [] } }, d.outputs)

/-- The host of a connection that has been counted loses it. -/
def Net.leaveHost (d : Net) (service : Text) : Net × List Output :=
  match d.hosts.find? service with
  | none => (d, [])
  | some h =>
      match h.stopNetwork with
      | (h, true) => ({ d with hosts := d.hosts.insert service h.stopHost }, [.stopHost service])
      | (h, false) => ({ d with hosts := d.hosts.insert service h }, [])

def Net.remove (d : Net) (fd : Fd) : Net := { d with conns := d.conns.erase fd }

/-- `process_close`. -/
def Net.processClose (d : Net) (fd : Fd) (quit : Bool) : Net × List Output :=
  match d.conns.find? fd with
  | none => (d, [])
  | some c =>
      match c.hostStarted, c.hostName with
      | true, some service =>
          let stopped := (d.store fd c (remAllSub quit (d.load c))).flush
          let left := stopped.1.leaveHost service
          (left.1.remove fd, stopped.2 ++ c.sendStop fd ++ left.2)
      | _, _ => (d.remove fd, [])

/-- `timer_expire` of a delayed start. -/
def Net.timerExpire (d : Net) (service : Text) : Net :=
  match d.hosts.find? service with
  | none => d
  | some h =>
      if h.delayTimer then
        ({ d with hosts := d.hosts.insert service { h with delayTimer := false } } : Net).startHost2
          service 0
      else d

def Net.step (env : Env) (d : Net) : NetInput → Result (Net × List Output)
  | .connect fd gob hasPrefix =>
      if d.conns.contains fd then .ok (d, [])
      else
        let c : Conn := { gob := gob, hasServicePrefix := hasPrefix }
        .ok ({ d with conns := d.conns.insert fd c }, [])
  | .info fd info answers =>
      match d.conns.find? fd with
      | none => .ok (d, [])
      | some c => .ok (d.respondInfo env fd c info answers).flush
  | .listen fd m => do
      let t ← d.call fd fun s => addSub env s m
      return t.flush
  | .cancel fd m => do
      let t ← d.call fd fun s => remSub env s m
      return t.flush
  | .timer service => .ok (d.timerExpire service).flush
  | .close fd quit => .ok (d.processClose fd quit)

/-- The daemon without connections takes its inputs one by one. -/
def netSystem (env : Env) : System Net NetInput Output where
  init := fun d => d = {}
  step := fun d input emitted t => d.step env input = .ok (t, emitted)

end Sassrv.Daemon
