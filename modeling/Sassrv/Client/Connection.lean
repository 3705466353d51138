import Sassrv.Daemon.Service
import Sassrv.Lib.Records

/-! `EvRvClient`, the connection of a client to its daemon: the handshake of two fixed
records and two messages, the messages that are read after it, and the messages that
are queued for sending, which are saved until the handshake is through. -/
namespace Sassrv.Client
open SubMgr Records

/-- In the order of `enum RvState`. -/
inductive RvState where
  | errClose
  | versRecv
  | infoRecv
  | initRecv
  | connRecv
  | dataRecv
  deriving DecidableEq, Repr

/-- The fields that `recv_info` matches in the data of a message. -/
structure InitData where
  error : Option Int := none
  ipaddr : Option (BitVec 32) := none
  ipport : Option (BitVec 16) := none
  gob : Option Text := none
  cid : Option (BitVec 16) := none
  deriving DecidableEq

/-- What `RvMsgIn::unpack` leaves. `init` is the data, when it is a message. -/
structure Envelope where
  mtype : Daemon.MType
  sub : Text := []
  reply : Text := []
  init : Option InitData := none
  deriving DecidableEq

/-- A message of the client. A publish is the bytes that `publish2` writes. -/
inductive Msg where
  | listen (sub : Text) (reply : Option Text)
  | cancel (sub : Text)
  | publish (bytes : Text)
  deriving DecidableEq

/-- What goes to the socket. -/
inductive Sent where
  | vers
  | info
  | initRec (session control : Text)
  | inbox (control : Text)
  | msg (m : Msg)
  deriving DecidableEq

/-- What comes from elsewhere: raimd's unpack, which takes no message shorter than its
header, the time in the session name, the subjects of the configuration, and what
the callbacks queue. The number is how many messages have been forwarded before. -/
structure Env where
  unpack : Text → Except (Fin 5) Envelope
  unpack_short : ∀ msg, msg.length < 8 → ∃ status, unpack msg = .error status
  stamp : Text
  bcastSubs : List Text
  /-- The subjects of `start_subscriptions`, if there are any `listen_subs`. -/
  listenSubs : List Text
  onConnect : List Msg
  onPub : Nat → Envelope → List Msg

/-- The connection. `queued` is the history of the messages that `queue_send` took,
`dispatched` of the messages given to `dispatch_msg`. -/
structure EvRvClient where
  rvState : RvState := .versRecv
  noWrite : Bool := false
  session : Text := []
  control : Text := []
  gob : Text := []
  cid : BitVec 16 := 0
  ipaddr : BitVec 32 := 0
  ipport : BitVec 16 := 0
  saveBuf : List Msg := []
  sent : List Sent := []
  queued : List Msg := []
  dispatched : List Text := []
  forwarded : List Envelope := []
  deriving DecidableEq

def EvRvClient.send (c : EvRvClient) (out : Sent) : EvRvClient := { c with sent := c.sent ++ [out] }

/-- Sent, dropped or saved, as the state is. -/
def queueSend (c : EvRvClient) (m : Msg) : EvRvClient :=
  match c.rvState with
  | .dataRecv => { c with queued := c.queued ++ [m] }.send (.msg m)
  | .errClose => c
  | _ => { c with
      queued := c.queued ++ [m]
      saveBuf := c.saveBuf ++ [m] }

def flushPendingSend (c : EvRvClient) : EvRvClient :=
  { c with
    sent := c.sent ++ c.saveBuf.map Sent.msg
    saveBuf := [] }

/-- The length of the reply is zero where there is none. -/
def subscribe (c : EvRvClient) (sub rep : Text) : EvRvClient :=
  if c.noWrite then c
  else queueSend c (.listen (stripNul sub) (if rep = [] then none else some (stripNul rep)))

def unsubscribe (c : EvRvClient) (sub : Text) : EvRvClient :=
  if c.noWrite then c else queueSend c (.cancel (stripNul sub))

/-- The last digits of the number. -/
def hexText (digits v : Nat) : Text :=
  (List.range digits).map fun i => Daemon.hexchar2 (v / 16 ^ (digits - 1 - i) % 16)

def sessionName (env : Env) (ipaddr : BitVec 32) (cid : BitVec 16) : Text :=
  hexText 8 ipaddr.toNat ++ [46] ++
    (if cid = 0 then [] else [85] ++ hexText 4 cid.toNat ++ [46]) ++ env.stamp

/-- `make_inbox` with the number 1. -/
def makeInbox (session : Text) : Text :=
  text "_INBOX." ++ session ++ (if session = [] then [] else [46]) ++ [49]

def errStartHostFailed : Int := 20

/-- `recv_info`. A refusal that carries the error 0 leaves the state as it is. -/
def recvInfo (env : Env) (c : EvRvClient) (m : Envelope) : EvRvClient × Int :=
  if m.sub = text "RVD.INITRESP" then
    match m.init with
    | some { ipaddr := some ipaddr, ipport := some ipport, gob := some gob, cid := cid, .. } =>
        let cid := cid.getD 0
        let session := sessionName env ipaddr cid
        ({ c with
          gob := gob
          cid := cid
          ipaddr := ipaddr
          ipport := ipport
          session := session
          control := makeInbox session
          rvState := .connRecv }.send (.initRec session (makeInbox session)), 0)
    | _ => (c, errStartHostFailed)
  else if m.sub = text "RVD.INITREFUSED" then
    (c, (m.init.bind InitData.error).getD errStartHostFailed)
  else (c, errStartHostFailed)

/-- What is queued between the last step of the handshake and the saved messages. -/
def onConnected (env : Env) (c : EvRvClient) : EvRvClient :=
  let c := env.bcastSubs.foldl (fun c sub => subscribe c sub []) c
  let c := env.listenSubs.foldl (fun c sub => subscribe c sub []) c
  env.onConnect.foldl queueSend c

def recvConn (env : Env) (c : EvRvClient) (m : Envelope) : EvRvClient × Int :=
  if m.sub = text "_RV.INFO.SYSTEM.RVD.CONNECTED" then
    let c := c.send (.inbox (c.control.dropLast ++ [62]))
    let c := { c with rvState := .dataRecv }
    (flushPendingSend (onConnected env c), 0)
  else (c, errStartHostFailed)

def fwdPub (env : Env) (c : EvRvClient) (m : Envelope) : EvRvClient :=
  (env.onPub c.forwarded.length m).foldl queueSend { c with forwarded := c.forwarded ++ [m] }

/-- `dispatch_msg` on an unpacked message. -/
def dispatchEnvelope (env : Env) (c : EvRvClient) (m : Envelope) : EvRvClient × Int :=
  match c.rvState with
  | .dataRecv => if m.mtype = .data ∨ m.mtype = .advisory then (fwdPub env c m, 0) else (c, -1)
  | .initRecv => recvInfo env c m
  | _ => recvConn env c m

/-- A message of eight bytes is a ping. -/
def dispatchMsg (env : Env) (c : EvRvClient) (msg : Text) : EvRvClient × Int :=
  match env.unpack msg with
  | .error status => (c, if msg.length = 8 then 0 else Int.ofNat status.val + 1)
  | .ok m => dispatchEnvelope env c m

/-- A record has 12 bytes, 64 bytes, or is a message with its length in front. -/
def recordLength (c : EvRvClient) (buf : Text) : Nat :=
  match c.rvState with
  | .versRecv => 3 * 4
  | .infoRecv => 16 * 4
  | _ => getU32 buf

/-- The record at the head of the buffer, once it is complete. -/
def recordSize (c : EvRvClient) (buf : Text) : Option Nat :=
  if buf.length < 8 then none
  else if buf.length < recordLength c buf then none
  else some (recordLength c buf)

/-- One turn of the loops of `process`; a message is taken off whatever its status. -/
def acceptRecord (env : Env) (c : EvRvClient) (rec : Text) : EvRvClient × Verdict :=
  match c.rvState with
  | .versRecv => ({ c with rvState := .infoRecv }.send .vers, .next)
  | .infoRecv =>
      if getU32 rec ≠ 1 then (c.send .info, .next)
      else ({ c with rvState := .initRecv }.send (.initRec c.session c.control), .next)
  | _ =>
      match dispatchMsg env { c with dispatched := c.dispatched ++ [rec] } rec with
      | (c, 0) => (c, .next)
      | (c, _) => (c, .stop)

def reader (env : Env) : Reader EvRvClient UInt8 where
  size := recordSize
  accept := acceptRecord env

/-- The connection with its unread bytes. -/
structure Socket where
  client : EvRvClient := {}
  recv : Text := []
  closed : Bool := false
  deriving DecidableEq

/-- `process`. The state never goes back to the handshake, so that the two loops of the
source are one. A status closes the connection. -/
def process (env : Env) (s : Socket) : Option Socket :=
  ((reader env).read (s.recv.length + 1) s.client s.recv).map fun out =>
    if out.verdict = .next then { s with client := out.state, recv := out.rest }
    else
      { client := { out.state with rvState := .errClose }
        recv := out.rest
        closed := true }

/-- More bytes from the daemon. -/
def receive (env : Env) (s : Socket) (chunk : Text) : Option Socket :=
  if s.closed then some s else process env { s with recv := s.recv ++ chunk }

end Sassrv.Client
