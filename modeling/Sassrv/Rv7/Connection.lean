import Sassrv.Rv7.Listeners

/-! The connection of an rv7 transport to its daemon and the subscriptions that go
over it. The calls of other threads change the tables of the transport under its
mutex and leave an operation in the pipe, which the event thread runs later; the
event thread also takes the client through the handshake and back. -/
namespace Sassrv.Rv7
open SubMgr Client Transition

inductive RvState where
  | errClose
  | versRecv
  | infoRecv
  | initRecv
  | connRecv
  | dataRecv
  deriving DecidableEq

/-- The messages of the protocol that are about subscriptions. -/
inductive SubMsg where
  | listen (sub : Text)
  | cancel (sub : Text)
  deriving DecidableEq

/-- `EvRvClient`. `isOpen` is that it has a file descriptor, `wire` what was written
since the last connect. -/
structure EvRvClient where
  rvState : RvState := .versRecv
  isOpen : Bool := true
  control : Text := []
  saveBuf : List SubMsg := []
  wire : List SubMsg := []

def inboxPrefix : Text := text "_INBOX."

/-- `make_inbox` of a session, as far as the number. -/
def makeInbox (session : Text) : Text :=
  inboxPrefix ++ session ++ if session = [] then [] else [46]

/-- `control`, the first inbox of a session. -/
def makeControl (session : Text) : Text := makeInbox session ++ text "1"

def isDigit (c : Option UInt8) : Bool :=
  match c with
  | some c => 48 ≤ c && c ≤ 57
  | none => false

/-- `is_inbox`: the number of an inbox of this client. Without a control subject no
subject is one, since the length goes below zero. -/
def isInbox (parse : Text → Nat) (c : EvRvClient) (sub : Text) : Nat :=
  let off := c.control.length - 1
  if c.control = [] || !isDigit sub[off]? || sub.take off ≠ c.control.take off then 0
  else parse (sub.drop off)

/-- `queue_send`: over the connection, into the buffer of the handshake, or nowhere. -/
def queueSend (c : EvRvClient) (msg : SubMsg) : EvRvClient :=
  match c.rvState with
  | .dataRecv => { c with wire := c.wire ++ [msg] }
  | .errClose => c
  | _ => { c with saveBuf := c.saveBuf ++ [msg] }

def flushPendingSend (c : EvRvClient) : EvRvClient :=
  { c with
    wire := c.wire ++ c.saveBuf
    saveBuf := [] }

def EvRvClient.subscribe (c : EvRvClient) (sub : Text) : EvRvClient := queueSend c (.listen sub)

def EvRvClient.unsubscribe (c : EvRvClient) (sub : Text) : EvRvClient := queueSend c (.cancel sub)

/-- `rv_connect`, with the state initialized again whether or not it can connect. -/
def rvConnect (c : EvRvClient) (connects : Bool) : EvRvClient :=
  if c.isOpen then c
  else if connects then {}
  else
    { rvState := .errClose
      isOpen := false }

/-- An operation that waits in the pipe for the event thread. -/
inductive PipeOp where
  | subscribe (l : Listener)
  | unsubscribe (l : Listener)
  deriving DecidableEq

/-- `api_Transport` with its client, the registered listeners and the calls that are
not through: `leaving` are the listeners of the `DestroyEvent` calls whose operation
was run and that did not go on yet. -/
structure Session where
  tport : Transport := {}
  client : EvRvClient
  timerArmed : Bool := false
  events : List Listener := []
  pipe : List PipeOp := []
  leaving : List Listener := []

/-- `on_connect`: after a reconnect every listener of the table is subscribed again. -/
def onConnect (parse : Text → Nat) (s : Session) : Session :=
  if s.timerArmed then
    { s with
      timerArmed := false
      client := s.tport.ht.elements.foldl
        (fun c l => if isInbox parse c l.subject = 0 then c.subscribe l.subject else c) s.client }
  else s

/-- `recv_conn` of the message that ends the handshake. The subscription of the
control inbox comes first, the messages of the handshake come last. -/
def recvConn (parse : Text → Nat) (s : Session) : Session :=
  let wildInbox := s.client.control.dropLast ++ text ">"
  let s := onConnect parse { s with
    client := { s.client with
      wire := s.client.wire ++ [.listen wildInbox]
      rvState := .dataRecv } }
  { s with client := flushPendingSend s.client }

/-- `release` of the client, with `on_shutdown` and `arm_reconnect`. -/
def releaseClient (s : Session) : Session :=
  { s with
    timerArmed := true
    client := { s.client with
      saveBuf := []
      rvState := .errClose
      isOpen := false } }

/-- `timer_cb` of the reconnect timer. -/
def reconnectTimer (s : Session) (connects : Bool) : Session :=
  if s.client.rvState = .dataRecv then { s with timerArmed := false }
  else { s with client := rvConnect s.client connects }

/-- The part of `CreateListener` under the mutex, up to the wait for the operation. -/
def createSubscribed (parse : Text → Nat) (s : Session) (isWild : Bool) (l : Listener) : Session :=
  { s with
    tport := openListener s.tport isWild l
    events := s.events ++ [l]
    pipe := if isInbox parse s.client l.subject = 0 then s.pipe ++ [.subscribe l] else s.pipe }

/-- `DestroyEvent` of a registered listener, up to the wait for the operation. -/
def destroySubscribed (parse : Text → Nat) (s : Session) (l : Listener) : Session :=
  let s := { s with events := s.events.erase l }
  if isInbox parse s.client l.subject = 0 then { s with pipe := s.pipe ++ [.unsubscribe l] }
  else { s with tport := closeListener s.tport l }

/-- The event thread runs the next operation of the pipe. -/
def runPipe (s : Session) : Session :=
  match s.pipe with
  | [] => s
  | .subscribe l :: rest =>
      { s with
        pipe := rest
        client := s.client.subscribe l.subject }
  | .unsubscribe l :: rest =>
      { s with
        pipe := rest
        client := s.client.unsubscribe l.subject
        leaving := s.leaving ++ [l] }

inductive Event where
  | createListener (id queue : BitVec 32) (subj : Text)
  | destroyEvent (l : Listener)
  /-- A `DestroyEvent` call goes on after its operation. -/
  | destroyed (l : Listener)
  | runPipe
  | timer (connects : Bool)
  | recvVers
  /-- The daemon's record, `ready` when it has nothing more to ask. -/
  | recvInfo (ready : Bool)
  | recvInit (session : Text)
  | recvConn
  /-- A message that the client cannot take; the socket is closed later. -/
  | refuse
  | release

/-- The parts from elsewhere: those of the tables, and the number at the end of an
inbox. -/
structure SessionEnv extends Env where
  stringToUint64 : Text → Nat

/-- A transport from the moment `CreateTransport` has returned it. -/
def session (env : SessionEnv) : System Session Event Unit where
  init s := ∃ name, s = { client := { rvState := .dataRecv, control := makeControl name } }
  step s event _ t :=
    match event with
    | .createListener id queue subj =>
        isSubject subj = true ∧ env.isQueue queue = true ∧ id ≠ 0 ∧
          (∀ l ∈ s.events, l.id ≠ id) ∧
          t = createSubscribed env.stringToUint64 s (rvWildcard subj).isSome
            (.make env.toEnv id queue subj)
    | .destroyEvent l => l ∈ s.events ∧ t = destroySubscribed env.stringToUint64 s l
    | .destroyed l =>
        l ∈ s.leaving ∧
          t = { s with
            tport := closeListener s.tport l
            leaving := s.leaving.erase l }
    | .runPipe => t = runPipe s
    | .timer connects => s.timerArmed = true ∧ t = reconnectTimer s connects
    | .recvVers =>
        s.client.rvState = .versRecv ∧ t = { s with client := { s.client with rvState := .infoRecv } }
    | .recvInfo ready =>
        s.client.rvState = .infoRecv ∧
          t = if ready then { s with client := { s.client with rvState := .initRecv } } else s
    | .recvInit name =>
        s.client.rvState = .initRecv ∧
          t = { s with client := { s.client with
            rvState := .connRecv
            control := makeControl name } }
    | .recvConn => s.client.rvState = .connRecv ∧ t = recvConn env.stringToUint64 s
    | .refuse => s.client.isOpen = true ∧ t = { s with client := { s.client with rvState := .errClose } }
    | .release => s.client.isOpen = true ∧ t = releaseClient s

end Sassrv.Rv7
