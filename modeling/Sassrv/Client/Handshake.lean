import Sassrv.Client.Framing
import Sassrv.Client.SendOrder
import Sassrv.Daemon.Accept

/-! The handshake of a client with the daemon. Each waits for the other, and what one has
sent reaches the other in pieces. Whatever the pieces and whichever of the two is served
first, the handshake goes through, and all that the client has queued is dispatched. -/
namespace Sassrv.Client
open SubMgr Records Transition

variable {env : Env} {c : EvRvClient} {s t : Socket} {chunk read piece : Text}

/-! The client over a stream. -/

theorem receive_reads (env : Env) (hOpen : s.closed = false) (chunk : Text) : ∃ out fuel,
    (reader env).read fuel s.client (s.recv ++ chunk) = some out ∧
      receive env s chunk = some (Socket.after out) := by
  obtain ⟨out, fuel, hRead, hProcess⟩ := process_eq env { s with recv := s.recv ++ chunk } hOpen
  refine ⟨out, fuel, hRead, ?_⟩
  rw [receive, if_neg (by simp [hOpen])]
  exact hProcess

theorem after_open {out : Outcome EvRvClient UInt8} (h : (Socket.after out).closed = false) :
    out.verdict = .next ∧ Socket.after out = { client := out.state, recv := out.rest } := by
  have hVerdict : out.verdict = .next := by
    by_contra hNot
    rw [Socket.after, if_neg hNot] at h
    cases h
  exact ⟨hVerdict, if_pos hVerdict⟩

theorem receive_append {m : Socket} (hOpen : s.closed = false) (hFirst : receive env s read = some m)
    (hMiddle : m.closed = false) (hNext : receive env m piece = some t) :
    receive env s (read ++ piece) = some t := by
  obtain ⟨out, fuel, hRead, hOut⟩ := receive_reads env hOpen read
  obtain rfl := Option.some.inj (hFirst.symm.trans hOut)
  obtain ⟨later, _, hLater, hLast⟩ := receive_reads env hMiddle piece
  obtain ⟨hVerdict, hAfter⟩ := after_open hMiddle
  rw [hAfter] at hLater
  obtain ⟨_, hWhole⟩ := (reader_lawful env).read_append_open hRead hVerdict hLater
  obtain ⟨all, _, hAll, hEnd⟩ := receive_reads env hOpen (read ++ piece)
  rw [List.append_assoc] at hWhole
  obtain rfl := Reader.read_unique hWhole hAll
  exact hEnd.trans (hLast.symm.trans hNext)

/-- A stream that leaves the connection open may be cut. -/
theorem receive_split (hOpen : s.closed = false) (hWhole : receive env s (read ++ piece) = some t)
    (hEnd : t.closed = false) :
    ∃ m, receive env s read = some m ∧ m.closed = false ∧ receive env m piece = some t := by
  obtain ⟨out, fuel, hRead, hFirst⟩ := receive_reads env hOpen read
  by_cases hVerdict : out.verdict = .next
  · have hMiddle : (Socket.after out).closed = false := by rw [Socket.after, if_pos hVerdict]
    obtain ⟨later, _, _, hNext⟩ := receive_reads env hMiddle piece
    have hBoth := receive_append hOpen hFirst hMiddle hNext
    obtain rfl := Option.some.inj (hWhole.symm.trans hBoth)
    exact ⟨_, hFirst, hMiddle, hNext⟩
  · obtain ⟨all, _, hAll, hLast⟩ := receive_reads env hOpen (read ++ piece)
    have hEnded := (reader_lawful env).read_append_ended piece hRead hVerdict
    rw [List.append_assoc] at hEnded
    obtain rfl := Reader.read_unique hEnded hAll
    obtain rfl := Option.some.inj (hWhole.symm.trans hLast)
    exact absurd (after_open hEnd).1 hVerdict

theorem dispatchMsg_sent (env : Env) (c : EvRvClient) (msg : Text) :
    c.sent <+: (dispatchMsg env c msg).1.sent := by
  unfold dispatchMsg
  split
  · exact List.prefix_refl _
  · unfold dispatchEnvelope
    split
    · next hState =>
        split
        · next m _ _ _ =>
            have hForward : ({ c with forwarded := c.forwarded ++ [m] } : EvRvClient).rvState = .dataRecv :=
              hState
            dsimp only [fwdPub]
            rw [foldl_queueSend hForward]
            exact List.prefix_append _ _
        · exact List.prefix_refl _
    · unfold recvInfo
      split
      · split
        · exact List.prefix_append _ _
        · exact List.prefix_refl _
      · split <;> exact List.prefix_refl _
    · unfold recvConn
      split
      · dsimp only
        rw [onConnected_eq rfl]
        simp only [flushPendingSend, EvRvClient.send, EvRvClient.sendAll, List.append_assoc]
        exact List.prefix_append _ _
      · exact List.prefix_refl _

theorem acceptRecord_sent (env : Env) (c : EvRvClient) (record : Text) :
    c.sent <+: (acceptRecord env c record).1.sent := by
  unfold acceptRecord
  split
  · exact List.prefix_append _ _
  · split <;> exact List.prefix_append _ _
  · have hSent := dispatchMsg_sent env { c with dispatched := c.dispatched ++ [record] } record
    split
    · next hEq =>
        rw [hEq] at hSent
        exact hSent
    · next hEq =>
        rw [hEq] at hSent
        exact hSent

/-- What was sent stays sent. -/
theorem receive_sent (h : receive env s chunk = some t) : s.client.sent <+: t.client.sent := by
  unfold receive at h
  split at h
  · cases h
    exact List.prefix_refl _
  · unfold process at h
    obtain ⟨out, hRead, hEq⟩ := Option.map_eq_some_iff.mp h
    have hSent : s.client.sent <+: out.state.sent := by
      have hAccept : ∀ (c : EvRvClient) record, s.client.sent <+: c.sent →
          s.client.sent <+: ((reader env).accept c record).1.sent :=
        fun c record hBefore => hBefore.trans (acceptRecord_sent env c record)
      exact Reader.read_invariant hAccept hRead (List.prefix_refl _)
    split at hEq <;> cases hEq <;> exact hSent

/-- The bytes of what the client sends, with those of its messages. -/
def Sent.bytes (message : Sent → Text) : Sent → Text
  | .vers => Daemon.versRec
  | .info => Daemon.infoRec 3
  | out => message out

def Socket.written (message : Sent → Text) (s : Socket) : Text :=
  s.client.sent.flatMap (Sent.bytes message)

/-- The client as one end of a link. -/
def party (env : Env) (start : Socket) (message : Sent → Text) : Duplex.Party Socket UInt8 UInt8 where
  start := start
  feed := receive env
  written := Socket.written message

/-- The client after the first bytes of a stream. -/
def Socket.heard (env : Env) (start : Socket) (read : Text) : Socket :=
  (receive env start read).getD start

theorem heard_eq (h : receive env s read = some t) : Socket.heard env s read = t := by
  rw [Socket.heard, h, Option.getD_some]

theorem receive_plays (hOpen : s.closed = false) (hStart : receive env s [] = some s)
    (hRead : receive env s read = some t) (hEnd : t.closed = false) (message : Sent → Text) :
    (party env s message).Plays read (Socket.heard env s) where
  start := heard_eq hStart
  feed before piece hPiece := by
    obtain ⟨rest, rfl⟩ := hPiece
    obtain ⟨m, hMiddle, hStill, -⟩ := receive_split hOpen hRead hEnd
    obtain ⟨n, hFirst, -, hNext⟩ := receive_split hOpen hMiddle hStill
    rw [heard_eq hFirst, heard_eq hMiddle]
    exact hNext
  grows := by
    rintro before more ⟨piece, rfl⟩ ⟨rest, rfl⟩
    obtain ⟨m, hMiddle, hStill, -⟩ := receive_split hOpen hRead hEnd
    obtain ⟨n, hFirst, -, hNext⟩ := receive_split hOpen hMiddle hStill
    obtain ⟨sent, hSent⟩ := receive_sent hNext
    rw [heard_eq hFirst, heard_eq hMiddle]
    simp only [party, Socket.written, ← hSent, List.flatMap_append]
    exact List.prefix_append _ _

/-! The records of the handshake, one after the other. -/

/-- A record that has come in full, with nothing behind it. -/
theorem receive_record (hSize : recordSize c read = some read.length) {d : EvRvClient}
    (hAccept : acceptRecord env c read = (d, .next)) :
    receive env { client := c } read = some { client := d } := by
  have hHeader := (recordSize_eq_some hSize).1
  obtain ⟨fuel, hFuel⟩ : ∃ fuel, read.length + 1 = fuel + 2 := ⟨read.length - 1, by omega⟩
  have hTake : (reader env).accept c (read.take read.length) = (d, .next) := by
    rw [List.take_length]
    exact hAccept
  have hEnd : (reader env).size d [] = none := rfl
  have hRead : (reader env).read (fuel + 2) c read = some ⟨d, [], .next⟩ := by
    rw [Reader.read_next hSize hTake, List.drop_length, Reader.read, hEnd]
  have hProcess : process env { client := c, recv := read } = some { client := d } := by
    simp only [process, hFuel, hRead, Option.map_some, if_true]
  exact hProcess

/-- The connection before the daemon is heard; messages may be queued. -/
structure Fresh (c : EvRvClient) : Prop where
  rvState : c.rvState = .versRecv
  session : c.session = []
  control : c.control = []
  sent : c.sent = []

def EvRvClient.at (c : EvRvClient) (rvState : RvState) (sent : List Sent) : EvRvClient :=
  { c with
    rvState := rvState
    sent := sent }

/-- What the daemon answers to the first `I` message. -/
structure Answer where
  ipaddr : BitVec 32
  ipport : BitVec 16
  gob : Text
  cid : Option (BitVec 16)

def Answer.session (env : Env) (a : Answer) : Text := sessionName env a.ipaddr (a.cid.getD 0)

def Answer.control (env : Env) (a : Answer) : Text := makeInbox (a.session env)

/-- The inboxes of the session, which the client listens to. -/
def Answer.inbox (env : Env) (a : Answer) : Text := (a.control env).dropLast ++ [62]

/-- The client that has taken the answer. -/
def EvRvClient.named (env : Env) (c : EvRvClient) (a : Answer) (answer : Text) : EvRvClient :=
  { c.at .connRecv [.vers, .info, .initRec [] [], .initRec (a.session env) (a.control env)] with
    gob := a.gob
    cid := a.cid.getD 0
    ipaddr := a.ipaddr
    ipport := a.ipport
    session := a.session env
    control := a.control env
    dispatched := c.dispatched ++ [answer] }

/-- Everything that was queued, as it goes out. -/
def pending (env : Env) (c : EvRvClient) : List Msg := connectMsgs env c ++ c.saveBuf

/-- The client that is connected. -/
def EvRvClient.connected (env : Env) (c : EvRvClient) (a : Answer) (answer done : Text) : EvRvClient :=
  { c.named env a answer with
    rvState := .dataRecv
    saveBuf := []
    queued := c.queued ++ connectMsgs env c
    sent := [.vers, .info, .initRec [] [], .initRec (a.session env) (a.control env),
      .inbox (a.inbox env)] ++ (pending env c).map Sent.msg
    dispatched := c.dispatched ++ [answer, done] }

section
variable {start : EvRvClient} {a : Answer} {answer done : Text}

theorem receive_vers (hFresh : Fresh start) : receive env { client := start } Daemon.versRec =
    some { client := start.at .infoRecv [.vers] } := by
  apply receive_record
  · simp only [recordSize, recordLength, hFresh.rvState]
    decide
  · simp only [acceptRecord, hFresh.rvState, EvRvClient.send, hFresh.sent]
    rfl

theorem infoRec_size (h : c.rvState = .infoRecv) (first : BitVec 32) :
    recordSize c (Daemon.infoRec first) = some (Daemon.infoRec first).length := by
  have hLength : (Daemon.infoRec first).length = 64 := by simp [Daemon.infoRec, Daemon.bigEndian]
  simp only [recordSize, recordLength, h, hLength]
  rfl

theorem receive_info (env : Env) (start : EvRvClient) :
    receive env { client := start.at .infoRecv [.vers] } (Daemon.infoRec 2) =
      some { client := start.at .infoRecv [.vers, .info] } := by
  apply receive_record (infoRec_size rfl 2)
  have hFirst : getU32 (Daemon.infoRec 2) ≠ 1 := by decide
  simp only [acceptRecord, EvRvClient.at, if_pos hFirst]
  rfl

theorem receive_infoDone (hFresh : Fresh start) :
    receive env { client := start.at .infoRecv [.vers, .info] } (Daemon.infoRec 1) =
      some { client := start.at .initRecv [.vers, .info, .initRec [] []] } := by
  apply receive_record (infoRec_size rfl 1)
  have hFirst : ¬ getU32 (Daemon.infoRec 1) ≠ 1 := by decide
  simp only [acceptRecord, EvRvClient.at, if_neg hFirst, hFresh.session, hFresh.control]
  rfl

theorem recordSize_framed (hFramed : Daemon.Framed read) (hVers : c.rvState ≠ .versRecv)
    (hInfo : c.rvState ≠ .infoRecv) : recordSize c read = some read.length := by
  have hLength : recordLength c read = read.length := by
    unfold recordLength
    split
    · next hState => exact absurd hState hVers
    · next hState => exact absurd hState hInfo
    · exact hFramed.size
  have hHeader := hFramed.header
  simp only [recordSize, hLength, if_neg (show ¬ read.length < 8 by omega), Nat.lt_irrefl, if_false]

/-- `unpack` finds the answer in the message. -/
def Answer.IsIn (a : Answer) (env : Env) (answer : Text) : Prop :=
  ∃ m, env.unpack answer = .ok m ∧ m.sub = text "RVD.INITRESP" ∧ ∃ error, m.init =
    some { error := error, ipaddr := some a.ipaddr, ipport := some a.ipport, gob := some a.gob, cid := a.cid }

theorem receive_initResp (hFramed : Daemon.Framed answer) (hAnswer : a.IsIn env answer) :
    receive env { client := start.at .initRecv [.vers, .info, .initRec [] []] } answer =
      some { client := start.named env a answer } := by
  obtain ⟨m, hUnpack, hSub, error, hInit⟩ := hAnswer
  have hVers : RvState.initRecv ≠ .versRecv := nofun
  have hInfo : RvState.initRecv ≠ .infoRecv := nofun
  apply receive_record (recordSize_framed hFramed hVers hInfo)
  simp only [acceptRecord, EvRvClient.at, dispatchMsg, hUnpack, dispatchEnvelope, recvInfo, if_pos hSub, hInit]
  rfl

theorem receive_connected (hFramed : Daemon.Framed done) (hDone : ∃ m, env.unpack done = .ok m ∧
      m.sub = text "_RV.INFO.SYSTEM.RVD.CONNECTED") :
    receive env { client := start.named env a answer } done =
      some { client := start.connected env a answer done } := by
  obtain ⟨m, hUnpack, hSub⟩ := hDone
  have hVers : RvState.connRecv ≠ .versRecv := nofun
  have hInfo : RvState.connRecv ≠ .infoRecv := nofun
  apply receive_record (recordSize_framed hFramed hVers hInfo)
  simp only [acceptRecord, EvRvClient.named, EvRvClient.at, dispatchMsg, hUnpack, dispatchEnvelope,
    recvConn, if_pos hSub]
  rw [onConnected_eq rfl]
  simp only [EvRvClient.connected, EvRvClient.named, EvRvClient.at, flushPendingSend,
    EvRvClient.sendAll, EvRvClient.send, pending, Answer.inbox, List.map_append, List.append_assoc, List.cons_append, List.nil_append]
  rfl

end

/-! The client and the daemon together. -/

/-- The two `I` messages of the client. -/
def introductions (env : Env) (a : Answer) : List Sent :=
  [.initRec [] [], .initRec (a.session env) (a.control env)]

/-- The two ends understand each other: `message` and `reply` are the bytes of what they
send, and the daemon can start the network that the client asks for. -/
structure Agrees (env : Env) (wire : Daemon.Wire) (message : Sent → Text) (reply : Daemon.Sent → Text)
    (start : EvRvClient) (a : Answer) (service network : Text) : Prop where
  fresh : Fresh start
  framedReply : ∀ out ∈ [Daemon.Sent.initResp, .connected], Daemon.Framed (reply out)
  framedInit : ∀ session control, .initRec session control ∈ introductions env a →
    Daemon.Framed (message (.initRec session control))
  framed : ∀ out ∈ Sent.inbox (a.inbox env) :: (pending env start).map Sent.msg, Daemon.Framed (message out)
  answer : a.IsIn env (reply .initResp)
  done : ∃ m, env.unpack (reply .connected) = .ok m ∧ m.sub = text "_RV.INFO.SYSTEM.RVD.CONNECTED"
  /-- The session is in the message once there is one. -/
  info : ∀ session control, .initRec session control ∈ introductions env a →
    ∃ e, wire.unpack (message (.initRec session control)) = .ok e ∧ e.mtype = .info ∧ e.info =
      { session := if session = [] then none else some session, service := service, network := network }
  isTraffic : ∀ out ∈ Sent.inbox (a.inbox env) :: (pending env start).map Sent.msg,
    ∃ e, wire.unpack (message out) = .ok e ∧ e.isTraffic = true
  starts : Daemon.Starts wire.toEnv service network
  flows : ∀ n, wire.forwardMsg n ≠ .stalled
  gob : (a.session env).drop 9 ≠ wire.gob

section
variable {wire : Daemon.Wire} {message : Sent → Text} {reply : Daemon.Sent → Text} {start : EvRvClient}
  {a : Answer} {service network : Text}

/-- The messages to the daemon, behind the two that introduce the client. -/
def traffic (env : Env) (message : Sent → Text) (start : EvRvClient) (a : Answer) : List Text :=
  message (.inbox (a.inbox env)) :: (pending env start).map fun m => message (.msg m)

/-- All messages to the daemon. -/
def requests (env : Env) (message : Sent → Text) (start : EvRvClient) (a : Answer) : List Text :=
  message (.initRec [] []) :: message (.initRec (a.session env) (a.control env)) ::
    traffic env message start a

theorem traffic_eq (env : Env) (message : Sent → Text) (start : EvRvClient) (a : Answer) :
    traffic env message start a =
      (Sent.inbox (a.inbox env) :: (pending env start).map Sent.msg).map message := by
  simp [traffic]

theorem session_ne_nil (env : Env) (a : Answer) : a.session env ≠ [] := by
  simp [Answer.session, sessionName]

/-- What the daemon is after the first, the second and all messages. -/
theorem Agrees.served (h : Agrees env wire message reply start a service network) : ∃ t u v,
    Daemon.Follows wire {} [message (.initRec [] [])] t ∧ Daemon.Greeted t ∧
      Daemon.Follows wire t [message (.initRec (a.session env) (a.control env))] u ∧
      Daemon.Introduced u (a.session env) ∧
      Daemon.Follows wire u (traffic env message start a) v ∧ Daemon.Introduced v (a.session env) := by
  have hSession := session_ne_nil env a
  have hFirstMem : .initRec [] [] ∈ introductions env a := List.mem_cons_self
  have hSecondMem : .initRec (a.session env) (a.control env) ∈ introductions env a :=
    List.mem_cons_of_mem _ List.mem_cons_self
  obtain ⟨e, hUnpack, hType, hInfo⟩ := h.info _ _ hFirstMem
  have hUnpacked := (Daemon.head_unpacked (h.framedInit _ _ hFirstMem)).trans hUnpack
  obtain ⟨s, t, hFirst, hCount, hGreeted⟩ :=
    Daemon.greet hUnpacked hType (by rw [hInfo]) (by rw [hInfo]; exact h.starts)
  obtain ⟨e', hUnpack', hType', hInfo'⟩ := h.info _ _ hSecondMem
  have hUnpacked' := (Daemon.head_unpacked (h.framedInit _ _ hSecondMem)).trans hUnpack'
  rw [if_neg hSession] at hInfo'
  obtain ⟨s', u, hSecond, hCount', hIntroduced⟩ := Daemon.introduce hGreeted hUnpacked' hType'
    (by rw [hInfo']) (by rw [hInfo']; exact h.starts) (by rw [hInfo']) h.gob
  have hFramed : ∀ msg ∈ traffic env message start a, Daemon.Framed msg := by
    rw [traffic_eq]
    exact List.forall_mem_map.mpr h.framed
  have hTraffic : ∀ msg ∈ traffic env message start a, ∃ e, wire.unpack msg = .ok e ∧ e.isTraffic = true := by
    rw [traffic_eq]
    exact List.forall_mem_map.mpr h.isTraffic
  obtain ⟨v, hRest, hStill⟩ := hIntroduced.follows h.flows hFramed hTraffic
  exact ⟨t, u, v, .cons rfl hFirst hCount (.nil t hGreeted.closed), hGreeted,
    .cons hGreeted.closed hSecond hCount' (.nil u hIntroduced.closed), hIntroduced, hRest, hStill⟩

theorem Agrees.framedRequests (h : Agrees env wire message reply start a service network) :
    ∀ msg ∈ requests env message start a, Daemon.Framed msg := by
  intro msg hMem
  rcases List.mem_cons.mp hMem with rfl | hMem
  · exact h.framedInit _ _ List.mem_cons_self
  · rcases List.mem_cons.mp hMem with rfl | hMem
    · exact h.framedInit _ _ (List.mem_cons_of_mem _ List.mem_cons_self)
    · rw [traffic_eq] at hMem
      exact List.forall_mem_map.mpr h.framed msg hMem

theorem Agrees.follows (h : Agrees env wire message reply start a service network) : ∃ v,
    Daemon.Follows wire {} (requests env message start a) v ∧ Daemon.Introduced v (a.session env) := by
  obtain ⟨t, u, v, hOne, -, hTwo, -, hRest, hIntroduced⟩ := h.served
  exact ⟨v, (hOne.append hTwo).append hRest, hIntroduced⟩

/-- All bytes to the client. -/
def toClient (reply : Daemon.Sent → Text) : Text :=
  Daemon.versRec ++ Daemon.infoRec 2 ++ Daemon.infoRec 1 ++ reply .initResp ++ reply .connected

/-- All bytes to the daemon. -/
def toDaemon (env : Env) (message : Sent → Text) (start : EvRvClient) (a : Answer) : Text :=
  Daemon.versRec ++ Daemon.infoRec 3 ++ (requests env message start a).flatten

/-- What the client is after each record. -/
theorem Agrees.hears (h : Agrees env wire message reply start a service network) :
    let heard := Socket.heard env { client := start }
    let read := Daemon.versRec
    heard read = { client := start.at .infoRecv [.vers] } ∧
      heard (read ++ Daemon.infoRec 2) = { client := start.at .infoRecv [.vers, .info] } ∧
      heard (read ++ Daemon.infoRec 2 ++ Daemon.infoRec 1) =
        { client := start.at .initRecv [.vers, .info, .initRec [] []] } ∧
      heard (read ++ Daemon.infoRec 2 ++ Daemon.infoRec 1 ++ reply .initResp) =
        { client := start.named env a (reply .initResp) } ∧
      receive env { client := start } (toClient reply) =
        some { client := start.connected env a (reply .initResp) (reply .connected) } := by
  have hVers : receive env { client := start } _ = _ := receive_vers h.fresh
  have hInfo := receive_append rfl hVers rfl (receive_info env start)
  have hInfoDone := receive_append rfl hInfo rfl (receive_infoDone h.fresh)
  have hAnswer := receive_append rfl hInfoDone rfl
    (receive_initResp (h.framedReply .initResp (by simp)) h.answer)
  have hDone := receive_append rfl hAnswer rfl
    (receive_connected (h.framedReply .connected (by simp)) h.done)
  exact ⟨heard_eq hVers, heard_eq hInfo, heard_eq hInfoDone, heard_eq hAnswer, hDone⟩

theorem after_messages {msgs : List Text} {v : Daemon.Service} (hFollows : Daemon.Follows wire {} msgs v)
    (hFramed : ∀ msg ∈ msgs, Daemon.Framed msg) :
    Daemon.Connection.after wire (Daemon.versRec ++ Daemon.infoRec 3 ++ msgs.flatten) = ⟨.dataRecv, v, []⟩ :=
  Daemon.after_eq (hFollows.receive_all hFramed (by decide))

/-- What the daemon has written after each record. -/
theorem Agrees.writes (h : Agrees env wire message reply start a service network) :
    let written := fun read => (Daemon.Connection.after wire read).written reply
    let head := Daemon.versRec ++ Daemon.infoRec 3
    let first := message (.initRec [] [])
    let second := message (.initRec (a.session env) (a.control env))
    written [] = Daemon.versRec ∧
      written Daemon.versRec = Daemon.versRec ++ Daemon.infoRec 2 ∧
      written head = Daemon.versRec ++ Daemon.infoRec 2 ++ Daemon.infoRec 1 ∧
      written (head ++ first) = Daemon.versRec ++ Daemon.infoRec 2 ++ Daemon.infoRec 1 ++ reply .initResp ∧
      written (head ++ first ++ second) = toClient reply ∧
      written (toDaemon env message start a) = toClient reply := by
  obtain ⟨t, u, v, hFirst, hGreeted, hSecond, hIntroduced, hRest, hStill⟩ := h.served
  have hTwo := hFirst.append hSecond
  have hAll := hTwo.append hRest
  have hFramed := h.framedRequests
  have hRefined : ∀ msgs : List Text, msgs ⊆ requests env message start a → ∀ msg ∈ msgs, Daemon.Framed msg :=
    fun msgs hSub msg hMem => hFramed msg (hSub hMem)
  have hNone := after_messages (.nil _ rfl : Daemon.Follows wire {} [] {}) (hRefined [] (by simp))
  have hOne := after_messages hFirst (hRefined _ (by simp [requests]))
  have hBoth := after_messages hTwo (hRefined _ (by simp [requests]))
  have hEnd := after_messages hAll hFramed
  have hVers : Daemon.Connection.after wire Daemon.versRec = ⟨.infoRecv, {}, []⟩ := Daemon.after_eq rfl
  simp only [List.flatten_cons, List.flatten_nil, List.append_nil, List.cons_append, List.nil_append,
    ← List.append_assoc] at hNone hOne hBoth
  refine ⟨?_, ?_, ?_, ?_, ?_, ?_⟩
  · rfl
  · dsimp only
    rw [hVers]
    rfl
  · dsimp only
    rw [hNone]
    simp [Daemon.Connection.written, Daemon.SvcState.records]
  · dsimp only
    rw [hOne]
    simp [Daemon.Connection.written, Daemon.SvcState.records, hGreeted.replies]
  · dsimp only
    rw [hBoth]
    simp [Daemon.Connection.written, Daemon.SvcState.records, hIntroduced.replies, toClient]
  · dsimp only
    have hSame : toDaemon env message start a = Daemon.versRec ++ Daemon.infoRec 3 ++
        ([message (.initRec [] [])] ++ [message (.initRec (a.session env) (a.control env))] ++
          traffic env message start a).flatten := rfl
    rw [hSame, hEnd]
    simp [Daemon.Connection.written, Daemon.SvcState.records, hStill.replies, toClient]

/-- What the client has sent when it is connected is all that the daemon is to read. -/
theorem connected_written (env : Env) (message : Sent → Text) (start : EvRvClient) (a : Answer)
    (answer done : Text) :
    Socket.written message { client := start.connected env a answer done } = toDaemon env message start a := by
  simp [Socket.written, EvRvClient.connected, Sent.bytes, toDaemon, requests, traffic,
    List.flatMap_def, Function.comp_def]

/-- What the client has sent after each record. -/
theorem Agrees.answers (h : Agrees env wire message reply start a service network) :
    let written := fun read => (Socket.heard env { client := start } read).written message
    let head := Daemon.versRec ++ Daemon.infoRec 2
    let first := message (.initRec [] [])
    let second := message (.initRec (a.session env) (a.control env))
    written Daemon.versRec = Daemon.versRec ∧
      written head = Daemon.versRec ++ Daemon.infoRec 3 ∧
      written (head ++ Daemon.infoRec 1) = Daemon.versRec ++ Daemon.infoRec 3 ++ first ∧
      written (head ++ Daemon.infoRec 1 ++ reply .initResp) =
        Daemon.versRec ++ Daemon.infoRec 3 ++ first ++ second ∧
      written (toClient reply) = toDaemon env message start a := by
  obtain ⟨hVers, hInfo, hInfoDone, hAnswer, hDone⟩ := h.hears
  dsimp only
  rw [hVers, hInfo, hInfoDone, hAnswer, heard_eq hDone]
  refine ⟨?_, ?_, ?_, ?_, connected_written env message start a _ _⟩
  all_goals simp [Socket.written, EvRvClient.named, EvRvClient.at, Sent.bytes]

/-- The two have the whole exchange. -/
theorem Agrees.complete (h : Agrees env wire message reply start a service network) :
    Duplex.Complete (party env { client := start } message) (Daemon.party wire reply) (toClient reply)
      (toDaemon env message start a) (Socket.heard env { client := start })
      (Daemon.Connection.after wire) := by
  obtain ⟨-, -, -, -, hDone⟩ := h.hears
  obtain ⟨hSentVers, hSentInfo, hSentFirst, hSentSecond, hSentAll⟩ := h.answers
  obtain ⟨hVers, hInfo, hInfoDone, hAnswer, hConnected, hAll⟩ := h.writes
  obtain ⟨v, hFollows, -⟩ := h.follows
  have hStart : receive env { client := start } [] = some { client := start } := rfl
  have hBehind : Daemon.versRec ++ Daemon.infoRec 3 ++ message (.initRec [] []) ++
      message (.initRec (a.session env) (a.control env)) <+: toDaemon env message start a :=
    ⟨(traffic env message start a).flatten, by simp [toDaemon, requests]⟩
  -- Each turn: the daemon has written one more record, and the client answers it.
  have hExchanged : Duplex.Exchanged (party env { client := start } message) (Daemon.party wire reply)
      (Socket.heard env { client := start }) (Daemon.Connection.after wire) [] [] := .start
  have hExchanged := hExchanged.turn hVers hSentVers List.nil_prefix List.nil_prefix
  have hExchanged := hExchanged.turn hInfo hSentInfo (List.prefix_append _ _) (List.prefix_append _ _)
  have hExchanged := hExchanged.turn hInfoDone hSentFirst (List.prefix_append _ _) (List.prefix_append _ _)
  have hExchanged := hExchanged.turn hAnswer hSentSecond (List.prefix_append _ _) (List.prefix_append _ _)
  have hExchanged := hExchanged.turn hConnected hSentAll (List.prefix_append _ _) hBehind
  exact ⟨receive_plays rfl hStart hDone rfl message, hFollows.plays h.framedRequests (by decide) reply,
    hSentAll, hAll, hExchanged⟩

/-- The handshake is over: the client may send, the daemon has its session under the name
that the client has made, and the messages of the client were dispatched in their order. -/
structure Connected (env : Env) (wire : Daemon.Wire) (message : Sent → Text) (start : EvRvClient) (a : Answer)
    (s : Duplex.Link Socket Daemon.Connection UInt8 UInt8) : Prop where
  rvState : s.left.client.rvState = .dataRecv
  saved : s.left.client.saveBuf = []
  payloads : payloads s.left.client.sent = pending env start
  svcState : s.right.svcState = .dataRecv
  introduced : Daemon.Introduced s.right.service s.left.client.session
  follows : Daemon.Follows wire {} (requests env message start a) s.right.service
  unread : s.left.recv = [] ∧ s.right.recv = []

/-- In whatever order and pieces the client and the daemon read: neither closes the
connection, no delivery is refused, the handshake can always be ended, and it has not
stopped before when nothing is on the way. -/
theorem handshake_completes (h : Agrees env wire message reply start a service network)
    {s : Duplex.Link Socket Daemon.Connection UInt8 UInt8}
    (hReach : (Duplex.link (party env { client := start } message) (Daemon.party wire reply)).Reachable s) :
    (s.left.closed = false ∧ s.right.service.closed = false) ∧
      (∀ d, ∃ t, Duplex.deliver (party env { client := start } message) (Daemon.party wire reply) s d = some t) ∧
      (∃ inputs outputs t, (Duplex.link (party env { client := start } message)
        (Daemon.party wire reply)).Run s inputs outputs t ∧ t.toLeft = [] ∧ t.toRight = []) ∧
      (s.toLeft = [] → s.toRight = [] → Connected env wire message start a s) := by
  have hComplete := h.complete
  obtain ⟨v, hFollows, hIntroduced⟩ := h.follows
  obtain ⟨-, -, -, -, hDone⟩ := h.hears
  obtain ⟨readLeft, readRight, hPlayed⟩ := hComplete.reachable hReach
  refine ⟨⟨?_, ?_⟩, ?_, ?_, ?_⟩
  · obtain ⟨rest, hRead⟩ := hPlayed.1
    rw [← hRead] at hDone
    obtain ⟨m, hHeard, hOpen, -⟩ := receive_split rfl hDone rfl
    rw [hPlayed.2.2.1, heard_eq hHeard]
    exact hOpen
  · obtain ⟨c, hReceive, hOpen⟩ := hFollows.reads h.framedRequests (by decide) hPlayed.2.1
    rw [hPlayed.2.2.2.1, Daemon.after_eq hReceive]
    exact hOpen
  · intro d
    obtain ⟨t, hDeliver, -⟩ := hComplete.deliver hPlayed d
    exact ⟨t, hDeliver⟩
  · obtain ⟨inputs, outputs, hRun⟩ := hComplete.ends hPlayed
    exact ⟨inputs, outputs, _, hRun, rfl, rfl⟩
  · intro hLeft hRight
    have hEnd := hComplete.quiet hPlayed hLeft hRight
    rw [heard_eq hDone, toDaemon, after_messages hFollows h.framedRequests] at hEnd
    have hPayloads : payloads (start.connected env a (reply .initResp) (reply .connected)).sent = pending env start := by
      simp only [EvRvClient.connected, payloads_append, payloads_msgs]
      rfl
    rw [hEnd]
    exact ⟨rfl, rfl, hPayloads, rfl, hIntroduced, hFollows, rfl, rfl⟩

end

/-! A handshake, in the bytes of the wire. -/

/-- The segments of a subject, each with its length. -/
def wireSubject (sub : Text) : Text :=
  let segs := sub.splitOn 46
  UInt8.ofNat segs.length :: segs.flatMap fun seg => UInt8.ofNat (seg.length + 2) :: seg ++ [0]

def wireMessage : Sent → Text
  | .vers => []
  | .info => []
  | .initRec session control =>
      let named (field : String) (value : Text) : List Text :=
        if value = [] then [] else [Daemon.wireField field 8 (value ++ [0])]
      Daemon.wireMsg ([Daemon.wireField "mtype" 8 (text "I" ++ [0])] ++ named "session" session ++
        [Daemon.wireField "service" 8 (text "7500" ++ [0]), Daemon.wireField "network" 8 [0]] ++
        named "control" control)
  | .inbox sub => Daemon.wireMsg
      [Daemon.wireField "mtype" 8 (text "L" ++ [0]), Daemon.wireField "sub" 2 (wireSubject sub)]
  | .msg (.listen sub _) => Daemon.wireMsg
      [Daemon.wireField "mtype" 8 (text "L" ++ [0]), Daemon.wireField "sub" 2 (wireSubject sub)]
  | .msg (.cancel sub) => Daemon.wireMsg
      [Daemon.wireField "mtype" 8 (text "C" ++ [0]), Daemon.wireField "sub" 2 (wireSubject sub)]
  | .msg (.publish bytes) => bytes

def wireReply : Daemon.Sent → Text
  | .initResp => wireInitResp
  | .connected => wireConnected
  | _ => []

def wireAnswer : Answer := ⟨0x0A000009#32, 7500, text "G", none⟩

/-- The messages of the client, as the daemon unpacks them. -/
def wireRequests : List (Text × Daemon.Envelope) :=
  let session := wireAnswer.session (wireEnv [])
  let info (session : Option Text) : Daemon.Envelope :=
    { mtype := .info, info := { session := session, service := text "7500" } }
  [(wireMessage (.initRec [] []), info none),
   (wireMessage (.initRec session (wireAnswer.control (wireEnv []))), info (some session)),
   (wireMessage (.inbox (wireAnswer.inbox (wireEnv []))),
     { mtype := .listen, sub := wireAnswer.inbox (wireEnv []), isWild := true }),
   (wireMessage (.msg (.listen (text "B") none)), { mtype := .listen, sub := text "B" })]

def wireTake (msg : Text) : Except (Fin 5) Daemon.Envelope :=
  match wireRequests.find? fun request => request.1 = msg with
  | some request => .ok request.2
  | none => .error 0

theorem wireTake_short (msg : Text) (h : msg.length < 8) : ∃ status, wireTake msg = .error status := by
  unfold wireTake
  split
  · next request hFind =>
      have hLong : ∀ request ∈ wireRequests, 8 ≤ request.1.length := by decide +kernel
      have hEq : request.1 = msg := by simpa using List.find?_some hFind
      have hSize := hLong request (List.mem_of_find?_eq_some hFind)
      rw [hEq] at hSize
      omega
  · exact ⟨0, rfl⟩

theorem wireMagic_ne : (1 : Int) ≠ Daemon.errBackpressure := by decide

def daemonWire : Daemon.Wire where
  gob := text "G"
  converts _ := true
  compiles _ := true
  isMatch _ _ := false
  notified := false
  startNetwork _ _ _ := (0, { networkStarted := true })
  forwardMsg _ := .good
  unpack := wireTake
  unpack_short := wireTake_short
  badMagicNumber := 1
  badMagicNumber_pos := Int.one_pos
  badMagicNumber_ne := wireMagic_ne

/-- A client with one subscription, which it has queued before it is connected. -/
def wireStart : EvRvClient := queueSend {} (.listen (text "B") none)

theorem wire_agrees :
    Agrees (wireEnv []) daemonWire wireMessage wireReply wireStart wireAnswer (text "7500") [] where
  fresh := ⟨rfl, rfl, rfl, rfl⟩
  framedReply := by
    have hFramed : ∀ out ∈ [Daemon.Sent.initResp, .connected], 8 ≤ (wireReply out).length ∧
        getU32 (wireReply out) = (wireReply out).length ∧ Daemon.hasMagic (wireReply out) = true := by
      decide +kernel
    exact fun out hMem => ⟨(hFramed out hMem).1, (hFramed out hMem).2.1, (hFramed out hMem).2.2⟩
  framedInit session control hMem := by
    have hFramed : ∀ out ∈ introductions (wireEnv []) wireAnswer, 8 ≤ (wireMessage out).length ∧
        getU32 (wireMessage out) = (wireMessage out).length ∧ Daemon.hasMagic (wireMessage out) = true := by
      decide +kernel
    exact ⟨(hFramed _ hMem).1, (hFramed _ hMem).2.1, (hFramed _ hMem).2.2⟩
  framed := by
    have hFramed : ∀ out ∈ Sent.inbox (wireAnswer.inbox (wireEnv [])) ::
        (pending (wireEnv []) wireStart).map Sent.msg, 8 ≤ (wireMessage out).length ∧
        getU32 (wireMessage out) = (wireMessage out).length ∧ Daemon.hasMagic (wireMessage out) = true := by
      decide +kernel
    exact fun out hMem => ⟨(hFramed out hMem).1, (hFramed out hMem).2.1, (hFramed out hMem).2.2⟩
  answer := by
    have hUnpack : wireUnpack wireInitResp = _ := if_pos rfl
    exact ⟨_, hUnpack, rfl, none, rfl⟩
  done := by
    have hOther : wireConnected ≠ wireInitResp := by decide +kernel
    have hUnpack : wireUnpack wireConnected = _ := (if_neg hOther).trans (if_pos rfl)
    exact ⟨_, hUnpack, rfl⟩
  info session control hMem := by
    simp only [introductions, List.mem_cons, List.not_mem_nil, or_false, Sent.initRec.injEq] at hMem
    rcases hMem with ⟨rfl, rfl⟩ | ⟨rfl, rfl⟩
    · exact ⟨_, rfl, rfl, rfl⟩
    · exact ⟨_, rfl, rfl, rfl⟩
  isTraffic out hMem := by
    have hPending : pending (wireEnv []) wireStart = [.listen (text "B") none] := rfl
    simp only [hPending, List.map_cons, List.map_nil, List.mem_cons, List.not_mem_nil, or_false] at hMem
    rcases hMem with rfl | rfl
    · exact ⟨_, rfl, rfl⟩
    · exact ⟨_, rfl, rfl⟩
  starts _ := rfl
  flows _ := nofun
  gob := by decide +kernel

theorem handshake_completes_wire : ∃ s, (Duplex.link (party (wireEnv []) { client := wireStart } wireMessage)
      (Daemon.party daemonWire wireReply)).Reachable s ∧
    Connected (wireEnv []) daemonWire wireMessage wireStart wireAnswer s := by
  have hInit : (Duplex.link (party (wireEnv []) { client := wireStart } wireMessage)
      (Daemon.party daemonWire wireReply)).Reachable (Duplex.begin _ _) := System.reachable_of_init rfl
  obtain ⟨-, -, ⟨inputs, outputs, t, hRun, hLeft, hRight⟩, -⟩ := handshake_completes wire_agrees hInit
  have hReach : (Duplex.link (party (wireEnv []) { client := wireStart } wireMessage)
      (Daemon.party daemonWire wireReply)).Reachable t := ⟨_, inputs, outputs, rfl, hRun⟩
  exact ⟨t, hReach, (handshake_completes wire_agrees hReach).2.2.2 hLeft hRight⟩

end Sassrv.Client
