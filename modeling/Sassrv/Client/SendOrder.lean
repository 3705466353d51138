import Sassrv.Client.Connection
import Sassrv.Lib.Transition

/-! The order of the messages that are queued while the handshake goes on. They are
saved until `recv_conn`, which first lets the configuration and the application queue
theirs and then sends the saved ones. -/
namespace Sassrv.Client
open SubMgr Records Transition

/-- A call of the application, or bytes of the daemon. -/
inductive Input where
  | queueSend (m : Msg)
  | receive (chunk : Text)

/-- The connection from its start. -/
def connection (env : Env) : System Socket Input Unit where
  init s := s = {}
  step s input _ t :=
    match input with
    | .queueSend m => t = { s with client := queueSend s.client m }
    | .receive chunk => receive env s chunk = some t

/-- The messages of the client on the wire. -/
def payloads (sent : List Sent) : List Msg :=
  sent.filterMap fun out =>
    match out with
    | .msg m => some m
    | _ => none

/-- What `recv_conn` has queued before it sends the saved messages. -/
def connectMsgs (env : Env) (c : EvRvClient) : List Msg :=
  (if c.noWrite then [] else
    (env.bcastSubs ++ env.listenSubs).map fun sub => .listen (stripNul sub) none) ++ env.onConnect

/-- Nothing is saved when the daemon is heard during the handshake, or nothing is queued
when it is through. -/
def InOrder (env : Env) (s : Socket) : Input → Prop
  | .queueSend _ => True
  | .receive _ => s.client.saveBuf = [] ∨ connectMsgs env s.client = []

/-- Each message that was taken is on the wire or saved, once and in order, and none is
saved after the handshake. -/
structure Ordered (c : EvRvClient) : Prop where
  order : payloads c.sent ++ c.saveBuf = c.queued
  flushed : c.rvState = .dataRecv → c.saveBuf = []

def Socket.Ordered (s : Socket) : Prop := Client.Ordered s.client

variable {env : Env} {c : EvRvClient}

theorem payloads_append (a b : List Sent) : payloads (a ++ b) = payloads a ++ payloads b :=
  List.filterMap_append

theorem payloads_msgs (msgs : List Msg) : payloads (msgs.map Sent.msg) = msgs := by
  induction msgs with
  | nil => rfl
  | cons m rest ih => exact congrArg (m :: ·) ih

/-- A record of the handshake is no message. -/
theorem payloads_send {out : Sent} (h : payloads [out] = []) (c : EvRvClient) :
    payloads (c.send out).sent = payloads c.sent := by
  rw [EvRvClient.send, payloads_append, h, List.append_nil]

theorem queueSend_ordered (h : Ordered c) (m : Msg) : Ordered (queueSend c m) := by
  obtain ⟨hOrder, hFlushed⟩ := h
  unfold queueSend
  split
  · next hState =>
      have hNone := hFlushed hState
      constructor
      · rw [hNone, List.append_nil] at hOrder
        simp only [EvRvClient.send, payloads_append, hOrder, hNone, List.append_nil]
        rfl
      · exact fun _ => hNone
  · exact ⟨hOrder, hFlushed⟩
  · next hNot _ =>
      constructor
      · rw [← hOrder]
        exact (List.append_assoc _ _ _).symm
      · exact fun hState => absurd hState hNot

/-- Messages queued one after the other when the handshake is through. -/
def EvRvClient.sendAll (c : EvRvClient) (msgs : List Msg) : EvRvClient :=
  { c with
    queued := c.queued ++ msgs
    sent := c.sent ++ msgs.map Sent.msg }

theorem sendAll_sendAll (c : EvRvClient) (a b : List Msg) : (c.sendAll a).sendAll b = c.sendAll (a ++ b) := by
  simp [EvRvClient.sendAll]

theorem queueSend_eq (h : c.rvState = .dataRecv) (m : Msg) : queueSend c m = c.sendAll [m] := by
  simp only [queueSend, h, EvRvClient.send, EvRvClient.sendAll, List.map_cons, List.map_nil]

theorem foldl_queueSend (h : c.rvState = .dataRecv) (msgs : List Msg) :
    msgs.foldl queueSend c = c.sendAll msgs := by
  induction msgs generalizing c with
  | nil => simp [EvRvClient.sendAll]
  | cons m rest ih =>
      have hState : (c.sendAll [m]).rvState = .dataRecv := h
      rw [List.foldl_cons, queueSend_eq h, ih hState, sendAll_sendAll]
      rfl

/-- The messages of `subscribe` for some subjects. -/
def subscribeMsgs (c : EvRvClient) (subs : List Text) : List Msg :=
  if c.noWrite then [] else subs.map fun sub => .listen (stripNul sub) none

theorem foldl_subscribe (h : c.rvState = .dataRecv) (subs : List Text) :
    subs.foldl (fun c sub => subscribe c sub []) c = c.sendAll (subscribeMsgs c subs) := by
  induction subs generalizing c with
  | nil => simp [subscribeMsgs, EvRvClient.sendAll]
  | cons sub rest ih =>
      rw [List.foldl_cons]
      by_cases hWrite : c.noWrite = true
      · have hSame : subscribe c sub [] = c := if_pos hWrite
        rw [hSame, ih h]
        simp only [subscribeMsgs, hWrite, if_true]
      · have hOne : subscribe c sub [] = c.sendAll [.listen (stripNul sub) none] := by
          rw [subscribe, if_neg hWrite, if_pos rfl, queueSend_eq h]
        have hState : (c.sendAll [.listen (stripNul sub) none]).rvState = .dataRecv := h
        have hRest : (c.sendAll [.listen (stripNul sub) none]).noWrite = c.noWrite := rfl
        rw [hOne, ih hState, sendAll_sendAll, subscribeMsgs, hRest]
        simp [subscribeMsgs, hWrite]

theorem onConnected_eq (h : c.rvState = .dataRecv) :
    onConnected env c = c.sendAll (connectMsgs env c) := by
  have hSubs : ∀ subs, (c.sendAll subs).rvState = .dataRecv := fun _ => h
  unfold onConnected
  dsimp only
  rw [foldl_subscribe h, foldl_subscribe (hSubs _), sendAll_sendAll, foldl_queueSend (hSubs _),
    sendAll_sendAll]
  congr 1
  unfold connectMsgs subscribeMsgs
  by_cases hWrite : c.noWrite = true <;> simp [hWrite, EvRvClient.sendAll]

theorem recvConn_ordered {m : Envelope} (h : Ordered c)
    (hOk : c.saveBuf = [] ∨ connectMsgs env c = []) : Ordered (recvConn env c m).1 := by
  unfold recvConn
  split
  · dsimp only
    rw [onConnected_eq rfl]
    constructor
    · have hOrder := h.order
      simp only [flushPendingSend, EvRvClient.send, EvRvClient.sendAll, payloads_append, payloads_msgs,
        List.append_nil]
      have hSame : connectMsgs env { c with
          rvState := .dataRecv
          sent := c.sent ++ [.inbox (c.control.dropLast ++ [62])] } = connectMsgs env c := rfl
      rw [hSame]
      have hInbox : payloads [.inbox (c.control.dropLast ++ [62])] = [] := rfl
      rw [hInbox, List.append_nil, ← hOrder]
      rcases hOk with hNone | hNone <;> rw [hNone] <;> simp
    · exact fun _ => rfl
  · exact h

theorem recvInfo_ordered {m : Envelope} (h : Ordered c) : Ordered (recvInfo env c m).1 := by
  unfold recvInfo
  split
  · split
    · constructor
      · dsimp only
        rw [payloads_send rfl]
        exact h.order
      · intro hData
        cases hData
    · exact h
  · split <;> exact h

theorem foldl_queueSend_ordered {msgs : List Msg} (h : Ordered c) :
    Ordered (msgs.foldl queueSend c) := by
  induction msgs generalizing c with
  | nil => exact h
  | cons m rest ih => exact ih (queueSend_ordered h m)

theorem dispatchMsg_ordered (msg : Text) (h : Ordered c)
    (hOk : c.saveBuf = [] ∨ connectMsgs env c = []) : Ordered (dispatchMsg env c msg).1 := by
  unfold dispatchMsg
  split
  · exact h
  · unfold dispatchEnvelope
    split
    · split
      · apply foldl_queueSend_ordered
        exact ⟨h.order, h.flushed⟩
      · exact h
    · exact recvInfo_ordered h
    · exact recvConn_ordered h hOk

/-- Reading saves nothing. -/
theorem dispatchMsg_saves (env : Env) (c : EvRvClient) (msg : Text) :
    (dispatchMsg env c msg).1.noWrite = c.noWrite ∧
      ((dispatchMsg env c msg).1.saveBuf = c.saveBuf ∨ (dispatchMsg env c msg).1.saveBuf = []) := by
  unfold dispatchMsg
  split
  · exact ⟨rfl, .inl rfl⟩
  · unfold dispatchEnvelope
    split
    · next hState =>
        split
        · next m _ _ _ =>
            have hForward : ({ c with forwarded := c.forwarded ++ [m] } : EvRvClient).rvState = .dataRecv :=
              hState
            dsimp only [fwdPub]
            rw [foldl_queueSend hForward]
            exact ⟨rfl, .inl rfl⟩
        · exact ⟨rfl, .inl rfl⟩
    · unfold recvInfo
      split
      · split <;> exact ⟨rfl, .inl rfl⟩
      · split <;> exact ⟨rfl, .inl rfl⟩
    · unfold recvConn
      split
      · dsimp only
        rw [onConnected_eq rfl]
        exact ⟨rfl, .inr rfl⟩
      · exact ⟨rfl, .inl rfl⟩

/-- What the loop of `process` keeps. -/
def Settled (env : Env) (c : EvRvClient) : Prop :=
  Ordered c ∧ (c.saveBuf = [] ∨ connectMsgs env c = [])

theorem acceptRecord_settled (record : Text) (h : Settled env c) :
    Settled env (acceptRecord env c record).1 := by
  obtain ⟨hOrdered, hOk⟩ := h
  unfold acceptRecord
  split
  · refine ⟨⟨?_, ?_⟩, hOk⟩
    · rw [payloads_send rfl]
      exact hOrdered.order
    · intro hState
      cases hState
  · next hState =>
      have hSend : ∀ out c', payloads [out] = [] → Ordered c' → c'.rvState ≠ .dataRecv →
          Ordered (c'.send out) := by
        intro out c' hOut hBefore hNot
        refine ⟨?_, fun hData => absurd hData hNot⟩
        rw [payloads_send hOut]
        exact hBefore.order
      split
      · exact ⟨hSend _ _ rfl hOrdered (by rw [hState]; simp), hOk⟩
      · refine ⟨hSend _ _ rfl ⟨hOrdered.order, ?_⟩ (by simp), hOk⟩
        intro hData
        cases hData
  · have hBefore : Ordered { c with dispatched := c.dispatched ++ [record] } :=
      ⟨hOrdered.order, hOrdered.flushed⟩
    have hAfter := dispatchMsg_ordered record hBefore hOk
    obtain ⟨hWrite, hSaves⟩ :=
      dispatchMsg_saves env { c with dispatched := c.dispatched ++ [record] } record
    have hStill : Settled env
        (dispatchMsg env { c with dispatched := c.dispatched ++ [record] } record).1 := by
      refine ⟨hAfter, ?_⟩
      unfold connectMsgs
      rw [hWrite]
      rcases hSaves with hSame | hNone
      · rw [hSame]
        exact hOk
      · exact .inl hNone
    split
    · next hEq =>
        rw [hEq] at hStill
        exact hStill
    · next hEq =>
        rw [hEq] at hStill
        exact hStill

theorem receive_ordered {s t : Socket} {chunk : Text} (h : Ordered s.client)
    (hOk : s.client.saveBuf = [] ∨ connectMsgs env s.client = [])
    (hReceive : receive env s chunk = some t) : Ordered t.client := by
  unfold receive at hReceive
  split at hReceive
  · cases hReceive
    exact h
  · unfold process at hReceive
    obtain ⟨out, hRead, hEq⟩ := Option.map_eq_some_iff.mp hReceive
    have hSettled : Settled env out.state :=
      Reader.read_invariant (fun _ record => acceptRecord_settled record) hRead ⟨h, hOk⟩
    split at hEq
    · cases hEq
      exact hSettled.1
    · cases hEq
      refine ⟨hSettled.1.order, ?_⟩
      intro hState
      cases hState

/-- In the runs in which nothing is saved when the daemon is heard, or nothing is queued
as the handshake ends, the messages go out once each and in the order of the calls. -/
theorem queueSend_order (env : Env) (s : Socket)
    (h : ((connection env).guard (InOrder env)).Reachable s) :
    payloads s.client.sent ++ s.client.saveBuf = s.client.queued ∧
      (s.client.rvState = .dataRecv → payloads s.client.sent = s.client.queued) := by
  have hOrdered : s.Ordered := by
    refine h.invariant ?_ ?_
    · rintro start rfl
      exact ⟨rfl, fun _ => rfl⟩
    · rintro s input emitted t hBefore ⟨hOk, hStep⟩
      cases input with
      | queueSend m =>
          have hEq : t = { s with client := queueSend s.client m } := hStep
          rw [hEq]
          exact queueSend_ordered hBefore m
      | receive chunk => exact receive_ordered hBefore hOk hStep
  refine ⟨hOrdered.order, ?_⟩
  intro hState
  have hOrder := hOrdered.order
  rw [hOrdered.flushed hState, List.append_nil] at hOrder
  exact hOrder

/-! A handshake, in the bytes of the wire. -/

/-- `{ sub: RVD.INITRESP, mtype: R, data: { ipaddr: 10.0.0.9, ipport: 7500, gob: G } }`. -/
def wireInitResp : Text :=
  Daemon.wireMsg
    [Daemon.wireField "sub" 2 ([2, 5] ++ text "RVD" ++ [0, 10] ++ text "INITRESP" ++ [0]),
     Daemon.wireField "mtype" 8 (text "R" ++ [0]),
     Daemon.wireField "data" 1 (Daemon.wireMsg
      [Daemon.wireField "ipaddr" 10 [10, 0, 0, 9], Daemon.wireField "ipport" 10 [0x1d, 0x4c],
       Daemon.wireField "gob" 8 (text "G" ++ [0])])]

/-- `{ sub: _RV.INFO.SYSTEM.RVD.CONNECTED, mtype: D }`. -/
def wireConnected : Text :=
  Daemon.wireMsg
    [Daemon.wireField "sub" 2 ([5, 5] ++ text "_RV" ++ [0, 6] ++ text "INFO" ++ [0, 8] ++ text "SYSTEM" ++
      [0, 5] ++ text "RVD" ++ [0, 11] ++ text "CONNECTED" ++ [0]),
     Daemon.wireField "mtype" 8 (text "D" ++ [0])]

/-- What `unpack` makes of these two messages. -/
def wireUnpack (msg : Text) : Except (Fin 5) Envelope :=
  if msg = wireInitResp then
    .ok { mtype := .response
          sub := text "RVD.INITRESP"
          init := some { ipaddr := some 0x0A000009#32, ipport := some 7500, gob := some (text "G") } }
  else if msg = wireConnected then
    .ok { mtype := .data, sub := text "_RV.INFO.SYSTEM.RVD.CONNECTED" }
  else .error 0

theorem wireUnpack_short (msg : Text) (h : msg.length < 8) : ∃ status, wireUnpack msg = .error status := by
  refine ⟨0, ?_⟩
  unfold wireUnpack
  rw [if_neg, if_neg]
  · rintro rfl
    revert h
    decide
  · rintro rfl
    revert h
    decide

/-- A client whose configuration has one broadcast feed. -/
def wireEnv (bcastSubs : List Text) : Env where
  unpack := wireUnpack
  unpack_short := wireUnpack_short
  stamp := text "1"
  bcastSubs := bcastSubs
  listenSubs := []
  onConnect := []
  onPub _ _ := []

/-- The whole handshake in one read. -/
def wireHandshake : Text :=
  [0, 0, 0, 0, 0, 0, 0, 4, 0, 0, 0, 0] ++ ([0, 0, 0, 1] ++ List.replicate 60 0) ++ wireInitResp ++
    wireConnected

/-- The socket after a subscription and, after it, the handshake. -/
def wireSocket (bcastSubs : List Text) : Socket :=
  (receive (wireEnv bcastSubs) { client := queueSend {} (.listen (text "B") none) }
    wireHandshake).getD {}

theorem wireSocket_eq (bcastSubs : List Text) (h : (receive (wireEnv bcastSubs)
      { client := queueSend {} (.listen (text "B") none) } wireHandshake).isSome = true) :
    receive (wireEnv bcastSubs) { client := queueSend {} (.listen (text "B") none) } wireHandshake =
      some (wireSocket bcastSubs) := by
  obtain ⟨s, hs⟩ := Option.isSome_iff_exists.mp h
  rw [wireSocket, hs, Option.getD_some]

theorem queueSend_order_saved :
    payloads (wireSocket []).client.sent = [.listen (text "B") none] ∧
      (wireSocket []).client.queued = [.listen (text "B") none] := by
  have hInit : ((connection (wireEnv [])).guard (InOrder (wireEnv []))).Reachable {} :=
    System.reachable_of_init rfl
  have hSaved : ((connection (wireEnv [])).guard (InOrder (wireEnv []))).Reachable
      { client := queueSend {} (.listen (text "B") none) } :=
    hInit.take (.queueSend (.listen (text "B") none)) [] trivial rfl
  have hReach : ((connection (wireEnv [])).guard (InOrder (wireEnv []))).Reachable (wireSocket []) :=
    hSaved.take (.receive wireHandshake) [] (.inr rfl) (wireSocket_eq [] (by decide +kernel))
  have hQueued : (wireSocket []).client.queued = [.listen (text "B") none] := by decide +kernel
  have hState : (wireSocket []).client.rvState = .dataRecv := by decide +kernel
  exact ⟨((queueSend_order (wireEnv []) (wireSocket []) hReach).2 hState).trans hQueued, hQueued⟩

/-- The subscription of the feed, which `recv_conn` queues, overtakes the saved one. -/
theorem saved_message_is_overtaken :
    (connection (wireEnv [text "A"])).Reachable (wireSocket [text "A"]) ∧
      (wireSocket [text "A"]).client.rvState = .dataRecv ∧
      (wireSocket [text "A"]).client.queued = [.listen (text "B") none, .listen (text "A") none] ∧
      payloads (wireSocket [text "A"]).client.sent =
        [.listen (text "A") none, .listen (text "B") none] := by
  have hInit : (connection (wireEnv [text "A"])).Reachable {} := System.reachable_of_init rfl
  have hQueue : (connection (wireEnv [text "A"])).step {} (.queueSend (.listen (text "B") none)) []
      { client := queueSend {} (.listen (text "B") none) } := rfl
  have hReceive : (connection (wireEnv [text "A"])).step
      { client := queueSend {} (.listen (text "B") none) } (.receive wireHandshake) []
      (wireSocket [text "A"]) := wireSocket_eq [text "A"] (by decide +kernel)
  refine ⟨(hInit.step hQueue).step hReceive, ?_, ?_, ?_⟩
  · decide +kernel
  · decide +kernel
  · decide +kernel

end Sassrv.Client
