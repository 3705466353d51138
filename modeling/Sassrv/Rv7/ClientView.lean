import Sassrv.Client.Connection
import Sassrv.Rv7.Connection
import Sassrv.SubMgr.Recognition

/-! The client of an rv7 transport as a view of `EvRvClient` with all its messages: the
handshake and the messages about subscriptions, without what is published. -/
namespace Sassrv.Rv7
open SubMgr Records

/-- The same state of the handshake. -/
def rvStateView : Client.RvState → RvState
  | .errClose => .errClose
  | .versRecv => .versRecv
  | .infoRecv => .infoRecv
  | .initRecv => .initRecv
  | .connRecv => .connRecv
  | .dataRecv => .dataRecv

/-- The subscription that a message is about. -/
def subMsgView : Client.Msg → Option SubMsg
  | .listen sub _ => some (.listen sub)
  | .cancel sub => some (.cancel sub)
  | .publish _ => none

/-- The same of what goes to the socket, where the control inbox is one of them. -/
def sentView : Client.Sent → Option SubMsg
  | .inbox control => some (.listen control)
  | .msg m => subMsgView m
  | _ => none

/-- An open client. -/
def clientView (c : Client.EvRvClient) : EvRvClient where
  rvState := rvStateView c.rvState
  control := c.control
  saveBuf := c.saveBuf.filterMap subMsgView
  wire := c.sent.filterMap sentView

variable {env : Client.Env} {c : Client.EvRvClient} {m : Client.Msg}

/-! The inboxes. -/

theorem makeControl_eq (session : Text) : makeControl session = Client.makeInbox session := rfl

/-- The inbox with the number 1 of a query, where numbers are written as the client does. -/
theorem makeInbox_eq (env : SubMgr.Env) {uint32ToString : BitVec 32 → Text}
    (hOne : uint32ToString 1 = [49]) :
    SubMgr.makeInbox env uint32ToString 1 = Client.makeInbox env.session := by
  unfold SubMgr.makeInbox inboxControl Client.makeInbox
  rw [hOne]
  split <;> simp [*]

/-! Sending. -/

theorem queueSend_view {s : SubMsg} (hMsg : subMsgView m = some s) :
    clientView (Client.queueSend c m) = queueSend (clientView c) s := by
  unfold Client.queueSend queueSend clientView
  cases hState : c.rvState <;>
    simp [Client.EvRvClient.send, rvStateView, hState, List.filterMap_append, sentView, hMsg]

/-- What is published does not show. -/
theorem queueSend_view_none (hMsg : subMsgView m = none) :
    clientView (Client.queueSend c m) = clientView c := by
  unfold Client.queueSend clientView
  cases hState : c.rvState <;>
    simp [Client.EvRvClient.send, rvStateView, hState, List.filterMap_append, sentView, hMsg]

theorem subscribe_view (hWrite : c.noWrite = false) (sub rep : Text) :
    clientView (Client.subscribe c sub rep) = (clientView c).subscribe (stripNul sub) := by
  unfold Client.subscribe
  rw [hWrite, if_neg Bool.false_ne_true]
  exact queueSend_view rfl

theorem unsubscribe_view (hWrite : c.noWrite = false) (sub : Text) :
    clientView (Client.unsubscribe c sub) = (clientView c).unsubscribe (stripNul sub) := by
  unfold Client.unsubscribe
  rw [hWrite, if_neg Bool.false_ne_true]
  exact queueSend_view rfl

theorem flushPendingSend_view :
    clientView (Client.flushPendingSend c) = flushPendingSend (clientView c) := by
  have hMap : (c.saveBuf.map Client.Sent.msg).filterMap sentView = c.saveBuf.filterMap subMsgView :=
    List.filterMap_map ..
  unfold Client.flushPendingSend flushPendingSend clientView
  simp [List.filterMap_append, hMap]

/-! The handshake. -/

/-- The records of the daemon are the events `recvVers` and `recvInfo` of a session. -/
theorem acceptRecord_view_vers (hState : c.rvState = .versRecv) (rec : Text) :
    clientView (Client.acceptRecord env c rec).1 =
      { clientView c with rvState := .infoRecv } := by
  unfold Client.acceptRecord
  rw [hState]
  simp [clientView, Client.EvRvClient.send, rvStateView, sentView]

theorem acceptRecord_view_info (hState : c.rvState = .infoRecv) (rec : Text) :
    clientView (Client.acceptRecord env c rec).1 =
      if getU32 rec = 1 then { clientView c with rvState := .initRecv } else clientView c := by
  unfold Client.acceptRecord
  rw [hState]
  dsimp only
  by_cases hReady : getU32 rec = 1
  · rw [if_neg (not_not.mpr hReady), if_pos hReady]
    simp [clientView, Client.EvRvClient.send, rvStateView, sentView]
  · rw [if_pos hReady, if_neg hReady]
    simp [clientView, Client.EvRvClient.send, sentView]

/-- An `RVD.INITRESP` that is taken is the event `recvInit` with the name of the session. -/
theorem recvInfo_view {e : Client.Envelope} (hSub : e.sub = text "RVD.INITRESP")
    (hTaken : (Client.recvInfo env c e).2 = 0) :
    ∃ name, clientView (Client.recvInfo env c e).1 =
      { clientView c with
        rvState := .connRecv
        control := makeControl name } := by
  unfold Client.recvInfo at hTaken ⊢
  rw [if_pos hSub] at hTaken ⊢
  split at hTaken
  · exact ⟨_, by simp [clientView, Client.EvRvClient.send, rvStateView, sentView]; rfl⟩
  · cases hTaken

/-- What `on_connect` of a transport gives the client to queue. -/
def reconnectMsgs (parse : Text → Nat) (s : Session) : List Client.Msg :=
  if s.timerArmed then
    (s.tport.ht.elements.filter fun l => isInbox parse s.client l.subject = 0).map
      fun l => .listen l.subject none
  else []

theorem subscribe_fold_view (parse : Text → Nat) (listeners : List Listener) :
    clientView (((listeners.filter fun l => isInbox parse (clientView c) l.subject = 0).map
      fun l => Client.Msg.listen l.subject none).foldl Client.queueSend c) =
    listeners.foldl (fun c l => if isInbox parse c l.subject = 0 then c.subscribe l.subject else c)
      (clientView c) := by
  induction listeners generalizing c with
  | nil => rfl
  | cons l rest ih =>
      by_cases hPlain : isInbox parse (clientView c) l.subject = 0
      · have hNext : clientView (Client.queueSend c (.listen l.subject none)) =
            (clientView c).subscribe l.subject := queueSend_view rfl
        have hControl : (clientView (Client.queueSend c (.listen l.subject none))).control =
            (clientView c).control := by
          unfold Client.queueSend
          split <;> rfl
        have hInbox : ∀ sub, isInbox parse (clientView (Client.queueSend c (.listen l.subject none)))
            sub = isInbox parse (clientView c) sub := by
          intro sub
          unfold isInbox
          rw [hControl]
        rw [List.foldl_cons, if_pos hPlain, ← hNext, ← ih]
        simp [hPlain, hInbox]
      · rw [List.foldl_cons, if_neg hPlain, ← ih]
        simp [hPlain]

/-- The end of the handshake is `recv_conn` of a session, when the client has no subjects of
its own and `on_connect` is that of the transport. -/
theorem recvConn_view (parse : Text → Nat) {s : Session} {e : Client.Envelope}
    (hView : clientView c = s.client) (hSub : e.sub = text "_RV.INFO.SYSTEM.RVD.CONNECTED")
    (hBcast : env.bcastSubs = []) (hListen : env.listenSubs = [])
    (hConnect : env.onConnect = reconnectMsgs parse s) :
    clientView (Client.recvConn env c e).1 = (recvConn parse s).client := by
  let opened : Client.EvRvClient :=
    { c.send (.inbox (c.control.dropLast ++ [62])) with rvState := .dataRecv }
  have hOpened : clientView opened = { s.client with
      wire := s.client.wire ++ [.listen (s.client.control.dropLast ++ text ">")]
      rvState := .dataRecv } := by
    rw [← hView]
    simp [opened, clientView, Client.EvRvClient.send, rvStateView, sentView]
    rfl
  have hInbox : ∀ sub, isInbox parse s.client sub = isInbox parse (clientView opened) sub := by
    intro sub
    rw [hOpened]
    rfl
  have hConnected : clientView (Client.onConnected env opened) =
      (onConnect parse { s with client := clientView opened }).client := by
    unfold Client.onConnected onConnect
    rw [hBcast, hListen, hConnect, reconnectMsgs]
    cases s.timerArmed with
    | false => rfl
    | true =>
        simp only [List.foldl_nil, if_true, hInbox]
        exact subscribe_fold_view parse _
  unfold Client.recvConn recvConn
  rw [if_pos hSub]
  dsimp only
  rw [flushPendingSend_view, ← hOpened, ← hConnected]

end Sassrv.Rv7
