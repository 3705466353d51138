import Sassrv.Daemon.HostSafety
import Sassrv.Daemon.Progress
import Sassrv.Lib.Duplex

/-! A connection of the daemon from `accept` on: the two records of the handshake and the
messages behind them. Messages that are framed and taken can be cut anywhere. -/
namespace Sassrv.Daemon
open SubMgr Records Partial

inductive SvcState where
  | versRecv
  | infoRecv
  | dataRecv
  deriving DecidableEq, Repr

/-- A number in the order of the network. -/
def bigEndian (n : BitVec 32) : Text :=
  (List.range 4).map fun i => UInt8.ofNat (n >>> (8 * (3 - i))).toNat

/-- `ver_rec`. -/
def versRec : Text := bigEndian 0 ++ bigEndian 4 ++ bigEndian 0

/-- `info_rec`, with the first word of its prefix. -/
def infoRec (first : BitVec 32) : Text :=
  [first, 2, 0, 1, 0, 4 <<< 24, 4 <<< 24].flatMap bigEndian ++ List.replicate 36 0

/-- The socket with its unread bytes. -/
structure Connection where
  svcState : SvcState := .versRecv
  service : Service := {}
  recv : Text := []

variable (wire : Wire)

/-- `data_recv_loop` of `process`. -/
def processMain (c : Connection) : Result Connection := do
  let r ← processData wire c.service c.recv
  return { c with
    service := r.service
    recv := r.rest }

/-- The turn of `process` in state `INFO_RECV`, which goes on with the messages. -/
def processInfo (c : Connection) : Result Connection :=
  if c.recv.length < 16 * 4 then .ok c
  else processMain wire { c with
    svcState := .dataRecv
    recv := c.recv.drop (16 * 4) }

/-- The turn of `process` in state `VERS_RECV`. -/
def processVers (c : Connection) : Result Connection :=
  if c.recv.length < 3 * 4 then .ok c
  else processInfo wire { c with
    svcState := .infoRecv
    recv := c.recv.drop (3 * 4) }

def Connection.process (c : Connection) : Result Connection :=
  match c.svcState with
  | .versRecv => processVers wire c
  | .infoRecv => processInfo wire c
  | .dataRecv => processMain wire c

/-- More bytes of the client. -/
def Connection.receive (c : Connection) (piece : Text) : Result Connection :=
  if c.service.closed then .ok c else Connection.process wire { c with recv := c.recv ++ piece }

/-- What goes to the client; the rest goes to the network. -/
def Sent.isReply : Sent → Bool
  | .initRefused _ => true
  | .initResp => true
  | .connected => true
  | .delivered _ => true
  | _ => false

/-- The records of `accept` and `send_info`. -/
def SvcState.records : SvcState → Text
  | .versRecv => versRec
  | .infoRecv => versRec ++ infoRec 2
  | .dataRecv => versRec ++ infoRec 2 ++ infoRec 1

/-- All bytes to the client, with the bytes of the messages. -/
def Connection.written (encode : Sent → Text) (c : Connection) : Text :=
  c.svcState.records ++ (c.service.sent.filter Sent.isReply).flatMap encode

variable {wire}

/-- The bytes are one message, by its header. -/
structure Framed (msg : Text) : Prop where
  header : 8 ≤ msg.length
  size : getU32 msg = msg.length
  magic : hasMagic msg = true

/-- The messages are dispatched and counted one after the other, the connection open. -/
inductive Follows (wire : Wire) : Service → List Text → Service → Prop where
  | nil (s : Service) (hOpen : s.closed = false) : Follows wire s [] s
  | cons {s t u v : Service} {msg : Text} {msgs : List Text} (hOpen : s.closed = false)
      (hDispatch : dispatchMsg wire.toEnv s (wire.head msg) = .ok (t, 0))
      (hCount : countMsg t (wire.head msg) = .ok u) (hRest : Follows wire u msgs v) :
      Follows wire s (msg :: msgs) v

theorem Follows.append {s t u : Service} {msgs rest : List Text} (h : Follows wire s msgs t)
    (hRest : Follows wire t rest u) : Follows wire s (msgs ++ rest) u := by
  induction h with
  | nil => exact hRest
  | cons hOpen hDispatch hCount _ ih => exact .cons hOpen hDispatch hCount (ih hRest)

variable {s t u v : Service} {msg : Text} {msgs : List Text} {buf rest more : Text}

/-- The loop comes to an end that does not close the connection. -/
def Drains (wire : Wire) (s : Service) (buf : Text) (t : Service) (rest : Text) : Prop :=
  t.closed = false ∧ ∀ status : Int, status ≤ 0 → ∃ status' : Int, status' ≤ 0 ∧
    dataRecvLoop wire s status buf = .ok ⟨t, status', rest⟩

theorem Drains.nil (hOpen : s.closed = false) : Drains wire s [] s [] :=
  ⟨hOpen, fun status hStatus => ⟨status, hStatus, dataRecvLoop_short wire s status (by decide)⟩⟩

theorem getU32_append (h : 4 ≤ buf.length) (more : Text) : getU32 (buf ++ more) = getU32 buf := by
  unfold getU32
  rw [List.take_append_of_le_length h]

/-- A message at the head of the buffer is taken. -/
theorem Drains.taken (hFramed : Framed msg)
    (hDispatch : dispatchMsg wire.toEnv s (wire.head msg) = .ok (t, 0))
    (hCount : countMsg t (wire.head msg) = .ok u) (h : Drains wire u buf v rest) :
    Drains wire s (msg ++ buf) v rest := by
  refine ⟨h.1, fun status _ => ?_⟩
  have hLong := hFramed.header
  have hSize : getU32 (msg ++ buf) = msg.length := by
    rw [getU32_append (by omega), hFramed.size]
  have hHead : wire.head (msg ++ buf) = wire.head msg := by
    simp only [Wire.head, hSize, hFramed.size, List.take_left', List.take_length]
  have hComplete : Complete (msg ++ buf) := by
    refine ⟨?_, ?_⟩
    · rw [List.length_append]
      omega
    · rw [hSize, List.length_append]
      omega
  rw [dataRecvLoop_taken status hComplete (hHead ▸ hDispatch) (hHead ▸ hCount), hSize,
    List.drop_left]
  exact h.2 0 (Int.le_refl 0)

/-- Less than a message waits for the rest of it. -/
theorem Drains.waiting (hOpen : s.closed = false) (hFramed : Framed msg) (hPrefix : buf <+: msg)
    (hShort : buf.length < msg.length) : Drains wire s buf s buf := by
  refine ⟨hOpen, fun status hStatus => ⟨status, hStatus, ?_⟩⟩
  obtain ⟨more, rfl⟩ := hPrefix
  by_cases hHeader : 8 ≤ buf.length
  · have hSize : getU32 buf = (buf ++ more).length := by
      rw [← getU32_append (by omega) more, hFramed.size]
    have hMagic : hasMagic buf = true := by
      have hWhole := hFramed.magic
      unfold hasMagic at hWhole ⊢
      rw [List.drop_append_of_le_length (by omega), getU32_append (by rw [List.length_drop]; omega)] at hWhole
      exact hWhole
    rw [dataRecvLoop, dif_neg (fun hComplete => absurd hComplete.2 (by omega)), if_neg (by simp [hMagic])]
  · exact dataRecvLoop_short wire s status (by omega)

/-- A part of a stream of messages: those that are all there are taken. -/
theorem Follows.drains (h : Follows wire s msgs v) (hFramed : ∀ msg ∈ msgs, Framed msg)
    (hPrefix : buf <+: msgs.flatten) : ∃ t rest, Drains wire s buf t rest := by
  induction h generalizing buf with
  | nil s hOpen =>
      cases List.prefix_nil.mp hPrefix
      exact ⟨s, [], .nil hOpen⟩
  | @cons s t u v msg msgs hOpen hDispatch hCount hRest ih =>
      rw [List.flatten_cons] at hPrefix
      have hFirst := hFramed msg List.mem_cons_self
      rcases List.prefix_or_prefix_of_prefix hPrefix (List.prefix_append msg msgs.flatten) with hPart | ⟨tail, rfl⟩
      · by_cases hLength : buf.length < msg.length
        · exact ⟨s, buf, .waiting hOpen hFirst hPart hLength⟩
        · obtain rfl := hPart.eq_of_length_le (by omega)
          have hNone : ([] : Text) <+: msgs.flatten := List.nil_prefix
          obtain ⟨t', rest, hDrains⟩ := ih (fun m hm => hFramed m (List.mem_cons_of_mem _ hm)) hNone
          refine ⟨t', rest, ?_⟩
          have hTaken := Drains.taken hFirst hDispatch hCount hDrains
          rwa [List.append_nil] at hTaken
      · obtain ⟨t', rest, hDrains⟩ := ih (fun m hm => hFramed m (List.mem_cons_of_mem _ hm))
          ((List.prefix_append_right_inj msg).mp hPrefix)
        exact ⟨t', rest, .taken hFirst hDispatch hCount hDrains⟩

/-- The stream may be cut: the rest of it is read as if it had come at once. -/
theorem Follows.resumes (h : Follows wire s msgs v) (hFramed : ∀ msg ∈ msgs, Framed msg)
    (hPrefix : buf ++ more <+: msgs.flatten) : ∃ t rest u rest', Drains wire s buf t rest ∧
      Drains wire t (rest ++ more) u rest' ∧ Drains wire s (buf ++ more) u rest' := by
  induction h generalizing buf with
  | nil s hOpen =>
      obtain ⟨rfl, rfl⟩ := List.append_eq_nil_iff.mp (List.prefix_nil.mp hPrefix)
      exact ⟨s, [], s, [], .nil hOpen, .nil hOpen, .nil hOpen⟩
  | @cons s t u v msg msgs hOpen hDispatch hCount hRest ih =>
      have hFirst := hFramed msg List.mem_cons_self
      have hLater : ∀ m ∈ msgs, Framed m := fun m hm => hFramed m (List.mem_cons_of_mem _ hm)
      have hBuf : buf <+: msg ++ msgs.flatten :=
        (List.prefix_append buf more).trans (by rwa [List.flatten_cons] at hPrefix)
      by_cases hLength : buf.length < msg.length
      · have hPart : buf <+: msg :=
          List.prefix_of_prefix_length_le hBuf (List.prefix_append msg _) (by omega)
        obtain ⟨t', rest, hWhole⟩ :=
          (Follows.cons hOpen hDispatch hCount hRest).drains hFramed hPrefix
        exact ⟨s, buf, t', rest, .waiting hOpen hFirst hPart hLength, hWhole, hWhole⟩
      · obtain ⟨tail, rfl⟩ : msg <+: buf :=
          List.prefix_of_prefix_length_le (List.prefix_append msg _) hBuf (by omega)
        rw [List.flatten_cons, List.append_assoc] at hPrefix
        obtain ⟨t', rest, u', rest', hNow, hNext, hAll⟩ :=
          ih hLater ((List.prefix_append_right_inj msg).mp hPrefix)
        refine ⟨t', rest, u', rest', .taken hFirst hDispatch hCount hNow, hNext, ?_⟩
        rw [List.append_assoc]
        exact .taken hFirst hDispatch hCount hAll

/-- All of the stream is taken. -/
theorem Follows.drains_all (h : Follows wire s msgs v) (hFramed : ∀ msg ∈ msgs, Framed msg) :
    Drains wire s msgs.flatten v [] := by
  induction h with
  | nil s hOpen => exact .nil hOpen
  | cons _ hDispatch hCount _ ih =>
      rw [List.flatten_cons]
      exact .taken (hFramed _ List.mem_cons_self) hDispatch hCount
        (ih fun m hm => hFramed m (List.mem_cons_of_mem _ hm))

theorem Drains.processMain (h : Drains wire s buf t rest) :
    processMain wire ⟨.dataRecv, s, buf⟩ = .ok ⟨.dataRecv, t, rest⟩ := by
  obtain ⟨status, hStatus, hLoop⟩ := h.2 (-1) (by omega)
  have hNot : decide (0 < status ∧ status ≠ errBackpressure) = false := decide_eq_false (by omega)
  simp only [Daemon.processMain, processData, hLoop, bind, Except.bind, pure, Except.pure, hNot]
  rw [← h.1]

/-! What a message leaves of the connection. -/

/-- The session is the same, and nothing more was sent to the client. -/
structure Served (s t : Service) : Prop where
  host : s.HasHost → t.HasHost
  session : t.session = s.session
  isSession : t.isSession = s.isSession
  sentInitresp : t.sentInitresp = s.sentInitresp
  closed : t.closed = s.closed
  sent : ∃ more, t.sent = s.sent ++ more ∧ more.filter Sent.isReply = []

namespace Served

theorem refl (s : Service) : Served s s := ⟨id, rfl, rfl, rfl, rfl, [], by simp, rfl⟩

theorem trans {a b c : Service} (h : Served a b) (h' : Served b c) : Served a c := by
  obtain ⟨more, hMore, hNone⟩ := h.sent
  obtain ⟨more', hMore', hNone'⟩ := h'.sent
  refine ⟨fun hHost => h'.host (h.host hHost), h'.session.trans h.session,
    h'.isSession.trans h.isSession, h'.sentInitresp.trans h.sentInitresp, h'.closed.trans h.closed,
    more ++ more', ?_, ?_⟩
  · rw [hMore', hMore, List.append_assoc]
  · rw [List.filter_append, hNone, hNone', List.append_nil]

theorem send {out : Sent} (s : Service) (h : out.isReply = false) : Served s (s.send out) :=
  ⟨id, rfl, rfl, rfl, rfl, [out], rfl, by simp [h]⟩

theorem setHost (s : Service) (host : Host) : Served s (s.setHost host) :=
  ⟨fun _ => rfl, rfl, rfl, rfl, rfl, [], by simp [Service.setHost], rfl⟩

theorem replies (h : Served s t) : t.sent.filter Sent.isReply = s.sent.filter Sent.isReply := by
  obtain ⟨more, hMore, hNone⟩ := h.sent
  rw [hMore, List.filter_append, hNone, List.append_nil]

theorem grows (h : Served s t) : s.sent <+: t.sent := by
  obtain ⟨more, hMore, -⟩ := h.sent
  exact ⟨more, hMore.symm⟩

end Served

variable {env : Env} {sub : Text} {refcnt : BitVec 32} {r : Service × BitVec 32}

theorem enterSub_served (env : Env) (s : Service) (m : Envelope) : Served s (enterSub env s m).1 := by
  unfold enterSub putPattern putSub
  repeat' split
  all_goals exact ⟨id, rfl, rfl, rfl, rfl, [], by simp, rfl⟩

theorem leaveSub_served (env : Env) (s : Service) (m : Envelope) : Served s (leaveSub env s m).1 := by
  unfold leaveSub remPattern remSubTab
  repeat' split
  all_goals exact ⟨id, rfl, rfl, rfl, rfl, [], by simp, rfl⟩

theorem addHostRef_served (h : addHostRef s sub refcnt = .ok r) : Served s r.1 := by
  unfold addHostRef at h
  split at h
  · simp only [bind_eq_ok, pure_eq_ok] at h
    obtain ⟨host, -, rfl⟩ := h
    exact .setHost s _
  · cases h
    exact .refl s

theorem remHostRef_served (h : remHostRef s sub refcnt = .ok r) : Served s r.1 := by
  unfold remHostRef at h
  split at h
  · simp only [bind_eq_ok, pure_eq_ok] at h
    obtain ⟨host, -, rfl⟩ := h
    exact .setHost s _
  · cases h
    exact .refl s

theorem addSub_served {m : Envelope} (h : addSub env s m = .ok t) : Served s t := by
  simp only [addSub, bind_eq_ok] at h
  obtain ⟨r, hRef, h⟩ := h
  apply ((enterSub_served env s m).trans (addHostRef_served hRef)).trans
  unfold sendListenStart at h
  split at h
  · simp only [bind_eq_ok, pure_eq_ok] at h
    obtain ⟨host, -, rfl⟩ := h
    exact .send _ rfl
  · cases h
    exact .refl _

theorem remSub_served {m : Envelope} (h : remSub env s m = .ok t) : Served s t := by
  simp only [remSub, bind_eq_ok] at h
  obtain ⟨r, hRef, h⟩ := h
  apply ((leaveSub_served env s m).trans (remHostRef_served hRef)).trans
  unfold sendListenStop at h
  split at h
  · simp only [bind_eq_ok, pure_eq_ok] at h
    obtain ⟨host, -, rfl⟩ := h
    exact .send _ rfl
  · cases h
    exact .refl _

theorem fwdPub_served {m : Envelope} {flow : Flow} (h : fwdPub env s m = .ok (t, flow)) : Served s t := by
  simp only [fwdPub, bind_eq_ok, pure_eq_ok, Prod.mk.injEq] at h
  obtain ⟨host, -, rfl, -⟩ := h
  have hAsked : Served s { s with asked := s.asked + 1 } := ⟨id, rfl, rfl, rfl, rfl, [], by simp, rfl⟩
  exact hAsked.trans (.send _ rfl)

theorem countMsg_served {m : Message} (h : countMsg s m = .ok t) : Served s t := by
  simp only [countMsg, bind_eq_ok, pure_eq_ok] at h
  obtain ⟨host, -, rfl⟩ := h
  exact .setHost s _

/-- A message of a client that has introduced itself. -/
def Envelope.isTraffic (e : Envelope) : Bool :=
  match e.mtype with
  | .data => true
  | .cancel => true
  | .listen => true
  | _ => false

/-- Such a message is dispatched and counted, as long as the routes do not stall. -/
theorem traffic_taken {m : Message} {e : Envelope} (hHost : s.HasHost) (hUnpacked : m.unpacked = .ok e)
    (hTraffic : e.isTraffic = true) (hFlow : ∀ n, env.forwardMsg n ≠ .stalled) :
    ∃ t u, dispatchMsg env s m = .ok (t, 0) ∧ countMsg t m = .ok u ∧ Served s u := by
  have hTaken : ∃ t, dispatchMsg env s m = .ok (t, 0) ∧ Served s t := by
    simp only [dispatchMsg, hUnpacked]
    unfold Envelope.isTraffic at hTraffic
    cases hType : e.mtype with
    | data =>
        have hReturns : Returns (fwdPub env s e) _ := fwdPub_ok hHost e
        obtain ⟨⟨t, flow⟩, hFwd, -⟩ := hReturns
        have hAsked : flow = env.forwardMsg s.asked := by
          simp only [fwdPub, bind_eq_ok, pure_eq_ok, Prod.mk.injEq] at hFwd
          obtain ⟨host, -, -, rfl⟩ := hFwd
          rfl
        have hGoes : flow ≠ .stalled := hAsked ▸ hFlow s.asked
        refine ⟨{ t with isBackpressure := flow ≠ .good }, ?_, ?_⟩
        · simp only [dispatchEnvelope, hType, hFwd, bind, Except.bind, pure, Except.pure, if_neg hGoes]
        · exact (fwdPub_served hFwd).trans ⟨id, rfl, rfl, rfl, rfl, [], by simp, rfl⟩
    | cancel =>
        have hReturns : Returns (remSub env s e) _ := remSub_ok hHost e
        obtain ⟨t, hRem, -⟩ := hReturns
        refine ⟨t, ?_, remSub_served hRem⟩
        simp only [dispatchEnvelope, hType, hRem, bind, Except.bind, pure, Except.pure]
    | listen =>
        have hReturns : Returns (addSub env s e) _ := addSub_ok hHost e
        obtain ⟨t, hAdd, -⟩ := hReturns
        refine ⟨t, ?_, addSub_served hAdd⟩
        simp only [dispatchEnvelope, hType, hAdd, bind, Except.bind, pure, Except.pure]
    | _ => simp [hType] at hTraffic
  obtain ⟨t, hDispatch, hServed⟩ := hTaken
  obtain ⟨u, hCount, -⟩ := countMsg_ok (hServed.host hHost) m
  exact ⟨t, u, hDispatch, hCount, hServed.trans (countMsg_served hCount)⟩

theorem sendStart_sent (s : Service) (host : Host) : s.sent <+: (sendStart s host).sent := by
  unfold sendStart
  dsimp only
  split <;> split <;> simp [Service.send, List.append_assoc]

theorem respondStarted_sent (env : Env) (s : Service) (status : Int) (host : Host) :
    s.sent <+: (respondStarted env s status host).sent := by
  have hSession : ∀ s : Service, (setSession env s host).sent = s.sent := by
    intro s
    unfold setSession
    split
    · split <;> rfl
    · rfl
  have hReply : ∀ s : Service, s.sent <+: (if status ≠ 0 then s.send (.initRefused status)
      else if !s.sentInitresp then { s with sentInitresp := true }.send .initResp
      else { s with sentRvdconn := true }.send .connected).sent := by
    intro s
    split
    · exact List.prefix_append _ _
    · split <;> exact List.prefix_append _ _
  have hMaybe : ∀ s : Service, (if status = 0 then setSession env s host else s).sent = s.sent := by
    intro s
    split
    · exact hSession s
    · rfl
  have hStart : ∀ (s : Service) (started : Bool),
      s.sent <+: (if started = true then sendStart s host else s).sent := by
    intro s started
    split
    · exact sendStart_sent s host
    · exact List.prefix_refl _
  unfold respondStarted
  refine (hReply { s with hostStarted := s.hostStarted || host.networkStarted }).trans ?_
  refine List.IsPrefix.trans ?_ (hStart _ _)
  rw [hMaybe]

/-- What was sent stays sent. -/
theorem dispatchMsg_sent {m : Message} {status : Int} (h : dispatchMsg env s m = .ok (t, status)) :
    s.sent <+: t.sent := by
  unfold dispatchMsg at h
  split at h
  · cases h
    exact List.prefix_refl _
  · unfold dispatchEnvelope at h
    split at h
    · simp only [bind_eq_ok, pure_eq_ok, Prod.mk.injEq] at h
      obtain ⟨⟨u, flow⟩, hFwd, rfl, -⟩ := h
      exact (fwdPub_served hFwd).grows
    · simp only [bind_eq_ok, pure_eq_ok, Prod.mk.injEq] at h
      obtain ⟨u, hRem, rfl, -⟩ := h
      exact (remSub_served hRem).grows
    · simp only [bind_eq_ok, pure_eq_ok, Prod.mk.injEq] at h
      obtain ⟨u, hAdd, rfl, -⟩ := h
      exact (addSub_served hAdd).grows
    · simp only [bind_eq_ok, pure_eq_ok, Prod.mk.injEq] at h
      obtain ⟨⟨u, done⟩, hInfo, rfl, -⟩ := h
      unfold respondInfo at hInfo
      split at hInfo
      · simp only [bind_eq_ok, pure_eq_ok, Prod.mk.injEq] at hInfo
        obtain ⟨host, -, rfl, -⟩ := hInfo
        refine List.IsPrefix.trans ?_ (respondStarted_sent env _ _ host)
        exact List.prefix_refl _
      · cases hInfo
        exact List.prefix_refl _
    · simp only [pure_eq_ok, Prod.mk.injEq] at h
      obtain ⟨rfl, -⟩ := h
      exact List.prefix_refl _

theorem dataRecvLoop_sent {status : Int} {r : Ended} (h : dataRecvLoop wire s status buf = .ok r) :
    s.sent <+: r.service.sent := by
  fun_induction dataRecvLoop wire s status buf with
  | case1 s status buf hComplete fault hDispatch => cases h
  | case2 s status buf hComplete t fault hCount hDispatch => cases h
  | case3 s status buf hComplete t u hCount hDispatch _ ih =>
      exact (dispatchMsg_sent hDispatch).trans ((countMsg_served hCount).grows.trans (ih h))
  | case4 s status buf hComplete t status' hDispatch hStatus =>
      cases h
      exact dispatchMsg_sent hDispatch
  | case5 s status buf hNot hMagic =>
      cases h
      exact List.prefix_refl _
  | case6 s status buf hNot hMagic =>
      cases h
      exact List.prefix_refl _

theorem Drains.sent (h : Drains wire s buf t rest) : s.sent <+: t.sent := by
  obtain ⟨status, -, hLoop⟩ := h.2 0 (Int.le_refl 0)
  exact dataRecvLoop_sent hLoop

/-! The connection over a stream. -/

variable {encode : Sent → Text} {c d : Connection} {head read piece : Text}

theorem written_versRec (encode : Sent → Text) (c : Connection) : versRec <+: c.written encode := by
  let replies := (c.service.sent.filter Sent.isReply).flatMap encode
  unfold Connection.written
  cases c.svcState with
  | versRecv => exact List.prefix_append _ _
  | infoRecv => exact ⟨infoRec 2 ++ replies, by simp [SvcState.records, replies]⟩
  | dataRecv => exact ⟨infoRec 2 ++ infoRec 1 ++ replies, by simp [SvcState.records, replies]⟩

theorem written_infoRec (encode : Sent → Text) (h : c.svcState ≠ .versRecv) :
    versRec ++ infoRec 2 <+: c.written encode := by
  let replies := (c.service.sent.filter Sent.isReply).flatMap encode
  unfold Connection.written
  cases hState : c.svcState with
  | versRecv => exact absurd hState h
  | infoRecv => exact List.prefix_append _ _
  | dataRecv => exact ⟨infoRec 1 ++ replies, by simp [SvcState.records, replies]⟩

theorem written_grows (encode : Sent → Text) (hState : d.svcState = c.svcState)
    (hSent : c.service.sent <+: d.service.sent) : c.written encode <+: d.written encode := by
  obtain ⟨more, hMore⟩ := hSent
  unfold Connection.written
  rw [hState, ← hMore, List.filter_append, List.flatMap_append, ← List.append_assoc]
  exact List.prefix_append _ _

theorem receive_start (wire : Wire) (read : Text) :
    Connection.receive wire {} read = processVers wire ⟨.versRecv, {}, read⟩ := rfl

theorem processVers_behind (h : 12 ≤ read.length) : processVers wire ⟨.versRecv, {}, read⟩ =
    processInfo wire ⟨.infoRecv, {}, read.drop 12⟩ :=
  if_neg (by simpa using h)

theorem processInfo_behind (h : 76 ≤ read.length) : processInfo wire ⟨.infoRecv, {}, read.drop 12⟩ =
    processMain wire ⟨.dataRecv, {}, read.drop 76⟩ := by
  unfold processInfo
  rw [if_neg (by rw [List.length_drop]; omega)]
  dsimp only
  rw [List.drop_drop]

/-- What is behind the two records of a part of the stream. -/
theorem stream_behind (hHead : head.length = 76) (hLong : 76 ≤ read.length)
    (h : read ++ piece <+: head ++ msgs.flatten) : read.drop 76 ++ piece <+: msgs.flatten := by
  obtain ⟨tail, rfl⟩ : head <+: read := List.prefix_of_prefix_length_le (List.prefix_append head _)
    ((List.prefix_append read piece).trans h) (by omega)
  rw [List.append_assoc] at h
  have hDrop : (head ++ tail).drop 76 = tail := by rw [← hHead, List.drop_left]
  rw [hDrop]
  exact (List.prefix_append_right_inj head).mp h

theorem processInfo_state (h : processInfo wire ⟨.infoRecv, s, buf⟩ = .ok d) : d.svcState ≠ .versRecv := by
  unfold processInfo at h
  split at h
  · cases h
    intro hState
    cases hState
  · simp only [processMain, bind_eq_ok, pure_eq_ok] at h
    obtain ⟨r, -, rfl⟩ := h
    intro hState
    cases hState

/-- A part of the stream is read without a fault. -/
theorem Follows.reads (h : Follows wire {} msgs v) (hFramed : ∀ msg ∈ msgs, Framed msg)
    (hHead : head.length = 76) (hRead : read <+: head ++ msgs.flatten) :
    ∃ c, Connection.receive wire {} read = .ok c ∧ c.service.closed = false := by
  rw [receive_start]
  by_cases hVers : read.length < 12
  · exact ⟨_, if_pos hVers, rfl⟩
  · rw [processVers_behind (by omega)]
    by_cases hInfo : read.length < 76
    · refine ⟨_, if_pos ?_, rfl⟩
      rw [List.length_drop]
      omega
    · rw [processInfo_behind (by omega)]
      have hWhole : read ++ [] <+: head ++ msgs.flatten := by rwa [List.append_nil]
      have hBehind := stream_behind hHead (by omega) hWhole
      rw [List.append_nil] at hBehind
      obtain ⟨t, rest, hDrains⟩ := h.drains hFramed hBehind
      exact ⟨_, hDrains.processMain, hDrains.1⟩

/-- The stream may be cut, and what was written stays written. -/
theorem Follows.cut (h : Follows wire {} msgs v) (hFramed : ∀ msg ∈ msgs, Framed msg)
    (hHead : head.length = 76) (hRead : read ++ piece <+: head ++ msgs.flatten)
    (encode : Sent → Text) : ∃ c d, Connection.receive wire {} read = .ok c ∧
      Connection.receive wire c piece = .ok d ∧ Connection.receive wire {} (read ++ piece) = .ok d ∧
      c.written encode <+: d.written encode := by
  obtain ⟨d, hWhole, -⟩ := h.reads hFramed hHead hRead
  rw [receive_start] at hWhole
  simp only [receive_start]
  by_cases hVers : read.length < 12
  · exact ⟨_, d, if_pos hVers, hWhole, hWhole, written_versRec encode d⟩
  · have hNext : processVers wire ⟨.versRecv, {}, read ++ piece⟩ =
        processInfo wire ⟨.infoRecv, {}, read.drop 12 ++ piece⟩ := by
      rw [processVers_behind (by rw [List.length_append]; omega),
        List.drop_append_of_le_length (by omega)]
    rw [processVers_behind (by omega)]
    by_cases hInfo : read.length < 76
    · refine ⟨⟨.infoRecv, {}, read.drop 12⟩, d, if_pos ?_, ?_, hWhole, ?_⟩
      · rw [List.length_drop]
        omega
      · exact hNext.symm.trans hWhole
      · have hState := processInfo_state (hNext.symm.trans hWhole)
        have hWritten := written_infoRec encode hState
        simpa [Connection.written, SvcState.records] using hWritten
    · have hBehind := stream_behind hHead (by omega) hRead
      obtain ⟨t, rest, u, rest', hFirst, hLater, hAll⟩ := h.resumes hFramed hBehind
      have hMain : processVers wire ⟨.versRecv, {}, read ++ piece⟩ = .ok ⟨.dataRecv, u, rest'⟩ := by
        rw [processVers_behind (by rw [List.length_append]; omega),
          processInfo_behind (by rw [List.length_append]; omega),
          List.drop_append_of_le_length (by omega)]
        exact hAll.processMain
      refine ⟨⟨.dataRecv, t, rest⟩, ⟨.dataRecv, u, rest'⟩, ?_, ?_, hMain, ?_⟩
      · rw [processInfo_behind (by omega)]
        exact hFirst.processMain
      · have hOpen : ¬ (t.closed = true) := by simp [hFirst.1]
        exact (if_neg hOpen).trans hLater.processMain
      · exact written_grows encode rfl hLater.sent

/-- The whole stream. -/
theorem Follows.receive_all (h : Follows wire {} msgs v) (hFramed : ∀ msg ∈ msgs, Framed msg)
    (hHead : head.length = 76) :
    Connection.receive wire {} (head ++ msgs.flatten) = .ok ⟨.dataRecv, v, []⟩ := by
  rw [receive_start, processVers_behind (by rw [List.length_append]; omega),
    processInfo_behind (by rw [List.length_append]; omega), ← hHead, List.drop_left]
  exact (h.drains_all hFramed).processMain

/-- The connection as one end of a link. -/
def party (wire : Wire) (encode : Sent → Text) : Duplex.Party Connection UInt8 UInt8 where
  start := {}
  feed c piece := (Connection.receive wire c piece).toOption
  written := Connection.written encode

/-- The connection after the first bytes of a stream. -/
def Connection.after (wire : Wire) (read : Text) : Connection :=
  (Connection.receive wire {} read).toOption.getD {}

theorem after_eq (h : Connection.receive wire {} read = .ok c) : Connection.after wire read = c := by
  simp [Connection.after, h, Except.toOption]

theorem Follows.plays (h : Follows wire {} msgs v) (hFramed : ∀ msg ∈ msgs, Framed msg)
    (hHead : head.length = 76) (encode : Sent → Text) :
    (party wire encode).Plays (head ++ msgs.flatten) (Connection.after wire) where
  start := rfl
  feed read piece hRead := by
    obtain ⟨c, d, hFirst, hNext, hAll, -⟩ := h.cut hFramed hHead hRead encode
    change (Connection.receive wire (Connection.after wire read) piece).toOption = _
    rw [after_eq hFirst, hNext, after_eq hAll]
    rfl
  grows := by
    rintro read more ⟨piece, rfl⟩ hRead
    obtain ⟨c, d, hFirst, -, hAll, hGrows⟩ := h.cut hFramed hHead hRead encode
    rw [after_eq hFirst, after_eq hAll]
    exact hGrows

/-! The introduction of the client. -/

/-- The first `I` message of the client was answered. -/
structure Greeted (s : Service) : Prop where
  host : s.HasHost
  closed : s.closed = false
  sentInitresp : s.sentInitresp = true
  replies : s.sent.filter Sent.isReply = [.initResp]

/-- The second one was answered, and the connection is a session of its own. -/
structure Introduced (s : Service) (session : Text) : Prop where
  host : s.HasHost
  closed : s.closed = false
  session : s.session = session
  isSession : s.isSession = true
  replies : s.sent.filter Sent.isReply = [.initResp, .connected]

theorem Introduced.served {session : Text} (h : Introduced s session) (hServed : Served s t) :
    Introduced t session where
  host := hServed.host h.host
  closed := hServed.closed.trans h.closed
  session := hServed.session.trans h.session
  isSession := hServed.isSession.trans h.isSession
  replies := hServed.replies.trans h.replies

/-- The network of the service can be started. -/
def Starts (env : Env) (service network : Text) : Prop :=
  ∀ n, (env.startNetwork n (if service = [] then text "7500" else service) network).1 = 0

theorem respondInfo_starts {info : Info} (hReadable : info.readable = true)
    (hStarts : Starts env info.service info.network) (s : Service) : ∃ asked host,
      respondInfo env s info = .ok (respondStarted env
        ({ s with session := info.session.getD s.session, asked := asked }.setHost host) 0 host, true) := by
  refine ⟨s.asked + 1,
    (env.startNetwork s.asked (if info.service = [] then text "7500" else info.service) info.network).2, ?_⟩
  rw [respondInfo, if_pos hReadable]
  have hStatus := hStarts s.asked
  simp only [Service.hostAt, Service.setHost, bind, Except.bind, pure, Except.pure, hStatus]

theorem sendStart_served (s : Service) (host : Host) : Served s (sendStart s host) := by
  have hHost : Served s (if s.isDaemon || s.isSession then s.send .hostStart else s) := by
    split
    · exact .send s rfl
    · exact .refl s
  have hSession : ∀ s : Service, Served s (if s.isSession && !s.sentSessionStart then
      { s with sentSessionStart := true }.send .sessionStart else s) := by
    intro s
    split
    · have hMark : Served s { s with sentSessionStart := true } := ⟨id, rfl, rfl, rfl, rfl, [], by simp, rfl⟩
      exact hMark.trans (.send _ rfl)
    · exact .refl s
  have hPre : ∀ s : Service, Served s { s with pre := host.service.getD s.pre } :=
    fun s => ⟨id, rfl, rfl, rfl, rfl, [], by simp, rfl⟩
  exact (hHost.trans (hSession _)).trans (hPre _)

/-- The part of `respond_info` behind its answer. -/
theorem started_served (s : Service) (host : Host) :
    Served s (if s.hostStarted then sendStart s host else s) := by
  split
  · exact sendStart_served s host
  · exact .refl s

theorem dispatchMsg_info {m : Message} {e : Envelope} (hUnpacked : m.unpacked = .ok e)
    (hInfo : e.mtype = .info) (h : respondInfo env s e.info = .ok (t, true)) :
    dispatchMsg env s m = .ok (t, 0) := by
  simp only [dispatchMsg, hUnpacked, dispatchEnvelope, hInfo, h, bind, Except.bind, pure, Except.pure,
    if_true]

/-- The answer to the first `I` message. -/
theorem greet {m : Message} {e : Envelope} (hUnpacked : m.unpacked = .ok e) (hInfo : e.mtype = .info)
    (hReadable : e.info.readable = true) (hStarts : Starts env e.info.service e.info.network) :
    ∃ t u, dispatchMsg env {} m = .ok (t, 0) ∧ countMsg t m = .ok u ∧ Greeted u := by
  obtain ⟨asked, host, hRespond⟩ := respondInfo_starts hReadable hStarts {}
  have hDispatch := dispatchMsg_info hUnpacked hInfo hRespond
  generalize hT : respondStarted env _ 0 host = t at hDispatch
  let answered : Service :=
    { host := some host
      hostStarted := false || host.networkStarted
      session := e.info.session.getD []
      asked := asked
      sentInitresp := true
      sent := [.initResp] }
  have hServed : Served answered t := by
    rw [← hT]
    exact started_served answered host
  obtain ⟨u, hCount, -⟩ := countMsg_ok (hServed.host rfl) m
  have hCounted := hServed.trans (countMsg_served hCount)
  exact ⟨t, u, hDispatch, hCount, hCounted.host rfl, hCounted.closed, hCounted.sentInitresp,
    hCounted.replies⟩

/-- The answer to the second one, with a session name that is not the gob. -/
theorem introduce {m : Message} {e : Envelope} {session : Text} (hGreeted : Greeted s)
    (hUnpacked : m.unpacked = .ok e) (hInfo : e.mtype = .info)
    (hReadable : e.info.readable = true) (hStarts : Starts env e.info.service e.info.network)
    (hSession : e.info.session = some session) (hGob : session.drop 9 ≠ env.gob) :
    ∃ t u, dispatchMsg env s m = .ok (t, 0) ∧ countMsg t m = .ok u ∧ Introduced u session := by
  obtain ⟨asked, host, hRespond⟩ := respondInfo_starts hReadable hStarts s
  have hDispatch := dispatchMsg_info hUnpacked hInfo hRespond
  generalize hT : respondStarted env _ 0 host = t at hDispatch
  let answered : Service :=
    { s with
      host := some host
      hostStarted := s.hostStarted || host.networkStarted
      session := session
      asked := asked
      sentInitresp := true
      sentRvdconn := true
      isSession := true
      sent := s.sent ++ [.connected] }
  have hServed : Served answered t := by
    rw [← hT, respondStarted, hSession]
    simp only [Service.setHost, Service.send, hGreeted.sentInitresp, setSession, Option.getD_some, ne_eq,
      not_true_eq_false, if_false, Bool.not_true, Bool.false_eq_true, if_true, hGob, and_false]
    exact started_served answered host
  obtain ⟨u, hCount, -⟩ := countMsg_ok (hServed.host rfl) m
  have hCounted := hServed.trans (countMsg_served hCount)
  refine ⟨t, u, hDispatch, hCount, hCounted.host rfl, hCounted.closed.trans hGreeted.closed,
    hCounted.session, hCounted.isSession, ?_⟩
  rw [hCounted.replies, List.filter_append, hGreeted.replies]
  rfl

theorem head_unpacked (h : Framed msg) : (wire.head msg).unpacked = wire.unpack msg := by
  simp only [Wire.head, h.size, List.take_length]

/-- What the client sends once it is introduced is all taken. -/
theorem Introduced.follows {session : Text} (h : Introduced s session)
    (hFlow : ∀ n, wire.forwardMsg n ≠ .stalled) (hFramed : ∀ msg ∈ msgs, Framed msg)
    (hTraffic : ∀ msg ∈ msgs, ∃ e, wire.unpack msg = .ok e ∧ e.isTraffic = true) :
    ∃ t, Follows wire s msgs t ∧ Introduced t session := by
  induction msgs generalizing s with
  | nil => exact ⟨s, .nil s h.closed, h⟩
  | cons msg msgs ih =>
      obtain ⟨e, hUnpack, hTaken⟩ := hTraffic msg List.mem_cons_self
      have hUnpacked := (head_unpacked (hFramed msg List.mem_cons_self)).trans hUnpack
      obtain ⟨t, u, hDispatch, hCount, hServed⟩ := traffic_taken h.host hUnpacked hTaken hFlow
      obtain ⟨v, hRest, hStill⟩ := ih (h.served hServed)
        (fun m hm => hFramed m (List.mem_cons_of_mem _ hm))
        (fun m hm => hTraffic m (List.mem_cons_of_mem _ hm))
      exact ⟨v, .cons h.closed hDispatch hCount hRest, hStill⟩

end Sassrv.Daemon
