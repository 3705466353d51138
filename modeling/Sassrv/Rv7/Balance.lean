import Sassrv.Rv7.Connection
import Sassrv.Rv7.Dispatch
import Mathlib.Data.List.Perm.Basic

/-! The subscriptions that the daemon has for a transport against the listeners of
the transport. The operations in the pipe make up the difference while they wait; at
the end of a handshake the difference is forgotten, so it has to be zero. -/
namespace Sassrv.Rv7
open SubMgr Client Transition

/-- `L` messages less `C` messages. -/
def balance (msgs : List SubMsg) (sub : Text) : Int :=
  (msgs.count (.listen sub) : Int) - msgs.count (.cancel sub)

/-- The listeners on one subject. -/
def countOn (sub : Text) (listeners : List Listener) : Nat :=
  listeners.countP fun l => l.subject = sub

/-- The `CreateListener` calls that wait for the event thread. -/
def subscribing : List PipeOp → List Listener :=
  List.filterMap fun op =>
    match op with
    | .subscribe l => some l
    | .unsubscribe _ => none

/-- The `DestroyEvent` calls that wait for the event thread. -/
def unsubscribing : List PipeOp → List Listener :=
  List.filterMap fun op =>
    match op with
    | .subscribe _ => none
    | .unsubscribe l => some l

/-- A subject that no session has as an inbox. -/
def IsPlain (sub : Text) : Prop := ¬ inboxPrefix <+: sub

instance (sub : Text) : Decidable (IsPlain sub) :=
  inferInstanceAs (Decidable (¬ inboxPrefix <+: sub))

/-- At the end of a handshake, for every plain subject: the messages that were saved
in the handshake, the listeners whose operation still waits and those that are about
to leave the table come to nothing. -/
def Settled (s : Session) : Event → Prop
  | .recvConn => ∀ sub, IsPlain sub →
      balance s.client.saveBuf sub + countOn sub (subscribing s.pipe) + countOn sub s.leaving = 0
  | _ => True

structure Accounted (s : Session) : Prop where
  filed : Buckets.Filed Listener.hash s.tport.ht
  table : s.tport.ht.elements.Perm (s.events ++ (unsubscribing s.pipe ++ s.leaving))
  control : s.client.control = [] ∨ inboxPrefix <+: s.client.control.dropLast
  named : s.client.rvState = .connRecv → inboxPrefix <+: s.client.control.dropLast
  armed : s.timerArmed = true ∨ s.client.rvState = .dataRecv ∨
    (s.client.rvState = .errClose ∧ s.client.isOpen = true)
  unwritten : s.client.rvState ≠ .dataRecv → s.client.rvState ≠ .errClose → s.client.wire = []
  balanced : s.client.rvState = .dataRecv → ∀ sub, IsPlain sub →
    balance s.client.wire sub + countOn sub (subscribing s.pipe) =
      countOn sub s.events + countOn sub (unsubscribing s.pipe)

section Counting

variable (sub : Text) (l : Listener) (listeners listeners' : List Listener)

@[simp] theorem balance_nil : balance [] sub = 0 := rfl

@[simp] theorem balance_append (msgs msgs' : List SubMsg) :
    balance (msgs ++ msgs') sub = balance msgs sub + balance msgs' sub := by
  simp only [balance, List.count_append, Nat.cast_add]
  omega

@[simp] theorem balance_listen (name : Text) :
    balance [.listen name] sub = if name = sub then 1 else 0 := by
  simp [balance, List.count_singleton]

@[simp] theorem balance_cancel (name : Text) :
    balance [.cancel name] sub = if name = sub then -1 else 0 := by
  by_cases h : name = sub <;> simp [balance, h]

@[simp] theorem countOn_nil : countOn sub [] = 0 := rfl

@[simp] theorem countOn_append :
    countOn sub (listeners ++ listeners') = countOn sub listeners + countOn sub listeners' :=
  List.countP_append

@[simp] theorem countOn_cons :
    countOn sub (l :: listeners) = countOn sub listeners + if l.subject = sub then 1 else 0 := by
  simp [countOn, List.countP_cons]

variable {listeners listeners'} in
theorem countOn_perm (h : listeners.Perm listeners') :
    countOn sub listeners = countOn sub listeners' :=
  h.countP_eq _

variable {l listeners} in
theorem countOn_erase (h : l ∈ listeners) :
    countOn sub listeners = countOn sub (listeners.erase l) + if l.subject = sub then 1 else 0 := by
  rw [countOn_perm sub (List.perm_cons_erase h), countOn_cons]

@[simp] theorem subscribing_append (pipe pipe' : List PipeOp) :
    subscribing (pipe ++ pipe') = subscribing pipe ++ subscribing pipe' :=
  List.filterMap_append

@[simp] theorem unsubscribing_append (pipe pipe' : List PipeOp) :
    unsubscribing (pipe ++ pipe') = unsubscribing pipe ++ unsubscribing pipe' :=
  List.filterMap_append

@[simp] theorem subscribing_subscribe (rest : List PipeOp) :
    subscribing (.subscribe l :: rest) = l :: subscribing rest := rfl

@[simp] theorem subscribing_unsubscribe (rest : List PipeOp) :
    subscribing (.unsubscribe l :: rest) = subscribing rest := rfl

@[simp] theorem unsubscribing_subscribe (rest : List PipeOp) :
    unsubscribing (.subscribe l :: rest) = unsubscribing rest := rfl

@[simp] theorem unsubscribing_unsubscribe (rest : List PipeOp) :
    unsubscribing (.unsubscribe l :: rest) = l :: unsubscribing rest := rfl

@[simp] theorem subscribing_nil : subscribing [] = [] := rfl

@[simp] theorem unsubscribing_nil : unsubscribing [] = [] := rfl

end Counting

variable {env : SessionEnv} {parse : Text → Nat} {s t : Session} {l : Listener}

theorem makeControl_inbox (name : Text) : inboxPrefix <+: (makeControl name).dropLast := by
  have hLast : (makeControl name).dropLast = makeInbox name := by
    simp [makeControl, text]
  rw [hLast, makeInbox, List.append_assoc]
  exact List.prefix_append _ _

theorem isInbox_eq_zero {c : EvRvClient} (hControl : c.control = [] ∨ inboxPrefix <+: c.control.dropLast)
    {sub : Text} (hSub : IsPlain sub) : isInbox parse c sub = 0 := by
  unfold isInbox
  rcases hControl with hNil | hInbox
  · simp [hNil]
  · refine if_pos ?_
    by_contra hOwn
    simp only [Bool.or_eq_true, decide_eq_true_eq, not_or, not_not] at hOwn
    rw [← List.dropLast_eq_take] at hOwn
    refine hSub (hInbox.trans ?_)
    rw [← hOwn.2]
    exact List.take_prefix _ _

/-- What the walk over the table writes. -/
theorem foldl_subscribe (parse : Text → Nat) {c : EvRvClient} (hData : c.rvState = .dataRecv)
    (hControl : c.control = [] ∨ inboxPrefix <+: c.control.dropLast) (listeners : List Listener) :
    let c' := listeners.foldl
      (fun c l => if isInbox parse c l.subject = 0 then c.subscribe l.subject else c) c
    c'.rvState = .dataRecv ∧ c'.control = c.control ∧ c'.saveBuf = c.saveBuf ∧
      ∀ sub, IsPlain sub → balance c'.wire sub = balance c.wire sub + countOn sub listeners := by
  induction listeners generalizing c with
  | nil => simp [hData]
  | cons l rest ih =>
      dsimp only
      rw [List.foldl_cons]
      split
      case isTrue hPlain =>
          have hSub : c.subscribe l.subject = { c with wire := c.wire ++ [.listen l.subject] } := by
            simp [EvRvClient.subscribe, queueSend, hData]
          rw [hSub]
          obtain ⟨hState, hSame, hSaved, hWire⟩ := ih
            (c := { c with wire := c.wire ++ [.listen l.subject] }) hData hControl
          refine ⟨hState, hSame, hSaved, fun sub hPlain => ?_⟩
          rw [hWire sub hPlain, balance_append, balance_listen, countOn_cons]
          split
          · simp
            omega
          · simp
      case isFalse hInbox =>
          obtain ⟨hState, hSame, hSaved, hWire⟩ := ih hData hControl
          refine ⟨hState, hSame, hSaved, fun sub hPlain => ?_⟩
          have hOther : l.subject ≠ sub := by
            rintro rfl
            exact hInbox (isInbox_eq_zero hControl hPlain)
          rw [hWire sub hPlain, countOn_cons, if_neg hOther, Nat.add_zero]

theorem Accounted.createSubscribed (h : Accounted s) (isWild : Bool) (l : Listener) :
    Accounted (createSubscribed parse s isWild l) := by
  obtain ⟨hFiled, hTable, hElements⟩ := h.filed.push l
  have hOpened : (openListener s.tport isWild l).ht = s.tport.ht.push Listener.hash l := by simp
  have hPipe : ∀ pipe, unsubscribing pipe = unsubscribing s.pipe →
      (s.tport.ht.push Listener.hash l).elements.Perm
        (s.events ++ [l] ++ (unsubscribing pipe ++ s.leaving)) := by
    intro pipe hSame
    rw [hSame, List.append_assoc, List.singleton_append]
    exact (hElements.trans (h.table.cons l)).trans List.perm_middle.symm
  unfold Rv7.createSubscribed
  by_cases hInbox : isInbox parse s.client l.subject = 0
  · rw [if_pos hInbox]
    refine ⟨hOpened ▸ hFiled, hOpened ▸ hPipe _ (by simp), h.control, h.named, h.armed, h.unwritten,
      fun hData sub hPlain => ?_⟩
    have := h.balanced hData sub hPlain
    simp only [subscribing_append, unsubscribing_append, countOn_append, subscribing_subscribe,
      unsubscribing_subscribe, subscribing_nil, unsubscribing_nil, countOn_cons, countOn_nil]
    omega
  · rw [if_neg hInbox]
    refine ⟨hOpened ▸ hFiled, hOpened ▸ hPipe _ rfl, h.control, h.named, h.armed, h.unwritten,
      fun hData sub hPlain => ?_⟩
    have hOther : l.subject ≠ sub := by
      rintro rfl
      exact hInbox (isInbox_eq_zero h.control hPlain)
    have := h.balanced hData sub hPlain
    simp only [countOn_append, countOn_cons, countOn_nil, if_neg hOther]
    omega

theorem Accounted.closeListener (h : Accounted s) {events leaving : List Listener}
    (hSplit : (s.events ++ (unsubscribing s.pipe ++ s.leaving)).Perm
      (l :: (events ++ (unsubscribing s.pipe ++ leaving)))) :
    Buckets.Filed Listener.hash (closeListener s.tport l).ht ∧
      (closeListener s.tport l).ht.elements.Perm
        (events ++ (unsubscribing s.pipe ++ leaving)) := by
  have hMem : l ∈ s.tport.ht.elements := (h.table.trans hSplit).mem_iff.mpr List.mem_cons_self
  obtain ⟨hFiled, _, hElements⟩ := h.filed.remove hMem
  rw [closeListener_ht]
  exact ⟨hFiled, ((hElements.trans h.table).trans hSplit).cons_inv⟩

theorem Accounted.destroySubscribed (h : Accounted s) (hMem : l ∈ s.events) :
    Accounted (destroySubscribed parse s l) := by
  have hSplit := (List.perm_cons_erase hMem).append_right (unsubscribing s.pipe ++ s.leaving)
  unfold Rv7.destroySubscribed
  dsimp only
  split
  case isTrue hPlain =>
      refine ⟨h.filed, h.table.trans (hSplit.trans ?_), h.control, h.named, h.armed, h.unwritten,
        fun hData sub hSub => ?_⟩
      · simp only [unsubscribing_append, unsubscribing_unsubscribe, unsubscribing_nil,
          List.append_assoc, List.singleton_append]
        rw [← List.append_assoc, ← List.append_assoc]
        exact List.perm_middle.symm
      · have hBefore := h.balanced hData sub hSub
        have hErase := countOn_erase sub hMem
        simp only [subscribing_append, unsubscribing_append, countOn_append,
          subscribing_unsubscribe, unsubscribing_unsubscribe, subscribing_nil, unsubscribing_nil,
          countOn_cons, countOn_nil]
        omega
  case isFalse hInbox =>
      obtain ⟨hFiled, hTable⟩ := h.closeListener hSplit
      refine ⟨hFiled, hTable, h.control, h.named, h.armed, h.unwritten, fun hData sub hSub => ?_⟩
      have hOther : l.subject ≠ sub := by
        rintro rfl
        exact hInbox (isInbox_eq_zero h.control hSub)
      have hBefore := h.balanced hData sub hSub
      have hErase := countOn_erase sub hMem
      rw [if_neg hOther] at hErase
      simp only
      omega

theorem Accounted.destroyed (h : Accounted s) (hMem : l ∈ s.leaving) :
    Accounted { s with
      tport := Rv7.closeListener s.tport l
      leaving := s.leaving.erase l } := by
  have hSplit : (s.events ++ (unsubscribing s.pipe ++ s.leaving)).Perm
      (l :: (s.events ++ (unsubscribing s.pipe ++ s.leaving.erase l))) := by
    rw [← List.append_assoc, ← List.append_assoc]
    exact ((List.perm_cons_erase hMem).append_left _).trans List.perm_middle
  obtain ⟨hFiled, hTable⟩ := h.closeListener hSplit
  exact ⟨hFiled, hTable, h.control, h.named, h.armed, h.unwritten, h.balanced⟩

/-- A message of the client goes over the connection exactly when there is one. -/
theorem queueSend_spec (c : EvRvClient) (msg : SubMsg) :
    (queueSend c msg).rvState = c.rvState ∧ (queueSend c msg).control = c.control ∧
      (queueSend c msg).isOpen = c.isOpen ∧
      (queueSend c msg).wire = if c.rvState = .dataRecv then c.wire ++ [msg] else c.wire := by
  unfold queueSend
  cases hState : c.rvState <;> simp [hState]

theorem Accounted.queueSend (h : Accounted s) {pipe : List PipeOp} {leaving : List Listener}
    {msg : SubMsg}
    (hTable : (unsubscribing s.pipe ++ s.leaving).Perm (unsubscribing pipe ++ leaving))
    (hPipe : ∀ sub, balance [msg] sub + countOn sub (subscribing pipe) +
        countOn sub (unsubscribing s.pipe) =
      countOn sub (subscribing s.pipe) + countOn sub (unsubscribing pipe)) :
    Accounted { s with
      pipe := pipe
      client := queueSend s.client msg
      leaving := leaving } := by
  obtain ⟨hState, hControl, hOpen, hWire⟩ := queueSend_spec s.client msg
  refine ⟨h.filed, h.table.trans (hTable.append_left _), ?_, ?_, ?_, ?_, ?_⟩
  · rw [hControl]
    exact h.control
  · rw [hControl, hState]
    exact h.named
  · rw [hState, hOpen]
    exact h.armed
  · rw [hState, hWire]
    intro hNot hOpen
    rw [if_neg hNot]
    exact h.unwritten hNot hOpen
  · rw [hState, hWire]
    intro hData sub hPlain
    have hBefore := h.balanced hData sub hPlain
    have hMsg := hPipe sub
    rw [if_pos hData, balance_append]
    simp only
    omega

theorem Accounted.runPipe (h : Accounted s) : Accounted (runPipe s) := by
  unfold Rv7.runPipe
  split
  case h_1 => exact h
  case h_2 l rest hPipe =>
      refine h.queueSend ?_ fun sub => ?_
      · rw [hPipe, unsubscribing_subscribe]
      · rw [hPipe]
        simp only [balance_listen, subscribing_subscribe, unsubscribing_subscribe, countOn_cons]
        split
        · simp
          omega
        · simp
  case h_3 l rest hPipe =>
      refine h.queueSend ?_ fun sub => ?_
      · rw [hPipe, unsubscribing_unsubscribe, ← List.append_assoc, List.cons_append]
        exact (List.perm_append_singleton _ _).symm
      · rw [hPipe]
        simp only [balance_cancel, subscribing_unsubscribe, unsubscribing_unsubscribe,
          countOn_cons]
        split
        · simp
          omega
        · simp

/-- The client in a state without a connection. -/
theorem Accounted.setClient (h : Accounted s) {c : EvRvClient} {armed : Bool}
    (hControl : c.control = [] ∨ inboxPrefix <+: c.control.dropLast)
    (hNamed : c.rvState = .connRecv → inboxPrefix <+: c.control.dropLast)
    (hNot : c.rvState ≠ .dataRecv)
    (hArmed : armed = true ∨ (c.rvState = .errClose ∧ c.isOpen = true))
    (hWire : c.rvState ≠ .errClose → c.wire = []) :
    Accounted { s with
      client := c
      timerArmed := armed } :=
  ⟨h.filed, h.table, hControl, hNamed, hArmed.imp_right .inr, fun _ => hWire,
    fun hData => absurd hData hNot⟩

theorem Accounted.timerArmed (h : Accounted s) (hNot : s.client.rvState ≠ .dataRecv)
    (hOpen : s.client.rvState ≠ .errClose) : s.timerArmed = true := by
  rcases h.armed with hArmed | hData | hError
  · exact hArmed
  · exact absurd hData hNot
  · exact absurd hError.1 hOpen

theorem Accounted.reconnectTimer (h : Accounted s) (hArmed : s.timerArmed = true)
    (connects : Bool) : Accounted (reconnectTimer s connects) := by
  unfold Rv7.reconnectTimer
  split
  case isTrue hData =>
      exact ⟨h.filed, h.table, h.control, h.named, .inr (.inl hData), h.unwritten, h.balanced⟩
  case isFalse hNot =>
      unfold rvConnect
      split
      · exact h
      · cases connects with
        | true => exact h.setClient (.inl rfl) (by simp) (by simp) (.inl hArmed) fun _ => rfl
        | false => exact h.setClient (.inl rfl) (by simp) (by simp) (.inl hArmed) fun _ => rfl

/-- The end of a handshake: the table and the saved messages are the subscriptions. -/
theorem recvConn_client (parse : Text → Nat) (hArmed : s.timerArmed = true)
    (hControl : inboxPrefix <+: s.client.control.dropLast) :
    (recvConn parse s).client.rvState = .dataRecv ∧
      (recvConn parse s).client.control = s.client.control ∧
      ∀ sub, IsPlain sub → balance (recvConn parse s).client.wire sub =
        balance s.client.wire sub + countOn sub s.tport.ht.elements +
          balance s.client.saveBuf sub := by
  obtain ⟨hState, hSame, hSaved, hWire⟩ := foldl_subscribe parse
    (c := { s.client with
      wire := s.client.wire ++ [.listen (s.client.control.dropLast ++ text ">")]
      rvState := .dataRecv }) rfl (.inr hControl) s.tport.ht.elements
  unfold Rv7.recvConn onConnect
  dsimp only
  rw [if_pos hArmed]
  refine ⟨hState, hSame, fun sub hPlain => ?_⟩
  have hInbox : s.client.control.dropLast ++ text ">" ≠ sub := by
    rintro rfl
    exact hPlain (hControl.trans (List.prefix_append _ _))
  simp only [flushPendingSend, balance_append, hSaved, hWire sub hPlain, balance_listen,
    if_neg hInbox, Int.add_zero]

theorem Accounted.recvConn (h : Accounted s) (hConn : s.client.rvState = .connRecv)
    (hSettled : Settled s .recvConn) : Accounted (recvConn parse s) := by
  have hArmed := h.timerArmed (by simp [hConn]) (by simp [hConn])
  have hUnwritten := h.unwritten (by simp [hConn]) (by simp [hConn])
  obtain ⟨hState, hControl, hWire⟩ := recvConn_client parse hArmed (h.named hConn)
  have hRest : (Rv7.recvConn parse s).tport = s.tport ∧ (Rv7.recvConn parse s).events = s.events ∧
      (Rv7.recvConn parse s).pipe = s.pipe ∧ (Rv7.recvConn parse s).leaving = s.leaving := by
    unfold Rv7.recvConn onConnect
    simp [hArmed]
  obtain ⟨hTport, hEvents, hPipe, hLeaving⟩ := hRest
  refine ⟨?_, ?_, ?_, ?_, .inr (.inl hState), absurd hState, ?_⟩
  · rw [hTport]
    exact h.filed
  · rw [hTport, hEvents, hPipe, hLeaving]
    exact h.table
  · rw [hControl]
    exact h.control
  · rw [hState]
    simp
  · rw [hEvents, hPipe]
    intro _ sub hPlain
    have hTable := countOn_perm sub h.table
    have hZero := hSettled sub hPlain
    rw [hWire sub hPlain, hUnwritten, hTable]
    simp only [balance_nil, countOn_append, Nat.cast_add]
    omega

theorem Accounted.step (h : Accounted s) {event : Event} {out : List Unit}
    (hSettled : Settled s event) (hStep : (session env).step s event out t) : Accounted t := by
  cases event with
  | createListener id queue subj =>
      obtain ⟨_, _, _, _, rfl⟩ := hStep
      exact h.createSubscribed _ _
  | destroyEvent l =>
      obtain ⟨hMem, rfl⟩ := hStep
      exact h.destroySubscribed hMem
  | destroyed l =>
      obtain ⟨hMem, rfl⟩ := hStep
      exact h.destroyed hMem
  | runPipe =>
      obtain rfl := hStep
      exact h.runPipe
  | timer connects =>
      obtain ⟨hArmed, rfl⟩ := hStep
      exact h.reconnectTimer hArmed connects
  | recvVers =>
      obtain ⟨hState, rfl⟩ := hStep
      have hArmed := h.timerArmed (by simp [hState]) (by simp [hState])
      have hWire := h.unwritten (by simp [hState]) (by simp [hState])
      exact h.setClient h.control (by simp) (by simp) (.inl hArmed) fun _ => hWire
  | recvInfo ready =>
      obtain ⟨hState, rfl⟩ := hStep
      have hArmed := h.timerArmed (by simp [hState]) (by simp [hState])
      have hWire := h.unwritten (by simp [hState]) (by simp [hState])
      cases ready with
      | true => exact h.setClient h.control (by simp) (by simp) (.inl hArmed) fun _ => hWire
      | false => exact h
  | recvInit name =>
      obtain ⟨hState, rfl⟩ := hStep
      have hArmed := h.timerArmed (by simp [hState]) (by simp [hState])
      have hWire := h.unwritten (by simp [hState]) (by simp [hState])
      exact h.setClient (.inr (makeControl_inbox name)) (fun _ => makeControl_inbox name) (by simp)
        (.inl hArmed) fun _ => hWire
  | recvConn =>
      obtain ⟨hState, rfl⟩ := hStep
      exact h.recvConn hState hSettled
  | refuse =>
      obtain ⟨hOpen, rfl⟩ := hStep
      exact h.setClient h.control (by simp) (by simp) (.inr ⟨rfl, hOpen⟩) fun hNot => absurd rfl hNot
  | release =>
      obtain ⟨_, rfl⟩ := hStep
      exact h.setClient h.control (by simp) (by simp) (.inl rfl) fun hNot => absurd rfl hNot

theorem Accounted.init (env : SessionEnv) (h : (session env).init s) : Accounted s := by
  obtain ⟨name, rfl⟩ := h
  exact ⟨.empty, .nil, .inr (makeControl_inbox name), by simp, .inr (.inl rfl), absurd rfl,
    fun _ sub _ => rfl⟩

theorem Accounted.reachable (h : ((session env).guard Settled).Reachable s) : Accounted s := by
  have hStep : ∀ s event out t, Accounted s → ((session env).guard Settled).step s event out t →
      Accounted t := by
    intro s event out t hAccounted hGuarded
    exact hAccounted.step hGuarded.1 hGuarded.2
  have hInit : ∀ s, ((session env).guard Settled).init s → Accounted s :=
    fun s hInit => Accounted.init env hInit
  exact h.invariant hInit hStep

/-- Over every interleaving in which the handshakes end settled: on a connection
without waiting operations the daemon has one subscription for each listener. -/
theorem subscriptions_balanced (hReachable : ((session env).guard Settled).Reachable s)
    (hData : s.client.rvState = .dataRecv) (hPipe : s.pipe = []) {sub : Text}
    (hPlain : IsPlain sub) : balance s.client.wire sub = countOn sub s.events := by
  have hBalanced := (Accounted.reachable hReachable).balanced hData sub hPlain
  rw [hPipe] at hBalanced
  simpa using hBalanced

def plainSession : SessionEnv where
  toEnv := plainEnv
  stringToUint64 _ := 1

def sampleListener : Listener := .make plainEnv 2 1 (text "A.B")

/-- A transport with one listener whose connection was lost. -/
def lostSession : Session :=
  let s : Session := { client := { rvState := .dataRecv, control := makeControl (text "S") } }
  releaseClient (runPipe (createSubscribed plainSession.stringToUint64 s false sampleListener))

theorem lostSession_reachable {ok : Session → Event → Prop}
    (hOk : ∀ s event, event ≠ .recvConn → ok s event) :
    ((session plainSession).guard ok).Reachable lostSession := by
  have hInit : ((session plainSession).guard ok).init
      { client := { rvState := .dataRecv, control := makeControl (text "S") } } := ⟨text "S", rfl⟩
  have hCreated := (System.reachable_of_init hInit).take (.createListener 2 1 (text "A.B")) []
    (hOk _ _ (by simp)) ⟨by decide, rfl, by decide, by simp, rfl⟩
  have hRun := hCreated.take .runPipe [] (hOk _ _ (by simp)) rfl
  exact hRun.take .release [] (hOk _ _ (by simp)) ⟨rfl, rfl⟩

/-- The handshake as far as the message that ends it, from the reconnect timer on. -/
def shakeHands (s : Session) : Session :=
  { s with client := { s.client with
    rvState := .connRecv
    control := makeControl (text "S") } }

theorem shakeHands_reachable {ok : Session → Event → Prop} {s : Session}
    (hOk : ∀ s event, event ≠ .recvConn → ok s event) (hState : s.client.rvState = .versRecv)
    (h : ((session plainSession).guard ok).Reachable s) :
    ((session plainSession).guard ok).Reachable (shakeHands s) := by
  have hVers := h.take .recvVers [] (hOk _ _ (by simp)) ⟨hState, rfl⟩
  have hInfo := hVers.take (.recvInfo true) [] (hOk _ _ (by simp)) ⟨rfl, rfl⟩
  exact hInfo.take (.recvInit (text "S")) [] (hOk _ _ (by simp)) ⟨rfl, rfl⟩

/-- The listener of the lost connection is subscribed once on the next one. -/
theorem subscriptions_balanced_again :
    let s := recvConn plainSession.stringToUint64 (shakeHands (reconnectTimer lostSession true))
    s.client.wire = [.listen (text "_INBOX.S.>"), .listen (text "A.B")] ∧
      balance s.client.wire (text "A.B") = countOn (text "A.B") s.events := by
  have hOk : ∀ s event, event ≠ Event.recvConn → Settled s event := by
    intro s event hNot
    cases event <;> trivial
  have hTimer := (lostSession_reachable hOk).take (.timer true) [] trivial ⟨rfl, rfl⟩
  have hSettled : Settled (shakeHands (reconnectTimer lostSession true)) .recvConn :=
    fun sub _ => rfl
  have hConn := (shakeHands_reachable hOk rfl hTimer).take .recvConn [] hSettled ⟨rfl, rfl⟩
  exact ⟨rfl, subscriptions_balanced hConn rfl rfl (by decide)⟩

/-- A listener that is made while the client reconnects: its own message is saved and
follows the walk over the table, which had the listener already. -/
theorem subscriptions_can_double :
    ¬ ∀ (env : SessionEnv) (s : Session), (session env).Reachable s →
      s.client.rvState = .dataRecv → s.pipe = [] → s.leaving = [] →
      ∀ sub, IsPlain sub → balance s.client.wire sub = countOn sub s.events := by
  intro hClaim
  have hOk : ∀ (s : Session) event, event ≠ Event.recvConn → True := fun _ _ _ => trivial
  have hTimer := (lostSession_reachable hOk).take (.timer true) [] trivial ⟨rfl, rfl⟩
  have hCreated := hTimer.take (.createListener 3 1 (text "A.C")) [] trivial
    ⟨by decide, rfl, by decide, by decide, rfl⟩
  have hSaved := hCreated.take .runPipe [] trivial rfl
  have hConn := (shakeHands_reachable hOk rfl hSaved).take .recvConn [] trivial ⟨rfl, rfl⟩
  have hBalance := hClaim plainSession _ hConn.of_guard rfl rfl rfl (text "A.C") (by decide)
  exact absurd hBalance (by decide)

end Sassrv.Rv7
