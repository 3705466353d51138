import Sassrv.Daemon.Service

/-! When the connection reaches through a null host: always, unless its first message
either starts a network or is refused. -/
namespace Sassrv.Daemon
open SubMgr Partial

variable {env : Env} {s : Service}

/-- The messages of a client in their order. -/
def received (inputs : List Input) : List Message :=
  inputs.flatMap fun input =>
    match input with
    | .read msgs => msgs
    | .onMsg _ => []

/-- A message that `dispatch_msg` ends with a status, before it looks at the host. -/
def isRefused (m : Message) : Bool :=
  match m.unpacked with
  | .error _ => m.len ≠ 8
  | .ok e =>
      match e.mtype with
      | .advisory => true
      | .response => true
      | .process => true
      | .info => !e.info.readable
      | _ => false

/-- An `I` message that starts a network. -/
def isGreeting (m : Message) : Bool :=
  match m.unpacked with
  | .error _ => false
  | .ok e => e.mtype = .info && e.info.readable

def isGreeted : List Message → Bool
  | [] => true
  | m :: _ => isRefused m || isGreeting m

/-- The host is there. -/
def Service.HasHost (s : Service) : Prop := s.host.isSome = true

theorem Service.HasHost.hostAt (h : s.HasHost) : Returns s.hostAt fun host => s.host = some host := by
  obtain ⟨host, hHost⟩ := Option.isSome_iff_exists.mp h
  exact ⟨host, by simp [Service.hostAt, hHost], hHost⟩

theorem hostAt_of_none (h : s.host = none) : s.hostAt = .error .nullPointer := by
  simp [Service.hostAt, h]

theorem enterSub_host (m : Envelope) : (enterSub env s m).1.host = s.host := by
  unfold enterSub putPattern putSub
  repeat' split
  all_goals rfl

theorem leaveSub_host (m : Envelope) : (leaveSub env s m).1.host = s.host := by
  unfold leaveSub remPattern remSubTab
  repeat' split
  all_goals rfl

theorem addHostRef_ok (h : s.HasHost) (sub : Text) (refcnt : BitVec 32) :
    Returns (addHostRef s sub refcnt) fun r => r.1.HasHost := by
  unfold addHostRef
  split
  · exact h.hostAt.bind fun host _ => .pure rfl
  · exact .ok h

theorem remHostRef_ok (h : s.HasHost) (sub : Text) (refcnt : BitVec 32) :
    Returns (remHostRef s sub refcnt) fun r => r.1.HasHost := by
  unfold remHostRef
  split
  · exact h.hostAt.bind fun host _ => .pure rfl
  · exact .ok h

theorem sendListenStart_ok (h : s.HasHost) (sub : Text) (refcnt : BitVec 32) :
    Returns (sendListenStart s sub refcnt) Service.HasHost := by
  unfold sendListenStart
  split
  · exact h.hostAt.bind fun _ _ => .pure h
  · exact .ok h

theorem sendListenStop_ok (h : s.HasHost) (sub : Text) (refcnt : BitVec 32) :
    Returns (sendListenStop s sub refcnt) Service.HasHost := by
  unfold sendListenStop
  split
  · exact h.hostAt.bind fun _ _ => .pure h
  · exact .ok h

theorem addSub_ok (h : s.HasHost) (m : Envelope) :
    Returns (addSub env s m) Service.HasHost := by
  have hEnter : (enterSub env s m).1.HasHost := by
    unfold Service.HasHost
    rwa [enterSub_host]
  exact (addHostRef_ok hEnter _ _).bind fun r hr => sendListenStart_ok hr _ _

theorem remSub_ok (h : s.HasHost) (m : Envelope) :
    Returns (remSub env s m) Service.HasHost := by
  have hLeave : (leaveSub env s m).1.HasHost := by
    unfold Service.HasHost
    rwa [leaveSub_host]
  exact (remHostRef_ok hLeave _ _).bind fun r hr => sendListenStop_ok hr _ _

theorem fwdPub_ok (h : s.HasHost) (m : Envelope) :
    Returns (fwdPub env s m) fun r => r.1.HasHost :=
  h.hostAt.bind fun _ _ => .pure h

theorem sendStart_host (host : Host) : (sendStart s host).host = s.host := by
  simp only [sendStart]
  split <;> split <;> rfl

theorem setSession_host (host : Host) : (setSession env s host).host = s.host := by
  unfold setSession
  split
  · split <;> rfl
  · rfl

theorem respondStarted_host (status : Int) (host : Host) :
    (respondStarted env s status host).host = s.host := by
  have hReply : ∀ s' : Service, (if status ≠ 0 then s'.send (.initRefused status)
      else if !s'.sentInitresp then { s' with sentInitresp := true }.send .initResp
      else { s' with sentRvdconn := true }.send .connected).host = s'.host := by
    intro s'
    split
    · rfl
    · split <;> rfl
  have hSession : ∀ s' : Service, (if status = 0 then setSession env s' host else s').host =
      s'.host := by
    intro s'
    split
    · exact setSession_host host
    · rfl
  have hStart : ∀ s' : Service, (if s'.hostStarted then sendStart s' host else s').host =
      s'.host := by
    intro s'
    split
    · exact sendStart_host host
    · rfl
  unfold respondStarted
  rw [hStart, hSession, hReply]

/-- An `I` message that can be read leaves a host behind, whatever was there. -/
theorem respondInfo_ok (info : Info) (h : info.readable = true ∨ s.HasHost) :
    Returns (respondInfo env s info) fun r => r.1.HasHost ∧ r.2 = info.readable := by
  unfold respondInfo
  split
  case isTrue hRead =>
      refine .pure ⟨?_, hRead.symm⟩
      show (respondStarted _ _ _ _).host.isSome = true
      rw [respondStarted_host]
      rfl
  case isFalse hNot =>
      exact .ok ⟨h.resolve_left hNot, by simpa using hNot⟩

theorem dispatchMsg_ok (h : s.HasHost) (m : Message) :
    Returns (dispatchMsg env s m) fun r => r.1.HasHost := by
  unfold dispatchMsg
  cases m.unpacked with
  | error status => exact .ok h
  | ok e =>
      simp only [dispatchEnvelope]
      cases e.mtype with
      | data => exact (fwdPub_ok h e).bind fun r hr => .pure hr
      | cancel => exact (remSub_ok h e).bind fun r hr => .pure hr
      | listen => exact (addSub_ok h e).bind fun r hr => .pure hr
      | info => exact (respondInfo_ok e.info (.inr h)).bind fun r hr => .pure hr.1
      | advisory => exact .pure h
      | response => exact .pure h
      | process => exact .pure h

/-- A message that is refused may name a session, and nothing else is stored. -/
theorem dispatchMsg_refused {m : Message} (h : isRefused m = true) :
    Returns (dispatchMsg env s m) fun r =>
      (∃ session, r.1 = { s with session := session }) ∧ r.2 ≠ 0 := by
  have hRefusal : (-1 : Int) ≠ 0 := by decide
  unfold isRefused at h
  unfold dispatchMsg
  cases hUnpacked : m.unpacked with
  | error status =>
      simp only [hUnpacked, decide_eq_true_eq] at h
      have hPos : (0 : Int) ≤ Int.ofNat status.val := Int.natCast_nonneg _
      refine .ok ⟨⟨s.session, rfl⟩, ?_⟩
      rw [if_neg h]
      omega
  | ok e =>
      simp only [hUnpacked] at h
      simp only [dispatchEnvelope]
      cases hType : e.mtype with
      | info =>
          simp only [hType, Bool.not_eq_true'] at h
          simp only [respondInfo, h]
          exact .pure ⟨⟨_, rfl⟩, hRefusal⟩
      | advisory => exact .pure ⟨⟨s.session, rfl⟩, hRefusal⟩
      | response => exact .pure ⟨⟨s.session, rfl⟩, hRefusal⟩
      | process => exact .pure ⟨⟨s.session, rfl⟩, hRefusal⟩
      | data => simp [hType] at h
      | cancel => simp [hType] at h
      | listen => simp [hType] at h

theorem dispatchMsg_greeting {m : Message} (h : isGreeting m = true) :
    Returns (dispatchMsg env s m) fun r => r.1.HasHost ∧ r.2 = 0 := by
  unfold isGreeting at h
  unfold dispatchMsg
  cases hUnpacked : m.unpacked with
  | error status => simp [hUnpacked] at h
  | ok e =>
      simp only [hUnpacked, Bool.and_eq_true, decide_eq_true_eq] at h
      simp only [dispatchEnvelope, h.1]
      refine (respondInfo_ok e.info (.inl h.2)).bind fun r hr => .pure ⟨hr.1, ?_⟩
      rw [hr.2, h.2]
      rfl

/-- The host is null and stays so, up to a use of it. -/
abbrev StaysNull (r : Result Service) : Prop :=
  ReturnsOr .nullPointer r fun s => s.host = none

theorem addSub_null (h : s.host = none) (m : Envelope) : StaysNull (addSub env s m) := by
  have hEnter : (enterSub env s m).1.host = none := by rwa [enterSub_host]
  have hRef : ReturnsOr .nullPointer
      (addHostRef (enterSub env s m).1 (s.pre ++ m.sub) (enterSub env s m).2)
      fun r => r.1.host = none := by
    unfold addHostRef
    rw [hostAt_of_none hEnter]
    split
    · exact .inl rfl
    · exact .inr (.ok hEnter)
  refine hRef.bind fun r hr => ?_
  unfold sendListenStart
  rw [hostAt_of_none hr]
  split
  · exact .inl rfl
  · exact .inr (.ok hr)

theorem remSub_null (h : s.host = none) (m : Envelope) : StaysNull (remSub env s m) := by
  have hLeave : (leaveSub env s m).1.host = none := by rwa [leaveSub_host]
  have hRef : ReturnsOr .nullPointer
      (remHostRef (leaveSub env s m).1 (s.pre ++ m.sub) (leaveSub env s m).2)
      fun r => r.1.host = none := by
    unfold remHostRef
    rw [hostAt_of_none hLeave]
    split
    · exact .inl rfl
    · exact .inr (.ok hLeave)
  refine hRef.bind fun r hr => ?_
  unfold sendListenStop
  rw [hostAt_of_none hr]
  split
  · exact .inl rfl
  · exact .inr (.ok hr)

/-- Without a host, other messages end in a fault or come to the counters. -/
theorem dispatchMsg_null {m : Message} (h : s.host = none)
    (hNot : (isRefused m || isGreeting m) = false) :
    ReturnsOr .nullPointer (dispatchMsg env s m) fun r => r.1.host = none ∧ r.2 = 0 := by
  simp only [Bool.or_eq_false_iff, isRefused, isGreeting] at hNot
  unfold dispatchMsg
  cases hUnpacked : m.unpacked with
  | error status =>
      simp only [hUnpacked, decide_eq_false_iff_not, not_not] at hNot
      exact .inr (.ok ⟨h, if_pos hNot.1⟩)
  | ok e =>
      simp only [hUnpacked] at hNot
      simp only [dispatchEnvelope]
      cases hType : e.mtype with
      | data =>
          refine .inl ?_
          rw [fwdPub, hostAt_of_none h]
          rfl
      | cancel => exact (remSub_null h e).bind fun s' hs' => .inr (.pure ⟨hs', rfl⟩)
      | listen => exact (addSub_null h e).bind fun s' hs' => .inr (.pure ⟨hs', rfl⟩)
      | info => simp [hType] at hNot
      | advisory => simp [hType] at hNot
      | response => simp [hType] at hNot
      | process => simp [hType] at hNot

theorem countMsg_ok (h : s.HasHost) (m : Message) : Returns (countMsg s m) Service.HasHost :=
  h.hostAt.bind fun _ _ => .pure rfl

theorem process_ok (h : s.HasHost) (msgs : List Message) :
    Returns (process env s msgs) Service.HasHost := by
  induction msgs generalizing s with
  | nil => exact .ok h
  | cons m rest ih =>
      refine (dispatchMsg_ok h m).bind fun r hr => ?_
      dsimp only
      split
      · exact (countMsg_ok hr m).bind fun s' hs' => ih hs'
      · exact .pure hr

theorem fwdMsg_ok (h : s.HasHost) (pub : Publish) : Returns (fwdMsg env s pub) Service.HasHost := by
  have hLoss : Returns (reportLoss env s pub) fun _ => True := by
    unfold reportLoss
    split
    · exact h.hostAt.bind fun _ _ => .pure trivial
    · exact .ok trivial
  unfold fwdMsg
  split
  · exact .ok h
  · refine hLoss.bind fun _ _ => ?_
    split
    · exact h.hostAt.bind fun _ _ => .pure rfl
    · exact .pure h

theorem onMsg_ok (h : s.HasHost) (pub : Publish) : Returns (onMsg env s pub) Service.HasHost := by
  unfold onMsg
  split
  · exact fwdMsg_ok h pub
  · refine h.hostAt.bind fun host _ => ?_
    split
    · exact fwdMsg_ok h pub
    · exact .pure h

theorem handle_ok (h : s.HasHost) (input : Input) : Returns (handle env s input) Service.HasHost := by
  cases input with
  | read msgs =>
      simp only [handle]
      split
      · exact .ok h
      · exact process_ok h _
  | onMsg pub =>
      simp only [handle]
      split
      · exact onMsg_ok h pub
      · exact .ok h

/-- A connection that has a refused message in front keeps it there. -/
structure Stuck (s : Service) : Prop where
  unrouted : s.isRouted = false
  head : ∃ m rest, s.buffer = m :: rest ∧ isRefused m = true

theorem process_refused {m : Message} (h : isRefused m = true) (hRouted : s.isRouted = false)
    (rest : List Message) : Returns (process env s (m :: rest)) Stuck := by
  refine (dispatchMsg_refused h).bind fun r hr => ?_
  obtain ⟨⟨session, hSame⟩, hStatus⟩ := hr
  have hStill : r.1.isRouted = false := by
    rw [hSame]
    exact hRouted
  show Returns (if r.2 = 0 then _ else _) Stuck
  rw [if_neg hStatus]
  exact .pure ⟨hStill, m, rest, rfl, h⟩

theorem Stuck.handle (h : Stuck s) (input : Input) : Returns (handle env s input) Stuck := by
  cases input with
  | read msgs =>
      obtain ⟨m, rest, hBuffer, hRefused⟩ := h.head
      simp only [Daemon.handle]
      split
      · exact .ok h
      · rw [hBuffer]
        exact process_refused hRefused h.unrouted _
  | onMsg pub =>
      simp only [Daemon.handle, h.unrouted, Bool.false_and, Bool.false_eq_true, if_false]
      exact .ok h

/-- A connection before its first message. -/
structure Silent (s : Service) : Prop where
  host : s.host = none
  unrouted : s.isRouted = false
  buffer : s.buffer = []
  isOpen : s.closed = false

theorem process_greeting {m : Message} (h : isGreeting m = true) (rest : List Message) :
    Returns (process env s (m :: rest)) Service.HasHost := by
  refine (dispatchMsg_greeting h).bind fun r hr => ?_
  show Returns (if r.2 = 0 then _ else _) _
  rw [if_pos hr.2]
  exact (countMsg_ok hr.1 m).bind fun s' hs' => process_ok hs' rest

theorem process_null {m : Message} (h : s.host = none)
    (hNot : (isRefused m || isGreeting m) = false) (rest : List Message) :
    process env s (m :: rest) = .error .nullPointer := by
  rcases dispatchMsg_null h hNot with hFault | ⟨r, hDispatch, hNull, hStatus⟩
  · rw [process, hFault]
    rfl
  · rw [process, hDispatch]
    show (if r.2 = 0 then _ else _) = _
    rw [if_pos hStatus, countMsg, hostAt_of_none hNull]
    rfl

/-- A run from the first message on reaches through the null host exactly when that
message neither starts a network nor is refused. -/
theorem Silent.run (env : Env) (h : Silent s) (inputs : List Input) :
    inputs.foldlM (handle env) s = .error .nullPointer ↔ isGreeted (received inputs) = false := by
  induction inputs generalizing s with
  | nil =>
      have hDone : Returns (pure s : Result Service) Silent := .pure h
      exact iff_of_false (hDone.not_error _) (by simp [received, isGreeted])
  | cons input rest ih =>
      rw [List.foldlM_cons]
      cases input with
      | onMsg pub =>
          simp only [handle, h.unrouted, Bool.false_and, Bool.false_eq_true, if_false]
          exact ih h
      | read msgs =>
          simp only [handle, h.isOpen, Bool.false_eq_true, if_false, h.buffer, List.nil_append]
          cases msgs with
          | nil => exact ih ⟨h.host, h.unrouted, rfl, h.isOpen⟩
          | cons m more =>
              have hGreeted : isGreeted (received (.read (m :: more) :: rest)) =
                  (isRefused m || isGreeting m) := rfl
              rw [hGreeted]
              cases hRefused : isRefused m with
              | true =>
                  have hRest : Returns (process env s (m :: more) >>= fun s' =>
                      rest.foldlM (handle env) s') Stuck :=
                    (process_refused hRefused h.unrouted more).bind fun s' hs' =>
                      Returns.foldlM (fun s a _ hs => hs.handle a) hs'
                  exact iff_of_false (hRest.not_error _) (by simp)
              | false =>
                  cases hGreeting : isGreeting m with
                  | true =>
                      have hRest : Returns (process env s (m :: more) >>= fun s' =>
                          rest.foldlM (handle env) s') Service.HasHost :=
                        (process_greeting hGreeting more).bind fun s' hs' =>
                          Returns.foldlM (fun s a _ hs => handle_ok hs a) hs'
                      exact iff_of_false (hRest.not_error _) (by simp)
                  | false =>
                      rw [process_null h.host (by rw [hRefused, hGreeting]; rfl)]
                      exact iff_of_true rfl rfl

/-- Whatever a client sends and whatever is routed to it, in any number of reads: the
connection never goes through a null host if and only if the first message is one
that `dispatch_msg` refuses, or an `I` message that it can read. -/
theorem host_not_null_iff (env : Env) (inputs : List Input) :
    serve env inputs ≠ .error .nullPointer ↔ isGreeted (received inputs) = true := by
  have hRun := (⟨rfl, rfl, rfl, rfl⟩ : Silent {}).run env inputs
  rw [serve, ne_eq, hRun, Bool.not_eq_false]

/-- A client that listens before it introduces itself. -/
theorem host_can_be_null :
    ¬ ∀ (env : Env) (inputs : List Input), serve env inputs ≠ .error .nullPointer := by
  intro hClaim
  let quietEnv : Env :=
    { gob := []
      converts := fun _ => true
      compiles := fun _ => true
      isMatch := fun _ _ => false
      notified := false
      startNetwork := fun _ _ _ => (0, { networkStarted := true })
      forwardMsg := fun _ => .good }
  have hListen : serve quietEnv
      [.read [⟨40, .ok { mtype := .listen, sub := text "TEST" }⟩]] = .error .nullPointer := rfl
  exact hClaim quietEnv _ hListen

end Sassrv.Daemon
