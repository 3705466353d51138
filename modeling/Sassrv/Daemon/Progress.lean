import Sassrv.Daemon.Service
import Sassrv.Lib.Records

/-! The main loop of `EvRvService::process` over the bytes of its buffer, and when it
comes to an end with a message that it neither takes, nor keeps for later, nor closes
the connection over. -/
namespace Sassrv.Daemon
open SubMgr Records Partial

/-- What raimd makes of the bytes: its unpack, which takes no message shorter than the
header, and the error for a header that is none. -/
structure Wire extends Env where
  unpack : Text → Except (Fin 5) Envelope
  unpack_short : ∀ msg, msg.length < 8 → ∃ status, unpack msg = .error status
  badMagicNumber : Int
  badMagicNumber_pos : 0 < badMagicNumber
  badMagicNumber_ne : badMagicNumber ≠ errBackpressure

/-- The message at the head of the buffer. -/
def Wire.head (wire : Wire) (buf : Text) : Message where
  len := getU32 buf
  unpacked := wire.unpack (buf.take (getU32 buf))

/-- The buffer starts with all of a message. -/
def Complete (buf : Text) : Prop := 8 ≤ buf.length ∧ getU32 buf ≤ buf.length

instance (buf : Text) : Decidable (Complete buf) := inferInstanceAs (Decidable (_ ∧ _))

def hasMagic (buf : Text) : Bool := getU32 (buf.drop 4) = 0x9955eeaa

/-- A message that is taken off the buffer is not empty. -/
theorem drop_shorter {wire : Wire} {s t : Service} {buf : Text} {status : Int}
    (hComplete : Complete buf)
    (h : dispatchMsg wire.toEnv s (wire.head buf) = .ok (t, status)) (hStatus : status = 0) :
    buf.length - getU32 buf < buf.length := by
  have hLe := hComplete.2
  by_contra hNot
  have hEmpty := hComplete.1
  have hZero : getU32 buf = 0 := by omega
  obtain ⟨e, he⟩ := wire.unpack_short (buf.take (getU32 buf)) (by simp [hZero])
  simp only [dispatchMsg, Wire.head, he] at h
  obtain ⟨-, rfl⟩ := Prod.mk.inj (Except.ok.inj h)
  rw [if_neg (by omega)] at hStatus
  simp only [Int.ofNat_eq_natCast] at hStatus
  omega

/-- Where the loop ends: the status that it ends with and the bytes that it leaves. -/
structure Ended where
  service : Service
  status : Int
  rest : Text

/-- `data_recv_loop`. The status is that of the message before. -/
def dataRecvLoop (wire : Wire) (s : Service) (status : Int) (buf : Text) : Result Ended :=
  if hComplete : Complete buf then
    match hDispatch : dispatchMsg wire.toEnv s (wire.head buf) with
    | .error fault => .error fault
    | .ok (t, status') =>
        if hStatus : status' = 0 then
          match countMsg t (wire.head buf) with
          | .error fault => .error fault
          | .ok u =>
              have : buf.length - getU32 buf < buf.length :=
                drop_shorter hComplete hDispatch hStatus
              dataRecvLoop wire u 0 (buf.drop (getU32 buf))
        else .ok ⟨t, status', buf⟩
  else if 8 ≤ buf.length ∧ hasMagic buf = false then .ok ⟨s, wire.badMagicNumber, buf⟩
  else .ok ⟨s, status, buf⟩
termination_by buf.length
decreasing_by
  rw [List.length_drop]
  assumption

/-- `process` in state `DATA_RECV`. -/
def processData (wire : Wire) (s : Service) (buf : Text) : Result Ended := do
  let r ← dataRecvLoop wire s (-1) buf
  return { r with
    service := { r.service with closed := decide (0 < r.status ∧ r.status ≠ errBackpressure) } }

/-- `EV_SHUTDOWN` has been pushed, which `respond_info` does with its refusal. -/
def Service.isShutdown (s : Service) : Bool :=
  s.sent.any fun out =>
    match out with
    | .initRefused _ => true
    | _ => false

/-- The message is well formed, and `dispatch_msg` has no use for it. -/
def Message.isUnhandled (m : Message) : Bool :=
  match m.unpacked with
  | .error _ => false
  | .ok envelope =>
      match envelope.mtype with
      | .data => false
      | .cancel => false
      | .listen => false
      | .info => !envelope.info.readable
      | _ => true

/-- The loop comes to the bytes `rest` in state `t`: the messages before them are
dispatched and counted. -/
inductive Reaches (wire : Wire) : Service → Text → Service → Text → Prop where
  | refl (s : Service) (buf : Text) : Reaches wire s buf s buf
  | head {s t u v : Service} {buf rest : Text} (hComplete : Complete buf)
      (hDispatch : dispatchMsg wire.toEnv s (wire.head buf) = .ok (t, 0))
      (hCount : countMsg t (wire.head buf) = .ok u)
      (hRest : Reaches wire u (buf.drop (getU32 buf)) v rest) : Reaches wire s buf v rest

/-- Less than a message is left, or the message at the head is refused for now, or the
connection ends. -/
def Ended.Progress (r : Ended) : Prop :=
  ¬ Complete r.rest ∨ r.status = errBackpressure ∨ r.service.closed = true ∨
    r.service.isShutdown = true

variable {wire : Wire} {s t : Service} {buf rest : Text}

/-- The statuses of `dispatch_msg`: taken, an error, back-pressure, or no use. -/
theorem dispatchMsg_status {env : Env} {m : Message} {status : Int}
    (h : dispatchMsg env s m = .ok (t, status)) :
    status = 0 ∨ (0 < status ∧ status ≠ errBackpressure) ∨ status = errBackpressure ∨
      (status = -1 ∧ m.isUnhandled = true ∧ ∃ session, t = { s with session := session }) := by
  unfold dispatchMsg at h
  split at h
  · next e _ =>
      obtain ⟨-, rfl⟩ := Prod.mk.inj (Except.ok.inj h)
      split
      · exact .inl rfl
      · have hLt := e.isLt
        refine .inr (.inl ⟨?_, ?_⟩) <;> simp only [Int.ofNat_eq_natCast, errBackpressure] <;> omega
  · next envelope hUnpacked =>
      unfold dispatchEnvelope at h
      split at h
      · simp only [bind_eq_ok] at h
        obtain ⟨⟨u, flow⟩, -, h⟩ := h
        obtain ⟨-, rfl⟩ := Prod.mk.inj (pure_eq_ok.mp h)
        split
        · exact .inr (.inr (.inl rfl))
        · exact .inl rfl
      · simp only [bind_eq_ok, pure_eq_ok, Prod.mk.injEq] at h
        obtain ⟨u, -, -, rfl⟩ := h
        exact .inl rfl
      · simp only [bind_eq_ok, pure_eq_ok, Prod.mk.injEq] at h
        obtain ⟨u, -, -, rfl⟩ := h
        exact .inl rfl
      · next hType =>
          simp only [bind_eq_ok, pure_eq_ok, Prod.mk.injEq] at h
          obtain ⟨⟨u, done⟩, hInfo, rfl, rfl⟩ := h
          unfold respondInfo at hInfo
          split at hInfo
          · simp only [bind_eq_ok, pure_eq_ok, Prod.mk.injEq] at hInfo
            obtain ⟨host, -, -, rfl⟩ := hInfo
            exact .inl rfl
          · next hReadable =>
              obtain ⟨rfl, rfl⟩ := Prod.mk.inj (Except.ok.inj hInfo)
              refine .inr (.inr (.inr ⟨rfl, ?_, _, rfl⟩))
              simpa [Message.isUnhandled, hUnpacked, hType] using hReadable
      · next hData hCancel hListen hInfo =>
          obtain ⟨rfl, rfl⟩ := Prod.mk.inj (pure_eq_ok.mp h)
          refine .inr (.inr (.inr ⟨rfl, ?_, s.session, rfl⟩))
          simp only [Message.isUnhandled, hUnpacked]

/-- Such a message may name a session, and nothing else is stored. -/
theorem dispatchMsg_unhandled {env : Env} {m : Message} (h : m.isUnhandled = true) :
    ∃ session, dispatchMsg env s m = .ok ({ s with session := session }, -1) := by
  unfold Message.isUnhandled at h
  cases hUnpacked : m.unpacked with
  | error code =>
      rw [hUnpacked] at h
      cases h
  | ok envelope =>
      rw [hUnpacked] at h
      have hEnvelope : ∃ session, dispatchEnvelope env s envelope =
          .ok ({ s with session := session }, -1) := by
        unfold dispatchEnvelope
        cases hType : envelope.mtype with
        | data => simp [hType] at h
        | cancel => simp [hType] at h
        | listen => simp [hType] at h
        | info =>
            have hReadable : ¬ envelope.info.readable = true := by simpa [hType] using h
            simp only [respondInfo, if_neg hReadable]
            exact ⟨_, rfl⟩
        | _ => exact ⟨s.session, rfl⟩
      simp only [dispatchMsg, hUnpacked]
      exact hEnvelope

/-- The loop takes a message that is dispatched and counted. -/
theorem dataRecvLoop_taken {u : Service} (status : Int) (hComplete : Complete buf)
    (hDispatch : dispatchMsg wire.toEnv s (wire.head buf) = .ok (t, 0))
    (hCount : countMsg t (wire.head buf) = .ok u) :
    dataRecvLoop wire s status buf = dataRecvLoop wire u 0 (buf.drop (getU32 buf)) := by
  rw [dataRecvLoop, dif_pos hComplete]
  split
  · next hOther =>
      rw [hDispatch] at hOther
      cases hOther
  · next hOther =>
      rw [hDispatch] at hOther
      obtain ⟨rfl, rfl⟩ := Prod.mk.inj (Except.ok.inj hOther)
      rw [dif_pos rfl, hCount]

theorem dataRecvLoop_short (wire : Wire) (s : Service) (status : Int) (h : buf.length < 8) :
    dataRecvLoop wire s status buf = .ok ⟨s, status, buf⟩ := by
  rw [dataRecvLoop, dif_neg (fun hComplete => absurd hComplete.1 (by omega)),
    if_neg (fun hMagic => absurd hMagic.1 (by omega))]

/-- The loop ends at the first message that it has no use for. -/
theorem Reaches.ended {status : Int} (h : Reaches wire s buf t rest) (hComplete : Complete rest)
    (hUnhandled : (wire.head rest).isUnhandled = true) :
    ∃ session, dataRecvLoop wire s status buf = .ok ⟨{ t with session := session }, -1, rest⟩ := by
  induction h generalizing status with
  | refl s buf =>
      obtain ⟨session, hRefused⟩ : ∃ session, dispatchMsg wire.toEnv s (wire.head buf) =
          .ok ({ s with session := session }, -1) := dispatchMsg_unhandled hUnhandled
      refine ⟨session, ?_⟩
      rw [dataRecvLoop, dif_pos hComplete]
      split
      · next hDispatch =>
          rw [hRefused] at hDispatch
          cases hDispatch
      · next hDispatch =>
          rw [hRefused] at hDispatch
          obtain ⟨rfl, rfl⟩ := Prod.mk.inj (Except.ok.inj hDispatch)
          rw [dif_neg (by decide)]
  | head hHead hDispatch hCount _ ih =>
      rw [dataRecvLoop_taken status hHead hDispatch hCount]
      exact ih hComplete hUnhandled

/-- Where the loop ends: at less than a message, or at one that is not taken. -/
theorem dataRecvLoop_ended {status : Int} {r : Ended} (h : dataRecvLoop wire s status buf = .ok r) :
    ∃ t, Reaches wire s buf t r.rest ∧
      (Complete r.rest → dispatchMsg wire.toEnv t (wire.head r.rest) = .ok (r.service, r.status) ∧
        r.status ≠ 0) := by
  fun_induction dataRecvLoop wire s status buf with
  | case1 s status buf hComplete fault hDispatch => cases h
  | case2 s status buf hComplete t fault hCount hDispatch => cases h
  | case3 s status buf hComplete t u hCount hDispatch _ ih =>
      obtain ⟨v, hRest, hEnd⟩ := ih h
      exact ⟨v, .head hComplete hDispatch hCount hRest, hEnd⟩
  | case4 s status buf hComplete t status' hDispatch hStatus =>
      cases h
      exact ⟨s, .refl s buf, fun _ => ⟨hDispatch, hStatus⟩⟩
  | case5 s status buf hNot hMagic =>
      cases h
      exact ⟨s, .refl s buf, fun hComplete => absurd hComplete hNot⟩
  | case6 s status buf hNot hMagic =>
      cases h
      exact ⟨s, .refl s buf, fun hComplete => absurd hComplete hNot⟩

/-- `{ mtype: L, sub: A }`. -/
def wireListen : Text :=
  wireMsg [wireField "mtype" 8 (text "L" ++ [0]), wireField "sub" 2 ([1, 3] ++ text "A" ++ [0])]

/-- `{ mtype: S }`. -/
def wireProcess : Text := wireMsg [wireField "mtype" 8 (text "S" ++ [0])]

/-- What `unpack` makes of these two messages. -/
def wireUnpack (msg : Text) : Except (Fin 5) Envelope :=
  if msg = wireListen then .ok { mtype := .listen, sub := text "A" }
  else if msg = wireProcess then .ok { mtype := .process }
  else .error 0

theorem wireUnpack_short (msg : Text) (h : msg.length < 8) : ∃ status, wireUnpack msg = .error status := by
  refine ⟨0, ?_⟩
  unfold wireUnpack
  rw [if_neg, if_neg]
  · rintro rfl
    revert h
    decide
  · rintro rfl
    revert h
    decide

def sampleWire : Wire where
  gob := []
  converts _ := true
  compiles _ := true
  isMatch _ _ := false
  notified := false
  startNetwork _ _ _ := (0, { networkStarted := true })
  forwardMsg _ := .good
  unpack := wireUnpack
  unpack_short := wireUnpack_short
  badMagicNumber := 1
  badMagicNumber_pos := by decide
  badMagicNumber_ne := by decide

/-- A connection that has introduced itself. -/
def sampleService : Service := { host := some { networkStarted := true }, hostStarted := true }

/-- A return of `process` leaves no message at the head of an open connection exactly
when it does not come to a well-formed message that `dispatch_msg` has no use for. -/
theorem process_progress_iff (wire : Wire) (s : Service) (buf : Text) (r : Ended)
    (h : processData wire s buf = .ok r) :
    r.Progress ↔ ∀ t rest, Reaches wire s buf t rest → Complete rest →
      (wire.head rest).isUnhandled = true → t.isShutdown = true := by
  simp only [processData, bind_eq_ok, pure_eq_ok] at h
  obtain ⟨e, hLoop, rfl⟩ := h
  constructor
  · intro hProgress t rest hReaches hComplete hUnhandled
    obtain ⟨session, hEnded⟩ : ∃ session, dataRecvLoop wire s (-1) buf =
        .ok ⟨{ t with session := session }, -1, rest⟩ := hReaches.ended hComplete hUnhandled
    obtain rfl := Except.ok.inj (hLoop.symm.trans hEnded)
    rcases hProgress with hNot | hBack | hClosed | hShutdown
    · exact absurd hComplete hNot
    · cases hBack
    · simp at hClosed
    · exact hShutdown
  · intro hNever
    obtain ⟨t, hReaches, hEnd⟩ := dataRecvLoop_ended hLoop
    by_cases hComplete : Complete e.rest
    · obtain ⟨hDispatch, hStatus⟩ := hEnd hComplete
      rcases dispatchMsg_status hDispatch with hZero | hError | hBack | ⟨-, hUnhandled, session, hSame⟩
      · exact absurd hZero hStatus
      · exact .inr (.inr (.inl (by simpa using hError)))
      · exact .inr (.inl hBack)
      · have hShutdown := hNever t e.rest hReaches hComplete hUnhandled
        refine .inr (.inr (.inr ?_))
        rw [hSame]
        exact hShutdown
    · exact .inl hComplete

/-- A subscribe is taken, and nothing is left. -/
theorem process_progress_listen : ∃ r, processData sampleWire sampleService wireListen = .ok r ∧
    (r.Progress ↔ ∀ t rest, Reaches sampleWire sampleService wireListen t rest → Complete rest →
      (sampleWire.head rest).isUnhandled = true → t.isShutdown = true) ∧ r.rest = [] := by
  obtain ⟨t, hDispatch, u, hCount⟩ : ∃ t, dispatchMsg sampleWire.toEnv sampleService
      (sampleWire.head wireListen) = .ok (t, 0) ∧ ∃ u, countMsg t (sampleWire.head wireListen) =
        .ok u := ⟨_, rfl, _, rfl⟩
  have hTaken := dataRecvLoop_taken (-1) (by decide) hDispatch hCount
  rw [show wireListen.drop (getU32 wireListen) = [] by decide,
    dataRecvLoop_short sampleWire u 0 (by decide)] at hTaken
  have hData : processData sampleWire sampleService wireListen =
      .ok ⟨{ u with closed := false }, 0, []⟩ := by
    rw [processData, hTaken]
    rfl
  exact ⟨_, hData, process_progress_iff sampleWire sampleService wireListen _ hData, rfl⟩

/-- A message of type `S` stays at the head of the buffer, the connection open. -/
theorem process_message_stays : ∃ r, processData sampleWire sampleService wireProcess = .ok r ∧
    ¬ r.Progress ∧ r.rest = wireProcess := by
  have hComplete : Complete wireProcess := by decide
  have hReaches : Reaches sampleWire sampleService wireProcess sampleService wireProcess :=
    .refl _ _
  obtain ⟨session, hLoop⟩ : ∃ session, dataRecvLoop sampleWire sampleService (-1) wireProcess =
      .ok ⟨{ sampleService with session := session }, -1, wireProcess⟩ :=
    hReaches.ended hComplete (by decide +kernel)
  refine ⟨_, by rw [processData, hLoop]; rfl, ?_, rfl⟩
  rintro (hNot | hBack | hClosed | hShutdown)
  · exact hNot hComplete
  · cases hBack
  · exact Bool.false_ne_true hClosed
  · exact Bool.false_ne_true hShutdown

end Sassrv.Daemon
