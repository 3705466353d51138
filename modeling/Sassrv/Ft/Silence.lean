import Sassrv.Ft.Listening
import Sassrv.Ft.Runs

/-! With a listener that calls nothing, the handlers with the listener do what
the handlers alone do. -/
namespace Sassrv.Ft
namespace Watched
open RvFt

@[simp] theorem edit_ft (w : Watched) (change : RvFt → RvFt) : (w.edit change).ft = change w.ft :=
  rfl

@[simp] theorem reads_ft (w : Watched) (i : Nat) : (w.reads i).ft = w.ft := rfl

@[simp] theorem enterState_ft (w : Watched) (state : FtState) :
    (w.enterState state).ft = w.ft.enterState state := by
  unfold enterState
  split
  · rfl
  · rename_i hSame
    exact (if_neg hSame).symm

/-- The handler with the listener ends where the plain handler ends. -/
def Erases (step : Watched → Option Watched) (plain : RvFt → Option RvFt) : Prop :=
  ∀ w, (step w).map Watched.ft = plain w.ft

theorem map_bind_ft {x : Option Watched} {f : Option RvFt} (h : x.map Watched.ft = f)
    {rest : Watched → Option Watched} {plain : RvFt → Option RvFt} (hRest : Erases rest plain) :
    (x.bind rest).map Watched.ft = f.bind plain := by
  subst h
  cases x with
  | none => rfl
  | some w => exact hRest w

theorem notifyChange_erases (site : FtSite) :
    Erases (notifyChange silent site) (fun f => some (f.notifyChange site.action)) :=
  fun _ => rfl

theorem notifyUpdate_erases : Erases (notifyUpdate silent) (fun f => some f.notifyUpdate) := by
  intro w
  unfold notifyUpdate
  beta_reduce
  rw [RvFt.notifyUpdate]
  split
  · exact notifyChange_erases .update w
  · rfl

theorem armTakeover_erases {w : Watched} {p : PeerRef} (hHead : w.ft.group.ptr 0 = some p)
    (action : FtAction) (originNs : Nat) :
    (w.armTakeover silent p action originNs).map Watched.ft =
      some (w.ft.armTakeover p action originNs) := by
  have hArm : ∀ w' : Watched, w'.ft.group = w.ft.group →
      w'.setActivateTimer.map Watched.ft = some (w'.ft.setActivateTimer p) := by
    intro w' hGroup
    simp [setActivateTimer, hGroup, hHead]
  unfold armTakeover RvFt.armTakeover
  split
  · simp [setPrepareTimer, hHead]
  · simp only [Option.bind_eq_bind]
    split
    · exact hArm _ rfl
    · exact hArm w rfl

/-- A takeover, around any `set_state` that erases to its own. -/
theorem prepareTakeover_erases {setState : FtState → Watched → Option Watched}
    {plain : FtState → RvFt → Option RvFt} (h : ∀ state, Erases (setState state) (plain state))
    (action : FtAction) (deadline : Nat) :
    Erases (prepareTakeover silent setState action deadline)
      (RvFt.prepareTakeover plain action deadline) := by
  intro w
  simp only [prepareTakeover, RvFt.prepareTakeover, Option.bind_eq_bind, Option.pure_def]
  cases hHead : w.ft.group.ptr 0 with
  | none => rfl
  | some p =>
      simp only [Option.bind_some]
      by_cases hFirst : p = .me ∨ w.ft.me.state = .join
      · simp only [if_pos hFirst]
        by_cases hExpired : w.ft.expiredDeltaMs w.ft.startMono w.ft.activateMs ≤ 0
        · simp only [if_pos hExpired]
          by_cases hAbove : p = .me ∨
              (w.ft.me.state = .join ∧ w.ft.me.isGreaterWeight (w.ft.group.peer p) = true)
          · simp only [if_pos hAbove]
            exact map_bind_ft (h .primary _) notifyUpdate_erases
          · simp only [if_neg hAbove]
            exact map_bind_ft (h .secondary _) notifyUpdate_erases
        · simp only [if_neg hExpired]
          exact armTakeover_erases (w := w.reads 0) hHead action _
      · simp only [if_neg hFirst]
        by_cases hSecond : w.ft.group.ptr 1 ≠ some .me
        · simp only [if_pos hSecond]
          rfl
        · simp only [if_neg hSecond]
          by_cases hDeadline : deadline ≠ 0
          · simp only [if_pos hDeadline]
            by_cases hPrepare : ((w.ft.cancelTimer .prepare).cancelTimer .activate).prepareMs > 0
            · simp only [if_pos hPrepare]
              exact notifyChange_erases .deadline _
            · simp only [if_neg hPrepare]
              rfl
          · simp only [if_neg hDeadline]
            exact armTakeover_erases (w := (w.reads 0).reads 1) hHead action _

theorem finish_erases : Erases (finish silent) (fun f => some f.finish) := by
  intro w
  unfold finish
  beta_reduce
  rw [RvFt.finish]
  have hEnd : ∀ w' : Watched, (notifyChange silent .finish ((((w'.edit (·.cancelTimer .heartbeat)).edit
      (·.stopTimers)).edit (fun f => f.emit (.unsubscribe f.ftSub))))).map Watched.ft =
      some (((w'.ft.cancelTimer .heartbeat).stopTimers.emit
        (.unsubscribe (w'.ft.cancelTimer .heartbeat).stopTimers.ftSub)).notifyChange .finish) :=
    fun _ => rfl
  simp only
  split
  · exact hEnd _
  · exact hEnd w

/-- What each state does when it is entered. -/
theorem actOnState_erases {setState : FtState → Watched → Option Watched}
    {plain : FtState → RvFt → Option RvFt} (h : ∀ state, Erases (setState state) (plain state))
    (w : Watched) (state : FtState) :
    ((w.enterState state).actOnState silent setState w.ft.me.state state).map Watched.ft =
      match state with
      | .listen => some ((w.ft.enterState .listen).sendMsg .announce [])
      | .join => (RvFt.prepareTakeover plain .join 0 (((w.ft.enterState .join).withGroup
          ((w.ft.enterState .join).group.insert .me)).sendMsg .announce [])).bind
            (fun f => some (f.notifyChange .join))
      | .primary => some (({ w.ft.enterState .primary with
          activateNs := (w.ft.enterState .primary).stateNs }.notifyChange .activate).sendMsg
            .activate [])
      | .secondary => RvFt.prepareTakeover plain .deactivate 0 (if w.ft.me.state ≠ .secondary then
          ({ w.ft.enterState .secondary with
            deactivateNs := (w.ft.enterState .secondary).stateNs }.sendMsg .deactivate
              []).notifyChange .deactivate
          else w.ft.enterState .secondary)
      | .finish => some (w.ft.enterState .finish).finish := by
  have hEnter := enterState_ft w state
  cases state with
  | listen => simp [actOnState]
  | join =>
      simp only [actOnState, Option.bind_eq_bind]
      refine map_bind_ft ?_ (notifyChange_erases .join)
      refine (prepareTakeover_erases h .join 0 _).trans ?_
      simp only [hEnter]
  | primary =>
      simp only [actOnState, Option.bind_eq_bind, Option.pure_def]
      rw [← hEnter]
      rfl
  | secondary =>
      simp only [actOnState, Option.bind_eq_bind]
      split
      · refine (prepareTakeover_erases h .deactivate 0 _).trans ?_
        rw [← hEnter]
        rfl
      · refine (prepareTakeover_erases h .deactivate 0 _).trans ?_
        rw [hEnter]
  | finish =>
      rw [← hEnter]
      exact finish_erases _

/-- `set_state` with a listener that calls nothing. -/
theorem setState_erases (depth : Nat) (state : FtState) :
    Erases (setState silent depth state) (setStateWithin depth state) := by
  induction depth generalizing state with
  | zero => exact fun _ => rfl
  | succ depth ih =>
      intro w
      simp only [setState, Option.bind_eq_bind, Option.pure_def]
      have hSame : ∀ f : Option RvFt, f.bind some = f := fun f => by cases f <;> rfl
      rw [← hSame (setStateWithin (depth + 1) state w.ft)]
      refine map_bind_ft ((actOnState_erases ih w state).trans ?_) (fun _ => rfl)
      cases state with
      | _ => rfl

theorem start_erases (param : FtParameters) :
    Erases (start silent 3 param) (fun f => f.start param) := by
  intro w
  beta_reduce
  rw [start_eq]
  simp only [start, Option.bind_eq_bind]
  refine map_bind_ft ?_ (notifyChange_erases .listen)
  refine (setState_erases 3 .listen _).trans ?_
  split <;> rfl

theorem stop_erases : Erases (stop silent 3) RvFt.stop := by
  intro w
  unfold stop RvFt.stop
  split
  · exact setState_erases 3 .finish w
  · split <;> rfl

theorem activate_erases : Erases (activate silent 3) RvFt.activate := by
  intro w
  unfold activate RvFt.activate
  split
  · exact setState_erases 3 .join _
  · rfl

theorem deactivate_erases : Erases (deactivate silent 3) RvFt.deactivate := by
  intro w
  simp only [deactivate, RvFt.deactivate, Option.bind_eq_bind, Option.pure_def]
  by_cases hListen : w.ft.me.state ≠ .listen
  · simp only [if_pos hListen]
    exact map_bind_ft (setState_erases 3 .listen _) (notifyChange_erases .listen)
  · simp only [if_neg hListen]
    rfl

theorem takeoverTimer_erases (action : FtAction) (ival : Int) :
    Erases (takeoverTimer silent 3 action ival) (fun f => f.takeoverTimer action ival) := by
  intro w
  simp only [takeoverTimer, RvFt.takeoverTimer, Option.bind_eq_bind, Option.pure_def]
  split
  · exact map_bind_ft (prepareTakeover_erases (setState_erases 3) action 0 _) notifyUpdate_erases
  · exact notifyUpdate_erases _

theorem heartbeatTimer_erases : Erases (heartbeatTimer silent 3) RvFt.heartbeatTimer := by
  intro w
  have hEnd : Erases (fun w => notifyUpdate silent (w.edit (fun f => { f with lastHbNs := f.monoNs })))
      (fun f => some { f with lastHbNs := f.monoNs }.notifyUpdate) :=
    fun w => notifyUpdate_erases _
  simp only [heartbeatTimer, RvFt.heartbeatTimer, Option.bind_eq_bind, Option.pure_def]
  have hTrim : (if isAccurate (w.ft.expiredDeltaMs w.ft.lastHbNs w.ft.heartbeatMs) = true then
      w.edit (·.trimFtQueue) else w).ft =
      if isAccurate (w.ft.expiredDeltaMs w.ft.lastHbNs w.ft.heartbeatMs) = true then
        w.ft.trimFtQueue else w.ft := by
    split <;> rfl
  rw [← hTrim]
  generalize isAccurate (w.ft.expiredDeltaMs w.ft.lastHbNs w.ft.heartbeatMs) = accurate
  generalize (if accurate = true then w.edit (·.trimFtQueue) else w) = e
  by_cases hPrimary : e.ft.me.state = .primary
  · simp only [if_pos hPrimary]
    exact hEnd _
  · simp only [if_neg hPrimary]
    by_cases hListen : e.ft.me.state ≠ .listen
    · simp only [if_pos hListen]
      refine map_bind_ft ?_ hEnd
      rw [Option.map_map]
      have hTakeover : (e.prepareTakeover silent (setState silent 3) .heartbeat 0).map Watched.ft =
          RvFt.prepareTakeover RvFt.setState .heartbeat 0 e.ft :=
        prepareTakeover_erases (setState_erases 3) .heartbeat 0 e
      cases accurate with
      | true =>
          simp only [if_true]
          rw [← hTakeover, Option.map_map]
          rfl
      | false => rfl
    · simp only [if_neg hListen]
      exact hEnd e

theorem timerCb_erases (w : Watched) (id : Nat) (action : FtAction) :
    (w.timerCb silent 3 id action).map (fun r => (r.1.ft, r.2)) = w.ft.timerCb id action := by
  have hPair : ∀ (x : Option Watched) (f : Option RvFt) (again : Bool), x.map Watched.ft = f →
      (x.bind (fun w => some (w, again))).map (fun r => (r.1.ft, r.2)) =
        f.bind (fun f => some (f, again)) := by
    rintro x f again rfl
    cases x <;> rfl
  simp only [timerCb, RvFt.timerCb, Option.bind_eq_bind, Option.pure_def]
  split
  · rfl
  · cases action with
    | activate => exact hPair _ _ _ (takeoverTimer_erases .activate _ w)
    | prepare => exact hPair _ _ _ (takeoverTimer_erases .prepare _ w)
    | heartbeat => exact hPair _ _ _ (heartbeatTimer_erases w)
    | join => exact hPair _ _ _ (setState_erases 3 .join _)
    | finish => exact hPair _ _ _ (setState_erases 3 .finish _)
    | listen => rfl
    | deactivate => rfl
    | update => rfl

theorem fire_erases (id : Nat) (action : FtAction) :
    Erases (fire silent 3 id action) (fun f => f.fire id action) := by
  intro w
  simp only [fire, RvFt.fire, Option.bind_eq_bind, Option.pure_def]
  split
  · let fired : Watched := { w.edit (fun f => { f with
      timers := f.timers.erase (id, action) }) with firing := some (id, action) }
    have hCb := timerCb_erases fired id action
    change _ = (RvFt.timerCb fired.ft id action).bind _
    rw [← hCb]
    change (Option.bind (fired.timerCb silent 3 id action) _).map _ = _
    cases fired.timerCb silent 3 id action with
    | none => rfl
    | some r =>
        obtain ⟨g, again⟩ := r
        cases again <;> rfl
  · rfl

theorem checkRank_erases : Erases (checkRank silent 3) RvFt.checkRank := by
  intro w
  simp only [checkRank, RvFt.checkRank, Option.pure_def]
  split
  · split
    · exact setState_erases 3 .secondary _
    · exact setState_erases 3 .primary _
  · split
    · split
      · exact setState_erases 3 .secondary _
      · rfl
    · rfl

theorem notifyAndAck_erases (m : FtPeerMsg) :
    Erases (fun w => (notifyUpdate silent w).bind (fun w => some (w.edit (·.ackAnnounce m))))
      (fun f => some (f.notifyUpdate.ackAnnounce m)) := by
  intro w
  have hAck : Erases (fun w => some (w.edit (·.ackAnnounce m)))
      (fun f => some (f.ackAnnounce m)) := fun _ => rfl
  exact map_bind_ft (notifyUpdate_erases w) hAck

theorem checkAndAck_erases (m : FtPeerMsg) : Erases (checkAndAck silent 3 m)
    (fun f => f.checkRank.bind (fun f => some (f.notifyUpdate.ackAnnounce m))) :=
  fun w => map_bind_ft (checkRank_erases w) (notifyAndAck_erases m)

theorem onRecorded_erases (m : FtPeerMsg) (p : PeerRef) : Erases (onRecorded silent 3 m p)
    (fun f => if m.type ≠ .exiting then
        if (f.withGroup (f.group.update p)).me.state = .listen then
          some (f.withGroup (f.group.update p)).notifyUpdate
        else if m.type = .finish then
          if (f.withGroup (f.group.update p)).group.ptr 0 = some p then
            (RvFt.prepareTakeover RvFt.setState .finish m.finTime
              (f.withGroup (f.group.update p))).bind (fun f => some f.notifyUpdate)
          else some (f.withGroup (f.group.update p)).notifyUpdate
        else (f.withGroup (f.group.update p)).checkRank.bind
          (fun f => some (f.notifyUpdate.ackAnnounce m))
      else (f.withGroup (f.group.dropPeer p .finish)).checkRank.bind
        (fun f => some (f.notifyUpdate.ackAnnounce m))) := by
  intro w
  beta_reduce
  unfold onRecorded
  split
  · unfold onAdmitted
    split
    · exact notifyUpdate_erases _
    · split
      · simp only [Option.bind_eq_bind]
        split
        · exact map_bind_ft (prepareTakeover_erases (setState_erases 3) .finish m.finTime _)
            notifyUpdate_erases
        · exact notifyUpdate_erases _
      · exact checkAndAck_erases m _
  · exact checkAndAck_erases m _

theorem dropListener_ft (w : Watched) (m : FtPeerMsg) : (w.dropListener m).ft =
    match w.ft.group.find m.startNs with
    | some p => w.ft.withGroup (w.ft.group.dropPeer p .listen)
    | none => w.ft := by
  unfold dropListener
  cases w.ft.group.find m.startNs <;> rfl

/-- A message that is heard. -/
theorem onPeerMsg_erases (m : FtPeerMsg) :
    Erases (onPeerMsg silent 3 m) (fun f => f.onPeerMsg m) := by
  intro w
  simp only [onPeerMsg, RvFt.onPeerMsg, Option.bind_eq_bind, Option.pure_def]
  obtain ⟨e, hE⟩ : ∃ e, e = w.edit (fun f => { f with lastRcvNs := f.monoNs }.followOldest m) :=
    ⟨_, rfl⟩
  have hReceived : { w.ft with lastRcvNs := w.ft.monoNs }.followOldest m = e.ft := by rw [hE]
  rw [← hE, hReceived]
  simp only [onFollowed, Option.bind_eq_bind, Option.pure_def]
  split
  · refine (notifyAndAck_erases m _).trans ?_
    exact congrArg (fun f : RvFt => some (f.notifyUpdate.ackAnnounce m)) (dropListener_ft e m)
  · cases e.ft.recordPeer m with
    | none => rfl
    | some recorded =>
        cases recorded with
        | none => rfl
        | some found => exact onRecorded_erases m found.2 _

theorem processPub_erases (w : Watched) (pub : EvPublish) :
    (w.processPub silent 3 pub).map (fun r => (r.1.ft, r.2)) = w.ft.processPub pub := by
  simp only [processPub, RvFt.processPub, Option.bind_eq_bind, Option.pure_def]
  split
  · split <;> rfl
  · cases pub.fields.bind (FtFields.peerMsg · pub.reply) with
    | none => rfl
    | some m =>
        simp only
        split
        · rfl
        · rw [show w.ft.onPeerMsg m = _ from (onPeerMsg_erases m w).symm]
          cases w.onPeerMsg silent 3 m <;> rfl

/-- Every call with a listener that calls nothing. -/
theorem dispatch_erases (call : FtCall) :
    Erases (dispatch silent 3 call) (fun f => f.dispatch call) := by
  intro w
  cases call with
  | start param => exact start_erases param w
  | stop => exact stop_erases w
  | activate => exact activate_erases w
  | deactivate => exact deactivate_erases w
  | timer id action => exact fire_erases id action w
  | publish pub =>
      simp only [dispatch, RvFt.dispatch, Option.bind_eq_bind, Option.pure_def]
      rw [← processPub_erases w pub]
      cases w.processPub silent 3 pub <;> rfl

end Watched

/-- A call, and what is marked in it. -/
def RvFt.watch (f : RvFt) (input : FtInput) : Option (RvFt × List FtMark) := do
  let w ← Watched.dispatch Watched.silent 3 input.call { ft := f.atTime input.nowNs input.monoNs }
  return (w.ft, w.marks)

/-- One instance from its first `start` on, with what is marked in each call. -/
def watchedSystem : Transition.System RvFt FtInput FtMark where
  init := ftSystem.init
  step := fun f input marks g => f.monoNs ≤ input.monoNs ∧ f.watch input = some (g, marks)

/-- The first `start`, and what is marked in it. -/
def watchedStart (client : EvRvClient) (nowNs monoNs : Nat) (param : FtParameters) :
    Option (RvFt × List FtMark) :=
  (Watched.start Watched.silent 3 param { ft := { client, nowNs, monoNs } }).map
    (fun w => (w.ft, w.marks))

theorem watch_eq_some {f g : RvFt} {input : FtInput} {marks : List FtMark}
    (h : f.watch input = some (g, marks)) : ∃ w : Watched,
      Watched.dispatch Watched.silent 3 input.call { ft := f.atTime input.nowNs input.monoNs } =
        some w ∧ w.ft = g ∧ w.marks = marks := by
  simp only [RvFt.watch, Option.bind_eq_bind, Option.bind_eq_some_iff, Option.pure_def,
    Option.some.injEq, Prod.mk.injEq] at h
  exact h

/-- The watched steps are the steps of the instance. -/
theorem watchedSystem_step {f g : RvFt} {input : FtInput} {marks : List FtMark}
    (h : watchedSystem.step f input marks g) : ftSystem.step f input g.out g := by
  obtain ⟨hTime, hWatch⟩ := h
  obtain ⟨w, hCall, rfl, -⟩ := watch_eq_some hWatch
  have hPlain := Watched.dispatch_erases input.call { ft := f.atTime input.nowNs input.monoNs }
  rw [hCall] at hPlain
  change some w.ft = (f.atTime input.nowNs input.monoNs).dispatch input.call at hPlain
  refine ⟨hTime, ?_⟩
  simp [RvFt.handle, ← hPlain]

/-- Every step of the plain system is a watched one. -/
theorem watchedSystem_exists {f g : RvFt} {input : FtInput} {emitted : List FtOut}
    (h : ftSystem.step f input emitted g) : ∃ marks, watchedSystem.step f input marks g := by
  obtain ⟨hTime, hDispatch, -⟩ := step_dispatch h
  have hPlain := Watched.dispatch_erases input.call { ft := f.atTime input.nowNs input.monoNs }
  cases hCall : Watched.dispatch Watched.silent 3 input.call
      { ft := f.atTime input.nowNs input.monoNs } with
  | none =>
      rw [hCall] at hPlain
      change none = (f.atTime input.nowNs input.monoNs).dispatch input.call at hPlain
      rw [hDispatch] at hPlain
      cases hPlain
  | some w =>
      rw [hCall] at hPlain
      change some w.ft = (f.atTime input.nowNs input.monoNs).dispatch input.call at hPlain
      rw [hDispatch] at hPlain
      refine ⟨w.marks, hTime, ?_⟩
      simp [RvFt.watch, hCall, Option.some.inj hPlain]

/-- The watched system reaches the states that the instance reaches. -/
theorem watchedSystem_reachable {f : RvFt} :
    watchedSystem.Reachable f ↔ ftSystem.Reachable f := by
  constructor
  · intro h
    refine h.invariant ?_ ?_
    · exact fun _ hInit => Transition.System.reachable_of_init hInit
    · exact fun _ _ _ _ hReach hStep => hReach.step (watchedSystem_step hStep)
  · intro h
    refine h.invariant ?_ ?_
    · intro g hInit
      have hStart : watchedSystem.init g := hInit
      exact Transition.System.reachable_of_init hStart
    · intro _ _ _ _ hReach hStep
      obtain ⟨marks, hWatched⟩ := watchedSystem_exists hStep
      exact hReach.step hWatched

end Sassrv.Ft
