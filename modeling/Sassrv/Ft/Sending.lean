import Sassrv.Ft.Member
import Sassrv.Ft.Queue

/-! Who sends: in every state, sound or not, a call other than `start` leaves
the start time and the weight of `me` alone, and what it publishes carries
both. -/
namespace Sassrv.Ft
namespace FtGroup

/-- No entry of the index refers to `me`. -/
def Foreign (g : FtGroup) : Prop := ∀ s r, (s, r) ∈ g.peerHt → r ≠ .me

/-- The group after a change that keeps who `me` is. -/
structure Kin (g h : FtGroup) : Prop where
  foreign : h.Foreign
  startNs : (h.peer .me).startNs = (g.peer .me).startNs
  weight : (h.peer .me).weight = (g.peer .me).weight

theorem Kin.refl {g : FtGroup} (h : g.Foreign) : g.Kin g := ⟨h, rfl, rfl⟩

theorem Kin.trans {f g h : FtGroup} (left : f.Kin g) (right : g.Kin h) : f.Kin h :=
  ⟨right.foreign, right.startNs.trans left.startNs, right.weight.trans left.weight⟩

theorem SameTable.kin {g h : FtGroup} (same : g.SameTable h) (hForeign : g.Foreign) : g.Kin h := by
  refine ⟨?_, (same.peer .me).startNs, (same.peer .me).weight⟩
  unfold Foreign
  rw [same.peerHt]
  exact hForeign

theorem insert_sameTable (g : FtGroup) (p : PeerRef) : g.SameTable (g.insert p) :=
  ⟨(g.reorder_sameTable g.live p).peer, rfl, rfl, rfl⟩

theorem closeGap_sameTable (g : FtGroup) (j : Nat) : g.SameTable (g.closeGap j) :=
  ⟨fun _ => renumber_same _ _ _ _, rfl, rfl, rfl⟩

theorem update_sameTable (g : FtGroup) (p : PeerRef) : g.SameTable (g.update p) := by
  unfold FtGroup.update
  split
  · exact insert_sameTable g p
  · split
    · exact SameTable.refl g
    · have hClosed := closeGap_sameTable g (g.getPos p)
      have hAll := hClosed.trans (reorder_sameTable _ (g.closeGap (g.getPos p)).live p)
      exact ⟨hAll.peer, hAll.peerHt, hAll.ftFree, hAll.stateCount⟩

theorem remove_sameTable (g : FtGroup) (p : PeerRef) : g.SameTable (g.remove p) := by
  unfold remove
  split
  · exact SameTable.refl g
  · have hClosed := closeGap_sameTable g (g.getPos p)
    refine ⟨fun r => (hClosed.peer r).trans ?_, rfl, rfl, rfl⟩
    simp only [FtGroup.modify]
    by_cases hr : r = p
    · rw [hr, Function.update_self]
      exact ⟨0, rfl⟩
    · rw [Function.update_of_ne hr]
      exact FtPeer.Same.refl _

/-- The states of the group may change. -/
theorem Kin.updateState {g : FtGroup} (h : g.Foreign) (p : PeerRef) (state : FtState) :
    g.Kin (g.updateState p state) := by
  refine ⟨h, ?_, ?_⟩
  · by_cases hp : p = .me
    · simp [FtGroup.updateState, FtGroup.modify, hp]
    · simp [FtGroup.updateState, FtGroup.modify, Function.update_of_ne (Ne.symm hp)]
  · by_cases hp : p = .me
    · simp [FtGroup.updateState, FtGroup.modify, hp]
    · simp [FtGroup.updateState, FtGroup.modify, Function.update_of_ne (Ne.symm hp)]

theorem Kin.restate {g : FtGroup} (h : g.Foreign) (state : FtState) : g.Kin (g.restate state) := by
  have hUpdated := Kin.updateState h .me state
  unfold FtGroup.restate
  split
  · split
    · exact hUpdated.trans ((update_sameTable _ .me).kin hUpdated.foreign)
    · exact hUpdated
  · exact Kin.refl h

/-- A peer may be dropped. -/
theorem Kin.dropPeer {g : FtGroup} (h : g.Foreign) (p : PeerRef) (state : FtState) :
    g.Kin (g.dropPeer p state) := by
  have hUpdated := Kin.updateState h p state
  have hRemoved := hUpdated.trans ((remove_sameTable _ p).kin hUpdated.foreign)
  refine ⟨?_, hRemoved.startNs, hRemoved.weight⟩
  intro s r hMem
  exact hRemoved.foreign s r (List.mem_of_mem_filter hMem)

/-- A change of one slot. -/
theorem Kin.modify {g : FtGroup} (h : g.Foreign) {p : PeerRef} (hp : p ≠ .me)
    (change : FtPeer → FtPeer) : g.Kin (g.modify p change) := by
  have hMe : (g.modify p change).peer .me = g.peer .me := Function.update_of_ne hp.symm _ _
  exact ⟨h, by rw [hMe], by rw [hMe]⟩

/-- What a peer says of itself may be taken down. -/
theorem Kin.set {g : FtGroup} (h : g.Foreign) {p : PeerRef} (hp : p ≠ .me) (m : FtPeerMsg) :
    g.Kin (g.set p m) :=
  have hModified := Kin.modify h hp (fun x => { x with
    startNs := m.startNs
    weight := m.weight
    oldState := x.state
    state := m.state
    user := m.user
    syncInbox := m.syncInbox })
  ⟨hModified.foreign, hModified.startNs, hModified.weight⟩

theorem makePeer_ne_me {chain rest : List FtPeerFree} {p : PeerRef}
    (h : FtPeerFree.makePeer chain = some (rest, p)) : p ≠ .me := by
  induction chain generalizing rest with
  | nil => cases h
  | cons f next ih =>
      simp only [FtPeerFree.makePeer] at h
      split at h
      · cases h
        simp
      · obtain ⟨⟨made, q⟩, hNext, hEq⟩ := Option.map_eq_some_iff.mp h
        cases hEq
        exact ih hNext

theorem find_ne_me {g : FtGroup} (h : g.Foreign) {s : Nat} {p : PeerRef} (hFind : g.find s = some p) :
    p ≠ .me := by
  obtain ⟨l1, l2, hTable, -⟩ := List.lookup_eq_some_iff.mp hFind
  exact h s p (by rw [hTable]; simp)

end FtGroup

namespace RvFt
open FtGroup

/-- What a call publishes carries the start time and the weight of `me`. -/
structure Sends (f g : RvFt) : Prop extends Kin f.group g.group where
  sent : ∀ dest m, .publish dest m ∈ g.out → .publish dest m ∈ f.out ∨
    (m.startNs = f.me.startNs ∧ m.weight = f.me.weight)

theorem Sends.trans {f g h : RvFt} (left : f.Sends g) (right : g.Sends h) : f.Sends h := by
  refine ⟨left.toKin.trans right.toKin, ?_⟩
  intro dest m hMem
  rcases right.sent dest m hMem with hOld | ⟨hStart, hWeight⟩
  · exact left.sent dest m hOld
  · exact Or.inr ⟨hStart.trans left.startNs, hWeight.trans left.weight⟩

/-- Nothing is published. -/
theorem Sends.silent {f g : RvFt} (hKin : f.group.Kin g.group) (hOut : g.out = f.out) :
    f.Sends g := by
  refine ⟨hKin, fun dest m hMem => Or.inl ?_⟩
  rw [hOut] at hMem
  exact hMem

theorem Sends.refl {f : RvFt} (h : f.group.Foreign) : f.Sends f := .silent (.refl h) rfl

theorem Sends.withGroup {f : RvFt} {group : FtGroup} (h : f.group.Kin group) :
    f.Sends (f.withGroup group) := .silent h rfl

/-- Changes of other fields. -/
theorem Sends.same {f g : RvFt} (h : f.group.Foreign) (hGroup : g.group = f.group)
    (hOut : g.out = f.out) : f.Sends g := by
  refine .silent ?_ hOut
  rw [hGroup]
  exact .refl h

/-- A message that carries the member's own start time and weight may be sent. -/
theorem Sends.emit {f : RvFt} (h : f.group.Foreign) {event : FtOut}
    (hEvent : ∀ dest m, event = .publish dest m →
      m.startNs = f.me.startNs ∧ m.weight = f.me.weight) : f.Sends (f.emit event) := by
  refine ⟨.refl h, ?_⟩
  intro dest m hMem
  rcases List.mem_append.mp hMem with hOld | hNew
  · exact Or.inl hOld
  · exact Or.inr (hEvent dest m (List.mem_singleton.mp hNew).symm)

theorem Sends.sendMsg {f : RvFt} (h : f.group.Foreign) (type : FtMsgType) (dest : Text) :
    f.Sends (f.sendMsg type dest) := by
  apply Sends.emit h
  intro _ _ hEq
  cases hEq
  exact ⟨rfl, rfl⟩

theorem Sends.notifyChange {f : RvFt} (h : f.group.Foreign) (action : FtAction) :
    f.Sends (f.notifyChange action) := by
  have hEmit : f.Sends (f.emit (.onFtChange action)) :=
    Sends.emit h (fun _ _ hEq => by cases hEq)
  exact hEmit.trans (.same h rfl rfl)

theorem Sends.notifyUpdate {f : RvFt} (h : f.group.Foreign) : f.Sends f.notifyUpdate := by
  unfold RvFt.notifyUpdate
  split
  · exact Sends.notifyChange h .update
  · exact Sends.refl h

theorem Sends.ackAnnounce {f : RvFt} (h : f.group.Foreign) (m : FtPeerMsg) :
    f.Sends (f.ackAnnounce m) := by
  unfold RvFt.ackAnnounce
  split
  · exact Sends.sendMsg h .ack m.reply
  · exact Sends.refl h

theorem Sends.cancelTimer {f : RvFt} (h : f.group.Foreign) (action : FtAction) :
    f.Sends (f.cancelTimer action) := by
  unfold RvFt.cancelTimer
  split <;> exact .same h rfl rfl

theorem Sends.stopTimers {f : RvFt} (h : f.group.Foreign) : f.Sends f.stopTimers := by
  have hJoin := Sends.cancelTimer h .join
  have hActivate := hJoin.trans (.cancelTimer hJoin.foreign .activate)
  have hPrepare := hActivate.trans (.cancelTimer hActivate.foreign .prepare)
  exact hPrepare.trans (.cancelTimer hPrepare.foreign .finish)

theorem Sends.finish {f : RvFt} (h : f.group.Foreign) : f.Sends f.finish := by
  unfold RvFt.finish
  simp only
  have hSend : f.Sends (if f.me.state ≠ .listen then f.sendMsg .exiting [] else f) := by
    split
    · exact Sends.sendMsg h .exiting []
    · exact Sends.refl h
  have hBeat := hSend.trans (.cancelTimer hSend.foreign .heartbeat)
  have hStop := hBeat.trans (.stopTimers hBeat.foreign)
  generalize ((if f.me.state ≠ .listen then f.sendMsg .exiting [] else f).cancelTimer
    .heartbeat).stopTimers = e at hStop ⊢
  have hEmit : e.Sends (e.emit (.unsubscribe e.ftSub)) :=
    Sends.emit hStop.foreign (fun _ _ hEq => by cases hEq)
  exact (hStop.trans hEmit).trans (.notifyChange hEmit.foreign .finish)

theorem Sends.setPrepareTimer {f : RvFt} (h : f.group.Foreign) (p : PeerRef) :
    f.Sends (f.setPrepareTimer p) := by
  unfold RvFt.setPrepareTimer
  simp only
  split
  · exact Sends.refl h
  · have hCancel := Sends.cancelTimer h .prepare
    exact hCancel.trans (.same hCancel.foreign rfl rfl)

theorem Sends.setActivateTimer {f : RvFt} (h : f.group.Foreign) (p : PeerRef) :
    f.Sends (f.setActivateTimer p) := by
  unfold RvFt.setActivateTimer
  simp only
  split
  · exact Sends.refl h
  · have hCancel := Sends.cancelTimer h .activate
    exact hCancel.trans (.same hCancel.foreign rfl rfl)

theorem Sends.armTakeover {f : RvFt} (h : f.group.Foreign) (p : PeerRef) (action : FtAction)
    (originNs : Nat) : f.Sends (f.armTakeover p action originNs) := by
  unfold RvFt.armTakeover
  split
  · exact Sends.setPrepareTimer h p
  · simp only
    split
    · have hNotify := Sends.notifyChange h .prepare
      exact hNotify.trans (.setActivateTimer hNotify.foreign p)
    · exact Sends.setActivateTimer h p

/-- The expiry of peers. -/
theorem trimLoop_sends {i : Nat} {f : RvFt} (h : f.group.Foreign) : f.Sends (trimLoop i f) := by
  induction i generalizing f with
  | zero => exact Sends.refl h
  | succ i ih =>
      simp only [trimLoop]
      split
      · exact Sends.refl h
      · rename_i p _
        split
        · have hDrop : f.Sends (f.withGroup (f.group.dropPeer p .finish)) :=
            .withGroup (.dropPeer h p .finish)
          exact hDrop.trans (ih hDrop.foreign)
        · exact ih h

/-- A function into the optional states that only sends for `me`. -/
def Honest (step : RvFt → Option RvFt) : Prop :=
  ∀ f g, f.group.Foreign → step f = some g → f.Sends g

/-- A function into the optional states, then one into the states. -/
theorem Honest.bind {step : RvFt → Option RvFt} (hStep : Honest step) {rest : RvFt → RvFt}
    (hRest : ∀ e : RvFt, e.group.Foreign → e.Sends (rest e)) {f g : RvFt} (h : f.group.Foreign)
    (hCall : ((step f).bind fun e => some (rest e)) = some g) : f.Sends g := by
  obtain ⟨e, hFirst, hEq⟩ := Option.bind_eq_some_iff.mp hCall
  cases hEq
  have hSends := hStep f e h hFirst
  exact hSends.trans (hRest e hSends.foreign)

/-- A takeover, around any honest `set_state`. -/
theorem prepareTakeover_sends {setState : FtState → RvFt → Option RvFt}
    (hSet : ∀ state, Honest (setState state)) (action : FtAction) (deadline : Nat) :
    Honest (prepareTakeover setState action deadline) := by
  intro f g h hCall
  simp only [prepareTakeover, Option.bind_eq_bind, Option.bind_eq_some_iff, Option.pure_def] at hCall
  obtain ⟨p, -, hCall⟩ := hCall
  split at hCall
  · split at hCall
    · split at hCall
      · exact (hSet .primary).bind (fun _ => Sends.notifyUpdate) h hCall
      · exact (hSet .secondary).bind (fun _ => Sends.notifyUpdate) h hCall
    · cases hCall
      exact Sends.armTakeover h p action f.startMono
  · split at hCall
    · cases hCall
      exact Sends.refl h
    · split at hCall
      · cases hCall
        have hFirst := Sends.cancelTimer h .prepare
        have hCancel := hFirst.trans (.cancelTimer hFirst.foreign .activate)
        split
        · exact hCancel.trans (.notifyChange hCancel.foreign .prepare)
        · exact hCancel
      · cases hCall
        exact Sends.armTakeover h p action _

theorem Sends.enterState {f : RvFt} (h : f.group.Foreign) (state : FtState) :
    f.Sends (f.enterState state) := by
  unfold RvFt.enterState
  split
  · have hRestate : f.Sends (f.withGroup (f.group.restate state)) := .withGroup (.restate h state)
    exact hRestate.trans (.same hRestate.foreign rfl rfl)
  · exact Sends.refl h

/-- `set_state` and the takeovers within it, by induction on the nesting. -/
theorem setStateWithin_sends (depth : Nat) (state : FtState) :
    Honest (setStateWithin depth state) := by
  induction depth generalizing state with
  | zero => exact fun _ _ _ hCall => by cases hCall
  | succ depth ih =>
      intro f g h hCall
      have hEnter := Sends.enterState h state
      simp only [setStateWithin] at hCall
      generalize f.enterState state = e at *
      refine hEnter.trans ?_
      have hForeign := hEnter.foreign
      cases state with
      | listen =>
          cases hCall
          exact Sends.sendMsg hForeign .announce []
      | join =>
          have hInsert : e.Sends (e.withGroup (e.group.insert .me)) :=
            .withGroup ((insert_sameTable _ .me).kin hForeign)
          have hSend := hInsert.trans (.sendMsg hInsert.foreign .announce [])
          exact hSend.trans ((prepareTakeover_sends ih .join 0).bind
            (fun _ hf => Sends.notifyChange hf .join) hSend.foreign hCall)
      | primary =>
          cases hCall
          have hStamp : e.Sends { e with activateNs := e.stateNs } := .same hForeign rfl rfl
          have hNotify := hStamp.trans (.notifyChange hStamp.foreign .activate)
          exact hNotify.trans (.sendMsg hNotify.foreign .activate [])
      | secondary =>
          have hSecond : e.Sends (if f.me.state ≠ .secondary then
              (({ e with deactivateNs := e.stateNs }.sendMsg .deactivate []).notifyChange
                .deactivate) else e) := by
            split
            · have hStamp : e.Sends { e with deactivateNs := e.stateNs } := .same hForeign rfl rfl
              have hSend := hStamp.trans (.sendMsg hStamp.foreign .deactivate [])
              exact hSend.trans (.notifyChange hSend.foreign .deactivate)
            · exact Sends.refl hForeign
          exact hSecond.trans (prepareTakeover_sends ih .deactivate 0 _ g hSecond.foreign hCall)
      | finish =>
          cases hCall
          exact Sends.finish hForeign

theorem setState_sends (state : FtState) : Honest (setState state) := setStateWithin_sends 3 state

theorem Sends.startHb {f : RvFt} (h : f.group.Foreign) (hbIval actIval prepIval : Nat) :
    f.Sends (f.startHb hbIval actIval prepIval) := by
  unfold RvFt.startHb
  simp only
  generalize f.hbChanged hbIval actIval prepIval = changed
  have hSet : f.Sends { f with
      heartbeatMs := (f.hbIntervals hbIval actIval prepIval).1
      activateMs := (f.hbIntervals hbIval actIval prepIval).2.1
      prepareMs := (f.hbIntervals hbIval actIval prepIval).2.2 } := .same h rfl rfl
  generalize { f with
    heartbeatMs := (f.hbIntervals hbIval actIval prepIval).1
    activateMs := (f.hbIntervals hbIval actIval prepIval).2.1
    prepareMs := (f.hbIntervals hbIval actIval prepIval).2.2 } = e at hSet ⊢
  have hCancel : e.Sends (if changed then
      ((e.cancelTimer .activate).cancelTimer .prepare).cancelTimer .heartbeat else e) := by
    split
    · have hActivate := Sends.cancelTimer hSet.foreign .activate
      have hPrepare := hActivate.trans (.cancelTimer hActivate.foreign .prepare)
      exact hPrepare.trans (.cancelTimer hPrepare.foreign .heartbeat)
    · exact Sends.refl hSet.foreign
  generalize (if changed then
    ((e.cancelTimer .activate).cancelTimer .prepare).cancelTimer .heartbeat else e) = k at hCancel ⊢
  have hBoth := hSet.trans hCancel
  split
  · exact hBoth
  · exact hBoth.trans (.same hBoth.foreign rfl rfl)

theorem stop_sends : Honest stop := by
  intro f g h hCall
  unfold stop at hCall
  split at hCall
  · exact setState_sends .finish f g h hCall
  · split at hCall
    · cases hCall
      exact Sends.refl h
    · cases hCall
      have hSend := Sends.sendMsg h .finish []
      exact hSend.trans (.same hSend.foreign rfl rfl)

theorem activate_sends : Honest activate := by
  intro f g h hCall
  unfold activate at hCall
  split at hCall
  · have hStamp : f.Sends { f with startMono := f.monoNs } := .same h rfl rfl
    have hCancel := hStamp.trans (.cancelTimer hStamp.foreign .join)
    exact hCancel.trans (setState_sends .join _ g hCancel.foreign hCall)
  · cases hCall
    exact Sends.refl h

theorem deactivate_sends : Honest deactivate := by
  intro f g h hCall
  simp only [deactivate, Option.bind_eq_bind, Option.pure_def] at hCall
  split at hCall
  · have hRemove : f.Sends (f.withGroup (f.group.remove .me)) :=
      .withGroup ((remove_sameTable _ .me).kin h)
    have hStop := hRemove.trans (.stopTimers hRemove.foreign)
    exact hStop.trans ((setState_sends .listen).bind (fun _ hf => Sends.notifyChange hf .listen)
      hStop.foreign hCall)
  · cases hCall
    exact Sends.refl h

theorem takeoverTimer_sends (action : FtAction) (ival : Int) :
    Honest (fun f => f.takeoverTimer action ival) := by
  intro f g h hCall
  simp only [takeoverTimer, Option.bind_eq_bind, Option.pure_def] at hCall
  have hClear : f.Sends { f with timerMask := Function.update f.timerMask action false } :=
    .same h rfl rfl
  generalize { f with timerMask := Function.update f.timerMask action false } = e at hClear hCall
  refine hClear.trans ?_
  split at hCall
  · have hTrim : e.Sends e.trimFtQueue := trimLoop_sends hClear.foreign
    exact hTrim.trans ((prepareTakeover_sends setState_sends action 0).bind
      (fun _ => Sends.notifyUpdate) hTrim.foreign hCall)
  · cases hCall
    exact Sends.notifyUpdate hClear.foreign

theorem heartbeatTimer_sends : Honest heartbeatTimer := by
  intro f g h hCall
  simp only [heartbeatTimer, Option.bind_eq_bind, Option.pure_def] at hCall
  have hEnd : ∀ e : RvFt, e.group.Foreign →
      e.Sends ({ e with lastHbNs := e.monoNs }.notifyUpdate) := by
    intro e he
    have hStamp : e.Sends { e with lastHbNs := e.monoNs } := .same he rfl rfl
    exact hStamp.trans (.notifyUpdate hStamp.foreign)
  generalize isAccurate (f.expiredDeltaMs f.lastHbNs f.heartbeatMs) = accurate at hCall
  have hTrim : f.Sends (if accurate = true then f.trimFtQueue else f) := by
    split
    · exact trimLoop_sends h
    · exact Sends.refl h
  generalize (if accurate = true then f.trimFtQueue else f) = e at hTrim hCall
  refine hTrim.trans ?_
  have hForeign := hTrim.foreign
  split at hCall
  · cases hCall
    have hSend := Sends.sendMsg hForeign .heartbeat []
    exact hSend.trans (hEnd _ hSend.foreign)
  · split at hCall
    · rw [Option.bind_map] at hCall
      have hRest : ∀ k : RvFt, k.group.Foreign → k.Sends
          ({ k.sendMsg .keepalive [] with lastHbNs := k.monoNs }.notifyUpdate) := by
        intro k hk
        have hSend := Sends.sendMsg hk .keepalive []
        exact hSend.trans (hEnd _ hSend.foreign)
      split at hCall
      · exact (prepareTakeover_sends setState_sends .heartbeat 0).bind hRest hForeign hCall
      · cases hCall
        exact hRest e hForeign
    · cases hCall
      exact hEnd e hForeign

theorem timerCb_sends {f g : RvFt} {id : Nat} {action : FtAction} {again : Bool}
    (h : f.group.Foreign) (hCall : f.timerCb id action = some (g, again)) : f.Sends g := by
  simp only [timerCb, Option.bind_eq_bind, Option.pure_def] at hCall
  split at hCall
  · cases hCall
    exact Sends.refl h
  · cases action with
    | activate =>
        obtain ⟨e, hTimer, hEq⟩ := Option.bind_eq_some_iff.mp hCall
        cases hEq
        exact takeoverTimer_sends .activate _ f g h hTimer
    | prepare =>
        obtain ⟨e, hTimer, hEq⟩ := Option.bind_eq_some_iff.mp hCall
        cases hEq
        exact takeoverTimer_sends .prepare _ f g h hTimer
    | heartbeat =>
        obtain ⟨e, hTimer, hEq⟩ := Option.bind_eq_some_iff.mp hCall
        cases hEq
        exact heartbeatTimer_sends f g h hTimer
    | join =>
        obtain ⟨e, hSet, hEq⟩ := Option.bind_eq_some_iff.mp hCall
        cases hEq
        have hClear : f.Sends { f with timerMask := Function.update f.timerMask .join false } :=
          .same h rfl rfl
        exact hClear.trans (setState_sends .join _ g hClear.foreign hSet)
    | finish =>
        obtain ⟨e, hSet, hEq⟩ := Option.bind_eq_some_iff.mp hCall
        cases hEq
        have hClear : f.Sends { f with timerMask := Function.update f.timerMask .finish false } :=
          .same h rfl rfl
        exact hClear.trans (setState_sends .finish _ g hClear.foreign hSet)
    | listen => cases hCall; exact Sends.refl h
    | deactivate => cases hCall; exact Sends.refl h
    | update => cases hCall; exact Sends.refl h

theorem fire_sends (id : Nat) (action : FtAction) : Honest (fun f => f.fire id action) := by
  intro f g h hCall
  simp only [fire, Option.bind_eq_bind, Option.pure_def] at hCall
  split at hCall
  · obtain ⟨⟨e, again⟩, hTimer, hEq⟩ := Option.bind_eq_some_iff.mp hCall
    cases hEq
    have hErase : f.Sends { f with timers := f.timers.erase (id, action) } := .same h rfl rfl
    have hCb := hErase.trans (timerCb_sends hErase.foreign hTimer)
    simp only
    split
    · exact hCb.trans (.same hCb.foreign rfl rfl)
    · exact hCb
  · cases hCall

/-- The sender of a message is recorded in a slot. -/
theorem recordPeer_sends {f g : RvFt} {m : FtPeerMsg} {p : PeerRef} (h : f.group.Foreign)
    (hCall : f.recordPeer m = some (some (g, p))) : f.Sends g := by
  unfold recordPeer at hCall
  split at hCall
  · simp only [Option.bind_eq_bind, Option.pure_def, Option.bind_eq_some_iff] at hCall
    obtain ⟨⟨group, q⟩, hMake, hEq⟩ := hCall
    cases hEq
    simp only [FtGroup.makePeer, Option.bind_eq_bind, Option.pure_def,
      Option.bind_eq_some_iff] at hMake
    obtain ⟨⟨chain, r⟩, hSlot, hEq⟩ := hMake
    cases hEq
    have hp := makePeer_ne_me hSlot
    have hChain : f.group.Kin { f.group with ftFree := chain } := ⟨h, rfl, rfl⟩
    have hClear := hChain.trans (.modify hChain.foreign hp (fun _ => {}))
    have hSet := hClear.trans (.set hClear.foreign hp m)
    have hSample := hSet.trans (.modify hSet.foreign hp
      (fun x => x.accumLatency (latencyNs f.nowNs m.curTime)))
    have hStamp := hSample.trans (.modify hSample.foreign hp
      (fun x => { x with lastRcvNs := f.lastRcvNs }))
    refine .withGroup ⟨?_, hStamp.startNs, hStamp.weight⟩
    intro s r hMem
    rcases List.mem_cons.mp hMem with hNew | hOld
    · cases hNew
      exact hp
    · exact hStamp.foreign s r hOld
  · rename_i q hFind
    split at hCall
    · cases hCall
    · rename_i sampled _
      cases hCall
      have hp := find_ne_me h hFind
      have hSample := Kin.modify h hp (fun _ => sampled)
      have hSet := hSample.trans (.set hSample.foreign hp m)
      exact .withGroup (hSet.trans (.modify hSet.foreign hp
        (fun x => { x with lastRcvNs := f.lastRcvNs })))

theorem checkRank_sends : Honest checkRank := by
  intro f g h hCall
  simp only [checkRank, Option.pure_def] at hCall
  split at hCall
  · split at hCall
    · exact setState_sends .secondary f g h hCall
    · exact setState_sends .primary f g h hCall
  · split at hCall
    · split at hCall
      · exact setState_sends .secondary f g h hCall
      · cases hCall
        exact Sends.refl h
    · cases hCall
      exact Sends.refl h

theorem Sends.followOldest {f : RvFt} (h : f.group.Foreign) (m : FtPeerMsg) :
    f.Sends (f.followOldest m) := by
  unfold RvFt.followOldest
  split
  · have hOldest : f.Sends { f with oldestPeer := m.startNs } := .same h rfl rfl
    exact hOldest.trans (.startHb hOldest.foreign m.hbIval m.actIval m.prepIval)
  · exact Sends.refl h

/-- A message that is heard. -/
theorem onPeerMsg_sends (m : FtPeerMsg) : Honest (fun f => f.onPeerMsg m) := by
  intro f g h hCall
  simp only [onPeerMsg, Option.bind_eq_bind, Option.pure_def] at hCall
  have hEnd : ∀ e : RvFt, e.group.Foreign → e.Sends (e.notifyUpdate.ackAnnounce m) := by
    intro e he
    have hNotify := Sends.notifyUpdate he
    exact hNotify.trans (.ackAnnounce hNotify.foreign m)
  have hStamp : f.Sends { f with lastRcvNs := f.monoNs } := .same h rfl rfl
  have hFollow := hStamp.trans (.followOldest hStamp.foreign m)
  generalize { f with lastRcvNs := f.monoNs }.followOldest m = e at hFollow hCall
  refine hFollow.trans ?_
  have hForeign := hFollow.foreign
  split at hCall
  · cases hCall
    split
    · rename_i p _
      have hDrop : e.Sends (e.withGroup (e.group.dropPeer p .listen)) :=
        .withGroup (.dropPeer hForeign p .listen)
      exact hDrop.trans (hEnd _ hDrop.foreign)
    · exact hEnd e hForeign
  · obtain ⟨recorded, hRecord, hRest⟩ := Option.bind_eq_some_iff.mp hCall
    cases recorded with
    | none =>
        cases hRest
        exact Sends.refl hForeign
    | some found =>
        obtain ⟨k, p⟩ := found
        have hSends := recordPeer_sends hForeign hRecord
        refine hSends.trans ?_
        simp only at hRest
        split at hRest
        · have hUpdate : k.Sends (k.withGroup (k.group.update p)) :=
            .withGroup ((update_sameTable _ p).kin hSends.foreign)
          refine hUpdate.trans ?_
          split at hRest
          · cases hRest
            exact Sends.notifyUpdate hUpdate.foreign
          · split at hRest
            · split at hRest
              · exact (prepareTakeover_sends setState_sends .finish m.finTime).bind
                  (fun _ => Sends.notifyUpdate) hUpdate.foreign hRest
              · cases hRest
                exact Sends.notifyUpdate hUpdate.foreign
            · exact checkRank_sends.bind hEnd hUpdate.foreign hRest
        · have hDrop : k.Sends (k.withGroup (k.group.dropPeer p .finish)) :=
            .withGroup (.dropPeer hSends.foreign p .finish)
          exact hDrop.trans (checkRank_sends.bind hEnd hDrop.foreign hRest)

theorem processPub_sends {f g : RvFt} {pub : EvPublish} {handled : Bool} (h : f.group.Foreign)
    (hCall : f.processPub pub = some (g, handled)) : f.Sends g := by
  simp only [processPub, Option.bind_eq_bind, Option.pure_def] at hCall
  split at hCall
  · split at hCall
    · cases hCall
      exact Sends.emit h (fun _ _ hEq => by cases hEq)
    · cases hCall
      exact Sends.refl h
  · split at hCall
    · cases hCall
      exact Sends.refl h
    · rename_i m _
      split at hCall
      · cases hCall
        exact Sends.refl h
      · obtain ⟨e, hMsg, hEq⟩ := Option.bind_eq_some_iff.mp hCall
        cases hEq
        exact onPeerMsg_sends m f g h hMsg

/-- In every state, what a call publishes is sent for `me`. -/
theorem dispatch_sends {f g : RvFt} {call : FtCall} (h : f.group.Foreign)
    (hCall : f.dispatch call = some g) (hStart : ∀ param, call ≠ .start param) : f.Sends g := by
  cases call with
  | start param => exact absurd rfl (hStart param)
  | stop => exact stop_sends f g h hCall
  | activate => exact activate_sends f g h hCall
  | deactivate => exact deactivate_sends f g h hCall
  | timer id action => exact fire_sends id action f g h hCall
  | publish pub =>
      simp only [dispatch, Option.bind_eq_bind, Option.pure_def] at hCall
      obtain ⟨⟨e, handled⟩, hPub, hEq⟩ := Option.bind_eq_some_iff.mp hCall
      cases hEq
      exact processPub_sends h hPub

/-- The group after `start` has set `me` up. -/
def renewed (g : FtGroup) (me : FtPeer) : FtGroup :=
  ({ g with stateCount := {} }.modify .me (fun _ => me)).updateState .me .listen

theorem renewed_me (g : FtGroup) (me : FtPeer) :
    (renewed g me).peer .me = { me with oldState := me.state, state := .listen } := by
  simp [renewed, updateState, FtGroup.modify]

theorem renewed_peer (g : FtGroup) (me : FtPeer) {r : PeerRef} (hr : r ≠ .me) :
    (renewed g me).peer r = g.peer r := by
  simp [renewed, updateState, FtGroup.modify, Function.update_of_ne hr]

/-- `start` up to the subscription. -/
def prepared (f : RvFt) (param : FtParameters) : RvFt :=
  RvFt.emit
    { f with
      group := renewed f.group
        { startNs := f.nowNs, weight := param.weight, user := param.user.take 63 }
      tid := f.nowNs
      stateNs := f.monoNs
      startMono := f.monoNs
      joinMs := param.joinMs
      heartbeatMs := param.heartbeatMs
      activateMs := param.activateMs
      prepareMs := param.prepareMs
      finishMs := param.finishMs
      inboxNum := param.inboxNum
      syncInboxNum := param.syncInboxNum
      syncInbox := f.client.makeInbox param.syncInboxNum
      ftSub := param.ftSub.take 63 } (.subscribe (param.ftSub.take 63))

theorem start_eq (f : RvFt) (param : FtParameters) : f.start param =
    ((if (f.prepared param).joinMs ≠ 0 then (f.prepared param).addTimer .join
      else f.prepared param).startHb param.heartbeatMs param.activateMs param.prepareMs
    |>.setState .listen).bind (fun g => some (g.notifyChange .listen)) := rfl

theorem prepared_me (f : RvFt) (param : FtParameters) : (f.prepared param).me =
    { startNs := f.nowNs, weight := param.weight, user := param.user.take 63 } :=
  renewed_me f.group _

/-- `start` takes a new start time and the weight of the parameters, and
announces `me` under them. -/
theorem start_sends {f g : RvFt} {param : FtParameters} (h : f.group.Foreign)
    (hCall : f.start param = some g) : (f.prepared param).Sends g := by
  rw [start_eq] at hCall
  have hForeign : (f.prepared param).group.Foreign := h
  have hArmed : (f.prepared param).Sends (if (f.prepared param).joinMs ≠ 0 then
      (f.prepared param).addTimer .join else f.prepared param) := by
    split <;> exact .same hForeign rfl rfl
  have hBeat := hArmed.trans
    (.startHb hArmed.foreign param.heartbeatMs param.activateMs param.prepareMs)
  exact hBeat.trans ((setState_sends .listen).bind (fun _ hf => Sends.notifyChange hf .listen)
    hBeat.foreign hCall)

end RvFt

end Sassrv.Ft
