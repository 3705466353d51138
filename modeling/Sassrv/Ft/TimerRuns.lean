import Sassrv.Ft.Bookkeeping
import Sassrv.Ft.Messages
import Sassrv.Ft.Runs

/-! The timer mask over whole runs with a listener that calls back: messages,
`start`, and the calls of the system. -/
namespace Sassrv.Ft
open Transition FtGroup

namespace RvFt

/-- Timers that may be set without being armed, until they are cancelled. -/
def Loose (loose : List FtAction) (f : RvFt) : Prop :=
  ∀ a, f.Settles false a ∨ (a ∈ loose ∧ f.timers.count (f.tid, a) = 0)

theorem Loose.cancelTimer {action : FtAction} {loose : List FtAction} {f : RvFt}
    (h : f.Loose (action :: loose)) : (f.cancelTimer action).Loose loose := by
  intro a
  by_cases ha : a = action
  · subst ha
    refine Or.inl (cancelTimer_settles false (fun hClear => ?_))
    rcases h a with hSettles | ⟨-, hCount⟩
    · rw [hSettles.1, hClear]
      simp
    · exact hCount
  · have hCount : (f.cancelTimer action).timers.count ((f.cancelTimer action).tid, a) =
        f.timers.count (f.tid, a) := by
      rw [cancelTimer_tid]
      exact cancelTimer_count_other f ha
    rcases h a with hSettles | ⟨hMem, hNone⟩
    · exact Or.inl (hSettles.same hCount (cancelTimer_mask_other f ha))
    · exact Or.inr ⟨(List.mem_cons.mp hMem).resolve_left ha, hCount.trans hNone⟩

/-- The timers that `start_hb` cancels when it changes the intervals. -/
def hbTimers : List FtAction := [.activate, .prepare, .heartbeat]

/-- `start_hb` leaves the mask in agreement with the timers. -/
theorem startHb_agrees {f : RvFt} {hbIval actIval prepIval : Nat}
    (h : f.Loose (if f.hbChanged hbIval actIval prepIval then hbTimers else [])) :
    (f.startHb hbIval actIval prepIval).Agrees false := by
  have hArm : ∀ e : RvFt, e.Loose [] → RvFt.Agrees false (if e.timerMask .heartbeat then e
      else { e.addTimer .heartbeat with lastHbNs := e.monoNs }) := by
    intro e he
    have hAgrees : e.Agrees false := fun a => (he a).resolve_right (by simp)
    split
    · exact hAgrees
    · rename_i hClear
      have hGone : e.timers.count (e.tid, .heartbeat) = 0 := by
        rw [(hAgrees .heartbeat).1, if_neg (fun hBoth => hClear hBoth.1)]
      have hTimed : FtAction.heartbeat.Timed := Or.inl (Or.inr (Or.inr (Or.inr rfl)))
      have hAdded := addTimer_agrees (fun a _ => hAgrees a) hGone hTimed (by simp)
      exact hAdded
  refine hArm _ ?_
  split
  · rename_i hChanged
    rw [if_pos hChanged] at h
    have hLoose : Loose hbTimers { f with
        heartbeatMs := (f.hbIntervals hbIval actIval prepIval).1
        activateMs := (f.hbIntervals hbIval actIval prepIval).2.1
        prepareMs := (f.hbIntervals hbIval actIval prepIval).2.2 } := h
    exact hLoose.cancelTimer.cancelTimer.cancelTimer
  · rename_i hSame
    rw [if_neg hSame] at h
    exact h

theorem startHb_alien (f : RvFt) (hbIval actIval prepIval : Nat) :
    (f.startHb hbIval actIval prepIval).tid = f.tid ∧
      f.Alien (f.startHb hbIval actIval prepIval) := by
  have hArm : ∀ e : RvFt, (if e.timerMask .heartbeat then e
      else { e.addTimer .heartbeat with lastHbNs := e.monoNs }).tid = e.tid ∧
        e.Alien (if e.timerMask .heartbeat then e
          else { e.addTimer .heartbeat with lastHbNs := e.monoNs }) := by
    intro e
    split
    · exact ⟨rfl, Alien.refl e⟩
    · exact ⟨rfl, addTimer_alien e .heartbeat⟩
  have hCancel : ∀ e : RvFt, (((e.cancelTimer .activate).cancelTimer .prepare).cancelTimer
      .heartbeat).tid = e.tid ∧
        e.Alien (((e.cancelTimer .activate).cancelTimer .prepare).cancelTimer .heartbeat) := by
    intro e
    refine ⟨by simp only [cancelTimer_tid], ?_⟩
    have hFirst := (cancelTimer_alien e .activate).trans
      (cancelTimer_alien (e.cancelTimer .activate) .prepare) (cancelTimer_tid e .activate)
    exact hFirst.trans (cancelTimer_alien _ .heartbeat) (by simp only [cancelTimer_tid])
  obtain ⟨e, hEq, hTid, hAlien⟩ : ∃ e : RvFt, f.startHb hbIval actIval prepIval =
      (if e.timerMask .heartbeat then e
        else { e.addTimer .heartbeat with lastHbNs := e.monoNs }) ∧ e.tid = f.tid ∧ f.Alien e := by
    refine ⟨_, rfl, ?_⟩
    split
    · exact hCancel { f with
        heartbeatMs := (f.hbIntervals hbIval actIval prepIval).1
        activateMs := (f.hbIntervals hbIval actIval prepIval).2.1
        prepareMs := (f.hbIntervals hbIval actIval prepIval).2.2 }
    · exact ⟨rfl, Alien.refl f⟩
  rw [hEq]
  exact ⟨(hArm e).1.trans hTid, hAlien.trans (hArm e).2 hTid⟩

/-- `start` sets up a bit anew. -/
def Renews (f : RvFt) (param : FtParameters) (a : FtAction) : Prop :=
  (a = .join ∧ param.joinMs ≠ 0) ∨
  (a ∈ hbTimers ∧ (f.prepared param).hbChanged param.heartbeatMs param.activateMs
    param.prepareMs = true)

/-- A start that takes a new id and sets up anew every bit that is set. -/
def StartsClean (f : RvFt) (param : FtParameters) : Prop :=
  (∀ t ∈ f.timers, t.1 ≠ f.nowNs) ∧ ∀ a, f.timerMask a = true → f.Renews param a

/-- The timers after `start` has armed the join timer. -/
theorem StartsClean.loose {f : RvFt} {param : FtParameters} (h : f.StartsClean param) {e : RvFt}
    (hJoined : e = if (f.prepared param).joinMs ≠ 0 then (f.prepared param).addTimer .join
      else f.prepared param) :
    e.Loose (if e.hbChanged param.heartbeatMs param.activateMs param.prepareMs then hbTimers
      else []) := by
  have hNone : ∀ a, f.timers.count (f.nowNs, a) = 0 := by
    intro a
    rw [List.count_eq_zero]
    exact fun hMem => h.1 _ hMem rfl
  have hChanged : e.hbChanged param.heartbeatMs param.activateMs param.prepareMs =
      (f.prepared param).hbChanged param.heartbeatMs param.activateMs param.prepareMs := by
    rw [hJoined]
    split <;> rfl
  have hJoin : e.Settles false .join := by
    rw [hJoined]
    split
    · refine ⟨?_, fun _ => Or.inl (Or.inr (Or.inr (Or.inl rfl)))⟩
      have hOne : (f.timers ++ [(f.nowNs, FtAction.join)]).count (f.nowNs, .join) = 1 := by
        simp [List.count_append, hNone]
      refine hOne.trans ?_
      simp [addTimer]
    · rename_i hNever
      have hClear : f.timerMask .join ≠ true := by
        intro hSet
        rcases h.2 .join hSet with hJoin | hBeat
        · exact hNever hJoin.2
        · simp [hbTimers] at hBeat
      exact ⟨(hNone .join).trans (if_neg (fun hBoth => hClear hBoth.1)).symm,
        fun hSet => absurd hSet hClear⟩
  intro a
  by_cases ha : a = .join
  · rw [ha]
    exact Or.inl hJoin
  · have hFields : e.timers.count (e.tid, a) = 0 ∧ e.timerMask a = f.timerMask a := by
      rw [hJoined]
      split
      · exact ⟨(addTimer_count_other (f.prepared param) ha).trans (hNone a),
          Function.update_of_ne ha _ _⟩
      · exact ⟨hNone a, rfl⟩
    by_cases hSet : f.timerMask a = true
    · right
      obtain ⟨hMem, hRenewed⟩ := (h.2 a hSet).resolve_left (fun hEq => ha hEq.1)
      rw [hChanged, if_pos hRenewed]
      exact ⟨hMem, hFields.1⟩
    · left
      refine ⟨hFields.1.trans ?_, fun hOn => absurd (hFields.2 ▸ hOn) hSet⟩
      rw [if_neg]
      rw [hFields.2]
      exact fun hBoth => hSet hBoth.1

/-- A finish message that would set a timer of a member that has finished: it
comes without a time, and puts its sender first and `me` second. -/
def Rearms (f : RvFt) (m : FtPeerMsg) : Prop :=
  f.me.state = .finish ∧ m.type = .finish ∧ m.finTime = 0 ∧
    ∃ e p, (f.received m).recordPeer m = some (some (e, p)) ∧
      (e.group.update p).ptr 0 = some p ∧ (e.group.update p).ptr 1 = some .me

end RvFt
namespace Watched
open RvFt

variable {cb : Listener} {w w' : Watched}

theorem Obliging.checkRank (hCb : Obliging [] cb) {depth : Nat} (h : Held [] w)
    (hCall : w.checkRank cb depth = some w') : Does [] w w' := by
  have hRead : Does [] w (w.reads 0) := h.same rfl rfl rfl rfl rfl
  have hRank : ∀ state, state ≠ .finish → w.ft.me.state ≠ .finish →
      (w.reads 0).setState cb depth state = some w' → Does [] w w' :=
    fun state hState hOld hSet =>
      .trans hRead.2 (hCb.setState depth state (w.reads 0) w' hState hOld hRead.1 hSet)
  unfold Watched.checkRank at hCall
  split at hCall
  · rename_i hSecondary
    have hOld : w.ft.me.state ≠ .finish := by rw [hSecondary]; simp
    split at hCall
    · exact hRank .secondary (by simp) hOld hCall
    · exact hRank .primary (by simp) hOld hCall
  · split at hCall
    · rename_i hPrimary
      split at hCall
      · exact hRank .secondary (by simp) (by rw [hPrimary]; simp) hCall
      · cases hCall
        exact hRead
    · cases hCall
      exact h.does

theorem Obliging.notifyAndAck (hCb : Obliging [] cb) (h : Held [] w) {m : FtPeerMsg}
    (hCall : (w.notifyUpdate cb).bind (fun k => some (k.edit (·.ackAnnounce m))) = some w') :
    Does [] w w' := by
  obtain ⟨e, hNotify, hEq⟩ := Option.bind_eq_some_iff.mp hCall
  cases hEq
  have hTold := hCb.notifyUpdate h hNotify
  refine .trans hTold.2 (hTold.1.same ?_ ?_ ?_ ?_ rfl)
  · exact (Quiet.ackAnnounce e.ft m).group
  · exact (Quiet.ackAnnounce e.ft m).tid
  · change (e.ft.ackAnnounce m).timers = e.ft.timers
    unfold RvFt.ackAnnounce
    split <;> rfl
  · change (e.ft.ackAnnounce m).timerMask = e.ft.timerMask
    unfold RvFt.ackAnnounce
    split <;> rfl

theorem Obliging.checkAndAck (hCb : Obliging [] cb) {depth : Nat} {m : FtPeerMsg} (h : Held [] w)
    (hCall : w.checkAndAck cb depth m = some w') : Does [] w w' := by
  simp only [Watched.checkAndAck, Option.bind_eq_bind, Option.pure_def] at hCall
  obtain ⟨e, hRank, hRest⟩ := Option.bind_eq_some_iff.mp hCall
  have hChecked := hCb.checkRank h hRank
  exact .trans hChecked.2 (hCb.notifyAndAck hChecked.1 hRest)

theorem Obliging.onAdmitted (hCb : Obliging [] cb) {depth : Nat} {m : FtPeerMsg} {p : PeerRef}
    (hp : p ≠ .me) (h : Held [] w)
    (hArm : w.ft.me.state = .finish → m.type = .finish → w.ft.group.ptr 0 = some p →
      w.ft.group.ptr 1 ≠ some .me ∨ m.finTime ≠ 0)
    (hCall : w.onAdmitted cb depth m p = some w') : Does [] w w' := by
  unfold Watched.onAdmitted at hCall
  split at hCall
  · exact hCb.notifyUpdate h hCall
  · split at hCall
    · rename_i hType
      simp only [Option.bind_eq_bind] at hCall
      have hRead : Does [] w (w.reads 0) := h.same rfl rfl rfl rfl rfl
      split at hCall
      · rename_i hHead
        obtain ⟨e, hTakeover, hNotify⟩ := Option.bind_eq_some_iff.mp hCall
        have hDone := hCb.prepareTakeover (hCb.setState depth) hRead.1 (fun hFinish => ⟨?_,
          hArm hFinish hType hHead⟩) hTakeover
        · exact .trans (hRead.2.trans hDone.2) (hCb.notifyUpdate hDone.1 hNotify)
        · intro hMe
          exact hp (Option.some.inj (hHead.symm.trans hMe))
      · exact .trans hRead.2 (hCb.notifyUpdate hRead.1 hCall)
    · exact hCb.checkAndAck h hCall

theorem Obliging.onRecorded (hCb : Obliging [] cb) {depth : Nat} {m : FtPeerMsg} {p : PeerRef}
    (hp : p ≠ .me) (h : Held [] w)
    (hArm : w.ft.me.state = .finish → m.type = .finish → (w.ft.group.update p).ptr 0 = some p →
      (w.ft.group.update p).ptr 1 ≠ some .me ∨ m.finTime ≠ 0)
    (hCall : w.onRecorded cb depth m p = some w') : Does [] w w' := by
  unfold Watched.onRecorded at hCall
  split at hCall
  · have hState := ((update_sameTable w.ft.group p).peer .me).state
    have hUpdate := h.regroupedOuter (fun f => f.withGroup (f.group.update p))
      ((update_sameTable w.ft.group p).kin h.foreign) hState rfl rfl rfl
    refine .trans hUpdate.2 (hCb.onAdmitted hp hUpdate.1 ?_ hCall)
    exact fun hFinish => hArm (hState.symm.trans hFinish)
  · have hDrop := h.regroupedOuter (fun f => f.withGroup (f.group.dropPeer p .finish))
      (Kin.dropPeer h.foreign p .finish) (dropPeer_stays hp .finish) rfl rfl rfl
    exact .trans hDrop.2 (hCb.checkAndAck hDrop.1 hCall)

/-- The head of `on_peer_msg`. -/
theorem Held.received (h : Held [] w) (hBeat : w.beating = false) (m : FtPeerMsg) :
    Does [] w (w.edit (·.received m)) := by
  have hStamp : Does [] w (w.edit (fun f => { f with lastRcvNs := f.monoNs })) :=
    h.same rfl rfl rfl rfl rfl
  by_cases hFollow : w.ft.me.state = .listen ∧ m.startNs < w.ft.me.startNs ∧
      (w.ft.oldestPeer = 0 ∨ m.startNs < w.ft.oldestPeer)
  · have hEq : w.ft.received m = RvFt.startHb { w.ft with
        lastRcvNs := w.ft.monoNs, oldestPeer := m.startNs } m.hbIval m.actIval m.prepIval :=
      if_pos hFollow
    have hAgrees : RvFt.Agrees false { w.ft with
        lastRcvNs := w.ft.monoNs, oldestPeer := m.startNs } := by
      have hBefore := h.agrees
      rw [hBeat] at hBefore
      exact hBefore
    obtain ⟨hTid, hAlien⟩ := startHb_alien { w.ft with
      lastRcvNs := w.ft.monoNs, oldestPeer := m.startNs } m.hbIval m.actIval m.prepIval
    refine h.retimed ((·.received m)) ?_ ?_ ?_ ?_ ?_ ?_
    · rw [hEq, startHb_group]
    · rw [hEq]
      exact hTid
    · rw [hEq, hBeat]
      exact startHb_agrees (fun a => Or.inl (hAgrees a))
    · rw [hBeat]
      exact nofun
    · exact fun hFinish => absurd (hFollow.1.symm.trans hFinish) (by simp)
    · rw [hEq]
      exact hAlien
  · have hEq : w.edit (·.received m) = w.edit (fun f => { f with lastRcvNs := f.monoNs }) := by
      have hSame : w.ft.received m = { w.ft with lastRcvNs := w.ft.monoNs } := if_neg hFollow
      simp only [edit, hSame]
    rw [hEq]
    exact hStamp

theorem Obliging.onPeerMsg (hCb : Obliging [] cb) {depth : Nat} {m : FtPeerMsg} (h : Held [] w)
    (hBeat : w.beating = false) (hArm : ¬ w.ft.Rearms m)
    (hCall : w.onPeerMsg cb depth m = some w') : Does [] w w' := by
  have hReceived := h.received hBeat m
  refine .trans hReceived.2 ?_
  have hHeld := hReceived.1
  have hState : (w.edit (·.received m)).ft.me.state = w.ft.me.state := by
    have hGroup : (w.ft.received m).group = w.ft.group := followOldest_group _ m
    rw [RvFt.me, RvFt.me, hGroup]
  have hRest : (w.edit (·.received m)).onFollowed cb depth m = some w' := hCall
  have hArm' : w.ft.me.state = .finish → m.type = .finish → m.finTime = 0 → ∀ e p,
      (w.edit (·.received m)).ft.recordPeer m = some (some (e, p)) →
        (e.group.update p).ptr 0 = some p → (e.group.update p).ptr 1 ≠ some .me :=
    fun hFinish hType hTime e p hRecord hHead hMe =>
      hArm ⟨hFinish, hType, hTime, e, p, hRecord, hHead, hMe⟩
  rw [← hState] at hArm'
  generalize w.edit (·.received m) = k at hHeld hRest hArm'
  simp only [onFollowed, Option.bind_eq_bind, Option.pure_def] at hRest
  split at hRest
  · have hDrop : Does [] k (k.dropListener m) := by
      unfold dropListener
      split
      · rename_i p hFind
        exact hHeld.regroupedOuter (fun f => f.withGroup (f.group.dropPeer p .listen))
          (Kin.dropPeer hHeld.foreign p .listen)
          (dropPeer_stays (find_ne_me hHeld.foreign hFind) .listen) rfl rfl rfl
      · exact hHeld.does
    exact .trans hDrop.2 (hCb.notifyAndAck hDrop.1 hRest)
  · obtain ⟨recorded, hRecord, hRest⟩ := Option.bind_eq_some_iff.mp hRest
    cases recorded with
    | none =>
        cases hRest
        exact hHeld.does
    | some found =>
        obtain ⟨f, p⟩ := found
        obtain ⟨hp, hStays⟩ := recordPeer_stays hHeld.foreign hRecord
        have hFields : f.tid = k.ft.tid ∧ f.timers = k.ft.timers ∧
            f.timerMask = k.ft.timerMask := by
          unfold recordPeer at hRecord
          split at hRecord
          · simp only [Option.bind_eq_bind, Option.pure_def, Option.bind_eq_some_iff] at hRecord
            obtain ⟨⟨group, q⟩, -, hEq⟩ := hRecord
            cases hEq
            exact ⟨rfl, rfl, rfl⟩
          · split at hRecord
            · cases hRecord
            · cases hRecord
              exact ⟨rfl, rfl, rfl⟩
        have hRecorded := hHeld.regroupedOuter (fun _ => f)
          (recordPeer_sends hHeld.foreign hRecord).toKin hStays hFields.1 hFields.2.1 hFields.2.2
        refine .trans hRecorded.2 (hCb.onRecorded hp hRecorded.1 ?_ hRest)
        intro hFinish hType hHead
        by_cases hTime : m.finTime = 0
        · exact Or.inl (hArm' (hStays.symm.trans hFinish) hType hTime f p hRecord hHead)
        · exact Or.inr hTime

theorem Obliging.publish (hCb : Obliging [] cb) {depth : Nat} {pub : EvPublish} (h : Rests w.ft)
    (hFiring : w.firing = none) (hArm : ∀ m, w.ft.handsOn pub = some m → ¬ w.ft.Rearms m)
    (hCall : w.dispatch cb depth (.publish pub) = some w') : Does [] w w' := by
  have hBeat : w.beating = false := by
    rw [beating, hFiring]
    rfl
  have hHeld := h.held hBeat
  simp only [dispatch, processPub, Option.bind_eq_bind, Option.pure_def] at hCall
  split at hCall
  · split at hCall
    · cases hCall
      exact hHeld.same rfl rfl rfl rfl rfl
    · cases hCall
      exact hHeld.does
  · rename_i hSubject
    split at hCall
    · cases hCall
      exact hHeld.does
    · rename_i m hMsg
      split at hCall
      · cases hCall
        exact hHeld.does
      · rename_i hStart
        simp only [Option.bind_assoc, Option.bind_some] at hCall
        obtain ⟨e, hPeer, hEq⟩ := Option.bind_eq_some_iff.mp hCall
        cases hEq
        refine hCb.onPeerMsg hHeld hBeat (hArm m ?_) hPeer
        rw [handsOn, if_neg hSubject, hMsg]
        simp [Option.filter, hStart]

/-- A clean start. -/
theorem Obliging.start (hCb : Obliging [] cb) {depth : Nat} {param : FtParameters}
    (hForeign : w.ft.group.Foreign) (hFiring : w.firing = none) (hClean : w.ft.StartsClean param)
    (hCall : w.start cb depth param = some w') : Rests w'.ft ∧ w'.ft.tid = w.ft.nowNs ∧
      ∀ id a, id ≠ w.ft.nowNs → (id, a) ∈ w'.ft.timers → (id, a) ∈ w.ft.timers := by
  obtain ⟨k, hAgrees, hGroup, hQuiet, hTid, hAlien, hRest⟩ : ∃ k : Watched, k.ft.Agrees false ∧
      k.ft.group = (w.ft.prepared param).group ∧ k.firing = none ∧ k.ft.tid = w.ft.nowNs ∧
      (∀ id a, id ≠ w.ft.nowNs → (id, a) ∈ k.ft.timers → (id, a) ∈ w.ft.timers) ∧
      (k.setState cb depth .listen).bind (Watched.notifyChange cb .listen) = some w' := by
    obtain ⟨e, hJoined, hEdit⟩ : ∃ e, e = (if (w.ft.prepared param).joinMs ≠ 0 then
        (w.ft.prepared param).addTimer .join else w.ft.prepared param) ∧
        ∃ k : Watched, k.ft = e.startHb param.heartbeatMs param.activateMs param.prepareMs ∧
          k.firing = none ∧ (k.setState cb depth .listen).bind (Watched.notifyChange cb .listen) =
            some w' := by
      refine ⟨_, rfl, _, ?_, ?_, hCall⟩
      · split <;> rfl
      · split <;> exact hFiring
    obtain ⟨k, hFt, hQuiet, hRest⟩ := hEdit
    obtain ⟨hTid, hAlien⟩ := startHb_alien e param.heartbeatMs param.activateMs param.prepareMs
    have hStart : e.tid = w.ft.nowNs ∧ e.group = (w.ft.prepared param).group ∧
        (w.ft.prepared param).Alien e := by
      rw [hJoined]
      split
      · exact ⟨rfl, rfl, addTimer_alien _ .join⟩
      · exact ⟨rfl, rfl, Alien.refl _⟩
    refine ⟨k, ?_, ?_, hQuiet, ?_, ?_, hRest⟩
    · rw [hFt]
      exact startHb_agrees (hClean.loose hJoined)
    · rw [hFt, startHb_group, hStart.2.1]
    · rw [hFt, hTid, hStart.1]
    · rw [hFt]
      intro id a hId hMem
      exact hStart.2.2 id a hId (hAlien id a (by rw [hStart.1]; exact hId) hMem)
  have hState : k.ft.me.state = .listen := by
    rw [RvFt.me, hGroup]
    exact congrArg FtPeer.state (prepared_me w.ft param)
  have hNot : k.ft.me.state ≠ .finish := by
    rw [hState]
    simp
  have hRests : Rests k.ft := by
    refine ⟨hAgrees, fun hFinish => absurd hFinish hNot, ?_⟩
    rw [hGroup]
    exact hForeign
  have hBeat : k.beating = false := by
    rw [beating, hQuiet]
    rfl
  obtain ⟨e, hSet, hNotify⟩ := Option.bind_eq_some_iff.mp hRest
  have hListen := hCb.setState depth .listen k e (by simp) hNot (hRests.held hBeat) hSet
  have hTold := (hCb.notifyChange hListen.1 (by simp) hNotify).pop
  obtain ⟨hAfter, hCarries⟩ := Does.rests (.trans hListen.2 hTold) hQuiet
  refine ⟨hAfter, hCarries.tid.trans hTid, ?_⟩
  intro id a hId hMem
  exact hAlien id a hId (hCarries.alien id a (by rw [hTid]; exact hId) hMem)

end Watched

/-- The condition on a call: a start is clean, a member that has finished is
not deactivated, and gets no finish message that sets a timer of it. -/
def RvFt.Orderly (f : RvFt) : FtCall → Prop
  | .start param => f.StartsClean param
  | .deactivate => f.me.state ≠ .finish
  | .publish pub => ∀ m, f.handsOn pub = some m → ¬ f.Rearms m
  | _ => True

/-- The runs with a careful listener whose calls meet the condition. -/
def carefulRuns : System RvFt FtPlay FtMark :=
  (playSystem Watched.Careful).guard
    (fun f play => (f.atTime play.input.nowNs play.input.monoNs).Orderly play.input.call)

open RvFt Watched

/-- A call other than `start`. -/
theorem dispatch_carries {depth nesting : Nat} {call : FtCall} {w w' : Watched} (h : Rests w.ft)
    (hFiring : w.firing = none) (hOrderly : w.ft.Orderly call) (hStart : call.isStart = false)
    (hCall : w.dispatch (react Careful depth nesting []) depth call = some w') :
    Rests w'.ft ∧ Carries w.ft w'.ft := by
  have hCb := react_obliging depth nesting []
  have hBeat : w.beating = false := by
    rw [beating, hFiring]
    rfl
  have hHeld := h.held hBeat
  cases call with
  | start param => cases hStart
  | stop => exact (hCb.stop hHeld (fun _ => ⟨hBeat, by simp⟩) hCall).rests hFiring
  | activate => exact (hCb.activate hHeld hCall).rests hFiring
  | deactivate => exact (hCb.deactivate hHeld hOrderly hCall).rests hFiring
  | timer id action => exact hCb.fire h hCall
  | publish pub => exact (hCb.publish h hFiring hOrderly hCall).rests hFiring

/-- A start of a careful run. -/
theorem start_rests {depth nesting : Nat} {param : FtParameters} {w w' : Watched}
    (h : w.ft.group.Foreign) (hFiring : w.firing = none) (hClean : w.ft.StartsClean param)
    (hCall : w.start (react Careful depth nesting []) depth param = some w') :
    Rests w'.ft ∧ w'.ft.tid = w.ft.nowNs ∧
      ∀ id a, id ≠ w.ft.nowNs → (id, a) ∈ w'.ft.timers → (id, a) ∈ w.ft.timers :=
  (react_obliging depth nesting []).start h hFiring hClean hCall

/-- The id of the timers after a call, and the timers of other ids. -/
structure Follows (f : RvFt) (input : FtInput) (g : RvFt) : Prop where
  rests : Rests g
  start : input.call.isStart = true → g.tid = input.nowNs ∧
    ∀ id a, id ≠ input.nowNs → (id, a) ∈ g.timers → (id, a) ∈ f.timers
  carries : input.call.isStart = false → Carries f g

theorem carefulRuns_step {f g : RvFt} {play : FtPlay} {marks : List FtMark} (h : Rests f)
    (hStep : carefulRuns.step f play marks g) : Follows f play.input g := by
  obtain ⟨hOrderly, -, nesting, depth, w, hCall, rfl, -⟩ := hStep
  cases hStart : play.input.call.isStart with
  | true =>
      obtain ⟨param, hParam⟩ : ∃ param, play.input.call = .start param := by
        cases hEq : play.input.call with
        | start param => exact ⟨param, rfl⟩
        | _ => rw [hEq] at hStart; cases hStart
      rw [hParam] at hCall hOrderly
      have hClean : (f.atTime play.input.nowNs play.input.monoNs).StartsClean param := hOrderly
      have hForeign : (f.atTime play.input.nowNs play.input.monoNs).group.Foreign := h.foreign
      obtain ⟨hRests, hTid, hAlien⟩ := start_rests hForeign rfl hClean hCall
      exact ⟨hRests, fun _ => ⟨hTid, hAlien⟩, fun hOther => absurd (hStart.symm.trans hOther) (by simp)⟩
  | false =>
      have hAt : Rests (f.atTime play.input.nowNs play.input.monoNs) :=
        ⟨h.agrees, h.ended, h.foreign⟩
      obtain ⟨hRests, hCarries⟩ := dispatch_carries hAt rfl hOrderly hStart hCall
      exact ⟨hRests, fun hOther => absurd (hStart.symm.trans hOther) (by simp),
        fun _ => ⟨hCarries.tid, hCarries.finish, hCarries.alien⟩⟩

/-- Between the calls of a careful run the mask agrees with the timers. -/
theorem carefulRuns_rests {f : RvFt} (h : carefulRuns.Reachable f) : Rests f := by
  refine System.Reachable.invariant ?_ (fun _ _ _ _ hRests hStep =>
    (carefulRuns_step hRests hStep).rests) h
  rintro g ⟨client, nowNs, monoNs, param, script, nesting, depth, w, hStart, rfl⟩
  refine (start_rests ?_ rfl ?_ hStart).1
  · exact fun s r hMem => absurd hMem (by simp)
  · exact ⟨fun t ht => absurd ht (by simp), fun a hSet => absurd hSet (by simp)⟩

/-- No timer of a member at work is armed under the id. -/
structure Gone (tid : Nat) (f : RvFt) : Prop where
  finish : f.tid = tid → f.me.state = .finish
  timers : ∀ a, FtAction.AtWork a → (tid, a) ∉ f.timers

theorem Watched.Rests.gone {f : RvFt} (h : Rests f) (hFinish : f.me.state = .finish) :
    Gone f.tid f := by
  refine ⟨fun _ => hFinish, fun a ha => ?_⟩
  rw [← List.count_eq_zero, (h.agrees a).1, h.ended hFinish a ha]
  simp

theorem Gone.step {tid : Nat} {f g : RvFt} {input : FtInput} (h : Gone tid f)
    (hNext : Follows f input g) (hNew : input.call.isStart = true → input.nowNs ≠ tid) :
    Gone tid g := by
  cases hStart : input.call.isStart with
  | true =>
      obtain ⟨hTid, hAlien⟩ := hNext.start hStart
      have hOther := hNew hStart
      refine ⟨fun hEq => absurd (hTid.symm.trans hEq) hOther, fun a ha hMem => ?_⟩
      exact h.timers a ha (hAlien tid a (Ne.symm hOther) hMem)
  | false =>
      have hCarries := hNext.carries hStart
      by_cases hTid : f.tid = tid
      · have hFinish := hCarries.finish (h.finish hTid)
        have hGone := hNext.rests.gone hFinish
        rwa [hCarries.tid, hTid] at hGone
      · refine ⟨fun hEq => absurd (hCarries.tid.symm.trans hEq) hTid, fun a ha hMem => ?_⟩
        exact h.timers a ha (hCarries.alien tid a (Ne.symm hTid) hMem)

/-- Only an armed timer fires. -/
theorem timer_armed {f g : RvFt} {play : FtPlay} {marks : List FtMark} {id : Nat} {a : FtAction}
    (hStep : carefulRuns.step f play marks g) (hCall : play.input.call = .timer id a) :
    (id, a) ∈ f.timers := by
  obtain ⟨-, -, nesting, depth, w, hFire, -⟩ := hStep
  rw [hCall] at hFire
  simp only [Watched.dispatch, Watched.fire] at hFire
  split at hFire
  · rename_i hMem
    exact hMem
  · cases hFire

/-- A run that starts in a state in which the id is gone. -/
theorem Gone.run {tid : Nat} {f g : RvFt} {plays : List FtPlay} {marks : List FtMark}
    (hRun : carefulRuns.Run f plays marks g) (hRests : Rests f) (h : Gone tid f)
    (hNew : ∀ play ∈ plays, play.input.call.isStart = true → play.input.nowNs ≠ tid) :
    Rests g ∧ Gone tid g ∧
      ∀ play ∈ plays, ∀ a, FtAction.AtWork a → play.input.call ≠ .timer tid a := by
  induction hRun with
  | nil => exact ⟨hRests, h, by simp⟩
  | snoc prior last ih =>
      obtain ⟨hBefore, hGone, hQuiet⟩ := ih (fun play hMem => hNew play (by simp [hMem]))
      have hNext := carefulRuns_step hBefore last
      refine ⟨hNext.rests, hGone.step hNext (hNew _ (by simp)), fun play hMem a ha => ?_⟩
      rcases List.mem_append.mp hMem with hOld | hLast
      · exact hQuiet play hOld a ha
      · rw [List.mem_singleton.mp hLast]
        exact fun hCall => hGone.timers a ha (timer_armed last hCall)

/-- In every state of a careful run each bit of the mask stands for one armed
timer, and after the member has finished the timers of its work do not fire. -/
theorem timers_agree {f : RvFt} (h : carefulRuns.Reachable f) :
    (∀ a, f.timers.count (f.tid, a) ≤ 1 ∧
      (f.timerMask a = true ↔ f.timers.count (f.tid, a) = 1)) ∧
    (f.me.state = .finish → ∀ plays marks g, carefulRuns.Run f plays marks g →
      (∀ play ∈ plays, play.input.call.isStart = true → play.input.nowNs ≠ f.tid) →
        ∀ play ∈ plays, ∀ a, a.AtWork → play.input.call ≠ .timer f.tid a) := by
  have hRests := carefulRuns_rests h
  refine ⟨fun a => ?_, fun hFinish plays marks g hRun hNew => ?_⟩
  · rw [(hRests.agrees a).1]
    by_cases hSet : f.timerMask a = true
    · simp [hSet]
    · simp [hSet]
  · exact (Gone.run hRun hRests (hRests.gone hFinish) hNew).2.2

/-- The first start at time 100, with a listener that calls nothing in it. -/
def playStart (ok : List FtSite → FtReaction → Watched → Prop)
    [∀ sites call w, Decidable (ok sites call w)] (param : FtParameters) : Option RvFt :=
  (Watched.start (react ok 9 9 []) 9 param
    { ft := { client := plainClient, nowNs := 100, monoNs := 1 } }).map (·.ft)

theorem playStart_init {ok : List FtSite → FtReaction → Watched → Prop}
    [∀ sites call w, Decidable (ok sites call w)] {param : FtParameters} {f : RvFt}
    (h : playStart ok param = some f) : (playSystem ok).init f := by
  obtain ⟨w, hStart, rfl⟩ := Option.map_eq_some_iff.mp h
  exact ⟨_, _, _, _, _, _, _, w, hStart, rfl⟩

/-- The listener stops the member when it is told that the member has joined. -/
def joinStop : FtPlay := ⟨⟨500000100, 500000001, .timer 100 .join⟩, [[.stop]]⟩

/-- The member has finished in the notification that it has joined. -/
theorem timers_agree_stopped : ∃ f, carefulRuns.Reachable f ∧ f.me.state = .finish ∧
    ((∀ a, f.timers.count (f.tid, a) ≤ 1 ∧
      (f.timerMask a = true ↔ f.timers.count (f.tid, a) = 1)) ∧
    (f.me.state = .finish → ∀ plays marks g, carefulRuns.Run f plays marks g →
      (∀ play ∈ plays, play.input.call.isStart = true → play.input.nowNs ≠ f.tid) →
        ∀ play ∈ plays, ∀ a, a.AtWork → play.input.call ≠ .timer f.tid a)) := by
  have hSome : ((playStart Careful { finishMs := 0 }).bind (fun f => play Careful f joinStop)).map
      (fun result => result.1.me.state) = some .finish := by decide +kernel
  obtain ⟨⟨g, marks⟩, hRun, hFinish⟩ := Option.map_eq_some_iff.mp hSome
  obtain ⟨f, hStart, hPlay⟩ := Option.bind_eq_some_iff.mp hRun
  have hFirst : carefulRuns.Reachable f := System.reachable_of_init (playStart_init hStart)
  have hReach : carefulRuns.Reachable g := hFirst.take joinStop marks trivial (play_step hPlay)
  exact ⟨g, hReach, hFinish, timers_agree hReach⟩

/-- A member that is alone joins. Its prepare timer runs out, and the next
heartbeat makes it primary. -/
def beatInputs : List FtPlay :=
  [⟨⟨500000100, 500000001, .timer 100 .join⟩, []⟩,
    ⟨⟨3000000100, 3000000001, .timer 100 .heartbeat⟩, []⟩,
    ⟨⟨6000000100, 6000000001, .timer 100 .heartbeat⟩, []⟩,
    ⟨⟨7000000100, 7000000001, .timer 100 .prepare⟩, []⟩,
    ⟨⟨9000000100, 9000000001, .timer 100 .heartbeat⟩, [[.stop]]⟩]

/-- The listener stops the member in the heartbeat that makes it primary, and
the heartbeat is armed again with its bit clear. -/
theorem timers_can_differ : ¬ ∀ f, (playSystem (fun _ _ _ => True)).Reachable f →
    (∀ a, f.timers.count (f.tid, a) ≤ 1 ∧
      (f.timerMask a = true ↔ f.timers.count (f.tid, a) = 1)) ∧
    (f.me.state = .finish → ∀ plays marks g, (playSystem (fun _ _ _ => True)).Run f plays marks g →
      (∀ play ∈ plays, play.input.call.isStart = true → play.input.nowNs ≠ f.tid) →
        ∀ play ∈ plays, ∀ a, a.AtWork → play.input.call ≠ .timer f.tid a) := by
  intro hAll
  have hSome : ((playStart (fun _ _ _ => True) { activateMs := 9000, finishMs := 0 }).bind (fun f =>
      System.runAll (play (fun _ _ _ => True)) f beatInputs)).map (fun result =>
        (result.1.timerMask .heartbeat, result.1.timers.count (result.1.tid, .heartbeat))) =
          some (false, 1) := by decide +kernel
  obtain ⟨⟨g, marks⟩, hRun, hBits⟩ := Option.map_eq_some_iff.mp hSome
  obtain ⟨f, hStart, hPlays⟩ := Option.bind_eq_some_iff.mp hRun
  have hRuns : (playSystem (fun _ _ _ => True)).Run f beatInputs marks g :=
    System.Run.of_runAll (fun _ _ _ _ hStep => play_step hStep) hPlays
  have hReach : (playSystem (fun _ _ _ => True)).Reachable g :=
    ⟨f, beatInputs, marks, playStart_init hStart, hRuns⟩
  obtain ⟨hMask, hCount⟩ := Prod.mk.inj hBits
  have hSet := ((hAll g hReach).1 .heartbeat).2.mpr hCount
  exact absurd (hMask.symm.trans hSet) (by simp)

end Sassrv.Ft
