import Sassrv.Ft.Ledger

/-! What `set_state` and `prepare_takeover` do to the group. -/
namespace Sassrv.Ft

variable {C : Prop}

namespace FtGroup

/-- `me` is `ft_queue.ptr[ 0 ]`. -/
def Heads (g : FtGroup) : Prop := g.live.head? = some .me

instance (g : FtGroup) : Decidable g.Heads := inferInstanceAs (Decidable (_ = _))

def meState (g : FtGroup) : FtState := (g.peer .me).state

section Restate

variable {g : FtGroup}

theorem updateState_peer (state : FtState) {r : PeerRef} (hr : r ≠ .me) :
    (g.updateState .me state).peer r = g.peer r :=
  Function.update_of_ne hr _ _

theorem updateState_me (state : FtState) :
    (g.updateState .me state).peer .me = { g.peer .me with
      oldState := (g.peer .me).state
      state := state } := by
  simp [updateState, modify]

/-- Everything that changing the state of `me` keeps. -/
structure Restated (C : Prop) (g : FtGroup) (state : FtState) (h : FtGroup) : Prop where
  ledger : h.Ledger C
  state : h.meState = state
  startNs : (h.peer .me).startNs = (g.peer .me).startNs
  weight : (h.peer .me).weight = (g.peer .me).weight
  peer : ∀ r, r ≠ .me → (g.peer r).Same (h.peer r)
  mem : .me ∈ g.live → ∀ r, r ∈ h.live ↔ r ∈ g.live

theorem Restated.updateState (h : g.Ledger C) (state : FtState) :
    g.Restated C state (g.updateState .me state) := by
  refine ⟨h.updateMe state, ?_, ?_, ?_, ?_, fun _ _ => Iff.rfl⟩
  · simp [meState, updateState_me]
  · simp [updateState_me]
  · simp [updateState_me]
  · intro r hr
    rw [updateState_peer state hr]
    exact FtPeer.Same.refl _

theorem Restated.queued {h k : FtGroup} {state : FtState} (left : g.Restated C state h)
    (right : h.Queued .me k) : g.Restated C state k := by
  have hTable := right.table
  refine ⟨left.ledger.queued right, ?_, ?_, ?_, ?_, ?_⟩
  · rw [meState, (hTable.peer .me).state]
    exact left.state
  · rw [(hTable.peer .me).startNs, left.startNs]
  · rw [(hTable.peer .me).weight, left.weight]
  · intro r hr
    exact (left.peer r hr).trans (hTable.peer r)
  · intro hMe r
    rw [right.mem, left.mem hMe]
    constructor
    · rintro (rfl | hr)
      · exact hMe
      · exact hr
    · exact Or.inr

theorem restate_spec (h : g.Ledger C) (state : FtState) : g.Restated C state (g.restate state) := by
  have hUpdated := Restated.updateState h state
  unfold restate
  split
  · split
    · exact hUpdated.queued (update_queued hUpdated.ledger.placed .me)
    · exact hUpdated
  · rename_i hSame
    rw [not_not] at hSame
    exact ⟨h, hSame.symm, rfl, rfl, fun _ _ => FtPeer.Same.refl _, fun _ _ => Iff.rfl⟩

/-- Only a change out of the join state moves entries of the queue. -/
theorem restate_live {state : FtState} (hJoin : g.meState ≠ .join) :
    (g.restate state).live = g.live := by
  unfold restate
  split
  · rw [if_neg (fun hBoth => hJoin hBoth.1)]
    rfl
  · rfl

theorem restate_live_of_state {state : FtState} (hState : state ≠ .primary ∧ state ≠ .secondary) :
    (g.restate state).live = g.live := by
  unfold restate
  split
  · rw [if_neg (fun hBoth => hBoth.2.elim hState.1 hState.2)]
    rfl
  · rfl

/-- A member of the queue that takes a rank keeps the queue in order. -/
theorem restate_order (h : g.Ledger C) {state : FtState}
    (hState : state = .primary ∨ state = .secondary) (hMe : g.meState ≠ .listen)
    (hOrder : g.Descending g.live) : (g.restate state).Descending (g.restate state).live := by
  by_cases hJoin : g.meState = .join
  · have hNew : state ≠ (g.peer .me).state := by
      change state ≠ g.meState
      rw [hJoin]
      rcases hState with rfl | rfl <;> simp
    have hUpdated := Restated.updateState h state
    unfold restate
    rw [if_pos hNew, if_pos ⟨hJoin, hState⟩]
    refine hUpdated.ledger.queued_order (update_queued hUpdated.ledger.placed .me) ?_
    refine Descending.congr (g := g) (hOrder.sublist List.erase_sublist) ?_
    intro r hr
    exact (hUpdated.peer r ((h.placed.nodup.mem_erase_iff).mp hr).1).rank
  · have hSpec := restate_spec h state
    rw [restate_live hJoin]
    refine Descending.congr hOrder ?_
    intro r _
    by_cases hr : r = .me
    · subst hr
      refine ⟨?_, hSpec.weight, hSpec.startNs⟩
      have hNew : ((g.restate state).peer .me).state = state := hSpec.state
      have hOld : g.meState = (g.peer .me).state := rfl
      unfold FtPeer.level
      rw [hNew, ← hOld]
      revert hMe hJoin
      rcases hState with rfl | rfl <;> cases g.meState <;> simp [FtState.code]
    · exact (hSpec.peer r hr).rank

/-- The head of a queue in order is above every other entry. -/
theorem head_isGreater {p r : PeerRef} (hOrder : g.Descending g.live)
    (hHead : g.live.head? = some p) (hr : r ∈ g.live) (hne : r ≠ p) :
    (g.peer p).isGreater (g.peer r) = true := by
  obtain ⟨rest, hLive⟩ : ∃ rest, g.live = p :: rest := by
    cases hLive : g.live with
    | nil => rw [hLive] at hHead; cases hHead
    | cons x rest =>
        rw [hLive] at hHead
        cases hHead
        exact ⟨rest, rfl⟩
  rw [hLive] at hr hOrder
  rcases List.mem_cons.mp hr with hEq | hr
  · exact absurd hEq hne
  · exact (List.pairwise_cons.mp hOrder).1 r hr

/-- A joining member that is first, or heavier than the first, comes first
when it takes a rank. -/
theorem heads_restate (h : g.Ledger C) (hOrder : g.Descending g.live) (hMe : .me ∈ g.live)
    (hJoin : g.meState = .join) {p : PeerRef} (hHead : g.live.head? = some p)
    (hAbove : p = .me ∨ (g.peer .me).isGreaterWeight (g.peer p) = true) {state : FtState}
    (hState : state = .primary ∨ state = .secondary) : (g.restate state).Heads := by
  have hSpec := restate_spec h state
  have hNewOrder := restate_order h hState (by rw [hJoin]; simp) hOrder
  have hMem := (hSpec.mem hMe .me).mpr hMe
  obtain ⟨x, hx⟩ : ∃ x, (g.restate state).live.head? = some x := by
    cases hLive : (g.restate state).live with
    | nil => rw [hLive] at hMem; cases hMem
    | cons x rest => exact ⟨x, rfl⟩
  by_cases hEq : x = .me
  · rw [Heads, hx, hEq]
  · exfalso
    have hAfter := head_isGreater hNewOrder hx hMem (Ne.symm hEq)
    have hxLive : x ∈ g.live := (hSpec.mem hMe x).mp (List.mem_of_mem_head? hx)
    have hLevelMe : ((g.restate state).peer .me).level = 1 := by
      have hNew : ((g.restate state).peer .me).state = state := hSpec.state
      unfold FtPeer.level
      rw [hNew]
      rcases hState with rfl | rfl <;> rfl
    have hLevelJoin : (g.peer .me).level = 0 := by
      have hOld : (g.peer .me).state = .join := hJoin
      unfold FtPeer.level
      rw [hOld]
      rfl
    have hSame := (hSpec.peer x hEq).rank
    have hLevels : ∀ q : FtPeer, q.level ≤ 1 := by
      intro q
      unfold FtPeer.level
      split <;> omega
    have hxLevel := hLevels (g.peer x)
    rw [isGreater_iff, isGreaterWeight_iff, hSame.level, hSame.weight, hSame.startNs, hLevelMe,
      hSpec.weight, hSpec.startNs] at hAfter
    by_cases hpx : x = p
    · subst hpx
      rcases hAbove with hEq' | hAbove
      · exact hEq hEq'
      · rw [isGreaterWeight_iff] at hAbove
        omega
    · have hBefore := head_isGreater hOrder hHead hxLive hpx
      have hpLevel := hLevels (g.peer p)
      rw [isGreater_iff, isGreaterWeight_iff] at hBefore
      rcases hAbove with rfl | hAbove
      · omega
      · rw [isGreaterWeight_iff] at hAbove
        omega

/-- `me` has taken a rank, and when the queue was in order it is the rank of
its position. -/
structure Settled (C : Prop) (g h : FtGroup) : Prop where
  present : .me ∈ g.live
  ledger : h.Ledger C
  mem : ∀ r, r ∈ h.live ↔ r ∈ g.live
  peer : ∀ r, r ≠ .me → (g.peer r).Same (h.peer r)
  order : g.Descending g.live → h.Descending h.live
  rank : (h.meState = .primary ∧ (g.Descending g.live → h.Heads)) ∨
    (h.meState = .secondary ∧ ¬ h.Heads)

theorem Heads.mem (h : g.Heads) : .me ∈ g.live := List.mem_of_mem_head? h

theorem Settled.primary (h : g.Ledger C) (hMe : .me ∈ g.live) (hState : g.meState ≠ .listen)
    (hHeads : g.Descending g.live → (g.restate .primary).Heads) :
    g.Settled C (g.restate .primary) := by
  have hSpec := restate_spec h .primary
  exact ⟨hMe, hSpec.ledger, hSpec.mem hMe, hSpec.peer, restate_order h (Or.inl rfl) hState,
    Or.inl ⟨hSpec.state, hHeads⟩⟩

theorem Settled.secondary (h : g.Ledger C) (hMe : .me ∈ g.live) (hState : g.meState ≠ .listen)
    (hHeads : ¬ (g.restate .secondary).Heads) : g.Settled C (g.restate .secondary) := by
  have hSpec := restate_spec h .secondary
  exact ⟨hMe, hSpec.ledger, hSpec.mem hMe, hSpec.peer, restate_order h (Or.inr rfl) hState,
    Or.inr ⟨hSpec.state, hHeads⟩⟩

/-- A secondary that finds itself first becomes primary at once. -/
theorem Settled.promoted (h : g.Ledger C) (hMe : .me ∈ g.live) (hState : g.meState ≠ .listen)
    (hHeads : (g.restate .secondary).Heads) :
    g.Settled C ((g.restate .secondary).restate .primary) := by
  have hFirst := restate_spec h .secondary
  have hSecond := restate_spec hFirst.ledger .primary
  have hOrder := restate_order h (Or.inr (rfl : FtState.secondary = .secondary)) hState
  have hRanked : (g.restate .secondary).meState ≠ .listen := by
    rw [hFirst.state]
    simp
  refine ⟨hMe, hSecond.ledger, ?_, ?_, ?_, Or.inl ⟨hSecond.state, ?_⟩⟩
  · intro r
    rw [hSecond.mem hHeads.mem, hFirst.mem hMe]
  · intro r hr
    exact (hFirst.peer r hr).trans (hSecond.peer r hr)
  · intro hSorted
    exact restate_order hFirst.ledger (Or.inl rfl) hRanked (hOrder hSorted)
  · intro _
    rw [Heads, restate_live (by rw [hFirst.state]; simp)]
    exact hHeads

end Restate

end FtGroup

namespace RvFt
open FtGroup

/-- Armed timers are distinct and have their mask bits set. -/
def TimersOk (f : RvFt) : Prop :=
  f.timers.Nodup ∧ ∀ a, (f.tid, a) ∈ f.timers → f.timerMask a = true

/-- What the code below `timer_cb` and `on_peer_msg` leaves alone: the clock,
the activation interval, and the timers other than those of a takeover, which
it may stop but does not arm. -/
structure Base (f g : RvFt) : Prop where
  tid : g.tid = f.tid
  monoNs : g.monoNs = f.monoNs
  startMono : g.startMono = f.startMono
  activateMs : g.activateMs = f.activateMs
  timers : f.TimersOk → g.TimersOk
  kept : ∀ a, a ≠ .prepare → a ≠ .activate → (f.tid, a) ∈ g.timers → (f.tid, a) ∈ f.timers

/-- The heartbeat timer is not stopped either. -/
structure Frame (f g : RvFt) : Prop extends Base f g where
  beat : g.timerMask .heartbeat = f.timerMask .heartbeat

/-- The group is left alone as well. -/
structure Quiet (f g : RvFt) : Prop extends Frame f g where
  group : g.group = f.group

theorem Base.refl (f : RvFt) : f.Base f :=
  ⟨rfl, rfl, rfl, rfl, id, fun _ _ _ h => h⟩

theorem Frame.refl (f : RvFt) : f.Frame f := ⟨Base.refl f, rfl⟩

theorem Base.trans {f g h : RvFt} (left : f.Base g) (right : g.Base h) : f.Base h := by
  refine ⟨right.tid.trans left.tid, right.monoNs.trans left.monoNs,
    right.startMono.trans left.startMono, right.activateMs.trans left.activateMs,
    fun hOk => right.timers (left.timers hOk), ?_⟩
  intro a hp ha hMem
  apply left.kept a hp ha
  rw [← left.tid] at hMem ⊢
  exact right.kept a hp ha hMem

theorem Frame.trans {f g h : RvFt} (left : f.Frame g) (right : g.Frame h) : f.Frame h :=
  ⟨left.toBase.trans right.toBase, right.beat.trans left.beat⟩

theorem Quiet.refl (f : RvFt) : f.Quiet f := ⟨Frame.refl f, rfl⟩

theorem Quiet.trans {f g h : RvFt} (left : f.Quiet g) (right : g.Quiet h) : f.Quiet h :=
  ⟨left.toFrame.trans right.toFrame, right.group.trans left.group⟩

theorem Quiet.me {f g : RvFt} (h : f.Quiet g) : g.me = f.me := by
  rw [RvFt.me, RvFt.me, h.group]

/-- Changes of the other fields. -/
theorem Quiet.same {f g : RvFt} (hGroup : g.group = f.group) (hTid : g.tid = f.tid)
    (hMono : g.monoNs = f.monoNs) (hStart : g.startMono = f.startMono)
    (hActivate : g.activateMs = f.activateMs) (hTimers : g.timers = f.timers)
    (hMask : g.timerMask = f.timerMask) : f.Quiet g := by
  refine ⟨⟨⟨hTid, hMono, hStart, hActivate, ?_, ?_⟩, by rw [hMask]⟩, hGroup⟩
  · intro hOk
    unfold TimersOk
    rw [hTimers, hMask, hTid]
    exact hOk
  · intro a _ _ hMem
    rw [hTimers] at hMem
    exact hMem

theorem Quiet.emit (f : RvFt) (event : FtOut) : f.Quiet (f.emit event) :=
  .same rfl rfl rfl rfl rfl rfl rfl

theorem Quiet.notifyChange (f : RvFt) (action : FtAction) : f.Quiet (f.notifyChange action) :=
  .same rfl rfl rfl rfl rfl rfl rfl

theorem Quiet.notifyUpdate (f : RvFt) : f.Quiet f.notifyUpdate := by
  unfold RvFt.notifyUpdate
  split
  · exact Quiet.notifyChange f .update
  · exact Quiet.refl f

theorem Quiet.sendMsg (f : RvFt) (type : FtMsgType) (dest : Text) : f.Quiet (f.sendMsg type dest) :=
  Quiet.emit f _

theorem Quiet.ackAnnounce (f : RvFt) (m : FtPeerMsg) : f.Quiet (f.ackAnnounce m) := by
  unfold RvFt.ackAnnounce
  split
  · exact Quiet.sendMsg f .ack m.reply
  · exact Quiet.refl f

theorem Base.cancelTimer (f : RvFt) (action : FtAction) : f.Base (f.cancelTimer action) := by
  unfold RvFt.cancelTimer
  split
  · refine ⟨rfl, rfl, rfl, rfl, ?_, ?_⟩
    · rintro ⟨hNodup, hMask⟩
      refine ⟨hNodup.filter _, ?_⟩
      intro a ha
      obtain ⟨hMem, hne⟩ := List.mem_filter.mp ha
      have hAction : a ≠ action := by
        rintro rfl
        simp at hne
      simp only [Function.update_of_ne hAction]
      exact hMask a hMem
    · intro a _ _ hMem
      exact List.mem_of_mem_filter hMem
  · exact Base.refl f

theorem cancelTimer_group (f : RvFt) (action : FtAction) :
    (f.cancelTimer action).group = f.group := by
  unfold RvFt.cancelTimer
  split <;> rfl

theorem Quiet.cancelTimer (f : RvFt) {action : FtAction} (h : action ≠ .heartbeat) :
    f.Quiet (f.cancelTimer action) := by
  refine ⟨⟨Base.cancelTimer f action, ?_⟩, cancelTimer_group f action⟩
  unfold RvFt.cancelTimer
  split
  · exact Function.update_of_ne h.symm _ _
  · rfl

/-- A timer that was set is no longer armed once it is cancelled. -/
theorem cancelTimer_notMem {f : RvFt} (h : f.TimersOk) (action : FtAction) :
    (f.tid, action) ∉ (f.cancelTimer action).timers := by
  unfold RvFt.cancelTimer
  split
  · simp
  · rename_i hClear
    exact fun hMem => hClear (h.2 action hMem)

theorem cancelTimer_mask (f : RvFt) (action : FtAction) :
    (f.cancelTimer action).timerMask action = false := by
  unfold RvFt.cancelTimer
  split
  · simp
  · rename_i hClear
    simpa using hClear

theorem Quiet.stopTimers (f : RvFt) : f.Quiet f.stopTimers := by
  refine Quiet.trans ?_ (.cancelTimer _ (by simp))
  refine Quiet.trans ?_ (.cancelTimer _ (by simp))
  refine Quiet.trans ?_ (.cancelTimer _ (by simp))
  exact .cancelTimer f (by simp)

theorem stopTimers_notMem {f : RvFt} (h : f.TimersOk) : (f.tid, .join) ∉ f.stopTimers.timers := by
  have hGone := cancelTimer_notMem h .join
  have hFirst : f.Quiet (f.cancelTimer .join) := Quiet.cancelTimer f (by simp)
  have hRest : (f.cancelTimer .join).Quiet f.stopTimers := by
    refine Quiet.trans ?_ (.cancelTimer _ (by simp))
    refine Quiet.trans ?_ (.cancelTimer _ (by simp))
    exact .cancelTimer _ (by simp)
  intro hMem
  rw [← hFirst.tid] at hGone hMem
  exact hGone (hRest.kept .join (by simp) (by simp) hMem)

theorem TimersOk.notMem {f : RvFt} (h : f.TimersOk) {action : FtAction}
    (hClear : f.timerMask action = false) : (f.tid, action) ∉ f.timers := by
  intro hMem
  rw [h.2 action hMem] at hClear
  cases hClear

/-- Arming a timer that is not armed. -/
theorem TimersOk.addTimer {f : RvFt} (h : f.TimersOk) {action : FtAction}
    (hNew : (f.tid, action) ∉ f.timers) : (f.addTimer action).TimersOk := by
  obtain ⟨hNodup, hMask⟩ := h
  refine ⟨?_, ?_⟩
  · simp only [RvFt.addTimer]
    rw [List.nodup_append]
    refine ⟨hNodup, List.nodup_singleton _, ?_⟩
    rintro x hx y hy rfl
    rw [List.mem_singleton.mp hy] at hx
    exact hNew hx
  · intro a ha
    simp only [RvFt.addTimer]
    by_cases hEq : a = action
    · rw [hEq, Function.update_self]
    · rw [Function.update_of_ne hEq]
      rcases List.mem_append.mp ha with hOld | hAdded
      · exact hMask a hOld
      · exact absurd (Prod.mk.inj (List.mem_singleton.mp hAdded)).2 hEq

theorem Quiet.rearm (f : RvFt) {action : FtAction} (h : action = .prepare ∨ action = .activate) :
    f.Quiet ((f.cancelTimer action).addTimer action) := by
  have hBeat : action ≠ .heartbeat := by
    rcases h with rfl | rfl <;> simp
  refine (Quiet.cancelTimer f hBeat).trans ?_
  refine ⟨⟨⟨rfl, rfl, rfl, rfl, ?_, ?_⟩,
    Function.update_of_ne hBeat.symm _ _⟩, rfl⟩
  · exact fun hOk => hOk.addTimer (hOk.notMem (cancelTimer_mask f action))
  · intro a hPrepare hActivate hMem
    rcases List.mem_append.mp hMem with hOld | hNew
    · exact hOld
    · have hEq := (Prod.mk.inj (List.mem_singleton.mp hNew)).2
      rcases h with rfl | rfl
      · exact absurd hEq hPrepare
      · exact absurd hEq hActivate

theorem Quiet.setPrepareTimer (f : RvFt) (p : PeerRef) : f.Quiet (f.setPrepareTimer p) := by
  unfold RvFt.setPrepareTimer
  simp only
  split
  · exact Quiet.refl f
  · exact (Quiet.rearm f (Or.inl rfl)).trans (.same rfl rfl rfl rfl rfl rfl rfl)

theorem Quiet.setActivateTimer (f : RvFt) (p : PeerRef) : f.Quiet (f.setActivateTimer p) := by
  unfold RvFt.setActivateTimer
  simp only
  split
  · exact Quiet.refl f
  · exact (Quiet.rearm f (Or.inr rfl)).trans (.same rfl rfl rfl rfl rfl rfl rfl)

theorem Quiet.armTakeover (f : RvFt) (p : PeerRef) (action : FtAction) (originNs : Nat) :
    f.Quiet (f.armTakeover p action originNs) := by
  unfold RvFt.armTakeover
  split
  · exact Quiet.setPrepareTimer f p
  · simp only
    split
    · exact (Quiet.notifyChange f .prepare).trans (.setActivateTimer _ p)
    · exact Quiet.setActivateTimer f p

theorem finish_base (f : RvFt) : f.Base f.finish ∧ f.finish.group = f.group := by
  unfold RvFt.finish
  simp only
  have hSend : f.Quiet (if f.me.state ≠ .listen then f.sendMsg .exiting [] else f) := by
    split
    · exact Quiet.sendMsg f .exiting []
    · exact Quiet.refl f
  generalize (if f.me.state ≠ .listen then f.sendMsg .exiting [] else f) = e at hSend ⊢
  have hCancel := Base.cancelTimer e .heartbeat
  have hRest : (e.cancelTimer .heartbeat).Quiet (((e.cancelTimer .heartbeat).stopTimers.emit
      (.unsubscribe (e.cancelTimer .heartbeat).stopTimers.ftSub)).notifyChange .finish) := by
    refine Quiet.trans ?_ (.notifyChange _ .finish)
    refine Quiet.trans ?_ (.emit _ _)
    exact .stopTimers _
  exact ⟨(hSend.toBase.trans hCancel).trans hRest.toBase,
    (hRest.group.trans (cancelTimer_group e .heartbeat)).trans hSend.group⟩

/-- `finish` stops the heartbeat and the join timer. -/
theorem finish_notMem {f : RvFt} (h : f.TimersOk) :
    (f.tid, .heartbeat) ∉ f.finish.timers ∧ (f.tid, .join) ∉ f.finish.timers := by
  unfold RvFt.finish
  simp only
  have hSend : f.Quiet (if f.me.state ≠ .listen then f.sendMsg .exiting [] else f) := by
    split
    · exact Quiet.sendMsg f .exiting []
    · exact Quiet.refl f
  generalize (if f.me.state ≠ .listen then f.sendMsg .exiting [] else f) = e at hSend ⊢
  have hCancel := Base.cancelTimer e .heartbeat
  have hGone := cancelTimer_notMem (hSend.timers h) .heartbeat
  have hJoin := stopTimers_notMem (hCancel.timers (hSend.timers h))
  have hStop := Quiet.stopTimers (e.cancelTimer .heartbeat)
  rw [← hSend.tid]
  rw [← hCancel.tid] at hGone ⊢
  exact ⟨fun hMem => hGone (hStop.kept .heartbeat (by simp) (by simp) hMem), hJoin⟩

theorem Frame.withGroup (f : RvFt) (group : FtGroup) : f.Frame (f.withGroup group) :=
  ⟨⟨rfl, rfl, rfl, rfl, id, fun _ _ _ h => h⟩, rfl⟩

theorem enterState_frame (f : RvFt) (state : FtState) :
    f.Frame (f.enterState state) ∧ (f.enterState state).group = f.group.restate state := by
  unfold enterState
  split
  · refine ⟨(Frame.withGroup f (f.group.restate state)).trans (Quiet.toFrame ?_), rfl⟩
    exact .same rfl rfl rfl rfl rfl rfl rfl
  · rename_i hSame
    exact ⟨Frame.refl f, (if_neg hSame).symm⟩

theorem setState_primary (f : RvFt) (depth : Nat) :
    ∃ g, setStateWithin (depth + 1) .primary f = some g ∧ f.Frame g ∧
      g.group = f.group.restate .primary := by
  obtain ⟨hFrame, hGroup⟩ := enterState_frame f .primary
  refine ⟨_, rfl, ?_⟩
  suffices hQuiet : (f.enterState .primary).Quiet _ from
    ⟨hFrame.trans hQuiet.toFrame, hQuiet.group.trans hGroup⟩
  refine Quiet.trans ?_ (.sendMsg _ .activate [])
  refine Quiet.trans ?_ (.notifyChange _ .activate)
  exact .same rfl rfl rfl rfl rfl rfl rfl

/-- The time since `start` or `activate` has passed the activation interval. -/
def Expired (f : RvFt) : Prop := f.expiredDeltaMs f.startMono f.activateMs ≤ 0

instance (f : RvFt) : Decidable f.Expired := inferInstanceAs (Decidable (_ ≤ _))

theorem Base.expired {f g : RvFt} (h : f.Base g) : g.Expired ↔ f.Expired := by
  simp only [Expired, expiredDeltaMs, h.startMono, h.activateMs, h.monoNs]

theorem ptr_zero {g : FtGroup} (h : g.live ≠ []) : g.ptr 0 = g.live.head? := by
  obtain ⟨x, rest, hLive⟩ := List.exists_cons_of_ne_nil h
  simp [ptr, hLive]

/-- A takeover outside the join state. -/
theorem prepareTakeover_settled {f : RvFt} (hLive : f.group.live ≠ [])
    (hJoin : f.me.state ≠ .join) (depth : Nat) (action : FtAction) (deadline : Nat) :
    ∃ g, prepareTakeover (setStateWithin (depth + 1)) action deadline f = some g ∧ f.Frame g ∧
      ((g.group = f.group ∧ (f.group.Heads → ¬ f.Expired)) ∨
        (f.group.Heads ∧ f.Expired ∧ g.group = f.group.restate .primary)) := by
  obtain ⟨p, rest, hQueue⟩ := List.exists_cons_of_ne_nil hLive
  have hPtr : f.group.ptr 0 = some p := by simp [ptr, hQueue]
  have hHeads : f.group.Heads ↔ p = .me := by simp [Heads, hQueue]
  simp only [prepareTakeover, hPtr, Option.bind_eq_bind, Option.bind_some, Option.pure_def]
  by_cases hp : p = .me
  · by_cases hExpired : f.expiredDeltaMs f.startMono f.activateMs ≤ 0
    · obtain ⟨g, hSet, hFrame, hGroup⟩ := setState_primary f depth
      refine ⟨g.notifyUpdate, ?_, ?_, Or.inr ⟨hHeads.mpr hp, hExpired, ?_⟩⟩
      · simp [hp, hExpired, hSet]
      · exact hFrame.trans (Quiet.notifyUpdate g).toFrame
      · exact (Quiet.notifyUpdate g).group.trans hGroup
    · have hQuiet := Quiet.armTakeover f p action f.startMono
      refine ⟨_, ?_, hQuiet.toFrame, Or.inl ⟨hQuiet.group, fun _ => hExpired⟩⟩
      simp [hp, hExpired]
  · have hNot : ¬ (p = .me ∨ f.me.state = .join) := by
      rintro (hEq | hEq)
      · exact hp hEq
      · exact hJoin hEq
    have hStay : ∀ g, f.Quiet g → f.Frame g ∧
        ((g.group = f.group ∧ (f.group.Heads → ¬ f.Expired)) ∨
          (f.group.Heads ∧ f.Expired ∧ g.group = f.group.restate .primary)) := by
      intro g hQuiet
      exact ⟨hQuiet.toFrame, Or.inl ⟨hQuiet.group, fun hEq => absurd (hHeads.mp hEq) hp⟩⟩
    rw [if_neg hNot]
    split
    · exact ⟨f, rfl, hStay f (Quiet.refl f)⟩
    · split
      · refine ⟨_, rfl, hStay _ ?_⟩
        have hCancel : f.Quiet ((f.cancelTimer .prepare).cancelTimer .activate) :=
          (Quiet.cancelTimer f (by simp)).trans (.cancelTimer _ (by simp))
        split
        · exact hCancel.trans (.notifyChange _ .prepare)
        · exact hCancel
      · exact ⟨_, rfl, hStay _ (.armTakeover f p action _)⟩

/-- `set_state( STATE_SECONDARY )` -/
theorem setState_secondary {f : RvFt} (h : f.group.Ledger C)
    (hLive : (f.group.restate .secondary).live ≠ []) (depth : Nat) :
    ∃ g, setStateWithin (depth + 2) .secondary f = some g ∧ f.Frame g ∧
      ((g.group = f.group.restate .secondary ∧ (g.group.Heads → ¬ f.Expired)) ∨
        ((f.group.restate .secondary).Heads ∧
          g.group = (f.group.restate .secondary).restate .primary)) := by
  obtain ⟨hFrame, hGroup⟩ := enterState_frame f .secondary
  have hSpec := restate_spec h .secondary
  obtain ⟨e, hCall, hQuiet⟩ : ∃ e, setStateWithin (depth + 2) .secondary f =
      prepareTakeover (setStateWithin (depth + 1)) .deactivate 0 e ∧
      (f.enterState .secondary).Quiet e := by
    refine ⟨_, rfl, ?_⟩
    split
    · refine Quiet.trans ?_ (.notifyChange _ .deactivate)
      refine Quiet.trans ?_ (.sendMsg _ .deactivate [])
      exact .same rfl rfl rfl rfl rfl rfl rfl
    · exact Quiet.refl _
  have hEntered : e.group = f.group.restate .secondary := hQuiet.group.trans hGroup
  have hBefore := hFrame.trans hQuiet.toFrame
  obtain ⟨g, hTakeover, hAfter, hResult⟩ := prepareTakeover_settled (f := e)
    (by rw [hEntered]; exact hLive)
    (by rw [RvFt.me, hEntered]; change (f.group.restate .secondary).meState ≠ _
        rw [hSpec.state]; simp) depth .deactivate 0
  refine ⟨g, by rw [hCall, hTakeover], hBefore.trans hAfter, ?_⟩
  rw [hEntered] at hResult
  rcases hResult with ⟨hStay, hLate⟩ | ⟨hHeads, -, hSet⟩
  · left
    refine ⟨hStay, ?_⟩
    rw [hStay]
    intro hHeads hExpired
    exact hLate hHeads (hBefore.expired.mpr hExpired)
  · exact Or.inr ⟨hHeads, hSet⟩

/-- `prepare_takeover`: the group stays as it is, or `me` takes a rank. -/
theorem prepareTakeover_spec {f : RvFt} (h : f.group.Ledger C) (hLive : f.group.live ≠ [])
    (hListen : f.me.state ≠ .listen) (hPresent : f.me.state = .join → .me ∈ f.group.live)
    (depth : Nat) (action : FtAction) (deadline : Nat) :
    ∃ g, prepareTakeover (setStateWithin (depth + 2)) action deadline f = some g ∧ f.Frame g ∧
      ((g.group = f.group ∧ (f.group.Heads → ¬ f.Expired)) ∨
        (f.Expired ∧ f.group.Settled C g.group)) := by
  by_cases hJoin : f.me.state = .join
  · have hMe := hPresent hJoin
    obtain ⟨p, rest, hQueue⟩ := List.exists_cons_of_ne_nil hLive
    have hPtr : f.group.ptr 0 = some p := by simp [ptr, hQueue]
    have hHead : f.group.live.head? = some p := by rw [hQueue]; rfl
    simp only [prepareTakeover, hPtr, Option.bind_eq_bind, Option.bind_some, Option.pure_def,
      hJoin, or_true, if_true, true_and]
    by_cases hExpired : f.expiredDeltaMs f.startMono f.activateMs ≤ 0
    · by_cases hAbove : p = .me ∨ f.me.isGreaterWeight (f.group.peer p) = true
      · obtain ⟨g, hSet, hFrame, hGroup⟩ := setState_primary f (depth + 1)
        refine ⟨g.notifyUpdate, ?_, hFrame.trans (Quiet.notifyUpdate g).toFrame,
          Or.inr ⟨hExpired, ?_⟩⟩
        · rw [if_pos hExpired, if_pos hAbove, hSet]
          rfl
        · rw [(Quiet.notifyUpdate g).group, hGroup]
          exact Settled.primary h hMe hListen (fun hOrder =>
            heads_restate h hOrder hMe hJoin hHead hAbove (Or.inl rfl))
      · have hMem := ((restate_spec h .secondary).mem hMe .me).mpr hMe
        obtain ⟨g, hSet, hFrame, hResult⟩ := setState_secondary h
          (List.ne_nil_of_mem hMem) depth
        refine ⟨g.notifyUpdate, ?_, hFrame.trans (Quiet.notifyUpdate g).toFrame,
          Or.inr ⟨hExpired, ?_⟩⟩
        · rw [if_pos hExpired, if_neg hAbove, hSet]
          rfl
        · rw [(Quiet.notifyUpdate g).group]
          rcases hResult with ⟨hGroup, hLate⟩ | ⟨hHeads, hGroup⟩
          · rw [hGroup] at hLate ⊢
            exact Settled.secondary h hMe hListen (fun hHeads => hLate hHeads hExpired)
          · rw [hGroup]
            exact Settled.promoted h hMe hListen hHeads
    · have hQuiet := Quiet.armTakeover f p action f.startMono
      refine ⟨_, ?_, hQuiet.toFrame, Or.inl ⟨hQuiet.group, fun _ => hExpired⟩⟩
      rw [if_neg hExpired]
  · obtain ⟨g, hCall, hFrame, hResult⟩ :=
      prepareTakeover_settled hLive hJoin (depth + 1) action deadline
    refine ⟨g, hCall, hFrame, ?_⟩
    rcases hResult with hStay | ⟨hHeads, hExpired, hGroup⟩
    · exact Or.inl hStay
    · right
      rw [hGroup]
      refine ⟨hExpired, ?_⟩
      refine Settled.primary h hHeads.mem hListen (fun _ => ?_)
      rw [Heads, restate_live hJoin]
      exact hHeads

/-- `set_state( STATE_LISTEN )` -/
theorem setState_listen (f : RvFt) :
    ∃ g, f.setState .listen = some g ∧ f.Frame g ∧ g.group = f.group.restate .listen := by
  obtain ⟨hFrame, hGroup⟩ := enterState_frame f .listen
  have hSend := Quiet.sendMsg (f.enterState .listen) .announce []
  exact ⟨_, rfl, hFrame.trans hSend.toFrame, hSend.group.trans hGroup⟩

/-- `set_state( STATE_FINISH )` -/
theorem setState_finish {f : RvFt} (hTimers : f.TimersOk) :
    ∃ g, f.setState .finish = some g ∧ f.Base g ∧ g.group = f.group.restate .finish ∧
      (f.tid, .heartbeat) ∉ g.timers ∧ (f.tid, .join) ∉ g.timers := by
  obtain ⟨hFrame, hGroup⟩ := enterState_frame f .finish
  obtain ⟨hFinish, hSame⟩ := finish_base (f.enterState .finish)
  have hGone := finish_notMem (hFrame.timers hTimers)
  rw [hFrame.tid] at hGone
  exact ⟨_, rfl, hFrame.toBase.trans hFinish, hSame.trans hGroup, hGone⟩

/-- `me` has joined the queue, and may have taken a rank at once. -/
structure Joins (C : Prop) (g h : FtGroup) : Prop where
  ledger : h.Ledger C
  mem : ∀ r, r ∈ h.live ↔ r = .me ∨ r ∈ g.live
  peer : ∀ r, r ≠ .me → (g.peer r).Same (h.peer r)
  order : g.Descending g.live → h.Descending h.live
  rank : h.meState = .join ∨ (h.meState = .primary ∧ (g.Descending g.live → h.Heads)) ∨
    (h.meState = .secondary ∧ ¬ h.Heads)

/-- A member that is listening takes its place in the queue. -/
theorem Joins.inserted {g : FtGroup} (h : g.Ledger C) (hListen : g.meState = .listen)
    (hAbsent : .me ∉ g.live) : Joins C g ((g.restate .join).insert .me) ∧
      ((g.restate .join).insert .me).meState = .join := by
  have hSpec := restate_spec h .join
  have hSame : (g.restate .join).live = g.live := restate_live (by rw [hListen]; simp)
  have hOut : .me ∉ (g.restate .join).live := by
    rw [hSame]
    exact hAbsent
  have hQueued := insert_queued hSpec.ledger.placed hOut
  have hJoined := hSpec.queued hQueued
  refine ⟨⟨hJoined.ledger, ?_, hJoined.peer, ?_, Or.inl hJoined.state⟩, hJoined.state⟩
  · intro r
    rw [hQueued.mem, hSame]
  · intro hOrder
    refine hSpec.ledger.queued_order hQueued ?_
    rw [List.erase_of_not_mem hOut, hSame]
    refine Descending.congr hOrder ?_
    intro r hr
    exact (hSpec.peer r (fun hEq => hAbsent (hEq ▸ hr))).rank

/-- `set_state( STATE_JOIN )` for a member that is listening. -/
theorem setState_join {f : RvFt} (h : f.group.Ledger C) (hListen : f.me.state = .listen)
    (hAbsent : .me ∉ f.group.live) :
    ∃ g, f.setState .join = some g ∧ f.Frame g ∧ Joins C f.group g.group ∧
      (g.me.state ≠ .join → f.Expired) := by
  obtain ⟨hFrame, hGroup⟩ := enterState_frame f .join
  obtain ⟨hInserted, hJoined⟩ := Joins.inserted h hListen hAbsent
  obtain ⟨e, hCall, hEntered, hGroup'⟩ : ∃ e, f.setState .join =
      ((prepareTakeover (setStateWithin 2) .join 0 e).bind fun g => some (g.notifyChange .join)) ∧
      f.Frame e ∧ e.group = (f.group.restate .join).insert .me := by
    refine ⟨_, rfl, ?_, ?_⟩
    · refine Frame.trans ?_ (Quiet.sendMsg _ .announce []).toFrame
      exact hFrame.trans (Frame.withGroup _ _)
    · rw [(Quiet.sendMsg _ .announce []).group, withGroup, hGroup]
  rw [← hGroup'] at hInserted
  have hMe : .me ∈ e.group.live := (hInserted.mem .me).mpr (Or.inl rfl)
  have hState : e.me.state = .join := by
    rw [RvFt.me, hGroup']
    exact hJoined
  obtain ⟨g, hTakeover, hAfter, hResult⟩ := prepareTakeover_spec (f := e) hInserted.ledger
    (List.ne_nil_of_mem hMe) (by rw [hState]; simp) (fun _ => hMe) 0 .join 0
  have hNotify := Quiet.notifyChange g .join
  refine ⟨g.notifyChange .join, ?_, (hEntered.trans hAfter).trans hNotify.toFrame, ?_, ?_⟩
  · rw [hCall, hTakeover]
    rfl
  · rw [hNotify.group]
    rcases hResult with ⟨hStay, -⟩ | ⟨-, hSettled⟩
    · rw [hStay]
      exact hInserted
    · refine ⟨hSettled.ledger, ?_, ?_, fun hOrder => hSettled.order (hInserted.order hOrder), ?_⟩
      · intro r
        rw [hSettled.mem, hInserted.mem]
      · intro r hr
        exact (hInserted.peer r hr).trans (hSettled.peer r hr)
      · rcases hSettled.rank with ⟨hPrimary, hHeads⟩ | hSecondary
        · exact Or.inr (Or.inl ⟨hPrimary, fun hOrder => hHeads (hInserted.order hOrder)⟩)
        · exact Or.inr (Or.inr hSecondary)
  · intro hLeft
    rcases hResult with ⟨hStay, -⟩ | ⟨hExpired, -⟩
    · refine absurd ?_ hLeft
      rw [hNotify.me, RvFt.me, hStay]
      exact hState
    · exact hEntered.expired.mp hExpired

end RvFt

end Sassrv.Ft
