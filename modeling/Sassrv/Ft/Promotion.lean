import Sassrv.Ft.Presence
import Sassrv.Ft.Rank

/-! How `me` becomes primary: on a takeover, alone or after it was made
secondary first, and on the check after a message. The queue is in order and
`me` is queued once, so that `me` is the first of the queue when `set_state`
returns. A start that finds `me` still queued breaks this. -/
namespace Sassrv.Ft
open FtGroup

/-- What a primary relies on: it is the first of the queue, no member above the
join state is greater by weight and start time, and the activation interval is
over to within a millisecond. -/
structure Leads (h : RvFt) : Prop where
  first : h.group.ptr 0 = some .me
  above : ∀ r ∈ h.group.live, (h.group.peer r).state.code > FtState.join.code →
    (h.group.peer r).isGreaterWeight h.me = false
  due : h.startMono + h.activateMs * 1000000 < h.monoNs + 1000000

/-- The states in which `set_state` returns after `me` became primary. -/
def promotions (marks : List FtMark) : List RvFt :=
  marks.filterMap (fun
    | .returned oldState .primary h => if oldState = .primary then none else some h
    | _ => none)

theorem mem_promotions {marks : List FtMark} {h : RvFt} : h ∈ promotions marks ↔
    ∃ oldState, .returned oldState .primary h ∈ marks ∧ oldState ≠ .primary := by
  simp only [promotions, List.mem_filterMap]
  constructor
  · rintro ⟨m, hMem, hEq⟩
    split at hEq
    · rename_i oldState f
      split at hEq
      · cases hEq
      · rename_i hOld
        cases hEq
        exact ⟨oldState, hMem, hOld⟩
    · cases hEq
  · rintro ⟨oldState, hMem, hOld⟩
    exact ⟨_, hMem, if_neg hOld⟩

namespace RvFt

theorem Expired.due {f : RvFt} (h : f.Expired) :
    f.startMono + f.activateMs * 1000000 < f.monoNs + 1000000 := by
  unfold Expired expiredDeltaMs at h
  have hSpan : f.activateMs * 1000 * 1000 = f.activateMs * 1000000 := Nat.mul_assoc _ _ _
  simp only [hSpan] at h
  generalize f.startMono + f.activateMs * 1000000 = delta at h ⊢
  split at h
  · omega
  · omega

theorem isGreaterWeight_self (p : FtPeer) : p.isGreaterWeight p = false := by
  simp [FtPeer.isGreaterWeight]

/-- The first of a queue in order, above the join state. -/
theorem leads_of_heads {h : RvFt} (hHeads : h.group.Heads) (hOrder : h.Ordered)
    (hState : h.me.state = .primary) (hExpired : h.Expired) : Leads h := by
  refine ⟨?_, ?_, hExpired.due⟩
  · rw [ptr_zero (List.ne_nil_of_mem hHeads.mem)]
    exact hHeads
  · intro r hr hCode
    by_cases hEq : r = .me
    · rw [hEq]
      exact isGreaterWeight_self _
    · have hGreater := head_isGreater hOrder hHeads hr hEq
      have hMe : h.me.level = 1 := by
        rw [FtPeer.level, hState]
        rfl
      have hLevel : (h.group.peer r).level = 1 := by
        rw [FtPeer.level, if_pos hCode]
      rw [isGreater_iff] at hGreater
      have hWeight : (h.group.peer .me).isGreaterWeight (h.group.peer r) = true := by
        rcases hGreater with hAbove | ⟨-, hWeight⟩
        · change h.me.level > _ at hAbove
          omega
        · exact hWeight
      rw [isGreaterWeight_iff] at hWeight
      rw [Bool.eq_false_iff]
      intro hOther
      rw [isGreaterWeight_iff] at hOther
      change (h.group.peer r).weight > (h.group.peer .me).weight ∨ _ at hOther
      simp only [RvFt.me] at hOther
      omega

/-- A member in the queue, with the books in order. -/
structure Seated (f : RvFt) : Prop where
  ledger : f.group.Ledger False
  order : f.Ordered
  present : .me ∈ f.group.live
  joined : f.me.state ≠ .listen

theorem Seated.quiet {f g : RvFt} (h : f.Seated) (hQuiet : f.Quiet g) : g.Seated := by
  refine ⟨?_, ?_, ?_, ?_⟩
  · rw [hQuiet.group]
    exact h.ledger
  · rw [Ordered, hQuiet.group]
    exact h.order
  · rw [hQuiet.group]
    exact h.present
  · rw [hQuiet.me]
    exact h.joined

/-- The place of a member that takes a rank. -/
theorem Seated.restated {f : RvFt} (h : f.Seated) {state : FtState}
    (hState : state = .primary ∨ state = .secondary) {g : RvFt}
    (hGroup : g.group = f.group.restate state) : g.Seated ∧ g.me.state = state := by
  have hSpec := restate_spec h.ledger state
  have hNew : g.me.state = state := by
    rw [RvFt.me, hGroup]
    exact hSpec.state
  refine ⟨⟨?_, ?_, ?_, ?_⟩, hNew⟩
  · rw [hGroup]
    exact hSpec.ledger
  · rw [Ordered, hGroup]
    exact restate_order h.ledger hState h.joined h.order
  · rw [hGroup]
    exact (hSpec.mem h.present .me).mpr h.present
  · rw [hNew]
    rcases hState with rfl | rfl <;> simp

end RvFt

namespace Watched
open RvFt

/-- Whenever `me` becomes primary it leads. -/
def Rises (w w' : Watched) : Prop :=
  ∃ more, w'.marks = w.marks ++ more ∧
    ∀ oldState h, .returned oldState .primary h ∈ more → oldState ≠ .primary → Leads h

theorem Rises.refl (w : Watched) : w.Rises w := ⟨[], by simp, by simp⟩

theorem Rises.trans {w w' w'' : Watched} (left : w.Rises w') (right : w'.Rises w'') :
    w.Rises w'' := by
  obtain ⟨more, hMarks, hLeads⟩ := left
  obtain ⟨more', hMarks', hLeads'⟩ := right
  refine ⟨more ++ more', by rw [hMarks', hMarks, List.append_assoc], ?_⟩
  intro oldState h hMem hOld
  rcases List.mem_append.mp hMem with hMem | hMem
  · exact hLeads oldState h hMem hOld
  · exact hLeads' oldState h hMem hOld

theorem Rises.edit (w : Watched) (change : RvFt → RvFt) : w.Rises (w.edit change) :=
  ⟨[], by simp, by simp⟩

theorem Rises.mark (w : Watched) {m : FtMark}
    (h : ∀ oldState h, m = .returned oldState .primary h → oldState ≠ .primary → Leads h) :
    w.Rises (w.mark m) := by
  refine ⟨[m], rfl, ?_⟩
  intro oldState f hMem
  exact h oldState f (List.mem_singleton.mp hMem).symm

theorem Rises.read (w : Watched) (i : Nat) : w.Rises (w.reads i) := .mark w (by simp)

theorem Rises.notifyChange {w w' : Watched} {site : FtSite}
    (h : w.notifyChange silent site = some w') : w.Rises w' ∧ w.ft.Quiet w'.ft := by
  cases h
  exact ⟨(Rises.edit w _).trans (.mark _ (by simp)), Quiet.notifyChange w.ft site.action⟩

theorem Rises.notifyUpdate {w w' : Watched} (h : w.notifyUpdate silent = some w') :
    w.Rises w' := by
  unfold Watched.notifyUpdate at h
  split at h
  · exact (Rises.notifyChange h).1
  · cases h
    exact .refl w

theorem Rises.setPrepareTimer {w w' : Watched} (h : w.setPrepareTimer = some w') : w.Rises w' := by
  simp only [Watched.setPrepareTimer, Option.bind_eq_bind, Option.pure_def,
    Option.bind_eq_some_iff] at h
  obtain ⟨p, -, hEq⟩ := h
  cases hEq
  exact (Rises.read w 0).trans (.edit _ (·.setPrepareTimer p))

theorem Rises.setActivateTimer {w w' : Watched} (h : w.setActivateTimer = some w') :
    w.Rises w' := by
  simp only [Watched.setActivateTimer, Option.bind_eq_bind, Option.pure_def,
    Option.bind_eq_some_iff] at h
  obtain ⟨p, -, hEq⟩ := h
  cases hEq
  exact (Rises.read w 0).trans (.edit _ (·.setActivateTimer p))

theorem Rises.armTakeover {w w' : Watched} {p : PeerRef} {action : FtAction} {originNs : Nat}
    (h : w.armTakeover silent p action originNs = some w') : w.Rises w' := by
  unfold Watched.armTakeover at h
  split at h
  · exact .setPrepareTimer h
  · simp only [Option.bind_eq_bind] at h
    split at h
    · obtain ⟨e, hNotify, hArm⟩ := Option.bind_eq_some_iff.mp h
      exact (Rises.notifyChange hNotify).1.trans (.setActivateTimer hArm)
    · exact .setActivateTimer h

theorem enterState_rises (w : Watched) (state : FtState) : w.Rises (w.enterState state) := by
  unfold enterState
  split
  · exact (Rises.edit w _).trans (.mark _ (by simp))
  · exact .refl w

/-- `me` becomes primary where the new rank puts it first. -/
theorem setState_primary_rises {depth : Nat} {w w' : Watched}
    (h : w.setState silent (depth + 1) .primary = some w') (hSeated : w.ft.Seated)
    (hHeads : (w.ft.group.restate .primary).Heads) (hExpired : w.ft.Expired) : w.Rises w' := by
  simp only [setState, Option.bind_eq_bind, Option.pure_def, Option.bind_eq_some_iff] at h
  obtain ⟨e, hAct, hEq⟩ := h
  cases hEq
  obtain ⟨hFrame, hGroup⟩ := enterState_frame w.ft .primary
  rw [← enterState_ft] at hFrame hGroup
  obtain ⟨hRises, hQuiet⟩ : w.Rises e ∧ (w.enterState .primary).ft.Quiet e.ft := by
    simp only [actOnState, Option.bind_eq_bind, Option.pure_def, Option.bind_eq_some_iff] at hAct
    obtain ⟨k, hNotify, hEq⟩ := hAct
    cases hEq
    obtain ⟨hTold, hSame⟩ := Rises.notifyChange hNotify
    have hStamp : (w.enterState .primary).ft.Quiet { (w.enterState .primary).ft with
      activateNs := (w.enterState .primary).ft.stateNs } := .same rfl rfl rfl rfl rfl rfl rfl
    refine ⟨(((enterState_rises w .primary).trans (.edit _ _)).trans hTold).trans (.edit k _), ?_⟩
    exact (hStamp.trans hSame).trans (.sendMsg k.ft .activate [])
  refine hRises.trans (.mark e ?_)
  rintro oldState f ⟨⟩ -
  have hNew : e.ft.group = w.ft.group.restate .primary := hQuiet.group.trans hGroup
  obtain ⟨hPlace, hState⟩ := hSeated.restated (Or.inl rfl) hNew
  refine leads_of_heads ?_ hPlace.order hState ?_
  · rw [hNew]
    exact hHeads
  · exact (hFrame.trans hQuiet.toFrame).expired.mpr hExpired

/-- A takeover outside the join state. -/
theorem prepareTakeover_ranked_rises {depth : Nat} {action : FtAction} {deadline : Nat}
    {w w' : Watched} (h : w.prepareTakeover silent (setState silent (depth + 1)) action deadline =
      some w') (hSeated : w.ft.Seated) (hJoin : w.ft.me.state ≠ .join) : w.Rises w' := by
  have hFirst := Rises.read w 0
  simp only [prepareTakeover, Option.bind_eq_bind, Option.pure_def, Option.bind_eq_some_iff] at h
  obtain ⟨p, hHead, h⟩ := h
  have hPlace : w.ft.group.live.head? = some p := by
    rw [← ptr_zero (List.ne_nil_of_mem hSeated.present)]
    exact hHead
  split at h
  · rename_i hTurn
    have hp : p = .me := hTurn.resolve_right hJoin
    split at h
    · rename_i hExpired
      rw [if_pos (Or.inl hp)] at h
      obtain ⟨e, hSet, hNotify⟩ := Option.bind_eq_some_iff.mp h
      have hHeads : (w.ft.group.restate .primary).Heads := by
        rw [Heads, restate_live hJoin, hPlace, hp]
      exact (hFirst.trans (setState_primary_rises (w := w.reads 0) hSet hSeated hHeads
        hExpired)).trans (.notifyUpdate hNotify)
    · exact hFirst.trans (.armTakeover h)
  · have hSecond := hFirst.trans (.read (w.reads 0) 1)
    split at h
    · cases h
      exact hSecond
    · split at h
      · have hCancel := hSecond.trans (.edit _ (fun f => (f.cancelTimer .prepare).cancelTimer .activate))
        split at h
        · exact hCancel.trans (Rises.notifyChange h).1
        · cases h
          exact hCancel
      · exact hSecond.trans (.armTakeover h)

/-- `me` becomes secondary, and primary at once where it comes first. -/
theorem setState_secondary_rises {depth : Nat} {w w' : Watched}
    (h : w.setState silent (depth + 2) .secondary = some w') (hSeated : w.ft.Seated) :
    w.Rises w' := by
  rw [setState] at h
  simp only [Option.bind_eq_bind, Option.pure_def, Option.bind_eq_some_iff] at h
  obtain ⟨e, hAct, hEq⟩ := h
  cases hEq
  refine Rises.trans ?_ (.mark e (by simp))
  have hGroup := (enterState_frame w.ft .secondary).2
  rw [← enterState_ft] at hGroup
  have hEnter := enterState_rises w .secondary
  obtain ⟨hPlace, hState⟩ := hSeated.restated (Or.inr rfl) hGroup
  generalize w.enterState .secondary = k at hAct hGroup hEnter hPlace hState
  simp only [actOnState, Option.bind_eq_bind] at hAct
  split at hAct
  · obtain ⟨b, hNotify, hTakeover⟩ := Option.bind_eq_some_iff.mp hAct
    obtain ⟨hTold, hQuiet⟩ := Rises.notifyChange hNotify
    have hStamp : k.ft.Quiet { k.ft with deactivateNs := k.ft.stateNs } :=
      .same rfl rfl rfl rfl rfl rfl rfl
    have hSame := (hStamp.trans (.sendMsg _ .deactivate [])).trans hQuiet
    have hTurn := prepareTakeover_ranked_rises hTakeover (hPlace.quiet hSame)
      (by rw [hSame.me, hState]; simp)
    exact (((hEnter.trans (.edit _ _)).trans (.edit _ _)).trans hTold).trans hTurn
  · exact hEnter.trans (prepareTakeover_ranked_rises hAct hPlace (by rw [hState]; simp))

/-- `prepare_takeover` in any state of a queued member. -/
theorem prepareTakeover_rises {depth : Nat} {action : FtAction} {deadline : Nat} {w w' : Watched}
    (h : w.prepareTakeover silent (setState silent (depth + 2)) action deadline = some w')
    (hSeated : w.ft.Seated) : w.Rises w' := by
  by_cases hJoin : w.ft.me.state = .join
  · have hFirst := Rises.read w 0
    simp only [prepareTakeover, Option.bind_eq_bind, Option.pure_def, Option.bind_eq_some_iff,
      hJoin, or_true, if_true, true_and] at h
    obtain ⟨p, hHead, h⟩ := h
    split at h
    · rename_i hExpired
      split at h
      · rename_i hAbove
        obtain ⟨e, hSet, hNotify⟩ := Option.bind_eq_some_iff.mp h
        have hPlace : w.ft.group.live.head? = some p := by
          rw [← ptr_zero (List.ne_nil_of_mem hSeated.present)]
          exact hHead
        have hHeads : (w.ft.group.restate .primary).Heads :=
          heads_restate hSeated.ledger hSeated.order hSeated.present hJoin hPlace hAbove
            (Or.inl rfl)
        exact (hFirst.trans (setState_primary_rises (w := w.reads 0) hSet hSeated hHeads
          hExpired)).trans (.notifyUpdate hNotify)
      · obtain ⟨e, hSet, hNotify⟩ := Option.bind_eq_some_iff.mp h
        exact (hFirst.trans (setState_secondary_rises (w := w.reads 0) hSet hSeated)).trans
          (.notifyUpdate hNotify)
    · exact hFirst.trans (.armTakeover h)
  · exact prepareTakeover_ranked_rises h hSeated hJoin

theorem setState_join_rises {depth : Nat} {w w' : Watched}
    (h : w.setState silent (depth + 3) .join = some w') (hLedger : w.ft.group.Ledger False)
    (hOrder : w.ft.Ordered) (hListen : w.ft.me.state = .listen)
    (hAbsent : .me ∉ w.ft.group.live) : w.Rises w' := by
  rw [setState] at h
  simp only [Option.bind_eq_bind, Option.pure_def, Option.bind_eq_some_iff] at h
  obtain ⟨e, hAct, hEq⟩ := h
  cases hEq
  refine Rises.trans ?_ (.mark e (by simp))
  have hGroup := (enterState_frame w.ft .join).2
  rw [← enterState_ft] at hGroup
  have hEnter := enterState_rises w .join
  obtain ⟨hJoins, hJoined⟩ := Joins.inserted hLedger hListen hAbsent
  rw [← hGroup] at hJoins hJoined
  generalize w.enterState .join = k at hAct hGroup hEnter hJoins hJoined
  simp only [actOnState, Option.bind_eq_bind, Option.bind_eq_some_iff] at hAct
  obtain ⟨b, hTakeover, hNotify⟩ := hAct
  have hSend := Quiet.sendMsg (k.ft.withGroup (k.ft.group.insert .me)) .announce []
  have hSeated : Seated (k.ft.withGroup (k.ft.group.insert .me)) := by
    refine ⟨hJoins.ledger, hJoins.order hOrder, (hJoins.mem .me).mpr (Or.inl rfl), ?_⟩
    change (k.ft.group.insert .me).meState ≠ .listen
    rw [hJoined]
    simp
  have hTurn := prepareTakeover_rises hTakeover (hSeated.quiet hSend)
  exact (((hEnter.trans (.edit _ _)).trans (.edit _ _)).trans hTurn).trans
    (Rises.notifyChange hNotify).1

theorem setState_listen_rises {depth : Nat} {w w' : Watched}
    (h : w.setState silent (depth + 1) .listen = some w') : w.Rises w' := by
  simp only [setState, Option.bind_eq_bind, Option.pure_def, Option.bind_eq_some_iff] at h
  obtain ⟨e, hAct, hEq⟩ := h
  cases hEq
  cases hAct
  exact ((enterState_rises w .listen).trans (.edit _ _)).trans (.mark _ (by simp))

theorem setState_finish_rises {depth : Nat} {w w' : Watched}
    (h : w.setState silent (depth + 1) .finish = some w') : w.Rises w' := by
  simp only [setState, Option.bind_eq_bind, Option.pure_def, Option.bind_eq_some_iff] at h
  obtain ⟨e, hAct, hEq⟩ := h
  cases hEq
  refine Rises.trans ?_ (.mark e (by simp))
  refine (enterState_rises w .finish).trans ?_
  generalize w.enterState .finish = k at hAct
  have hSend : k.Rises (if k.ft.me.state ≠ .listen then k.edit (·.sendMsg .exiting []) else k) := by
    split
    · exact .edit k _
    · exact .refl k
  have hNotify := (Rises.notifyChange hAct).1
  exact (((hSend.trans (.edit _ (·.cancelTimer .heartbeat))).trans (.edit _ (·.stopTimers))).trans
    (.edit _ (fun f => f.emit (.unsubscribe f.ftSub)))).trans hNotify

end Watched

/-- The invariant of the runs in which no start finds `me` queued. -/
structure Steady (f : RvFt) : Prop where
  sound : f.Sound False
  order : f.Ordered
  expired : f.Ranked → f.Expired

namespace Watched
open RvFt

theorem start_rises {depth : Nat} {param : FtParameters} {w w' : Watched}
    (h : w.start silent (depth + 1) param = some w') : w.Rises w' := by
  simp only [start, Option.bind_eq_bind] at h
  obtain ⟨e, hSet, hNotify⟩ := Option.bind_eq_some_iff.mp h
  refine Rises.trans ?_ ((setState_listen_rises hSet).trans (Rises.notifyChange hNotify).1)
  have hEnter := (Rises.edit w (·.prepared param)).trans
    (@Rises.mark _ (.entered .listen) (by simp))
  refine Rises.trans ?_ (.edit _ _)
  split
  · exact hEnter.trans (.edit _ _)
  · exact hEnter

theorem stop_rises {depth : Nat} {w w' : Watched} (h : w.stop silent (depth + 1) = some w') :
    w.Rises w' := by
  unfold stop at h
  split at h
  · exact setState_finish_rises h
  · split at h
    · cases h
      exact .refl w
    · cases h
      exact .edit w (fun f => (f.sendMsg .finish []).addTimer .finish)

theorem activate_rises {depth : Nat} {w w' : Watched} (hSteady : Steady w.ft)
    (h : w.activate silent (depth + 3) = some w') : w.Rises w' := by
  unfold activate at h
  split at h
  · rename_i hListen
    have hGroup : ({ w.ft with startMono := w.ft.monoNs }.cancelTimer .join).group = w.ft.group :=
      cancelTimer_group _ _
    have hEdit := Rises.edit w (fun f => { f with startMono := f.monoNs }.cancelTimer .join)
    refine hEdit.trans (setState_join_rises h ?_ ?_ ?_ ?_)
    · rw [hGroup]
      exact hSteady.sound.ledger
    · rw [Ordered, hGroup]
      exact hSteady.order
    · rw [RvFt.me, hGroup]
      exact hListen
    · rw [hGroup]
      exact hSteady.sound.absent hListen
  · cases h
    exact .refl w

theorem deactivate_rises {depth : Nat} {w w' : Watched}
    (h : w.deactivate silent (depth + 1) = some w') : w.Rises w' := by
  simp only [deactivate, Option.bind_eq_bind, Option.pure_def] at h
  split at h
  · obtain ⟨e, hSet, hNotify⟩ := Option.bind_eq_some_iff.mp h
    exact ((((Rises.edit w (fun f => f.withGroup (f.group.remove .me))).trans
      (.edit _ (·.stopTimers))).trans (setState_listen_rises hSet))).trans
        (Rises.notifyChange hNotify).1
  · cases h
    exact .refl w

/-- The queue after it was trimmed. -/
theorem Seated.trimmed {f : RvFt} (h : f.Sound False) (hOrder : f.Ordered)
    (hState : f.me.state.counted = true) : f.trimFtQueue.Seated := by
  have hTrim := trimFtQueue_trimmed h.ledger
  refine ⟨hTrim.ledger, hTrim.ordered hOrder, hTrim.stays (h.present hState), ?_⟩
  rw [hTrim.state]
  rintro hEq
  rw [hEq] at hState
  cases hState

theorem takeoverTimer_rises {depth : Nat} {action : FtAction} {ival : Int} {w w' : Watched}
    (hSteady : Steady w.ft) (hAction : action ≠ .heartbeat ∧ (w.ft.tid, action) ∉ w.ft.timers)
    (h : w.takeoverTimer silent (depth + 2) action ival = some w') : w.Rises w' := by
  simp only [takeoverTimer, Option.bind_eq_bind] at h
  split at h
  · rename_i hRun
    obtain ⟨e, hTakeover, hNotify⟩ := Option.bind_eq_some_iff.mp h
    have hClear := Quiet.clearMask hAction.1 hAction.2
    have hSound := hSteady.sound.quiet hClear
    have hSeated := Seated.trimmed hSound hSteady.order (counted_of hRun.2)
    exact (((Rises.edit w _).trans (.edit _ (·.trimFtQueue))).trans
      (prepareTakeover_rises hTakeover hSeated)).trans (.notifyUpdate hNotify)
  · exact (Rises.edit w _).trans (.notifyUpdate h)

theorem heartbeatTimer_rises {depth : Nat} {w w' : Watched} (hSteady : Steady w.ft)
    (hFinish : w.ft.me.state ≠ .finish) (h : w.heartbeatTimer silent (depth + 2) = some w') :
    w.Rises w' := by
  simp only [heartbeatTimer, Option.bind_eq_bind] at h
  generalize isAccurate (w.ft.expiredDeltaMs w.ft.lastHbNs w.ft.heartbeatMs) = accurate at h
  have hTrim : w.Rises (if accurate = true then w.edit (·.trimFtQueue) else w) := by
    split
    · exact .edit w _
    · exact .refl w
  have hState : (if accurate = true then w.edit (·.trimFtQueue) else w).ft.me.state =
      w.ft.me.state := by
    split
    · exact trimLoop_stays _ w.ft
    · rfl
  have hSeated : accurate = true → w.ft.me.state ≠ .listen →
      Seated (if accurate = true then w.edit (·.trimFtQueue) else w).ft := by
    intro hTrue hListen
    rw [if_pos hTrue]
    refine Seated.trimmed hSteady.sound hSteady.order ?_
    revert hListen hFinish
    cases w.ft.me.state <;> simp [FtState.counted]
  generalize (if accurate = true then w.edit (·.trimFtQueue) else w) = e at hTrim hState hSeated h
  have hEnd : ∀ k : Watched, (k.edit (fun f => { f with lastHbNs := f.monoNs })).notifyUpdate
      silent = some w' → k.Rises w' :=
    fun k hNotify => (Rises.edit k (fun f => { f with lastHbNs := f.monoNs })).trans
      (.notifyUpdate hNotify)
  have hSend := fun (k : Watched) type => Rises.edit k (·.sendMsg type [])
  split at h
  · exact hTrim.trans ((hSend e .heartbeat).trans (hEnd _ h))
  · split at h
    · rename_i hListen
      rw [hState] at hListen
      obtain ⟨k, hTakeover, hNotify⟩ := Option.bind_eq_some_iff.mp h
      obtain ⟨b, hRun, hEq⟩ := Option.map_eq_some_iff.mp hTakeover
      subst hEq
      have hLast := (hSend b .keepalive).trans (hEnd _ hNotify)
      split at hRun
      · rename_i hTrue
        exact (hTrim.trans (prepareTakeover_rises hRun (hSeated hTrue hListen))).trans hLast
      · cases hRun
        exact hTrim.trans hLast
    · exact hTrim.trans (hEnd e h)

/-- What a timer callback may rely on: the timer that fires is not armed any
more, and a join timer finds `me` listening. -/
structure Fires (f : RvFt) (id : Nat) (action : FtAction) : Prop where
  steady : Steady f
  gone : id = f.tid → (f.tid, action) ∉ f.timers
  join : id = f.tid → action = .join → f.me.state = .listen

theorem timerCb_rises {depth : Nat} {id : Nat} {action : FtAction} {w w' : Watched} {again : Bool}
    (hFires : Fires w.ft id action) (hFinish : w.ft.me.state ≠ .finish)
    (h : w.timerCb silent (depth + 3) id action = some (w', again)) : w.Rises w' := by
  simp only [timerCb, Option.bind_eq_bind, Option.pure_def] at h
  split at h
  · cases h
    exact .refl w
  · rename_i hId
    rw [not_not] at hId
    have hGone := hFires.gone hId
    have hClear := fun a => Rises.edit w (fun f => { f with
      timerMask := Function.update f.timerMask a false })
    cases action with
    | activate =>
        obtain ⟨e, hTimer, hEq⟩ := Option.bind_eq_some_iff.mp h
        cases hEq
        exact takeoverTimer_rises hFires.steady ⟨by simp, hGone⟩ hTimer
    | prepare =>
        obtain ⟨e, hTimer, hEq⟩ := Option.bind_eq_some_iff.mp h
        cases hEq
        exact takeoverTimer_rises hFires.steady ⟨by simp, hGone⟩ hTimer
    | heartbeat =>
        obtain ⟨e, hTimer, hEq⟩ := Option.bind_eq_some_iff.mp h
        cases hEq
        exact heartbeatTimer_rises hFires.steady hFinish hTimer
    | join =>
        obtain ⟨e, hSet, hEq⟩ := Option.bind_eq_some_iff.mp h
        cases hEq
        have hListen := hFires.join hId rfl
        exact (hClear .join).trans (setState_join_rises hSet hFires.steady.sound.ledger
          hFires.steady.order hListen (hFires.steady.sound.absent hListen))
    | finish =>
        obtain ⟨e, hSet, hEq⟩ := Option.bind_eq_some_iff.mp h
        cases hEq
        exact (hClear .finish).trans (setState_finish_rises hSet)
    | listen => cases h; exact .refl w
    | deactivate => cases h; exact .refl w
    | update => cases h; exact .refl w

theorem fire_rises {depth : Nat} {id : Nat} {action : FtAction} {w w' : Watched}
    (hSteady : Steady w.ft) (hFinish : w.ft.me.state ≠ .finish)
    (h : w.fire silent (depth + 3) id action = some w') : w.Rises w' := by
  simp only [fire, Option.bind_eq_bind, Option.pure_def] at h
  split at h
  · rename_i hArmed
    obtain ⟨⟨e, again⟩, hTimer, hEq⟩ := Option.bind_eq_some_iff.mp h
    have hFired := Quiet.fired w.ft (id, action)
    have hFires : Fires { w.ft with timers := w.ft.timers.erase (id, action) } id action := by
      refine ⟨⟨hSteady.sound.quiet hFired, hSteady.order, hSteady.expired⟩, ?_, ?_⟩
      · intro hId
        have hOwn : id = w.ft.tid := hId
        change (w.ft.tid, action) ∉ w.ft.timers.erase (id, action)
        rw [hOwn]
        exact List.Nodup.not_mem_erase hSteady.sound.timers.1
      · intro hId hJoin
        have hOwn : id = w.ft.tid := hId
        rw [hOwn, hJoin] at hArmed
        exact hSteady.sound.joinTimer hArmed
    have hRises : w.Rises { w.edit (fun f => { f with
        timers := f.timers.erase (id, action) }) with firing := some (id, action) } :=
      ⟨[], by simp, by simp⟩
    have hTurn := hRises.trans (timerCb_rises hFires hFinish hTimer)
    cases hEq
    refine hTurn.trans ?_
    split
    · exact ⟨[], by simp, by simp⟩
    · exact ⟨[], by simp, by simp⟩
  · cases h

theorem checkRank_rises {depth : Nat} {w w' : Watched} (hSteady : Steady w.ft)
    (h : w.checkRank silent (depth + 2) = some w') : w.Rises w' := by
  unfold checkRank at h
  have hRead := Rises.read w 0
  have hSeated : w.ft.Ranked → w.ft.Seated := by
    intro hRanked
    refine ⟨hSteady.sound.ledger, hSteady.order, hSteady.sound.ranked_mem hRanked, ?_⟩
    rcases hRanked with hEq | hEq <;> rw [hEq] <;> simp
  split at h
  · rename_i hSecondary
    have hPlace := hSeated (Or.inr hSecondary)
    split at h
    · exact hRead.trans (setState_secondary_rises (w := w.reads 0) h hPlace)
    · rename_i hFirst
      rw [not_not, ptr_zero (List.ne_nil_of_mem hPlace.present)] at hFirst
      have hHeads : (w.ft.group.restate .primary).Heads := by
        rw [Heads, restate_live (by change w.ft.me.state ≠ _; rw [hSecondary]; simp)]
        exact hFirst
      exact hRead.trans (setState_primary_rises (w := w.reads 0) h hPlace hHeads
        (hSteady.expired (Or.inr hSecondary)))
  · split at h
    · rename_i hPrimary
      split at h
      · exact hRead.trans (setState_secondary_rises (w := w.reads 0) h (hSeated (Or.inl hPrimary)))
      · cases h
        exact hRead
    · cases h
      exact .refl w

theorem checkAndAck_rises {depth : Nat} {m : FtPeerMsg} {w w' : Watched} (hSteady : Steady w.ft)
    (h : w.checkAndAck silent (depth + 2) m = some w') : w.Rises w' := by
  simp only [checkAndAck, Option.bind_eq_bind, Option.pure_def, Option.bind_eq_some_iff] at h
  obtain ⟨e, hRank, k, hNotify, hEq⟩ := h
  cases hEq
  exact ((checkRank_rises hSteady hRank).trans (.notifyUpdate hNotify)).trans
    (.edit k (·.ackAnnounce m))

theorem onAdmitted_rises {depth : Nat} {m : FtPeerMsg} {p : PeerRef} {w w' : Watched}
    (hSteady : Steady w.ft) (hFinish : w.ft.me.state ≠ .finish)
    (h : w.onAdmitted silent (depth + 2) m p = some w') : w.Rises w' := by
  unfold onAdmitted at h
  split at h
  · exact .notifyUpdate h
  · rename_i hListen
    split at h
    · simp only [Option.bind_eq_bind] at h
      have hRead := Rises.read w 0
      split at h
      · obtain ⟨e, hRun, hNotify⟩ := Option.bind_eq_some_iff.mp h
        have hSeated : w.ft.Seated := by
          refine ⟨hSteady.sound.ledger, hSteady.order, hSteady.sound.present ?_, hListen⟩
          revert hListen hFinish
          cases w.ft.me.state <;> simp [FtState.counted]
        exact (hRead.trans (prepareTakeover_rises (w := w.reads 0) hRun hSeated)).trans
          (.notifyUpdate hNotify)
      · exact hRead.trans (.notifyUpdate h)
    · exact checkAndAck_rises hSteady h

/-- The group after the head of `on_peer_msg` and after the sender was
recorded. -/
theorem Updated.steady {f e a : RvFt} {m : FtPeerMsg} {applied : Bool} (h : Steady f)
    (hRec : Received False f e) (hUp : Updated False e m applied a) : Steady a := by
  have hState : a.me.state = f.me.state := by rw [hUp.state, hRec.me]
  refine ⟨hUp.sound hRec.sound, ?_, ?_⟩
  · refine hUp.order ?_
    rw [Ordered, hRec.group]
    exact h.order
  · intro hRanked
    rw [Ranked, hState] at hRanked
    have hListen : f.me.state ≠ .listen := by
      rcases hRanked with hEq | hEq <;> rw [hEq] <;> simp
    rw [hUp.frame.expired, (hRec.quiet hListen).expired]
    exact h.expired hRanked

theorem onRecorded_rises {depth : Nat} {m : FtPeerMsg} {p : PeerRef} {f e : RvFt} {w w' : Watched}
    {group : FtGroup} (hSteady : Steady f) (hFinish : f.me.state ≠ .finish)
    (hRec : Received False f e) (hRecorded : e.group.Recorded False m p group)
    (hStart : m.startNs ≠ f.me.startNs) (hFt : w.ft = e.withGroup group)
    (h : w.onRecorded silent (depth + 2) m p = some w') : w.Rises w' := by
  have hStart' : m.startNs ≠ e.me.startNs := by
    rw [hRec.me]
    exact hStart
  unfold onRecorded at h
  split at h
  · have hUp := Updated.admitted hRec.sound.ledger hRecorded hStart'
    have hAfter := Updated.steady hSteady hRec hUp
    have hState : (e.withGroup (group.update p)).me.state ≠ .finish := by
      rw [hUp.state, hRec.me]
      exact hFinish
    have hEdit := Rises.edit w (fun f => f.withGroup (f.group.update p))
    refine hEdit.trans (onAdmitted_rises ?_ ?_ h)
    · rw [edit_ft, hFt]
      exact hAfter
    · rw [edit_ft, hFt]
      exact hState
  · have hUp := Updated.exited hRec.sound.ledger hRecorded hStart'
    have hAfter := Updated.steady hSteady hRec hUp
    have hEdit := Rises.edit w (fun f => f.withGroup (f.group.dropPeer p .finish))
    refine hEdit.trans (checkAndAck_rises ?_ h)
    rw [edit_ft, hFt]
    exact hAfter

theorem onPeerMsg_rises {depth : Nat} {m : FtPeerMsg} {w w' : Watched} (hSteady : Steady w.ft)
    (hFinish : w.ft.me.state ≠ .finish) (hStart : m.startNs ≠ w.ft.me.startNs)
    (h : w.onPeerMsg silent (depth + 2) m = some w') : w.Rises w' := by
  have hRec := received_spec hSteady.sound m
  refine (Rises.edit w (fun f => { f with lastRcvNs := f.monoNs }.followOldest m)).trans ?_
  unfold onPeerMsg at h
  simp only [onFollowed, Option.bind_eq_bind, Option.pure_def] at h
  split at h
  · obtain ⟨k, hNotify, hEq⟩ := Option.bind_eq_some_iff.mp h
    cases hEq
    refine Rises.trans ?_ ((Rises.notifyUpdate hNotify).trans (.edit k (·.ackAnnounce m)))
    unfold dropListener
    split
    · exact .edit _ _
    · exact .refl _
  · obtain ⟨recorded, hRecord, hRest⟩ := Option.bind_eq_some_iff.mp h
    rcases recordPeer_spec hRec.sound.ledger.booked m with ⟨-, hNone⟩ | ⟨-, group, p, hSome, hRecorded⟩
    · have hEq : recorded = none := Option.some.inj (hRecord.symm.trans hNone)
      rw [hEq] at hRest
      cases hRest
      exact .refl _
    · have hEq := Option.some.inj (hRecord.symm.trans hSome)
      rw [hEq] at hRest
      refine Rises.trans ?_ (onRecorded_rises hSteady hFinish hRec hRecorded hStart rfl hRest)
      exact ⟨[], by simp, by simp⟩

theorem dispatch_rises {call : FtCall} {w w' : Watched} (hSteady : Steady w.ft)
    (hFinish : w.ft.me.state ≠ .finish) (h : w.dispatch silent 3 call = some w') : w.Rises w' := by
  cases call with
  | start param => exact start_rises h
  | stop => exact stop_rises h
  | activate => exact activate_rises hSteady h
  | deactivate => exact deactivate_rises h
  | timer id action => exact fire_rises hSteady hFinish h
  | publish pub =>
      simp only [dispatch, processPub, Option.bind_eq_bind, Option.pure_def] at h
      split at h
      · split at h
        · cases h
          exact .edit w (·.emit .onFtSync)
        · cases h
          exact .refl w
      · split at h
        · cases h
          exact .refl w
        · split at h
          · cases h
            exact .refl w
          · rename_i hStart
            simp only [Option.bind_assoc, Option.bind_some] at h
            obtain ⟨e, hMsg, hEq⟩ := Option.bind_eq_some_iff.mp h
            cases hEq
            exact onPeerMsg_rises hSteady hFinish hStart hMsg

end Watched

/-- The condition on a start: `me` is not queued any more, and the time of the
start is no peer's start time and no armed timer's id. -/
def RvFt.StartsApart (f : RvFt) (input : FtInput) : Prop :=
  match input.call with
  | .start _ => .me ∉ f.group.live ∧
      (∀ r ∈ f.group.live, (f.group.peer r).startNs ≠ input.nowNs) ∧
      ∀ t ∈ f.timers, t.1 ≠ input.nowNs
  | _ => True

/-- The runs before the finish state in which every start is apart. -/
def apartRuns : Transition.System RvFt FtInput FtMark :=
  watchedSystem.guard (fun f input => f.me.state ≠ .finish ∧ f.StartsApart input)

open RvFt

theorem Steady.atTime {f : RvFt} (h : Steady f) (nowNs : Nat) {monoNs : Nat}
    (hTime : f.monoNs ≤ monoNs) : Steady (f.atTime nowNs monoNs) :=
  ⟨h.sound.atTime nowNs monoNs, h.order, fun hRanked => (h.expired hRanked).atTime hTime⟩

/-- A member that starts is listening and the queue is the one there was. -/
theorem Steady.of_started {C : Prop} {f g : RvFt} {param : FtParameters} (h : f.Started C param g)
    (hAbsent : .me ∉ f.group.live) (hOrder : f.Ordered) : Steady g := by
  have hInv := h.rankInv
  refine ⟨hInv.sound, ?_, hInv.expired⟩
  unfold Ordered
  rw [h.live]
  refine Descending.congr hOrder ?_
  intro r hr
  apply FtPeer.Same.rank
  apply h.peer
  rintro rfl
  exact hAbsent hr

/-- A start that is apart renews the books. -/
theorem Steady.restart {f g : RvFt} (h : Steady f) (hFinish : f.me.state ≠ .finish)
    {param : FtParameters} (hAbsent : .me ∉ f.group.live)
    (hPeers : ∀ r ∈ f.group.live, (f.group.peer r).startNs ≠ f.nowNs)
    (hTimers : ∀ t ∈ f.timers, t.1 ≠ f.nowNs) (hStart : f.start param = some g) : Steady g := by
  have hListen : f.me.state = .listen := by
    have hCounted : f.me.state.counted ≠ true := fun hEq => hAbsent (h.sound.present hEq)
    revert hFinish hCounted
    cases f.me.state <;> simp [FtState.counted]
  have hLedger := h.sound.ledger
  have hFresh : ∀ s r, (s, r) ∈ f.group.peerHt → s ≠ f.nowNs := by
    intro s r hMem
    rw [← hLedger.booked.start s r hMem]
    exact hPeers r ((hLedger.matched r).mp (mem_indexed.mpr ⟨s, hMem⟩)).1
  obtain ⟨k, hCall, hStarted⟩ := start_started (C := False) (f := f)
    ⟨hLedger, h.sound.absent hListen, hFresh, h.sound.timers.1, fun a ha => hTimers _ ha rfl,
      False.elim⟩ param
  rw [hStart] at hCall
  cases hCall
  exact Steady.of_started hStarted hAbsent h.order

/-- Calls keep the books, up to the call that finishes. -/
theorem Steady.step {f g : RvFt} {input : FtInput} {emitted : List FtOut} (h : Steady f)
    (hFinish : f.me.state ≠ .finish) (hApart : f.StartsApart input)
    (hStep : ftSystem.step f input emitted g) : Steady g ∨ g.me.state = .finish := by
  obtain ⟨hTime, hDispatch, -⟩ := step_dispatch hStep
  have hBefore := h.atTime input.nowNs hTime
  unfold StartsApart at hApart
  by_cases hStart : input.call.isStart = true
  · left
    generalize input.call = call at *
    cases call with
    | start param => exact hBefore.restart hFinish hApart.1 hApart.2.1 hApart.2.2 hDispatch
    | _ => cases hStart
  · have hCalled := step_called h.sound hStep (by simpa using hStart)
    have hSound := hCalled.kept.sound
    cases hCalled with
    | turn _ hTurn _ =>
        exact Or.inl ⟨hSound, hTurn.order hBefore.order, hTurn.expired hBefore.expired⟩
    | heard m _ _ hHeard =>
        exact Or.inl ⟨hSound, hHeard.order hBefore.order, hHeard.expired hBefore.expired⟩
    | finished _ _ hFinished => exact Or.inr hFinished.state

/-- In every run before the finish state in which every start is apart, `me`
leads whenever it becomes primary. -/
theorem primary_leads {client : EvRvClient} {nowNs monoNs : Nat} {param : FtParameters}
    {f g : RvFt} {inputs : List FtInput} {first marks : List FtMark}
    (hStart : watchedStart client nowNs monoNs param = some (f, first))
    (hRun : apartRuns.Run f inputs marks g) {h : RvFt} (hMark : h ∈ promotions (first ++ marks)) :
    Leads h := by
  obtain ⟨oldState, hMark, hOld⟩ := mem_promotions.mp hMark
  obtain ⟨w, hCall, hEq⟩ := Option.map_eq_some_iff.mp hStart
  cases hEq
  have hPlain := Watched.start_erases param { ft := { client, nowNs, monoNs } }
  rw [hCall] at hPlain
  have hInit : ftSystem.init w.ft := ⟨client, nowNs, monoNs, param, hPlain.symm⟩
  have hSteady : Steady w.ft := by
    obtain ⟨e, param, hGroup, hStarted⟩ := start_fresh hInit
    refine Steady.of_started hStarted ?_ ?_
    · rw [hGroup]
      simp
    · unfold Ordered
      rw [hGroup]
      exact List.Pairwise.nil
  have hFirst : ∀ oldState h, .returned oldState .primary h ∈ w.marks → oldState ≠ .primary →
      Leads h := by
    obtain ⟨more, hMarks, hLeads⟩ := Watched.start_rises hCall
    rw [hMarks]
    exact hLeads
  refine (Transition.System.Run.invariant_outputs (fun f sofar => (Steady f ∨ f.me.state = .finish) ∧
    ∀ oldState h, .returned oldState .primary h ∈ sofar → oldState ≠ .primary → Leads h) ?_ hRun
      ⟨Or.inl hSteady, hFirst⟩).2 oldState h hMark hOld
  rintro f sofar input marks g ⟨hInv, hSofar⟩ ⟨⟨hFinish, hApart⟩, hStep⟩
  have hBefore := hInv.resolve_right hFinish
  refine ⟨hBefore.step hFinish hApart (watchedSystem_step hStep), ?_⟩
  obtain ⟨e, hDispatch, rfl, rfl⟩ := watch_eq_some hStep.2
  obtain ⟨more, hMarks, hLeads⟩ := Watched.dispatch_rises
    (w := { ft := f.atTime input.nowNs input.monoNs }) (hBefore.atTime input.nowNs hStep.1) hFinish
    hDispatch
  intro oldState h hMem hOld
  rcases List.mem_append.mp hMem with hMem | hMem
  · exact hSofar oldState h hMem hOld
  · rw [hMarks] at hMem
    exact hLeads oldState h hMem hOld

instance : (f : RvFt) → (input : FtInput) → Decidable (f.StartsApart input)
  | _, ⟨_, _, .start _⟩ => inferInstanceAs (Decidable (_ ∧ _))
  | _, ⟨_, _, .stop⟩ => .isTrue trivial
  | _, ⟨_, _, .activate⟩ => .isTrue trivial
  | _, ⟨_, _, .deactivate⟩ => .isTrue trivial
  | _, ⟨_, _, .timer _ _⟩ => .isTrue trivial
  | _, ⟨_, _, .publish _⟩ => .isTrue trivial

/-- Execution of the watched system on inputs that meet a condition. -/
def watchWhen (ok : RvFt → FtInput → Prop) [∀ f input, Decidable (ok f input)] (f : RvFt)
    (input : FtInput) : Option (RvFt × List FtMark) :=
  if ok f input ∧ f.monoNs ≤ input.monoNs then f.watch input else none

theorem watchWhen_step {ok : RvFt → FtInput → Prop} [∀ f input, Decidable (ok f input)]
    {f g : RvFt} {input : FtInput} {marks : List FtMark}
    (h : watchWhen ok f input = some (g, marks)) : (watchedSystem.guard ok).step f input marks g := by
  unfold watchWhen at h
  split at h
  · rename_i hOk
    exact ⟨hOk.1, hOk.2, h⟩
  · cases h

/-- The first `start` at time 100. -/
def sampleWatched (param : FtParameters) : Option (RvFt × List FtMark) :=
  watchedStart plainClient 100 1 param

/-- The promotions of a run from the first start at time 100. -/
def promotionsOf (ok : RvFt → FtInput → Prop) [∀ f input, Decidable (ok f input)]
    (param : FtParameters) (inputs : List FtInput) : Option (List RvFt) := do
  let (f, first) ← sampleWatched param
  let (_, marks) ← Transition.System.runAll (watchWhen ok) f inputs
  return promotions (first ++ marks)

theorem run_of_promotionsOf {ok : RvFt → FtInput → Prop} [∀ f input, Decidable (ok f input)]
    {param : FtParameters} {inputs : List FtInput} {promoted : List RvFt}
    (h : promotionsOf ok param inputs = some promoted) : ∃ f first g marks,
      sampleWatched param = some (f, first) ∧ (watchedSystem.guard ok).Run f inputs marks g ∧
        promotions (first ++ marks) = promoted := by
  simp only [promotionsOf, Option.bind_eq_bind, Option.bind_eq_some_iff, Option.pure_def,
    Option.some.injEq] at h
  obtain ⟨⟨f, first⟩, hStart, ⟨g, marks⟩, hRun, hPromoted⟩ := h
  exact ⟨f, first, g, marks, hStart,
    Transition.System.Run.of_runAll (fun _ _ _ _ hStep => watchWhen_step hStep) hRun, hPromoted⟩

/-- A member that is alone becomes primary when its activate timer fires. -/
theorem primary_leads_solo : ∃ f first g marks h,
    watchedStart plainClient 100 1 {} = some (f, first) ∧ apartRuns.Run f soloInputs marks g ∧
      h ∈ promotions (first ++ marks) ∧ Leads h := by
  have hSome : ((promotionsOf (fun f input => f.me.state ≠ .finish ∧ f.StartsApart input) {}
      soloInputs).map List.length) = some 1 := by decide
  obtain ⟨promoted, hPromoted, hLength⟩ := Option.map_eq_some_iff.mp hSome
  obtain ⟨f, first, g, marks, hStart, hRun, hEq⟩ := run_of_promotionsOf hPromoted
  obtain ⟨h, hOne⟩ := List.length_eq_one_iff.mp hLength
  have hMem : h ∈ promotions (first ++ marks) := by rw [hEq, hOne]; simp
  exact ⟨f, first, g, marks, h, hStart, hRun, hMem, primary_leads hStart hRun hMem⟩

/-- Short intervals. -/
def quickParameters : FtParameters := { joinMs := 310, heartbeatMs := 200, activateMs := 300 }

/-- A primary of weight 20 hears of a secondary of weight 10, starts again with
weight 5 while it is queued, and joins. -/
def lighterInputs : List FtInput :=
  [⟨310000100, 310000001, .timer 100 .join⟩,
    ⟨350000100, 350000001,
      peerPub { type := 2, state := 3, startNs := 50, weight := 10, curTime := 350000090 }⟩,
    ⟨360000100, 360000001, .start { quickParameters with weight := 5 }⟩,
    ⟨670000100, 670000001, .timer 360000100 .join⟩]

/-- The stale entry of `me` is first, and `me` becomes primary in front of the
heavier secondary. -/
theorem primary_can_trail : ¬ ∀ client nowNs monoNs param f first inputs marks g,
    watchedStart client nowNs monoNs param = some (f, first) →
      (watchedSystem.guard (fun f _ => f.me.state ≠ .finish)).Run f inputs marks g →
        ∀ h ∈ promotions (first ++ marks), Leads h := by
  intro hAll
  have hSome : ((promotionsOf (fun f _ => f.me.state ≠ .finish) quickParameters
      lighterInputs).map (fun promoted => promoted.any (fun h => h.group.live.any (fun r =>
        decide ((h.group.peer r).state.code > FtState.join.code) &&
          (h.group.peer r).isGreaterWeight h.me)))) = some true := by decide
  obtain ⟨promoted, hPromoted, hTrue⟩ := Option.map_eq_some_iff.mp hSome
  obtain ⟨f, first, g, marks, hStart, hRun, hEq⟩ := run_of_promotionsOf hPromoted
  obtain ⟨h, hMem, hAny⟩ := List.any_eq_true.mp hTrue
  obtain ⟨r, hr, hGreater⟩ := List.any_eq_true.mp hAny
  rw [Bool.and_eq_true, decide_eq_true_eq] at hGreater
  have hLeads := hAll _ _ _ _ _ _ _ _ _ hStart hRun h (by rw [hEq]; exact hMem)
  rw [hLeads.above r hr hGreater.1] at hGreater
  cases hGreater.2

end Sassrv.Ft
