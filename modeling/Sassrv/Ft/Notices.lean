import Sassrv.Ft.Callbacks
import Sassrv.Ft.Silence

/-! The states that `me` enters and the states that the listener is told of. The
listener hears of every state in order, those of its own calls included, except
where the takeover is due when `me` joins: the rank that follows is told before
the join. -/
namespace Sassrv.Ft
open FtGroup

/-- The states entered. -/
def entries (marks : List FtMark) : List FtState :=
  marks.filterMap (fun
    | .entered state => some state
    | _ => none)

/-- The state that a notification stands for. -/
def FtAction.state : FtAction → Option FtState
  | .listen => some .listen
  | .join => some .join
  | .activate => some .primary
  | .deactivate => some .secondary
  | .finish => some .finish
  | _ => none

/-- The states told. -/
def notices (marks : List FtMark) : List FtState :=
  marks.filterMap (fun
    | .notified action => action.state
    | _ => none)

/-- What leaves the state of `me` alone. -/
def Stays (f g : RvFt) : Prop := g.me.state = f.me.state

namespace RvFt

theorem Quiet.stays {f g : RvFt} (h : f.Quiet g) : Stays f g := by rw [Stays, h.me]

theorem dropPeer_stays {g : FtGroup} {p : PeerRef} (hp : p ≠ .me) (state : FtState) :
    ((g.dropPeer p state).peer .me).state = (g.peer .me).state := by
  have hRemoved := (remove_sameTable (g.updateState p state) p).peer .me
  have hSame : (g.updateState p state).peer .me = g.peer .me :=
    Function.update_of_ne hp.symm _ _
  rw [hSame] at hRemoved
  exact hRemoved.state

theorem trimLoop_stays (i : Nat) (f : RvFt) : Stays f (trimLoop i f) := by
  induction i generalizing f with
  | zero => rfl
  | succ i ih =>
      simp only [trimLoop]
      split
      · rfl
      · split
        · rename_i hMissing
          exact (ih _).trans (dropPeer_stays hMissing.1 .finish)
        · exact ih f

theorem startHb_group (f : RvFt) (hbIval actIval prepIval : Nat) :
    (f.startHb hbIval actIval prepIval).group = f.group := by
  unfold startHb
  simp only
  split
  · split
    · rw [cancelTimer_group, cancelTimer_group, cancelTimer_group]
    · change (RvFt.cancelTimer _ .heartbeat).group = f.group
      rw [cancelTimer_group, cancelTimer_group, cancelTimer_group]
  · split
    · rfl
    · rfl

theorem startHb_stays (f : RvFt) (hbIval actIval prepIval : Nat) :
    Stays f (f.startHb hbIval actIval prepIval) := by
  rw [Stays, RvFt.me, RvFt.me, startHb_group]

theorem followOldest_group (f : RvFt) (m : FtPeerMsg) : (f.followOldest m).group = f.group := by
  unfold followOldest
  split
  · rw [startHb_group]
  · rfl

theorem recordPeer_stays {f g : RvFt} {m : FtPeerMsg} {p : PeerRef} (h : f.group.Foreign)
    (hCall : f.recordPeer m = some (some (g, p))) : p ≠ .me ∧ Stays f g := by
  unfold recordPeer at hCall
  split at hCall
  · simp only [Option.bind_eq_bind, Option.pure_def, Option.bind_eq_some_iff] at hCall
    obtain ⟨⟨group, q⟩, hMake, hEq⟩ := hCall
    cases hEq
    simp only [FtGroup.makePeer, Option.bind_eq_bind, Option.pure_def,
      Option.bind_eq_some_iff] at hMake
    obtain ⟨⟨chain, r⟩, hSlot, hEq⟩ := hMake
    cases hEq
    have hp := makePeer_ne_me hSlot
    refine ⟨hp, ?_⟩
    simp [Stays, RvFt.me, withGroup, FtGroup.modify, FtGroup.set, Function.update_of_ne hp.symm]
  · rename_i q hFind
    split at hCall
    · cases hCall
    · cases hCall
      have hp := find_ne_me h hFind
      refine ⟨hp, ?_⟩
      simp [Stays, RvFt.me, withGroup, FtGroup.modify, FtGroup.set, Function.update_of_ne hp.symm]

/-- `me` is in the state that it was told to enter. -/
theorem enterState_state (f : RvFt) (state : FtState) : (f.enterState state).me.state = state := by
  unfold enterState
  split
  · rename_i hNew
    have hSet : ((f.group.updateState .me state).peer .me).state = state := by
      rw [updateState_me]
    change ((f.group.restate state).peer .me).state = state
    have hNew' : state ≠ (f.group.peer .me).state := hNew
    rw [restate, if_pos hNew']
    split
    · rw [((update_sameTable (f.group.updateState .me state) .me).peer .me).state]
      exact hSet
    · exact hSet
  · rename_i hSame
    rw [not_not] at hSame
    exact hSame.symm

end RvFt

namespace Watched
open RvFt

/-- `me` enters the states of `s` and the listener is told those of `t`. -/
structure Adds (w w' : Watched) (s t : List FtState) : Prop where
  marks : ∃ more, w'.marks = w.marks ++ more ∧ entries more = s ∧ notices more = t
  state : w'.ft.me.state = s.getLastD w.ft.me.state
  foreign : w.ft.group.Foreign → w'.ft.group.Foreign

theorem getLastD_append (s t : List FtState) (a : FtState) :
    (s ++ t).getLastD a = t.getLastD (s.getLastD a) := by
  cases t with
  | nil => simp
  | cons x t => simp

theorem Adds.trans {w w' w'' : Watched} {s t s' t' : List FtState} (left : w.Adds w' s t)
    (right : w'.Adds w'' s' t') : w.Adds w'' (s ++ s') (t ++ t') := by
  obtain ⟨more, hMarks, hs, ht⟩ := left.marks
  obtain ⟨more', hMarks', hs', ht'⟩ := right.marks
  refine ⟨⟨more ++ more', by rw [hMarks', hMarks, List.append_assoc], ?_, ?_⟩, ?_,
    fun hForeign => right.foreign (left.foreign hForeign)⟩
  · simp [entries, ← hs, ← hs']
  · simp [notices, ← ht, ← ht']
  · rw [right.state, left.state, getLastD_append]

/-- Nothing is marked, and `me` stays in its state and out of the index. -/
theorem Adds.edit (w : Watched) (change : RvFt → RvFt) (h : Stays w.ft (change w.ft))
    (hForeign : w.ft.group.Foreign → (change w.ft).group.Foreign) : w.Adds (w.edit change) [] [] :=
  ⟨⟨[], by simp, rfl, rfl⟩, h, hForeign⟩

/-- The group is left alone. -/
theorem Adds.still (w : Watched) (change : RvFt → RvFt) (h : (change w.ft).group = w.ft.group) :
    w.Adds (w.edit change) [] [] := by
  refine .edit w change ?_ (fun hForeign => ?_)
  · rw [Stays, RvFt.me, RvFt.me, h]
  · rw [h]
    exact hForeign

/-- An operation on the queue. -/
theorem Adds.requeue (w : Watched) {group : FtGroup} (h : w.ft.group.SameTable group) :
    w.Adds (w.edit (·.withGroup group)) [] [] :=
  .edit w _ (h.peer .me).state (fun hForeign => (h.kin hForeign).foreign)

theorem Adds.dropPeer (w : Watched) {p : PeerRef} (hp : p ≠ .me) (state : FtState) :
    w.Adds (w.edit (fun f => f.withGroup (f.group.dropPeer p state))) [] [] :=
  .edit w _ (dropPeer_stays hp state) (fun hForeign => (Kin.dropPeer hForeign p state).foreign)

theorem Adds.trim (w : Watched) : w.Adds (w.edit (·.trimFtQueue)) [] [] :=
  .edit w _ (trimLoop_stays _ _) (fun hForeign => (trimLoop_sends hForeign).foreign)

theorem Adds.refl (w : Watched) : w.Adds w [] [] := ⟨⟨[], by simp, rfl, rfl⟩, rfl, id⟩

theorem Adds.mark (w : Watched) {m : FtMark} (hs : entries [m] = []) (ht : notices [m] = []) :
    w.Adds (w.mark m) [] [] :=
  ⟨⟨[m], rfl, hs, ht⟩, rfl, id⟩

theorem Adds.reads (w : Watched) (i : Nat) : w.Adds (w.reads i) [] [] := .mark w rfl rfl

theorem Adds.setPrepareTimer {w w' : Watched} (h : w.setPrepareTimer = some w') :
    w.Adds w' [] [] := by
  simp only [Watched.setPrepareTimer, Option.bind_eq_bind, Option.pure_def,
    Option.bind_eq_some_iff] at h
  obtain ⟨p, -, hEq⟩ := h
  cases hEq
  exact (Adds.reads w 0).trans (.still _ _ (Quiet.setPrepareTimer w.ft p).group)

theorem Adds.setActivateTimer {w w' : Watched} (h : w.setActivateTimer = some w') :
    w.Adds w' [] [] := by
  simp only [Watched.setActivateTimer, Option.bind_eq_bind, Option.pure_def,
    Option.bind_eq_some_iff] at h
  obtain ⟨p, -, hEq⟩ := h
  cases hEq
  exact (Adds.reads w 0).trans (.still _ _ (Quiet.setActivateTimer w.ft p).group)

theorem Adds.enterState (w : Watched) (state : FtState) :
    w.Adds (w.enterState state) (if state = w.ft.me.state then [] else [state]) [] := by
  unfold Watched.enterState
  by_cases hSame : state = w.ft.me.state
  · rw [if_neg (not_not.mpr hSame), if_pos hSame]
    exact Adds.refl w
  · rw [if_pos hSame, if_neg hSame]
    exact ⟨⟨[.entered state], rfl, rfl, rfl⟩, enterState_state w.ft state,
      fun hForeign => (Sends.enterState hForeign state).foreign⟩

/-- Every state entered is told, one after the other. -/
def Tells (w w' : Watched) : Prop := ∃ s, w.Adds w' s s

theorem Adds.tells {w w' : Watched} {s : List FtState} (h : w.Adds w' s s) : w.Tells w' := ⟨s, h⟩

theorem Tells.refl (w : Watched) : w.Tells w := (Adds.refl w).tells

theorem Tells.trans {w w' w'' : Watched} (left : w.Tells w') (right : w'.Tells w'') :
    w.Tells w'' := by
  obtain ⟨s, hs⟩ := left
  obtain ⟨t, ht⟩ := right
  exact (hs.trans ht).tells

theorem Tells.foreign {w w' : Watched} (h : w.Tells w') (hForeign : w.ft.group.Foreign) :
    w'.ft.group.Foreign := by
  obtain ⟨s, hs⟩ := h
  exact hs.foreign hForeign

/-- Every state entered is told, and the primary rank is not taken. -/
def Yields (w w' : Watched) : Prop :=
  w.Tells w' ∧ (w.ft.me.state ≠ .primary → w'.ft.me.state ≠ .primary)

theorem Yields.refl (w : Watched) : w.Yields w := ⟨Tells.refl w, id⟩

theorem Yields.trans {w w' w'' : Watched} (left : w.Yields w') (right : w'.Yields w'') :
    w.Yields w'' :=
  ⟨left.1.trans right.1, fun hState => right.2 (left.2 hState)⟩

/-- A listener whose calls yield. -/
def Heeds (cb : Listener) : Prop := ∀ site w w', cb site w = some w' → w.Yields w'

/-- `set_state` tells of a rank that `me` takes. -/
def TellsRanks (setState : FtState → Watched → Option Watched) : Prop :=
  ∀ w w', (w.ft.me.state ≠ .primary → setState .primary w = some w' → w.Tells w') ∧
    (setState .secondary w = some w' → w.Tells w')

/-- The condition under which a call tells every state in the order in which
`me` enters it. `me` joins before the activation interval is over and is not
joining yet, and it finishes once. -/
def Prompt (f : RvFt) : FtCall → Prop
  | .activate => f.me.state = .listen → f.activateMs ≠ 0
  | .timer id .join => id = f.tid → f.me.state ≠ .join ∧ ¬ f.Expired
  | .stop => f.finishMs = 0 → f.me.state ≠ .finish
  | .timer id .finish => id = f.tid → f.me.state ≠ .finish
  | _ => True

section Handlers

variable {cb : Listener} (hCb : Heeds cb)
include hCb

theorem notifyChange_unranked {site : FtSite} {w w' : Watched}
    (h : w.notifyChange cb site = some w') (hState : w.ft.me.state ≠ .primary) :
    w'.ft.me.state ≠ .primary := by
  simp only [notifyChange, Option.bind_eq_bind, Option.pure_def, Option.bind_eq_some_iff] at h
  obtain ⟨e, hCall, hEq⟩ := h
  cases hEq
  exact (hCb site _ e hCall).2 hState

/-- The listener is told what `me` has entered last, and what it calls follows. -/
theorem Adds.notifies {site : FtSite} {w e w' : Watched} {s : List FtState} (hBefore : w.Adds e s [])
    (hSite : site.action.state.toList = s) (h : e.notifyChange cb site = some w') :
    ∃ k, w.Adds k s s ∧ k.Tells w' := by
  simp only [notifyChange, Option.bind_eq_bind, Option.pure_def, Option.bind_eq_some_iff] at h
  obtain ⟨k, hCall, hEq⟩ := h
  cases hEq
  have hEmit := Adds.still e (·.emit (.onFtChange site.action)) rfl
  have hMark : (e.edit (·.emit (.onFtChange site.action))).Adds
      ((e.edit (·.emit (.onFtChange site.action))).mark (.notified site.action)) [] s := by
    refine ⟨⟨[.notified site.action], rfl, rfl, ?_⟩, rfl, id⟩
    rw [← hSite]
    cases site <;> rfl
  have hTold := (hBefore.trans hEmit).trans hMark
  rw [List.append_nil, List.append_nil, List.nil_append, List.nil_append] at hTold
  exact ⟨_, hTold, (hCb site _ k hCall).1.trans
    (Adds.still k (fun f => { f with lastSeqno := f.group.seqno }) rfl).tells⟩

theorem Adds.told {site : FtSite} {w e w' : Watched} {s : List FtState} (hBefore : w.Adds e s [])
    (hSite : site.action.state.toList = s) (h : e.notifyChange cb site = some w') : w.Tells w' := by
  obtain ⟨k, hTold, hRest⟩ := hBefore.notifies hCb hSite h
  exact hTold.tells.trans hRest

theorem notifyUpdate_tells {w w' : Watched} (h : w.notifyUpdate cb = some w') : w.Tells w' := by
  unfold Watched.notifyUpdate at h
  split at h
  · exact (Adds.refl w).told hCb rfl h
  · cases h
    exact .refl w

theorem armTakeover_tells {w w' : Watched} {p : PeerRef} {action : FtAction} {originNs : Nat}
    (h : w.armTakeover cb p action originNs = some w') : w.Tells w' := by
  unfold Watched.armTakeover at h
  split at h
  · exact (Adds.setPrepareTimer h).tells
  · simp only [Option.bind_eq_bind] at h
    split at h
    · obtain ⟨e, hNotify, hArm⟩ := Option.bind_eq_some_iff.mp h
      exact ((Adds.refl w).told hCb rfl hNotify).trans (Adds.setActivateTimer hArm).tells
    · exact (Adds.setActivateTimer h).tells

omit hCb in
/-- Only an expired prepare timer tells that the takeover is prepared. -/
theorem Adds.armTakeover {w w' : Watched} {p : PeerRef} {action : FtAction} {originNs : Nat}
    (hAction : action ≠ .prepare) (h : w.armTakeover cb p action originNs = some w') :
    w.Adds w' [] [] := by
  unfold Watched.armTakeover at h
  split at h
  · exact Adds.setPrepareTimer h
  · simp only [Option.bind_eq_bind, if_neg (not_and.mpr fun hEq => absurd hEq hAction)] at h
    exact Adds.setActivateTimer h

theorem prepareTakeover_tells {setState : FtState → Watched → Option Watched}
    (hSet : TellsRanks setState) {action : FtAction} {deadline : Nat} {w w' : Watched}
    (hState : w.ft.me.state ≠ .primary ∨ w.ft.group.ptr 0 ≠ some .me)
    (h : w.prepareTakeover cb setState action deadline = some w') : w.Tells w' := by
  simp only [prepareTakeover, Option.bind_eq_bind, Option.pure_def,
    Option.bind_eq_some_iff] at h
  obtain ⟨p, hHead, h⟩ := h
  have hRead := (Adds.reads w 0).tells
  split at h
  · rename_i hFirst
    have hNotPrimary : w.ft.me.state ≠ .primary := by
      rcases hState with hState | hPtr
      · exact hState
      · rcases hFirst with rfl | hJoin
        · exact absurd hHead hPtr
        · rw [hJoin]
          simp
    split at h
    · have hEnd : ∀ e, w.Tells e → e.notifyUpdate cb = some w' → w.Tells w' :=
        fun e hTells hNotify => hTells.trans (notifyUpdate_tells hCb hNotify)
      split at h
      · obtain ⟨e, hCall, hNotify⟩ := Option.bind_eq_some_iff.mp h
        exact hEnd e (hRead.trans ((hSet _ _).1 hNotPrimary hCall)) hNotify
      · obtain ⟨e, hCall, hNotify⟩ := Option.bind_eq_some_iff.mp h
        exact hEnd e (hRead.trans ((hSet _ _).2 hCall)) hNotify
    · exact hRead.trans (armTakeover_tells hCb h)
  · have hBoth := hRead.trans (Adds.reads _ 1).tells
    split at h
    · cases h
      exact hBoth
    · split at h
      · have hCancel := hBoth.trans (Adds.still ((w.reads 0).reads 1)
          (fun f => (f.cancelTimer .prepare).cancelTimer .activate)
          ((Quiet.cancelTimer _ (by simp)).trans (.cancelTimer _ (by simp))).group).tells
        split at h
        · exact hCancel.trans ((Adds.refl _).told hCb rfl h)
        · cases h
          exact hCancel
      · exact hBoth.trans (armTakeover_tells hCb h)

/-- `me` has finished and the listener is told. -/
theorem finish_tells {w e w' : Watched} (hBefore : w.Adds e [.finish] [])
    (h : e.finish cb = some w') : w.Tells w' ∧ w'.ft.me.state ≠ .primary := by
  unfold Watched.finish at h
  have hSend : e.Adds (if e.ft.me.state ≠ .listen then e.edit (·.sendMsg .exiting []) else e)
      [] [] := by
    split
    · exact .still e _ (Quiet.sendMsg e.ft .exiting []).group
    · exact Adds.refl e
  simp only at h
  generalize (if e.ft.me.state ≠ .listen then e.edit (·.sendMsg .exiting []) else e) = k at hSend h
  have hBeat := Adds.still k (·.cancelTimer .heartbeat) (cancelTimer_group _ _)
  have hStop := Adds.still (k.edit (·.cancelTimer .heartbeat)) (·.stopTimers) (Quiet.stopTimers _).group
  have hLeave := Adds.still ((k.edit (·.cancelTimer .heartbeat)).edit (·.stopTimers))
    (fun f => f.emit (.unsubscribe f.ftSub)) (Quiet.emit _ _).group
  have hAll := (((hBefore.trans hSend).trans hBeat).trans hStop).trans hLeave
  refine ⟨hAll.told hCb rfl h, notifyChange_unranked hCb h ?_⟩
  rw [hAll.state]
  intro hEq
  cases hEq

omit hCb in
/-- The end of `set_state`. -/
theorem setState_succ {depth : Nat} {state : FtState} {w w' : Watched}
    (h : w.setState cb (depth + 1) state = some w') : ∃ e,
      (w.enterState state).actOnState cb (setState cb depth) w.ft.me.state state = some e ∧
      e.Adds w' [] [] ∧ w'.ft = e.ft := by
  simp only [setState, Option.bind_eq_bind, Option.pure_def, Option.bind_eq_some_iff] at h
  obtain ⟨e, hAct, hEq⟩ := h
  cases hEq
  exact ⟨e, hAct, .mark e rfl rfl, rfl⟩

theorem setState_primary_tells {depth : Nat} {w w' : Watched} (hState : w.ft.me.state ≠ .primary)
    (h : w.setState cb depth .primary = some w') : w.Tells w' := by
  cases depth with
  | zero => cases h
  | succ depth =>
      obtain ⟨e, hAct, hEnd, -⟩ := setState_succ h
      simp only [actOnState, Option.bind_eq_bind, Option.pure_def, Option.bind_eq_some_iff] at hAct
      obtain ⟨k, hNotify, hEq⟩ := hAct
      cases hEq
      have hEnter := Adds.enterState w .primary
      rw [if_neg hState.symm] at hEnter
      have hStamp := Adds.still (w.enterState .primary) (fun f => { f with
        activateNs := f.stateNs }) rfl
      have hSend := Adds.still k (·.sendMsg .activate []) (Quiet.sendMsg k.ft .activate []).group
      exact (((hEnter.trans hStamp).told hCb rfl hNotify).trans hSend.tells).trans hEnd.tells

theorem setState_tells (depth : Nat) : TellsRanks (setState cb depth) := by
  induction depth with
  | zero =>
      intro w w'
      exact ⟨fun _ h => (nomatch h), fun h => (nomatch h)⟩
  | succ depth ih =>
      refine fun w w' => ⟨setState_primary_tells hCb, fun h => ?_⟩
      obtain ⟨e, hAct, hEnd, -⟩ := setState_succ h
      simp only [actOnState, Option.bind_eq_bind] at hAct
      have hState := enterState_state w.ft .secondary
      rw [← enterState_ft] at hState
      have hEnter := Adds.enterState w .secondary
      generalize w.enterState .secondary = k at hState hEnter hAct
      by_cases hOld : w.ft.me.state = .secondary
      · rw [if_pos hOld.symm] at hEnter
        rw [if_neg (not_not.mpr hOld)] at hAct
        exact (hEnter.tells.trans (prepareTakeover_tells hCb ih (Or.inl (by rw [hState]; simp))
          hAct)).trans hEnd.tells
      · rw [if_neg (Ne.symm hOld)] at hEnter
        rw [if_pos hOld] at hAct
        obtain ⟨b, hNotify, hRest⟩ := Option.bind_eq_some_iff.mp hAct
        have hStamp := Adds.still k (fun f => { f with deactivateNs := f.stateNs }) rfl
        have hSend := hStamp.trans (.still _ (·.sendMsg .deactivate [])
          (Quiet.sendMsg _ .deactivate []).group)
        have hEntered := hEnter.trans hSend
        -- The listener may have left the rank, but it has not taken the first one.
        have hRank : b.ft.me.state ≠ .primary := by
          refine notifyChange_unranked hCb hNotify ?_
          rw [hEntered.state]
          intro hEq
          cases hEq
        exact ((hEntered.told hCb rfl hNotify).trans (prepareTakeover_tells hCb ih (Or.inl hRank)
          hRest)).trans hEnd.tells

omit hCb in
/-- `set_state( STATE_LISTEN )` tells nothing, its callers do. -/
theorem setState_listen_adds {depth : Nat} {w w' : Watched}
    (h : w.setState cb depth .listen = some w') :
    w.Adds w' (if .listen = w.ft.me.state then [] else [.listen]) [] := by
  cases depth with
  | zero => cases h
  | succ depth =>
      obtain ⟨e, hAct, hEnd, -⟩ := setState_succ h
      cases hAct
      have hSend := Adds.still (w.enterState .listen) (·.sendMsg .announce [])
        (Quiet.sendMsg _ .announce []).group
      simpa using ((Adds.enterState w .listen).trans hSend).trans hEnd

theorem setState_finish_tells {depth : Nat} {w w' : Watched} (hState : w.ft.me.state ≠ .finish)
    (h : w.setState cb depth .finish = some w') : w.Tells w' ∧ w'.ft.me.state ≠ .primary := by
  cases depth with
  | zero => cases h
  | succ depth =>
      obtain ⟨e, hAct, hEnd, hSame⟩ := setState_succ h
      have hEnter := Adds.enterState w .finish
      rw [if_neg hState.symm] at hEnter
      obtain ⟨hTells, hRank⟩ := finish_tells hCb hEnter hAct
      rw [hSame]
      exact ⟨hTells.trans hEnd.tells, hRank⟩

omit hCb in
/-- A takeover that is not due arms a timer. -/
theorem prepareTakeover_early {setState : FtState → Watched → Option Watched} {deadline : Nat}
    {w w' : Watched} (hJoin : w.ft.me.state = .join) (hEarly : ¬ w.ft.Expired)
    (h : w.prepareTakeover cb setState .join deadline = some w') : w.Adds w' [] [] := by
  simp only [prepareTakeover, Option.bind_eq_bind, Option.bind_eq_some_iff] at h
  obtain ⟨p, -, h⟩ := h
  have hTime : ¬ w.ft.expiredDeltaMs w.ft.startMono w.ft.activateMs ≤ 0 := hEarly
  rw [if_pos (Or.inr hJoin), if_neg hTime] at h
  exact (Adds.reads w 0).trans (.armTakeover (by simp) h)

/-- `me` joins before the activation interval is over. -/
theorem setState_join_tells {depth : Nat} {w w' : Watched} (hState : w.ft.me.state ≠ .join)
    (hEarly : ¬ w.ft.Expired) (h : w.setState cb depth .join = some w') :
    w.Tells w' ∧ w'.ft.me.state ≠ .primary := by
  cases depth with
  | zero => cases h
  | succ depth =>
      obtain ⟨e, hAct, hEnd, hSame⟩ := setState_succ h
      simp only [actOnState, Option.bind_eq_bind, Option.bind_eq_some_iff] at hAct
      obtain ⟨k, hTakeover, hNotify⟩ := hAct
      have hEnter := Adds.enterState w .join
      rw [if_neg hState.symm] at hEnter
      have hJoined := enterState_state w.ft .join
      have hFrame := (enterState_frame w.ft .join).1
      rw [← enterState_ft] at hJoined hFrame
      generalize w.enterState .join = b at hEnter hJoined hFrame hTakeover
      have hInsert := Adds.requeue b (insert_sameTable b.ft.group .me)
      have hSend := hInsert.trans (.still _ (·.sendMsg .announce [])
        (Quiet.sendMsg _ .announce []).group)
      have hStill := (hFrame.trans (Frame.withGroup b.ft (b.ft.group.insert .me))).trans
        (Quiet.sendMsg _ .announce []).toFrame
      have hArm := prepareTakeover_early (hSend.state.trans hJoined)
        (fun hDue => hEarly (hStill.expired.mp hDue)) hTakeover
      have hAll := (hEnter.trans hSend).trans hArm
      refine ⟨(hAll.told hCb rfl hNotify).trans hEnd.tells, ?_⟩
      rw [hSame]
      refine notifyChange_unranked hCb hNotify ?_
      rw [hAll.state]
      intro hEq
      cases hEq

theorem start_tells {depth : Nat} {param : FtParameters} {w w' : Watched}
    (h : w.start cb depth param = some w') : ∃ s, w.Adds w' (.listen :: s) (.listen :: s) := by
  simp only [start, Option.bind_eq_bind, Option.bind_eq_some_iff] at h
  obtain ⟨e, hListen, hNotify⟩ := h
  have hPrepared : (w.ft.prepared param).me.state = .listen := by rw [prepared_me]
  have hEnter : w.Adds ((w.edit (·.prepared param)).mark (.entered .listen)) [.listen] [] :=
    ⟨⟨[.entered .listen], rfl, rfl, rfl⟩, hPrepared, id⟩
  have hArmed : ∀ k : Watched, k.Adds (if k.ft.joinMs ≠ 0 then k.edit (·.addTimer .join) else k)
      [] [] := by
    intro k
    split
    · exact .still k _ rfl
    · exact .refl k
  have hBeat := (hEnter.trans (hArmed _)).trans (.still _
    (fun f => f.startHb param.heartbeatMs param.activateMs param.prepareMs) (startHb_group _ _ _ _))
  have hSet := setState_listen_adds hListen
  have hState : _ = FtState.listen := hBeat.state
  rw [hState] at hSet
  obtain ⟨k, hTold, s, hRest⟩ := (hBeat.trans hSet).notifies hCb rfl hNotify
  exact ⟨s, hTold.trans hRest⟩

theorem stop_yields {depth : Nat} {w w' : Watched} (hPrompt : Prompt w.ft .stop)
    (h : w.stop cb depth = some w') : w.Yields w' := by
  unfold stop at h
  split at h
  · rename_i hNow
    obtain ⟨hTells, hRank⟩ := setState_finish_tells hCb (hPrompt hNow) h
    exact ⟨hTells, fun _ => hRank⟩
  · split at h
    · cases h
      exact Yields.refl w
    · cases h
      exact ⟨(Adds.still w (fun f => (f.sendMsg .finish []).addTimer .finish) rfl).tells, id⟩

theorem activate_yields {depth : Nat} {w w' : Watched} (hPrompt : Prompt w.ft .activate)
    (h : w.activate cb depth = some w') : w.Yields w' := by
  unfold activate at h
  split at h
  · rename_i hListen
    have hCancel : ({ w.ft with startMono := w.ft.monoNs } : RvFt).Quiet
        ({ w.ft with startMono := w.ft.monoNs }.cancelTimer .join) := .cancelTimer _ (by simp)
    have hEdit := Adds.still w (fun f => { f with startMono := f.monoNs }.cancelTimer .join)
      hCancel.group
    have hJoin : (w.edit (fun f => { f with startMono := f.monoNs }.cancelTimer .join)).ft.me.state ≠
        .join := by
      rw [hEdit.state]
      simp [hListen]
    obtain ⟨hTells, hRank⟩ := setState_join_tells hCb hJoin (by
      rw [hCancel.expired]
      have hLong := hPrompt hListen
      simp only [Expired, expiredDeltaMs]
      split <;> omega) h
    exact ⟨hEdit.tells.trans hTells, fun _ => hRank⟩
  · cases h
    exact Yields.refl w

theorem deactivate_yields {depth : Nat} {w w' : Watched} (h : w.deactivate cb depth = some w') :
    w.Yields w' := by
  simp only [deactivate, Option.bind_eq_bind, Option.pure_def] at h
  split at h
  · rename_i hListen
    obtain ⟨e, hSet, hNotify⟩ := Option.bind_eq_some_iff.mp h
    have hRemove := Adds.requeue w (remove_sameTable w.ft.group .me)
    have hStop := hRemove.trans (.still _ (·.stopTimers) (Quiet.stopTimers _).group)
    have hAdds := setState_listen_adds hSet
    have hState : _ = w.ft.me.state := hStop.state
    rw [hState, if_neg (Ne.symm hListen)] at hAdds
    have hAll := hStop.trans hAdds
    refine ⟨hAll.told hCb rfl hNotify, fun _ => notifyChange_unranked hCb hNotify ?_⟩
    rw [hAll.state]
    intro hEq
    cases hEq
  · cases h
    exact Yields.refl w

theorem takeoverTimer_tells {depth : Nat} {action : FtAction} {ival : Int} {w w' : Watched}
    (h : w.takeoverTimer cb depth action ival = some w') : w.Tells w' := by
  simp only [takeoverTimer, Option.bind_eq_bind] at h
  have hClear := Adds.still w (fun f => { f with
    timerMask := Function.update f.timerMask action false }) rfl
  split at h
  · rename_i hRun
    obtain ⟨e, hTakeover, hNotify⟩ := Option.bind_eq_some_iff.mp h
    have hTrim := hClear.trans (.trim _)
    refine (hTrim.tells.trans (prepareTakeover_tells hCb (setState_tells hCb depth) (Or.inl ?_)
      hTakeover)).trans (notifyUpdate_tells hCb hNotify)
    rw [hTrim.state]
    intro hEq
    rcases hRun.2 with hOther | hOther
    · exact absurd (hOther.symm.trans hEq) (by simp)
    · exact absurd (hOther.symm.trans hEq) (by simp)
  · exact hClear.tells.trans (notifyUpdate_tells hCb h)

theorem heartbeatTimer_tells {depth : Nat} {w w' : Watched}
    (h : w.heartbeatTimer cb depth = some w') : w.Tells w' := by
  simp only [heartbeatTimer, Option.bind_eq_bind] at h
  generalize isAccurate (w.ft.expiredDeltaMs w.ft.lastHbNs w.ft.heartbeatMs) = accurate at h
  have hTrim : w.Adds (if accurate = true then w.edit (·.trimFtQueue) else w) [] [] := by
    split
    · exact .trim w
    · exact .refl w
  generalize (if accurate = true then w.edit (·.trimFtQueue) else w) = e at hTrim h
  have hEnd : ∀ k : Watched, (k.edit (fun f => { f with lastHbNs := f.monoNs })).notifyUpdate cb =
      some w' → k.Tells w' :=
    fun k hNotify => (Adds.still k (fun f => { f with lastHbNs := f.monoNs }) rfl).tells.trans
      (notifyUpdate_tells hCb hNotify)
  split at h
  · exact (hTrim.tells.trans (Adds.still e _ (Quiet.sendMsg _ .heartbeat []).group).tells).trans
      (hEnd _ h)
  · rename_i hPrimary
    split at h
    · obtain ⟨k, hTakeover, hNotify⟩ := Option.bind_eq_some_iff.mp h
      obtain ⟨b, hRun, hEq⟩ := Option.map_eq_some_iff.mp hTakeover
      subst hEq
      have hLast := (Adds.still b _ (Quiet.sendMsg _ .keepalive []).group).tells.trans
        (hEnd _ hNotify)
      split at hRun
      · exact (hTrim.tells.trans (prepareTakeover_tells hCb (setState_tells hCb depth)
          (Or.inl hPrimary) hRun)).trans hLast
      · cases hRun
        exact hTrim.tells.trans hLast
    · exact hTrim.tells.trans (hEnd e h)

theorem timerCb_tells {depth : Nat} {id : Nat} {action : FtAction} {w w' : Watched} {again : Bool}
    (hPrompt : Prompt w.ft (.timer id action))
    (h : w.timerCb cb depth id action = some (w', again)) : w.Tells w' := by
  simp only [timerCb, Option.bind_eq_bind, Option.pure_def] at h
  split at h
  · cases h
    exact (Adds.refl w).tells
  · rename_i hId
    rw [not_not] at hId
    have hClear := fun a => Adds.still w (fun f => { f with
      timerMask := Function.update f.timerMask a false }) rfl
    cases action with
    | activate =>
        obtain ⟨e, hTimer, hEq⟩ := Option.bind_eq_some_iff.mp h
        cases hEq
        exact takeoverTimer_tells hCb hTimer
    | prepare =>
        obtain ⟨e, hTimer, hEq⟩ := Option.bind_eq_some_iff.mp h
        cases hEq
        exact takeoverTimer_tells hCb hTimer
    | heartbeat =>
        obtain ⟨e, hTimer, hEq⟩ := Option.bind_eq_some_iff.mp h
        cases hEq
        exact heartbeatTimer_tells hCb hTimer
    | join =>
        obtain ⟨e, hSet, hEq⟩ := Option.bind_eq_some_iff.mp h
        cases hEq
        obtain ⟨hState, hEarly⟩ := hPrompt hId
        have hJoin := setState_join_tells (w := w.clearMask .join) hCb hState hEarly hSet
        exact (hClear .join).tells.trans hJoin.1
    | finish =>
        obtain ⟨e, hSet, hEq⟩ := Option.bind_eq_some_iff.mp h
        cases hEq
        have hFinish := setState_finish_tells (w := w.clearMask .finish) hCb (hPrompt hId) hSet
        exact (hClear .finish).tells.trans hFinish.1
    | listen => cases h; exact (Adds.refl w).tells
    | deactivate => cases h; exact (Adds.refl w).tells
    | update => cases h; exact (Adds.refl w).tells

theorem fire_tells {depth : Nat} {id : Nat} {action : FtAction} {w w' : Watched}
    (hPrompt : Prompt w.ft (.timer id action)) (h : w.fire cb depth id action = some w') :
    w.Tells w' := by
  simp only [fire, Option.bind_eq_bind, Option.pure_def] at h
  split at h
  · obtain ⟨⟨e, again⟩, hTimer, hEq⟩ := Option.bind_eq_some_iff.mp h
    have hFired : w.Adds { w.edit (fun f => { f with
        timers := f.timers.erase (id, action) }) with firing := some (id, action) } [] [] :=
      ⟨⟨[], by simp, rfl, rfl⟩, rfl, fun hForeign => hForeign⟩
    have hPrompt' : Prompt { w.ft with timers := w.ft.timers.erase (id, action) }
        (.timer id action) := by
      cases action with
      | _ => exact hPrompt
    have hTells := hFired.tells.trans (timerCb_tells hCb hPrompt' hTimer)
    cases hEq
    refine hTells.trans ?_
    split
    · exact Adds.tells (s := []) ⟨⟨[], by simp, rfl, rfl⟩, rfl, fun hForeign => hForeign⟩
    · exact Adds.tells (s := []) ⟨⟨[], by simp, rfl, rfl⟩, rfl, fun hForeign => hForeign⟩
  · cases h

theorem checkRank_tells {depth : Nat} {w w' : Watched} (h : w.checkRank cb depth = some w') :
    w.Tells w' := by
  unfold checkRank at h
  have hRead := (Adds.reads w 0).tells
  split at h
  · rename_i hSecondary
    split at h
    · exact hRead.trans ((setState_tells hCb depth _ _).2 h)
    · refine hRead.trans ((setState_tells hCb depth _ _).1 ?_ h)
      rw [reads_ft, hSecondary]
      simp
  · split at h
    · split at h
      · exact hRead.trans ((setState_tells hCb depth _ _).2 h)
      · cases h
        exact hRead
    · cases h
      exact (Adds.refl w).tells

omit hCb in
theorem ackAnnounce_adds (w : Watched) (m : FtPeerMsg) : w.Adds (w.edit (·.ackAnnounce m)) [] [] :=
  .still w _ (Quiet.ackAnnounce w.ft m).group

theorem checkAndAck_tells {depth : Nat} {m : FtPeerMsg} {w w' : Watched}
    (h : w.checkAndAck cb depth m = some w') : w.Tells w' := by
  simp only [checkAndAck, Option.bind_eq_bind, Option.pure_def, Option.bind_eq_some_iff] at h
  obtain ⟨e, hRank, k, hNotify, hEq⟩ := h
  cases hEq
  exact ((checkRank_tells hCb hRank).trans (notifyUpdate_tells hCb hNotify)).trans
    (ackAnnounce_adds k m).tells

theorem onAdmitted_tells {depth : Nat} {m : FtPeerMsg} {p : PeerRef} {w w' : Watched}
    (hp : p ≠ .me) (h : w.onAdmitted cb depth m p = some w') : w.Tells w' := by
  unfold onAdmitted at h
  split at h
  · exact notifyUpdate_tells hCb h
  · split at h
    · simp only [Option.bind_eq_bind] at h
      split at h
      · rename_i hHead
        obtain ⟨e, hRun, hNotify⟩ := Option.bind_eq_some_iff.mp h
        refine ((Adds.reads w 0).tells.trans (prepareTakeover_tells hCb (setState_tells hCb depth)
          (Or.inr ?_) hRun)).trans (notifyUpdate_tells hCb hNotify)
        rw [hHead]
        exact fun hEq => hp (Option.some.inj hEq)
      · exact (Adds.reads w 0).tells.trans (notifyUpdate_tells hCb h)
    · exact checkAndAck_tells hCb h

theorem onRecorded_tells {depth : Nat} {m : FtPeerMsg} {p : PeerRef} {w w' : Watched}
    (hp : p ≠ .me) (h : w.onRecorded cb depth m p = some w') : w.Tells w' := by
  unfold onRecorded at h
  split at h
  · exact (Adds.requeue w (update_sameTable w.ft.group p)).tells.trans (onAdmitted_tells hCb hp h)
  · exact (Adds.dropPeer w hp .finish).tells.trans (checkAndAck_tells hCb h)

omit hCb in
theorem dropListener_adds {w : Watched} (hForeign : w.ft.group.Foreign) (m : FtPeerMsg) :
    w.Adds (w.dropListener m) [] [] := by
  unfold dropListener
  split
  · rename_i p hFind
    exact .dropPeer w (find_ne_me hForeign hFind) .listen
  · exact .refl w

theorem onFollowed_tells {depth : Nat} {m : FtPeerMsg} {w w' : Watched}
    (hForeign : w.ft.group.Foreign) (h : w.onFollowed cb depth m = some w') : w.Tells w' := by
  simp only [onFollowed, Option.bind_eq_bind, Option.pure_def] at h
  split at h
  · obtain ⟨k, hNotify, hEq⟩ := Option.bind_eq_some_iff.mp h
    cases hEq
    exact ((dropListener_adds hForeign m).tells.trans (notifyUpdate_tells hCb hNotify)).trans
      (ackAnnounce_adds k m).tells
  · obtain ⟨recorded, hRecord, hRest⟩ := Option.bind_eq_some_iff.mp h
    cases recorded with
    | none =>
        cases hRest
        exact (Adds.refl w).tells
    | some found =>
        obtain ⟨f, p⟩ := found
        obtain ⟨hp, hStays⟩ := recordPeer_stays hForeign hRecord
        have hRecorded : w.Adds { w with ft := f } [] [] :=
          ⟨⟨[], by simp, rfl, rfl⟩, hStays, fun _ => (recordPeer_sends hForeign hRecord).foreign⟩
        exact hRecorded.tells.trans (onRecorded_tells hCb hp hRest)

theorem onPeerMsg_tells {depth : Nat} {m : FtPeerMsg} {w w' : Watched}
    (hForeign : w.ft.group.Foreign) (h : w.onPeerMsg cb depth m = some w') : w.Tells w' := by
  have hGroup := followOldest_group { w.ft with lastRcvNs := w.ft.monoNs } m
  have hFollow := Adds.still w (fun f => { f with lastRcvNs := f.monoNs }.followOldest m) hGroup
  exact hFollow.tells.trans (onFollowed_tells hCb (hFollow.foreign hForeign) h)

theorem processPub_tells {depth : Nat} {pub : EvPublish} {w w' : Watched} {handled : Bool}
    (hForeign : w.ft.group.Foreign) (h : w.processPub cb depth pub = some (w', handled)) :
    w.Tells w' := by
  simp only [processPub, Option.bind_eq_bind, Option.pure_def] at h
  split at h
  · split at h
    · cases h
      exact (Adds.still w _ (Quiet.emit w.ft .onFtSync).group).tells
    · cases h
      exact (Adds.refl w).tells
  · split at h
    · cases h
      exact (Adds.refl w).tells
    · split at h
      · cases h
        exact (Adds.refl w).tells
      · obtain ⟨e, hMsg, hEq⟩ := Option.bind_eq_some_iff.mp h
        cases hEq
        exact onPeerMsg_tells hCb hForeign hMsg

theorem dispatch_tells {depth : Nat} {call : FtCall} {w w' : Watched}
    (hForeign : w.ft.group.Foreign) (hPrompt : Prompt w.ft call)
    (h : w.dispatch cb depth call = some w') : w.Tells w' := by
  cases call with
  | start param =>
      obtain ⟨s, hAdds⟩ := start_tells hCb h
      exact hAdds.tells
  | stop => exact (stop_yields hCb hPrompt h).1
  | activate => exact (activate_yields hCb hPrompt h).1
  | deactivate => exact (deactivate_yields hCb h).1
  | timer id action => exact fire_tells hCb hPrompt h
  | publish pub =>
      simp only [dispatch, Option.bind_eq_bind, Option.pure_def, Option.bind_eq_some_iff] at h
      obtain ⟨⟨e, handled⟩, hPub, hEq⟩ := h
      cases hEq
      exact processPub_tells hCb hForeign hPub

end Handlers

/-- A call of the listener, as a call into the instance. -/
def callOf : FtReaction → FtCall
  | .stop => .stop
  | .activate => .activate
  | .deactivate => .deactivate

/-- The condition on a call from a notification. -/
def PromptCall (_ : List FtSite) (call : FtReaction) (w : Watched) : Prop := Prompt w.ft (callOf call)

instance : (f : RvFt) → (call : FtCall) → Decidable (Prompt f call)
  | _, .start _ => .isTrue trivial
  | _, .stop => inferInstanceAs (Decidable (_ → _))
  | _, .activate => inferInstanceAs (Decidable (_ → _))
  | _, .deactivate => .isTrue trivial
  | _, .publish _ => .isTrue trivial
  | _, .timer _ .join => inferInstanceAs (Decidable (_ → _ ∧ _))
  | _, .timer _ .finish => inferInstanceAs (Decidable (_ → _))
  | _, .timer _ .listen => .isTrue trivial
  | _, .timer _ .activate => .isTrue trivial
  | _, .timer _ .deactivate => .isTrue trivial
  | _, .timer _ .heartbeat => .isTrue trivial
  | _, .timer _ .prepare => .isTrue trivial
  | _, .timer _ .update => .isTrue trivial

instance (sites : List FtSite) (call : FtReaction) (w : Watched) : Decidable (PromptCall sites call w) :=
  inferInstanceAs (Decidable (Prompt w.ft (callOf call)))

theorem perform_yields {cb : Listener} (hCb : Heeds cb) {depth : Nat} {call : FtReaction}
    {w w' : Watched} (hPrompt : Prompt w.ft (callOf call)) (h : perform cb depth call w = some w') :
    w.Yields w' := by
  cases call with
  | stop => exact stop_yields hCb hPrompt h
  | activate => exact activate_yields hCb hPrompt h
  | deactivate => exact deactivate_yields hCb h

theorem foldlM_yields {step : Watched → FtReaction → Option Watched}
    (hStep : ∀ w call w', step w call = some w' → w.Yields w') {calls : List FtReaction}
    {w w' : Watched} (h : calls.foldlM step w = some w') : w.Yields w' := by
  induction calls generalizing w with
  | nil =>
      cases h
      exact .refl _
  | cons call calls ih =>
      simp only [List.foldlM_cons, Option.bind_eq_bind, Option.bind_eq_some_iff] at h
      obtain ⟨e, hFirst, hRest⟩ := h
      exact (hStep w call e hFirst).trans (ih hRest)

/-- The listener whose calls meet the condition heeds, by induction on the nesting. -/
theorem react_heeds (depth nesting : Nat) (sites : List FtSite) :
    Heeds (react PromptCall depth nesting sites) := by
  induction nesting generalizing sites with
  | zero => exact fun _ _ _ hCall => nomatch hCall
  | succ nesting ih =>
      intro site w w' hCall
      unfold react at hCall
      split at hCall
      · cases hCall
        exact .refl w
      · rename_i calls rest hScript
        have hPop : w.Adds { w with script := rest } [] [] := ⟨⟨[], by simp, rfl, rfl⟩, rfl, id⟩
        refine Yields.trans ⟨hPop.tells, id⟩ (foldlM_yields (fun k call e hStep => ?_) hCall)
        split at hStep
        · rename_i hPrompt
          exact perform_yields (ih (site :: sites)) hPrompt hStep
        · cases hStep

end Watched

/-- The runs whose calls, those of the listener too, tell every state in order. -/
def promptRuns : Transition.System RvFt FtPlay FtMark :=
  (playSystem Watched.PromptCall).guard
    (fun f play => Watched.Prompt (f.atTime play.input.nowNs play.input.monoNs) play.input.call)

/-- No call puts `me` into the index. -/
theorem ftSystem_foreign {f g : RvFt} {input : FtInput} {emitted : List FtOut}
    (h : f.group.Foreign) (hStep : ftSystem.step f input emitted g) : g.group.Foreign := by
  obtain ⟨-, hDispatch, -⟩ := step_dispatch hStep
  have hForeign : (f.atTime input.nowNs input.monoNs).group.Foreign := h
  by_cases hStart : ∃ param, input.call = .start param
  · obtain ⟨param, hCall⟩ := hStart
    rw [hCall] at hDispatch
    exact (RvFt.start_sends hForeign hDispatch).foreign
  · exact (RvFt.dispatch_sends hForeign hDispatch (fun param hEq => hStart ⟨param, hEq⟩)).foreign

/-- The first `start` with what the listener calls in it, and what is marked. -/
def playedStart (ok : List FtSite → FtReaction → Watched → Prop)
    [∀ sites call w, Decidable (ok sites call w)] (depth nesting : Nat)
    (script : List (List FtReaction)) (param : FtParameters) (client : EvRvClient)
    (nowNs monoNs : Nat) : Option (RvFt × List FtMark) :=
  (Watched.start (Watched.react ok depth nesting []) depth param
    { ft := { client, nowNs, monoNs }, script }).map (fun w => (w.ft, w.marks))

/-- What a listener knows: the states told so far are the states entered, and
the last of them is the state of `me`. -/
def Informed (f : RvFt) (sofar : List FtMark) : Prop :=
  notices sofar = entries sofar ∧ (notices sofar).getLast? = some f.me.state

theorem Informed.tells {w w' : Watched} {sofar : List FtMark} (h : Informed w.ft sofar)
    (hTells : w.Tells w') : ∃ more, w'.marks = w.marks ++ more ∧ Informed w'.ft (sofar ++ more) := by
  obtain ⟨s, hAdds⟩ := hTells
  obtain ⟨more, hMarks, hEntries, hNotices⟩ := hAdds.marks
  refine ⟨more, hMarks, ?_, ?_⟩
  · have hSofar := h.1
    simp only [notices, entries, List.filterMap_append] at hSofar hEntries hNotices ⊢
    rw [hSofar, hEntries, hNotices]
  · have hLast := h.2
    simp only [notices, List.filterMap_append] at hLast hNotices ⊢
    rw [hNotices, List.getLast?_append, hLast, hAdds.state, List.getLastD_eq_getLast?]
    cases s.getLast? <;> rfl

/-- In every run whose calls meet the condition, from the first `start` on,
the states told are the states entered, and the last one is the state. The
listener may call back from every notification. -/
theorem notices_follow_entries {depth nesting : Nat} {script : List (List FtReaction)}
    {param : FtParameters} {client : EvRvClient} {nowNs monoNs : Nat} {f g : RvFt}
    {plays : List FtPlay} {first marks : List FtMark}
    (hStart : playedStart Watched.PromptCall depth nesting script param client nowNs monoNs =
      some (f, first))
    (hRun : promptRuns.Run f plays marks g) : Informed g (first ++ marks) := by
  obtain ⟨w, hCall, hEq⟩ := Option.map_eq_some_iff.mp hStart
  cases hEq
  have hFirst : Informed w.ft w.marks ∧ w.ft.group.Foreign := by
    obtain ⟨s, hAdds⟩ := Watched.start_tells (Watched.react_heeds depth nesting []) hCall
    obtain ⟨more, hMarks, hEntries, hNotices⟩ := hAdds.marks
    refine ⟨⟨?_, ?_⟩, hAdds.foreign (by simp [Foreign])⟩
    · rw [hMarks, List.nil_append, hEntries, hNotices]
    · rw [hMarks, List.nil_append, hNotices, hAdds.state, List.getLastD_eq_getLast?,
        List.getLast?_cons]
      rfl
  refine (Transition.System.Run.invariant_outputs
    (fun f sofar => Informed f sofar ∧ f.group.Foreign) ?_ hRun hFirst).1
  rintro f sofar play marks g ⟨hInformed, hForeign⟩ ⟨hPrompt, -, nesting, depth, e, hDispatch, rfl, rfl⟩
  have hTells := Watched.dispatch_tells (Watched.react_heeds depth nesting []) hForeign hPrompt hDispatch
  obtain ⟨more, hMarks, hAfter⟩ := Informed.tells hInformed hTells
  rw [hMarks]
  exact ⟨hAfter, hTells.foreign hForeign⟩

/-- A call and what the listener calls in it, nested at most nine deep. -/
def play (ok : List FtSite → FtReaction → Watched → Prop)
    [∀ sites call w, Decidable (ok sites call w)] (f : RvFt) (input : FtPlay) :
    Option (RvFt × List FtMark) :=
  if f.monoNs ≤ input.input.monoNs then
    (Watched.dispatch (Watched.react ok 9 9 []) 9 input.input.call
      { ft := f.atTime input.input.nowNs input.input.monoNs, script := input.script }).map
        (fun w => (w.ft, w.marks))
  else none

theorem play_step {ok : List FtSite → FtReaction → Watched → Prop}
    [∀ sites call w, Decidable (ok sites call w)] {f g : RvFt} {input : FtPlay}
    {marks : List FtMark} (h : play ok f input = some (g, marks)) :
    (playSystem ok).step f input marks g := by
  unfold play at h
  split at h
  · rename_i hTime
    obtain ⟨w, hCall, hEq⟩ := Option.map_eq_some_iff.mp h
    cases hEq
    exact ⟨hTime, 9, 9, w, hCall, rfl, rfl⟩
  · cases h

/-- A call that meets a condition. -/
def playWhen (ok : List FtSite → FtReaction → Watched → Prop)
    [∀ sites call w, Decidable (ok sites call w)] (call : RvFt → FtCall → Prop)
    [∀ f c, Decidable (call f c)] (f : RvFt) (input : FtPlay) : Option (RvFt × List FtMark) :=
  if call (f.atTime input.input.nowNs input.input.monoNs) input.input.call then play ok f input
  else none

theorem playWhen_step {ok : List FtSite → FtReaction → Watched → Prop}
    [∀ sites call w, Decidable (ok sites call w)] {call : RvFt → FtCall → Prop}
    [∀ f c, Decidable (call f c)] {f g : RvFt} {input : FtPlay} {marks : List FtMark}
    (h : playWhen ok call f input = some (g, marks)) : ((playSystem ok).guard (fun f play =>
      call (f.atTime play.input.nowNs play.input.monoNs) play.input.call)).step f input marks g := by
  unfold playWhen at h
  split at h
  · rename_i hOk
    exact ⟨hOk, play_step h⟩
  · cases h

section Samples

variable (ok : List FtSite → FtReaction → Watched → Prop) [∀ sites call w, Decidable (ok sites call w)]
  (call : RvFt → FtCall → Prop) [∀ f c, Decidable (call f c)]

/-- The first `start` at time 100. -/
def samplePlayed (param : FtParameters) : Option (RvFt × List FtMark) :=
  playedStart ok 9 9 [] param plainClient 100 1

/-- What a run told and what it entered. -/
def toldAndEntered (param : FtParameters) (plays : List FtPlay) :
    Option (List FtState × List FtState) := do
  let (f, first) ← samplePlayed ok param
  let (_, marks) ← Transition.System.runAll (playWhen ok call) f plays
  return (notices (first ++ marks), entries (first ++ marks))

variable {ok call}

theorem run_of_toldAndEntered {param : FtParameters} {plays : List FtPlay}
    {told entered : List FtState} (h : toldAndEntered ok call param plays = some (told, entered)) :
    ∃ f first g marks, samplePlayed ok param = some (f, first) ∧
      ((playSystem ok).guard (fun f play =>
        call (f.atTime play.input.nowNs play.input.monoNs) play.input.call)).Run f plays marks g ∧
      notices (first ++ marks) = told ∧ entries (first ++ marks) = entered := by
  simp only [toldAndEntered, Option.bind_eq_bind, Option.bind_eq_some_iff, Option.pure_def,
    Option.some.injEq, Prod.mk.injEq] at h
  obtain ⟨⟨f, first⟩, hStart, ⟨g, marks⟩, hRun, hTold, hEntered⟩ := h
  exact ⟨f, first, g, marks, hStart,
    Transition.System.Run.of_runAll (fun _ _ _ _ hStep => playWhen_step hStep) hRun,
    hTold, hEntered⟩

end Samples

/-- A member joins, hears of no other and takes the first rank. -/
def soloInputs : List FtInput :=
  [⟨500000000, 500000000, .timer 100 .join⟩, ⟨6500000000, 6500000000, .timer 100 .prepare⟩,
    ⟨7000000100, 7000000001, .timer 100 .activate⟩]

/-- In its activation it is deactivated, and activated again in the notification of that. -/
def soloPlays : List FtPlay :=
  List.zipWith FtPlay.mk soloInputs [[], [], [[.deactivate], [.activate], []]]

theorem notices_follow_entries_solo : ∃ f first g marks,
    playedStart Watched.PromptCall 9 9 [] {} plainClient 100 1 = some (f, first) ∧
      promptRuns.Run f soloPlays marks g ∧
      notices (first ++ marks) = [.listen, .join, .primary, .listen, .join] ∧
      Informed g (first ++ marks) := by
  obtain ⟨f, first, g, marks, hStart, hRun, hTold, -⟩ := run_of_toldAndEntered
    (show toldAndEntered Watched.PromptCall Watched.Prompt {} soloPlays =
      some ([.listen, .join, .primary, .listen, .join], [.listen, .join, .primary, .listen, .join]) by
        decide +kernel)
  exact ⟨f, first, g, marks, hStart, hRun, hTold, notices_follow_entries hStart hRun⟩

/-- With a join interval above the activation interval a member that is alone
is told of the activation before the join, and its listener calls nothing. -/
theorem notices_can_precede : ¬ ∀ depth nesting script param client nowNs monoNs f first plays marks g,
    playedStart (fun _ _ _ => True) depth nesting script param client nowNs monoNs =
      some (f, first) →
      (playSystem (fun _ _ _ => True)).Run f plays marks g → Informed g (first ++ marks) := by
  intro h
  obtain ⟨f, first, g, marks, hStart, hRun, hTold, hEntered⟩ := run_of_toldAndEntered
    (show toldAndEntered (fun _ _ _ => True) (fun _ _ => True) { joinMs := 8000 }
      [⟨⟨8000000100, 8000000001, .timer 100 .join⟩, []⟩] =
        some ([.listen, .primary, .join], [.listen, .join, .primary]) by decide +kernel)
  have hSame := (h _ _ _ _ _ _ _ _ _ _ _ _ hStart hRun.of_guard).1
  rw [hTold, hEntered] at hSame
  revert hSame
  decide

end Sassrv.Ft
