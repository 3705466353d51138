import Sassrv.Ft.Callbacks
import Sassrv.Ft.Notices

/-! The timer mask and the timer queue. Every handler sets and clears a bit
together with the timer of it, but for the heartbeat, whose timer is put back
by the result of its callback. A listener that finishes the member inside that
callback, or in front of a timer that is still to be set, breaks this. -/
namespace Sassrv.Ft

/-- The actions whose timers a member at work has. -/
def FtAction.AtWork (a : FtAction) : Prop :=
  a = .activate ∨ a = .prepare ∨ a = .join ∨ a = .heartbeat

/-- The actions that have a timer. -/
def FtAction.Timed (a : FtAction) : Prop := a.AtWork ∨ a = .finish

namespace RvFt

/-- The bit of an action is set iff its timer is armed, once. While the
callback of the heartbeat runs the timer is out of the queue. -/
def Settles (beats : Bool) (a : FtAction) (f : RvFt) : Prop :=
  f.timers.count (f.tid, a) =
    (if f.timerMask a = true ∧ ¬ (beats = true ∧ a = .heartbeat) then 1 else 0) ∧
  (f.timerMask a = true → a.Timed)

/-- The mask agrees with the timer queue. -/
def Agrees (beats : Bool) (f : RvFt) : Prop := ∀ a, f.Settles beats a

/-- Timers of other ids are not armed. -/
def Alien (f g : RvFt) : Prop := ∀ id a, id ≠ f.tid → (id, a) ∈ g.timers → (id, a) ∈ f.timers

/-- The settings of the other actions. -/
theorem Settles.same {beats : Bool} {a : FtAction} {f g : RvFt} (h : f.Settles beats a)
    (hCount : g.timers.count (g.tid, a) = f.timers.count (f.tid, a))
    (hMask : g.timerMask a = f.timerMask a) : g.Settles beats a := by
  refine ⟨?_, by rw [hMask]; exact h.2⟩
  rw [hCount, hMask]
  exact h.1

theorem cancelTimer_tid (f : RvFt) (action : FtAction) : (f.cancelTimer action).tid = f.tid :=
  (Base.cancelTimer f action).tid

theorem cancelTimer_mask_other (f : RvFt) {action a : FtAction} (h : a ≠ action) :
    (f.cancelTimer action).timerMask a = f.timerMask a := by
  unfold cancelTimer
  split
  · exact Function.update_of_ne h _ _
  · rfl

theorem cancelTimer_count_other (f : RvFt) {action a : FtAction} (h : a ≠ action) :
    (f.cancelTimer action).timers.count (f.tid, a) = f.timers.count (f.tid, a) := by
  unfold cancelTimer
  split
  · exact List.count_filter (by simp [h])
  · rfl

/-- A cancelled timer is neither set nor armed. -/
theorem cancelTimer_settles {f : RvFt} {action : FtAction} (beats : Bool)
    (h : f.timerMask action = false → f.timers.count (f.tid, action) = 0) :
    (f.cancelTimer action).Settles beats action := by
  have hCount : (f.cancelTimer action).timers.count (f.tid, action) = 0 := by
    unfold cancelTimer
    split
    · rw [List.count_eq_zero]
      simp
    · rename_i hClear
      exact h (by simpa using hClear)
  refine ⟨?_, by rw [cancelTimer_mask]; exact nofun⟩
  rw [cancelTimer_tid, hCount, cancelTimer_mask]
  simp

theorem cancelTimer_agrees {beats : Bool} {f : RvFt} (h : f.Agrees beats) (action : FtAction) :
    (f.cancelTimer action).Agrees beats := by
  intro a
  by_cases ha : a = action
  · subst ha
    refine cancelTimer_settles beats (fun hClear => ?_)
    rw [(h a).1, hClear]
    simp
  · refine (h a).same ?_ (cancelTimer_mask_other f ha)
    rw [cancelTimer_tid]
    exact cancelTimer_count_other f ha

theorem cancelTimer_alien (f : RvFt) (action : FtAction) : f.Alien (f.cancelTimer action) := by
  intro id a _ hMem
  unfold cancelTimer at hMem
  split at hMem
  · exact List.mem_of_mem_filter hMem
  · exact hMem

theorem addTimer_count_other (f : RvFt) {action a : FtAction} (h : a ≠ action) :
    (f.addTimer action).timers.count (f.tid, a) = f.timers.count (f.tid, a) := by
  simp [addTimer, List.count_append, Ne.symm h]

/-- A timer that was neither set nor armed is then both. -/
theorem addTimer_agrees {beats : Bool} {f : RvFt} {action : FtAction}
    (h : ∀ a, a ≠ action → f.Settles beats a) (hGone : f.timers.count (f.tid, action) = 0)
    (hTimed : action.Timed) (hBeats : ¬ (beats = true ∧ action = .heartbeat)) :
    (f.addTimer action).Agrees beats := by
  intro a
  by_cases ha : a = action
  · subst ha
    have hCount : (f.addTimer a).timers.count (f.tid, a) = 1 := by
      simp [addTimer, List.count_append, hGone]
    refine ⟨?_, fun _ => hTimed⟩
    rw [show (f.addTimer a).tid = f.tid from rfl, hCount]
    simp [addTimer, hBeats]
  · refine (h a ha).same (addTimer_count_other f ha) ?_
    exact Function.update_of_ne ha _ _

theorem addTimer_alien (f : RvFt) (action : FtAction) : f.Alien (f.addTimer action) := by
  intro id a hId hMem
  refine (List.mem_append.mp hMem).resolve_right ?_
  simp [hId]

theorem Alien.refl (f : RvFt) : f.Alien f := fun _ _ _ h => h

theorem Alien.trans {f g h : RvFt} (left : f.Alien g) (right : g.Alien h) (hTid : g.tid = f.tid) :
    f.Alien h := by
  intro id a hId hMem
  exact left id a hId (right id a (by rw [hTid]; exact hId) hMem)

/-- A timer is set again. -/
theorem rearm_agrees {beats : Bool} {f : RvFt} (h : f.Agrees beats) {action : FtAction}
    (hTimed : action.Timed) (hBeats : ¬ (beats = true ∧ action = .heartbeat)) :
    ((f.cancelTimer action).addTimer action).Agrees beats := by
  have hCancel := cancelTimer_agrees h action
  refine addTimer_agrees (fun a _ => hCancel a) ?_ hTimed hBeats
  rw [(hCancel action).1, cancelTimer_mask]
  simp

theorem stopTimers_agrees {beats : Bool} {f : RvFt} (h : f.Agrees beats) :
    f.stopTimers.Agrees beats := by
  have hJoin := cancelTimer_agrees h .join
  have hActivate := cancelTimer_agrees hJoin .activate
  have hPrepare := cancelTimer_agrees hActivate .prepare
  exact cancelTimer_agrees hPrepare .finish

theorem stopTimers_alien (f : RvFt) : f.Alien f.stopTimers := by
  have hJoin := cancelTimer_alien f .join
  have hActivate := hJoin.trans (cancelTimer_alien _ .activate) (cancelTimer_tid _ _)
  have hPrepare := hActivate.trans (cancelTimer_alien _ .prepare) (by simp only [cancelTimer_tid])
  exact hPrepare.trans (cancelTimer_alien _ .finish) (by simp only [cancelTimer_tid])

theorem stopTimers_mask (f : RvFt) (a : FtAction) : f.stopTimers.timerMask a =
    (f.timerMask a && decide (a ≠ .join ∧ a ≠ .activate ∧ a ≠ .prepare ∧ a ≠ .finish)) := by
  have hMask : ∀ (g : RvFt) (action : FtAction), (g.cancelTimer action).timerMask a =
      (g.timerMask a && decide (a ≠ action)) := by
    intro g action
    by_cases ha : a = action
    · subst ha
      simp [cancelTimer_mask]
    · simp [cancelTimer_mask_other g ha, ha]
  simp only [stopTimers, hMask, Bool.and_assoc, Bool.decide_and]

theorem setPrepareTimer_agrees {beats : Bool} {f : RvFt} (h : f.Agrees beats) (p : PeerRef) :
    (f.setPrepareTimer p).Agrees beats := by
  unfold setPrepareTimer
  simp only
  split
  · exact h
  · have hTimed : FtAction.prepare.Timed := Or.inl (Or.inr (Or.inl rfl))
    have hArm := rearm_agrees h hTimed (by simp)
    exact hArm

theorem setActivateTimer_agrees {beats : Bool} {f : RvFt} (h : f.Agrees beats) (p : PeerRef) :
    (f.setActivateTimer p).Agrees beats := by
  unfold setActivateTimer
  simp only
  split
  · exact h
  · have hTimed : FtAction.activate.Timed := Or.inl (Or.inl rfl)
    have hArm := rearm_agrees h hTimed (by simp)
    exact hArm

theorem rearm_alien (f : RvFt) (action : FtAction) :
    f.Alien ((f.cancelTimer action).addTimer action) :=
  (cancelTimer_alien f action).trans (addTimer_alien _ action) (cancelTimer_tid f action)

theorem setPrepareTimer_alien (f : RvFt) (p : PeerRef) : f.Alien (f.setPrepareTimer p) := by
  unfold setPrepareTimer
  simp only
  split
  · exact Alien.refl f
  · exact rearm_alien f .prepare

theorem setActivateTimer_alien (f : RvFt) (p : PeerRef) : f.Alien (f.setActivateTimer p) := by
  unfold setActivateTimer
  simp only
  split
  · exact Alien.refl f
  · exact rearm_alien f .activate

/-- `prepare_takeover` has nothing to do for `me`. -/
def Idle (f : RvFt) : Prop := f.group.ptr 0 ≠ some .me ∧ f.group.ptr 1 ≠ some .me

instance (f : RvFt) : Decidable f.Idle := inferInstanceAs (Decidable (_ ∧ _))

end RvFt

namespace Watched
open RvFt FtGroup

/-- The callback of the heartbeat timer runs. -/
def beating (w : Watched) : Bool := decide (w.firing = some (w.ft.tid, .heartbeat))

/-- The invariant while the notifications at `sites` are at work. Once `me` has
finished no timer of it is set, and none of these notifications is followed by
setting one. -/
structure Held (sites : List FtSite) (w : Watched) : Prop where
  agrees : w.ft.Agrees w.beating
  beat : w.beating = true → w.ft.timerMask .heartbeat = true
  ended : w.ft.me.state = .finish → ∀ a, a.AtWork → w.ft.timerMask a = false
  safe : w.ft.me.state = .finish → .prepare ∉ sites ∧ (.deactivate ∈ sites → w.ft.Idle)
  foreign : w.ft.group.Foreign

/-- What no call but `start` changes. -/
structure Moves (w w' : Watched) : Prop where
  tid : w'.ft.tid = w.ft.tid
  firing : w'.firing = w.firing
  finish : w.ft.me.state = .finish → w'.ft.me.state = .finish
  alien : w.ft.Alien w'.ft

theorem Moves.refl (w : Watched) : w.Moves w := ⟨rfl, rfl, id, Alien.refl w.ft⟩

theorem Moves.trans {w w' w'' : Watched} (left : w.Moves w') (right : w'.Moves w'') :
    w.Moves w'' :=
  ⟨right.tid.trans left.tid, right.firing.trans left.firing,
    fun hFinish => right.finish (left.finish hFinish), left.alien.trans right.alien left.tid⟩

theorem Moves.beating {w w' : Watched} (h : w.Moves w') : w'.beating = w.beating := by
  rw [Watched.beating, Watched.beating, h.tid, h.firing]

/-- A step that keeps the invariant. -/
def Does (sites : List FtSite) (w w' : Watched) : Prop := Held sites w' ∧ w.Moves w'

theorem Does.trans {sites : List FtSite} {w w' w'' : Watched} (left : w.Moves w')
    (right : Does sites w' w'') : Does sites w w'' :=
  ⟨right.1, left.trans right.2⟩

section Held

variable {sites : List FtSite} {w w' : Watched}

theorem Held.does (h : Held sites w) : Does sites w w := ⟨h, Moves.refl w⟩

/-- Other fields are changed. -/
theorem Held.same (h : Held sites w) (hGroup : w'.ft.group = w.ft.group)
    (hTid : w'.ft.tid = w.ft.tid) (hTimers : w'.ft.timers = w.ft.timers)
    (hMask : w'.ft.timerMask = w.ft.timerMask) (hFiring : w'.firing = w.firing) :
    Does sites w w' := by
  have hMe : w'.ft.me = w.ft.me := by rw [RvFt.me, RvFt.me, hGroup]
  have hMoves : w.Moves w' := by
    refine ⟨hTid, hFiring, by rw [hMe]; exact id, ?_⟩
    intro id a _ hMem
    rw [← hTimers]
    exact hMem
  refine ⟨⟨?_, ?_, ?_, ?_, ?_⟩, hMoves⟩
  · intro a
    rw [hMoves.beating]
    refine (h.agrees a).same ?_ (congrFun hMask a)
    rw [hTimers, hTid]
  · rw [hMoves.beating, hMask]
    exact h.beat
  · rw [hMe, hMask]
    exact h.ended
  · rw [hMe, Idle, hGroup]
    exact h.safe
  · rw [hGroup]
    exact h.foreign

/-- The timers are changed, and no bit is set after the finish. -/
theorem Held.retimed (h : Held sites w) (change : RvFt → RvFt)
    (hGroup : (change w.ft).group = w.ft.group) (hTid : (change w.ft).tid = w.ft.tid)
    (hAgrees : (change w.ft).Agrees w.beating)
    (hBeat : w.beating = true → (change w.ft).timerMask .heartbeat = true)
    (hEnded : w.ft.me.state = .finish → ∀ a, a.AtWork → (change w.ft).timerMask a = false)
    (hAlien : w.ft.Alien (change w.ft)) : Does sites w (w.edit change) := by
  have hMe : (change w.ft).me = w.ft.me := by rw [RvFt.me, RvFt.me, hGroup]
  have hMoves : w.Moves (w.edit change) := ⟨hTid, rfl, by rw [hMe]; exact id, hAlien⟩
  refine ⟨⟨?_, ?_, ?_, ?_, ?_⟩, hMoves⟩
  · rw [hMoves.beating]
    exact hAgrees
  · rw [hMoves.beating]
    exact hBeat
  · rw [hMe]
    exact hEnded
  · rw [hMe, Idle, hGroup]
    exact h.safe
  · rw [hGroup]
    exact h.foreign

/-- The group is changed, and `me` has not finished. -/
theorem Held.regrouped (h : Held sites w) (change : RvFt → RvFt)
    (hKin : w.ft.group.Kin (change w.ft).group) (hState : (change w.ft).me.state ≠ .finish) (hOld : w.ft.me.state ≠ .finish)
    (hTid : (change w.ft).tid = w.ft.tid) (hTimers : (change w.ft).timers = w.ft.timers)
    (hMask : (change w.ft).timerMask = w.ft.timerMask) : Does sites w (w.edit change) := by
  have hMoves : w.Moves (w.edit change) := by
    refine ⟨hTid, rfl, fun hFinish => absurd hFinish hOld, ?_⟩
    intro id a _ hMem
    rw [← hTimers]
    exact hMem
  refine ⟨⟨?_, ?_, fun hFinish => absurd hFinish hState, fun hFinish => absurd hFinish hState,
    hKin.foreign⟩, hMoves⟩
  · intro a
    rw [hMoves.beating]
    refine (h.agrees a).same ?_ (congrFun hMask a)
    rw [hTimers, hTid]
  · rw [hMoves.beating, hMask]
    exact h.beat

theorem Held.push (h : Held sites w) {site : FtSite}
    (hSite : site = .prepare ∨ site = .deactivate → w.ft.me.state ≠ .finish) :
    Held (site :: sites) w := by
  refine ⟨h.agrees, h.beat, h.ended, ?_, h.foreign⟩
  intro hFinish
  have hOther : site ≠ .prepare ∧ site ≠ .deactivate := by
    rw [← not_or]
    exact fun hEq => hSite hEq hFinish
  obtain ⟨hPrepare, hDeactivate⟩ := h.safe hFinish
  refine ⟨?_, ?_⟩
  · rw [List.mem_cons, not_or]
    exact ⟨hOther.1.symm, hPrepare⟩
  · intro hMem
    exact hDeactivate ((List.mem_cons.mp hMem).resolve_left hOther.2.symm)

theorem Held.pop {site : FtSite} (h : Held (site :: sites) w) : Held sites w := by
  refine ⟨h.agrees, h.beat, h.ended, ?_, h.foreign⟩
  intro hFinish
  obtain ⟨hPrepare, hDeactivate⟩ := h.safe hFinish
  exact ⟨fun hMem => hPrepare (List.mem_cons_of_mem _ hMem),
    fun hMem => hDeactivate (List.mem_cons_of_mem _ hMem)⟩

theorem Held.setPrepareTimer (h : Held sites w) (hOld : w.ft.me.state ≠ .finish)
    (hCall : w.setPrepareTimer = some w') : Does sites w w' := by
  simp only [Watched.setPrepareTimer, Option.bind_eq_bind, Option.pure_def,
    Option.bind_eq_some_iff] at hCall
  obtain ⟨p, -, hEq⟩ := hCall
  cases hEq
  have hQuiet := Quiet.setPrepareTimer w.ft p
  have hRead : Does sites w (w.reads 0) := h.same rfl rfl rfl rfl rfl
  refine .trans hRead.2 (hRead.1.retimed _ hQuiet.group hQuiet.tid
    (setPrepareTimer_agrees hRead.1.agrees p) ?_ (fun hFinish => absurd hFinish hOld)
    (setPrepareTimer_alien _ p))
  rw [hQuiet.beat]
  exact h.beat

theorem Held.setActivateTimer (h : Held sites w) (hOld : w.ft.me.state ≠ .finish)
    (hCall : w.setActivateTimer = some w') : Does sites w w' := by
  simp only [Watched.setActivateTimer, Option.bind_eq_bind, Option.pure_def,
    Option.bind_eq_some_iff] at hCall
  obtain ⟨p, -, hEq⟩ := hCall
  cases hEq
  have hQuiet := Quiet.setActivateTimer w.ft p
  have hRead : Does sites w (w.reads 0) := h.same rfl rfl rfl rfl rfl
  refine .trans hRead.2 (hRead.1.retimed _ hQuiet.group hQuiet.tid
    (setActivateTimer_agrees hRead.1.agrees p) ?_ (fun hFinish => absurd hFinish hOld)
    (setActivateTimer_alien _ p))
  rw [hQuiet.beat]
  exact h.beat

theorem Held.cancelTimer (h : Held sites w) {action : FtAction} (hBeat : action ≠ .heartbeat) :
    Does sites w (w.edit (·.cancelTimer action)) := by
  refine h.retimed _ (cancelTimer_group w.ft action) (cancelTimer_tid w.ft action)
    (cancelTimer_agrees h.agrees action) ?_ ?_ (cancelTimer_alien w.ft action)
  · rw [cancelTimer_mask_other w.ft hBeat.symm]
    exact h.beat
  · intro hFinish a ha
    by_cases hEq : a = action
    · rw [hEq]
      exact cancelTimer_mask w.ft action
    · rw [cancelTimer_mask_other w.ft hEq]
      exact h.ended hFinish a ha

theorem Held.stopTimers (h : Held sites w) : Does sites w (w.edit (·.stopTimers)) := by
  have hQuiet := Quiet.stopTimers w.ft
  refine h.retimed _ hQuiet.group hQuiet.tid (stopTimers_agrees h.agrees) ?_ ?_
    (stopTimers_alien w.ft)
  · rw [hQuiet.beat]
    exact h.beat
  · intro hFinish a ha
    rw [stopTimers_mask, h.ended hFinish a ha]
    rfl

end Held

/-- A listener whose calls keep the invariant. -/
def Obliging (sites : List FtSite) (cb : Listener) : Prop :=
  ∀ site w w', Held (site :: sites) w → cb site w = some w' → Does (site :: sites) w w'

section Handlers

variable {sites : List FtSite} {cb : Listener} {w w' : Watched}

theorem Obliging.notifyChange (hCb : Obliging sites cb) {site : FtSite} (h : Held sites w)
    (hSite : site = .prepare ∨ site = .deactivate → w.ft.me.state ≠ .finish)
    (hCall : w.notifyChange cb site = some w') : Does (site :: sites) w w' := by
  simp only [Watched.notifyChange, Option.bind_eq_bind, Option.pure_def,
    Option.bind_eq_some_iff] at hCall
  obtain ⟨e, hReact, hEq⟩ := hCall
  cases hEq
  have hTold : Does (site :: sites) w
      ((w.edit (·.emit (.onFtChange site.action))).mark (.notified site.action)) :=
    (h.push hSite).same rfl rfl rfl rfl rfl
  have hBack := hCb site _ e hTold.1 hReact
  exact .trans (hTold.2.trans hBack.2) (hBack.1.same rfl rfl rfl rfl rfl)

theorem Does.pop {site : FtSite} (h : Does (site :: sites) w w') : Does sites w w' :=
  ⟨h.1.pop, h.2⟩

theorem Obliging.notifyUpdate (hCb : Obliging sites cb) (h : Held sites w)
    (hCall : w.notifyUpdate cb = some w') : Does sites w w' := by
  unfold Watched.notifyUpdate at hCall
  split at hCall
  · exact (hCb.notifyChange h (by simp) hCall).pop
  · cases hCall
    exact h.does

theorem Obliging.armTakeover (hCb : Obliging sites cb) (h : Held sites w)
    (hOld : w.ft.me.state ≠ .finish) {p : PeerRef} {action : FtAction} {originNs : Nat}
    (hCall : w.armTakeover cb p action originNs = some w') : Does sites w w' := by
  unfold Watched.armTakeover at hCall
  split at hCall
  · exact h.setPrepareTimer hOld hCall
  · simp only [Option.bind_eq_bind] at hCall
    split at hCall
    · obtain ⟨e, hNotify, hArm⟩ := Option.bind_eq_some_iff.mp hCall
      have hTold := hCb.notifyChange h (fun _ => hOld) hNotify
      have hState : e.ft.me.state ≠ .finish := fun hFinish => (hTold.1.safe hFinish).1 (by simp)
      exact .trans hTold.2 (hTold.1.pop.setActivateTimer hState hArm)
    · exact h.setActivateTimer hOld hCall

/-- `set_state` to another state than the last, for a member that has not
finished. -/
def Entering (sites : List FtSite) (setState : FtState → Watched → Option Watched) : Prop :=
  ∀ state w w', state ≠ .finish → w.ft.me.state ≠ .finish → Held sites w →
    setState state w = some w' → Does sites w w'

theorem Obliging.prepareTakeover (hCb : Obliging sites cb)
    {setState : FtState → Watched → Option Watched} (hSet : Entering sites setState)
    (h : Held sites w) {action : FtAction} {deadline : Nat}
    (hIdle : w.ft.me.state = .finish →
      w.ft.group.ptr 0 ≠ some .me ∧ (w.ft.group.ptr 1 ≠ some .me ∨ deadline ≠ 0))
    (hCall : w.prepareTakeover cb setState action deadline = some w') : Does sites w w' := by
  simp only [Watched.prepareTakeover, Option.bind_eq_bind, Option.pure_def,
    Option.bind_eq_some_iff] at hCall
  obtain ⟨p, hHead, hCall⟩ := hCall
  have hFirst : Does sites w (w.reads 0) := h.same rfl rfl rfl rfl rfl
  split at hCall
  · rename_i hTurn
    have hOld : w.ft.me.state ≠ .finish := by
      intro hFinish
      rcases hTurn with hEq | hJoin
      · exact (hIdle hFinish).1 (hEq ▸ hHead)
      · exact absurd (hFinish.symm.trans hJoin) (by simp)
    split at hCall
    · have hRank : ∀ state e, state ≠ .finish → setState state (w.reads 0) = some e →
          e.notifyUpdate cb = some w' → Does sites w w' := by
        intro state e hState hEnter hNotify
        have hDone := hSet state (w.reads 0) e hState hOld hFirst.1 hEnter
        exact Does.trans (hFirst.2.trans hDone.2) (hCb.notifyUpdate hDone.1 hNotify)
      split at hCall
      · obtain ⟨e, hEnter, hNotify⟩ := Option.bind_eq_some_iff.mp hCall
        exact hRank .primary e (by simp) hEnter hNotify
      · obtain ⟨e, hEnter, hNotify⟩ := Option.bind_eq_some_iff.mp hCall
        exact hRank .secondary e (by simp) hEnter hNotify
    · exact .trans hFirst.2 (hCb.armTakeover hFirst.1 hOld hCall)
  · have hSecond : Does sites w ((w.reads 0).reads 1) :=
      .trans hFirst.2 (hFirst.1.same rfl rfl rfl rfl rfl)
    split at hCall
    · cases hCall
      exact hSecond
    · rename_i hPlace
      rw [not_not] at hPlace
      split at hCall
      · have hPrepare := hSecond.1.cancelTimer (show FtAction.prepare ≠ .heartbeat by simp)
        have hActivate := hPrepare.1.cancelTimer (show FtAction.activate ≠ .heartbeat by simp)
        have hBoth := Does.trans (hSecond.2.trans hPrepare.2) hActivate
        split at hCall
        · exact .trans hBoth.2 (hCb.notifyChange hBoth.1 (by simp) hCall).pop
        · cases hCall
          exact hBoth
      · rename_i hNow
        have hOld : w.ft.me.state ≠ .finish := by
          intro hFinish
          exact (hIdle hFinish).2.elim (fun hOther => hOther hPlace) hNow
        exact .trans hSecond.2 (hCb.armTakeover hSecond.1 hOld hCall)

end Handlers

/-- The restated group of a member that finishes has the queue of before. -/
theorem restate_finish_ptr (g : FtGroup) (i : Nat) : (g.restate .finish).ptr i = g.ptr i := by
  have hLive : (g.restate .finish).live = g.live :=
    restate_live_of_state ⟨by simp, by simp⟩
  have hStale : (g.restate .finish).stale = g.stale := by
    unfold FtGroup.restate
    split
    · split
      · rename_i hRank
        exact absurd hRank.2 (by simp)
      · rfl
    · rfl
  rw [FtGroup.ptr, FtGroup.ptr, hLive, hStale]

section SetState

variable {sites : List FtSite} {cb : Listener} {w w' : Watched}

theorem Held.enterState (h : Held sites w) (hOld : w.ft.me.state ≠ .finish) {state : FtState}
    (hState : state ≠ .finish) : Does sites w (w.enterState state) := by
  have hNew := enterState_state w.ft state
  unfold Watched.enterState
  split
  · have hFields : (w.ft.enterState state).tid = w.ft.tid ∧
        (w.ft.enterState state).timers = w.ft.timers ∧
          (w.ft.enterState state).timerMask = w.ft.timerMask := by
      unfold RvFt.enterState
      split <;> exact ⟨rfl, rfl, rfl⟩
    have hKin : w.ft.group.Kin (w.ft.enterState state).group := by
      rw [(enterState_frame w.ft state).2]
      exact Kin.restate h.foreign state
    have hEdit := h.regrouped ((·.enterState state)) hKin (by rw [hNew]; exact hState)
      hOld hFields.1 hFields.2.1 hFields.2.2
    exact .trans hEdit.2 (hEdit.1.same rfl rfl rfl rfl rfl)
  · exact h.does

/-- `set_state` up to its own recursion. -/
theorem Obliging.actOnState (hCb : Obliging sites cb)
    {setState : FtState → Watched → Option Watched} (hSet : Entering sites setState)
    (h : Held sites w) {oldState state : FtState} (hState : state ≠ .finish)
    (hNew : w.ft.me.state ≠ .finish)
    (hCall : w.actOnState cb setState oldState state = some w') : Does sites w w' := by
  cases state with
  | listen =>
      cases hCall
      exact h.same rfl rfl rfl rfl rfl
  | join =>
      simp only [Watched.actOnState, Option.bind_eq_bind, Option.bind_eq_some_iff] at hCall
      obtain ⟨e, hTakeover, hNotify⟩ := hCall
      have hMe : ((w.ft.group.insert .me).peer .me).state ≠ .finish := by
        rw [((insert_sameTable w.ft.group .me).peer .me).state]
        exact hNew
      have hInsert := h.regrouped (fun f => f.withGroup (f.group.insert .me))
        ((insert_sameTable w.ft.group .me).kin h.foreign) hMe hNew rfl rfl rfl
      have hSend : Does sites w ((w.edit (fun f => f.withGroup (f.group.insert .me))).edit
          (·.sendMsg .announce [])) := .trans hInsert.2 (hInsert.1.same rfl rfl rfl rfl rfl)
      have hDone := hCb.prepareTakeover hSet hSend.1 (fun hFinish => absurd hFinish hMe) hTakeover
      exact .trans (hSend.2.trans hDone.2) (hCb.notifyChange hDone.1 (by simp) hNotify).pop
  | primary =>
      simp only [Watched.actOnState, Option.bind_eq_bind, Option.pure_def,
        Option.bind_eq_some_iff] at hCall
      obtain ⟨e, hNotify, hEq⟩ := hCall
      cases hEq
      have hStamp : Does sites w (w.edit (fun f => { f with activateNs := f.stateNs })) :=
        h.same rfl rfl rfl rfl rfl
      have hTold := (hCb.notifyChange hStamp.1 (by simp) hNotify).pop
      exact .trans (hStamp.2.trans hTold.2) (hTold.1.same rfl rfl rfl rfl rfl)
  | secondary =>
      simp only [Watched.actOnState, Option.bind_eq_bind] at hCall
      split at hCall
      · obtain ⟨e, hNotify, hTakeover⟩ := Option.bind_eq_some_iff.mp hCall
        have hSend : Does sites w ((w.edit (fun f => { f with deactivateNs := f.stateNs })).edit
            (·.sendMsg .deactivate [])) := h.same rfl rfl rfl rfl rfl
        have hTold := hCb.notifyChange hSend.1 (fun _ => hNew) hNotify
        have hIdle : e.ft.me.state = .finish →
            e.ft.group.ptr 0 ≠ some .me ∧ (e.ft.group.ptr 1 ≠ some .me ∨ (0 : Nat) ≠ 0) := by
          intro hFinish
          have hPlace := (hTold.1.safe hFinish).2 (by simp)
          exact ⟨hPlace.1, Or.inl hPlace.2⟩
        exact .trans (hSend.2.trans hTold.2) (hCb.prepareTakeover hSet hTold.1.pop hIdle hTakeover)
      · exact hCb.prepareTakeover hSet h (fun hFinish => absurd hFinish hNew) hCall
  | finish => exact absurd rfl hState

theorem Obliging.setState (hCb : Obliging sites cb) (depth : Nat) :
    Entering sites (setState cb depth) := by
  induction depth with
  | zero => exact fun _ _ _ _ _ _ hCall => nomatch hCall
  | succ depth ih =>
      intro state w w' hState hOld h hCall
      simp only [Watched.setState, Option.bind_eq_bind, Option.pure_def,
        Option.bind_eq_some_iff] at hCall
      obtain ⟨e, hAct, hEq⟩ := hCall
      cases hEq
      have hEnter := h.enterState hOld hState
      have hNew : (w.enterState state).ft.me.state ≠ .finish := by
        rw [enterState_ft, enterState_state]
        exact hState
      have hDone := hCb.actOnState ih hEnter.1 hState hNew hAct
      exact .trans (hEnter.2.trans hDone.2) (hDone.1.same rfl rfl rfl rfl rfl)

/-- The timers of a member at work are stopped when it finishes. -/
theorem Held.finished (h : Held sites w) (hBeat : w.beating = false)
    (hSafe : .prepare ∉ sites ∧ (.deactivate ∈ sites → w.ft.Idle)) {e : RvFt}
    (hTid : e.tid = w.ft.tid) (hTimers : e.timers = w.ft.timers)
    (hMask : e.timerMask = w.ft.timerMask) (hState : e.me.state = .finish)
    (hPtr : ∀ i, e.group.ptr i = w.ft.group.ptr i) (hKin : w.ft.group.Kin e.group) :
    Does sites w { w with ft := (e.cancelTimer .heartbeat).stopTimers } := by
  have hStop := Quiet.stopTimers (e.cancelTimer .heartbeat)
  have hGroup : (e.cancelTimer .heartbeat).stopTimers.group = e.group :=
    hStop.group.trans (cancelTimer_group e .heartbeat)
  have hMe : (e.cancelTimer .heartbeat).stopTimers.me.state = .finish := by
    rw [RvFt.me, hGroup]
    exact hState
  have hSameTid : (e.cancelTimer .heartbeat).stopTimers.tid = w.ft.tid := by
    rw [hStop.tid, cancelTimer_tid, hTid]
  have hAgrees : e.Agrees false := by
    intro a
    have hBefore := h.agrees a
    rw [hBeat] at hBefore
    exact hBefore.same (by rw [hTimers, hTid]) (congrFun hMask a)
  have hMoves : w.Moves { w with ft := (e.cancelTimer .heartbeat).stopTimers } := by
    refine ⟨hSameTid, rfl, fun _ => hMe, ?_⟩
    intro id a hId hMem
    rw [← hTimers]
    refine cancelTimer_alien e .heartbeat id a (by rw [hTid]; exact hId) ?_
    exact stopTimers_alien _ id a (by rw [cancelTimer_tid, hTid]; exact hId) hMem
  refine ⟨⟨?_, ?_, ?_, ?_, ?_⟩, hMoves⟩
  · rw [hMoves.beating, hBeat]
    exact stopTimers_agrees (cancelTimer_agrees hAgrees .heartbeat)
  · rw [hMoves.beating, hBeat]
    intro hTrue
    cases hTrue
  · intro _ a ha
    rw [stopTimers_mask]
    rcases ha with rfl | rfl | rfl | rfl
    · simp
    · simp
    · simp
    · simp [cancelTimer_mask]
  · intro _
    refine ⟨hSafe.1, fun hMem => ?_⟩
    rw [Idle, hGroup, hPtr, hPtr]
    exact hSafe.2 hMem
  · rw [hGroup]
    exact hKin.foreign

/-- `set_state( STATE_FINISH )` outside the callback of the heartbeat, where no
timer is set behind it. -/
theorem Obliging.setState_finish (hCb : Obliging sites cb) (depth : Nat) (h : Held sites w)
    (hBeat : w.beating = false)
    (hSafe : .prepare ∉ sites ∧ (.deactivate ∈ sites → w.ft.Idle))
    (hCall : w.setState cb depth .finish = some w') : Does sites w w' := by
  cases depth with
  | zero => cases hCall
  | succ depth =>
      simp only [Watched.setState, Option.bind_eq_bind, Option.pure_def,
        Option.bind_eq_some_iff] at hCall
      obtain ⟨e, hAct, hEq⟩ := hCall
      cases hEq
      obtain ⟨k, hTid, hTimers, hMask, hState, hPtr, hKin, hFiring, hNotify⟩ : ∃ k : Watched,
          k.ft.tid = w.ft.tid ∧ k.ft.timers = w.ft.timers ∧ k.ft.timerMask = w.ft.timerMask ∧
          k.ft.me.state = .finish ∧ (∀ i, k.ft.group.ptr i = w.ft.group.ptr i) ∧
          w.ft.group.Kin k.ft.group ∧ k.firing = w.firing ∧ (((k.edit (·.cancelTimer .heartbeat)).edit (·.stopTimers)).edit
            (fun f => f.emit (.unsubscribe f.ftSub))).notifyChange cb .finish = some e := by
        have hFields : (w.ft.enterState .finish).tid = w.ft.tid ∧
            (w.ft.enterState .finish).timers = w.ft.timers ∧
              (w.ft.enterState .finish).timerMask = w.ft.timerMask := by
          unfold RvFt.enterState
          split <;> exact ⟨rfl, rfl, rfl⟩
        have hState := enterState_state w.ft .finish
        have hGroup := (enterState_frame w.ft .finish).2
        rw [← enterState_ft] at hFields hState hGroup
        have hFiring : (w.enterState .finish).firing = w.firing := by
          unfold Watched.enterState
          split <;> rfl
        have hPtr : ∀ i, (w.enterState .finish).ft.group.ptr i = w.ft.group.ptr i := by
          intro i
          rw [hGroup]
          exact restate_finish_ptr w.ft.group i
        have hKin : w.ft.group.Kin (w.enterState .finish).ft.group := by
          rw [hGroup]
          exact Kin.restate h.foreign .finish
        have hFinish : (w.enterState .finish).finish cb = some e := hAct
        unfold Watched.finish at hFinish
        simp only at hFinish
        refine ⟨_, ?_, ?_, ?_, ?_, ?_, ?_, ?_, hFinish⟩
        · split <;> exact hFields.1
        · split <;> exact hFields.2.1
        · split <;> exact hFields.2.2
        · split <;> exact hState
        · split <;> exact hPtr
        · split <;> exact hKin
        · split <;> exact hFiring
      have hStopped := h.finished hBeat hSafe hTid hTimers hMask hState hPtr hKin
      have hSent := @Held.same _ _ (((k.edit (·.cancelTimer .heartbeat)).edit
        (·.stopTimers)).edit (fun f => f.emit (.unsubscribe f.ftSub))) hStopped.1 rfl rfl rfl rfl
        hFiring
      have hTold := (hCb.notifyChange hSent.1 (by simp) hNotify).pop
      exact .trans (hStopped.2.trans (hSent.2.trans hTold.2)) (hTold.1.same rfl rfl rfl rfl rfl)

end SetState

/-- The condition on a call from a notification. The member is not finished in
the callback of the heartbeat, nor where a timer is still to be set, and it is
not deactivated once it has finished. -/
def Careful (sites : List FtSite) : FtReaction → Watched → Prop
  | .stop, w => w.ft.finishMs = 0 → w.beating = false ∧ .prepare ∉ sites ∧
      (.deactivate ∈ sites → w.ft.Idle)
  | .activate, _ => True
  | .deactivate, w => w.ft.me.state ≠ .finish

instance (sites : List FtSite) : (call : FtReaction) → (w : Watched) →
    Decidable (Careful sites call w)
  | .stop, _ => inferInstanceAs (Decidable (_ → _))
  | .activate, _ => .isTrue trivial
  | .deactivate, _ => inferInstanceAs (Decidable (_ ≠ _))

section Calls

variable {sites : List FtSite} {cb : Listener} {w w' : Watched}

/-- The finish timer of `stop` is no timer of a member at work. -/
theorem Held.finishTimer (h : Held sites w) (hClear : w.ft.timerMask .finish = false) :
    Does sites w (w.edit (·.addTimer .finish)) := by
  have hGone : w.ft.timers.count (w.ft.tid, .finish) = 0 := by
    rw [(h.agrees .finish).1, hClear]
    simp
  have hMask : ∀ a, a ≠ .finish → (w.ft.addTimer .finish).timerMask a = w.ft.timerMask a :=
    fun a ha => Function.update_of_ne ha _ _
  refine h.retimed _ rfl rfl (addTimer_agrees (fun a _ => h.agrees a) hGone (Or.inr rfl) (by simp)) ?_ ?_
    (addTimer_alien w.ft .finish)
  · rw [hMask .heartbeat (by simp)]
    exact h.beat
  · intro hFinish a ha
    rw [hMask a (by rintro rfl; rcases ha with hEq | hEq | hEq | hEq <;> cases hEq)]
    exact h.ended hFinish a ha

theorem Obliging.stop (hCb : Obliging sites cb) {depth : Nat} (h : Held sites w)
    (hCareful : Careful sites .stop w) (hCall : w.stop cb depth = some w') : Does sites w w' := by
  unfold Watched.stop at hCall
  split at hCall
  · rename_i hNow
    obtain ⟨hBeat, hSafe⟩ := hCareful hNow
    exact hCb.setState_finish depth h hBeat hSafe hCall
  · split at hCall
    · cases hCall
      exact h.does
    · rename_i hClear
      cases hCall
      have hMask : w.ft.timerMask .finish = false := by simpa using hClear
      have hSend : Does sites w (w.edit (·.sendMsg .finish [])) := h.same rfl rfl rfl rfl rfl
      exact .trans hSend.2 (hSend.1.finishTimer hMask)

theorem Obliging.activate (hCb : Obliging sites cb) {depth : Nat} (h : Held sites w)
    (hCall : w.activate cb depth = some w') : Does sites w w' := by
  unfold Watched.activate at hCall
  split at hCall
  · rename_i hListen
    have hStamp : Does sites w (w.edit (fun f => { f with startMono := f.monoNs })) :=
      h.same rfl rfl rfl rfl rfl
    have hCancel := hStamp.1.cancelTimer (show FtAction.join ≠ .heartbeat by simp)
    have hState : ((w.edit (fun f => { f with startMono := f.monoNs })).edit
        (·.cancelTimer .join)).ft.me.state ≠ .finish := by
      rw [RvFt.me, cancelTimer_group]
      exact fun hEq => absurd (hListen.symm.trans hEq) (by simp)
    exact .trans (hStamp.2.trans hCancel.2)
      (hCb.setState depth .join _ _ (by simp) hState hCancel.1 hCall)
  · cases hCall
    exact h.does

theorem Obliging.deactivate (hCb : Obliging sites cb) {depth : Nat} (h : Held sites w)
    (hOld : w.ft.me.state ≠ .finish) (hCall : w.deactivate cb depth = some w') :
    Does sites w w' := by
  simp only [Watched.deactivate, Option.bind_eq_bind, Option.pure_def] at hCall
  split at hCall
  · obtain ⟨e, hSet, hNotify⟩ := Option.bind_eq_some_iff.mp hCall
    have hState : ((w.ft.group.remove .me).peer .me).state ≠ .finish := by
      rw [((remove_sameTable w.ft.group .me).peer .me).state]
      exact hOld
    have hRemove := h.regrouped (fun f => f.withGroup (f.group.remove .me))
      ((remove_sameTable w.ft.group .me).kin h.foreign) hState hOld rfl rfl rfl
    have hStop := hRemove.1.stopTimers
    have hStopped : ((w.edit (fun f => f.withGroup (f.group.remove .me))).edit
        (·.stopTimers)).ft.me.state ≠ .finish := by
      rw [RvFt.me, (Quiet.stopTimers _).group]
      exact hState
    have hListen := hCb.setState depth .listen _ e (by simp) hStopped hStop.1 hSet
    exact .trans ((hRemove.2.trans hStop.2).trans hListen.2)
      (hCb.notifyChange hListen.1 (by simp) hNotify).pop
  · cases hCall
    exact h.does

theorem Obliging.perform (hCb : Obliging sites cb) {depth : Nat} {call : FtReaction}
    (h : Held sites w) (hCareful : Careful sites call w)
    (hCall : perform cb depth call w = some w') : Does sites w w' := by
  cases call with
  | stop => exact hCb.stop h hCareful hCall
  | activate => exact hCb.activate h hCall
  | deactivate => exact hCb.deactivate h hCareful hCall

/-- The listener that is careful obliges, by induction on the nesting. -/
theorem react_obliging (depth nesting : Nat) (sites : List FtSite) :
    Obliging sites (react Careful depth nesting sites) := by
  induction nesting generalizing sites with
  | zero => exact fun _ _ _ _ hCall => nomatch hCall
  | succ nesting ih =>
      intro site w w' h hCall
      unfold react at hCall
      split at hCall
      · cases hCall
        exact h.does
      · rename_i calls rest hScript
        clear hScript
        have hPop : Does (site :: sites) w { w with script := rest } :=
          h.same rfl rfl rfl rfl rfl
        refine .trans hPop.2 ?_
        have hStart := hPop.1
        generalize { w with script := rest } = k at hCall hStart
        clear hPop
        induction calls generalizing k with
        | nil =>
            cases hCall
            exact hStart.does
        | cons call calls ihCalls =>
            simp only [List.foldlM_cons, Option.bind_eq_bind, Option.bind_eq_some_iff] at hCall
            obtain ⟨e, hFirst, hRest⟩ := hCall
            split at hFirst
            · rename_i hCareful
              have hDone := (ih (site :: sites)).perform hStart hCareful hFirst
              exact .trans hDone.2 (ihCalls e hRest hDone.1)
            · cases hFirst

end Calls

section Outer

variable {cb : Listener} {w w' : Watched}

/-- The group is changed between calls of the listener. -/
theorem Held.regroupedOuter (h : Held [] w) (change : RvFt → RvFt)
    (hKin : w.ft.group.Kin (change w.ft).group) (hState : (change w.ft).me.state = w.ft.me.state)
    (hTid : (change w.ft).tid = w.ft.tid) (hTimers : (change w.ft).timers = w.ft.timers)
    (hMask : (change w.ft).timerMask = w.ft.timerMask) : Does [] w (w.edit change) := by
  have hMoves : w.Moves (w.edit change) := by
    refine ⟨hTid, rfl, fun hFinish => hState.trans hFinish, ?_⟩
    intro id a _ hMem
    rw [← hTimers]
    exact hMem
  refine ⟨⟨?_, ?_, ?_, fun _ => by simp, hKin.foreign⟩, hMoves⟩
  · intro a
    rw [hMoves.beating]
    refine (h.agrees a).same ?_ (congrFun hMask a)
    rw [hTimers, hTid]
  · rw [hMoves.beating, hMask]
    exact h.beat
  · intro hFinish
    rw [hMask]
    exact h.ended (hState.symm.trans hFinish)

theorem trimLoop_fields (i : Nat) (f : RvFt) : (trimLoop i f).tid = f.tid ∧
    (trimLoop i f).timers = f.timers ∧ (trimLoop i f).timerMask = f.timerMask := by
  induction i generalizing f with
  | zero => exact ⟨rfl, rfl, rfl⟩
  | succ i ih =>
      simp only [trimLoop]
      split
      · exact ⟨rfl, rfl, rfl⟩
      · split
        · exact ih _
        · exact ih f

theorem Held.trimFtQueue (h : Held [] w) : Does [] w (w.edit (·.trimFtQueue)) := by
  obtain ⟨hTid, hTimers, hMask⟩ := trimLoop_fields w.ft.group.live.length w.ft
  exact h.regroupedOuter ((·.trimFtQueue)) (trimLoop_sends h.foreign).toKin
    (trimLoop_stays _ w.ft) hTid hTimers hMask

theorem Obliging.takeoverTimer (hCb : Obliging [] cb) {depth : Nat} {action : FtAction}
    {ival : Int} (h : Held [] (w.clearMask action))
    (hCall : w.takeoverTimer cb depth action ival = some w') : Does [] (w.clearMask action) w' := by
  simp only [Watched.takeoverTimer, Option.bind_eq_bind] at hCall
  split at hCall
  · rename_i hRun
    obtain ⟨e, hTakeover, hNotify⟩ := Option.bind_eq_some_iff.mp hCall
    have hTrim := h.trimFtQueue
    have hState : ((w.clearMask action).edit (·.trimFtQueue)).ft.me.state ≠ .finish := by
      have hStays : ((w.clearMask action).edit (·.trimFtQueue)).ft.me.state = w.ft.me.state :=
        trimLoop_stays _ (w.clearMask action).ft
      rw [hStays]
      intro hFinish
      have hRanks := hRun.2
      change w.ft.me.state = _ ∨ w.ft.me.state = _ at hRanks
      rw [hFinish] at hRanks
      simp at hRanks
    have hDone := hCb.prepareTakeover (hCb.setState depth) hTrim.1
      (fun hFinish => absurd hFinish hState) hTakeover
    exact .trans (hTrim.2.trans hDone.2) (hCb.notifyUpdate hDone.1 hNotify)
  · exact hCb.notifyUpdate h hCall

theorem Obliging.heartbeatTimer (hCb : Obliging [] cb) {depth : Nat} (h : Held [] w)
    (hOld : w.ft.me.state ≠ .finish) (hCall : w.heartbeatTimer cb depth = some w') :
    Does [] w w' := by
  simp only [Watched.heartbeatTimer, Option.bind_eq_bind] at hCall
  generalize isAccurate (w.ft.expiredDeltaMs w.ft.lastHbNs w.ft.heartbeatMs) = accurate at hCall
  have hTrim : Does [] w (if accurate = true then w.edit (·.trimFtQueue) else w) ∧
      (if accurate = true then w.edit (·.trimFtQueue) else w).ft.me.state ≠ .finish := by
    split
    · refine ⟨h.trimFtQueue, ?_⟩
      rw [show (w.edit (·.trimFtQueue)).ft.me.state = w.ft.me.state from trimLoop_stays _ w.ft]
      exact hOld
    · exact ⟨h.does, hOld⟩
  generalize (if accurate = true then w.edit (·.trimFtQueue) else w) = e at hTrim hCall
  obtain ⟨hTrim, hState⟩ := hTrim
  have hEnd : ∀ k : Watched, Does [] w k →
      (k.edit (fun f => { f with lastHbNs := f.monoNs })).notifyUpdate cb = some w' →
        Does [] w w' := by
    intro k hDone hNotify
    have hStamp : Does [] k (k.edit (fun f => { f with lastHbNs := f.monoNs })) :=
      hDone.1.same rfl rfl rfl rfl rfl
    exact .trans (hDone.2.trans hStamp.2) (hCb.notifyUpdate hStamp.1 hNotify)
  have hSend : ∀ (k : Watched) (type : FtMsgType), Does [] w k →
      Does [] w (k.edit (·.sendMsg type [])) :=
    fun k type hDone => .trans hDone.2 (hDone.1.same rfl rfl rfl rfl rfl)
  split at hCall
  · exact hEnd _ (hSend e .heartbeat hTrim) hCall
  · split at hCall
    · obtain ⟨k, hTakeover, hNotify⟩ := Option.bind_eq_some_iff.mp hCall
      obtain ⟨b, hRun, hEq⟩ := Option.map_eq_some_iff.mp hTakeover
      subst hEq
      split at hRun
      · have hDone := hCb.prepareTakeover (hCb.setState depth) hTrim.1
          (fun hFinish => absurd hFinish hState) hRun
        exact hEnd _ (hSend b .keepalive (.trans hTrim.2 hDone)) hNotify
      · cases hRun
        exact hEnd _ (hSend e .keepalive hTrim) hNotify
    · exact hEnd e hTrim hCall

/-- The member between calls. -/
structure Rests (f : RvFt) : Prop where
  agrees : f.Agrees false
  ended : f.me.state = .finish → ∀ a, a.AtWork → f.timerMask a = false
  foreign : f.group.Foreign

/-- What every call but `start` carries on. -/
structure Carries (f g : RvFt) : Prop where
  tid : g.tid = f.tid
  finish : f.me.state = .finish → g.me.state = .finish
  alien : f.Alien g

theorem Carries.refl (f : RvFt) : Carries f f := ⟨rfl, id, Alien.refl f⟩

theorem Carries.trans {f g h : RvFt} (left : Carries f g) (right : Carries g h) : Carries f h :=
  ⟨right.tid.trans left.tid, fun hFinish => right.finish (left.finish hFinish),
    left.alien.trans right.alien left.tid⟩

theorem Moves.carries (h : w.Moves w') : Carries w.ft w'.ft := ⟨h.tid, h.finish, h.alien⟩

theorem Rests.held (h : Rests w.ft) (hBeat : w.beating = false) : Held [] w := by
  refine ⟨?_, ?_, h.ended, fun _ => by simp, h.foreign⟩
  · rw [hBeat]
    exact h.agrees
  · rw [hBeat]
    exact nofun

theorem Held.rests (h : Held [] w) (hBeat : w.beating = false) : Rests w.ft := by
  refine ⟨?_, h.ended, h.foreign⟩
  rw [← hBeat]
  exact h.agrees

theorem Does.rests (h : Does [] w w') (hFiring : w.firing = none) :
    Rests w'.ft ∧ Carries w.ft w'.ft := by
  refine ⟨h.1.rests ?_, h.2.carries⟩
  rw [h.2.beating, beating, hFiring]
  rfl

/-- The state in which the callback of a timer begins. -/
theorem Rests.erased (h : Rests w.ft) {action a : FtAction} (hMem : (w.ft.tid, action) ∈ w.ft.timers) :
    (w.ft.timerMask action = true ∧ action.Timed) ∧
      (w.ft.timers.erase (w.ft.tid, action)).count (w.ft.tid, a) =
        if w.ft.timerMask a = true ∧ a ≠ action then 1 else 0 := by
  have hMask : w.ft.timerMask action = true := by
    by_contra hClear
    have hNone := (h.agrees action).1
    rw [if_neg (fun hBoth => hClear hBoth.1), List.count_eq_zero] at hNone
    exact hNone hMem
  refine ⟨⟨hMask, (h.agrees action).2 hMask⟩, ?_⟩
  by_cases ha : a = action
  · subst ha
    rw [List.count_erase_self, (h.agrees a).1]
    simp [hMask]
  · rw [List.count_erase_of_ne (by simp [ha]), (h.agrees a).1]
    simp [ha]

/-- The callback of a timer other than the heartbeat, once the bit is clear. -/
theorem Rests.fired (h : Rests w.ft) {action : FtAction} (hBeat : action ≠ .heartbeat)
    (hMem : (w.ft.tid, action) ∈ w.ft.timers) {k : Watched}
    (hk : k = { w.edit (fun f => { f with timers := f.timers.erase (w.ft.tid, action) }) with
      firing := some (w.ft.tid, action) }) :
    Held [] (k.clearMask action) ∧ (k.clearMask action).beating = false ∧
      Carries w.ft (k.clearMask action).ft := by
  subst hk
  refine ⟨⟨?_, ?_, ?_, fun _ => by simp, h.foreign⟩, by simpa [beating] using hBeat, rfl, id, ?_⟩
  · intro a
    have hErased := (h.erased (a := a) hMem).2
    by_cases ha : a = action
    · subst ha
      refine ⟨hErased.trans ?_, ?_⟩
      · simp
      · simp
    · have hMask : Function.update w.ft.timerMask action false a = w.ft.timerMask a :=
        Function.update_of_ne ha _ _
      refine ⟨hErased.trans ?_, ?_⟩
      · simp [ha, beating, hBeat]
      · simp only [hMask]
        exact (h.agrees a).2
  · simp [beating, hBeat]
  · intro hFinish a ha
    by_cases hEq : a = action
    · simp [hEq]
    · exact (Function.update_of_ne hEq _ _).trans (h.ended hFinish a ha)
  · intro id a _ hIn
    exact List.mem_of_mem_erase hIn

/-- The callback of the heartbeat, whose timer is put back. -/
theorem Rests.beaten (h : Rests w.ft) (hCb : Obliging [] cb) {depth : Nat} {e : Watched}
    (hSet : w.ft.timerMask .heartbeat = true)
    (hMem : (w.ft.tid, FtAction.heartbeat) ∈ w.ft.timers)
    (hCall : { w.edit (fun f => { f with timers := f.timers.erase (w.ft.tid, .heartbeat) }) with
      firing := some (w.ft.tid, .heartbeat) }.heartbeatTimer cb depth = some e)
    (hEnd : some ({ e with firing := none }.edit
      (fun f => { f with timers := f.timers ++ [(w.ft.tid, FtAction.heartbeat)] })) = some w') :
    Rests w'.ft ∧ Carries w.ft w'.ft := by
  cases hEnd
  have hOld : w.ft.me.state ≠ .finish := by
    intro hFinish
    rw [h.ended hFinish .heartbeat (Or.inr (Or.inr (Or.inr rfl)))] at hSet
    cases hSet
  have hHeld : Held [] { w.edit (fun f => { f with
      timers := f.timers.erase (w.ft.tid, .heartbeat) }) with
        firing := some (w.ft.tid, .heartbeat) } := by
    refine ⟨fun a => ⟨?_, (h.agrees a).2⟩, fun _ => hSet, fun hFinish => absurd hFinish hOld,
      fun _ => by simp, h.foreign⟩
    refine ((h.erased (a := a) hMem).2).trans ?_
    simp [beating]
  obtain ⟨hAfter, hMoves⟩ := hCb.heartbeatTimer hHeld hOld hCall
  have hBeating : e.beating = true := by
    rw [hMoves.beating]
    simp [beating]
  have hTid : e.ft.tid = w.ft.tid := hMoves.tid
  refine ⟨⟨fun a => ⟨?_, (hAfter.agrees a).2⟩, ?_, hAfter.foreign⟩, hTid, fun hFinish => absurd hFinish hOld, ?_⟩
  · have hCount := (hAfter.agrees a).1
    rw [hBeating] at hCount
    change (e.ft.timers ++ [(w.ft.tid, FtAction.heartbeat)]).count (e.ft.tid, a) =
      if e.ft.timerMask a = true ∧ ¬ (false = true ∧ a = .heartbeat) then 1 else 0
    rw [List.count_append, hCount, hTid]
    by_cases ha : a = .heartbeat
    · subst ha
      simp [hAfter.beat hBeating]
    · have hNone : [(w.ft.tid, FtAction.heartbeat)].count (w.ft.tid, a) = 0 := by
        rw [List.count_eq_zero]
        simp [ha]
      simp [hNone, ha]
  · intro hFinish
    exact hAfter.ended hFinish
  · intro id a hId hIn
    refine List.mem_of_mem_erase (hMoves.alien id a hId ((List.mem_append.mp hIn).resolve_right ?_))
    simp [hId]

theorem Obliging.fire (hCb : Obliging [] cb) {depth : Nat} {id : Nat} {action : FtAction}
    (h : Rests w.ft) (hCall : w.fire cb depth id action = some w') :
    Rests w'.ft ∧ Carries w.ft w'.ft := by
  simp only [Watched.fire, Option.bind_eq_bind, Option.pure_def] at hCall
  split at hCall
  · rename_i hMem
    obtain ⟨⟨e, again⟩, hTimer, hEq⟩ := Option.bind_eq_some_iff.mp hCall
    simp only [timerCb, Option.bind_eq_bind, Option.pure_def] at hTimer
    split at hTimer
    · rename_i hOther
      have hId : id ≠ w.ft.tid := hOther
      cases hTimer
      cases hEq
      refine ⟨⟨?_, h.ended, h.foreign⟩, rfl, fun hFinish => hFinish, ?_⟩
      · intro a
        refine (h.agrees a).same ?_ rfl
        exact List.count_erase_of_ne (by simp [hId.symm])
      · intro i a _ hIn
        exact List.mem_of_mem_erase hIn
    · rename_i hOwn
      rw [not_not] at hOwn
      have hId : id = w.ft.tid := hOwn
      subst hId
      obtain ⟨hSet, hTimed⟩ := (h.erased (a := action) hMem).1
      -- every callback but that of the heartbeat clears its bit first
      have hDone : action ≠ .heartbeat → (∀ k : Watched,
          k = { w.edit (fun f => { f with timers := f.timers.erase (w.ft.tid, action) }) with
            firing := some (w.ft.tid, action) } → Held [] (k.clearMask action) →
              Does [] (k.clearMask action) e) → again = false →
            Rests w'.ft ∧ Carries w.ft w'.ft := by
        intro hBeat hStep hOnce
        obtain ⟨hHeld, hQuiet, hCarries⟩ := h.fired hBeat hMem rfl
        obtain ⟨hAfter, hMoves⟩ := hStep _ rfl hHeld
        rw [hOnce] at hEq
        cases hEq
        exact ⟨hAfter.rests (by rw [hMoves.beating]; exact hQuiet), hCarries.trans hMoves.carries⟩
      rcases hTimed with (rfl | rfl | rfl | rfl) | rfl
      · obtain ⟨k, hRun, hSame⟩ := Option.bind_eq_some_iff.mp hTimer
        cases hSame
        exact hDone (by simp) (fun k hk hHeld => hCb.takeoverTimer hHeld (hk ▸ hRun)) rfl
      · obtain ⟨k, hRun, hSame⟩ := Option.bind_eq_some_iff.mp hTimer
        cases hSame
        exact hDone (by simp) (fun k hk hHeld => hCb.takeoverTimer hHeld (hk ▸ hRun)) rfl
      · obtain ⟨k, hRun, hSame⟩ := Option.bind_eq_some_iff.mp hTimer
        cases hSame
        refine hDone (by simp) (fun k hk hHeld => ?_) rfl
        have hState : (k.clearMask .join).ft.me.state ≠ .finish := by
          intro hFinish
          rw [hk] at hFinish
          rw [h.ended hFinish .join (Or.inr (Or.inr (Or.inl rfl)))] at hSet
          cases hSet
        exact hCb.setState depth .join _ _ (by simp) hState hHeld (hk ▸ hRun)
      · obtain ⟨k, hRun, hSame⟩ := Option.bind_eq_some_iff.mp hTimer
        cases hSame
        exact h.beaten hCb hSet hMem hRun hEq
      · obtain ⟨k, hRun, hSame⟩ := Option.bind_eq_some_iff.mp hTimer
        cases hSame
        refine hDone (by simp) (fun k hk hHeld => ?_) rfl
        exact hCb.setState_finish depth hHeld (by rw [hk]; simp [beating]) (by simp) (hk ▸ hRun)
  · cases hCall

end Outer

end Watched
end Sassrv.Ft
