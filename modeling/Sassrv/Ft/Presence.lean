import Sassrv.Ft.Notices

/-! The reads of the first two entries of the queue, and the depth of the
recursion between `set_state` and `prepare_takeover`. Both rest on `me` being
queued while it has joined. That holds in every run, also when a member starts
again that is still queued. -/
namespace Sassrv.Ft
namespace FtGroup

/-- The entry that `closeGap` takes out is `p`. -/
theorem mem_closeGap {g : FtGroup} {p r : PeerRef} (hr : r ≠ p)
    (hMem : r ∈ g.live) :
    r ∈ (g.closeGap (g.getPos p)).live := by
  have hEntry : ∀ q, g.live[g.getPos p]? = some q → q = p := by
    intro q hq
    obtain ⟨hLt, hGet⟩ := List.getElem?_eq_some_iff.mp hq
    have hPtr : g.ptr (g.getPos p) = some q := by rw [ptr, List.getElem?_append_left hLt, hq]
    by_cases hAt : (g.peer p).pos > 0 ∧ g.ptr ((g.peer p).pos - 1) = some p
    · rw [getPos, if_pos hAt] at hPtr
      exact Option.some.inj (hPtr.symm.trans hAt.2)
    · have hIdx : g.getPos p = g.live.idxOf p := if_neg hAt
      rw [← hGet]
      simp only [hIdx] at hLt ⊢
      exact List.getElem_idxOf hLt
  change r ∈ g.live.eraseIdx (g.getPos p)
  rw [List.mem_eraseIdx_iff_getElem?]
  obtain ⟨i, hi⟩ := List.mem_iff_getElem?.mp hMem
  refine ⟨i, ?_, hi⟩
  rintro rfl
  exact hr (hEntry r hi)

theorem mem_remove_of_mem {g : FtGroup} {p r : PeerRef} (hr : r ≠ p) (hMem : r ∈ g.live) :
    r ∈ (g.remove p).live := by
  unfold remove
  split
  · exact hMem
  · rename_i hPresent
    exact mem_closeGap hr hMem

theorem mem_dropPeer_of_mem {g : FtGroup} {p r : PeerRef} (hr : r ≠ p) (hMem : r ∈ g.live)
    (state : FtState) : r ∈ (g.dropPeer p state).live := by
  have hStated : r ∈ (g.updateState p state).live := hMem
  exact mem_remove_of_mem hr hStated

theorem mem_update_of_mem {g : FtGroup} (p : PeerRef) {r : PeerRef} (hMem : r ∈ g.live) :
    r ∈ (g.update p).live := by
  unfold update
  split
  · exact mem_reorder.mpr (Or.inr hMem)
  · rename_i hPresent
    split
    · exact hMem
    · refine mem_reorder.mpr ?_
      by_cases hr : r = p
      · exact Or.inl hr
      · exact Or.inr (mem_closeGap hr hMem)

theorem mem_restate_of_mem {g : FtGroup} {r : PeerRef} (hMem : r ∈ g.live) (state : FtState) :
    r ∈ (g.restate state).live := by
  have hStated : r ∈ (g.updateState .me state).live := hMem
  unfold restate
  split
  · split
    · exact mem_update_of_mem .me hStated
    · exact hStated
  · exact hMem

end FtGroup

namespace Watched
open RvFt FtGroup

/-- `ft_queue.ptr[ i ]` is read below the count of the queue. -/
def Bounded (w w' : Watched) : Prop :=
  ∃ more, w'.marks = w.marks ++ more ∧ ∀ i n, .read i n ∈ more → i < n

theorem Bounded.refl (w : Watched) : w.Bounded w := ⟨[], by simp, by simp⟩

theorem Bounded.trans {w w' w'' : Watched} (left : w.Bounded w') (right : w'.Bounded w'') :
    w.Bounded w'' := by
  obtain ⟨more, hMarks, hReads⟩ := left
  obtain ⟨more', hMarks', hReads'⟩ := right
  refine ⟨more ++ more', by rw [hMarks', hMarks, List.append_assoc], ?_⟩
  intro i n hMem
  exact (List.mem_append.mp hMem).elim (hReads i n) (hReads' i n)

theorem Bounded.mark (w : Watched) {m : FtMark} (hRead : ∀ i n, m = .read i n → i < n) :
    w.Bounded (w.mark m) := by
  refine ⟨[m], rfl, ?_⟩
  intro i n hMem
  exact hRead i n (List.mem_singleton.mp hMem).symm

theorem Bounded.read {w : Watched} {i : Nat} (h : i < w.ft.group.live.length) :
    w.Bounded (w.reads i) := by
  refine .mark w ?_
  rintro i n ⟨⟩
  exact h

theorem Bounded.edit (w : Watched) (change : RvFt → RvFt) : w.Bounded (w.edit change) :=
  ⟨[], by simp, by simp⟩

/-- Work that leaves the group alone. -/
structure Calm (w w' : Watched) : Prop where
  quiet : w.ft.Quiet w'.ft
  bounded : w.Bounded w'

theorem Calm.trans {w w' w'' : Watched} (left : w.Calm w') (right : w'.Calm w'') : w.Calm w'' :=
  ⟨left.quiet.trans right.quiet, left.bounded.trans right.bounded⟩

theorem Calm.refl (w : Watched) : w.Calm w := ⟨Quiet.refl w.ft, Bounded.refl w⟩

theorem Calm.edit (w : Watched) (change : RvFt → RvFt) (h : w.ft.Quiet (change w.ft)) :
    w.Calm (w.edit change) :=
  ⟨h, Bounded.edit w change⟩

theorem Calm.read {w : Watched} {i : Nat} (h : i < w.ft.group.live.length) :
    w.Calm (w.reads i) :=
  ⟨Quiet.refl w.ft, Bounded.read h⟩

theorem notifyChange_runs (site : FtSite) (w : Watched) :
    ∃ w', w.notifyChange silent site = some w' ∧ w.Calm w' :=
  ⟨_, rfl, Quiet.notifyChange w.ft site.action, .mark w (by simp)⟩

theorem notifyUpdate_runs (w : Watched) : ∃ w', w.notifyUpdate silent = some w' ∧ w.Calm w' := by
  unfold notifyUpdate
  split
  · exact notifyChange_runs .update w
  · exact ⟨w, rfl, Calm.refl w⟩

/-- The timers of a takeover read the first entry. -/
theorem armTakeover_runs {w : Watched} {p q : PeerRef} (hHead : w.ft.group.ptr 0 = some q)
    (action : FtAction) (originNs : Nat) :
    ∃ w', w.armTakeover silent p action originNs = some w' ∧ w.ft.Quiet w'.ft ∧
      (w.ft.group.live ≠ [] → w.Bounded w') := by
  have hRead : ∀ e, w.Calm e → w.ft.group.live ≠ [] → w.Bounded (e.reads 0) := by
    intro e hCalm hLive
    refine hCalm.bounded.trans (.read ?_)
    rw [hCalm.quiet.group]
    exact List.length_pos_of_ne_nil hLive
  have hArm : ∀ e, w.Calm e → ∃ w', e.setActivateTimer = some w' ∧ w.ft.Quiet w'.ft ∧
      (w.ft.group.live ≠ [] → w.Bounded w') := by
    intro e hCalm
    have hEntry : (e.reads 0).ft.group.ptr 0 = some q := by rw [← hHead, ← hCalm.quiet.group]
    refine ⟨(e.reads 0).edit (·.setActivateTimer q), by rw [setActivateTimer, hEntry]; rfl, ?_, ?_⟩
    · exact hCalm.quiet.trans (.setActivateTimer e.ft q)
    · exact fun hLive => (hRead e hCalm hLive).trans (.edit _ _)
  unfold armTakeover
  split
  · refine ⟨(w.reads 0).edit (·.setPrepareTimer q), by rw [setPrepareTimer, hHead]; rfl, ?_, ?_⟩
    · exact Quiet.setPrepareTimer w.ft q
    · exact fun hLive => (hRead w (Calm.refl w) hLive).trans (.edit _ _)
  · simp only [Option.bind_eq_bind]
    split
    · obtain ⟨e, hNotify, hCalm⟩ := notifyChange_runs .prepare w
      rw [hNotify]
      exact hArm e hCalm
    · exact hArm w (Calm.refl w)

/-- Work of a member that is queued, and stays so. -/
structure Ranks (w w' : Watched) : Prop where
  frame : w.ft.Frame w'.ft
  bounded : w.Bounded w'
  present : .me ∈ w'.ft.group.live
  finish : w'.ft.me.state = .finish → w.ft.me.state = .finish

theorem Calm.ranks {w w' : Watched} (h : w.Calm w') (hMe : .me ∈ w.ft.group.live) : w.Ranks w' := by
  refine ⟨h.quiet.toFrame, h.bounded, by rw [h.quiet.group]; exact hMe, ?_⟩
  rw [h.quiet.me]
  exact id

theorem Ranks.trans {w w' w'' : Watched} (left : w.Ranks w') (right : w'.Ranks w'') :
    w.Ranks w'' :=
  ⟨left.frame.trans right.frame, left.bounded.trans right.bounded, right.present,
    fun hEq => left.finish (right.finish hEq)⟩

theorem Ranks.trans_calm {w w' w'' : Watched} (left : w.Ranks w') (right : w'.Calm w'') :
    w.Ranks w'' :=
  left.trans (right.ranks left.present)

theorem enterState_bounded (w : Watched) (state : FtState) : w.Bounded (w.enterState state) := by
  unfold enterState
  split
  · exact (Bounded.edit w _).trans (.mark _ (by simp))
  · exact Bounded.refl w

theorem enterState_ranks {w : Watched} (hMe : .me ∈ w.ft.group.live) {state : FtState}
    (hState : state ≠ .finish) : w.Ranks (w.enterState state) := by
  obtain ⟨hFrame, hGroup⟩ := enterState_frame w.ft state
  rw [← enterState_ft] at hFrame hGroup
  refine ⟨hFrame, enterState_bounded w state, ?_, ?_⟩
  · rw [hGroup]
    exact mem_restate_of_mem hMe state
  · rw [enterState_ft, enterState_state]
    exact fun hEq => absurd hEq hState

theorem returned_calm (w : Watched) (oldState state : FtState) :
    w.Calm (w.mark (.returned oldState state w.ft)) :=
  ⟨Quiet.refl w.ft, .mark w (by simp)⟩

/-- The end of `set_state`. -/
theorem setState_runs {w e : Watched} {depth : Nat} {state : FtState}
    (h : (w.enterState state).actOnState silent (setState silent depth) w.ft.me.state state =
      some e) : ∃ w', w.setState silent (depth + 1) state = some w' ∧ e.Calm w' := by
  refine ⟨_, ?_, returned_calm e w.ft.me.state state⟩
  simp only [setState, Option.bind_eq_bind, h, Option.bind_some, Option.pure_def]

theorem setState_primary_runs {w : Watched} (hMe : .me ∈ w.ft.group.live) (depth : Nat) :
    ∃ w', w.setState silent (depth + 1) .primary = some w' ∧ w.Ranks w' := by
  have hEnter := enterState_ranks hMe (show FtState.primary ≠ .finish by simp)
  obtain ⟨e, hAct, hCalm⟩ : ∃ e, (w.enterState .primary).actOnState silent (setState silent depth)
      w.ft.me.state .primary = some e ∧ (w.enterState .primary).Calm e := by
    refine ⟨_, rfl, ?_⟩
    have hStamp : (w.enterState .primary).Calm ((w.enterState .primary).edit
        (fun f => { f with activateNs := f.stateNs })) := .edit _ _ (.same rfl rfl rfl rfl rfl rfl rfl)
    obtain ⟨k, hNotify, hTold⟩ := notifyChange_runs .activate ((w.enterState .primary).edit
      (fun f => { f with activateNs := f.stateNs }))
    cases hNotify
    exact (hStamp.trans hTold).trans (.edit _ _ (Quiet.sendMsg _ .activate []))
  obtain ⟨w', hCall, hEnd⟩ := setState_runs hAct
  exact ⟨w', hCall, (hEnter.trans_calm hCalm).trans_calm hEnd⟩

/-- A takeover that finds another member first, outside the join state. -/
theorem prepareTakeover_idle {w : Watched} {p : PeerRef} (hHead : w.ft.group.ptr 0 = some p)
    (hp : p ≠ .me) (hJoin : w.ft.me.state ≠ .join)
    (setState : FtState → Watched → Option Watched) (action : FtAction) (deadline : Nat) :
    ∃ w', w.prepareTakeover silent setState action deadline = some w' ∧ w.ft.Quiet w'.ft ∧
      (.me ∈ w.ft.group.live → w.Bounded w') := by
  have hNot : ¬ (p = .me ∨ w.ft.me.state = .join) := by
    rintro (hEq | hEq)
    · exact hp hEq
    · exact hJoin hEq
  have hSecond : .me ∈ w.ft.group.live → 1 < w.ft.group.live.length := by
    intro hMe
    obtain ⟨q, rest, hQueue⟩ := List.exists_cons_of_ne_nil (List.ne_nil_of_mem hMe)
    have hq : q = p := by simpa [ptr, hQueue] using hHead
    rw [hQueue] at hMe ⊢
    have hRest := (List.mem_cons.mp hMe).resolve_left (fun hEq => hp (hq ▸ hEq.symm))
    have hLength := List.length_pos_of_mem hRest
    simp only [List.length_cons]
    omega
  have hBoth : .me ∈ w.ft.group.live → w.Bounded ((w.reads 0).reads 1) := by
    intro hMe
    have hTwo := hSecond hMe
    exact (Bounded.read (by omega)).trans (.read hTwo)
  have hCalm : ∀ e, ((w.reads 0).reads 1).Calm e → w.ft.Quiet e.ft ∧
      (.me ∈ w.ft.group.live → w.Bounded e) :=
    fun e hStep => ⟨hStep.quiet, fun hMe => (hBoth hMe).trans hStep.bounded⟩
  simp only [prepareTakeover, Option.bind_eq_bind, Option.pure_def, hHead, Option.bind_some]
  rw [if_neg hNot]
  split
  · exact ⟨_, rfl, hCalm _ (Calm.refl _)⟩
  · split
    · have hCancel : ((w.reads 0).reads 1).Calm (((w.reads 0).reads 1).edit
          (fun f => (f.cancelTimer .prepare).cancelTimer .activate)) :=
        .edit _ _ ((Quiet.cancelTimer _ (by simp)).trans (.cancelTimer _ (by simp)))
      split
      · obtain ⟨k, hNotify, hTold⟩ := notifyChange_runs .deadline (((w.reads 0).reads 1).edit
          (fun f => (f.cancelTimer .prepare).cancelTimer .activate))
        exact ⟨k, hNotify, hCalm k (hCancel.trans hTold)⟩
      · exact ⟨_, rfl, hCalm _ hCancel⟩
    · obtain ⟨k, hArm, hQuiet, hReads⟩ := armTakeover_runs (w := (w.reads 0).reads 1) (p := p)
        hHead action (w.ft.group.peer p).lastRcvNs
      exact ⟨k, hArm, hQuiet,
        fun hMe => (hBoth hMe).trans (hReads (List.ne_nil_of_mem hMe))⟩

/-- A takeover outside the join state enters one state at most. -/
theorem prepareTakeover_ranked {w : Watched} (hMe : .me ∈ w.ft.group.live)
    (hJoin : w.ft.me.state ≠ .join) (depth : Nat) (action : FtAction) (deadline : Nat) :
    ∃ w', w.prepareTakeover silent (setState silent (depth + 1)) action deadline = some w' ∧
      w.Ranks w' := by
  have hLive := List.ne_nil_of_mem hMe
  obtain ⟨p, rest, hQueue⟩ := List.exists_cons_of_ne_nil hLive
  have hHead : w.ft.group.ptr 0 = some p := by simp [ptr, hQueue]
  by_cases hp : p = .me
  · subst hp
    have hFirst : w.Calm (w.reads 0) := .read (List.length_pos_of_ne_nil hLive)
    simp only [prepareTakeover, Option.bind_eq_bind, Option.pure_def, hHead, Option.bind_some,
      true_or, if_true]
    split
    · obtain ⟨e, hSet, hRanks⟩ := setState_primary_runs (w := w.reads 0) hMe depth
      obtain ⟨k, hNotify, hCalm⟩ := notifyUpdate_runs e
      exact ⟨k, by rw [hSet]; exact hNotify, ((hFirst.ranks hMe).trans hRanks).trans_calm hCalm⟩
    · obtain ⟨k, hArm, hQuiet, hReads⟩ := armTakeover_runs (w := w.reads 0) (p := .me) hHead action
        w.ft.startMono
      exact ⟨k, hArm, (hFirst.trans ⟨hQuiet, hReads hLive⟩).ranks hMe⟩
  · obtain ⟨k, hCall, hQuiet, hReads⟩ := prepareTakeover_idle hHead hp hJoin
      (setState silent (depth + 1)) action deadline
    exact ⟨k, hCall, Calm.ranks ⟨hQuiet, hReads hMe⟩ hMe⟩

theorem setState_secondary_runs {w : Watched} (hMe : .me ∈ w.ft.group.live) (depth : Nat) :
    ∃ w', w.setState silent (depth + 2) .secondary = some w' ∧ w.Ranks w' := by
  have hEnter := enterState_ranks hMe (show FtState.secondary ≠ .finish by simp)
  have hState : (w.enterState .secondary).ft.me.state = .secondary := by
    rw [enterState_ft, enterState_state]
  obtain ⟨b, hTold, hBefore⟩ : ∃ b, (w.enterState .secondary).actOnState silent
      (setState silent (depth + 1)) w.ft.me.state .secondary =
        b.prepareTakeover silent (setState silent (depth + 1)) .deactivate 0 ∧
      (w.enterState .secondary).Calm b := by
    generalize w.enterState .secondary = k
    simp only [actOnState, Option.bind_eq_bind]
    split
    · have hStamp : k.Calm (k.edit (fun f => { f with deactivateNs := f.stateNs })) :=
        .edit _ _ (.same rfl rfl rfl rfl rfl rfl rfl)
      have hSend := hStamp.trans (Calm.edit _ (·.sendMsg .deactivate []) (Quiet.sendMsg _ .deactivate []))
      obtain ⟨b, hNotify, hCalm⟩ := notifyChange_runs .deactivate
        ((k.edit (fun f => { f with deactivateNs := f.stateNs })).edit (·.sendMsg .deactivate []))
      exact ⟨b, by rw [hNotify]; rfl, hSend.trans hCalm⟩
    · exact ⟨k, rfl, Calm.refl k⟩
  have hRanks := hEnter.trans_calm hBefore
  obtain ⟨e, hTakeover, hAfter⟩ := prepareTakeover_ranked hRanks.present
    (by rw [hBefore.quiet.me, hState]; simp) depth .deactivate 0
  obtain ⟨w', hCall, hEnd⟩ := setState_runs (hTold.trans hTakeover)
  exact ⟨w', hCall, (hRanks.trans hAfter).trans_calm hEnd⟩

/-- A takeover in any state enters two states at most. -/
theorem prepareTakeover_runs {w : Watched} (hMe : .me ∈ w.ft.group.live) (depth : Nat)
    (action : FtAction) (deadline : Nat) :
    ∃ w', w.prepareTakeover silent (setState silent (depth + 2)) action deadline = some w' ∧
      w.Ranks w' := by
  by_cases hJoin : w.ft.me.state = .join
  · have hLive := List.ne_nil_of_mem hMe
    obtain ⟨p, rest, hQueue⟩ := List.exists_cons_of_ne_nil hLive
    have hHead : w.ft.group.ptr 0 = some p := by simp [ptr, hQueue]
    have hFirst : w.Calm (w.reads 0) := .read (List.length_pos_of_ne_nil hLive)
    have hEnd : ∀ e, w.Ranks e → ∃ w', e.notifyUpdate silent = some w' ∧ w.Ranks w' := by
      intro e hRanks
      obtain ⟨k, hNotify, hCalm⟩ := notifyUpdate_runs e
      exact ⟨k, hNotify, hRanks.trans_calm hCalm⟩
    simp only [prepareTakeover, Option.bind_eq_bind, Option.pure_def, hHead, Option.bind_some,
      hJoin, or_true, if_true, true_and]
    split
    · split
      · obtain ⟨e, hSet, hRanks⟩ := setState_primary_runs (w := w.reads 0) hMe (depth + 1)
        rw [hSet]
        exact hEnd e ((hFirst.ranks hMe).trans hRanks)
      · obtain ⟨e, hSet, hRanks⟩ := setState_secondary_runs (w := w.reads 0) hMe depth
        rw [hSet]
        exact hEnd e ((hFirst.ranks hMe).trans hRanks)
    · obtain ⟨k, hArm, hQuiet, hReads⟩ := armTakeover_runs (w := w.reads 0) (p := p) hHead action
        w.ft.startMono
      exact ⟨k, hArm, (hFirst.trans ⟨hQuiet, hReads hLive⟩).ranks hMe⟩
  · exact prepareTakeover_ranked hMe hJoin (depth + 1) action deadline

theorem setState_join_runs (w : Watched) (depth : Nat) :
    ∃ w', w.setState silent (depth + 3) .join = some w' ∧ w.Ranks w' := by
  obtain ⟨b, hTold, hFrame, hState, hMe, hReads⟩ : ∃ b,
      (w.enterState .join).actOnState silent (setState silent (depth + 2)) w.ft.me.state .join =
        (b.prepareTakeover silent (setState silent (depth + 2)) .join 0).bind
          (notifyChange silent .join) ∧ w.ft.Frame b.ft ∧ b.ft.me.state = .join ∧
        .me ∈ b.ft.group.live ∧ w.Bounded b := by
    obtain ⟨hEnter, -⟩ := enterState_frame w.ft .join
    rw [← enterState_ft] at hEnter
    have hState : (w.enterState .join).ft.me.state = .join := by
      rw [enterState_ft, enterState_state]
    have hReads := enterState_bounded w .join
    generalize w.enterState .join = k at hEnter hState hReads
    have hInsert : k.ft.Frame (k.ft.withGroup (k.ft.group.insert .me)) := .withGroup _ _
    have hSend := Quiet.sendMsg (k.ft.withGroup (k.ft.group.insert .me)) .announce []
    refine ⟨(k.edit (fun f => f.withGroup (f.group.insert .me))).edit (·.sendMsg .announce []),
      rfl, (hEnter.trans hInsert).trans hSend.toFrame, ?_, ?_, ?_⟩
    · rw [hSend.me, ← hState]
      exact ((insert_sameTable k.ft.group .me).peer .me).state
    · rw [hSend.group]
      exact mem_reorder.mpr (Or.inl rfl)
    · exact hReads.trans ((Bounded.edit k _).trans (.edit _ _))
  obtain ⟨k, hTakeover, hRanks⟩ := prepareTakeover_runs hMe depth .join 0
  obtain ⟨e, hNotify, hCalm⟩ := notifyChange_runs .join k
  obtain ⟨w', hCall, hEnd⟩ := setState_runs
    (hTold.trans ((congrArg (Option.bind · _) hTakeover).trans hNotify))
  have hAfter := (hRanks.trans_calm hCalm).trans_calm hEnd
  refine ⟨w', hCall, hFrame.trans hAfter.frame, hReads.trans hAfter.bounded, hAfter.present, ?_⟩
  intro hFinish
  have hBefore := hAfter.finish hFinish
  rw [hState] at hBefore
  cases hBefore

theorem setState_listen_runs (w : Watched) (depth : Nat) :
    ∃ w', w.setState silent (depth + 1) .listen = some w' ∧ w.ft.Frame w'.ft ∧
      w'.ft.me.state = .listen ∧ w.Bounded w' := by
  obtain ⟨hFrame, -⟩ := enterState_frame w.ft .listen
  have hState := enterState_state w.ft .listen
  rw [← enterState_ft] at hFrame hState
  have hReads := enterState_bounded w .listen
  obtain ⟨w', hCall, hEnd⟩ := @setState_runs w _ depth .listen rfl
  have hSend := (Calm.edit (w.enterState .listen) (·.sendMsg .announce [])
    (Quiet.sendMsg _ .announce [])).trans hEnd
  exact ⟨w', hCall, hFrame.trans hSend.quiet.toFrame, by rw [hSend.quiet.me, hState],
    hReads.trans hSend.bounded⟩

end Watched

/-- `me` is queued while it has joined, and the heartbeat timer is not armed
after the finish. -/
structure Tended (f : RvFt) : Prop where
  present : f.me.state.counted = true → .me ∈ f.group.live
  beat : f.me.state = .finish → f.timerMask .heartbeat = false
  armed : (f.tid, .heartbeat) ∈ f.timers → f.timerMask .heartbeat = true

namespace RvFt
open FtGroup

theorem Frame.armed {f g : RvFt} (hFrame : f.Frame g)
    (h : (f.tid, .heartbeat) ∈ f.timers → f.timerMask .heartbeat = true) :
    (g.tid, .heartbeat) ∈ g.timers → g.timerMask .heartbeat = true := by
  intro hMem
  rw [hFrame.tid] at hMem
  rw [hFrame.beat]
  exact h (hFrame.kept .heartbeat (by simp) (by simp) hMem)

/-- `trim_ft_queue` drops the others. -/
theorem trimLoop_frame (i : Nat) (f : RvFt) : f.Frame (trimLoop i f) ∧
    (.me ∈ f.group.live → .me ∈ (trimLoop i f).group.live) := by
  induction i generalizing f with
  | zero => exact ⟨Frame.refl f, id⟩
  | succ i ih =>
      simp only [trimLoop]
      split
      · exact ⟨Frame.refl f, id⟩
      · split
        · rename_i p _ hMissing
          obtain ⟨hFrame, hLive⟩ := ih (f.withGroup (f.group.dropPeer p .finish))
          exact ⟨(Frame.withGroup f _).trans hFrame,
            fun hMe => hLive (mem_dropPeer_of_mem hMissing.1.symm hMe .finish)⟩
        · exact ih f

/-- `start_hb` leaves the heartbeat armed. -/
theorem startHb_beats (f : RvFt) (hbIval actIval prepIval : Nat) :
    (f.startHb hbIval actIval prepIval).timerMask .heartbeat = true := by
  have hSet : ∀ e : RvFt, (if e.timerMask .heartbeat then e
      else { e.addTimer .heartbeat with lastHbNs := e.monoNs }).timerMask .heartbeat = true := by
    intro e
    split
    · assumption
    · simp [addTimer]
  exact hSet _

/-- `finish` disarms the heartbeat. -/
theorem finish_beat {f : RvFt}
    (h : (f.tid, .heartbeat) ∈ f.timers → f.timerMask .heartbeat = true) :
    f.finish.timerMask .heartbeat = false ∧
      (f.finish.tid, .heartbeat) ∉ f.finish.timers := by
  obtain ⟨e, hSend, hFinish⟩ : ∃ e, f.Quiet e ∧ f.finish = ((e.cancelTimer .heartbeat).stopTimers.emit
      (.unsubscribe (e.cancelTimer .heartbeat).stopTimers.ftSub)).notifyChange .finish := by
    refine ⟨if f.me.state ≠ .listen then f.sendMsg .exiting [] else f, ?_, rfl⟩
    split
    · exact Quiet.sendMsg f .exiting []
    · exact Quiet.refl f
  have hCancel := Base.cancelTimer e .heartbeat
  have hGone : (e.tid, .heartbeat) ∉ (e.cancelTimer .heartbeat).timers := by
    unfold RvFt.cancelTimer
    split
    · simp
    · rename_i hClear
      exact fun hMem => hClear (hSend.armed h hMem)
  have hRest := Quiet.stopTimers (e.cancelTimer .heartbeat)
  rw [hFinish]
  refine ⟨hRest.beat.trans (cancelTimer_mask e .heartbeat), ?_⟩
  change ((e.cancelTimer .heartbeat).stopTimers.tid, .heartbeat) ∉
    (e.cancelTimer .heartbeat).stopTimers.timers
  rw [hRest.tid]
  intro hMem
  have hKept := hRest.kept .heartbeat (by simp) (by simp) hMem
  rw [hCancel.tid] at hKept
  exact hGone hKept

end RvFt

open RvFt in
theorem Tended.frame {f g : RvFt} (h : Tended f) (hFrame : f.Frame g)
    (hPresent : g.me.state.counted = true → .me ∈ g.group.live)
    (hFinish : g.me.state = .finish → f.me.state = .finish) : Tended g := by
  refine ⟨hPresent, ?_, hFrame.armed h.armed⟩
  intro hEq
  rw [hFrame.beat]
  exact h.beat (hFinish hEq)

open RvFt in
theorem Tended.quiet {f g : RvFt} (h : Tended f) (hQuiet : f.Quiet g) : Tended g := by
  refine h.frame hQuiet.toFrame ?_ (by rw [hQuiet.me]; exact id)
  rw [hQuiet.me, hQuiet.group]
  exact h.present

open RvFt in
theorem Tended.trimFtQueue {f : RvFt} (h : Tended f) : Tended f.trimFtQueue := by
  obtain ⟨hFrame, hLive⟩ := trimLoop_frame f.group.live.length f
  have hStays : f.trimFtQueue.me.state = f.me.state := trimLoop_stays f.group.live.length f
  refine h.frame hFrame ?_ (by rw [hStays]; exact id)
  rw [hStays]
  exact fun hCounted => hLive (h.present hCounted)

/-- In the listen state nothing but the timers counts. -/
theorem Tended.listening {f : RvFt} (hState : f.me.state = .listen)
    (hArmed : (f.tid, .heartbeat) ∈ f.timers → f.timerMask .heartbeat = true) : Tended f := by
  refine ⟨?_, ?_, hArmed⟩
  · rw [hState]
    exact fun hEq => by cases hEq
  · rw [hState]
    exact fun hEq => by cases hEq

namespace Watched
open RvFt FtGroup

theorem Ranks.tended {w w' : Watched} (h : Tended w.ft) (hRanks : w.Ranks w') : Tended w'.ft :=
  h.frame hRanks.frame (fun _ => hRanks.present) hRanks.finish

/-- A call that returns, and leaves the member well. -/
def Runs (w : Watched) (call : Option Watched) : Prop :=
  ∃ w', call = some w' ∧ Tended w'.ft ∧ w.Bounded w'

theorem Runs.of_ranks {w w' : Watched} (h : Tended w.ft) (hRanks : w.Ranks w') :
    w.Runs (some w') :=
  ⟨w', rfl, hRanks.tended h, hRanks.bounded⟩

theorem Runs.notifyUpdate {w k : Watched} (h : Tended k.ft) (hReads : w.Bounded k) :
    w.Runs (k.notifyUpdate silent) := by
  obtain ⟨w', hNotify, hCalm⟩ := notifyUpdate_runs k
  exact ⟨w', hNotify, h.quiet hCalm.quiet, hReads.trans hCalm.bounded⟩

theorem start_runs (w : Watched) (depth : Nat) (param : FtParameters) :
    ∃ w', w.start silent (depth + 1) param = some w' ∧ Tended w'.ft ∧ w.Bounded w' := by
  obtain ⟨k, hStart, hBeat, hReads⟩ : ∃ k : Watched, w.start silent (depth + 1) param =
      (k.setState silent (depth + 1) .listen).bind (notifyChange silent .listen) ∧
      k.ft.timerMask .heartbeat = true ∧ w.Bounded k := by
    refine ⟨_, rfl, startHb_beats _ _ _ _, ?_⟩
    have hFirst := (Bounded.edit w (·.prepared param)).trans
      (@Bounded.mark _ (.entered .listen) (by simp))
    refine Bounded.trans ?_ (.edit _ _)
    split
    · exact hFirst.trans (.edit _ _)
    · exact hFirst
  obtain ⟨e, hSet, hFrame, hState, hEnter⟩ := setState_listen_runs k depth
  obtain ⟨w', hNotify, hCalm⟩ := notifyChange_runs .listen e
  refine ⟨w', hStart.trans ((congrArg (Option.bind · _) hSet).trans hNotify), ?_,
    (hReads.trans hEnter).trans hCalm.bounded⟩
  have hListen : Tended e.ft := by
    refine .listening hState (fun _ => ?_)
    rw [hFrame.beat]
    exact hBeat
  exact hListen.quiet hCalm.quiet

theorem finish_runs (w : Watched) :
    ∃ w', w.finish silent = some w' ∧ w'.ft = w.ft.finish ∧ w.Bounded w' := by
  have hCall : (w.finish silent).map Watched.ft = some w.ft.finish := finish_erases w
  obtain ⟨w', hFinish, hEq⟩ := Option.map_eq_some_iff.mp hCall
  refine ⟨w', hFinish, hEq, ?_⟩
  obtain ⟨k, hNotify, hReads⟩ : ∃ k, w.finish silent = k.notifyChange silent .finish ∧
      w.Bounded k := by
    refine ⟨_, rfl, Bounded.trans ?_ (((Bounded.edit _ _).trans (.edit _ _)).trans (.edit _ _))⟩
    split
    · exact .edit w _
    · exact .refl w
  obtain ⟨e, hTold, hCalm⟩ := notifyChange_runs .finish k
  have hSame : e = w' := Option.some.inj (hTold.symm.trans (hNotify.symm.trans hFinish))
  rw [← hSame]
  exact hReads.trans hCalm.bounded

theorem setState_finish_runs {w : Watched} (h : Tended w.ft) (depth : Nat) :
    w.Runs (w.setState silent (depth + 1) .finish) := by
  obtain ⟨hFrame, -⟩ := enterState_frame w.ft .finish
  have hState := enterState_state w.ft .finish
  rw [← enterState_ft] at hFrame hState
  have hReads := enterState_bounded w .finish
  have hArmed := hFrame.armed h.armed
  obtain ⟨e, hFinish, hEq, hEnd⟩ := finish_runs (w.enterState .finish)
  obtain ⟨w', hCall, hCalm⟩ := @setState_runs w _ depth .finish hFinish
  obtain ⟨hMask, hGone⟩ := finish_beat hArmed
  have hSame : e.ft.me.state = .finish := by
    rw [hEq, RvFt.me, (finish_base _).2]
    exact hState
  have hTended : Tended e.ft := by
    refine ⟨?_, ?_, ?_⟩
    · rw [hSame]
      exact fun hCounted => by cases hCounted
    · rw [hEq]
      exact fun _ => hMask
    · rw [hEq]
      exact fun hMem => absurd hMem hGone
  exact ⟨w', hCall, hTended.quiet hCalm.quiet, (hReads.trans hEnd).trans hCalm.bounded⟩

theorem Runs.of_join {w k : Watched} (h : Tended k.ft) (hReads : w.Bounded k) (depth : Nat) :
    w.Runs (k.setState silent (depth + 3) .join) := by
  obtain ⟨w', hCall, hRanks⟩ := setState_join_runs k depth
  exact ⟨w', hCall, hRanks.tended h, hReads.trans hRanks.bounded⟩

theorem stop_runs {w : Watched} (h : Tended w.ft) (depth : Nat) :
    w.Runs (w.stop silent (depth + 1)) := by
  unfold stop
  split
  · exact setState_finish_runs h depth
  · split
    · exact ⟨w, rfl, h, Bounded.refl w⟩
    · have hMask : (w.ft.addTimer .finish).timerMask .heartbeat = w.ft.timerMask .heartbeat :=
        by simp [addTimer]
      refine ⟨_, rfl, ⟨h.present, ?_, ?_⟩, .edit w _⟩
      · exact fun hFinish => hMask.trans (h.beat hFinish)
      · intro hMem
        exact hMask.trans (h.armed ((List.mem_append.mp hMem).resolve_right (by simp)))

theorem activate_runs {w : Watched} (h : Tended w.ft) (depth : Nat) :
    w.Runs (w.activate silent (depth + 3)) := by
  unfold activate
  split
  · have hStamp : Tended { w.ft with startMono := w.ft.monoNs } := ⟨h.present, h.beat, h.armed⟩
    exact .of_join (hStamp.quiet (.cancelTimer _ (by simp))) (.edit w _) depth
  · exact ⟨w, rfl, h, Bounded.refl w⟩

theorem deactivate_runs {w : Watched} (h : Tended w.ft) (depth : Nat) :
    w.Runs (w.deactivate silent (depth + 1)) := by
  simp only [deactivate, Option.bind_eq_bind, Option.pure_def]
  split
  · have hStop := Quiet.stopTimers (w.ft.withGroup (w.ft.group.remove .me))
    obtain ⟨e, hSet, hFrame, hState, hReads⟩ := setState_listen_runs
      ((w.edit (fun f => f.withGroup (f.group.remove .me))).edit (·.stopTimers)) depth
    obtain ⟨w', hNotify, hCalm⟩ := notifyChange_runs .listen e
    rw [hSet]
    refine ⟨w', hNotify, ?_, (((Bounded.edit w _).trans (.edit _ _)).trans hReads).trans
      hCalm.bounded⟩
    have hAll := ((Frame.withGroup w.ft _).trans hStop.toFrame).trans hFrame
    exact (Tended.listening hState (hAll.armed h.armed)).quiet hCalm.quiet
  · exact ⟨w, rfl, h, Bounded.refl w⟩

theorem Tended.clearMask {w : Watched} (h : Tended w.ft) {action : FtAction}
    (hAction : action ≠ .heartbeat) : Tended (w.clearMask action).ft := by
  refine ⟨h.present, ?_, ?_⟩
  · intro hFinish
    exact (Function.update_of_ne hAction.symm _ _).trans (h.beat hFinish)
  · intro hMem
    exact (Function.update_of_ne hAction.symm _ _).trans (h.armed hMem)

theorem counted_of {state : FtState} (h : state = .secondary ∨ state = .join) :
    state.counted = true := by
  rcases h with rfl | rfl <;> rfl

theorem takeoverTimer_runs {w : Watched} (h : Tended w.ft) {action : FtAction}
    (hAction : action ≠ .heartbeat) (ival : Int) (depth : Nat) :
    w.Runs (w.takeoverTimer silent (depth + 2) action ival) := by
  simp only [takeoverTimer, Option.bind_eq_bind]
  have hClear := Tended.clearMask h hAction
  split
  · rename_i hRun
    have hTrim := hClear.trimFtQueue
    have hMe : .me ∈ ((w.clearMask action).edit (·.trimFtQueue)).ft.group.live := by
      refine hTrim.present ?_
      rw [show RvFt.me _ = _ from rfl]
      have hStays : (RvFt.trimFtQueue (w.clearMask action).ft).me.state = w.ft.me.state :=
        trimLoop_stays _ (w.clearMask action).ft
      exact (congrArg FtState.counted hStays).trans (counted_of hRun.2)
    obtain ⟨k, hTakeover, hRanks⟩ := prepareTakeover_runs hMe depth action 0
    rw [hTakeover]
    exact .notifyUpdate (hRanks.tended hTrim)
      (((Bounded.edit w _).trans (.edit _ _)).trans hRanks.bounded)
  · exact .notifyUpdate hClear (.edit w _)

/-- The heartbeat does not stop its own timer. -/
theorem heartbeatTimer_runs {w : Watched} (h : Tended w.ft) (hFinish : w.ft.me.state ≠ .finish)
    (depth : Nat) : ∃ w', w.heartbeatTimer silent (depth + 2) = some w' ∧ Tended w'.ft ∧
      w.ft.Frame w'.ft ∧ w.Bounded w' := by
  simp only [heartbeatTimer, Option.bind_eq_bind]
  generalize isAccurate (w.ft.expiredDeltaMs w.ft.lastHbNs w.ft.heartbeatMs) = accurate
  obtain ⟨e, hTrim, hTended, hFrame, hState, hReads⟩ : ∃ e,
      (if accurate = true then w.edit (·.trimFtQueue) else w) = e ∧ Tended e.ft ∧
        w.ft.Frame e.ft ∧ e.ft.me.state = w.ft.me.state ∧ w.Bounded e := by
    refine ⟨_, rfl, ?_⟩
    split
    · exact ⟨h.trimFtQueue, (trimLoop_frame _ w.ft).1, trimLoop_stays _ w.ft, .edit w _⟩
    · exact ⟨h, Frame.refl w.ft, rfl, .refl w⟩
  rw [hTrim]
  have hEnd : ∀ k, Tended k.ft → e.ft.Frame k.ft → e.Bounded k → ∃ w',
      (k.edit (fun f => { f with lastHbNs := f.monoNs })).notifyUpdate silent = some w' ∧
        Tended w'.ft ∧ w.ft.Frame w'.ft ∧ w.Bounded w' := by
    intro k hWell hSame hBounded
    have hStamp : k.Calm (k.edit (fun f => { f with lastHbNs := f.monoNs })) :=
      .edit _ _ (.same rfl rfl rfl rfl rfl rfl rfl)
    obtain ⟨w', hNotify, hCalm⟩ := notifyUpdate_runs (k.edit (fun f => { f with lastHbNs := f.monoNs }))
    have hAll := hStamp.trans hCalm
    exact ⟨w', hNotify, hWell.quiet hAll.quiet, (hFrame.trans hSame).trans hAll.quiet.toFrame,
      (hReads.trans hBounded).trans hAll.bounded⟩
  have hSend := fun (k : Watched) type => Calm.edit k (·.sendMsg type []) (Quiet.sendMsg k.ft type [])
  split
  · have hBeat := hSend e .heartbeat
    exact hEnd _ (hTended.quiet hBeat.quiet) hBeat.quiet.toFrame hBeat.bounded
  · rename_i hPrimary
    split
    · rename_i hListen
      cases accurate with
      | false =>
          have hKeep := hSend e .keepalive
          exact hEnd _ (hTended.quiet hKeep.quiet) hKeep.quiet.toFrame hKeep.bounded
      | true =>
          have hMe : .me ∈ e.ft.group.live := by
            refine hTended.present ?_
            rw [← hState] at hFinish
            revert hFinish hListen
            cases e.ft.me.state <;> simp [FtState.counted]
          obtain ⟨k, hTakeover, hRanks⟩ := prepareTakeover_runs hMe depth .heartbeat 0
          have hKeep := hSend k .keepalive
          rw [if_pos rfl, hTakeover]
          exact hEnd _ ((hRanks.tended hTended).quiet hKeep.quiet)
            (hRanks.frame.trans hKeep.quiet.toFrame) (hRanks.bounded.trans hKeep.bounded)
    · exact hEnd e hTended (Frame.refl e.ft) (.refl e)

theorem fire_runs {w : Watched} (h : Tended w.ft) {id : Nat} {action : FtAction}
    (hArmed : (id, action) ∈ w.ft.timers) (depth : Nat) :
    w.Runs (w.fire silent (depth + 3) id action) := by
  simp only [fire, Option.bind_eq_bind, Option.pure_def, hArmed, if_true]
  obtain ⟨e, hFired, hReads, hTended, hState, hTid, hMask⟩ : ∃ e : Watched,
      { w.edit (fun f => { f with timers := f.timers.erase (id, action) }) with
        firing := some (id, action) } = e ∧ w.Bounded e ∧ Tended e.ft ∧
        e.ft.me.state = w.ft.me.state ∧ e.ft.tid = w.ft.tid ∧ e.ft.timerMask = w.ft.timerMask :=
    ⟨_, rfl, ⟨[], by simp, by simp⟩,
      ⟨h.present, h.beat, fun hMem => h.armed (List.mem_of_mem_erase hMem)⟩, rfl, rfl, rfl⟩
  rw [hFired]
  have hDone : ∀ call : Option Watched, e.Runs call → w.Runs ((call.bind (fun k => some (k, false))).bind
      (fun r => some (if r.2 = true then { r.1 with firing := none }.edit
        (fun f => { f with timers := f.timers ++ [(id, action)] })
      else { r.1 with firing := none }))) := by
    rintro call ⟨k, rfl, hWell, hBounded⟩
    exact ⟨{ k with firing := none }, rfl, hWell, hReads.trans hBounded⟩
  have hSame : e.Runs (some e) := ⟨e, rfl, hTended, .refl e⟩
  have hClear := fun (a : FtAction) (ha : a ≠ .heartbeat) => Tended.clearMask hTended ha
  simp only [timerCb, Option.bind_eq_bind, Option.pure_def]
  split
  · exact hDone _ hSame
  · rename_i hId
    rw [not_not] at hId
    cases action with
    | activate => exact hDone _ (takeoverTimer_runs hTended (by simp) _ (depth + 1))
    | prepare => exact hDone _ (takeoverTimer_runs hTended (by simp) _ (depth + 1))
    | heartbeat =>
        have hBeat : w.ft.timerMask .heartbeat = true := h.armed (by rw [← hTid, ← hId]; exact hArmed)
        have hFinish : e.ft.me.state ≠ .finish := by
          rw [hState]
          intro hEq
          rw [h.beat hEq] at hBeat
          cases hBeat
        obtain ⟨k, hCall, hWell, hFrame, hBounded⟩ := heartbeatTimer_runs hTended hFinish (depth + 1)
        rw [hCall]
        refine ⟨_, rfl, ⟨hWell.present, hWell.beat, fun _ => ?_⟩, hReads.trans hBounded⟩
        exact hFrame.beat.trans ((congrFun hMask _).trans hBeat)
    | join => exact hDone _ (.of_join (hClear .join (by simp)) (.edit e _) depth)
    | finish =>
        obtain ⟨k, hCall, hWell, hBounded⟩ := setState_finish_runs (hClear .finish (by simp))
          (depth + 2)
        exact hDone _ ⟨k, hCall, hWell, (Bounded.edit e _).trans hBounded⟩
    | listen => exact hDone _ hSame
    | deactivate => exact hDone _ hSame
    | update => exact hDone _ hSame

theorem checkRank_runs {w : Watched} (h : Tended w.ft) (depth : Nat) :
    w.Runs (w.checkRank silent (depth + 2)) := by
  have hPlace : w.ft.me.state.counted = true → .me ∈ w.ft.group.live ∧ w.Calm (w.reads 0) := by
    intro hCounted
    have hMe := h.present hCounted
    exact ⟨hMe, .read (List.length_pos_of_mem hMe)⟩
  have hPrimary : w.ft.me.state.counted = true →
      w.Runs ((w.reads 0).setState silent (depth + 2) .primary) := by
    intro hCounted
    obtain ⟨hMe, hRead⟩ := hPlace hCounted
    obtain ⟨w', hCall, hRanks⟩ := setState_primary_runs (w := w.reads 0) hMe (depth + 1)
    rw [hCall]
    exact .of_ranks h ((hRead.ranks hMe).trans hRanks)
  have hSecondary : w.ft.me.state.counted = true →
      w.Runs ((w.reads 0).setState silent (depth + 2) .secondary) := by
    intro hCounted
    obtain ⟨hMe, hRead⟩ := hPlace hCounted
    obtain ⟨w', hCall, hRanks⟩ := setState_secondary_runs (w := w.reads 0) hMe depth
    rw [hCall]
    exact .of_ranks h ((hRead.ranks hMe).trans hRanks)
  unfold checkRank
  split
  · rename_i hState
    have hCounted : w.ft.me.state.counted = true := by rw [hState]; rfl
    split
    · exact hSecondary hCounted
    · exact hPrimary hCounted
  · split
    · rename_i hState
      have hCounted : w.ft.me.state.counted = true := by rw [hState]; rfl
      split
      · exact hSecondary hCounted
      · exact ⟨_, rfl, h, (hPlace hCounted).2.bounded⟩
    · exact ⟨w, rfl, h, .refl w⟩

theorem Runs.trans {w k : Watched} {call : Option Watched} (left : w.Bounded k)
    (right : k.Runs call) : w.Runs call := by
  obtain ⟨w', hCall, hTended, hBounded⟩ := right
  exact ⟨w', hCall, hTended, left.trans hBounded⟩

theorem notifyAndAck_runs {w k : Watched} (h : Tended k.ft) (hReads : w.Bounded k)
    (m : FtPeerMsg) :
    w.Runs ((k.notifyUpdate silent).bind (fun k => some (k.edit (·.ackAnnounce m)))) := by
  obtain ⟨e, hNotify, hCalm⟩ := notifyUpdate_runs k
  have hAck : e.Calm (e.edit (·.ackAnnounce m)) := .edit _ _ (Quiet.ackAnnounce e.ft m)
  have hAll := hCalm.trans hAck
  rw [hNotify]
  exact ⟨_, rfl, h.quiet hAll.quiet, hReads.trans hAll.bounded⟩

theorem checkAndAck_runs {w : Watched} (h : Tended w.ft) (m : FtPeerMsg) (depth : Nat) :
    w.Runs (w.checkAndAck silent (depth + 2) m) := by
  obtain ⟨k, hRank, hTended, hBounded⟩ := checkRank_runs h depth
  simp only [checkAndAck, Option.bind_eq_bind, Option.pure_def, hRank, Option.bind_some]
  exact notifyAndAck_runs hTended hBounded m

/-- A call before the finish state also keeps to the bounds of the queue. -/
def RunsWell (w : Watched) (call : Option Watched) : Prop :=
  ∃ w', call = some w' ∧ Tended w'.ft ∧ (w.ft.me.state ≠ .finish → w.Bounded w')

theorem Runs.well {w : Watched} {call : Option Watched} (h : w.Runs call) : w.RunsWell call := by
  obtain ⟨w', hCall, hTended, hBounded⟩ := h
  exact ⟨w', hCall, hTended, fun _ => hBounded⟩

theorem onAdmitted_runs {w : Watched} (h : Tended w.ft) {p : PeerRef} (hp : p ≠ .me)
    (m : FtPeerMsg) (depth : Nat) : w.RunsWell (w.onAdmitted silent (depth + 2) m p) := by
  unfold onAdmitted
  split
  · exact (Runs.notifyUpdate h (.refl w)).well
  · rename_i hListen
    have hMe : w.ft.me.state ≠ .finish → .me ∈ w.ft.group.live := by
      intro hFinish
      refine h.present ?_
      revert hFinish hListen
      cases w.ft.me.state <;> simp [FtState.counted]
    have hRead : w.ft.me.state ≠ .finish → w.Bounded (w.reads 0) :=
      fun hFinish => .read (List.length_pos_of_mem (hMe hFinish))
    split
    · simp only [Option.bind_eq_bind]
      split
      · rename_i hHead
        obtain ⟨k, hTakeover, hTended, hBounded⟩ : ∃ k, (w.reads 0).prepareTakeover silent
            (setState silent (depth + 2)) .finish m.finTime = some k ∧ Tended k.ft ∧
              (w.ft.me.state ≠ .finish → w.Bounded k) := by
          by_cases hFinish : w.ft.me.state = .finish
          · obtain ⟨k, hCall, hQuiet, -⟩ := prepareTakeover_idle (w := w.reads 0) hHead hp
              (by rw [show (w.reads 0).ft.me.state = _ from hFinish]; simp)
              (setState silent (depth + 2)) .finish m.finTime
            exact ⟨k, hCall, h.quiet hQuiet, fun hNot => absurd hFinish hNot⟩
          · obtain ⟨k, hCall, hRanks⟩ := prepareTakeover_runs (w := w.reads 0) (hMe hFinish) depth
              .finish m.finTime
            have hTended : Tended (w.reads 0).ft := h
            exact ⟨k, hCall, hRanks.tended hTended,
              fun _ => (hRead hFinish).trans hRanks.bounded⟩
        obtain ⟨w', hNotify, hCalm⟩ := notifyUpdate_runs k
        rw [hTakeover]
        exact ⟨w', hNotify, hTended.quiet hCalm.quiet,
          fun hFinish => (hBounded hFinish).trans hCalm.bounded⟩
      · obtain ⟨w', hNotify, hCalm⟩ := notifyUpdate_runs (w.reads 0)
        exact ⟨w', hNotify, Tended.quiet (f := w.ft) h hCalm.quiet,
          fun hFinish => (hRead hFinish).trans hCalm.bounded⟩
    · exact (checkAndAck_runs h m depth).well

theorem RunsWell.of {w k : Watched} {call : Option Watched} (hReads : w.Bounded k)
    (hState : k.ft.me.state = w.ft.me.state) (h : k.RunsWell call) : w.RunsWell call := by
  obtain ⟨w', hCall, hTended, hBounded⟩ := h
  exact ⟨w', hCall, hTended, fun hFinish => hReads.trans (hBounded (by rw [hState]; exact hFinish))⟩

theorem Tended.withGroup {f : RvFt} (h : Tended f) {group : FtGroup}
    (hState : (group.peer .me).state = f.me.state)
    (hLive : .me ∈ f.group.live → .me ∈ group.live) : Tended (f.withGroup group) := by
  refine h.frame (.withGroup f group) ?_ ?_
  · intro hCounted
    exact hLive (h.present (by rw [← hState]; exact hCounted))
  · intro hFinish
    rw [← hState]
    exact hFinish

/-- Work on another group with the same state of `me`. -/
theorem RunsWell.regrouped {w : Watched} (h : Tended w.ft) {group : FtGroup}
    (hState : (group.peer .me).state = w.ft.me.state)
    (hLive : .me ∈ w.ft.group.live → .me ∈ group.live) {rest : Watched → Option Watched}
    (hRest : ∀ k : Watched, Tended k.ft → k.RunsWell (rest k)) :
    w.RunsWell (rest (w.edit (fun f => f.withGroup group))) := by
  have hTended : Tended (w.ft.withGroup group) := Tended.withGroup h hState hLive
  have hEdit := Bounded.edit w (fun f => f.withGroup group)
  exact RunsWell.of hEdit hState (hRest _ hTended)

theorem onRecorded_runs {w : Watched} (h : Tended w.ft) {p : PeerRef} (hp : p ≠ .me)
    (m : FtPeerMsg) (depth : Nat) : w.RunsWell (w.onRecorded silent (depth + 2) m p) := by
  unfold onRecorded
  split
  · exact RunsWell.regrouped h (((update_sameTable w.ft.group p).peer .me).state)
      (mem_update_of_mem p) (fun k hk => onAdmitted_runs hk hp m depth)
  · exact RunsWell.regrouped h (dropPeer_stays hp .finish)
      (fun hMe => mem_dropPeer_of_mem hp.symm hMe .finish)
      (fun k hk => (checkAndAck_runs hk m depth).well)

theorem dropListener_runs {w : Watched} (h : Tended w.ft) (hForeign : w.ft.group.Foreign)
    (m : FtPeerMsg) : w.RunsWell (some (w.dropListener m)) := by
  unfold dropListener
  split
  · rename_i p hFind
    have hp := find_ne_me hForeign hFind
    exact @RunsWell.regrouped _ h _ (dropPeer_stays hp .listen)
      (fun hMe => mem_dropPeer_of_mem hp.symm hMe .listen) some
      (fun k hk => ⟨k, rfl, hk, fun _ => .refl k⟩)
  · exact ⟨w, rfl, h, fun _ => .refl w⟩

/-- A free slot is always found, in a new block where the others are full. -/
theorem makePeer_returns (chain : List FtPeerFree) (h : FtPeerFree.isAllUsed chain = false) :
    ∃ made, FtPeerFree.makePeer chain = some made := by
  induction chain with
  | nil => cases h
  | cons f next ih =>
      unfold FtPeerFree.makePeer
      split
      · exact ⟨_, rfl⟩
      · rename_i hFull
        rw [not_not] at hFull
        simp only [FtPeerFree.isAllUsed, List.all_cons, hFull, beq_self_eq_true,
          Bool.true_and] at h
        obtain ⟨made, hMade⟩ := ih h
        rw [hMade]
        exact ⟨_, rfl⟩

theorem recordPeer_returns (f : RvFt) (m : FtPeerMsg) : ∃ recorded, f.recordPeer m = some recorded ∧
    ∀ g p, recorded = some (g, p) → f.Frame g ∧ g.group.live = f.group.live := by
  unfold recordPeer
  split
  · obtain ⟨made, hMade⟩ := makePeer_returns
      (if FtPeerFree.isAllUsed f.group.ftFree then ⟨f.group.ftFree.length, 0⟩ :: f.group.ftFree
        else f.group.ftFree) (by
          split
          · simp [FtPeerFree.isAllUsed]
          · rename_i hFree
            simpa using hFree)
    simp only [FtGroup.makePeer, Option.bind_eq_bind, Option.pure_def, hMade, Option.bind_some]
    refine ⟨_, rfl, ?_⟩
    rintro g p ⟨⟩
    exact ⟨.withGroup f _, rfl⟩
  · split
    · refine ⟨_, rfl, ?_⟩
      rintro g p ⟨⟩
    · refine ⟨_, rfl, ?_⟩
      rintro g p ⟨⟩
      exact ⟨.withGroup f _, rfl⟩

theorem onFollowed_runs {w : Watched} (h : Tended w.ft) (hForeign : w.ft.group.Foreign)
    (m : FtPeerMsg) (depth : Nat) : w.RunsWell (w.onFollowed silent (depth + 2) m) := by
  simp only [onFollowed, Option.bind_eq_bind, Option.pure_def]
  split
  · obtain ⟨k, hDrop, hTended, hReads⟩ := dropListener_runs h hForeign m
    cases hDrop
    obtain ⟨w', hCall, hWell, hBounded⟩ := notifyAndAck_runs hTended (.refl _) m
    exact ⟨w', hCall, hWell, fun hFinish => (hReads hFinish).trans hBounded⟩
  · obtain ⟨recorded, hRecord, hSame⟩ := recordPeer_returns w.ft m
    rw [hRecord]
    cases recorded with
    | none => exact ⟨w, rfl, h, fun _ => .refl w⟩
    | some found =>
        obtain ⟨f, p⟩ := found
        obtain ⟨hFrame, hLive⟩ := hSame f p rfl
        obtain ⟨hp, hStays⟩ := recordPeer_stays hForeign hRecord
        have hTended : Tended f := by
          refine h.frame hFrame ?_ ?_
          · rw [hStays, hLive]
            exact h.present
          · rw [hStays]
            exact id
        have hRest := onRecorded_runs (w := { w with ft := f }) hTended hp m depth
        have hReads : w.Bounded { w with ft := f } := ⟨[], by simp, by simp⟩
        exact RunsWell.of hReads hStays hRest

theorem onPeerMsg_runs {w : Watched} (h : Tended w.ft) (hForeign : w.ft.group.Foreign)
    (m : FtPeerMsg) (depth : Nat) : w.RunsWell (w.onPeerMsg silent (depth + 2) m) := by
  obtain ⟨f, hFollow⟩ : ∃ f, f = { w.ft with lastRcvNs := w.ft.monoNs }.followOldest m := ⟨_, rfl⟩
  have hGroup : f.group = w.ft.group := by
    rw [hFollow, followOldest_group]
  have hTended : Tended f := by
    rw [hFollow]
    unfold followOldest
    split
    · rename_i hOld
      exact .listening ((startHb_stays _ m.hbIval m.actIval m.prepIval).trans hOld.1)
        (fun _ => startHb_beats _ _ _ _)
    · exact ⟨h.present, h.beat, h.armed⟩
  have hRest := onFollowed_runs (w := { w with ft := f }) hTended (by rw [hGroup]; exact hForeign)
    m depth
  have hReads : w.Bounded { w with ft := f } := ⟨[], by simp, by simp⟩
  have hState : f.me.state = w.ft.me.state := by rw [RvFt.me, RvFt.me, hGroup]
  rw [hFollow] at hRest hReads hState
  exact RunsWell.of hReads hState hRest

theorem publish_runs {w : Watched} (h : Tended w.ft) (hForeign : w.ft.group.Foreign)
    (pub : EvPublish) (depth : Nat) :
    w.RunsWell (w.dispatch silent (depth + 2) (.publish pub)) := by
  have hSame : w.RunsWell (some w) := ⟨w, rfl, h, fun _ => .refl w⟩
  simp only [dispatch, processPub, Option.bind_eq_bind, Option.pure_def]
  split
  · split
    · exact ⟨_, rfl, h.quiet (Quiet.emit w.ft .onFtSync),
        fun _ => .edit w (·.emit .onFtSync)⟩
    · exact hSame
  · split
    · exact hSame
    · rename_i m _
      split
      · exact hSame
      · obtain ⟨k, hCall, hTended, hReads⟩ := onPeerMsg_runs h hForeign m depth
        rw [hCall]
        exact ⟨k, rfl, hTended, hReads⟩

/-- Every call that can be made returns. -/
theorem dispatch_runs {w : Watched} (h : Tended w.ft) (hForeign : w.ft.group.Foreign)
    {call : FtCall} (hEnabled : w.ft.Enabled call) : w.RunsWell (w.dispatch silent 3 call) := by
  cases call with
  | start param =>
      obtain ⟨k, hCall, hTended, hReads⟩ := start_runs w 2 param
      exact ⟨k, hCall, hTended, fun _ => hReads⟩
  | stop => exact (stop_runs h 2).well
  | activate => exact (activate_runs h 0).well
  | deactivate => exact (deactivate_runs h 2).well
  | timer id action => exact (fire_runs h hEnabled 0).well
  | publish pub => exact publish_runs h hForeign pub 1

end Watched

/-- In every run `me` is queued while it has joined, also when it starts again
while it is still queued. -/
theorem ftSystem_tended {f : RvFt} (h : ftSystem.Reachable f) :
    Tended f ∧ f.group.Foreign := by
  refine @Transition.System.Reachable.invariant _ _ _ ftSystem
    (fun f => Tended f ∧ f.group.Foreign) ?_ ?_ f h
  · rintro f ⟨client, nowNs, monoNs, param, hStart⟩
    obtain ⟨w, hCall, hTended, -⟩ := Watched.start_runs { ft := { client, nowNs, monoNs } } 2 param
    have hPlain := Watched.start_erases param { ft := { client, nowNs, monoNs } }
    rw [hCall] at hPlain
    have hSame : w.ft = f := Option.some.inj (hPlain.trans hStart)
    rw [← hSame]
    exact ⟨hTended, (RvFt.start_sends (by simp [FtGroup.Foreign]) hPlain.symm).foreign⟩
  · rintro f input emitted g ⟨hTended, hForeign⟩ hStep
    refine ⟨?_, ftSystem_foreign hForeign hStep⟩
    obtain ⟨-, hDispatch, -⟩ := step_dispatch hStep
    obtain ⟨w, hCall, hWell, -⟩ := Watched.dispatch_runs
      (w := { ft := f.atTime input.nowNs input.monoNs })
      ⟨hTended.present, hTended.beat, hTended.armed⟩ hForeign (enabled_of_dispatch hDispatch)
    have hPlain := Watched.dispatch_erases input.call { ft := f.atTime input.nowNs input.monoNs }
    rw [hCall] at hPlain
    have hSame : w.ft = g := Option.some.inj (hPlain.trans hDispatch)
    rw [← hSame]
    exact hWell

/-- Before the finish state every call returns, with the recursion of
`set_state` at most three deep, and reads the queue below its count. -/
theorem takeover_returns {f : RvFt} (h : ftSystem.Reachable f) (hFinish : f.me.state ≠ .finish)
    (input : FtInput) (hEnabled : f.Enabled input.call) :
    ∃ g marks, f.watch input = some (g, marks) ∧ ∀ i n, .read i n ∈ marks → i < n := by
  obtain ⟨hTended, hForeign⟩ := ftSystem_tended h
  have hSame : (f.atTime input.nowNs input.monoNs).Enabled input.call := by
    revert hEnabled
    cases input.call with
    | _ => exact id
  obtain ⟨w, hCall, -, hReads⟩ := Watched.dispatch_runs
    (w := { ft := f.atTime input.nowNs input.monoNs })
    ⟨hTended.present, hTended.beat, hTended.armed⟩ hForeign hSame
  obtain ⟨more, hMarks, hBounded⟩ := hReads hFinish
  refine ⟨w.ft, w.marks, by simp [RvFt.watch, hCall], ?_⟩
  rw [hMarks]
  exact hBounded

/-- A member that has joined, as its activate timer fires. -/
theorem takeover_returns_joined : ∃ f, ftSystem.Reachable f ∧ f.me.state = .join ∧
    ∃ g marks, f.watch ⟨7000000100, 7000000001, .timer 100 .activate⟩ = some (g, marks) ∧
      ∀ i n, .read i n ∈ marks → i < n := by
  have hReach : (ftSystem.guard (fun _ _ => True)).Reachable _ := sampleRun_reachable
    (show (sampleRun (fun _ _ => True) (soloInputs.take 2)).isSome by decide)
  refine ⟨_, hReach.of_guard, by decide, ?_⟩
  exact takeover_returns hReach.of_guard (by decide) ⟨7000000100, 7000000001, .timer 100 .activate⟩
    (show (100, FtAction.activate) ∈ _ by decide)

end Sassrv.Ft
