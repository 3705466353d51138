import Sassrv.Ft.Handlers

/-! The calls into an FT instance other than messages. -/
namespace Sassrv.Ft
namespace RvFt
open FtGroup

variable {C : Prop}

/-- The state of an instance between calls. -/
structure Sound (C : Prop) (f : RvFt) : Prop where
  ledger : f.group.Ledger C
  absent : f.me.state = .listen → .me ∉ f.group.live
  present : f.me.state.counted = true → .me ∈ f.group.live
  timers : f.TimersOk
  joinTimer : (f.tid, .join) ∈ f.timers → f.me.state = .listen
  beatTimer : (f.tid, .heartbeat) ∈ f.timers → f.me.state ≠ .finish

/-- `me` is primary or secondary. -/
def Ranked (f : RvFt) : Prop := f.me.state = .primary ∨ f.me.state = .secondary

theorem Sound.ranked_mem {f : RvFt} (h : f.Sound C) (hRanked : f.Ranked) : .me ∈ f.group.live := by
  refine h.present ?_
  rcases hRanked with hEq | hEq <;> rw [hEq] <;> rfl

theorem Sound.frame {f g : RvFt} (h : f.Sound C) (hFrame : f.Base g) (hLedger : g.group.Ledger C)
    (hAbsent : g.me.state = .listen → .me ∉ g.group.live)
    (hPresent : g.me.state.counted = true → .me ∈ g.group.live)
    (hJoin : (f.tid, .join) ∈ f.timers → g.me.state = .listen)
    (hBeat : (f.tid, .heartbeat) ∈ f.timers → g.me.state ≠ .finish) : g.Sound C := by
  refine ⟨hLedger, hAbsent, hPresent, hFrame.timers h.timers, ?_, ?_⟩
  · intro hMem
    rw [hFrame.tid] at hMem
    exact hJoin (hFrame.kept .join (by simp) (by simp) hMem)
  · intro hMem
    rw [hFrame.tid] at hMem
    exact hBeat (hFrame.kept .heartbeat (by simp) (by simp) hMem)

/-- The group of a sound state is left alone. -/
theorem Sound.quiet {f g : RvFt} (h : f.Sound C) (hQuiet : f.Quiet g) : g.Sound C := by
  have hMe := hQuiet.me
  have hGroup := hQuiet.group
  refine h.frame hQuiet.toBase ?_ ?_ ?_ ?_ ?_
  · rw [hGroup]
    exact h.ledger
  · rw [hMe, hGroup]
    exact h.absent
  · rw [hMe, hGroup]
    exact h.present
  · rw [hMe]
    exact h.joinTimer
  · rw [hMe]
    exact h.beatTimer

/-- What every call but `start` keeps. -/
structure Kept (C : Prop) (f g : RvFt) : Prop where
  sound : g.Sound C
  tid : g.tid = f.tid
  monoNs : g.monoNs = f.monoNs

theorem Base.keeps {f g : RvFt} (h : f.Base g) (hSound : g.Sound C) : f.Kept C g :=
  ⟨hSound, h.tid, h.monoNs⟩

/-- The rest of a call keeps what the first part has kept. -/
theorem Kept.trans_base {f g h : RvFt} (left : f.Kept C g) (right : g.Base h)
    (hSound : h.Sound C) : f.Kept C h :=
  ⟨hSound, right.tid.trans left.tid, right.monoNs.trans left.monoNs⟩

theorem Kept.of_quiet {f g h : RvFt} (left : f.Quiet g) (right : g.Kept C h) : f.Kept C h :=
  ⟨right.sound, right.tid.trans left.tid, right.monoNs.trans left.monoNs⟩

/-- What a call that carries no message does, unless it finishes. -/
structure Turn (C : Prop) (f g : RvFt) : Prop extends Kept C f g where
  order : f.Ordered → g.Ordered
  finish : g.me.state = .finish → f.me.state = .finish
  expired : (f.Ranked → f.Expired) → g.Ranked → g.Expired
  remain : Remain f.group g.group
  primary : f.Ordered → g.me.state = .primary → g.group.Heads ∨ f.me.state = .primary
  law : f.Ordered → (f.Ranked → f.Expired) → Lawful f.group → Lawful g.group

theorem Remain.refl (g : FtGroup) : Remain g g := fun _ hr _ => ⟨hr, FtPeer.Same.refl _⟩

theorem Remain.trans {f g h : FtGroup} (left : Remain f g) (right : Remain g h) : Remain f h := by
  intro r hr hne
  obtain ⟨hMem, hSame⟩ := right r hr hne
  obtain ⟨hMem', hSame'⟩ := left r hMem hne
  exact ⟨hMem', hSame'.trans hSame⟩

/-- Calls that leave the group alone. -/
theorem Turn.quiet {f g : RvFt} (h : f.Sound C) (hQuiet : f.Quiet g) : f.Turn C g := by
  have hMe := hQuiet.me
  have hGroup := hQuiet.group
  refine ⟨hQuiet.keeps (h.quiet hQuiet), ?_, ?_, ?_, ?_, ?_, ?_⟩
  · unfold Ordered
    rw [hGroup]
    exact id
  · rw [hMe]
    exact id
  · unfold Ranked
    rw [hMe, hQuiet.expired]
    exact id
  · rw [hGroup]
    exact Remain.refl _
  · intro _ hPrimary
    rw [hMe] at hPrimary
    exact Or.inr hPrimary
  · intro _ _
    rw [hGroup]
    exact id

theorem Turn.trans_quiet {f g h : RvFt} (left : f.Turn C g) (right : g.Quiet h) : f.Turn C h := by
  have hNext := Turn.quiet left.sound right
  have hMe := right.me
  refine ⟨left.toKept.trans_base right.toBase hNext.sound,
    fun hOrder => hNext.order (left.order hOrder), fun hEq => left.finish (hNext.finish hEq),
    fun hExpired => hNext.expired (left.expired hExpired), left.remain.trans hNext.remain, ?_,
    fun hOrder hExpired hLaw => hNext.law (left.order hOrder) (left.expired hExpired)
      (left.law hOrder hExpired hLaw)⟩
  intro hOrder hPrimary
  rw [hMe] at hPrimary
  rw [right.group]
  exact left.primary hOrder hPrimary

/-- The rank that a settled member has is the rank of its position. -/
theorem Settled.lawful {g h : FtGroup} (hSettled : g.Settled C h)
    (hOrder : g.Descending g.live) : Lawful h := by
  rcases hSettled.rank with ⟨hPrimary, hHeads⟩ | ⟨hSecondary, hHeads⟩
  · refine ⟨fun _ => hHeads hOrder, fun hEq => ?_⟩
    rw [hPrimary] at hEq
    cases hEq
  · refine ⟨fun hEq => ?_, fun _ => hHeads⟩
    rw [hSecondary] at hEq
    cases hEq

/-- A takeover after the queue was trimmed. -/
theorem takeover_turn {f e : RvFt} (h : f.Sound C) (hTrim : f.Trimmed C e)
    (hState : f.me.state = .join ∨ f.me.state = .secondary) (action : FtAction) :
    ∃ g, prepareTakeover setState action 0 e = some g ∧ f.Turn C g ∧ f.Frame g := by
  have hJoined : .me ∈ f.group.live := by
    refine h.present ?_
    rcases hState with hEq | hEq <;> rw [hEq] <;> rfl
  have hMe := hTrim.stays hJoined
  have hNotListen : f.me.state ≠ .listen := by
    rcases hState with hEq | hEq <;> rw [hEq] <;> simp
  have hJoinTimer : (f.tid, .join) ∉ f.timers := fun hMem => hNotListen (h.joinTimer hMem)
  obtain ⟨g, hCall, hAfter, hResult⟩ := prepareTakeover_spec hTrim.ledger
    (List.ne_nil_of_mem hMe) (by rw [hTrim.state]; exact hNotListen) (fun _ => hMe) 1 action 0
  have hFrame := hTrim.frame.trans hAfter
  refine ⟨g, hCall, ?_⟩
  rcases hResult with ⟨hGroup, hLate⟩ | ⟨hExpired, hSettled⟩
  · have hSame : g.me.state = f.me.state := by
      rw [RvFt.me, hGroup]
      exact hTrim.state
    refine ⟨⟨hFrame.keeps (h.frame hFrame.toBase ?_ ?_ ?_ ?_ ?_), ?_, ?_, ?_, ?_, ?_, ?_⟩, hFrame⟩
    · rw [hGroup]
      exact hTrim.ledger
    · intro hEq
      rw [hSame] at hEq
      exact absurd hEq hNotListen
    · intro _
      rw [hGroup]
      exact hMe
    · intro hMem
      exact absurd hMem hJoinTimer
    · intro _
      rw [hSame]
      rcases hState with hEq | hEq <;> rw [hEq] <;> simp
    · intro hOrder
      unfold Ordered
      rw [hGroup]
      exact hTrim.ordered hOrder
    · rw [hSame]
      exact id
    · intro hOld hRanked
      unfold Ranked at hRanked
      rw [hSame] at hRanked
      exact hFrame.expired.mpr (hOld hRanked)
    · rw [hGroup]
      exact hTrim.remain
    · intro _ hPrimary
      rw [hSame] at hPrimary
      exact Or.inr hPrimary
    · intro hOrder hOld hLaw
      unfold Lawful
      change (g.me.state = _ → _) ∧ (g.me.state = _ → _)
      rw [hSame, hGroup]
      refine ⟨fun hEq => ?_, fun hEq hHeads => ?_⟩
      · rcases hState with hEq' | hEq' <;> rw [hEq'] at hEq <;> cases hEq
      · exact hLate hHeads (hTrim.frame.expired.mpr (hOld (Or.inr hEq)))
  · have hRank : g.Ranked := by
      rcases hSettled.rank with ⟨hEq, -⟩ | ⟨hEq, -⟩
      · exact Or.inl hEq
      · exact Or.inr hEq
    refine ⟨⟨hFrame.keeps (h.frame hFrame.toBase hSettled.ledger ?_ ?_ ?_ ?_), ?_, ?_, ?_, ?_, ?_, ?_⟩,
      hFrame⟩
    · intro hEq
      rcases hRank with hEq' | hEq' <;> rw [hEq'] at hEq <;> cases hEq
    · intro _
      exact (hSettled.mem .me).mpr hMe
    · intro hMem
      exact absurd hMem hJoinTimer
    · intro _
      rcases hRank with hEq | hEq <;> rw [hEq] <;> simp
    · intro hOrder
      exact hSettled.order (hTrim.ordered hOrder)
    · intro hEq
      rcases hRank with hEq' | hEq' <;> rw [hEq'] at hEq <;> cases hEq
    · intro _ _
      exact hAfter.expired.mpr hExpired
    · exact hTrim.remain.trans (fun r hr hne => ⟨(hSettled.mem r).mp hr, hSettled.peer r hne⟩)
    · intro hOrder hPrimary
      exact Or.inl ((Settled.lawful hSettled (hTrim.ordered hOrder)).1 hPrimary)
    · intro hOrder _ _
      exact Settled.lawful hSettled (hTrim.ordered hOrder)

/-- A change before the rest of a call. -/
theorem Turn.of_quiet {f g h : RvFt} (left : f.Quiet g) (right : g.Turn C h) : f.Turn C h := by
  have hMe := left.me
  have hGroup := left.group
  refine ⟨Kept.of_quiet left right.toKept, ?_, ?_, ?_, ?_, ?_, ?_⟩
  · intro hOrder
    refine right.order ?_
    unfold Ordered at hOrder ⊢
    rw [hGroup]
    exact hOrder
  · rw [← hMe]
    exact right.finish
  · intro hExpired
    refine right.expired ?_
    unfold Ranked at hExpired ⊢
    rw [hMe, left.expired]
    exact hExpired
  · rw [← hGroup]
    exact right.remain
  · rw [← hMe]
    intro hOrder
    refine right.primary ?_
    unfold Ordered at hOrder ⊢
    rw [hGroup]
    exact hOrder
  · intro hOrder hExpired hLaw
    refine right.law ?_ ?_ ?_
    · unfold Ordered at hOrder ⊢
      rw [hGroup]
      exact hOrder
    · unfold Ranked at hExpired ⊢
      rw [hMe, left.expired]
      exact hExpired
    · rw [hGroup]
      exact hLaw

/-- A timer that has fired is no longer armed. -/
theorem Quiet.fired (f : RvFt) (entry : Nat × FtAction) :
    f.Quiet { f with timers := f.timers.erase entry } := by
  refine ⟨⟨⟨rfl, rfl, rfl, rfl, ?_, ?_⟩, rfl⟩, rfl⟩
  · rintro ⟨hNodup, hMask⟩
    exact ⟨hNodup.erase _, fun a ha => hMask a (List.mem_of_mem_erase ha)⟩
  · intro a _ _ ha
    exact List.mem_of_mem_erase ha

/-- `timer_clear` for a timer that has fired. -/
theorem Quiet.clearMask {f : RvFt} {action : FtAction} (hBeat : action ≠ .heartbeat)
    (hGone : (f.tid, action) ∉ f.timers) :
    f.Quiet { f with timerMask := Function.update f.timerMask action false } := by
  refine ⟨⟨⟨rfl, rfl, rfl, rfl, ?_, fun _ _ _ h => h⟩,
    Function.update_of_ne hBeat.symm _ _⟩, rfl⟩
  rintro ⟨hNodup, hMask⟩
  refine ⟨hNodup, fun a ha => ?_⟩
  have hne : a ≠ action := by
    rintro rfl
    exact hGone ha
  simp only [Function.update_of_ne hne]
  exact hMask a ha

theorem takeoverTimer_turn {f : RvFt} (h : f.Sound C) {action : FtAction}
    (hBeat : action ≠ .heartbeat) (hGone : (f.tid, action) ∉ f.timers) (ival : Int) :
    ∃ g, f.takeoverTimer action ival = some g ∧ f.Turn C g ∧ f.Frame g := by
  have hClear := Quiet.clearMask hBeat hGone
  have hSound := h.quiet hClear
  unfold takeoverTimer
  generalize hCleared : { f with timerMask := Function.update f.timerMask action false } = e at *
  simp only [Option.bind_eq_bind, Option.pure_def]
  split
  · rename_i hRun
    obtain ⟨g, hCall, hTurn, hFrame⟩ := takeover_turn hSound (trimFtQueue_trimmed hSound.ledger)
      hRun.2.symm action
    refine ⟨g.notifyUpdate, by rw [hCall]; rfl, ?_, ?_⟩
    · exact (Turn.of_quiet hClear hTurn).trans_quiet (.notifyUpdate g)
    · exact (hClear.toFrame.trans hFrame).trans (Quiet.notifyUpdate g).toFrame
  · have hQuiet := hClear.trans (.notifyUpdate e)
    exact ⟨_, rfl, Turn.quiet h hQuiet, hQuiet.toFrame⟩

/-- Trimming alone, for a member that need not react to it. -/
theorem trimmed_turn {f g : RvFt} (h : f.Sound C) (hTrim : f.Trimmed C g)
    (hState : f.me.state ≠ .secondary) : f.Turn C g := by
  have hSame := hTrim.state
  refine ⟨hTrim.frame.keeps (h.frame hTrim.frame.toBase hTrim.ledger ?_ ?_ ?_ ?_),
    hTrim.ordered, ?_, ?_, hTrim.remain, ?_, ?_⟩
  · rw [hSame]
    exact fun hEq hMem => h.absent hEq (hTrim.sublist.subset hMem)
  · rw [hSame]
    exact fun hEq => hTrim.stays (h.present hEq)
  · rw [hSame]
    exact h.joinTimer
  · rw [hSame]
    exact h.beatTimer
  · rw [hSame]
    exact id
  · unfold Ranked
    rw [hSame, hTrim.frame.expired]
    exact id
  · rw [hSame]
    exact fun _ hEq => Or.inr hEq
  · intro _ _ hLaw
    unfold Lawful
    change (g.me.state = _ → _) ∧ (g.me.state = _ → _)
    rw [hSame]
    refine ⟨fun hEq => ?_, fun hEq => absurd hEq hState⟩
    exact heads_of_sublist (hLaw.1 hEq) h.ledger.placed.nodup hTrim.sublist
      (hTrim.stays (h.ranked_mem (Or.inl hEq)))

theorem heartbeatTimer_turn {f : RvFt} (h : f.Sound C) (hFinish : f.me.state ≠ .finish) :
    ∃ g, f.heartbeatTimer = some g ∧ f.Turn C g ∧ f.Frame g := by
  have hTrim : f.Trimmed C (if isAccurate (f.expiredDeltaMs f.lastHbNs f.heartbeatMs) then
      f.trimFtQueue else f) := by
    split
    · exact trimFtQueue_trimmed h.ledger
    · exact Trimmed.refl h.ledger
  unfold heartbeatTimer
  generalize hAccurate : isAccurate (f.expiredDeltaMs f.lastHbNs f.heartbeatMs) = accurate at *
  simp only [Option.bind_eq_bind, Option.pure_def]
  generalize hTrimmed : (if accurate = true then f.trimFtQueue else f) = e at *
  have hEnd : ∀ g : RvFt, g.Quiet ({ g with lastHbNs := g.monoNs }.notifyUpdate) := by
    intro g
    refine Quiet.trans ?_ (.notifyUpdate _)
    exact .same rfl rfl rfl rfl rfl rfl rfl
  by_cases hPrimary : e.me.state = .primary
  · have hTurn := trimmed_turn h hTrim (by rw [← hTrim.state, hPrimary]; simp)
    have hSend := (Quiet.sendMsg e .heartbeat []).trans (hEnd _)
    exact ⟨_, by rw [if_pos hPrimary]; rfl, hTurn.trans_quiet hSend,
      hTrim.frame.trans hSend.toFrame⟩
  · rw [if_neg hPrimary]
    by_cases hListen : e.me.state = .listen
    · have hTurn := trimmed_turn h hTrim (by rw [← hTrim.state, hListen]; simp)
      rw [if_neg (by simp [hListen])]
      exact ⟨_, rfl, hTurn.trans_quiet (hEnd e), hTrim.frame.trans (hEnd e).toFrame⟩
    · rw [if_pos hListen]
      have hState : f.me.state = .join ∨ f.me.state = .secondary := by
        rw [hTrim.state] at hPrimary hListen
        revert hPrimary hListen hFinish
        cases f.me.state <;> simp
      cases accurate with
      | true =>
          obtain ⟨g, hCall, hTurn, hFrame⟩ := takeover_turn h hTrim hState .heartbeat
          have hSend := (Quiet.sendMsg g .keepalive []).trans (hEnd _)
          refine ⟨_, ?_, hTurn.trans_quiet hSend, hFrame.trans hSend.toFrame⟩
          simp [hCall]
      | false =>
          have hSame : f = e := by simpa using hTrimmed
          subst hSame
          have hSend := (Quiet.sendMsg f .keepalive []).trans (hEnd _)
          exact ⟨_, by simp, Turn.quiet h hSend, hSend.toFrame⟩

/-- A listening member joins. -/
theorem join_turn {f : RvFt} (h : f.Sound C) (hListen : f.me.state = .listen)
    (hGone : (f.tid, .join) ∉ f.timers) :
    ∃ g, f.setState .join = some g ∧ f.Turn C g ∧ f.Frame g := by
  obtain ⟨g, hSet, hFrame, hJoins, hExpired⟩ := setState_join h.ledger hListen (h.absent hListen)
  have hRank : g.me.state = .join ∨ g.Ranked := by
    rcases hJoins.rank with hEq | ⟨hEq, -⟩ | ⟨hEq, -⟩
    · exact Or.inl hEq
    · exact Or.inr (Or.inl hEq)
    · exact Or.inr (Or.inr hEq)
  have hLaw : f.Ordered → Lawful g.group := by
    intro hOrder
    refine ⟨fun hEq => ?_, fun hEq => ?_⟩
    · rcases hJoins.rank with hEq' | ⟨-, hHeads⟩ | ⟨hEq', -⟩
      · rw [hEq'] at hEq
        cases hEq
      · exact hHeads hOrder
      · rw [hEq'] at hEq
        cases hEq
    · rcases hJoins.rank with hEq' | ⟨hEq', -⟩ | ⟨-, hHeads⟩
      · rw [hEq'] at hEq
        cases hEq
      · rw [hEq'] at hEq
        cases hEq
      · exact hHeads
  refine ⟨g, hSet, ⟨hFrame.keeps (h.frame hFrame.toBase hJoins.ledger ?_ ?_ ?_ ?_), hJoins.order,
    ?_, ?_, ?_, ?_, ?_⟩, hFrame⟩
  · intro hEq
    rcases hRank with hEq' | hEq' | hEq' <;> rw [hEq'] at hEq <;> cases hEq
  · exact fun _ => (hJoins.mem .me).mpr (Or.inl rfl)
  · exact fun hMem => absurd hMem hGone
  · intro _
    rcases hRank with hEq | hEq | hEq <;> rw [hEq] <;> simp
  · intro hEq
    rcases hRank with hEq' | hEq' | hEq' <;> rw [hEq'] at hEq <;> cases hEq
  · intro _ hRanked
    refine hFrame.expired.mpr (hExpired ?_)
    rcases hRanked with hEq | hEq <;> rw [hEq] <;> simp
  · intro r hr hne
    refine ⟨?_, hJoins.peer r hne⟩
    exact ((hJoins.mem r).mp hr).resolve_left hne
  · exact fun hOrder hEq => Or.inl ((hLaw hOrder).1 hEq)
  · exact fun hOrder _ _ => hLaw hOrder

/-- Calls that leave `me` listening, or find it there, say nothing about the
activation interval before them. -/
theorem Turn.of_listening {f e g : RvFt} (hListen : f.me.state = .listen)
    (hGroup : e.group = f.group) (hTid : e.tid = f.tid) (hMono : e.monoNs = f.monoNs)
    (h : e.Turn C g) : f.Turn C g := by
  have hMe : e.me = f.me := by rw [RvFt.me, RvFt.me, hGroup]
  have hNot : ¬ e.Ranked := by
    unfold Ranked
    rw [hMe, hListen]
    simp
  have hOrdered : f.Ordered → e.Ordered := by
    unfold Ordered
    rw [hGroup]
    exact id
  refine ⟨⟨h.sound, h.tid.trans hTid, h.monoNs.trans hMono⟩,
    fun hOrder => h.order (hOrdered hOrder), ?_, ?_, ?_, ?_, ?_⟩
  · rw [← hMe]
    exact h.finish
  · exact fun _ => h.expired (fun hRanked => absurd hRanked hNot)
  · rw [← hGroup]
    exact h.remain
  · rw [← hMe]
    exact fun hOrder => h.primary (hOrdered hOrder)
  · intro hOrder _ hLaw
    refine h.law (hOrdered hOrder) (fun hRanked => absurd hRanked hNot) ?_
    rw [hGroup]
    exact hLaw

theorem activate_turn {f : RvFt} (h : f.Sound C) :
    ∃ g, f.activate = some g ∧ f.Turn C g ∧
      ((f.tid, .finish) ∈ g.timers → (f.tid, .finish) ∈ f.timers) := by
  unfold activate
  by_cases hListen : f.me.state = .listen
  · rw [if_pos hListen]
    let s : RvFt := { f with startMono := f.monoNs }
    have hStarted : s.Sound C :=
      ⟨h.ledger, h.absent, h.present, h.timers, h.joinTimer, h.beatTimer⟩
    have hCancel : s.Quiet (s.cancelTimer .join) := Quiet.cancelTimer s (by simp)
    have hSound := hStarted.quiet hCancel
    have hState : (s.cancelTimer .join).me.state = .listen := by
      rw [hCancel.me]
      exact hListen
    have hGone : ((s.cancelTimer .join).tid, .join) ∉ (s.cancelTimer .join).timers := by
      rw [hCancel.tid]
      exact cancelTimer_notMem hStarted.timers .join
    obtain ⟨g, hSet, hTurn, hFrame⟩ := join_turn hSound hState hGone
    have hAll : s.Turn C g := Turn.of_quiet hCancel hTurn
    refine ⟨g, hSet, Turn.of_listening (e := s) hListen rfl rfl rfl hAll, ?_⟩
    · exact (hCancel.toFrame.trans hFrame).kept .finish (by simp) (by simp)
  · rw [if_neg hListen]
    exact ⟨f, rfl, Turn.quiet h (Quiet.refl f), id⟩

theorem deactivate_turn {f : RvFt} (h : f.Sound C) :
    ∃ g, f.deactivate = some g ∧ f.Turn C g ∧
      ((f.tid, .finish) ∈ g.timers → (f.tid, .finish) ∈ f.timers) := by
  unfold deactivate
  by_cases hListen : f.me.state = .listen
  · exact ⟨f, by simp [hListen], Turn.quiet h (Quiet.refl f), id⟩
  · simp only [ne_eq, hListen, not_false_eq_true, if_true, Option.bind_eq_bind, Option.pure_def]
    obtain ⟨-, hTable, hLive⟩ := remove_spec h.ledger.placed .me
    have hRemoved := h.ledger.removeMe
    have hFirst : f.Frame (f.withGroup (f.group.remove .me)).stopTimers :=
      (Frame.withGroup f _).trans (Quiet.stopTimers _).toFrame
    have hGroup : (f.withGroup (f.group.remove .me)).stopTimers.group = f.group.remove .me :=
      (Quiet.stopTimers _).group
    obtain ⟨g, hSet, hSecond, hRestate⟩ := setState_listen
      (f.withGroup (f.group.remove .me)).stopTimers
    rw [hGroup] at hRestate
    have hNotify := Quiet.notifyChange g .listen
    have hFrame := (hFirst.trans hSecond).trans hNotify.toFrame
    have hSpec := restate_spec hRemoved .listen
    have hFinal : (g.notifyChange .listen).group = (f.group.remove .me).restate .listen :=
      hNotify.group.trans hRestate
    have hQueue : (g.notifyChange .listen).group.live = f.group.live.erase .me := by
      rw [hFinal, restate_live_of_state (by simp), hLive]
    have hState : (g.notifyChange .listen).me.state = .listen := by
      rw [RvFt.me, hFinal]
      exact hSpec.state
    have hPeer : ∀ r, r ≠ .me →
        (f.group.peer r).Same ((g.notifyChange .listen).group.peer r) := by
      intro r hr
      rw [hFinal]
      exact (hTable.peer r).trans (hSpec.peer r hr)
    have hMem : ∀ r, r ∈ (g.notifyChange .listen).group.live ↔ r ≠ .me ∧ r ∈ f.group.live := by
      intro r
      rw [hQueue, h.ledger.placed.nodup.mem_erase_iff]
    refine ⟨_, by rw [hSet]; rfl, ⟨hFrame.keeps (h.frame hFrame.toBase ?_ ?_ ?_ ?_ ?_), ?_, ?_, ?_,
      ?_, ?_, ?_⟩, hFrame.kept .finish (by simp) (by simp)⟩
    · rw [hFinal]
      exact hSpec.ledger
    · exact fun _ hMe => ((hMem .me).mp hMe).1 rfl
    · rw [hState]
      simp [FtState.counted]
    · exact fun _ => hState
    · rw [hState]
      simp
    · intro hOrder
      unfold Ordered
      rw [hQueue]
      refine Descending.congr (List.Pairwise.sublist List.erase_sublist hOrder) ?_
      intro r hr
      exact (hPeer r ((h.ledger.placed.nodup.mem_erase_iff).mp hr).1).rank
    · rw [hState]
      simp
    · unfold Ranked
      rw [hState]
      simp
    · intro r hr hne
      exact ⟨((hMem r).mp hr).2, hPeer r hne⟩
    · rw [hState]
      simp
    · intro _ _ _
      unfold Lawful
      change ((g.notifyChange .listen).me.state = _ → _) ∧
        ((g.notifyChange .listen).me.state = _ → _)
      rw [hState]
      simp

/-- What a call does that ends in the finish state. A member that was joining
keeps its place, which is that of a lower rank. -/
structure Finished (C : Prop) (f g : RvFt) : Prop extends Kept C f g where
  state : g.me.state = .finish
  order : f.me.state ≠ .join → f.Ordered → g.Ordered

/-- Entering the finish state. -/
theorem setState_finished {f : RvFt} (h : f.Sound C) :
    ∃ g, f.setState .finish = some g ∧ f.Finished C g := by
  obtain ⟨g, hSet, hBase, hGroup, hBeat, hJoin⟩ := setState_finish h.timers
  have hSpec := restate_spec h.ledger .finish
  have hState : g.me.state = .finish := by
    rw [RvFt.me, hGroup]
    exact hSpec.state
  refine ⟨g, hSet, hBase.keeps ⟨?_, ?_, ?_, hBase.timers h.timers, ?_, ?_⟩, hState, ?_⟩
  · rw [hGroup]
    exact hSpec.ledger
  · rw [hState]
    simp
  · rw [hState]
    simp [FtState.counted]
  · rw [hBase.tid]
    exact fun hMem => absurd hMem hJoin
  · rw [hBase.tid]
    exact fun hMem => absurd hMem hBeat
  · intro hNotJoin hOrder
    unfold Ordered
    rw [hGroup, restate_live_of_state (by simp)]
    refine Descending.congr hOrder ?_
    intro r hr
    by_cases hMe : r = .me
    · have hLevel : (f.group.peer r).level = ((f.group.restate .finish).peer r).level := by
        have hNotListen : f.me.state ≠ .listen := fun hEq => h.absent hEq (hMe ▸ hr)
        have hNew : ((f.group.restate .finish).peer r).state = .finish := by
          rw [hMe]
          exact hSpec.state
        change (f.group.peer .me).state ≠ _ at hNotJoin
        change (f.group.peer .me).state ≠ _ at hNotListen
        rw [FtPeer.level, FtPeer.level, hNew, hMe]
        revert hNotJoin hNotListen
        cases (f.group.peer .me).state <;> simp [FtState.code]
      rw [hMe] at hLevel ⊢
      exact ⟨hLevel.symm, hSpec.weight, hSpec.startNs⟩
    · exact (hSpec.peer r hMe).rank

theorem Finished.of_quiet {f g h : RvFt} (left : f.Quiet g) (right : g.Finished C h) :
    f.Finished C h := by
  refine ⟨Kept.of_quiet left right.toKept, right.state, ?_⟩
  intro hState hOrder
  apply right.order
  · rw [left.me]
    exact hState
  · unfold Ordered
    rw [left.group]
    exact hOrder

theorem Turn.addTimer {f : RvFt} (h : f.Sound C) {action : FtAction}
    (hClear : f.timerMask action = false) (hAction : action ≠ .join ∧ action ≠ .heartbeat) :
    f.Turn C (f.addTimer action) := by
  have hMem : ∀ a, a ≠ action → (f.tid, a) ∈ (f.addTimer action).timers →
      (f.tid, a) ∈ f.timers := by
    intro a ha hIn
    rcases List.mem_append.mp hIn with hOld | hNew
    · exact hOld
    · exact absurd (Prod.mk.inj (List.mem_singleton.mp hNew)).2 ha
  refine ⟨⟨⟨h.ledger, h.absent, h.present, h.timers.addTimer (h.timers.notMem hClear), ?_, ?_⟩, rfl, rfl⟩, id, id, id, Remain.refl _, fun _ => Or.inr, fun _ _ => id⟩
  · exact fun hIn => h.joinTimer (hMem .join hAction.1.symm hIn)
  · exact fun hIn => h.beatTimer (hMem .heartbeat hAction.2.symm hIn)

theorem stop_kept {f : RvFt} (h : f.Sound C) :
    ∃ g, f.stop = some g ∧ (f.Turn C g ∨ (f.finishMs = 0 ∧ f.Finished C g)) := by
  unfold stop
  split
  · rename_i hNow
    obtain ⟨g, hSet, hFinished⟩ := setState_finished h
    exact ⟨g, hSet, Or.inr ⟨hNow, hFinished⟩⟩
  · split
    · exact ⟨f, rfl, Or.inl (Turn.quiet h (Quiet.refl f))⟩
    · rename_i hClear
      have hSend := Quiet.sendMsg f .finish []
      have hOff : (f.sendMsg .finish []).timerMask .finish = false := by
        change f.timerMask .finish = false
        simpa using hClear
      refine ⟨_, rfl, Or.inl ?_⟩
      exact Turn.of_quiet hSend (Turn.addTimer (h.quiet hSend) hOff (by simp))

/-- The heartbeat timer is put back with its bit still set. -/
theorem Sound.rearmed {f : RvFt} (h : f.Sound C) (hGone : (f.tid, .heartbeat) ∉ f.timers)
    (hMask : f.timerMask .heartbeat = true) (hState : f.me.state ≠ .finish) :
    ({ f with timers := f.timers ++ [(f.tid, FtAction.heartbeat)] } : RvFt).Sound C := by
  refine ⟨h.ledger, h.absent, h.present, ⟨?_, ?_⟩, ?_, fun _ => hState⟩
  · refine List.nodup_append.mpr ⟨h.timers.1, List.nodup_singleton _, ?_⟩
    rintro x hx y hy rfl
    rw [List.mem_singleton.mp hy] at hx
    exact hGone hx
  · intro a ha
    rcases List.mem_append.mp ha with hOld | hNew
    · exact h.timers.2 a hOld
    · rw [(Prod.mk.inj (List.mem_singleton.mp hNew)).2]
      exact hMask
  · intro hMem
    rcases List.mem_append.mp hMem with hOld | hNew
    · exact h.joinTimer hOld
    · simp at hNew

theorem Turn.rearmed {f g : RvFt} (h : f.Turn C g) {id : Nat} (hId : id = g.tid)
    (hGone : (g.tid, .heartbeat) ∉ g.timers) (hMask : g.timerMask .heartbeat = true)
    (hState : g.me.state ≠ .finish) :
    f.Turn C { g with timers := g.timers ++ [(id, .heartbeat)] } := by
  subst hId
  exact ⟨⟨h.sound.rearmed hGone hMask hState, h.tid, h.monoNs⟩,
    h.order, h.finish, h.expired, h.remain, h.primary, h.law⟩

/-- A timer callback: a turn, or the end of the finish interval. -/
theorem timerCb_turn {e : RvFt} (h : e.Sound C) {action : FtAction}
    (hGone : (e.tid, action) ∉ e.timers) (hBeat : action = .heartbeat → e.me.state ≠ .finish)
    (hJoin : action = .join → e.me.state = .listen) :
    ∃ g, e.timerCb e.tid action = some (g, action == .heartbeat) ∧
      ((e.Turn C g ∧ e.Frame g) ∨ (action = .finish ∧ e.Finished C g)) := by
  have hNone : e.Turn C e ∧ e.Frame e := ⟨Turn.quiet h (Quiet.refl e), Frame.refl e⟩
  unfold timerCb
  simp only [ne_eq, not_true, if_false, Option.bind_eq_bind, Option.pure_def]
  cases action with
  | activate =>
      obtain ⟨g, hCall, hTurn⟩ := takeoverTimer_turn h (by simp) hGone
        (e.expiredDeltaMs e.activateOrigin e.activateMs)
      exact ⟨g, by rw [hCall]; rfl, Or.inl hTurn⟩
  | prepare =>
      obtain ⟨g, hCall, hTurn⟩ := takeoverTimer_turn h (by simp) hGone
        (e.expiredDeltaMs e.prepareOrigin e.prepareMs)
      exact ⟨g, by rw [hCall]; rfl, Or.inl hTurn⟩
  | heartbeat =>
      obtain ⟨g, hCall, hTurn⟩ := heartbeatTimer_turn h (hBeat rfl)
      exact ⟨g, by rw [hCall]; rfl, Or.inl hTurn⟩
  | join =>
      have hClear := Quiet.clearMask (by simp) hGone
      obtain ⟨g, hCall, hTurn, hFrame⟩ := join_turn (h.quiet hClear) (hJoin rfl) hGone
      exact ⟨g, by rw [hCall]; rfl, Or.inl ⟨Turn.of_quiet hClear hTurn,
        hClear.toFrame.trans hFrame⟩⟩
  | finish =>
      have hClear := Quiet.clearMask (by simp) hGone
      obtain ⟨g, hCall, hFinished⟩ := setState_finished (h.quiet hClear)
      exact ⟨g, by rw [hCall]; rfl, Or.inr ⟨rfl, Finished.of_quiet hClear hFinished⟩⟩
  | listen => exact ⟨e, rfl, Or.inl hNone⟩
  | deactivate => exact ⟨e, rfl, Or.inl hNone⟩
  | update => exact ⟨e, rfl, Or.inl hNone⟩

/-- The callback of an armed timer. -/
theorem fire_turn {f : RvFt} (h : f.Sound C) {id : Nat} {action : FtAction}
    (hArmed : (id, action) ∈ f.timers) :
    ∃ g, f.fire id action = some g ∧
      ((f.Turn C g ∧ ((f.tid, .finish) ∈ g.timers → (f.tid, .finish) ∈ f.timers)) ∨
        (id = f.tid ∧ action = .finish ∧ f.Finished C g)) := by
  have hFired := Quiet.fired f (id, action)
  have hSound := h.quiet hFired
  have hGone : (id, action) ∉ f.timers.erase (id, action) :=
    fun hMem => (h.timers.1.mem_erase_iff.mp hMem).1 rfl
  unfold fire
  simp only [if_pos hArmed, Option.bind_eq_bind, Option.pure_def]
  generalize hErased : { f with timers := f.timers.erase (id, action) } = e at *
  have hList : e.timers = f.timers.erase (id, action) := by rw [← hErased]
  have hTid : e.tid = f.tid := hFired.tid
  rw [← hList] at hGone
  by_cases hId : id = e.tid
  · subst hId
    rw [hTid] at hArmed
    obtain ⟨g, hCall, hResult⟩ := timerCb_turn hSound hGone
      (by rintro rfl; rw [hFired.me]; exact h.beatTimer hArmed)
      (by rintro rfl; rw [hFired.me]; exact h.joinTimer hArmed)
    rw [hCall]
    rcases hResult with ⟨hTurn, hFrame⟩ | ⟨rfl, hFinished⟩
    · have hBoth := hFired.toFrame.trans hFrame
      by_cases hBeat : action = .heartbeat
      · subst hBeat
        have hGone' : (g.tid, .heartbeat) ∉ g.timers := by
          rw [hFrame.tid]
          exact fun hMem => hGone (hFrame.kept .heartbeat (by simp) (by simp) hMem)
        have hMask : g.timerMask .heartbeat = true := by
          rw [hBoth.beat]
          exact h.timers.2 .heartbeat hArmed
        have hState : e.me.state ≠ .finish := by
          rw [hFired.me]
          exact h.beatTimer hArmed
        have hAll := Turn.of_quiet hFired
          (hTurn.rearmed hFrame.tid.symm hGone' hMask (fun hEq => hState (hTurn.finish hEq)))
        refine ⟨_, rfl, Or.inl ⟨hAll, ?_⟩⟩
        intro hMem
        rcases List.mem_append.mp hMem with hOld | hNew
        · exact hBoth.kept .finish (by simp) (by simp) hOld
        · simp at hNew
      · have hAll := Turn.of_quiet hFired hTurn
        refine ⟨g, by simp [hBeat], Or.inl ⟨hAll, ?_⟩⟩
        exact hBoth.kept .finish (by simp) (by simp)
    · exact ⟨g, rfl, Or.inr ⟨hTid, rfl, Finished.of_quiet hFired hFinished⟩⟩
  · have hTurn := Turn.quiet h hFired
    refine ⟨e, by simp [timerCb, hId], Or.inl ⟨hTurn, ?_⟩⟩
    exact hFired.kept .finish (by simp) (by simp)

end RvFt

end Sassrv.Ft
