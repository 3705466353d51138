import Sassrv.Ft.Runs

/-! The rank of an FT instance and its place in the queue. The header of
`ft.h` says that the primary has rank 1 and the secondaries come after it.
Two branches of `on_peer_msg` return before the check of the rank. -/
namespace Sassrv.Ft
namespace RvFt
open FtGroup

/-- A call in which a listening member joins: `activate`, or its join timer. -/
def joins (f : RvFt) : FtCall → Bool
  | .activate => decide (f.me.state = .listen)
  | .timer id action => decide (id = f.tid ∧ action = .join)
  | _ => false

/-- The condition under which a call keeps the rank and the place together. A restart finds
`me` outside the queue and takes a time that no peer and no timer has, a message is harmless
to the branches without a check, and the queue is in order when `me` joins. -/
def RankOk (f : RvFt) (input : FtInput) : Prop :=
  match input.call with
  | .start _ => .me ∉ f.group.live ∧
      (∀ r ∈ f.group.live, (f.group.peer r).startNs ≠ input.nowNs) ∧
      ∀ t ∈ f.timers, t.1 ≠ input.nowNs
  | .publish pub => ∀ m ∈ (f.atTime input.nowNs input.monoNs).handsOn pub,
      (f.atTime input.nowNs input.monoNs).KeepsRank m
  | call => f.joins call = true → f.Ordered

instance (f : RvFt) : Decidable f.Ordered := inferInstanceAs (Decidable (List.Pairwise _ _))

instance : (f : RvFt) → (input : FtInput) → Decidable (f.RankOk input)
  | _, ⟨_, _, .start _⟩ => inferInstanceAs (Decidable (_ ∧ _))
  | _, ⟨_, _, .publish _⟩ => inferInstanceAs (Decidable (∀ m ∈ _, _))
  | _, ⟨_, _, .stop⟩ => inferInstanceAs (Decidable (_ → _))
  | _, ⟨_, _, .activate⟩ => inferInstanceAs (Decidable (_ → _))
  | _, ⟨_, _, .deactivate⟩ => inferInstanceAs (Decidable (_ → _))
  | _, ⟨_, _, .timer _ _⟩ => inferInstanceAs (Decidable (_ → _))

/-- The activation interval does not come back. -/
theorem Expired.atTime {f : RvFt} (h : f.Expired) {nowNs monoNs : Nat} (hTime : f.monoNs ≤ monoNs) :
    (f.atTime nowNs monoNs).Expired := by
  unfold Expired expiredDeltaMs at h ⊢
  change (if f.startMono + f.activateMs * 1000 * 1000 < monoNs then
    -(((monoNs - (f.startMono + f.activateMs * 1000 * 1000)) / 1000 / 1000 : Nat) : Int)
    else (((f.startMono + f.activateMs * 1000 * 1000 - monoNs) / 1000 / 1000 : Nat) : Int)) ≤ 0
  simp only at h
  split at h <;> split <;> omega

/-! A member that listens or is done has no rank, and only by joining does it get one. -/

theorem stop_idle {f g : RvFt} (h : f.Sound False) (hIdle : f.me.state.counted = false)
    (hCall : f.stop = some g) : g.me.state.counted = false := by
  unfold stop at hCall
  split at hCall
  · obtain ⟨e, hSet, hFinished⟩ := setState_finished h
    cases hSet.symm.trans hCall
    rw [hFinished.state]
    rfl
  · split at hCall
    · cases hCall
      exact hIdle
    · cases hCall
      exact hIdle

theorem deactivate_idle {f g : RvFt} (h : f.Sound False) (hIdle : f.me.state.counted = false)
    (hCall : f.deactivate = some g) : g.me.state.counted = false := by
  unfold deactivate at hCall
  by_cases hListen : f.me.state = .listen
  · rw [if_neg (not_not_intro hListen)] at hCall
    cases hCall
    exact hIdle
  · obtain ⟨e, hSet, -, hRestate⟩ := setState_listen
      (f.withGroup (f.group.remove .me)).stopTimers
    rw [(Quiet.stopTimers _).group] at hRestate
    simp only [ne_eq, hListen, not_false_eq_true, if_true, hSet, Option.bind_eq_bind,
      Option.bind_some, Option.pure_def, Option.some.injEq] at hCall
    have hState : g.me.state = .listen := by
      rw [← hCall, RvFt.me, (Quiet.notifyChange e .listen).group, hRestate]
      exact (restate_spec h.ledger.removeMe .listen).state
    rw [hState]
    rfl

theorem takeoverTimer_idle {f g : RvFt} (hIdle : f.me.state.counted = false) {action : FtAction}
    {ival : Int} (hCall : f.takeoverTimer action ival = some g) : g.me.state.counted = false := by
  have hNot : ¬ (f.me.state = .secondary ∨ f.me.state = .join) := by
    rintro (hEq | hEq)
    · rw [hEq] at hIdle
      cases hIdle
    · rw [hEq] at hIdle
      cases hIdle
  unfold takeoverTimer at hCall
  dsimp only at hCall
  rw [if_neg fun hRun => hNot hRun.2] at hCall
  cases hCall
  rw [RvFt.me, (Quiet.notifyUpdate _).group]
  exact hIdle

theorem heartbeatTimer_idle {f g : RvFt} (h : f.Sound False) (hListen : f.me.state = .listen)
    (hCall : f.heartbeatTimer = some g) : g.me.state = .listen := by
  have hTrimmed : ∀ e, (e = f.trimFtQueue ∨ e = f) → e.me.state = .listen := by
    rintro e (rfl | rfl)
    · rw [(trimFtQueue_trimmed h.ledger).state, hListen]
    · exact hListen
  obtain ⟨e, he⟩ : ∃ e, e = if isAccurate (f.expiredDeltaMs f.lastHbNs f.heartbeatMs) then
      f.trimFtQueue else f := ⟨_, rfl⟩
  have hState : e.me.state = .listen := by
    apply hTrimmed
    rw [he]
    split
    · exact .inl rfl
    · exact .inr rfl
  unfold heartbeatTimer at hCall
  dsimp only at hCall
  rw [← he, if_neg (by rw [hState]; simp), if_neg (not_not_intro hState)] at hCall
  cases hCall
  rw [RvFt.me, (Quiet.notifyUpdate _).group]
  exact hState

theorem timerCb_idle {f g : RvFt} (h : f.Sound False) (hIdle : f.me.state.counted = false)
    {action : FtAction} (hGone : (f.tid, action) ∉ f.timers)
    (hBeats : action = .heartbeat → f.me.state ≠ .finish) (hJoins : action ≠ .join) {again : Bool}
    (hCall : f.timerCb f.tid action = some (g, again)) : g.me.state.counted = false := by
  unfold timerCb at hCall
  rw [if_neg (not_not_intro rfl)] at hCall
  cases action with
  | activate =>
      obtain ⟨k, hTimer, hPair⟩ := Option.bind_eq_some_iff.mp hCall
      cases hPair
      exact takeoverTimer_idle hIdle hTimer
  | prepare =>
      obtain ⟨k, hTimer, hPair⟩ := Option.bind_eq_some_iff.mp hCall
      cases hPair
      exact takeoverTimer_idle hIdle hTimer
  | heartbeat =>
      obtain ⟨k, hTimer, hPair⟩ := Option.bind_eq_some_iff.mp hCall
      cases hPair
      have hNotFinish := hBeats rfl
      have hListen : f.me.state = .listen := by
        revert hIdle hNotFinish
        cases f.me.state <;> simp [FtState.counted]
      rw [heartbeatTimer_idle h hListen hTimer]
      rfl
  | join => exact absurd rfl hJoins
  | finish =>
      obtain ⟨k, hSet, hPair⟩ := Option.bind_eq_some_iff.mp hCall
      cases hPair
      obtain ⟨k, hFinish, hFinished⟩ := setState_finished
        (h.quiet (Quiet.clearMask (by simp) hGone))
      cases hFinish.symm.trans hSet
      rw [hFinished.state]
      rfl
  | listen =>
      cases hCall
      exact hIdle
  | deactivate =>
      cases hCall
      exact hIdle
  | update =>
      cases hCall
      exact hIdle

theorem fire_idle {f g : RvFt} (h : f.Sound False) (hIdle : f.me.state.counted = false) {id : Nat}
    {action : FtAction} (hJoins : f.joins (.timer id action) ≠ true)
    (hCall : f.fire id action = some g) : g.me.state.counted = false := by
  unfold fire at hCall
  by_cases hArmed : (id, action) ∈ f.timers
  · have hFired := Quiet.fired f (id, action)
    have hGone : (id, action) ∉ f.timers.erase (id, action) :=
      fun hMem => (h.timers.1.mem_erase_iff.mp hMem).1 rfl
    rw [if_pos hArmed] at hCall
    generalize hErased : { f with timers := f.timers.erase (id, action) } = e at hCall hFired
    have hList : e.timers = f.timers.erase (id, action) := by rw [← hErased]
    rw [← hList] at hGone
    have hMe : e.me.state.counted = false := by
      rw [hFired.me]
      exact hIdle
    obtain ⟨⟨k, again⟩, hCb, hEnd⟩ := Option.bind_eq_some_iff.mp hCall
    have hSame : g.me = k.me := by
      cases hEnd
      cases again <;> rfl
    rw [hSame]
    by_cases hId : id = e.tid
    · subst hId
      refine timerCb_idle (h.quiet hFired) hMe hGone ?_ ?_ hCb
      · rintro rfl
        rw [hFired.tid] at hArmed
        rw [hFired.me]
        exact h.beatTimer hArmed
      · exact fun hEq => hJoins (decide_eq_true ⟨hFired.tid, hEq⟩)
    · unfold timerCb at hCb
      rw [if_pos hId] at hCb
      cases hCb
      exact hMe
  · rw [if_neg hArmed] at hCall
    cases hCall

theorem dispatch_idle {f g : RvFt} (h : f.Sound False) (hIdle : f.me.state.counted = false)
    {call : FtCall} (hStart : call.isStart = false) (hJoins : f.joins call ≠ true)
    (hCall : f.dispatch call = some g) : g.me.state.counted = false := by
  cases call with
  | start param => cases hStart
  | stop => exact stop_idle h hIdle hCall
  | activate =>
      have hListen : f.me.state ≠ .listen := fun hEq => hJoins (decide_eq_true hEq)
      change f.activate = some g at hCall
      rw [activate, if_neg hListen] at hCall
      cases hCall
      exact hIdle
  | deactivate => exact deactivate_idle h hIdle hCall
  | timer id action => exact fire_idle h hIdle hJoins hCall
  | publish pub =>
      obtain ⟨k, handled, hProcess, hResult⟩ := processPub_spec h pub
      change (f.processPub pub).bind (fun r => some r.1) = some g at hCall
      rw [hProcess] at hCall
      cases hCall
      rcases hResult with ⟨-, hQuiet⟩ | ⟨m, -, -, hHeard⟩
      · rw [hQuiet.me]
        exact hIdle
      · exact hHeard.idle hIdle

/-- The invariant of the runs that keep to the condition. The queue is in order while `me`
has a place in it that counts. -/
structure RankInv (f : RvFt) : Prop where
  sound : f.Sound False
  order : f.me.state.counted = true → f.Ordered
  expired : f.Ranked → f.Expired
  law : Lawful f.group

theorem RankInv.atTime {f : RvFt} (h : f.RankInv) (nowNs : Nat) {monoNs : Nat}
    (hTime : f.monoNs ≤ monoNs) : (f.atTime nowNs monoNs).RankInv :=
  ⟨h.sound.atTime nowNs monoNs, h.order, fun hRanked => (h.expired hRanked).atTime hTime, h.law⟩

theorem RankInv.of_idle {f : RvFt} (h : f.Sound False) (hIdle : f.me.state.counted = false) :
    f.RankInv := by
  have hPrimary : f.me.state ≠ .primary := by
    intro hEq
    rw [hEq] at hIdle
    cases hIdle
  have hSecondary : f.me.state ≠ .secondary := by
    intro hEq
    rw [hEq] at hIdle
    cases hIdle
  refine ⟨h, ?_, ?_, ?_⟩
  · intro hCounted
    rw [hIdle] at hCounted
    cases hCounted
  · rintro (hEq | hEq)
    · exact absurd hEq hPrimary
    · exact absurd hEq hSecondary
  · exact ⟨fun hEq => absurd hEq hPrimary, fun hEq => absurd hEq hSecondary⟩

theorem Sound.weaken {C : Prop} {f : RvFt} (h : f.Sound C) : f.Sound False :=
  ⟨⟨h.ledger.placed, { h.ledger.booked with counts := False.elim }, h.ledger.matched,
    h.ledger.apart⟩, h.absent, h.present, h.timers, h.joinTimer, h.beatTimer⟩

/-- A member that starts is listening. -/
theorem Started.rankInv {C : Prop} {f g : RvFt} {param : FtParameters} (h : f.Started C param g) :
    g.RankInv :=
  RankInv.of_idle h.sound.weaken (by rw [h.state]; rfl)

theorem RankInv.init {f : RvFt} (h : ftSystem.init f) : f.RankInv := by
  obtain ⟨e, param, -, hStarted⟩ := start_fresh h
  exact hStarted.rankInv

theorem RankInv.restart {f g : RvFt} (h : f.RankInv) {param : FtParameters}
    (hAbsent : .me ∉ f.group.live)
    (hPeers : ∀ r ∈ f.group.live, (f.group.peer r).startNs ≠ f.nowNs)
    (hTimers : ∀ t ∈ f.timers, t.1 ≠ f.nowNs) (hStart : f.start param = some g) : g.RankInv := by
  have hLedger := h.sound.ledger
  have hFresh : ∀ s r, (s, r) ∈ f.group.peerHt → s ≠ f.nowNs := by
    intro s r hMem
    rw [← hLedger.booked.start s r hMem]
    exact hPeers r ((hLedger.matched r).mp (mem_indexed.mpr ⟨s, hMem⟩)).1
  obtain ⟨k, hCall, hStarted⟩ := start_started (C := False) (f := f)
    ⟨hLedger, hAbsent, hFresh, h.sound.timers.1, fun a ha => hTimers _ ha rfl, False.elim⟩ param
  rw [hStart] at hCall
  cases hCall
  exact hStarted.rankInv

theorem Called.rankInv {f g : RvFt} {call : FtCall} (h : f.RankInv) (hCalled : f.Called False call g)
    (hKeeps : ∀ m, f.message call = some m → f.KeepsRank m) (hOrder : f.Ordered) : g.RankInv := by
  have hSound := hCalled.kept.sound
  cases hCalled with
  | turn _ hTurn _ =>
      exact ⟨hSound, fun _ => hTurn.order hOrder, hTurn.expired h.expired,
        hTurn.law hOrder h.expired h.law⟩
  | heard m hMsg _ hHeard =>
      exact ⟨hSound, fun _ => hHeard.order hOrder, hHeard.expired h.expired,
        hHeard.law (hKeeps m hMsg) hOrder h.expired h.law⟩
  | finished _ _ hFinished =>
      refine .of_idle hSound ?_
      rw [hFinished.state]
      rfl

theorem RankInv.step {f g : RvFt} {input : FtInput} {emitted : List FtOut} (h : f.RankInv)
    (hOk : f.RankOk input) (hStep : ftSystem.step f input emitted g) : g.RankInv := by
  obtain ⟨hTime, hDispatch, -⟩ := step_dispatch hStep
  have hBefore := h.atTime input.nowNs hTime
  unfold RankOk at hOk
  -- a member without a rank that does not join stays without one
  have hRest : input.call.isStart = false →
      (∀ m, (f.atTime input.nowNs input.monoNs).message input.call = some m →
        (f.atTime input.nowNs input.monoNs).KeepsRank m) →
      (f.joins input.call = true → f.Ordered) → g.RankInv := by
    intro hStart hKeeps hJoined
    have hCalled := step_called h.sound hStep hStart
    by_cases hOrder : f.Ordered
    · exact Called.rankInv hBefore hCalled hKeeps hOrder
    · have hIdle : f.me.state.counted = false := by
        by_contra hCounted
        exact hOrder (h.order (by simpa using hCounted))
      have hJoins : (f.atTime input.nowNs input.monoNs).joins input.call ≠ true := by
        have hNot := mt hJoined hOrder
        generalize input.call = call at *
        cases call with
        | _ => exact hNot
      exact .of_idle hCalled.kept.sound (dispatch_idle hBefore.sound hIdle hStart hJoins hDispatch)
  generalize input.call = call at *
  cases call with
  | start param => exact hBefore.restart hOk.1 hOk.2.1 hOk.2.2 hDispatch
  | publish pub => exact hRest rfl hOk (fun hEq => by cases hEq)
  | stop => exact hRest rfl (fun _ hEq => by cases hEq) hOk
  | activate => exact hRest rfl (fun _ hEq => by cases hEq) hOk
  | deactivate => exact hRest rfl (fun _ hEq => by cases hEq) hOk
  | timer id action => exact hRest rfl (fun _ hEq => by cases hEq) hOk

end RvFt

/-- The runs that keep to the condition. -/
def rankedRuns : Transition.System RvFt FtInput FtOut := ftSystem.guard RvFt.RankOk

/-- In every run that keeps to the condition a primary is first in the queue
and a secondary is behind another member. -/
theorem rank_law {f : RvFt} (h : rankedRuns.Reachable f) :
    (f.me.state = .primary → f.me.pos = 1 ∧ f.group.ptr 0 = some .me) ∧
    (f.me.state = .secondary → f.me.pos > 1) := by
  have hInv : f.RankInv := by
    refine h.invariant ?_ ?_
    · exact fun _ hInit => RvFt.RankInv.init hInit
    · exact fun _ _ _ _ hBefore hStep => hBefore.step hStep.1 hStep.2
  have hPlaced := hInv.sound.ledger.placed
  refine ⟨fun hPrimary => ?_, fun hSecondary => ?_⟩
  · have hHeads : f.group.live.head? = some .me := hInv.law.1 hPrimary
    refine ⟨hPlaced.pos 0 .me (by rw [← List.head?_eq_getElem?]; exact hHeads), ?_⟩
    rw [RvFt.ptr_zero (List.ne_nil_of_mem (List.mem_of_mem_head? hHeads))]
    exact hHeads
  · have hMem := hInv.sound.ranked_mem (Or.inr hSecondary)
    obtain ⟨i, hAt⟩ := List.mem_iff_getElem?.mp hMem
    have hPos : f.me.pos = i + 1 := hPlaced.pos i .me hAt
    have hFirst : i ≠ 0 := by
      rintro rfl
      apply hInv.law.2 hSecondary
      rw [FtGroup.Heads, List.head?_eq_getElem?]
      exact hAt
    omega

/-- A secondary stays behind the primary that it hears. -/
theorem rank_law_secondary :
    ∃ f, rankedRuns.Reachable f ∧ f.me.state = .secondary ∧ f.me.pos > 1 := by
  have hReach : rankedRuns.Reachable _ := sampleRun_reachable (show (sampleRun RvFt.RankOk
    sampleInputs).isSome by decide)
  exact ⟨_, hReach, by decide, (rank_law hReach).2 (by decide)⟩

/-- The primary above the only secondary goes back to the listen state. The
secondary is then first and stays secondary, in a run with neither `stop` nor
a second `start`. -/
theorem rank_law_can_fail :
    ¬ ∀ f, oneStartNoStop.Reachable f →
      (f.me.state = .primary → f.me.pos = 1) ∧ (f.me.state = .secondary → f.me.pos > 1) := by
  intro h
  have hReach : oneStartNoStop.Reachable _ := sampleRun_reachable (show (sampleRun
    (fun _ input => input.call.isStart = false ∧ input.call.isStop = false)
    (sampleInputs ++ [⟨8000000100, 8000000100,
      peerPub { type := 0, state := 0, startNs := 50, weight := 30 }⟩])).isSome by decide)
  have hLaw := (h _ hReach).2 (by decide)
  revert hLaw
  decide

end Sassrv.Ft
