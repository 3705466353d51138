import Sassrv.Ft.Housing

/-! A `start` after the finish state. It sets up `me` and the counters anew,
and keeps the queue, the index and the slots of the life before. -/
namespace Sassrv.Ft
open FtGroup

/-- The group of a member that starts with the peers that it knows: `me` is not
queued, queue and index agree, and the counters are right. -/
structure Reborn (f : RvFt) : Prop where
  absent : .me ∉ f.group.live
  nodup : f.group.live.Nodup
  pos : ∀ i r, f.group.live[i]? = some r → (f.group.peer r).pos = i + 1
  indexed : ∀ r, (∃ s, (s, r) ∈ f.group.peerHt) ↔ r ∈ f.group.live
  start : ∀ s r, (s, r) ∈ f.group.peerHt → (f.group.peer r).startNs = s
  primary : f.group.stateCount.primary = f.group.tally .primary
  secondary : f.group.stateCount.secondary = f.group.tally .secondary
  join : f.group.stateCount.join = f.group.tally .join

/-- What comes of it: `me` joins the queue once, and no counter is decremented
at zero when a known peer reports a state. -/
structure Rejoins (f : RvFt) : Prop where
  once : (f.group.insert .me).live.count .me = 1
  steady : ∀ s r, (s, r) ∈ f.group.peerHt → ∀ state,
    (f.group.stateCount.update (f.group.peer r).state state).wrapped = false

namespace FtGroup

theorem Housed.nodup {g : FtGroup} (h : g.Housed) (hAbsent : .me ∉ g.live) : g.live.Nodup := by
  rw [List.nodup_iff_count_le_one]
  intro r
  by_cases hr : r = .me
  · rw [hr, List.count_eq_zero.mpr hAbsent]
    exact Nat.zero_le 1
  · exact h.tracked.once r hr

theorem Housed.pos {g : FtGroup} (h : g.Housed) (hAbsent : .me ∉ g.live) {i : Nat} {r : PeerRef}
    (hAt : g.live[i]? = some r) : (g.peer r).pos = i + 1 := by
  have hMem := List.mem_of_getElem? hAt
  have hr : r ≠ .me := fun hEq => hAbsent (hEq ▸ hMem)
  have hKnown := h.tracked.known r hr hMem
  have hPoint := (h.tracked.points r).resolve_left hKnown
  obtain ⟨hi, -⟩ := List.getElem?_eq_some_iff.mp hAt
  have hSame := (List.getElem?_inj hi (h.nodup hAbsent)).mp (hAt.trans hPoint.symm)
  omega

/-- Nobody is counted in a state when no known peer is and `me` listens. -/
theorem tally_renewed (g : FtGroup) {me : FtPeer} (state : FtState) (hState : state.counted = true) :
    (RvFt.renewed g me).tally state =
      g.indexed.countP (fun r => decide (((RvFt.renewed g me).peer r).state = state)) := by
  have hListen : ((RvFt.renewed g me).peer .me).state = .listen := by rw [RvFt.renewed_me]
  have hOther : FtState.listen ≠ state := by
    rintro rfl
    cases hState
  simp only [tally, members, List.countP_cons, hListen, hOther, decide_false, if_neg,
    Bool.false_eq_true, not_false_eq_true, Nat.add_zero]
  rfl

end FtGroup

namespace RvFt

/-- `start` returns, with the group of before but for `me` and the counters. -/
theorem start_group (f : RvFt) (param : FtParameters) : ∃ g, f.start param = some g ∧
    g.group = renewed f.group
      { startNs := f.nowNs, weight := param.weight, user := param.user.take 63 } := by
  have hPrepared : ∀ e : RvFt, e.group = (f.prepared param).group →
      e.group.restate .listen = e.group := by
    intro e hGroup
    have hListen : (e.group.peer .me).state = .listen := by
      rw [hGroup]
      exact congrArg FtPeer.state (prepared_me f param)
    rw [restate, if_neg (by rw [hListen]; simp)]
  have hArmed : ((if (f.prepared param).joinMs ≠ 0 then (f.prepared param).addTimer .join
      else f.prepared param).startHb param.heartbeatMs param.activateMs param.prepareMs).group =
      (f.prepared param).group := by
    rw [startHb_group]
    split <;> rfl
  obtain ⟨g, hSet, -, hGroup⟩ := setState_listen ((if (f.prepared param).joinMs ≠ 0 then
    (f.prepared param).addTimer .join else f.prepared param).startHb param.heartbeatMs
      param.activateMs param.prepareMs)
  refine ⟨g.notifyChange .listen, ?_, ?_⟩
  · rw [start_eq, hSet]
    rfl
  · rw [(Quiet.notifyChange g .listen).group, hGroup, hPrepared _ hArmed, hArmed]
    rfl

end RvFt

/-- A counter that is not at zero does not wrap. -/
theorem FtStateCount.update_steady {c : FtStateCount} {oldState : FtState} (newState : FtState)
    (hWrapped : c.wrapped = false) (hJoin : oldState = .join → c.join ≠ 0)
    (hPrimary : oldState = .primary → c.primary ≠ 0)
    (hSecondary : oldState = .secondary → c.secondary ≠ 0) :
    (c.update oldState newState).wrapped = false := by
  have hEnter : ∀ d : FtStateCount, (d.enter newState).wrapped = d.wrapped := by
    intro d
    cases newState <;> rfl
  rw [FtStateCount.update, hEnter]
  cases oldState with
  | listen => exact hWrapped
  | finish => exact hWrapped
  | join => simpa [FtStateCount.leave, hWrapped] using hJoin rfl
  | primary => simpa [FtStateCount.leave, hWrapped] using hPrimary rfl
  | secondary => simpa [FtStateCount.leave, hWrapped] using hSecondary rfl

theorem Reborn.rejoins {f : RvFt} (h : Reborn f) (hWrapped : f.group.stateCount.wrapped = false) :
    Rejoins f := by
  refine ⟨?_, ?_⟩
  · obtain ⟨front, passed, hSplit, hLive, -⟩ := f.group.reorder_live f.group.live .me
    change (f.group.reorder f.group.live .me).live.count .me = 1
    rw [hLive, List.perm_middle.count_eq, List.count_cons_self, ← hSplit,
      List.count_eq_zero.mpr h.absent]
  · intro s r hMem state
    have hTally : ∀ x, (f.group.peer r).state = x → f.group.tally x ≠ 0 := by
      intro x hx
      exact Nat.pos_iff_ne_zero.mp (List.countP_pos_iff.mpr ⟨r, mem_members hMem, by simp [hx]⟩)
    refine FtStateCount.update_steady state hWrapped ?_ ?_ ?_
    · rw [h.join]
      exact hTally .join
    · rw [h.primary]
      exact hTally .primary
    · rw [h.secondary]
      exact hTally .secondary

/-- A member starts well exactly when it is not queued any more and knows of no
peer that has joined. In particular this is so of a member that has finished. -/
theorem restart_clean_iff {f : RvFt} (h : ftSystem.Reachable f) (nowNs monoNs : Nat)
    (param : FtParameters) : ∃ g, (f.atTime nowNs monoNs).start param = some g ∧
      (Reborn g ↔ .me ∉ f.group.live ∧
        ∀ s r, (s, r) ∈ f.group.peerHt → (f.group.peer r).state.counted = false) ∧
      (Reborn g → Rejoins g) := by
  obtain ⟨g, hStart, hGroup⟩ := RvFt.start_group (f.atTime nowNs monoNs) param
  obtain ⟨me, hGroup, hPos, hFresh⟩ : ∃ me : FtPeer, g.group = RvFt.renewed f.group me ∧
      me.pos = 0 ∧ me.state = .listen := ⟨_, hGroup, rfl, rfl⟩
  have hHoused : g.group.Housed := by
    rw [hGroup]
    exact (ftSystem_housed h).renewed hPos
  have hLive : g.group.live = f.group.live := by rw [hGroup]; rfl
  have hTable : g.group.peerHt = f.group.peerHt := by rw [hGroup]; rfl
  have hCount : g.group.stateCount = {} := by
    rw [hGroup]
    simp [RvFt.renewed, FtGroup.updateState, FtGroup.modify, hFresh, FtStateCount.update,
      FtStateCount.leave, FtStateCount.enter]
  have hOthers := (ftSystem_housed h).booked.others
  have hPeer : ∀ s r, (s, r) ∈ f.group.peerHt → g.group.peer r = f.group.peer r := by
    intro s r hMem
    rw [hGroup, RvFt.renewed_peer f.group me (hOthers s r hMem)]
  have hTally : ∀ state, state.counted = true → (g.group.tally state = 0 ↔
      ∀ s r, (s, r) ∈ f.group.peerHt → (f.group.peer r).state ≠ state) := by
    intro state hState
    rw [hGroup, tally_renewed f.group state hState, List.countP_eq_zero, ← hGroup]
    simp only [decide_eq_true_eq]
    constructor
    · intro hNone s r hMem
      rw [← hPeer s r hMem]
      exact hNone r (mem_indexed.mpr ⟨s, hMem⟩)
    · intro hNone r hr
      obtain ⟨s, hMem⟩ := mem_indexed.mp hr
      rw [hPeer s r hMem]
      exact hNone s r hMem
  refine ⟨g, hStart, ⟨?_, ?_⟩, fun hReborn => hReborn.rejoins (by rw [hCount])⟩
  · intro hReborn
    refine ⟨by rw [← hLive]; exact hReborn.absent, ?_⟩
    have hZero : g.group.tally .primary = 0 ∧ g.group.tally .secondary = 0 ∧
        g.group.tally .join = 0 := by
      rw [← hReborn.primary, ← hReborn.secondary, ← hReborn.join, hCount]
      exact ⟨rfl, rfl, rfl⟩
    intro s r hMem
    have hPrimary := (hTally .primary rfl).mp hZero.1 s r hMem
    have hSecondary := (hTally .secondary rfl).mp hZero.2.1 s r hMem
    have hJoin := (hTally .join rfl).mp hZero.2.2 s r hMem
    revert hPrimary hSecondary hJoin
    cases (f.group.peer r).state <;> simp [FtState.counted]
  · rintro ⟨hAbsent, hCounted⟩
    have hNone : ∀ state, state.counted = true → g.group.tally state = 0 := by
      intro state hState
      refine (hTally state hState).mpr (fun s r hMem hEq => ?_)
      rw [← hEq, hCounted s r hMem] at hState
      cases hState
    rw [← hLive] at hAbsent
    refine ⟨hAbsent, hHoused.nodup hAbsent, fun _ _ hAt => hHoused.pos hAbsent hAt, ?_,
      hHoused.booked.start, ?_, ?_, ?_⟩
    · intro r
      rw [← mem_indexed, hHoused.matched]
      exact ⟨And.left, fun hr => ⟨hr, fun hEq => hAbsent (hEq ▸ hr)⟩⟩
    · rw [hCount, hNone .primary rfl]
    · rw [hCount, hNone .secondary rfl]
    · rw [hCount, hNone .join rfl]

/-- A member that stops while it listens alone. -/
theorem restart_clean_alone : ∃ f, ftSystem.Reachable f ∧ f.me.state = .finish ∧
    ∃ g, (f.atTime 2000000000 2000000000).start {} = some g ∧ Reborn g := by
  have hReach : (ftSystem.guard (fun _ _ => True)).Reachable _ := sampleRun_reachable
    (show (sampleRun (fun _ _ => True) [⟨200, 2, .stop⟩,
      ⟨500000200, 500000002, .timer 100 .finish⟩]).isSome by decide)
  refine ⟨_, hReach.of_guard, by decide, ?_⟩
  obtain ⟨g, hStart, hIff, -⟩ := restart_clean_iff hReach.of_guard 2000000000 2000000000 {}
  refine ⟨g, hStart, hIff.mpr ⟨by decide, ?_⟩⟩
  intro s r hMem
  have hNone : ((sampleRun (fun _ _ => True) [⟨200, 2, .stop⟩,
      ⟨500000200, 500000002, .timer 100 .finish⟩]).get (by decide)).1.group.peerHt = [] := by decide
  rw [hNone] at hMem
  cases hMem

/-- A member that joins alone, stops and starts again is still queued from its
life before. -/
theorem restart_can_keep : ¬ ∀ f, ftSystem.Reachable f → f.me.state = .finish →
    ∀ nowNs monoNs param g, (f.atTime nowNs monoNs).start param = some g → Reborn g := by
  intro h
  have hReach : (ftSystem.guard (fun _ _ => True)).Reachable _ := sampleRun_reachable
    (show (sampleRun (fun _ _ => True) [⟨500000100, 500000001, .timer 100 .join⟩,
      ⟨600000000, 600000000, .stop⟩, ⟨1100000000, 1100000000, .timer 100 .finish⟩]).isSome by decide)
  obtain ⟨g, hStart, hGroup⟩ := RvFt.start_group (RvFt.atTime _ 2000000000 2000000000) {}
  have hAbsent := (h _ hReach.of_guard (by decide) _ _ _ g hStart).absent
  rw [hGroup] at hAbsent
  revert hAbsent
  decide

end Sassrv.Ft
