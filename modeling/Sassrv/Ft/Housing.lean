import Sassrv.Ft.Notices

/-! The books of the group in every run, restarts of a member that is still
queued included. The queue may then hold `me` more than once, and `me` may have
lost its position. The peers stay where the index says. -/
namespace Sassrv.Ft
namespace FtGroup

theorem renumber_pos_of_mem {l : List PeerRef} {r : PeerRef} (h : r ∈ l) (j : Nat)
    (peer : PeerRef → FtPeer) : ∃ i, l[i]? = some r ∧ (renumber l j peer r).pos = j + i + 1 := by
  induction l generalizing j peer with
  | nil => cases h
  | cons x rest ih =>
      by_cases hRest : r ∈ rest
      · obtain ⟨i, hAt, hPos⟩ := ih hRest (j + 1) (Function.update peer x { peer x with pos := j + 1 })
        exact ⟨i + 1, by simpa using hAt, by rw [renumber, hPos]; omega⟩
      · obtain rfl : r = x := (List.mem_cons.mp h).resolve_right hRest
        exact ⟨0, rfl, by rw [renumber, renumber_of_notMem hRest, Function.update_self]⟩

/-- `r` has no position, or is where its position says. -/
def PointsAt (peer : PeerRef → FtPeer) (l : List PeerRef) (r : PeerRef) : Prop :=
  (peer r).pos = 0 ∨ l[(peer r).pos - 1]? = some r

section Renumber

variable {peer : PeerRef → FtPeer} {front tail back : List PeerRef} {r : PeerRef}

theorem renumber_pointsAt_of_mem (hr : r ∈ back) :
    PointsAt (renumber back front.length peer) (front ++ back) r ∧
      (renumber back front.length peer r).pos ≠ 0 := by
  obtain ⟨i, hAt, hPos⟩ := renumber_pos_of_mem hr front.length peer
  refine ⟨Or.inr ?_, by omega⟩
  rw [hPos, List.getElem?_append_right (by omega)]
  simpa using hAt

/-- The tail of the queue is numbered anew. -/
theorem renumber_pointsAt (hOld : PointsAt peer (front ++ tail) r) (hTail : r ∈ tail → r ∈ back) :
    PointsAt (renumber back front.length peer) (front ++ back) r := by
  by_cases hr : r ∈ back
  · exact (renumber_pointsAt_of_mem hr).1
  · rw [PointsAt, renumber_of_notMem hr]
    refine hOld.imp id (fun hAt => ?_)
    rcases Nat.lt_or_ge ((peer r).pos - 1) front.length with hLt | hGe
    · rw [List.getElem?_append_left hLt] at hAt ⊢
      exact hAt
    · rw [List.getElem?_append_right hGe] at hAt
      exact absurd (hTail (List.mem_of_getElem? hAt)) hr

end Renumber

/-- Every member is where its position says, and the peers are queued once. -/
structure Tracked (g : FtGroup) : Prop where
  points : ∀ r, PointsAt g.peer g.live r
  known : ∀ r, r ≠ .me → r ∈ g.live → (g.peer r).pos ≠ 0
  once : ∀ r, r ≠ .me → g.live.count r ≤ 1

namespace Tracked

variable {g : FtGroup} {p : PeerRef}

theorem getPos_eq (h : g.Tracked) (hPos : (g.peer p).pos ≠ 0) :
    g.live[g.getPos p]? = some p := by
  have hAt := (h.points p).resolve_left hPos
  have hLt : (g.peer p).pos - 1 < g.live.length := (List.getElem?_eq_some_iff.mp hAt).1
  have hPtr : g.ptr ((g.peer p).pos - 1) = some p := by
    rw [ptr, List.getElem?_append_left hLt]
    exact hAt
  rw [getPos, if_pos ⟨Nat.pos_of_ne_zero hPos, hPtr⟩]
  exact hAt

/-- The guard in front of `remove` and `update`. -/
theorem absent_iff (h : g.Tracked) :
    ((g.peer p).pos = 0 ∨ g.getPos p = g.live.length) ↔ (g.peer p).pos = 0 := by
  refine ⟨?_, Or.inl⟩
  rintro (hZero | hEnd)
  · exact hZero
  · by_contra hPos
    have hAt := h.getPos_eq hPos
    rw [hEnd] at hAt
    simp at hAt

theorem notMem (h : g.Tracked) (hp : p ≠ .me) (hZero : (g.peer p).pos = 0) : p ∉ g.live :=
  fun hMem => h.known p hp hMem hZero

/-- `reorder` numbers what it moved. -/
theorem reorder {others : List PeerRef} (hPoints : ∀ r, r ≠ p → PointsAt g.peer others r)
    (hKnown : ∀ r, r ≠ .me → r ∈ others → r ≠ p → (g.peer r).pos ≠ 0)
    (hOnce : ∀ r, r ≠ .me → others.count r ≤ 1) (hp : p = .me ∨ p ∉ others) :
    (g.reorder others p).Tracked := by
  obtain ⟨front, passed, rfl, hLive, hPeer⟩ := g.reorder_live others p
  refine ⟨?_, ?_, ?_⟩
  · intro r
    rw [hLive, hPeer]
    by_cases hr : r = p
    · exact (renumber_pointsAt_of_mem (by simp [hr])).1
    · exact renumber_pointsAt (hPoints r hr) (fun hMem => List.mem_cons_of_mem _ hMem)
  · intro r hMe hMem
    rw [hLive] at hMem
    rw [hPeer]
    by_cases hr : r ∈ p :: passed
    · exact (renumber_pointsAt_of_mem hr).2
    · rw [renumber_of_notMem hr]
      have hFront := (List.mem_append.mp hMem).resolve_right hr
      exact hKnown r hMe (List.mem_append_left _ hFront) (fun hEq => hr (by simp [hEq]))
  · intro r hMe
    rw [hLive, List.perm_middle.count_eq, List.count_cons]
    have hOld := hOnce r hMe
    split
    · rename_i hEq
      obtain rfl : p = r := by simpa using hEq
      have hZero : (front ++ passed).count p = 0 := List.count_eq_zero.mpr (hp.resolve_left hMe)
      omega
    · exact hOld

theorem insert (h : g.Tracked) (hp : p = .me ∨ p ∉ g.live) : (g.insert p).Tracked := by
  obtain ⟨hPoints, hKnown, hOnce⟩ := Tracked.reorder (p := p) (fun r _ => h.points r)
    (fun r hMe hMem _ => h.known r hMe hMem) h.once hp
  exact ⟨hPoints, hKnown, hOnce⟩

/-- The queue without one entry of `p`. -/
theorem closeGap (h : g.Tracked) (hPos : (g.peer p).pos ≠ 0) :
    (∀ r, r ≠ p → PointsAt (g.closeGap (g.getPos p)).peer (g.closeGap (g.getPos p)).live r) ∧
    (∀ r, r ≠ .me → r ∈ (g.closeGap (g.getPos p)).live → r ≠ p →
      ((g.closeGap (g.getPos p)).peer r).pos ≠ 0) ∧
    (∀ r, r ≠ .me → (g.closeGap (g.getPos p)).live.count r ≤ 1) ∧
    (p = .me ∨ p ∉ (g.closeGap (g.getPos p)).live) ∧
    (∀ r, r ≠ p → (r ∈ (g.closeGap (g.getPos p)).live ↔ r ∈ g.live)) := by
  have hAt := h.getPos_eq hPos
  generalize g.getPos p = j at hAt ⊢
  obtain ⟨hLt, hGet⟩ := List.getElem?_eq_some_iff.mp hAt
  obtain ⟨front, back, hSplit, hLength⟩ : ∃ front back, g.live = front ++ p :: back ∧
      front.length = j := by
    refine ⟨g.live.take j, g.live.drop (j + 1), ?_, by simp; omega⟩
    rw [← hGet, ← List.drop_eq_getElem_cons hLt, List.take_append_drop]
  subst hLength
  have hDrop : g.live.drop (front.length + 1) = back := by
    rw [hSplit, ← List.drop_drop]
    simp
  have hLive : (g.closeGap front.length).live = front ++ back := by
    simp only [FtGroup.closeGap, hSplit]
    rw [List.eraseIdx_append_of_length_le (Nat.le_refl _), Nat.sub_self, List.eraseIdx_cons_zero]
  have hPeer : (g.closeGap front.length).peer = renumber back front.length g.peer := by
    simp only [FtGroup.closeGap, hDrop]
  have hCount : ∀ r, g.live.count r = (front ++ back).count r + [p].count r := by
    intro r
    rw [hSplit, List.perm_middle.count_eq, List.count_cons, List.count_singleton]
  rw [hLive, hPeer]
  refine ⟨?_, ?_, ?_, ?_, ?_⟩
  · intro r hr
    have hOld := h.points r
    rw [hSplit] at hOld
    exact renumber_pointsAt hOld (fun hMem => (List.mem_cons.mp hMem).resolve_left hr)
  · intro r hMe hMem hr
    by_cases hBack : r ∈ back
    · exact (renumber_pointsAt_of_mem hBack).2
    · rw [renumber_of_notMem hBack]
      refine h.known r hMe ?_
      rw [hSplit]
      exact List.mem_append_left _ ((List.mem_append.mp hMem).resolve_right hBack)
  · intro r hMe
    have hOld := h.once r hMe
    rw [hCount] at hOld
    omega
  · by_cases hMe : p = .me
    · exact Or.inl hMe
    · right
      intro hMem
      have hOld := h.once p hMe
      have hMore : 0 < (front ++ back).count p := List.count_pos_iff.mpr hMem
      rw [hCount, List.count_singleton_self] at hOld
      omega
  · intro r hr
    rw [hSplit]
    simp [hr]

theorem update (h : g.Tracked) (p : PeerRef) : (g.update p).Tracked := by
  unfold FtGroup.update
  split
  · rename_i hAbsent
    rw [h.absent_iff] at hAbsent
    refine h.insert ?_
    by_cases hp : p = .me
    · exact Or.inl hp
    · exact Or.inr (h.notMem hp hAbsent)
  · rename_i hPresent
    rw [h.absent_iff] at hPresent
    split
    · exact h
    · obtain ⟨hPoints, hKnown, hOnce, hGone, -⟩ := h.closeGap hPresent
      obtain ⟨hPoints', hKnown', hOnce'⟩ := Tracked.reorder hPoints hKnown hOnce hGone
      exact ⟨hPoints', hKnown', hOnce'⟩

theorem remove (h : g.Tracked) (p : PeerRef) : (g.remove p).Tracked := by
  unfold FtGroup.remove
  split
  · exact h
  · rename_i hPresent
    rw [h.absent_iff] at hPresent
    obtain ⟨hPoints, hKnown, hOnce, hGone, -⟩ := h.closeGap hPresent
    refine ⟨?_, ?_, hOnce⟩
    · intro r
      by_cases hr : r = p
      · left
        simp [FtGroup.modify, hr]
      · have hPoint := hPoints r hr
        simp only [PointsAt, FtGroup.modify, Function.update_of_ne hr] at hPoint ⊢
        exact hPoint
    · intro r hMe hMem
      have hr : r ≠ p := by
        rintro rfl
        exact (hGone.resolve_left hMe) hMem
      simp only [FtGroup.modify, Function.update_of_ne hr]
      exact hKnown r hMe hMem hr

theorem mem_update (h : g.Tracked) {r : PeerRef} :
    r ∈ (g.update p).live ↔ r = p ∨ r ∈ g.live := by
  unfold FtGroup.update
  split
  · exact mem_reorder
  · rename_i hPresent
    rw [h.absent_iff] at hPresent
    have hMem := List.mem_of_getElem? (h.getPos_eq hPresent)
    split
    · exact ⟨Or.inr, fun hr => hr.elim (fun hEq => hEq ▸ hMem) id⟩
    · obtain ⟨-, -, -, -, hSame⟩ := h.closeGap hPresent
      refine mem_reorder.trans ?_
      by_cases hr : r = p
      · simp [hr]
      · rw [hSame r hr]

theorem mem_remove_of_ne (h : g.Tracked) {r : PeerRef} (hr : r ≠ p) :
    r ∈ (g.remove p).live ↔ r ∈ g.live := by
  unfold FtGroup.remove
  split
  · exact Iff.rfl
  · rename_i hPresent
    rw [h.absent_iff] at hPresent
    obtain ⟨-, -, -, -, hSame⟩ := h.closeGap hPresent
    exact hSame r hr

theorem notMem_remove (h : g.Tracked) (hp : p ≠ .me) : p ∉ (g.remove p).live := by
  unfold FtGroup.remove
  split
  · rename_i hAbsent
    rw [h.absent_iff] at hAbsent
    exact h.notMem hp hAbsent
  · rename_i hPresent
    rw [h.absent_iff] at hPresent
    obtain ⟨-, -, -, hGone, -⟩ := h.closeGap hPresent
    exact hGone.resolve_left hp

/-- Changes that leave the queue and the positions alone. -/
theorem congr {h : FtGroup} (hTracked : g.Tracked) (hLive : h.live = g.live)
    (hPos : ∀ r, (h.peer r).pos = (g.peer r).pos ∨
      ((h.peer r).pos = 0 ∧ (r = .me ∨ r ∉ g.live))) : h.Tracked := by
  refine ⟨?_, ?_, ?_⟩
  · intro r
    rw [hLive]
    rcases hPos r with hSame | ⟨hZero, -⟩
    · rw [PointsAt, hSame]
      exact hTracked.points r
    · exact Or.inl hZero
  · intro r hMe hMem
    rw [hLive] at hMem
    rcases hPos r with hSame | ⟨-, hMeOr | hNot⟩
    · rw [hSame]
      exact hTracked.known r hMe hMem
    · exact absurd hMeOr hMe
    · exact absurd hMem hNot
  · rw [hLive]
    exact hTracked.once

end Tracked

/-- The queue, the index and the slots agree on the peers, whatever became of
`me` and of the counters. -/
structure Housed (g : FtGroup) : Prop where
  tracked : g.Tracked
  booked : g.Booked False
  matched : ∀ r, r ∈ g.indexed ↔ r ∈ g.live ∧ r ≠ .me

namespace Housed

variable {g : FtGroup}

/-- Changes of `me` and of the counters. -/
theorem alterMe {h : FtGroup} (hHoused : g.Housed) (hLive : h.live = g.live)
    (hTable : h.peerHt = g.peerHt) (hFree : h.ftFree = g.ftFree)
    (hPeer : ∀ r, r ≠ .me → h.peer r = g.peer r)
    (hPos : (h.peer .me).pos = (g.peer .me).pos ∨ (h.peer .me).pos = 0) : h.Housed := by
  have hBooked := hHoused.booked
  refine ⟨hHoused.tracked.congr hLive ?_, ⟨?_, ?_, ?_, ?_, ?_, ?_, False.elim⟩, ?_⟩
  · intro r
    by_cases hr : r = .me
    · subst hr
      exact hPos.imp id (fun hZero => ⟨hZero, Or.inl rfl⟩)
    · exact Or.inl (by rw [hPeer r hr])
  · rw [hTable]
    exact hBooked.names
  · intro s r hMem
    rw [hTable] at hMem
    rw [hPeer r (hBooked.others s r hMem)]
    exact hBooked.start s r hMem
  · rw [hTable]
    exact hBooked.others
  · rw [hFree, indexed, hTable]
    exact hBooked.used
  · rw [hFree]
    exact hBooked.blocks
  · rw [hFree]
    exact hBooked.bounded
  · rw [indexed, hTable, hLive]
    exact hHoused.matched

/-- `me` changes its place in the queue. -/
theorem moved {h : FtGroup} (hHoused : g.Housed) (hTracked : h.Tracked) (hTable : g.SameTable h)
    (hMem : ∀ r, r ≠ .me → (r ∈ h.live ↔ r ∈ g.live)) : h.Housed := by
  refine ⟨hTracked, hHoused.booked.sameTable hTable, ?_⟩
  intro r
  rw [indexed, hTable.peerHt]
  refine (hHoused.matched r).trans ?_
  by_cases hr : r = .me
  · simp [hr]
  · rw [hMem r hr]

theorem insertMe (h : g.Housed) : (g.insert .me).Housed := by
  refine h.moved (h.tracked.insert (Or.inl rfl)) (insert_sameTable g .me) ?_
  intro r hr
  refine mem_reorder.trans ?_
  simp [hr]

theorem updateMe (h : g.Housed) : (g.update .me).Housed := by
  refine h.moved (h.tracked.update .me) (update_sameTable g .me) ?_
  intro r hr
  rw [h.tracked.mem_update]
  simp [hr]

theorem removeMe (h : g.Housed) : (g.remove .me).Housed :=
  h.moved (h.tracked.remove .me) (remove_sameTable g .me)
    (fun _ hr => h.tracked.mem_remove_of_ne hr)

theorem updateState (h : g.Housed) (state : FtState) : (g.updateState .me state).Housed :=
  h.alterMe rfl rfl rfl (fun _ hr => updateState_peer state hr)
    (Or.inl (by simp [updateState_me]))

theorem restate (h : g.Housed) (state : FtState) : (g.restate state).Housed := by
  unfold FtGroup.restate
  split
  · split
    · exact (h.updateState state).updateMe
    · exact h.updateState state
  · exact h

theorem renewed (h : g.Housed) {me : FtPeer} (hPos : me.pos = 0) : (RvFt.renewed g me).Housed :=
  h.alterMe rfl rfl rfl (fun _ hr => RvFt.renewed_peer g me hr)
    (Or.inr (by rw [RvFt.renewed_me]; exact hPos))

/-- The sender of a message is recorded and takes its place. -/
theorem admitted {h : FtGroup} {m : FtPeerMsg} {p : PeerRef} (hHoused : g.Housed)
    (hRec : g.Recorded False m p h) : (h.update p).Housed ∧ h.Tracked ∧ h.MatchedBut p := by
  have hp := hRec.ne_me
  have hTracked : h.Tracked := by
    refine hHoused.tracked.congr hRec.live ?_
    intro r
    by_cases hr : r = p
    · subst hr
      rcases hRec.pos with hSame | ⟨hNew, hZero⟩
      · exact Or.inl hSame
      · exact Or.inr ⟨hZero, Or.inr (fun hMem => hNew ((hHoused.matched r).mpr ⟨hMem, hp⟩))⟩
    · exact Or.inl (by rw [hRec.peer r hr])
  have hMatched : h.MatchedBut p := by
    intro r hr
    rw [hRec.indexed, hRec.live, hHoused.matched]
    tauto
  have hTable := update_sameTable h p
  refine ⟨⟨hTracked.update p, hRec.booked.sameTable hTable, ?_⟩, hTracked, hMatched⟩
  intro r
  rw [indexed, hTable.peerHt, hTracked.mem_update]
  change r ∈ h.indexed ↔ _
  by_cases hr : r = p
  · subst hr
    exact iff_of_true (mem_indexed.mpr ⟨_, hRec.entry⟩) ⟨Or.inl rfl, hp⟩
  · rw [hMatched r hr]
    tauto

end Housed

/-- A peer that is dropped leaves the queue, the index and its slot. -/
theorem dropPeer_housed {g : FtGroup} (hTracked : g.Tracked) (hBooked : g.Booked False) {s : Nat}
    {p : PeerRef} (hMem : (s, p) ∈ g.peerHt) (hMatched : g.MatchedBut p) {state : FtState}
    (hState : state.counted = false) : (g.dropPeer p state).Housed := by
  have hp : p ≠ .me := hBooked.others s p hMem
  have hStated : (g.updateState p state).Booked False :=
    hBooked.updateState (mem_members hMem) state
  have hSet : ((g.updateState p state).peer p).state = state ∧
      ((g.updateState p state).peer p).pos = (g.peer p).pos ∧
      ((g.updateState p state).peer p).startNs = (g.peer p).startNs := by
    simp [FtGroup.updateState, modify]
  have hPlaced : (g.updateState p state).Tracked := by
    refine hTracked.congr rfl (fun r => Or.inl ?_)
    by_cases hr : r = p
    · rw [hr]
      exact hSet.2.1
    · rw [show (g.updateState p state).peer r = g.peer r from Function.update_of_ne hr _ _]
  have hTable := remove_sameTable (g.updateState p state) p
  have hKey : (((g.updateState p state).remove p).peer p).startNs = s := by
    rw [(hTable.peer p).startNs, hSet.2.2]
    exact hBooked.start s p hMem
  have hUncounted : (((g.updateState p state).remove p).peer p).state.counted = false := by
    rw [(hTable.peer p).state, hSet.1]
    exact hState
  have hIn : (s, p) ∈ ((g.updateState p state).remove p).peerHt := by
    rw [hTable.peerHt]
    exact hMem
  obtain ⟨hDropped, hIndexed⟩ := (hStated.sameTable hTable).forget
    (h := g.dropPeer p state) hIn hUncounted rfl (by simp only [dropPeer, hKey]) rfl rfl
  have hRemoved := hPlaced.remove p
  refine ⟨⟨hRemoved.points, hRemoved.known, hRemoved.once⟩, hDropped, ?_⟩
  intro r
  rw [hIndexed, indexed, hTable.peerHt]
  change r ≠ p ∧ r ∈ g.indexed ↔ r ∈ ((g.updateState p state).remove p).live ∧ r ≠ .me
  by_cases hr : r = p
  · subst hr
    have hGone := hPlaced.notMem_remove hp
    simp [hGone]
  · rw [hMatched r hr, hPlaced.mem_remove_of_ne hr]
    change _ ↔ r ∈ g.live ∧ _
    simp [hr]

theorem Housed.dropPeer {g : FtGroup} (h : g.Housed) {s : Nat} {p : PeerRef}
    (hFind : g.find s = some p) {state : FtState} (hState : state.counted = false) :
    (g.dropPeer p state).Housed :=
  dropPeer_housed h.tracked h.booked (h.booked.find_eq_some.mp hFind) (fun r _ => h.matched r) hState

end FtGroup

namespace RvFt
open FtGroup

/-- The books of the peers are kept. -/
def Keeps (step : RvFt → Option RvFt) : Prop :=
  ∀ f g, f.group.Housed → step f = some g → g.group.Housed

theorem Quiet.housed {f g : RvFt} (h : f.Quiet g) (hHoused : f.group.Housed) : g.group.Housed := by
  rw [h.group]
  exact hHoused

theorem Keeps.bind {step : RvFt → Option RvFt} (hStep : Keeps step) {rest : RvFt → RvFt}
    (hRest : ∀ f, f.group.Housed → (rest f).group.Housed) :
    Keeps (fun f => (step f).bind (fun f => some (rest f))) := by
  intro f g hHoused hCall
  obtain ⟨e, hFirst, hEq⟩ := Option.bind_eq_some_iff.mp hCall
  cases hEq
  exact hRest e (hStep f e hHoused hFirst)

theorem enterState_housed {f : RvFt} (h : f.group.Housed) (state : FtState) :
    (f.enterState state).group.Housed := by
  rw [(enterState_frame f state).2]
  exact h.restate state

theorem prepareTakeover_keeps {setState : FtState → RvFt → Option RvFt}
    (hSet : ∀ state, Keeps (setState state)) (action : FtAction) (deadline : Nat) :
    Keeps (prepareTakeover setState action deadline) := by
  intro f g h hCall
  simp only [prepareTakeover, Option.bind_eq_bind, Option.pure_def, Option.bind_eq_some_iff] at hCall
  obtain ⟨p, -, hCall⟩ := hCall
  have hNotify : ∀ e : RvFt, e.group.Housed → e.notifyUpdate.group.Housed :=
    fun e he => (Quiet.notifyUpdate e).housed he
  split at hCall
  · split at hCall
    · split at hCall
      · exact (hSet .primary).bind hNotify f g h hCall
      · exact (hSet .secondary).bind hNotify f g h hCall
    · cases hCall
      exact (Quiet.armTakeover f p action _).housed h
  · split at hCall
    · cases hCall
      exact h
    · split at hCall
      · have hCancel : f.Quiet ((f.cancelTimer .prepare).cancelTimer .activate) :=
          (Quiet.cancelTimer f (by simp)).trans (.cancelTimer _ (by simp))
        cases hCall
        split
        · exact (hCancel.trans (.notifyChange _ .prepare)).housed h
        · exact hCancel.housed h
      · cases hCall
        exact (Quiet.armTakeover f p action _).housed h

theorem finish_housed {f : RvFt} (h : f.group.Housed) : f.finish.group.Housed := by
  rw [(finish_base f).2]
  exact h

theorem setStateWithin_keeps (depth : Nat) (state : FtState) : Keeps (setStateWithin depth state) := by
  induction depth generalizing state with
  | zero => exact fun f g _ hCall => (nomatch hCall)
  | succ depth ih =>
      intro f g h hCall
      simp only [setStateWithin] at hCall
      have hEnter := enterState_housed h state
      generalize f.enterState state = e at hEnter hCall
      cases state with
      | listen =>
          cases hCall
          exact hEnter
      | join =>
          have hTakeover := prepareTakeover_keeps ih .join 0
          exact hTakeover.bind (fun e he => (Quiet.notifyChange e .join).housed he) _ g
            hEnter.insertMe hCall
      | primary =>
          cases hCall
          exact hEnter
      | secondary =>
          refine prepareTakeover_keeps ih .deactivate 0 _ g ?_ hCall
          split
          · exact hEnter
          · exact hEnter
      | finish =>
          cases hCall
          exact finish_housed hEnter

theorem setState_keeps (state : FtState) : Keeps (setState state) := setStateWithin_keeps 3 state

theorem start_keeps (param : FtParameters) : Keeps (fun f => f.start param) := by
  intro f g h hCall
  beta_reduce at hCall
  rw [start_eq] at hCall
  have hPrepared : (f.prepared param).group.Housed := h.renewed rfl
  refine (setState_keeps .listen).bind (fun e he => (Quiet.notifyChange e .listen).housed he) _ g
    ?_ hCall
  rw [startHb_group]
  split
  · exact hPrepared
  · exact hPrepared

theorem stop_keeps : Keeps stop := by
  intro f g h hCall
  unfold stop at hCall
  split at hCall
  · exact setState_keeps .finish f g h hCall
  · split at hCall
    · cases hCall
      exact h
    · cases hCall
      exact h

theorem activate_keeps : Keeps activate := by
  intro f g h hCall
  unfold activate at hCall
  split at hCall
  · refine setState_keeps .join _ g ?_ hCall
    rw [cancelTimer_group]
    exact h
  · cases hCall
    exact h

theorem deactivate_keeps : Keeps deactivate := by
  intro f g h hCall
  simp only [deactivate, Option.bind_eq_bind, Option.pure_def] at hCall
  split at hCall
  · refine (setState_keeps .listen).bind (fun e he => (Quiet.notifyChange e .listen).housed he) _ g
      ?_ hCall
    exact (Quiet.stopTimers _).housed h.removeMe
  · cases hCall
    exact h

theorem length_dropPeer (g : FtGroup) (p : PeerRef) (state : FtState) :
    g.live.length ≤ (g.dropPeer p state).live.length + 1 := by
  change g.live.length ≤ ((g.updateState p state).remove p).live.length + 1
  unfold FtGroup.remove
  split
  · exact Nat.le_succ _
  · change g.live.length ≤ (g.live.eraseIdx _).length + 1
    rw [List.length_eraseIdx]
    split <;> omega

theorem trimLoop_housed {i : Nat} {f : RvFt} (h : f.group.Housed)
    (hi : i ≤ f.group.live.length) : (trimLoop i f).group.Housed := by
  induction i generalizing f with
  | zero => exact h
  | succ i ih =>
      obtain ⟨p, hp⟩ : ∃ p, f.group.live[i]? = some p := by
        rw [List.getElem?_eq_getElem (by omega)]
        exact ⟨_, rfl⟩
      have hPtr : f.group.ptr i = some p := by
        rw [ptr, List.getElem?_append_left (by omega)]
        exact hp
      simp only [trimLoop, hPtr]
      split
      · rename_i hMissing
        obtain ⟨s, hs⟩ := mem_indexed.mp
          ((h.matched p).mpr ⟨List.mem_of_getElem? hp, hMissing.1⟩)
        have hFind := h.booked.find_eq_some.mpr hs
        refine ih (h.dropPeer hFind rfl) ?_
        have hLength := length_dropPeer f.group p .finish
        change i ≤ (f.group.dropPeer p .finish).live.length
        omega
      · exact ih h (by omega)

theorem trimFtQueue_housed {f : RvFt} (h : f.group.Housed) : f.trimFtQueue.group.Housed :=
  trimLoop_housed h (Nat.le_refl _)

theorem takeoverTimer_keeps (action : FtAction) (ival : Int) :
    Keeps (fun f => f.takeoverTimer action ival) := by
  intro f g h hCall
  simp only [takeoverTimer, Option.bind_eq_bind, Option.pure_def] at hCall
  have hNotify : ∀ e : RvFt, e.group.Housed → e.notifyUpdate.group.Housed :=
    fun e he => (Quiet.notifyUpdate e).housed he
  have hClear : ({ f with timerMask := Function.update f.timerMask action false } :
      RvFt).group.Housed := h
  generalize { f with timerMask := Function.update f.timerMask action false } = e at hClear hCall
  split at hCall
  · exact (prepareTakeover_keeps setState_keeps action 0).bind hNotify _ g
      (trimFtQueue_housed hClear) hCall
  · cases hCall
    exact hNotify _ hClear

theorem heartbeatTimer_keeps : Keeps heartbeatTimer := by
  intro f g h hCall
  simp only [heartbeatTimer, Option.bind_eq_bind, Option.pure_def] at hCall
  have hEnd : ∀ e : RvFt, e.group.Housed →
      ({ e with lastHbNs := e.monoNs }.notifyUpdate).group.Housed :=
    fun e he => (Quiet.notifyUpdate { e with lastHbNs := e.monoNs }).housed he
  have hTrim : (if isAccurate (f.expiredDeltaMs f.lastHbNs f.heartbeatMs) = true then
      f.trimFtQueue else f).group.Housed := by
    split
    · exact trimFtQueue_housed h
    · exact h
  generalize isAccurate (f.expiredDeltaMs f.lastHbNs f.heartbeatMs) = accurate at hTrim hCall
  generalize (if accurate = true then f.trimFtQueue else f) = e at hTrim hCall
  split at hCall
  · cases hCall
    exact hEnd _ hTrim
  · split at hCall
    · rw [Option.bind_map] at hCall
      split at hCall
      · exact (prepareTakeover_keeps setState_keeps .heartbeat 0).bind
          (fun k hk => hEnd (k.sendMsg .keepalive []) hk) e g hTrim hCall
      · cases hCall
        exact hEnd _ hTrim
    · cases hCall
      exact hEnd e hTrim

theorem timerCb_keeps {f g : RvFt} {id : Nat} {action : FtAction} {again : Bool}
    (h : f.group.Housed) (hCall : f.timerCb id action = some (g, again)) : g.group.Housed := by
  simp only [timerCb, Option.bind_eq_bind, Option.pure_def] at hCall
  split at hCall
  · cases hCall
    exact h
  · cases action with
    | activate =>
        obtain ⟨e, hTimer, hEq⟩ := Option.bind_eq_some_iff.mp hCall
        cases hEq
        exact takeoverTimer_keeps .activate _ f g h hTimer
    | prepare =>
        obtain ⟨e, hTimer, hEq⟩ := Option.bind_eq_some_iff.mp hCall
        cases hEq
        exact takeoverTimer_keeps .prepare _ f g h hTimer
    | heartbeat =>
        obtain ⟨e, hTimer, hEq⟩ := Option.bind_eq_some_iff.mp hCall
        cases hEq
        exact heartbeatTimer_keeps f g h hTimer
    | join =>
        obtain ⟨e, hSet, hEq⟩ := Option.bind_eq_some_iff.mp hCall
        cases hEq
        have hClear : ({ f with timerMask := Function.update f.timerMask .join false } :
            RvFt).group.Housed := h
        exact setState_keeps .join _ g hClear hSet
    | finish =>
        obtain ⟨e, hSet, hEq⟩ := Option.bind_eq_some_iff.mp hCall
        cases hEq
        have hClear : ({ f with timerMask := Function.update f.timerMask .finish false } :
            RvFt).group.Housed := h
        exact setState_keeps .finish _ g hClear hSet
    | listen => cases hCall; exact h
    | deactivate => cases hCall; exact h
    | update => cases hCall; exact h

theorem fire_keeps (id : Nat) (action : FtAction) : Keeps (fun f => f.fire id action) := by
  intro f g h hCall
  simp only [fire, Option.bind_eq_bind, Option.pure_def] at hCall
  split at hCall
  · obtain ⟨⟨e, again⟩, hTimer, hEq⟩ := Option.bind_eq_some_iff.mp hCall
    have hCb := timerCb_keeps (f := { f with timers := f.timers.erase (id, action) }) h hTimer
    cases hEq
    split
    · exact hCb
    · exact hCb
  · cases hCall

theorem checkRank_keeps : Keeps checkRank := by
  intro f g h hCall
  simp only [checkRank, Option.pure_def] at hCall
  split at hCall
  · split at hCall
    · exact setState_keeps .secondary f g h hCall
    · exact setState_keeps .primary f g h hCall
  · split at hCall
    · split at hCall
      · exact setState_keeps .secondary f g h hCall
      · cases hCall
        exact h
    · cases hCall
      exact h

theorem onPeerMsg_keeps (m : FtPeerMsg) : Keeps (fun f => f.onPeerMsg m) := by
  intro f g h hCall
  simp only [onPeerMsg, Option.bind_eq_bind, Option.pure_def] at hCall
  have hNotify : ∀ e : RvFt, e.group.Housed → e.notifyUpdate.group.Housed :=
    fun e he => (Quiet.notifyUpdate e).housed he
  have hEnd : ∀ e : RvFt, e.group.Housed → (e.notifyUpdate.ackAnnounce m).group.Housed :=
    fun e he => (Quiet.ackAnnounce _ m).housed (hNotify e he)
  have hFollow : ({ f with lastRcvNs := f.monoNs }.followOldest m).group.Housed := by
    rw [followOldest_group]
    exact h
  generalize { f with lastRcvNs := f.monoNs }.followOldest m = e at hFollow hCall
  split at hCall
  · cases hCall
    refine hEnd _ ?_
    split
    · rename_i p hFind
      exact hFollow.dropPeer hFind rfl
    · exact hFollow
  · obtain ⟨recorded, hRecord, hRest⟩ := Option.bind_eq_some_iff.mp hCall
    rcases recordPeer_spec hFollow.booked m with ⟨-, hNone⟩ | ⟨-, group, p, hSome, hRec⟩
    · rw [hNone] at hRecord
      cases hRecord
      cases hRest
      exact hFollow
    · rw [hSome] at hRecord
      cases hRecord
      obtain ⟨hAdmitted, hTracked, hMatched⟩ := hFollow.admitted hRec
      simp only at hRest
      split at hRest
      · have hUpdate : ((e.withGroup group).withGroup
            ((e.withGroup group).group.update p)).group.Housed := hAdmitted
        generalize (e.withGroup group).withGroup ((e.withGroup group).group.update p) = k
          at hUpdate hRest
        split at hRest
        · cases hRest
          exact hNotify k hUpdate
        · split at hRest
          · split at hRest
            · exact (prepareTakeover_keeps setState_keeps .finish m.finTime).bind hNotify k g
                hUpdate hRest
            · cases hRest
              exact hNotify k hUpdate
          · exact checkRank_keeps.bind hEnd k g hUpdate hRest
      · exact checkRank_keeps.bind hEnd _ g
          (dropPeer_housed hTracked hRec.booked hRec.entry hMatched rfl) hRest

theorem processPub_keeps {f g : RvFt} {pub : EvPublish} {handled : Bool} (h : f.group.Housed)
    (hCall : f.processPub pub = some (g, handled)) : g.group.Housed := by
  simp only [processPub, Option.bind_eq_bind, Option.pure_def] at hCall
  split at hCall
  · split at hCall
    · cases hCall
      exact h
    · cases hCall
      exact h
  · split at hCall
    · cases hCall
      exact h
    · rename_i m _
      split at hCall
      · cases hCall
        exact h
      · obtain ⟨e, hMsg, hEq⟩ := Option.bind_eq_some_iff.mp hCall
        cases hEq
        exact onPeerMsg_keeps m f g h hMsg

/-- Every call keeps the books of the peers. -/
theorem dispatch_keeps (call : FtCall) : Keeps (fun f => f.dispatch call) := by
  intro f g h hCall
  cases call with
  | start param => exact start_keeps param f g h hCall
  | stop => exact stop_keeps f g h hCall
  | activate => exact activate_keeps f g h hCall
  | deactivate => exact deactivate_keeps f g h hCall
  | timer id action => exact fire_keeps id action f g h hCall
  | publish pub =>
      simp only [dispatch, Option.bind_eq_bind, Option.pure_def] at hCall
      obtain ⟨⟨e, handled⟩, hPub, hEq⟩ := Option.bind_eq_some_iff.mp hCall
      cases hEq
      exact processPub_keeps h hPub

end RvFt

/-- In every run the books of the peers are kept. -/
theorem ftSystem_housed {f : RvFt} (h : ftSystem.Reachable f) : f.group.Housed := by
  refine @Transition.System.Reachable.invariant _ _ _ ftSystem (fun f => f.group.Housed) ?_ ?_ f h
  · intro f hInit
    obtain ⟨client, nowNs, monoNs, param, hStart⟩ := hInit
    refine RvFt.start_keeps param _ f ?_ hStart
    refine ⟨⟨fun _ => Or.inl rfl, ?_, ?_⟩, ⟨List.nodup_nil, ?_, ?_, ?_, List.nodup_nil, ?_,
      False.elim⟩, ?_⟩
    · simp
    · simp
    · simp
    · simp
    · simp [Used, FtGroup.indexed]
    · simp
    · simp [FtGroup.indexed]
  · intro f input emitted g hHoused hStep
    obtain ⟨-, hDispatch, -⟩ := step_dispatch hStep
    have hBefore : (f.atTime input.nowNs input.monoNs).group.Housed := hHoused
    exact RvFt.dispatch_keeps input.call _ g hBefore hDispatch

end Sassrv.Ft
