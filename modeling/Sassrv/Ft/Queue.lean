import Mathlib.Data.List.Nodup
import Sassrv.Ft.Group

/-! The queue keeps its positions and its order. The sort keys of a peer are
changed in place before the queue is repaired, so the order is stated without
that peer. -/
namespace Sassrv.Ft
open Ranking

/-- What `is_greater` compares first. -/
def FtPeer.level (p : FtPeer) : Nat := if p.state.code > FtState.join.code then 1 else 0

theorem isGreaterWeight_iff {p q : FtPeer} : p.isGreaterWeight q = true ↔
    q.weight < p.weight ∨ (p.weight = q.weight ∧ p.startNs < q.startNs) := by
  unfold FtPeer.isGreaterWeight
  split
  · simp_all
  · split
    · simp_all
    · simp_all

theorem isGreater_iff {p q : FtPeer} : p.isGreater q = true ↔
    q.level < p.level ∨ (p.level = q.level ∧ p.isGreaterWeight q = true) := by
  unfold FtPeer.isGreater FtPeer.level
  simp only [gt_iff_lt]
  split_ifs <;> simp_all

theorem isGreater_trans {p q r : FtPeer} (hpq : p.isGreater q = true)
    (hqr : q.isGreater r = true) : p.isGreater r = true := by
  rw [isGreater_iff, isGreaterWeight_iff] at *
  omega

theorem isGreater_asymm {p q : FtPeer} (hpq : p.isGreater q = true) : q.isGreater p = false := by
  rw [← Bool.not_eq_true]
  rw [isGreater_iff, isGreaterWeight_iff] at *
  omega

/-- Peers with different start times are comparable. -/
theorem isGreater_total {p q : FtPeer} (hne : p.startNs ≠ q.startNs)
    (h : p.isGreater q = false) : q.isGreater p = true := by
  rw [← Bool.not_eq_true] at h
  rw [isGreater_iff, isGreaterWeight_iff] at *
  omega

/-- Peers that differ in their position only. -/
def FtPeer.Same (p q : FtPeer) : Prop := ∃ k, q = { p with pos := k }

namespace FtPeer.Same

theorem refl (p : FtPeer) : p.Same p := ⟨p.pos, rfl⟩

theorem trans {p q r : FtPeer} (hpq : p.Same q) (hqr : q.Same r) : p.Same r := by
  obtain ⟨k, rfl⟩ := hpq
  obtain ⟨l, rfl⟩ := hqr
  exact ⟨l, rfl⟩

theorem state {p q : FtPeer} (h : p.Same q) : q.state = p.state := by
  obtain ⟨k, rfl⟩ := h
  rfl

theorem weight {p q : FtPeer} (h : p.Same q) : q.weight = p.weight := by
  obtain ⟨k, rfl⟩ := h
  rfl

theorem startNs {p q : FtPeer} (h : p.Same q) : q.startNs = p.startNs := by
  obtain ⟨k, rfl⟩ := h
  rfl

end FtPeer.Same

/-- Peers with the same rank. -/
structure FtPeer.SameRank (p q : FtPeer) : Prop where
  level : q.level = p.level
  weight : q.weight = p.weight
  startNs : q.startNs = p.startNs

theorem FtPeer.Same.rank {p q : FtPeer} (h : p.Same q) : p.SameRank q :=
  ⟨by rw [level, level, h.state], h.weight, h.startNs⟩

theorem FtPeer.SameRank.isGreater {p q p' q' : FtPeer} (hp : p.SameRank p') (hq : q.SameRank q')
    (h : p.isGreater q = true) : p'.isGreater q' = true := by
  rw [isGreater_iff, isGreaterWeight_iff] at *
  rw [hp.level, hp.weight, hp.startNs, hq.level, hq.weight, hq.startNs]
  exact h

namespace FtGroup

theorem renumber_of_notMem {l : List PeerRef} {r : PeerRef} (h : r ∉ l) (j : Nat)
    (peer : PeerRef → FtPeer) : renumber l j peer r = peer r := by
  induction l generalizing j peer with
  | nil => rfl
  | cons x rest ih =>
      rw [List.mem_cons, not_or] at h
      rw [renumber, ih h.2, Function.update_of_ne h.1]

theorem renumber_same (l : List PeerRef) (j : Nat) (peer : PeerRef → FtPeer) (r : PeerRef) :
    (peer r).Same (renumber l j peer r) := by
  induction l generalizing j peer with
  | nil => exact FtPeer.Same.refl _
  | cons x rest ih =>
      refine FtPeer.Same.trans ?_ (ih (j + 1) _)
      by_cases hEq : r = x
      · subst hEq
        rw [Function.update_self]
        exact ⟨_, rfl⟩
      · rw [Function.update_of_ne hEq]
        exact FtPeer.Same.refl _

theorem renumber_pos {l : List PeerRef} (hNodup : l.Nodup) {i : Nat} {r : PeerRef}
    (h : l[i]? = some r) (j : Nat) (peer : PeerRef → FtPeer) :
    (renumber l j peer r).pos = j + i + 1 := by
  induction l generalizing i j peer with
  | nil => simp at h
  | cons x rest ih =>
      obtain ⟨hx, hRest⟩ := List.nodup_cons.mp hNodup
      cases i with
      | zero =>
          obtain rfl : x = r := by simpa using h
          rw [renumber, renumber_of_notMem hx, Function.update_self]
      | succ i =>
          rw [renumber, ih hRest (by simpa using h)]
          omega

/-- The queue's entries are distinct and know their positions, and a peer
outside the queue has position zero. -/
structure Placed (g : FtGroup) : Prop where
  nodup : g.live.Nodup
  pos : ∀ i r, g.live[i]? = some r → (g.peer r).pos = i + 1
  off : ∀ r, r ∉ g.live → (g.peer r).pos = 0

/-- The queue descends by `is_greater`. -/
def Descending (g : FtGroup) (l : List PeerRef) : Prop :=
  l.Pairwise (fun x y => (g.peer x).isGreater (g.peer y) = true)

theorem Descending.congr {g h : FtGroup} {l : List PeerRef} (hOrder : g.Descending l)
    (hRank : ∀ r ∈ l, (g.peer r).SameRank (h.peer r)) : h.Descending l := by
  refine List.Pairwise.imp_of_mem ?_ hOrder
  intro x y hx hy hxy
  exact (hRank x hx).isGreater (hRank y hy) hxy

/-- What a queue operation leaves alone. -/
structure SameTable (g h : FtGroup) : Prop where
  peer : ∀ r, (g.peer r).Same (h.peer r)
  peerHt : h.peerHt = g.peerHt
  ftFree : h.ftFree = g.ftFree
  stateCount : h.stateCount = g.stateCount

namespace SameTable

theorem refl (g : FtGroup) : g.SameTable g := ⟨fun _ => FtPeer.Same.refl _, rfl, rfl, rfl⟩

theorem trans {g h k : FtGroup} (left : g.SameTable h) (right : h.SameTable k) :
    g.SameTable k :=
  ⟨fun r => (left.peer r).trans (right.peer r), right.peerHt.trans left.peerHt,
    right.ftFree.trans left.ftFree, right.stateCount.trans left.stateCount⟩

theorem descending {g h : FtGroup} (same : g.SameTable h) {l : List PeerRef}
    (hOrder : g.Descending l) : h.Descending l :=
  hOrder.congr (fun r _ => (same.peer r).rank)

end SameTable

/-- The position of a queued peer splits the queue. -/
theorem Placed.split {g : FtGroup} (h : g.Placed) {p : PeerRef} (hp : p ∈ g.live) :
    ∃ front back, g.live = front ++ p :: back ∧ (g.peer p).pos = front.length + 1 ∧
      g.getPos p = front.length := by
  obtain ⟨front, back, hLive⟩ := List.append_of_mem hp
  have hAt : g.live[front.length]? = some p := by simp [hLive]
  have hPos := h.pos _ _ hAt
  refine ⟨front, back, hLive, hPos, ?_⟩
  have hPtr : g.ptr front.length = some p := by
    rw [ptr, List.getElem?_append_left (by simp [hLive]), hAt]
  simp [getPos, hPos, hPtr]

theorem Placed.pos_eq_zero_iff {g : FtGroup} (h : g.Placed) {p : PeerRef} :
    (g.peer p).pos = 0 ↔ p ∉ g.live := by
  refine ⟨?_, h.off p⟩
  intro hZero hp
  obtain ⟨front, back, -, hPos, -⟩ := h.split hp
  omega

/-- The guard in front of `remove` and `update`. -/
theorem Placed.absent_iff {g : FtGroup} (h : g.Placed) {p : PeerRef} :
    ((g.peer p).pos = 0 ∨ g.getPos p = g.live.length) ↔ p ∉ g.live := by
  rw [h.pos_eq_zero_iff]
  refine ⟨?_, Or.inl⟩
  rintro (hOff | hEnd) hp
  · exact hOff hp
  · obtain ⟨front, back, hLive, -, hPos⟩ := h.split hp
    rw [hPos, hLive] at hEnd
    simp at hEnd

/-- Positions after part of the queue has been numbered anew. -/
theorem placed_of_renumber {g h : FtGroup} {front back : List PeerRef}
    (hLive : h.live = front ++ back) (hNodup : (front ++ back).Nodup)
    (hPeer : h.peer = renumber back front.length g.peer)
    (hFront : ∀ i r, front[i]? = some r → (g.peer r).pos = i + 1)
    (hOff : ∀ r, r ∉ front ++ back → (g.peer r).pos = 0) : h.Placed := by
  refine ⟨by rw [hLive]; exact hNodup, ?_, ?_⟩
  · intro i r hAt
    rw [hLive] at hAt
    rw [hPeer]
    rcases Nat.lt_or_ge i front.length with hi | hi
    · rw [List.getElem?_append_left hi] at hAt
      have hr : r ∉ back := by
        intro hBack
        exact (List.nodup_append.mp hNodup).2.2 r (List.mem_of_getElem? hAt) r hBack rfl
      rw [renumber_of_notMem hr]
      exact hFront i r hAt
    · rw [List.getElem?_append_right hi] at hAt
      rw [renumber_pos (List.nodup_append.mp hNodup).2.1 hAt]
      omega
  · intro r hr
    rw [hLive] at hr
    rw [hPeer, renumber_of_notMem (fun hBack => hr (List.mem_append_right _ hBack))]
    exact hOff r hr

section Reorder

variable {g : FtGroup} {others : List PeerRef} {p : PeerRef}

/-- `reorder` puts the last entry somewhere among the others. -/
theorem reorder_live (g : FtGroup) (others : List PeerRef) (p : PeerRef) :
    ∃ front passed, others = front ++ passed ∧ (g.reorder others p).live = front ++ p :: passed ∧
      (g.reorder others p).peer = renumber (p :: passed) front.length g.peer := by
  refine ⟨_, _, ?_, rfl, rfl⟩
  rw [sift_append]
  simp

theorem reorder_sameTable (g : FtGroup) (others : List PeerRef) (p : PeerRef) :
    g.SameTable (g.reorder others p) :=
  ⟨fun _ => renumber_same _ _ _ _, rfl, rfl, rfl⟩

theorem mem_reorder {r : PeerRef} : r ∈ (g.reorder others p).live ↔ r = p ∨ r ∈ others := by
  obtain ⟨front, passed, rfl, hLive, -⟩ := g.reorder_live others p
  rw [hLive]
  simp only [List.mem_append, List.mem_cons]
  tauto

theorem reorder_placed (hNodup : others.Nodup) (hp : p ∉ others)
    (hPos : ∀ i r, others[i]? = some r → (g.peer r).pos = i + 1)
    (hOff : ∀ r, r ≠ p → r ∉ others → (g.peer r).pos = 0) : (g.reorder others p).Placed := by
  obtain ⟨front, passed, rfl, hLive, hPeer⟩ := g.reorder_live others p
  refine placed_of_renumber hLive ?_ hPeer ?_ ?_
  · exact (List.perm_middle.nodup_iff).mpr (List.nodup_cons.mpr ⟨hp, hNodup⟩)
  · intro i r hAt
    have hi : i < front.length := (List.getElem?_eq_some_iff.mp hAt).1
    exact hPos i r (by rw [List.getElem?_append_left hi]; exact hAt)
  · intro r hr
    simp only [List.mem_append, List.mem_cons, not_or] at hr
    exact hOff r hr.2.1 (by simp [hr.1, hr.2.2])

/-- `reorder` restores the order when the others are in order. -/
theorem reorder_descending (hApart : ∀ x ∈ others, (g.peer x).startNs ≠ (g.peer p).startNs)
    (hOrder : g.Descending others) :
    (g.reorder others p).Descending (g.reorder others p).live := by
  apply (g.reorder_sameTable others p).descending
  exact sift_sorted (fun _ h => h) (fun x hx h => isGreater_total (hApart x hx) h)
    (fun _ _ _ => isGreater_trans) hOrder

end Reorder

/-- The effect of an operation that puts `p` into the queue or moves it. -/
structure Queued (g : FtGroup) (p : PeerRef) (h : FtGroup) : Prop where
  placed : h.Placed
  table : g.SameTable h
  mem : ∀ r, r ∈ h.live ↔ r = p ∨ r ∈ g.live
  order : (∀ x ∈ g.live, x ≠ p → (g.peer x).startNs ≠ (g.peer p).startNs) →
    g.Descending (g.live.erase p) → h.Descending h.live

theorem insert_queued {g : FtGroup} (h : g.Placed) {p : PeerRef} (hp : p ∉ g.live) :
    g.Queued p (g.insert p) := by
  have hPlaced : (g.reorder g.live p).Placed :=
    reorder_placed h.nodup hp h.pos (fun r _ hr => h.off r hr)
  have hTable := g.reorder_sameTable g.live p
  refine ⟨⟨hPlaced.nodup, hPlaced.pos, hPlaced.off⟩,
    ⟨hTable.peer, hTable.peerHt, hTable.ftFree, hTable.stateCount⟩, fun r => mem_reorder, ?_⟩
  intro hApart hOrder
  rw [List.erase_of_not_mem hp] at hOrder
  exact reorder_descending (fun x hx => hApart x hx (fun hEq => hp (hEq ▸ hx))) hOrder

/-- Closing the gap of `p` numbers the queue without it. -/
theorem closeGap_spec {g : FtGroup} (h : g.Placed) {front back : List PeerRef} {p : PeerRef}
    (hLive : g.live = front ++ p :: back) :
    (g.closeGap front.length).live = front ++ back ∧ p ∉ front ++ back ∧
    (front ++ back).Nodup ∧ g.SameTable (g.closeGap front.length) ∧
    (∀ i r, (front ++ back)[i]? = some r → ((g.closeGap front.length).peer r).pos = i + 1) ∧
    (∀ r, r ≠ p → r ∉ front ++ back → ((g.closeGap front.length).peer r).pos = 0) := by
  have hNodup := h.nodup
  rw [hLive] at hNodup
  obtain ⟨hp, hOthers⟩ := List.nodup_cons.mp (List.perm_middle.nodup_iff.mp hNodup)
  have hBack : g.live.drop (front.length + 1) = back := by
    rw [hLive, ← List.drop_drop]
    simp
  have hPeer : (g.closeGap front.length).peer = renumber back front.length g.peer := by
    simp only [closeGap, hBack]
  refine ⟨?_, hp, hOthers, ⟨fun r => ?_, rfl, rfl, rfl⟩, ?_, ?_⟩
  · simp only [closeGap, hLive]
    rw [List.eraseIdx_append_of_length_le (Nat.le_refl _), Nat.sub_self, List.eraseIdx_cons_zero]
  · rw [hPeer]
    exact renumber_same _ _ _ _
  · intro i r hAt
    rw [hPeer]
    rcases Nat.lt_or_ge i front.length with hi | hi
    · rw [List.getElem?_append_left hi] at hAt
      have hr : r ∉ back := by
        intro hMem
        exact (List.nodup_append.mp hOthers).2.2 r (List.mem_of_getElem? hAt) r hMem rfl
      rw [renumber_of_notMem hr]
      apply h.pos
      rw [hLive, List.getElem?_append_left hi]
      exact hAt
    · rw [List.getElem?_append_right hi] at hAt
      rw [renumber_pos (List.nodup_append.mp hOthers).2.1 hAt]
      omega
  · intro r hne hr
    rw [List.mem_append, not_or] at hr
    rw [hPeer, renumber_of_notMem hr.2]
    apply h.off
    rw [hLive]
    simp [hne, hr.1, hr.2]

theorem erase_split {front back : List PeerRef} {p : PeerRef} (hp : p ∉ front) :
    (front ++ p :: back).erase p = front ++ back := by
  rw [List.erase_append_right _ hp, List.erase_cons_head]

/-- The early exit of `update` looks at the two neighbours only. -/
theorem inOrder2_neighbours {g : FtGroup} (h : g.Placed) {front back : List PeerRef} {p : PeerRef}
    (hLive : g.live = front ++ p :: back) (hOrder : g.inOrder2 p = true) :
    (∀ x, front.getLast? = some x → (g.peer x).isGreater (g.peer p) = true) ∧
    (∀ x, back.head? = some x → (g.peer p).isGreater (g.peer x) = true) := by
  have hPos : (g.peer p).pos = front.length + 1 := h.pos _ _ (by simp [hLive])
  have hPtr : g.ptr front.length = some p := by simp [ptr, hLive]
  simp only [inOrder2, hPos, Nat.add_sub_cancel, hPtr, ne_eq, not_true, Nat.succ_ne_zero, or_self,
    if_false, Bool.and_eq_true, Bool.or_eq_true, decide_eq_true_eq] at hOrder
  obtain ⟨hBefore, hAfter⟩ := hOrder
  constructor
  · intro x hx
    obtain ⟨init, rfl⟩ := List.getLast?_eq_some_iff.mp hx
    have hAt : g.ptr init.length = some x := by simp [ptr, hLive]
    rcases hBefore with hZero | hAny
    · simp at hZero
    · simpa [hAt] using hAny
  · intro x hx
    obtain ⟨rest, rfl⟩ : ∃ rest, back = x :: rest := by
      cases back with
      | nil => simp at hx
      | cons y rest => exact ⟨rest, by simpa using hx⟩
    have hAt : g.ptr (front.length + 1) = some x := by simp [ptr, hLive]
    rcases hAfter with hEnd | hAny
    · simp [hLive] at hEnd
    · simpa [hAt] using hAny

theorem update_queued {g : FtGroup} (h : g.Placed) (p : PeerRef) : g.Queued p (g.update p) := by
  unfold update
  split
  · rename_i hAbsent
    exact insert_queued h (h.absent_iff.mp hAbsent)
  · rename_i hPresent
    rw [h.absent_iff, not_not] at hPresent
    obtain ⟨front, back, hLive, -, hPos⟩ := h.split hPresent
    obtain ⟨hGap, hp, hNodup, hTable, hNumbered, hOff⟩ := closeGap_spec h hLive
    have hErase : g.live.erase p = front ++ back := by
      rw [hLive]
      exact erase_split (fun hMem => hp (List.mem_append_left _ hMem))
    split
    · rename_i hInOrder
      refine ⟨h, SameTable.refl g, fun r => ?_, ?_⟩
      · constructor
        · exact Or.inr
        · rintro (rfl | hr)
          · exact hPresent
          · exact hr
      · intro _ hOrder
        rw [hErase] at hOrder
        obtain ⟨hBefore, hAfter⟩ := inOrder2_neighbours h hLive hInOrder
        rw [hLive]
        exact pairwise_of_neighbours (fun _ _ _ => isGreater_trans) hOrder hBefore hAfter
    · rw [hPos]
      have hMoved : ((g.closeGap front.length).reorder (g.closeGap front.length).live p).Placed := by
        rw [hGap]
        exact reorder_placed hNodup hp hNumbered hOff
      have hSame := hTable.trans ((g.closeGap front.length).reorder_sameTable
        (g.closeGap front.length).live p)
      refine ⟨⟨hMoved.nodup, hMoved.pos, hMoved.off⟩,
        ⟨hSame.peer, hSame.peerHt, hSame.ftFree, hSame.stateCount⟩, fun r => ?_, ?_⟩
      · rw [mem_reorder, hGap, hLive]
        simp only [List.mem_append, List.mem_cons]
        tauto
      · intro hApart hOrder
        rw [hErase] at hOrder
        have hApart' : ∀ x ∈ (g.closeGap front.length).live,
            ((g.closeGap front.length).peer x).startNs ≠
              ((g.closeGap front.length).peer p).startNs := by
          intro x hx
          rw [hGap] at hx
          rw [(hTable.peer x).startNs, (hTable.peer p).startNs]
          refine hApart x ?_ (fun hEq => hp (hEq ▸ hx))
          rw [hLive]
          simp only [List.mem_append, List.mem_cons] at hx ⊢
          tauto
        refine reorder_descending hApart' ?_
        rw [hGap]
        exact hTable.descending hOrder

/-- `remove` takes out one entry and leaves the order of the others. -/
theorem remove_spec {g : FtGroup} (h : g.Placed) (p : PeerRef) :
    (g.remove p).Placed ∧ g.SameTable (g.remove p) ∧ (g.remove p).live = g.live.erase p := by
  unfold remove
  split
  · rename_i hAbsent
    rw [h.absent_iff] at hAbsent
    exact ⟨h, SameTable.refl g, (List.erase_of_not_mem hAbsent).symm⟩
  · rename_i hPresent
    rw [h.absent_iff, not_not] at hPresent
    obtain ⟨front, back, hLive, -, hPos⟩ := h.split hPresent
    obtain ⟨hGap, hp, hNodup, hTable, hNumbered, hOff⟩ := closeGap_spec h hLive
    rw [hPos]
    have hErase : g.live.erase p = front ++ back := by
      rw [hLive]
      exact erase_split (fun hMem => hp (List.mem_append_left _ hMem))
    refine ⟨⟨?_, ?_, ?_⟩, ⟨?_, hTable.peerHt, hTable.ftFree, hTable.stateCount⟩, ?_⟩
    · change (g.closeGap front.length).live.Nodup
      rw [hGap]
      exact hNodup
    · intro i r hAt
      change (g.closeGap front.length).live[i]? = some r at hAt
      rw [hGap] at hAt
      have hne : r ≠ p := fun hEq => hp (hEq ▸ List.mem_of_getElem? hAt)
      simp only [modify, Function.update_of_ne hne]
      exact hNumbered i r hAt
    · intro r hr
      change r ∉ (g.closeGap front.length).live at hr
      rw [hGap] at hr
      by_cases hEq : r = p
      · subst hEq
        simp [modify]
      · simp only [modify, Function.update_of_ne hEq]
        exact hOff r hEq hr
    · intro r
      refine (hTable.peer r).trans ?_
      by_cases hEq : r = p
      · subst hEq
        simp only [modify, Function.update_self]
        exact ⟨0, rfl⟩
      · simp only [modify, Function.update_of_ne hEq]
        exact FtPeer.Same.refl _
    · change (g.closeGap front.length).live = _
      rw [hGap, hErase]

theorem mem_remove {g : FtGroup} (h : g.Placed) {p r : PeerRef} :
    r ∈ (g.remove p).live ↔ r ≠ p ∧ r ∈ g.live := by
  rw [(remove_spec h p).2.2, h.nodup.mem_erase_iff]

end FtGroup

end Sassrv.Ft
