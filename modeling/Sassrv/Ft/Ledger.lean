import Sassrv.Ft.Member
import Sassrv.Ft.Queue
import Sassrv.Lib.Tally

/-! The books of an FT instance: the index by start time, the slots and the
counters, and how they agree with the queue. -/
namespace Sassrv.Ft
open Tally

/-- The bit of a slot is set in the chain. -/
def Used (chain : List FtPeerFree) (block i : Nat) : Prop :=
  ∃ f ∈ chain, f.block = block ∧ f.usedMask.getLsbD i = true

theorem used_cons {f : FtPeerFree} {chain : List FtPeerFree} {block i : Nat} :
    Used (f :: chain) block i ↔
      (f.block = block ∧ f.usedMask.getLsbD i = true) ∨ Used chain block i := by
  simp [Used]

theorem firstClear_spec {mask : BitVec 16} (h : mask ≠ 0xffff) :
    firstClear mask < 16 ∧ mask.getLsbD (firstClear mask) = false := by
  have hExists : ∃ i ∈ List.range 16, (!mask.getLsbD i) = true := by
    by_contra hNone
    apply h
    change mask = BitVec.allOnes 16
    apply BitVec.eq_of_getLsbD_eq
    intro i hi
    have hSet : mask.getLsbD i = true := by
      by_contra hClear
      exact hNone ⟨i, List.mem_range.mpr hi, by simpa using hClear⟩
    rw [hSet, BitVec.getLsbD_allOnes]
    simp [hi]
  have hLt := List.findIdx_lt_length.mpr hExists
  have hFound := List.findIdx_getElem (w := hLt)
  rw [List.getElem_range] at hFound
  exact ⟨by simpa [firstClear] using hLt, by simpa [firstClear] using hFound⟩

/-- `make_peer` finds a clear bit and sets it. -/
theorem makePeer_spec {chain : List FtPeerFree}
    (hNames : (chain.map FtPeerFree.block).Nodup) (hRoom : FtPeerFree.isAllUsed chain = false) :
    ∃ chain' block i, FtPeerFree.makePeer chain = some (chain', .slot block i) ∧
      chain'.map FtPeerFree.block = chain.map FtPeerFree.block ∧
      ¬ Used chain block i ∧
      ∀ b j, Used chain' b j ↔ Used chain b j ∨ (b = block ∧ j = i) := by
  induction chain with
  | nil => simp [FtPeerFree.isAllUsed] at hRoom
  | cons f next ih =>
      obtain ⟨hName, hNext⟩ := List.nodup_cons.mp hNames
      have hApart : ∀ i, ¬ Used next f.block i := by
        rintro i ⟨x, hx, hBlock, -⟩
        exact hName (List.mem_map.mpr ⟨x, hx, hBlock⟩)
      by_cases hFull : f.usedMask = 0xffff
      · have hRest : FtPeerFree.isAllUsed next = false := by
          simpa [FtPeerFree.isAllUsed, hFull] using hRoom
        obtain ⟨chain', block, i, hMake, hBlocks, hClear, hUsed⟩ := ih hNext hRest
        refine ⟨f :: chain', block, i, ?_, ?_, ?_, ?_⟩
        · simp [FtPeerFree.makePeer, hFull, hMake]
        · simp [hBlocks]
        · rw [used_cons, not_or]
          refine ⟨?_, hClear⟩
          rintro ⟨rfl, -⟩
          have hNew : Used chain' f.block i := (hUsed _ _).mpr (Or.inr ⟨rfl, rfl⟩)
          obtain ⟨x, hx, hBlock, -⟩ := hNew
          apply hName
          rw [← hBlocks]
          exact List.mem_map.mpr ⟨x, hx, hBlock⟩
        · intro b j
          rw [used_cons, used_cons, hUsed]
          tauto
      · obtain ⟨hLt, hClear⟩ := firstClear_spec hFull
        refine ⟨{ f with usedMask := f.usedMask ||| BitVec.twoPow 16 (firstClear f.usedMask) } ::
          next, f.block, firstClear f.usedMask, ?_, rfl, ?_, ?_⟩
        · rw [FtPeerFree.makePeer, if_pos hFull]
        · rw [used_cons, not_or]
          exact ⟨by simp [hClear], hApart _⟩
        · intro b j
          rw [used_cons, used_cons]
          simp only [BitVec.getLsbD_or, BitVec.getLsbD_twoPow, Bool.or_eq_true, Bool.and_eq_true,
            decide_eq_true_eq]
          constructor
          · rintro (⟨rfl, hSet | ⟨-, rfl⟩⟩ | hUsed)
            · exact Or.inl (Or.inl ⟨rfl, hSet⟩)
            · exact Or.inr ⟨rfl, rfl⟩
            · exact Or.inl (Or.inr hUsed)
          · rintro ((⟨rfl, hSet⟩ | hUsed) | ⟨rfl, rfl⟩)
            · exact Or.inl ⟨rfl, Or.inl hSet⟩
            · exact Or.inr hUsed
            · exact Or.inl ⟨rfl, Or.inr ⟨hLt, rfl⟩⟩

/-- `release_peer` clears one bit. -/
theorem used_releasePeer {chain : List FtPeerFree} {block i b j : Nat} :
    Used (FtPeerFree.releasePeer chain (.slot block i)) b j ↔
      Used chain b j ∧ ¬ (b = block ∧ j = i) := by
  induction chain with
  | nil => simp [FtPeerFree.releasePeer, Used]
  | cons f next ih =>
      simp only [FtPeerFree.releasePeer, List.map_cons] at ih ⊢
      rw [used_cons, used_cons, ih]
      by_cases hBlock : f.block = block
      · rw [if_pos hBlock]
        simp only [BitVec.getLsbD_and, BitVec.getLsbD_not, BitVec.getLsbD_twoPow,
          Bool.and_eq_true, Bool.not_eq_true', Bool.and_eq_false_iff, decide_eq_false_iff_not,
          decide_eq_true_eq]
        have hIn : f.usedMask.getLsbD j = true → j < 16 := BitVec.lt_of_getLsbD
        constructor
        · rintro (⟨rfl, hSet, hLt, hNot | hNot⟩ | ⟨hUsed, hNot⟩)
          · exact ⟨Or.inl ⟨rfl, hSet⟩, by rintro ⟨-, rfl⟩; omega⟩
          · exact ⟨Or.inl ⟨rfl, hSet⟩, by rintro ⟨-, rfl⟩; exact hNot rfl⟩
          · exact ⟨Or.inr hUsed, hNot⟩
        · rintro ⟨⟨rfl, hSet⟩ | hUsed, hNot⟩
          · refine Or.inl ⟨rfl, hSet, hIn hSet, Or.inr ?_⟩
            exact fun hEq => hNot ⟨hBlock, hEq.symm⟩
          · exact Or.inr ⟨hUsed, hNot⟩
      · rw [if_neg hBlock]
        constructor
        · rintro (⟨rfl, hSet⟩ | ⟨hUsed, hNot⟩)
          · exact ⟨Or.inl ⟨rfl, hSet⟩, fun hEq => hBlock hEq.1⟩
          · exact ⟨Or.inr hUsed, hNot⟩
        · rintro ⟨⟨rfl, hSet⟩ | hUsed, hNot⟩
          · exact Or.inl ⟨rfl, hSet⟩
          · exact Or.inr ⟨hUsed, hNot⟩

theorem releasePeer_blocks (chain : List FtPeerFree) (p : PeerRef) :
    (FtPeerFree.releasePeer chain p).map FtPeerFree.block = chain.map FtPeerFree.block := by
  cases p with
  | me => rfl
  | slot block i =>
      simp only [FtPeerFree.releasePeer, List.map_map]
      refine List.map_congr_left ?_
      intro f _
      simp only [Function.comp_apply]
      split <;> rfl

variable {C : Prop}

def FtState.counted : FtState → Bool
  | .join | .primary | .secondary => true
  | .listen | .finish => false

/-- The counters show the numbers `n` and none was decremented at zero. -/
structure FtStateCount.Counts (c : FtStateCount) (n : FtState → Nat) : Prop where
  primary : c.primary = n .primary
  secondary : c.secondary = n .secondary
  join : c.join = n .join
  wrapped : c.wrapped = false

/-- One peer moves between two states. -/
theorem FtStateCount.Counts.update {c : FtStateCount} {n n' : FtState → Nat} (h : c.Counts n)
    {oldState newState : FtState} (hOld : oldState.counted = true → 0 < n oldState)
    (hMove : ∀ s, s.counted = true → n' s + (decide (oldState = s)).toNat =
      n s + (decide (newState = s)).toNat) :
    (c.update oldState newState).Counts n' := by
  have hPrimary := hMove .primary rfl
  have hSecondary := hMove .secondary rfl
  have hJoin := hMove .join rfl
  obtain ⟨h1, h2, h3, h4⟩ := h
  have hLeave : (c.leave oldState).wrapped = false ∧
      (c.leave oldState).primary + (decide (oldState = .primary)).toNat = n .primary ∧
      (c.leave oldState).secondary + (decide (oldState = .secondary)).toNat = n .secondary ∧
      (c.leave oldState).join + (decide (oldState = .join)).toNat = n .join := by
    cases oldState with
    | listen => simp [leave, h1, h2, h3, h4]
    | finish => simp [leave, h1, h2, h3, h4]
    | join =>
        have hPos := hOld rfl
        simp [leave, decrement, h1, h2, h3, h4, Nat.ne_of_gt hPos]
        omega
    | primary =>
        have hPos := hOld rfl
        simp [leave, decrement, h1, h2, h3, h4, Nat.ne_of_gt hPos]
        omega
    | secondary =>
        have hPos := hOld rfl
        simp [leave, decrement, h1, h2, h3, h4, Nat.ne_of_gt hPos]
        omega
  obtain ⟨hw, hp, hs, hj⟩ := hLeave
  unfold FtStateCount.update
  generalize c.leave oldState = d at hw hp hs hj ⊢
  cases newState <;> refine ⟨?_, ?_, ?_, ?_⟩ <;> simp [enter] at * <;> omega

namespace FtGroup

/-- The peers of the index. -/
def indexed (g : FtGroup) : List PeerRef := g.peerHt.map Prod.snd

theorem mem_indexed {g : FtGroup} {r : PeerRef} : r ∈ g.indexed ↔ ∃ s, (s, r) ∈ g.peerHt := by
  simp [indexed]

/-- `me` and the peers of the index. -/
def members (g : FtGroup) : List PeerRef := .me :: g.indexed

def tally (g : FtGroup) (s : FtState) : Nat :=
  g.members.countP (fun r => decide ((g.peer r).state = s))

/-- Index, slots and, under the condition `C`, the counters agree. Nothing
here depends on the queue. -/
structure Booked (C : Prop) (g : FtGroup) : Prop where
  names : (g.peerHt.map Prod.fst).Nodup
  start : ∀ s r, (s, r) ∈ g.peerHt → (g.peer r).startNs = s
  others : ∀ s r, (s, r) ∈ g.peerHt → r ≠ .me
  used : ∀ block i, Used g.ftFree block i ↔ .slot block i ∈ g.indexed
  blocks : (g.ftFree.map FtPeerFree.block).Nodup
  bounded : ∀ f ∈ g.ftFree, f.block < g.ftFree.length
  counts : C → g.stateCount.Counts g.tally

theorem Booked.members_nodup {g : FtGroup} (h : g.Booked C) : g.members.Nodup := by
  refine List.nodup_cons.mpr ⟨?_, ?_⟩
  · intro hMe
    obtain ⟨s, hMem⟩ := mem_indexed.mp hMe
    exact h.others s .me hMem rfl
  · refine List.Nodup.map_on ?_ (List.Nodup.of_map _ h.names)
    rintro ⟨s, r⟩ hx ⟨s', r'⟩ hy rfl
    rw [← h.start s r hx, ← h.start s' r hy]

theorem mem_members {g : FtGroup} {s : Nat} {r : PeerRef} (h : (s, r) ∈ g.peerHt) :
    r ∈ g.members :=
  List.mem_cons_of_mem _ (mem_indexed.mpr ⟨s, h⟩)

/-- A group with the same books. -/
theorem Booked.congr {g h : FtGroup} (hBooked : g.Booked C) (hTable : h.peerHt = g.peerHt)
    (hFree : h.ftFree = g.ftFree) (hCount : h.stateCount = g.stateCount)
    (hPeer : ∀ r, (h.peer r).state = (g.peer r).state ∧ (h.peer r).startNs = (g.peer r).startNs) :
    h.Booked C := by
  have hTally : h.tally = g.tally := by
    funext s
    simp only [tally, members, indexed, hTable, (hPeer _).1]
  refine ⟨?_, ?_, ?_, ?_, ?_, ?_, ?_⟩
  · rw [hTable]
    exact hBooked.names
  · intro s r hMem
    rw [hTable] at hMem
    rw [(hPeer r).2]
    exact hBooked.start s r hMem
  · rw [hTable]
    exact hBooked.others
  · rw [hFree, indexed, hTable]
    exact hBooked.used
  · rw [hFree]
    exact hBooked.blocks
  · rw [hFree]
    exact hBooked.bounded
  · rw [hTally, hCount]
    exact hBooked.counts

theorem Booked.sameTable {g h : FtGroup} (hBooked : g.Booked C) (same : g.SameTable h) : h.Booked C :=
  hBooked.congr same.peerHt same.ftFree same.stateCount
    (fun r => ⟨(same.peer r).state, (same.peer r).startNs⟩)

/-- A member changes its state, and nothing else that is booked. -/
theorem Booked.move {g h : FtGroup} (hBooked : g.Booked C) {p : PeerRef} (hp : p ∈ g.members)
    {x : FtPeer} (hPeer : h.peer = Function.update g.peer p x)
    (hStart : x.startNs = (g.peer p).startNs) (hTable : h.peerHt = g.peerHt)
    (hFree : h.ftFree = g.ftFree)
    (hCount : h.stateCount = g.stateCount.update (g.peer p).state x.state) : h.Booked C := by
  have hCounts : C → h.stateCount.Counts h.tally := by
    intro hC
    rw [hCount]
    refine (hBooked.counts hC).update ?_ ?_
    · intro _
      exact List.countP_pos_iff.mpr ⟨p, hp, by simp⟩
    · intro s _
      have hMoved := countP_update_of_mem (fun y : FtPeer => decide (y.state = s)) g.peer x
        hBooked.members_nodup hp
      simp only [tally, members, indexed, hPeer, hTable]
      exact hMoved
  refine ⟨by rw [hTable]; exact hBooked.names, ?_, by rw [hTable]; exact hBooked.others,
    by rw [hFree, indexed, hTable]; exact hBooked.used, by rw [hFree]; exact hBooked.blocks,
    by rw [hFree]; exact hBooked.bounded, hCounts⟩
  intro s r hMem
  rw [hTable] at hMem
  rw [hPeer]
  by_cases hEq : r = p
  · subst hEq
    rw [Function.update_self, hStart]
    exact hBooked.start s r hMem
  · rw [Function.update_of_ne hEq]
    exact hBooked.start s r hMem

theorem Booked.updateState {g : FtGroup} (h : g.Booked C) {p : PeerRef} (hp : p ∈ g.members)
    (state : FtState) : (g.updateState p state).Booked C :=
  h.move hp rfl rfl rfl rfl rfl

theorem Booked.unique {g : FtGroup} (h : g.Booked C) {s : Nat} {p q : PeerRef}
    (hp : (s, p) ∈ g.peerHt) (hq : (s, q) ∈ g.peerHt) : p = q := by
  have hEq := List.inj_on_of_nodup_map h.names hp hq rfl
  exact congrArg Prod.snd hEq

theorem Booked.find_eq_some {g : FtGroup} (h : g.Booked C) {s : Nat} {p : PeerRef} :
    g.find s = some p ↔ (s, p) ∈ g.peerHt := by
  constructor
  · intro hFind
    obtain ⟨front, back, hTable, -⟩ := List.lookup_eq_some_iff.mp hFind
    rw [hTable]
    simp
  · intro hMem
    cases hFind : g.find s with
    | none =>
        have hNone := List.lookup_eq_none_iff.mp hFind _ hMem
        simp at hNone
    | some q =>
        obtain ⟨front, back, hTable, -⟩ := List.lookup_eq_some_iff.mp hFind
        have hq : (s, q) ∈ g.peerHt := by
          rw [hTable]
          simp
        rw [h.unique hMem hq]

theorem find_eq_none {g : FtGroup} {s : Nat} (h : g.find s = none) (p : PeerRef) :
    (s, p) ∉ g.peerHt := by
  intro hMem
  have hNone := List.lookup_eq_none_iff.mp h _ hMem
  simp at hNone

/-- Taking an uncounted peer out of the index and freeing its slot. -/
theorem Booked.forget {g h : FtGroup} (hBooked : g.Booked C) {s : Nat} {p : PeerRef}
    (hMem : (s, p) ∈ g.peerHt) (hState : (g.peer p).state.counted = false)
    (hPeer : h.peer = g.peer) (hTable : h.peerHt = g.peerHt.filter (fun e => e.1 ≠ s))
    (hFree : h.ftFree = FtPeerFree.releasePeer g.ftFree p)
    (hCount : h.stateCount = g.stateCount) :
    h.Booked C ∧ ∀ r, r ∈ h.indexed ↔ r ≠ p ∧ r ∈ g.indexed := by
  have hEntry : ∀ t r, (t, r) ∈ h.peerHt ↔ (t, r) ∈ g.peerHt ∧ t ≠ s := by
    intro t r
    simp [hTable]
  have hIndexed : ∀ r, r ∈ h.indexed ↔ r ≠ p ∧ r ∈ g.indexed := by
    intro r
    simp only [mem_indexed, hEntry]
    constructor
    · rintro ⟨t, ht, hne⟩
      refine ⟨?_, t, ht⟩
      rintro rfl
      exact hne ((hBooked.start t r ht).symm.trans (hBooked.start s r hMem))
    · rintro ⟨hne, t, ht⟩
      refine ⟨t, ht, ?_⟩
      rintro rfl
      exact hne (hBooked.unique ht hMem)
  have hTally : ∀ state, state.counted = true → h.tally state = g.tally state := by
    intro state hCounted
    simp only [tally, members, indexed, hTable, hPeer, List.countP_cons, List.countP_map,
      List.countP_filter]
    congr 1
    refine List.countP_congr ?_
    rintro ⟨t, r⟩ hr
    simp only [Function.comp_apply, decide_eq_true_eq, Bool.and_eq_true, and_iff_left_iff_imp]
    rintro hEq rfl
    have hrp := hBooked.unique hr hMem
    rw [← hEq, hrp, hState] at hCounted
    cases hCounted
  refine ⟨⟨?_, ?_, ?_, ?_, ?_, ?_, ?_⟩, hIndexed⟩
  · rw [hTable]
    exact hBooked.names.sublist (List.filter_sublist.map _)
  · intro t r hr
    rw [hPeer]
    exact hBooked.start t r ((hEntry t r).mp hr).1
  · intro t r hr
    exact hBooked.others t r ((hEntry t r).mp hr).1
  · intro block i
    rw [hFree, hIndexed, ← hBooked.used]
    cases p with
    | me => exact absurd rfl (hBooked.others s .me hMem)
    | slot b j =>
        rw [used_releasePeer]
        simp only [ne_eq, PeerRef.slot.injEq]
        tauto
  · rw [hFree, releasePeer_blocks]
    exact hBooked.blocks
  · intro x hx
    have hLength : h.ftFree.length = g.ftFree.length := by
      rw [hFree, ← List.length_map FtPeerFree.block, releasePeer_blocks, List.length_map]
    have hBlock : x.block ∈ g.ftFree.map FtPeerFree.block := by
      rw [← releasePeer_blocks g.ftFree p, ← hFree]
      exact List.mem_map.mpr ⟨x, hx, rfl⟩
    obtain ⟨y, hy, hEq⟩ := List.mem_map.mp hBlock
    rw [hLength, ← hEq]
    exact hBooked.bounded y hy
  · intro hC
    rw [hCount]
    obtain ⟨h1, h2, h3, h4⟩ := hBooked.counts hC
    exact ⟨h1.trans (hTally .primary rfl).symm, h2.trans (hTally .secondary rfl).symm,
      h3.trans (hTally .join rfl).symm, h4⟩

/-- The record of the sender of a message, before the queue is repaired. -/
structure Recorded (C : Prop) (g : FtGroup) (m : FtPeerMsg) (p : PeerRef) (h : FtGroup) : Prop where
  booked : h.Booked C
  live : h.live = g.live
  entry : (m.startNs, p) ∈ h.peerHt
  indexed : ∀ r, r ∈ h.indexed ↔ r = p ∨ r ∈ g.indexed
  peer : ∀ r, r ≠ p → h.peer r = g.peer r
  state : (h.peer p).state = m.state
  weight : (h.peer p).weight = m.weight
  known : p ∈ g.indexed → (g.peer p).startNs = m.startNs
  pos : (h.peer p).pos = (g.peer p).pos ∨ (p ∉ g.indexed ∧ (h.peer p).pos = 0)

/-- A slot for a new peer. -/
theorem Booked.room {g : FtGroup} (h : g.Booked C) :
    ∃ chain block i, FtPeerFree.makePeer (if FtPeerFree.isAllUsed g.ftFree then
        ⟨g.ftFree.length, 0⟩ :: g.ftFree else g.ftFree) = some (chain, .slot block i) ∧
      (chain.map FtPeerFree.block).Nodup ∧ (∀ f ∈ chain, f.block < chain.length) ∧
      .slot block i ∉ g.indexed ∧
      ∀ b j, Used chain b j ↔ .slot b j ∈ g.indexed ∨ (b = block ∧ j = i) := by
  obtain ⟨start, hStart, hRoom, hNames, hBound, hSame⟩ : ∃ start : List FtPeerFree,
      (if FtPeerFree.isAllUsed g.ftFree then ⟨g.ftFree.length, 0⟩ :: g.ftFree else g.ftFree) =
        start ∧ FtPeerFree.isAllUsed start = false ∧ (start.map FtPeerFree.block).Nodup ∧
      (∀ f ∈ start, f.block < start.length) ∧
      ∀ b j, Used start b j ↔ Used g.ftFree b j := by
    by_cases hFull : FtPeerFree.isAllUsed g.ftFree = true
    · refine ⟨_, if_pos hFull, by simp [FtPeerFree.isAllUsed], ?_, ?_, ?_⟩
      · refine List.nodup_cons.mpr ⟨?_, h.blocks⟩
        intro hMem
        obtain ⟨f, hf, hEq⟩ := List.mem_map.mp hMem
        have hLt := h.bounded f hf
        simp only at hEq
        omega
      · intro f hf
        rw [List.length_cons]
        rcases List.mem_cons.mp hf with rfl | hf
        · exact Nat.lt_succ_self _
        · exact Nat.lt_succ_of_lt (h.bounded f hf)
      · intro b j
        rw [used_cons]
        simp
    · exact ⟨_, if_neg hFull, by simpa using hFull, h.blocks, h.bounded, fun _ _ => Iff.rfl⟩
  obtain ⟨chain, block, i, hMake, hBlocks, hClear, hUsed⟩ := makePeer_spec hNames hRoom
  have hLength : chain.length = start.length := by
    rw [← List.length_map FtPeerFree.block, hBlocks, List.length_map]
  refine ⟨chain, block, i, by rw [hStart]; exact hMake, by rw [hBlocks]; exact hNames, ?_, ?_, ?_⟩
  · intro f hf
    have hBlock : f.block ∈ start.map FtPeerFree.block := by
      rw [← hBlocks]
      exact List.mem_map.mpr ⟨f, hf, rfl⟩
    obtain ⟨x, hx, hEq⟩ := List.mem_map.mp hBlock
    rw [hLength, ← hEq]
    exact hBound x hx
  · rw [← h.used, ← hSame]
    exact hClear
  · intro b j
    rw [hUsed, hSame, h.used]

/-- A new peer in a free slot. -/
theorem Booked.enlist {g h : FtGroup} (hBooked : g.Booked C) {m : FtPeerMsg} {x : FtPeer}
    {block i : Nat} (hNew : ∀ r, (m.startNs, r) ∉ g.peerHt) (hFree : .slot block i ∉ g.indexed)
    (hPeer : h.peer = Function.update g.peer (.slot block i) x)
    (hState : x.state = m.state) (hStart : x.startNs = m.startNs)
    (hTable : h.peerHt = (m.startNs, .slot block i) :: g.peerHt)
    (hBlocks : (h.ftFree.map FtPeerFree.block).Nodup)
    (hBounded : ∀ f ∈ h.ftFree, f.block < h.ftFree.length)
    (hUsed : ∀ b j, Used h.ftFree b j ↔ .slot b j ∈ g.indexed ∨ (b = block ∧ j = i))
    (hCount : h.stateCount = g.stateCount.update .listen m.state) : h.Booked C := by
  have hOther : ∀ s r, (s, r) ∈ g.peerHt → r ≠ .slot block i := by
    rintro s r hr rfl
    exact hFree (mem_indexed.mpr ⟨s, hr⟩)
  refine ⟨?_, ?_, ?_, ?_, hBlocks, hBounded, ?_⟩
  · rw [hTable, List.map_cons, List.nodup_cons]
    refine ⟨?_, hBooked.names⟩
    intro hMem
    obtain ⟨⟨s, r⟩, hr, rfl⟩ := List.mem_map.mp hMem
    exact hNew r hr
  · intro s r hr
    rw [hTable] at hr
    rw [hPeer]
    rcases List.mem_cons.mp hr with hEq | hr
    · cases hEq
      rw [Function.update_self, hStart]
    · rw [Function.update_of_ne (hOther s r hr)]
      exact hBooked.start s r hr
  · intro s r hr
    rw [hTable] at hr
    rcases List.mem_cons.mp hr with hEq | hr
    · cases hEq
      simp
    · exact hBooked.others s r hr
  · intro b j
    rw [hUsed]
    simp only [indexed, hTable, List.map_cons, List.mem_cons, PeerRef.slot.injEq]
    tauto
  · intro hC
    rw [hCount]
    refine (hBooked.counts hC).update (by simp [FtState.counted]) ?_
    intro s hCounted
    have hRest := countP_update_of_notMem (fun y : FtPeer => decide (y.state = s)) g.peer x hFree
    have hMe : (PeerRef.me : PeerRef) ≠ .slot block i := by simp
    have hListen : decide (FtState.listen = s) = false := by
      cases s <;> simp_all [FtState.counted]
    have hTally : h.tally s = g.tally s + (decide (m.state = s)).toNat := by
      simp only [indexed] at hRest
      simp only [tally, members, indexed, hTable, hPeer, List.map_cons, List.countP_cons,
        Function.update_self, Function.update_of_ne hMe, hState, hRest]
      cases decide (m.state = s) <;> simp
      omega
    rw [hTally, hListen]
    simp

/-- Latency samples touch nothing that the group depends on. -/
theorem accumLatency_same (x : FtPeer) (lat : Int) :
    (x.accumLatency lat).state = x.state ∧ (x.accumLatency lat).weight = x.weight ∧
    (x.accumLatency lat).startNs = x.startNs ∧ (x.accumLatency lat).pos = x.pos := by
  unfold FtPeer.accumLatency
  split <;> exact ⟨rfl, rfl, rfl, rfl⟩

end FtGroup

namespace RvFt
open FtGroup

theorem checkLatency_same {f : RvFt} {x y : FtPeer} {ns : Int}
    (h : f.checkLatency x ns = some y) :
    y.state = x.state ∧ y.weight = x.weight ∧ y.startNs = x.startNs ∧ y.pos = x.pos := by
  unfold checkLatency at h
  simp only at h
  split_ifs at h
  · cases h
    exact ⟨rfl, rfl, rfl, rfl⟩
  · cases h
    exact accumLatency_same x ns
  · cases h
    exact accumLatency_same x ns

/-- The message is older or newer than the latency of its sender allows. -/
def discards (f : RvFt) (m : FtPeerMsg) : Bool :=
  match f.group.find m.startNs with
  | none => false
  | some p => (f.checkLatency (f.group.peer p) (latencyNs f.nowNs m.curTime)).isNone

theorem recordPeer_new {f : RvFt} (h : f.group.Booked C) {m : FtPeerMsg}
    (hFind : f.group.find m.startNs = none) :
    ∃ group p, f.recordPeer m = some (some (f.withGroup group, p)) ∧
      f.group.Recorded C m p group := by
  obtain ⟨chain, block, i, hMake, hBlocks, hBounded, hFree, hUsed⟩ := h.room
  let made : FtPeer := {
    startNs := m.startNs
    weight := m.weight
    state := m.state
    user := m.user
    syncInbox := m.syncInbox }
  let sampled := made.accumLatency (latencyNs f.nowNs m.curTime)
  obtain ⟨hState, hWeight, hStart, hPos⟩ :=
    accumLatency_same made (latencyNs f.nowNs m.curTime)
  have hRecord : f.recordPeer m = some (some (f.withGroup { f.group with
      peer := Function.update f.group.peer (.slot block i)
        { sampled with lastRcvNs := f.lastRcvNs }
      peerHt := (m.startNs, .slot block i) :: f.group.peerHt
      ftFree := chain
      stateCount := f.group.stateCount.update .listen m.state }, .slot block i)) := by
    simp only [recordPeer, hFind, FtGroup.makePeer, hMake, Option.bind_eq_bind, Option.bind_some,
      Option.pure_def, FtGroup.set, FtGroup.modify, Function.update_self, Function.update_idem]
    rfl
  refine ⟨_, _, hRecord, ⟨h.enlist (find_eq_none hFind) hFree rfl hState hStart rfl hBlocks
    hBounded hUsed rfl, rfl, List.mem_cons_self .., ?_, ?_, ?_, ?_,
    fun hMem => absurd hMem hFree, Or.inr ⟨hFree, ?_⟩⟩⟩
  · intro r
    simp [indexed]
  · intro r hr
    exact Function.update_of_ne hr _ _
  · simp only [Function.update_self]
    exact hState
  · simp only [Function.update_self]
    exact hWeight
  · simp only [Function.update_self]
    exact hPos

theorem recordPeer_known {f : RvFt} (h : f.group.Booked C) {m : FtPeerMsg} {p : PeerRef}
    {x : FtPeer} (hFind : f.group.find m.startNs = some p)
    (hCheck : f.checkLatency (f.group.peer p) (latencyNs f.nowNs m.curTime) = some x) :
    ∃ group, f.recordPeer m = some (some (f.withGroup group, p)) ∧
      f.group.Recorded C m p group := by
  have hMem := h.find_eq_some.mp hFind
  obtain ⟨hState, -, -, hPos⟩ := checkLatency_same hCheck
  have hRecord : f.recordPeer m = some (some (f.withGroup { f.group with
      peer := Function.update f.group.peer p { x with
        startNs := m.startNs
        weight := m.weight
        oldState := x.state
        state := m.state
        user := m.user
        syncInbox := m.syncInbox
        lastRcvNs := f.lastRcvNs }
      stateCount := f.group.stateCount.update (f.group.peer p).state m.state }, p)) := by
    simp only [recordPeer, hFind, hCheck, FtGroup.set, FtGroup.modify, Function.update_self,
      Function.update_idem, hState]
  refine ⟨_, hRecord, ⟨h.move (mem_members hMem) rfl (h.start _ _ hMem).symm rfl rfl rfl,
    rfl, hMem, ?_, ?_, ?_, ?_, fun _ => h.start _ _ hMem, Or.inl ?_⟩⟩
  · intro r
    change r ∈ f.group.indexed ↔ _
    refine ⟨Or.inr, ?_⟩
    rintro (rfl | hr)
    · exact mem_indexed.mpr ⟨_, hMem⟩
    · exact hr
  · intro r hr
    exact Function.update_of_ne hr _ _
  · simp only [Function.update_self]
  · simp only [Function.update_self]
  · simp only [Function.update_self]
    exact hPos

/-- A message is discarded, or recorded for its sender. -/
theorem recordPeer_spec {f : RvFt} (h : f.group.Booked C) (m : FtPeerMsg) :
    (f.discards m = true ∧ f.recordPeer m = some none) ∨
    (f.discards m = false ∧ ∃ group p,
      f.recordPeer m = some (some (f.withGroup group, p)) ∧
      f.group.Recorded C m p group) := by
  cases hFind : f.group.find m.startNs with
  | none => exact Or.inr ⟨by simp [discards, hFind], recordPeer_new h hFind⟩
  | some p =>
      cases hCheck : f.checkLatency (f.group.peer p) (latencyNs f.nowNs m.curTime) with
      | none => exact Or.inl ⟨by simp [discards, hFind, hCheck], by simp [recordPeer, hFind, hCheck]⟩
      | some x =>
          obtain ⟨group, hRecord⟩ := recordPeer_known h hFind hCheck
          exact Or.inr ⟨by simp [discards, hFind, hCheck], group, p, hRecord⟩

end RvFt

namespace FtGroup

/-- Away from one peer, the index holds exactly the queue without `me`. -/
def MatchedBut (g : FtGroup) (p : PeerRef) : Prop :=
  ∀ r, r ≠ p → (r ∈ g.indexed ↔ r ∈ g.live ∧ r ≠ .me)

/-- No indexed peer started when `me` did. -/
def Apart (g : FtGroup) : Prop := ∀ s r, (s, r) ∈ g.peerHt → s ≠ (g.peer .me).startNs

/-- The queue, the index, the slots and the counters agree. -/
structure Ledger (C : Prop) (g : FtGroup) : Prop where
  placed : g.Placed
  booked : g.Booked C
  matched : ∀ r, r ∈ g.indexed ↔ r ∈ g.live ∧ r ≠ .me
  apart : g.Apart

namespace Ledger

theorem mem_members {g : FtGroup} (h : g.Ledger C) {r : PeerRef} (hr : r ∈ g.live) :
    r ∈ g.members := by
  by_cases hMe : r = .me
  · rw [hMe]
    exact List.mem_cons_self ..
  · exact List.mem_cons_of_mem _ ((h.matched r).mpr ⟨hr, hMe⟩)

/-- The start times of the members are distinct. -/
theorem start_ne {g : FtGroup} (h : g.Ledger C) {p q : PeerRef} (hp : p ∈ g.members)
    (hq : q ∈ g.members) (hne : p ≠ q) : (g.peer p).startNs ≠ (g.peer q).startNs := by
  have hMe : ∀ r, r ∈ g.indexed → (g.peer r).startNs ≠ (g.peer .me).startNs := by
    intro r hr
    obtain ⟨s, hs⟩ := mem_indexed.mp hr
    rw [h.booked.start s r hs]
    exact h.apart s r hs
  rcases List.mem_cons.mp hp with rfl | hp
  · rcases List.mem_cons.mp hq with rfl | hq
    · exact absurd rfl hne
    · exact (hMe q hq).symm
  · rcases List.mem_cons.mp hq with rfl | hq
    · exact hMe p hp
    · obtain ⟨s, hs⟩ := mem_indexed.mp hp
      obtain ⟨t, ht⟩ := mem_indexed.mp hq
      rw [h.booked.start s p hs, h.booked.start t q ht]
      rintro rfl
      exact hne (h.booked.unique hs ht)

/-- `me` enters the queue or moves in it. -/
theorem queued {g h : FtGroup} (hLedger : g.Ledger C) (hQueued : g.Queued .me h) : h.Ledger C := by
  have hTable := hQueued.table
  refine ⟨hQueued.placed, hLedger.booked.sameTable hTable, ?_, ?_⟩
  · intro r
    rw [indexed, hTable.peerHt, hQueued.mem]
    change r ∈ g.indexed ↔ _
    rw [hLedger.matched]
    tauto
  · intro s r hr
    rw [hTable.peerHt] at hr
    rw [(hTable.peer .me).startNs]
    exact hLedger.apart s r hr

theorem queued_order {g h : FtGroup} (hLedger : g.Ledger C) (hQueued : g.Queued .me h)
    (hOrder : g.Descending (g.live.erase .me)) : h.Descending h.live :=
  hQueued.order (fun _ hx hne => hLedger.start_ne (hLedger.mem_members hx)
    (List.mem_cons_self ..) hne) hOrder

theorem removeMe {g : FtGroup} (h : g.Ledger C) : (g.remove .me).Ledger C := by
  obtain ⟨hPlaced, hTable, -⟩ := remove_spec h.placed .me
  refine ⟨hPlaced, h.booked.sameTable hTable, ?_, ?_⟩
  · intro r
    rw [indexed, hTable.peerHt, mem_remove h.placed]
    change r ∈ g.indexed ↔ _
    rw [h.matched]
    tauto
  · intro s r hr
    rw [hTable.peerHt] at hr
    rw [(hTable.peer .me).startNs]
    exact h.apart s r hr

theorem updateMe {g : FtGroup} (h : g.Ledger C) (state : FtState) :
    (g.updateState .me state).Ledger C := by
  have hOff : ∀ r, r ≠ .me → (g.updateState .me state).peer r = g.peer r :=
    fun r hr => Function.update_of_ne hr _ _
  have hMe : ((g.updateState .me state).peer .me).pos = (g.peer .me).pos ∧
      ((g.updateState .me state).peer .me).startNs = (g.peer .me).startNs := by
    simp [updateState, modify]
  have hPos : ∀ r, ((g.updateState .me state).peer r).pos = (g.peer r).pos := by
    intro r
    by_cases hr : r = .me
    · rw [hr]
      exact hMe.1
    · rw [hOff r hr]
  refine ⟨⟨h.placed.nodup, ?_, ?_⟩, h.booked.updateState (List.mem_cons_self ..) state,
    h.matched, ?_⟩
  · intro i r hAt
    rw [hPos]
    exact h.placed.pos i r hAt
  · intro r hr
    rw [hPos]
    exact h.placed.off r hr
  · intro s r hr
    rw [hMe.2]
    exact h.apart s r hr

end Ledger

section Recorded

variable {g h : FtGroup} {m : FtPeerMsg} {p : PeerRef}

theorem Recorded.ne_me (hRec : g.Recorded C m p h) : p ≠ .me :=
  hRec.booked.others _ _ hRec.entry

theorem Recorded.start (hRec : g.Recorded C m p h) : (h.peer p).startNs = m.startNs :=
  hRec.booked.start _ _ hRec.entry

theorem Recorded.matchedBut (hLedger : g.Ledger C) (hRec : g.Recorded C m p h) : h.MatchedBut p := by
  intro r hr
  rw [hRec.indexed, hRec.live, hLedger.matched]
  tauto

theorem Recorded.apart (hLedger : g.Ledger C) (hRec : g.Recorded C m p h)
    (hStart : m.startNs ≠ (g.peer .me).startNs) : h.Apart := by
  intro s r hr
  rw [hRec.peer .me hRec.ne_me.symm, ← hRec.booked.start s r hr]
  by_cases hp : r = p
  · rw [hp, hRec.start]
    exact hStart
  · rw [hRec.peer r hp]
    have hOld : r ∈ g.indexed := by
      rcases (hRec.indexed r).mp (mem_indexed.mpr ⟨s, hr⟩) with hEq | hOld
      · exact absurd hEq hp
      · exact hOld
    obtain ⟨t, ht⟩ := mem_indexed.mp hOld
    rw [hLedger.booked.start t r ht]
    exact hLedger.apart t r ht

theorem Recorded.placed (hLedger : g.Ledger C) (hRec : g.Recorded C m p h) : h.Placed := by
  have hPos : ∀ r, (h.peer r).pos = (g.peer r).pos := by
    intro r
    by_cases hr : r = p
    · subst hr
      rcases hRec.pos with hSame | ⟨hNew, hZero⟩
      · exact hSame
      · rw [hZero]
        refine (hLedger.placed.off r ?_).symm
        intro hLive
        exact hNew ((hLedger.matched r).mpr ⟨hLive, hRec.ne_me⟩)
    · rw [hRec.peer r hr]
  refine ⟨by rw [hRec.live]; exact hLedger.placed.nodup, ?_, ?_⟩
  · intro i r hAt
    rw [hRec.live] at hAt
    rw [hPos]
    exact hLedger.placed.pos i r hAt
  · intro r hr
    rw [hRec.live] at hr
    rw [hPos]
    exact hLedger.placed.off r hr

/-- A recorded peer is put into the queue, or moved to its new place. -/
theorem Recorded.admitted (hLedger : g.Ledger C) (hRec : g.Recorded C m p h)
    (hStart : m.startNs ≠ (g.peer .me).startNs) :
    (h.update p).Ledger C ∧ (∀ r, r ∈ (h.update p).live ↔ r = p ∨ r ∈ g.live) ∧
    (∀ r, (h.peer r).Same ((h.update p).peer r)) ∧
    (g.Descending g.live → (h.update p).Descending (h.update p).live) := by
  have hPlaced := hRec.placed hLedger
  have hApart := hRec.apart hLedger hStart
  have hMatched := hRec.matchedBut hLedger
  have hQueued := update_queued hPlaced p
  have hTable := hQueued.table
  have hNew : (h.update p).Ledger C := by
    refine ⟨hQueued.placed, hRec.booked.sameTable hTable, ?_, ?_⟩
    · intro r
      rw [FtGroup.indexed, hTable.peerHt, hQueued.mem]
      change r ∈ h.indexed ↔ _
      by_cases hr : r = p
      · subst hr
        exact iff_of_true (mem_indexed.mpr ⟨_, hRec.entry⟩) ⟨Or.inl rfl, hRec.ne_me⟩
      · rw [hMatched r hr]
        tauto
    · intro s r hr
      rw [hTable.peerHt] at hr
      rw [(hTable.peer .me).startNs]
      exact hApart s r hr
  have hMem : ∀ r, r ∈ (h.update p).live ↔ r = p ∨ r ∈ g.live := by
    intro r
    rw [hQueued.mem, hRec.live]
  refine ⟨hNew, hMem, hTable.peer, ?_⟩
  intro hOrder
  refine hQueued.order ?_ ?_
  · intro x hx hne
    have hne' := hNew.start_ne (hNew.mem_members ((hQueued.mem x).mpr (Or.inr hx)))
      (hNew.mem_members ((hQueued.mem p).mpr (Or.inl rfl))) hne
    rw [(hTable.peer x).startNs, (hTable.peer p).startNs] at hne'
    exact hne'
  · rw [hRec.live]
    refine Descending.congr (hOrder.sublist List.erase_sublist) ?_
    intro r hr
    have hne : r ≠ p := ((hLedger.placed.nodup.mem_erase_iff).mp hr).1
    rw [hRec.peer r hne]
    exact ⟨rfl, rfl, rfl⟩

end Recorded

/-- A peer that is dropped leaves the queue, the index and its slot. -/
theorem dropPeer_spec {g : FtGroup} (hPlaced : g.Placed) (hBooked : g.Booked C) (hApart : g.Apart)
    {s : Nat} {p : PeerRef} (hMem : (s, p) ∈ g.peerHt) (hMatched : g.MatchedBut p)
    {state : FtState} (hState : state.counted = false) :
    (g.dropPeer p state).Ledger C ∧ (g.dropPeer p state).live = g.live.erase p ∧
    (∀ r, r ≠ p → (g.peer r).Same ((g.dropPeer p state).peer r)) := by
  have hStated : (g.updateState p state).Booked C := hBooked.updateState (mem_members hMem) state
  have hSet : ((g.updateState p state).peer p).state = state ∧
      ((g.updateState p state).peer p).pos = (g.peer p).pos ∧
      ((g.updateState p state).peer p).startNs = (g.peer p).startNs := by
    simp [updateState, modify]
  have hOff : ∀ r, r ≠ p → (g.updateState p state).peer r = g.peer r :=
    fun r hr => Function.update_of_ne hr _ _
  have hStatedPlaced : (g.updateState p state).Placed := by
    have hPos : ∀ r, ((g.updateState p state).peer r).pos = (g.peer r).pos := by
      intro r
      by_cases hr : r = p
      · rw [hr]
        exact hSet.2.1
      · rw [hOff r hr]
    refine ⟨hPlaced.nodup, fun i r hAt => ?_, fun r hr => ?_⟩
    · rw [hPos]
      exact hPlaced.pos i r hAt
    · rw [hPos]
      exact hPlaced.off r hr
  obtain ⟨hRemoved, hTable, hLive⟩ := remove_spec hStatedPlaced p
  have hKey : (((g.updateState p state).remove p).peer p).startNs = s := by
    rw [(hTable.peer p).startNs, hSet.2.2]
    exact hBooked.start s p hMem
  have hUncounted : (((g.updateState p state).remove p).peer p).state.counted = false := by
    rw [(hTable.peer p).state, hSet.1]
    exact hState
  have hIn : (s, p) ∈ ((g.updateState p state).remove p).peerHt := by
    rw [hTable.peerHt]
    exact hMem
  obtain ⟨hDropped, hIndexed⟩ := (hStated.sameTable hTable).forget
    (h := g.dropPeer p state) hIn hUncounted rfl (by simp only [dropPeer, hKey]) rfl rfl
  have hLive' : (g.dropPeer p state).live = g.live.erase p := hLive
  have hPeer : ∀ r, r ≠ p → (g.peer r).Same ((g.dropPeer p state).peer r) := by
    intro r hr
    have hSame := hTable.peer r
    rw [hOff r hr] at hSame
    exact hSame
  refine ⟨⟨⟨hRemoved.nodup, hRemoved.pos, hRemoved.off⟩, hDropped, ?_, ?_⟩, hLive', hPeer⟩
  · intro r
    rw [hIndexed, hLive', hPlaced.nodup.mem_erase_iff, indexed, hTable.peerHt]
    change r ≠ p ∧ r ∈ g.indexed ↔ _
    by_cases hr : r = p
    · simp [hr]
    · rw [hMatched r hr]
      tauto
  · intro t r hr
    have hMe : (PeerRef.me : PeerRef) ≠ p := (hBooked.others s p hMem).symm
    rw [(hPeer .me hMe).startNs]
    have hOld : (t, r) ∈ g.peerHt := by
      have hSub : (t, r) ∈ ((g.updateState p state).remove p).peerHt := List.mem_of_mem_filter hr
      rw [hTable.peerHt] at hSub
      exact hSub
    exact hApart t r hOld

end FtGroup

end Sassrv.Ft
