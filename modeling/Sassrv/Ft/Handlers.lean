import Sassrv.Ft.Takeover

/-! What one call does to an FT instance. Each lemma says that the call
returns, keeps the books sound and the queue in order, and how `me` and its
rank come out of it. -/
namespace Sassrv.Ft
namespace RvFt
open FtGroup

variable {C : Prop}

/-- The queue descends. -/
def Ordered (f : RvFt) : Prop := f.group.Descending f.group.live

/-- A primary is first and a secondary is not. -/
def Lawful (g : FtGroup) : Prop :=
  (g.meState = .primary → g.Heads) ∧ (g.meState = .secondary → ¬ g.Heads)

/-- The peers of `g` were there before and are unchanged. -/
def Remain (f g : FtGroup) : Prop :=
  ∀ r ∈ g.live, r ≠ .me → r ∈ f.live ∧ (f.peer r).Same (g.peer r)

/-- What `trim_ft_queue` does. -/
structure Trimmed (C : Prop) (f g : RvFt) : Prop where
  frame : f.Frame g
  ledger : g.group.Ledger C
  sublist : g.group.live.Sublist f.group.live
  stays : .me ∈ f.group.live → .me ∈ g.group.live
  peer : ∀ r, r ∈ g.group.live ∨ r = .me → (f.group.peer r).Same (g.group.peer r)

theorem Trimmed.refl {f : RvFt} (h : f.group.Ledger C) : f.Trimmed C f :=
  ⟨Frame.refl f, h, List.Sublist.refl _, id, fun _ _ => FtPeer.Same.refl _⟩

theorem Trimmed.trans {f g h : RvFt} (left : f.Trimmed C g) (right : g.Trimmed C h) :
    f.Trimmed C h := by
  refine ⟨left.frame.trans right.frame, right.ledger, right.sublist.trans left.sublist,
    fun hMe => right.stays (left.stays hMe), ?_⟩
  intro r hr
  refine (left.peer r ?_).trans (right.peer r hr)
  exact hr.imp (fun hMem => right.sublist.subset hMem) id

theorem Trimmed.state {f g : RvFt} (h : f.Trimmed C g) : g.me.state = f.me.state :=
  (h.peer .me (Or.inr rfl)).state

theorem Trimmed.ordered {f g : RvFt} (h : f.Trimmed C g) (hOrder : f.Ordered) : g.Ordered :=
  Descending.congr (List.Pairwise.sublist h.sublist hOrder)
    (fun r hr => (h.peer r (Or.inl hr)).rank)

theorem Trimmed.remain {f g : RvFt} (h : f.Trimmed C g) : Remain f.group g.group :=
  fun r hr _ => ⟨h.sublist.subset hr, h.peer r (Or.inl hr)⟩

/-- Dropping a peer from the queue. -/
theorem trimmed_drop {f : RvFt} (h : f.group.Ledger C) {s : Nat} {p : PeerRef}
    (hMem : (s, p) ∈ f.group.peerHt) {state : FtState} (hState : state.counted = false) :
    f.Trimmed C (f.withGroup (f.group.dropPeer p state)) := by
  have hp : p ≠ .me := h.booked.others s p hMem
  obtain ⟨hLedger, hLive, hPeer⟩ := dropPeer_spec h.placed h.booked h.apart hMem
    (fun r _ => h.matched r) hState
  have hMe := hPeer .me hp.symm
  refine ⟨Frame.withGroup f _, hLedger, ?_, ?_, ?_⟩
  · change (f.group.dropPeer p state).live.Sublist _
    rw [hLive]
    exact List.erase_sublist
  · intro hIn
    change .me ∈ (f.group.dropPeer p state).live
    rw [hLive, h.placed.nodup.mem_erase_iff]
    exact ⟨hp.symm, hIn⟩
  · intro r hr
    refine hPeer r ?_
    rcases hr with hr | rfl
    · change r ∈ (f.group.dropPeer p state).live at hr
      rw [hLive, h.placed.nodup.mem_erase_iff] at hr
      exact hr.1
    · exact hp.symm

theorem trimLoop_trimmed {i : Nat} {f : RvFt} (h : f.group.Ledger C)
    (hi : i ≤ f.group.live.length) : f.Trimmed C (trimLoop i f) := by
  induction i generalizing f with
  | zero => exact Trimmed.refl h
  | succ i ih =>
      obtain ⟨p, hp⟩ : ∃ p, f.group.live[i]? = some p := by
        rw [List.getElem?_eq_getElem (by omega)]
        exact ⟨_, rfl⟩
      have hPtr : f.group.ptr i = some p := by
        rw [ptr, List.getElem?_append_left (by omega)]
        exact hp
      simp only [trimLoop, hPtr]
      split
      · rename_i hMissing
        have hIndexed := (h.matched p).mpr ⟨List.mem_of_getElem? hp, hMissing.1⟩
        obtain ⟨s, hs⟩ := mem_indexed.mp hIndexed
        have hDrop := trimmed_drop h hs (rfl : FtState.finish.counted = false)
        refine hDrop.trans (ih hDrop.ledger ?_)
        obtain ⟨-, hLive, -⟩ := dropPeer_spec h.placed h.booked h.apart hs
          (fun r _ => h.matched r) (rfl : FtState.finish.counted = false)
        change i ≤ (f.group.dropPeer p .finish).live.length
        rw [hLive, List.length_erase_of_mem (List.mem_of_getElem? hp)]
        omega
      · exact ih h (by omega)

theorem trimFtQueue_trimmed {f : RvFt} (h : f.group.Ledger C) : f.Trimmed C f.trimFtQueue :=
  trimLoop_trimmed h (Nat.le_refl _)

/-- A first entry stays first when others leave. -/
theorem heads_of_sublist {g h : FtGroup} (hHeads : g.Heads) (hNodup : g.live.Nodup)
    (hSub : h.live.Sublist g.live) (hMe : .me ∈ h.live) : h.Heads := by
  obtain ⟨rest, hLive⟩ : ∃ rest, g.live = .me :: rest := by
    cases hLive : g.live with
    | nil => rw [Heads, hLive] at hHeads; cases hHeads
    | cons x rest =>
        rw [Heads, hLive] at hHeads
        cases hHeads
        exact ⟨rest, rfl⟩
  rw [hLive] at hSub hNodup
  cases hShort : h.live with
  | nil => rw [hShort] at hMe; cases hMe
  | cons x tail =>
      rw [hShort] at hSub hMe
      rw [Heads, hShort]
      cases hSub with
      | cons _ hRest =>
          exact absurd (hRest.subset hMe) (List.nodup_cons.mp hNodup).1
      | cons_cons _ _ => rfl

/-- The check of the rank after a message: afterwards the law holds. -/
structure Checked (C : Prop) (f g : RvFt) : Prop where
  frame : f.Frame g
  ledger : g.group.Ledger C
  live : g.group.live = f.group.live
  peer : ∀ r, r ≠ .me → (f.group.peer r).Same (g.group.peer r)
  order : f.Ordered → g.Ordered
  law : Lawful g.group
  state : g.me.state = f.me.state ∨ ((f.me.state = .primary ∨ f.me.state = .secondary) ∧
    (g.me.state = .primary ∨ g.me.state = .secondary))

theorem restate_checked {f g : RvFt} (h : f.group.Ledger C) {state : FtState}
    (hFrame : f.Frame g) (hGroup : g.group = f.group.restate state)
    (hOld : f.me.state = .primary ∨ f.me.state = .secondary)
    (hNew : state = .primary ∨ state = .secondary)
    (hLaw : (state = .primary → f.group.Heads) ∧ (state = .secondary → ¬ f.group.Heads)) :
    f.Checked C g := by
  have hSpec := restate_spec h state
  have hJoin : f.group.meState ≠ .join := by
    change f.me.state ≠ _
    rcases hOld with hEq | hEq <;> rw [hEq] <;> simp
  have hListen : f.group.meState ≠ .listen := by
    change f.me.state ≠ _
    rcases hOld with hEq | hEq <;> rw [hEq] <;> simp
  have hLive : (f.group.restate state).live = f.group.live := restate_live hJoin
  refine ⟨hFrame, by rw [hGroup]; exact hSpec.ledger, by rw [hGroup, hLive],
    by rw [hGroup]; exact hSpec.peer, ?_, ?_, ?_⟩
  · intro hOrder
    unfold Ordered
    rw [hGroup]
    exact restate_order h hNew hListen hOrder
  · unfold Lawful Heads
    rw [hGroup, hSpec.state, hLive]
    exact hLaw
  · right
    refine ⟨hOld, ?_⟩
    have hState : g.me.state = state := by
      rw [RvFt.me, hGroup]
      exact hSpec.state
    rw [hState]
    exact hNew

theorem checkRank_spec {f : RvFt} (h : f.group.Ledger C)
    (hPresent : f.me.state = .primary ∨ f.me.state = .secondary → .me ∈ f.group.live) :
    ∃ g, f.checkRank = some g ∧ f.Checked C g := by
  by_cases hRanked : f.me.state = .primary ∨ f.me.state = .secondary
  · have hMe := hPresent hRanked
    have hLive := List.ne_nil_of_mem hMe
    have hHeads : f.group.ptr 0 = some .me ↔ f.group.Heads := by
      rw [ptr_zero hLive]
      rfl
    have hJoin : f.group.meState ≠ .join := by
      change f.me.state ≠ _
      rcases hRanked with hEq | hEq <;> rw [hEq] <;> simp
    by_cases hFirst : f.group.Heads
    · by_cases hPrimary : f.me.state = .primary
      · refine ⟨f, ?_, Frame.refl f, h, rfl, fun _ _ => FtPeer.Same.refl _, id, ?_, Or.inl rfl⟩
        · simp [checkRank, hPrimary, hHeads, hFirst]
        · exact ⟨fun _ => hFirst, fun hEq => by
            change f.me.state = _ at hEq
            rw [hPrimary] at hEq
            cases hEq⟩
      · have hSecondary := hRanked.resolve_left hPrimary
        obtain ⟨g, hSet, hFrame, hGroup⟩ := setState_primary f 2
        refine ⟨g, ?_, restate_checked h hFrame hGroup hRanked (Or.inl rfl) ⟨fun _ => hFirst, ?_⟩⟩
        · simp only [checkRank, hSecondary, if_true, hHeads, hFirst, ne_eq, not_true, if_false]
          exact hSet
        · intro hEq
          cases hEq
    · obtain ⟨g, hSet, hFrame, hResult⟩ := setState_secondary h
        (by rw [restate_live hJoin]; exact hLive) 1
      have hGroup : g.group = f.group.restate .secondary := by
        rcases hResult with ⟨hGroup, -⟩ | ⟨hHeads', -⟩
        · exact hGroup
        · rw [Heads, restate_live hJoin] at hHeads'
          exact absurd hHeads' hFirst
      refine ⟨g, ?_, restate_checked h hFrame hGroup hRanked (Or.inr rfl) ⟨?_, fun _ => hFirst⟩⟩
      · rcases hRanked with hEq | hEq
        · simp only [checkRank, hEq, reduceCtorEq, if_true, if_false, hHeads, hFirst, ne_eq,
            not_false_eq_true]
          exact hSet
        · simp only [checkRank, hEq, if_true, hHeads, hFirst, ne_eq, not_false_eq_true]
          exact hSet
      · intro hEq
        cases hEq
  · rw [not_or] at hRanked
    refine ⟨f, ?_, Frame.refl f, h, rfl, fun _ _ => FtPeer.Same.refl _, id, ?_, Or.inl rfl⟩
    · simp [checkRank, hRanked.1, hRanked.2]
    · exact ⟨fun hEq => absurd hEq hRanked.1, fun hEq => absurd hEq hRanked.2⟩

end RvFt

end Sassrv.Ft
