import Mathlib.Data.List.Chain
import Sassrv.Trdp.Window

/-! The saved packet list. It is strictly ascending by unsigned seqno, and
the loop of `merge` walks whole messages off its head. `MergeEnds` describes
the walk without fuel; the loop returns exactly along it. -/
namespace Sassrv.Trdp

/-- Strictly ascending by unsigned seqno. -/
def Ascending (pkts : List TrdpWindowPkt) : Prop :=
  pkts.Pairwise (fun p q => p.seqno.toNat < q.seqno.toNat)

theorem insertSaved_perm {x : TrdpWindowPkt} {pkts out : List TrdpWindowPkt}
    (h : insertSaved x pkts = some out) : out.Perm (x :: pkts) := by
  induction pkts generalizing out with
  | nil =>
      obtain rfl := Option.some.inj h
      exact List.Perm.refl _
  | cons p rest ih =>
      simp only [insertSaved] at h
      split at h
      · cases h
      · split at h
        · obtain rfl := Option.some.inj h
          exact List.Perm.refl _
        · rw [Option.map_eq_some_iff] at h
          obtain ⟨tail, hTail, rfl⟩ := h
          exact ((ih hTail).cons p).trans (List.Perm.swap x p rest)

theorem insertSaved_ne_nil {x : TrdpWindowPkt} {pkts : List TrdpWindowPkt} :
    insertSaved x pkts ≠ some [] := by
  intro h
  have hLength := (insertSaved_perm h).length_eq
  simp at hLength

/-- Inserting keeps the order. A seqno that is already saved is refused. -/
theorem insertSaved_ascending {x : TrdpWindowPkt} {pkts out : List TrdpWindowPkt}
    (hOrder : Ascending pkts) (h : insertSaved x pkts = some out) : Ascending out := by
  induction pkts generalizing out with
  | nil =>
      obtain rfl := Option.some.inj h
      exact List.pairwise_singleton _ _
  | cons p rest ih =>
      obtain ⟨hHead, hRest⟩ := List.pairwise_cons.mp hOrder
      simp only [insertSaved] at h
      split at h
      · cases h
      · rename_i hNe
        split at h
        · rename_i hLt
          obtain rfl := Option.some.inj h
          refine List.pairwise_cons.mpr ⟨?_, hOrder⟩
          intro q hq
          have hFirst : x.seqno.toNat < p.seqno.toNat := hLt
          rcases List.mem_cons.mp hq with rfl | hq
          · exact hFirst
          · exact hFirst.trans (hHead q hq)
        · rename_i hGe
          rw [Option.map_eq_some_iff] at h
          obtain ⟨tail, hTail, rfl⟩ := h
          refine List.pairwise_cons.mpr ⟨?_, ih hRest hTail⟩
          intro q hq
          have hBelow : p.seqno.toNat < x.seqno.toNat := by
            have hNeNat : p.seqno.toNat ≠ x.seqno.toNat :=
              fun hEq => hNe (BitVec.eq_of_toNat_eq hEq)
            have hNotLt : ¬ x.seqno.toNat < p.seqno.toNat := hGe
            omega
          rcases List.mem_cons.mp ((insertSaved_perm hTail).mem_iff.mp hq) with rfl | hq
          · exact hBelow
          · exact hHead q hq

/-- The fragments walked over are the packets right after `x`. -/
theorem fragmentRun_take (total : BitVec 32) (x : TrdpWindowPkt) (post : List TrdpWindowPkt) :
    post.take (fragmentRun total x post).2.length = (fragmentRun total x post).2 := by
  induction post generalizing total x with
  | nil => rfl
  | cons y rest ih =>
      simp only [fragmentRun]
      split
      · rfl
      · split
        · simp
        · simpa using ih _ _

/-- They carry the seqnos that follow the one of `x`. -/
theorem fragmentRun_seqnos (total : BitVec 32) (x : TrdpWindowPkt)
    (post : List TrdpWindowPkt) :
    List.IsChain (fun p q => q.seqno = p.seqno + 1) (x :: (fragmentRun total x post).2) := by
  induction post generalizing total x with
  | nil => simp [fragmentRun]
  | cons y rest ih =>
      simp only [fragmentRun]
      split
      · simp
      · rename_i hNext
        have hNext : y.seqno = x.seqno + 1 := not_not.mp hNext
        split
        · simp [hNext]
        · simpa [hNext] using ih _ y

theorem messageRun_take (x : TrdpWindowPkt) (post : List TrdpWindowPkt) :
    post.take (messageRun x post).2.length = (messageRun x post).2 := by
  simp only [messageRun]
  split
  · rfl
  · exact fragmentRun_take _ x post

theorem messageRun_append (x : TrdpWindowPkt) (post : List TrdpWindowPkt) :
    (messageRun x post).2 ++ post.drop (messageRun x post).2.length = post := by
  conv_rhs => rw [← List.take_append_drop (messageRun x post).2.length post]
  rw [messageRun_take]

theorem messageRun_seqnos (x : TrdpWindowPkt) (post : List TrdpWindowPkt) :
    List.IsChain (fun p q => q.seqno = p.seqno + 1) (x :: (messageRun x post).2) := by
  simp only [messageRun]
  split
  · simp
  · exact fragmentRun_seqnos _ x post

theorem lastOf_mem (x : TrdpWindowPkt) (run : List TrdpWindowPkt) : lastOf x run ∈ x :: run := by
  induction run generalizing x with
  | nil => simp [lastOf]
  | cons y rest ih =>
      rw [lastOf, List.getLastD_cons]
      exact List.mem_cons_of_mem _ (ih y)

/-- In ascending order a walk that has moved does not stand on its start. -/
theorem lastOf_seqno_ne {x : TrdpWindowPkt} {run : List TrdpWindowPkt}
    (rest : List TrdpWindowPkt) (hOrder : Ascending (x :: (run ++ rest))) (hRun : run ≠ []) :
    (lastOf x run).seqno ≠ x.seqno := by
  obtain ⟨y, tail, rfl⟩ := List.exists_cons_of_ne_nil hRun
  have hLast : lastOf x (y :: tail) ∈ y :: tail ++ rest := by
    have hMem := lastOf_mem y tail
    simp only [lastOf, List.getLastD_cons] at hMem ⊢
    exact List.mem_append_left rest hMem
  have hLt := (List.pairwise_cons.mp hOrder).1 _ hLast
  intro hEq
  rw [hEq] at hLt
  exact Nat.lt_irrefl _ hLt

/-- The walk of `merge` over the saved list from the expected seqno. It stops
at a gap, or at an incomplete message of which at least two packets are
there. A lone incomplete fragment at the expected seqno has no case. The last
argument is the list of packets handed out. -/
inductive MergeEnds : BitVec 32 → List TrdpWindowPkt → List TrdpWindowPkt → Prop where
  | drained (expected : BitVec 32) : MergeEnds expected [] []
  | gap {expected : BitVec 32} {x : TrdpWindowPkt} {post : List TrdpWindowPkt}
      (hGap : x.seqno ≠ expected) : MergeEnds expected (x :: post) []
  | incomplete {expected : BitVec 32} {x : TrdpWindowPkt} {post : List TrdpWindowPkt}
      (hNext : x.seqno = expected) (hTotal : (messageRun x post).1 ≠ 0)
      (hRun : (messageRun x post).2 ≠ []) : MergeEnds expected (x :: post) []
  | message {expected : BitVec 32} {x : TrdpWindowPkt} {post ready : List TrdpWindowPkt}
      (hNext : x.seqno = expected) (hTotal : (messageRun x post).1 = 0)
      (rest : MergeEnds ((lastOf x (messageRun x post).2).seqno + 1)
        (post.drop (messageRun x post).2.length) ready) :
      MergeEnds expected (x :: post) (x :: (messageRun x post).2 ++ ready)

/-- The packets handed out are the head of the saved list. -/
theorem MergeEnds.isPrefix {expected : BitVec 32} {pkts ready : List TrdpWindowPkt}
    (h : MergeEnds expected pkts ready) : ready <+: pkts := by
  induction h with
  | drained => exact List.nil_prefix
  | gap => exact List.nil_prefix
  | incomplete => exact List.nil_prefix
  | @message expected x post ready hNext hTotal rest ih =>
      have hPost := messageRun_append x post
      obtain ⟨tail, hTail⟩ := ih
      refine ⟨tail, ?_⟩
      rw [List.append_assoc, hTail, List.cons_append, hPost]

/-- They carry consecutive seqnos from the expected one on. -/
theorem MergeEnds.chain {expected : BitVec 32} {pkts ready : List TrdpWindowPkt}
    (h : MergeEnds expected pkts ready) (p : TrdpWindowPkt) (hp : p.seqno + 1 = expected) :
    List.IsChain (fun p q => q.seqno = p.seqno + 1) (p :: ready) := by
  induction h generalizing p with
  | drained => exact List.isChain_singleton _
  | gap => exact List.isChain_singleton _
  | incomplete => exact List.isChain_singleton _
  | @message expected x post ready hNext hTotal rest ih =>
      have hTail := ih (lastOf x (messageRun x post).2) rfl
      have hRun : List.IsChain (fun p q => q.seqno = p.seqno + 1)
          (p :: x :: (messageRun x post).2) :=
        List.isChain_cons_cons.mpr ⟨hNext.trans hp.symm, messageRun_seqnos x post⟩
      refine hRun.append hTail.tail ?_
      intro y hy z hz
      have hLast : y = lastOf x (messageRun x post).2 := by
        simpa [List.getLast?_cons, lastOf, eq_comm] using hy
      rw [hLast]
      exact hTail.rel_head? hz

theorem MergeEnds.unique {expected : BitVec 32} {pkts first second : List TrdpWindowPkt}
    (hFirst : MergeEnds expected pkts first) (hSecond : MergeEnds expected pkts second) :
    first = second := by
  induction hFirst generalizing second with
  | drained => cases hSecond; rfl
  | gap hGap =>
      cases hSecond with
      | gap => rfl
      | incomplete => rfl
      | message hNext => exact False.elim (hGap hNext)
  | incomplete _ hTotal =>
      cases hSecond with
      | gap => rfl
      | incomplete => rfl
      | message _ hTotal' => exact False.elim (hTotal hTotal')
  | message hNext hTotal _ ih =>
      cases hSecond with
      | gap hGap => exact False.elim (hGap hNext)
      | incomplete _ hTotal' => exact False.elim (hTotal' hTotal)
      | message _ _ rest => rw [ih rest]

theorem ascending_drop {x : TrdpWindowPkt} {post : List TrdpWindowPkt}
    (h : Ascending (x :: post)) (n : Nat) : Ascending (post.drop n) :=
  (List.pairwise_cons.mp h).2.sublist (List.drop_sublist n post)

theorem mergeLoop_mono {fuel more : Nat} (hMore : fuel ≤ more) {w : TrdpWindow}
    {ready pre post : List TrdpWindowPkt} {x : TrdpWindowPkt}
    {result : TrdpWindow × List TrdpWindowPkt}
    (h : mergeLoop fuel w ready pre x post = some result) :
    mergeLoop more w ready pre x post = some result := by
  induction fuel generalizing more w ready pre x post with
  | zero => simp [mergeLoop] at h
  | succ fuel ih =>
      obtain ⟨more, rfl⟩ : ∃ m, more = m + 1 := ⟨more - 1, by omega⟩
      have hLe : fuel ≤ more := by omega
      simp only [mergeLoop] at h ⊢
      split at h
      · rename_i hTotal
        rw [if_pos hTotal]
        cases hRest : post.drop (messageRun x post).2.length with
        | nil => simpa only [hRest] using h
        | cons z zs =>
            simp only [hRest] at h ⊢
            split at h
            · rename_i hNext
              rw [if_pos hNext]
              exact ih hLe h
            · rename_i hNext
              rw [if_neg hNext]
              exact h
      · rename_i hTotal
        rw [if_neg hTotal]
        split at h
        · rename_i hNext
          rw [if_pos hNext]
          exact ih hLe h
        · rename_i hNext
          rw [if_neg hNext]
          exact h

/-- The window after the loop handed out `ready`. -/
def TrdpWindow.handOut (w : TrdpWindow) (ready : List TrdpWindowPkt) : TrdpWindow :=
  { w with
    list := w.list.drop ready.length
    saveSize := w.saveSize - dataSize ready
    lastSeqno := (ready.getLast?.map (·.seqno)).getD w.lastSeqno }

theorem handOut_nil (w : TrdpWindow) : w.handOut [] = w := by
  simp [TrdpWindow.handOut, dataSize]

theorem dataSize_append (first second : List TrdpWindowPkt) :
    dataSize (first ++ second) = dataSize first + dataSize second := by
  simp [dataSize]

theorem handOut_append (w : TrdpWindow) (first second : List TrdpWindowPkt) :
    (w.handOut first).handOut second = w.handOut (first ++ second) := by
  simp only [TrdpWindow.handOut, List.drop_drop, List.length_append, dataSize_append,
    List.getLast?_append]
  congr 1
  · cases second.getLast? <;> rfl
  · rw [BitVec.sub_sub]

theorem handOut_cons_lastSeqno (w : TrdpWindow) (x : TrdpWindowPkt)
    (run : List TrdpWindowPkt) : (w.handOut (x :: run)).lastSeqno = (lastOf x run).seqno := by
  simp [TrdpWindow.handOut, lastOf, List.getLast?_cons]

/-- Removing one whole message is the window update of a loop pass. -/
theorem handOut_message {w : TrdpWindow} {x : TrdpWindowPkt} {post run : List TrdpWindowPkt}
    (hList : w.list = x :: post) :
    w.handOut (x :: run) =
      { w with
        list := post.drop run.length, saveSize := w.saveSize - dataSize (x :: run),
        lastSeqno := (lastOf x run).seqno } := by
  simp [TrdpWindow.handOut, lastOf, List.getLast?_cons, hList]

/-- The pass of the loop that completes a message. -/
theorem mergeLoop_message {w : TrdpWindow} {x : TrdpWindowPkt} {post : List TrdpWindowPkt}
    (hList : w.list = x :: post) (hTotal : (messageRun x post).1 = 0)
    (fuel : Nat) (ready : List TrdpWindowPkt) :
    mergeLoop (fuel + 1) w ready [] x post =
      let popped := x :: (messageRun x post).2
      match post.drop (messageRun x post).2.length with
      | [] => some (w.handOut popped, ready ++ popped)
      | z :: zs =>
          if z.seqno = (lastOf x (messageRun x post).2).seqno + 1 then
            mergeLoop fuel (w.handOut popped) (ready ++ popped) [] z zs
          else some (w.handOut popped, ready ++ popped) := by
  have hStep := Eq.refl (mergeLoop (fuel + 1) w ready [] x post)
  conv_rhs at hStep =>
    simp only [mergeLoop, List.nil_append, if_pos hTotal, ← handOut_message hList]
  exact hStep

/-- A finished loop has walked the saved list as `MergeEnds` says. -/
theorem mergeLoop_ends {fuel : Nat} {w v : TrdpWindow} {ready out post : List TrdpWindowPkt}
    {x : TrdpWindowPkt} (hOrder : Ascending (x :: post)) (hList : w.list = x :: post)
    (hNext : x.seqno = w.lastSeqno + 1)
    (h : mergeLoop fuel w ready [] x post = some (v, out)) :
    ∃ more, MergeEnds x.seqno (x :: post) more ∧ out = ready ++ more ∧ v = w.handOut more := by
  induction fuel generalizing w ready x post with
  | zero => simp [mergeLoop] at h
  | succ fuel ih =>
      by_cases hTotal : (messageRun x post).1 = 0
      · rw [mergeLoop_message hList hTotal] at h
        have hRestOrder := ascending_drop hOrder (messageRun x post).2.length
        have hRestList : (w.handOut (x :: (messageRun x post).2)).list =
            post.drop (messageRun x post).2.length := by
          simp [TrdpWindow.handOut, hList]
        have hLast := handOut_cons_lastSeqno w x (messageRun x post).2
        have hClose : ∀ {more}, MergeEnds ((lastOf x (messageRun x post).2).seqno + 1)
            (post.drop (messageRun x post).2.length) more →
            MergeEnds x.seqno (x :: post) (x :: (messageRun x post).2 ++ more) :=
          fun rest => .message rfl hTotal rest
        cases hRest : post.drop (messageRun x post).2.length with
        | nil =>
            simp only [hRest] at h hClose
            obtain ⟨rfl, rfl⟩ := Prod.mk.inj (Option.some.inj h)
            exact ⟨_, hClose (.drained _), by simp, by simp⟩
        | cons z zs =>
            simp only [hRest] at h hClose hRestOrder hRestList
            split at h
            · rename_i hZ
              obtain ⟨more, hMore, hOut, hV⟩ := ih hRestOrder hRestList (by rw [hLast, hZ]) h
              rw [hZ] at hMore
              refine ⟨_, hClose hMore, ?_, ?_⟩
              · rw [hOut, List.append_assoc]
              · rw [hV, handOut_append]
            · rename_i hZ
              obtain ⟨rfl, rfl⟩ := Prod.mk.inj (Option.some.inj h)
              exact ⟨_, hClose (.gap hZ), by simp, by simp⟩
      · simp only [mergeLoop, if_neg hTotal] at h
        by_cases hRun : (messageRun x post).2 = []
        · -- The pass changed nothing, so the loop goes round in the same state.
          simp only [hRun, lastOf, List.getLastD_nil, List.dropLast_singleton, List.nil_append,
            List.length_nil, List.drop_zero, if_pos hNext] at h
          exact ih hOrder hList hNext h
        · have hMoved := lastOf_seqno_ne (post.drop (messageRun x post).2.length)
            (by rw [messageRun_append]; exact hOrder) hRun
          rw [if_neg (by rw [← hNext]; exact hMoved)] at h
          obtain ⟨rfl, rfl⟩ := Prod.mk.inj (Option.some.inj h)
          exact ⟨[], .incomplete rfl hTotal hRun, by simp, (handOut_nil w).symm⟩

/-- Along `MergeEnds` the loop finishes. -/
theorem mergeLoop_of_ends {expected : BitVec 32} {pkts more : List TrdpWindowPkt}
    (hEnds : MergeEnds expected pkts more) {w : TrdpWindow} {x : TrdpWindowPkt}
    {post : List TrdpWindowPkt} (hPkts : pkts = x :: post) (hExpected : x.seqno = expected)
    (hOrder : Ascending (x :: post)) (hList : w.list = x :: post)
    (hNext : x.seqno = w.lastSeqno + 1) (ready : List TrdpWindowPkt) :
    ∃ fuel result, mergeLoop fuel w ready [] x post = some result := by
  induction hEnds generalizing w x post ready with
  | drained => cases hPkts
  | gap hGap =>
      obtain ⟨rfl, rfl⟩ := List.cons.inj hPkts
      exact False.elim (hGap hExpected)
  | @incomplete expected z tail _ hTotal hRun =>
      obtain ⟨rfl, rfl⟩ := List.cons.inj hPkts
      have hMoved := lastOf_seqno_ne (tail.drop (messageRun z tail).2.length)
        (by rw [messageRun_append]; exact hOrder) hRun
      refine ⟨1, ?_⟩
      simp only [mergeLoop]
      rw [if_neg hTotal, if_neg (by rw [← hNext]; exact hMoved)]
      exact ⟨_, rfl⟩
  | @message expected z tail handed _ hTotal rest ih =>
      obtain ⟨rfl, rfl⟩ := List.cons.inj hPkts
      have hRestOrder := ascending_drop hOrder (messageRun z tail).2.length
      have hRestList : (w.handOut (z :: (messageRun z tail).2)).list =
          tail.drop (messageRun z tail).2.length := by
        simp [TrdpWindow.handOut, hList]
      have hLast := handOut_cons_lastSeqno w z (messageRun z tail).2
      cases hRest : tail.drop (messageRun z tail).2.length with
      | nil =>
          refine ⟨1, ?_⟩
          simp only [mergeLoop_message hList hTotal, hRest]
          exact ⟨_, rfl⟩
      | cons y ys =>
          by_cases hY : y.seqno = (lastOf z (messageRun z tail).2).seqno + 1
          · rw [hRest] at hRestOrder hRestList
            obtain ⟨fuel, result, hLoop⟩ := ih hRest hY hRestOrder hRestList (by rw [hLast, hY])
              (ready ++ z :: (messageRun z tail).2)
            refine ⟨fuel + 1, result, ?_⟩
            simp only [mergeLoop_message hList hTotal, hRest, if_pos hY]
            exact hLoop
          · refine ⟨1, ?_⟩
            simp only [mergeLoop_message hList hTotal, hRest, if_neg hY]
            exact ⟨_, rfl⟩

end Sassrv.Trdp
