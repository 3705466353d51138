import Sassrv.Lib.Serial
import Sassrv.Trdp.Step

/-! Order of delivery. The direct path of `process_msg` does not purge the
saved list, so a packet that was saved and later received again stays behind
the window. When the reliability interval then expires, `merge` moves the
window back to it. As long as the head that `merge` gives up on lies ahead of
the window, and the clock has left zero, seqnos are output in strictly
ascending order. -/
namespace Sassrv.Trdp
open Transition Serial

theorem getWindow_tsid (db : TrdpWindowDB) (tsid : TrdpTsid) :
    (db.getWindow tsid).tsid = tsid := by
  unfold TrdpWindowDB.getWindow
  cases hFind : db.windows.find? (fun w => w.tsid = tsid) with
  | none => rfl
  | some w => simpa using List.find?_some hFind

theorem getWindow_setWindow (db : TrdpWindowDB) (v : TrdpWindow) :
    (db.setWindow v).getWindow v.tsid = v := by
  unfold TrdpWindowDB.setWindow TrdpWindowDB.getWindow
  split
  · rename_i hAny
    simp only
    generalize db.windows = windows at hAny
    induction windows with
    | nil => simp at hAny
    | cons w rest ih =>
        by_cases hw : w.tsid = v.tsid
        · simp [hw]
        · simp only [List.any_cons, hw, decide_false, Bool.false_or] at hAny
          simpa [List.find?_cons, hw] using ih hAny
  · rename_i hAny
    have hNone : db.windows.find? (fun w => decide (w.tsid = v.tsid)) = none := by
      rw [List.find?_eq_none]
      intro w hw hEq
      exact hAny (List.any_eq_true.mpr ⟨w, hw, hEq⟩)
    simp [List.find?_append, hNone]

theorem skipTo_tsid (w : TrdpWindow) (x : TrdpWindowPkt) : (w.skipTo x).tsid = w.tsid := by
  simp only [TrdpWindow.skipTo]
  split <;> rfl

theorem skipTo_lastMonoTime (w : TrdpWindow) (x : TrdpWindowPkt) :
    (w.skipTo x).lastMonoTime = w.lastMonoTime := by
  simp only [TrdpWindow.skipTo]
  split <;> rfl

theorem stampReady_tsid (w : TrdpWindow) (ready : List TrdpWindowPkt) :
    (w.stampReady ready).tsid = w.tsid := by
  unfold TrdpWindow.stampReady
  split <;> rfl

theorem stampReady_lastSeqno (w : TrdpWindow) (ready : List TrdpWindowPkt) :
    (w.stampReady ready).lastSeqno = w.lastSeqno := by
  unfold TrdpWindow.stampReady
  split <;> rfl

theorem MergeOutcome.tsid {w v : TrdpWindow} {hdr : TrdpHdr} {payload : Bytes}
    {now : BitVec 64} {ready : List TrdpWindowPkt}
    (h : MergeOutcome w hdr payload now ready v) : v.tsid = w.tsid := by
  cases h with
  | saved => rfl
  | alone => rfl
  | waits => rfl
  | walked =>
      rw [stampReady_tsid]
      exact skipTo_tsid _ _

theorem DataOutcome.tsid {w v : TrdpWindow} {hdr : TrdpHdr} {payload : Bytes}
    {now : BitVec 64} {handed : List (BitVec 32 × Bytes)}
    (h : DataOutcome w hdr payload now handed v) : v.tsid = w.tsid := by
  cases h with
  | unsynced => rfl
  | first _ hSame => exact hSame.tsid
  | repeated => rfl
  | merged _ hMerge hSame => exact hSame.tsid.trans hMerge.tsid
  | direct _ hSame => exact hSame.tsid

/-- DATA packets of one source whose seqnos lie in a half range over `base`. -/
def FromSource (tsid : TrdpTsid) (base : BitVec 32) (a : Arrival) : Prop :=
  match TrdpHdr.copyIn a.datagram with
  | none => False
  | some hdr => hdr.type = .data ∧ hdr.tsid = tsid ∧ offset base hdr.seqno < 2 ^ 31

instance (tsid : TrdpTsid) (base : BitVec 32) (a : Arrival) :
    Decidable (FromSource tsid base a) :=
  match h : TrdpHdr.copyIn a.datagram with
  | none => isFalse (by simp [FromSource, h])
  | some hdr => decidable_of_iff
      (hdr.type = .data ∧ hdr.tsid = tsid ∧ offset base hdr.seqno < 2 ^ 31)
      (by simp [FromSource, h])

/-- When `merge` is about to walk the saved list, its head is ahead of the
last seqno output. -/
def HeadAhead (w : TrdpWindow) (hdr : TrdpHdr) (payload : Bytes) (now : BitVec 64) : Prop :=
  match insertSaved (.make hdr payload now) w.list with
  | some (x :: _) => w.route hdr = .merged → w.list ≠ [] → ¬ w.Waits x now →
      0 < seqnoDiff x.seqno w.lastSeqno
  | _ => True

instance (w : TrdpWindow) (hdr : TrdpHdr) (payload : Bytes) (now : BitVec 64) :
    Decidable (HeadAhead w hdr payload now) :=
  match h : insertSaved (.make hdr payload now) w.list with
  | some (x :: _) => decidable_of_iff
      (w.route hdr = .merged → w.list ≠ [] → ¬ w.Waits x now →
        0 < seqnoDiff x.seqno w.lastSeqno) (by simp [HeadAhead, h])
  | some [] => isTrue (by simp [HeadAhead, h])
  | none => isTrue (by simp [HeadAhead, h])

/-- The condition on a call and the database before it. -/
def KeepsOrder (db : TrdpWindowDB) (a : Arrival) : Prop :=
  a.curMonoTime ≠ 0 ∧
  match TrdpHdr.copyIn a.datagram with
  | none => True
  | some hdr => HeadAhead (db.getWindow hdr.tsid) hdr
      (a.datagram.slice trdpDataHdrSize hdr.dataLen.toNat) a.curMonoTime

instance (db : TrdpWindowDB) (a : Arrival) : Decidable (KeepsOrder db a) :=
  match h : TrdpHdr.copyIn a.datagram with
  | none => decidable_of_iff (a.curMonoTime ≠ 0) (by simp [KeepsOrder, h])
  | some hdr => decidable_of_iff
      (a.curMonoTime ≠ 0 ∧ HeadAhead (db.getWindow hdr.tsid) hdr
        (a.datagram.slice trdpDataHdrSize hdr.dataLen.toNat) a.curMonoTime)
      (by simp [KeepsOrder, h])

/-- A window that has output exactly `sofar`. Before the first packet it has
saved nothing. Afterwards everything output lies at or below `last_seqno`. -/
structure InOrder (base : BitVec 32) (w : TrdpWindow) (sofar : List (BitVec 32 × Bytes)) :
    Prop where
  fresh : w.lastMonoTime = 0 → sofar = [] ∧ w.list = []
  last : w.lastMonoTime ≠ 0 → offset base w.lastSeqno < 2 ^ 31
  below : ∀ h ∈ sofar, offset base h.1 ≤ offset base w.lastSeqno
  sorted : sofar.Pairwise (fun g h => offset base g.1 < offset base h.1)
  saved : ∀ p ∈ w.list, offset base p.seqno < 2 ^ 31 ∧ p.monoTime ≠ 0

/-- Handing out packets that ascend from above the window keeps the order. -/
theorem InOrder.extend {base : BitVec 32} {w v : TrdpWindow}
    {sofar more : List (BitVec 32 × Bytes)} (h : InOrder base w sofar)
    (hClock : v.lastMonoTime ≠ 0) (hLast : offset base v.lastSeqno < 2 ^ 31)
    (hForward : w.lastMonoTime ≠ 0 → offset base w.lastSeqno ≤ offset base v.lastSeqno)
    (hAbove : w.lastMonoTime ≠ 0 → ∀ g ∈ more, offset base w.lastSeqno < offset base g.1)
    (hBelow : ∀ g ∈ more, offset base g.1 ≤ offset base v.lastSeqno)
    (hSorted : more.Pairwise (fun g h => offset base g.1 < offset base h.1))
    (hSaved : ∀ p ∈ v.list, offset base p.seqno < 2 ^ 31 ∧ p.monoTime ≠ 0) :
    InOrder base v (sofar ++ more) := by
  have hSynced : ∀ g ∈ sofar, w.lastMonoTime ≠ 0 := by
    intro g hg hZero
    rw [(h.fresh hZero).1] at hg
    cases hg
  refine ⟨fun hZero => False.elim (hClock hZero), fun _ => hLast, ?_, ?_, hSaved⟩
  · intro g hg
    rcases List.mem_append.mp hg with hg | hg
    · exact (h.below g hg).trans (hForward (hSynced g hg))
    · exact hBelow g hg
  · refine List.pairwise_append.mpr ⟨h.sorted, hSorted, ?_⟩
    intro g hg k hk
    exact lt_of_le_of_lt (h.below g hg) (hAbove (hSynced g hg) k hk)

/-- Nothing is handed out and the window does not move. -/
theorem InOrder.stay {base : BitVec 32} {w v : TrdpWindow} {sofar : List (BitVec 32 × Bytes)}
    (h : InOrder base w sofar) (hClock : v.lastMonoTime = w.lastMonoTime)
    (hLast : v.lastSeqno = w.lastSeqno) (hList : w.lastMonoTime = 0 → v.list = w.list)
    (hSaved : ∀ p ∈ v.list, offset base p.seqno < 2 ^ 31 ∧ p.monoTime ≠ 0) :
    InOrder base v (sofar ++ []) := by
  rw [List.append_nil]
  refine ⟨?_, ?_, ?_, h.sorted, hSaved⟩
  · intro hZero
    rw [hClock] at hZero
    exact ⟨(h.fresh hZero).1, (hList hZero).trans (h.fresh hZero).2⟩
  · rw [hClock, hLast]
    exact h.last
  · rw [hLast]
    exact h.below

/-- Only the reassembly fields differ. -/
theorem InOrder.same {base : BitVec 32} {w v : TrdpWindow} {sofar : List (BitVec 32 × Bytes)}
    (h : InOrder base w sofar) (hSame : SameWindow w v) : InOrder base v sofar := by
  have hStay := h.stay hSame.lastMonoTime hSame.lastSeqno (fun _ => hSame.list)
    (by rw [hSame.list]; exact h.saved)
  simpa using hStay

theorem route_merged {w : TrdpWindow} {hdr : TrdpHdr} (h : w.route hdr = .merged) :
    w.lastMonoTime ≠ 0 := by
  simp only [TrdpWindow.route] at h
  split_ifs at h
  assumption

theorem route_first {w : TrdpWindow} {hdr : TrdpHdr} (h : w.route hdr = .first) :
    w.lastMonoTime = 0 := by
  simp only [TrdpWindow.route] at h
  split_ifs at h
  assumption

theorem route_direct {w : TrdpWindow} {hdr : TrdpHdr} (h : w.route hdr = .direct) :
    w.lastMonoTime ≠ 0 ∧ seqnoDiff hdr.seqno w.lastSeqno = 1 := by
  simp only [TrdpWindow.route] at h
  split_ifs at h with hClock hFrag hRepeat hMerged
  refine ⟨hClock, ?_⟩
  have hNot : ¬ seqnoDiff hdr.seqno w.lastSeqno > 1 := fun hGt => hMerged (Or.inl hGt)
  omega

/-- The window after a walk stands on the last packet handed out, or right
before the list head when none was. -/
theorem handOut_lastSeqno {w : TrdpWindow} {x : TrdpWindowPkt}
    (hNext : x.seqno = w.lastSeqno + 1) (ready : List TrdpWindowPkt) :
    (ready = [] ∧ (w.handOut ready).lastSeqno = x.seqno - 1) ∨
    ∃ p ∈ ready, (w.handOut ready).lastSeqno = p.seqno ∧ ready.getLast? = some p := by
  cases hLast : ready.getLast? with
  | none =>
      left
      rw [List.getLast?_eq_none_iff] at hLast
      subst hLast
      exact ⟨rfl, by simp [handOut_nil, hNext]⟩
  | some p => exact Or.inr ⟨p, List.mem_of_getLast? hLast, by simp [TrdpWindow.handOut, hLast], rfl⟩

/-- The walk of `merge` under the condition on its head. -/
theorem InOrder.walked {base : BitVec 32} {w : TrdpWindow} {sofar : List (BitVec 32 × Bytes)}
    {x : TrdpWindowPkt} {post ready : List TrdpWindowPkt} (h : InOrder base w sofar)
    (hClock : w.lastMonoTime ≠ 0) (hList : w.list = x :: post)
    (hEnds : MergeEnds x.seqno (x :: post) ready)
    (hAhead : 0 < seqnoDiff x.seqno w.lastSeqno) :
    InOrder base (((w.skipTo x).handOut ready).stampReady ready)
      (sofar ++ ready.map (fun p => (p.seqno, p.data))) ∧
    (((w.skipTo x).handOut ready).stampReady ready).lastMonoTime ≠ 0 ∧
    offset base w.lastSeqno ≤
      offset base (((w.skipTo x).handOut ready).stampReady ready).lastSeqno := by
  have hSaved : ∀ p ∈ x :: post, offset base p.seqno < 2 ^ 31 ∧ p.monoTime ≠ 0 := hList ▸ h.saved
  have hReady : ∀ p ∈ ready, offset base p.seqno < 2 ^ 31 ∧ p.monoTime ≠ 0 :=
    fun p hp => hSaved p (hEnds.isPrefix.subset hp)
  have hx := (hSaved x (List.mem_cons_self ..)).1
  have hGap : offset base w.lastSeqno < offset base x.seqno := by
    rw [seqnoDiff, toInt_sub hx (h.last hClock)] at hAhead
    omega
  have hBefore : offset base (x.seqno - 1) = offset base x.seqno - 1 := offset_sub_one (by omega)
  -- A packet right before the head makes the seqnos handed out a chain.
  have hChain := hEnds.chain { x with seqno := x.seqno - 1 } (by simp)
  have hOrder := pairwise_offset_of_chain base TrdpWindowPkt.seqno
    ({ x with seqno := x.seqno - 1 } :: ready) (by
      intro p hp
      rcases List.mem_cons.mp hp with rfl | hp
      · simp only
        omega
      · exact (hReady p hp).1) hChain
  obtain ⟨hFirst, hSorted⟩ := List.pairwise_cons.mp hOrder
  simp only at hFirst
  set v := ((w.skipTo x).handOut ready).stampReady ready with hv
  have hWindow : v.lastMonoTime ≠ 0 ∧ offset base v.lastSeqno < 2 ^ 31 ∧
      offset base w.lastSeqno ≤ offset base v.lastSeqno ∧
      ∀ p ∈ ready, offset base p.seqno ≤ offset base v.lastSeqno := by
    rw [hv, stampReady_lastSeqno]
    rcases handOut_lastSeqno (skipTo_next w x) ready with
      ⟨rfl, hLast⟩ | ⟨p, hp, hLast, hGet⟩
    · rw [hLast, hBefore]
      refine ⟨?_, by omega, by omega, by simp⟩
      rw [handOut_nil]
      exact (skipTo_lastMonoTime w x).symm ▸ hClock
    · rw [hLast]
      have hpFirst := hFirst p hp
      refine ⟨?_, (hReady p hp).1, by omega, ?_⟩
      · simp only [TrdpWindow.stampReady, hGet]
        exact (hReady p hp).2
      · obtain ⟨init, rfl⟩ := List.getLast?_eq_some_iff.mp hGet
        intro q hq
        rcases List.mem_append.mp hq with hq | hq
        · exact ((List.pairwise_append.mp hSorted).2.2 q hq p (by simp)).le
        · rw [List.mem_singleton.mp hq]
  obtain ⟨hvClock, hvLast, hvForward, hvBelow⟩ := hWindow
  refine ⟨h.extend hvClock hvLast (fun _ => hvForward) ?_ ?_ ?_ ?_, hvClock, hvForward⟩
  · rintro - g hg
    obtain ⟨p, hp, rfl⟩ := List.mem_map.mp hg
    have hpFirst := hFirst p hp
    simp only
    omega
  · intro g hg
    obtain ⟨p, hp, rfl⟩ := List.mem_map.mp hg
    exact hvBelow p hp
  · exact List.pairwise_map.mpr hSorted
  · intro p hp
    rw [hv, stampReady_list, TrdpWindow.handOut, skipTo_list] at hp
    exact h.saved p (List.mem_of_mem_drop hp)

/-- One `merge` call under the condition on its head. -/
theorem InOrder.merge {base : BitVec 32} {w v : TrdpWindow} {sofar : List (BitVec 32 × Bytes)}
    {hdr : TrdpHdr} {payload : Bytes} {now : BitVec 64} {ready : List TrdpWindowPkt}
    (h : InOrder base w sofar) (hClock : w.lastMonoTime ≠ 0) (hNow : now ≠ 0)
    (hSpan : offset base hdr.seqno < 2 ^ 31)
    (hAhead : ∀ x post, insertSaved (.make hdr payload now) w.list = some (x :: post) →
      w.list ≠ [] → ¬ w.Waits x now → 0 < seqnoDiff x.seqno w.lastSeqno)
    (hMerge : MergeOutcome w hdr payload now ready v) :
    InOrder base v (sofar ++ ready.map (fun p => (p.seqno, p.data))) ∧
    v.lastMonoTime ≠ 0 ∧ offset base w.lastSeqno ≤ offset base v.lastSeqno := by
  have hInserted : ∀ {list}, insertSaved (.make hdr payload now) w.list = some list →
      ∀ p ∈ list, offset base p.seqno < 2 ^ 31 ∧ p.monoTime ≠ 0 := by
    intro list hInsert p hp
    rcases List.mem_cons.mp ((insertSaved_perm hInsert).mem_iff.mp hp) with rfl | hp
    · exact ⟨hSpan, hNow⟩
    · exact h.saved p hp
  cases hMerge with
  | saved hInsert =>
      exact ⟨h.stay rfl rfl (fun hZero => False.elim (hClock hZero)) h.saved, hClock,
        Nat.le_refl _⟩
  | alone _ hInsert =>
      exact ⟨h.stay rfl rfl (fun hZero => False.elim (hClock hZero)) (hInserted hInsert),
        hClock, Nat.le_refl _⟩
  | waits hInsert =>
      exact ⟨h.stay rfl rfl (fun hZero => False.elim (hClock hZero)) (hInserted hInsert),
        hClock, Nat.le_refl _⟩
  | @walked x post _ hList hInsert hGo hEnds =>
      have hSave : InOrder base (w.save hdr (x :: post)) sofar := by
        simpa using h.stay (v := w.save hdr (x :: post)) rfl rfl
          (fun hZero => False.elim (hClock hZero)) (hInserted hInsert)
      exact hSave.walked hClock rfl hEnds (hAhead x post hInsert hList hGo)

/-- One DATA packet under the condition. -/
theorem InOrder.recv {base : BitVec 32} {w v : TrdpWindow} {sofar : List (BitVec 32 × Bytes)}
    {hdr : TrdpHdr} {payload : Bytes} {now : BitVec 64} {handed : List (BitVec 32 × Bytes)}
    (h : InOrder base w sofar) (hNow : now ≠ 0) (hSpan : offset base hdr.seqno < 2 ^ 31)
    (hAhead : HeadAhead w hdr payload now) (hData : DataOutcome w hdr payload now handed v) :
    InOrder base v (sofar ++ handed) ∧
    (w.lastMonoTime ≠ 0 →
      v.lastMonoTime ≠ 0 ∧ offset base w.lastSeqno ≤ offset base v.lastSeqno) := by
  cases hData with
  | unsynced => exact ⟨h.stay rfl rfl (fun _ => rfl) h.saved, fun hSync => ⟨hSync, Nat.le_refl _⟩⟩
  | repeated => exact ⟨h.stay rfl rfl (fun _ => rfl) h.saved, fun hSync => ⟨hSync, Nat.le_refl _⟩⟩
  | first hRoute hSame =>
      have hZero := route_first hRoute
      refine ⟨h.extend ?_ ?_ ?_ ?_ ?_ ?_ ?_, fun hSync => False.elim (hSync hZero)⟩
      · rw [hSame.lastMonoTime]
        exact hNow
      · rw [hSame.lastSeqno]
        exact hSpan
      · exact fun hSync => False.elim (hSync hZero)
      · exact fun hSync => False.elim (hSync hZero)
      · intro g hg
        rw [List.mem_singleton.mp hg, hSame.lastSeqno]
        exact Nat.le_refl _
      · exact List.pairwise_singleton _ _
      · rw [hSame.list]
        exact h.saved
  | direct hRoute hSame =>
      obtain ⟨hSync, hDiff⟩ := route_direct hRoute
      have hLast := h.last hSync
      have hNext : offset base hdr.seqno = offset base w.lastSeqno + 1 := by
        rw [seqnoDiff, toInt_sub hSpan hLast] at hDiff
        omega
      have hStep : offset base (w.lastSeqno + 1) = offset base w.lastSeqno + 1 := offset_add_one hLast
      have hSeqno := hSame.lastSeqno
      simp only [TrdpWindow.note] at hSeqno
      refine ⟨h.extend hNow ?_ ?_ ?_ ?_ ?_ ?_, fun _ => ⟨hNow, ?_⟩⟩
      · simp only [hSeqno, hStep]
        omega
      · rintro -
        simp only [hSeqno, hStep]
        omega
      · rintro - g hg
        rw [List.mem_singleton.mp hg]
        simp only [hNext]
        omega
      · intro g hg
        rw [List.mem_singleton.mp hg]
        simp only [hSeqno, hStep, hNext]
        exact Nat.le_refl _
      · exact List.pairwise_singleton _ _
      · intro p hp
        simp only [hSame.list] at hp
        exact h.saved p hp
      · simp only [hSeqno, hStep]
        omega
  | merged hRoute hMerge hSame =>
      have hSync := route_merged hRoute
      have hNote : InOrder base (w.note hdr) sofar := by
        simpa using h.stay (v := w.note hdr) rfl rfl (fun _ => rfl) h.saved
      have hHead : ∀ x post, insertSaved (.make hdr payload now) (w.note hdr).list =
          some (x :: post) → (w.note hdr).list ≠ [] → ¬ (w.note hdr).Waits x now →
          0 < seqnoDiff x.seqno (w.note hdr).lastSeqno := by
        intro x post hInsert
        change insertSaved (.make hdr payload now) w.list = some (x :: post) at hInsert
        simp only [HeadAhead, hInsert] at hAhead
        exact hAhead hRoute
      obtain ⟨hOrder, hClock, hForward⟩ := hNote.merge hSync hNow hSpan hHead hMerge
      refine ⟨hOrder.same hSame, fun _ => ⟨?_, ?_⟩⟩
      · rw [hSame.lastMonoTime]
        exact hClock
      · rw [hSame.lastSeqno]
        exact hForward

/-- The state of one source's window with everything output for it so far. -/
def SourceInv (tsid : TrdpTsid) (base : BitVec 32) (db : TrdpWindowDB)
    (sofar : List (BitVec 32 × Bytes)) : Prop :=
  db.Wf ∧ InOrder base (db.getWindow tsid) sofar

/-- The runs the statement is about: DATA packets of one source, each call
meeting the condition. -/
def orderedRuns (tsid : TrdpTsid) (base : BitVec 32) :=
  trdpSystem.guard (fun db a => FromSource tsid base a ∧ KeepsOrder db a)

theorem SourceInv.step {tsid : TrdpTsid} {base : BitVec 32} {db db' : TrdpWindowDB}
    {sofar handed : List (BitVec 32 × Bytes)} {a : Arrival}
    (h : SourceInv tsid base db sofar)
    (hStep : (orderedRuns tsid base).step db a handed db') :
    SourceInv tsid base db' (sofar ++ handed) ∧
    ((db.getWindow tsid).lastMonoTime ≠ 0 → (db'.getWindow tsid).lastMonoTime ≠ 0 ∧
      offset base (db.getWindow tsid).lastSeqno ≤ offset base (db'.getWindow tsid).lastSeqno) := by
  obtain ⟨⟨hSource, hNow, hAhead⟩, hCall⟩ := hStep
  obtain ⟨hWf, hOrder⟩ := h
  obtain ⟨hdr, hHdr⟩ : ∃ hdr, TrdpHdr.copyIn a.datagram = some hdr := by
    cases hHdr : TrdpHdr.copyIn a.datagram with
    | none => simp [FromSource, hHdr] at hSource
    | some hdr => exact ⟨hdr, rfl⟩
  simp only [FromSource, hHdr] at hSource
  simp only [hHdr] at hAhead
  obtain ⟨hType, rfl, hSpan⟩ := hSource
  have hOutcome := process_outcome hWf hCall
  have hWf' := hOutcome.wf hWf
  cases hOutcome with
  | ignored => exact ⟨⟨hWf, by simpa using hOrder⟩, fun hSync => ⟨hSync, Nat.le_refl _⟩⟩
  | nak hHdr' hType' =>
      rw [hHdr] at hHdr'
      cases hHdr'
      rw [hType] at hType'
      cases hType'
  | @data hdr' w _ _ hHdr' hType' hData hWindows =>
      rw [hHdr] at hHdr'
      cases hHdr'
      have hWindow : db'.getWindow hdr.tsid = w := by
        have hTsid : w.tsid = hdr.tsid := hData.tsid.trans (getWindow_tsid db hdr.tsid)
        have hSet := getWindow_setWindow db w
        rw [hTsid] at hSet
        rw [← hSet]
        unfold TrdpWindowDB.getWindow
        rw [hWindows]
      rw [hWindow]
      obtain ⟨hNew, hForward⟩ := hOrder.recv hNow hSpan hAhead hData
      exact ⟨⟨hWf', by rw [hWindow]; exact hNew⟩, hForward⟩

theorem SourceInv.start (tsid : TrdpTsid) (base : BitVec 32) : SourceInv tsid base {} [] := by
  refine ⟨by simp [TrdpWindowDB.Wf], ?_⟩
  have hWindow : TrdpWindowDB.getWindow {} tsid = { tsid := tsid } := rfl
  rw [hWindow]
  exact ⟨fun _ => ⟨rfl, rfl⟩, fun h => False.elim (h rfl), by simp, List.Pairwise.nil, by simp⟩

/-- In every run whose calls all meet the condition, what is handed to
`output` ascends strictly, and from any state of the run to any later one
`last_seqno` does not move backwards. -/
theorem delivery_ascends (tsid : TrdpTsid) (base : BitVec 32) {db db' : TrdpWindowDB}
    {inputs inputs' : List Arrival} {handed handed' : List (BitVec 32 × Bytes)}
    (run : (orderedRuns tsid base).Run {} inputs handed db)
    (run' : (orderedRuns tsid base).Run db inputs' handed' db') :
    (handed ++ handed').Pairwise (fun g h => offset base g.1 < offset base h.1) ∧
    ((db.getWindow tsid).lastMonoTime ≠ 0 →
      offset base (db.getWindow tsid).lastSeqno ≤ offset base (db'.getWindow tsid).lastSeqno) := by
  have hMiddle : SourceInv tsid base db handed := by
    simpa using run.invariant_outputs (SourceInv tsid base)
      (fun _ _ _ _ _ h hStep => (h.step hStep).1) (SourceInv.start tsid base)
  have hFinal := run'.invariant_outputs
    (fun s sofar => SourceInv tsid base s sofar ∧
      ((db.getWindow tsid).lastMonoTime ≠ 0 → (s.getWindow tsid).lastMonoTime ≠ 0 ∧
        offset base (db.getWindow tsid).lastSeqno ≤ offset base (s.getWindow tsid).lastSeqno))
    (fun s sofar input emitted t h hStep => by
      obtain ⟨hInv, hForward⟩ := h.1.step hStep
      refine ⟨hInv, fun hSync => ?_⟩
      obtain ⟨hs, hle⟩ := h.2 hSync
      obtain ⟨ht, hle'⟩ := hForward hs
      exact ⟨ht, hle.trans hle'⟩)
    ⟨hMiddle, fun hSync => ⟨hSync, Nat.le_refl _⟩⟩
  exact ⟨hFinal.1.2.sorted, fun hSync => (hFinal.2 hSync).2⟩

/-- A packet of one source at a clock value, one whole rv message. -/
def ping (seqno : BitVec 32) (now : BitVec 64) : Arrival :=
  ⟨dataDatagram ⟨1, 1⟩ seqno 8 0 (beBytes32 8 ++ beBytes32 rvMagic), now⟩

/-- Execution of the guarded system on small inputs. -/
def stepOrdered (tsid : TrdpTsid) (base : BitVec 32) (db : TrdpWindowDB) (a : Arrival) :
    Option (TrdpWindowDB × List (BitVec 32 × Bytes)) :=
  if FromSource tsid base a ∧ KeepsOrder db a then
    db.processMsg 4 a.datagram a.curMonoTime
  else none

theorem stepOrdered_step {tsid : TrdpTsid} {base : BitVec 32} {db db' : TrdpWindowDB}
    {a : Arrival} {handed : List (BitVec 32 × Bytes)}
    (h : stepOrdered tsid base db a = some (db', handed)) :
    (orderedRuns tsid base).step db a handed db' := by
  unfold stepOrdered at h
  split at h
  · rename_i hOk
    exact ⟨hOk, 4, h⟩
  · cases h

/-- Seqno 3 is saved after a gap and handed out when the interval expires. -/
theorem delivery_ascends_gap :
    ∃ db db' handed handed',
      (orderedRuns ⟨1, 1⟩ 1).Run {} [ping 1 1, ping 3 2] handed db ∧
      (orderedRuns ⟨1, 1⟩ 1).Run db [ping 5 3000000002] handed' db' ∧
      (db.getWindow ⟨1, 1⟩).lastMonoTime ≠ 0 ∧
      (handed ++ handed').map (fun h => h.1) = [1, 3] ∧
      (handed ++ handed').Pairwise (fun g h => offset 1 g.1 < offset 1 h.1) ∧
      offset 1 (db.getWindow ⟨1, 1⟩).lastSeqno ≤ offset 1 (db'.getWindow ⟨1, 1⟩).lastSeqno := by
  have hStep := fun s a t handed => @stepOrdered_step ⟨1, 1⟩ 1 s t a handed
  have run := System.Run.of_runAll hStep
    (Option.some_get (show (System.runAll (stepOrdered ⟨1, 1⟩ 1) {}
      [ping 1 1, ping 3 2]).isSome by decide)).symm
  have run' := System.Run.of_runAll hStep
    (Option.some_get (show (System.runAll (stepOrdered ⟨1, 1⟩ 1)
      ((System.runAll (stepOrdered ⟨1, 1⟩ 1) {} [ping 1 1, ping 3 2]).get (by decide)).1
      [ping 5 3000000002]).isSome by decide)).symm
  obtain ⟨hSorted, hForward⟩ := delivery_ascends ⟨1, 1⟩ 1 run run'
  exact ⟨_, _, _, _, run, run', by decide, by decide, hSorted, hForward (by decide)⟩

/-- Seqno 3 is saved, 2 fills the gap, 3 arrives again on the direct path and
stays saved. The next gap then outlives the interval and 3 is output twice. -/
theorem delivery_can_repeat :
    ¬ ∀ (tsid : TrdpTsid) (base : BitVec 32) (db : TrdpWindowDB) (inputs : List Arrival)
      (handed : List (BitVec 32 × Bytes)), trdpSystem.Run {} inputs handed db →
      (∀ a ∈ inputs, FromSource tsid base a) →
      inputs.Pairwise (fun a b => a.curMonoTime ≤ b.curMonoTime) →
      (∀ a ∈ inputs, a.curMonoTime ≠ 0) →
      handed.Pairwise (fun g h => offset base g.1 < offset base h.1) := by
  intro h
  have hStep : ∀ s a t handed, TrdpWindowDB.processMsg 4 s a.datagram a.curMonoTime =
      some (t, handed) → trdpSystem.step s a handed t := fun _ _ _ _ h => ⟨4, h⟩
  have run := System.Run.of_runAll hStep
    (Option.some_get (show (System.runAll
      (fun db a => TrdpWindowDB.processMsg 4 db a.datagram a.curMonoTime) {}
      [ping 1 1, ping 3 2, ping 2 3, ping 3 4, ping 5 1000000004]).isSome by decide)).symm
  have hSorted := h ⟨1, 1⟩ 1 _ _ _ run (by decide) (by decide) (by decide)
  revert hSorted
  decide

end Sassrv.Trdp
