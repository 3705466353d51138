import Mathlib.Data.List.Infix
import Sassrv.Trdp.Delivery
import Sassrv.Trdp.Fragments

/-! Reassembly of an rv message from its packets in any order. They are saved until
all are there; then `merge` hands them out and `output` puts them together. -/
namespace Sassrv.Trdp
open Transition

/-- A window between messages that has everything up to a seqno. -/
structure TrdpWindow.Clean (w : TrdpWindow) (tsid : TrdpTsid) (s : BitVec 32) : Prop where
  source : w.tsid = tsid
  lastSeqno : w.lastSeqno = s
  synced : w.lastMonoTime ≠ 0
  nothing : w.list = []
  between : w.outputLen = 0

/-- A window that has some packets of the message after `s` saved. -/
structure SplitMessage.Filling (m : SplitMessage) (tsid : TrdpTsid) (s : BitVec 32)
    (clock : BitVec 64) (seen : List Nat) (w : TrdpWindow) : Prop where
  source : w.tsid = tsid
  lastSeqno : w.lastSeqno = s
  clockIs : w.lastMonoTime = clock
  synced : clock ≠ 0
  between : w.outputLen = 0
  filled : m.Filled s seen w.list

variable {m : SplitMessage} {tsid : TrdpTsid} {s : BitVec 32} {clock now : BitVec 64}
  {seen : List Nat} {i fuel : Nat} {w v : TrdpWindow} {hdr : TrdpHdr} {payload : Bytes}
  {handed : List (BitVec 32 × Bytes)} {sent : List Bytes}

theorem TrdpWindow.Clean.filling (h : w.Clean tsid s) :
    m.Filling tsid s w.lastMonoTime [] w where
  source := h.source
  lastSeqno := h.lastSeqno
  clockIs := rfl
  synced := h.synced
  between := h.between
  filled := by
    rw [h.nothing]
    exact ⟨List.Pairwise.nil, nofun, nofun⟩

namespace SplitMessage

theorem Filled.wf (h : m.Filled s seen w.list) : w.Wf := by
  refine ⟨h.ascending, fun p hMem => ?_⟩
  obtain ⟨i, -, hSaved⟩ := h.saved p hMem
  rw [hSaved.dataLen, BitVec.toNat_ofNat, Nat.mod_eq_of_lt hSaved.length_lt]

theorem IsPacket.saved (h : m.IsPacket s i hdr payload) (hNow : now ≠ 0) :
    m.IsSaved s i (.make hdr payload now) :=
  ⟨h.part, h.seqno, h.totalLen, h.dataLen, hNow⟩

theorem IsPacket.lt (h : m.IsPacket s i hdr payload) : i < m.count :=
  (List.getElem?_eq_some_iff.mp h.part).1

theorem IsPacket.length_lt (h : m.IsPacket s i hdr payload) : payload.length < 2 ^ 16 :=
  (m.partSize _ (List.mem_of_getElem? h.part)).2

theorem IsPacket.payload_length (h : m.IsPacket s i hdr payload) :
    payload.length = hdr.dataLen.toNat := by
  rw [h.dataLen, BitVec.toNat_ofNat, Nat.mod_eq_of_lt h.length_lt]

/-- The distance of the packet from a seqno of the message. -/
theorem IsPacket.seqnoDiff (h : m.IsPacket s i hdr payload) {k : Nat} (hk : k ≤ m.count) :
    seqnoDiff hdr.seqno (s + BitVec.ofNat 32 k) = (i : Int) + 1 - k := by
  have hi := h.lt
  have hCount := m.count_lt
  have hOffset : ∀ j, j ≤ m.count → Serial.offset s (s + BitVec.ofNat 32 j) = j := by
    intro j hj
    rw [Serial.offset, add_sub_cancel_left, BitVec.toNat_ofNat]
    exact Nat.mod_eq_of_lt (by omega)
  have hSeqno : hdr.seqno = s + BitVec.ofNat 32 (i + 1) := by
    rw [h.seqno, Nat.add_comm i, BitVec.ofNat_add, ← add_assoc]
    rfl
  have hHere := hOffset (i + 1) hi
  have hThere := hOffset k hk
  rw [Trdp.seqnoDiff, hSeqno, @Serial.toInt_sub 31 s _ _ (by rw [hHere]; omega)
    (by rw [hThere]; omega), hHere, hThere]
  rfl

theorem Filled.insert {list out : List TrdpWindowPkt} (h : m.Filled s seen list)
    {x : TrdpWindowPkt} (hx : m.IsSaved s i x) (hInsert : insertSaved x list = some out) :
    m.Filled s (seen ++ [i]) out := by
  have hPerm := insertSaved_perm hInsert
  refine ⟨insertSaved_ascending h.ascending hInsert, fun p hMem => ?_, fun j hMem => ?_⟩
  · rcases List.mem_cons.mp (hPerm.mem_iff.mp hMem) with rfl | hOld
    · exact ⟨i, by simp, hx⟩
    · obtain ⟨j, hj, hSaved⟩ := h.saved p hOld
      exact ⟨j, List.mem_append_left _ hj, hSaved⟩
  · rcases List.mem_append.mp hMem with hOld | hNew
    · obtain ⟨p, hp, hSaved⟩ := h.held j hOld
      exact ⟨p, hPerm.mem_iff.mpr (List.mem_cons_of_mem x hp), hSaved⟩
    · rw [List.mem_singleton.mp hNew]
      exact ⟨x, hPerm.mem_iff.mpr List.mem_cons_self, hx⟩

/-- A packet that is saved already is one that was seen. -/
theorem Filled.seen_of_none {list : List TrdpWindowPkt} (h : m.Filled s seen list)
    {x : TrdpWindowPkt} (hx : m.IsSaved s i x) (hInsert : insertSaved x list = none) :
    i ∈ seen := by
  obtain ⟨p, hMem, hSame⟩ := (insertSaved_eq_none x h.ascending).mp hInsert
  obtain ⟨j, hj, hSaved⟩ := h.saved p hMem
  have hIndex := hSaved.index
  rw [pktIndex, hSame, ← pktIndex, hx.index] at hIndex
  exact hIndex ▸ hj

theorem Filled.new_of_some {list out : List TrdpWindowPkt} (h : m.Filled s seen list)
    {x : TrdpWindowPkt} (hx : m.IsSaved s i x) (hInsert : insertSaved x list = some out) :
    i ∉ seen := by
  intro hi
  obtain ⟨p, hMem, hSaved⟩ := h.held i hi
  have hNone := (insertSaved_eq_none x h.ascending).mpr ⟨p, hMem, hSaved.seqno.trans hx.seqno.symm⟩
  rw [hNone] at hInsert
  cases hInsert

theorem Filled.again {list : List TrdpWindowPkt} (h : m.Filled s seen list) (hi : i ∈ seen) :
    m.Filled s (seen ++ [i]) list := by
  refine ⟨h.ascending, fun p hMem => ?_, fun j hMem => ?_⟩
  · obtain ⟨j, hj, hSaved⟩ := h.saved p hMem
    exact ⟨j, List.mem_append_left _ hj, hSaved⟩
  · rcases List.mem_append.mp hMem with hOld | hNew
    · exact h.held j hOld
    · exact h.held j (List.mem_singleton.mp hNew ▸ hi)

theorem Complete.of_again (h : m.Complete (seen ++ [i])) (hi : i ∈ seen) : m.Complete seen := by
  intro j hj
  rcases List.mem_append.mp (h j hj) with hOld | hNew
  · exact hOld
  · exact List.mem_singleton.mp hNew ▸ hi

end SplitMessage

theorem skipTo_of_next {x : TrdpWindowPkt} (h : x.seqno = w.lastSeqno + 1) :
    w.skipTo x = w := by
  have hZero : seqnoDiff x.seqno (w.lastSeqno + 1) = 0 := by
    rw [h, seqnoDiff, BitVec.sub_self]
    rfl
  rw [TrdpWindow.skipTo, if_neg (not_not.mpr hZero)]

theorem seqno_of_diff {a b : BitVec 32} (h : seqnoDiff a b = 0) : a = b := by
  rw [seqnoDiff] at h
  have hZero : a - b = 0 := BitVec.eq_of_toInt_eq h
  exact sub_eq_zero.mp hZero

namespace SplitMessage

/-- When a window with packets of the message saved takes the next one; after a gap
of a whole interval it would give up on the packets before the first saved one. -/
def Timely (m : SplitMessage) (s : BitVec 32) (clock now : BitVec 64) (seen : List Nat) : Prop :=
  now ≠ 0 ∧ (now - clock < reliabilityNs ∨ m.Fits s ∧ 0 ∈ seen)

theorem Filled.seen_lt {list : List TrdpWindowPkt} (h : m.Filled s seen list) :
    ∀ j ∈ seen, j < m.count := by
  intro j hj
  obtain ⟨p, -, hSaved⟩ := h.held j hj
  exact hSaved.lt

/-- A message of one packet is never saved. -/
theorem Filled.seen_nil {list : List TrdpWindowPkt} (h : m.Filled s seen list)
    (hOne : m.count = 1) (hOpen : ¬ (m.Complete seen ∧ m.Fits s)) : seen = [] := by
  refine List.eq_nil_iff_forall_not_mem.mpr fun j hj => hOpen ⟨fun k hk => ?_, .inl hOne⟩
  have hLt := h.seen_lt j hj
  obtain rfl : k = j := by omega
  exact hj

theorem Filled.list_nil {list : List TrdpWindowPkt} (h : m.Filled s [] list) : list = [] := by
  refine List.eq_nil_iff_forall_not_mem.mpr fun p hMem => ?_
  obtain ⟨j, hj, -⟩ := h.saved p hMem
  cases hj

theorem fits_iff (hMany : m.count ≠ 1) : m.Fits s ↔ (s + 1).toNat + m.count ≤ 2 ^ 32 :=
  or_iff_right hMany

/-- One packet of several is no message. -/
theorem IsPacket.totalLen_ne (h : m.IsPacket s i hdr payload) (hMany : m.count ≠ 1) :
    hdr.totalLen ≠ hdr.dataLen.setWidth 32 := by
  have hPart : payload.length < m.bytes.length := by
    have hi := h.lt
    have hMissing : ¬ m.Complete [i] := by
      intro hAll
      have hPos := m.count_pos
      have hFirst := List.mem_singleton.mp (hAll 0 hPos)
      have hSecond := List.mem_singleton.mp (hAll 1 (by omega))
      omega
    have hSum := m.sum_lt (List.nodup_singleton i) (by simpa using hi) hMissing
    have hPartLength : m.partLength i = payload.length := by
      rw [SplitMessage.partLength, List.getD_eq_getElem?_getD, h.part]
      rfl
    simpa [hPartLength] using hSum
  intro hSame
  have hNat := congrArg BitVec.toNat hSame
  have hShort := h.length_lt
  rw [h.totalLen, BitVec.toNat_ofNat, Nat.mod_eq_of_lt m.length_lt,
    BitVec.toNat_setWidth_of_le (by omega), ← h.payload_length] at hNat
  omega

/-- With more than one packet each of them goes to `merge`. -/
theorem IsPacket.route_merged (h : m.IsPacket s i hdr payload) (hMany : m.count ≠ 1)
    (hLast : w.lastSeqno = s) (hSynced : w.lastMonoTime ≠ 0) : w.route hdr = .merged := by
  have hDiff : Trdp.seqnoDiff hdr.seqno w.lastSeqno = (i : Int) + 1 := by
    have hZero := h.seqnoDiff (Nat.zero_le m.count)
    rw [hLast]
    simpa using hZero
  unfold TrdpWindow.route
  rw [if_neg hSynced]
  dsimp only
  rw [hDiff, if_neg (by omega), if_pos]
  by_cases hFirst : i = 0
  · exact .inr ⟨by omega, h.totalLen_ne hMany⟩
  · exact .inl (by omega)

/-- A message of one packet is taken directly. -/
theorem IsPacket.route_direct (h : m.IsPacket s i hdr payload) (hOne : m.count = 1)
    (hLast : w.lastSeqno = s) (hSynced : w.lastMonoTime ≠ 0) :
    w.route hdr = .direct ∧ payload = m.bytes := by
  have hi := h.lt
  obtain rfl : i = 0 := by omega
  have hDiff : Trdp.seqnoDiff hdr.seqno w.lastSeqno = 1 := by
    have hZero := h.seqnoDiff (Nat.zero_le m.count)
    rw [hLast]
    simpa using hZero
  obtain ⟨part, hParts⟩ := List.length_eq_one_iff.mp hOne
  have hWhole : payload = m.bytes := by
    have hPart := h.part
    rw [hParts] at hPart
    rw [SplitMessage.bytes, hParts, List.flatten_singleton]
    exact (Option.some.inj hPart).symm
  refine ⟨?_, hWhole⟩
  have hSizes : hdr.totalLen = hdr.dataLen.setWidth 32 := by
    refine BitVec.eq_of_toNat_eq ?_
    rw [h.totalLen, BitVec.toNat_ofNat, Nat.mod_eq_of_lt m.length_lt,
      BitVec.toNat_setWidth_of_le (by omega), ← h.payload_length, hWhole]
  unfold TrdpWindow.route
  rw [if_neg hSynced]
  dsimp only
  rw [hDiff, if_neg (by omega), if_neg]
  rintro (hMore | ⟨-, hDiffers⟩)
  · omega
  · exact hDiffers hSizes

/-- What is known of a window after one more packet: the message is not there yet, or
it was passed on. -/
def Advanced (m : SplitMessage) (tsid : TrdpTsid) (s : BitVec 32) (clock : BitVec 64)
    (seen : List Nat) (v : TrdpWindow) (sent : List Bytes) : Prop :=
  (sent = [] ∧ m.Filling tsid s clock seen v ∧ ¬ (m.Complete seen ∧ m.Fits s)) ∨
    (sent = [m.bytes] ∧ v.Clean tsid (s + BitVec.ofNat 32 m.count) ∧
      m.Complete seen ∧ m.Fits s)

theorem Filling.recv_direct (h : m.Filling tsid s clock seen w)
    (hPacket : m.IsPacket s i hdr payload) (hNow : now ≠ 0) (hOne : m.count = 1)
    (hOpen : ¬ (m.Complete seen ∧ m.Fits s))
    (hRecv : w.recvData fuel hdr payload now = some (v, handed, sent)) :
    m.Advanced tsid s clock (seen ++ [i]) v sent := by
  obtain ⟨hRoute, hWhole⟩ := hPacket.route_direct hOne h.lastSeqno (h.clockIs ▸ h.synced)
  have hSeen := h.filled.seen_nil hOne hOpen
  have hList : w.list = [] := (hSeen ▸ h.filled).list_nil
  have hBetween : (w.note hdr).outputLen = 0 := h.between
  have hOutput : (w.note hdr).output (fuel + 1) payload = some (w.note hdr, [m.bytes]) := by
    rw [hWhole]
    exact output_whole hOne hBetween fuel
  unfold TrdpWindow.recvData at hRecv
  rw [hRoute] at hRecv
  simp only [Option.bind_eq_bind, Option.bind_eq_some_iff, Option.pure_def, Option.some.injEq,
    Prod.mk.injEq] at hRecv
  obtain ⟨⟨u, out⟩, hCall, rfl, -, rfl⟩ := hRecv
  have hSame := (output_mono (Nat.le_succ fuel) hCall).symm.trans hOutput
  obtain ⟨rfl, rfl⟩ := Prod.mk.inj (Option.some.inj hSame)
  have hi := hPacket.lt
  refine .inr ⟨rfl, ⟨h.source, ?_, hNow, hList, h.between⟩, fun j hj => ?_, .inl hOne⟩
  · change w.lastSeqno + 1 = _
    rw [h.lastSeqno, hOne]
    rfl
  · obtain rfl : j = i := by omega
    exact List.mem_append_right _ (List.mem_singleton_self _)

theorem Filling.note (h : m.Filling tsid s clock seen w) (hdr : TrdpHdr) :
    m.Filling tsid s clock seen (w.note hdr) :=
  ⟨h.source, h.lastSeqno, h.clockIs, h.synced, h.between, h.filled⟩

theorem Filling.save (h : m.Filling tsid s clock seen w) {list : List TrdpWindowPkt}
    {seen' : List Nat} (hList : m.Filled s seen' list) (hdr : TrdpHdr) :
    m.Filling tsid s clock seen' (w.save hdr list) :=
  ⟨h.source, h.lastSeqno, h.clockIs, h.synced, h.between, hList⟩

/-- The walk starts at the first packet. -/
theorem Filling.head (h : m.Filling tsid s clock seen w) {x : TrdpWindowPkt}
    {post : List TrdpWindowPkt} {seen' : List Nat} (hList : m.Filled s seen' (x :: post))
    (hMany : m.count ≠ 1) (hTime : m.Timely s clock now seen') (hGo : ¬ w.Waits x now) :
    x.seqno = s + 1 := by
  rcases hTime.2 with hSoon | ⟨hFits, hFirst⟩
  · by_contra hNot
    refine hGo ⟨fun hZero => hNot ?_, h.clockIs ▸ hSoon⟩
    rw [← h.lastSeqno]
    exact seqno_of_diff hZero
  · exact hList.head_first ((fits_iff hMany).mp hFits) hFirst

/-- All packets are handed out and put together. -/
theorem Filling.hands_out (h : m.Filling tsid s clock seen w) {x : TrdpWindowPkt}
    {post : List TrdpWindowPkt} (hList : w.list = x :: post) (hHead : x.seqno = s + 1)
    (hMany : m.count ≠ 1) (hAll : m.Complete seen) (hFits : m.Fits s)
    (hOutput : (((w.skipTo x).handOut (x :: post)).stampReady (x :: post)).outputAll fuel
      (x :: post) = some (v, sent)) :
    sent = [m.bytes] ∧ v.Clean tsid (s + BitVec.ofNat 32 m.count) := by
  have hFilled : m.Filled s seen (x :: post) := hList ▸ h.filled
  have hIndex := hFilled.index_eq ((fits_iff hMany).mp hFits) hAll
  have hNext : x.seqno = w.lastSeqno + 1 := by rw [h.lastSeqno, hHead]
  rw [skipTo_of_next hNext] at hOutput
  obtain ⟨front, last, hLast⟩ : ∃ front last, x :: post = front ++ [last] :=
    ⟨_, _, (List.dropLast_append_getLast (List.cons_ne_nil x post)).symm⟩
  have hHanded : ((w.handOut (x :: post)).stampReady (x :: post)) =
      { w with
        list := []
        saveSize := w.saveSize - dataSize (x :: post)
        lastSeqno := last.seqno
        lastMonoTime := last.monoTime } := by
    rw [TrdpWindow.stampReady, TrdpWindow.handOut, hList, List.drop_length, hLast]
    simp
  obtain ⟨u, hDone, hSame, hBetween⟩ := outputAll_message
    (hFilled.data_eq hIndex) hMany (w := (w.handOut (x :: post)).stampReady (x :: post))
    (by rw [hHanded]; exact h.between)
  have hBoth := (outputAll_mono (Nat.le_max_left fuel 1) hOutput).symm.trans
    (outputAll_mono (Nat.le_max_right fuel 1) hDone)
  obtain ⟨rfl, rfl⟩ := Prod.mk.inj (Option.some.inj hBoth)
  have hMem : last ∈ x :: post := by
    rw [hLast]
    exact List.mem_append_right _ (List.mem_singleton_self _)
  obtain ⟨j, -, hSaved⟩ := hFilled.saved last hMem
  have hNumber : j + 1 = m.count := by
    have hEnd := congrArg List.getLast? hIndex
    have hPos := m.count_pos
    rw [hLast, List.map_append, List.map_singleton, List.getLast?_concat, hSaved.index,
      List.getLast?_range, if_neg (by omega)] at hEnd
    have := Option.some.inj hEnd
    omega
  refine ⟨rfl, ?_, ?_, ?_, ?_, hBetween⟩
  · rw [hSame.tsid, hHanded]
    exact h.source
  · rw [hSame.lastSeqno, hHanded, ← hNumber, Nat.add_comm j, BitVec.ofNat_add, ← add_assoc]
    exact hSaved.seqno
  · rw [hSame.lastMonoTime, hHanded]
    exact hSaved.stamped
  · rw [hSame.list, hHanded]

theorem outputAll_nil (h : w.outputAll fuel [] = some (v, sent)) : v = w ∧ sent = [] := by
  obtain ⟨rfl, rfl⟩ := Prod.mk.inj (Option.some.inj h)
  exact ⟨rfl, rfl⟩

/-- What `merge` makes of one packet of several. -/
theorem Filling.merged (h : m.Filling tsid s clock seen w)
    (hPacket : m.IsPacket s i hdr payload) (hTime : m.Timely s clock now (seen ++ [i]))
    (hMany : m.count ≠ 1) (hOpen : ¬ (m.Complete seen ∧ m.Fits s)) {u : TrdpWindow}
    {ready : List TrdpWindowPkt} (hMerge : MergeOutcome w hdr payload now ready u)
    (hOutput : u.outputAll fuel ready = some (v, sent)) :
    m.Advanced tsid s clock (seen ++ [i]) v sent ∧
      (m.Fits s → i ∉ seen → Walks (seen ++ [i])) := by
  have hSaved := hPacket.saved hTime.1
  cases hMerge with
  | saved hInsert =>
      obtain ⟨rfl, rfl⟩ := outputAll_nil hOutput
      have hi := h.filled.seen_of_none hSaved hInsert
      refine ⟨.inl ⟨rfl, ⟨h.source, h.lastSeqno, h.clockIs, h.synced, h.between,
        h.filled.again hi⟩, fun hDone => hOpen ⟨hDone.1.of_again hi, hDone.2⟩⟩, ?_⟩
      exact fun _ hNew => absurd hi hNew
  | alone hEmpty hInsert =>
      obtain ⟨rfl, rfl⟩ := outputAll_nil hOutput
      have hSeen : seen = [] := by
        refine List.eq_nil_iff_forall_not_mem.mpr fun j hj => ?_
        obtain ⟨p, hp, -⟩ := h.filled.held j hj
        rw [hEmpty] at hp
        cases hp
      subst hSeen
      refine ⟨.inl ⟨rfl, h.save (h.filled.insert hSaved hInsert) hdr, fun hDone => ?_⟩, ?_⟩
      · have hPos := m.count_pos
        have hZero := List.mem_singleton.mp (hDone.1 0 hPos)
        have hOne := List.mem_singleton.mp (hDone.1 1 (by omega))
        omega
      · rintro - - hFirst ⟨j, hj, hOther⟩
        have hZero := List.mem_singleton.mp hFirst
        have hSame := List.mem_singleton.mp hj
        omega
  | @waits x post hInsert hWaits =>
      obtain ⟨rfl, rfl⟩ := outputAll_nil hOutput
      have hFilled := h.filled.insert hSaved hInsert
      have hNotFirst : m.Fits s → 0 ∉ seen ++ [i] := by
        intro hFits hFirst
        have hHead := hFilled.head_first ((fits_iff hMany).mp hFits) hFirst
        refine hWaits.1 ?_
        rw [hHead, h.lastSeqno, Trdp.seqnoDiff, BitVec.sub_self]
        rfl
      exact ⟨.inl ⟨rfl, h.save hFilled hdr, fun hDone =>
        hNotFirst hDone.2 (hDone.1 0 m.count_pos)⟩, fun hFits _ hFirst =>
          absurd hFirst (hNotFirst hFits)⟩
  | @walked x post _ hList hInsert hGo hEnds =>
      have hFilled := h.filled.insert hSaved hInsert
      have hHead := h.head hFilled hMany hTime hGo
      have hSave := h.save hFilled hdr
      by_cases hAll : m.Complete (seen ++ [i])
      · have hFits := hFilled.fits_of_head hAll hHead
        obtain rfl := hEnds.unique (hFilled.ends ((fits_iff hMany).mp hFits) hAll hMany)
        obtain ⟨rfl, hClean⟩ := hSave.hands_out rfl hHead hMany hAll hFits hOutput
        exact ⟨.inr ⟨rfl, hClean, hAll, hFits⟩, fun _ _ _ _ => hAll 1 (by
          have := m.count_pos
          omega)⟩
      · have hTotal := (hFilled.run_incomplete hAll).2
        have hNext : x.seqno = (w.save hdr (x :: post)).lastSeqno + 1 := by
          change _ = w.lastSeqno + 1
          rw [h.lastSeqno, hHead]
        cases hEnds with
        | gap hGap => exact absurd rfl hGap
        | message _ hDone => exact absurd hDone hTotal
        | incomplete _ _ hRun =>
            rw [handOut_nil, skipTo_of_next hNext] at hOutput
            obtain ⟨rfl, rfl⟩ := outputAll_nil hOutput
            exact ⟨.inl ⟨rfl, hSave, fun hDone => hAll hDone.1⟩, fun hFits _ _ _ =>
              (hFilled.run_iff ((fits_iff hMany).mp hFits) hHead hAll).mp hRun⟩

/-- A call for a packet of the message. -/
theorem Filling.recv (h : m.Filling tsid s clock seen w) (hPacket : m.IsPacket s i hdr payload)
    (hTime : m.Timely s clock now (seen ++ [i])) (hOpen : ¬ (m.Complete seen ∧ m.Fits s))
    (hRecv : w.recvData fuel hdr payload now = some (v, handed, sent)) :
    m.Advanced tsid s clock (seen ++ [i]) v sent ∧
      (m.Fits s → i ∉ seen → Walks (seen ++ [i])) := by
  by_cases hOne : m.count = 1
  · refine ⟨h.recv_direct hPacket hTime.1 hOne hOpen hRecv, ?_⟩
    rintro - - - ⟨j, hj, hOther⟩
    have hi := hPacket.lt
    rw [h.filled.seen_nil hOne hOpen] at hj
    have hSame := List.mem_singleton.mp hj
    omega
  · have hRoute := hPacket.route_merged hOne h.lastSeqno (h.clockIs ▸ h.synced)
    have hNote := h.note hdr
    unfold TrdpWindow.recvData at hRecv
    rw [hRoute] at hRecv
    simp only [Option.bind_eq_bind, Option.bind_eq_some_iff, Option.pure_def, Option.some.injEq,
      Prod.mk.injEq] at hRecv
    obtain ⟨⟨u, ready⟩, hMerge, ⟨v', out⟩, hOutput, rfl, -, rfl⟩ := hRecv
    exact hNote.merged hPacket hTime hOne hOpen
      (merge_outcome hNote.filled.wf hPacket.payload_length hMerge) hOutput

/-- The call returns when the walk does not come to stand on the first packet. -/
theorem Filling.returns (h : m.Filling tsid s clock seen w)
    (hPacket : m.IsPacket s i hdr payload) (hTime : m.Timely s clock now (seen ++ [i]))
    (hFits : m.Fits s) (hWalks : i ∉ seen → Walks (seen ++ [i])) :
    ∃ fuel result, w.recvData fuel hdr payload now = some result := by
  refine (recvData_returns_iff h.filled.wf hPacket.payload_length).mpr ?_
  have hPending : w.pending = .between := by rw [TrdpWindow.pending, if_pos h.between]
  unfold DataReturns
  by_cases hOne : m.count = 1
  · obtain ⟨hRoute, hWhole⟩ := hPacket.route_direct hOne h.lastSeqno (h.clockIs ▸ h.synced)
    have hOutput := output_whole hOne h.between 0
    rw [hRoute]
    dsimp only
    rw [hWhole]
    exact ⟨_, (output_accepts m.length_lt hOutput).1⟩
  · rw [hPacket.route_merged hOne h.lastSeqno (h.clockIs ▸ h.synced)]
    intro hSome x post hInsert hGo
    have hFilled := h.filled.insert (hPacket.saved hTime.1) hInsert
    have hNew := h.filled.new_of_some (hPacket.saved hTime.1) hInsert
    have hHead := h.head hFilled hOne hTime hGo
    have hNoWrap := (fits_iff hOne).mp hFits
    rw [hPending, ite_self]
    by_cases hAll : m.Complete (seen ++ [i])
    · refine ⟨x :: post, hFilled.ends hNoWrap hAll hOne, ?_⟩
      obtain ⟨u, hOutput, -, -⟩ := outputAll_message
        (hFilled.data_eq (hFilled.index_eq hNoWrap hAll)) hOne h.between
      have hLengths : ∀ p ∈ x :: post, p.data.length < 2 ^ 32 := by
        intro p hMem
        obtain ⟨j, -, hSaved⟩ := hFilled.saved p hMem
        exact Nat.lt_trans hSaved.length_lt (by decide)
      have hAccepts := (outputAll_accepts hLengths hOutput).1
      rw [hPending] at hAccepts
      exact ⟨_, hAccepts⟩
    · refine ⟨[], .incomplete rfl (hFilled.run_incomplete hAll).2 ?_, _, .nil _⟩
      refine (hFilled.run_iff hNoWrap hHead hAll).mpr (hWalks hNew ?_ ?_)
      · obtain ⟨j, hj, hx⟩ := hFilled.saved x List.mem_cons_self
        have hNat := hx.seqno_toNat hNoWrap
        rw [hHead] at hNat
        obtain rfl : j = 0 := by omega
        exact hj
      · have hPost : post ≠ [] := by
          rintro rfl
          have hLength := (insertSaved_perm hInsert).length_eq
          have := List.length_pos_iff.mpr hSome
          simp only [List.length_cons, List.length_nil] at hLength
          omega
        obtain ⟨y, rest, rfl⟩ := List.exists_cons_of_ne_nil hPost
        obtain ⟨j, hj, hy⟩ := hFilled.saved y (by simp)
        refine ⟨j, hj, ?_⟩
        rintro rfl
        have hLt := (List.pairwise_cons.mp hFilled.ascending).1 y List.mem_cons_self
        rw [hy.seqno_toNat hNoWrap, hHead] at hLt
        omega

/-- A packet of a message that was passed on is a repeat. -/
theorem IsPacket.repeats (h : m.IsPacket s i hdr payload) (hSynced : w.lastMonoTime ≠ 0)
    (hLast : w.lastSeqno = s + BitVec.ofNat 32 m.count) (fuel : Nat) :
    w.recvData fuel hdr payload now =
      some ({ w.note hdr with repeatSeqno := w.repeatSeqno + 1 }, [], []) := by
  have hi := h.lt
  have hRoute : w.route hdr = .repeated := by
    unfold TrdpWindow.route
    rw [if_neg hSynced]
    dsimp only
    rw [hLast, h.seqnoDiff (Nat.le_refl _), if_pos (by omega)]
  rw [TrdpWindow.recvData, hRoute]

theorem repeated_clean (h : w.Clean tsid s) (hdr : TrdpHdr) :
    TrdpWindow.Clean { w.note hdr with repeatSeqno := w.repeatSeqno + 1 } tsid s :=
  ⟨h.source, h.lastSeqno, h.synced, h.nothing, h.between⟩

end SplitMessage

/-! The datagrams of the packets at the database. -/

theorem beBytes16_eq (x : BitVec 16) : x.extractLsb' 8 8 ++ x.extractLsb' 0 8 = x :=
  (BitVec.extractLsb'_append_extractLsb'_eq_extractLsb' (show 8 = 0 + 8 from rfl)).trans
    BitVec.extractLsb'_eq_self

theorem beBytes32_eq (x : BitVec 32) : x.extractLsb' 16 16 ++ x.extractLsb' 0 16 = x :=
  (BitVec.extractLsb'_append_extractLsb'_eq_extractLsb' (show 16 = 0 + 16 from rfl)).trans
    BitVec.extractLsb'_eq_self

section Decode

variable {d : Datagram} {off : Nat} {back : Bytes}

theorem byte_of_drop {b : BitVec 8} (h : d.bytes.drop off = b :: back) :
    d.byte off = b ∧ d.bytes.drop (off + 1) = back := by
  have hThere : d.bytes[off]? = some b := by
    have hHead := congrArg (fun l => l[0]?) h
    simpa using hHead
  refine ⟨by rw [Datagram.byte, List.getD_eq_getElem?_getD, hThere]; rfl, ?_⟩
  rw [← List.drop_drop, h]
  rfl

theorem getU16_of_drop {x : BitVec 16} (h : d.bytes.drop off = beBytes16 x ++ back) :
    d.getU16 off = x ∧ d.bytes.drop (off + 2) = back := by
  obtain ⟨hHigh, hRest⟩ := byte_of_drop h
  obtain ⟨hLow, hBack⟩ := byte_of_drop hRest
  exact ⟨by rw [Datagram.getU16, hHigh, hLow, beBytes16_eq], hBack⟩

theorem getU32_of_drop {x : BitVec 32} (h : d.bytes.drop off = beBytes32 x ++ back) :
    d.getU32 off = x ∧ d.bytes.drop (off + 4) = back := by
  rw [beBytes32, List.append_assoc] at h
  obtain ⟨hHigh, hRest⟩ := getU16_of_drop h
  obtain ⟨hLow, hBack⟩ := getU16_of_drop hRest
  exact ⟨by rw [Datagram.getU32, hHigh, hLow, beBytes32_eq], hBack⟩

end Decode

theorem type_of_one {hdr : TrdpHdr} (h : hdr.pktType = 1) : hdr.type = .data := by
  unfold TrdpHdr.type
  rw [h]
  rfl

/-- The header of a DATA packet comes back from its wire image. -/
theorem copyIn_dataDatagram (tsid : TrdpTsid) (seqno totalLen : BitVec 32) (fragNum : BitVec 16)
    (payload : Bytes) : TrdpHdr.copyIn (dataDatagram tsid seqno totalLen fragNum payload) =
      some { magic := trdpMagic, srcAddr := tsid.srcAddr, srcId := tsid.srcId, destAddr := 0,
             pktType := 1, status := 0, seqno, totalLen,
             dataLen := BitVec.ofNat 16 payload.length, fragNum } := by
  have hBytes : (dataDatagram tsid seqno totalLen fragNum payload).bytes.drop 0 =
      beBytes32 trdpMagic ++ (beBytes32 tsid.srcAddr ++ (beBytes32 tsid.srcId ++ (beBytes32 0 ++
        (beBytes16 1 ++ (beBytes16 0 ++ (beBytes32 seqno ++ (beBytes32 totalLen ++
          (beBytes16 (BitVec.ofNat 16 payload.length) ++ (beBytes16 fragNum ++ payload))))))))) := by
    simp only [dataDatagram, List.append_assoc, List.drop_zero]
  generalize dataDatagram tsid seqno totalLen fragNum payload = d at hBytes
  obtain ⟨hMagic, hRest⟩ := getU32_of_drop hBytes
  obtain ⟨hAddr, hRest⟩ := getU32_of_drop hRest
  obtain ⟨hId, hRest⟩ := getU32_of_drop hRest
  obtain ⟨hDest, hRest⟩ := getU32_of_drop hRest
  obtain ⟨hType, hRest⟩ := getU16_of_drop hRest
  obtain ⟨hStatus, hRest⟩ := getU16_of_drop hRest
  obtain ⟨hSeqno, hRest⟩ := getU32_of_drop hRest
  obtain ⟨hTotal, hRest⟩ := getU32_of_drop hRest
  obtain ⟨hLen, hRest⟩ := getU16_of_drop hRest
  obtain ⟨hFrag, -⟩ := getU16_of_drop hRest
  have hSize : 32 ≤ d.bytes.length := by
    have hLength := congrArg List.length hBytes
    simp only [List.length_append, beBytes32, beBytes16, List.length_cons, List.length_nil,
      List.length_drop] at hLength
    omega
  have hShort : ¬ d.bytes.length < trdpHdrSize := by
    rw [trdpHdrSize]
    omega
  have hData : ¬ d.bytes.length < trdpDataHdrSize := by
    rw [trdpDataHdrSize]
    omega
  unfold TrdpHdr.copyIn
  rw [if_neg hShort, if_neg (not_not.mpr hMagic), hMagic]
  simp only [Nat.reduceAdd] at hAddr hId hDest hType hStatus hSeqno hTotal hLen hFrag
  rw [hAddr, hId, hDest, hType, hStatus, hSeqno, hTotal, hLen, hFrag]
  have hKind : TrdpHdr.type ⟨trdpMagic, tsid.srcAddr, tsid.srcId, 0, 1, 0, 0, 0, 0, 0⟩ = .data := type_of_one rfl
  dsimp only
  rw [hKind]
  exact if_neg hData

theorem slice_dataDatagram (tsid : TrdpTsid) (seqno totalLen : BitVec 32) (fragNum : BitVec 16)
    (payload : Bytes) : (dataDatagram tsid seqno totalLen fragNum payload).slice trdpDataHdrSize
      payload.length = payload := by
  refine List.ext_getElem (by simp [Datagram.slice]) fun i _ hLt => ?_
  have hByte : ∀ (d : Datagram) (front : Bytes), d.bytes = front ++ payload → front.length = 32 →
      d.byte (32 + i) = payload[i] := by
    intro d front hBytes hFront
    rw [Datagram.byte, hBytes, List.getD_append_right _ _ _ _ (by omega), hFront,
      Nat.add_sub_cancel_left, List.getD_eq_getElem _ _ hLt]
  simp only [Datagram.slice, List.getElem_map, List.getElem_range]
  exact hByte _ _ rfl (by simp [beBytes32, beBytes16])
/-- The datagram carries packet `i` of the message. -/
def Arrival.Carries (a : Arrival) (tsid : TrdpTsid) (m : SplitMessage) (s : BitVec 32)
    (i : Nat) : Prop :=
  ∃ hdr, TrdpHdr.copyIn a.datagram = some hdr ∧ hdr.type = .data ∧ hdr.tsid = tsid ∧
    m.IsPacket s i hdr (a.datagram.slice trdpDataHdrSize hdr.dataLen.toNat)

/-- The packet of that number, on its way. -/
def SplitMessage.packetAt (m : SplitMessage) (tsid : TrdpTsid) (s : BitVec 32) (i : Nat)
    (now : BitVec 64) : Arrival where
  datagram := dataDatagram tsid (s + 1 + BitVec.ofNat 32 i) (BitVec.ofNat 32 m.bytes.length)
    (BitVec.ofNat 16 i) (m.parts.getD i [])
  curMonoTime := now

theorem SplitMessage.packetAt_carries (m : SplitMessage) (tsid : TrdpTsid) (s : BitVec 32) {i : Nat}
    (hi : i < m.count) (now : BitVec 64) : (m.packetAt tsid s i now).Carries tsid m s i := by
  have hPart : m.parts[i]? = some (m.parts.getD i []) := by
    rw [List.getD_eq_getElem?_getD, List.getElem?_eq_getElem hi]
    rfl
  have hLength : (m.parts.getD i []).length < 2 ^ 16 :=
    (m.partSize _ (List.mem_of_getElem? hPart)).2
  have hSlice := slice_dataDatagram tsid (s + 1 + BitVec.ofNat 32 i)
    (BitVec.ofNat 32 m.bytes.length) (BitVec.ofNat 16 i) (m.parts.getD i [])
  refine ⟨_, copyIn_dataDatagram _ _ _ _ _, type_of_one rfl, rfl, ?_⟩
  dsimp only
  rw [BitVec.toNat_ofNat, Nat.mod_eq_of_lt hLength, SplitMessage.packetAt, hSlice]
  exact ⟨hPart, rfl, rfl, rfl, rfl⟩

variable {db db' : TrdpWindowDB} {a : Arrival} {past : List Bytes}

/-- `process_msg` on a DATA packet is the window's part of it. -/
theorem step_data (hHdr : TrdpHdr.copyIn a.datagram = some hdr) (hType : hdr.type = .data) :
    trdpSystem.step db a handed db' ↔
      ∃ fuel w sent, (db.getWindow hdr.tsid).recvData fuel hdr
          (a.datagram.slice trdpDataHdrSize hdr.dataLen.toNat) a.curMonoTime =
            some (w, handed, sent) ∧
        db' = { (db.setWindow w).recvMsgs sent with
          outputBytes := db.outputBytes +
            BitVec.ofNat 64 (handed.map (fun h => h.2.length)).sum } := by
  have hCall : ∀ fuel, db.processMsg fuel a.datagram a.curMonoTime =
      ((db.getWindow hdr.tsid).recvData fuel hdr
        (a.datagram.slice trdpDataHdrSize hdr.dataLen.toNat) a.curMonoTime).bind fun r =>
          some ({ (db.setWindow r.1).recvMsgs r.2.2 with
            outputBytes := db.outputBytes +
              BitVec.ofNat 64 (r.2.1.map (fun h => h.2.length)).sum }, r.2.1) := by
    intro fuel
    rw [TrdpWindowDB.processMsg, hHdr]
    dsimp only
    rw [hType]
    rfl
  constructor
  · rintro ⟨fuel, hStep⟩
    rw [hCall] at hStep
    simp only [Option.bind_eq_some_iff, Option.some.injEq, Prod.mk.injEq] at hStep
    obtain ⟨⟨w, handed', sent⟩, hRecv, rfl, rfl⟩ := hStep
    exact ⟨fuel, w, sent, hRecv, rfl⟩
  · rintro ⟨fuel, w, sent, hRecv, rfl⟩
    refine ⟨fuel, ?_⟩
    rw [hCall, hRecv]
    rfl

theorem merge_mono {more : Nat} (hMore : fuel ≤ more) {result : TrdpWindow × List TrdpWindowPkt}
    (h : w.merge fuel hdr payload now = some result) :
    w.merge more hdr payload now = some result := by
  unfold TrdpWindow.merge at h ⊢
  cases hInsert : insertSaved (.make hdr payload now) w.list with
  | none => simpa only [hInsert] using h
  | some list =>
      cases list with
      | nil => exact False.elim (insertSaved_ne_nil hInsert)
      | cons x post =>
          simp only [hInsert] at h ⊢
          split at h
          · rename_i hEmpty
            rw [if_pos hEmpty]
            exact h
          · rename_i hList
            rw [if_neg hList]
            unfold TrdpWindow.mergeReady at h ⊢
            split at h
            · rename_i hWaits
              rw [if_pos hWaits]
              exact h
            · rename_i hGo
              rw [if_neg hGo]
              obtain ⟨reached, hLoop, hEq⟩ := Option.map_eq_some_iff.mp h
              rw [mergeLoop_mono hMore hLoop, Option.map_some, hEq]

theorem recvData_mono {more : Nat} (hMore : fuel ≤ more)
    {result : TrdpWindow × List (BitVec 32 × Bytes) × List Bytes}
    (h : w.recvData fuel hdr payload now = some result) :
    w.recvData more hdr payload now = some result := by
  unfold TrdpWindow.recvData at h ⊢
  cases hRoute : w.route hdr with
  | unsynced => simpa only [hRoute] using h
  | repeated => simpa only [hRoute] using h
  | first =>
      simp only [hRoute, Option.bind_eq_bind, Option.bind_eq_some_iff] at h ⊢
      obtain ⟨out, hOutput, hEq⟩ := h
      exact ⟨out, output_mono hMore hOutput, hEq⟩
  | merged =>
      simp only [hRoute, Option.bind_eq_bind, Option.bind_eq_some_iff] at h ⊢
      obtain ⟨merged, hMerge, out, hOutput, hEq⟩ := h
      exact ⟨merged, merge_mono hMore hMerge, out, outputAll_mono hMore hOutput, hEq⟩
  | direct =>
      simp only [hRoute, Option.bind_eq_bind, Option.bind_eq_some_iff] at h ⊢
      obtain ⟨out, hOutput, hEq⟩ := h
      exact ⟨out, output_mono hMore hOutput, hEq⟩

/-- A call has one result. -/
theorem step_unique (h : trdpSystem.step db a handed db')
    {handed' : List (BitVec 32 × Bytes)} {db'' : TrdpWindowDB}
    (h' : trdpSystem.step db a handed' db'') : db' = db'' := by
  cases hHdr : TrdpHdr.copyIn a.datagram with
  | none =>
      obtain ⟨fuel, hCall⟩ := h
      obtain ⟨fuel', hCall'⟩ := h'
      rw [TrdpWindowDB.processMsg, hHdr] at hCall hCall'
      exact (Prod.mk.inj (Option.some.inj (hCall.symm.trans hCall'))).1
  | some hdr =>
      by_cases hType : hdr.type = .data
      · obtain ⟨fuel, v, sent, hRecv, rfl⟩ := (step_data hHdr hType).mp h
        obtain ⟨fuel', v', sent', hRecv', rfl⟩ := (step_data hHdr hType).mp h'
        have hBoth := (recvData_mono (Nat.le_max_left fuel fuel') hRecv).symm.trans
          (recvData_mono (Nat.le_max_right fuel fuel') hRecv')
        obtain ⟨rfl, hOut⟩ := Prod.mk.inj (Option.some.inj hBoth)
        obtain ⟨rfl, rfl⟩ := Prod.mk.inj hOut
        rfl
      · obtain ⟨fuel, hCall⟩ := h
        obtain ⟨fuel', hCall'⟩ := h'
        rw [TrdpWindowDB.processMsg, hHdr] at hCall hCall'
        cases hKind : hdr.type with
        | data => exact absurd hKind hType
        | _ =>
            simp only [hKind] at hCall hCall'
            exact (Prod.mk.inj (Option.some.inj (hCall.symm.trans hCall'))).1

theorem setWindow_received (db : TrdpWindowDB) (w : TrdpWindow) :
    (db.setWindow w).received = db.received := by
  unfold TrdpWindowDB.setWindow
  split <;> rfl

/-- A call on a packet of a message, at the window of its source. -/
theorem step_window (hCarries : a.Carries tsid m s i) (hStep : trdpSystem.step db a handed db') :
    ∃ hdr payload fuel v sent, m.IsPacket s i hdr payload ∧
      (db.getWindow tsid).recvData fuel hdr payload a.curMonoTime = some (v, handed, sent) ∧
      db'.received = db.received ++ sent ∧ (v.tsid = tsid → db'.getWindow tsid = v) := by
  obtain ⟨hdr, hHdr, hType, rfl, hPacket⟩ := hCarries
  obtain ⟨fuel, v, sent, hRecv, rfl⟩ := (step_data hHdr hType).mp hStep
  refine ⟨hdr, _, fuel, v, sent, hPacket, hRecv, ?_, ?_⟩
  · change (db.setWindow v).received ++ sent = _
    rw [setWindow_received]
  · intro hSource
    rw [← hSource]
    exact getWindow_setWindow db v

/-- The database while the packets of a message arrive. -/
def SplitMessage.At (m : SplitMessage) (tsid : TrdpTsid) (s : BitVec 32) (clock : BitVec 64)
    (before : List Bytes) (seen : List Nat) (db : TrdpWindowDB) : Prop :=
  ∃ sent, db.received = before ++ sent ∧
    m.Advanced tsid s clock seen (db.getWindow tsid) sent

namespace SplitMessage

theorem Advanced.source {sent : List Bytes} (h : m.Advanced tsid s clock seen v sent) :
    v.tsid = tsid := by
  rcases h with ⟨-, hFilling, -⟩ | ⟨-, hClean, -⟩
  · exact hFilling.source
  · exact hClean.source

/-- One more packet of the message. -/
theorem At.step (h : m.At tsid s clock past seen db) (hCarries : a.Carries tsid m s i)
    (hTime : m.Timely s clock a.curMonoTime (seen ++ [i]))
    (hStep : trdpSystem.step db a handed db') :
    m.At tsid s clock past (seen ++ [i]) db' ∧
      (m.Fits s → i ∉ seen → Walks (seen ++ [i])) := by
  obtain ⟨hdr, payload, fuel, v, more, hPacket, hRecv, hMore, hWindow⟩ := step_window hCarries hStep
  obtain ⟨sent, hReceived, hBefore⟩ := h
  rw [hReceived, List.append_assoc] at hMore
  rcases hBefore with ⟨rfl, hFilling, hOpen⟩ | ⟨rfl, hClean, hAll, hFits⟩
  · obtain ⟨hAfter, hWalks⟩ := hFilling.recv hPacket hTime hOpen hRecv
    refine ⟨⟨more, hMore, ?_⟩, hWalks⟩
    rw [hWindow hAfter.source]
    exact hAfter
  · rw [hPacket.repeats hClean.synced hClean.lastSeqno] at hRecv
    simp only [Option.some.injEq, Prod.mk.injEq] at hRecv
    obtain ⟨rfl, -, rfl⟩ := hRecv
    have hKept := repeated_clean hClean hdr
    refine ⟨⟨[m.bytes], hMore, ?_⟩, fun _ hNew => absurd (hAll i hPacket.lt) hNew⟩
    rw [hWindow hKept.source]
    exact .inr ⟨rfl, hKept, fun j hj => List.mem_append_left _ (hAll j hj), hFits⟩

theorem At.next (h : m.At tsid s clock past seen db) (hCarries : a.Carries tsid m s i)
    (hTime : m.Timely s clock a.curMonoTime (seen ++ [i])) (hFits : m.Fits s)
    (hWalks : i ∉ seen → Walks (seen ++ [i])) : ∃ handed db', trdpSystem.step db a handed db' := by
  obtain ⟨hdr, hHdr, hType, rfl, hPacket⟩ := hCarries
  obtain ⟨sent, -, hBefore⟩ := h
  suffices hReturns : ∃ fuel result, (db.getWindow hdr.tsid).recvData fuel hdr
      (a.datagram.slice trdpDataHdrSize hdr.dataLen.toNat) a.curMonoTime = some result by
    obtain ⟨fuel, ⟨v, handed, more⟩, hRecv⟩ := hReturns
    exact ⟨handed, _, (step_data hHdr hType).mpr ⟨fuel, v, more, hRecv, rfl⟩⟩
  rcases hBefore with ⟨-, hFilling, -⟩ | ⟨-, hClean, -⟩
  · exact hFilling.returns hPacket hTime hFits hWalks
  · exact ⟨0, _, hPacket.repeats hClean.synced hClean.lastSeqno 0⟩

/-- Packets of the message in the order of their arrival, each with its number; those of
`seen` have arrived before. -/
structure Arrives (m : SplitMessage) (tsid : TrdpTsid) (s : BitVec 32) (clock : BitVec 64)
    (seen : List Nat) (packets : List (Nat × Arrival)) : Prop where
  carries : ∀ q ∈ packets, q.2.Carries tsid m s q.1
  timely : ∀ front q, front ++ [q] <+: packets →
    m.Timely s clock q.2.curMonoTime (seen ++ (front ++ [q]).map Prod.fst)

theorem Arrives.front {packets : List (Nat × Arrival)} {q : Nat × Arrival}
    (h : m.Arrives tsid s clock seen (packets ++ [q])) : m.Arrives tsid s clock seen packets :=
  ⟨fun q' hMem => h.carries q' (List.mem_append_left _ hMem),
    fun front q' hPrefix => h.timely front q' (hPrefix.trans (List.prefix_append _ _))⟩

theorem Arrives.last {packets : List (Nat × Arrival)} {q : Nat × Arrival}
    (h : m.Arrives tsid s clock seen (packets ++ [q])) :
    q.2.Carries tsid m s q.1 ∧
      m.Timely s clock q.2.curMonoTime (seen ++ packets.map Prod.fst ++ [q.1]) := by
  refine ⟨h.carries q (by simp), ?_⟩
  simpa using h.timely packets q (List.prefix_refl _)

end SplitMessage

theorem run_nil {State : Type*} {Input : Type*} {Output : Type*}
    {sys : System State Input Output} {start finish : State} {outputs : List Output}
    (h : sys.Run start [] outputs finish) : finish = start := by
  generalize hAll : ([] : List Input) = all at h
  cases h with
  | nil => rfl
  | snoc => exact absurd hAll (by simp)

theorem run_snoc {State : Type*} {Input : Type*} {Output : Type*}
    {sys : System State Input Output} {start finish : State} {inputs : List Input} {input : Input}
    {outputs : List Output} (h : sys.Run start (inputs ++ [input]) outputs finish) :
    ∃ middle before emitted, sys.Run start inputs before middle ∧
      sys.step middle input emitted finish := by
  generalize hAll : inputs ++ [input] = all at h
  cases h with
  | nil => exact absurd hAll (by simp)
  | snoc prior last =>
      obtain ⟨rfl, hLast⟩ := List.append_inj' hAll rfl
      obtain rfl := (List.cons.inj hLast).1
      exact ⟨_, _, _, prior, last⟩

theorem run_one {State : Type*} {Input : Type*} {Output : Type*}
    {sys : System State Input Output} {start finish : State} {input : Input} {outputs : List Output}
    (h : sys.Run start [input] outputs finish) : ∃ emitted, sys.step start input emitted finish := by
  obtain ⟨_, _, emitted, hNone, hStep⟩ := run_snoc (show sys.Run start ([] ++ [input]) outputs finish from h)
  obtain rfl := run_nil hNone
  exact ⟨emitted, hStep⟩

theorem run_split {State : Type*} {Input : Type*} {Output : Type*}
    {sys : System State Input Output} {start finish : State} {front back : List Input}
    {outputs : List Output} (h : sys.Run start (front ++ back) outputs finish) :
    ∃ middle before after, sys.Run start front before middle ∧ sys.Run middle back after finish := by
  induction back using List.reverseRecOn generalizing outputs finish with
  | nil => exact ⟨finish, outputs, [], List.append_nil front ▸ h, .nil finish⟩
  | append_singleton back input ih =>
      rw [← List.append_assoc] at h
      obtain ⟨late, _, emitted, hPrior, hLast⟩ := run_snoc h
      obtain ⟨middle, before, after, hFront, hBack⟩ := ih hPrior
      exact ⟨middle, before, after ++ emitted, hFront, hBack.snoc hLast⟩

/-- A run has one end. -/
theorem run_unique {arrivals : List Arrival} (h : trdpSystem.Run db arrivals handed db')
    {handed' : List (BitVec 32 × Bytes)} {db'' : TrdpWindowDB}
    (h' : trdpSystem.Run db arrivals handed' db'') : db' = db'' := by
  induction arrivals using List.reverseRecOn generalizing handed handed' db' db'' with
  | nil => exact (run_nil h).trans (run_nil h').symm
  | append_singleton arrivals a ih =>
      obtain ⟨_, _, _, hPrior, hLast⟩ := run_snoc h
      obtain ⟨_, _, _, hPrior', hLast'⟩ := run_snoc h'
      obtain rfl := ih hPrior hPrior'
      exact step_unique hLast hLast'

namespace SplitMessage

/-- After every run over packets of the message; where the seqnos do not wrap, the
run has not come to stand on the first packet. -/
theorem Arrives.run {packets : List (Nat × Arrival)} (h : m.Arrives tsid s clock seen packets)
    (hStart : m.At tsid s clock past seen db)
    (hRun : trdpSystem.Run db (packets.map Prod.snd) handed db') :
    m.At tsid s clock past (seen ++ packets.map Prod.fst) db' ∧
      (m.Fits s → Gathers seen (packets.map Prod.fst)) := by
  induction packets using List.reverseRecOn generalizing handed db' with
  | nil =>
      obtain rfl := run_nil hRun
      rw [List.map_nil, List.append_nil]
      exact ⟨hStart, fun _ => trivial⟩
  | append_singleton packets q ih =>
      rw [List.map_append, List.map_singleton] at hRun
      obtain ⟨middle, _, emitted, hPrior, hLast⟩ := run_snoc hRun
      obtain ⟨hAt, hGathers⟩ := ih h.front hPrior
      obtain ⟨hCarries, hTime⟩ := h.last
      obtain ⟨hAfter, hStep⟩ := hAt.step hCarries hTime hLast
      rw [List.map_append, List.map_singleton, ← List.append_assoc]
      exact ⟨hAfter, fun hFits => (gathers_concat _ _ _).mpr ⟨hGathers hFits, hStep hFits⟩⟩

theorem Arrives.run_exists {packets : List (Nat × Arrival)}
    (h : m.Arrives tsid s clock seen packets) (hStart : m.At tsid s clock past seen db)
    (hFits : m.Fits s) (hGathers : Gathers seen (packets.map Prod.fst)) :
    ∃ handed db', trdpSystem.Run db (packets.map Prod.snd) handed db' := by
  induction packets using List.reverseRecOn with
  | nil => exact ⟨[], db, .nil db⟩
  | append_singleton packets q ih =>
      rw [List.map_append, List.map_singleton] at hGathers ⊢
      obtain ⟨hBefore, hWalks⟩ := (gathers_concat _ _ _).mp hGathers
      obtain ⟨handed, middle, hPrior⟩ := ih h.front hBefore
      obtain ⟨hCarries, hTime⟩ := h.last
      obtain ⟨emitted, db', hLast⟩ := (h.front.run hStart hPrior).1.next hCarries hTime hFits hWalks
      exact ⟨_, db', hPrior.snoc hLast⟩

/-- With all packets there the message was passed on, or its seqnos wrap. -/
theorem At.complete (h : m.At tsid s clock past seen db) (hAll : m.Complete seen)
    (hFits : m.Fits s) :
    db.received = past ++ [m.bytes] ∧
      (db.getWindow tsid).Clean tsid (s + BitVec.ofNat 32 m.count) := by
  obtain ⟨sent, hReceived, ⟨-, -, hOpen⟩ | ⟨rfl, hClean, -⟩⟩ := h
  · exact absurd ⟨hAll, hFits⟩ hOpen
  · exact ⟨hReceived, hClean⟩

end SplitMessage

theorem TrdpWindow.Clean.at (h : (db.getWindow tsid).Clean tsid s) (m : SplitMessage) :
    m.At tsid s (db.getWindow tsid).lastMonoTime db.received [] db := by
  refine ⟨[], (List.append_nil _).symm, .inl ⟨rfl, h.filling, fun hDone => ?_⟩⟩
  exact absurd (hDone.1 0 m.count_pos) List.not_mem_nil

/-- Messages one after the other, with their packets in order; none is split over the
wrap of the seqnos. -/
inductive OrderedTraffic (tsid : TrdpTsid) : BitVec 32 → List SplitMessage → List Arrival → Prop where
  | nil (s : BitVec 32) : OrderedTraffic tsid s [] []
  | message {s : BitVec 32} {m : SplitMessage} {packets : List (Nat × Arrival)}
      {rest : List SplitMessage} {arrivals : List Arrival} (hFits : m.Fits s)
      (hOrder : packets.map Prod.fst = List.range m.count)
      (hCarries : ∀ q ∈ packets, q.2.Carries tsid m s q.1 ∧ q.2.curMonoTime ≠ 0)
      (hRest : OrderedTraffic tsid (s + BitVec.ofNat 32 m.count) rest arrivals) :
      OrderedTraffic tsid s (m :: rest) (packets.map Prod.snd ++ arrivals)

theorem gathers_range (n : Nat) : Gathers [] (List.range n) := by
  induction n with
  | zero => trivial
  | succ n ih =>
      rw [List.range_succ, gathers_concat]
      refine ⟨ih, fun _ _ => ?_⟩
      rw [List.nil_append, ← List.range_succ]
      rintro ⟨j, hj, hOther⟩
      have := List.mem_range.mp hj
      exact List.mem_range.mpr (by omega)

theorem zero_mem_of_range {n : Nat} (h : seen <+: List.range n) (hSome : seen ≠ []) : 0 ∈ seen := by
  have hLength := List.length_pos_iff.mpr hSome
  have hBound := h.length_le
  rw [List.length_range] at hBound
  rw [List.prefix_iff_eq_take, List.take_range] at h
  rw [h]
  exact List.mem_range.mpr (by omega)

/-- In-order traffic is passed on message by message. -/
theorem OrderedTraffic.passed_on {msgs : List SplitMessage} {arrivals : List Arrival}
    (h : OrderedTraffic tsid s msgs arrivals) (hClean : (db.getWindow tsid).Clean tsid s) :
    ∃ handed db', trdpSystem.Run db arrivals handed db' ∧
      db'.received = db.received ++ msgs.map SplitMessage.bytes := by
  induction h generalizing db with
  | nil => exact ⟨[], db, .nil db, by simp⟩
  | @message s m packets rest arrivals hFits hOrder hCarries _ ih =>
      have hArrives : m.Arrives tsid s (db.getWindow tsid).lastMonoTime [] packets := by
        refine ⟨fun q hMem => (hCarries q hMem).1, fun front q hPrefix => ?_⟩
        have hMem : q ∈ packets := hPrefix.subset (by simp)
        have hNumbers := hPrefix.map Prod.fst
        rw [hOrder] at hNumbers
        exact ⟨(hCarries q hMem).2, .inr ⟨hFits, zero_mem_of_range hNumbers (by simp)⟩⟩
      have hStart := hClean.at m
      obtain ⟨handed, middle, hRun⟩ := hArrives.run_exists hStart hFits
        (hOrder ▸ gathers_range m.count)
      have hAll : m.Complete (packets.map Prod.fst) := by
        rw [hOrder]
        exact fun j hj => List.mem_range.mpr hj
      obtain ⟨hReceived, hNext⟩ := (hArrives.run hStart hRun).1.complete hAll hFits
      obtain ⟨more, db', hMore, hRest⟩ := ih hNext
      refine ⟨handed ++ more, db', hRun.trans hMore, ?_⟩
      rw [hRest, hReceived, List.map_cons, List.append_assoc]
      rfl

end Sassrv.Trdp
