import Mathlib.Data.List.Infix
import Sassrv.Trdp.Reassembly
import Sassrv.Trdp.SavedList

/-! Packets that are left in the saved list. The walk of `merge` never reaches one from
before the message, so that it stays there; and in the traffic that follows it takes the
place of another packet, or holds that packet's message back. -/
namespace Sassrv.Trdp
open Transition

/-- A window between messages that has everything up to a seqno. What it has saved are
packets of the message after it, or packets from before. -/
structure SplitMessage.Awaits (m : SplitMessage) (tsid : TrdpTsid) (s : BitVec 32) (w : TrdpWindow) :
    Prop where
  source : w.tsid = tsid
  lastSeqno : w.lastSeqno = s
  synced : w.lastMonoTime ≠ 0
  between : w.outputLen = 0
  wf : w.Wf
  saved : ∀ p ∈ w.list, (∃ i, m.IsSaved s i p) ∨ seqnoDiff p.seqno s ≤ 0

/-- A window between messages that has a packet saved. -/
structure TrdpWindow.Holds (w : TrdpWindow) (tsid : TrdpTsid) (s : BitVec 32) (x : TrdpWindowPkt) :
    Prop where
  source : w.tsid = tsid
  lastSeqno : w.lastSeqno = s
  synced : w.lastMonoTime ≠ 0
  between : w.outputLen = 0
  wf : w.Wf
  held : x ∈ w.list

variable {m : SplitMessage} {tsid : TrdpTsid} {s : BitVec 32} {clock now : BitVec 64}
  {seen : List Nat} {i fuel : Nat} {w v : TrdpWindow} {hdr : TrdpHdr} {payload : Bytes}
  {handed : List (BitVec 32 × Bytes)} {sent : List Bytes} {x : TrdpWindowPkt}

/-! What the walk hands out. -/

theorem fragmentRun_total (total : BitVec 32) (x : TrdpWindowPkt) (post : List TrdpWindowPkt) :
    (fragmentRun total x post).1 = total - dataSize (fragmentRun total x post).2 := by
  induction post generalizing total x with
  | nil => simp [fragmentRun, dataSize]
  | cons y rest ih =>
      have hCons : ∀ run, dataSize (y :: run) = y.dataLen.setWidth 32 + dataSize run := fun _ => rfl
      rw [fragmentRun]
      split
      · simp [dataSize]
      · dsimp only
        split
        case isTrue hZero =>
            rw [hCons]
            simp only [dataSize, List.map_nil, List.sum_nil, add_zero]
            exact hZero.symm
        case isFalse _ => rw [ih, hCons, sub_sub]

theorem messageRun_total (x : TrdpWindowPkt) (post : List TrdpWindowPkt) :
    (messageRun x post).1 = x.totalLen - dataSize (x :: (messageRun x post).2) := by
  have hCons : ∀ run, dataSize (x :: run) = x.dataLen.setWidth 32 + dataSize run := fun _ => rfl
  rw [messageRun]
  split
  case isTrue hZero =>
      rw [hCons]
      simp only [dataSize, List.map_nil, List.sum_nil, add_zero]
      exact hZero.symm
  case isFalse _ => rw [fragmentRun_total, hCons, sub_sub]

theorem chain_seqno {start : TrdpWindowPkt} {ready : List TrdpWindowPkt}
    (h : (start :: ready).IsChain fun p q => q.seqno = p.seqno + 1) {j : Nat} {p : TrdpWindowPkt}
    (hp : ready[j]? = some p) : p.seqno = start.seqno + 1 + BitVec.ofNat 32 j := by
  induction ready generalizing start j with
  | nil => cases hp
  | cons q rest ih =>
      obtain ⟨hNext, hRest⟩ := List.isChain_cons_cons.mp h
      cases j with
      | zero =>
          obtain rfl := Option.some.inj hp
          rw [hNext]
          simp
      | succ j =>
          rw [ih hRest hp, hNext, Nat.add_comm j, BitVec.ofNat_add, ← add_assoc]
          rfl

namespace SplitMessage

theorem seqnoDiff_ahead {j : Nat} (hj : j ≤ m.count) :
    Trdp.seqnoDiff (s + 1 + BitVec.ofNat 32 j) s = j + 1 := by
  have hCount := m.count_lt
  have hSeqno : s + 1 + BitVec.ofNat 32 j - s = BitVec.ofNat 32 (j + 1) := by
    rw [Nat.add_comm j, BitVec.ofNat_add, add_assoc, add_sub_cancel_left]
    rfl
  have hNat : (BitVec.ofNat 32 (j + 1)).toNat = j + 1 := by
    rw [BitVec.toNat_ofNat, Nat.mod_eq_of_lt (by omega)]
  rw [Trdp.seqnoDiff, hSeqno, BitVec.toInt_eq_toNat_of_lt (by omega), hNat]
  rfl

/-- The sizes of the first packets of the message. -/
theorem sizes_of_saved {front : List TrdpWindowPkt}
    (h : ∀ j (hj : j < front.length), m.IsSaved s j front[j]) :
    front.map (fun p => p.dataLen.toNat) = (List.range front.length).map m.partLength := by
  refine List.ext_getElem (by simp) fun j hj _ => ?_
  have hSaved := h j (by simpa using hj)
  rw [List.getElem_map, List.getElem_map, List.getElem_range, hSaved.dataLen_toNat, hSaved.index]

/-- The first packets of the message have all its bytes only if none is missing. -/
theorem count_of_sizes {front : List TrdpWindowPkt}
    (h : ∀ j (hj : j < front.length), m.IsSaved s j front[j]) (hShort : front.length ≤ m.count)
    (hAll : dataSize front = BitVec.ofNat 32 m.bytes.length) : front.length = m.count := by
  by_contra hNot
  have hLess := @SplitMessage.sum_lt m (List.range front.length) List.nodup_range
    (fun i hMem => (List.mem_range.mp hMem).trans_le hShort) fun hComplete =>
      absurd (List.mem_range.mp (hComplete front.length (by omega))) (Nat.lt_irrefl _)
  have hLength := m.length_lt
  have hNat := congrArg BitVec.toNat hAll
  rw [dataSize_eq, sizes_of_saved h, BitVec.toNat_ofNat, BitVec.toNat_ofNat,
    Nat.mod_eq_of_lt (by omega), Nat.mod_eq_of_lt hLength] at hNat
  omega

/-- The walk from the first packet hands out the message or nothing: a packet from before
carries none of the seqnos that it goes over. -/
theorem handed_message {post ready : List TrdpWindowPkt}
    (hSaved : ∀ p ∈ x :: post, (∃ i, m.IsSaved s i p) ∨ Trdp.seqnoDiff p.seqno s ≤ 0)
    (hHead : x.seqno = s + 1) (hEnds : MergeEnds x.seqno (x :: post) ready) :
    ready = [] ∨
      (ready.map (·.data) = m.parts ∧ ∀ j (hj : j < ready.length), m.IsSaved s j ready[j]) := by
  have hPrefix := hEnds.isPrefix
  have hChain := hEnds.chain { x with seqno := s } hHead.symm
  have hNumber : ∀ j p, ready[j]? = some p → j ≤ m.count → m.IsSaved s j p := by
    intro j p hp hj
    have hSeqno := chain_seqno hChain hp
    have hMem := hPrefix.subset (List.mem_of_getElem? hp)
    rcases hSaved p hMem with ⟨i, hSaved⟩ | hStale
    · obtain rfl : i = j := by
        rw [← hSaved.index, pktIndex, Serial.offset, hSeqno, add_sub_cancel_left, BitVec.toNat_ofNat]
        have := m.count_lt
        exact Nat.mod_eq_of_lt (by omega)
      exact hSaved
    · rw [hSeqno, seqnoDiff_ahead hj] at hStale
      omega
  have hLength : ready.length ≤ m.count := by
    by_contra hLong
    have hThere := hNumber m.count _ (List.getElem?_eq_getElem (by omega)) (Nat.le_refl _)
    exact absurd hThere.lt (Nat.lt_irrefl _)
  have hAll : ∀ j (hj : j < ready.length), m.IsSaved s j ready[j] := fun j hj =>
    hNumber j _ (List.getElem?_eq_getElem hj) (by omega)
  cases hEnds with
  | gap hGap => exact absurd rfl hGap
  | incomplete => exact .inl rfl
  | @message _ _ _ more _ hTotal rest =>
      have hFront : ∀ j (hj : j < (x :: (messageRun x post).2).length),
          m.IsSaved s j (x :: (messageRun x post).2)[j] := by
        intro j hj
        have hHanded := hAll j (by rw [List.length_append]; omega)
        rwa [List.getElem_append_left hj] at hHanded
      rw [List.length_append] at hLength
      have hWhole := count_of_sizes hFront (by omega) (by
        rw [messageRun_total] at hTotal
        rw [← (hFront 0 (by simp)).totalLen]
        exact (sub_eq_zero.mp hTotal).symm)
      have hCount : (x :: (messageRun x post).2 ++ more).length = m.count := by
        rw [List.length_append]
        omega
      refine .inr ⟨List.ext_getElem (by rw [List.length_map]; exact hCount) fun j hj hLt => ?_, hAll⟩
      have hPart := (hAll j (by simpa using hj)).part
      rw [List.getElem_map]
      rw [List.getElem?_eq_getElem hLt] at hPart
      exact (Option.some.inj hPart).symm

/-- A window with a packet left in its list after one more packet of the message: the
message is not there yet, or it was passed on. -/
def Passes (m : SplitMessage) (tsid : TrdpTsid) (s : BitVec 32) (clock : BitVec 64)
    (x : TrdpWindowPkt) (v : TrdpWindow) (sent : List Bytes) : Prop :=
  (sent = [] ∧ m.Awaits tsid s v ∧ v.lastMonoTime = clock ∧ x ∈ v.list) ∨
    (sent = [m.bytes] ∧ v.Holds tsid (s + BitVec.ofNat 32 m.count) x)

theorem Awaits.note (h : m.Awaits tsid s w) (hdr : TrdpHdr) : m.Awaits tsid s (w.note hdr) :=
  ⟨h.source, h.lastSeqno, h.synced, h.between, h.wf.of_list_eq rfl, h.saved⟩

theorem Awaits.insert (h : m.Awaits tsid s w) (hPacket : m.IsPacket s i hdr payload) (hNow : now ≠ 0)
    {list : List TrdpWindowPkt} (hInsert : insertSaved (.make hdr payload now) w.list = some list) :
    m.Awaits tsid s (w.save hdr list) := by
  refine ⟨h.source, h.lastSeqno, h.synced, h.between, h.wf.save hPacket.payload_length hInsert,
    fun p hp => ?_⟩
  rcases List.mem_cons.mp ((insertSaved_perm hInsert).mem_iff.mp hp) with rfl | hOld
  · exact .inl ⟨i, hPacket.saved hNow⟩
  · exact h.saved p hOld

/-- The message is handed out and put together, and the older packet stays in the list. -/
theorem Awaits.hands_out (h : m.Awaits tsid s w) (hMany : m.count ≠ 1) (hx : x ∈ w.list)
    (hOld : Trdp.seqnoDiff x.seqno s ≤ 0) {ready : List TrdpWindowPkt} (hPrefix : ready <+: w.list)
    (hData : ready.map (·.data) = m.parts) (hOurs : ∀ j (hj : j < ready.length), m.IsSaved s j ready[j])
    (hOutput : ((w.handOut ready).stampReady ready).outputAll fuel ready = some (v, sent)) :
    sent = [m.bytes] ∧ v.Holds tsid (s + BitVec.ofNat 32 m.count) x := by
  have hLength : ready.length = m.count := by
    rw [SplitMessage.count, ← hData, List.length_map]
  have hPos := m.count_pos
  have hSome : ready ≠ [] := List.length_pos_iff.mp (hLength ▸ hPos)
  have hLast := hOurs (ready.length - 1) (by omega)
  rw [← List.getLast_eq_getElem hSome] at hLast
  have hHanded : (w.handOut ready).stampReady ready =
      { w with
        list := w.list.drop ready.length
        saveSize := w.saveSize - dataSize ready
        lastSeqno := (ready.getLast hSome).seqno
        lastMonoTime := (ready.getLast hSome).monoTime } := by
    simp only [TrdpWindow.stampReady, TrdpWindow.handOut, List.getLast?_eq_some_getLast hSome,
      Option.map_some, Option.getD_some]
  obtain ⟨u, hDone, hSame, hBetween⟩ := outputAll_message hData hMany
    (w := (w.handOut ready).stampReady ready) (by rw [hHanded]; exact h.between)
  have hBoth := (outputAll_mono (Nat.le_max_left fuel 1) hOutput).symm.trans
    (outputAll_mono (Nat.le_max_right fuel 1) hDone)
  obtain ⟨rfl, rfl⟩ := Prod.mk.inj (Option.some.inj hBoth)
  refine ⟨rfl, ?_, ?_, ?_, hBetween, ?_, ?_⟩
  · rw [hSame.tsid, hHanded]
    exact h.source
  · rw [hSame.lastSeqno, hHanded, ← hLength]
    change (ready.getLast hSome).seqno = _
    rw [hLast.seqno, add_assoc]
    congr 1
    have hSucc : ready.length = 1 + (ready.length - 1) := by omega
    conv_rhs => rw [hSucc, BitVec.ofNat_add]
    rfl
  · rw [hSame.lastMonoTime, hHanded]
    exact hLast.stamped
  · refine TrdpWindow.Wf.of_list_eq (h.wf.handOut ready) ?_
    rw [hSame.list, stampReady_list]
  · rw [hSame.list, hHanded]
    change x ∈ w.list.drop ready.length
    obtain ⟨rest, hRest⟩ := hPrefix
    rw [← hRest, List.drop_left]
    rw [← hRest] at hx
    refine (List.mem_append.mp hx).resolve_left fun hReady => ?_
    obtain ⟨j, hj, rfl⟩ := List.mem_iff_getElem.mp hReady
    rw [(hOurs j hj).seqno, @seqnoDiff_ahead m s j (by omega)] at hOld
    omega

/-- What `merge` makes of a packet while an older one is left in the list. -/
theorem Awaits.merged (h : m.Awaits tsid s w) (hClock : w.lastMonoTime = clock) (hx : x ∈ w.list)
    (hOld : Trdp.seqnoDiff x.seqno s ≤ 0) (hPacket : m.IsPacket s i hdr payload) (hNow : now ≠ 0)
    (hSoon : now - clock < reliabilityNs) (hMany : m.count ≠ 1) {u : TrdpWindow}
    {ready : List TrdpWindowPkt} (hMerge : MergeOutcome w hdr payload now ready u)
    (hOutput : u.outputAll fuel ready = some (v, sent)) : m.Passes tsid s clock x v sent := by
  have hKept : ∀ {list : List TrdpWindowPkt}, insertSaved (.make hdr payload now) w.list = some list →
      x ∈ list := fun hInsert => (insertSaved_perm hInsert).mem_iff.mpr (List.mem_cons_of_mem _ hx)
  cases hMerge with
  | saved =>
      obtain ⟨rfl, rfl⟩ := outputAll_nil hOutput
      exact .inl ⟨rfl, ⟨h.source, h.lastSeqno, h.synced, h.between, h.wf.of_list_eq rfl, h.saved⟩,
        hClock, hx⟩
  | alone _ hInsert =>
      obtain ⟨rfl, rfl⟩ := outputAll_nil hOutput
      exact .inl ⟨rfl, h.insert hPacket hNow hInsert, hClock, hKept hInsert⟩
  | waits hInsert =>
      obtain ⟨rfl, rfl⟩ := outputAll_nil hOutput
      exact .inl ⟨rfl, h.insert hPacket hNow hInsert, hClock, hKept hInsert⟩
  | @walked y post _ _ hInsert hGo hEnds =>
      have hSave := h.insert hPacket hNow hInsert
      have hHead : y.seqno = s + 1 := by
        by_contra hNot
        refine hGo ⟨fun hZero => hNot ?_, hClock ▸ hSoon⟩
        rw [← h.lastSeqno]
        exact seqno_of_diff hZero
      have hNext : y.seqno = (w.save hdr (y :: post)).lastSeqno + 1 := by
        change _ = w.lastSeqno + 1
        rw [h.lastSeqno, hHead]
      rw [skipTo_of_next hNext] at hOutput
      rcases handed_message hSave.saved hHead hEnds with rfl | ⟨hData, hOurs⟩
      · rw [handOut_nil] at hOutput
        obtain ⟨rfl, rfl⟩ := outputAll_nil hOutput
        exact .inl ⟨rfl, hSave, hClock, hKept hInsert⟩
      · exact .inr (hSave.hands_out hMany (hKept hInsert) hOld hEnds.isPrefix hData hOurs hOutput)

theorem Awaits.holds (h : m.Awaits tsid s w) (hx : x ∈ w.list) : w.Holds tsid s x :=
  ⟨h.source, h.lastSeqno, h.synced, h.between, h.wf, hx⟩

end SplitMessage

/-- A message of one packet is passed on at once, and the list is left as it is. -/
theorem TrdpWindow.Holds.direct (h : w.Holds tsid s x) (hPacket : m.IsPacket s i hdr payload)
    (hNow : now ≠ 0) (hOne : m.count = 1)
    (hRecv : w.recvData fuel hdr payload now = some (v, handed, sent)) :
    sent = [m.bytes] ∧ v.Holds tsid (s + BitVec.ofNat 32 m.count) x := by
  obtain ⟨hRoute, hWhole⟩ := hPacket.route_direct hOne h.lastSeqno h.synced
  have hBetween : (w.note hdr).outputLen = 0 := h.between
  have hOutput : (w.note hdr).output (fuel + 1) payload = some (w.note hdr, [m.bytes]) := by
    rw [hWhole]
    exact output_whole hOne hBetween fuel
  unfold TrdpWindow.recvData at hRecv
  rw [hRoute] at hRecv
  simp only [Option.bind_eq_bind, Option.bind_eq_some_iff, Option.pure_def, Option.some.injEq,
    Prod.mk.injEq] at hRecv
  obtain ⟨⟨u, out⟩, hCall, rfl, -, rfl⟩ := hRecv
  have hSame := (output_mono (Nat.le_succ fuel) hCall).symm.trans hOutput
  obtain ⟨rfl, rfl⟩ := Prod.mk.inj (Option.some.inj hSame)
  refine ⟨rfl, h.source, ?_, hNow, h.between, h.wf.of_list_eq rfl, h.held⟩
  change w.lastSeqno + 1 = _
  rw [h.lastSeqno, hOne]
  rfl

namespace SplitMessage

/-- A call for a packet of the message, with an older one left in the list. -/
theorem Awaits.recv (h : m.Awaits tsid s w) (hClock : w.lastMonoTime = clock) (hx : x ∈ w.list)
    (hOld : m.count = 1 ∨ Trdp.seqnoDiff x.seqno s ≤ 0) (hPacket : m.IsPacket s i hdr payload)
    (hNow : now ≠ 0) (hSoon : now - clock < reliabilityNs)
    (hRecv : w.recvData fuel hdr payload now = some (v, handed, sent)) :
    m.Passes tsid s clock x v sent := by
  by_cases hOne : m.count = 1
  · exact .inr ((h.holds hx).direct hPacket hNow hOne hRecv)
  · have hNote := h.note hdr
    unfold TrdpWindow.recvData at hRecv
    rw [hPacket.route_merged hOne h.lastSeqno h.synced] at hRecv
    simp only [Option.bind_eq_bind, Option.bind_eq_some_iff, Option.pure_def, Option.some.injEq,
      Prod.mk.injEq] at hRecv
    obtain ⟨⟨u, ready⟩, hMerge, ⟨v', out⟩, hOutput, rfl, -, rfl⟩ := hRecv
    exact hNote.merged hClock hx (hOld.resolve_left hOne) hPacket hNow hSoon hOne
      (merge_outcome hNote.wf hPacket.payload_length hMerge) hOutput

theorem IsPacket.repeats_holds (h : m.IsPacket s i hdr payload)
    (hHolds : w.Holds tsid (s + BitVec.ofNat 32 m.count) x)
    (hRecv : w.recvData fuel hdr payload now = some (v, handed, sent)) :
    sent = [] ∧ v.Holds tsid (s + BitVec.ofNat 32 m.count) x := by
  rw [h.repeats hHolds.synced hHolds.lastSeqno] at hRecv
  simp only [Option.some.injEq, Prod.mk.injEq] at hRecv
  obtain ⟨rfl, -, rfl⟩ := hRecv
  exact ⟨rfl, hHolds.source, hHolds.lastSeqno, hHolds.synced, hHolds.between,
    hHolds.wf.of_list_eq rfl, hHolds.held⟩

theorem Passes.source (h : m.Passes tsid s clock x v sent) : v.tsid = tsid := by
  rcases h with ⟨-, hAwaits, -⟩ | ⟨-, hHolds⟩
  · exact hAwaits.source
  · exact hHolds.source

/-- The packets of a message arrive while an older packet is left in the list: the message
is not received, or the packet is left there. -/
theorem passes_run {db db' : TrdpWindowDB} (hAwaits : m.Awaits tsid s (db.getWindow tsid))
    (hx : x ∈ (db.getWindow tsid).list) (hOld : m.count = 1 ∨ Trdp.seqnoDiff x.seqno s ≤ 0)
    {packets : List (Nat × Arrival)} (hCarries : ∀ q ∈ packets, q.2.Carries tsid m s q.1)
    (hTimes : ∀ q ∈ packets, q.2.curMonoTime ≠ 0 ∧
      q.2.curMonoTime - (db.getWindow tsid).lastMonoTime < reliabilityNs)
    (hRun : trdpSystem.Run db (packets.map Prod.snd) handed db') :
    ∃ sent, db'.received = db.received ++ sent ∧
      m.Passes tsid s (db.getWindow tsid).lastMonoTime x (db'.getWindow tsid) sent := by
  induction packets using List.reverseRecOn generalizing handed db' with
  | nil =>
      obtain rfl := run_nil hRun
      exact ⟨[], (List.append_nil _).symm, .inl ⟨rfl, hAwaits, rfl, hx⟩⟩
  | append_singleton packets q ih =>
      rw [List.map_append, List.map_singleton] at hRun
      obtain ⟨middle, _, emitted, hPrior, hLast⟩ := run_snoc hRun
      obtain ⟨sent, hReceived, hPasses⟩ := ih (fun q' hMem => hCarries q' (List.mem_append_left _ hMem))
        (fun q' hMem => hTimes q' (List.mem_append_left _ hMem)) hPrior
      obtain ⟨hNow, hSoon⟩ := hTimes q (by simp)
      obtain ⟨hdr, payload, fuel, v, more, hPacket, hRecv, hMore, hWindow⟩ :=
        step_window (hCarries q (by simp)) hLast
      rw [hReceived, List.append_assoc] at hMore
      refine ⟨sent ++ more, hMore, ?_⟩
      rcases hPasses with ⟨rfl, hStill, hClock, hHeld⟩ | ⟨rfl, hHolds⟩
      · have hAfter := hStill.recv hClock hHeld hOld hPacket hNow hSoon hRecv
        rw [hWindow hAfter.source]
        exact hAfter
      · obtain ⟨rfl, hAfter⟩ := hPacket.repeats_holds hHolds hRecv
        rw [hWindow hAfter.source]
        exact .inr ⟨rfl, hAfter⟩

end SplitMessage

/-! The traffic after it. -/

/-- A packet that says nothing to the window, whatever it carries. -/
def TrdpWindow.Ignores (w : TrdpWindow) (hdr : TrdpHdr) : Prop :=
  ∃ v, ∀ fuel payload now, w.recvData fuel hdr payload now = some (v, [], [])

theorem recvData_repeated (hRoute : w.route hdr = .repeated) (fuel : Nat) (payload : Bytes)
    (now : BitVec 64) : w.recvData fuel hdr payload now =
      some ({ w.note hdr with repeatSeqno := w.repeatSeqno + 1 }, [], []) := by
  rw [TrdpWindow.recvData, hRoute]

/-- A packet of several whose seqno is saved already. -/
theorem recvData_saved (hWf : w.Wf) (hSynced : w.lastMonoTime ≠ 0)
    (hPart : hdr.totalLen ≠ hdr.dataLen.setWidth 32) (hThere : ∃ p ∈ w.list, p.seqno = hdr.seqno)
    (fuel : Nat) (payload : Bytes) (now : BitVec 64) : w.recvData fuel hdr payload now =
      some ({ w.note hdr with repeatSeqno := w.repeatSeqno + 1 }, [], []) := by
  by_cases hBehind : seqnoDiff hdr.seqno w.lastSeqno ≤ 0
  · refine recvData_repeated ?_ fuel payload now
    rw [TrdpWindow.route, if_neg hSynced]
    exact if_pos hBehind
  · have hRoute : w.route hdr = .merged := by
      rw [TrdpWindow.route, if_neg hSynced]
      dsimp only
      rw [if_neg hBehind, if_pos]
      by_cases hNext : seqnoDiff hdr.seqno w.lastSeqno = 1
      · exact .inr ⟨hNext, hPart⟩
      · exact .inl (by omega)
    have hInsert : insertSaved (.make hdr payload now) (w.note hdr).list = none :=
      (insertSaved_eq_none _ hWf.ascending).mpr hThere
    rw [TrdpWindow.recvData, hRoute]
    simp only [TrdpWindow.merge, hInsert]
    rfl

theorem ignores_saved (hWf : w.Wf) (hSynced : w.lastMonoTime ≠ 0)
    (hPart : hdr.totalLen ≠ hdr.dataLen.setWidth 32) (hThere : ∃ p ∈ w.list, p.seqno = hdr.seqno) :
    w.Ignores hdr :=
  ⟨_, recvData_saved hWf hSynced hPart hThere⟩

theorem ignores_unsynced (hSynced : w.lastMonoTime = 0) (hFrag : hdr.fragNum ≠ 0) :
    w.Ignores hdr := by
  refine ⟨w, fun fuel payload now => ?_⟩
  have hRoute : w.route hdr = .unsynced := by
    rw [TrdpWindow.route, if_pos hSynced, if_pos hFrag]
  rw [TrdpWindow.recvData, hRoute]

theorem ignores_behind (hSynced : w.lastMonoTime ≠ 0)
    (hBehind : seqnoDiff hdr.seqno w.lastSeqno ≤ 0) : w.Ignores hdr := by
  refine ⟨_, recvData_repeated ?_⟩
  rw [TrdpWindow.route, if_neg hSynced]
  exact if_pos hBehind

variable {db db' : TrdpWindowDB} {a b : Arrival}

/-- Two packets of one header that say nothing are not told apart. -/
theorem step_ignored (hHdr : TrdpHdr.copyIn a.datagram = some hdr)
    (hHdr' : TrdpHdr.copyIn b.datagram = some hdr) (hType : hdr.type = .data)
    (hIgnores : (db.getWindow hdr.tsid).Ignores hdr) (hStep : trdpSystem.step db a handed db')
    {handed' : List (BitVec 32 × Bytes)} {db'' : TrdpWindowDB}
    (hStep' : trdpSystem.step db b handed' db'') : db' = db'' := by
  obtain ⟨v, hIgnores⟩ := hIgnores
  obtain ⟨fuel, u, sent, hRecv, rfl⟩ := (step_data hHdr hType).mp hStep
  obtain ⟨fuel', u', sent', hRecv', rfl⟩ := (step_data hHdr' hType).mp hStep'
  rw [hIgnores] at hRecv hRecv'
  cases hRecv
  cases hRecv'
  rfl

theorem run_pair {handed : List (BitVec 32 × Bytes)} (h : trdpSystem.Run db [a, b] handed db') :
    ∃ middle first last, trdpSystem.step db a first middle ∧ trdpSystem.step middle b last db' := by
  obtain ⟨middle, _, last, hOne, hLast⟩ := run_snoc (show trdpSystem.Run db ([a] ++ [b]) handed db' from h)
  obtain ⟨first, hFirst⟩ := run_one hOne
  exact ⟨middle, first, last, hFirst, hLast⟩

/-- Everything that follows in order is received. -/
def ReceivesAll (tsid : TrdpTsid) (s : BitVec 32) (db : TrdpWindowDB) : Prop :=
  ∀ following arrivals, OrderedTraffic tsid s following arrivals →
    ∃ handed db', trdpSystem.Run db arrivals handed db' ∧
      db'.received = db.received ++ following.map SplitMessage.bytes

/-- A message of two packets, with a byte in each. -/
def pairOf (a b : BitVec 8) : SplitMessage where
  parts := [[0, 0, 0, 17, 0x99, 0x55, 0xee, 0xaa, a], [0, 0, 0, 0, 0, 0, 0, b]]
  split := List.cons_ne_nil _ _
  partSize := by simp
  size := by
    change ((0 ++ 0 : BitVec 16) ++ (0 ++ 17 : BitVec 16)).toNat = 17
    decide
  magic := by
    change (0x99 ++ 0x55 : BitVec 16) ++ (0xee ++ 0xaa : BitVec 16) = rvMagic
    decide

theorem pairOf_count (a b : BitVec 8) : (pairOf a b).count = 2 := rfl

theorem pairOf_traffic (a b : BitVec 8) (hFits : (s + 1).toNat + 2 ≤ 2 ^ 32) :
    OrderedTraffic tsid s [pairOf a b]
      [(pairOf a b).packetAt tsid s 0 1, (pairOf a b).packetAt tsid s 1 1] := by
  refine @OrderedTraffic.message tsid s (pairOf a b)
    [(0, (pairOf a b).packetAt tsid s 0 1), (1, (pairOf a b).packetAt tsid s 1 1)] [] [] (.inr hFits) rfl
    (fun q hMem => ?_) (.nil _)
  have hNow : (1 : BitVec 64) ≠ 0 := by decide
  rcases List.mem_cons.mp hMem with rfl | hMem
  · exact ⟨(pairOf a b).packetAt_carries tsid s (by rw [pairOf_count]; omega) 1, hNow⟩
  · rw [List.mem_singleton.mp hMem]
    exact ⟨(pairOf a b).packetAt_carries tsid s (by rw [pairOf_count]; omega) 1, hNow⟩

/-- The header of a packet does not depend on the bytes of the message. -/
theorem pairOf_hdr (tsid : TrdpTsid) (s : BitVec 32) {i : Nat} (hi : i < 2) : ∃ hdr,
    (∀ a b, TrdpHdr.copyIn ((pairOf a b).packetAt tsid s i 1).datagram = some hdr) ∧
      hdr.type = .data ∧ hdr.tsid = tsid ∧ hdr.seqno = s + 1 + BitVec.ofNat 32 i ∧
      hdr.totalLen ≠ hdr.dataLen.setWidth 32 ∧ (i = 1 → hdr.fragNum ≠ 0) := by
  have hRead := fun a b => copyIn_dataDatagram tsid (s + 1 + BitVec.ofNat 32 i)
    (BitVec.ofNat 32 (pairOf a b).bytes.length) (BitVec.ofNat 16 i) ((pairOf a b).parts.getD i [])
  have hLength : ∀ a b, (pairOf a b).bytes.length = 17 := fun _ _ => rfl
  have hSizes : ∀ n ∈ [9, 8], (17 : BitVec 32) ≠ (BitVec.ofNat 16 n).setWidth 32 := by decide
  simp only [hLength] at hRead
  obtain rfl | rfl : i = 0 ∨ i = 1 := by omega
  · have hPart : ∀ a b, ((pairOf a b).parts.getD 0 []).length = 9 := fun _ _ => rfl
    simp only [hPart] at hRead
    exact ⟨_, hRead, type_of_one rfl, rfl, rfl, hSizes 9 (by simp), fun h => absurd h Nat.zero_ne_one⟩
  · have hPart : ∀ a b, ((pairOf a b).parts.getD 1 []).length = 8 := fun _ _ => rfl
    have hSecond : (1 : BitVec 16) ≠ 0 := by decide
    simp only [hPart] at hRead
    exact ⟨_, hRead, type_of_one rfl, rfl, rfl, hSizes 8 (by simp), fun _ => hSecond⟩

/-- The two messages of a pair cannot both be received where they are not told apart. -/
theorem ReceivesAll.pair_apart (h : ReceivesAll tsid s db) (hFits : (s + 1).toNat + 2 ≤ 2 ^ 32)
    {a b a' b' : BitVec 8} (hApart : (pairOf a b).bytes ≠ (pairOf a' b').bytes)
    (hSame : ∀ {middle middle' : TrdpWindowDB} {first last first' last' : List (BitVec 32 × Bytes)}
      {finish finish' : TrdpWindowDB},
      trdpSystem.step db ((pairOf a b).packetAt tsid s 0 1) first middle →
      trdpSystem.step middle ((pairOf a b).packetAt tsid s 1 1) last finish →
      trdpSystem.step db ((pairOf a' b').packetAt tsid s 0 1) first' middle' →
      trdpSystem.step middle' ((pairOf a' b').packetAt tsid s 1 1) last' finish' →
      finish = finish') : False := by
  obtain ⟨_, db', hRun, hReceived⟩ := h _ _ (pairOf_traffic a b hFits)
  obtain ⟨_, db'', hRun', hReceived'⟩ := h _ _ (pairOf_traffic a' b' hFits)
  obtain ⟨_, _, _, hFirst, hLast⟩ := run_pair hRun
  obtain ⟨_, _, _, hFirst', hLast'⟩ := run_pair hRun'
  obtain rfl := hSame hFirst hLast hFirst' hLast'
  rw [hReceived] at hReceived'
  exact hApart (List.cons.inj (List.append_cancel_left hReceived')).1

/-- The saved packet is taken for the first packet of a message. -/
theorem TrdpWindow.Holds.takes_first (h : (db.getWindow tsid).Holds tsid s x)
    (hNext : x.seqno = s + 1) (hFits : (s + 1).toNat + 2 ≤ 2 ^ 32) : ¬ ReceivesAll tsid s db := by
  intro hAll
  obtain ⟨hdr, hHdr, hType, hSource, hSeqno, hPart, -⟩ := pairOf_hdr tsid s (show 0 < 2 by omega)
  have hApart : (pairOf 0 0).bytes ≠ (pairOf 1 0).bytes := by decide
  refine hAll.pair_apart hFits hApart fun hFirst hLast hFirst' hLast' => ?_
  have hIgnores : (db.getWindow hdr.tsid).Ignores hdr := by
    rw [hSource]
    refine ignores_saved h.wf h.synced hPart ⟨x, h.held, ?_⟩
    rw [hSeqno, hNext]
    exact (BitVec.add_zero _).symm
  obtain rfl := step_ignored (hHdr 0 0) (hHdr 1 0) hType hIgnores hFirst hFirst'
  exact step_unique hLast hLast'

/-- After a packet has arrived ahead of one that has the last seqno of all, no packet with
that seqno says anything. -/
theorem TrdpWindow.Holds.last_ignored (h : w.Holds tsid s x) (hLast : x.seqno.toNat + 1 = 2 ^ 32)
    (hPayload : payload.length = hdr.dataLen.toNat)
    (hRecv : w.recvData fuel hdr payload now = some (v, handed, sent)) {hdr' : TrdpHdr}
    (hSeqno : hdr'.seqno = x.seqno) (hPart' : hdr'.totalLen ≠ hdr'.dataLen.setWidth 32)
    (hFrag : hdr'.fragNum ≠ 0) : v.Ignores hdr' := by
  have hOutcome := recvData_outcome h.wf hPayload hRecv
  have hWf := hOutcome.wf h.wf hPayload
  by_cases hSynced : v.lastMonoTime = 0
  · exact ignores_unsynced hSynced hFrag
  suffices hThere : x ∈ v.list ∨ v.lastSeqno = x.seqno by
    rcases hThere with hHeld | hReached
    · exact ignores_saved hWf hSynced hPart' ⟨x, hHeld, hSeqno.symm⟩
    · refine ignores_behind hSynced ?_
      rw [hSeqno, hReached, seqnoDiff, sub_self]
      exact Int.le_refl 0
  cases hOutcome with
  | unsynced => exact .inl h.held
  | repeated => exact .inl h.held
  | first hRoute => exact absurd (route_first hRoute) h.synced
  | direct _ hSame => exact .inl (hSame.list ▸ h.held)
  | merged _ hMerge hSame =>
      rw [hSame.list, hSame.lastSeqno]
      have hKept : ∀ {list : List TrdpWindowPkt},
          insertSaved (.make hdr payload now) (w.note hdr).list = some list → x ∈ list :=
        fun hInsert => (insertSaved_perm hInsert).mem_iff.mpr (List.mem_cons_of_mem _ h.held)
      cases hMerge with
      | saved => exact .inl h.held
      | alone _ hInsert => exact .inl (hKept hInsert)
      | waits hInsert => exact .inl (hKept hInsert)
      | @walked y post ready _ hInsert _ hEnds =>
          obtain ⟨rest, hRest⟩ := hEnds.isPrefix
          have hMem := hKept hInsert
          have hAscending := insertSaved_ascending h.wf.ascending hInsert
          rw [stampReady_lastSeqno, stampReady_list]
          rw [← hRest] at hMem hAscending
          rcases List.mem_append.mp hMem with hReady | hBehind
          · -- nothing can stand behind the last seqno of all
            refine .inr ?_
            obtain ⟨front, back, rfl⟩ := List.append_of_mem hReady
            obtain rfl : back = [] := by
              refine List.eq_nil_iff_forall_not_mem.mpr fun p hp => ?_
              have hOrder := (List.pairwise_append.mp (List.pairwise_append.mp hAscending).1).2.1
              have hAhead := (List.pairwise_cons.mp hOrder).1 p hp
              have hBound := p.seqno.isLt
              omega
            simp [TrdpWindow.handOut]
          · refine .inl ?_
            change x ∈ List.drop _ ((w.note hdr).save hdr (y :: post)|>.skipTo y).list
            rw [skipTo_list]
            change x ∈ List.drop _ (y :: post)
            rw [← hRest, List.drop_left]
            exact hBehind

/-- The saved packet has the last seqno of all and is taken for the second packet. -/
theorem TrdpWindow.Holds.takes_second (h : (db.getWindow tsid).Holds tsid s x)
    (hNext : x.seqno = s + 1 + 1) (hLast : x.seqno.toNat + 1 = 2 ^ 32) : ¬ ReceivesAll tsid s db := by
  intro hAll
  have hFits : (s + 1).toNat + 2 ≤ 2 ^ 32 := by
    rw [hNext, BitVec.toNat_add] at hLast
    have hBound := (s + 1).isLt
    have hOne : (1 : BitVec 32).toNat = 1 := rfl
    omega
  obtain ⟨hdr, hHdr, hType, hSource, hSeqno, hPart, hFrag⟩ := pairOf_hdr tsid s (show 1 < 2 by omega)
  have hApart : (pairOf 0 0).bytes ≠ (pairOf 0 1).bytes := by decide
  refine hAll.pair_apart hFits hApart fun hFirst hSecond hFirst' hSecond' => ?_
  obtain rfl := step_unique hFirst hFirst'
  obtain ⟨first, payload, fuel, v, sent, hPacket, hRecv, -, hWindow⟩ :=
    step_window ((pairOf 0 0).packetAt_carries tsid s (by rw [pairOf_count]; omega) 1) hFirst
  have hIgnores : v.Ignores hdr := h.last_ignored hLast hPacket.payload_length hRecv
    (hSeqno.trans hNext.symm) hPart (hFrag rfl)
  have hStay : v.tsid = tsid :=
    (recvData_outcome h.wf hPacket.payload_length hRecv).tsid.trans h.source
  rw [← hWindow hStay, ← hSource] at hIgnores
  exact step_ignored (hHdr 0 0) (hHdr 0 1) hType hIgnores hSecond hSecond'

/-- A message of one packet that says nothing. -/
def solo : SplitMessage where
  parts := [[0, 0, 0, 8, 0x99, 0x55, 0xee, 0xaa]]
  split := List.cons_ne_nil _ _
  partSize := by simp
  size := by
    change ((0 ++ 0 : BitVec 16) ++ (0 ++ 8 : BitVec 16)).toNat = 8
    decide
  magic := by
    change (0x99 ++ 0x55 : BitVec 16) ++ (0xee ++ 0xaa : BitVec 16) = rvMagic
    decide

theorem solo_count : solo.count = 1 := rfl

/-- The window goes on to any seqno with the packet left in its list. -/
theorem TrdpWindow.Holds.after (h : (db.getWindow tsid).Holds tsid s x)
    (hAll : ReceivesAll tsid s db) (n : Nat) :
    ∃ db', (db'.getWindow tsid).Holds tsid (s + BitVec.ofNat 32 n) x ∧
      ReceivesAll tsid (s + BitVec.ofNat 32 n) db' := by
  induction n with
  | zero =>
      rw [show s + BitVec.ofNat 32 0 = s from BitVec.add_zero s]
      exact ⟨db, h, hAll⟩
  | succ n ih =>
      obtain ⟨before, hHolds, hBefore⟩ := ih
      have hSeqno : s + BitVec.ofNat 32 (n + 1) = s + BitVec.ofNat 32 n + 1 := by
        rw [BitVec.ofNat_add, ← add_assoc]
        rfl
      rw [hSeqno]
      generalize s + BitVec.ofNat 32 n = reached at hHolds hBefore
      have hCarries := solo.packetAt_carries tsid reached (i := 0) (by rw [solo_count]; omega) 1
      have hNow : (1 : BitVec 64) ≠ 0 := by decide
      have hTraffic : ∀ following arrivals, OrderedTraffic tsid (reached + 1) following arrivals →
          OrderedTraffic tsid reached (solo :: following) (solo.packetAt tsid reached 0 1 :: arrivals) := by
        intro following arrivals hFollowing
        refine @OrderedTraffic.message tsid reached solo [(0, solo.packetAt tsid reached 0 1)]
          following arrivals (.inl solo_count) rfl (fun q hMem => ?_) hFollowing
        rw [List.mem_singleton.mp hMem]
        exact ⟨hCarries, hNow⟩
      obtain ⟨handed, next, hRun, hReceived⟩ := hBefore _ _ (hTraffic [] [] (.nil _))
      obtain ⟨emitted, hStep⟩ := run_one hRun
      refine ⟨next, ?_, fun following arrivals hFollowing => ?_⟩
      · obtain ⟨hdr, payload, fuel, v, sent, hPacket, hRecv, -, hWindow⟩ := step_window hCarries hStep
        have hDirect := (hHolds.direct hPacket hNow solo_count hRecv).2
        rw [hWindow hDirect.source]
        exact hDirect
      · obtain ⟨_, finish, hMore, hAfter⟩ := hBefore _ _ (hTraffic following arrivals hFollowing)
        obtain ⟨middle, _, rest, hHead, hTail⟩ :=
          run_split (show trdpSystem.Run before ([_] ++ arrivals) _ finish from hMore)
        obtain ⟨_, hStep'⟩ := run_one hHead
        obtain rfl := step_unique hStep hStep'
        refine ⟨rest, finish, hTail, ?_⟩
        rw [hAfter, hReceived, List.append_assoc]
        rfl

/-- A packet that is left in the list meets the traffic some time. -/
theorem TrdpWindow.Holds.not_all (h : (db.getWindow tsid).Holds tsid s x) :
    ¬ ReceivesAll tsid s db := by
  intro hAll
  have hReach : ∀ seqno : BitVec 32, ∃ db', (db'.getWindow tsid).Holds tsid seqno x ∧
      ReceivesAll tsid seqno db' := by
    intro seqno
    obtain ⟨db', hThere⟩ := h.after hAll (seqno - s).toNat
    rw [BitVec.ofNat_toNat, BitVec.setWidth_eq, add_sub_cancel] at hThere
    exact ⟨db', hThere⟩
  by_cases hLast : x.seqno.toNat + 1 = 2 ^ 32
  · obtain ⟨db', hHolds, hBefore⟩ := hReach (x.seqno - 1 - 1)
    exact hHolds.takes_second (by rw [sub_add_cancel, sub_add_cancel]) hLast hBefore
  · obtain ⟨db', hHolds, hBefore⟩ := hReach (x.seqno - 1)
    have hNext : x.seqno = x.seqno - 1 + 1 := (sub_add_cancel _ _).symm
    refine hHolds.takes_first hNext ?_ hBefore
    have hBound := x.seqno.isLt
    rw [← hNext]
    omega

/-! Which packets arrive in time. -/

namespace SplitMessage

/-- The packets of the message that a window has saved. -/
def savedParts (s : BitVec 32) (w : TrdpWindow) : List Nat := w.list.map (pktIndex s)

/-- Nothing from before the message is saved and some of the message is not; its seqnos do
not wrap; and the second packet is there as soon as the first one and another are. -/
structure Passable (m : SplitMessage) (s : BitVec 32) (w : TrdpWindow) (order : List Nat) : Prop where
  nothingBehind : ∀ p ∈ w.list, 0 < Trdp.seqnoDiff p.seqno s
  someMissing : ¬ m.Complete (savedParts s w)
  fits : m.Fits s
  gathers : Gathers (savedParts s w) order

theorem Awaits.filled (h : m.Awaits tsid s w) (hBehind : ∀ p ∈ w.list, 0 < Trdp.seqnoDiff p.seqno s) :
    m.Filled s (savedParts s w) w.list := by
  have hOurs : ∀ p ∈ w.list, m.IsSaved s (pktIndex s p) p := by
    intro p hp
    rcases h.saved p hp with ⟨i, hSaved⟩ | hStale
    · exact hSaved.index.symm ▸ hSaved
    · exact absurd (hBehind p hp) (not_lt.mpr hStale)
  refine ⟨h.wf.ascending, fun p hp => ⟨_, List.mem_map_of_mem hp, hOurs p hp⟩, fun i hi => ?_⟩
  obtain ⟨p, hp, rfl⟩ := List.mem_map.mp hi
  exact ⟨p, hp, hOurs p hp⟩

theorem Awaits.at (h : m.Awaits tsid s (db.getWindow tsid))
    (hBehind : ∀ p ∈ (db.getWindow tsid).list, 0 < Trdp.seqnoDiff p.seqno s)
    (hMissing : ¬ (m.Complete (savedParts s (db.getWindow tsid)) ∧ m.Fits s)) :
    m.At tsid s (db.getWindow tsid).lastMonoTime db.received (savedParts s (db.getWindow tsid)) db :=
  ⟨[], (List.append_nil _).symm,
    .inl ⟨rfl, ⟨h.source, h.lastSeqno, rfl, h.synced, h.between, h.filled hBehind⟩, hMissing⟩⟩

/-- With all its packets saved every one that arrives is a repeat. -/
theorem repeated_run (hMany : m.count ≠ 1) (hWf : (db.getWindow tsid).Wf)
    (hSynced : (db.getWindow tsid).lastMonoTime ≠ 0)
    (hThere : ∀ i < m.count, ∃ p ∈ (db.getWindow tsid).list, p.seqno = s + 1 + BitVec.ofNat 32 i)
    {packets : List (Nat × Arrival)} (hCarries : ∀ q ∈ packets, q.2.Carries tsid m s q.1)
    (hRun : trdpSystem.Run db (packets.map Prod.snd) handed db') :
    db'.received = db.received ∧ (db'.getWindow tsid).list = (db.getWindow tsid).list ∧
      (db'.getWindow tsid).lastMonoTime = (db.getWindow tsid).lastMonoTime := by
  induction packets using List.reverseRecOn generalizing handed db' with
  | nil =>
      obtain rfl := run_nil hRun
      exact ⟨rfl, rfl, rfl⟩
  | append_singleton packets q ih =>
      rw [List.map_append, List.map_singleton] at hRun
      obtain ⟨middle, _, emitted, hPrior, hLast⟩ := run_snoc hRun
      obtain ⟨hReceived, hList, hClock⟩ := ih (fun q' hMem => hCarries q' (List.mem_append_left _ hMem)) hPrior
      obtain ⟨hdr, payload, fuel, v, sent, hPacket, hRecv, hMore, hWindow⟩ :=
        step_window (hCarries q (by simp)) hLast
      have hSaved := recvData_saved (hWf.of_list_eq hList) (hClock ▸ hSynced)
        (hPacket.totalLen_ne hMany) (by rw [hList, hPacket.seqno]; exact hThere q.1 hPacket.lt)
        fuel payload q.2.curMonoTime
      rw [hSaved] at hRecv
      simp only [Option.some.injEq, Prod.mk.injEq] at hRecv
      obtain ⟨rfl, -, rfl⟩ := hRecv
      rw [hWindow (getWindow_tsid middle tsid), hMore, hReceived]
      exact ⟨List.append_nil _, hList, hClock⟩

end SplitMessage

section Received

variable {packets : List (Nat × Arrival)}

/-- The message is received once and in its place, whatever traffic follows in order. -/
def ReceivesMessage (m : SplitMessage) (tsid : TrdpTsid) (s : BitVec 32) (db : TrdpWindowDB)
    (packets : List (Nat × Arrival)) : Prop :=
  ∀ following arrivals, OrderedTraffic tsid (s + BitVec.ofNat 32 m.count) following arrivals →
    ∃ handed db', trdpSystem.Run db (packets.map Prod.snd ++ arrivals) handed db' ∧
      db'.received = db.received ++ m.bytes :: following.map SplitMessage.bytes

theorem ReceivesMessage.run (h : ReceivesMessage m tsid s db packets) :
    ∃ handed db', trdpSystem.Run db (packets.map Prod.snd) handed db' ∧
      db'.received = db.received ++ [m.bytes] ∧
      ReceivesAll tsid (s + BitVec.ofNat 32 m.count) db' := by
  obtain ⟨handed, db', hRun, hReceived⟩ := h [] [] (.nil _)
  rw [List.append_nil] at hRun
  refine ⟨handed, db', hRun, hReceived, fun following arrivals hFollowing => ?_⟩
  obtain ⟨_, finish, hMore, hAfter⟩ := h following arrivals hFollowing
  obtain ⟨middle, _, rest, hHead, hTail⟩ := run_split hMore
  obtain rfl := run_unique hRun hHead
  refine ⟨rest, finish, hTail, ?_⟩
  rw [hAfter, hReceived, List.append_assoc]
  rfl

/-- Where the message is received, no packet is left in the list that the walk does not
reach. -/
theorem ReceivesMessage.none_left (h : ReceivesMessage m tsid s db packets)
    (hAwaits : m.Awaits tsid s (db.getWindow tsid))
    (hCarries : ∀ q ∈ packets, q.2.Carries tsid m s q.1)
    (hTimes : ∀ q ∈ packets, q.2.curMonoTime ≠ 0 ∧
      q.2.curMonoTime - (db.getWindow tsid).lastMonoTime < reliabilityNs)
    (hx : x ∈ (db.getWindow tsid).list) : m.count ≠ 1 ∧ 0 < seqnoDiff x.seqno s := by
  obtain ⟨handed, db', hRun, hReceived, hRest⟩ := h.run
  have hLeft : ¬ (m.count = 1 ∨ seqnoDiff x.seqno s ≤ 0) := by
    intro hOld
    obtain ⟨sent, hSent, hPasses⟩ := SplitMessage.passes_run hAwaits hx hOld hCarries hTimes hRun
    rw [hReceived] at hSent
    have hOne := List.append_cancel_left hSent
    rcases hPasses with ⟨rfl, -⟩ | ⟨-, hHolds⟩
    · cases hOne
    · exact hHolds.not_all hRest
  rw [not_or, not_le] at hLeft
  exact hLeft

/-- A message whose packets arrive within the interval is received once and in its place,
whatever traffic follows in order, exactly when it can pass the window. -/
theorem message_received_iff (hAwaits : m.Awaits tsid s (db.getWindow tsid))
    (hCarries : ∀ q ∈ packets, q.2.Carries tsid m s q.1)
    (hAll : m.Complete (packets.map Prod.fst))
    (hTimes : ∀ q ∈ packets, q.2.curMonoTime ≠ 0 ∧
      q.2.curMonoTime - (db.getWindow tsid).lastMonoTime < reliabilityNs) :
    ReceivesMessage m tsid s db packets ↔
      m.Passable s (db.getWindow tsid) (packets.map Prod.fst) := by
  have hArrives : m.Arrives tsid s (db.getWindow tsid).lastMonoTime
      (SplitMessage.savedParts s (db.getWindow tsid)) packets := by
    refine ⟨hCarries, fun front q hPrefix => ?_⟩
    obtain ⟨hNow, hSoon⟩ := hTimes q (hPrefix.subset (by simp))
    exact ⟨hNow, .inl hSoon⟩
  constructor
  · intro hReceives
    have hLeft := fun x hx => @ReceivesMessage.none_left m tsid s x db packets hReceives hAwaits
      hCarries hTimes hx
    have hBehind := fun x hx => (hLeft x hx).2
    obtain ⟨handed, db', hRun, hReceived, -⟩ := hReceives.run
    have hMissing : ¬ m.Complete (SplitMessage.savedParts s (db.getWindow tsid)) := by
      intro hThere
      obtain ⟨p, hp, -⟩ := List.mem_map.mp (hThere 0 m.count_pos)
      have hSaved : ∀ i < m.count, ∃ p ∈ (db.getWindow tsid).list,
          p.seqno = s + 1 + BitVec.ofNat 32 i := by
        intro i hi
        obtain ⟨p, hp, hOurs⟩ := (hAwaits.filled hBehind).held i (hThere i hi)
        exact ⟨p, hp, hOurs.seqno⟩
      have hSame := (SplitMessage.repeated_run (hLeft p hp).1 hAwaits.wf hAwaits.synced hSaved
        hCarries hRun).1
      rw [hReceived] at hSame
      simp at hSame
    obtain ⟨⟨sent, hSent, hState⟩, hGathers⟩ := hArrives.run
      (hAwaits.at hBehind fun hDone => hMissing hDone.1) hRun
    rw [hReceived] at hSent
    have hOne := List.append_cancel_left hSent
    rcases hState with ⟨rfl, -⟩ | ⟨-, -, -, hFits⟩
    · cases hOne
    · exact ⟨hBehind, hMissing, hFits, hGathers hFits⟩
  · intro hPassable following arrivals hFollowing
    have hStart := hAwaits.at hPassable.nothingBehind fun hDone => hPassable.someMissing hDone.1
    obtain ⟨handed, middle, hRun⟩ := hArrives.run_exists hStart hPassable.fits hPassable.gathers
    obtain ⟨hReceived, hNext⟩ := (hArrives.run hStart hRun).1.complete
      (fun i hi => List.mem_append_right _ (hAll i hi)) hPassable.fits
    obtain ⟨more, db', hMore, hRest⟩ := hFollowing.passed_on hNext
    refine ⟨handed ++ more, db', hRun.trans hMore, ?_⟩
    rw [hRest, hReceived, List.append_assoc]
    rfl

end Received

/-- Three packets of eight bytes. -/
def threeParts : SplitMessage where
  parts := [beBytes32 24 ++ beBytes32 rvMagic, List.replicate 8 1, List.replicate 8 2]
  split := List.cons_ne_nil _ _
  partSize := by decide
  size := by decide
  magic := by decide

/-- A database that has one source's packets up to seqno 5, and some saved. -/
def syncedDb (list : List TrdpWindowPkt) : TrdpWindowDB where
  windows := [{ tsid := ⟨1, 1⟩, lastSeqno := 5, lastRecvSeqno := 5, lastMonoTime := 1, list }]

/-- The second packet of the message, as it is saved. -/
def secondSaved : TrdpWindowPkt where
  seqno := 7
  totalLen := 24
  dataLen := 8
  fragNum := 1
  monoTime := 1
  data := List.replicate 8 1

/-- The packet of that number behind seqno 5. -/
def threePartsAt (i : Nat) : Nat × Arrival := (i, threeParts.packetAt ⟨1, 1⟩ 5 i 2)

theorem syncedDb_awaits : threeParts.Awaits ⟨1, 1⟩ 5 ((syncedDb []).getWindow ⟨1, 1⟩) :=
  ⟨rfl, rfl, by decide, rfl, ⟨List.Pairwise.nil, fun _ hMem => absurd hMem List.not_mem_nil⟩,
    fun _ hMem => absurd hMem List.not_mem_nil⟩

theorem syncedDb_awaits_saved :
    threeParts.Awaits ⟨1, 1⟩ 5 ((syncedDb [secondSaved]).getWindow ⟨1, 1⟩) := by
  refine ⟨rfl, rfl, by decide, rfl, ⟨List.pairwise_singleton _ _, fun p hMem => ?_⟩, fun p hMem => ?_⟩
  · rw [List.mem_singleton.mp hMem]
    rfl
  · rw [List.mem_singleton.mp hMem]
    exact .inl ⟨1, rfl, by decide, by decide, by decide, by decide⟩

theorem threePartsAt_packets {list : List TrdpWindowPkt} {order : List Nat} (h : ∀ i ∈ order, i < 3) :
    ∀ q ∈ order.map threePartsAt, q.2.Carries ⟨1, 1⟩ threeParts 5 q.1 ∧
      q.2.curMonoTime ≠ 0 ∧
        q.2.curMonoTime - ((syncedDb list).getWindow ⟨1, 1⟩).lastMonoTime < reliabilityNs := by
  intro q hMem
  obtain ⟨i, hi, rfl⟩ := List.mem_map.mp hMem
  have hNow : (2 : BitVec 64) ≠ 0 := by decide
  have hSoon : (2 : BitVec 64) - 1 < reliabilityNs := by decide
  exact ⟨threeParts.packetAt_carries _ _ (h i hi) _, hNow, hSoon⟩

/-- The second packet is saved already; then the first one arrives twice, and the others. -/
theorem message_received_shuffled :
    ReceivesMessage threeParts ⟨1, 1⟩ 5 (syncedDb [secondSaved]) ([0, 0, 2, 1].map threePartsAt) := by
  have hPackets := @threePartsAt_packets [secondSaved] [0, 0, 2, 1] (by decide)
  exact (message_received_iff syncedDb_awaits_saved (fun q hMem => (hPackets q hMem).1) (by decide)
    fun q hMem => (hPackets q hMem).2).mpr ⟨by decide, by decide, by decide, by decide⟩

/-- With the first packet, the third and then the second one no call returns that
would receive the message. -/
theorem message_can_be_lost :
    ¬ ∀ (db : TrdpWindowDB) (tsid : TrdpTsid) (s : BitVec 32) (m : SplitMessage)
      (packets : List (Nat × Arrival)), m.Awaits tsid s (db.getWindow tsid) →
      (∀ q ∈ packets, q.2.Carries tsid m s q.1) → m.Complete (packets.map Prod.fst) →
      (∀ q ∈ packets, q.2.curMonoTime ≠ 0 ∧
        q.2.curMonoTime - (db.getWindow tsid).lastMonoTime < reliabilityNs) →
      ReceivesMessage m tsid s db packets := by
  intro h
  have hPackets := @threePartsAt_packets [] [0, 2, 1] (by decide)
  obtain ⟨handed, db', hRun, -⟩ := (h (syncedDb []) ⟨1, 1⟩ 5 threeParts ([0, 2, 1].map threePartsAt)
    syncedDb_awaits (fun q hMem => (hPackets q hMem).1) (by decide)
    fun q hMem => (hPackets q hMem).2).run
  have hArrives : threeParts.Arrives ⟨1, 1⟩ 5 ((syncedDb []).getWindow ⟨1, 1⟩).lastMonoTime []
      ([0, 2, 1].map threePartsAt) := by
    refine ⟨fun q hMem => (hPackets q hMem).1, fun front q hPrefix => ?_⟩
    obtain ⟨-, hNow, hSoon⟩ := hPackets q (hPrefix.subset (by simp))
    exact ⟨hNow, .inl hSoon⟩
  have hStart := syncedDb_awaits.at (fun _ hMem => absurd hMem List.not_mem_nil) (by decide)
  exact absurd ((hArrives.run hStart hRun).2 (by decide)) (by decide)

end Sassrv.Trdp
