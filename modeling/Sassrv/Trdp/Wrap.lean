import Sassrv.Trdp.Bounds
import Sassrv.Trdp.Delivery

/-! Renumbering a TRDP stream. Adding one constant to every seqno commutes
with all of the receive window except the search for the insertion point of
the saved list: that search compares plain unsigned words, everything else
takes differences. A stream and its renumbering are therefore received alike
as long as the packets compared there do not straddle the wrap in just one of
the two. -/
namespace Sassrv.Trdp
open Transition

variable {k : BitVec 32} {fuel : Nat} {w v : TrdpWindow} {hdr : TrdpHdr} {payload : Bytes}
    {now : BitVec 64}

def TrdpWindowPkt.shift (k : BitVec 32) (p : TrdpWindowPkt) : TrdpWindowPkt :=
  { p with seqno := p.seqno + k }

def TrdpHdr.shift (k : BitVec 32) (hdr : TrdpHdr) : TrdpHdr := { hdr with seqno := hdr.seqno + k }

def TrdpWindow.shift (k : BitVec 32) (w : TrdpWindow) : TrdpWindow :=
  { w with
    lastSeqno := w.lastSeqno + k, lastRecvSeqno := w.lastRecvSeqno + k
    list := w.list.map (·.shift k) }

/-- The datagram with a constant added to the seqno word of its header. -/
def Datagram.shift (k : BitVec 32) (d : Datagram) : Datagram :=
  { d with bytes := d.bytes.take 20 ++ beBytes32 (d.getU32 20 + k) ++ d.bytes.drop 24 }

def Arrival.shift (k : BitVec 32) (a : Arrival) : Arrival := { a with datagram := a.datagram.shift k }

def shiftHanded (k : BitVec 32) (handed : List (BitVec 32 × Bytes)) : List (BitVec 32 × Bytes) :=
  handed.map (fun h => (h.1 + k, h.2))

@[simp] theorem shift_seqno (k : BitVec 32) (p : TrdpWindowPkt) :
    (p.shift k).seqno = p.seqno + k := rfl

@[simp] theorem shift_totalLen (k : BitVec 32) (p : TrdpWindowPkt) :
    (p.shift k).totalLen = p.totalLen := rfl

@[simp] theorem shift_dataLen (k : BitVec 32) (p : TrdpWindowPkt) :
    (p.shift k).dataLen = p.dataLen := rfl

theorem make_shift (k : BitVec 32) (hdr : TrdpHdr) (payload : Bytes) (now : BitVec 64) :
    TrdpWindowPkt.make (hdr.shift k) payload now = (TrdpWindowPkt.make hdr payload now).shift k := rfl

@[simp] theorem seqnoDiff_add (a b k : BitVec 32) : seqnoDiff (a + k) (b + k) = seqnoDiff a b := by
  rw [seqnoDiff, seqnoDiff, add_sub_add_right_eq_sub]

theorem succ_add (a k : BitVec 32) : a + k + 1 = a + 1 + k := add_right_comm a k 1

/-- The seqno of an arrival and the saved ones are ordered as words the same
way before and after the constant is added. -/
def SameSide (k seqno : BitVec 32) (pkts : List TrdpWindowPkt) : Prop :=
  ∀ p ∈ pkts, (seqno < p.seqno ↔ seqno + k < p.seqno + k)

instance (k seqno : BitVec 32) (pkts : List TrdpWindowPkt) : Decidable (SameSide k seqno pkts) :=
  inferInstanceAs (Decidable (∀ p ∈ pkts, _))

theorem insertSaved_shift {x : TrdpWindowPkt} {pkts : List TrdpWindowPkt}
    (hSide : SameSide k x.seqno pkts) :
    insertSaved (x.shift k) (pkts.map (·.shift k)) =
      (insertSaved x pkts).map (List.map (·.shift k)) := by
  induction pkts with
  | nil => rfl
  | cons p rest ih =>
      have hHead : x.seqno < p.seqno ↔ (x.shift k).seqno < (p.shift k).seqno :=
        hSide p (List.mem_cons_self ..)
      have hEq : (p.shift k).seqno = (x.shift k).seqno ↔ p.seqno = x.seqno := add_left_inj k
      have hRest := ih (fun q hq => hSide q (List.mem_cons_of_mem _ hq))
      simp only [List.map_cons, insertSaved]
      by_cases hSame : p.seqno = x.seqno
      · rw [if_pos hSame, if_pos (hEq.mpr hSame)]
        rfl
      · rw [if_neg hSame, if_neg (fun h => hSame (hEq.mp h))]
        by_cases hLess : x.seqno < p.seqno
        · rw [if_pos hLess, if_pos (hHead.mp hLess)]
          rfl
        · rw [if_neg hLess, if_neg (fun h => hLess (hHead.mpr h)), hRest, Option.map_map,
            Option.map_map]
          rfl

theorem fragmentRun_shift (total : BitVec 32) (x : TrdpWindowPkt) (post : List TrdpWindowPkt) :
    fragmentRun total (x.shift k) (post.map (·.shift k)) =
      ((fragmentRun total x post).1, (fragmentRun total x post).2.map (·.shift k)) := by
  induction post generalizing total x with
  | nil => rfl
  | cons y rest ih =>
      simp only [List.map_cons, fragmentRun, shift_seqno, shift_dataLen, succ_add, ne_eq,
        add_left_inj]
      by_cases hNext : y.seqno = x.seqno + 1
      · simp only [hNext, not_true_eq_false, if_false]
        by_cases hTotal : total - y.dataLen.setWidth 32 = 0
        · simp only [hTotal, if_true, List.map_cons, List.map_nil]
        · simp only [hTotal, if_false, ih, List.map_cons]
      · simp only [hNext, not_false_eq_true, if_true]
        rfl

theorem messageRun_shift (x : TrdpWindowPkt) (post : List TrdpWindowPkt) :
    messageRun (x.shift k) (post.map (·.shift k)) =
      ((messageRun x post).1, (messageRun x post).2.map (·.shift k)) := by
  simp only [messageRun, shift_totalLen, shift_dataLen]
  by_cases hTotal : x.totalLen - x.dataLen.setWidth 32 = 0
  · simp only [hTotal, if_true, List.map_nil]
  · simp only [hTotal, if_false, fragmentRun_shift]

theorem dataSize_shift (pkts : List TrdpWindowPkt) :
    dataSize (pkts.map (·.shift k)) = dataSize pkts := by
  simp [dataSize, Function.comp_def]

theorem lastOf_shift (x : TrdpWindowPkt) (run : List TrdpWindowPkt) :
    lastOf (x.shift k) (run.map (·.shift k)) = (lastOf x run).shift k := by
  simp only [lastOf]
  induction run generalizing x with
  | nil => rfl
  | cons y rest ih => simpa only [List.map_cons, List.getLastD_cons] using ih y

theorem mergeLoop_shift (ready pre post : List TrdpWindowPkt) (x : TrdpWindowPkt) :
    mergeLoop fuel (w.shift k) (ready.map (·.shift k)) (pre.map (·.shift k)) (x.shift k)
        (post.map (·.shift k)) =
      (mergeLoop fuel w ready pre x post).map (fun r => (r.1.shift k, r.2.map (·.shift k))) := by
  induction fuel generalizing w ready pre x post with
  | zero => rfl
  | succ fuel ih =>
      have hPopped : ∀ run : List TrdpWindowPkt,
          pre.map (·.shift k) ++ x.shift k :: run.map (·.shift k) =
            (pre ++ x :: run).map (·.shift k) := fun run => by simp
      have hInit : ∀ run : List TrdpWindowPkt,
          pre.map (·.shift k) ++ (x.shift k :: run.map (·.shift k)).dropLast =
            (pre ++ (x :: run).dropLast).map (·.shift k) := fun run => by
        rw [List.map_append, List.map_dropLast, List.map_cons]
      simp only [mergeLoop, messageRun_shift, lastOf_shift, List.length_map, ← List.map_drop,
        hPopped, hInit, dataSize_shift, shift_seqno]
      generalize messageRun x post = result
      obtain ⟨total, run⟩ := result
      dsimp only
      by_cases hTotal : total = 0
      · rw [if_pos hTotal, if_pos hTotal]
        cases post.drop run.length with
        | nil => simp [TrdpWindow.shift]
        | cons z zs =>
            simp only [List.map_cons, shift_seqno, succ_add, add_left_inj, ← List.map_append]
            split
            · exact ih (w := { w with
                list := z :: zs, saveSize := w.saveSize - dataSize (pre ++ x :: run)
                lastSeqno := (lastOf x run).seqno }) _ [] zs z
            · simp [TrdpWindow.shift]
      · rw [if_neg hTotal, if_neg hTotal]
        have hLast : (w.shift k).lastSeqno + 1 = w.lastSeqno + 1 + k := succ_add _ _
        rw [hLast]
        simp only [add_left_inj]
        split
        · exact ih ready _ _ _
        · rfl

theorem skipTo_shift (x : TrdpWindowPkt) : (w.shift k).skipTo (x.shift k) = (w.skipTo x).shift k := by
  have hLast : (w.shift k).lastSeqno + 1 = w.lastSeqno + 1 + k := succ_add _ _
  simp only [TrdpWindow.skipTo, shift_seqno, hLast, seqnoDiff_add]
  split
  · simp [TrdpWindow.shift, sub_eq_add_neg, add_right_comm]
  · rfl

theorem stampReady_shift (ready : List TrdpWindowPkt) :
    (w.shift k).stampReady (ready.map (·.shift k)) = (w.stampReady ready).shift k := by
  simp only [TrdpWindow.stampReady, List.getLast?_map]
  cases ready.getLast? <;> rfl

theorem mergeReady_shift (x : TrdpWindowPkt) (post : List TrdpWindowPkt) :
    (w.shift k).mergeReady fuel (x.shift k) (post.map (·.shift k)) now =
      (w.mergeReady fuel x post now).map (fun r => (r.1.shift k, r.2.map (·.shift k))) := by
  have hLast : (w.shift k).lastSeqno + 1 = w.lastSeqno + 1 + k := succ_add _ _
  have hClock : (w.shift k).lastMonoTime = w.lastMonoTime := rfl
  simp only [TrdpWindow.mergeReady, shift_seqno, hLast, hClock, seqnoDiff_add]
  split
  · rfl
  · have hLoop := @mergeLoop_shift k fuel (w.skipTo x) [] [] post x
    rw [List.map_nil] at hLoop
    rw [skipTo_shift, hLoop, Option.map_map, Option.map_map]
    congr 1
    funext r
    exact Prod.ext (stampReady_shift r.2) rfl

/-- `merge` commutes with the renumbering if the insertion point does. -/
theorem merge_shift (hSide : SameSide k hdr.seqno w.list) :
    (w.shift k).merge fuel (hdr.shift k) payload now =
      (w.merge fuel hdr payload now).map (fun r => (r.1.shift k, r.2.map (·.shift k))) := by
  have hInsert := insertSaved_shift (x := .make hdr payload now) hSide
  simp only [TrdpWindow.merge]
  rw [make_shift, show (w.shift k).list = w.list.map (·.shift k) from rfl, hInsert]
  cases insertSaved (.make hdr payload now) w.list with
  | none => rfl
  | some list =>
      cases list with
      | nil => rfl
      | cons x post =>
          simp only [Option.map_some, List.map_cons, List.map_eq_nil_iff]
          split
          · rfl
          · exact mergeReady_shift (w := w.save hdr (x :: post)) x post

/-- `output` reads no seqno. -/
theorem outputLoop_shift (sent : List Bytes) (data : Bytes) :
    outputLoop fuel (w.shift k) sent data =
      (outputLoop fuel w sent data).map (fun r => (r.1.shift k, r.2)) := by
  induction fuel generalizing sent data with
  | zero => rfl
  | succ fuel ih =>
      simp only [outputLoop]
      split
      · split
        · split
          · rfl
          · exact ih _ _
        · rfl
      · exact ih _ _

theorem output_shift (data : Bytes) :
    (w.shift k).output fuel data = (w.output fuel data).map (fun r => (r.1.shift k, r.2)) := by
  have hLen : (w.shift k).outputLen = w.outputLen := rfl
  have hOff : (w.shift k).outputOff = w.outputOff := rfl
  simp only [TrdpWindow.output, hLen, hOff]
  split
  · split
    · split <;> rfl
    · rfl
  · split
    · exact outputLoop_shift [] data
    · rfl

theorem outputAll_shift (pkts : List TrdpWindowPkt) :
    (w.shift k).outputAll fuel (pkts.map (·.shift k)) =
      (w.outputAll fuel pkts).map (fun r => (r.1.shift k, r.2)) := by
  induction pkts generalizing w with
  | nil => rfl
  | cons p rest ih =>
      have hData : (p.shift k).data = p.data := rfl
      simp only [List.map_cons, TrdpWindow.outputAll, hData, output_shift, Option.bind_eq_bind,
        Option.pure_def]
      cases w.output fuel p.data with
      | none => rfl
      | some first =>
          simp only [Option.map_some, Option.bind_some, ih]
          cases first.1.outputAll fuel rest <;> rfl

theorem note_shift : (w.shift k).note (hdr.shift k) = (w.note hdr).shift k := by
  have hDiff : seqnoDiff (hdr.shift k).seqno (w.shift k).lastRecvSeqno =
      seqnoDiff hdr.seqno w.lastRecvSeqno := seqnoDiff_add _ _ k
  simp only [TrdpWindow.note, hDiff]
  rfl

theorem route_shift : (w.shift k).route (hdr.shift k) = w.route hdr := by
  have hDiff : seqnoDiff (hdr.shift k).seqno (w.shift k).lastSeqno =
      seqnoDiff hdr.seqno w.lastSeqno := seqnoDiff_add _ _ k
  simp only [TrdpWindow.route, hDiff]
  rfl

/-- The renumbered window. Until the first packet the two seqnos of a window
mean nothing, and both streams start from the same zeroed memory. -/
def Shifted (k : BitVec 32) (w v : TrdpWindow) : Prop :=
  v = w.shift k ∨ w.lastMonoTime = 0 ∧
    v = { w.shift k with lastSeqno := v.lastSeqno, lastRecvSeqno := v.lastRecvSeqno }

theorem Shifted.reading (h : Shifted k w v) {α : Type*} (f : TrdpWindow → α)
    (hf : ∀ (u : TrdpWindow) (a b : BitVec 32) (pkts : List TrdpWindowPkt),
      f { u with lastSeqno := a, lastRecvSeqno := b, list := pkts } = f u) : f v = f w := by
  rcases h with rfl | ⟨-, hv⟩
  · exact hf w _ _ _
  · rw [hv]
    exact hf w _ _ _

theorem Shifted.tsid (h : Shifted k w v) : v.tsid = w.tsid :=
  h.reading (·.tsid) (fun _ _ _ _ => rfl)

theorem Shifted.lastMonoTime (h : Shifted k w v) : v.lastMonoTime = w.lastMonoTime :=
  h.reading (·.lastMonoTime) (fun _ _ _ _ => rfl)

theorem Shifted.sync (h : Shifted k w v) :
    v.sync (hdr.shift k) now = (w.sync hdr now).shift k := by
  rcases h with rfl | ⟨-, hv⟩
  · rfl
  · rw [hv]
    rfl

theorem Shifted.synced (h : Shifted k w v) (hClock : w.lastMonoTime ≠ 0) : v = w.shift k :=
  h.resolve_right (fun hZero => hClock hZero.1)

theorem Shifted.route (h : Shifted k w v) : v.route (hdr.shift k) = w.route hdr := by
  by_cases hClock : w.lastMonoTime = 0
  · have hClock' : v.lastMonoTime = 0 := h.lastMonoTime.trans hClock
    simp only [TrdpWindow.route, hClock, hClock', if_true]
    rfl
  · rw [h.synced hClock, route_shift]

/-- A window and its renumbering receive a packet and its renumbering alike. -/
theorem recvData_shift {u : TrdpWindow} {handed : List (BitVec 32 × Bytes)} {sent : List Bytes}
    (h : Shifted k w v) (hSide : w.route hdr = .merged → SameSide k hdr.seqno w.list)
    (hRecv : w.recvData fuel hdr payload now = some (u, handed, sent)) :
    ∃ u', v.recvData fuel (hdr.shift k) payload now = some (u', shiftHanded k handed, sent) ∧
      Shifted k u u' := by
  unfold TrdpWindow.recvData at hRecv ⊢
  rw [h.route]
  cases hRoute : w.route hdr with
  | unsynced =>
      simp only [hRoute, Option.some.injEq, Prod.mk.injEq] at hRecv ⊢
      obtain ⟨rfl, rfl, rfl⟩ := hRecv
      exact ⟨v, ⟨rfl, rfl, rfl⟩, h⟩
  | first =>
      simp only [hRoute, Option.bind_eq_bind, Option.bind_eq_some_iff, Option.pure_def,
        Option.some.injEq, Prod.mk.injEq] at hRecv
      obtain ⟨⟨x, out⟩, hOutput, rfl, rfl, rfl⟩ := hRecv
      refine ⟨x.shift k, ?_, Or.inl rfl⟩
      simp only [h.sync, output_shift, hOutput]
      rfl
  | repeated =>
      simp only [hRoute, Option.some.injEq, Prod.mk.injEq] at hRecv
      obtain ⟨rfl, rfl, rfl⟩ := hRecv
      have hClock : w.lastMonoTime ≠ 0 := by
        intro hZero
        simp only [TrdpWindow.route, hZero, if_true] at hRoute
        split at hRoute <;> cases hRoute
      refine ⟨_, rfl, Or.inl ?_⟩
      rw [h.synced hClock, note_shift]
      rfl
  | merged =>
      simp only [hRoute, Option.bind_eq_bind, Option.bind_eq_some_iff, Option.pure_def,
        Option.some.injEq, Prod.mk.injEq] at hRecv
      obtain ⟨⟨x, ready⟩, hMerge, ⟨y, out⟩, hOutput, rfl, rfl, rfl⟩ := hRecv
      have hSideNote : SameSide k hdr.seqno (w.note hdr).list := hSide hRoute
      refine ⟨y.shift k, ?_, Or.inl rfl⟩
      simp only [h.synced (route_merged hRoute), note_shift, merge_shift hSideNote, hMerge,
        Option.map_some, Option.bind_eq_bind, Option.bind_some, outputAll_shift, hOutput,
        Option.pure_def, shiftHanded, List.map_map]
      rfl
  | direct =>
      simp only [hRoute, Option.bind_eq_bind, Option.bind_eq_some_iff, Option.pure_def,
        Option.some.injEq, Prod.mk.injEq] at hRecv
      obtain ⟨⟨x, out⟩, hOutput, rfl, rfl, rfl⟩ := hRecv
      refine ⟨({ x with lastSeqno := x.lastSeqno + 1, lastMonoTime := now }).shift k, ?_, Or.inl rfl⟩
      simp only [h.synced (route_direct hRoute).1, note_shift, output_shift, hOutput,
        Option.map_some, Option.bind_eq_bind, Option.bind_some, Option.pure_def]
      congr 2
      exact congrArg (fun s => { x.shift k with lastSeqno := s, lastMonoTime := now })
        (succ_add x.lastSeqno k)

/-- The databases agree in everything but the seqnos of their windows. -/
structure TrdpWindowDB.Shifted (k : BitVec 32) (db db' : TrdpWindowDB) : Prop where
  windows : List.Forall₂ (Trdp.Shifted k) db.windows db'.windows
  rest : db' = { db with windows := db'.windows }

theorem TrdpWindowDB.Shifted.getWindow {db db' : TrdpWindowDB} (h : db.Shifted k db')
    (tsid : TrdpTsid) : Trdp.Shifted k (db.getWindow tsid) (db'.getWindow tsid) := by
  have hWindows := h.windows
  unfold TrdpWindowDB.getWindow
  generalize db.windows = windows, db'.windows = windows' at hWindows ⊢
  induction hWindows with
  | nil => exact Or.inr ⟨rfl, rfl⟩
  | @cons w v _ _ hHead _ ih =>
      simp only [List.find?_cons, hHead.tsid]
      cases decide (w.tsid = tsid) with
      | true => exact hHead
      | false => exact ih

theorem TrdpWindowDB.Shifted.setWindow {db db' : TrdpWindowDB} (h : db.Shifted k db')
    (hWindow : Trdp.Shifted k w v) : (db.setWindow w).Shifted k (db'.setWindow v) := by
  have hAny : db'.windows.any (fun u => u.tsid = v.tsid) = db.windows.any (fun u => u.tsid = w.tsid) := by
    have hWindows := h.windows
    generalize db.windows = windows, db'.windows = windows' at hWindows ⊢
    induction hWindows with
    | nil => rfl
    | cons hHead _ ih =>
        simp only [List.any_cons, hHead.tsid, hWindow.tsid] at ih ⊢
        rw [ih]
  have hRest := h.rest
  unfold TrdpWindowDB.setWindow
  rw [hAny]
  split
  · refine ⟨?_, by rw [hRest]⟩
    simp only [List.forall₂_map_left_iff, List.forall₂_map_right_iff]
    refine h.windows.imp ?_
    intro x y hxy
    rw [hxy.tsid, hWindow.tsid]
    split
    · exact hWindow
    · exact hxy
  · refine ⟨?_, by rw [hRest]⟩
    exact List.rel_append h.windows (.cons hWindow .nil)

/-- What `process_msg` does to the database after the window has been handled. -/
theorem TrdpWindowDB.Shifted.recv {db db' : TrdpWindowDB} (h : db.Shifted k db')
    (hWindow : Trdp.Shifted k w v) (sent : List Bytes) (bytes : BitVec 64) :
    TrdpWindowDB.Shifted k
      { (db.setWindow w).recvMsgs sent with outputBytes := db.outputBytes + bytes }
      { (db'.setWindow v).recvMsgs sent with outputBytes := db'.outputBytes + bytes } := by
  have hSet := h.setWindow hWindow
  have hBytes : db'.outputBytes = db.outputBytes := by rw [h.rest]
  refine ⟨hSet.windows, ?_⟩
  rw [hBytes, hSet.rest]
  rfl

theorem shift_length {d : Datagram} (hLong : trdpDataHdrSize ≤ d.bytes.length) :
    (d.shift k).bytes.length = d.bytes.length := by
  have hLong : 32 ≤ d.bytes.length := hLong
  have hBytes : (beBytes32 (d.getU32 20 + k)).length = 4 := rfl
  simp only [Datagram.shift, List.length_append, List.length_take, List.length_drop, hBytes]
  omega

/-- Both streams start from the empty database. -/
theorem TrdpWindowDB.Shifted.start (k : BitVec 32) : TrdpWindowDB.Shifted k {} {} := ⟨.nil, rfl⟩

/-- The bytes of the renumbered datagram outside its seqno word. -/
theorem shift_byte {d : Datagram} (hLong : trdpDataHdrSize ≤ d.bytes.length) {i : Nat}
    (hi : i < 20 ∨ 24 ≤ i) : (d.shift k).byte i = d.byte i := by
  have hLen := shift_length (k := k) hLong
  have hLong : 32 ≤ d.bytes.length := hLong
  have hBytes : (beBytes32 (d.getU32 20 + k)).length = 4 := rfl
  simp only [Datagram.byte, List.getD_eq_getElem?_getD, hLen]
  congr 1
  simp only [Datagram.shift]
  rcases hi with hi | hi
  · rw [List.append_assoc, List.getElem?_append_left (by rw [List.length_take]; omega),
      List.getElem?_take_of_lt hi]
  · rw [List.getElem?_append_right (by
      rw [List.length_append, List.length_take, hBytes]
      omega), List.getElem?_drop]
    congr 1
    rw [List.length_append, List.length_take, hBytes]
    omega

theorem shift_seqnoByte {d : Datagram} (hLong : trdpDataHdrSize ≤ d.bytes.length) {i : Nat}
    (hi : i < 4) :
    (d.shift k).byte (20 + i) = (beBytes32 (d.getU32 20 + k)).getD i 0 := by
  have hLong : 32 ≤ d.bytes.length := hLong
  have hBytes : (beBytes32 (d.getU32 20 + k)).length = 4 := rfl
  have hTake : (d.bytes.take 20).length = 20 := by
    rw [List.length_take]
    omega
  simp only [Datagram.byte, Datagram.shift, List.getD_eq_getElem?_getD]
  rw [List.append_assoc, List.getElem?_append_right (by omega), hTake,
    List.getElem?_append_left (by omega), Nat.add_sub_cancel_left]
  rw [List.getElem?_eq_getElem (by omega)]
  rfl

theorem getU16_beBytes (x : BitVec 16) :
    (beBytes16 x).getD 0 0 ++ (beBytes16 x).getD 1 0 = x := by
  simp only [beBytes16, List.getD_cons_zero, List.getD_cons_succ]
  rw [BitVec.extractLsb'_append_extractLsb'_eq_extractLsb' (by rfl)]
  exact BitVec.extractLsb'_eq_self

theorem shift_getU32 {d : Datagram} (hLong : trdpDataHdrSize ≤ d.bytes.length) :
    (d.shift k).getU32 20 = d.getU32 20 + k := by
  have hHigh : (d.shift k).getU16 20 = (d.getU32 20 + k).extractLsb' 16 16 := by
    rw [Datagram.getU16, shift_seqnoByte hLong (show 0 < 4 by decide),
      shift_seqnoByte hLong (show 1 < 4 by decide)]
    exact getU16_beBytes _
  have hLow : (d.shift k).getU16 22 = (d.getU32 20 + k).extractLsb' 0 16 := by
    rw [Datagram.getU16, shift_seqnoByte hLong (show 2 < 4 by decide),
      shift_seqnoByte hLong (show 3 < 4 by decide)]
    exact getU16_beBytes _
  rw [Datagram.getU32, hHigh, hLow,
    BitVec.extractLsb'_append_extractLsb'_eq_extractLsb' (by rfl)]
  exact BitVec.extractLsb'_eq_self

/-- A DATA header is decoded to the renumbered header. -/
theorem copyIn_shift {d : Datagram} (hHdr : TrdpHdr.copyIn d = some hdr) (hType : hdr.type = .data) :
    TrdpHdr.copyIn (d.shift k) = some (hdr.shift k) := by
  have hLong := copyIn_data hHdr hType
  have hHalf : ∀ off, off + 2 ≤ 20 ∨ 24 ≤ off → (d.shift k).getU16 off = d.getU16 off := by
    intro off hOff
    rw [Datagram.getU16, shift_byte hLong (by omega), shift_byte hLong (by omega)]
    rfl
  have hWord : ∀ off, off + 4 ≤ 20 ∨ 24 ≤ off → (d.shift k).getU32 off = d.getU32 off := by
    intro off hOff
    rw [Datagram.getU32, hHalf off (by omega), hHalf (off + 2) (by omega)]
    rfl
  unfold TrdpHdr.copyIn at hHdr ⊢
  rw [shift_length hLong, hWord 0 (by omega), hWord 4 (by omega), hWord 8 (by omega),
    hWord 12 (by omega), hHalf 16 (by omega), hHalf 18 (by omega), hWord 24 (by omega),
    hHalf 28 (by omega), hHalf 30 (by omega), shift_getU32 hLong]
  split at hHdr
  · cases hHdr
  · next hShort =>
      rw [if_neg hShort]
      split at hHdr
      · cases hHdr
      · next hMagic =>
          rw [if_neg hMagic]
          dsimp only at hHdr ⊢
          split at hHdr
          · next hData =>
              rw [if_neg (Nat.not_lt.mpr hLong)] at hHdr ⊢
              obtain rfl := Option.some.inj hHdr
              rfl
          · next hOther =>
              obtain rfl := Option.some.inj hHdr
              rw [hOther] at hType
              cases hType
          · next hData _ =>
              split at hHdr
              · cases hHdr
              · obtain rfl := Option.some.inj hHdr
                exact absurd hType hData

theorem shift_slice {d : Datagram} (hLong : trdpDataHdrSize ≤ d.bytes.length) (len : Nat) :
    (d.shift k).slice trdpDataHdrSize len = d.slice trdpDataHdrSize len := by
  simp only [Datagram.slice]
  refine List.map_congr_left ?_
  intro i _
  refine shift_byte hLong (Or.inr ?_)
  simp only [trdpDataHdrSize]
  omega

/-- The condition on a call and the database before it: a packet that goes to
`merge` keeps its place among the saved packets when all are renumbered. -/
def Aligned (k : BitVec 32) (db : TrdpWindowDB) (a : Arrival) : Prop :=
  match TrdpHdr.copyIn a.datagram with
  | none => True
  | some hdr => (db.getWindow hdr.tsid).route hdr = .merged →
      SameSide k hdr.seqno (db.getWindow hdr.tsid).list

instance (k : BitVec 32) (db : TrdpWindowDB) (a : Arrival) : Decidable (Aligned k db a) :=
  match h : TrdpHdr.copyIn a.datagram with
  | none => isTrue (by simp [Aligned, h])
  | some hdr => decidable_of_iff ((db.getWindow hdr.tsid).route hdr = .merged →
      SameSide k hdr.seqno (db.getWindow hdr.tsid).list) (by simp [Aligned, h])

theorem TrdpWindowDB.Shifted.step {tsid : TrdpTsid} {base : BitVec 32} {db db' v : TrdpWindowDB}
    {a : Arrival} {handed : List (BitVec 32 × Bytes)} (h : db.Shifted k v)
    (hSource : FromSource tsid base a) (hAligned : Aligned k db a)
    (hStep : trdpSystem.step db a handed db') :
    ∃ v', trdpSystem.step v (a.shift k) (shiftHanded k handed) v' ∧ db'.Shifted k v' := by
  obtain ⟨fuel, hCall⟩ := hStep
  obtain ⟨hdr, hHdr⟩ : ∃ hdr, TrdpHdr.copyIn a.datagram = some hdr := by
    cases hHdr : TrdpHdr.copyIn a.datagram with
    | none => simp [FromSource, hHdr] at hSource
    | some hdr => exact ⟨hdr, rfl⟩
  simp only [FromSource, hHdr] at hSource
  simp only [Aligned, hHdr] at hAligned
  obtain ⟨hType, -, -⟩ := hSource
  have hShiftType : (hdr.shift k).type = .data := hType
  have hSlice := shift_slice (k := k) (copyIn_data hHdr hType) hdr.dataLen.toNat
  unfold TrdpWindowDB.processMsg at hCall
  simp only [hHdr, hType, Option.bind_eq_bind, Option.bind_eq_some_iff, Option.pure_def,
    Option.some.injEq, Prod.mk.injEq] at hCall
  obtain ⟨⟨w, given, sent⟩, hRecv, rfl, rfl⟩ := hCall
  obtain ⟨u, hRecv', hWindow⟩ := recvData_shift (h.getWindow hdr.tsid) hAligned hRecv
  have hLengths : (shiftHanded k given).map (fun g => g.2.length) = given.map (fun g => g.2.length) := by
    simp [shiftHanded, Function.comp_def]
  refine ⟨_, ⟨fuel, ?_⟩, h.recv hWindow sent
    (BitVec.ofNat 64 (given.map (fun g => g.2.length)).sum)⟩
  simp only [TrdpWindowDB.processMsg, Arrival.shift, copyIn_shift hHdr hType, hShiftType]
  have hLen : (hdr.shift k).dataLen = hdr.dataLen := rfl
  have hTsid : (hdr.shift k).tsid = hdr.tsid := rfl
  rw [hLen, hTsid, hSlice, hRecv']
  simp only [Option.bind_eq_bind, Option.bind_some, Option.pure_def, hLengths]

/-- DATA packets of one source, each keeping its place among the saved ones. -/
def alignedRuns (tsid : TrdpTsid) (base k : BitVec 32) :=
  trdpSystem.guard (fun db a => FromSource tsid base a ∧ Aligned k db a)

theorem alignedRuns_shift {tsid : TrdpTsid} {base : BitVec 32} {db : TrdpWindowDB}
    {inputs : List Arrival} {handed : List (BitVec 32 × Bytes)} {s v : TrdpWindowDB}
    (h : s.Shifted k v) (run : (alignedRuns tsid base k).Run s inputs handed db) :
    ∃ db', trdpSystem.Run v (inputs.map (·.shift k)) (shiftHanded k handed) db' ∧
      db.Shifted k db' := by
  induction run with
  | nil => exact ⟨v, System.Run.nil _, h⟩
  | snoc _ last ih =>
      obtain ⟨middle, hRun, hMiddle⟩ := ih
      obtain ⟨⟨hSource, hAligned⟩, hStep⟩ := last
      obtain ⟨db', hLast, hShifted⟩ := hMiddle.step hSource hAligned hStep
      refine ⟨db', ?_, hShifted⟩
      simp only [shiftHanded, List.map_append, List.map_cons, List.map_nil]
      exact System.Run.snoc hRun hLast

/-- In every run whose calls all meet the condition, the renumbered stream is
received to the end as well, with the same payloads handed to `output` and
the same counters. -/
theorem renumbering_unobservable (tsid : TrdpTsid) (base k : BitVec 32) {db : TrdpWindowDB}
    {inputs : List Arrival} {handed : List (BitVec 32 × Bytes)}
    (run : (alignedRuns tsid base k).Run {} inputs handed db) :
    ∃ handed' db', trdpSystem.Run {} (inputs.map (·.shift k)) handed' db' ∧
      handed'.map (·.2) = handed.map (·.2) ∧
      (db'.getWindow tsid).lostSeqno = (db.getWindow tsid).lostSeqno ∧
      (db'.getWindow tsid).repeatSeqno = (db.getWindow tsid).repeatSeqno ∧
      (db'.getWindow tsid).reorderSeqno = (db.getWindow tsid).reorderSeqno := by
  obtain ⟨db', hRun, hShifted⟩ := alignedRuns_shift (TrdpWindowDB.Shifted.start k) run
  have hWindow := hShifted.getWindow tsid
  refine ⟨_, db', hRun, by simp [shiftHanded, Function.comp_def], ?_, ?_, ?_⟩
  · exact hWindow.reading (·.lostSeqno) (fun _ _ _ _ => rfl)
  · exact hWindow.reading (·.repeatSeqno) (fun _ _ _ _ => rfl)
  · exact hWindow.reading (·.reorderSeqno) (fun _ _ _ _ => rfl)

/-- Execution of the guarded system on small inputs. -/
def stepAligned (tsid : TrdpTsid) (base k : BitVec 32) (db : TrdpWindowDB) (a : Arrival) :
    Option (TrdpWindowDB × List (BitVec 32 × Bytes)) :=
  if FromSource tsid base a ∧ Aligned k db a then
    db.processMsg 4 a.datagram a.curMonoTime
  else none

theorem stepAligned_step {tsid : TrdpTsid} {base : BitVec 32} {db db' : TrdpWindowDB}
    {a : Arrival} {handed : List (BitVec 32 × Bytes)}
    (h : stepAligned tsid base k db a = some (db', handed)) :
    (alignedRuns tsid base k).step db a handed db' := by
  unfold stepAligned at h
  split at h
  · rename_i hOk
    exact ⟨hOk, 4, h⟩
  · cases h

/-- Seqno 7 is saved, 6 fills the gap and 8 lets `merge` hand out the rest.
Renumbered by 2^32 - 7 the same stream crosses the wrap. -/
theorem renumbering_unobservable_gap :
    ∃ db handed handed' db',
      (alignedRuns ⟨1, 1⟩ 5 0xfffffff9).Run {} [ping 5 1, ping 7 2, ping 6 3, ping 8 4] handed db ∧
      trdpSystem.Run {} ([ping 5 1, ping 7 2, ping 6 3, ping 8 4].map (·.shift 0xfffffff9))
        handed' db' ∧
      handed.map (·.1) = [5, 6, 7, 8] ∧ handed'.map (·.2) = handed.map (·.2) ∧
      (db'.getWindow ⟨1, 1⟩).lostSeqno = (db.getWindow ⟨1, 1⟩).lostSeqno ∧
      (db'.getWindow ⟨1, 1⟩).repeatSeqno = (db.getWindow ⟨1, 1⟩).repeatSeqno ∧
      (db'.getWindow ⟨1, 1⟩).reorderSeqno = (db.getWindow ⟨1, 1⟩).reorderSeqno := by
  have run := System.Run.of_runAll
    (fun s a t handed => @stepAligned_step 0xfffffff9 ⟨1, 1⟩ 5 s t a handed)
    (Option.some_get (show (System.runAll (stepAligned ⟨1, 1⟩ 5 0xfffffff9) {}
      [ping 5 1, ping 7 2, ping 6 3, ping 8 4]).isSome by decide)).symm
  obtain ⟨handed', db', hRun, hSame⟩ := renumbering_unobservable ⟨1, 1⟩ 5 0xfffffff9 run
  exact ⟨_, _, handed', db', run, hRun, by decide, hSame⟩

/-- Seqnos 0 and 2^32 - 1 are saved. The walk from the head stops at the gap
to the larger one, which renumbering by 10 puts first. -/
theorem renumbering_observable :
    ¬ ∀ (tsid : TrdpTsid) (base k : BitVec 32) (db db' : TrdpWindowDB) (inputs : List Arrival)
      (handed handed' : List (BitVec 32 × Bytes)),
      (∀ a ∈ inputs, FromSource tsid base a) → trdpSystem.Run {} inputs handed db →
      trdpSystem.Run {} (inputs.map (·.shift k)) handed' db' →
      handed'.map (·.2) = handed.map (·.2) ∧
      (db'.getWindow tsid).lostSeqno = (db.getWindow tsid).lostSeqno ∧
      (db'.getWindow tsid).repeatSeqno = (db.getWindow tsid).repeatSeqno ∧
      (db'.getWindow tsid).reorderSeqno = (db.getWindow tsid).reorderSeqno := by
  intro h
  have hStep : ∀ s a t handed, TrdpWindowDB.processMsg 6 s a.datagram a.curMonoTime =
      some (t, handed) → trdpSystem.step s a handed t := fun _ _ _ _ h => ⟨6, h⟩
  have run := System.Run.of_runAll hStep
    (Option.some_get (show (System.runAll
      (fun db a => TrdpWindowDB.processMsg 6 db a.datagram a.curMonoTime) {}
      [ping 0xfffffffd 1, ping 0xffffffff 2, ping 0 3, ping 0xfffffffe 4, ping 1 5]).isSome by
        decide)).symm
  have run' := System.Run.of_runAll hStep
    (Option.some_get (show (System.runAll
      (fun db a => TrdpWindowDB.processMsg 6 db a.datagram a.curMonoTime) {}
      ([ping 0xfffffffd 1, ping 0xffffffff 2, ping 0 3, ping 0xfffffffe 4, ping 1 5].map
        (·.shift 10))).isSome by decide)).symm
  have hSame := (h ⟨1, 1⟩ 0xfffffffd 10 _ _ _ _ _ (by decide) run run').1
  revert hSame
  decide

end Sassrv.Trdp
