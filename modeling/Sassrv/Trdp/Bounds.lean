import Sassrv.Trdp.Delivery
import Sassrv.Trdp.Termination

/-! Which memory a call of `process_msg` touches. Every function has the list of its reads
and writes beside it, as far as the given fuel carries its loops: bytes of the datagram,
bytes of saved packets, and the buffer in which a message is put together. The code does not
compare `data_len` with the length of the datagram. -/
namespace Sassrv.Trdp
open Transition

/-- One access. Offsets into the datagram count from its first byte. -/
inductive Access where
  | datagram (off len : Nat)
  | saved (p : TrdpWindowPkt) (off len : Nat)
  /-- `realloc` of `output_buf`. -/
  | resize (size : Nat)
  /-- A `memcpy` into `output_buf`. -/
  | write (off len : Nat)
  /-- `recv_msg` on `output_buf`. -/
  | read (len : Nat)
  deriving DecidableEq

/-- The access stays in its object; `alloc` is the size of `output_buf`. -/
def Access.Within (msgLen alloc : Nat) : Access → Prop
  | .datagram off len => off + len ≤ msgLen
  | .saved p off len => off + len ≤ p.data.length
  | .resize _ => True
  | .write off len => off + len ≤ alloc
  | .read len => len ≤ alloc

def Access.alloc (alloc : Nat) : Access → Nat
  | .resize size => size
  | _ => alloc

/-- The accesses stay in their objects, one after the other. -/
def AllWithin (msgLen : Nat) : Nat → List Access → Prop
  | _, [] => True
  | alloc, a :: rest => a.Within msgLen alloc ∧ AllWithin msgLen (a.alloc alloc) rest

/-- The size of `output_buf` behind the accesses. -/
def finalAlloc (alloc : Nat) (accesses : List Access) : Nat := accesses.foldl Access.alloc alloc

/-- `copy_in`. -/
def copyInAccesses (d : Datagram) : List Access :=
  if d.bytes.length < trdpHdrSize then []
  else if d.getU32 0 ≠ trdpMagic then [.datagram 0 4]
  else
    let hdr : TrdpHdr :=
      { magic := d.getU32 0, srcAddr := d.getU32 4, srcId := d.getU32 8,
        destAddr := d.getU32 12, pktType := d.getU16 16, status := d.getU16 18 }
    .datagram 0 4 :: .datagram 4 16 ::
      match hdr.type with
      | .data => if d.bytes.length < trdpDataHdrSize then [] else [.datagram trdpHdrSize 12]
      | .other => []
      | _ => if d.bytes.length < trdpHdrSize + 4 then [] else [.datagram trdpHdrSize 4]

/-- The loop of `output` from the offset on; `src` says what is read for a part of the data. -/
def loopAccesses (src : Nat → Nat → Access) (w : TrdpWindow) : Nat → Nat → Bytes → List Access
  | 0, _, _ => []
  | fuel + 1, off, data =>
      let msgSize := (wordAt data 0).toNat
      let rest := data.drop msgSize
      src (off + 4) 4 :: src off 4 ::
        if wordAt data 4 = rvMagic then
          if msgSize ≤ data.length then
            src off msgSize ::
              if rest.length < 8 then [] else loopAccesses src w fuel (off + msgSize) rest
          else
            (if w.outputLen.toNat < msgSize then [.resize msgSize] else []) ++
              [src off data.length, .write 0 data.length]
        else loopAccesses src w fuel off data

/-- `output`. -/
def TrdpWindow.outputAccesses (src : Nat → Nat → Access) (fuel : Nat) (w : TrdpWindow)
    (data : Bytes) : List Access :=
  if w.outputLen ≠ 0 then
    if w.outputOff.toNat + data.length ≤ w.outputLen.toNat then
      src 0 data.length :: .write w.outputOff.toNat data.length ::
        if w.outputOff + BitVec.ofNat 32 data.length = w.outputLen then
          [.read w.outputLen.toNat] else []
    else []
  else if 8 ≤ data.length then loopAccesses src w fuel 0 data
  else []

def TrdpWindow.outputAllAccesses (fuel : Nat) (w : TrdpWindow) : List TrdpWindowPkt → List Access
  | [] => []
  | p :: rest => w.outputAccesses (.saved p) fuel p.data ++
      match w.output fuel p.data with
      | some (w, _) => w.outputAllAccesses fuel rest
      | none => []

/-- The constructor of a packet in `merge` copies `data_len` bytes. -/
def TrdpWindow.mergeAccesses (w : TrdpWindow) (hdr : TrdpHdr) (payload : Bytes)
    (curMonoTime : BitVec 64) : List Access :=
  match insertSaved (.make hdr payload curMonoTime) w.list with
  | none => []
  | some _ => [.datagram trdpDataHdrSize hdr.dataLen.toNat]

def payloadAccess (off len : Nat) : Access := .datagram (trdpDataHdrSize + off) len

/-- `process_msg` on a DATA packet. -/
def TrdpWindow.recvAccesses (fuel : Nat) (w : TrdpWindow) (hdr : TrdpHdr) (payload : Bytes)
    (curMonoTime : BitVec 64) : List Access :=
  match w.route hdr with
  | .unsynced => []
  | .first => (w.sync hdr curMonoTime).outputAccesses payloadAccess fuel payload
  | .repeated => []
  | .merged => (w.note hdr).mergeAccesses hdr payload curMonoTime ++
      match (w.note hdr).merge fuel hdr payload curMonoTime with
      | some (w, ready) => w.outputAllAccesses fuel ready
      | none => []
  | .direct => (w.note hdr).outputAccesses payloadAccess fuel payload

/-- `process_msg`. -/
def TrdpWindowDB.processAccesses (fuel : Nat) (db : TrdpWindowDB) (d : Datagram)
    (curMonoTime : BitVec 64) : List Access :=
  copyInAccesses d ++
    match TrdpHdr.copyIn d with
    | none => []
    | some hdr =>
        match hdr.type with
        | .data => (db.getWindow hdr.tsid).recvAccesses fuel hdr
            (d.slice trdpDataHdrSize hdr.dataLen.toNat) curMonoTime
        | _ => []

/-- The windows and the sizes of their buffers. -/
structure Memory where
  db : TrdpWindowDB := {}
  alloc : TrdpTsid → Nat := fun _ => 0

/-- The buffer of the window that the datagram belongs to. -/
def Memory.bufferOf (m : Memory) (d : Datagram) : Nat :=
  match TrdpHdr.copyIn d with
  | none => 0
  | some hdr => m.alloc hdr.tsid

/-- Completed calls, with what they allocate. -/
def memorySystem : System Memory Arrival (BitVec 32 × Bytes) where
  init := fun m => m = {}
  step := fun m a handed m' => ∃ fuel,
    m.db.processMsg fuel a.datagram a.curMonoTime = some (m'.db, handed) ∧
      m'.alloc = match TrdpHdr.copyIn a.datagram with
        | none => m.alloc
        | some hdr => Function.update m.alloc hdr.tsid (finalAlloc (m.alloc hdr.tsid)
            (m.db.processAccesses fuel a.datagram a.curMonoTime))

/-- What there is of a payload of `len` bytes covers all that is read of it while no message
is put together: there are all bytes, or there is nothing to find in so few; or the loop
stays where it is; or it goes on behind a whole message. -/
inductive RowWithin : Bytes → Nat → Prop where
  | whole {bytes : Bytes} {len : Nat} (h : len ≤ bytes.length) : RowWithin bytes len
  | stray {bytes : Bytes} {len : Nat} (h : len < 8) : RowWithin bytes len
  | idle {bytes : Bytes} {len : Nat} (hThere : 8 ≤ bytes.length)
      (hStays : wordAt bytes 4 ≠ rvMagic ∨ (wordAt bytes 0).toNat = 0) : RowWithin bytes len
  | message {bytes : Bytes} {len : Nat} (hThere : 8 ≤ bytes.length)
      (hMagic : wordAt bytes 4 = rvMagic) (hPos : 0 < (wordAt bytes 0).toNat)
      (hSize : (wordAt bytes 0).toNat ≤ bytes.length)
      (rest : RowWithin (bytes.drop (wordAt bytes 0).toNat) (len - (wordAt bytes 0).toNat)) :
      RowWithin bytes len

/-- The datagram has the bytes of a DATA packet that are read. -/
def PayloadWithin (w : TrdpWindow) (hdr : TrdpHdr) (d : Datagram) : Prop :=
  match w.route hdr with
  | .unsynced => True
  | .repeated => True
  | .merged => (∃ p ∈ w.list, p.seqno = hdr.seqno) ∨
      trdpDataHdrSize + hdr.dataLen.toNat ≤ d.bytes.length
  | _ =>
      if w.outputLen = 0 then RowWithin (d.bytes.drop trdpDataHdrSize) hdr.dataLen.toNat
      else w.outputLen.toNat < w.outputOff.toNat + hdr.dataLen.toNat ∨
        trdpDataHdrSize + hdr.dataLen.toNat ≤ d.bytes.length

variable {msgLen alloc fuel off len : Nat} {src : Nat → Nat → Access} {w v : TrdpWindow}
  {data bytes payload : Bytes} {out : List Bytes} {hdr : TrdpHdr} {now : BitVec 64} {sent : List Bytes}
  {xs ys : List Access} {pkts : List TrdpWindowPkt} {d : Datagram}

theorem finalAlloc_append : finalAlloc alloc (xs ++ ys) = finalAlloc (finalAlloc alloc xs) ys :=
  List.foldl_append

theorem allWithin_append :
    AllWithin msgLen alloc (xs ++ ys) ↔
      AllWithin msgLen alloc xs ∧ AllWithin msgLen (finalAlloc alloc xs) ys := by
  induction xs generalizing alloc with
  | nil => simp [AllWithin, finalAlloc]
  | cons a xs ih =>
      rw [List.cons_append, AllWithin, AllWithin, ih, and_assoc]
      rfl

/-- Reads that come from one object. -/
structure Reads (src : Nat → Nat → Access) : Prop where
  alloc : ∀ off len alloc, (src off len).alloc alloc = alloc

theorem reads_saved (p : TrdpWindowPkt) : Reads (.saved p) := ⟨fun _ _ _ => rfl⟩

theorem reads_payload : Reads payloadAccess := ⟨fun _ _ _ => rfl⟩

/-- A message that is put together has its place in the buffer. -/
structure TrdpWindow.Sized (w : TrdpWindow) (alloc : Nat) : Prop where
  fits : w.outputLen ≠ 0 → w.outputLen.toNat ≤ alloc
  offset : w.outputLen ≠ 0 → w.outputOff.toNat ≤ w.outputLen.toNat

theorem TrdpWindow.Sized.of_zero (h : w.outputLen = 0) : w.Sized alloc :=
  ⟨fun hNot => absurd h hNot, fun hNot => absurd h hNot⟩

/-- The loop of `output` leaves a buffer that has its message. -/
theorem loop_sized (hSrc : Reads src) (hZero : w.outputLen = 0) (hLen : data.length < 2 ^ 32)
    (h : outputLoop fuel w sent data = some (v, out)) :
    v.Sized (finalAlloc alloc (loopAccesses src w fuel off data)) := by
  induction fuel generalizing sent data off with
  | zero => cases h
  | succ fuel ih =>
      have hSkip : ∀ (o l : Nat) (more : List Access),
          finalAlloc alloc (src o l :: more) = finalAlloc alloc more := by
        intro o l more
        rw [finalAlloc, List.foldl_cons, hSrc.alloc]
        rfl
      simp only [outputLoop] at h
      simp only [loopAccesses, hSkip]
      split at h
      · next hMagic =>
          rw [if_pos hMagic]
          split at h
          · next hSize =>
              rw [if_pos hSize, hSkip]
              split at h
              · obtain ⟨rfl, -⟩ := Prod.mk.inj (Option.some.inj h)
                exact .of_zero hZero
              · next hRest =>
                  rw [if_neg hRest]
                  refine ih ?_ h
                  rw [List.length_drop]
                  omega
          · next hSize =>
              obtain ⟨rfl, -⟩ := Prod.mk.inj (Option.some.inj h)
              have hGrow : w.outputLen.toNat < (wordAt data 0).toNat := by
                rw [hZero]
                exact Nat.zero_lt_of_lt (Nat.lt_of_not_le hSize)
              rw [if_neg hSize, if_pos hGrow]
              refine ⟨fun _ => ?_, fun _ => ?_⟩
              · change _ ≤ finalAlloc alloc [.resize _, src off data.length, .write 0 data.length]
                rw [finalAlloc, List.foldl_cons, List.foldl_cons, hSrc.alloc]
                exact Nat.le_refl _
              · rw [BitVec.toNat_ofNat, Nat.mod_eq_of_lt hLen]
                exact Nat.le_of_lt (Nat.lt_of_not_le hSize)
      · next hMagic =>
          rw [if_neg hMagic]
          exact ih hLen h

theorem output_sized (hSrc : Reads src) (hSized : w.Sized alloc) (hLen : data.length < 2 ^ 32)
    (h : w.output fuel data = some (v, sent)) :
    v.Sized (finalAlloc alloc (w.outputAccesses src fuel data)) := by
  unfold TrdpWindow.output at h
  unfold TrdpWindow.outputAccesses
  by_cases hInside : w.outputLen ≠ 0
  · rw [if_pos hInside] at h ⊢
    by_cases hFits : w.outputOff.toNat + data.length ≤ w.outputLen.toNat
    · rw [if_pos hFits] at h ⊢
      dsimp only at h
      have hAlloc : ∀ more : List Access, (∀ a ∈ more, a = .read w.outputLen.toNat) → finalAlloc alloc
          (src 0 data.length :: .write w.outputOff.toNat data.length :: more) = alloc := by
        intro more hMore
        rw [finalAlloc, List.foldl_cons, List.foldl_cons, hSrc.alloc]
        change finalAlloc alloc more = alloc
        induction more with
        | nil => rfl
        | cons a more ih =>
            rw [finalAlloc, List.foldl_cons, hMore a List.mem_cons_self]
            exact ih fun a hMem => hMore a (List.mem_cons_of_mem _ hMem)
      rw [hAlloc]
      · by_cases hFull : w.outputOff + BitVec.ofNat 32 data.length = w.outputLen
        · rw [if_pos hFull] at h
          obtain ⟨rfl, -⟩ := Prod.mk.inj (Option.some.inj h)
          exact .of_zero rfl
        · rw [if_neg hFull] at h
          obtain ⟨rfl, -⟩ := Prod.mk.inj (Option.some.inj h)
          refine ⟨fun _ => hSized.fits hInside, fun _ => ?_⟩
          have hTop := w.outputLen.isLt
          change (w.outputOff + BitVec.ofNat 32 data.length).toNat ≤ w.outputLen.toNat
          rw [BitVec.toNat_add, BitVec.toNat_ofNat, Nat.mod_eq_of_lt hLen, Nat.mod_eq_of_lt (by omega)]
          exact hFits
      · intro a hMem
        split at hMem
        · exact List.mem_singleton.mp hMem
        · cases hMem
    · rw [if_neg hFits] at h ⊢
      obtain ⟨rfl, -⟩ := Prod.mk.inj (Option.some.inj h)
      exact hSized
  · rw [if_neg hInside] at h ⊢
    have hZero := not_not.mp hInside
    by_cases hLong : 8 ≤ data.length
    · rw [if_pos hLong] at h ⊢
      exact loop_sized hSrc hZero hLen h
    · rw [if_neg hLong] at h ⊢
      obtain ⟨rfl, -⟩ := Prod.mk.inj (Option.some.inj h)
      exact hSized

/-- The reads of data that are all there. -/
def Covers (src : Nat → Nat → Access) (msgLen total : Nat) : Prop :=
  ∀ off len alloc, off + len ≤ total → (src off len).Within msgLen alloc

/-- While all of the data is there the loop stays in its objects. -/
theorem loop_within (hSrc : Reads src) (hZero : w.outputLen = 0)
    (hCovers : Covers src msgLen (off + data.length)) (hLong : 8 ≤ data.length) :
    AllWithin msgLen alloc (loopAccesses src w fuel off data) := by
  induction fuel generalizing off data with
  | zero => trivial
  | succ fuel ih =>
      have hStep : ∀ (o l : Nat) (more : List Access), o + l ≤ off + data.length →
          AllWithin msgLen alloc more → AllWithin msgLen alloc (src o l :: more) := by
        intro o l more hIn hMore
        refine ⟨hCovers o l alloc hIn, ?_⟩
        rw [hSrc.alloc]
        exact hMore
      simp only [loopAccesses]
      refine hStep _ _ _ (by omega) (hStep _ _ _ (by omega) ?_)
      split
      · split
        · next hSize =>
            refine hStep _ _ _ (by omega) ?_
            split
            · trivial
            · next hRest =>
                refine ih ?_ (by omega)
                rw [List.length_drop]
                intro o l n hIn
                exact hCovers o l n (by omega)
        · next hSize =>
            have hGrow : w.outputLen.toNat < (wordAt data 0).toNat := by
              rw [hZero]
              exact Nat.zero_lt_of_lt (Nat.lt_of_not_le hSize)
            rw [if_pos hGrow]
            refine ⟨trivial, hCovers _ _ _ (Nat.le_refl _), ?_⟩
            rw [hSrc.alloc]
            refine ⟨?_, trivial⟩
            change 0 + data.length ≤ (wordAt data 0).toNat
            omega
      · exact ih hCovers hLong

theorem output_within (hSrc : Reads src) (hSized : w.Sized alloc)
    (hCovers : Covers src msgLen data.length) :
    AllWithin msgLen alloc (w.outputAccesses src fuel data) := by
  unfold TrdpWindow.outputAccesses
  split
  · next hInside =>
      split
      · next hFits =>
          have hFit := hSized.fits hInside
          refine ⟨hCovers _ _ _ (by omega), ?_⟩
          rw [hSrc.alloc]
          refine ⟨hFits.trans hFit, ?_⟩
          split
          · exact ⟨hFit, trivial⟩
          · trivial
      · trivial
  · next hBetween =>
      split
      · next hLong => exact loop_within hSrc (not_not.mp hBetween) (by rwa [Nat.zero_add]) hLong
      · trivial

/-- Saved packets are read in their own data. -/
theorem outputAll_within (msgLen fuel : Nat) (hSized : w.Sized alloc) (hLen : ∀ p ∈ pkts, p.data.length < 2 ^ 32) :
    AllWithin msgLen alloc (w.outputAllAccesses fuel pkts) ∧
      ∀ v sent, w.outputAll fuel pkts = some (v, sent) →
        v.Sized (finalAlloc alloc (w.outputAllAccesses fuel pkts)) := by
  induction pkts generalizing w alloc with
  | nil =>
      refine ⟨trivial, fun v sent h => ?_⟩
      obtain ⟨rfl, -⟩ := Prod.mk.inj (Option.some.inj h)
      exact hSized
  | cons p rest ih =>
      have hCovers : Covers (.saved p) msgLen p.data.length := fun _ _ _ hIn => hIn
      have hHead : AllWithin msgLen alloc (w.outputAccesses (.saved p) fuel p.data) :=
        output_within (reads_saved p) hSized hCovers
      rw [TrdpWindow.outputAllAccesses, TrdpWindow.outputAll, allWithin_append, finalAlloc_append]
      cases hOutput : w.output fuel p.data with
      | none => exact ⟨⟨hHead, trivial⟩, fun v sent h => by simp at h⟩
      | some result =>
          obtain ⟨u, first⟩ := result
          have hNext := output_sized (reads_saved p) hSized (hLen p List.mem_cons_self) hOutput
          obtain ⟨hWithin, hFinal⟩ := ih hNext fun q hq => hLen q (List.mem_cons_of_mem _ hq)
          refine ⟨⟨hHead, hWithin⟩, fun v sent h => ?_⟩
          simp only [Option.bind_eq_bind, Option.bind_some, Option.bind_eq_some_iff, Option.pure_def,
            Option.some.injEq, Prod.mk.injEq] at h
          obtain ⟨⟨v', more⟩, hRest, rfl, -⟩ := h
          exact hFinal v' more hRest

theorem wordAt_prefix (hPre : bytes <+: data) (hIn : off + 4 ≤ bytes.length) :
    wordAt data off = wordAt bytes off := by
  obtain ⟨rest, rfl⟩ := hPre
  have hEach : ∀ i, i < bytes.length → (bytes ++ rest).getD i 0 = bytes.getD i 0 := by
    intro i hi
    rw [List.getD_eq_getElem?_getD, List.getD_eq_getElem?_getD, List.getElem?_append_left hi]
  unfold wordAt
  rw [hEach off (by omega), hEach (off + 1) (by omega), hEach (off + 2) (by omega),
    hEach (off + 3) (by omega)]

/-- A read of the payload. -/
theorem payload_within_iff (o l : Nat) (more : List Access) :
    AllWithin msgLen alloc (payloadAccess o l :: more) ↔
      trdpDataHdrSize + o + l ≤ msgLen ∧ AllWithin msgLen alloc more := Iff.rfl

/-- The loop that stays where it is reads the first eight bytes again and again. -/
theorem idle_within (hMsg : trdpDataHdrSize + off + 8 ≤ msgLen) (hLong : 8 ≤ data.length)
    (hStays : wordAt data 4 ≠ rvMagic ∨ (wordAt data 0).toNat = 0) :
    AllWithin msgLen alloc (loopAccesses payloadAccess w fuel off data) := by
  induction fuel with
  | zero => trivial
  | succ fuel ih =>
      simp only [loopAccesses, payload_within_iff]
      refine ⟨by omega, by omega, ?_⟩
      by_cases hMagic : wordAt data 4 = rvMagic
      · have hSize : (wordAt data 0).toNat = 0 := hStays.resolve_left (not_not.mpr hMagic)
        rw [if_pos hMagic, hSize, if_pos (Nat.zero_le _), List.drop_zero, if_neg (by omega)]
        exact (payload_within_iff _ _ _).mpr ⟨by omega, ih⟩
      · rw [if_neg hMagic]
        exact ih

/-- A loop that stays in the datagram has what it reads there. -/
theorem row_of_within (hPre : bytes <+: data) (hLong : 8 ≤ data.length)
    (hAll : ∀ fuel, AllWithin (trdpDataHdrSize + off + bytes.length) alloc
      (loopAccesses payloadAccess w fuel off data)) : RowWithin bytes data.length := by
  induction hLength : data.length using Nat.strong_induction_on generalizing data bytes off with
  | _ total ih =>
      subst hLength
      have hFirst := hAll 1
      simp only [loopAccesses, payload_within_iff] at hFirst
      obtain ⟨hWord, -, hNext⟩ := hFirst
      have hThere : 8 ≤ bytes.length := by omega
      have hMagicEq := wordAt_prefix hPre (show 4 + 4 ≤ bytes.length by omega)
      have hSizeEq := wordAt_prefix hPre (show 0 + 4 ≤ bytes.length by omega)
      by_cases hMagic : wordAt data 4 = rvMagic
      · rw [if_pos hMagic] at hNext
        by_cases hSize : (wordAt data 0).toNat ≤ data.length
        · rw [if_pos hSize, payload_within_iff] at hNext
          have hIn : (wordAt bytes 0).toNat ≤ bytes.length := by
            rw [← hSizeEq]
            omega
          by_cases hPos : 0 < (wordAt bytes 0).toNat
          · refine .message hThere (hMagicEq ▸ hMagic) hPos hIn ?_
            have hDrop : bytes.drop (wordAt bytes 0).toNat <+: data.drop (wordAt bytes 0).toNat :=
              hPre.drop _
            have hDropLength := List.length_drop (i := (wordAt bytes 0).toNat) (l := data)
            rw [← hDropLength]
            by_cases hRest : (data.drop (wordAt bytes 0).toNat).length < 8
            · exact .stray hRest
            · have hBound : trdpDataHdrSize + off + bytes.length = trdpDataHdrSize +
                  (off + (wordAt bytes 0).toNat) + (bytes.drop (wordAt bytes 0).toNat).length := by
                rw [List.length_drop]
                omega
              have hRestAll : ∀ fuel, AllWithin (trdpDataHdrSize + (off + (wordAt bytes 0).toNat) +
                  (bytes.drop (wordAt bytes 0).toNat).length) alloc (loopAccesses payloadAccess w fuel
                    (off + (wordAt bytes 0).toNat) (data.drop (wordAt bytes 0).toNat)) := by
                intro fuel
                have hMore := hAll (fuel + 1)
                simp only [loopAccesses, payload_within_iff] at hMore
                obtain ⟨-, -, hMore⟩ := hMore
                rw [if_pos hMagic, if_pos hSize, payload_within_iff, hSizeEq, if_neg hRest] at hMore
                rw [← hBound]
                exact hMore.2
              exact ih _ (by omega) hDrop (by omega) hRestAll rfl
          · exact .idle hThere (.inr (Nat.eq_zero_of_not_pos hPos))
        · rw [if_neg hSize, allWithin_append] at hNext
          obtain ⟨-, hRead, -⟩ := hNext
          refine .whole ?_
          change trdpDataHdrSize + off + data.length ≤ trdpDataHdrSize + off + bytes.length at hRead
          omega
      · exact .idle hThere (.inl (hMagicEq ▸ hMagic))

theorem within_of_row {total : Nat} (hRow : RowWithin bytes total) (hZero : w.outputLen = 0)
    (hTotal : data.length = total) (hPre : bytes <+: data) (hLong : 8 ≤ data.length) (fuel : Nat) :
    AllWithin (trdpDataHdrSize + off + bytes.length) alloc
      (loopAccesses payloadAccess w fuel off data) := by
  induction hRow generalizing data off fuel with
  | whole h =>
      refine loop_within reads_payload hZero ?_ hLong
      intro o l n hIn
      change trdpDataHdrSize + o + l ≤ _
      omega
  | stray h => omega
  | @idle bytes total hThere hStays =>
      have hMagicEq := wordAt_prefix hPre (show 4 + 4 ≤ bytes.length by omega)
      have hSizeEq := wordAt_prefix hPre (show 0 + 4 ≤ bytes.length by omega)
      refine idle_within (by omega) hLong ?_
      rw [hMagicEq, hSizeEq]
      exact hStays
  | @message bytes total hThere hMagic hPos hSize rest ih =>
      have hMagicEq := wordAt_prefix hPre (show 4 + 4 ≤ bytes.length by omega)
      have hSizeEq := wordAt_prefix hPre (show 0 + 4 ≤ bytes.length by omega)
      have hShort := hPre.length_le
      have hBound : trdpDataHdrSize + off + bytes.length = trdpDataHdrSize +
          (off + (wordAt bytes 0).toNat) + (bytes.drop (wordAt bytes 0).toNat).length := by
        rw [List.length_drop]
        omega
      cases fuel with
      | zero => trivial
      | succ fuel =>
          simp only [loopAccesses, payload_within_iff]
          refine ⟨by omega, by omega, ?_⟩
          rw [hMagicEq, hSizeEq, if_pos hMagic, if_pos (hSize.trans hShort)]
          refine (payload_within_iff _ _ _).mpr ⟨by omega, ?_⟩
          split
          · trivial
          · next hRest =>
              rw [hBound]
              refine ih ?_ (hPre.drop _) (by omega) fuel
              rw [List.length_drop, hTotal]

theorem slice_prefix (d : Datagram) (off len : Nat) (h : d.bytes.length ≤ off + len) :
    d.bytes.drop off <+: d.slice off len := by
  rw [List.prefix_iff_eq_take]
  refine List.ext_getElem ?_ fun i h₁ h₂ => ?_
  · rw [List.length_take, slice_length, List.length_drop]
    omega
  · rw [List.length_drop] at h₁
    rw [List.getElem_drop, List.getElem_take]
    simp only [Datagram.slice, List.getElem_map, List.getElem_range, Datagram.byte]
    rw [List.getD_eq_getElem?_getD, List.getElem?_eq_getElem (by omega), Option.getD_some]

/-- The bytes that `output` reads of a DATA packet are there. -/
theorem payload_within (hSized : w.Sized alloc) (hBytes : trdpDataHdrSize ≤ d.bytes.length)
    (len : Nat) :
    (∀ fuel, AllWithin d.bytes.length alloc
      (w.outputAccesses payloadAccess fuel (d.slice trdpDataHdrSize len))) ↔
      if w.outputLen = 0 then RowWithin (d.bytes.drop trdpDataHdrSize) len
      else w.outputLen.toNat < w.outputOff.toNat + len ∨
        trdpDataHdrSize + len ≤ d.bytes.length := by
  have hSlice := slice_length d trdpDataHdrSize len
  have hDrop : (d.bytes.drop trdpDataHdrSize).length = d.bytes.length - trdpDataHdrSize :=
    List.length_drop
  by_cases hWhole : trdpDataHdrSize + len ≤ d.bytes.length
  · refine iff_of_true (fun fuel => output_within reads_payload hSized ?_) ?_
    · intro o l n hIn
      change trdpDataHdrSize + o + l ≤ _
      omega
    · split
      · exact .whole (by omega)
      · exact .inr hWhole
  · have hPre := slice_prefix d trdpDataHdrSize len (by omega)
    have hBound : d.bytes.length =
        trdpDataHdrSize + 0 + (d.bytes.drop trdpDataHdrSize).length := by omega
    unfold TrdpWindow.outputAccesses
    by_cases hZero : w.outputLen = 0
    · simp only [hZero, ne_eq, not_true_eq_false, if_false, if_true, hSlice]
      by_cases hLong : 8 ≤ len
      · simp only [if_pos hLong]
        rw [hBound]
        constructor
        · intro hAll
          have hRow := row_of_within hPre (by omega) hAll
          rwa [hSlice] at hRow
        · intro hRow fuel
          exact within_of_row hRow hZero hSlice hPre (by omega) fuel
      · simp only [if_neg hLong]
        exact iff_of_true (fun _ => trivial) (.stray (by omega))
    · simp only [hZero, ne_eq, not_false_eq_true, if_false, if_true, hSlice]
      by_cases hFits : w.outputOff.toNat + len ≤ w.outputLen.toNat
      · simp only [if_pos hFits]
        refine iff_of_false (fun hAll => ?_) (by omega)
        have hRead := ((payload_within_iff _ _ _).mp (hAll 0)).1
        omega
      · simp only [if_neg hFits]
        exact iff_of_true (fun _ => trivial) (.inl (by omega))

/-- In an ascending list a seqno is refused exactly if it is there. -/
theorem insertSaved_eq_none (x : TrdpWindowPkt) (hOrder : Ascending pkts) :
    insertSaved x pkts = none ↔ ∃ p ∈ pkts, p.seqno = x.seqno := by
  induction pkts with
  | nil => simp [insertSaved]
  | cons p rest ih =>
      obtain ⟨hHead, hRest⟩ := List.pairwise_cons.mp hOrder
      rw [insertSaved]
      by_cases hSame : p.seqno = x.seqno
      · rw [if_pos hSame]
        exact iff_of_true rfl ⟨p, List.mem_cons_self, hSame⟩
      · rw [if_neg hSame]
        by_cases hBefore : x.seqno < p.seqno
        · rw [if_pos hBefore]
          refine iff_of_false (by simp) ?_
          rintro ⟨q, hq, hEq⟩
          rcases List.mem_cons.mp hq with rfl | hq
          · exact hSame hEq
          · have hAbove := hHead q hq
            have hLt : x.seqno.toNat < p.seqno.toNat := hBefore
            rw [hEq] at hAbove
            omega
        · rw [if_neg hBefore, Option.map_eq_none_iff, ih hRest]
          simp [hSame]

theorem MergeOutcome.sized {ready : List TrdpWindowPkt}
    (h : MergeOutcome w hdr payload now ready v) (hSized : w.Sized alloc) : v.Sized alloc := by
  cases h with
  | saved => exact ⟨hSized.fits, hSized.offset⟩
  | alone => exact ⟨hSized.fits, hSized.offset⟩
  | waits => exact ⟨hSized.fits, hSized.offset⟩
  | @walked x post ready =>
      have hSkip : ((w.save hdr (x :: post)).skipTo x).Sized alloc := by
        unfold TrdpWindow.skipTo
        dsimp only
        split
        · exact .of_zero rfl
        · exact ⟨hSized.fits, hSized.offset⟩
      unfold TrdpWindow.stampReady
      split
      · exact ⟨hSkip.fits, hSkip.offset⟩
      · exact ⟨hSkip.fits, hSkip.offset⟩

theorem mergeAccesses_alloc (w : TrdpWindow) (hdr : TrdpHdr) (payload : Bytes) (now : BitVec 64) :
    finalAlloc alloc (w.mergeAccesses hdr payload now) = alloc := by
  unfold TrdpWindow.mergeAccesses
  split <;> rfl

/-- What `merge` hands out is read in its own data. -/
theorem merged_within (hWf : w.Wf) (hSized : w.Sized alloc)
    (hPayload : payload.length = hdr.dataLen.toNat) (msgLen : Nat) (now : BitVec 64) (fuel : Nat) :
    AllWithin msgLen alloc (match w.merge fuel hdr payload now with
      | some (w, ready) => w.outputAllAccesses fuel ready
      | none => []) := by
  cases hMerge : w.merge fuel hdr payload now with
  | none => trivial
  | some result =>
      obtain ⟨u, ready⟩ := result
      have hOutcome := merge_outcome hWf hPayload hMerge
      exact (outputAll_within msgLen fuel (hOutcome.sized hSized) (hOutcome.data_lt hWf hPayload)).1

/-- A DATA packet is read where it is, exactly under the condition. -/
theorem recv_within_iff (hWf : w.Wf) (hSized : w.Sized alloc)
    (hBytes : trdpDataHdrSize ≤ d.bytes.length) :
    (∀ fuel, AllWithin d.bytes.length alloc
      (w.recvAccesses fuel hdr (d.slice trdpDataHdrSize hdr.dataLen.toNat) now)) ↔
      PayloadWithin w hdr d := by
  unfold TrdpWindow.recvAccesses PayloadWithin
  cases hRoute : w.route hdr with
  | unsynced => exact iff_of_true (fun _ => trivial) trivial
  | repeated => exact iff_of_true (fun _ => trivial) trivial
  | first =>
      have hSync : (w.sync hdr now).Sized alloc := ⟨hSized.fits, hSized.offset⟩
      exact payload_within hSync hBytes _
  | direct =>
      have hNote : (w.note hdr).Sized alloc := ⟨hSized.fits, hSized.offset⟩
      exact payload_within hNote hBytes _
  | merged =>
      have hNoteWf : (w.note hdr).Wf := hWf.of_list_eq rfl
      have hNote : (w.note hdr).Sized alloc := ⟨hSized.fits, hSized.offset⟩
      have hRest := fun fuel => merged_within hNoteWf hNote
        (slice_length d trdpDataHdrSize hdr.dataLen.toNat) d.bytes.length now fuel
      simp only [allWithin_append, mergeAccesses_alloc, hRest, and_true, forall_const]
      have hSaved := insertSaved_eq_none
        (.make hdr (d.slice trdpDataHdrSize hdr.dataLen.toNat) now) hWf.ascending
      unfold TrdpWindow.mergeAccesses
      cases hInsert : insertSaved (.make hdr (d.slice trdpDataHdrSize hdr.dataLen.toNat) now)
          (w.note hdr).list with
      | none => exact iff_of_true trivial (.inl (hSaved.mp hInsert))
      | some list =>
          have hNew : ¬ ∃ p ∈ w.list, p.seqno = hdr.seqno := fun hThere => by
            have hNone := hSaved.mpr hThere
            rw [show insertSaved _ w.list = _ from hInsert] at hNone
            cases hNone
          change (_ ∧ True) ↔ _
          rw [and_true, or_iff_right hNew]
          rfl

/-- A completed call on a DATA packet leaves a buffer that has its message. -/
theorem recv_sized (hWf : w.Wf) (hSized : w.Sized alloc) (hPayload : payload.length = hdr.dataLen.toNat)
    {handed : List (BitVec 32 × Bytes)}
    (h : w.recvData fuel hdr payload now = some (v, handed, sent)) :
    v.Sized (finalAlloc alloc (w.recvAccesses fuel hdr payload now)) := by
  have hLen : payload.length < 2 ^ 32 := by
    have hLt := hdr.dataLen.isLt
    omega
  unfold TrdpWindow.recvData at h
  unfold TrdpWindow.recvAccesses
  cases hRoute : w.route hdr with
  | unsynced =>
      simp only [hRoute] at h
      obtain ⟨rfl, rfl, -⟩ := by simpa using h
      exact hSized
  | repeated =>
      simp only [hRoute] at h
      obtain ⟨rfl, rfl, -⟩ := by simpa using h
      exact ⟨hSized.fits, hSized.offset⟩
  | first =>
      simp only [hRoute, Option.bind_eq_bind, Option.bind_eq_some_iff, Option.pure_def,
        Option.some.injEq, Prod.mk.injEq] at h
      obtain ⟨⟨u, out⟩, hOutput, rfl, rfl, -⟩ := h
      have hSync : (w.sync hdr now).Sized alloc := ⟨hSized.fits, hSized.offset⟩
      exact output_sized reads_payload hSync hLen hOutput
  | direct =>
      simp only [hRoute, Option.bind_eq_bind, Option.bind_eq_some_iff, Option.pure_def,
        Option.some.injEq, Prod.mk.injEq] at h
      obtain ⟨⟨u, out⟩, hOutput, rfl, rfl, -⟩ := h
      have hNote : (w.note hdr).Sized alloc := ⟨hSized.fits, hSized.offset⟩
      have hNext := output_sized reads_payload hNote hLen hOutput
      exact ⟨hNext.fits, hNext.offset⟩
  | merged =>
      simp only [hRoute, Option.bind_eq_bind, Option.bind_eq_some_iff, Option.pure_def,
        Option.some.injEq, Prod.mk.injEq] at h
      obtain ⟨⟨u, ready⟩, hMerge, ⟨x, out⟩, hOutput, rfl, rfl, -⟩ := h
      have hNoteWf : (w.note hdr).Wf := hWf.of_list_eq rfl
      have hNote : (w.note hdr).Sized alloc := ⟨hSized.fits, hSized.offset⟩
      have hOutcome := merge_outcome hNoteWf hPayload hMerge
      have hAll := outputAll_within 0 fuel (hOutcome.sized hNote)
        (hOutcome.data_lt hNoteWf hPayload)
      simp only [finalAlloc_append, mergeAccesses_alloc, hMerge]
      exact hAll.2 _ _ hOutput

/-- The header is read only as far as the lengths that are checked go. -/
theorem copyIn_within (d : Datagram) (alloc : Nat) :
    AllWithin d.bytes.length alloc (copyInAccesses d) ∧ finalAlloc alloc (copyInAccesses d) = alloc := by
  unfold copyInAccesses
  by_cases hShort : d.bytes.length < trdpHdrSize
  · rw [if_pos hShort]
    exact ⟨trivial, rfl⟩
  · have hHdr : 20 ≤ d.bytes.length := Nat.le_of_not_lt hShort
    rw [if_neg hShort]
    split
    · exact ⟨⟨(by omega : 0 + 4 ≤ d.bytes.length), trivial⟩, rfl⟩
    · have hStart : ∀ more : List Access, AllWithin d.bytes.length alloc more →
          finalAlloc alloc more = alloc →
          AllWithin d.bytes.length alloc (.datagram 0 4 :: .datagram 4 16 :: more) ∧
            finalAlloc alloc (.datagram 0 4 :: .datagram 4 16 :: more) = alloc :=
        fun more hMore hAlloc => ⟨⟨(by omega : 0 + 4 ≤ d.bytes.length),
          (by omega : 4 + 16 ≤ d.bytes.length), hMore⟩, hAlloc⟩
      refine hStart _ ?_ ?_
      · split
        · split
          · trivial
          · next hLong =>
              exact ⟨(by simp only [trdpDataHdrSize, trdpHdrSize] at *; omega :
                trdpHdrSize + 12 ≤ d.bytes.length), trivial⟩
        · trivial
        · split
          · trivial
          · next hLong => exact ⟨Nat.le_of_not_lt hLong, trivial⟩
      · split
        · split <;> rfl
        · rfl
        · split <;> rfl

theorem copyIn_data {d : Datagram} (hHdr : TrdpHdr.copyIn d = some hdr) (hType : hdr.type = .data) :
    trdpDataHdrSize ≤ d.bytes.length := by
  unfold TrdpHdr.copyIn at hHdr
  split at hHdr
  · cases hHdr
  · split at hHdr
    · cases hHdr
    · dsimp only at hHdr
      split at hHdr
      · next hData =>
          split at hHdr
          · cases hHdr
          · next hLong => exact Nat.le_of_not_lt hLong
      · next hOther =>
          obtain rfl := Option.some.inj hHdr
          rw [hOther] at hType
          cases hType
      · next hData _ =>
          split at hHdr
          · cases hHdr
          · obtain rfl := Option.some.inj hHdr
            exact absurd hType hData

/-- What every reachable state keeps about the buffers. -/
structure Memory.Sound (m : Memory) : Prop where
  wf : m.db.Wf
  sized : ∀ tsid, (m.db.getWindow tsid).Sized (m.alloc tsid)

theorem getWindow_setWindow_other (db : TrdpWindowDB) {tsid : TrdpTsid} (h : v.tsid ≠ tsid) :
    (db.setWindow v).getWindow tsid = db.getWindow tsid := by
  unfold TrdpWindowDB.setWindow TrdpWindowDB.getWindow
  split
  · congr 1
    simp only
    induction db.windows with
    | nil => rfl
    | cons w rest ih =>
        by_cases hw : w.tsid = v.tsid
        · have hNot : ¬ w.tsid = tsid := fun hEq => h (hw.symm.trans hEq)
          simp only [List.map_cons, if_pos hw, List.find?_cons, decide_eq_false h, decide_eq_false hNot]
          exact ih
        · simp only [List.map_cons, if_neg hw, List.find?_cons]
          cases decide (w.tsid = tsid) with
          | true => rfl
          | false => exact ih
  · simp [List.find?_append, h]

/-- Completed calls keep buffers that have their messages. -/
theorem Memory.Sound.step {m m' : Memory} {a : Arrival} {handed : List (BitVec 32 × Bytes)}
    (h : m.Sound) (hStep : memorySystem.step m a handed m') : m'.Sound := by
  obtain ⟨fuel, hCall, hAlloc⟩ := hStep
  refine ⟨(process_outcome h.wf ⟨fuel, hCall⟩).wf h.wf, ?_⟩
  unfold TrdpWindowDB.processMsg at hCall
  cases hHdr : TrdpHdr.copyIn a.datagram with
  | none =>
      simp only [hHdr] at hCall hAlloc
      obtain ⟨hDb, -⟩ := Prod.mk.inj (Option.some.inj hCall)
      rw [← hDb, hAlloc]
      exact h.sized
  | some hdr =>
      simp only [hHdr, TrdpWindowDB.processAccesses, finalAlloc_append, (copyIn_within _ _).2] at hCall hAlloc
      have hOld := h.sized hdr.tsid
      have hTsid := getWindow_tsid m.db hdr.tsid
      -- only the window of the datagram and its buffer change
      have hOne : ∀ (v : TrdpWindow) (n : Nat), v.tsid = hdr.tsid → v.Sized n → ∀ tsid,
          ((m.db.setWindow v).getWindow tsid).Sized (Function.update m.alloc hdr.tsid n tsid) := by
        intro v n hv hSized tsid
        by_cases hSame : tsid = hdr.tsid
        · subst hSame
          rw [Function.update_self, ← hv, getWindow_setWindow]
          exact hSized
        · rw [Function.update_of_ne hSame, getWindow_setWindow_other _ fun hEq => hSame (hEq.symm.trans hv)]
          exact h.sized tsid
      split at hCall
      · next hType =>
          simp only [hType] at hAlloc
          simp only [Option.bind_eq_bind, Option.bind_eq_some_iff, Option.pure_def,
            Option.some.injEq, Prod.mk.injEq] at hCall
          obtain ⟨⟨w, handed, sent⟩, hRecv, hDb, rfl⟩ := hCall
          have hOutcome := recvData_outcome (h.wf.getWindow hdr.tsid) (slice_length _ _ _) hRecv
          have hSized := recv_sized (h.wf.getWindow hdr.tsid) hOld (slice_length _ _ _) hRecv
          intro tsid
          rw [hAlloc, ← hDb]
          exact hOne w _ (hOutcome.tsid.trans hTsid) hSized tsid
      · next hType =>
          simp only [hType] at hAlloc
          obtain ⟨hDb, -⟩ := Prod.mk.inj (Option.some.inj hCall)
          intro tsid
          rw [hAlloc, ← hDb]
          exact hOne { m.db.getWindow hdr.tsid with nakCount := (m.db.getWindow hdr.tsid).nakCount + 1 }
            _ hTsid ⟨hOld.fits, hOld.offset⟩ tsid
      · next hData _ =>
          obtain ⟨hDb, -⟩ := Prod.mk.inj (Option.some.inj hCall)
          split at hAlloc
          · next hType => exact absurd hType hData
          · change m'.alloc = Function.update m.alloc hdr.tsid (m.alloc hdr.tsid) at hAlloc
            rw [← hDb, hAlloc, Function.update_eq_self]
            exact h.sized

theorem sound_of_reachable {m : Memory} (h : memorySystem.Reachable m) : m.Sound := by
  refine h.invariant ?_ fun _ _ _ _ inv hStep => inv.step hStep
  rintro _ rfl
  refine ⟨?_, fun tsid => ?_⟩
  · intro w hw
    cases hw
  have hWindow : TrdpWindowDB.getWindow {} tsid = { tsid := tsid } := rfl
  change (TrdpWindowDB.getWindow {} tsid).Sized _
  rw [hWindow]
  exact .of_zero rfl

/-- In every reachable state all reads and writes of a call stay in their objects exactly if the
datagram has the bytes that are read of its payload. -/
theorem process_within_iff {m : Memory} (hReach : memorySystem.Reachable m) (a : Arrival) :
    (∀ fuel, AllWithin a.datagram.bytes.length (m.bufferOf a.datagram)
      (m.db.processAccesses fuel a.datagram a.curMonoTime)) ↔
    ∀ hdr, TrdpHdr.copyIn a.datagram = some hdr → hdr.type = .data →
      PayloadWithin (m.db.getWindow hdr.tsid) hdr a.datagram := by
  have hSound := sound_of_reachable hReach
  unfold TrdpWindowDB.processAccesses Memory.bufferOf
  cases hHdr : TrdpHdr.copyIn a.datagram with
  | none =>
      refine iff_of_true (fun fuel => ?_) (fun hdr h => by cases h)
      rw [List.append_nil]
      exact (copyIn_within _ _).1
  | some hdr =>
      simp only [allWithin_append, (copyIn_within _ _).1, (copyIn_within _ _).2, true_and,
        Option.some.injEq, forall_eq']
      by_cases hType : hdr.type = .data
      · simp only [hType, forall_const]
        exact recv_within_iff (hSound.wf.getWindow _) (hSound.sized _) (copyIn_data hHdr hType)
      · refine iff_of_true (fun fuel => ?_) fun h => absurd h hType
        split
        · next h => exact absurd h hType
        · trivial

theorem process_within_ping : (dataDatagram ⟨1, 1⟩ 1 8 0 rvPing).bytes.length = 40 ∧
    ∀ fuel, AllWithin 40 0
      (TrdpWindowDB.processAccesses fuel {} (dataDatagram ⟨1, 1⟩ 1 8 0 rvPing) 1) := by
  refine ⟨rfl, ?_⟩
  have hReach : memorySystem.Reachable {} := System.reachable_of_init rfl
  refine (process_within_iff hReach ⟨dataDatagram ⟨1, 1⟩ 1 8 0 rvPing, 1⟩).mpr ?_
  intro hdr hHdr _
  have hSome : TrdpHdr.copyIn (dataDatagram ⟨1, 1⟩ 1 8 0 rvPing) =
      some ⟨trdpMagic, 1, 1, 0, 1, 0, 1, 8, 8, 0⟩ := by decide
  obtain rfl := Option.some.inj (hHdr.symm.trans hSome)
  have hThere : RowWithin ((dataDatagram ⟨1, 1⟩ 1 8 0 rvPing).bytes.drop trdpDataHdrSize) 8 :=
    .whole (by decide)
  exact hThere

/-- A packet of 32 bytes that says it has eight more. -/
def shortDatagram : Datagram where
  bytes := (dataDatagram ⟨1, 1⟩ 1 8 0 rvPing).bytes.take trdpDataHdrSize
  beyond := fun _ => 0

/-- The code reads behind the datagram. -/
theorem short_datagram_overread :
    ¬ ∀ m, memorySystem.Reachable m → ∀ a : Arrival, ∀ fuel,
      AllWithin a.datagram.bytes.length (m.bufferOf a.datagram)
        (m.db.processAccesses fuel a.datagram a.curMonoTime) := by
  intro h
  have hReach : memorySystem.Reachable {} := System.reachable_of_init rfl
  have hAll := h {} hReach ⟨shortDatagram, 1⟩ 1
  have hMem : Access.datagram 36 4 ∈ TrdpWindowDB.processAccesses 1 {} shortDatagram 1 := by decide
  obtain ⟨first, rest, hSplit⟩ := List.append_of_mem hMem
  change AllWithin 32 _ (TrdpWindowDB.processAccesses 1 {} shortDatagram 1) at hAll
  rw [hSplit, allWithin_append] at hAll
  have hIn : 36 + 4 ≤ 32 := hAll.2.1
  omega

end Sassrv.Trdp
