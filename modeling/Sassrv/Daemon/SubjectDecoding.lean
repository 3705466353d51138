import Mathlib
import Sassrv.Lib.Partial
import Sassrv.SubMgr.Wildcards

/-! `RvMsgIn::subject_to_string`: the subject of a message, which is sent as a count of
segments and the segments with their lengths in front, becomes a text with dots. The
first pass checks the buffer and counts the characters, the second one copies them. -/
namespace Sassrv.Daemon
open SubMgr Partial

/-- The parts of `RvMsgIn` that the subject goes through. `block` is the memory that
`sub` is in when `sub_buf` is too small for it. -/
structure RvMsgIn where
  prefixBuf : Vector UInt8 40
  subBuf : Vector UInt8 64
  prefixLen : Nat
  prefixLen_le : prefixLen ≤ 40
  block : Option Text := none
  sublen : BitVec 16 := 0
  isWild : Bool := false

namespace RvMsgIn

/-- `prefix_start`, up to the end of the prefix. -/
def prefixStart (m : RvMsgIn) : Text := m.prefixBuf.toList.drop (40 - m.prefixLen)

/-- The memory from `sub - prefix_len` on. `sub_buf` is behind `prefix` in the struct. -/
def preBytes (m : RvMsgIn) : Text :=
  match m.block with
  | none => m.prefixStart ++ m.subBuf.toList
  | some block => block

def preSubject (m : RvMsgIn) : Text := m.preBytes.take (m.sublen.toNat + m.prefixLen)

/-- `sub`, with its length. -/
def sub (m : RvMsgIn) : Text := (m.preBytes.drop m.prefixLen).take m.sublen.toNat

/-- `sub[ k ] = c`. -/
def store (m : RvMsgIn) (k : Nat) (c : UInt8) : Result RvMsgIn :=
  match m.block with
  | none =>
      if h : k < 64 then .ok { m with subBuf := m.subBuf.set k c } else .error .outOfBounds
  | some block =>
      if m.prefixLen + k < block.length then
        .ok { m with block := some (block.set (m.prefixLen + k) c) }
      else .error .outOfBounds

end RvMsgIn

/-- `buf[ i ]`. -/
def byteAt (buf : Text) (i : Nat) : Result UInt8 :=
  match buf[i]? with
  | some c => .ok c
  | none => .error .outOfBounds

/-- The first pass: the characters that the subject has with its dots, none for a bad
subject. -/
def scanSegments (buf : Text) (j : Nat) (segs : UInt8) (k : Nat) : Result (Option Nat) :=
  if j < buf.length then do
    let size ← byteAt buf j
    if hShort : size < 2 then pure none
    else scanSegments buf (j + size.toNat) (segs - 1) (k + (j + size.toNat - (j + 2)))
  else pure (if segs ≠ 0 ∨ j ≠ buf.length then none else some k)
termination_by buf.length - j
decreasing_by
  have hSize : 2 ≤ size.toNat := UInt8.not_lt.mp hShort
  omega

/-- `while ( i + 1 < j ) sub[ k++ ] = buf[ i++ ]`. -/
def copySegment (buf : Text) (i j k : Nat) (m : RvMsgIn) : Result (RvMsgIn × Nat) :=
  if i + 1 < j then do
    let c ← byteAt buf i
    let m ← m.store k c
    copySegment buf (i + 1) j (k + 1) m
  else pure (m, k)
termination_by j - i

/-- A segment of one character may be a wildcard, `>` only as the last segment. -/
def markWild (buf : Text) (i j : Nat) (segs : UInt8) (m : RvMsgIn) : Result RvMsgIn :=
  if i + 2 = j then do
    let c ← byteAt buf i
    pure (if c = 42 ∨ (c = 62 ∧ segs = 1) then { m with isWild := true } else m)
  else pure m

/-- The second pass. -/
def copySegments (buf : Text) (j : Nat) (segs : UInt8) (k : Nat) (m : RvMsgIn) :
    Result (RvMsgIn × Nat) := do
  let size ← byteAt buf j
  let m ← markWild buf (j + 1) (j + size.toNat) segs m
  let (m, k) ← copySegment buf (j + 1) (j + size.toNat) k m
  if hMore : 0 < segs - 1 then do
    let m ← m.store k 46
    copySegments buf (j + size.toNat) (segs - 1) (k + 1) m
  else pure (m, k)
termination_by (segs - 1).toNat
decreasing_by
  have hPos : 1 ≤ (segs - 1).toNat := UInt8.lt_iff_toNat_lt.mp hMore
  rw [UInt8.toNat_sub_of_le _ 1 (UInt8.le_iff_toNat_le.mpr hPos)]
  exact Nat.sub_lt hPos Nat.one_pos

namespace RvMsgIn

/-- Where the subject will be: in a new block behind the prefix, or in `sub_buf`. What
the block holds is up to the allocator. -/
def placeSub (alloc : (n : Nat) → Vector UInt8 n) (m : RvMsgIn) (k : Nat) : RvMsgIn :=
  if 64 < k + 1 then
    let block := (alloc (k + 1 + m.prefixLen)).toList
    { m with block := some (m.prefixStart ++ block.drop m.prefixLen) }
  else { m with block := none }

def badSubject (m : RvMsgIn) : Result (RvMsgIn × Bool) := do
  let m ← { m with block := none }.store 0 0
  pure ({ m with sublen := 0 }, false)

def subjectToString (alloc : (n : Nat) → Vector UInt8 n) (m : RvMsgIn) (buf : Text) :
    Result (RvMsgIn × Bool) := do
  let m := { m with isWild := false }
  if buf.length = 0 then m.badSubject
  else
    let segs ← byteAt buf 0
    if segs = 0 then m.badSubject
    else
      match ← scanSegments buf 1 segs (segs.toNat - 1) with
      | none => m.badSubject
      | some k =>
          if 0xffff < k then m.badSubject
          else
            let (m, k) ← copySegments buf 1 segs 0 (m.placeSub alloc k)
            let m ← m.store k 0
            pure ({ m with sublen := BitVec.ofNat 16 k }, true)

end RvMsgIn

/-- A segment of a subject as it is sent. -/
structure Segment where
  content : Text
  terminator : UInt8
  length_le : content.length ≤ 253

def Segment.encode (seg : Segment) : Text :=
  UInt8.ofNat (seg.content.length + 2) :: (seg.content ++ [seg.terminator])

def encodeAll (segs : List Segment) : Text := segs.flatMap Segment.encode

/-- The text that the segments stand for. -/
def joined (segs : List Segment) : Text := List.intercalate [46] (segs.map Segment.content)

def contentLength (segs : List Segment) : Nat := (segs.map fun seg => seg.content.length).sum

variable {buf : Text} {segs rest : List Segment} {seg : Segment} {i j k : Nat} {c : UInt8}

@[simp] theorem encodeAll_nil : encodeAll [] = [] := rfl

@[simp] theorem encodeAll_cons : encodeAll (seg :: rest) = seg.encode ++ encodeAll rest := rfl

@[simp] theorem contentLength_cons :
    contentLength (seg :: rest) = seg.content.length + contentLength rest := by
  simp [contentLength]

theorem Segment.size (seg : Segment) :
    (UInt8.ofNat (seg.content.length + 2)).toNat = seg.content.length + 2 := by
  have hLe := seg.length_le
  rw [UInt8.toNat_ofNat']
  omega

theorem Segment.encode_length (seg : Segment) : seg.encode.length = seg.content.length + 2 := by
  simp [Segment.encode]

theorem joined_cons_cons (seg next : Segment) (rest : List Segment) :
    joined (seg :: next :: rest) = seg.content ++ 46 :: joined (next :: rest) := by
  simp [joined, List.intercalate]

theorem joined_singleton (seg : Segment) : joined [seg] = seg.content := by
  simp [joined, List.intercalate]

theorem joined_length (seg : Segment) (rest : List Segment) :
    (joined (seg :: rest)).length = contentLength (seg :: rest) + rest.length := by
  induction rest generalizing seg with
  | nil => simp [joined_singleton, contentLength]
  | cons next rest ih =>
      simp only [joined_cons_cons, List.length_append, List.length_cons, ih, contentLength_cons]
      omega

theorem byteAt_eq_ok : byteAt buf i = .ok c ↔ buf[i]? = some c := by
  unfold byteAt
  cases hByte : buf[i]? <;> simp

theorem scanSegments_short (hByte : buf[j]? = some c) (hShort : c < 2) (segs : UInt8) (k : Nat) :
    scanSegments buf j segs k = .ok none := by
  obtain ⟨hLt, -⟩ := List.getElem?_eq_some_iff.mp hByte
  rw [scanSegments, if_pos hLt, byteAt_eq_ok.mpr hByte]
  exact dif_pos hShort

theorem scanSegments_next (hByte : buf[j]? = some c) (hLong : ¬ c < 2) (segs : UInt8) (k : Nat) :
    scanSegments buf j segs k =
      scanSegments buf (j + c.toNat) (segs - 1) (k + (j + c.toNat - (j + 2))) := by
  obtain ⟨hLt, -⟩ := List.getElem?_eq_some_iff.mp hByte
  rw [scanSegments, if_pos hLt, byteAt_eq_ok.mpr hByte]
  exact dif_neg hLong

theorem scanSegments_end (hEnd : buf.length ≤ j) (segs : UInt8) (k : Nat) :
    scanSegments buf j segs k = .ok (if segs ≠ 0 ∨ j ≠ buf.length then none else some k) := by
  rw [scanSegments, if_neg (Nat.not_lt.mpr hEnd)]
  rfl

theorem drop_eq_cons_iff {c : UInt8} {t : Text} :
    buf.drop j = c :: t ↔ buf[j]? = some c ∧ buf.drop (j + 1) = t := by
  constructor
  · intro h
    have hTail := congrArg List.tail h
    rw [List.tail_drop, List.tail_cons] at hTail
    exact ⟨by rw [← List.head?_drop, h, List.head?_cons], hTail⟩
  · rintro ⟨hByte, rfl⟩
    obtain ⟨hLt, rfl⟩ := List.getElem?_eq_some_iff.mp hByte
    exact List.drop_eq_getElem_cons hLt

/-- What a segment at `j` says about the bytes there. -/
theorem Segment.at {t : Text} (h : buf.drop j = seg.encode ++ t) :
    buf[j]? = some (UInt8.ofNat (seg.content.length + 2)) ∧
      buf.drop (j + (seg.content.length + 2)) = t ∧ j + (seg.content.length + 2) ≤ buf.length := by
  have hLength := congrArg List.length h
  rw [List.length_drop, List.length_append, seg.encode_length] at hLength
  refine ⟨(drop_eq_cons_iff.mp h).1, ?_, by omega⟩
  rw [← List.drop_drop, h, ← seg.encode_length, List.drop_left]

/-- Any length byte that is at least 2 starts a segment, if the buffer goes on for it. -/
theorem exists_segment (hByte : buf[j]? = some c) (hLong : 2 ≤ c.toNat)
    (hEnd : j + c.toNat ≤ buf.length) :
    ∃ seg : Segment, seg.content.length + 2 = c.toNat ∧
      buf.drop j = seg.encode ++ buf.drop (j + c.toNat) := by
  have hSplit : buf.drop (j + 1) = (buf.drop (j + 1)).take (c.toNat - 1) ++ buf.drop (j + c.toNat) := by
    have hSkip : j + 1 + (c.toNat - 1) = j + c.toNat := by omega
    have hBoth := (List.take_append_drop (c.toNat - 1) (buf.drop (j + 1))).symm
    rwa [List.drop_drop, hSkip] at hBoth
  have hBody : ((buf.drop (j + 1)).take (c.toNat - 1)).length = c.toNat - 1 := by
    rw [List.length_take, List.length_drop]
    omega
  have hNe : (buf.drop (j + 1)).take (c.toNat - 1) ≠ [] := by
    intro hNil
    rw [hNil, List.length_nil] at hBody
    omega
  have hContent : ((buf.drop (j + 1)).take (c.toNat - 1)).dropLast.length + 2 = c.toNat := by
    rw [List.length_dropLast, hBody]
    omega
  have hByteLt := c.toNat_lt
  refine ⟨⟨((buf.drop (j + 1)).take (c.toNat - 1)).dropLast,
    ((buf.drop (j + 1)).take (c.toNat - 1)).getLast hNe, by omega⟩, hContent, ?_⟩
  rw [drop_eq_cons_iff.mpr ⟨hByte, hSplit⟩, Segment.encode, hContent, List.dropLast_append_getLast,
    UInt8.ofNat_toNat]
  rfl

/-- The first pass accepts what is split into segments to its end, when the count is the
number of segments in 8 bits. -/
theorem scanSegments_iff {n : Nat} (j : Nat) (c : UInt8) (k : Nat) :
    scanSegments buf j c k = .ok (some n) ↔ j ≤ buf.length ∧ ∃ segs, buf.drop j = encodeAll segs ∧
      c = UInt8.ofNat segs.length ∧ n = k + contentLength segs := by
  induction hLeft : buf.length - j using Nat.strong_induction_on generalizing j c k with
  | _ left ih =>
      by_cases hEnd : buf.length ≤ j
      · rw [scanSegments_end hEnd]
        constructor
        · intro h
          split at h
          · cases h
          · next hOk =>
              rw [not_or, not_not, not_not] at hOk
              cases h
              exact ⟨hOk.2.le, [], by simp [hOk.2], hOk.1, rfl⟩
        · rintro ⟨hLe, segs, hDrop, hCount, rfl⟩
          have hAt : j = buf.length := Nat.le_antisymm hLe hEnd
          have hNone : segs = [] := by
            rw [hAt, List.drop_length] at hDrop
            cases segs with
            | nil => rfl
            | cons seg rest => simp [Segment.encode] at hDrop
          subst hNone
          rw [if_neg (by simp [hAt, hCount])]
          rfl
      · obtain ⟨size, hByte⟩ : ∃ size, buf[j]? = some size :=
          ⟨_, List.getElem?_eq_getElem (Nat.lt_of_not_le hEnd)⟩
        by_cases hShort : size < 2
        · rw [scanSegments_short hByte hShort]
          refine iff_of_false (by simp) ?_
          rintro ⟨-, segs, hDrop, -⟩
          cases segs with
          | nil =>
              rw [encodeAll_nil, List.drop_eq_nil_iff] at hDrop
              exact hEnd hDrop
          | cons seg rest =>
              obtain ⟨hSize, -⟩ := Segment.at hDrop
              rw [hByte, Option.some.injEq] at hSize
              rw [hSize, UInt8.lt_iff_toNat_lt, seg.size] at hShort
              exact absurd hShort (by simp)
        · have hLong : 2 ≤ size.toNat := UInt8.not_lt.mp hShort
          rw [scanSegments_next hByte hShort, ih _ (by omega) _ _ _ rfl]
          constructor
          · rintro ⟨hLe, rest, hDrop, hCount, rfl⟩
            obtain ⟨seg, hSize, hHere⟩ := exists_segment hByte hLong hLe
            refine ⟨by omega, seg :: rest, by rw [hHere, hDrop, encodeAll_cons], ?_, ?_⟩
            · rw [List.length_cons, UInt8.ofNat_add, ← hCount]
              exact (UInt8.sub_add_cancel c 1).symm
            · rw [contentLength_cons]
              omega
          · rintro ⟨-, segs, hDrop, hCount, rfl⟩
            cases segs with
            | nil =>
                rw [encodeAll_nil, List.drop_eq_nil_iff] at hDrop
                exact absurd hDrop hEnd
            | cons seg rest =>
                obtain ⟨hSize, hRest, hLe⟩ := Segment.at hDrop
                rw [hByte, Option.some.injEq] at hSize
                have hNat : size.toNat = seg.content.length + 2 := by rw [hSize, seg.size]
                rw [hNat]
                refine ⟨hLe, rest, hRest, ?_, ?_⟩
                · rw [hCount, List.length_cons, UInt8.ofNat_add]
                  exact UInt8.add_sub_cancel _ _
                · rw [contentLength_cons]
                  omega

theorem scanSegments_returns (buf : Text) (j : Nat) (c : UInt8) (k : Nat) :
    ∃ r, scanSegments buf j c k = .ok r := by
  induction hLeft : buf.length - j using Nat.strong_induction_on generalizing j c k with
  | _ left ih =>
      by_cases hEnd : buf.length ≤ j
      · exact ⟨_, scanSegments_end hEnd c k⟩
      · obtain ⟨size, hByte⟩ : ∃ size, buf[j]? = some size :=
          ⟨_, List.getElem?_eq_getElem (Nat.lt_of_not_le hEnd)⟩
        by_cases hShort : size < 2
        · exact ⟨_, scanSegments_short hByte hShort c k⟩
        · have hLong : 2 ≤ size.toNat := UInt8.not_lt.mp hShort
          rw [scanSegments_next hByte hShort]
          exact ih _ (by omega) _ _ _ rfl

/-- `t` stands behind the prefix `pre`, where there is room for it. -/
structure Filled (m : RvMsgIn) (pre t : Text) (room : Nat) : Prop where
  prefixLen : m.prefixLen = pre.length
  bytes : m.preBytes.take (pre.length + t.length) = pre ++ t
  room : pre.length + room ≤ m.preBytes.length

variable {m m' : RvMsgIn} {pre t : Text} {room : Nat}

theorem store_preBytes (c : UInt8) (hRoom : m.prefixLen + k < m.preBytes.length) :
    Returns (m.store k c) fun m' => m'.preBytes = m.preBytes.set (m.prefixLen + k) c ∧
      m'.prefixLen = m.prefixLen ∧ m'.isWild = m.isWild := by
  have hStart : m.prefixStart.length = m.prefixLen := by
    have hLe := m.prefixLen_le
    simp [RvMsgIn.prefixStart]
    omega
  cases hBlock : m.block with
  | none =>
      have hBytes : m.preBytes = m.prefixStart ++ m.subBuf.toList := by
        simp [RvMsgIn.preBytes, hBlock]
      have hLt : k < 64 := by
        rw [hBytes, List.length_append, hStart, Vector.length_toList] at hRoom
        omega
      have hStore : m.store k c = .ok { m with subBuf := m.subBuf.set k c } := by
        simp [RvMsgIn.store, hBlock, hLt]
      refine ⟨_, hStore, ?_, rfl, rfl⟩
      have hSet : (m.subBuf.set k c).toList = m.subBuf.toList.set k c := Vector.toList_set hLt
      rw [hBytes, List.set_append_right _ _ (by omega), hStart, Nat.add_sub_cancel_left, ← hSet]
      simp [RvMsgIn.preBytes, hBlock, RvMsgIn.prefixStart]
  | some block =>
      have hBytes : m.preBytes = block := by simp [RvMsgIn.preBytes, hBlock]
      rw [hBytes] at hRoom ⊢
      have hStore : m.store k c = .ok { m with block := some (block.set (m.prefixLen + k) c) } := by
        simp [RvMsgIn.store, hBlock, hRoom]
      exact ⟨_, hStore, rfl, rfl, rfl⟩

theorem Filled.store (h : Filled m pre t room) (c : UInt8) (hRoom : t.length < room) :
    Returns (m.store t.length c) fun m' =>
      Filled m' pre (t ++ [c]) room ∧ m'.isWild = m.isWild := by
  have hSpace := h.room
  have hLt : pre.length + t.length < m.preBytes.length := by omega
  refine (store_preBytes c (by rw [h.prefixLen]; exact hLt)).mono ?_
  rintro m' ⟨hBytes, hLen, hWild⟩
  rw [h.prefixLen] at hBytes
  refine ⟨⟨hLen.trans h.prefixLen, ?_, by rw [hBytes, List.length_set]; exact hSpace⟩, hWild⟩
  rw [hBytes, List.length_append, List.length_singleton, ← Nat.add_assoc, List.take_add_one,
    List.take_set_of_le le_rfl, h.bytes, List.getElem?_set_self hLt, List.append_assoc]
  rfl

/-- The text up to `sublen`, with and without the prefix. -/
theorem Filled.subject {more : Text} (h : Filled m pre (t ++ more) room)
    (hLen : m.sublen.toNat = t.length) : m.preSubject = pre ++ t ∧ m.sub = t := by
  have hTake : m.preBytes.take (pre.length + t.length) = pre ++ t := by
    have hShort := congrArg (List.take (pre.length + t.length)) h.bytes
    rw [List.take_take, List.length_append, ← List.append_assoc, Nat.min_eq_left (by omega)] at hShort
    rw [hShort, ← List.length_append, List.take_left]
  constructor
  · rw [RvMsgIn.preSubject, hLen, h.prefixLen, Nat.add_comm, hTake]
  · rw [RvMsgIn.sub, hLen, h.prefixLen, List.take_drop, hTake, List.drop_left]

theorem copySegment_filled {content behind : Text} (h : Filled m pre t room)
    (hRoom : t.length + content.length ≤ room) (hBytes : buf.drop i = content ++ c :: behind) :
    Returns (copySegment buf i (i + content.length + 1) t.length m) fun r =>
      r.2 = (t ++ content).length ∧ Filled r.1 pre (t ++ content) room ∧
        r.1.isWild = m.isWild := by
  induction content generalizing i t m with
  | nil =>
      rw [copySegment, if_neg (by simp)]
      exact .pure ⟨by simp, by simpa using h, rfl⟩
  | cons x content ih =>
      rw [List.length_cons] at hRoom
      obtain ⟨hHere, hRest⟩ := drop_eq_cons_iff.mp hBytes
      rw [copySegment, if_pos (by simp), byteAt_eq_ok.mpr hHere]
      refine Returns.bind (.ok rfl) ?_
      rintro _ rfl
      refine (h.store x (by omega)).bind ?_
      rintro m₁ ⟨h₁, hWild₁⟩
      have hEnd : i + (x :: content).length + 1 = i + 1 + content.length + 1 := by
        rw [List.length_cons]
        omega
      have hLen : t.length + 1 = (t ++ [x]).length := by simp
      rw [hEnd, hLen]
      refine (ih h₁ (by rw [← hLen]; omega) hRest).mono ?_
      rintro r ⟨hk, hFilled, hWild⟩
      rw [List.append_assoc] at hk hFilled
      exact ⟨hk, hFilled, hWild.trans hWild₁⟩

theorem markWild_filled (h : Filled m pre t room) {behind : Text} (segs : UInt8)
    (hBytes : buf.drop i = seg.content ++ behind) :
    Returns (markWild buf i (i + seg.content.length + 1) segs m) fun m' =>
      Filled m' pre t room ∧ m'.isWild = (m.isWild ||
        (seg.content == starSegment || (seg.content == tailSegment && segs == 1))) := by
  unfold markWild
  by_cases hOne : i + 2 = i + seg.content.length + 1
  · obtain ⟨x, hContent⟩ := List.length_eq_one_iff.mp (show seg.content.length = 1 by omega)
    rw [hContent] at hBytes
    obtain ⟨hHere, -⟩ := drop_eq_cons_iff.mp hBytes
    rw [if_pos hOne, byteAt_eq_ok.mpr hHere]
    refine .pure ?_
    by_cases hWild : x = 42 ∨ (x = 62 ∧ segs = 1)
    · have hSeen : ([x] == starSegment || ([x] == tailSegment && segs == 1)) = true := by
        simpa [starSegment, tailSegment] using hWild
      rw [if_pos hWild, hContent, hSeen, Bool.or_true]
      exact ⟨⟨h.prefixLen, h.bytes, h.room⟩, rfl⟩
    · have hSeen : ([x] == starSegment || ([x] == tailSegment && segs == 1)) = false := by
        rw [not_or, not_and] at hWild
        simpa [starSegment, tailSegment] using hWild
      rw [if_neg hWild, hContent, hSeen, Bool.or_false]
      exact ⟨h, rfl⟩
  · rw [if_neg hOne]
    refine .pure ⟨h, ?_⟩
    have hLength : ∀ c : UInt8, (seg.content == [c]) = false := by
      intro c
      rw [beq_eq_false_iff_ne]
      intro hEq
      rw [hEq, List.length_singleton] at hOne
      exact hOne rfl
    simp [starSegment, tailSegment, hLength]

theorem copySegments_filled {behind : Text} (h : Filled m pre t room)
    (hCount : c.toNat = rest.length + 1) (hRoom : t.length + (joined (seg :: rest)).length ≤ room)
    (hBytes : buf.drop j = encodeAll (seg :: rest) ++ behind) :
    Returns (copySegments buf j c t.length m) fun r =>
      r.2 = (t ++ joined (seg :: rest)).length ∧ Filled r.1 pre (t ++ joined (seg :: rest)) room ∧
        r.1.isWild = (m.isWild || wildSegments ((seg :: rest).map Segment.content)) := by
  induction rest generalizing seg c j t m with
  | nil =>
      have hSplit : buf.drop j = seg.encode ++ behind := by simpa using hBytes
      obtain ⟨hSize, -⟩ := Segment.at hSplit
      have hBody : buf.drop (j + 1) = seg.content ++ seg.terminator :: behind := by
        rw [(drop_eq_cons_iff.mp hSplit).2]
        simp
      have hEnd : j + (seg.content.length + 2) = j + 1 + seg.content.length + 1 := by omega
      have hLast : c = 1 := UInt8.toNat_inj.mp hCount
      rw [joined_singleton] at hRoom ⊢
      rw [copySegments, byteAt_eq_ok.mpr hSize]
      refine Returns.bind (.ok rfl) ?_
      rintro _ rfl
      rw [seg.size, hEnd]
      refine (markWild_filled h c hBody).bind ?_
      rintro m₁ ⟨h₁, hWild₁⟩
      refine (copySegment_filled h₁ hRoom hBody).bind ?_
      rintro ⟨m₂, k⟩ ⟨rfl, h₂, hWild₂⟩
      subst hLast
      exact .pure ⟨rfl, h₂, (hWild₂.trans hWild₁).trans (by simp [wildSegments])⟩
  | cons next rest ih =>
      have hSplit : buf.drop j = seg.encode ++ (encodeAll (next :: rest) ++ behind) := by
        rw [hBytes, encodeAll_cons, List.append_assoc]
      obtain ⟨hSize, hNext, -⟩ := Segment.at hSplit
      have hBody : buf.drop (j + 1) =
          seg.content ++ seg.terminator :: (encodeAll (next :: rest) ++ behind) := by
        rw [(drop_eq_cons_iff.mp hSplit).2]
        simp
      have hEnd : j + (seg.content.length + 2) = j + 1 + seg.content.length + 1 := by omega
      rw [hEnd] at hNext
      rw [joined_cons_cons, List.length_append, List.length_cons] at hRoom
      have hMore : (c - 1).toNat = rest.length + 1 := by
        rw [UInt8.toNat_sub_of_le _ _ (by rw [UInt8.le_iff_toNat_le]; simp [hCount]), hCount]
        simp
      have hOther : (c == 1) = false := by
        rw [beq_eq_false_iff_ne]
        rintro rfl
        simp at hCount
      rw [copySegments, byteAt_eq_ok.mpr hSize]
      refine Returns.bind (.ok rfl) ?_
      rintro _ rfl
      rw [seg.size, hEnd]
      refine (markWild_filled h c hBody).bind ?_
      rintro m₁ ⟨h₁, hWild₁⟩
      refine (copySegment_filled h₁ (by omega) hBody).bind ?_
      rintro ⟨m₂, k⟩ ⟨rfl, h₂, hWild₂⟩
      dsimp only
      rw [dif_pos (UInt8.lt_iff_toNat_lt.mpr (by rw [hMore]; exact Nat.succ_pos _))]
      refine (h₂.store 46 (by rw [List.length_append]; omega)).bind ?_
      rintro m₃ ⟨h₃, hWild₃⟩
      have hLen : (t ++ seg.content).length + 1 = (t ++ seg.content ++ [46]).length := by
        simp only [List.length_append, List.length_singleton]
      have hText : t ++ seg.content ++ [46] ++ joined (next :: rest) =
          t ++ joined (seg :: next :: rest) := by
        rw [joined_cons_cons]
        simp
      rw [hLen]
      refine (ih h₃ hMore (by simp only [List.length_append, List.length_singleton]; omega)
        hNext).mono ?_
      rw [hText]
      rintro r ⟨hk, hFilled, hWild⟩
      refine ⟨hk, hFilled, ?_⟩
      rw [hWild, hWild₃, hWild₂, hWild₁, hOther, Bool.and_false, Bool.or_false]
      simp [wildSegments, Bool.or_assoc]

theorem placeSub_filled (alloc : (n : Nat) → Vector UInt8 n) (m : RvMsgIn) (k : Nat) :
    Filled (m.placeSub alloc k) m.prefixStart [] (k + 1) ∧
      (m.placeSub alloc k).isWild = m.isWild := by
  have hStart : m.prefixStart.length = m.prefixLen := by
    have hLe := m.prefixLen_le
    simp [RvMsgIn.prefixStart]
    omega
  unfold RvMsgIn.placeSub
  split
  · refine ⟨⟨hStart.symm, ?_, ?_⟩, rfl⟩
    · simp [RvMsgIn.preBytes]
    · simp only [RvMsgIn.preBytes, List.length_append, List.length_drop, Vector.length_toList]
      omega
  · next hSmall =>
      refine ⟨⟨hStart.symm, ?_, ?_⟩, rfl⟩
      · simp [RvMsgIn.preBytes, RvMsgIn.prefixStart]
      · simp only [RvMsgIn.preBytes, List.length_append, Vector.length_toList]
        have hSame : ({ m with block := none } : RvMsgIn).prefixStart = m.prefixStart := rfl
        rw [hSame]
        omega

theorem badSubject_returns (m : RvMsgIn) :
    Returns m.badSubject fun r => r.2 = false ∧ r.1.sublen = 0 := by
  have hStore : Returns (({ m with block := none } : RvMsgIn).store 0 0) fun _ => True :=
    .ok trivial
  exact hStore.bind fun _ _ => .pure ⟨rfl, rfl⟩

/-- What the two passes accept: the count is the number of segments in 8 bits. -/
structure Counted (buf : Text) (n : UInt8) (segs : List Segment) : Prop where
  nonzero : n ≠ 0
  bytes : buf = n :: encodeAll segs
  count : n = UInt8.ofNat segs.length
  fits : n.toNat - 1 + contentLength segs ≤ 65535

theorem Counted.le_length {n : UInt8} (h : Counted buf n segs) : n.toNat ≤ segs.length := by
  rw [h.count, UInt8.toNat_ofNat']
  exact Nat.mod_le _ _

theorem Counted.scan {n : UInt8} (h : Counted buf n segs) :
    scanSegments buf 1 n (n.toNat - 1) = .ok (some (n.toNat - 1 + contentLength segs)) :=
  (scanSegments_iff 1 n _).mpr ⟨by simp [h.bytes], segs, by simp [h.bytes], h.count, rfl⟩

/-- The segments that the second pass takes, the first of as many as the count says. -/
theorem Counted.split {n : UInt8} (h : Counted buf n segs) : ∃ seg rest,
    segs.take n.toNat = seg :: rest ∧ n.toNat = rest.length + 1 ∧
      buf.drop 1 = encodeAll (seg :: rest) ++ encodeAll (segs.drop n.toNat) ∧
      (joined (seg :: rest)).length ≤ n.toNat - 1 + contentLength segs := by
  have hTake : (segs.take n.toNat).length = n.toNat := by
    rw [List.length_take]
    exact Nat.min_eq_left h.le_length
  have hPos : n.toNat ≠ 0 := fun hZero => h.nonzero (UInt8.toNat_inj.mp hZero)
  obtain ⟨seg, rest, hFirst⟩ : ∃ seg rest, segs.take n.toNat = seg :: rest := by
    cases hFirst : segs.take n.toNat with
    | nil =>
        rw [hFirst, List.length_nil] at hTake
        exact absurd hTake.symm hPos
    | cons seg rest => exact ⟨seg, rest, rfl⟩
  rw [hFirst, List.length_cons] at hTake
  have hBoth : segs = (seg :: rest) ++ segs.drop n.toNat := by
    rw [← hFirst, List.take_append_drop]
  have hSum : contentLength segs = contentLength (seg :: rest) + contentLength (segs.drop n.toNat) := by
    unfold contentLength
    rw [← List.sum_append, ← List.map_append, ← hBoth]
  refine ⟨seg, rest, hFirst, hTake.symm, ?_, ?_⟩
  · have hBytes : encodeAll segs = encodeAll (seg :: rest) ++ encodeAll (segs.drop n.toNat) := by
      unfold encodeAll
      rw [← List.flatMap_append, ← hBoth]
    rw [h.bytes, ← hBytes]
    rfl
  · rw [joined_length]
    omega

theorem subjectToString_counted (alloc : (n : Nat) → Vector UInt8 n) (m : RvMsgIn) {n : UInt8}
    (h : Counted buf n segs) :
    Returns (m.subjectToString alloc buf) fun r => r.2 = true ∧
      r.1.preSubject = m.prefixStart ++ joined (segs.take n.toNat) ∧
      r.1.sub = joined (segs.take n.toNat) ∧
      r.1.sublen.toNat = (joined (segs.take n.toNat)).length ∧
      r.1.isWild = wildSegments ((segs.take n.toNat).map Segment.content) := by
  obtain ⟨seg, rest, hFirst, hCount, hBytes, hLength⟩ := h.split
  rw [hFirst]
  have hFits := h.fits
  obtain ⟨hPlaced, hWild₀⟩ := placeSub_filled alloc { m with isWild := false }
    (n.toNat - 1 + contentLength segs)
  have hByte : byteAt buf 0 = .ok n := byteAt_eq_ok.mpr (by simp [h.bytes])
  unfold RvMsgIn.subjectToString
  dsimp only
  rw [if_neg (by simp [h.bytes]), hByte]
  refine Returns.bind (.ok rfl) ?_
  rintro _ rfl
  rw [if_neg h.nonzero, h.scan]
  refine Returns.bind (.ok rfl) ?_
  rintro _ rfl
  dsimp only
  rw [if_neg (by omega)]
  refine (copySegments_filled hPlaced hCount (by simp; omega) hBytes).bind ?_
  rintro ⟨m₁, k⟩ ⟨rfl, h₁, hWild₁⟩
  rw [List.nil_append] at h₁ ⊢
  refine (h₁.store 0 (by omega)).bind ?_
  rintro m₂ ⟨h₂, hWild₂⟩
  have hSub : (BitVec.ofNat 16 (joined (seg :: rest)).length).toNat = (joined (seg :: rest)).length := by
    rw [BitVec.toNat_ofNat, Nat.mod_eq_of_lt (by omega)]
  have hEnd : Filled { m₂ with sublen := BitVec.ofNat 16 (joined (seg :: rest)).length }
      m.prefixStart (joined (seg :: rest) ++ [0]) (n.toNat - 1 + contentLength segs + 1) :=
    ⟨h₂.prefixLen, h₂.bytes, h₂.room⟩
  obtain ⟨hPre, hText⟩ := hEnd.subject hSub
  refine .pure ⟨rfl, hPre, hText, hSub, (hWild₂.trans hWild₁).trans ?_⟩
  rw [hWild₀, Bool.false_or]

theorem subjectToString_rejects (alloc : (n : Nat) → Vector UInt8 n) (m : RvMsgIn)
    (h : ¬ ∃ n segs, Counted buf n segs) :
    Returns (m.subjectToString alloc buf) fun r => r.2 = false ∧ r.1.sublen = 0 := by
  unfold RvMsgIn.subjectToString
  dsimp only
  by_cases hEmpty : buf.length = 0
  · rw [if_pos hEmpty]
    exact badSubject_returns _
  · obtain ⟨n, t, rfl⟩ := List.exists_cons_of_length_pos (Nat.pos_of_ne_zero hEmpty)
    have hByte : byteAt (n :: t) 0 = .ok n := rfl
    rw [if_neg hEmpty, hByte]
    refine Returns.bind (.ok rfl) ?_
    rintro _ rfl
    by_cases hZero : n = 0
    · rw [if_pos hZero]
      exact badSubject_returns _
    · obtain ⟨r, hScan⟩ := scanSegments_returns (n :: t) 1 n (n.toNat - 1)
      rw [if_neg hZero, hScan]
      refine Returns.bind (.ok rfl) ?_
      rintro _ rfl
      cases r with
      | none => exact badSubject_returns _
      | some k =>
          obtain ⟨-, segs, hBytes, hCount, rfl⟩ := (scanSegments_iff 1 n _).mp hScan
          dsimp only
          rw [if_pos]
          · exact badSubject_returns _
          · by_contra hFits
            exact h ⟨n, segs, hZero, congrArg _ hBytes, hCount, Nat.le_of_not_lt hFits⟩

/-- A count that is not zero, exactly that many segments and nothing else, for a text
whose length fits in 16 bits. -/
structure WellFormed (buf : Text) (segs : List Segment) : Prop where
  bytes : ∃ n : UInt8, n ≠ 0 ∧ segs.length = n.toNat ∧ buf = n :: encodeAll segs
  fits : (joined segs).length ≤ 65535

/-- What decoding a subject is for. -/
structure Decodes (alloc : (n : Nat) → Vector UInt8 n) (m : RvMsgIn) (buf : Text) : Prop where
  accepted : Returns (m.subjectToString alloc buf) fun r =>
    (r.2 = true ↔ ∃ segs, WellFormed buf segs)
  subject : ∀ segs, WellFormed buf segs → Returns (m.subjectToString alloc buf) fun r =>
    r.1.sub = joined segs ∧ r.1.sublen.toNat = (joined segs).length ∧
      r.1.preSubject = m.prefixStart ++ joined segs ∧
      ((∀ seg ∈ segs, 46 ∉ seg.content) → (r.1.isWild = true ↔ isRvWildcard (joined segs) = true))

/-- More segments than the count says, by a multiple of 256. -/
def Overcounted (buf : Text) : Prop :=
  ∃ n segs, Counted buf n segs ∧ segs.length ≠ n.toNat

theorem WellFormed.counted (h : WellFormed buf segs) :
    ∃ n, Counted buf n segs ∧ segs.length = n.toNat := by
  obtain ⟨n, hNonzero, hLength, hBytes⟩ := h.bytes
  have hFits := h.fits
  refine ⟨n, ⟨hNonzero, hBytes, by rw [hLength, UInt8.ofNat_toNat], ?_⟩, hLength⟩
  cases segs with
  | nil => exact absurd (UInt8.toNat_inj.mp hLength.symm) hNonzero
  | cons seg rest =>
      rw [joined_length] at hFits
      rw [List.length_cons] at hLength
      omega

theorem Counted.wellFormed {n : UInt8} (h : Counted buf n segs) (hLength : segs.length = n.toNat) :
    WellFormed buf segs := by
  refine ⟨⟨n, h.nonzero, hLength, h.bytes⟩, ?_⟩
  obtain ⟨seg, rest, hFirst, -, -, hJoined⟩ := h.split
  rw [← hLength, List.take_length] at hFirst
  have hFits := h.fits
  subst hFirst
  exact hJoined.trans hFits

/-- The buffer determines how many segments it holds. -/
theorem Counted.length_unique {segs' : List Segment} {n n' : UInt8} (h : Counted buf n segs)
    (h' : Counted buf n' segs') : n = n' ∧ segs.length = segs'.length := by
  obtain ⟨rfl, hSegs⟩ := List.cons.inj (h.bytes.symm.trans h'.bytes)
  have hScan := h.scan.symm.trans h'.scan
  rw [Except.ok.injEq, Option.some.injEq] at hScan
  have hSize : ∀ segs : List Segment, (encodeAll segs).length = contentLength segs + 2 * segs.length := by
    intro segs
    induction segs with
    | nil => rfl
    | cons seg rest ih =>
        rw [encodeAll_cons, List.length_append, ih, seg.encode_length, contentLength_cons,
          List.length_cons]
        omega
  have hBoth := congrArg List.length hSegs
  rw [hSize, hSize] at hBoth
  exact ⟨rfl, by omega⟩

theorem segments_joined (hSegs : segs ≠ []) (hPlain : ∀ seg ∈ segs, 46 ∉ seg.content) :
    segments (joined segs) = segs.map Segment.content := by
  refine List.splitOn_intercalate 46 ?_ (by simpa using hSegs)
  rintro _ hContent
  obtain ⟨seg, hSeg, rfl⟩ := List.mem_map.mp hContent
  exact hPlain seg hSeg

theorem subject_to_string_decodes (alloc : (n : Nat) → Vector UInt8 n) (m : RvMsgIn) (buf : Text) :
    Decodes alloc m buf ↔ ¬ Overcounted buf := by
  constructor
  · rintro hDecodes ⟨n, segs, hCounted, hLength⟩
    obtain ⟨r, hRun, hAccepted, -⟩ := subjectToString_counted alloc m hCounted
    obtain ⟨r', hRun', hIff⟩ := hDecodes.accepted
    cases hRun.symm.trans hRun'
    obtain ⟨segs', hWell⟩ := hIff.mp hAccepted
    obtain ⟨n', hCounted', hLength'⟩ := hWell.counted
    obtain ⟨rfl, hSame⟩ := hCounted.length_unique hCounted'
    exact hLength (hSame.trans hLength')
  · intro hNot
    have hExact : ∀ n segs, Counted buf n segs → segs.length = n.toNat := fun n segs h =>
      by_contra fun hLength => hNot ⟨n, segs, h, hLength⟩
    constructor
    · by_cases hAny : ∃ n segs, Counted buf n segs
      · obtain ⟨n, segs, h⟩ := hAny
        refine (subjectToString_counted alloc m h).mono ?_
        rintro r ⟨hAccepted, -⟩
        exact iff_of_true hAccepted ⟨segs, h.wellFormed (hExact n segs h)⟩
      · refine (subjectToString_rejects alloc m hAny).mono ?_
        rintro r ⟨hRejected, -⟩
        refine iff_of_false (by simp [hRejected]) ?_
        rintro ⟨segs, hWell⟩
        obtain ⟨n, h, -⟩ := hWell.counted
        exact hAny ⟨n, segs, h⟩
    · intro segs hWell
      obtain ⟨n, h, hLength⟩ := hWell.counted
      have hAll : segs.take n.toNat = segs := by rw [← hLength, List.take_length]
      have hRun := subjectToString_counted alloc m h
      rw [hAll] at hRun
      refine hRun.mono ?_
      rintro r ⟨-, hPre, hSub, hLen, hWild⟩
      refine ⟨hSub, hLen, hPre, fun hPlain => ?_⟩
      have hSegs : segs ≠ [] := by
        rintro rfl
        exact h.nonzero (UInt8.toNat_inj.mp hLength.symm)
      rw [hWild, isRvWildcard_segments, segments_joined hSegs hPlain]

def sampleMsgIn : RvMsgIn where
  prefixBuf := .replicate 40 0
  subBuf := .replicate 64 0
  prefixLen := 0
  prefixLen_le := Nat.zero_le 40

/-- 257 empty segments behind the count 1. -/
def sampleSegments : List Segment := List.replicate 257 ⟨[], 0, Nat.zero_le 253⟩

theorem segments_beyond_count : ∃ m,
    sampleMsgIn.subjectToString (fun n => .replicate n 0) (1 :: encodeAll sampleSegments) =
      .ok (m, true) ∧ ¬ ∃ segs, WellFormed (1 :: encodeAll sampleSegments) segs := by
  have hCounted : Counted (1 :: encodeAll sampleSegments) 1 sampleSegments := by
    refine ⟨by decide, rfl, by rw [sampleSegments, List.length_replicate]; rfl, ?_⟩
    rw [contentLength, sampleSegments, List.map_replicate, List.sum_replicate]
    decide
  obtain ⟨⟨m, accepted⟩, hRun, hAccepted, -⟩ :=
    subjectToString_counted (fun n => .replicate n 0) sampleMsgIn hCounted
  obtain rfl : accepted = true := hAccepted
  refine ⟨m, hRun, ?_⟩
  rintro ⟨segs, hWell⟩
  obtain ⟨n, hCounted', hLength⟩ := hWell.counted
  obtain ⟨rfl, hSame⟩ := hCounted.length_unique hCounted'
  rw [hLength, sampleSegments, List.length_replicate] at hSame
  exact absurd hSame (by decide)

end Sassrv.Daemon
