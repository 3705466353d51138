import Sassrv.Daemon.SubjectDecoding
import Sassrv.Lib.Spans
import Mathlib.Data.List.DropRight

/-! `RvMsgIn::unpack`: the envelope of a message, which is read field by field. Fields
that are not part of the envelope and stand in front of the data are moved behind it,
so that they can be forwarded with it. -/
namespace Sassrv.Daemon
open SubMgr Partial Spans

inductive MDType where
  | mdString
  | other
  deriving DecidableEq, Repr

/-- What the iterator shows of a field: `get_name`, `get_reference`, and where it is. The
pointers are positions in the message. -/
structure RvField where
  fname : Text
  fieldStart : Nat
  fieldEnd : Nat
  fptr : Nat
  fsize : Nat
  ftype : MDType
  deriving DecidableEq, Repr

instance : Spanned RvField := ⟨RvField.fieldStart, RvField.fieldEnd⟩

/-- The codes that `unpack` returns. -/
inductive RvStatus where
  | ok
  | errRvMsg
  | errRvRef
  | errRvSub
  | errRvMtype
  deriving DecidableEq, Repr

structure MDReference where
  fptr : Nat
  fsize : Nat
  deriving DecidableEq, Repr

/-- The parts of `RvMsgIn` that `unpack` writes. -/
structure RvEnvelope extends RvMsgIn where
  data : MDReference := ⟨0, 0⟩
  reply : Nat := 0
  replylen : BitVec 16 := 0
  suffixLen : Nat := 0
  mtype : UInt8 := 0

/-- The locals of `unpack`. The lengths are those of parts of the message. -/
structure Scan where
  msgIn : RvEnvelope
  hasSub : Bool := false
  hasMtype : Bool := false
  hasReturn : Bool := false
  hasData : Bool := false
  sufLen : Nat := 0
  preOff : Nat := 0
  preLen : Nat := 0
  dataOff : Nat := 0
  dataEnd : Nat := 0

def nameSub : Text := text "sub" ++ [0]

def nameData : Text := text "data" ++ [0]

def nameMtype : Text := text "mtype" ++ [0]

def nameReturn : Text := text "return" ++ [0]

namespace RvField

/-- The bytes that the reference of a field points to. -/
def value (f : RvField) (b : Text) : Text := slice b f.fptr (f.fptr + f.fsize)

def isSub (f : RvField) : Bool := f.fname = nameSub

def isData (f : RvField) : Bool := f.fname = nameData

/-- A field that sets `mtype`. -/
def setsMtype (f : RvField) : Bool := f.fname = nameMtype && f.ftype = .mdString && f.fsize = 2

def isReturn (f : RvField) : Bool := f.fname = nameReturn

def isExtra (f : RvField) : Bool :=
  f.fname ≠ nameSub && f.fname ≠ nameData && f.fname ≠ nameMtype && f.fname ≠ nameReturn

end RvField

/-- The letters of `valid`. -/
def validMtype (c : UInt8) : Bool := (text "ACDILRS").contains c

/-- `replylen`, which has 16 bits. -/
def shortReply (fsize : Nat) : BitVec 16 :=
  if 0 < BitVec.ofNat 16 fsize then BitVec.ofNat 16 fsize - 1 else BitVec.ofNat 16 fsize

namespace Scan

/-- A field that is not part of the envelope. -/
def extra (st : Scan) (f : RvField) : Scan :=
  if st.hasData then { st with sufLen := st.sufLen + (f.fieldEnd - f.fieldStart) }
  else
    { st with
      preOff := if st.preOff = 0 then f.fieldStart else st.preOff
      preLen := st.preLen + (f.fieldEnd - f.fieldStart) }

/-- One turn of the loop, with the code it returns with, if it does. -/
def field (alloc : (n : Nat) → Vector UInt8 n) (b : Text) (st : Scan) (f : RvField) :
    Result (Scan × RvStatus) :=
  if f.fname = nameSub then do
    let (m, found) ← st.msgIn.toRvMsgIn.subjectToString alloc (f.value b)
    let st := { st with msgIn := { st.msgIn with toRvMsgIn := m } }
    if found then pure ({ st with hasSub := true }, .ok) else pure (st, .errRvSub)
  else if f.fname = nameData then
    pure ({ st with
      msgIn := { st.msgIn with data := ⟨f.fptr, f.fsize⟩ }
      dataOff := f.fieldStart
      dataEnd := f.fieldEnd
      hasData := true }, .ok)
  else if f.fname = nameMtype then
    if f.ftype = .mdString ∧ f.fsize = 2 then
      let c := (f.value b).headD 0
      pure ({ st with
        msgIn := { st.msgIn with mtype := c }
        hasMtype := st.hasMtype || validMtype c }, .ok)
    else pure (st, .ok)
  else if f.fname = nameReturn then
    pure ({ st with
      msgIn := { st.msgIn with reply := f.fptr, replylen := shortReply f.fsize }
      hasReturn := true }, .ok)
  else pure (st.extra f, .ok)

/-- The loop over the fields. There is none where the iterator fails. -/
def fields (alloc : (n : Nat) → Vector UInt8 n) (b : Text) :
    Scan → List (Option RvField) → Result (Scan × RvStatus)
  | st, [] => pure (st, .ok)
  | st, none :: _ => pure (st, .errRvRef)
  | st, some f :: rest => do
      let (st, status) ← st.field alloc b f
      if status = .ok then fields alloc b st rest else pure (st, status)

/-- The subject is empty if there is none. -/
def keepSub (st : Scan) : Result RvMsgIn :=
  if st.hasSub then pure st.msgIn.toRvMsgIn
  else do
    let m ← { st.msgIn.toRvMsgIn with block := none }.store 0 0
    pure { m with sublen := 0 }

/-- The fields that were not found are cleared. -/
def clear (st : Scan) : Result RvEnvelope := do
  let m ← st.keepSub
  pure {
    toRvMsgIn := m
    data := if st.hasData then st.msgIn.data else ⟨0, 0⟩
    reply := if st.hasReturn then st.msgIn.reply else 0
    replylen := if st.hasReturn then st.msgIn.replylen else 0
    suffixLen := 0
    mtype := if st.hasMtype then st.msgIn.mtype else 0 }

end Scan

/-- What `unpack` leaves: the code, the envelope and the message, which it writes to. -/
structure Unpacked where
  status : RvStatus
  msgIn : RvEnvelope
  msgbuf : Text

/-- The fields in front of the data are moved behind it if there is nothing in between. -/
def moveExtras (st : Scan) (e : RvEnvelope) (b : Text) : RvEnvelope × Text × Nat :=
  if st.preOff + st.preLen = st.dataOff then
    let dataLen := st.dataEnd - st.dataOff
    let tmp := slice b st.preOff (st.preOff + st.preLen)
    let b := write b st.preOff (slice b st.dataOff (st.dataOff + dataLen))
    let b := write b (st.preOff + dataLen) tmp
    ({ e with data := ⟨e.data.fptr - st.preLen, e.data.fsize⟩ }, b, st.sufLen + st.preLen)
  else (e, b, st.sufLen)

/-- The end of `unpack`, behind the loop. -/
def suffixExtras (st : Scan) (e : RvEnvelope) (b : Text) : RvEnvelope × Text :=
  if st.hasData ∧ (st.sufLen ≠ 0 ∨ st.preLen ≠ 0) then
    let (e, b, sufLen) := moveExtras st e b
    if sufLen ≠ 0 ∧ e.data.fptr + e.data.fsize + sufLen = b.length then
      ({ e with suffixLen := sufLen }, b)
    else (e, b)
  else (e, b)

/-- `iterate` stands for `RvMsg::unpack_rv` and the iterator. -/
def unpack (iterate : Text → Option (List (Option RvField))) (alloc : (n : Nat) → Vector UInt8 n)
    (m : RvEnvelope) (b : Text) : Result Unpacked :=
  match iterate b with
  | none => do
      let e ← Scan.clear { msgIn := m }
      pure ⟨.errRvMsg, e, b⟩
  | some entries => do
      let (st, status) ← Scan.fields alloc b { msgIn := m } entries
      if status = .ok then do
        let e ← st.clear
        let (e, b) := suffixExtras st e b
        pure ⟨if st.hasMtype then .ok else .errRvMtype, e, b⟩
      else pure ⟨status, st.msgIn, b⟩

namespace Unpacked

def dataBytes (r : Unpacked) : Text :=
  slice r.msgbuf r.msgIn.data.fptr (r.msgIn.data.fptr + r.msgIn.data.fsize)

def replyBytes (r : Unpacked) : Text :=
  slice r.msgbuf r.msgIn.reply (r.msgIn.reply + r.msgIn.replylen.toNat)

/-- Behind the data. -/
def suffixBytes (r : Unpacked) : Text :=
  slice r.msgbuf (r.msgIn.data.fptr + r.msgIn.data.fsize)
    (r.msgIn.data.fptr + r.msgIn.data.fsize + r.msgIn.suffixLen)

/-- `fwd_pub`: what is forwarded behind a message that ends at `msgEnd`, which is the data
or a message in it. -/
def fwdSuffix (r : Unpacked) (msgEnd : Nat) : Text :=
  if r.msgIn.suffixLen ≠ 0 ∧ msgEnd + r.msgIn.suffixLen = r.msgbuf.length then
    slice r.msgbuf msgEnd (msgEnd + r.msgIn.suffixLen)
  else []

end Unpacked

variable {alloc : (n : Nat) → Vector UInt8 n} {b : Text} {fs : List RvField} {f d : RvField}
  {st st' : Scan} {p : RvField → Bool} {a z : Nat}

def extras (fs : List RvField) : List RvField := fs.filter RvField.isExtra

def inFront (fs : List RvField) : List RvField := extras (fs.takeWhile fun f => !f.isData)

def behindFirst (fs : List RvField) : List RvField := extras (fs.dropWhile fun f => !f.isData)

/-- All that stands behind the last data. -/
def behindLast (fs : List RvField) : List RvField := fs.rtakeWhile fun f => !f.isData

/-- A field counts as it stands last. -/
def lastField (p : RvField → Bool) (fs : List RvField) : Option RvField := (fs.filter p).getLast?

theorem extras_eq (fs : List RvField) : extras fs = inFront fs ++ behindFirst fs := by
  rw [inFront, behindFirst, extras, extras, extras, ← List.filter_append,
    List.takeWhile_append_dropWhile]

theorem lastField_snoc : lastField p (fs ++ [f]) = if p f then some f else lastField p fs := by
  rw [lastField, List.filter_append]
  by_cases h : p f <;> simp [h, lastField]

theorem lastField_append {more : List RvField} :
    lastField p (fs ++ more) = (lastField p more).or (lastField p fs) := by
  rw [lastField, List.filter_append, List.getLast?_append]
  rfl

theorem lastField_eq_none : lastField p fs = none ↔ fs.any p = false := by
  simp [lastField]

theorem RvField.not_extra_of_data (h : f.isData) : f.isExtra = false := by
  have hName : f.fname = nameData := by simpa [isData] using h
  simp [isExtra, hName]

theorem inFront_snoc : inFront (fs ++ [f]) =
    if fs.any RvField.isData then inFront fs else inFront fs ++ extras [f] := by
  rw [inFront, List.takeWhile_append]
  by_cases hAny : fs.any RvField.isData
  · have hShort : (fs.takeWhile fun f => !f.isData).length ≠ fs.length := by
      intro hLength
      have hAll := List.takeWhile_prefix (fun f => !f.isData) (l := fs) |>.eq_of_length hLength
      rw [List.takeWhile_eq_self_iff] at hAll
      obtain ⟨x, hMem, hx⟩ := List.any_eq_true.mp hAny
      simpa [hx] using hAll x hMem
    rw [if_neg hShort, if_pos hAny, inFront]
  · have hAll : fs.takeWhile (fun f => !f.isData) = fs := by
      rw [List.takeWhile_eq_self_iff]
      simpa using hAny
    rw [hAll, if_pos rfl, if_neg hAny, inFront, hAll, extras, List.filter_append]
    by_cases hData : f.isData
    · simp [hData, RvField.not_extra_of_data hData, extras]
    · simp [hData, extras]

theorem behindFirst_snoc : behindFirst (fs ++ [f]) =
    if fs.any RvField.isData then behindFirst fs ++ extras [f] else [] := by
  rw [behindFirst, List.dropWhile_append]
  by_cases hAny : fs.any RvField.isData
  · have hSome : (fs.dropWhile fun f => !f.isData).isEmpty = false := by
      rw [List.isEmpty_eq_false_iff, ne_eq, List.dropWhile_eq_nil_iff]
      simpa using hAny
    rw [hSome, if_neg Bool.false_ne_true, if_pos hAny, extras, List.filter_append]
    rfl
  · have hNone : (fs.dropWhile fun f => !f.isData).isEmpty = true := by
      rw [List.isEmpty_iff, List.dropWhile_eq_nil_iff]
      simpa using hAny
    rw [hNone, if_pos rfl, if_neg hAny]
    by_cases hData : f.isData
    · simp [hData, RvField.not_extra_of_data hData, extras]
    · simp [hData, extras]

theorem behindFirst_of_none (h : fs.any RvField.isData = false) : behindFirst fs = [] := by
  have hNone : fs.dropWhile (fun f => !f.isData) = [] := by
    rw [List.dropWhile_eq_nil_iff]
    simpa using h
  rw [behindFirst, hNone]
  rfl

/-- The text is the one that the bytes of a `sub` field spell out. -/
def SaysSubject (bytes t : Text) : Prop :=
  ∃ n segs, Counted bytes n segs ∧ t = joined (segs.take n.toNat)

theorem subjectToString_says {m m' : RvMsgIn} {bytes : Text}
    (h : m.subjectToString alloc bytes = .ok (m', true)) : SaysSubject bytes m'.sub := by
  by_cases hAny : ∃ n segs, Counted bytes n segs
  · obtain ⟨n, segs, hCounted⟩ := hAny
    obtain ⟨r, hRun, -, -, hSub, -⟩ := subjectToString_counted alloc m hCounted
    cases h.symm.trans hRun
    exact ⟨n, segs, hCounted, hSub⟩
  · obtain ⟨r, hRun, hRejected, -⟩ := subjectToString_rejects alloc m hAny
    cases h.symm.trans hRun
    exact absurd hRejected (by simp)

/-- What the loop has found in the fields that it has been over. -/
structure Scanned (b : Text) (fs : List RvField) (st : Scan) : Prop where
  hasSub : st.hasSub = fs.any RvField.isSub
  subject {f : RvField} : lastField RvField.isSub fs = some f →
    SaysSubject (f.value b) st.msgIn.sub
  mtype : st.hasMtype = true →
    ∃ f, lastField RvField.setsMtype fs = some f ∧ st.msgIn.mtype = (f.value b).headD 0
  hasReturn : st.hasReturn = fs.any RvField.isReturn
  reply {f : RvField} : lastField RvField.isReturn fs = some f →
    st.msgIn.reply = f.fptr ∧ st.msgIn.replylen = shortReply f.fsize
  hasData : st.hasData = fs.any RvField.isData
  data {f : RvField} : lastField RvField.isData fs = some f →
    st.msgIn.data = ⟨f.fptr, f.fsize⟩ ∧ st.dataOff = f.fieldStart ∧ st.dataEnd = f.fieldEnd
  sufLen : st.sufLen = size (behindFirst fs)
  preLen : st.preLen = size (inFront fs)
  preOff : (∀ f ∈ fs, 0 < f.fieldStart) →
    st.preOff = ((inFront fs).head?.map RvField.fieldStart).getD 0

theorem Scanned.init (b : Text) (m : RvEnvelope) : Scanned b [] { msgIn := m } where
  hasSub := rfl
  subject h := by cases h
  mtype h := by cases h
  hasReturn := rfl
  reply h := by cases h
  hasData := rfl
  data h := by cases h
  sufLen := rfl
  preLen := rfl
  preOff _ := rfl

/-- A field of the envelope leaves the lengths alone. -/
theorem lengths_of_envelope (fs : List RvField) (h : f.isExtra = false) :
    size (behindFirst (fs ++ [f])) = size (behindFirst fs) ∧ inFront (fs ++ [f]) = inFront fs := by
  have hNone : extras [f] = [] := by simp [extras, h]
  rw [behindFirst_snoc, inFront_snoc, hNone, List.append_nil, List.append_nil, ite_self]
  refine ⟨?_, rfl⟩
  by_cases hAny : fs.any RvField.isData = true
  · rw [if_pos hAny]
  · rw [if_neg hAny, behindFirst_of_none (Bool.eq_false_iff.mpr hAny)]

theorem Scanned.extra (h : Scanned b fs st) (hExtra : f.isExtra) :
    Scanned b (fs ++ [f]) (st.extra f) := by
  obtain ⟨⟨⟨hSub, hData⟩, hMtype⟩, hReturn⟩ : ((f.fname ≠ nameSub ∧ f.fname ≠ nameData) ∧
      f.fname ≠ nameMtype) ∧ f.fname ≠ nameReturn := by simpa [RvField.isExtra] using hExtra
  have hNone : f.isSub = false ∧ f.isData = false ∧ f.setsMtype = false ∧ f.isReturn = false := by
    simp [RvField.isSub, RvField.isData, RvField.setsMtype, RvField.isReturn, hSub, hData, hMtype,
      hReturn]
  obtain ⟨hSub, hData, hMtype, hReturn⟩ := hNone
  have hOnly : extras [f] = [f] := by simp [extras, hExtra]
  have hStays : (st.extra f).msgIn = st.msgIn ∧ (st.extra f).hasSub = st.hasSub ∧
      (st.extra f).hasMtype = st.hasMtype ∧ (st.extra f).hasReturn = st.hasReturn ∧
      (st.extra f).hasData = st.hasData ∧ (st.extra f).dataOff = st.dataOff ∧
      (st.extra f).dataEnd = st.dataEnd := by
    unfold Scan.extra
    split <;> exact ⟨rfl, rfl, rfl, rfl, rfl, rfl, rfl⟩
  obtain ⟨hMsg, hHasSub, hHasMtype, hHasReturn, hHasData, hOff, hEnd⟩ := hStays
  refine ⟨?_, ?_, ?_, ?_, ?_, ?_, ?_, ?_, ?_, ?_⟩
  · simp [hHasSub, h.hasSub, hSub]
  · rw [lastField_snoc, hSub, hMsg]
    exact h.subject
  · rw [lastField_snoc, hMtype, hMsg, hHasMtype]
    exact h.mtype
  · simp [hHasReturn, h.hasReturn, hReturn]
  · rw [lastField_snoc, hReturn, hMsg]
    exact h.reply
  · simp [hHasData, h.hasData, hData]
  · rw [lastField_snoc, hData, hMsg, hOff, hEnd]
    exact h.data
  all_goals
    rw [Scan.extra, h.hasData]
    first | rw [behindFirst_snoc] | rw [inFront_snoc]
    rw [hOnly]
  · split
    · rw [size_append, h.sufLen]
      rfl
    · rename_i hNone
      rw [h.sufLen, behindFirst_of_none (Bool.eq_false_iff.mpr hNone)]
  · split
    · exact h.preLen
    · rw [size_append, h.preLen]
      rfl
  · intro hPos
    have hBefore := h.preOff fun x hx => hPos x (List.mem_append_left _ hx)
    split
    · exact hBefore
    · dsimp only
      rw [hBefore]
      cases hFront : inFront fs with
      | nil => rfl
      | cons x rest =>
          have hMem : x ∈ fs := by
            have hx : x ∈ inFront fs := hFront ▸ List.mem_cons_self
            exact (List.takeWhile_prefix _).subset (List.mem_of_mem_filter hx)
          have hStart := hPos x (List.mem_append_left _ hMem)
          simp [hStart.ne']

/-- A field of the envelope sets what is its own and leaves the rest. -/
structure Sets (b : Text) (f : RvField) (st st' : Scan) : Prop where
  hasSub : st'.hasSub = (st.hasSub || f.isSub)
  subject : if f.isSub then SaysSubject (f.value b) st'.msgIn.sub
    else st'.msgIn.sub = st.msgIn.sub
  mtype : if f.setsMtype then st'.msgIn.mtype = (f.value b).headD 0
    else st'.msgIn.mtype = st.msgIn.mtype ∧ st'.hasMtype = st.hasMtype
  hasReturn : st'.hasReturn = (st.hasReturn || f.isReturn)
  reply : if f.isReturn then
      st'.msgIn.reply = f.fptr ∧ st'.msgIn.replylen = shortReply f.fsize
    else st'.msgIn.reply = st.msgIn.reply ∧ st'.msgIn.replylen = st.msgIn.replylen
  hasData : st'.hasData = (st.hasData || f.isData)
  data : if f.isData then
      st'.msgIn.data = ⟨f.fptr, f.fsize⟩ ∧ st'.dataOff = f.fieldStart ∧ st'.dataEnd = f.fieldEnd
    else st'.msgIn.data = st.msgIn.data ∧ st'.dataOff = st.dataOff ∧ st'.dataEnd = st.dataEnd
  lengths : st'.sufLen = st.sufLen ∧ st'.preLen = st.preLen ∧ st'.preOff = st.preOff
  envelope : f.isExtra = false

theorem Scanned.sets (h : Scanned b fs st) (hSets : Sets b f st st') :
    Scanned b (fs ++ [f]) st' := by
  obtain ⟨hBehind, hFront⟩ := lengths_of_envelope fs hSets.envelope
  obtain ⟨hSufLen, hPreLen, hPreOff⟩ := hSets.lengths
  constructor
  case hasSub => simp [hSets.hasSub, h.hasSub]
  case hasReturn => simp [hSets.hasReturn, h.hasReturn]
  case hasData => simp [hSets.hasData, h.hasData]
  case subject =>
      intro g hLast
      have hSubject := hSets.subject
      rw [lastField_snoc] at hLast
      split at hLast
      · rw [if_pos ‹_›] at hSubject
        exact Option.some.inj hLast ▸ hSubject
      · rw [if_neg ‹_›] at hSubject
        exact hSubject ▸ h.subject hLast
  case mtype =>
      intro hHas
      have hMtype := hSets.mtype
      rw [lastField_snoc]
      split at hMtype
      · exact ⟨f, if_pos ‹_›, hMtype⟩
      · obtain ⟨g, hLast, hg⟩ := h.mtype (hMtype.2 ▸ hHas)
        exact ⟨g, by rw [if_neg ‹_›, hLast], hMtype.1.trans hg⟩
  case reply =>
      intro g hLast
      have hReply := hSets.reply
      rw [lastField_snoc] at hLast
      split at hLast
      · rw [if_pos ‹_›] at hReply
        exact Option.some.inj hLast ▸ hReply
      · rw [if_neg ‹_›] at hReply
        rw [hReply.1, hReply.2]
        exact h.reply hLast
  case data =>
      intro g hLast
      have hData := hSets.data
      rw [lastField_snoc] at hLast
      split at hLast
      · rw [if_pos ‹_›] at hData
        exact Option.some.inj hLast ▸ hData
      · rw [if_neg ‹_›] at hData
        rw [hData.1, hData.2.1, hData.2.2]
        exact h.data hLast
  case sufLen => rw [hSufLen, h.sufLen, hBehind]
  case preLen => rw [hPreLen, h.preLen, hFront]
  case preOff =>
      intro hPos
      rw [hPreOff, hFront]
      exact h.preOff fun x hx => hPos x (List.mem_append_left _ hx)

/-- One turn of the loop. -/
theorem Scanned.step (h : Scanned b fs st) (hStep : st.field alloc b f = .ok (st', .ok)) :
    Scanned b (fs ++ [f]) st' := by
  have hNames : nameSub ≠ nameData ∧ nameSub ≠ nameMtype ∧ nameSub ≠ nameReturn ∧
      nameData ≠ nameMtype ∧ nameData ≠ nameReturn ∧ nameMtype ≠ nameReturn := by decide
  obtain ⟨hSD, hSM, hSR, hDM, hDR, hMR⟩ := hNames
  unfold Scan.field at hStep
  by_cases hSub : f.fname = nameSub
  · rw [if_pos hSub, bind_eq_ok] at hStep
    obtain ⟨⟨m, found⟩, hRun, hNext⟩ := hStep
    cases found with
    | false => simp [pure, Except.pure] at hNext
    | true =>
        obtain rfl : _ = st' := (Prod.mk.inj (pure_eq_ok.mp hNext)).1
        refine h.sets ?_
        constructor <;> simp [RvField.isSub, RvField.isData, RvField.setsMtype, RvField.isReturn,
          RvField.isExtra, hSub, hSD, hSM, hSR]
        exact subjectToString_says hRun
  rw [if_neg hSub] at hStep
  by_cases hData : f.fname = nameData
  · rw [if_pos hData] at hStep
    obtain rfl : _ = st' := (Prod.mk.inj (pure_eq_ok.mp hStep)).1
    refine h.sets ?_
    constructor <;> simp [RvField.isSub, RvField.isData, RvField.setsMtype, RvField.isReturn,
      RvField.isExtra, hData, hSD.symm, hDM, hDR]
  rw [if_neg hData] at hStep
  by_cases hMtype : f.fname = nameMtype
  · rw [if_pos hMtype] at hStep
    refine h.sets ?_
    by_cases hTwo : f.ftype = .mdString ∧ f.fsize = 2
    · rw [if_pos hTwo] at hStep
      obtain rfl : _ = st' := (Prod.mk.inj (pure_eq_ok.mp hStep)).1
      constructor <;> simp [RvField.isSub, RvField.isData, RvField.setsMtype, RvField.isReturn,
        RvField.isExtra, hMtype, hSM.symm, hDM.symm, hMR, hTwo]
    · rw [if_neg hTwo] at hStep
      obtain rfl : _ = st' := (Prod.mk.inj (pure_eq_ok.mp hStep)).1
      constructor <;> simp [RvField.isSub, RvField.isData, RvField.setsMtype, RvField.isReturn,
        RvField.isExtra, hMtype, hSM.symm, hDM.symm, hMR, hTwo]
  rw [if_neg hMtype] at hStep
  by_cases hReturn : f.fname = nameReturn
  · rw [if_pos hReturn] at hStep
    obtain rfl : _ = st' := (Prod.mk.inj (pure_eq_ok.mp hStep)).1
    refine h.sets ?_
    constructor <;> simp [RvField.isSub, RvField.isData, RvField.setsMtype, RvField.isReturn,
      RvField.isExtra, hReturn, hSR.symm, hDR.symm, hMR.symm]
  · rw [if_neg hReturn] at hStep
    obtain rfl : _ = st' := (Prod.mk.inj (pure_eq_ok.mp hStep)).1
    exact h.extra (by simp [RvField.isExtra, hSub, hData, hMtype, hReturn])

/-- The loop goes over all fields when it returns with no error. -/
theorem Scanned.fields {entries : List (Option RvField)} (h : Scanned b fs st)
    (hRun : st.fields alloc b entries = .ok (st', .ok)) :
    ∃ more, entries = more.map some ∧ Scanned b (fs ++ more) st' := by
  induction entries generalizing fs st with
  | nil =>
      obtain rfl : st = st' := (Prod.mk.inj (pure_eq_ok.mp hRun)).1
      exact ⟨[], rfl, by rwa [List.append_nil]⟩
  | cons entry entries ih =>
      cases entry with
      | none => cases (pure_eq_ok.mp hRun)
      | some f =>
          rw [Scan.fields, bind_eq_ok] at hRun
          obtain ⟨⟨mid, status⟩, hStep, hRest⟩ := hRun
          dsimp only at hRest
          split at hRest
          · rename_i hOk
            subst hOk
            obtain ⟨more, rfl, hAll⟩ := ih (h.step hStep) hRest
            refine ⟨f :: more, rfl, ?_⟩
            rwa [List.append_assoc] at hAll
          · cases (pure_eq_ok.mp hRest)
            exact absurd rfl ‹¬ _›

/-- What the code relies on: the fields lie one behind the other up to the end of the
message, each with its reference in it, and the data ends where its field ends. -/
structure Iterates (iterate : Text → Option (List (Option RvField))) : Prop where
  tiles {b : Text} {fs : List RvField} : iterate b = some (fs.map some) →
    ∃ a, 0 < a ∧ Tiles a fs b.length
  inside {b : Text} {fs : List RvField} {f : RvField} : iterate b = some (fs.map some) → f ∈ fs →
    f.fieldStart ≤ f.fptr ∧ f.fptr + f.fsize ≤ f.fieldEnd
  dataEnds {b : Text} {fs : List RvField} {f : RvField} : iterate b = some (fs.map some) → f ∈ fs →
    f.isData → f.fptr + f.fsize = f.fieldEnd

/-- The fields to be forwarded that stand in front of the data are right in front of it. -/
def Adjoining (fs : List RvField) : Prop :=
  ∃ front block d back, fs = front ++ block ++ d :: back ∧ block ≠ [] ∧
    (∀ f ∈ block, f.isExtra = true) ∧ (∀ f ∈ front, f.isExtra = false ∧ f.isData = false) ∧
    d.isData = true ∧ ∀ f ∈ back, f.isData = false

theorem exists_lastField (h : lastField p fs = some d) :
    ∃ front back, fs = front ++ d :: back ∧ p d = true ∧ ∀ f ∈ back, p f = false := by
  induction fs using List.reverseRecOn with
  | nil => cases h
  | append_singleton fs f ih =>
      rw [lastField_snoc] at h
      split at h
      · obtain rfl : f = d := Option.some.inj h
        exact ⟨fs, [], rfl, ‹_›, by simp⟩
      · obtain ⟨front, back, rfl, hHere, hBack⟩ := ih h
        refine ⟨front, back ++ [f], by simp, hHere, ?_⟩
        intro g hg
        rcases List.mem_append.mp hg with hg | hg
        · exact hBack g hg
        · exact List.mem_singleton.mp hg ▸ Bool.eq_false_iff.mpr ‹_›

theorem lastField_of_split (front : List RvField) {back : List RvField} (hHere : p d = true)
    (hBack : ∀ f ∈ back, p f = false) : lastField p (front ++ d :: back) = some d := by
  have hNone : back.filter p = [] := by simpa [List.filter_eq_nil_iff] using hBack
  rw [lastField, List.filter_append, List.filter_cons_of_pos hHere, hNone,
    List.getLast?_append]
  rfl

theorem lastField_mem (h : lastField p fs = some d) : d ∈ fs ∧ p d = true := by
  obtain ⟨front, back, rfl, hHere, -⟩ := exists_lastField h
  exact ⟨by simp, hHere⟩

/-- The first data and what is around it. -/
theorem split_firstData {front back : List RvField} (hFront : ∀ f ∈ front, f.isData = false)
    (hHere : d.isData = true) : inFront (front ++ d :: back) = extras front ∧
      behindFirst (front ++ d :: back) = extras back := by
  have hAll : ∀ f ∈ front, (!f.isData) = true := by simpa using hFront
  constructor
  · rw [inFront, List.takeWhile_append_of_pos hAll]
    simp [hHere]
  · rw [behindFirst, List.dropWhile_append_of_pos hAll]
    simp [hHere, extras, RvField.not_extra_of_data hHere]

theorem behindLast_eq {front back : List RvField} (hHere : d.isData = true)
    (hBack : ∀ f ∈ back, f.isData = false) : behindLast (front ++ d :: back) = back := by
  have hAll : ∀ f ∈ back.reverse, (!f.isData) = true := by simpa using hBack
  rw [behindLast, List.rtakeWhile, List.reverse_append, List.reverse_cons, List.append_assoc,
    List.takeWhile_append_of_pos hAll]
  simp [hHere]

theorem exists_first {x : RvField} (hMem : x ∈ fs) (hx : p x = true) : ∃ front first back,
    fs = front ++ first :: back ∧ (∀ f ∈ front, p f = false) ∧ p first = true := by
  have hFind : (fs.find? p).isSome := List.find?_isSome.mpr ⟨x, hMem, hx⟩
  obtain ⟨first, hFirst⟩ := Option.isSome_iff_exists.mp hFind
  obtain ⟨hHere, front, back, rfl, hFront⟩ := List.find?_eq_some_iff_append.mp hFirst
  exact ⟨front, first, back, rfl, by simpa using hFront, hHere⟩

theorem split_adjoining {front block back : List RvField} (hBlock : ∀ f ∈ block, f.isExtra = true)
    (hFront : ∀ f ∈ front, f.isExtra = false ∧ f.isData = false) (hHere : d.isData = true)
    (hBack : ∀ f ∈ back, f.isData = false) :
    inFront (front ++ block ++ d :: back) = block ∧
      behindFirst (front ++ block ++ d :: back) = extras back ∧
      behindLast (front ++ block ++ d :: back) = back ∧
      lastField RvField.isData (front ++ block ++ d :: back) = some d ∧
      extras (front ++ block ++ d :: back) = block ++ extras back := by
  have hBefore : ∀ f ∈ front ++ block, f.isData = false := by
    intro f hf
    rcases List.mem_append.mp hf with hf | hf
    · exact (hFront f hf).2
    · by_contra hData
      have hExtra := RvField.not_extra_of_data (Bool.not_eq_false _ ▸ hData)
      rw [hBlock f hf] at hExtra
      cases hExtra
  have hNone : extras front = [] := by
    simpa [extras, List.filter_eq_nil_iff] using fun f hf => (hFront f hf).1
  have hAll : extras block = block := List.filter_eq_self.mpr hBlock
  have hFrontExtras : extras (front ++ block) = block := by
    rw [extras, List.filter_append]
    exact (congrArg₂ _ hNone hAll).trans (List.nil_append _)
  obtain ⟨hInFront, hBehind⟩ := @split_firstData d (front ++ block) back hBefore hHere
  rw [hFrontExtras] at hInFront
  exact ⟨hInFront, hBehind, behindLast_eq hHere hBack, lastField_of_split _ hHere hBack,
    by rw [extras_eq, hInFront, hBehind]⟩

/-- The test that `unpack` makes before it moves the fields. -/
theorem adjoining_iff (hTiles : Tiles a fs z) (hPos : 0 < a)
    (hLast : lastField RvField.isData fs = some d) :
    ((inFront fs).head?.map RvField.fieldStart).getD 0 + size (inFront fs) = d.fieldStart ↔
      Adjoining fs := by
  constructor
  · intro hSum
    obtain ⟨hMem, hData⟩ := lastField_mem hLast
    obtain ⟨before, first, back, rfl, hBefore, hFirst⟩ := exists_first hMem hData
    obtain ⟨m, hTilesBefore, hTilesRest⟩ := tiles_append.mp hTiles
    rw [(split_firstData hBefore hFirst).1] at hSum
    have hStart : first.fieldStart = m := hTilesRest.1
    have hLate : m ≤ d.fieldStart := by
      rcases List.mem_append.mp hMem with hd | hd
      · exact absurd hData (by rw [hBefore d hd]; exact Bool.false_ne_true)
      · exact hTilesRest.start_ge hd
    cases hExtras : extras before with
    | nil =>
        rw [hExtras] at hSum
        have hZero : 0 = d.fieldStart := hSum
        have hLow := hTilesBefore.le
        omega
    | cons x more =>
        -- the sum reaches the data only if every field from the first extra one on is extra
        obtain ⟨front, rest, rfl, hFront, hx, -⟩ := List.filter_eq_cons_iff.mp hExtras
        obtain ⟨k, hTilesFront, hTilesBlock⟩ := tiles_append.mp hTilesBefore
        have hNone : front.filter RvField.isExtra = [] := by
          simpa [List.filter_eq_nil_iff] using hFront
        rw [extras, List.filter_append, hNone, List.nil_append] at hSum
        have hHead : ((x :: rest).filter RvField.isExtra).head? = some x := by
          rw [List.filter_cons_of_pos hx]
          rfl
        rw [hHead] at hSum
        have hSum' : x.fieldStart + size ((x :: rest).filter RvField.isExtra) = d.fieldStart := hSum
        have hLe := size_filter_le RvField.isExtra (x :: rest)
        have hStop := hTilesBlock.stop
        have hAt : x.fieldStart = k := hTilesBlock.1
        have hAll : (x :: rest).filter RvField.isExtra = x :: rest :=
          filter_of_size (fun y hy => hTilesBlock.long hy) (by omega)
        have hBack : ∀ f ∈ back, f.isData = false := by
          cases hBackLast : lastField RvField.isData back with
          | none => simpa using lastField_eq_none.mp hBackLast
          | some e =>
              rw [List.append_cons, lastField_append, hBackLast, Option.some_or] at hLast
              obtain rfl : e = d := Option.some.inj hLast
              have hLong : m < first.fieldEnd := hTilesRest.2.1
              have hLow : first.fieldEnd ≤ e.fieldStart :=
                hTilesRest.2.2.start_ge (lastField_mem hBackLast).1
              omega
        refine ⟨front, x :: rest, first, back, rfl, List.cons_ne_nil _ _, ?_, ?_, hFirst, hBack⟩
        · exact List.filter_eq_self.mp hAll
        · intro f hf
          exact ⟨by simpa using hFront f hf, hBefore f (List.mem_append_left _ hf)⟩
  · rintro ⟨front, block, last, back, rfl, hNonempty, hBlock, hFront, hLastData, hBack⟩
    obtain ⟨hInFront, -, -, hSame, -⟩ := split_adjoining hBlock hFront hLastData hBack
    obtain rfl : last = d := Option.some.inj (hSame.symm.trans hLast)
    rw [hInFront]
    obtain ⟨m, hTilesBefore, hTilesRest⟩ := tiles_append.mp hTiles
    obtain ⟨k, -, hTilesBlock⟩ := tiles_append.mp hTilesBefore
    obtain ⟨x, rest, rfl⟩ := List.exists_cons_of_ne_nil hNonempty
    have hStop := hTilesBlock.stop
    have hHead : x.fieldStart = k := hTilesBlock.1
    have hStart : last.fieldStart = m := hTilesRest.1
    have hGoal : x.fieldStart + size (x :: rest) = last.fieldStart := by omega
    exact hGoal

/-- A message whose reading ends with no error. -/
theorem unpack_scanned {iterate : Text → Option (List (Option RvField))} {m : RvEnvelope}
    {r : Unpacked} (hRun : unpack iterate alloc m b = .ok r) (hOk : r.status = .ok) :
    ∃ fs st e, iterate b = some (fs.map some) ∧ Scanned b fs st ∧ st.hasMtype = true ∧
      st.clear = .ok e ∧ r.msgIn = (suffixExtras st e b).1 ∧ r.msgbuf = (suffixExtras st e b).2 := by
  unfold unpack at hRun
  split at hRun
  · rw [bind_eq_ok] at hRun
    obtain ⟨e, -, hEnd⟩ := hRun
    obtain rfl := pure_eq_ok.mp hEnd
    cases hOk
  · rename_i entries hEntries
    rw [bind_eq_ok] at hRun
    obtain ⟨⟨st, status⟩, hFields, hEnd⟩ := hRun
    dsimp only at hEnd
    split at hEnd
    · rename_i hStatus
      subst hStatus
      rw [bind_eq_ok] at hEnd
      obtain ⟨e, hClear, hEnd⟩ := hEnd
      obtain rfl := pure_eq_ok.mp hEnd
      obtain ⟨fs, rfl, hScanned⟩ := (Scanned.init b m).fields hFields
      have hMtype : st.hasMtype = true := by
        by_contra hNot
        simp [hNot] at hOk
      exact ⟨fs, st, e, hEntries, hScanned, hMtype, hClear, rfl, rfl⟩
    · obtain rfl := pure_eq_ok.mp hEnd
      exact absurd hOk ‹_›

/-- What was found stays, and the rest is cleared. -/
theorem Scan.clear_spec {e : RvEnvelope} (h : st.clear = .ok e) :
    e.sub = (if st.hasSub then st.msgIn.sub else []) ∧
      e.data = (if st.hasData then st.msgIn.data else ⟨0, 0⟩) ∧
      e.reply = (if st.hasReturn then st.msgIn.reply else 0) ∧
      e.replylen = (if st.hasReturn then st.msgIn.replylen else 0) ∧
      e.mtype = (if st.hasMtype then st.msgIn.mtype else 0) ∧ e.suffixLen = 0 := by
  rw [Scan.clear, bind_eq_ok] at h
  obtain ⟨m, hKeep, hEnd⟩ := h
  obtain rfl := pure_eq_ok.mp hEnd
  have hSub : m.sub = if st.hasSub then st.msgIn.sub else [] := by
    unfold Scan.keepSub at hKeep
    by_cases hHas : st.hasSub = true
    · rw [if_pos hHas] at hKeep ⊢
      rw [← pure_eq_ok.mp hKeep]
    · rw [if_neg hHas, bind_eq_ok] at hKeep
      obtain ⟨m', -, hEmpty⟩ := hKeep
      rw [if_neg hHas, ← pure_eq_ok.mp hEmpty]
      rfl
  exact ⟨hSub, rfl, rfl, rfl, rfl, rfl⟩

/-- The end of `unpack` writes the place of the data and the length behind it. -/
theorem suffixExtras_keeps (st : Scan) (e : RvEnvelope) (b : Text) :
    (suffixExtras st e b).1.toRvMsgIn = e.toRvMsgIn ∧ (suffixExtras st e b).1.reply = e.reply ∧
      (suffixExtras st e b).1.replylen = e.replylen ∧ (suffixExtras st e b).1.mtype = e.mtype := by
  unfold suffixExtras moveExtras
  by_cases hMove : st.preOff + st.preLen = st.dataOff
  · rw [if_pos hMove]
    dsimp only
    split
    · split <;> exact ⟨rfl, rfl, rfl, rfl⟩
    · exact ⟨rfl, rfl, rfl, rfl⟩
  · rw [if_neg hMove]
    dsimp only
    split
    · split <;> exact ⟨rfl, rfl, rfl, rfl⟩
    · exact ⟨rfl, rfl, rfl, rfl⟩

/-- Fields that stay where they are. -/
theorem suffixExtras_apart {e : RvEnvelope} (hData : st.hasData = true)
    (hApart : st.preOff + st.preLen ≠ st.dataOff) : suffixExtras st e b =
      (if st.sufLen ≠ 0 ∧ e.data.fptr + e.data.fsize + st.sufLen = b.length then
        { e with suffixLen := st.sufLen } else e, b) := by
  unfold suffixExtras moveExtras
  rw [if_neg hApart]
  by_cases hSuf : st.sufLen = 0
  · simp [hSuf]
  · simp only [hData, hSuf, true_and, ne_eq, not_false_eq_true, true_or, if_true]
    split <;> rfl

/-- Around fields that adjoin the data. -/
structure Around (b : Text) (front block : List RvField) (d : RvField) (back : List RvField)
    (p q : Nat) : Prop where
  atFront : ∃ a, Tiles a front p
  atBlock : Tiles p block q
  atData : d.fieldStart = q ∧ q < d.fieldEnd
  atBack : Tiles d.fieldEnd back b.length

variable {front block back : List RvField} {q k : Nat}

theorem Around.of_tiles (h : Tiles a (front ++ block ++ d :: back) b.length) :
    ∃ k q, Around b front block d back k q := by
  obtain ⟨q, hBefore, hRest⟩ := tiles_append.mp h
  obtain ⟨k, hFront, hBlock⟩ := tiles_append.mp hBefore
  exact ⟨k, q, ⟨a, hFront⟩, hBlock, ⟨hRest.1, hRest.2.1⟩, hRest.2.2⟩

/-- The message after the fields were moved behind the data. -/
def moved (b : Text) (k q e : Nat) : Text :=
  b.take k ++ slice b q e ++ slice b k q ++ b.drop e

/-- The fields are moved, and the length counts if nothing else stands behind them. -/
theorem suffixExtras_moved {e : RvEnvelope} (hAround : Around b front block d back k q)
    (hData : st.hasData = true) (hPreLen : st.preLen = size block) (hBlock : block ≠ [])
    (hPreOff : st.preOff = k) (hOff : st.dataOff = d.fieldStart) (hEnd : st.dataEnd = d.fieldEnd) :
    suffixExtras st e b =
      (if e.data.fptr - size block + e.data.fsize + (st.sufLen + size block) = b.length then
        { e with data := ⟨e.data.fptr - size block, e.data.fsize⟩, suffixLen := st.sufLen + size block }
      else { e with data := ⟨e.data.fptr - size block, e.data.fsize⟩ }, moved b k q d.fieldEnd) := by
  have hPos : 0 < size block := size_pos (fun x hx => hAround.atBlock.long hx) hBlock
  have hStop := hAround.atBlock.stop
  have hLow := hAround.atBlock.le
  have hHigh := hAround.atBack.le
  obtain ⟨hStart, hLong⟩ := hAround.atData
  have hTest : st.preOff + st.preLen = st.dataOff := by omega
  have hLength : (moved b k q d.fieldEnd).length = b.length := by
    have hDataPart : (slice b q d.fieldEnd).length = d.fieldEnd - q := slice_length hHigh
    have hBlockPart : (slice b k q).length = q - k := slice_length (by omega)
    rw [moved, List.length_append, List.length_append, List.length_append, hDataPart, hBlockPart,
      List.length_take, List.length_drop]
    omega
  have hSwap := write_swap (b := b) hLow hLong.le hHigh
  have hSum : q + (d.fieldEnd - q) = d.fieldEnd := by omega
  unfold suffixExtras moveExtras
  simp only [hTest, if_true, hData, true_and]
  rw [if_pos (by omega), hPreOff, hPreLen, hOff, hEnd, hStart, hSum, hSwap]
  simp only [show st.sufLen + size block ≠ 0 by omega, ne_eq, not_false_eq_true, true_and]
  rw [← moved, hLength]
  split <;> rfl

namespace Around

theorem part_lengths (h : Around b front block d back k q) :
    (b.take k).length = k ∧ (slice b q d.fieldEnd).length = d.fieldEnd - q ∧
      (slice b k q).length = size block ∧ k + size block = q ∧ q < d.fieldEnd ∧
      d.fieldEnd ≤ b.length := by
  have hStop := h.atBlock.stop
  have hHigh := h.atBack.le
  have hLong := h.atData.2
  refine ⟨?_, slice_length hHigh, ?_, hStop.symm, hLong, hHigh⟩
  · rw [List.length_take]
    omega
  · rw [slice_length (by omega)]
    omega

/-- What stands in front of the moved fields or behind the data stays where it is. -/
theorem moved_keeps (h : Around b front block d back k q) (hMem : f ∈ front ∨ f ∈ back) {x y : Nat}
    (hLow : f.fieldStart ≤ x) (hHigh : y ≤ f.fieldEnd) :
    slice (moved b k q d.fieldEnd) x y = slice b x y := by
  obtain ⟨hFrontLength, hDataLength, hBlockLength, hStop, hLong, hEnd⟩ := h.part_lengths
  rcases hMem with hMem | hMem
  · obtain ⟨a, hFront⟩ := h.atFront
    refine slice_of_take (m := k) ?_ (hHigh.trans (hFront.stop_le hMem))
    rw [moved, List.append_assoc, List.append_assoc]
    exact List.take_left' hFrontLength
  · refine slice_of_drop (m := d.fieldEnd) ?_ ((h.atBack.start_ge hMem).trans hLow)
    refine List.drop_left' ?_
    rw [List.length_append, List.length_append, hFrontLength, hDataLength, hBlockLength]
    omega

theorem moved_data (h : Around b front block d back k q) (hIn : d.fieldStart ≤ d.fptr)
    (hEnd : d.fptr + d.fsize = d.fieldEnd) :
    slice (moved b k q d.fieldEnd) (d.fptr - size block) (d.fptr - size block + d.fsize) =
      d.value b := by
  obtain ⟨hFrontLength, hDataLength, hBlockLength, hStop, hLong, hHigh⟩ := h.part_lengths
  obtain ⟨hStart, -⟩ := h.atData
  have hParts : moved b k q d.fieldEnd =
      (b.take k ++ slice b q d.fptr) ++ slice b d.fptr d.fieldEnd ++
        (slice b k q ++ b.drop d.fieldEnd) := by
    rw [moved, ← slice_append (b := b) (m := d.fptr) (by omega) (by omega)]
    simp only [List.append_assoc]
  have hBefore : (b.take k ++ slice b q d.fptr).length = k + (d.fptr - q) := by
    rw [List.length_append, hFrontLength, slice_length (by omega)]
  have hValue : (slice b d.fptr d.fieldEnd).length = d.fsize := by
    rw [slice_length hHigh]
    omega
  rw [hParts, RvField.value, hEnd]
  exact slice_of_append (by omega) (by omega)

theorem moved_suffix (h : Around b front block d back k q) :
    slice (moved b k q d.fieldEnd) (d.fieldEnd - size block) b.length =
      encode b block ++ encode b back := by
  obtain ⟨hFrontLength, hDataLength, hBlockLength, hStop, hLong, hHigh⟩ := h.part_lengths
  have hParts : moved b k q d.fieldEnd =
      (b.take k ++ slice b q d.fieldEnd) ++ (slice b k q ++ b.drop d.fieldEnd) ++ [] := by
    rw [moved, List.append_nil, List.append_assoc]
  have hRest : b.drop d.fieldEnd = slice b d.fieldEnd b.length := by
    rw [slice, List.take_of_length_le]
    rw [List.length_drop]
  rw [hParts, h.atBlock.encode, h.atBack.encode, ← hRest]
  refine slice_of_append ?_ ?_
  · rw [List.length_append, hFrontLength, hDataLength]
    omega
  · rw [List.length_append, List.length_append, hFrontLength, hDataLength, hBlockLength,
      List.length_drop]
    omega

end Around

/-- The envelope is that of the message that came in, and all other fields of it are
forwarded in their order, or none. -/
structure Forwards (b : Text) (fs : List RvField) (r : Unpacked) : Prop where
  subject : match lastField RvField.isSub fs with
    | some f => SaysSubject (f.value b) r.msgIn.sub
    | none => r.msgIn.sub = []
  mtype : ∃ f, lastField RvField.setsMtype fs = some f ∧
    (f.value b).head? = some r.msgIn.mtype
  reply : match lastField RvField.isReturn fs with
    | some f => r.replyBytes = (f.value b).dropLast
    | none => r.replyBytes = []
  data : match lastField RvField.isData fs with
    | some f => r.dataBytes = f.value b
    | none => r.dataBytes = []
  suffix : r.msgIn.suffixLen = 0 ∨
    (r.msgIn.suffixLen = size (extras fs) ∧ r.suffixBytes = encode b (extras fs))
  forwarded (msgEnd : Nat) : r.fwdSuffix msgEnd = [] ∨ r.fwdSuffix msgEnd = encode b (extras fs)

/-- The reply fits the 16 bits of its length. -/
def ReplyFits (fs : List RvField) : Prop :=
  ∀ f, lastField RvField.isReturn fs = some f → f.fsize < 65536

/-- The fields that count as a suffix are all that are to be forwarded, and stand behind the
data. -/
def WholeSuffix (b : Text) (fs : List RvField) : Prop :=
  Adjoining fs ∨ behindFirst fs = [] ∨ size (behindFirst fs) ≠ size (behindLast fs) ∨
    (inFront fs = [] ∧ encode b (behindFirst fs) = encode b (behindLast fs))

/-- What the loop leaves for a message that the iterator partitions. -/
structure Read (b : Text) (fs : List RvField) (st : Scan) (e : RvEnvelope) : Prop where
  scanned : Scanned b fs st
  cleared : st.clear = .ok e
  tiles : ∃ a, 0 < a ∧ Tiles a fs b.length
  inside {f : RvField} : f ∈ fs → f.fieldStart ≤ f.fptr ∧ f.fptr + f.fsize ≤ f.fieldEnd
  dataEnds {f : RvField} : f ∈ fs → f.isData → f.fptr + f.fsize = f.fieldEnd

namespace Read

variable {e : RvEnvelope}

theorem data_eq (h : Read b fs st e) (hLast : lastField RvField.isData fs = some d) :
    st.hasData = true ∧ e.data = ⟨d.fptr, d.fsize⟩ := by
  obtain ⟨-, hData, -⟩ := Scan.clear_spec h.cleared
  obtain ⟨hMem, hKind⟩ := lastField_mem hLast
  have hHas : st.hasData = true := by
    rw [h.scanned.hasData]
    exact List.any_eq_true.mpr ⟨d, hMem, hKind⟩
  rw [hHas, if_pos rfl] at hData
  exact ⟨hHas, hData.trans (h.scanned.data hLast).1⟩

theorem suffixLen_eq (h : Read b fs st e) : e.suffixLen = 0 :=
  (Scan.clear_spec h.cleared).2.2.2.2.2

/-- The test before the move. -/
theorem moves_iff (h : Read b fs st e) (hLast : lastField RvField.isData fs = some d) :
    st.preOff + st.preLen = st.dataOff ↔ Adjoining fs := by
  obtain ⟨a, hPos, hTiles⟩ := h.tiles
  have hOff := h.scanned.preOff fun f hf => hPos.trans_le (hTiles.start_ge hf)
  rw [hOff, h.scanned.preLen, (h.scanned.data hLast).2.1]
  exact adjoining_iff hTiles hPos hLast

theorem apart (h : Read b fs st e) (hNot : ¬ Adjoining fs) :
    (suffixExtras st e b).2 = b ∧ (suffixExtras st e b).1.data = e.data ∧
      (suffixExtras st e b).1.suffixLen =
        if size (behindFirst fs) = size (behindLast fs) then size (behindFirst fs) else 0 := by
  cases hLast : lastField RvField.isData fs with
  | none =>
      have hNone := lastField_eq_none.mp hLast
      have hHas : st.hasData = false := h.scanned.hasData.trans hNone
      have hSame : suffixExtras st e b = (e, b) := by simp [suffixExtras, hHas]
      rw [hSame, behindFirst_of_none hNone]
      exact ⟨rfl, rfl, h.suffixLen_eq.trans (ite_self _).symm⟩
  | some d =>
      obtain ⟨hHas, hData⟩ := h.data_eq hLast
      rw [suffixExtras_apart hHas (mt (h.moves_iff hLast).mp hNot)]
      obtain ⟨a, -, hTiles⟩ := h.tiles
      have hEnds := h.dataEnds (lastField_mem hLast).1 (lastField_mem hLast).2
      obtain ⟨front, back, rfl, hHere, hBack⟩ := exists_lastField hLast
      obtain ⟨m, -, -, -, hRest⟩ := tiles_append.mp hTiles
      have hLength : b.length = d.fptr + d.fsize + size back := by
        rw [hEnds]
        exact hRest.stop
      have hTest : e.data.fptr + e.data.fsize + st.sufLen = b.length ↔
          size (behindFirst (front ++ d :: back)) = size back := by
        rw [hData, hLength, h.scanned.sufLen, Nat.add_left_cancel_iff]
      simp only [behindLast_eq hHere hBack, hTest]
      rw [h.scanned.sufLen]
      by_cases hSame : size (behindFirst (front ++ d :: back)) = size back
      · by_cases hZero : size (behindFirst (front ++ d :: back)) = 0
        · simp [hZero, h.suffixLen_eq]
        · simp [hSame, hSame ▸ hZero]
      · simp [hSame, h.suffixLen_eq]

theorem adjoined (h : Read b fs st e) (hAdjoining : Adjoining fs) :
    ∃ front block d back k q, fs = front ++ block ++ d :: back ∧
      Around b front block d back k q ∧ (∀ f ∈ block, f.isExtra = true) ∧
      extras fs = block ++ extras back ∧ lastField RvField.isData fs = some d ∧
      behindFirst fs = extras back ∧ behindLast fs = back ∧
      (suffixExtras st e b).2 = moved b k q d.fieldEnd ∧
      (suffixExtras st e b).1.data = ⟨d.fptr - size block, d.fsize⟩ ∧
      (suffixExtras st e b).1.suffixLen =
        if size (extras back) = size back then size (extras fs) else 0 := by
  obtain ⟨a, hPos, hTiles⟩ := h.tiles
  obtain ⟨front, block, d, back, rfl, hNonempty, hBlock, hFront, hHere, hBack⟩ := hAdjoining
  obtain ⟨hInFront, hBehind, hBehindLast, hLast, hExtras⟩ :=
    split_adjoining hBlock hFront hHere hBack
  obtain ⟨hHas, hData⟩ := h.data_eq hLast
  obtain ⟨k, q, hAround⟩ := Around.of_tiles hTiles
  obtain ⟨-, hOff, hEnd⟩ := h.scanned.data hLast
  have hPreLen : st.preLen = size block := by rw [h.scanned.preLen, hInFront]
  have hPreOff : st.preOff = k := by
    rw [h.scanned.preOff fun f hf => hPos.trans_le (hTiles.start_ge hf), hInFront]
    obtain ⟨x, rest, rfl⟩ := List.exists_cons_of_ne_nil hNonempty
    exact hAround.atBlock.1
  have hMove := suffixExtras_moved (e := e) hAround hHas hPreLen hNonempty hPreOff hOff hEnd
  have hStop := hAround.atBlock.stop
  have hLength := hAround.atBack.stop
  have hStart := hAround.atData.1
  have hIn := (h.inside (lastField_mem hLast).1).1
  have hEnds := h.dataEnds (lastField_mem hLast).1 hHere
  have hTest : e.data.fptr - size block + e.data.fsize + (st.sufLen + size block) = b.length ↔
      size (extras back) = size back := by
    rw [hData, h.scanned.sufLen, hBehind]
    dsimp only
    omega
  refine ⟨front, block, d, back, k, q, rfl, hAround, hBlock, hExtras, hLast, hBehind, hBehindLast,
    ?_, ?_, ?_⟩
  · rw [hMove]
  · rw [hMove]
    dsimp only
    split <;> exact congrArg₂ MDReference.mk (by rw [hData]) (by rw [hData])
  · rw [hMove, hExtras, size_append]
    simp only [hTest]
    split
    · rw [h.scanned.sufLen, hBehind, Nat.add_comm]
    · exact h.suffixLen_eq

/-- What the end of `unpack` leaves. -/
def result (st : Scan) (e : RvEnvelope) (b : Text) : Unpacked :=
  ⟨.ok, (suffixExtras st e b).1, (suffixExtras st e b).2⟩

/-- The fields of the envelope but the data stay where they are. -/
theorem bytes_kept (h : Read b fs st e) (hMem : f ∈ fs) (hExtra : f.isExtra = false)
    (hData : f.isData = false) {x y : Nat} (hLow : f.fieldStart ≤ x) (hHigh : y ≤ f.fieldEnd) :
    slice (suffixExtras st e b).2 x y = slice b x y := by
  by_cases hAdjoining : Adjoining fs
  · obtain ⟨front, block, d, back, k, q, rfl, hAround, hBlock, -, hLast, -, -, hBuf, -⟩ :=
      h.adjoined hAdjoining
    rw [hBuf]
    refine hAround.moved_keeps ?_ hLow hHigh
    rw [List.append_assoc, List.mem_append, List.mem_append, List.mem_cons] at hMem
    rcases hMem with hMem | hMem | rfl | hMem
    · exact .inl hMem
    · exact absurd (hBlock f hMem) (by simp [hExtra])
    · exact absurd (lastField_mem hLast).2 (by simp [hData])
    · exact .inr hMem
  · rw [(h.apart hAdjoining).1]

/-- The data is where the reference says, also after a move. -/
theorem data_kept (h : Read b fs st e) (hLast : lastField RvField.isData fs = some d) :
    (result st e b).dataBytes = d.value b := by
  unfold Unpacked.dataBytes result
  by_cases hAdjoining : Adjoining fs
  · obtain ⟨front, block, d', back, k, q, rfl, hAround, -, -, hLast', -, -, hBuf, hRef, -⟩ :=
      h.adjoined hAdjoining
    obtain rfl : d' = d := Option.some.inj (hLast'.symm.trans hLast)
    obtain ⟨hMem, hKind⟩ := lastField_mem hLast
    dsimp only
    rw [hBuf, hRef]
    exact hAround.moved_data (h.inside hMem).1 (h.dataEnds hMem hKind)
  · obtain ⟨hBuf, hRef, -⟩ := h.apart hAdjoining
    dsimp only
    rw [hBuf, hRef, (h.data_eq hLast).2]
    rfl

/-- Which suffixes are the fields to be forwarded. -/
theorem suffix_iff (h : Read b fs st e) :
    ((result st e b).msgIn.suffixLen = 0 ∨
      ((result st e b).msgIn.suffixLen = size (extras fs) ∧
        (result st e b).suffixBytes = encode b (extras fs))) ↔ WholeSuffix b fs := by
  obtain ⟨a, -, hTiles⟩ := h.tiles
  have hLong : ∀ {xs}, xs ⊆ fs → ∀ x ∈ xs, x.fieldStart < x.fieldEnd := fun hSub x hx =>
    hTiles.long (hSub hx)
  unfold Unpacked.suffixBytes result
  dsimp only
  by_cases hAdjoining : Adjoining fs
  · refine iff_of_true ?_ (.inl hAdjoining)
    obtain ⟨front, block, d, back, k, q, rfl, hAround, -, hExtras, hLast, -, -, hBuf, hRef, hLen⟩ :=
      h.adjoined hAdjoining
    rw [hLen]
    by_cases hSame : size (extras back) = size back
    · rw [if_pos hSame]
      refine .inr ⟨rfl, ?_⟩
      have hAll : extras back = back := filter_of_size (fun x hx => hAround.atBack.long hx) hSame
      obtain ⟨hMem, hKind⟩ := lastField_mem hLast
      have hEnds := h.dataEnds hMem hKind
      have hIn := (h.inside hMem).1
      have hStart := hAround.atData.1
      have hStop := hAround.atBlock.stop
      have hLength := hAround.atBack.stop
      have hFirst : d.fptr - size block + d.fsize = d.fieldEnd - size block := by omega
      have hSecond : d.fieldEnd - size block + (size block + size back) = b.length := by omega
      rw [hBuf, hRef, hExtras, hAll, size_append, encode_append]
      dsimp only
      rw [hFirst, hSecond]
      exact hAround.moved_suffix
    · exact .inl (if_neg hSame)
  · obtain ⟨hBuf, hRef, hLen⟩ := h.apart hAdjoining
    rw [hBuf, hRef, hLen]
    have hSplit : size (extras fs) = size (inFront fs) + size (behindFirst fs) := by
      rw [extras_eq, size_append]
    by_cases hNone : behindFirst fs = []
    · exact iff_of_true (.inl (by rw [hNone]; exact ite_self _)) (.inr (.inl hNone))
    by_cases hSame : size (behindFirst fs) = size (behindLast fs)
    · have hFirst : behindFirst fs ⊆ fs := fun x hx =>
        (List.dropWhile_suffix _).subset (List.mem_of_mem_filter hx)
      have hFront : inFront fs ⊆ fs := fun x hx =>
        (List.takeWhile_prefix _).subset (List.mem_of_mem_filter hx)
      have hPos : 0 < size (behindFirst fs) := size_pos (hLong hFirst) hNone
      -- some field to be forwarded is behind the first data, so there is a last one
      obtain ⟨d, hLast⟩ : ∃ d, lastField RvField.isData fs = some d := by
        cases hLast : lastField RvField.isData fs with
        | none => exact absurd (behindFirst_of_none (lastField_eq_none.mp hLast)) hNone
        | some d => exact ⟨d, rfl⟩
      obtain ⟨hMem, hKind⟩ := lastField_mem hLast
      have hEnds := h.dataEnds hMem hKind
      have hBytes : slice b (e.data.fptr + e.data.fsize)
          (e.data.fptr + e.data.fsize + size (behindFirst fs)) = encode b (behindLast fs) := by
        obtain ⟨front, back, rfl, hHere, hBack⟩ := exists_lastField hLast
        obtain ⟨m, -, -, -, hRest⟩ := tiles_append.mp hTiles
        have hStop : b.length = d.fieldEnd + size back := hRest.stop
        rw [hSame, behindLast_eq hHere hBack, (h.data_eq hLast).2]
        dsimp only
        rw [hEnds, ← hStop, hRest.encode]
        rfl
      rw [if_pos hSame, hBytes]
      constructor
      · rintro (hZero | ⟨hAll, hEncoded⟩)
        · exact absurd hZero hPos.ne'
        · have hEmpty : inFront fs = [] := by
            by_contra hSome
            have hSize := size_pos (hLong hFront) hSome
            omega
          refine .inr (.inr (.inr ⟨hEmpty, ?_⟩))
          rw [hEncoded, extras_eq, hEmpty, List.nil_append]
      · rintro (hAdj | hNil | hDiffer | ⟨hEmpty, hEncoded⟩)
        · exact absurd hAdj hAdjoining
        · exact absurd hNil hNone
        · exact absurd hSame hDiffer
        · refine .inr ⟨?_, ?_⟩
          · rw [hSplit, hEmpty, size_nil, Nat.zero_add]
          · rw [← hEncoded, extras_eq, hEmpty, List.nil_append]
    · exact iff_of_true (.inl (if_neg hSame)) (.inr (.inr (.inl hSame)))

/-- A suffix goes on to the end of the message. -/
theorem suffix_to_end (h : Read b fs st e) (hSome : (result st e b).msgIn.suffixLen ≠ 0) :
    (result st e b).msgIn.data.fptr + (result st e b).msgIn.data.fsize +
      (result st e b).msgIn.suffixLen = (result st e b).msgbuf.length := by
  unfold result suffixExtras at hSome ⊢
  dsimp only at hSome ⊢
  split at hSome
  · rw [if_pos ‹_›]
    have hZero : (moveExtras st e b).1.suffixLen = 0 := by
      unfold moveExtras
      split <;> exact h.suffixLen_eq
    split at hSome
    · rename_i hEnd
      rw [if_pos hEnd]
      exact hEnd.2
    · exact absurd hZero hSome
  · exact absurd h.suffixLen_eq hSome

/-- What `fwd_pub` adds to a message is the suffix of the data. -/
theorem forwarded (h : Read b fs st e)
    (hSuffix : (result st e b).msgIn.suffixLen = 0 ∨
      ((result st e b).msgIn.suffixLen = size (extras fs) ∧
        (result st e b).suffixBytes = encode b (extras fs))) (msgEnd : Nat) :
    (result st e b).fwdSuffix msgEnd = [] ∨
      (result st e b).fwdSuffix msgEnd = encode b (extras fs) := by
  unfold Unpacked.fwdSuffix
  split
  · rename_i hBoth
    rcases hSuffix with hZero | ⟨-, hBytes⟩
    · exact absurd hZero hBoth.1
    · right
      have hEnd := h.suffix_to_end hBoth.1
      have hSame : msgEnd = (result st e b).msgIn.data.fptr + (result st e b).msgIn.data.fsize := by
        omega
      rw [hSame]
      exact hBytes
  · exact .inl rfl

theorem value_length (h : Read b fs st e) (hMem : f ∈ fs) : (f.value b).length = f.fsize := by
  obtain ⟨a, -, hTiles⟩ := h.tiles
  have hEnd : f.fieldEnd ≤ b.length := hTiles.stop_le hMem
  have hIn := (h.inside hMem).2
  rw [RvField.value, slice_length (by omega), Nat.add_sub_cancel_left]

theorem subject_kept (h : Read b fs st e) : match lastField RvField.isSub fs with
    | some f => SaysSubject (f.value b) (result st e b).msgIn.sub
    | none => (result st e b).msgIn.sub = [] := by
  have hSame : (result st e b).msgIn.sub = e.sub :=
    congrArg RvMsgIn.sub (suffixExtras_keeps st e b).1
  rw [hSame, (Scan.clear_spec h.cleared).1, h.scanned.hasSub]
  cases hLast : lastField RvField.isSub fs with
  | none => rw [lastField_eq_none.mp hLast, if_neg Bool.false_ne_true]
  | some f =>
      obtain ⟨hMem, hKind⟩ := lastField_mem hLast
      rw [List.any_eq_true.mpr ⟨f, hMem, hKind⟩, if_pos rfl]
      exact h.scanned.subject hLast

theorem mtype_kept (h : Read b fs st e) (hMtype : st.hasMtype = true) :
    ∃ f, lastField RvField.setsMtype fs = some f ∧
      (f.value b).head? = some (result st e b).msgIn.mtype := by
  obtain ⟨f, hLast, hHead⟩ := h.scanned.mtype hMtype
  obtain ⟨hMem, hKind⟩ := lastField_mem hLast
  have hSize : f.fsize = 2 := by
    simp only [RvField.setsMtype, Bool.and_eq_true, decide_eq_true_eq] at hKind
    exact hKind.2
  have hLength := h.value_length hMem
  obtain ⟨c, rest, hValue⟩ := List.exists_cons_of_length_pos (l := f.value b) (by omega)
  have hSame : (result st e b).msgIn.mtype = st.msgIn.mtype := by
    rw [result, (suffixExtras_keeps st e b).2.2.2, (Scan.clear_spec h.cleared).2.2.2.2.1, hMtype,
      if_pos rfl]
  refine ⟨f, hLast, ?_⟩
  rw [hSame, hHead, hValue]
  rfl

/-- The reply is the one that came in if its length fits. -/
theorem reply_iff (h : Read b fs st e) :
    (match lastField RvField.isReturn fs with
      | some f => (result st e b).replyBytes = (f.value b).dropLast
      | none => (result st e b).replyBytes = []) ↔ ReplyFits fs := by
  obtain ⟨-, hReply, hReplylen, -⟩ := suffixExtras_keeps st e b
  obtain ⟨-, -, hReply', hReplylen', -⟩ := Scan.clear_spec h.cleared
  unfold Unpacked.replyBytes result ReplyFits
  dsimp only
  rw [hReply, hReplylen, hReply', hReplylen', h.scanned.hasReturn]
  cases hLast : lastField RvField.isReturn fs with
  | none =>
      rw [lastField_eq_none.mp hLast]
      refine iff_of_true ?_ (by simp)
      rw [if_neg Bool.false_ne_true, if_neg Bool.false_ne_true]
      exact List.take_zero
  | some f =>
      obtain ⟨hMem, hKind⟩ := lastField_mem hLast
      rw [List.any_eq_true.mpr ⟨f, hMem, hKind⟩, if_pos rfl, if_pos rfl, (h.scanned.reply hLast).1,
        (h.scanned.reply hLast).2]
      have hNames : f.fname = nameReturn := by simpa [RvField.isReturn] using hKind
      have hExtra : f.isExtra = false := by simp [RvField.isExtra, hNames]
      have hData : f.isData = false := by
        simp only [RvField.isData, hNames]
        decide
      have hIn := h.inside hMem
      have hLength := h.value_length hMem
      have hShort : (shortReply f.fsize).toNat = f.fsize % 65536 - 1 := by
        unfold shortReply
        split <;> bv_omega
      have hDrop : (f.value b).dropLast = slice b f.fptr (f.fptr + (f.fsize - 1)) := by
        rw [List.dropLast_eq_take, hLength, RvField.value, slice, slice, List.take_take,
          Nat.add_sub_cancel_left, Nat.add_sub_cancel_left, Nat.min_eq_left (Nat.sub_le _ _)]
      constructor
      · rintro hBytes g ⟨rfl⟩
        have hSizes := congrArg List.length hBytes
        rw [List.length_dropLast, hLength, slice, List.length_take, Nat.add_sub_cancel_left,
          hShort] at hSizes
        omega
      · intro hFits
        have hSmall := hFits f rfl
        dsimp only
        rw [hShort, Nat.mod_eq_of_lt hSmall, hDrop]
        exact h.bytes_kept hMem hExtra hData hIn.1 (by omega)

end Read

theorem unpack_read {iterate : Text → Option (List (Option RvField))} {m : RvEnvelope}
    {r : Unpacked} (hIterates : Iterates iterate) (hRun : unpack iterate alloc m b = .ok r)
    (hOk : r.status = .ok) : ∃ fs st e, iterate b = some (fs.map some) ∧ Read b fs st e ∧
      st.hasMtype = true ∧ r = Read.result st e b := by
  obtain ⟨fs, st, e, hFields, hScanned, hMtype, hClear, hMsg, hBuf⟩ := unpack_scanned hRun hOk
  refine ⟨fs, st, e, hFields, ⟨hScanned, hClear, hIterates.tiles hFields,
    hIterates.inside hFields, hIterates.dataEnds hFields⟩, hMtype, ?_⟩
  cases r
  rw [Read.result, ← hMsg, ← hBuf, ← hOk]

/-- A field that gives one of the types that are allowed. -/
def RvField.givesMtype (f : RvField) (b : Text) : Bool :=
  f.setsMtype && validMtype ((f.value b).headD 0)

theorem field_accepts (alloc : (n : Nat) → Vector UInt8 n) (st : Scan)
    (hSub : f.isSub → ∃ n segs, Counted (f.value b) n segs) :
    Returns (st.field alloc b f) fun r =>
      r.2 = .ok ∧ r.1.hasMtype = (st.hasMtype || f.givesMtype b) := by
  have hOther : f.fname ≠ nameMtype → f.givesMtype b = false := fun hName => by
    simp [RvField.givesMtype, RvField.setsMtype, hName]
  have hNames : nameSub ≠ nameMtype ∧ nameData ≠ nameMtype ∧ nameReturn ≠ nameMtype := by decide
  unfold Scan.field
  by_cases hIsSub : f.fname = nameSub
  · obtain ⟨n, segs, hCounted⟩ := hSub (by simpa [RvField.isSub] using hIsSub)
    rw [if_pos hIsSub, hOther (hIsSub ▸ hNames.1), Bool.or_false]
    refine (subjectToString_counted alloc st.msgIn.toRvMsgIn hCounted).bind ?_
    rintro ⟨m, found⟩ ⟨hFound, -⟩
    obtain rfl : found = true := hFound
    exact .pure ⟨rfl, rfl⟩
  rw [if_neg hIsSub]
  by_cases hIsData : f.fname = nameData
  · rw [if_pos hIsData, hOther (hIsData ▸ hNames.2.1), Bool.or_false]
    exact .pure ⟨rfl, rfl⟩
  rw [if_neg hIsData]
  by_cases hIsMtype : f.fname = nameMtype
  · rw [if_pos hIsMtype]
    by_cases hTwo : f.ftype = .mdString ∧ f.fsize = 2
    · rw [if_pos hTwo]
      have hSets : f.setsMtype = true := by simp [RvField.setsMtype, hIsMtype, hTwo]
      exact .pure ⟨rfl, by rw [RvField.givesMtype, hSets, Bool.true_and]⟩
    · rw [if_neg hTwo]
      have hSets : f.setsMtype = false := by simpa [RvField.setsMtype, hIsMtype] using hTwo
      exact .pure ⟨rfl, by rw [RvField.givesMtype, hSets, Bool.false_and, Bool.or_false]⟩
  rw [if_neg hIsMtype, hOther hIsMtype, Bool.or_false]
  split
  · exact .pure ⟨rfl, rfl⟩
  · unfold Scan.extra
    split <;> exact .pure ⟨rfl, rfl⟩

theorem fields_accept (alloc : (n : Nat) → Vector UInt8 n) (st : Scan)
    (hSub : ∀ f ∈ fs, f.isSub → ∃ n segs, Counted (f.value b) n segs) :
    Returns (st.fields alloc b (fs.map some)) fun r =>
      r.2 = .ok ∧ r.1.hasMtype = (st.hasMtype || fs.any fun f => f.givesMtype b) := by
  induction fs generalizing st with
  | nil => exact .pure ⟨rfl, (Bool.or_false _).symm⟩
  | cons f fs ih =>
      rw [List.map_cons, Scan.fields]
      refine (field_accepts alloc st (hSub f List.mem_cons_self)).bind ?_
      rintro ⟨st', status⟩ ⟨rfl, hMtype⟩
      refine (ih st' fun g hg => hSub g (List.mem_cons_of_mem _ hg)).mono ?_
      rintro r ⟨hOk, hAll⟩
      refine ⟨hOk, ?_⟩
      rw [hAll, hMtype, List.any_cons, Bool.or_assoc]

/-- A message with a subject that decodes and an allowed type is accepted. -/
theorem unpack_accepts {iterate : Text → Option (List (Option RvField))}
    (alloc : (n : Nat) → Vector UInt8 n) (m : RvEnvelope) (hFields : iterate b = some (fs.map some))
    (hSub : ∀ f ∈ fs, f.isSub → ∃ n segs, Counted (f.value b) n segs)
    (hMtype : fs.any (fun f => f.givesMtype b) = true) :
    Returns (unpack iterate alloc m b) fun r => r.status = .ok := by
  unfold unpack
  rw [hFields]
  refine (fields_accept alloc { msgIn := m } hSub).bind ?_
  rintro ⟨st, status⟩ ⟨rfl, hHas⟩
  have hClear : Returns st.clear fun _ => True := by
    have hKeep : Returns st.keepSub fun _ => True := by
      unfold Scan.keepSub
      split
      · exact .pure trivial
      · unfold RvMsgIn.store
        rw [dif_pos (by decide : 0 < 64)]
        exact .pure trivial
    exact hKeep.bind fun _ _ => .pure trivial
  refine hClear.bind fun e _ => .pure ?_
  have hTrue : st.hasMtype = true := by rw [hHas, hMtype, Bool.or_true]
  exact if_pos hTrue

/-- The extra fields that are forwarded are all of them and in order unless those in front
of the data are left behind. -/
theorem unpack_forwards (iterate : Text → Option (List (Option RvField)))
    (alloc : (n : Nat) → Vector UInt8 n) (m : RvEnvelope) (b : Text) (r : Unpacked)
    (hIterates : Iterates iterate) (hRun : unpack iterate alloc m b = .ok r)
    (hOk : r.status = .ok) :
    ∃ fs, iterate b = some (fs.map some) ∧
      (Forwards b fs r ↔ ReplyFits fs ∧ WholeSuffix b fs) := by
  obtain ⟨fs, st, e, hFields, hRead, hMtype, rfl⟩ := unpack_read hIterates hRun hOk
  refine ⟨fs, hFields, ?_⟩
  constructor
  · intro h
    exact ⟨hRead.reply_iff.mp h.reply, hRead.suffix_iff.mp h.suffix⟩
  · rintro ⟨hFits, hWhole⟩
    have hSuffix := hRead.suffix_iff.mpr hWhole
    refine ⟨hRead.subject_kept, hRead.mtype_kept hMtype, hRead.reply_iff.mpr hFits, ?_, hSuffix,
      hRead.forwarded hSuffix⟩
    cases hLast : lastField RvField.isData fs with
    | none =>
        have hHas : st.hasData = false :=
          hRead.scanned.hasData.trans (lastField_eq_none.mp hLast)
        have hSame : suffixExtras st e b = (e, b) := by simp [suffixExtras, hHas]
        obtain ⟨-, hData, -⟩ := Scan.clear_spec hRead.cleared
        rw [hHas, if_neg Bool.false_ne_true] at hData
        unfold Unpacked.dataBytes Read.result
        rw [hSame]
        dsimp only
        rw [hData]
        exact List.take_zero
    | some d => exact hRead.data_kept hLast

/-- An iterator that knows one message. -/
def oneMessage (b₀ : Text) (fs₀ : List RvField) (b : Text) : Option (List (Option RvField)) :=
  if b = b₀ then some (fs₀.map some) else none

theorem oneMessage_iterates {b₀ : Text} {fs₀ : List RvField} (hTiles : Tiles 8 fs₀ b₀.length)
    (hInside : ∀ f ∈ fs₀, (f.fieldStart ≤ f.fptr ∧ f.fptr + f.fsize ≤ f.fieldEnd) ∧
      (f.isData → f.fptr + f.fsize = f.fieldEnd)) : Iterates (oneMessage b₀ fs₀) := by
  have hOnly : ∀ {b fs}, oneMessage b₀ fs₀ b = some (fs.map some) → b = b₀ ∧ fs = fs₀ := by
    intro b fs h
    unfold oneMessage at h
    split at h
    · refine ⟨‹_›, ?_⟩
      exact (List.map_injective_iff.mpr (Option.some_injective _) (Option.some.inj h)).symm
    · cases h
  constructor
  · intro b fs h
    obtain ⟨rfl, rfl⟩ := hOnly h
    exact ⟨8, by decide, hTiles⟩
  · intro b fs f h hMem
    obtain ⟨rfl, rfl⟩ := hOnly h
    exact (hInside f hMem).1
  · intro b fs f h hMem
    obtain ⟨rfl, rfl⟩ := hOnly h
    exact (hInside f hMem).2

def sampleA (start : Nat) : RvField := ⟨text "a" ++ [0], start, start + 7, start + 5, 2, .mdString⟩

def sampleMtype (start : Nat) : RvField := ⟨nameMtype, start, start + 11, start + 9, 2, .mdString⟩

def sampleSub (start : Nat) : RvField := ⟨nameSub, start, start + 11, start + 7, 4, .other⟩

def sampleData (start : Nat) : RvField := ⟨nameData, start, start + 10, start + 8, 2, .other⟩

def bytesA : Text := [2, 97, 0, 8, 2, 112, 0]

def bytesMtype : Text := [6, 109, 116, 121, 112, 101, 0, 8, 2, 68, 0]

def bytesSub : Text := [4, 115, 117, 98, 0, 2, 4, 1, 3, 65, 0]

def bytesData : Text := [5, 100, 97, 116, 97, 0, 7, 2, 1, 2]

def messageHeader : Text := [0, 0, 0, 54, 0x99, 0x55, 0xee, 0xaa]

/-- A field to be forwarded on both sides of the data. -/
def neatMessage : Text := messageHeader ++ bytesMtype ++ bytesSub ++ bytesA ++ bytesData ++ bytesA

def neatFields : List RvField :=
  [sampleMtype 8, sampleSub 19, sampleA 30, sampleData 37, sampleA 47]

/-- The first of the fields to be forwarded is apart from the data. -/
def tornMessage : Text := messageHeader ++ bytesA ++ bytesMtype ++ bytesSub ++ bytesData ++ bytesA

def tornFields : List RvField :=
  [sampleA 8, sampleMtype 15, sampleSub 26, sampleData 37, sampleA 47]

def sampleEnvelope : RvEnvelope := { toRvMsgIn := sampleMsgIn }

theorem sample_counted : Counted [1, 3, 65, 0] 1 [⟨[65], 0, by decide⟩] :=
  ⟨by decide, rfl, rfl, by decide⟩

theorem neat_iterates : Iterates (oneMessage neatMessage neatFields) :=
  oneMessage_iterates
    ⟨rfl, by decide, rfl, by decide, rfl, by decide, rfl, by decide, rfl, by decide, rfl⟩ (by decide)

theorem torn_tiles : Tiles 8 tornFields tornMessage.length :=
  ⟨rfl, by decide, rfl, by decide, rfl, by decide, rfl, by decide, rfl, by decide, rfl⟩

theorem torn_iterates : Iterates (oneMessage tornMessage tornFields) :=
  oneMessage_iterates torn_tiles (by decide)

theorem sample_accepted {b₀ : Text} {fs₀ : List RvField}
    (hSub : ∀ f ∈ fs₀, f.isSub → f.value b₀ = [1, 3, 65, 0])
    (hMtype : fs₀.any (fun f => f.givesMtype b₀) = true) :
    Returns (unpack (oneMessage b₀ fs₀) (fun n => .replicate n 0) sampleEnvelope b₀) fun r =>
      r.status = .ok := by
  refine unpack_accepts _ _ (if_pos rfl) (fun f hf hKind => ?_) hMtype
  rw [hSub f hf hKind]
  exact ⟨1, _, sample_counted⟩

theorem unpack_forwards_quotes : ∃ r,
    unpack (oneMessage neatMessage neatFields) (fun n => .replicate n 0) sampleEnvelope neatMessage =
      .ok r ∧ Forwards neatMessage neatFields r := by
  obtain ⟨r, hRun, hOk⟩ : Returns (unpack (oneMessage neatMessage neatFields)
      (fun n => .replicate n 0) sampleEnvelope neatMessage) fun r => r.status = .ok :=
    sample_accepted (by decide) (by decide)
  obtain ⟨fs, hFields, hIff⟩ := unpack_forwards (oneMessage neatMessage neatFields)
    (fun n => .replicate n 0) sampleEnvelope neatMessage r neat_iterates hRun hOk
  have hSame : some (neatFields.map some) = some (fs.map some) := hFields
  obtain rfl : neatFields = fs :=
    List.map_injective_iff.mpr (Option.some_injective _) (Option.some.inj hSame)
  refine ⟨r, hRun, hIff.mpr ⟨?_, .inl ?_⟩⟩
  · have hNone : lastField RvField.isReturn neatFields = none := by decide
    intro f hLast
    cases hNone.symm.trans hLast
  · exact ⟨[sampleMtype 8, sampleSub 19], [sampleA 30], sampleData 37, [sampleA 47], rfl, by decide,
      by decide, by decide, by decide, by decide⟩

/-- The field behind the data is forwarded, the one in front of the envelope is not. -/
theorem torn_suffix : ∃ r,
    unpack (oneMessage tornMessage tornFields) (fun n => .replicate n 0) sampleEnvelope tornMessage =
      .ok r ∧ r.status = .ok ∧ ¬ Forwards tornMessage tornFields r := by
  obtain ⟨r, hRun, hOk⟩ : Returns (unpack (oneMessage tornMessage tornFields)
      (fun n => .replicate n 0) sampleEnvelope tornMessage) fun r => r.status = .ok :=
    sample_accepted (by decide) (by decide)
  refine ⟨r, hRun, hOk, fun hForwards => ?_⟩
  obtain ⟨fs, st, e, hFields, hRead, -, rfl⟩ := unpack_read torn_iterates hRun hOk
  have hSame : some (tornFields.map some) = some (fs.map some) := hFields
  obtain rfl : tornFields = fs :=
    List.map_injective_iff.mpr (Option.some_injective _) (Option.some.inj hSame)
  rcases hRead.suffix_iff.mp hForwards.suffix with hAdjoining | hNone | hDiffer | ⟨hEmpty, -⟩
  · have hLast : lastField RvField.isData tornFields = some (sampleData 37) := by decide
    exact absurd ((adjoining_iff torn_tiles (by decide) hLast).mpr hAdjoining) (by decide)
  · exact absurd hNone (by decide)
  · exact hDiffer (by decide)
  · exact absurd hEmpty (by decide)

end Sassrv.Daemon
