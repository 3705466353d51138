import Sassrv.Lib.Spans
import Sassrv.Rv7.Msg

/-! `UpdGeom` on the bytes of a message. The bytes behind a field are saved, the
writer goes back to the start of the field, and `fin` puts the saved bytes behind what
was written there; when that ends where the field ended, they are still in place. -/
namespace Sassrv.Rv7
open SubMgr Spans

universe u
variable {V : Type u}

/-- `RvMsgWriter`: the bytes written so far, and the offset of the next one. -/
structure RvMsgWriter where
  buf : List UInt8
  off : Nat
  deriving DecidableEq

/-- A field with its `field_start` and `field_end`. -/
structure Located (V : Type u) where
  field : Field V
  fieldStart : Nat
  fieldEnd : Nat

/-- The wire format of raimd: the eight bytes of a header for a message of some size,
the bytes of a field, the reader, and the calls that write at the offset. -/
structure Codec (V : Type u) where
  header : Nat → List UInt8
  encode : Field V → List UInt8
  unpack : List UInt8 → List (Located V)
  append : RvMsgWriter → Field V → RvMsgWriter
  appendBuffer : RvMsgWriter → List UInt8 → RvMsgWriter

def Codec.encodeAll (codec : Codec V) (fields : List (Field V)) : List UInt8 :=
  fields.flatMap codec.encode

/-- The fields of a message with where they lie, from an offset on. -/
def Codec.located (codec : Codec V) : Nat → List (Field V) → List (Located V)
  | _, [] => []
  | off, f :: rest =>
      ⟨f, off, off + (codec.encode f).length⟩ ::
        codec.located (off + (codec.encode f).length) rest

/-- `w'` is `w` with some bytes written at the offset. The bytes before it stay, and
so do the bytes behind when the last one lies within what was written before. -/
structure Appends (w w' : RvMsgWriter) (bytes : List UInt8) : Prop where
  off : w'.off = w.off + bytes.length
  kept : w'.buf.take w'.off = w.buf.take w.off ++ bytes
  rest : w'.off ≤ w.buf.length → w'.buf.drop w'.off = w.buf.drop w'.off

/-- What the code relies on: appends write at the offset, and the reader finds the
fields where they are. -/
structure Codec.Exact (codec : Codec V) : Prop where
  header : ∀ size, (codec.header size).length = 8
  append : ∀ w f, w.off ≤ w.buf.length → Appends w (codec.append w f) (codec.encode f)
  appendBuffer : ∀ w data, w.off ≤ w.buf.length → Appends w (codec.appendBuffer w data) data
  unpack : ∀ fields, codec.unpack (codec.header (8 + (codec.encodeAll fields).length) ++
    codec.encodeAll fields) = codec.located 8 fields

/-- `update_hdr`. -/
def updateHdr (codec : Codec V) (w : RvMsgWriter) : RvMsgWriter :=
  { w with buf := write w.buf 0 (codec.header w.off) }

structure UpdGeom (V : Type u) where
  wr : RvMsgWriter
  rd : List (Located V)
  fldData : List UInt8 := []
  fldSize : Nat := 0
  fldEnd : Nat := 0

def UpdGeom.new (codec : Codec V) (w : RvMsgWriter) : UpdGeom V :=
  { wr := updateHdr codec w, rd := codec.unpack ((updateHdr codec w).buf.take w.off) }

/-- `prefix`. -/
def UpdGeom.prefixField (g : UpdGeom V) (fld : Located V) : UpdGeom V :=
  let g := { g with fldEnd := fld.fieldEnd }
  let g :=
    if fld.fieldEnd < g.wr.off then
      { g with
        fldSize := g.wr.off - fld.fieldEnd
        fldData := slice g.wr.buf fld.fieldEnd g.wr.off }
    else g
  { g with wr := { g.wr with off := fld.fieldStart } }

/-- The constructor with a name goes to the first field of the name. -/
def UpdGeom.find (codec : Codec V) (env : MsgEnv V) (w : RvMsgWriter) (nm : Text) : UpdGeom V :=
  let g := UpdGeom.new codec w
  match g.rd.find? fun fld => env.isNamed nm fld.field with
  | some fld => g.prefixField fld
  | none => g

def UpdGeom.fin (codec : Codec V) (g : UpdGeom V) : RvMsgWriter :=
  if 0 < g.fldSize then
    if g.wr.off ≠ g.fldEnd then codec.appendBuffer g.wr g.fldData
    else { g.wr with off := g.wr.off + g.fldSize }
  else g.wr

/-- The `Update*Ex` calls; they differ in what they append. -/
def RvMsgWriter.updateEx (codec : Codec V) (env : MsgEnv V) (w : RvMsgWriter)
    (name : Option Text) (id : BitVec 16) (value : V) : RvMsgWriter :=
  let nm := fnameArg name id
  let g := UpdGeom.find codec env w nm
  { g with wr := codec.append g.wr ⟨nm, value⟩ }.fin codec

def RvMsgWriter.removeFieldEx (codec : Codec V) (env : MsgEnv V) (w : RvMsgWriter)
    (name : Option Text) (id : BitVec 16) : RvMsgWriter :=
  (UpdGeom.find codec env w (fnameArg name id)).fin codec

/-- The loop of `RemoveFieldInstance`. -/
def findInstance (named : Field V → Bool) : Nat → List (Located V) → Option (Located V)
  | 0, _ => none
  | _, [] => none
  | inst + 1, fld :: rest =>
      if named fld.field then
        if inst = 0 then some fld else findInstance named inst rest
      else findInstance named (inst + 1) rest

/-- The writer afterwards, and whether the call returns `TIBRV_OK`; it returns
`TIBRV_NOT_FOUND` otherwise. -/
def RvMsgWriter.removeFieldInstance (codec : Codec V) (env : MsgEnv V) (w : RvMsgWriter)
    (name : Option Text) (inst : Nat) : RvMsgWriter × Bool :=
  let g := UpdGeom.new codec w
  match findInstance (env.isNamed (fnameArg name 0)) inst g.rd with
  | some fld => ((g.prefixField fld).fin codec, true)
  | none => (g.wr, false)

/-- The writer holds the bytes of these fields behind a header. -/
def Codec.Holds (codec : Codec V) (w : RvMsgWriter) (fields : List (Field V)) : Prop :=
  ∃ hdr rest, w.buf = hdr ++ codec.encodeAll fields ++ rest ∧ hdr.length = 8 ∧
    w.off = (hdr ++ codec.encodeAll fields).length

variable {codec : Codec V} {env : MsgEnv V} {w w' : RvMsgWriter} {fields : List (Field V)}

theorem Appends.refl (w : RvMsgWriter) : Appends w w [] :=
  ⟨rfl, (List.append_nil _).symm, fun _ => rfl⟩

/-- The bytes of a writer that appended behind some others. -/
theorem Appends.split {front bytes : List UInt8} (h : Appends w w' bytes)
    (hFront : w.buf.take w.off = front) (hOff : w.off = front.length) :
    w'.off = (front ++ bytes).length ∧ w'.buf = front ++ bytes ++ w'.buf.drop w'.off := by
  refine ⟨by rw [h.off, hOff, List.length_append], ?_⟩
  rw [← hFront, ← h.kept, List.take_append_drop]

section Geometry
variable {g : UpdGeom V} {fld : Located V} {front mid back rest bytes : List UInt8}

theorem prefixField_wr (g : UpdGeom V) (fld : Located V) :
    (g.prefixField fld).wr = { g.wr with off := fld.fieldStart } := by
  unfold UpdGeom.prefixField
  dsimp only
  split <;> rfl

theorem prefixField_end (g : UpdGeom V) (fld : Located V) :
    (g.prefixField fld).fldEnd = fld.fieldEnd := by
  unfold UpdGeom.prefixField
  dsimp only
  split <;> rfl

/-- What is saved of the bytes behind the field. -/
theorem prefixField_saved (hNew : g.fldSize = 0)
    (hBuf : g.wr.buf = front ++ mid ++ back ++ rest)
    (hOff : g.wr.off = (front ++ mid ++ back).length) (hEnd : fld.fieldEnd = (front ++ mid).length) :
    (g.prefixField fld).fldSize = back.length ∧
      (back ≠ [] → (g.prefixField fld).fldData = back) := by
  have hBack : g.wr.off - fld.fieldEnd = back.length := by
    have hSum : (front ++ mid ++ back).length = (front ++ mid).length + back.length :=
      List.length_append
    rw [hOff, hEnd, hSum]
    exact Nat.add_sub_cancel_left ..
  unfold UpdGeom.prefixField
  dsimp only
  split
  case isTrue _ =>
      refine ⟨hBack, fun _ => ?_⟩
      rw [hBuf]
      exact slice_of_append hEnd (by rw [hOff, List.length_append])
  case isFalse hLast =>
      have hNone : back.length = 0 := by omega
      exact ⟨by rw [hNew, hNone], fun h => absurd (List.length_eq_zero_iff.mp hNone) h⟩

/-- `fin` puts the bytes behind the field after whatever was written in its place. -/
theorem fin_restores (hExact : codec.Exact) (hNew : g.fldSize = 0)
    (hBuf : g.wr.buf = front ++ mid ++ back ++ rest)
    (hOff : g.wr.off = (front ++ mid ++ back).length) (hStart : fld.fieldStart = front.length)
    (hEnd : fld.fieldEnd = (front ++ mid).length)
    (hAppends : Appends (g.prefixField fld).wr w' bytes) :
    ∃ rest', ({ g.prefixField fld with wr := w' }.fin codec).buf =
        front ++ bytes ++ back ++ rest' ∧
      ({ g.prefixField fld with wr := w' }.fin codec).off = (front ++ bytes ++ back).length := by
  obtain ⟨hSize, hData⟩ := prefixField_saved hNew hBuf hOff hEnd
  have hWr := prefixField_wr g fld
  have hFront : (g.prefixField fld).wr.buf.take (g.prefixField fld).wr.off = front := by
    rw [hWr, hStart, hBuf, List.append_assoc, List.append_assoc]
    exact List.take_left
  obtain ⟨hAt, hWritten⟩ := hAppends.split hFront (by rw [hWr, hStart])
  unfold UpdGeom.fin
  dsimp only
  rw [hSize, prefixField_end]
  by_cases hBack : back = []
  · -- the field was the last one
    rw [hBack, if_neg (by simp), List.append_nil]
    exact ⟨_, hWritten, hAt⟩
  · rw [if_pos (List.length_pos_iff.mpr hBack), hData hBack]
    by_cases hSame : w'.off = fld.fieldEnd
    · -- the saved bytes are still in place
      have hRest : w'.buf.drop w'.off = back ++ rest := by
        rw [hAppends.rest, hWr, hBuf, hSame, hEnd, List.append_assoc (front ++ mid)]
        · exact List.drop_left
        · rw [hWr, hBuf, hSame, hEnd]
          simp only [List.length_append]
          omega
      rw [if_neg (not_not.mpr hSame)]
      refine ⟨rest, ?_, by rw [hAt, ← List.length_append]⟩
      rw [hRest] at hWritten
      rw [hWritten, List.append_assoc (front ++ bytes)]
    · rw [if_pos hSame]
      have hBound : w'.off ≤ w'.buf.length := by
        rw [hWritten, List.length_append, ← hAt]
        exact Nat.le_add_right _ _
      have hTake : w'.buf.take w'.off = front ++ bytes := by rw [hAppends.kept, hFront]
      obtain ⟨hAt', hBuf'⟩ := (hExact.appendBuffer w' back hBound).split hTake hAt
      exact ⟨_, hBuf', hAt'⟩

end Geometry

@[simp] theorem Codec.encodeAll_append (fields fields' : List (Field V)) :
    codec.encodeAll (fields ++ fields') = codec.encodeAll fields ++ codec.encodeAll fields' :=
  List.flatMap_append

@[simp] theorem Codec.encodeAll_singleton (f : Field V) :
    codec.encodeAll [f] = codec.encode f := List.flatMap_singleton _ f

theorem located_append (off : Nat) (pre post : List (Field V)) :
    codec.located off (pre ++ post) =
      codec.located off pre ++ codec.located (off + (codec.encodeAll pre).length) post := by
  induction pre generalizing off with
  | nil => rfl
  | cons f pre ih =>
      have hSize : (codec.encodeAll (f :: pre)).length =
          (codec.encode f).length + (codec.encodeAll pre).length := by
        rw [Codec.encodeAll, List.flatMap_cons, List.length_append]
        rfl
      rw [List.cons_append, Codec.located, Codec.located, ih, hSize, Nat.add_assoc]
      rfl

theorem located_fields (off : Nat) (fields : List (Field V)) :
    (codec.located off fields).map Located.field = fields := by
  induction fields generalizing off with
  | nil => rfl
  | cons f fields ih => rw [Codec.located, List.map_cons, ih]

theorem findInstance_append (named : Field V → Bool) (xs ys : List (Located V)) (inst : Nat) :
    findInstance named (inst + 1 + (xs.map Located.field).countP named) (xs ++ ys) =
      findInstance named (inst + 1) ys := by
  induction xs with
  | nil => rfl
  | cons x xs ih =>
      rw [List.map_cons, List.countP_cons, List.cons_append]
      split
      case isTrue hIs =>
          rw [← Nat.add_assoc, findInstance, if_pos hIs, if_neg (by omega), ih]
      case isFalse hNot =>
          have hCount : ∀ c, inst + 1 + (c + 0) = inst + c + 1 := by omega
          rw [hCount, findInstance, if_neg hNot, ← ih, Nat.add_right_comm]

theorem findInstance_none {named : Field V → Bool} {xs : List (Located V)} {inst : Nat}
    (h : inst = 0 ∨ (xs.map Located.field).countP named < inst) :
    findInstance named inst xs = none := by
  fun_induction findInstance named inst xs with
  | case1 => rfl
  | case2 => rfl
  | case3 fld rest hIs =>
      rw [List.map_cons, List.countP_cons, if_pos hIs] at h
      omega
  | case4 inst fld rest hIs hMore ih =>
      rw [List.map_cons, List.countP_cons, if_pos hIs] at h
      exact ih (.inr (by omega))
  | case5 inst fld rest hNot ih =>
      rw [List.map_cons, List.countP_cons, if_neg hNot] at h
      exact ih (.inr (by omega))

/-- A field behind others, where it lies in the message. -/
def Codec.locate (codec : Codec V) (pre : List (Field V)) (f : Field V) : Located V :=
  ⟨f, 8 + (codec.encodeAll pre).length, 8 + (codec.encodeAll (pre ++ [f])).length⟩

theorem located_split (pre post : List (Field V)) (f : Field V) :
    codec.located 8 (pre ++ f :: post) =
      codec.located 8 pre ++ codec.locate pre f ::
        codec.located (8 + (codec.encodeAll (pre ++ [f])).length) post := by
  rw [located_append, Codec.located, Codec.locate, Codec.encodeAll_append,
    Codec.encodeAll_singleton, List.length_append, Nat.add_assoc]

theorem located_absent {nm : Text} {off : Nat} (h : ∀ x ∈ fields, env.isNamed nm x = false) :
    (codec.located off fields).find? (fun fld => env.isNamed nm fld.field) = none := by
  rw [List.find?_eq_none]
  intro fld hMem
  have hField : fld.field ∈ fields := by
    rw [← @located_fields _ codec off fields]
    exact List.mem_map_of_mem hMem
  rw [h _ hField]
  exact Bool.false_ne_true

section Fields
variable (hExact : codec.Exact)
include hExact

theorem new_spec (hHolds : codec.Holds w fields) :
    (UpdGeom.new codec w).rd = codec.located 8 fields ∧ (UpdGeom.new codec w).fldSize = 0 ∧
      codec.Holds (UpdGeom.new codec w).wr fields := by
  obtain ⟨hdr, rest, hBuf, hHdr, hOff⟩ := hHolds
  have hHeader := hExact.header w.off
  have hNew : (updateHdr codec w).buf = codec.header w.off ++ codec.encodeAll fields ++ rest := by
    rw [updateHdr, write, hBuf, List.take_zero, List.nil_append, Nat.zero_add, hHeader,
      List.append_assoc hdr, List.drop_left' hHdr, List.append_assoc]
  have hEnd : w.off = (codec.header w.off ++ codec.encodeAll fields).length := by
    rw [List.length_append, hHeader, hOff, List.length_append, hHdr]
  refine ⟨?_, rfl, _, rest, hNew, hHeader, hEnd⟩
  have hSize : w.off = 8 + (codec.encodeAll fields).length := by
    rw [hOff, List.length_append, hHdr]
  rw [UpdGeom.new, hNew, List.take_left' hEnd.symm, hSize]
  exact hExact.unpack fields

/-- What is written in the place of one field leaves the others as they are. -/
theorem fin_holds {pre post repl : List (Field V)} {f : Field V}
    (hHolds : codec.Holds w (pre ++ f :: post))
    (hAppends : Appends ((UpdGeom.new codec w).prefixField (codec.locate pre f)).wr w'
      (codec.encodeAll repl)) :
    codec.Holds
      ({ (UpdGeom.new codec w).prefixField (codec.locate pre f) with wr := w' }.fin codec)
      (pre ++ repl ++ post) := by
  obtain ⟨-, hSize, hdr, rest, hBuf, hHdr, hOff⟩ := new_spec hExact hHolds
  have hAll : hdr ++ codec.encodeAll (pre ++ f :: post) =
      hdr ++ codec.encodeAll pre ++ codec.encode f ++ codec.encodeAll post := by
    rw [← List.singleton_append, Codec.encodeAll_append, Codec.encodeAll_append,
      Codec.encodeAll_singleton]
    simp only [List.append_assoc]
  rw [hAll] at hBuf hOff
  obtain ⟨rest', hBuf', hOff'⟩ := fin_restores hExact hSize hBuf hOff
    (by rw [Codec.locate, List.length_append, hHdr])
    (by simp only [Codec.locate, Codec.encodeAll_append, Codec.encodeAll_singleton,
          List.length_append, hHdr, Nat.add_assoc]) hAppends
  have hBytes : hdr ++ codec.encodeAll pre ++ codec.encodeAll repl ++ codec.encodeAll post =
      hdr ++ codec.encodeAll (pre ++ repl ++ post) := by
    simp only [Codec.encodeAll_append, List.append_assoc]
  rw [hBytes] at hBuf' hOff'
  exact ⟨hdr, rest', hBuf', hHdr, hOff'⟩

theorem find_first {pre post : List (Field V)} {f : Field V} {nm : Text}
    (hHolds : codec.Holds w (pre ++ f :: post)) (hBefore : ∀ x ∈ pre, env.isNamed nm x = false)
    (hIs : env.isNamed nm f = true) :
    UpdGeom.find codec env w nm = (UpdGeom.new codec w).prefixField (codec.locate pre f) := by
  unfold UpdGeom.find
  dsimp only
  rw [(new_spec hExact hHolds).1, located_split, List.find?_append, located_absent hBefore,
    Option.none_or, List.find?_cons_of_pos]
  exact hIs

theorem find_absent {nm : Text} (hHolds : codec.Holds w fields)
    (hAbsent : ∀ x ∈ fields, env.isNamed nm x = false) :
    UpdGeom.find codec env w nm = UpdGeom.new codec w := by
  unfold UpdGeom.find
  dsimp only
  rw [(new_spec hExact hHolds).1, located_absent hAbsent]

/-- The writer goes back to an offset within its bytes. -/
theorem prefixField_inside {pre post : List (Field V)} {f : Field V}
    (hHolds : codec.Holds w (pre ++ f :: post)) :
    ((UpdGeom.new codec w).prefixField (codec.locate pre f)).wr.off ≤
      ((UpdGeom.new codec w).prefixField (codec.locate pre f)).wr.buf.length := by
  obtain ⟨-, -, hdr, rest, hBuf, hHdr, -⟩ := new_spec hExact hHolds
  rw [prefixField_wr, hBuf, Codec.locate]
  simp only [Codec.encodeAll_append, List.length_append, hHdr]
  omega

/-- An `Update*Ex` puts its field in the place of the first one of the name. -/
theorem updateEx_replaces {pre post : List (Field V)} {f : Field V} {name : Option Text}
    {id : BitVec 16} (hHolds : codec.Holds w (pre ++ f :: post))
    (hBefore : ∀ x ∈ pre, env.isNamed (fnameArg name id) x = false)
    (hIs : env.isNamed (fnameArg name id) f = true) (value : V) :
    codec.Holds (w.updateEx codec env name id value)
      (pre ++ [⟨fnameArg name id, value⟩] ++ post) := by
  unfold RvMsgWriter.updateEx
  dsimp only
  rw [find_first hExact hHolds hBefore hIs]
  refine fin_holds hExact hHolds ?_
  rw [Codec.encodeAll_singleton]
  exact hExact.append _ _ (prefixField_inside hExact hHolds)

/-- Without such a field it comes last. -/
theorem updateEx_adds {name : Option Text} {id : BitVec 16} (hHolds : codec.Holds w fields)
    (hAbsent : ∀ x ∈ fields, env.isNamed (fnameArg name id) x = false) (value : V) :
    codec.Holds (w.updateEx codec env name id value) (fields ++ [⟨fnameArg name id, value⟩]) := by
  obtain ⟨-, hSize, hdr, rest, hBuf, hHdr, hOff⟩ := new_spec hExact hHolds
  have hBound : (UpdGeom.new codec w).wr.off ≤ (UpdGeom.new codec w).wr.buf.length := by
    have hSum : (hdr ++ codec.encodeAll fields ++ rest).length =
        (hdr ++ codec.encodeAll fields).length + rest.length := List.length_append
    rw [hBuf, hOff, hSum]
    exact Nat.le_add_right _ _
  have hTake : (UpdGeom.new codec w).wr.buf.take (UpdGeom.new codec w).wr.off =
      hdr ++ codec.encodeAll fields := by
    rw [hBuf, hOff, List.take_left]
  obtain ⟨hOff', hBuf'⟩ :=
    (hExact.append _ ⟨fnameArg name id, value⟩ hBound).split hTake hOff
  unfold RvMsgWriter.updateEx
  dsimp only
  rw [find_absent hExact hHolds hAbsent, UpdGeom.fin]
  dsimp only
  rw [hSize, if_neg (Nat.lt_irrefl 0)]
  rw [List.append_assoc hdr, ← Codec.encodeAll_singleton, ← Codec.encodeAll_append]
    at hOff' hBuf'
  exact ⟨hdr, _, hBuf', hHdr, hOff'⟩

theorem removeFieldEx_erases {pre post : List (Field V)} {f : Field V} {name : Option Text}
    {id : BitVec 16} (hHolds : codec.Holds w (pre ++ f :: post))
    (hBefore : ∀ x ∈ pre, env.isNamed (fnameArg name id) x = false)
    (hIs : env.isNamed (fnameArg name id) f = true) :
    codec.Holds (w.removeFieldEx codec env name id) (pre ++ post) := by
  have hNothing : Appends ((UpdGeom.new codec w).prefixField (codec.locate pre f)).wr _
      (codec.encodeAll []) := Appends.refl _
  rw [RvMsgWriter.removeFieldEx, find_first hExact hHolds hBefore hIs]
  simpa using fin_holds hExact hHolds hNothing

theorem removeFieldEx_keeps {name : Option Text} {id : BitVec 16} (hHolds : codec.Holds w fields)
    (hAbsent : ∀ x ∈ fields, env.isNamed (fnameArg name id) x = false) :
    codec.Holds (w.removeFieldEx codec env name id) fields := by
  obtain ⟨-, hSize, hNew⟩ := new_spec hExact hHolds
  rw [RvMsgWriter.removeFieldEx, find_absent hExact hHolds hAbsent, UpdGeom.fin, hSize,
    if_neg (Nat.lt_irrefl 0)]
  exact hNew

theorem removeFieldInstance_erases {pre post : List (Field V)} {f : Field V}
    {name : Option Text} (hHolds : codec.Holds w (pre ++ f :: post))
    (hIs : env.isNamed (fnameArg name 0) f = true) :
    codec.Holds
      (w.removeFieldInstance codec env name (pre.countP (env.isNamed (fnameArg name 0)) + 1)).1
      (pre ++ post) := by
  have hFound : findInstance (env.isNamed (fnameArg name 0))
      (pre.countP (env.isNamed (fnameArg name 0)) + 1) (UpdGeom.new codec w).rd =
        some (codec.locate pre f) := by
    have hCount := findInstance_append (env.isNamed (fnameArg name 0)) (codec.located 8 pre)
      (codec.locate pre f :: codec.located (8 + (codec.encodeAll (pre ++ [f])).length) post) 0
    rw [located_fields, Nat.zero_add, Nat.add_comm 1] at hCount
    rw [(new_spec hExact hHolds).1, located_split, hCount, findInstance,
      if_pos (by exact hIs), if_pos rfl]
  unfold RvMsgWriter.removeFieldInstance
  dsimp only
  have hNothing : Appends ((UpdGeom.new codec w).prefixField (codec.locate pre f)).wr _
      (codec.encodeAll []) := Appends.refl _
  rw [hFound]
  simpa using fin_holds hExact hHolds hNothing

theorem removeFieldInstance_keeps {name : Option Text} {inst : Nat}
    (hHolds : codec.Holds w fields)
    (h : inst = 0 ∨ fields.countP (env.isNamed (fnameArg name 0)) < inst) :
    codec.Holds (w.removeFieldInstance codec env name inst).1 fields := by
  obtain ⟨hRd, -, hNew⟩ := new_spec hExact hHolds
  unfold RvMsgWriter.removeFieldInstance
  dsimp only
  rw [hRd, findInstance_none (by rwa [located_fields])]
  exact hNew

/-- An update replaces the first field of its name or comes last, and a removal takes
out the first field, or the one of the number, of its name; the bytes of all other
fields stay in their order. -/
theorem fields_in_place (hHolds : codec.Holds w fields) (name : Option Text) (id : BitVec 16)
    (value : V) (inst : Nat) :
    (∀ pre f post, fields = pre ++ f :: post →
      (∀ x ∈ pre, env.isNamed (fnameArg name id) x = false) →
      env.isNamed (fnameArg name id) f = true →
        codec.Holds (w.updateEx codec env name id value)
            (pre ++ [⟨fnameArg name id, value⟩] ++ post) ∧
          codec.Holds (w.removeFieldEx codec env name id) (pre ++ post)) ∧
    ((∀ x ∈ fields, env.isNamed (fnameArg name id) x = false) →
      codec.Holds (w.updateEx codec env name id value) (fields ++ [⟨fnameArg name id, value⟩]) ∧
        codec.Holds (w.removeFieldEx codec env name id) fields) ∧
    (∀ pre f post, fields = pre ++ f :: post → env.isNamed (fnameArg name 0) f = true →
      inst = pre.countP (env.isNamed (fnameArg name 0)) + 1 →
        codec.Holds (w.removeFieldInstance codec env name inst).1 (pre ++ post)) ∧
    (inst = 0 ∨ fields.countP (env.isNamed (fnameArg name 0)) < inst →
      codec.Holds (w.removeFieldInstance codec env name inst).1 fields) := by
  refine ⟨?_, ?_, ?_, removeFieldInstance_keeps hExact hHolds⟩
  · rintro pre f post rfl hBefore hIs
    exact ⟨updateEx_replaces hExact hHolds hBefore hIs value,
      removeFieldEx_erases hExact hHolds hBefore hIs⟩
  · intro hAbsent
    exact ⟨updateEx_adds hExact hHolds hAbsent value, removeFieldEx_keeps hExact hHolds hAbsent⟩
  · rintro pre f post rfl hIs rfl
    exact removeFieldInstance_erases hExact hHolds hIs

end Fields

/-! Strings on the wire, with a size of one byte where it is short. -/

def sizeBytes (n : Nat) : List UInt8 := List.replicate (n / 255) 255 ++ [UInt8.ofNat (n % 255)]

def readSize : List UInt8 → Nat × List UInt8
  | [] => (0, [])
  | b :: rest =>
      if b = 255 then ((readSize rest).1 + 255, (readSize rest).2) else (b.toNat, rest)

def encodeString (f : Field Text) : List UInt8 :=
  sizeBytes f.name.length ++ f.name ++ [8] ++ sizeBytes f.value.length ++ f.value

def readString (bytes : List UInt8) : Field Text × List UInt8 :=
  let name := readSize bytes
  let data := readSize (name.2.drop (name.1 + 1))
  (⟨name.2.take name.1, data.2.take data.1⟩, data.2.drop data.1)

def readStrings : Nat → Nat → List UInt8 → List (Located Text)
  | 0, _, _ => []
  | fuel + 1, off, bytes =>
      if bytes = [] then []
      else
        let (f, rest) := readString bytes
        let stop := off + (bytes.length - rest.length)
        ⟨f, off, stop⟩ :: readStrings fuel stop rest

def overwrite (w : RvMsgWriter) (bytes : List UInt8) : RvMsgWriter :=
  { buf := write w.buf w.off bytes, off := w.off + bytes.length }

def stringCodec : Codec Text where
  header size :=
    [0, 0, UInt8.ofNat (size / 256), UInt8.ofNat (size % 256), 0x99, 0x55, 0xee, 0xaa]
  encode := encodeString
  unpack bytes := readStrings bytes.length 8 (bytes.drop 8)
  append w f := overwrite w (encodeString f)
  appendBuffer := overwrite

theorem readSize_sizeBytes (n : Nat) (rest : List UInt8) :
    readSize (sizeBytes n ++ rest) = (n, rest) := by
  have hRead : ∀ k r, r < 255 →
      readSize (List.replicate k 255 ++ UInt8.ofNat r :: rest) = (k * 255 + r, rest) := by
    intro k r hr
    have hSmall : (UInt8.ofNat r).toNat = r :=
      UInt8.toNat_ofNat_of_lt (Nat.lt_trans hr (by decide))
    induction k with
    | zero =>
        have hNe : UInt8.ofNat r ≠ 255 := fun h => by
          rw [h] at hSmall
          simp only [UInt8.toNat_ofNat] at hSmall
          omega
        rw [List.replicate_zero, List.nil_append, readSize, if_neg hNe, hSmall, Nat.zero_mul,
          Nat.zero_add]
    | succ k ih =>
        rw [List.replicate_succ, List.cons_append, readSize, if_pos rfl, ih]
        have hMore : k * 255 + r + 255 = (k + 1) * 255 + r := by omega
        rw [← hMore]
  have hRest := hRead (n / 255) (n % 255) (Nat.mod_lt n (by omega))
  rw [Nat.div_add_mod' n 255] at hRest
  rw [sizeBytes, List.append_assoc, List.singleton_append, hRest]

theorem readString_encode (f : Field Text) (rest : List UInt8) :
    readString (encodeString f ++ rest) = (f, rest) := by
  have hName : readSize (encodeString f ++ rest) =
      (f.name.length, f.name ++ [8] ++ (sizeBytes f.value.length ++ (f.value ++ rest))) := by
    rw [encodeString]
    simp only [List.append_assoc]
    exact readSize_sizeBytes _ _
  have hSkip : (f.name ++ [8] ++ (sizeBytes f.value.length ++ (f.value ++ rest))).drop
      (f.name.length + 1) = sizeBytes f.value.length ++ (f.value ++ rest) :=
    List.drop_left' (by rw [List.length_append]; rfl)
  rw [readString, hName]
  dsimp only
  rw [hSkip, readSize_sizeBytes]
  dsimp only
  rw [List.append_assoc f.name, List.take_left, List.take_left, List.drop_left]

theorem readStrings_encode (fields : List (Field Text)) {fuel off : Nat}
    (h : fields.length ≤ fuel) :
    readStrings fuel off (stringCodec.encodeAll fields) = stringCodec.located off fields := by
  induction fields generalizing fuel off with
  | nil => cases fuel <;> rfl
  | cons f fields ih =>
      obtain ⟨fuel, rfl⟩ := Nat.exists_eq_add_of_le' (Nat.lt_of_lt_of_le (Nat.succ_pos _) h)
      have hAll : stringCodec.encodeAll (f :: fields) =
          encodeString f ++ stringCodec.encodeAll fields := List.flatMap_cons
      have hSome : encodeString f ++ stringCodec.encodeAll fields ≠ [] := by
        simp [encodeString]
      rw [hAll, readStrings, if_neg hSome, readString_encode]
      dsimp only
      rw [List.length_append, Nat.add_sub_cancel, ih (by simpa using h)]
      rfl

theorem overwrite_appends {w : RvMsgWriter} (h : w.off ≤ w.buf.length) (bytes : List UInt8) :
    Appends w (overwrite w bytes) bytes := by
  have hFront : (w.buf.take w.off ++ bytes).length = w.off + bytes.length := by
    rw [List.length_append, List.length_take_of_le h]
  exact ⟨rfl, List.take_left' hFront, fun _ => List.drop_left' hFront⟩

theorem stringCodec_exact : stringCodec.Exact where
  header _ := rfl
  append w f h := overwrite_appends h (encodeString f)
  appendBuffer w data h := overwrite_appends h data
  unpack fields := by
    have hHeader : (stringCodec.header (8 + (stringCodec.encodeAll fields).length)).length = 8 := rfl
    have hMany : fields.length ≤ (stringCodec.encodeAll fields).length := by
      induction fields with
      | nil => exact Nat.le_refl 0
      | cons f fields ih =>
          have hAll : stringCodec.encodeAll (f :: fields) =
              encodeString f ++ stringCodec.encodeAll fields := List.flatMap_cons
          rw [hAll, List.length_append, List.length_cons]
          have hLong : 0 < (encodeString f).length :=
            List.length_pos_iff.mpr (by simp [encodeString])
          have := ih rfl
          omega
    change readStrings _ 8 (List.drop 8 _) = _
    rw [List.drop_left' hHeader, List.length_append, hHeader]
    exact readStrings_encode fields (by omega)

/-- Three fields, with a second one of the first one's name. -/
def threeFields : List (Field Text) :=
  [⟨text "a" ++ [0], text "x"⟩, ⟨text "b" ++ [0], text "y"⟩, ⟨text "a" ++ [0], text "z"⟩]

def threeFieldsWriter : RvMsgWriter where
  buf := stringCodec.header 26 ++ stringCodec.encodeAll threeFields
  off := 26

def plainStringEnv : MsgEnv Text where
  isNamed nm f := f.name = nm
  idBit id := 1 <<< (id.toNat % 64)
  byteSize fields := (stringCodec.encodeAll fields).length

/-- A longer value for the first of them, the removal of it and that of the second
one of its name. -/
theorem fields_in_place_three :
    stringCodec.Holds (threeFieldsWriter.updateEx stringCodec plainStringEnv (some (text "a")) 0
        (text "longer"))
      [⟨text "a" ++ [0], text "longer"⟩, ⟨text "b" ++ [0], text "y"⟩,
        ⟨text "a" ++ [0], text "z"⟩] ∧
    stringCodec.Holds (threeFieldsWriter.removeFieldEx stringCodec plainStringEnv
        (some (text "a")) 0) [⟨text "b" ++ [0], text "y"⟩, ⟨text "a" ++ [0], text "z"⟩] ∧
    stringCodec.Holds (threeFieldsWriter.removeFieldInstance stringCodec plainStringEnv
        (some (text "a")) 2).1 [⟨text "a" ++ [0], text "x"⟩, ⟨text "b" ++ [0], text "y"⟩] := by
  have hHolds : stringCodec.Holds threeFieldsWriter threeFields :=
    ⟨stringCodec.header 26, [], by decide, rfl, by decide⟩
  obtain ⟨hFirst, -, hInstance, -⟩ := @fields_in_place _ _ plainStringEnv _ _ stringCodec_exact
    hHolds (some (text "a")) 0 (text "longer") 2
  obtain ⟨hUpdated, hRemoved⟩ := hFirst [] _ _ rfl nofun (by decide)
  exact ⟨hUpdated, hRemoved,
    hInstance [⟨text "a" ++ [0], text "x"⟩, ⟨text "b" ++ [0], text "y"⟩] _ [] rfl (by decide)
      (by decide)⟩

/-! What the calls do to the bytes is what `updateField`, `removeField` and
`removeFieldInstance` do to the fields. -/

section Lists
variable {pre post : List (Field V)} {f : Field V} {nm : Text}

theorem updateField_split (hBefore : ∀ x ∈ pre, env.isNamed nm x = false)
    (hIs : env.isNamed nm f = true) (value : V) :
    updateField env (pre ++ f :: post) nm value = pre ++ [⟨nm, value⟩] ++ post := by
  have hFind : (pre ++ f :: post).findIdx? (env.isNamed nm) = some pre.length := by
    rw [List.findIdx?_append, List.findIdx?_eq_none_iff.mpr hBefore, List.findIdx?_cons, hIs]
    simp
  rw [updateField, hFind]
  simp

theorem removeField_split (hBefore : ∀ x ∈ pre, env.isNamed nm x = false)
    (hIs : env.isNamed nm f = true) :
    removeField env (pre ++ f :: post) nm = pre ++ post := by
  rw [removeField, List.eraseP_append_right _ (by simpa using hBefore),
    List.eraseP_cons_of_pos hIs]

theorem removeFieldInstance_split (hIs : env.isNamed nm f = true) :
    Rv7.removeFieldInstance env nm (pre.countP (env.isNamed nm) + 1) (pre ++ f :: post) =
      pre ++ post := by
  induction pre with
  | nil => simp [Rv7.removeFieldInstance, hIs]
  | cons x pre ih =>
      rw [List.countP_cons, List.cons_append, Rv7.removeFieldInstance]
      split
      case isTrue hHere => rw [if_neg (by omega), ih, List.cons_append]
      case isFalse hNot => rw [Nat.add_zero, ih, List.cons_append]

theorem removeFieldInstance_few {inst : Nat} {fields : List (Field V)}
    (h : inst = 0 ∨ fields.countP (env.isNamed nm) < inst) :
    Rv7.removeFieldInstance env nm inst fields = fields := by
  fun_induction Rv7.removeFieldInstance env nm inst fields with
  | case1 => rfl
  | case2 => rfl
  | case3 x rest hIs =>
      rw [List.countP_cons, if_pos hIs] at h
      omega
  | case4 inst x rest hIs hMore ih =>
      rw [List.countP_cons, if_pos hIs] at h
      rw [ih (.inr (by omega))]
  | case5 inst x rest hNot ih =>
      rw [List.countP_cons, if_neg hNot] at h
      rw [ih (.inr (by omega))]

/-- The field of a number, counted from zero, among those that are named. -/
theorem exists_instance {named : Field V → Bool} {inst : Nat} {fields : List (Field V)}
    (h : inst < fields.countP named) :
    ∃ pre f post, fields = pre ++ f :: post ∧ named f = true ∧ pre.countP named = inst := by
  induction fields generalizing inst with
  | nil => exact absurd h (Nat.not_lt_zero inst)
  | cons x fields ih =>
      rw [List.countP_cons] at h
      by_cases hIs : named x = true
      · cases inst with
        | zero => exact ⟨[], x, fields, rfl, hIs, rfl⟩
        | succ inst =>
            rw [if_pos hIs] at h
            obtain ⟨pre, f, post, rfl, hNamed, hCount⟩ := ih (Nat.lt_of_succ_lt_succ h)
            exact ⟨x :: pre, f, post, rfl, hNamed, by rw [List.countP_cons, hCount, if_pos hIs]⟩
      · rw [if_neg hIs] at h
        obtain ⟨pre, f, post, rfl, hNamed, hCount⟩ := ih h
        exact ⟨x :: pre, f, post, rfl, hNamed, by rw [List.countP_cons, hCount, if_neg hIs]; rfl⟩

/-- The first field of a name, if there is one. -/
theorem first_or_absent (named : Field V → Bool) (fields : List (Field V)) :
    (∀ x ∈ fields, named x = false) ∨
      ∃ pre f post, fields = pre ++ f :: post ∧ named f = true ∧ ∀ x ∈ pre, named x = false := by
  cases hFind : fields.find? named with
  | none => exact .inl fun x hMem => by simpa using List.find?_eq_none.mp hFind x hMem
  | some f =>
      obtain ⟨hIs, pre, post, hSplit, hBefore⟩ := List.find?_eq_some_iff_append.mp hFind
      exact .inr ⟨pre, f, post, hSplit, hIs, fun x hMem => by simpa using hBefore x hMem⟩

theorem updateField_absent (hAbsent : ∀ x ∈ fields, env.isNamed nm x = false) (value : V) :
    updateField env fields nm value = fields ++ [⟨nm, value⟩] := by
  rw [updateField, List.findIdx?_eq_none_iff.mpr hAbsent]
  rfl

theorem removeField_absent (hAbsent : ∀ x ∈ fields, env.isNamed nm x = false) :
    removeField env fields nm = fields :=
  List.eraseP_of_forall_not fun x hMem => by simp [hAbsent x hMem]

end Lists

/-- The writer keeps to the list of fields that the message is taken for. -/
theorem writer_refines (hExact : codec.Exact) (hHolds : codec.Holds w fields)
    (name : Option Text) (id : BitVec 16) (value : V) (inst : Nat) :
    codec.Holds (w.updateEx codec env name id value)
        (updateField env fields (fnameArg name id) value) ∧
      codec.Holds (w.removeFieldEx codec env name id)
        (removeField env fields (fnameArg name id)) ∧
      codec.Holds (w.removeFieldInstance codec env name inst).1
        (removeFieldInstance env (fnameArg name 0) inst fields) := by
  have hInstance : codec.Holds (w.removeFieldInstance codec env name inst).1
      (removeFieldInstance env (fnameArg name 0) inst fields) := by
    by_cases hFew : inst = 0 ∨ fields.countP (env.isNamed (fnameArg name 0)) < inst
    · rw [removeFieldInstance_few hFew]
      exact removeFieldInstance_keeps hExact hHolds hFew
    · have hBelow : inst - 1 < fields.countP (env.isNamed (fnameArg name 0)) := by omega
      obtain ⟨pre, f, post, rfl, hIs, hCount⟩ := exists_instance hBelow
      obtain rfl : inst = pre.countP (env.isNamed (fnameArg name 0)) + 1 := by omega
      rw [removeFieldInstance_split hIs]
      exact removeFieldInstance_erases hExact hHolds hIs
  rcases first_or_absent (env.isNamed (fnameArg name id)) fields with
    hAbsent | ⟨pre, f, post, rfl, hIs, hBefore⟩
  · rw [updateField_absent hAbsent, removeField_absent hAbsent]
    exact ⟨updateEx_adds hExact hHolds hAbsent value, removeFieldEx_keeps hExact hHolds hAbsent,
      hInstance⟩
  · rw [updateField_split hBefore hIs, removeField_split hBefore hIs]
    exact ⟨updateEx_replaces hExact hHolds hBefore hIs value,
      removeFieldEx_erases hExact hHolds hBefore hIs, hInstance⟩

end Sassrv.Rv7
