import Mathlib.Algebra.Order.BigOperators.Group.List
import Mathlib.Algebra.Order.Group.Nat
import Mathlib.Data.List.GetD
import Sassrv.Trdp.Bounds

/-! An rv message that its sender splits into packets: what `merge` finds when some of
the packets are saved, and what `output` makes of all of them in order. -/
namespace Sassrv.Trdp

/-- An rv message as it is split. -/
structure SplitMessage where
  parts : List Bytes
  split : parts ≠ []
  partSize : ∀ part ∈ parts, 8 ≤ part.length ∧ part.length < 2 ^ 16
  size : (wordAt parts.flatten 0).toNat = parts.flatten.length
  magic : wordAt parts.flatten 4 = rvMagic

def SplitMessage.bytes (m : SplitMessage) : Bytes := m.parts.flatten

def SplitMessage.count (m : SplitMessage) : Nat := m.parts.length

/-- The header and the payload of packet `i` of the message when `s` is the seqno
before its first. -/
structure SplitMessage.IsPacket (m : SplitMessage) (s : BitVec 32) (i : Nat) (hdr : TrdpHdr)
    (payload : Bytes) : Prop where
  part : m.parts[i]? = some payload
  seqno : hdr.seqno = s + 1 + BitVec.ofNat 32 i
  totalLen : hdr.totalLen = BitVec.ofNat 32 m.bytes.length
  dataLen : hdr.dataLen = BitVec.ofNat 16 payload.length
  fragNum : hdr.fragNum = BitVec.ofNat 16 i

/-- The same of a saved packet. -/
structure SplitMessage.IsSaved (m : SplitMessage) (s : BitVec 32) (i : Nat) (p : TrdpWindowPkt) :
    Prop where
  part : m.parts[i]? = some p.data
  seqno : p.seqno = s + 1 + BitVec.ofNat 32 i
  totalLen : p.totalLen = BitVec.ofNat 32 m.bytes.length
  dataLen : p.dataLen = BitVec.ofNat 16 p.data.length
  stamped : p.monoTime ≠ 0

/-- All its packets have arrived. -/
def SplitMessage.Complete (m : SplitMessage) (seen : List Nat) : Prop := ∀ i < m.count, i ∈ seen

/-- The seqnos of its packets do not wrap, if it has more than one. -/
def SplitMessage.Fits (m : SplitMessage) (s : BitVec 32) : Prop :=
  m.count = 1 ∨ (s + 1).toNat + m.count ≤ 2 ^ 32

/-- With the first packet and another one of the message the second one is there. -/
def Walks (seen : List Nat) : Prop := 0 ∈ seen → (∃ i ∈ seen, i ≠ 0) → 1 ∈ seen

/-- So it is whenever a packet arrives that is not there yet. -/
def Gathers : List Nat → List Nat → Prop
  | _, [] => True
  | seen, i :: order => (i ∉ seen → Walks (seen ++ [i])) ∧ Gathers (seen ++ [i]) order

theorem gathers_concat (seen order : List Nat) (i : Nat) : Gathers seen (order ++ [i]) ↔
    Gathers seen order ∧ (i ∉ seen ++ order → Walks (seen ++ order ++ [i])) := by
  induction order generalizing seen with
  | nil => simp [Gathers]
  | cons j order ih =>
      simp only [List.cons_append, Gathers, ih, and_assoc]
      simp only [List.append_assoc, List.singleton_append]

instance (m : SplitMessage) (seen : List Nat) : Decidable (m.Complete seen) :=
  inferInstanceAs (Decidable (∀ i < m.count, _))

instance (m : SplitMessage) (s : BitVec 32) : Decidable (m.Fits s) :=
  inferInstanceAs (Decidable (_ ∨ _))

instance (seen : List Nat) : Decidable (Walks seen) := inferInstanceAs (Decidable (_ → _ → _))

instance decidableGathers : (seen order : List Nat) → Decidable (Gathers seen order)
  | _, [] => .isTrue trivial
  | seen, i :: order =>
      have := decidableGathers (seen ++ [i]) order
      inferInstanceAs (Decidable (_ ∧ _))

section Sizes
variable (m : SplitMessage)

theorem SplitMessage.length_lt : m.bytes.length < 2 ^ 32 := by
  have hSize := m.size
  have hLt := (wordAt m.parts.flatten 0).isLt
  rw [SplitMessage.bytes]
  omega

theorem SplitMessage.bytes_length : m.bytes.length = (m.parts.map List.length).sum :=
  List.length_flatten

theorem SplitMessage.count_le : m.count * 8 ≤ m.bytes.length := by
  rw [m.bytes_length, SplitMessage.count, ← List.length_map List.length, ← Nat.nsmul_eq_mul]
  refine List.card_nsmul_le_sum _ 8 fun n hMem => ?_
  obtain ⟨part, hPart, rfl⟩ := List.mem_map.mp hMem
  exact (m.partSize part hPart).1

theorem SplitMessage.count_lt : m.count < 2 ^ 29 := by
  have hLength := m.length_lt
  have hCount := m.count_le
  omega

theorem SplitMessage.count_pos : 0 < m.count := List.length_pos_iff.mpr m.split

/-- The size of a packet's payload. -/
def SplitMessage.partLength (i : Nat) : Nat := (m.parts.getD i []).length

theorem SplitMessage.map_partLength :
    (List.range m.count).map m.partLength = m.parts.map List.length := by
  refine List.ext_getElem (by simp [SplitMessage.count]) fun i hLeft hRight => ?_
  have hBound : i < m.parts.length := by simpa using hRight
  rw [List.getElem_map, List.getElem_map, List.getElem_range, SplitMessage.partLength,
    List.getD_eq_getElem _ _ hBound]

theorem SplitMessage.sum_partLength :
    ((List.range m.count).map m.partLength).sum = m.bytes.length := by
  rw [m.map_partLength, m.bytes_length]

theorem SplitMessage.partLength_pos {i : Nat} (h : i < m.count) : 8 ≤ m.partLength i := by
  have hBound : i < m.parts.length := h
  rw [SplitMessage.partLength, List.getD_eq_getElem _ _ hBound]
  exact (m.partSize _ (List.getElem_mem hBound)).1

/-- Different packets of the message have no more than its bytes. -/
theorem SplitMessage.sum_le {idxs : List Nat} (hNodup : idxs.Nodup)
    (hBound : ∀ i ∈ idxs, i < m.count) : (idxs.map m.partLength).sum ≤ m.bytes.length := by
  have hSub : idxs.Subperm (List.range m.count) :=
    List.subperm_of_subset hNodup fun i hMem => List.mem_range.mpr (hBound i hMem)
  obtain ⟨idxs', hPerm, hSublist⟩ := hSub
  rw [← m.sum_partLength, ← (hPerm.map m.partLength).sum_eq]
  exact (hSublist.map m.partLength).sum_le_sum fun _ _ => Nat.zero_le _

/-- Without one of the packets some bytes are missing. -/
theorem SplitMessage.sum_lt {idxs : List Nat} (hNodup : idxs.Nodup)
    (hBound : ∀ i ∈ idxs, i < m.count) (hMissing : ¬ m.Complete idxs) :
    (idxs.map m.partLength).sum < m.bytes.length := by
  obtain ⟨i, hi, hAbsent⟩ : ∃ i, i < m.count ∧ i ∉ idxs := by
    simpa [SplitMessage.Complete] using hMissing
  have hMore := m.sum_le (List.nodup_cons.mpr ⟨hAbsent, hNodup⟩) fun j hMem => by
    rcases List.mem_cons.mp hMem with rfl | hMem
    · exact hi
    · exact hBound j hMem
  have hPos := m.partLength_pos hi
  rw [List.map_cons, List.sum_cons] at hMore
  omega

end Sizes

section Walk
variable {x : TrdpWindowPkt} {post : List TrdpWindowPkt} {total : BitVec 32}

/-- The walk over fragments that are fewer than the message has bytes for does not
complete it. -/
theorem fragmentRun_short (h : (post.map fun p => p.dataLen.toNat).sum < total.toNat) :
    (fragmentRun total x post).1 ≠ 0 := by
  induction post generalizing total x with
  | nil =>
      intro hZero
      have hNone : total = 0 := hZero
      rw [hNone] at h
      exact absurd h (Nat.not_lt_zero _)
  | cons y rest ih =>
      rw [List.map_cons, List.sum_cons] at h
      have hLess : (total - y.dataLen.setWidth 32).toNat = total.toNat - y.dataLen.toNat := by
        have := y.dataLen.isLt
        rw [BitVec.toNat_sub_of_le, BitVec.toNat_setWidth_of_le (by omega)]
        rw [BitVec.le_def, BitVec.toNat_setWidth_of_le (by omega)]
        omega
      rw [fragmentRun]
      split
      · intro hZero
        have hNone : total = 0 := hZero
        rw [hNone] at h
        exact absurd h (Nat.not_lt_zero _)
      · dsimp only
        split
        case isTrue hZero =>
            rw [hZero] at hLess
            exact absurd hLess (by simp; omega)
        case isFalse _ => exact ih (by rw [hLess]; omega)

/-- Over all fragments in order it does. -/
theorem fragmentRun_all (hChain : (x :: post).IsChain fun p q => q.seqno = p.seqno + 1)
    (hSome : post ≠ []) (hPos : ∀ p ∈ post, 0 < p.dataLen.toNat)
    (hTotal : (post.map fun p => p.dataLen.toNat).sum = total.toNat) :
    fragmentRun total x post = (0, post) := by
  induction post generalizing total x with
  | nil => exact absurd rfl hSome
  | cons y rest ih =>
      obtain ⟨hNext, hRest⟩ := List.isChain_cons_cons.mp hChain
      rw [List.map_cons, List.sum_cons] at hTotal
      have hLess : (total - y.dataLen.setWidth 32).toNat = total.toNat - y.dataLen.toNat := by
        have := y.dataLen.isLt
        rw [BitVec.toNat_sub_of_le, BitVec.toNat_setWidth_of_le (by omega)]
        rw [BitVec.le_def, BitVec.toNat_setWidth_of_le (by omega)]
        omega
      rw [fragmentRun, if_neg (not_not.mpr hNext)]
      dsimp only
      by_cases hLast : rest = []
      · subst hLast
        rw [if_pos]
        exact BitVec.eq_of_toNat_eq (by rw [hLess, ← hTotal]; simp)
      · have hMore : total - y.dataLen.setWidth 32 ≠ 0 := by
          intro hZero
          rw [hZero] at hLess
          obtain ⟨z, tail, rfl⟩ := List.exists_cons_of_ne_nil hLast
          have hz := hPos z (by simp)
          rw [List.map_cons, List.sum_cons] at hTotal
          change 0 = _ at hLess
          omega
        rw [if_neg hMore, ih hRest hLast (fun p hMem => hPos p (List.mem_cons_of_mem y hMem))
          (by rw [hLess]; omega)]

end Walk

/-- The number of a saved packet in its message. -/
def pktIndex (s : BitVec 32) (p : TrdpWindowPkt) : Nat := Serial.offset (s + 1) p.seqno

/-- The saved list holds the packets of the message that have arrived. -/
structure SplitMessage.Filled (m : SplitMessage) (s : BitVec 32) (seen : List Nat)
    (list : List TrdpWindowPkt) : Prop where
  ascending : Ascending list
  saved : ∀ p ∈ list, ∃ i ∈ seen, m.IsSaved s i p
  held : ∀ i ∈ seen, ∃ p ∈ list, m.IsSaved s i p

section Saved
variable {m : SplitMessage} {s : BitVec 32} {seen : List Nat} {i : Nat} {p x : TrdpWindowPkt}
  {list post : List TrdpWindowPkt}

theorem SplitMessage.IsSaved.lt (h : m.IsSaved s i p) : i < m.count :=
  (List.getElem?_eq_some_iff.mp h.part).1

theorem SplitMessage.IsSaved.length_lt (h : m.IsSaved s i p) : p.data.length < 2 ^ 16 :=
  (m.partSize _ (List.mem_of_getElem? h.part)).2

theorem SplitMessage.IsSaved.index (h : m.IsSaved s i p) : pktIndex s p = i := by
  have hLt := h.lt
  have hCount := m.count_lt
  rw [pktIndex, Serial.offset, h.seqno, add_sub_cancel_left, BitVec.toNat_ofNat]
  exact Nat.mod_eq_of_lt (by omega)

theorem SplitMessage.IsSaved.dataLen_toNat (h : m.IsSaved s i p) :
    p.dataLen.toNat = m.partLength (pktIndex s p) := by
  rw [h.index, h.dataLen, BitVec.toNat_ofNat, Nat.mod_eq_of_lt h.length_lt,
    SplitMessage.partLength, List.getD_eq_getElem?_getD, h.part]
  rfl

theorem SplitMessage.IsSaved.seqno_toNat (h : m.IsSaved s i p)
    (hFits : (s + 1).toNat + m.count ≤ 2 ^ 32) : p.seqno.toNat = (s + 1).toNat + i := by
  have hLt := h.lt
  rw [h.seqno, BitVec.toNat_add, BitVec.toNat_ofNat]
  omega

theorem SplitMessage.Filled.nodup (h : m.Filled s seen list) :
    (list.map (pktIndex s)).Nodup := by
  refine List.pairwise_map.mpr (h.ascending.imp fun {p q} hLt hSame => ?_)
  have hEq : p.seqno - (s + 1) = q.seqno - (s + 1) := BitVec.eq_of_toNat_eq hSame
  rw [sub_left_inj.mp hEq] at hLt
  exact absurd hLt (Nat.lt_irrefl _)

theorem SplitMessage.Filled.sizes (h : m.Filled s seen list) :
    list.map (fun p => p.dataLen.toNat) = (list.map (pktIndex s)).map m.partLength := by
  rw [List.map_map]
  refine List.map_congr_left fun p hMem => ?_
  obtain ⟨i, -, hSaved⟩ := h.saved p hMem
  exact hSaved.dataLen_toNat

theorem SplitMessage.Filled.index_lt (h : m.Filled s seen list) :
    ∀ i ∈ list.map (pktIndex s), i < m.count ∧ i ∈ seen := by
  intro i hMem
  obtain ⟨p, hp, rfl⟩ := List.mem_map.mp hMem
  obtain ⟨j, hj, hSaved⟩ := h.saved p hp
  rw [hSaved.index]
  exact ⟨hSaved.lt, hj⟩

/-- What `messageRun` starts with. -/
theorem SplitMessage.IsSaved.left_toNat (h : m.IsSaved s i x) :
    (x.totalLen - x.dataLen.setWidth 32).toNat = m.bytes.length - x.dataLen.toNat := by
  have hLength := m.length_lt
  have hPart : x.dataLen.toNat ≤ m.bytes.length := by
    have hOne := m.sum_le (List.nodup_singleton i) (by simpa using h.lt)
    rw [h.dataLen_toNat, h.index]
    simpa using hOne
  have hTotal : x.totalLen.toNat = m.bytes.length := by
    rw [h.totalLen, BitVec.toNat_ofNat, Nat.mod_eq_of_lt hLength]
  have hWide : (x.dataLen.setWidth 32).toNat = x.dataLen.toNat :=
    BitVec.toNat_setWidth_of_le (by omega)
  rw [BitVec.toNat_sub_of_le, hTotal, hWide]
  rw [BitVec.le_def, hTotal, hWide]
  exact hPart

/-- A message with a packet missing is not complete. -/
theorem SplitMessage.Filled.run_incomplete (h : m.Filled s seen (x :: post))
    (hMissing : ¬ m.Complete seen) :
    x.totalLen - x.dataLen.setWidth 32 ≠ 0 ∧ (messageRun x post).1 ≠ 0 := by
  have hFew := m.sum_lt h.nodup (fun i hMem => (h.index_lt i hMem).1) fun hAll =>
    hMissing fun i hi => (h.index_lt i (hAll i hi)).2
  rw [← h.sizes, List.map_cons, List.sum_cons] at hFew
  obtain ⟨i, -, hSaved⟩ := h.saved x List.mem_cons_self
  have hLeft := hSaved.left_toNat
  have hMore : x.totalLen - x.dataLen.setWidth 32 ≠ 0 := by
    intro hZero
    rw [hZero] at hLeft
    change 0 = _ at hLeft
    omega
  refine ⟨hMore, ?_⟩
  rw [messageRun]
  rw [if_neg hMore]
  exact fragmentRun_short (by rw [hLeft]; omega)

/-- The head is the first packet when that is there and the seqnos do not wrap. -/
theorem SplitMessage.Filled.head_first (h : m.Filled s seen (x :: post))
    (hFits : (s + 1).toNat + m.count ≤ 2 ^ 32) (hFirst : 0 ∈ seen) : x.seqno = s + 1 := by
  obtain ⟨i, -, hSaved⟩ := h.saved x List.mem_cons_self
  obtain ⟨q, hMem, hZero⟩ := h.held 0 hFirst
  have hx := hSaved.seqno_toNat hFits
  have hq := hZero.seqno_toNat hFits
  refine BitVec.eq_of_toNat_eq ?_
  rcases List.mem_cons.mp hMem with rfl | hPost
  · exact hq
  · have hLt := (List.pairwise_cons.mp h.ascending).1 q hPost
    omega

/-- With all packets there the head is the first one only if the seqnos do not wrap. -/
theorem SplitMessage.Filled.fits_of_head (h : m.Filled s seen (x :: post))
    (hAll : m.Complete seen) (hHead : x.seqno = s + 1) : m.Fits s := by
  by_contra hNot
  obtain ⟨hMany, hWraps⟩ := not_or.mp hNot
  have hPos := m.count_pos
  have hCount := m.count_lt
  obtain ⟨q, hMem, hLast⟩ := h.held (m.count - 1) (hAll _ (by omega))
  have hq : q.seqno.toNat = (s + 1).toNat + (m.count - 1) - 2 ^ 32 := by
    have hBase := (s + 1).isLt
    rw [hLast.seqno, BitVec.toNat_add, BitVec.toNat_ofNat]
    omega
  have hBase := (s + 1).isLt
  rcases List.mem_cons.mp hMem with rfl | hPost
  · rw [hHead] at hq
    omega
  · have hLt := (List.pairwise_cons.mp h.ascending).1 q hPost
    rw [hHead] at hLt
    omega

/-- The walk goes on from the first packet exactly when the second one is there. -/
theorem SplitMessage.Filled.run_iff (h : m.Filled s seen (x :: post))
    (hFits : (s + 1).toNat + m.count ≤ 2 ^ 32) (hHead : x.seqno = s + 1)
    (hMissing : ¬ m.Complete seen) : (messageRun x post).2 ≠ [] ↔ 1 ∈ seen := by
  obtain ⟨hMore, -⟩ := h.run_incomplete hMissing
  rw [messageRun]
  rw [if_neg hMore]
  constructor
  · intro hRun
    cases post with
    | nil => exact absurd rfl hRun
    | cons y rest =>
        obtain ⟨j, hj, hSaved⟩ := h.saved y (by simp)
        by_cases hNext : y.seqno = x.seqno + 1
        · have hIndex : pktIndex s y = 1 := by
            rw [pktIndex, Serial.offset, hNext, hHead, add_sub_cancel_left]
            rfl
          rw [← hIndex, hSaved.index]
          exact hj
        · rw [fragmentRun, if_pos hNext] at hRun
          exact absurd rfl hRun
  · intro hSecond
    obtain ⟨q, hMem, hOne⟩ := h.held 1 hSecond
    have hq := hOne.seqno_toNat hFits
    obtain ⟨hBelow, hRest⟩ := List.pairwise_cons.mp h.ascending
    have hPost : q ∈ post := by
      rcases List.mem_cons.mp hMem with rfl | hPost
      · rw [hHead] at hq
        omega
      · exact hPost
    obtain ⟨y, rest, rfl⟩ := List.exists_cons_of_ne_nil (List.ne_nil_of_mem hPost)
    have hy : y.seqno = x.seqno + 1 := by
      have hAbove := hBelow y List.mem_cons_self
      have hUnder : y.seqno.toNat ≤ q.seqno.toNat := by
        rcases List.mem_cons.mp hPost with rfl | hLater
        · exact Nat.le_refl _
        · exact Nat.le_of_lt ((List.pairwise_cons.mp hRest).1 q hLater)
      rw [hHead] at hAbove ⊢
      have hLt := hOne.lt
      have hNat : (s + 1 + 1).toNat = (s + 1).toNat + 1 := by
        rw [BitVec.toNat_add]
        have hOne : (1 : BitVec 32).toNat = 1 := rfl
        rw [hOne]
        exact Nat.mod_eq_of_lt (by omega)
      exact BitVec.eq_of_toNat_eq (by omega)
    rw [fragmentRun, if_neg (not_not.mpr hy)]
    dsimp only
    split
    · exact List.cons_ne_nil _ _
    · exact List.cons_ne_nil _ _

/-- The packets of a whole message are saved in order. -/
theorem SplitMessage.Filled.index_eq (h : m.Filled s seen list)
    (hFits : (s + 1).toNat + m.count ≤ 2 ^ 32) (hAll : m.Complete seen) :
    list.map (pktIndex s) = List.range m.count := by
  have hSorted : (list.map (pktIndex s)).Pairwise (· < ·) := by
    refine List.pairwise_map.mpr (h.ascending.imp_of_mem fun {p q} hp hq hLt => ?_)
    obtain ⟨i, -, hi⟩ := h.saved p hp
    obtain ⟨j, -, hj⟩ := h.saved q hq
    rw [hi.seqno_toNat hFits, hj.seqno_toNat hFits] at hLt
    rw [hi.index, hj.index]
    omega
  have hPerm : (list.map (pktIndex s)).Perm (List.range m.count) := by
    refine (List.perm_ext_iff_of_nodup h.nodup List.nodup_range).mpr fun i => ?_
    rw [List.mem_range]
    refine ⟨fun hMem => (h.index_lt i hMem).1, fun hi => ?_⟩
    obtain ⟨p, hp, hSaved⟩ := h.held i (hAll i hi)
    exact List.mem_map.mpr ⟨p, hp, hSaved.index⟩
  exact hPerm.eq_of_pairwise (fun a b _ _ hab hba => absurd hab (Nat.lt_asymm hba)) hSorted
    List.pairwise_lt_range

theorem SplitMessage.Filled.data_eq (h : m.Filled s seen list)
    (hIndex : list.map (pktIndex s) = List.range m.count) : list.map (·.data) = m.parts := by
  have hParts : (List.range m.count).map (fun i => m.parts.getD i []) = m.parts :=
    List.ext_getElem (by simp [SplitMessage.count]) fun i _ hRight => by
      rw [List.getElem_map, List.getElem_range, List.getD_eq_getElem _ _ hRight]
  rw [← hParts, ← hIndex, List.map_map]
  refine List.map_congr_left fun p hMem => ?_
  obtain ⟨i, -, hSaved⟩ := h.saved p hMem
  simp [hSaved.index, List.getD_eq_getElem?_getD, hSaved.part]

theorem SplitMessage.Filled.chain (h : m.Filled s seen list)
    (hIndex : list.map (pktIndex s) = List.range m.count) :
    list.IsChain fun p q => q.seqno = p.seqno + 1 := by
  have hSeqnos : list.map (·.seqno) =
      (List.range m.count).map fun i => s + 1 + BitVec.ofNat 32 i := by
    rw [← hIndex, List.map_map]
    refine List.map_congr_left fun p hMem => ?_
    obtain ⟨i, -, hSaved⟩ := h.saved p hMem
    simp [hSaved.index, hSaved.seqno]
  have hNumbers : ((List.range m.count).map fun i => s + 1 + BitVec.ofNat 32 i).IsChain
      fun a b => b = a + 1 := by
    refine List.isChain_iff_getElem.mpr fun i hi => ?_
    rw [List.getElem_map, List.getElem_map, List.getElem_range, List.getElem_range,
      BitVec.ofNat_add, ← add_assoc]
    rfl
  rw [← hSeqnos] at hNumbers
  exact (List.isChain_map _).mp hNumbers

/-- Then the walk hands all of them out. -/
theorem SplitMessage.Filled.ends (h : m.Filled s seen (x :: post))
    (hFits : (s + 1).toNat + m.count ≤ 2 ^ 32) (hAll : m.Complete seen) (hMany : m.count ≠ 1) :
    MergeEnds x.seqno (x :: post) (x :: post) := by
  have hIndex := h.index_eq hFits hAll
  have hChain := h.chain hIndex
  have hPost : post ≠ [] := by
    rintro rfl
    have hLength := congrArg List.length hIndex
    simp at hLength
    exact hMany hLength.symm
  have hSum : ((x :: post).map fun p => p.dataLen.toNat).sum = m.bytes.length := by
    rw [h.sizes, hIndex, m.sum_partLength]
  rw [List.map_cons, List.sum_cons] at hSum
  obtain ⟨i, -, hSaved⟩ := h.saved x List.mem_cons_self
  have hLeft := hSaved.left_toNat
  have hPos : ∀ p ∈ post, 0 < p.dataLen.toNat := by
    intro p hMem
    obtain ⟨j, -, hj⟩ := h.saved p (List.mem_cons_of_mem x hMem)
    have := m.partLength_pos hj.lt
    rw [hj.dataLen_toNat, hj.index]
    omega
  have hRun : messageRun x post = (0, post) := by
    have hMore : x.totalLen - x.dataLen.setWidth 32 ≠ 0 := by
      intro hZero
      obtain ⟨y, rest, rfl⟩ := List.exists_cons_of_ne_nil hPost
      have hy := hPos y (by simp)
      rw [hZero] at hLeft
      rw [List.map_cons, List.sum_cons] at hSum
      change 0 = _ at hLeft
      omega
    rw [messageRun]
    rw [if_neg hMore]
    exact fragmentRun_all hChain hPost hPos (by rw [hLeft]; omega)
  have hEnds : MergeEnds x.seqno (x :: post) (x :: (messageRun x post).2 ++ []) := by
    refine .message rfl (by rw [hRun]) ?_
    rw [hRun, List.drop_length]
    exact .drained _
  rwa [hRun, List.append_nil] at hEnds

end Saved

section Output
variable {m : SplitMessage} {w : TrdpWindow}

theorem SplitMessage.size_eq (m : SplitMessage) :
    wordAt m.bytes 0 = BitVec.ofNat 32 m.bytes.length := by
  rw [SplitMessage.bytes, ← m.size, BitVec.ofNat_toNat, BitVec.setWidth_eq]

/-- The first of several parts opens the message. -/
theorem output_opens {part : Bytes} {rest : List Bytes} (hParts : m.parts = part :: rest)
    (hMany : rest ≠ []) (hBetween : w.outputLen = 0) (fuel : Nat) :
    w.output (fuel + 1) part =
      some ({ w with
        outputOff := BitVec.ofNat 32 part.length
        outputLen := BitVec.ofNat 32 m.bytes.length
        outputBuf := part }, []) := by
  have hBytes : m.bytes = part ++ rest.flatten := by
    rw [SplitMessage.bytes, hParts, List.flatten_cons]
  have hLong := (m.partSize part (by simp [hParts])).1
  have hFront : part <+: m.bytes := hBytes ▸ List.prefix_append part rest.flatten
  have hSize : wordAt part 0 = BitVec.ofNat 32 m.bytes.length := by
    rw [← m.size_eq, wordAt_prefix hFront (by omega)]
  have hMagic : wordAt part 4 = rvMagic := by
    rw [← m.magic, ← SplitMessage.bytes, wordAt_prefix hFront (by omega)]
  have hMore : part.length < m.bytes.length := by
    obtain ⟨next, tail, rfl⟩ := List.exists_cons_of_ne_nil hMany
    have hNext := (m.partSize next (by simp [hParts])).1
    rw [hBytes, List.flatten_cons, List.length_append, List.length_append]
    omega
  have hTotal : (BitVec.ofNat 32 m.bytes.length).toNat = m.bytes.length := by
    rw [BitVec.toNat_ofNat, Nat.mod_eq_of_lt m.length_lt]
  rw [TrdpWindow.output, if_neg (not_not.mpr hBetween), if_pos hLong, outputLoop]
  dsimp only
  rw [if_pos hMagic, hSize, hTotal, if_neg (by omega)]

/-- A message that is whole in its packet. -/
theorem output_whole (hOne : m.count = 1) (hBetween : w.outputLen = 0) (fuel : Nat) :
    w.output (fuel + 1) m.bytes = some (w, [m.bytes]) := by
  obtain ⟨part, hParts⟩ := List.length_eq_one_iff.mp hOne
  have hLong : 8 ≤ m.bytes.length := by
    have := (m.partSize part (by simp [hParts])).1
    simpa [SplitMessage.bytes, hParts] using this
  have hMagic : wordAt m.bytes 4 = rvMagic := m.magic
  have hTotal : (wordAt m.bytes 0).toNat = m.bytes.length := m.size
  rw [TrdpWindow.output, if_neg (not_not.mpr hBetween), if_pos hLong, outputLoop]
  dsimp only
  rw [if_pos hMagic, hTotal, if_pos (Nat.le_refl _), List.drop_length, List.take_length,
    if_pos (by decide)]
  rfl

/-- The other parts follow it into the buffer, and the last one completes it. -/
theorem outputAll_appends {pkts : List TrdpWindowPkt} {front : Bytes} (hSome : pkts ≠ [])
    (hPos : ∀ p ∈ pkts, 0 < p.data.length) (hOff : w.outputOff = BitVec.ofNat 32 front.length)
    (hBuf : w.outputBuf.take front.length = front)
    (hLen : w.outputLen.toNat = (front ++ (pkts.map (·.data)).flatten).length) (fuel : Nat) :
    ∃ v, w.outputAll fuel pkts = some (v, [front ++ (pkts.map (·.data)).flatten]) ∧
      SameWindow w v ∧ v.outputLen = 0 := by
  induction pkts generalizing w front with
  | nil => exact absurd rfl hSome
  | cons p rest ih =>
      have hp := hPos p List.mem_cons_self
      have hAll : front ++ ((p :: rest).map (·.data)).flatten =
          front ++ p.data ++ (rest.map (·.data)).flatten := by
        rw [List.map_cons, List.flatten_cons, List.append_assoc]
      rw [hAll] at hLen ⊢
      have hTop := w.outputLen.isLt
      have hLength : (front ++ p.data ++ (rest.map (·.data)).flatten).length =
          front.length + p.data.length + (rest.map (·.data)).flatten.length := by
        rw [List.length_append, List.length_append]
      have hFront : w.outputOff.toNat = front.length := by
        rw [hOff, BitVec.toNat_ofNat, Nat.mod_eq_of_lt (by omega)]
      have hOpen : w.outputLen ≠ 0 := by
        intro hZero
        rw [hZero] at hLen
        change 0 = _ at hLen
        omega
      have hNew : w.outputOff + BitVec.ofNat 32 p.data.length =
          BitVec.ofNat 32 (front ++ p.data).length := by
        rw [hOff, ← BitVec.ofNat_add, List.length_append]
      have hNewNat : (BitVec.ofNat 32 (front ++ p.data).length).toNat =
          front.length + p.data.length := by
        rw [BitVec.toNat_ofNat, List.length_append, Nat.mod_eq_of_lt (by omega)]
      have hOutput : w.output fuel p.data =
          if BitVec.ofNat 32 (front ++ p.data).length = w.outputLen then
            some ({ w with outputBuf := front ++ p.data, outputOff := 0, outputLen := 0 },
              [front ++ p.data])
          else
            some ({ w with
              outputBuf := front ++ p.data
              outputOff := BitVec.ofNat 32 (front ++ p.data).length }, []) := by
        rw [TrdpWindow.output, if_pos hOpen, hFront, if_pos (by omega)]
        dsimp only
        rw [hBuf, hNew]
      by_cases hLast : rest = []
      · subst hLast
        have hDone : BitVec.ofNat 32 (front ++ p.data).length = w.outputLen := by
          refine BitVec.eq_of_toNat_eq ?_
          rw [hNewNat, hLen, hLength]
          rfl
        rw [if_pos hDone] at hOutput
        refine ⟨{ w with outputBuf := front ++ p.data, outputOff := 0, outputLen := 0 }, ?_,
          by exact rfl, rfl⟩
        rw [TrdpWindow.outputAll, hOutput]
        simp [TrdpWindow.outputAll]
      · have hMore : BitVec.ofNat 32 (front ++ p.data).length ≠ w.outputLen := by
          intro hDone
          have hNat := congrArg BitVec.toNat hDone
          obtain ⟨q, tail, rfl⟩ := List.exists_cons_of_ne_nil hLast
          have hq := hPos q (by simp)
          rw [hNewNat, hLen, hLength, List.map_cons, List.flatten_cons, List.length_append] at hNat
          omega
        rw [if_neg hMore] at hOutput
        obtain ⟨v, hRest, hSame, hBetween⟩ := @ih
          { w with
            outputBuf := front ++ p.data
            outputOff := BitVec.ofNat 32 (front ++ p.data).length }
          (front ++ p.data) hLast (fun q hMem => hPos q (List.mem_cons_of_mem p hMem)) rfl
          List.take_length hLen
        refine ⟨v, ?_, ?_, hBetween⟩
        · simp only [TrdpWindow.outputAll, hOutput, hRest, Option.bind_eq_bind, Option.bind_some,
            Option.pure_def, List.nil_append]
        · exact SameWindow.trans (by exact rfl) hSame

/-- All packets of a message in order give the message. -/
theorem outputAll_message {pkts : List TrdpWindowPkt} (hParts : pkts.map (·.data) = m.parts)
    (hMany : m.count ≠ 1) (hBetween : w.outputLen = 0) :
    ∃ v, w.outputAll 1 pkts = some (v, [m.bytes]) ∧ SameWindow w v ∧ v.outputLen = 0 := by
  cases pkts with
  | nil => exact absurd hParts.symm m.split
  | cons p rest =>
      rw [List.map_cons] at hParts
      have hRest : rest.map (·.data) ≠ [] := by
        intro hNone
        rw [SplitMessage.count, ← hParts, hNone] at hMany
        exact hMany rfl
      have hOpens := output_opens hParts.symm hRest hBetween 0
      have hBytes : p.data ++ (rest.map (·.data)).flatten = m.bytes := by
        rw [SplitMessage.bytes, ← hParts, List.flatten_cons]
      have hTotal : (BitVec.ofNat 32 m.bytes.length).toNat = m.bytes.length := by
        rw [BitVec.toNat_ofNat, Nat.mod_eq_of_lt m.length_lt]
      have hSome : rest ≠ [] := fun hNone => hRest (by rw [hNone, List.map_nil])
      have hPos : ∀ q ∈ rest, 0 < q.data.length := by
        intro q hMem
        have hPart : q.data ∈ m.parts := by
          rw [← hParts]
          exact List.mem_cons_of_mem _ (List.mem_map_of_mem hMem)
        have := (m.partSize _ hPart).1
        omega
      obtain ⟨v, hAll, hSame, hDone⟩ := @outputAll_appends
        { w with
          outputOff := BitVec.ofNat 32 p.data.length
          outputLen := BitVec.ofNat 32 m.bytes.length
          outputBuf := p.data }
        rest p.data hSome hPos rfl List.take_length (by rw [hBytes]; exact hTotal) 1
      refine ⟨v, ?_, SameWindow.trans (by exact rfl) hSame, hDone⟩
      rw [hBytes] at hAll
      simp only [TrdpWindow.outputAll, hOpens, hAll, Option.bind_eq_bind, Option.bind_some,
        Option.pure_def, List.nil_append]

end Output

end Sassrv.Trdp
