import Mathlib.Data.List.Perm.Basic

/-! Hash tables whose buckets are lists: an array of lists that doubles when it is
full. The hash of an element is a parameter. -/
namespace Sassrv

universe u

/-- The array of buckets, empty before the first element, the mask of its indices
and the number of elements. -/
structure Buckets (α : Type u) where
  table : List (List α) := []
  mask : Nat := 0
  count : Nat := 0
  deriving DecidableEq

namespace Buckets

variable {α : Type u} (hash : α → BitVec 32)

def elements (t : Buckets α) : List α := t.table.flatten

def index (t : Buckets α) (h : BitVec 32) : Nat := h.toNat &&& t.mask

/-- The list that a lookup of the hash goes through; null without an array. -/
def bucket? (t : Buckets α) (h : BitVec 32) : Option (List α) := t.table[t.index h]?

/-- The element at the end of its bucket. -/
def place (t : Buckets α) (a : α) : Buckets α :=
  { t with
    table := t.table.modify (t.index (hash a)) (· ++ [a])
    count := t.count + 1 }

def init (size : Nat) : Buckets α where
  table := List.replicate size []
  mask := size - 1

/-- A table of twice the size with the same elements. -/
def resize (t : Buckets α) : Buckets α :=
  t.elements.foldl (place hash) (init (if t.table = [] then 16 else 2 * (t.mask + 1)))

def push (t : Buckets α) (a : α) : Buckets α :=
  (if t.mask ≤ t.count then resize hash t else t).place hash a

def remove [DecidableEq α] (t : Buckets α) (a : α) : Buckets α :=
  { t with
    table := t.table.modify (t.index (hash a)) (·.erase a)
    count := t.count - 1 }

/-- The elements of one hash in the order they are found. -/
def chain (t : Buckets α) (h : BitVec 32) : List α := t.elements.filter fun a => hash a = h

/-- Every element is in the bucket of its hash, and the count is right. -/
structure Filed (t : Buckets α) : Prop where
  size : t.table = [] ∧ t.mask = 0 ∨ t.table.length = t.mask + 1
  filed : ∀ i list, t.table[i]? = some list → ∀ a ∈ list, t.index (hash a) = i
  count : t.count = t.elements.length

variable {hash} {t : Buckets α}

theorem index_le (h : BitVec 32) : t.index h ≤ t.mask := Nat.and_le_right

theorem flatten_modify_append {lists : List (List α)} {i : Nat} (h : i < lists.length) (a : α) :
    (lists.modify i (· ++ [a])).flatten.Perm (a :: lists.flatten) := by
  induction lists generalizing i with
  | nil => simp at h
  | cons list rest ih =>
      cases i with
      | zero =>
          rw [List.modify_zero_cons, List.flatten_cons, List.flatten_cons, List.append_assoc]
          exact List.perm_middle
      | succ i =>
          rw [List.modify_succ_cons, List.flatten_cons, List.flatten_cons]
          have hRest := ih (Nat.lt_of_succ_lt_succ h)
          exact (hRest.append_left list).trans List.perm_middle

theorem flatten_modify_erase [DecidableEq α] {lists : List (List α)} {i : Nat} {list : List α}
    {a : α} (h : lists[i]? = some list) (hMem : a ∈ list) :
    (a :: (lists.modify i (·.erase a)).flatten).Perm lists.flatten := by
  induction lists generalizing i with
  | nil => simp at h
  | cons first rest ih =>
      cases i with
      | zero =>
          obtain rfl : first = list := by simpa using h
          rw [List.modify_zero_cons, List.flatten_cons, List.flatten_cons, ← List.cons_append]
          exact (List.perm_cons_erase hMem).symm.append_right _
      | succ i =>
          rw [List.modify_succ_cons, List.flatten_cons, List.flatten_cons]
          have hRest := ih (by simpa using h)
          exact List.perm_middle.symm.trans (hRest.append_left first)

/-- Lists whose elements name their own position are the classes of the whole. -/
theorem filter_flatten {lists : List (List α)} (position : α → Nat) (first : Nat)
    (h : ∀ i list, lists[i]? = some list → ∀ a ∈ list, position a = first + i) (k : Nat) :
    lists.flatten.filter (fun a => position a = first + k) = (lists[k]?).getD [] := by
  induction lists generalizing first k with
  | nil => simp
  | cons list rest ih =>
      have hHead : ∀ a ∈ list, position a = first := fun a ha => h 0 list rfl a ha
      have hTail : ∀ i l, rest[i]? = some l → ∀ a ∈ l, position a = first + 1 + i := by
        intro i l hl a ha
        rw [h (i + 1) l (by simpa using hl) a ha]
        omega
      rw [List.flatten_cons, List.filter_append]
      cases k with
      | zero =>
          have hAll : list.filter (fun a => position a = first + 0) = list :=
            List.filter_eq_self.mpr fun a ha => by simp [hHead a ha]
          have hNone : rest.flatten.filter (fun a => position a = first + 0) = [] := by
            refine List.filter_eq_nil_iff.mpr fun a ha => ?_
            obtain ⟨l, hl, hal⟩ := List.mem_flatten.mp ha
            obtain ⟨i, hi⟩ := List.mem_iff_getElem?.mp hl
            have := hTail i l hi a hal
            simp only [decide_eq_true_eq]
            omega
          rw [hAll, hNone]
          simp
      | succ k =>
          have hNone : list.filter (fun a => position a = first + (k + 1)) = [] := by
            refine List.filter_eq_nil_iff.mpr fun a ha => ?_
            simp [hHead a ha]
          have hRest := ih (first + 1) hTail k
          rw [hNone, List.nil_append]
          simpa [Nat.add_assoc, Nat.add_comm 1 k] using hRest

/-- The classes of a key, one after the other, are the whole. -/
theorem flatMap_classes {κ : Type*} [DecidableEq κ] {keys : List κ} (hNodup : keys.Nodup) (list : List α) (key : α → κ)
    (p : α → Bool) (hKeys : ∀ a ∈ list, p a → key a ∈ keys) :
    (keys.flatMap fun k => list.filter fun a => p a && decide (key a = k)).Perm
      (list.filter p) := by
  induction keys generalizing p with
  | nil =>
      rw [List.filter_eq_nil_iff.mpr fun a ha hp => by simpa using hKeys a ha hp]
      exact .nil
  | cons k rest ih =>
      obtain ⟨hHead, hRest⟩ := List.nodup_cons.mp hNodup
      have hTail := ih hRest (fun a => p a && decide (key a ≠ k)) (by
        intro a ha hp
        simp only [Bool.and_eq_true, decide_eq_true_eq] at hp
        exact (List.mem_cons.mp (hKeys a ha hp.1)).resolve_left hp.2)
      have hSame : (rest.flatMap fun k' => list.filter fun a => p a && decide (key a = k')) =
          rest.flatMap fun k' => list.filter fun a =>
            (p a && decide (key a ≠ k)) && decide (key a = k') := by
        refine List.flatMap_congr fun k' hk' => List.filter_congr fun a _ => ?_
        by_cases hKey : key a = k'
        · have : key a ≠ k := fun h => hHead (h ▸ hKey ▸ hk')
          simp [this]
        · simp [hKey]
      rw [List.flatMap_cons, hSame]
      refine (hTail.append_left _).trans ?_
      have hSplit := List.filter_append_perm (fun a => decide (key a = k)) (list.filter p)
      simpa [List.filter_filter, Bool.and_comm] using hSplit

namespace Filed

theorem empty : Filed hash ({} : Buckets α) where
  size := .inl ⟨rfl, rfl⟩
  filed := by simp
  count := rfl

theorem init {size : Nat} (h : 0 < size) : Filed hash (Buckets.init size) where
  size := .inr (by simp only [Buckets.init, List.length_replicate]; omega)
  filed := by
    intro i list hList a ha
    obtain rfl : list = [] := by
      rw [Buckets.init, List.getElem?_replicate] at hList
      split at hList
      · exact (Option.some.inj hList).symm
      · cases hList
    cases ha
  count := by simp [Buckets.init, elements]

theorem place_index (hTable : t.table ≠ []) (hFiled : Filed hash t) (h : BitVec 32) :
    t.index h < t.table.length := by
  rcases hFiled.size with ⟨hNil, _⟩ | hLength
  · exact absurd hNil hTable
  · have := t.index_le h
    omega

theorem bucket? (hTable : t.table ≠ []) (hFiled : Filed hash t) (h : BitVec 32) :
    t.bucket? h = some (t.elements.filter fun a => t.index (hash a) = t.index h) := by
  have hIndex := place_index hTable hFiled h
  have hClass := filter_flatten (fun a => t.index (hash a)) 0
    (by simpa using hFiled.filed) (t.index h)
  rw [Nat.zero_add, List.getElem?_eq_getElem hIndex] at hClass
  rw [Buckets.bucket?, List.getElem?_eq_getElem hIndex, elements, hClass]
  rfl

end Filed

theorem elements_place (hTable : t.table ≠ []) (hFiled : Filed hash t) (a : α) :
    (t.place hash a).elements.Perm (a :: t.elements) :=
  flatten_modify_append (hFiled.place_index hTable _) a

@[simp] theorem place_count (a : α) : (t.place hash a).count = t.count + 1 := rfl

@[simp] theorem place_index (a : α) (h : BitVec 32) : (t.place hash a).index h = t.index h := rfl

theorem place_table_ne_nil (hTable : t.table ≠ []) (a : α) : (t.place hash a).table ≠ [] := by
  simpa [place, ← List.length_eq_zero_iff] using hTable

theorem Filed.place (hTable : t.table ≠ []) (hFiled : Filed hash t) (a : α) :
    Filed hash (t.place hash a) where
  size := by
    rcases hFiled.size with ⟨hNil, _⟩ | hLength
    · exact absurd hNil hTable
    · exact .inr (by simpa [Buckets.place] using hLength)
  filed := by
    intro i list hList b hb
    rw [Buckets.place, List.getElem?_modify, Option.map_eq_map, Option.map_eq_some_iff] at hList
    obtain ⟨old, hOld, rfl⟩ := hList
    split at hb
    · rename_i hHere
      rcases List.mem_append.mp hb with hb | hb
      · exact hFiled.filed i old hOld b hb
      · rw [List.mem_singleton.mp hb]
        exact hHere
    · exact hFiled.filed i old hOld b hb
  count := by
    rw [(elements_place hTable hFiled a).length_eq, place_count, hFiled.count]
    rfl

theorem Filed.foldl_place (hTable : t.table ≠ []) (hFiled : Filed hash t) (items : List α) :
    Filed hash (items.foldl (Buckets.place hash) t) ∧
      (items.foldl (Buckets.place hash) t).table ≠ [] ∧
      (items.foldl (Buckets.place hash) t).mask = t.mask ∧
      (items.foldl (Buckets.place hash) t).elements.Perm (items ++ t.elements) := by
  induction items generalizing t with
  | nil => exact ⟨hFiled, hTable, rfl, .refl _⟩
  | cons a rest ih =>
      obtain ⟨hFiled', hTable', hMask, hPerm⟩ :=
        ih (place_table_ne_nil hTable a) (hFiled.place hTable a)
      refine ⟨hFiled', hTable', hMask, hPerm.trans ?_⟩
      have hPlaced := (elements_place hTable hFiled a).append_left rest
      exact hPlaced.trans List.perm_middle

/-- The table after `resize`: larger, with the same elements. -/
theorem Filed.resize (t : Buckets α) :
    Filed hash (t.resize hash) ∧ (t.resize hash).table ≠ [] ∧
      (t.resize hash).elements.Perm t.elements := by
  have hSize : 0 < if t.table = [] then 16 else 2 * (t.mask + 1) := by split <;> omega
  have hInit : (Buckets.init (if t.table = [] then 16 else 2 * (t.mask + 1)) : Buckets α).table
      ≠ [] := by
    simp only [Buckets.init, ne_eq, List.replicate_eq_nil_iff]
    omega
  obtain ⟨hFiled', hTable, _, hPerm⟩ :=
    Filed.foldl_place hInit (Filed.init hSize : Filed hash _) t.elements
  refine ⟨hFiled', hTable, ?_⟩
  simpa [Buckets.resize, Buckets.init, Buckets.elements] using hPerm

/-- The pushes inside `resize` find room, so they do not resize in turn. -/
theorem Filed.resize_room (hFiled : Filed hash t) {before after : List α} {a : α}
    (hElements : t.elements = before ++ a :: after) (hFull : t.count ≤ t.mask) :
    let sofar := before.foldl (Buckets.place hash)
      (Buckets.init (if t.table = [] then 16 else 2 * (t.mask + 1)))
    sofar.count < sofar.mask := by
  have hTable : t.table ≠ [] := by
    intro hNil
    simp [elements, hNil] at hElements
  have hLength := congrArg List.length hElements
  simp only [List.length_append, List.length_cons] at hLength
  have hCount := hFiled.count
  simp only [hTable, if_false]
  have hInit : (Buckets.init (2 * (t.mask + 1)) : Buckets α).table ≠ [] := by simp [Buckets.init]
  obtain ⟨hFiled', _, hMask, hPerm⟩ :=
    Filed.foldl_place hInit (Filed.init (by omega) : Filed hash _) before
  have hSofar := hPerm.length_eq
  rw [← hFiled'.count] at hSofar
  rw [hMask, hSofar]
  simp only [List.length_append, Buckets.init, elements, List.flatten_replicate_nil,
    List.length_nil]
  omega

theorem Filed.push (hFiled : Filed hash t) (a : α) :
    Filed hash (t.push hash a) ∧ (t.push hash a).table ≠ [] ∧
      (t.push hash a).elements.Perm (a :: t.elements) := by
  unfold Buckets.push
  split
  case isTrue hFull =>
      obtain ⟨hFiled', hTable, hPerm⟩ := Filed.resize t
      exact ⟨hFiled'.place hTable a, place_table_ne_nil hTable a,
        (elements_place hTable hFiled' a).trans (hPerm.cons a)⟩
  case isFalse hRoom =>
      have hTable : t.table ≠ [] := by
        rcases hFiled.size with ⟨_, hMask⟩ | hLength
        · omega
        · exact List.ne_nil_of_length_pos (by omega)
      exact ⟨hFiled.place hTable a, place_table_ne_nil hTable a,
        elements_place hTable hFiled a⟩

/-- A lookup goes through the chain of its hash, among elements of other hashes. -/
theorem Filed.chain_bucket? (hFiled : Filed hash t) {h : BitVec 32} {list : List α}
    (hList : t.bucket? h = some list) :
    (list.filter fun a => hash a = h) = chain hash t h := by
  have hTable : t.table ≠ [] := by
    intro hNil
    simp [Buckets.bucket?, hNil] at hList
  obtain rfl := Option.some.inj (hList.symm.trans (hFiled.bucket? hTable h))
  rw [List.filter_filter]
  refine List.filter_congr fun a _ => ?_
  by_cases ha : hash a = h <;> simp [ha]

theorem filter_modify_append {lists : List (List α)} {i : Nat} (h : i < lists.length) (a : α)
    {p : α → Bool} (hLater : ∀ j list, i < j → lists[j]? = some list → ∀ b ∈ list, p b = false ∨
      p a = false) :
    (lists.modify i (· ++ [a])).flatten.filter p =
      lists.flatten.filter p ++ if p a then [a] else [] := by
  induction lists generalizing i with
  | nil => simp at h
  | cons list rest ih =>
      cases i with
      | zero =>
          have hRest : p a = true → rest.flatten.filter p = [] := by
            intro ha
            refine List.filter_eq_nil_iff.mpr fun b hb => ?_
            obtain ⟨other, hOther, hbOther⟩ := List.mem_flatten.mp hb
            obtain ⟨j, hj⟩ := List.mem_iff_getElem?.mp hOther
            have := hLater (j + 1) other (by omega) (by simpa using hj) b hbOther
            simpa [ha] using this
          rw [List.modify_zero_cons, List.flatten_cons, List.flatten_cons, List.filter_append,
            List.filter_append, List.filter_append, List.append_assoc, List.append_assoc]
          cases ha : p a with
          | true => simp [ha, hRest ha]
          | false => simp [ha]
      | succ i =>
          rw [List.modify_succ_cons, List.flatten_cons, List.flatten_cons, List.filter_append,
            List.filter_append, List.append_assoc]
          refine congrArg _ (ih (by simpa using h) fun j other hj hOther => ?_)
          exact hLater (j + 1) other (by omega) (by simpa using hOther)

theorem Filed.chain_place (hTable : t.table ≠ []) (hFiled : Filed hash t) (a : α) (h : BitVec 32) :
    chain hash (t.place hash a) h = chain hash t h ++ if hash a = h then [a] else [] := by
  have hPlaced := filter_modify_append (hFiled.place_index hTable (hash a)) a
    (p := fun b => hash b = h) (by
      intro j list hj hList b hb
      by_contra hBoth
      simp only [decide_eq_false_iff_not, not_or, not_not] at hBoth
      have := hFiled.filed j list hList b hb
      rw [hBoth.1, ← hBoth.2] at this
      omega)
  simpa [chain, Buckets.place, elements] using hPlaced

theorem Filed.chain_foldl_place (hTable : t.table ≠ []) (hFiled : Filed hash t) (items : List α)
    (h : BitVec 32) :
    chain hash (items.foldl (Buckets.place hash) t) h =
      chain hash t h ++ items.filter fun a => hash a = h := by
  induction items generalizing t with
  | nil => simp
  | cons a rest ih =>
      rw [List.foldl_cons, ih (place_table_ne_nil hTable a) (hFiled.place hTable a),
        hFiled.chain_place hTable, List.append_assoc]
      by_cases ha : hash a = h <;> simp [ha]

/-- The order within a chain outlives a resize. -/
theorem chain_resize (t : Buckets α) (h : BitVec 32) :
    chain hash (t.resize hash) h = chain hash t h := by
  have hSize : 0 < if t.table = [] then 16 else 2 * (t.mask + 1) := by split <;> omega
  have hInit : (Buckets.init (if t.table = [] then 16 else 2 * (t.mask + 1)) : Buckets α).table
      ≠ [] := by
    simp only [Buckets.init, ne_eq, List.replicate_eq_nil_iff]
    omega
  rw [Buckets.resize, Filed.chain_foldl_place hInit (Filed.init hSize)]
  simp [chain, Buckets.init, elements]

theorem Filed.chain_push (hFiled : Filed hash t) (a : α) (h : BitVec 32) :
    chain hash (t.push hash a) h = chain hash t h ++ if hash a = h then [a] else [] := by
  unfold Buckets.push
  split
  case isTrue hFull =>
      obtain ⟨hFiled', hTable, _⟩ := Filed.resize t
      rw [hFiled'.chain_place hTable, chain_resize]
  case isFalse hRoom =>
      have hTable : t.table ≠ [] := by
        rcases hFiled.size with ⟨_, hMask⟩ | hLength
        · omega
        · exact List.ne_nil_of_length_pos (by omega)
      exact hFiled.chain_place hTable a h

theorem Filed.remove [DecidableEq α] (hFiled : Filed hash t) {a : α} (hMem : a ∈ t.elements) :
    Filed hash (t.remove hash a) ∧ (t.remove hash a).table ≠ [] ∧
      (a :: (t.remove hash a).elements).Perm t.elements := by
  obtain ⟨list, hList, ha⟩ := List.mem_flatten.mp hMem
  obtain ⟨i, hi⟩ := List.mem_iff_getElem?.mp hList
  have hIndex := hFiled.filed i list hi a ha
  have hPerm : (a :: (t.remove hash a).elements).Perm t.elements := by
    rw [Buckets.remove, elements, hIndex]
    exact flatten_modify_erase hi ha
  have hTable : t.table ≠ [] := fun hNil => by simp [hNil] at hi
  refine ⟨⟨?_, ?_, ?_⟩, ?_, hPerm⟩
  · rcases hFiled.size with ⟨hNil, _⟩ | hLength
    · exact absurd hNil hTable
    · exact .inr (by simpa [Buckets.remove] using hLength)
  · intro j other hOther b hb
    rw [Buckets.remove, List.getElem?_modify, Option.map_eq_map, Option.map_eq_some_iff] at hOther
    obtain ⟨old, hOld, rfl⟩ := hOther
    split at hb
    · exact hFiled.filed j old hOld b (List.mem_of_mem_erase hb)
    · exact hFiled.filed j old hOld b hb
  · have hLength := hPerm.length_eq
    rw [List.length_cons, ← hFiled.count] at hLength
    simp only [Buckets.remove] at hLength ⊢
    omega
  · simpa [Buckets.remove, ← List.length_eq_zero_iff] using hTable

end Buckets
end Sassrv
