import Mathlib

/-! Records that lie one behind the other in a buffer. Each has a start and an end; the
records that tile a part of the buffer spell out that part. -/
namespace Sassrv.Spans

universe u v
variable {α : Type u} {β : Type v}

class Spanned (α : Type u) where
  start : α → Nat
  stop : α → Nat

/-- The part of a buffer between two positions. -/
def slice (b : List β) (a z : Nat) : List β := (b.drop a).take (z - a)

/-- A copy into the buffer. -/
def write (b : List β) (off : Nat) (bytes : List β) : List β :=
  b.take off ++ bytes ++ b.drop (off + bytes.length)

section slices
variable {b : List β} {a m z : Nat}

theorem slice_length (h : z ≤ b.length) : (slice b a z).length = z - a := by
  rw [slice, List.length_take, List.length_drop]
  omega

theorem slice_append (hLow : a ≤ m) (hHigh : m ≤ z) :
    slice b a m ++ slice b m z = slice b a z := by
  have hDrop : b.drop m = (b.drop a).drop (m - a) := by
    rw [List.drop_drop]
    congr 1
    omega
  have hSize : z - a = (m - a) + (z - m) := by omega
  rw [slice, slice, slice, hDrop, hSize, List.take_add]

/-- The parts of a buffer that is cut in pieces. -/
theorem slice_of_append {front mid back : List β} (hStart : a = front.length)
    (hStop : z = front.length + mid.length) : slice (front ++ mid ++ back) a z = mid := by
  rw [slice, List.append_assoc, List.drop_append_of_le_length (by omega), hStart, List.drop_length,
    List.nil_append]
  exact List.take_left' (by omega)

/-- Buffers that agree up to a position agree on what is in front of it. -/
theorem slice_of_take {b' : List β} (h : b'.take m = b.take m) (hHigh : z ≤ m) :
    slice b' a z = slice b a z := by
  have hTake : ∀ l : List β, slice l a z = slice (l.take m) a z := by
    intro l
    rw [slice, slice, List.drop_take, List.take_take, Nat.min_eq_left (by omega)]
  rw [hTake, h, ← hTake]

theorem slice_of_drop {b' : List β} (h : b'.drop m = b.drop m) (hLow : m ≤ a) :
    slice b' a z = slice b a z := by
  have hDrop : ∀ l : List β, slice l a z = ((l.drop m).drop (a - m)).take (z - a) := by
    intro l
    rw [slice, List.drop_drop, Nat.add_sub_cancel' hLow]
  rw [hDrop, h, ← hDrop]

/-- Two neighbouring parts change places. -/
theorem write_swap (hLow : a ≤ m) (hHigh : m ≤ z) (hEnd : z ≤ b.length) :
    write (write b a (slice b m z)) (a + (z - m)) (slice b a m) =
      b.take a ++ slice b m z ++ slice b a m ++ b.drop z := by
  have hMoved : (slice b m z).length = z - m := slice_length hEnd
  have hKept : (slice b a m).length = m - a := slice_length (by omega)
  have hFront : (b.take a ++ slice b m z).length = a + (z - m) := by
    rw [List.length_append, List.length_take, hMoved]
    omega
  rw [write, write, hMoved, List.take_left' hFront, hKept, ← List.drop_drop,
    List.drop_left' hFront, List.drop_drop]
  congr 2
  omega

end slices

section spans
variable [Spanned α] {b : List β} {xs ys : List α} {x : α} {a m z : Nat}

def size (xs : List α) : Nat := (xs.map fun x => Spanned.stop x - Spanned.start x).sum

def encode (b : List β) (xs : List α) : List β :=
  xs.flatMap fun x => slice b (Spanned.start x) (Spanned.stop x)

/-- The records lie one behind the other from `a` to `z`, and none is empty. -/
def Tiles : Nat → List α → Nat → Prop
  | a, [], z => a = z
  | a, x :: xs, z => Spanned.start x = a ∧ a < Spanned.stop x ∧ Tiles (Spanned.stop x) xs z

@[simp] theorem size_nil : size ([] : List α) = 0 := rfl

@[simp] theorem size_cons : size (x :: xs) = (Spanned.stop x - Spanned.start x) + size xs := by
  rw [size, List.map_cons, List.sum_cons]
  rfl

@[simp] theorem size_append : size (xs ++ ys) = size xs + size ys := by
  rw [size, List.map_append, List.sum_append]
  rfl

@[simp] theorem encode_append : encode b (xs ++ ys) = encode b xs ++ encode b ys := by
  rw [encode, List.flatMap_append]
  rfl

theorem tiles_append : Tiles a (xs ++ ys) z ↔ ∃ m, Tiles a xs m ∧ Tiles m ys z := by
  induction xs generalizing a with
  | nil => simp [Tiles]
  | cons x xs ih => simp only [List.cons_append, Tiles, ih, ← exists_and_left, and_assoc]

theorem Tiles.stop (h : Tiles a xs z) : z = a + size xs := by
  induction xs generalizing a with
  | nil => exact h.symm
  | cons x xs ih =>
      obtain ⟨hStart, hLong, hRest⟩ := h
      rw [size_cons, ih hRest, hStart]
      omega

theorem Tiles.le (h : Tiles a xs z) : a ≤ z := h.stop ▸ Nat.le_add_right a _

/-- No record is empty. -/
theorem Tiles.long (h : Tiles a xs z) (hMem : x ∈ xs) : Spanned.start x < Spanned.stop x := by
  obtain ⟨front, back, rfl⟩ := List.append_of_mem hMem
  obtain ⟨m, -, hHere⟩ := tiles_append.mp h
  exact hHere.1 ▸ hHere.2.1

theorem Tiles.start_ge (h : Tiles a xs z) (hMem : x ∈ xs) : a ≤ Spanned.start x := by
  obtain ⟨front, back, rfl⟩ := List.append_of_mem hMem
  obtain ⟨m, hFront, hHere⟩ := tiles_append.mp h
  exact hHere.1 ▸ hFront.le

theorem Tiles.stop_le (h : Tiles a xs z) (hMem : x ∈ xs) : Spanned.stop x ≤ z := by
  obtain ⟨front, back, rfl⟩ := List.append_of_mem hMem
  obtain ⟨m, -, hHere⟩ := tiles_append.mp h
  exact hHere.2.2.le

theorem Tiles.encode (h : Tiles a xs z) : encode b xs = slice b a z := by
  induction xs generalizing a with
  | nil =>
      obtain rfl : a = z := h
      rw [slice, Nat.sub_self, List.take_zero]
      rfl
  | cons x xs ih =>
      obtain ⟨rfl, hLong, hRest⟩ := h
      rw [Spans.encode, List.flatMap_cons]
      refine Eq.trans ?_ (slice_append (Nat.le_of_lt hLong) hRest.le)
      rw [← ih hRest]
      rfl

theorem size_filter_le (p : α → Bool) (xs : List α) : size (xs.filter p) ≤ size xs := by
  induction xs with
  | nil => exact Nat.le_refl 0
  | cons x xs ih =>
      rw [List.filter_cons]
      split
      · rw [size_cons, size_cons]
        exact Nat.add_le_add_left ih _
      · rw [size_cons]
        exact Nat.le_trans ih (Nat.le_add_left _ _)

/-- Records that make up all of the size are all of the records. -/
theorem filter_of_size {p : α → Bool} (hLong : ∀ x ∈ xs, Spanned.start x < Spanned.stop x)
    (h : size (xs.filter p) = size xs) : xs.filter p = xs := by
  induction xs with
  | nil => rfl
  | cons x xs ih =>
      have hRest := size_filter_le p xs
      have hHead := hLong x List.mem_cons_self
      rw [List.filter_cons] at h ⊢
      split at h
      · rw [size_cons, size_cons, Nat.add_left_cancel_iff] at h
        rw [if_pos ‹_›, ih (fun y hy => hLong y (List.mem_cons_of_mem _ hy)) h]
      · rw [size_cons] at h
        omega

theorem size_pos (hLong : ∀ x ∈ xs, Spanned.start x < Spanned.stop x) (h : xs ≠ []) :
    0 < size xs := by
  obtain ⟨x, xs, rfl⟩ := List.exists_cons_of_ne_nil h
  have hHead := hLong x List.mem_cons_self
  rw [size_cons]
  omega

theorem encode_length (h : ∀ x ∈ xs, Spanned.stop x ≤ b.length) :
    (encode b xs).length = size xs := by
  induction xs with
  | nil => rfl
  | cons x xs ih =>
      rw [encode, List.flatMap_cons, List.length_append, slice_length (h x List.mem_cons_self),
        size_cons]
      exact congrArg _ (ih fun y hy => h y (List.mem_cons_of_mem _ hy))

end spans

end Sassrv.Spans
