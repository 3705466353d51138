import Mathlib.Data.BitVec
import Mathlib.Data.List.Chain

/-! Serial numbers: machine words compared by the sign of their difference.
Words that lie less than half the word range above one base are ordered as
their distances from that base are, wherever the range wraps. -/
namespace Sassrv.Serial

variable {n : Nat}

/-- Distance of a word above the base of its span. -/
def offset (base a : BitVec n) : Nat := (a - base).toNat

/-- Within a half range the signed difference is the difference of distances. -/
theorem toInt_sub {base a b : BitVec (n + 1)} (ha : offset base a < 2 ^ n)
    (hb : offset base b < 2 ^ n) :
    (a - b).toInt = (offset base a : Int) - offset base b := by
  have hSplit : a - b = (a - base) - (b - base) := by
    rw [sub_sub_sub_cancel_right]
  have hPow : 2 ^ (n + 1) = 2 * 2 ^ n := by rw [pow_succ, Nat.mul_comm]
  unfold offset at ha hb ⊢
  rw [hSplit, BitVec.toInt_eq_toNat_cond, BitVec.toNat_sub]
  generalize (a - base).toNat = x at ha ⊢
  generalize (b - base).toNat = y at hb ⊢
  rcases Nat.le_total y x with hle | hle
  · have hMod : (2 ^ (n + 1) - y + x) % 2 ^ (n + 1) = x - y := by
      rw [show 2 ^ (n + 1) - y + x = (x - y) + 2 ^ (n + 1) by omega, Nat.add_mod_right]
      exact Nat.mod_eq_of_lt (by omega)
    rw [hMod, if_pos (by omega)]
    omega
  · rcases Nat.eq_or_lt_of_le hle with rfl | hlt
    · rw [show 2 ^ (n + 1) - x + x = 2 ^ (n + 1) by omega, Nat.mod_self]
      simp
    · have hMod : (2 ^ (n + 1) - y + x) % 2 ^ (n + 1) = 2 ^ (n + 1) - y + x :=
        Nat.mod_eq_of_lt (by omega)
      rw [hMod, if_neg (by omega), hPow]
      omega

/-- The successor of a word below the top of the range is one further. -/
theorem offset_add_one {base a : BitVec (n + 1)} (ha : offset base a < 2 ^ n) :
    offset base (a + 1) = offset base a + 1 := by
  have hPow : 2 ^ (n + 1) = 2 * 2 ^ n := by rw [pow_succ, Nat.mul_comm]
  have hPos : 0 < 2 ^ n := Nat.two_pow_pos n
  have hSplit : a + 1 - base = (a - base) + 1 := by
    rw [add_sub_right_comm]
  unfold offset at ha ⊢
  rw [hSplit, BitVec.toNat_add]
  have hOne : (1 : BitVec (n + 1)).toNat = 1 := by simp
  rw [hOne]
  exact Nat.mod_eq_of_lt (by omega)

/-- The predecessor of a word above the base is one nearer. -/
theorem offset_sub_one {base a : BitVec (n + 1)} (ha : 0 < offset base a) :
    offset base (a - 1) = offset base a - 1 := by
  have hTop : (a - base).toNat < 2 ^ (n + 1) := (a - base).isLt
  have hSplit : a - 1 - base = (a - base) - 1 := by
    rw [sub_right_comm]
  have hOne : (1 : BitVec (n + 1)).toNat = 1 := by simp
  unfold offset at ha ⊢
  rw [hSplit, BitVec.toNat_sub, hOne]
  rw [show 2 ^ (n + 1) - 1 + (a - base).toNat = ((a - base).toNat - 1) + 2 ^ (n + 1) by omega,
    Nat.add_mod_right]
  exact Nat.mod_eq_of_lt (by omega)

/-- A chain of successors below the top of the range is ordered by distance. -/
theorem pairwise_offset_of_chain {α : Type*} (base : BitVec (n + 1)) (key : α → BitVec (n + 1))
    (items : List α) (hBelow : ∀ p ∈ items, offset base (key p) < 2 ^ n)
    (hChain : items.IsChain (fun p q => key q = key p + 1)) :
    items.Pairwise (fun p q => offset base (key p) < offset base (key q)) := by
  induction items with
  | nil => exact List.Pairwise.nil
  | cons p rest ih =>
      have hRest := ih (fun q hq => hBelow q (List.mem_cons_of_mem _ hq)) hChain.tail
      cases rest with
      | nil => exact List.pairwise_singleton _ _
      | cons q tail =>
          have hNext : key q = key p + 1 := (List.isChain_cons_cons.mp hChain).1
          have hStep : offset base (key q) = offset base (key p) + 1 := by
            rw [hNext]
            exact offset_add_one (hBelow p (List.mem_cons_self ..))
          refine List.pairwise_cons.mpr ⟨?_, hRest⟩
          intro r hr
          rcases List.mem_cons.mp hr with rfl | hr
          · omega
          · have hAfter := (List.pairwise_cons.mp hRest).1 r hr
            omega

end Sassrv.Serial
