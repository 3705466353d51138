import Mathlib

/-! A digest of a finite set that is kept up while elements come and go: how many there
are, and the xor of their hashes. The count has a fixed width and is not taken below
zero. -/
namespace Sassrv

universe u
variable {α : Type u} {n w : Nat}

structure Digest (n w : Nat) where
  count : BitVec n
  sum : BitVec w
  deriving DecidableEq

namespace Digest

def add (d : Digest n w) (h : BitVec w) : Digest n w := ⟨d.count + 1, d.sum ^^^ h⟩

def drop (d : Digest n w) (h : BitVec w) : Digest n w :=
  ⟨if 0 < d.count then d.count - 1 else d.count, d.sum ^^^ h⟩

/-- The digest of a set, computed anew. -/
def of (f : α → BitVec w) (s : Finset α) : Digest n w :=
  ⟨BitVec.ofNat n s.card, s.fold (· ^^^ ·) 0 f⟩

variable {f : α → BitVec w} {s : Finset α} {a : α}

@[simp] theorem of_empty : (of f ∅ : Digest n w) = ⟨0, 0⟩ := rfl

variable [DecidableEq α]

theorem of_insert (hNew : a ∉ s) : (of f (insert a s) : Digest n w) = (of f s).add (f a) := by
  have hCard : BitVec.ofNat n (insert a s).card = BitVec.ofNat n s.card + 1 := by
    rw [Finset.card_insert_of_notMem hNew, BitVec.ofNat_add]
    rfl
  rw [of, hCard, Finset.fold_insert hNew, BitVec.xor_comm]
  rfl

theorem of_erase (hMem : a ∈ s) (hFew : s.card < 2 ^ n) :
    (of f (s.erase a) : Digest n w) = (of f s).drop (f a) := by
  have hPos : 0 < s.card := Finset.card_pos.mpr ⟨a, hMem⟩
  have hCount : (0 : BitVec n) < BitVec.ofNat n s.card := by
    rw [BitVec.lt_def, BitVec.toNat_ofNat, Nat.mod_eq_of_lt hFew]
    simpa using hPos
  have hWhole : (of f s : Digest n w) = (of f (s.erase a)).add (f a) := by
    rw [← of_insert (Finset.notMem_erase a s), Finset.insert_erase hMem]
  have hDrop : (of f s : Digest n w).drop (f a) =
      ⟨BitVec.ofNat n s.card - 1, (of f s : Digest n w).sum ^^^ f a⟩ := by
    rw [drop, of, if_pos hCount]
  have hLess : BitVec.ofNat n s.card - 1 = BitVec.ofNat n (s.erase a).card := by
    have hSplit : BitVec.ofNat n s.card = BitVec.ofNat n (s.erase a).card + 1 :=
      congrArg Digest.count hWhole
    rw [hSplit, BitVec.add_sub_cancel]
  have hSum : (of f s : Digest n w).sum ^^^ f a = (of f (s.erase a) : Digest n w).sum := by
    rw [hWhole, add, BitVec.xor_assoc, BitVec.xor_self, BitVec.xor_zero]
  rw [hDrop, hLess, hSum]
  rfl

/-- Elements that leave one after the other. -/
theorem of_sdiff (as : List α) (hNodup : as.Nodup) (hThere : ∀ a ∈ as, a ∈ s) (hFew : s.card < 2 ^ n) :
    as.foldl (fun d a => d.drop (f a)) (of f s : Digest n w) = of f (s \ as.toFinset) := by
  induction as generalizing s with
  | nil => simp
  | cons a rest ih =>
      obtain ⟨hHead, hRest⟩ := List.nodup_cons.mp hNodup
      have hMem := hThere a List.mem_cons_self
      have hStill : ∀ b ∈ rest, b ∈ s.erase a := by
        intro b hb
        refine Finset.mem_erase.mpr ⟨?_, hThere b (List.mem_cons_of_mem a hb)⟩
        rintro rfl
        exact hHead hb
      have hLess : (s.erase a).card < 2 ^ n := (Finset.card_le_card (Finset.erase_subset a s)).trans_lt hFew
      have hSet : s \ (a :: rest).toFinset = s.erase a \ rest.toFinset := by
        ext x
        simp only [Finset.mem_sdiff, Finset.mem_erase, List.mem_toFinset, List.mem_cons, not_or]
        tauto
      rw [List.foldl_cons, ← of_erase hMem hFew, ih hRest hStill hLess, hSet]

end Digest

end Sassrv
