import Mathlib.Data.Multiset.OrderedMonoid
import Mathlib.Algebra.Order.Sub.Basic
import Mathlib.Data.Finset.Card
import Mathlib.Data.Multiset.Fold

/-! A pass over a list that counts an element once: elements have a key by
which a repetition is recognised, or none. What is counted twice and what is
never counted account for every difference from the set of the elements. -/
namespace Sassrv

universe u v
variable {α : Type u} {κ : Type v} [DecidableEq κ] (key : α → Option κ)

/-- The elements without a key, and of the others the first with each key. -/
def firstSeen : List κ → List α → List α
  | _, [] => []
  | seen, x :: xs =>
      match key x with
      | none => x :: firstSeen seen xs
      | some k => if k ∈ seen then firstSeen seen xs else x :: firstSeen (k :: seen) xs

/-- No two different elements have the same key. -/
def KeysApart (xs : List α) : Prop :=
  ∀ x ∈ xs, ∀ y ∈ xs, ∀ k, key x = some k → key y = some k → x = y

variable {key} {seen : List κ} {xs : List α} {x y : α} {k : κ}

theorem firstSeen_keyless (h : key x = none) : firstSeen key seen (x :: xs) = x :: firstSeen key seen xs := by
  simp only [firstSeen, h]

theorem firstSeen_again (h : key x = some k) (hSeen : k ∈ seen) :
    firstSeen key seen (x :: xs) = firstSeen key seen xs := by
  simp only [firstSeen, h, if_pos hSeen]

theorem firstSeen_new (h : key x = some k) (hNew : k ∉ seen) :
    firstSeen key seen (x :: xs) = x :: firstSeen key (k :: seen) xs := by
  simp only [firstSeen, h, if_neg hNew]

theorem firstSeen_subset (seen : List κ) (xs : List α) : firstSeen key seen xs ⊆ xs := by
  induction xs generalizing seen with
  | nil => exact List.Subset.refl _
  | cons x xs ih =>
      cases hKey : key x with
      | none =>
          rw [firstSeen_keyless hKey]
          exact List.cons_subset_cons x (ih seen)
      | some k =>
          by_cases hSeen : k ∈ seen
          · rw [firstSeen_again hKey hSeen]
            exact List.subset_cons_of_subset x (ih seen)
          · rw [firstSeen_new hKey hSeen]
            exact List.cons_subset_cons x (ih _)

theorem key_notMem_of_firstSeen (hKey : key x = some k) (h : x ∈ firstSeen key seen xs) : k ∉ seen := by
  induction xs generalizing seen with
  | nil => simp [firstSeen] at h
  | cons y xs ih =>
      cases hHead : key y with
      | none =>
          rw [firstSeen_keyless hHead] at h
          rcases List.mem_cons.mp h with rfl | h
          · rw [hKey] at hHead
            cases hHead
          · exact ih h
      | some j =>
          by_cases hSeen : j ∈ seen
          · rw [firstSeen_again hHead hSeen] at h
            exact ih h
          · rw [firstSeen_new hHead hSeen] at h
            rcases List.mem_cons.mp h with rfl | h
            · rw [hKey] at hHead
              rwa [Option.some.inj hHead]
            · exact fun hMem => ih h (List.mem_cons_of_mem j hMem)

theorem firstSeen_apart (hx : x ∈ firstSeen key seen xs) (hy : y ∈ firstSeen key seen xs)
    (hKeyX : key x = some k) (hKeyY : key y = some k) : x = y := by
  induction xs generalizing seen with
  | nil => simp [firstSeen] at hx
  | cons z xs ih =>
      cases hHead : key z with
      | none =>
          rw [firstSeen_keyless hHead] at hx hy
          have hx := (List.mem_cons.mp hx).resolve_left (by rintro rfl; simp [hKeyX] at hHead)
          have hy := (List.mem_cons.mp hy).resolve_left (by rintro rfl; simp [hKeyY] at hHead)
          exact ih hx hy
      | some j =>
          by_cases hSeen : j ∈ seen
          · rw [firstSeen_again hHead hSeen] at hx hy
            exact ih hx hy
          · rw [firstSeen_new hHead hSeen] at hx hy
            rcases List.mem_cons.mp hx with rfl | hLaterX <;>
              rcases List.mem_cons.mp hy with rfl | hLaterY
            · rfl
            · rw [hKeyX] at hHead
              cases hHead
              exact absurd List.mem_cons_self (key_notMem_of_firstSeen hKeyY hLaterY)
            · rw [hKeyY] at hHead
              cases hHead
              exact absurd List.mem_cons_self (key_notMem_of_firstSeen hKeyX hLaterX)
            · exact ih hLaterX hLaterY

section Counts

variable [DecidableEq α]

variable (key) in
/-- Every element without a key is there once. -/
def KeylessOnce (xs : List α) : Prop := ∀ x, key x = none → xs.count x ≤ 1

variable (key) in
/-- What is counted again. -/
def surplus (xs : List α) : Multiset α :=
  let counted : Multiset α := firstSeen key [] xs
  counted - counted.dedup

variable (key) in
/-- What is never counted. -/
def lost (xs : List α) : Multiset α :=
  xs.toFinset.val - (firstSeen key [] xs : Multiset α).dedup

theorem keyless_mem_firstSeen (hKey : key x = none) : x ∈ firstSeen key seen xs ↔ x ∈ xs := by
  refine ⟨fun h => firstSeen_subset seen xs h, fun h => ?_⟩
  induction xs generalizing seen with
  | nil => exact h
  | cons y xs ih =>
      have hTail : ∀ seen, x ≠ y → x ∈ firstSeen key seen xs := fun seen hNe =>
        ih (List.mem_of_ne_of_mem hNe h)
      cases hHead : key y with
      | none =>
          rw [firstSeen_keyless hHead, List.mem_cons]
          by_cases hEq : x = y
          · exact Or.inl hEq
          · exact Or.inr (hTail seen hEq)
      | some j =>
          have hNe : x ≠ y := by
            rintro rfl
            rw [hKey] at hHead
            cases hHead
          by_cases hSeen : j ∈ seen
          · rw [firstSeen_again hHead hSeen]
            exact hTail seen hNe
          · rw [firstSeen_new hHead hSeen]
            exact List.mem_cons_of_mem y (hTail _ hNe)

theorem firstSeen_nodup_iff (seen : List κ) (xs : List α) :
    (firstSeen key seen xs).Nodup ↔ KeylessOnce key xs := by
  induction xs generalizing seen with
  | nil => simp [firstSeen, KeylessOnce]
  | cons x xs ih =>
      cases hKey : key x with
      | none =>
          rw [firstSeen_keyless hKey, List.nodup_cons, keyless_mem_firstSeen hKey, ih]
          constructor
          · rintro ⟨hNot, hOnce⟩ y hy
            rw [List.count_cons]
            split
            · next hEq =>
                rw [beq_iff_eq] at hEq
                rw [← hEq, List.count_eq_zero_of_not_mem hNot]
            · exact hOnce y hy
          · intro hOnce
            refine ⟨fun hMem => ?_, fun y hy => (List.count_le_count_cons).trans (hOnce y hy)⟩
            have hTwice := hOnce x hKey
            rw [List.count_cons_self] at hTwice
            have hPos := List.count_pos_iff.mpr hMem
            omega
      | some k =>
          have hSame : KeylessOnce key (x :: xs) ↔ KeylessOnce key xs := by
            refine forall₂_congr fun y hy => ?_
            rw [List.count_cons_of_ne]
            rintro rfl
            rw [hKey] at hy
            cases hy
          rw [hSame]
          by_cases hSeen : k ∈ seen
          · rw [firstSeen_again hKey hSeen, ih]
          · rw [firstSeen_new hKey hSeen, List.nodup_cons, ih]
            exact and_iff_right fun h => key_notMem_of_firstSeen hKey h List.mem_cons_self

/-- With keys apart only the keys seen before hide an element. -/
theorem KeysApart.mem_firstSeen (hApart : KeysApart key xs) (hx : x ∈ xs)
    (hNew : ∀ k, key x = some k → k ∉ seen) : x ∈ firstSeen key seen xs := by
  induction xs generalizing seen with
  | nil => exact hx
  | cons y xs ih =>
      have hTail : KeysApart key xs := fun a ha b hb =>
        hApart a (List.mem_cons_of_mem y ha) b (List.mem_cons_of_mem y hb)
      by_cases hEq : x = y
      · subst hEq
        cases hKey : key x with
        | none =>
            rw [firstSeen_keyless hKey]
            exact List.mem_cons_self
        | some k =>
            rw [firstSeen_new hKey (hNew k hKey)]
            exact List.mem_cons_self
      · have hMem := List.mem_of_ne_of_mem hEq hx
        cases hKey : key y with
        | none =>
            rw [firstSeen_keyless hKey]
            exact List.mem_cons_of_mem y (ih hTail hMem hNew)
        | some j =>
            by_cases hSeen : j ∈ seen
            · rw [firstSeen_again hKey hSeen]
              exact ih hTail hMem hNew
            · rw [firstSeen_new hKey hSeen]
              refine List.mem_cons_of_mem y (ih hTail hMem fun k hk => ?_)
              rw [List.mem_cons, not_or]
              refine ⟨?_, hNew k hk⟩
              rintro rfl
              exact hEq (hApart x hx y List.mem_cons_self k hk hKey)

theorem firstSeen_covers_iff : xs ⊆ firstSeen key [] xs ↔ KeysApart key xs := by
  constructor
  · intro hAll x hx y hy k hKeyX hKeyY
    exact firstSeen_apart (hAll hx) (hAll hy) hKeyX hKeyY
  · exact fun hApart x hx => hApart.mem_firstSeen hx (by simp)

theorem surplus_eq_zero_iff : surplus key xs = 0 ↔ KeylessOnce key xs := by
  have hNone : surplus key xs = 0 ↔
      (firstSeen key [] xs : Multiset α) ≤ (firstSeen key [] xs : Multiset α).dedup :=
    tsub_eq_zero_iff_le
  rw [hNone, ← firstSeen_nodup_iff [], ← Multiset.coe_nodup]
  constructor
  · intro h
    exact Multiset.dedup_eq_self.mp (le_antisymm (Multiset.dedup_le _) h)
  · intro h
    exact (Multiset.dedup_eq_self.mpr h).ge

theorem dedup_le_toFinset (xs : List α) :
    (firstSeen key [] xs : Multiset α).dedup ≤ xs.toFinset.val := by
  rw [Multiset.le_iff_subset (Multiset.nodup_dedup _)]
  intro x hx
  exact List.mem_toFinset.mpr (firstSeen_subset [] xs (Multiset.mem_dedup.mp hx))

theorem lost_eq_zero_iff : lost key xs = 0 ↔ KeysApart key xs := by
  have hNone : lost key xs = 0 ↔ xs.toFinset.val ≤ (firstSeen key [] xs : Multiset α).dedup :=
    tsub_eq_zero_iff_le
  rw [hNone, ← firstSeen_covers_iff, Multiset.le_iff_subset xs.toFinset.nodup]
  constructor
  · exact fun h x hx => Multiset.mem_dedup.mp (h (List.mem_toFinset.mpr hx))
  · exact fun h x hx => Multiset.mem_dedup.mpr (h (List.mem_toFinset.mp hx))

theorem counted_eq (xs : List α) :
    (firstSeen key [] xs : Multiset α) = (firstSeen key [] xs : Multiset α).dedup + surplus key xs :=
  (add_tsub_cancel_of_le (Multiset.dedup_le _)).symm

theorem toFinset_eq (xs : List α) :
    xs.toFinset.val = (firstSeen key [] xs : Multiset α).dedup + lost key xs :=
  (add_tsub_cancel_of_le (dedup_le_toFinset xs)).symm

end Counts
end Sassrv
