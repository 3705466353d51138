import Mathlib

/-! Comparison functions that return a sign, as sorts take them: when they are an
order, how they are put together, and what a sorted list is then. -/
namespace Sassrv.Comparators

variable {α β κ : Type*}

/-- A total preorder: the signs of the two directions are opposite. -/
structure Lawful (c : α → α → Int) : Prop where
  flip : ∀ a b, c a b < 0 ↔ 0 < c b a
  trans : ∀ a b d, c a b ≤ 0 → c b d ≤ 0 → c a d ≤ 0

namespace Lawful
variable {c d : α → α → Int}

theorem zero_comm (h : Lawful c) {a b : α} (hZero : c a b = 0) : c b a = 0 := by
  have hOne := h.flip a b
  have hTwo := h.flip b a
  omega

theorem lt_trans (h : Lawful c) {a b e : α} (hab : c a b < 0) (hbe : c b e < 0) : c a e < 0 := by
  rw [h.flip]
  by_contra hNot
  have hLe : c b a ≤ 0 := h.trans b e a (Int.le_of_lt hbe) (Int.not_lt.mp hNot)
  have hFlip := (h.flip a b).mp hab
  omega

theorem swap (h : Lawful c) : Lawful fun a b => c b a where
  flip a b := h.flip b a
  trans a b e hab hbe := h.trans e b a hbe hab

end Lawful

/-- The second comparison decides where the first one does not. -/
def lex (c d : α → α → Int) (a b : α) : Int := if c a b = 0 then d a b else c a b

theorem Lawful.lex {c d : α → α → Int} (hc : Lawful c) (hd : Lawful d) :
    Lawful (Comparators.lex c d) where
  flip a b := by
    unfold Comparators.lex
    by_cases hZero : c a b = 0
    · rw [if_pos hZero, if_pos (hc.zero_comm hZero)]
      exact hd.flip a b
    · rw [if_neg hZero, if_neg fun hBack => hZero (hc.zero_comm hBack)]
      exact hc.flip a b
  trans a b e hab hbe := by
    unfold Comparators.lex at hab hbe ⊢
    have hTrans := hc.trans a b e
    have hBack := hc.trans e a b
    have hBack' := hc.trans b e a
    have hOne := hc.flip a b
    have hTwo := hc.flip b a
    have hThree := hc.flip b e
    have hFour := hc.flip e b
    have hFive := hc.flip a e
    have hSix := hc.flip e a
    have hInner := hd.trans a b e
    split at hab <;> split at hbe <;> split <;> omega

theorem lex_eq_zero {c d : α → α → Int} {a b : α} :
    Comparators.lex c d a b = 0 ↔ c a b = 0 ∧ d a b = 0 := by
  unfold Comparators.lex
  by_cases hZero : c a b = 0
  · rw [if_pos hZero]
    exact (and_iff_right hZero).symm
  · rw [if_neg hZero]
    exact iff_of_false hZero fun h => hZero h.1

/-- The comparison of a key. -/
def byKey [LinearOrder κ] (f : α → κ) (a b : α) : Int :=
  if f a < f b then -1 else if f b < f a then 1 else 0

theorem byKey_eq_zero [LinearOrder κ] {f : α → κ} {a b : α} : byKey f a b = 0 ↔ f a = f b := by
  unfold byKey
  rcases lt_trichotomy (f a) (f b) with hLess | hEq | hMore
  · simp [hLess, hLess.ne]
  · simp [hEq]
  · simp [hMore, hMore.not_gt, hMore.ne']

theorem lawful_byKey [LinearOrder κ] (f : α → κ) : Lawful (byKey f) where
  flip a b := by
    unfold byKey
    rcases lt_trichotomy (f a) (f b) with hLess | hEq | hMore
    · simp [hLess, hLess.not_gt]
    · simp [hEq]
    · simp [hMore, hMore.not_gt]
  trans a b e hab hbe := by
    have hLe : ∀ x y, byKey f x y ≤ 0 ↔ f x ≤ f y := by
      intro x y
      unfold byKey
      rcases lt_trichotomy (f x) (f y) with hLess | hEq | hMore
      · simp [hLess, hLess.le]
      · simp [hEq]
      · simp [hMore, hMore.not_gt, hMore.not_ge]
    rw [hLe] at hab hbe ⊢
    exact hab.trans hbe

/-- Two sorted lists of the same elements are one list, if no two of them are tied. -/
theorem sorted_unique {c : α → α → Int} (h : Lawful c) {l l' : List α} (hPerm : l.Perm l')
    (hSorted : l.Pairwise fun a b => c a b ≤ 0) (hSorted' : l'.Pairwise fun a b => c a b ≤ 0)
    (hApart : ∀ a ∈ l, ∀ b ∈ l, c a b = 0 → a = b) : l = l' := by
  refine List.Perm.eq_of_pairwise ?_ hSorted hSorted' hPerm
  intro a b ha hb hab hba
  refine hApart a ha b (hPerm.mem_iff.mpr hb) ?_
  have hFlip := h.flip a b
  have hFlip' := h.flip b a
  omega

end Sassrv.Comparators
