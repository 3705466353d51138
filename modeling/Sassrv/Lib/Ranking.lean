import Mathlib.Data.List.Basic

/-! Lists kept in descending order of a relation while the rank of one entry
at a time changes. -/
namespace Sassrv.Ranking

variable {α : Type*}

/-- Move an entry forward through a list held back to front, past everything
that is not above it. The results are the part it stops behind and the part
it has passed. -/
def sift (above : α → Bool) : List α → List α → List α × List α
  | [], passed => ([], passed)
  | x :: before, passed =>
      if above x then ((x :: before).reverse, passed) else sift above before (x :: passed)

theorem sift_append (above : α → Bool) (before passed : List α) :
    (sift above before passed).1 ++ (sift above before passed).2 = before.reverse ++ passed := by
  induction before generalizing passed with
  | nil => rfl
  | cons x before ih =>
      simp only [sift]
      split
      · rfl
      · rw [ih]
        simp

/-- Whatever stands in front after the move is above the entry. -/
theorem sift_above {R : α → α → Prop} {p : α} {above : α → Bool}
    (hAbove : ∀ x, above x = true → R x p) (hTrans : ∀ x y z, R x y → R y z → R x z)
    {before passed : List α} (hSorted : (before.reverse ++ passed).Pairwise R) :
    ∀ x ∈ (sift above before passed).1, R x p := by
  induction before generalizing passed with
  | nil => simp [sift]
  | cons y before ih =>
      simp only [sift]
      split
      · rename_i hy
        intro x hx
        rw [List.reverse_cons, List.mem_append, List.mem_singleton] at hx
        rcases hx with hx | rfl
        · rw [List.reverse_cons, List.append_assoc] at hSorted
          have hxy := (List.pairwise_append.mp hSorted).2.2 x hx y (by simp)
          exact hTrans _ _ _ hxy (hAbove y hy)
        · exact hAbove x hy
      · exact ih (by simpa using hSorted)

/-- Whatever is passed is below the entry. -/
theorem sift_below {R : α → α → Prop} {p : α} {above : α → Bool}
    {before passed : List α} (hBelow : ∀ x ∈ before, above x = false → R p x)
    (hPassed : ∀ x ∈ passed, R p x) : ∀ x ∈ (sift above before passed).2, R p x := by
  induction before generalizing passed with
  | nil => simpa [sift] using hPassed
  | cons y before ih =>
      simp only [sift]
      split
      · exact hPassed
      · rename_i hy
        refine ih (fun x hx => hBelow x (List.mem_cons_of_mem _ hx)) ?_
        intro x hx
        rcases List.mem_cons.mp hx with rfl | hx
        · exact hBelow x (List.mem_cons_self ..) (by simpa using hy)
        · exact hPassed x hx

/-- An entry below everything before it and above everything after it. -/
theorem pairwise_place {R : α → α → Prop} {front back : List α} {p : α}
    (hSorted : (front ++ back).Pairwise R) (hFront : ∀ x ∈ front, R x p)
    (hBack : ∀ x ∈ back, R p x) : (front ++ p :: back).Pairwise R := by
  obtain ⟨hf, hb, hCross⟩ := List.pairwise_append.mp hSorted
  refine List.pairwise_append.mpr ⟨hf, List.pairwise_cons.mpr ⟨hBack, hb⟩, ?_⟩
  intro x hx y hy
  rcases List.mem_cons.mp hy with rfl | hy
  · exact hFront x hx
  · exact hCross x hx y hy

/-- Moving an entry in from the back restores the order. -/
theorem sift_sorted {R : α → α → Prop} {p : α} {above : α → Bool} {others : List α}
    (hAbove : ∀ x, above x = true → R x p) (hBelow : ∀ x ∈ others, above x = false → R p x)
    (hTrans : ∀ x y z, R x y → R y z → R x z) (hSorted : others.Pairwise R) :
    ((sift above others.reverse []).1 ++ p :: (sift above others.reverse []).2).Pairwise R := by
  apply pairwise_place
  · rw [sift_append]
    simpa using hSorted
  · exact sift_above hAbove hTrans (by simpa using hSorted)
  · exact sift_below (fun x hx => hBelow x (List.mem_reverse.mp hx)) (by simp)

/-- An entry that is in order with its neighbours is in order with all. -/
theorem pairwise_of_neighbours {R : α → α → Prop} {front back : List α} {p : α}
    (hTrans : ∀ x y z, R x y → R y z → R x z) (hSorted : (front ++ back).Pairwise R)
    (hBefore : ∀ x, front.getLast? = some x → R x p)
    (hAfter : ∀ x, back.head? = some x → R p x) : (front ++ p :: back).Pairwise R := by
  obtain ⟨hf, hb, -⟩ := List.pairwise_append.mp hSorted
  apply pairwise_place hSorted
  · intro x hx
    rcases List.eq_nil_or_concat' front with rfl | ⟨init, last, rfl⟩
    · cases hx
    have hLast := hBefore last (by simp)
    rcases List.mem_append.mp hx with hx | hx
    · exact hTrans _ _ _ ((List.pairwise_append.mp hf).2.2 x hx last (by simp)) hLast
    · rw [List.mem_singleton.mp hx]
      exact hLast
  · intro x hx
    cases back with
    | nil => cases hx
    | cons next rest =>
        have hNext := hAfter next rfl
        rcases List.mem_cons.mp hx with rfl | hx
        · exact hNext
        · exact hTrans _ _ _ hNext ((List.pairwise_cons.mp hb).1 x hx)

end Sassrv.Ranking
