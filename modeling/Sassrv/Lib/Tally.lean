import Mathlib.Data.List.Basic
import Mathlib.Data.List.Nodup
import Mathlib.Logic.Function.Basic

/-! Counts over a list of distinct names of what the names stand for, while
the value of one name changes. -/
namespace Sassrv.Tally

variable {α β : Type*} [DecidableEq α]

theorem countP_update_of_notMem (P : β → Bool) (f : α → β) {p : α} (v : β) {names : List α}
    (h : p ∉ names) :
    names.countP (fun x => P (Function.update f p v x)) = names.countP (fun x => P (f x)) := by
  refine List.countP_congr ?_
  intro x hx
  have hne : x ≠ p := fun hEq => h (hEq ▸ hx)
  rw [Function.update_of_ne hne]

/-- Changing the value of a counted name moves it from one count to another. -/
theorem countP_update_of_mem (P : β → Bool) (f : α → β) {p : α} (v : β) {names : List α}
    (hNodup : names.Nodup) (h : p ∈ names) :
    names.countP (fun x => P (Function.update f p v x)) + (P (f p)).toNat =
      names.countP (fun x => P (f x)) + (P v).toNat := by
  induction names with
  | nil => cases h
  | cons x rest ih =>
      obtain ⟨hx, hRest⟩ := List.nodup_cons.mp hNodup
      simp only [List.countP_cons]
      by_cases hEq : x = p
      · subst hEq
        rw [countP_update_of_notMem P f v hx, Function.update_self]
        cases P (f x) <;> cases P v <;> simp
      · have hMem : p ∈ rest := by
          rcases List.mem_cons.mp h with hp | hp
          · exact absurd hp.symm hEq
          · exact hp
        have hCount := ih hRest hMem
        rw [Function.update_of_ne hEq]
        omega

end Sassrv.Tally
