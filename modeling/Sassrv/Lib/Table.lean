import Mathlib.Data.List.Basic
import Mathlib.Data.List.Nodup
import Mathlib.Algebra.BigOperators.Group.List.Basic
import Mathlib.Tactic.Abel

/-! Finite maps as lists of pairs with distinct keys. The order of the pairs is
the order of insertion; the lemmas speak of lookups and of sums over the
entries, which do not depend on it. -/
namespace Sassrv

universe u v w
variable {κ : Type u} {α : Type v} {β : Type w}

@[ext] structure Table (κ : Type u) (α : Type v) where
  entries : List (κ × α)
  nodup : (entries.map Prod.fst).Nodup

namespace Table

def empty : Table κ α where
  entries := []
  nodup := List.nodup_nil

def size (t : Table κ α) : Nat := t.entries.length

/-- The table with every value replaced by its image. -/
def map (f : α → β) (t : Table κ α) : Table κ β where
  entries := t.entries.map fun e => (e.1, f e.2)
  nodup := by
    rw [List.map_map]
    exact t.nodup

/-- The entries whose value passes. -/
def filter (p : α → Bool) (t : Table κ α) : Table κ α where
  entries := t.entries.filter fun e => p e.2
  nodup := t.nodup.sublist (List.filter_sublist.map Prod.fst)

/-- The sum of a weight over the entries. -/
def total {M : Type*} [AddCommMonoid M] (t : Table κ α) (w : κ → α → M) : M :=
  (t.entries.map fun e => w e.1 e.2).sum

variable [DecidableEq κ]

instance [DecidableEq α] : DecidableEq (Table κ α) := fun s t =>
  decidable_of_iff (s.entries = t.entries) Table.ext_iff.symm

/-- The value of a key. -/
def find? (t : Table κ α) (k : κ) : Option α := t.entries.lookup k

def contains (t : Table κ α) (k : κ) : Bool := (t.find? k).isSome

/-- Applies a function to the value of a key, if the key is there. -/
def modify (t : Table κ α) (k : κ) (f : α → α) : Table κ α where
  entries := t.entries.map fun e => (e.1, if e.1 = k then f e.2 else e.2)
  nodup := by
    rw [List.map_map]
    exact t.nodup

/-- The table without a key. -/
def erase (t : Table κ α) (k : κ) : Table κ α where
  entries := t.entries.filter fun e => e.1 ≠ k
  nodup := t.nodup.sublist (List.filter_sublist.map Prod.fst)

theorem lookup_eq_some {k : κ} {a : α} {entries : List (κ × α)}
    (hNodup : (entries.map Prod.fst).Nodup) :
    entries.lookup k = some a ↔ (k, a) ∈ entries := by
  induction entries with
  | nil => simp
  | cons e rest ih =>
      obtain ⟨hHead, hRest⟩ := List.nodup_cons.mp hNodup
      obtain ⟨key, value⟩ := e
      by_cases hk : k = key
      · subst hk
        have hNot : (k, a) ∉ rest := fun hMem => hHead (List.mem_map.mpr ⟨_, hMem, rfl⟩)
        simp [hNot, eq_comm]
      · rw [List.lookup_cons, beq_eq_false_iff_ne.mpr hk]
        simp [hk, ih hRest]

theorem find?_eq_some {t : Table κ α} {k : κ} {a : α} :
    t.find? k = some a ↔ (k, a) ∈ t.entries :=
  lookup_eq_some t.nodup

theorem find?_eq_none {t : Table κ α} {k : κ} :
    t.find? k = none ↔ ∀ e ∈ t.entries, e.1 ≠ k := by
  constructor
  · intro h e he hk
    have hFound : t.find? k = some e.2 := find?_eq_some.mpr (hk ▸ he)
    rw [h] at hFound
    cases hFound
  · intro h
    cases hFind : t.find? k with
    | none => rfl
    | some a => exact absurd rfl (h _ (find?_eq_some.mp hFind))

/-- A table whose entries are the images of those of another finds the images. -/
theorem find?_congr {t : Table κ α} {t' : Table κ β} {k : κ} {f : α → β}
    (h : ∀ b, (k, b) ∈ t'.entries ↔ ∃ a, (k, a) ∈ t.entries ∧ f a = b) :
    t'.find? k = (t.find? k).map f := by
  apply Option.ext
  intro b
  rw [find?_eq_some, h b, Option.map_eq_some_iff]
  simp only [find?_eq_some]

/-- Adds a key at the end, or replaces the value of a key that is there. -/
def insert (t : Table κ α) (k : κ) (a : α) : Table κ α :=
  if h : t.find? k = none then
    { entries := t.entries ++ [(k, a)]
      nodup := by
        have hFresh := find?_eq_none.mp h
        rw [List.map_append, List.nodup_append]
        refine ⟨t.nodup, List.nodup_singleton k, ?_⟩
        intro x hx y hy
        obtain ⟨e, he, rfl⟩ := List.mem_map.mp hx
        rw [List.map_cons, List.map_nil, List.mem_singleton] at hy
        exact hy ▸ hFresh e he }
  else t.modify k fun _ => a

@[simp] theorem find?_empty (k : κ) : (empty : Table κ α).find? k = none := rfl

@[simp] theorem find?_map (f : α → β) (t : Table κ α) (k : κ) :
    (t.map f).find? k = (t.find? k).map f := by
  apply find?_congr
  intro b
  simp [map]

theorem find?_modify (t : Table κ α) (k x : κ) (f : α → α) :
    (t.modify k f).find? x = (t.find? x).map fun a => if x = k then f a else a := by
  apply find?_congr
  intro b
  simp [modify]

@[simp] theorem find?_modify_self (t : Table κ α) (k : κ) (f : α → α) :
    (t.modify k f).find? k = (t.find? k).map f := by
  simp [find?_modify]

@[simp] theorem find?_modify_ne (t : Table κ α) {k x : κ} (f : α → α) (h : x ≠ k) :
    (t.modify k f).find? x = t.find? x := by
  simp [find?_modify, h]

theorem find?_erase (t : Table κ α) (k x : κ) :
    (t.erase k).find? x = if x = k then none else t.find? x := by
  apply Option.ext
  intro a
  rw [find?_eq_some]
  by_cases h : x = k
  · simp [erase, h]
  · simp [erase, h, find?_eq_some]

@[simp] theorem find?_erase_self (t : Table κ α) (k : κ) : (t.erase k).find? k = none := by
  simp [find?_erase]

@[simp] theorem find?_erase_ne (t : Table κ α) {k x : κ} (h : x ≠ k) :
    (t.erase k).find? x = t.find? x := by
  simp [find?_erase, h]

theorem find?_filter (t : Table κ α) (p : α → Bool) (k : κ) :
    (t.filter p).find? k = (t.find? k).filter p := by
  apply Option.ext
  intro a
  rw [find?_eq_some, Option.filter_eq_some_iff, find?_eq_some]
  simp [filter]

theorem entries_insert_of_fresh {t : Table κ α} {k : κ} (a : α) (h : t.find? k = none) :
    (t.insert k a).entries = t.entries ++ [(k, a)] := by
  simp [insert, h]

theorem insert_of_found {t : Table κ α} {k : κ} (a : α) (h : t.find? k ≠ none) :
    t.insert k a = t.modify k fun _ => a := by
  simp [insert, h]

theorem modify_eq_insert {t : Table κ α} {k : κ} {a : α} (f : α → α) (h : t.find? k = some a) :
    t.modify k f = t.insert k (f a) := by
  rw [insert_of_found _ (by simp [h])]
  apply Table.ext
  apply List.map_congr_left
  intro e he
  by_cases hk : e.1 = k
  · rw [← hk, find?_eq_some.mpr he, Option.some.injEq] at h
    rw [if_pos hk, if_pos hk, h]
  · rw [if_neg hk, if_neg hk]

theorem find?_insert (t : Table κ α) (k x : κ) (a : α) :
    (t.insert k a).find? x = if x = k then some a else t.find? x := by
  by_cases hFresh : t.find? k = none
  · apply Option.ext
    intro b
    rw [find?_eq_some, entries_insert_of_fresh a hFresh, List.mem_append, List.mem_singleton,
      ← find?_eq_some]
    by_cases hx : x = k
    · subst hx
      simp [hFresh, eq_comm]
    · simp [hx]
  · rw [insert_of_found a hFresh, find?_modify]
    obtain ⟨b, hb⟩ := Option.ne_none_iff_exists'.mp hFresh
    by_cases hx : x = k
    · simp [hx, hb]
    · simp [hx]

@[simp] theorem find?_insert_self (t : Table κ α) (k : κ) (a : α) :
    (t.insert k a).find? k = some a := by
  simp [find?_insert]

@[simp] theorem find?_insert_ne (t : Table κ α) {k x : κ} (a : α) (h : x ≠ k) :
    (t.insert k a).find? x = t.find? x := by
  simp [find?_insert, h]

/-- A change that the map does not see. -/
theorem map_modify {t : Table κ α} {k : κ} {f : α → α} {g : α → β}
    (h : ∀ a, t.find? k = some a → g (f a) = g a) : (t.modify k f).map g = t.map g := by
  apply Table.ext
  simp only [map, modify, List.map_map]
  apply List.map_congr_left
  intro e he
  by_cases hk : e.1 = k
  · simp [hk, h e.2 (find?_eq_some.mpr (hk ▸ he))]
  · simp [hk]

omit [DecidableEq κ] in
/-- The first key that a predicate finds depends on what the predicate looks at only. -/
theorem findKey_congr {t t' : Table κ α} {f : α → β} (h : t'.map f = t.map f) (q : κ → β → Bool) :
    (t'.entries.find? fun e => q e.1 (f e.2)).map Prod.fst =
      (t.entries.find? fun e => q e.1 (f e.2)).map Prod.fst := by
  have hKey : ∀ t : Table κ α, (t.entries.find? fun e => q e.1 (f e.2)).map Prod.fst =
      ((t.map f).entries.find? fun e => q e.1 e.2).map Prod.fst := by
    intro t
    rw [map, List.find?_map, Option.map_map]
    rfl
  rw [hKey t', hKey t, h]

theorem contains_iff {t : Table κ α} {k : κ} : t.contains k = true ↔ ∃ a, t.find? k = some a :=
  Option.isSome_iff_exists

theorem contains_insert (t : Table κ α) (k x : κ) (a : α) :
    (t.insert k a).contains x = (decide (x = k) || t.contains x) := by
  unfold contains
  rw [find?_insert]
  by_cases h : x = k <;> simp [h]

theorem contains_erase (t : Table κ α) (k x : κ) :
    (t.erase k).contains x = (decide (x ≠ k) && t.contains x) := by
  unfold contains
  rw [find?_erase]
  by_cases h : x = k <;> simp [h]

/-- Nothing changes where the key is missing. -/
theorem modify_of_none {t : Table κ α} {k : κ} (f : α → α) (h : t.find? k = none) :
    t.modify k f = t := by
  apply Table.ext
  simp only [modify]
  conv_rhs => rw [← List.map_id t.entries]
  apply List.map_congr_left
  intro e he
  rw [if_neg (find?_eq_none.mp h e he)]
  rfl

@[simp] theorem modify_id (t : Table κ α) (k : κ) : t.modify k id = t := by
  apply Table.ext
  simp [modify]

theorem map_of_fixed {t : Table κ α} {f : α → α} (h : ∀ k a, t.find? k = some a → f a = a) :
    t.map f = t := by
  apply Table.ext
  simp only [map]
  conv_rhs => rw [← List.map_id t.entries]
  apply List.map_congr_left
  intro e he
  rw [h e.1 e.2 (find?_eq_some.mpr he)]
  rfl

theorem erase_map (f : α → β) (t : Table κ α) (k : κ) : (t.map f).erase k = (t.erase k).map f := by
  apply Table.ext
  simp only [map, erase, List.filter_map]
  rfl

theorem erase_modify (t : Table κ α) (k : κ) (f : α → α) : (t.modify k f).erase k = t.erase k := by
  apply Table.ext
  simp only [modify, erase, List.filter_map]
  conv_rhs => rw [← List.map_id (List.filter _ t.entries)]
  apply List.map_congr_left
  intro e he
  have hNe : e.1 ≠ k := of_decide_eq_true (List.mem_filter.mp he).2
  rw [if_neg hNe]
  rfl

section Totals
variable {M : Type*} [AddCommMonoid M]

theorem total_congr {t : Table κ α} {v w : κ → α → M}
    (h : ∀ k a, t.find? k = some a → v k a = w k a) : t.total v = t.total w := by
  apply congrArg List.sum
  apply List.map_congr_left
  intro e he
  exact h e.1 e.2 (find?_eq_some.mpr he)

omit [DecidableEq κ] in
theorem total_map (t : Table κ α) (f : α → β) (w : κ → β → M) :
    (t.map f).total w = t.total fun k a => w k (f a) := by
  simp [total, map, Function.comp_def]

/-- A new entry adds its weight. -/
theorem total_insert {t : Table κ α} {k : κ} (a : α) (w : κ → α → M) (h : t.find? k = none) :
    (t.insert k a).total w = t.total w + w k a := by
  simp [total, entries_insert_of_fresh a h]

/-- Changing one value moves its weight and leaves the rest of the sum. -/
theorem total_modify {t : Table κ α} {k : κ} {a : α} (f : α → α) (w : κ → α → M)
    (h : t.find? k = some a) :
    (t.modify k f).total w + w k a = t.total w + w k (f a) := by
  obtain ⟨entries, hNodup⟩ := t
  replace h : (k, a) ∈ entries := find?_eq_some.mp h
  simp only [total, modify, List.map_map, Function.comp_def]
  induction entries with
  | nil => cases h
  | cons e rest ih =>
      obtain ⟨hHead, hRest⟩ := List.nodup_cons.mp hNodup
      simp only [List.map_cons, List.sum_cons]
      rcases List.mem_cons.mp h with hEq | hMem
      · subst hEq
        have hSame : ∀ x ∈ rest, w x.1 (if x.1 = k then f x.2 else x.2) = w x.1 x.2 := by
          intro x hx
          have hne : x.1 ≠ k := fun hk => hHead (List.mem_map.mpr ⟨x, hx, hk⟩)
          rw [if_neg hne]
        rw [List.map_congr_left hSame, if_pos rfl]
        abel
      · have hne : e.1 ≠ k := fun hk => hHead (List.mem_map.mpr ⟨_, hMem, hk.symm⟩)
        rw [if_neg hne, add_assoc, ih hRest hMem, add_assoc]

/-- An erased entry takes its weight along. -/
theorem total_erase {t : Table κ α} {k : κ} {a : α} (w : κ → α → M)
    (h : t.find? k = some a) : (t.erase k).total w + w k a = t.total w := by
  obtain ⟨entries, hNodup⟩ := t
  replace h : (k, a) ∈ entries := find?_eq_some.mp h
  simp only [total, erase]
  induction entries with
  | nil => cases h
  | cons e rest ih =>
      obtain ⟨hHead, hRest⟩ := List.nodup_cons.mp hNodup
      rcases List.mem_cons.mp h with hEq | hMem
      · subst hEq
        have hKeep : rest.filter (fun x => x.1 ≠ k) = rest := by
          apply List.filter_eq_self.mpr
          intro x hx
          exact decide_eq_true fun hk => hHead (List.mem_map.mpr ⟨x, hx, hk⟩)
        simp only [List.filter_cons, ne_eq, not_true_eq_false, decide_false, Bool.false_eq_true,
          if_false, List.map_cons, List.sum_cons]
        rw [hKeep, add_comm]
      · have hne : e.1 ≠ k := fun hk => hHead (List.mem_map.mpr ⟨_, hMem, hk.symm⟩)
        rw [List.filter_cons, if_pos (decide_eq_true hne), List.map_cons, List.map_cons,
          List.sum_cons, List.sum_cons, add_assoc, ih hRest hMem]

/-- Entries without weight may be filtered out. -/
theorem total_filter {t : Table κ α} {p : α → Bool} {w : κ → α → M}
    (h : ∀ k a, t.find? k = some a → p a = false → w k a = 0) :
    (t.filter p).total w = t.total w := by
  obtain ⟨entries, hNodup⟩ := t
  replace h : ∀ e ∈ entries, p e.2 = false → w e.1 e.2 = 0 := fun e he =>
    h e.1 e.2 (find?_eq_some.mpr he)
  simp only [total, filter]
  induction entries with
  | nil => rfl
  | cons e rest ih =>
      have hTail := ih (List.nodup_cons.mp hNodup).2 fun x hx => h x (List.mem_cons_of_mem _ hx)
      by_cases hp : p e.2
      · simp [hp, hTail]
      · simp only [Bool.not_eq_true] at hp
        simp [hp, hTail, h e List.mem_cons_self hp]

omit [DecidableEq κ] in
/-- A count is the sum of ones. -/
theorem countP_eq_total (t : Table κ α) (p : α → Bool) :
    t.entries.countP (fun e => p e.2) = t.total fun _ a => (p a).toNat := by
  obtain ⟨entries, hNodup⟩ := t
  simp only [total]
  clear hNodup
  induction entries with
  | nil => rfl
  | cons e rest ih =>
      rw [List.countP_cons, List.map_cons, List.sum_cons, ih]
      cases p e.2 <;> simp [add_comm]

end Totals
end Table
end Sassrv
