import Mathlib.Data.List.Basic

/-! Tables with open addressing, as far as an iteration over them can see: an array
of slots, each empty or with a key and a value. Where a key goes and when the array
grows is left to the table's own operations, which `Ops` gives with what is known of
them. -/
namespace Sassrv

universe u v
variable {κ : Type u} {ν : Type v}

abbrev Slots (κ : Type u) (ν : Type v) := List (Option (κ × ν))

namespace Slots

variable [DecidableEq κ]

/-- The entry is in some slot. -/
def Holds (t : Slots κ ν) (e : κ × ν) : Prop := ∃ p : Nat, t[p]? = some (some e)

/-- A key is in one slot at most. -/
def Keyed (t : Slots κ ν) : Prop :=
  ∀ (p q : Nat) (k : κ) (v w : ν), t[p]? = some (some (k, v)) → t[q]? = some (some (k, w)) → p = q

/-- `find`: the slot of a key and its value. -/
def findFrom (k : κ) (pos : Nat) : Slots κ ν → Option (Nat × ν)
  | [] => none
  | none :: rest => findFrom k (pos + 1) rest
  | some (k', v) :: rest => if k' = k then some (pos, v) else findFrom k (pos + 1) rest

def find? (t : Slots κ ν) (k : κ) : Option (Nat × ν) := findFrom k 0 t

/-- `first` and `next`: the first entry at a slot or behind it. -/
def nextFrom (pos : Nat) : Slots κ ν → Option (Nat × κ × ν)
  | [] => none
  | none :: rest => nextFrom (pos + 1) rest
  | some e :: _ => some (pos, e)

def next (t : Slots κ ν) (pos : Nat) : Option (Nat × κ × ν) := nextFrom pos (t.drop pos)

/-- The operations that move entries. An insertion of a new key fills an empty slot,
unless it resizes. -/
structure Ops (κ : Type u) (ν : Type v) where
  fresh : Slots κ ν
  resizes : Slots κ ν → κ → Bool
  upsert : Slots κ ν → κ → ν → Slots κ ν
  remove : Slots κ ν → Nat → Slots κ ν
  fresh_empty : ∀ e, ¬ Holds fresh e
  upsert_spec : ∀ {t : Slots κ ν} {k v}, Keyed t → (∀ w, ¬ Holds t (k, w)) →
    Keyed (upsert t k v) ∧ ∀ e, Holds (upsert t k v) e ↔ e = (k, v) ∨ Holds t e
  upsert_in_place : ∀ {t : Slots κ ν} {k v}, resizes t k = false → (∀ w, ¬ Holds t (k, w)) →
    ∃ p : Nat, t[p]? = some none ∧ upsert t k v = t.set p (some (k, v))
  remove_spec : ∀ {t : Slots κ ν} {p : Nat} {k v}, Keyed t → t[p]? = some (some (k, v)) →
    Keyed (remove t p) ∧ ∀ e, Holds (remove t p) e ↔ Holds t e ∧ e.1 ≠ k

variable {t : Slots κ ν} {k : κ} {v w : ν} {p : Nat}

omit [DecidableEq κ] in
theorem Keyed.value (hKeyed : Keyed t) (hv : Holds t (k, v)) (hw : Holds t (k, w)) : v = w := by
  obtain ⟨p, hp⟩ := hv
  obtain ⟨q, hq⟩ := hw
  obtain rfl := hKeyed p q k v w hp hq
  simpa using hp.symm.trans hq

theorem findFrom_some {pos : Nat} {r : Nat × ν} (h : findFrom k pos t = some r) :
    pos ≤ r.1 ∧ t[r.1 - pos]? = some (some (k, r.2)) := by
  induction t generalizing pos with
  | nil => cases h
  | cons o rest ih =>
      have hStep : findFrom k (pos + 1) rest = some r →
          pos ≤ r.1 ∧ (o :: rest)[r.1 - pos]? = some (some (k, r.2)) := by
        intro hRest
        obtain ⟨hLe, hGet⟩ := ih hRest
        refine ⟨by omega, ?_⟩
        rwa [show r.1 - pos = r.1 - (pos + 1) + 1 by omega, List.getElem?_cons_succ]
      cases o with
      | none => exact hStep h
      | some e =>
          rw [findFrom] at h
          split at h
          · rename_i hKey
            obtain rfl := Option.some.inj h
            simp [← hKey]
          · exact hStep h

theorem findFrom_none {pos : Nat} (h : findFrom k pos t = none) (v : ν) : ¬ Holds t (k, v) := by
  rintro ⟨p, hp⟩
  induction t generalizing pos p with
  | nil => simp at hp
  | cons o rest ih =>
      cases o with
      | none =>
          cases p with
          | zero => simp at hp
          | succ p => exact ih h p (by simpa using hp)
      | some e =>
          rw [findFrom] at h
          split at h
          · cases h
          · cases p with
            | zero =>
                rename_i hKey
                simp only [List.getElem?_cons_zero, Option.some.injEq] at hp
                exact hKey (congrArg Prod.fst hp)
            | succ p => exact ih h p (by simpa using hp)

theorem find?_some {r : Nat × ν} (h : t.find? k = some r) : t[r.1]? = some (some (k, r.2)) := by
  simpa using (findFrom_some h).2

theorem find?_none (h : t.find? k = none) (v : ν) : ¬ Holds t (k, v) := findFrom_none h v

omit [DecidableEq κ] in
/-- A new value in the slot of a key. -/
theorem Keyed.set (hKeyed : Keyed t) (hp : t[p]? = some (some (k, v))) :
    Keyed (t.set p (some (k, w))) ∧
      ∀ e, Holds (t.set p (some (k, w))) e ↔ e = (k, w) ∨ (Holds t e ∧ e.1 ≠ k) := by
  have hGet : ∀ (q : Nat) (e : κ × ν), (t.set p (some (k, w)))[q]? = some (some e) ↔
      (q = p ∧ e = (k, w)) ∨ (q ≠ p ∧ t[q]? = some (some e)) := by
    intro q e
    have hLt : p < t.length := (List.getElem?_eq_some_iff.mp hp).1
    rw [List.getElem?_set]
    by_cases hq : p = q
    · subst hq
      simp [hLt, eq_comm]
    · simp [hq, Ne.symm hq]
  constructor
  · intro q r k' v' w' hq hr
    rw [hGet] at hq hr
    rcases hq with ⟨rfl, hq⟩ | ⟨hqp, hq⟩ <;> rcases hr with ⟨rfl, hr⟩ | ⟨hrp, hr⟩
    · rfl
    · obtain ⟨rfl, rfl⟩ := Prod.mk.inj hq
      exact absurd (hKeyed _ _ _ _ _ hr hp) hrp
    · obtain ⟨rfl, rfl⟩ := Prod.mk.inj hr
      exact absurd (hKeyed _ _ _ _ _ hq hp) hqp
    · exact hKeyed _ _ _ _ _ hq hr
  · intro e
    constructor
    · rintro ⟨q, hq⟩
      rcases (hGet q e).mp hq with ⟨_, rfl⟩ | ⟨hqp, hOld⟩
      · exact .inl rfl
      · refine .inr ⟨⟨q, hOld⟩, ?_⟩
        rintro rfl
        exact hqp (hKeyed q p e.1 e.2 v hOld hp)
    · rintro (rfl | ⟨⟨q, hq⟩, hKey⟩)
      · exact ⟨p, (hGet p _).mpr (.inl ⟨rfl, rfl⟩)⟩
      · refine ⟨q, (hGet q e).mpr (.inr ⟨?_, hq⟩)⟩
        rintro rfl
        exact hKey (by simpa using congrArg Prod.fst (Option.some.inj (Option.some.inj (hq.symm.trans hp))))

omit [DecidableEq κ] in
theorem nextFrom_spec (pos : Nat) :
    match nextFrom pos t with
    | none => ∀ (p : Nat) (e : κ × ν), t[p]? ≠ some (some e)
    | some (q, e) => pos ≤ q ∧ t[q - pos]? = some (some e) ∧
        ∀ (p : Nat) (e' : κ × ν), pos + p < q → t[p]? ≠ some (some e') := by
  induction t generalizing pos with
  | nil => simp [nextFrom]
  | cons o rest ih =>
      cases o with
      | some e =>
          refine ⟨Nat.le_refl _, by simp, fun p e' hp => ?_⟩
          omega
      | none =>
          have hRest := ih (pos + 1)
          rw [nextFrom]
          split at hRest
          · rintro (_ | p) e hp
            · simp at hp
            · exact hRest p e (by simpa using hp)
          · rename_i q e _
            obtain ⟨hLe, hGet, hBefore⟩ := hRest
            refine ⟨by omega, ?_, ?_⟩
            · rwa [show q - pos = q - (pos + 1) + 1 by omega, List.getElem?_cons_succ]
            · rintro (_ | p) e' hp hGet'
              · simp at hGet'
              · exact hBefore p e' (by omega) (by simpa using hGet')

omit [DecidableEq κ] in
theorem next_none {pos : Nat} (h : t.next pos = none) {e : κ × ν} (hp : t[p]? = some (some e)) :
    p < pos := by
  have hSpec := nextFrom_spec (t := t.drop pos) pos
  rw [show nextFrom pos (t.drop pos) = none from h] at hSpec
  by_contra hLe
  refine hSpec (p - pos) e ?_
  rw [List.getElem?_drop, show pos + (p - pos) = p by omega, hp]

omit [DecidableEq κ] in
/-- The entry that the iteration goes to, and that it leaves none out. -/
theorem next_some {pos q : Nat} {e : κ × ν} (h : t.next pos = some (q, e)) :
    pos ≤ q ∧ t[q]? = some (some e) ∧
      ∀ (p : Nat) (e' : κ × ν), t[p]? = some (some e') → pos ≤ p → q ≤ p := by
  have hSpec := nextFrom_spec (t := t.drop pos) pos
  rw [show nextFrom pos (t.drop pos) = some (q, e) from h] at hSpec
  obtain ⟨hLe, hGet, hBefore⟩ := hSpec
  rw [List.getElem?_drop, show pos + (q - pos) = q by omega] at hGet
  refine ⟨hLe, hGet, fun p e' hp hPos => ?_⟩
  by_contra hLt
  refine hBefore (p - pos) e' (by omega) ?_
  rw [List.getElem?_drop, show pos + (p - pos) = p by omega, hp]

omit [DecidableEq κ] in
/-- A new key in an empty slot. -/
theorem Keyed.fill (hKeyed : Keyed t) (hp : t[p]? = some none) (hNew : ∀ w, ¬ Holds t (k, w)) :
    Keyed (t.set p (some (k, v))) ∧
      ∀ e, Holds (t.set p (some (k, v))) e ↔ e = (k, v) ∨ Holds t e := by
  have hGet : ∀ (q : Nat) (e : κ × ν), (t.set p (some (k, v)))[q]? = some (some e) ↔
      (q = p ∧ e = (k, v)) ∨ t[q]? = some (some e) := by
    intro q e
    have hLt : p < t.length := (List.getElem?_eq_some_iff.mp hp).1
    rw [List.getElem?_set]
    by_cases hq : p = q
    · subst hq
      rw [if_pos rfl, if_pos hLt, hp]
      simp [eq_comm]
    · simp [hq, Ne.symm hq]
  constructor
  · intro q r k' v' w' hq hr
    rw [hGet] at hq hr
    rcases hq with ⟨rfl, hq⟩ | hq <;> rcases hr with ⟨rfl, hr⟩ | hr
    · rfl
    · obtain ⟨rfl, rfl⟩ := Prod.mk.inj hq
      exact absurd ⟨_, hr⟩ (hNew _)
    · obtain ⟨rfl, rfl⟩ := Prod.mk.inj hr
      exact absurd ⟨_, hq⟩ (hNew _)
    · exact hKeyed _ _ _ _ _ hq hr
  · intro e
    constructor
    · rintro ⟨q, hq⟩
      rcases (hGet q e).mp hq with ⟨_, rfl⟩ | hq
      · exact .inl rfl
      · exact .inr ⟨q, hq⟩
    · rintro (rfl | ⟨q, hq⟩)
      · exact ⟨p, (hGet p _).mpr (.inl ⟨rfl, rfl⟩)⟩
      · exact ⟨q, (hGet q e).mpr (.inr hq)⟩

omit [DecidableEq κ] in
theorem Keyed.clear (hKeyed : Keyed t) (hp : t[p]? = some (some (k, v))) :
    Keyed (t.set p none) ∧ ∀ e, Holds (t.set p none) e ↔ Holds t e ∧ e.1 ≠ k := by
  have hGet : ∀ (q : Nat) (e : κ × ν), (t.set p none)[q]? = some (some e) ↔
      q ≠ p ∧ t[q]? = some (some e) := by
    intro q e
    rw [List.getElem?_set]
    by_cases hq : p = q
    · subst hq
      rw [if_pos rfl]
      split <;> simp
    · simp [hq, Ne.symm hq]
  constructor
  · intro q r k' v' w' hq hr
    rw [hGet] at hq hr
    exact hKeyed _ _ _ _ _ hq.2 hr.2
  · intro e
    constructor
    · rintro ⟨q, hq⟩
      obtain ⟨hqp, hOld⟩ := (hGet q e).mp hq
      refine ⟨⟨q, hOld⟩, ?_⟩
      rintro rfl
      exact hqp (hKeyed q p e.1 e.2 v hOld hp)
    · rintro ⟨⟨q, hq⟩, hKey⟩
      refine ⟨q, (hGet q e).mpr ⟨?_, hq⟩⟩
      rintro rfl
      exact hKey (by simpa using congrArg Prod.fst (Option.some.inj (Option.some.inj (hq.symm.trans hp))))

/-- The first empty slot from the hash of a key on, around the end of the array. -/
def probe (hash : κ → Nat) (t : Slots κ ν) (k : κ) : Option Nat :=
  ((List.range t.length).map fun i => (hash k + i) % t.length).find? fun p =>
    match t[p]? with
    | some none => true
    | _ => false

omit [DecidableEq κ] in
theorem probe_some {hash : κ → Nat} (h : probe hash t k = some p) : t[p]? = some none := by
  have := List.find?_some h
  split at this
  · assumption
  · cases this

/-- Linear probing in a table of eight slots that gets one more when it is full. -/
def probing (hash : κ → Nat) : Ops κ ν where
  fresh := List.replicate 8 none
  resizes t k := (probe hash t k).isNone
  upsert t k v :=
    match probe hash t k with
    | some p => t.set p (some (k, v))
    | none => (t ++ [none]).set t.length (some (k, v))
  remove t p := t.set p none
  fresh_empty := by
    rintro e ⟨p, hp⟩
    rw [List.getElem?_replicate] at hp
    split at hp <;> simp at hp
  upsert_spec := by
    intro t k v hKeyed hNew
    have hMore : ∀ (p : Nat) (e : κ × ν), (t ++ [none])[p]? = some (some e) ↔ t[p]? = some (some e) := by
      intro p e
      rw [List.getElem?_append]
      split
      · rfl
      · rename_i hp
        rw [List.getElem?_eq_none (by omega : t.length ≤ p)]
        cases p - t.length <;> simp
    have hHolds : ∀ e, Holds (t ++ [none]) e ↔ Holds t e := by
      intro e
      exact exists_congr fun p => hMore p e
    split
    · rename_i p hProbe
      exact hKeyed.fill (probe_some hProbe) hNew
    · have hKeyed' : Keyed (t ++ [none]) := by
        intro p q k v w hp hq
        exact hKeyed p q k v w ((hMore _ _).mp hp) ((hMore _ _).mp hq)
      have hFill := hKeyed'.fill (v := v) (p := t.length) (k := k) (by simp)
        fun w hw => hNew w ((hHolds _).mp hw)
      refine ⟨hFill.1, fun e => ?_⟩
      rw [hFill.2 e, hHolds e]
  upsert_in_place := by
    intro t k v hRoom _
    cases hProbe : probe hash t k with
    | none => simp [hProbe] at hRoom
    | some p => exact ⟨p, probe_some hProbe, rfl⟩
  remove_spec := fun hKeyed hp => hKeyed.clear hp

end Slots
end Sassrv
