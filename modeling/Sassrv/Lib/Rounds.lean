import Sassrv.Lib.Partial

/-! Removal in rounds. A round walks the entries, puts the keys of marked ones in a
batch of bounded size, and removes what the keys lead to; the loop ends after a round
whose batch is not full. The batch is not emptied between the rounds, so that a full
batch never leaves the loop. -/
namespace Sassrv.Rounds
open Partial

universe u v w
variable {ε : Type u} {σ : Type v} {α κ : Type w}

/-- What a round does with the entries of a state. -/
structure Sweep (ε : Type u) (σ : Type v) (α κ : Type w) where
  entries : σ → List α
  marked : σ → α → Bool
  /-- An entry that is not marked is passed over. -/
  pass : σ → α → σ
  key : σ → α → κ
  remove : σ → κ → Except ε σ

variable (w : Sweep ε σ α κ) (cap : Nat)

/-- The walk of a round. It stops when the batch is full, and there is none after a
write behind its end. -/
def collect : List α → σ → List κ → Option (σ × List κ)
  | [], s, batch => some (s, batch)
  | a :: rest, s, batch =>
      if w.marked s a then
        if batch.length < cap then
          let batch := batch ++ [w.key s a]
          if batch.length = cap then some (s, batch) else collect rest s batch
        else none
      else collect rest (w.pass s a) batch

/-- The loop, for a number of rounds; `none` when they do not end it. -/
def rounds (overrun : ε) : Nat → σ → List κ → Option (Except ε σ)
  | 0, _, _ => none
  | n + 1, s, batch =>
      match collect w cap (w.entries s) s batch with
      | none => some (.error overrun)
      | some (s, batch) =>
          match batch.foldlM w.remove s with
          | .error e => some (.error e)
          | .ok s => if batch.length < cap then some (.ok s) else rounds overrun n s batch

/-- Passing over an entry changes neither the marks nor the keys. -/
structure Sweep.Steady : Prop where
  marked : ∀ s a b, w.marked (w.pass s a) b = w.marked s b
  key : ∀ s a b, w.key (w.pass s a) b = w.key s b

variable {w cap}

/-- Nothing is added to a full batch. -/
theorem collect_full {items : List α} {s t : σ} {batch batch' : List κ} (hFull : cap ≤ batch.length)
    (h : collect w cap items s batch = some (t, batch')) : batch' = batch := by
  induction items generalizing s with
  | nil =>
      cases h
      rfl
  | cons a rest ih =>
      unfold collect at h
      split at h
      · rw [if_neg (Nat.not_lt.mpr hFull)] at h
        cases h
      · exact ih h

theorem rounds_full {overrun : ε} {n : Nat} {s t : σ} {batch : List κ} (hFull : cap ≤ batch.length) :
    rounds w cap overrun n s batch ≠ some (.ok t) := by
  induction n generalizing s with
  | zero => exact nofun
  | succ n ih =>
      unfold rounds
      cases hCollect : collect w cap (w.entries s) s batch with
      | none => exact nofun
      | some found =>
          obtain ⟨s₁, batch₁⟩ := found
          obtain rfl := collect_full hFull hCollect
          dsimp only
          cases batch₁.foldlM w.remove s₁ with
          | error e => exact nofun
          | ok s₂ =>
              dsimp only
              rw [if_neg (Nat.not_lt.mpr hFull)]
              exact ih

/-- A walk over as many marked entries as there is room for fills the batch. -/
theorem collect_fills (hSteady : w.Steady) {items : List α} {s t : σ} {batch batch' : List κ}
    (hMany : cap ≤ batch.length + items.countP (w.marked s))
    (h : collect w cap items s batch = some (t, batch')) : cap ≤ batch'.length := by
  induction items generalizing s batch with
  | nil =>
      cases h
      simpa using hMany
  | cons a rest ih =>
      unfold collect at h
      split at h
      · next hMarked =>
          split at h
          · dsimp only at h
            split at h
            · next hFull =>
                cases h
                exact Nat.le_of_eq hFull.symm
            · refine ih ?_ h
              rw [List.countP_cons_of_pos hMarked] at hMany
              rw [List.length_append, List.length_singleton]
              omega
          · cases h
      · next hMarked =>
          refine ih ?_ h
          rw [List.countP_cons_of_neg hMarked] at hMany
          rwa [show w.marked (w.pass s a) = w.marked s from funext fun b => hSteady.marked s a b]

/-- A walk over fewer marked entries collects them all. -/
theorem collect_all (hSteady : w.Steady) {items : List α} {s : σ} {batch : List κ}
    (hFew : batch.length + items.countP (w.marked s) < cap) :
    collect w cap items s batch = some ((items.filter fun a => !w.marked s a).foldl w.pass s,
      batch ++ (items.filter (w.marked s)).map (w.key s)) := by
  induction items generalizing s batch with
  | nil => simp [collect]
  | cons a rest ih =>
      unfold collect
      by_cases hMarked : w.marked s a = true
      · rw [List.countP_cons_of_pos hMarked] at hFew
        rw [if_pos hMarked, if_pos (by omega)]
        dsimp only
        rw [if_neg (by rw [List.length_append, List.length_singleton]; omega),
          ih (by rw [List.length_append, List.length_singleton]; omega)]
        simp [hMarked]
      · have hMarks : w.marked (w.pass s a) = w.marked s := funext fun b => hSteady.marked s a b
        have hKeys : w.key (w.pass s a) = w.key s := funext fun b => hSteady.key s a b
        rw [List.countP_cons_of_neg hMarked] at hFew
        rw [if_neg hMarked, ih (by rwa [hMarks]), hMarks, hKeys]
        simp [hMarked]

/-- The loop returns exactly when the marked entries do not fill the batch, and then its
first round is its last. -/
theorem rounds_eq_ok (hSteady : w.Steady) (overrun : ε) (s t : σ) :
    (∃ n, rounds w cap overrun n s [] = some (.ok t)) ↔
      (w.entries s).countP (w.marked s) < cap ∧
        (((w.entries s).filter (w.marked s)).map (w.key s)).foldlM w.remove
          (((w.entries s).filter fun a => !w.marked s a).foldl w.pass s) = .ok t := by
  by_cases hFew : (w.entries s).countP (w.marked s) < cap
  · have hCollect : collect w cap (w.entries s) s [] = some
        (((w.entries s).filter fun a => !w.marked s a).foldl w.pass s,
          [] ++ ((w.entries s).filter (w.marked s)).map (w.key s)) :=
      collect_all hSteady (by simpa using hFew)
    have hLength : (((w.entries s).filter (w.marked s)).map (w.key s)).length < cap := by
      rw [List.length_map, ← List.countP_eq_length_filter]
      exact hFew
    have hRound : ∀ n, rounds w cap overrun (n + 1) s [] =
        some ((((w.entries s).filter (w.marked s)).map (w.key s)).foldlM w.remove
          (((w.entries s).filter fun a => !w.marked s a).foldl w.pass s)) := by
      intro n
      unfold rounds
      rw [hCollect, List.nil_append]
      dsimp only
      split
      · next e he => rw [he]
      · next t ht => rw [ht, if_pos hLength]
    rw [and_iff_right hFew]
    constructor
    · rintro ⟨n, hn⟩
      cases n with
      | zero => cases hn
      | succ n =>
          rw [hRound] at hn
          exact Option.some.inj hn
    · exact fun h => ⟨1, by rw [hRound, h]⟩
  · refine iff_of_false ?_ fun h => hFew h.1
    rintro ⟨n, hn⟩
    cases n with
    | zero => cases hn
    | succ n =>
        unfold rounds at hn
        cases hCollect : collect w cap (w.entries s) s [] with
        | none =>
            rw [hCollect] at hn
            cases hn
        | some found =>
            obtain ⟨s₁, batch₁⟩ := found
            have hFull : cap ≤ batch₁.length := collect_fills hSteady (by simpa using hFew) hCollect
            rw [hCollect] at hn
            dsimp only at hn
            cases hRemove : batch₁.foldlM w.remove s₁ with
            | error e =>
                rw [hRemove] at hn
                cases hn
            | ok s₂ =>
                rw [hRemove] at hn
                dsimp only at hn
                rw [if_neg (Nat.not_lt.mpr hFull)] at hn
                exact rounds_full hFull hn

/-- Keys that go on leading to their entries remove them one after the other. -/
theorem foldlM_keys {remove : σ → κ → Except ε σ} {drop : σ → α → Except ε σ} {key : α → κ}
    (inv : σ → Prop) {items : List α} {s : σ}
    (hRemove : ∀ t a, a ∈ items → inv t → remove t (key a) = drop t a)
    (hKept : ∀ t a u, a ∈ items → inv t → drop t a = .ok u → inv u) (h : inv s) :
    (items.map key).foldlM remove s = items.foldlM drop s := by
  induction items generalizing s with
  | nil => rfl
  | cons a rest ih =>
      rw [List.map_cons, List.foldlM_cons, List.foldlM_cons, hRemove s a List.mem_cons_self h]
      cases hDrop : drop s a with
      | error e => rfl
      | ok t =>
          have hInv := hKept s a t List.mem_cons_self h hDrop
          exact ih (fun t b hb => hRemove t b (List.mem_cons_of_mem _ hb))
            (fun t b u hb => hKept t b u (List.mem_cons_of_mem _ hb)) hInv

end Sassrv.Rounds
