import Mathlib.Data.Finset.Basic

/-! A log of arrivals and departures, replayed on a finite set. Each entry may claim
what it found: an arrival that the element is new, a departure whether the element was
there. -/
namespace Sassrv.Replay

universe u v
variable {α : Type u} {β : Type v}

inductive Event (α : Type u) where
  | enter (a : α) (fresh : Bool)
  | leave (a : α) (known : Bool)

section
variable [DecidableEq α]

def apply (s : Finset α) : Event α → Finset α
  | .enter a _ => insert a s
  | .leave a _ => s.erase a

def replay (s : Finset α) (log : List (Event α)) : Finset α := log.foldl apply s

/-- What the entry claims is so in the set it is applied to. -/
def Event.Honest (s : Finset α) : Event α → Prop
  | .enter a fresh => fresh = true → a ∉ s
  | .leave a known => known = true ↔ a ∈ s

/-- Every entry is honest where it stands. -/
def Honest (s : Finset α) : List (Event α) → Prop
  | [] => True
  | e :: rest => e.Honest s ∧ Honest (apply s e) rest

@[simp] theorem replay_nil (s : Finset α) : replay s [] = s := rfl

@[simp] theorem replay_cons (s : Finset α) (e : Event α) (log : List (Event α)) :
    replay s (e :: log) = replay (apply s e) log := rfl

theorem replay_append (s : Finset α) (log log' : List (Event α)) :
    replay s (log ++ log') = replay (replay s log) log' :=
  List.foldl_append

theorem honest_append (s : Finset α) (log log' : List (Event α)) :
    Honest s (log ++ log') ↔ Honest s log ∧ Honest (replay s log) log' := by
  induction log generalizing s with
  | nil => simp [Honest]
  | cons e rest ih => simp only [List.cons_append, Honest, ih, replay_cons, and_assoc]

/-- An honest log read at one of its entries. -/
theorem Honest.at {s : Finset α} {log log' : List (Event α)} {e : Event α}
    (h : Honest s (log ++ e :: log')) : e.Honest (replay s log) :=
  ((honest_append s log (e :: log')).mp h).2.1

/-- Departures of distinct elements that are there. -/
theorem leaves (s : Finset α) (as : List α) (hNodup : as.Nodup) (hThere : ∀ a ∈ as, a ∈ s) :
    Honest s (as.map fun a => .leave a true) ∧
      ∀ x, x ∈ replay s (as.map fun a => .leave a true) ↔ x ∈ s ∧ x ∉ as := by
  induction as generalizing s with
  | nil => simp [Honest]
  | cons a rest ih =>
      obtain ⟨hHead, hRest⟩ := List.nodup_cons.mp hNodup
      have hStill : ∀ b ∈ rest, b ∈ s.erase a := by
        intro b hb
        refine Finset.mem_erase.mpr ⟨?_, hThere b (List.mem_cons_of_mem _ hb)⟩
        rintro rfl
        exact hHead hb
      obtain ⟨hHonest, hMem⟩ := ih (s.erase a) hRest hStill
      refine ⟨⟨iff_of_true rfl (hThere a List.mem_cons_self), hHonest⟩, fun x => ?_⟩
      rw [List.map_cons, replay_cons]
      refine (hMem x).trans ?_
      rw [Finset.mem_erase, List.mem_cons, not_or]
      tauto

end

end Sassrv.Replay
