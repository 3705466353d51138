import Mathlib.Data.List.Basic

/-! Reading records off the head of a buffer. What a record is depends on the state of
the reader; one that is not all there waits for more of the stream. If a record does
not change when more follows it, the stream can be cut anywhere. -/
namespace Sassrv.Records

universe u v
variable {σ : Type u} {β : Type v}

/-- The number in the first four bytes, the high byte first. -/
def getU32 (buf : List UInt8) : Nat := (buf.take 4).foldl (fun n b => n * 256 + b.toNat) 0

/-- How a record is handled: it is taken off and reading goes on, it stays at the head
and reading ends, or it is taken off and reading ends. -/
inductive Verdict where
  | next
  | hold
  | stop
  deriving DecidableEq, Repr

structure Reader (σ : Type u) (β : Type v) where
  /-- The length of the record at the head, once it is complete. -/
  size : σ → List β → Option Nat
  accept : σ → List β → σ × Verdict

/-- The state after reading, what is left in the buffer, and how the last record was
handled; `next` when no complete record is left. -/
structure Outcome (σ : Type u) (β : Type v) where
  state : σ
  rest : List β
  verdict : Verdict

namespace Reader

/-- The loop, for at most so many records. -/
def read (r : Reader σ β) : Nat → σ → List β → Option (Outcome σ β)
  | 0, _, _ => none
  | fuel + 1, s, buf =>
      match r.size s buf with
      | none => some ⟨s, buf, .next⟩
      | some n =>
          match r.accept s (buf.take n) with
          | (t, .next) => r.read fuel t (buf.drop n)
          | (t, .hold) => some ⟨t, buf, .hold⟩
          | (t, .stop) => some ⟨t, buf.drop n, .stop⟩

/-- A record is part of the buffer, is the same whatever follows it, and is not empty
if reading goes on after it. -/
structure Lawful (r : Reader σ β) : Prop where
  size_le {s : σ} {buf : List β} {n : Nat} : r.size s buf = some n → n ≤ buf.length
  size_append {s : σ} {buf : List β} {n : Nat} (more : List β) :
    r.size s buf = some n → r.size s (buf ++ more) = some n
  progress {s t : σ} {buf : List β} {n : Nat} : r.size s buf = some n →
    r.accept s (buf.take n) = (t, .next) → 0 < n

variable {r : Reader σ β}

theorem read_mono {fuel : Nat} {s : σ} {buf : List β} {out : Outcome σ β}
    (h : r.read fuel s buf = some out) : r.read (fuel + 1) s buf = some out := by
  induction fuel generalizing s buf with
  | zero => cases h
  | succ fuel ih =>
      rw [read] at h ⊢
      split at h
      · exact h
      · split at h
        · exact ih h
        · exact h
        · exact h

theorem read_of_le {fuel fuel' : Nat} {s : σ} {buf : List β} {out : Outcome σ β}
    (h : r.read fuel s buf = some out) (hLe : fuel ≤ fuel') : r.read fuel' s buf = some out := by
  induction hLe with
  | refl => exact h
  | step _ ih => exact read_mono ih

/-- What every record preserves, a reading preserves. -/
theorem read_invariant {inv : σ → Prop} (hAccept : ∀ s record, inv s → inv (r.accept s record).1)
    {fuel : Nat} {s : σ} {buf : List β} {out : Outcome σ β} (h : r.read fuel s buf = some out)
    (hInv : inv s) : inv out.state := by
  induction fuel generalizing s buf with
  | zero => cases h
  | succ fuel ih =>
      rw [read] at h
      split at h
      · cases h
        exact hInv
      · next n _ =>
          have hNext := hAccept s (buf.take n) hInv
          split at h
          · next hEq =>
              rw [hEq] at hNext
              exact ih h hNext
          · next hEq =>
              cases h
              rw [hEq] at hNext
              exact hNext
          · next hEq =>
              cases h
              rw [hEq] at hNext
              exact hNext

/-- Two readings of a buffer agree. -/
theorem read_unique {fuel fuel' : Nat} {s : σ} {buf : List β} {out out' : Outcome σ β}
    (h : r.read fuel s buf = some out) (h' : r.read fuel' s buf = some out') : out = out' := by
  have hLeft := read_of_le h (Nat.le_max_left fuel fuel')
  have hRight := read_of_le h' (Nat.le_max_right fuel fuel')
  exact Option.some.inj (hLeft.symm.trans hRight)

/-- As many turns as there are items in the buffer are enough. -/
theorem Lawful.read_returns (hr : r.Lawful) {fuel : Nat} {s : σ} {buf : List β}
    (hFuel : buf.length < fuel) : ∃ out, r.read fuel s buf = some out := by
  induction fuel generalizing s buf with
  | zero => omega
  | succ fuel ih =>
      rw [read]
      split
      · exact ⟨_, rfl⟩
      · next n hSize =>
          split
          · next t hAccept =>
              have hPos := hr.progress hSize hAccept
              have hLe := hr.size_le hSize
              apply ih
              rw [List.length_drop]
              omega
          · exact ⟨_, rfl⟩
          · exact ⟨_, rfl⟩

section
variable {fuel n : Nat} {s t : σ} {buf : List β}

theorem read_next (hSize : r.size s buf = some n) (hAccept : r.accept s (buf.take n) = (t, .next)) :
    r.read (fuel + 1) s buf = r.read fuel t (buf.drop n) := by
  simp only [read, hSize, hAccept]

theorem read_hold (hSize : r.size s buf = some n) (hAccept : r.accept s (buf.take n) = (t, .hold)) :
    r.read (fuel + 1) s buf = some ⟨t, buf, .hold⟩ := by
  simp only [read, hSize, hAccept]

theorem read_stop (hSize : r.size s buf = some n) (hAccept : r.accept s (buf.take n) = (t, .stop)) :
    r.read (fuel + 1) s buf = some ⟨t, buf.drop n, .stop⟩ := by
  simp only [read, hSize, hAccept]

end

/-- Reading that ends in the first part of a buffer ends there whatever follows. -/
theorem Lawful.read_append_ended (hr : r.Lawful) {fuel : Nat} {s : σ} {buf : List β} (more : List β)
    {out : Outcome σ β} (h : r.read fuel s buf = some out) (hEnd : out.verdict ≠ .next) :
    r.read fuel s (buf ++ more) = some { out with rest := out.rest ++ more } := by
  induction fuel generalizing s buf with
  | zero => cases h
  | succ fuel ih =>
      rw [read] at h
      split at h
      · cases h
        exact absurd rfl hEnd
      · next n hSize =>
          have hLater := hr.size_append more hSize
          have hTake : (buf ++ more).take n = buf.take n :=
            List.take_append_of_le_length (hr.size_le hSize)
          have hDrop : (buf ++ more).drop n = buf.drop n ++ more :=
            List.drop_append_of_le_length (hr.size_le hSize)
          split at h
          · next t hAccept =>
              rw [read_next hLater (hTake.symm ▸ hAccept), hDrop]
              exact ih h
          · next t hAccept =>
              cases h
              exact read_hold hLater (hTake.symm ▸ hAccept)
          · next t hAccept =>
              cases h
              rw [read_stop hLater (hTake.symm ▸ hAccept), hDrop]

/-- Otherwise it goes on with what the first part has left. -/
theorem Lawful.read_append_open (hr : r.Lawful) {fuel fuel' : Nat} {s : σ} {buf more : List β}
    {out out' : Outcome σ β} (h : r.read fuel s buf = some out) (hOpen : out.verdict = .next)
    (hMore : r.read fuel' out.state (out.rest ++ more) = some out') :
    ∃ fuel'', r.read fuel'' s (buf ++ more) = some out' := by
  induction fuel generalizing s buf with
  | zero => cases h
  | succ fuel ih =>
      rw [read] at h
      split at h
      · cases h
        exact ⟨fuel', hMore⟩
      · next n hSize =>
          split at h
          · next t hAccept =>
              obtain ⟨fuel'', hRead⟩ := ih h
              refine ⟨fuel'' + 1, ?_⟩
              have hTake : (buf ++ more).take n = buf.take n :=
                List.take_append_of_le_length (hr.size_le hSize)
              rw [read_next (hr.size_append more hSize) (hTake.symm ▸ hAccept),
                List.drop_append_of_le_length (hr.size_le hSize)]
              exact hRead
          · cases h
            cases hOpen
          · cases h
            cases hOpen

end Reader
end Sassrv.Records
