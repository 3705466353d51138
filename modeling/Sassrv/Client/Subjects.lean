import Sassrv.SubMgr.Text

/-! The subject functions of `ev_rv_client.h` that the listener tables rest on:
where the first wildcard of a subject stands, and that a subject with a wildcard
matches only what starts with the text in front of it. -/
namespace Sassrv.Client
open SubMgr

/-- A wildcard stands at the head of the text; `segment` says that a segment of
the subject starts there. -/
def isWild (segment : Bool) : Text → Bool
  | [] => false
  | w :: ws =>
      (w == 62 && segment && ws.isEmpty) ||
        (w == 42 && segment && (ws.isEmpty || ws.head? == some 46))

def rvWildcardFrom (segment : Bool) : Text → Option Nat
  | [] => none
  | w :: ws =>
      if isWild segment (w :: ws) then some 0
      else (rvWildcardFrom (w == 46) ws).map (· + 1)

/-- `is_rv_wildcard`: the position of the wildcard that it returns. -/
def rvWildcard (subject : Text) : Option Nat := rvWildcardFrom true subject

theorem rvWildcardFrom_isSome (segment : Bool) (subject : Text) :
    (rvWildcardFrom segment subject).isSome = isRvWildcardFrom segment subject := by
  induction subject generalizing segment with
  | nil => rfl
  | cons w ws ih =>
      by_cases h : isWild segment (w :: ws)
      · simp only [isWild, Bool.or_eq_true] at h
        rcases h with h | h <;> simp [rvWildcardFrom, isRvWildcardFrom, isWild, h]
      · have hNot := h
        simp only [isWild, Bool.or_eq_true, not_or, Bool.not_eq_true] at hNot
        rw [rvWildcardFrom, if_neg h, Option.isSome_map, ih, isRvWildcardFrom, hNot.1, hNot.2]
        rfl

theorem rvWildcard_isSome (subject : Text) :
    (rvWildcard subject).isSome = isRvWildcard subject :=
  rvWildcardFrom_isSome true subject

theorem rvWildcardFrom_lt {segment : Bool} {subject : Text} {i : Nat}
    (h : rvWildcardFrom segment subject = some i) : i < subject.length := by
  induction subject generalizing segment i with
  | nil => cases h
  | cons w ws ih =>
      rw [rvWildcardFrom] at h
      split at h
      · obtain rfl : 0 = i := Option.some.inj h
        simp
      · obtain ⟨j, hj, rfl⟩ := Option.map_eq_some_iff.mp h
        have := ih hj
        simpa using this

theorem rvWildcard_lt {subject : Text} {i : Nat} (h : rvWildcard subject = some i) :
    i < subject.length :=
  rvWildcardFrom_lt h

/-- In front of its wildcard a pattern is compared character by character. -/
theorem matchRvWildcardFrom_prefix {segment : Bool} {wild sub : Text} {i : Nat}
    (hWild : rvWildcardFrom segment wild = some i)
    (hMatch : matchRvWildcardFrom segment wild sub = true) :
    i < sub.length ∧ sub.take i = wild.take i := by
  induction wild generalizing segment sub i with
  | nil => cases hWild
  | cons w ws ih =>
      cases sub with
      | nil => cases hMatch
      | cons s ss =>
          by_cases hHead : isWild segment (w :: ws)
          · rw [rvWildcardFrom, if_pos hHead] at hWild
            obtain rfl : 0 = i := Option.some.inj hWild
            simp
          · rw [rvWildcardFrom, if_neg hHead] at hWild
            obtain ⟨j, hj, rfl⟩ := Option.map_eq_some_iff.mp hWild
            simp only [isWild, Bool.or_eq_true, not_or, Bool.not_eq_true] at hHead
            rw [matchRvWildcardFrom, hHead.1, hHead.2] at hMatch
            by_cases hEq : w = s
            · subst hEq
              simp only [Bool.false_eq_true, if_false, ne_eq, not_true_eq_false] at hMatch
              obtain ⟨hLength, hTake⟩ := ih hj hMatch
              exact ⟨by simpa using hLength, by simp [hTake]⟩
            · simp [hEq] at hMatch

theorem matchRvWildcard_prefix {wild sub : Text} {i : Nat} (hWild : rvWildcard wild = some i)
    (hMatch : matchRvWildcard wild sub = true) : i < sub.length ∧ sub.take i = wild.take i :=
  matchRvWildcardFrom_prefix hWild hMatch

end Sassrv.Client
