import Mathlib.Data.Nat.Digits.Lemmas

/-! Numbers printed with the highest digit first: in a fixed number of digits,
and in as many as they need. -/
namespace Sassrv.Digits

/-- The last `k` digits of `n`, the highest one first. -/
def fixedDigits (b : Nat) : Nat → Nat → List Nat
  | 0, _ => []
  | k + 1, n => n / b ^ k % b :: fixedDigits b k n

@[simp] theorem fixedDigits_length (b k n : Nat) : (fixedDigits b k n).length = k := by
  induction k with
  | zero => rfl
  | succ k ih => simp [fixedDigits, ih]

/-- The same digits from the low end. -/
theorem fixedDigits_snoc (b k n : Nat) :
    fixedDigits b (k + 1) n = fixedDigits b k (n / b) ++ [n % b] := by
  induction k with
  | zero => simp [fixedDigits]
  | succ k ih =>
      have hTop : n / b ^ (k + 1) = n / b / b ^ k := by
        rw [Nat.div_div_eq_div_mul, ← pow_succ']
      rw [fixedDigits, ih, hTop]
      rfl

theorem fixedDigits_eq_range (b k n : Nat) :
    fixedDigits b k n = (List.range k).map (fun i => n / b ^ (k - 1 - i) % b) := by
  induction k with
  | zero => rfl
  | succ k ih =>
      rw [fixedDigits, ih, List.range_succ_eq_map, List.map_cons, List.map_map]
      congr 1
      refine List.map_congr_left fun i _ => ?_
      simp only [Function.comp_apply, Nat.succ_eq_add_one]
      congr 3
      omega

/-- In as many digits as `n` has these are the digits of `n`. -/
theorem fixedDigits_eq_digits {b : Nat} (hBase : 1 < b) (n : Nat) :
    fixedDigits b (b.digits n).length n = (b.digits n).reverse := by
  induction n using Nat.strong_induction_on with
  | _ n ih =>
      rcases Nat.eq_zero_or_pos n with rfl | hPos
      · simp [fixedDigits]
      · rw [Nat.digits_def' hBase hPos, List.length_cons, fixedDigits_snoc,
          ih (n / b) (Nat.div_lt_self hPos hBase), List.reverse_cons]

/-- A way to print digits that tells them apart tells numbers apart. -/
theorem print_inj {α : Type*} {b : Nat} (hBase : 1 < b) {print : Nat → α} {read : α → Nat}
    (hRead : ∀ d < b, read (print d) = d) {m n : Nat}
    (h : (b.digits m).reverse.map print = (b.digits n).reverse.map print) : m = n := by
  have hBack : ∀ k : Nat, ((b.digits k).reverse.map print).map read = (b.digits k).reverse := by
    intro k
    rw [List.map_map]
    refine (List.map_congr_left fun d hd => ?_).trans (List.map_id _)
    exact hRead d (Nat.digits_lt_base hBase (List.mem_reverse.mp hd))
  have hDigits := (hBack m).symm.trans ((congrArg (List.map read) h).trans (hBack n))
  exact Nat.digits_inj_iff.mp (List.reverse_injective hDigits)

/-- The first digit printed is not zero. -/
theorem head_digits_ne_zero (b : Nat) {n d : Nat} (h : (b.digits n).reverse.head? = some d) :
    d ≠ 0 := by
  rw [List.head?_reverse] at h
  have hne : n ≠ 0 := by
    rintro rfl
    simp at h
  have hLast := Nat.getLast_digit_ne_zero b hne
  rw [List.getLast?_eq_some_getLast (Nat.digits_ne_nil_iff_ne_zero.mpr hne)] at h
  rwa [Option.some.inj h] at hLast

end Sassrv.Digits
