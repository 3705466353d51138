import Mathlib.Data.List.Induction
import Mathlib.Tactic.Linarith
import Sassrv.Ft.Intervals

/-! The mean latency of a peer. The counter of the samples skips every multiple
of 256, so that the mean that is folded back at that point counts as no sample
at all and is added to the next one. -/
namespace Sassrv.Ft

section Division

variable {a q j : Int}

theorem le_tdiv (hPos : 0 < j) (h : q * j ≤ a) : q ≤ a.tdiv j := by
  by_contra hLess
  have hUpper := Int.lt_tdiv_add_one_mul_self a hPos
  have hMul : (a.tdiv j + 1) * j ≤ q * j := Int.mul_le_mul_of_nonneg_right (by omega) hPos.le
  omega

/-- Division rounds towards zero, hence a quotient below zero is not reached
before the whole multiple is. -/
theorem le_tdiv_of_nonpos (hPos : 0 < j) (hSign : q ≤ 0) (h : (q - 1) * j < a) : q ≤ a.tdiv j := by
  by_cases hNeg : 0 ≤ a
  · have hQuotient := Int.tdiv_nonneg hNeg hPos.le
    omega
  · by_contra hLess
    have hCeil : -a.tdiv j * j ≤ -a := by
      rw [← Int.neg_tdiv, Int.tdiv_eq_ediv_of_nonneg (by omega)]
      exact Int.ediv_mul_le _ hPos.ne'
    have hMul : a.tdiv j * j ≤ (q - 1) * j := Int.mul_le_mul_of_nonneg_right (by omega) hPos.le
    rw [Int.neg_mul] at hCeil
    omega

end Division

/-- The peer after its first samples. -/
def accumulated (xs : List Int) : FtPeer := xs.foldl FtPeer.accumLatency {}

theorem accumulated_concat (xs : List Int) (x : Int) :
    accumulated (xs ++ [x]) = (accumulated xs).accumLatency x := by
  simp [accumulated]

/-- The samples that count since the mean was folded last, after `n` of them. -/
def counted (n : Nat) : Nat := if n = 0 then 0 else (n - 1) % 255 + 1

/-- What the accumulated sum weighs: a folded mean comes on top. -/
def weighed (n : Nat) : Nat := if n ≤ 255 then n else counted n + 1

theorem accumulated_cnt (xs : List Int) :
    (accumulated xs).latencyCnt = xs.length + (xs.length - 1) / 255 := by
  induction xs using List.reverseRecOn with
  | nil => rfl
  | append_singleton xs x ih =>
      rw [accumulated_concat, List.length_append, List.length_singleton]
      unfold FtPeer.accumLatency
      dsimp only
      split
      · dsimp only
        omega
      · omega

theorem accumulated_counted (xs : List Int) :
    (accumulated xs).latencyCnt % 256 = counted xs.length := by
  rw [accumulated_cnt, counted]
  split <;> omega

theorem latency_eq (xs : List Int) :
    (accumulated xs).latency = (accumulated xs).latencyAccum.tdiv (counted xs.length) := by
  rw [FtPeer.latency, accumulated_counted]
  split
  · next hNone => rw [hNone, Int.natCast_zero, Int.tdiv_zero]
  · rfl

/-- The next sum: at a multiple of 255 samples only the mean is kept of it. -/
theorem accumulated_concat_accum (xs : List Int) (x : Int) :
    (accumulated (xs ++ [x])).latencyAccum =
      (if counted xs.length = 255 then (accumulated xs).latencyAccum.tdiv 255
        else (accumulated xs).latencyAccum) + x := by
  have hCounted := accumulated_counted xs
  have hLatency := latency_eq xs
  rw [accumulated_concat]
  unfold FtPeer.accumLatency
  dsimp only
  by_cases hFold : counted xs.length = 255
  · rw [hFold] at hLatency
    rw [if_pos hFold, if_pos (by omega), hLatency]
    rfl
  · rw [if_neg hFold, if_neg (by omega)]

/-- Samples and sums change their signs together. -/
theorem accumulated_neg (xs : List Int) :
    (accumulated (xs.map (-·))).latencyAccum = -(accumulated xs).latencyAccum := by
  induction xs using List.reverseRecOn with
  | nil => rfl
  | append_singleton xs x ih =>
      rw [List.map_append, List.map_singleton, accumulated_concat_accum, accumulated_concat_accum, ih,
        List.length_map]
      split
      · rw [Int.neg_tdiv, Int.neg_add]
      · rw [Int.neg_add]

theorem latency_neg (xs : List Int) : (accumulated (xs.map (-·))).latency = -(accumulated xs).latency := by
  rw [latency_eq, latency_eq, accumulated_neg, List.length_map, Int.neg_tdiv]

/-- A mean of `j` samples, or of `j` samples and a folded mean, is not below
the least of them, the latter only for a bound above `-j`. -/
theorem mean_ge {j w : Nat} {lo a : Int} (hPos : 0 < j)
    (hWeight : w = j ∨ w = j + 1 ∧ -(j : Int) < lo) (hSum : w * lo ≤ a) : lo ≤ a.tdiv j := by
  have hPos : (0 : Int) < j := by omega
  rcases hWeight with rfl | ⟨rfl, hAbove⟩
  · exact le_tdiv hPos (by rwa [Int.mul_comm])
  · rw [Int.natCast_add, Int.natCast_one, Int.add_mul, Int.one_mul, Int.mul_comm] at hSum
    by_cases hSign : 0 ≤ lo
    · exact le_tdiv hPos (by omega)
    · refine le_tdiv_of_nonpos hPos (by omega) ?_
      rw [Int.sub_mul, Int.one_mul]
      omega

/-- The sum is not below the least sample times its weight. -/
theorem accumulated_ge {xs : List Int} {lo : Int} (hIn : ∀ x ∈ xs, lo ≤ x)
    (hLow : xs.length ≤ 255 ∨ -255 < lo) :
    weighed xs.length * lo ≤ (accumulated xs).latencyAccum := by
  induction xs using List.reverseRecOn with
  | nil => simp [accumulated, weighed]
  | append_singleton xs x ih =>
      have hLast : lo ≤ x := hIn x (by simp)
      rw [List.length_append, List.length_singleton] at hLow ⊢
      have hSum := ih (fun y hy => hIn y (by simp [hy])) (by omega)
      rw [accumulated_concat_accum]
      by_cases hFold : counted xs.length = 255
      · have hMany : 255 ≤ xs.length := by
          unfold counted at hFold
          split at hFold <;> omega
        have hMean : lo ≤ (accumulated xs).latencyAccum.tdiv 255 := by
          refine mean_ge (j := 255) (by decide) ?_ hSum
          unfold weighed
          split <;> omega
        have hWeight : weighed (xs.length + 1) = 2 := by
          unfold counted at hFold
          unfold weighed counted
          grind
        rw [if_pos hFold, hWeight]
        omega
      · have hWeight : weighed (xs.length + 1) = weighed xs.length + 1 := by
          unfold counted at hFold
          unfold weighed counted
          grind
        rw [if_neg hFold, hWeight, Int.natCast_add, Int.add_mul]
        omega

theorem accumulated_le {xs : List Int} {hi : Int} (hIn : ∀ x ∈ xs, x ≤ hi)
    (hHigh : xs.length ≤ 255 ∨ hi < 255) :
    (accumulated xs).latencyAccum ≤ weighed xs.length * hi := by
  have hNeg : ∀ x ∈ xs.map (-·), -hi ≤ x := by
    intro x hx
    obtain ⟨y, hy, rfl⟩ := List.mem_map.mp hx
    exact Int.neg_le_neg (hIn y hy)
  have hSum := accumulated_ge hNeg (by rw [List.length_map]; omega)
  rw [accumulated_neg, List.length_map, Int.mul_neg] at hSum
  omega

/-- The sum that counts since the last fold. -/
theorem weighed_eq {n : Nat} (hSome : 0 < n) :
    0 < counted n ∧ (n ≤ 255 ∧ weighed n = counted n ∨ 256 ≤ n ∧ weighed n = counted n + 1) := by
  unfold weighed counted
  grind

theorem latency_ge {xs : List Int} {lo : Int} (hIn : ∀ x ∈ xs, lo ≤ x) (hSome : xs ≠ [])
    (hLow : xs.length ≤ 255 ∨ -(counted xs.length : Int) < lo) : lo ≤ (accumulated xs).latency := by
  obtain ⟨hPos, hWeight⟩ := weighed_eq (List.length_pos_of_ne_nil hSome)
  have hFew : counted xs.length ≤ 255 := by unfold counted; split <;> omega
  rw [latency_eq]
  exact mean_ge hPos (by omega) (accumulated_ge hIn (by omega))

theorem latency_le {xs : List Int} {hi : Int} (hIn : ∀ x ∈ xs, x ≤ hi) (hSome : xs ≠ [])
    (hHigh : xs.length ≤ 255 ∨ hi < counted xs.length) : (accumulated xs).latency ≤ hi := by
  have hNeg : ∀ x ∈ xs.map (-·), -hi ≤ x := by
    intro x hx
    obtain ⟨y, hy, rfl⟩ := List.mem_map.mp hx
    exact Int.neg_le_neg (hIn y hy)
  have hMean := latency_ge hNeg (by simpa using hSome) (by rw [List.length_map]; omega)
  rw [latency_neg] at hMean
  omega

/-- Once a mean was folded, samples that are not small raise the mean above
the least of them. -/
theorem latency_gt {xs : List Int} {lo : Int} (hIn : ∀ x ∈ xs, lo ≤ x) (hMany : 256 ≤ xs.length)
    (hLarge : counted xs.length ≤ lo) : lo < (accumulated xs).latency := by
  obtain ⟨hPos, hWeight⟩ := weighed_eq (n := xs.length) (by omega)
  have hSum := accumulated_ge hIn (by omega)
  rw [show weighed xs.length = counted xs.length + 1 by omega, Int.natCast_add, Int.add_mul,
    Int.natCast_one, Int.one_mul, Int.mul_comm] at hSum
  rw [latency_eq]
  refine le_tdiv (by omega) ?_
  rw [Int.add_mul, Int.one_mul]
  omega

/-- A value of `int64_t`. -/
def FitsInt64 (a : Int) : Prop := -2 ^ 63 ≤ a ∧ a < 2 ^ 63

def Within (lo hi : Int) (xs : List Int) : Prop := ∀ x ∈ xs, lo ≤ x ∧ x ≤ hi

/-- No sum overflows, and the mean is zero or within the bounds. -/
def Averages (lo hi : Int) (xs : List Int) : Prop :=
  (∀ ys, ys <+: xs → FitsInt64 (accumulated ys).latencyAccum) ∧
    ((accumulated xs).latency ≠ 0 → lo ≤ (accumulated xs).latency ∧ (accumulated xs).latency ≤ hi)

/-- Up to the first fold the sum of the samples has to fit. After it the
samples have to be smaller than the number of them that count. -/
def MeanHolds (lo hi : Int) (n : Nat) : Prop :=
  n ≤ 255 ∧ -2 ^ 63 ≤ n * lo ∧ n * hi < 2 ^ 63 ∨
    256 ≤ n ∧ -(counted n : Int) < lo ∧ hi < counted n

/-- A part of a multiple is bounded as the multiple is. -/
theorem part_ge {k n : Nat} {b lo : Int} (hPart : k ≤ n) (hBound : b ≤ 0) (h : b ≤ n * lo) :
    b ≤ k * lo := by
  by_cases hSign : 0 ≤ lo
  · exact hBound.trans (Int.mul_nonneg (by omega) hSign)
  · exact h.trans (Int.mul_le_mul_of_nonpos_right (by omega) (by omega))

theorem part_lt {k n : Nat} {b hi : Int} (hPart : k ≤ n) (hBound : 0 < b) (h : n * hi < b) :
    k * hi < b := by
  have hNeg : 1 - b ≤ k * -hi := part_ge hPart (by omega) (by rw [Int.mul_neg]; omega)
  rw [Int.mul_neg] at hNeg
  omega

theorem sum_fits {lo hi : Int} {xs : List Int} (hWithin : Within lo hi xs)
    (hHolds : MeanHolds lo hi xs.length) {ys : List Int} (hPrefix : ys <+: xs) :
    FitsInt64 (accumulated ys).latencyAccum := by
  have hLength := hPrefix.length_le
  have hLow : ∀ y ∈ ys, lo ≤ y := fun y hy => (hWithin y (hPrefix.subset hy)).1
  have hHigh : ∀ y ∈ ys, y ≤ hi := fun y hy => (hWithin y (hPrefix.subset hy)).2
  have hFew : counted xs.length ≤ 255 := by unfold counted; split <;> omega
  have hGe := accumulated_ge hLow (by unfold MeanHolds at hHolds; omega)
  have hLe := accumulated_le hHigh (by unfold MeanHolds at hHolds; omega)
  have hWeight : weighed ys.length ≤ 256 := by
    have hFew : counted ys.length ≤ 255 := by unfold counted; split <;> omega
    unfold weighed
    split <;> omega
  unfold FitsInt64
  rcases hHolds with ⟨hFew, hLo, hHi⟩ | ⟨-, hLo, hHi⟩
  · have hWeight : weighed ys.length = ys.length := if_pos (by omega)
    rw [hWeight] at hGe hLe
    exact ⟨(part_ge hLength (by decide) hLo).trans hGe, hLe.trans_lt (part_lt hLength (by decide) hHi)⟩
  · constructor
    · nlinarith
    · nlinarith

theorem replicate_averages {lo hi c : Int} (hRange : lo ≤ hi) {n : Nat} (hMember : c = lo ∨ c = hi)
    (h : ∀ xs : List Int, xs.length = n → Within lo hi xs → Averages lo hi xs) :
    Averages lo hi (List.replicate n c) := by
  refine h _ (List.length_replicate ..) fun x hx => ?_
  rw [List.eq_of_mem_replicate hx]
  omega

/-- For every list of `n` samples within the bounds the mean is within them,
exactly under `MeanHolds`. The lists of one repeated bound decide it. -/
theorem averages_iff {lo hi : Int} (hRange : lo ≤ hi) (n : Nat) :
    (∀ xs : List Int, xs.length = n → Within lo hi xs → Averages lo hi xs) ↔ MeanHolds lo hi n := by
  constructor
  · intro h
    obtain ⟨hFitsLow, hLow⟩ := replicate_averages hRange (Or.inl rfl) h
    obtain ⟨hFitsHigh, hHigh⟩ := replicate_averages hRange (Or.inr rfl) h
    have hGe : ∀ x ∈ List.replicate n hi, hi ≤ x := fun x hx => (List.eq_of_mem_replicate hx).ge
    have hLe : ∀ x ∈ List.replicate n lo, x ≤ lo := fun x hx => (List.eq_of_mem_replicate hx).le
    by_cases hFew : n ≤ 255
    · left
      have hSumLow := accumulated_le hLe (Or.inl (by simpa using hFew))
      have hSumHigh := accumulated_ge hGe (Or.inl (by simpa using hFew))
      rw [List.length_replicate, weighed, if_pos hFew] at hSumLow hSumHigh
      exact ⟨hFew, (hFitsLow _ List.prefix_rfl).1.trans hSumLow,
        hSumHigh.trans_lt (hFitsHigh _ List.prefix_rfl).2⟩
    · right
      refine ⟨by omega, ?_, ?_⟩
      · by_contra hBelow
        have hNeg : ∀ x ∈ (List.replicate n lo).map (-·), -lo ≤ x := by
          simp only [List.map_replicate]
          exact fun x hx => (List.eq_of_mem_replicate hx).ge
        have hMean := latency_gt hNeg (by simp; omega) (by simp; omega)
        have hPos : 0 < counted n := (weighed_eq (by omega)).1
        rw [latency_neg] at hMean
        have hBound := hLow (by omega)
        omega
      · by_contra hAbove
        have hMean := latency_gt hGe (by simp; omega) (by simp; omega)
        have hPos : 0 < counted n := (weighed_eq (by omega)).1
        have hBound := hHigh (by omega)
        omega
  · rintro hHolds xs rfl hWithin
    refine ⟨fun ys => sum_fits hWithin hHolds, fun hSome => ?_⟩
    have hNonempty : xs ≠ [] := by
      rintro rfl
      exact hSome rfl
    unfold MeanHolds at hHolds
    exact ⟨latency_ge (fun x hx => (hWithin x hx).1) hNonempty (by omega),
      latency_le (fun x hx => (hWithin x hx).2) hNonempty (by omega)⟩

/-! ### Messages discarded for their latency -/

namespace RvFt

/-- The peer after messages with these latencies: the first one makes it, the
others have to pass `check_latency`. There is none once one is discarded. -/
def hears (f : RvFt) : List Int → Option FtPeer
  | [] => some {}
  | x :: xs => xs.foldlM f.checkLatency (({} : FtPeer).accumLatency x)

/-- Latencies whose sums cannot overflow and that differ by less than
`activate_ms`. -/
def Steady (f : RvFt) (xs : List Int) : Prop :=
  (∀ x ∈ xs, FitsInt64 (255 * x)) ∧ ∀ x ∈ xs, ∀ y ∈ xs, x - y < f.activateMs * 1000000

/-- A peer with samples that are close to all the latencies. -/
def Close (f : RvFt) (xs : List Int) (p : FtPeer) : Prop :=
  0 < p.latencyCnt ∧ ∀ x ∈ xs, p.latencyCnt * (x - (f.activateMs * 1000000 - 1)) ≤ p.latencyAccum ∧
    p.latencyAccum ≤ p.latencyCnt * (x + (f.activateMs * 1000000 - 1))

variable {f : RvFt} {xs ys : List Int} {x : Int} {p p' : FtPeer}

/-- Rounding to milliseconds adds at most one to a difference. -/
theorem tdiv_near {a b : Int} {k : Nat} (h : a - b < k * 1000000) :
    a.tdiv 1000000 - b.tdiv 1000000 ≤ k := by
  have hA := Int.tdiv_cases a 1000000
  have hB := Int.tdiv_cases b 1000000
  have hUnit : (0 : Int) ≤ 1000000 := by decide
  simp only [if_pos hUnit] at hA hB
  split at hA <;> split at hB <;> omega

theorem checkLatency_ne_none (hLow : x - p.latency < f.activateMs * 1000000)
    (hHigh : p.latency - x < f.activateMs * 1000000) : f.checkLatency p x ≠ none := by
  have hLow := tdiv_near hLow
  have hHigh := tdiv_near hHigh
  have hUnit : (1000 * 1000 : Int) = 1000000 := rfl
  unfold checkLatency
  simp only [hUnit]
  split
  · rw [if_neg (by omega)]
    split <;> simp
  · simp

theorem checkLatency_eq_some (h : f.checkLatency p x = some p') :
    p' = p ∨ p' = p.accumLatency x := by
  unfold checkLatency at h
  grind

/-- A latency equal to the mean is always a new sample. -/
theorem checkLatency_mean (hMean : p.latency = x) : f.checkLatency p x = some (p.accumLatency x) := by
  unfold checkLatency
  dsimp only
  rw [hMean]
  split
  · rw [if_neg (by omega), if_neg (by omega)]
  · rfl

theorem Close.checkLatency (hClose : f.Close xs p) (hCnt : p.latencyCnt ≤ 255) (hx : x ∈ xs) :
    f.checkLatency p x ≠ none := by
  obtain ⟨hPos, hSum⟩ := hClose
  obtain ⟨hLow, hHigh⟩ := hSum x hx
  have hCount : p.latencyCnt % 256 = p.latencyCnt := Nat.mod_eq_of_lt (by omega)
  have hMean : p.latency = p.latencyAccum.tdiv p.latencyCnt := by
    rw [FtPeer.latency, hCount, if_neg (by omega)]
  have hGe := mean_ge hPos (Or.inl rfl) hLow
  have hLe : -(x + (f.activateMs * 1000000 - 1)) ≤ (-p.latencyAccum).tdiv p.latencyCnt :=
    mean_ge hPos (Or.inl rfl) (by rw [Int.mul_neg]; omega)
  rw [Int.neg_tdiv, ← hMean] at hLe
  rw [← hMean] at hGe
  exact checkLatency_ne_none (by omega) (by omega)

theorem Close.accumLatency (hSteady : f.Steady xs) (hClose : f.Close xs p)
    (hCnt : p.latencyCnt < 255) (hx : x ∈ xs) : f.Close xs (p.accumLatency x) := by
  have hEarly : p.accumLatency x =
      { p with latencyAccum := p.latencyAccum + x, latencyCnt := p.latencyCnt + 1 } := by
    unfold FtPeer.accumLatency
    rw [if_neg (by omega)]
  rw [hEarly]
  refine ⟨Nat.succ_pos _, fun y hy => ?_⟩
  obtain ⟨hLow, hHigh⟩ := hClose.2 y hy
  have hBelow := hSteady.2 x hx y hy
  have hAbove := hSteady.2 y hy x hx
  dsimp only
  rw [Int.natCast_add, Int.natCast_one, Int.add_mul, Int.add_mul, Int.one_mul, Int.one_mul]
  omega

theorem Close.run (hSteady : f.Steady xs) (hClose : f.Close xs p) (hIn : ys ⊆ xs)
    (hFew : p.latencyCnt + ys.length ≤ 256) : ys.foldlM f.checkLatency p ≠ none := by
  induction ys generalizing p with
  | nil => simp
  | cons y ys ih =>
      have hy : y ∈ xs := hIn (by simp)
      have hIn : ys ⊆ xs := fun z hz => hIn (by simp [hz])
      rw [List.length_cons] at hFew
      obtain ⟨p', hHeard⟩ := Option.ne_none_iff_exists'.mp (hClose.checkLatency (by omega) hy)
      rw [List.foldlM_cons, hHeard, Option.bind_eq_bind, Option.bind_some]
      rcases checkLatency_eq_some hHeard with rfl | rfl
      · exact ih hClose hIn (by omega)
      · cases ys with
        | nil => simp
        | cons z zs =>
            rw [List.length_cons] at hFew ih
            refine ih (hClose.accumLatency hSteady (by omega) hy) hIn ?_
            unfold FtPeer.accumLatency
            rw [if_neg (by omega)]
            dsimp only
            omega

/-- Up to 256 steady messages are all accepted. -/
theorem Steady.hears (hSteady : f.Steady xs) (hFew : xs.length ≤ 256) : f.hears xs ≠ none := by
  cases xs with
  | nil => simp [RvFt.hears]
  | cons x xs =>
      rw [List.length_cons] at hFew
      have hFirst : ({} : FtPeer).accumLatency x = { latencyAccum := 0 + x, latencyCnt := 1 } := rfl
      refine Close.run hSteady ⟨?_, fun y hy => ?_⟩ (List.subset_cons_self x xs) ?_
      · rw [hFirst]
        exact Nat.one_pos
      · have hBelow := hSteady.2 x (by simp) y hy
        have hAbove := hSteady.2 y hy x (by simp)
        rw [hFirst]
        dsimp only
        omega
      · rw [hFirst]
        dsimp only
        omega

theorem hears_append (hSome : xs ≠ []) :
    f.hears (xs ++ ys) = (f.hears xs).bind (ys.foldlM f.checkLatency ·) := by
  cases xs with
  | nil => exact absurd rfl hSome
  | cons x xs => simp [RvFt.hears, List.foldlM_append]

/-- A latency that never changes is always a new sample, up to the first fold. -/
theorem hears_replicate (f : RvFt) (c : Int) {n : Nat} (hFew : n ≤ 256) :
    f.hears (List.replicate n c) = some (accumulated (List.replicate n c)) := by
  induction n with
  | zero => rfl
  | succ n ih =>
      cases n with
      | zero => rfl
      | succ n =>
          have hSome : List.replicate (n + 1) c ≠ [] := by simp
          have hMean : (accumulated (List.replicate (n + 1) c)).latency = c := by
            refine le_antisymm (latency_le (fun x hx => ?_) hSome (Or.inl (by simp; omega)))
              (latency_ge (fun x hx => ?_) hSome (Or.inl (by simp; omega)))
            · exact (List.eq_of_mem_replicate hx).le
            · exact (List.eq_of_mem_replicate hx).ge
          rw [List.replicate_succ', hears_append hSome, ih (by omega), Option.bind_some,
            accumulated_concat]
          simp [checkLatency_mean hMean]

/-- With a constant latency longer than `activate_ms` the mean is twice that
after the fold, and the next message is discarded. -/
theorem hears_replicate_none (f : RvFt) {n : Nat} (hMany : 257 ≤ n) :
    f.hears (List.replicate n ((f.activateMs + 1) * 1000000 : Int)) = none := by
  obtain ⟨c, hc⟩ : ∃ c : Int, c = (f.activateMs + 1) * 1000000 := ⟨_, rfl⟩
  obtain ⟨k, rfl⟩ : ∃ k, n = 256 + (1 + k) := ⟨n - 257, by omega⟩
  have hDouble : 2 * c ≤ (accumulated (List.replicate 256 c)).latency := by
    have hSame : ∀ x ∈ List.replicate 256 c, c ≤ x := fun x hx => (List.eq_of_mem_replicate hx).ge
    have hSum := accumulated_ge hSame (Or.inr (by omega))
    rw [latency_eq, List.length_replicate]
    rw [List.length_replicate] at hSum
    have hOne : ((counted 256 : Nat) : Int) = 1 := rfl
    have hTwo : ((weighed 256 : Nat) : Int) = 2 := rfl
    rw [hOne, Int.tdiv_one]
    rwa [hTwo] at hSum
  have hSkew := le_tdiv (j := 1000000) (q := 2 * (f.activateMs + 1)) (by decide)
    (show _ ≤ (accumulated (List.replicate 256 c)).latency by omega)
  have hMs : c.tdiv 1000000 = f.activateMs + 1 := by
    rw [hc, Int.mul_tdiv_cancel _ (by decide)]
  have hDiscard : f.checkLatency (accumulated (List.replicate 256 c)) c = none := by
    have hUnit : (1000 * 1000 : Int) = 1000000 := rfl
    unfold checkLatency
    simp only [hUnit, hMs]
    rw [if_pos (by omega), if_pos (by omega)]
  have hSome : List.replicate 256 c ≠ [] := by rw [Ne, List.replicate_eq_nil_iff]; decide
  rw [← hc, List.replicate_add, hears_append hSome, hears_replicate f c le_rfl, Option.bind_some,
    List.replicate_add, List.replicate_one, List.singleton_append, List.foldlM_cons, hDiscard]
  rfl

/-- Of every list of `n` steady messages all are accepted, exactly for up to
256 messages. -/
theorem hears_iff (f : RvFt) (hAct : f.activateMs < 2 ^ 32) (n : Nat) :
    (∀ xs : List Int, xs.length = n → f.Steady xs → f.hears xs ≠ none) ↔
      n ≤ 256 ∨ f.activateMs = 0 := by
  constructor
  · intro h
    by_contra hMany
    refine h _ (List.length_replicate ..) ⟨fun x hx => ?_, fun x hx y hy => ?_⟩
      (f.hears_replicate_none (n := n) (by omega))
    · rw [List.eq_of_mem_replicate hx]
      unfold FitsInt64
      omega
    · rw [List.eq_of_mem_replicate hx, List.eq_of_mem_replicate hy]
      omega
  · rintro (hFew | hZero) xs rfl hSteady
    · exact hSteady.hears hFew
    · cases xs with
      | nil => simp [RvFt.hears]
      | cons x xs =>
          have hSelf := hSteady.2 x (by simp) x (by simp)
          omega

end RvFt

/-- How long the mean of `n` samples stays within their bounds, and how many
messages of steady latency are accepted. -/
theorem latency_iff {lo hi : Int} (hRange : lo ≤ hi) {f : RvFt} (hAct : f.activateMs < 2 ^ 32)
    (n : Nat) :
    ((∀ xs : List Int, xs.length = n → Within lo hi xs → Averages lo hi xs) ↔ MeanHolds lo hi n) ∧
      ((∀ xs : List Int, xs.length = n → f.Steady xs → f.hears xs ≠ none) ↔
        n ≤ 256 ∨ f.activateMs = 0) :=
  ⟨averages_iff hRange n, f.hears_iff hAct n⟩

/-- A thousand samples of up to 150 ns: 235 of them count at the end. -/
theorem latency_thousand :
    (∀ xs : List Int, xs.length = 1000 → Within (-150) 150 xs → Averages (-150) 150 xs) ∧
      ¬ ∀ xs : List Int, xs.length = 1000 → (RvFt.defaultIntervals).Steady xs →
        (RvFt.defaultIntervals).hears xs ≠ none := by
  have hRange : (-150 : Int) ≤ 150 := by decide
  have hAct : (RvFt.defaultIntervals).activateMs < 2 ^ 32 := by decide
  have h := latency_iff hRange hAct 1000
  have hHolds : MeanHolds (-150) 150 1000 := by
    unfold MeanHolds
    decide
  exact ⟨h.1.mpr hHolds, fun hAll => absurd (h.2.mp hAll) (by decide)⟩

/-- 256 samples of one millisecond have a mean of two. -/
theorem latency_can_double : ¬ ∀ (lo hi : Int) (xs : List Int), Within lo hi xs →
    (accumulated xs).latency ≠ 0 → lo ≤ (accumulated xs).latency ∧ (accumulated xs).latency ≤ hi := by
  intro h
  have hSame : ∀ x ∈ List.replicate 256 (1000000 : Int), x = 1000000 := fun _ => List.eq_of_mem_replicate
  have hMean := latency_gt (fun x hx => (hSame x hx).ge)
    (by rw [List.length_replicate]) (by rw [List.length_replicate]; decide)
  have hBound := h 1000000 1000000 _ (fun x hx => ⟨(hSame x hx).ge, (hSame x hx).le⟩) (by omega)
  omega

end Sassrv.Ft
