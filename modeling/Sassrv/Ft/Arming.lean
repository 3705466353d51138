import Mathlib.Data.BitVec
import Sassrv.Ft.Intervals
import Sassrv.Lib.Transition

/-! `set_timer` in the words of the code: the nanoseconds left until the
deadline are rounded up to microseconds in a 32-bit word, and the test that is
meant to choose milliseconds for a long delay reads that word. -/
namespace Sassrv.Ft
open Transition

/-- The largest delay that the timer queue takes, of 31 bits. -/
def maxTimerRange : Nat := 2 ^ 31 - 1

inductive TimerUnit where
  | micros
  | millis
  deriving DecidableEq

/-- A call of `add_timer_micros` or `add_timer_millis`. -/
structure TimerArm where
  unit : TimerUnit
  delay : BitVec 32
  deriving DecidableEq

def TimerArm.ns (arm : TimerArm) : Nat :=
  match arm.unit with
  | .micros => arm.delay.toNat * 1000
  | .millis => arm.delay.toNat * 1000000

/-- The nanoseconds until `origin_ns + delta_ms`. -/
def expireNs (originNs now : BitVec 64) (deltaMs : BitVec 32) : BitVec 64 :=
  let expire := originNs + deltaMs.setWidth 64 * 1000 * 1000
  if now < expire then expire - now else 0

/-- The end of `set_timer`. -/
def armFor (expire : BitVec 64) : TimerArm :=
  let expireUs : BitVec 32 := ((expire + 999) / 1000 + 1000).setWidth 32
  if expireUs.toNat ≤ maxTimerRange then ⟨.micros, expireUs⟩
  else ⟨.millis, ((expire + 999999) / (1000 * 1000) + 1).setWidth 32⟩

/-- The timer of one action as `set_timer` keeps it: what it noted about the
last arming, and that arming with the time it was made at. -/
structure FtTimer where
  isSet : Bool
  originNs : BitVec 64
  expiresNs : BitVec 64
  arm : TimerArm
  armedAt : Nat

/-- The set timer is taken to serve the new deadline as well. -/
def FtTimer.Keeps (t : FtTimer) (originNs now : BitVec 64) (deltaMs : BitVec 32) : Prop :=
  t.isSet ∧ t.originNs + t.expiresNs = originNs + expireNs originNs now deltaMs

instance (t : FtTimer) (originNs now : BitVec 64) (deltaMs : BitVec 32) :
    Decidable (t.Keeps originNs now deltaMs) := inferInstanceAs (Decidable (_ ∧ _))

/-- `set_timer` -/
def FtTimer.set (t : FtTimer) (originNs now : BitVec 64) (deltaMs : BitVec 32) : FtTimer :=
  if t.Keeps originNs now deltaMs then t
  else
    let expire := expireNs originNs now deltaMs
    { isSet := true, originNs := originNs, expiresNs := expire, arm := armFor expire
      armedAt := now.toNat }

/-- The timer of an action and the clock. -/
structure TimerClock where
  timer : FtTimer
  now : BitVec 64

inductive TimerInput where
  | advance (now : BitVec 64)
  | set (originNs : BitVec 64) (deltaMs : BitVec 32)
  /-- The timer fires or is removed. -/
  | clear

/-- The life of a timer. The origin is `start_mono` or the `last_rcv_ns` of a peer, a time
that the clock has shown before. -/
def timerRuns : System TimerClock TimerInput Unit where
  init s := s.timer.isSet = false
  step s input _ t := match input with
    | .advance now => s.now ≤ now ∧ t = { s with now := now }
    | .set originNs deltaMs => originNs ≤ s.now ∧
        t = { s with timer := s.timer.set originNs s.now deltaMs }
    | .clear => t = { s with timer := { s.timer with isSet := false } }

/-- The deadline in unbounded arithmetic. -/
def deadlineNs (originNs : BitVec 64) (deltaMs : BitVec 32) : Nat :=
  originNs.toNat + deltaMs.toNat * 1000000

/-- The delay is in the range of the queue, and the timer fires at the
deadline or at most two milliseconds later. -/
def FtTimer.Serves (t : FtTimer) (originNs now : BitVec 64) (deltaMs : BitVec 32) : Prop :=
  let left := deadlineNs originNs deltaMs - now.toNat
  t.arm.delay.toNat ≤ maxTimerRange ∧ now.toNat + left ≤ t.armedAt + t.arm.ns ∧
    t.armedAt + t.arm.ns ≤ now.toNat + left + 2000000

/-- The time left is rounded up without losing bits: its microseconds fit the
word, or what the word keeps of them still looks too long, and its
milliseconds are in range. A deadline past the end of the clock is served only
by a delay of zero. -/
def Rounds (originNs now : BitVec 64) (deltaMs : BitVec 32) : Prop :=
  let deadline := deadlineNs originNs deltaMs
  let left := deadline - now.toNat
  let micros := (left + 999) / 1000 + 1000
  if deadline < 2 ^ 64 then
    (micros < 2 ^ 32 ∨ maxTimerRange < micros % 2 ^ 32) ∧ (left + 999999) / 1000000 + 1 ≤ maxTimerRange
  else deadline - 2 ^ 64 ≤ now.toNat ∧ left ≤ 1000000

/-- The comparison of sums is right: since the arming the origin has moved on by as much as
the clock, up to what the arming was rounded by. A deadline past the end of the clock is late
by all of the time left. -/
def FtTimer.KeptRight (t : FtTimer) (originNs now : BitVec 64) (deltaMs : BitVec 32) : Prop :=
  let passed : Int := now.toNat - t.armedAt
  let moved : Int := originNs.toNat - t.originNs.toNat
  let slack : Int := t.arm.ns - t.expiresNs.toNat
  let deadline := deadlineNs originNs deltaMs
  let late : Int := if deadline < 2 ^ 64 then 0 else deadline - now.toNat
  t.arm.delay.toNat ≤ maxTimerRange ∧ passed - moved + late ≤ slack ∧
    slack ≤ passed - moved + late + 2000000

theorem expireNs_toNat (originNs now : BitVec 64) (deltaMs : BitVec 32) :
    (expireNs originNs now deltaMs).toNat = deadlineNs originNs deltaMs % 2 ^ 64 - now.toNat := by
  have hDelta := deltaMs.isLt
  have hSpan : (deltaMs.setWidth 64 * 1000 * 1000 : BitVec 64).toNat = deltaMs.toNat * 1000000 := by
    have hThousand : (1000 : BitVec 64).toNat = 1000 := rfl
    simp only [BitVec.toNat_mul, BitVec.toNat_setWidth, hThousand]
    omega
  have hSum : (originNs + deltaMs.setWidth 64 * 1000 * 1000).toNat =
      deadlineNs originNs deltaMs % 2 ^ 64 := by
    rw [BitVec.toNat_add, hSpan, deadlineNs]
  unfold expireNs
  dsimp only
  split
  · next hLess =>
      rw [BitVec.toNat_sub_of_le (BitVec.le_of_lt hLess), hSum]
  · next hPast =>
      have hPast : ¬ now.toNat < _ := fun h => hPast (BitVec.lt_def.mpr h)
      have hZero : (0 : BitVec 64).toNat = 0 := rfl
      rw [hSum] at hPast
      rw [hZero]
      omega

/-- The word of microseconds. -/
theorem micros_toNat (expire : BitVec 64) :
    (((expire + 999) / 1000 + 1000 : BitVec 64).setWidth 32).toNat =
      ((expire.toNat + 999) % 2 ^ 64 / 1000 + 1000) % 2 ^ 32 := by
  have hRound : (999 : BitVec 64).toNat = 999 := rfl
  have hUnit : (1000 : BitVec 64).toNat = 1000 := rfl
  simp only [BitVec.toNat_setWidth, BitVec.toNat_add, BitVec.toNat_udiv, hRound, hUnit]
  omega

theorem millis_toNat (expire : BitVec 64) :
    (((expire + 999999) / (1000 * 1000) + 1 : BitVec 64).setWidth 32).toNat =
      ((expire.toNat + 999999) % 2 ^ 64 / 1000000 + 1) % 2 ^ 32 := by
  have hUnit : (1000 * 1000 : BitVec 64) = 1000000 := by decide
  have hRound : (999999 : BitVec 64).toNat = 999999 := by decide
  have hMillion : (1000000 : BitVec 64).toNat = 1000000 := by decide
  have hOne : (1 : BitVec 64).toNat = 1 := by decide
  rw [hUnit, BitVec.toNat_setWidth, BitVec.toNat_add, BitVec.toNat_udiv, BitVec.toNat_add, hRound,
    hMillion, hOne]
  omega

theorem armFor_ns_lt (expire : BitVec 64) : (armFor expire).ns < 2 ^ 32 * 1000000 := by
  have hDelay := (armFor expire).delay.isLt
  unfold TimerArm.ns
  split <;> omega

/-- What the word keeps of a count that does not fit is short by 2^32. -/
theorem word_short {n : Nat} (h : 2 ^ 32 ≤ n) : n % 2 ^ 32 + 2 ^ 32 ≤ n := by omega

/-- The arming for a span of nanoseconds serves it if rounding loses nothing,
and only then. -/
theorem armFor_serves_iff {expire : BitVec 64} {left : Nat} (hLeft : expire.toNat = left) :
    ((armFor expire).delay.toNat ≤ maxTimerRange ∧ left ≤ (armFor expire).ns ∧
      (armFor expire).ns ≤ left + 2000000) ↔
    ((left + 999) / 1000 + 1000 < 2 ^ 32 ∨ maxTimerRange < ((left + 999) / 1000 + 1000) % 2 ^ 32) ∧
      (left + 999999) / 1000000 + 1 ≤ maxTimerRange := by
  have hRange : maxTimerRange = 2147483647 := rfl
  by_cases hHuge : 2 ^ 64 ≤ left + 999999
  · have hShort := armFor_ns_lt expire
    exact iff_of_false (by omega) (by omega)
  · have hMicros := micros_toNat expire
    have hMillis := millis_toNat expire
    rw [hLeft, Nat.mod_eq_of_lt (show left + 999 < 2 ^ 64 by omega)] at hMicros
    rw [hLeft, Nat.mod_eq_of_lt (show left + 999999 < 2 ^ 64 by omega)] at hMillis
    obtain ⟨u, hu⟩ : ∃ u, u = (left + 999) / 1000 + 1000 := ⟨_, rfl⟩
    obtain ⟨w, hw⟩ : ∃ w, w = (left + 999999) / 1000000 + 1 := ⟨_, rfl⟩
    rw [← hu] at hMicros ⊢
    rw [← hw] at hMillis ⊢
    unfold armFor
    dsimp only
    rw [hMicros]
    by_cases hFew : u % 2 ^ 32 ≤ maxTimerRange
    · simp only [if_pos hFew, TimerArm.ns, hMicros]
      by_cases hFits : u < 2 ^ 32
      · rw [Nat.mod_eq_of_lt hFits] at hFew ⊢
        exact iff_of_true (by omega) (by omega)
      · have hLost := word_short (Nat.not_lt.mp hFits)
        exact iff_of_false (by omega) (by omega)
    · simp only [if_neg hFew, TimerArm.ns, hMillis]
      by_cases hFits : w < 2 ^ 32
      · rw [Nat.mod_eq_of_lt hFits]
        constructor
        · rintro ⟨hDelay, -⟩
          exact ⟨Or.inr (Nat.not_le.mp hFew), hDelay⟩
        · rintro ⟨-, hDelay⟩
          exact ⟨hDelay, by omega, by omega⟩
      · have hLost := word_short (Nat.not_lt.mp hFits)
        exact iff_of_false (by omega) (by omega)

theorem armFor_zero : (armFor 0).ns = 1000000 ∧ (armFor 0).delay.toNat ≤ maxTimerRange := by decide

/-- The arming for the time left, at the end of `set_timer`. -/
theorem armed_serves_iff (originNs now : BitVec 64) (deltaMs : BitVec 32) :
    (FtTimer.mk true originNs (expireNs originNs now deltaMs) (armFor (expireNs originNs now deltaMs))
      now.toNat).Serves originNs now deltaMs ↔ Rounds originNs now deltaMs := by
  have hExpire := expireNs_toNat originNs now deltaMs
  have hOrigin := originNs.isLt
  have hDelta := deltaMs.isLt
  have hNow := now.isLt
  unfold FtTimer.Serves Rounds
  dsimp only
  by_cases hFits : deadlineNs originNs deltaMs < 2 ^ 64
  · rw [Nat.mod_eq_of_lt hFits] at hExpire
    rw [if_pos hFits, ← armFor_serves_iff hExpire]
    omega
  · rw [if_neg hFits]
    have hWrapped : deadlineNs originNs deltaMs % 2 ^ 64 = deadlineNs originNs deltaMs - 2 ^ 64 := by
      unfold deadlineNs at hFits ⊢
      omega
    rw [hWrapped] at hExpire
    by_cases hPast : deadlineNs originNs deltaMs - 2 ^ 64 ≤ now.toNat
    · have hZero : expireNs originNs now deltaMs = 0 := by
        apply BitVec.eq_of_toNat_eq
        rw [hExpire]
        exact Nat.sub_eq_zero_of_le hPast
      obtain ⟨hNs, hRange⟩ := armFor_zero
      rw [hZero, hNs]
      omega
    · have hShort := armFor_ns_lt (expireNs originNs now deltaMs)
      omega

/-- What a set timer has noted: its sum of origin and delay is a time of the clock. -/
structure FtTimer.Noted (t : FtTimer) (now : BitVec 64) : Prop where
  armed : t.armedAt ≤ now.toNat
  sum : t.originNs.toNat + t.expiresNs.toNat < 2 ^ 64
  arm : t.arm = armFor t.expiresNs

/-- With an origin that the clock has shown, no sum passes the end of the clock. -/
theorem origin_add_expire {originNs now : BitVec 64} (hOrigin : originNs ≤ now)
    (deltaMs : BitVec 32) : originNs.toNat + (expireNs originNs now deltaMs).toNat < 2 ^ 64 := by
  have hNow := now.isLt
  have hWrap := Nat.mod_lt (deadlineNs originNs deltaMs) (Nat.two_pow_pos 64)
  have hBefore : originNs.toNat ≤ now.toNat := BitVec.le_def.mp hOrigin
  rw [expireNs_toNat]
  omega

theorem FtTimer.Noted.later {t : FtTimer} {now now' : BitVec 64} (h : t.Noted now) (hTime : now ≤ now') :
    t.Noted now' :=
  ⟨h.armed.trans (BitVec.le_def.mp hTime), h.sum, h.arm⟩

theorem FtTimer.Noted.set {t : FtTimer} {originNs now : BitVec 64} (deltaMs : BitVec 32)
    (h : t.isSet = true → t.Noted now) (hOrigin : originNs ≤ now) :
    (t.set originNs now deltaMs).Noted now := by
  unfold FtTimer.set
  dsimp only
  split
  · next hKeeps => exact h hKeeps.1
  · constructor
    case armed => exact le_refl now.toNat
    case sum => exact origin_add_expire hOrigin deltaMs
    case arm => dsimp only

/-- The invariant of the runs. -/
def TimerClock.NotedIfSet (s : TimerClock) : Prop := s.timer.isSet = true → s.timer.Noted s.now

theorem timerRuns_noted {s : TimerClock} (h : timerRuns.Reachable s) : s.NotedIfSet := by
  refine h.invariant ?_ ?_
  · intro start hInit hSet
    exact absurd hSet (by rw [hInit]; exact Bool.false_ne_true)
  · intro s input emitted t inv hStep
    cases input with
    | advance now =>
        obtain ⟨hTime, rfl⟩ := hStep
        exact fun hSet => (inv hSet).later hTime
    | set originNs deltaMs =>
        obtain ⟨hOrigin, rfl⟩ := hStep
        exact fun _ => .set deltaMs inv hOrigin
    | clear =>
        cases hStep
        exact fun hSet => absurd hSet Bool.false_ne_true

/-- A kept timer has noted the sum that the new origin and delay have. -/
theorem FtTimer.Noted.same_sum {t : FtTimer} {originNs now : BitVec 64} {deltaMs : BitVec 32}
    (h : t.Noted now) (hOrigin : originNs ≤ now) (hKeeps : t.Keeps originNs now deltaMs) :
    t.originNs.toNat + t.expiresNs.toNat =
      originNs.toNat + (expireNs originNs now deltaMs).toNat := by
  have hSum := congrArg BitVec.toNat hKeeps.2
  rwa [BitVec.toNat_add, BitVec.toNat_add, Nat.mod_eq_of_lt h.sum,
    Nat.mod_eq_of_lt (origin_add_expire hOrigin deltaMs)] at hSum

theorem FtTimer.Noted.kept_serves_iff {t : FtTimer} {originNs now : BitVec 64} {deltaMs : BitVec 32}
    (h : t.Noted now) (hOrigin : originNs ≤ now) (hKeeps : t.Keeps originNs now deltaMs) :
    t.Serves originNs now deltaMs ↔ t.KeptRight originNs now deltaMs := by
  have hSum := h.same_sum hOrigin hKeeps
  have hBefore : originNs.toNat ≤ now.toNat := BitVec.le_def.mp hOrigin
  have hNow := now.isLt
  have hDelta := deltaMs.isLt
  rw [expireNs_toNat] at hSum
  unfold FtTimer.Serves FtTimer.KeptRight
  dsimp only
  by_cases hFits : deadlineNs originNs deltaMs < 2 ^ 64
  · rw [Nat.mod_eq_of_lt hFits] at hSum
    rw [if_pos hFits]
    omega
  · rw [if_neg hFits]
    -- the wrapped deadline is before the origin
    have hPast : deadlineNs originNs deltaMs % 2 ^ 64 - now.toNat = 0 := by
      unfold deadlineNs at hFits ⊢
      omega
    rw [hPast] at hSum
    omega

/-- After `set_timer` the timer serves the deadline exactly if it is kept by a comparison that
is right, or if it is armed anew for a time left that is rounded without losing bits. -/
theorem set_serves_iff {s : TimerClock} (h : timerRuns.Reachable s) (originNs : BitVec 64)
    (deltaMs : BitVec 32) (hOrigin : s.timer.Keeps originNs s.now deltaMs → originNs ≤ s.now) :
    (s.timer.set originNs s.now deltaMs).Serves originNs s.now deltaMs ↔
      if s.timer.Keeps originNs s.now deltaMs then s.timer.KeptRight originNs s.now deltaMs
      else Rounds originNs s.now deltaMs := by
  unfold FtTimer.set
  by_cases hKeeps : s.timer.Keeps originNs s.now deltaMs
  · rw [if_pos hKeeps, if_pos hKeeps]
    exact (timerRuns_noted h hKeeps.1).kept_serves_iff (hOrigin hKeeps) hKeeps
  · rw [if_neg hKeeps, if_neg hKeeps]
    exact armed_serves_iff originNs s.now deltaMs

/-- A timer set at 0 for 5 s, and the clock 1 ms on. -/
def sampleClock : TimerClock where
  timer := FtTimer.set ⟨false, 0, 0, ⟨.micros, 0⟩, 0⟩ 0 0 5000
  now := 1000000

theorem sampleClock_reachable : timerRuns.Reachable sampleClock := by
  let idle : TimerClock := ⟨⟨false, 0, 0, ⟨.micros, 0⟩, 0⟩, 0⟩
  let armed : TimerClock := { idle with timer := idle.timer.set 0 0 5000 }
  have hInit : timerRuns.Reachable idle := System.reachable_of_init rfl
  have hSet : timerRuns.step idle (.set 0 5000) [] armed := ⟨BitVec.le_refl 0, rfl⟩
  have hLater : timerRuns.step armed (.advance 1000000) [] sampleClock := ⟨by decide, rfl⟩
  exact (hInit.step hSet).step hLater

/-- The timer is kept for a peer heard half a millisecond ago. -/
theorem set_serves_kept : sampleClock.timer.Keeps 500000 sampleClock.now 5000 ∧
    (sampleClock.timer.set 500000 sampleClock.now 5000).Serves 500000 sampleClock.now 5000 := by
  have hKeeps : sampleClock.timer.Keeps 500000 sampleClock.now 5000 := by decide
  have hRight : sampleClock.timer.KeptRight 500000 sampleClock.now 5000 := by
    unfold FtTimer.KeptRight
    decide
  refine ⟨hKeeps, (set_serves_iff sampleClock_reachable 500000 5000 fun _ => by decide).mpr ?_⟩
  rw [if_pos hKeeps]
  exact hRight

/-- An activation after 4294968 ms takes more microseconds than the word holds,
and the timer fires after the 1.704 ms that are left of them. -/
theorem set_can_truncate :
    ¬ ∀ (t : FtTimer) (originNs now : BitVec 64) (deltaMs : BitVec 32),
      (t.set originNs now deltaMs).Serves originNs now deltaMs := by
  intro h
  let idle : FtTimer := ⟨false, 0, 0, ⟨.micros, 0⟩, 0⟩
  obtain ⟨-, hServed, -⟩ := h idle 0 0 4294968
  have hArm : (idle.set 0 0 4294968).arm = ⟨.micros, 1704⟩ := by decide
  have hMade : (idle.set 0 0 4294968).armedAt = 0 := by decide
  rw [hArm, hMade] at hServed
  revert hServed
  decide

/-- The span that a member computes, in words, as long as the deadline is
before the end of the clock. -/
theorem timerSpan_word (f : RvFt) (p : PeerRef) {originNs now : BitVec 64} {deltaMs : BitVec 32}
    (hOrigin : (f.timerSpan p deltaMs.toNat).1 = originNs.toNat) (hNow : f.monoNs = now.toNat)
    (hFits : deadlineNs originNs deltaMs < 2 ^ 64) :
    (f.timerSpan p deltaMs.toNat).2 = (expireNs originNs now deltaMs).toNat := by
  rw [expireNs_toNat, Nat.mod_eq_of_lt hFits, ← hNow, deadlineNs, ← hOrigin]
  have hUnits : deltaMs.toNat * 1000 * 1000 = deltaMs.toNat * 1000000 := by omega
  simp only [RvFt.timerSpan, hUnits]

end Sassrv.Ft
