import Sassrv.Daemon.Network
import Sassrv.Lib.Digits

/-! The session names of a host: its address, and a count of microseconds that
the host never gives out twice. -/
namespace Sassrv.Daemon
open SubMgr Digits

/-- The first loop of `utime_to_str`: the bits that the digits take, four at a
time. A shift by 64 bits is not defined. -/
def digitBits (us : BitVec 64) : Nat → Nat → Option Nat
  | 0, _ => none
  | rounds + 1, j => if us >>> j = 0 then some j else digitBits us rounds (j + 4)

/-- The second loop, with that many digits to go. -/
def printDigits (us : BitVec 64) : Nat → Text
  | 0 => []
  | k + 1 => hexchar2 ((us >>> (4 * k)) &&& 0xf).toNat :: printDigits us k

def utimeToStr (us : BitVec 64) : Option Text :=
  (digitBits us 16 0).map fun j => printDigits us (j / 4)

def timeToStr (ns : BitVec 64) : Option Text := utimeToStr (ns / 1000)

/-- What `make_session` reads of a host. -/
structure SessionHost where
  sessionIp : Text
  sessionIp_length : sessionIp.length = 8
  lastSessionUs : BitVec 64 := 0

/-- `last_session_us` after the call. -/
def SessionHost.nextUs (h : SessionHost) (ns : BitVec 64) : BitVec 64 :=
  if ns / 1000 ≤ h.lastSessionUs then h.lastSessionUs + 1 else ns / 1000

def SessionHost.makeSession (h : SessionHost) (ns : BitVec 64) : Option (SessionHost × Text) :=
  (utimeToStr (h.nextUs ns)).map fun digits =>
    ({ h with lastSessionUs := h.nextUs ns }, h.sessionIp ++ [46] ++ digits)

/-- Calls one after the other, with the names that they return. -/
def SessionHost.makeSessions (h : SessionHost) : List (BitVec 64) → Option (SessionHost × List Text)
  | [] => some (h, [])
  | ns :: rest => do
      let (h, name) ← h.makeSession ns
      let (h, names) ← h.makeSessions rest
      return (h, name :: names)

theorem printDigits_eq (us : BitVec 64) (k : Nat) :
    printDigits us k = (fixedDigits 16 k us.toNat).map hexchar2 := by
  induction k with
  | zero => rfl
  | succ k ih =>
      have hDigit : ((us >>> (4 * k)) &&& 0xf).toNat = us.toNat / 16 ^ k % 16 := by
        have hMask : ∀ n : Nat, n &&& 15 = n % 16 := fun n =>
          Nat.and_two_pow_sub_one_eq_mod n 4
        rw [BitVec.toNat_and, BitVec.toNat_ushiftRight, Nat.shiftRight_eq_div_pow,
          show (0xf : BitVec 64).toNat = 15 from rfl, hMask, pow_mul]
        norm_num
      rw [printDigits, ih, hDigit]
      rfl

/-- The loop stops at the first multiple of four bits that holds the number. -/
theorem digitBits_eq {us : BitVec 64} {rounds i : Nat} (hLow : i ≤ (Nat.digits 16 us.toNat).length)
    (hHigh : (Nat.digits 16 us.toNat).length < i + rounds) :
    digitBits us rounds (4 * i) = some (4 * (Nat.digits 16 us.toNat).length) := by
  induction rounds generalizing i with
  | zero => omega
  | succ rounds ih =>
      have hZero : us >>> (4 * i) = 0 ↔ (Nat.digits 16 us.toNat).length ≤ i := by
        rw [Nat.digits_length_le_iff (by decide), ← BitVec.toNat_inj, BitVec.toNat_ushiftRight,
          Nat.shiftRight_eq_div_pow, pow_mul]
        simp [Nat.div_eq_zero_iff]
      unfold digitBits
      split
      · rename_i hStop
        rw [le_antisymm hLow (hZero.mp hStop)]
      · rename_i hMore
        have hNext : i + 1 ≤ (Nat.digits 16 us.toNat).length := by
          by_contra hLess
          exact hMore (hZero.mpr (by omega))
        exact ih hNext (by omega)

theorem digitBits_some {us : BitVec 64} {rounds j bits : Nat}
    (h : digitBits us rounds j = some bits) : us >>> bits = 0 ∧ bits + 4 ≤ j + 4 * rounds := by
  induction rounds generalizing j with
  | zero => cases h
  | succ rounds ih =>
      unfold digitBits at h
      split at h
      · rename_i hStop
        cases h
        exact ⟨hStop, by omega⟩
      · obtain ⟨hZero, hBits⟩ := ih h
        exact ⟨hZero, by omega⟩

/-- `utime_to_str` prints the digits of a count below 2^60 and shifts by 64
bits for every other one. -/
theorem utimeToStr_eq_some {us : BitVec 64} {digits : Text} : utimeToStr us = some digits ↔
    us.toNat < 2 ^ 60 ∧ digits = (Nat.digits 16 us.toNat).reverse.map hexchar2 := by
  have hPrint : us.toNat < 2 ^ 60 →
      utimeToStr us = some ((Nat.digits 16 us.toNat).reverse.map hexchar2) := by
    intro hSmall
    have hLength : (Nat.digits 16 us.toNat).length ≤ 15 := by
      rw [Nat.digits_length_le_iff (by decide)]
      exact hSmall
    have hBits := @digitBits_eq us 16 0 (Nat.zero_le _) (by omega)
    rw [Nat.mul_zero] at hBits
    rw [utimeToStr, hBits, Option.map_some, Nat.mul_div_cancel_left _ (by decide), printDigits_eq,
      fixedDigits_eq_digits (by decide)]
  constructor
  · intro h
    obtain ⟨bits, hBits, -⟩ := Option.map_eq_some_iff.mp h
    obtain ⟨hZero, hLess⟩ := digitBits_some hBits
    have hSmall : us.toNat < 2 ^ 60 := by
      rw [← BitVec.toNat_inj, BitVec.toNat_ushiftRight, Nat.shiftRight_eq_div_pow] at hZero
      have hPow : us.toNat < 2 ^ bits :=
        (Nat.div_eq_zero_iff.mp hZero).resolve_left (by positivity)
      exact hPow.trans_le (Nat.pow_le_pow_right (by decide) (by omega))
    exact ⟨hSmall, Option.some.inj (h.symm.trans (hPrint hSmall))⟩
  · rintro ⟨hSmall, rfl⟩
    exact hPrint hSmall

/-- A digit is read back by its value. -/
def hexValue (c : UInt8) : Nat := if c.toNat < 58 then c.toNat - 48 else c.toNat - 55

theorem hexValue_hexchar2 : ∀ d < 16, hexValue (hexchar2 d) = d := by decide

theorem utimeToStr_inj {a b : BitVec 64} {digits : Text} (ha : utimeToStr a = some digits)
    (hb : utimeToStr b = some digits) : a = b := by
  have hEq := (utimeToStr_eq_some.mp ha).2.symm.trans (utimeToStr_eq_some.mp hb).2
  exact BitVec.eq_of_toNat_eq (print_inj (by decide) hexValue_hexchar2 hEq)

theorem utimeToStr_length {us : BitVec 64} {digits : Text} (h : utimeToStr us = some digits) :
    digits.length ≤ 15 := by
  obtain ⟨hSmall, rfl⟩ := utimeToStr_eq_some.mp h
  rw [List.length_map, List.length_reverse, Nat.digits_length_le_iff (by decide)]
  exact hSmall

theorem utimeToStr_head {us : BitVec 64} {digits : Text} (h : utimeToStr us = some digits) :
    digits.head? ≠ some 48 := by
  obtain ⟨-, rfl⟩ := utimeToStr_eq_some.mp h
  rw [List.head?_map]
  intro hHead
  obtain ⟨d, hDigit, hZero⟩ := Option.map_eq_some_iff.mp hHead
  refine head_digits_ne_zero 16 hDigit ?_
  have hMem : d ∈ Nat.digits 16 us.toNat := List.mem_reverse.mp (List.mem_of_mem_head? hDigit)
  rw [← hexValue_hexchar2 d (Nat.digits_lt_base (by decide) hMem), hZero]
  rfl

/-- The microseconds of a time in nanoseconds are below 2^60. -/
theorem utimeToStr_ns (ns : BitVec 64) : ∃ digits, timeToStr ns = some digits := by
  refine ⟨_, utimeToStr_eq_some.mpr ⟨?_, rfl⟩⟩
  rw [BitVec.toNat_udiv]
  have hLt := ns.isLt
  change ns.toNat / 1000 < 2 ^ 60
  omega

/-- The ratchet: the next count is larger, and not by more than the clock or a
step of one needs. -/
theorem SessionHost.nextUs_bounds {h : SessionHost} (hLast : h.lastSessionUs.toNat < 2 ^ 60)
    (ns : BitVec 64) :
    h.lastSessionUs.toNat < (h.nextUs ns).toNat ∧
      (h.nextUs ns).toNat ≤ max (h.lastSessionUs.toNat + 1) (2 ^ 64 / 1000) := by
  unfold nextUs
  split
  · have hNext : (h.lastSessionUs + 1).toNat = h.lastSessionUs.toNat + 1 := by
      rw [BitVec.toNat_add]
      exact Nat.mod_eq_of_lt (by change h.lastSessionUs.toNat + 1 < 2 ^ 64; omega)
    rw [hNext]
    exact ⟨Nat.lt_succ_self _, le_max_left _ _⟩
  · rename_i hForward
    refine ⟨BitVec.not_le.mp hForward, le_trans ?_ (le_max_right _ _)⟩
    rw [BitVec.toNat_udiv]
    exact Nat.div_le_div_right ns.isLt.le

theorem SessionHost.makeSession_eq_some {h h' : SessionHost} {ns : BitVec 64} {name : Text}
    (hCall : h.makeSession ns = some (h', name)) :
    h' = { h with lastSessionUs := h.nextUs ns } ∧
      ∃ digits, utimeToStr (h.nextUs ns) = some digits ∧ name = h.sessionIp ++ [46] ++ digits := by
  obtain ⟨digits, hDigits, hEq⟩ := Option.map_eq_some_iff.mp hCall
  cases hEq
  exact ⟨rfl, digits, hDigits, rfl⟩

/-- The names of a run of calls are those of increasing counts. -/
theorem SessionHost.makeSessions_counts {h h' : SessionHost} {times : List (BitVec 64)}
    {names : List Text} (hLast : h.lastSessionUs.toNat < 2 ^ 60)
    (hCalls : h.makeSessions times = some (h', names)) :
    ∃ counts : List (BitVec 64),
      counts.Pairwise (fun us later => us.toNat < later.toNat) ∧
      (∀ us ∈ counts, h.lastSessionUs.toNat < us.toNat) ∧
      names.map some = counts.map fun us =>
        (utimeToStr us).map fun digits => h.sessionIp ++ [46] ++ digits := by
  induction times generalizing h names with
  | nil =>
      cases hCalls
      exact ⟨[], .nil, by simp, rfl⟩
  | cons ns rest ih =>
      obtain ⟨⟨hMid, name⟩, hCall, hRest⟩ := Option.bind_eq_some_iff.mp hCalls
      obtain ⟨⟨hEnd, later⟩, hMore, hEq⟩ := Option.bind_eq_some_iff.mp hRest
      cases hEq
      obtain ⟨rfl, digits, hDigits, hName⟩ := makeSession_eq_some hCall
      have hBounds := nextUs_bounds hLast ns
      obtain ⟨counts, hIncrease, hAbove, hNames⟩ :=
        ih (utimeToStr_eq_some.mp hDigits).1 hMore
      refine ⟨h.nextUs ns :: counts, .cons hAbove hIncrease, ?_, ?_⟩
      · intro us hUs
        rcases List.mem_cons.mp hUs with rfl | hLater
        · exact hBounds.1
        · exact hBounds.1.trans (hAbove us hLater)
      · rw [List.map_cons, List.map_cons, hDigits, hName, hNames]
        rfl

/-- While the counts stay in 60 bits every call returns. -/
theorem SessionHost.makeSessions_isSome {h : SessionHost} {times : List (BitVec 64)}
    (hRoom : max h.lastSessionUs.toNat (2 ^ 64 / 1000) + times.length < 2 ^ 60) :
    ∃ h' names, h.makeSessions times = some (h', names) := by
  induction times generalizing h with
  | nil => exact ⟨h, [], rfl⟩
  | cons ns rest ih =>
      rw [List.length_cons] at hRoom
      have hBounds := nextUs_bounds (h := h) (by omega) ns
      have hSmall : (h.nextUs ns).toNat < 2 ^ 60 := by omega
      obtain ⟨digits, hDigits⟩ : ∃ digits, utimeToStr (h.nextUs ns) = some digits :=
        ⟨_, utimeToStr_eq_some.mpr ⟨hSmall, rfl⟩⟩
      obtain ⟨hEnd, names, hMore⟩ :=
        @ih { h with lastSessionUs := h.nextUs ns } (by change max (h.nextUs ns).toNat _ + _ < _; omega)
      refine ⟨hEnd, (h.sessionIp ++ [46] ++ digits) :: names, ?_⟩
      rw [makeSessions, makeSession, hDigits, Option.map_some]
      change (SessionHost.makeSessions _ rest).bind _ = _
      rw [hMore]
      rfl

theorem SessionHost.makeSessions_length {h h' : SessionHost} {times : List (BitVec 64)}
    {names : List Text} (hCalls : h.makeSessions times = some (h', names)) :
    names.length = times.length := by
  induction times generalizing h names with
  | nil =>
      cases hCalls
      rfl
  | cons ns rest ih =>
      obtain ⟨⟨hMid, name⟩, hCall, hRest⟩ := Option.bind_eq_some_iff.mp hCalls
      obtain ⟨⟨hEnd, later⟩, hMore, hEq⟩ := Option.bind_eq_some_iff.mp hRest
      cases hEq
      rw [List.length_cons, List.length_cons, ih hMore]

/-- The names that a host gives out are pairwise distinct, for every sequence
of times, and take 24 bytes at most; the buffers have 64. A run of calls
returns unless the count leaves 60 bits. -/
theorem makeSessions_distinct (ip : Text) (hIp : ip.length = 8) (times : List (BitVec 64)) :
    (2 ^ 64 / 1000 + times.length < 2 ^ 60 →
      ∃ h' names, (SessionHost.mk ip hIp 0).makeSessions times = some (h', names)) ∧
    (∀ h' names, (SessionHost.mk ip hIp 0).makeSessions times = some (h', names) →
      names.length = times.length ∧ names.Nodup ∧
      ∀ name ∈ names, ∃ digits, name = ip ++ [46] ++ digits ∧ digits.length ≤ 15) ∧
    (∀ ns, ∃ digits, timeToStr ns = some digits) ∧
    ∀ a b digits, utimeToStr a = some digits →
      digits.head? ≠ some 48 ∧ (utimeToStr b = some digits → a = b) := by
  refine ⟨fun hRoom => SessionHost.makeSessions_isSome ?_, ?_, utimeToStr_ns, ?_⟩
  · change max 0 _ + _ < _
    rwa [Nat.zero_max]
  · intro h' names hCalls
    obtain ⟨counts, hIncrease, -, hNames⟩ :=
      SessionHost.makeSessions_counts (by change 0 < 2 ^ 60; decide) hCalls
    refine ⟨SessionHost.makeSessions_length hCalls, ?_, ?_⟩
    · have hNodup : (names.map some).Nodup := by
        rw [hNames]
        refine (List.nodup_map_iff_inj_on ?_).mpr ?_
        · exact hIncrease.imp fun hLess hEq => hLess.ne (congrArg BitVec.toNat hEq)
        · intro a ha b _ hSame
          have hListed := List.mem_map_of_mem (f := fun us =>
            (utimeToStr us).map fun digits => ip ++ [46] ++ digits) ha
          obtain ⟨name, -, hName⟩ := List.mem_map.mp (hNames ▸ hListed)
          obtain ⟨digits, hDigits, hText⟩ := Option.map_eq_some_iff.mp hName.symm
          obtain ⟨others, hOthers, hText'⟩ := Option.map_eq_some_iff.mp (hSame.symm.trans hName.symm)
          cases List.append_cancel_left (hText.trans hText'.symm)
          exact utimeToStr_inj hDigits hOthers
      exact hNodup.of_map _
    · intro name hName
      have hMem : some name ∈ names.map some := List.mem_map_of_mem hName
      rw [hNames] at hMem
      obtain ⟨us, -, hUs⟩ := List.mem_map.mp hMem
      obtain ⟨digits, hDigits, rfl⟩ := Option.map_eq_some_iff.mp hUs
      exact ⟨digits, rfl, utimeToStr_length hDigits⟩
  · exact fun a b digits ha => ⟨utimeToStr_head ha, fun hb => utimeToStr_inj ha hb⟩

theorem makeSessions_distinct_three :
    ∃ h' names, (SessionHost.mk [48, 65, 48, 52, 48, 52, 49, 54] rfl 0).makeSessions
      [5000, 5000, 4000] = some (h', names) ∧ names.Nodup := by
  obtain ⟨h', names, hCalls⟩ := (makeSessions_distinct [48, 65, 48, 52, 48, 52, 49, 54] rfl
    [5000, 5000, 4000]).1 (by decide)
  exact ⟨h', names, hCalls, ((makeSessions_distinct _ _ _).2.1 h' names hCalls).2.1⟩

end Sassrv.Daemon
