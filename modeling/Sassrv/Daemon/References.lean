import Sassrv.Daemon.Clients
import Sassrv.Daemon.HostSafety

/-! The references of a connection in its two tables, those of a daemon session in the
map of its host, and how one `L` or `C` message or the end of the connection moves the
two together. -/
namespace Sassrv.Daemon
open SubMgr Partial

/-- The references of a subject in a table. -/
def refcnt (t : Table Text (BitVec 32)) (x : Text) : Nat := ((t.find? x).getD 0).toNat

/-- No entry is left without references. -/
def Positive (t : Table Text (BitVec 32)) : Prop := ∀ x n, t.find? x = some n → n ≠ 0

/-- The references of a connection to a subject, exact and as a pattern. -/
def Service.own (s : Service) (x : Text) : Nat := refcnt s.subTab x + refcnt s.patTab x

variable {t : Table Text (BitVec 32)} {x y : Text} {n : BitVec 32}

theorem refcnt_of_some (h : t.find? x = some n) : refcnt t x = n.toNat := by simp [refcnt, h]

theorem refcnt_of_none (h : t.find? x = none) : refcnt t x = 0 := by simp [refcnt, h]

theorem refcnt_insert (t : Table Text (BitVec 32)) (x y : Text) (n : BitVec 32) :
    refcnt (t.insert x n) y = if y = x then n.toNat else refcnt t y := by
  unfold refcnt
  rw [Table.find?_insert]
  split <;> rfl

theorem refcnt_erase (t : Table Text (BitVec 32)) (x y : Text) :
    refcnt (t.erase x) y = if y = x then 0 else refcnt t y := by
  unfold refcnt
  rw [Table.find?_erase]
  split <;> rfl

theorem positive_empty : Positive .empty := by
  intro x n h
  cases h

theorem Positive.insert (h : Positive t) (hn : n ≠ 0) : Positive (t.insert x n) := by
  intro y m hm
  rw [Table.find?_insert] at hm
  split at hm
  · cases hm
    exact hn
  · exact h y m hm

theorem Positive.erase (h : Positive t) : Positive (t.erase x) := by
  intro y m hm
  rw [Table.find?_erase] at hm
  split at hm
  · cases hm
  · exact h y m hm

/-- An entry is there for each subject with references, and for no other. -/
theorem Positive.contains_iff (h : Positive t) : t.contains x = true ↔ 0 < refcnt t x := by
  rw [Table.contains_iff]
  constructor
  · rintro ⟨n, hn⟩
    rw [refcnt_of_some hn]
    exact Nat.pos_of_ne_zero fun hZero => h x n hn (BitVec.eq_of_toNat_eq hZero)
  · intro hPos
    cases hFind : t.find? x with
    | none =>
        rw [refcnt_of_none hFind] at hPos
        cases hPos
    | some n => exact ⟨n, rfl⟩

theorem toNat_add_one (h : n.toNat + 1 < 2 ^ 32) : (n + 1).toNat = n.toNat + 1 := by
  rw [BitVec.toNat_add]
  exact Nat.mod_eq_of_lt h

theorem toNat_sub_one (h : n ≠ 0) : (n - 1).toNat = n.toNat - 1 := by
  bv_omega

/-- One more reference. -/
theorem refcnt_insert_add_one (h : refcnt t x + 1 < 2 ^ 32) (hFind : (t.find? x).getD 0 = n) :
    refcnt (t.insert x (n + 1)) y = refcnt t y + if y = x then 1 else 0 := by
  rw [refcnt_insert]
  subst hFind
  split
  · next hEq =>
      subst hEq
      exact toNat_add_one h
  · rfl

theorem add_one_ne_zero (h : n.toNat + 1 < 2 ^ 32) : n + 1 ≠ 0 := by
  intro hZero
  have hAdd := toNat_add_one h
  rw [hZero] at hAdd
  exact absurd hAdd (by simp)

/-- What taking references off a table leaves. -/
def Taken (t t' : Table Text (BitVec 32)) (x : Text) (k : Nat) : Prop :=
  Positive t' ∧ ∀ y, refcnt t' y = refcnt t y - if y = x then k else 0

theorem taken_erase (h : Positive t) {k : Nat} (hLe : refcnt t x ≤ k) : Taken t (t.erase x) x k := by
  refine ⟨h.erase, fun y => ?_⟩
  rw [refcnt_erase]
  split
  · next hEq =>
      subst hEq
      omega
  · rfl

theorem taken_insert (h : Positive t) {m : BitVec 32} (hFind : t.find? x = some n) (hLt : m < n) :
    Taken t (t.insert x (n - m)) x m.toNat := by
  have hSub : (n - m).toNat = n.toNat - m.toNat := BitVec.toNat_sub_of_le (BitVec.le_of_lt hLt)
  have hNat : m.toNat < n.toNat := hLt
  refine ⟨h.insert fun hZero => ?_, fun y => ?_⟩
  · rw [hZero] at hSub
    simp only [BitVec.ofNat_eq_ofNat, BitVec.toNat_ofNat] at hSub
    omega
  · rw [refcnt_insert]
    split
    · next hEq =>
        subst hEq
        rw [hSub, refcnt_of_some hFind]
    · rfl

/-- `rem_ref` of a host. -/
theorem Host.remRefs_taken {host : Host} (h : Positive host.subMap) (cnt : BitVec 32) :
    Taken host.subMap (host.remRefs x cnt).1.subMap x cnt.toNat ∧
      ((host.remRefs x cnt).2 = 0 ↔ refcnt host.subMap x ≤ cnt.toNat) := by
  unfold Host.remRefs
  split
  · next hNone =>
      refine ⟨⟨h, fun y => ?_⟩, by simp [refcnt_of_none hNone]⟩
      split
      · next hEq =>
          subst hEq
          simp [refcnt_of_none hNone]
      · rfl
  · next n hFind =>
      split
      · next hLe =>
          have hNat : n.toNat ≤ cnt.toNat := hLe
          rw [← refcnt_of_some hFind] at hNat
          exact ⟨taken_erase h hNat, by simpa using hNat⟩
      · next hGt =>
          have hLt : cnt < n := BitVec.not_le.mp hGt
          refine ⟨taken_insert h hFind hLt, ?_⟩
          have hNat : cnt.toNat < n.toNat := hLt
          rw [refcnt_of_some hFind]
          constructor
          · intro hZero
            replace hZero : n - cnt = 0 := hZero
            have hSub : (n - cnt).toNat = n.toNat - cnt.toNat :=
              BitVec.toNat_sub_of_le (BitVec.le_of_lt hLt)
            rw [hZero] at hSub
            simp only [BitVec.ofNat_eq_ofNat, BitVec.toNat_ofNat] at hSub
            omega
          · intro hLe
            omega

theorem Host.addRef_refcnt {host : Host} (h : Positive host.subMap)
    (hBound : refcnt host.subMap x + 1 < 2 ^ 32) :
    Positive (host.addRef x).1.subMap ∧ ∀ y,
      refcnt (host.addRef x).1.subMap y = refcnt host.subMap y + if y = x then 1 else 0 :=
  ⟨h.insert (add_one_ne_zero hBound), fun _ => refcnt_insert_add_one hBound rfl⟩

/-- The tables of a daemon session: the subjects stand behind the prefix, and none is
without references. -/
structure Service.Keyed (s : Service) : Prop where
  subTab : Positive s.subTab
  patTab : Positive s.patTab
  keys : ∀ x, 0 < s.own x → ∃ sub, sub ≠ [] ∧ x = s.pre ++ sub

variable {env : Env} {s s' : Service} {m : Envelope}

theorem Service.own_pos_of_sub (h : Positive s.subTab) (hFind : s.subTab.find? x = some n) :
    0 < s.own x := by
  have hPos := h.contains_iff.mp (Table.contains_iff.mpr ⟨n, hFind⟩)
  unfold Service.own
  omega

theorem Service.own_pos_of_pat (h : Positive s.patTab) (hFind : s.patTab.find? x = some n) :
    0 < s.own x := by
  have hPos := h.contains_iff.mp (Table.contains_iff.mpr ⟨n, hFind⟩)
  unfold Service.own
  omega

/-- One more reference in one of the tables. -/
def Service.Gains (s s' : Service) (x : Text) : Prop :=
  Positive s'.subTab ∧ Positive s'.patTab ∧ ∀ y, s'.own y = s.own y + if y = x then 1 else 0

/-- One reference less in one of the tables. -/
def Service.Loses (s s' : Service) (x : Text) : Prop :=
  Positive s'.subTab ∧ Positive s'.patTab ∧ ∀ y, s.own y = s'.own y + if y = x then 1 else 0

theorem putSub_gains (hSub : Positive s.subTab) (hPat : Positive s.patTab)
    (hBound : s.own x + 1 < 2 ^ 32) : s.Gains (putSub s x).1 x ∧ (putSub s x).2 ≠ 0 := by
  have hOwn : refcnt s.subTab x + 1 < 2 ^ 32 := by
    unfold Service.own at hBound
    omega
  have hTable : ∀ n, (s.subTab.find? x).getD 0 = n →
      s.Gains { s with subTab := s.subTab.insert x (n + 1) } x ∧ n + 1 ≠ 0 := by
    intro n hn
    have hNe : n + 1 ≠ 0 := add_one_ne_zero (by rwa [← hn])
    refine ⟨⟨hSub.insert hNe, hPat, fun y => ?_⟩, hNe⟩
    have hGain : refcnt (s.subTab.insert x (n + 1)) y = _ := refcnt_insert_add_one hOwn hn
    simp only [Service.own, hGain]
    omega
  unfold putSub
  split
  · next n hFind => exact hTable n (by rw [hFind]; rfl)
  · next hFind => exact hTable 0 (by rw [hFind]; rfl)

theorem putPattern_gains (hSub : Positive s.subTab) (hPat : Positive s.patTab)
    (hBound : s.own x + 1 < 2 ^ 32) (hCompiles : env.converts x = true → env.compiles x = true) :
    putPattern env s x = (s, 0) ∨
      (s.Gains (putPattern env s x).1 x ∧ (putPattern env s x).2 ≠ 0) := by
  have hOwn : refcnt s.patTab x + 1 < 2 ^ 32 := by
    unfold Service.own at hBound
    omega
  have hTable : ∀ n, (s.patTab.find? x).getD 0 = n →
      s.Gains { s with patTab := s.patTab.insert x (n + 1) } x ∧ n + 1 ≠ 0 := by
    intro n hn
    have hNe : n + 1 ≠ 0 := add_one_ne_zero (by rwa [← hn])
    refine ⟨⟨hSub, hPat.insert hNe, fun y => ?_⟩, hNe⟩
    have hGain : refcnt (s.patTab.insert x (n + 1)) y = _ := refcnt_insert_add_one hOwn hn
    simp only [Service.own, hGain]
    omega
  unfold putPattern
  split
  · next hConverts =>
      refine .inr ?_
      split
      · next n hFind => exact hTable n (by rw [hFind]; rfl)
      · next hFind =>
          rw [if_pos (hCompiles hConverts)]
          exact hTable 0 (by rw [hFind]; rfl)
  · exact .inl rfl

/-- An `L` message adds one reference, or none to a pattern that is none. -/
theorem enterSub_gains (hSub : Positive s.subTab) (hPat : Positive s.patTab)
    (hBound : s.own (s.pre ++ m.sub) + 1 < 2 ^ 32)
    (hCompiles : m.isWild = true → env.converts (s.pre ++ m.sub) = true →
      env.compiles (s.pre ++ m.sub) = true) :
    enterSub env s m = (s, 0) ∨
      (s.Gains (enterSub env s m).1 (s.pre ++ m.sub) ∧ (enterSub env s m).2 ≠ 0) := by
  unfold enterSub
  split
  · next hWild => exact putPattern_gains hSub hPat hBound (hCompiles hWild)
  · exact .inr (putSub_gains hSub hPat hBound)

/-- Taking one reference off a table. -/
theorem taken_one (h : Positive t) (hFind : t.find? x = some n) :
    Taken t (if n = 1 then t.erase x else t.insert x (n - 1)) x 1 ∧ 1 ≤ refcnt t x := by
  have hPos : 1 ≤ refcnt t x := h.contains_iff.mp (Table.contains_iff.mpr ⟨n, hFind⟩)
  refine ⟨?_, hPos⟩
  rw [refcnt_of_some hFind] at hPos
  split
  · next hOne =>
      subst hOne
      exact taken_erase h (by rw [refcnt_of_some hFind]; decide)
  · next hNe =>
      have hLt : (1 : BitVec 32) < n := by
        rw [BitVec.lt_def]
        have hNat : n.toNat ≠ 1 := fun hEq => hNe (BitVec.eq_of_toNat_eq hEq)
        show 1 < n.toNat
        omega
      exact taken_insert h hFind hLt

theorem sub_one_ne_notFound (h : n ≠ 0) : n - 1 ≠ notFound := by
  intro hEq
  have hNat := toNat_sub_one h
  rw [hEq, notFound, BitVec.toNat_allOnes] at hNat
  have hLt := n.isLt
  omega

theorem remSubTab_loses (hSub : Positive s.subTab) (hPat : Positive s.patTab) :
    remSubTab s x = (s, notFound) ∨
      (s.Loses (remSubTab s x).1 x ∧ (remSubTab s x).2 ≠ notFound) := by
  unfold remSubTab
  split
  · exact .inl rfl
  · next n hFind =>
      obtain ⟨⟨hPos, hCount⟩, hOne⟩ := taken_one hSub hFind
      refine .inr ?_
      have hLoses : ∀ y, s.own y = refcnt (if n = 1 then s.subTab.erase x
          else s.subTab.insert x (n - 1)) y + refcnt s.patTab y + if y = x then 1 else 0 := by
        intro y
        rw [hCount y]
        unfold Service.own
        split
        · next hEq =>
            subst hEq
            omega
        · omega
      by_cases hEq : n = 1
      · simp only [hEq, if_true] at hPos hLoses ⊢
        exact ⟨⟨hPos, hPat, hLoses⟩, by decide⟩
      · simp only [hEq, if_false] at hPos hLoses ⊢
        exact ⟨⟨hPos, hPat, hLoses⟩, sub_one_ne_notFound (hSub x n hFind)⟩

theorem remPattern_loses (hSub : Positive s.subTab) (hPat : Positive s.patTab) :
    remPattern env s x = (s, notFound) ∨
      (s.Loses (remPattern env s x).1 x ∧ (remPattern env s x).2 ≠ notFound) := by
  unfold remPattern
  split
  · split
    · exact .inl rfl
    · next n hFind =>
        obtain ⟨⟨hPos, hCount⟩, hOne⟩ := taken_one hPat hFind
        refine .inr ?_
        have hLoses : ∀ y, s.own y = refcnt s.subTab y + refcnt (if n = 1 then s.patTab.erase x
            else s.patTab.insert x (n - 1)) y + if y = x then 1 else 0 := by
          intro y
          rw [hCount y]
          unfold Service.own
          split
          · next hEq =>
              subst hEq
              omega
          · omega
        by_cases hEq : n = 1
        · simp only [hEq, if_true] at hPos hLoses ⊢
          exact ⟨⟨hSub, hPos, hLoses⟩, by decide⟩
        · simp only [hEq, if_false] at hPos hLoses ⊢
          exact ⟨⟨hSub, hPos, hLoses⟩, sub_one_ne_notFound (hPat x n hFind)⟩
  · exact .inl rfl

/-- A `C` message takes one reference off, or none of a subject that is not there. -/
theorem leaveSub_loses (hSub : Positive s.subTab) (hPat : Positive s.patTab) :
    leaveSub env s m = (s, notFound) ∨
      (s.Loses (leaveSub env s m).1 (s.pre ++ m.sub) ∧ (leaveSub env s m).2 ≠ notFound) := by
  unfold leaveSub
  split
  · exact remPattern_loses hSub hPat
  · exact remSubTab_loses hSub hPat

theorem Service.own_congr (hSub : s'.subTab = s.subTab) (hPat : s'.patTab = s.patTab) (x : Text) :
    s'.own x = s.own x := by
  simp only [Service.own, hSub, hPat]

theorem enterSub_sent (env : Env) (s : Service) (m : Envelope) : (enterSub env s m).1.sent = s.sent := by
  unfold enterSub putPattern putSub
  repeat' split
  all_goals rfl

theorem leaveSub_sent (env : Env) (s : Service) (m : Envelope) : (leaveSub env s m).1.sent = s.sent := by
  unfold leaveSub remPattern remSubTab
  repeat' split
  all_goals rfl

/-- An `L` message of a session of its own leaves the host alone. -/
theorem addSub_session (hDaemon : s.isDaemon = false) (h : addSub env s m = .ok s') :
    s'.host = s.host ∧ ∀ sub, .listenStop sub ∈ s'.sent → .listenStop sub ∈ s.sent := by
  have hKeep := (enterSub_fixed env s m).isDaemon.trans hDaemon
  simp only [addSub, addHostRef, hKeep, Bool.false_eq_true, and_false, if_false, bind_eq_ok] at h
  obtain ⟨r, hRef, hSend⟩ := h
  cases hRef
  unfold sendListenStart at hSend
  split at hSend
  · simp only [bind_eq_ok, pure_eq_ok] at hSend
    obtain ⟨-, -, rfl⟩ := hSend
    refine ⟨enterSub_host m, fun sub hMem => ?_⟩
    simpa [Service.send, enterSub_sent] using hMem
  · cases hSend
    exact ⟨enterSub_host m, fun sub hMem => by rwa [enterSub_sent] at hMem⟩

/-- An `L` message of a daemon session: the reference is one of the host too. -/
theorem addSub_daemon {host : Host} (hDaemon : s.isDaemon = true) (hHost : s.host = some host)
    (hSub : Positive s.subTab) (hPat : Positive s.patTab)
    (hBound : s.own (s.pre ++ m.sub) + 1 < 2 ^ 32)
    (hCompiles : m.isWild = true → env.converts (s.pre ++ m.sub) = true →
      env.compiles (s.pre ++ m.sub) = true)
    (h : addSub env s m = .ok s') :
    s' = s ∨ (s.Gains s' (s.pre ++ m.sub) ∧ s'.host = some (host.addRef (s.pre ++ m.sub)).1 ∧
      ∀ sub, .listenStop sub ∈ s'.sent → .listenStop sub ∈ s.sent) := by
  simp only [addSub, bind_eq_ok] at h
  obtain ⟨r, hRef, hSend⟩ := h
  rcases enterSub_gains hSub hPat hBound hCompiles with hNone | ⟨hGains, hNe⟩
  · refine .inl ?_
    rw [hNone] at hRef
    simp only [addHostRef, ne_eq, not_true_eq_false, false_and, if_false] at hRef
    cases hRef
    simp only [sendListenStart, ne_eq, not_true_eq_false, if_false] at hSend
    cases hSend
    rfl
  · refine .inr ?_
    have hKeep := (enterSub_fixed env s m).isDaemon.trans hDaemon
    have hAt : (enterSub env s m).1.hostAt = .ok host :=
      hostAt_eq_ok.mpr ((enterSub_host m).trans hHost)
    rw [addHostRef, if_pos ⟨hNe, hKeep⟩, hAt] at hRef
    cases hRef
    unfold sendListenStart at hSend
    split at hSend
    · simp only [bind_eq_ok, pure_eq_ok] at hSend
      obtain ⟨-, -, rfl⟩ := hSend
      refine ⟨hGains, rfl, fun sub hMem => ?_⟩
      simpa [Service.send, Service.setHost, enterSub_sent] using hMem
    · cases hSend
      refine ⟨hGains, rfl, fun sub hMem => ?_⟩
      simpa [Service.setHost, enterSub_sent] using hMem

/-- A `C` message of a session of its own leaves the host alone. -/
theorem remSub_session (hDaemon : s.isDaemon = false) (h : remSub env s m = .ok s') :
    s'.host = s.host := by
  have hKeep := (leaveSub_fixed env s m).isDaemon.trans hDaemon
  simp only [remSub, remHostRef, hKeep, Bool.false_eq_true, and_false, if_false, bind_eq_ok] at h
  obtain ⟨r, hRef, hSend⟩ := h
  cases hRef
  unfold sendListenStop at hSend
  split at hSend
  · simp only [bind_eq_ok, pure_eq_ok] at hSend
    obtain ⟨-, -, rfl⟩ := hSend
    exact leaveSub_host m
  · cases hSend
    exact leaveSub_host m

/-- A `C` message of a daemon session: the host loses the reference too, and says so
when it was the last. -/
theorem remSub_daemon {host : Host} (hDaemon : s.isDaemon = true) (hHost : s.host = some host)
    (hSub : Positive s.subTab) (hPat : Positive s.patTab) (h : remSub env s m = .ok s') :
    s' = s ∨ (s.Loses s' (s.pre ++ m.sub) ∧
      s'.host = some (host.remRefs (s.pre ++ m.sub) 1).1 ∧
      s'.sent = s.sent ++ if (host.remRefs (s.pre ++ m.sub) 1).2 = 0 then [.listenStop m.sub]
        else []) := by
  simp only [remSub, bind_eq_ok] at h
  obtain ⟨r, hRef, hSend⟩ := h
  rcases leaveSub_loses hSub hPat with hNone | ⟨hLoses, hNe⟩
  · refine .inl ?_
    rw [hNone] at hRef
    simp only [remHostRef, ne_eq, not_true_eq_false, false_and, if_false] at hRef
    cases hRef
    have hNot : notFound ≠ 0 := by decide
    rw [sendListenStop, if_neg hNot] at hSend
    cases hSend
    rfl
  · refine .inr ?_
    have hKeep := (leaveSub_fixed env s m).isDaemon.trans hDaemon
    have hAt : (leaveSub env s m).1.hostAt = .ok host :=
      hostAt_eq_ok.mpr ((leaveSub_host m).trans hHost)
    rw [remHostRef, if_pos ⟨hNe, hKeep⟩, hAt] at hRef
    cases hRef
    rw [← Host.remRef_eq]
    unfold sendListenStop at hSend
    split at hSend
    · next hZero =>
        simp only [bind_eq_ok, pure_eq_ok] at hSend
        obtain ⟨-, -, rfl⟩ := hSend
        refine ⟨hLoses, rfl, ?_⟩
        rw [if_pos hZero, ← leaveSub_sent env s m]
        rfl
    · next hZero =>
        cases hSend
        refine ⟨hLoses, rfl, ?_⟩
        rw [if_neg hZero, List.append_nil]
        exact leaveSub_sent env s m

/-- The references to a subject in a list of entries. -/
def listed (entries : List (Text × BitVec 32)) (x : Text) : Nat :=
  (entries.map fun e => if e.1 = x then e.2.toNat else 0).sum

theorem listed_append (left right : List (Text × BitVec 32)) (x : Text) :
    listed (left ++ right) x = listed left x + listed right x := by
  simp [listed]

theorem listed_of_notMem {entries : List (Text × BitVec 32)} (h : ∀ e ∈ entries, e.1 ≠ x) :
    listed entries x = 0 := by
  apply List.sum_eq_zero
  intro k hk
  obtain ⟨e, he, rfl⟩ := List.mem_map.mp hk
  exact if_neg (h e he)

theorem listed_entries (t : Table Text (BitVec 32)) (x : Text) : listed t.entries x = refcnt t x := by
  cases hFind : t.find? x with
  | none =>
      rw [refcnt_of_none hFind]
      exact listed_of_notMem (Table.find?_eq_none.mp hFind)
  | some n =>
      have hErase := Table.total_erase (fun y n => if y = x then n.toNat else 0) hFind
      have hRest : listed (t.erase x).entries x = 0 :=
        listed_of_notMem (Table.find?_eq_none.mp (t.find?_erase_self x))
      rw [if_pos rfl] at hErase
      have hTotal : listed (t.erase x).entries x + n.toNat = listed t.entries x := hErase
      rw [refcnt_of_some hFind]
      omega

/-- What the references of a list of entries leave of a daemon session's host: the host
loses them, and says so of the subjects of which it loses the last. -/
structure Stopped (entries : List (Text × BitVec 32)) (s s' : Service) (host host' : Host) :
    Prop where
  toHost : s'.host = some host'
  positive : Positive host'.subMap
  count : ∀ x, refcnt host'.subMap x = refcnt host.subMap x - listed entries x
  sent : ∀ sub, .listenStop sub ∈ s'.sent ↔ .listenStop sub ∈ s.sent ∨
    0 < listed entries (s.pre ++ sub) ∧ refcnt host'.subMap (s.pre ++ sub) = 0

theorem stopSub_stopped {host : Host} {sub : Text} (hDaemon : s.isDaemon = true)
    (hHost : s.host = some host) (hPos : Positive host.subMap) (hn : n ≠ 0) (hSub : sub ≠ []) :
    ∃ host', Stopped [(s.pre ++ sub, n)] s (stopSub s (s.pre ++ sub, n)) host host' := by
  have hTaken : Taken host.subMap (host.remRefs (s.pre ++ sub) n).1.subMap (s.pre ++ sub) n.toNat ∧
      ((host.remRefs (s.pre ++ sub) n).2 = 0 ↔ refcnt host.subMap (s.pre ++ sub) ≤ n.toNat) :=
    Host.remRefs_taken hPos n
  obtain ⟨⟨hPos', hCount⟩, hZero⟩ := hTaken
  have hLong : s.pre.length < (s.pre ++ sub).length := by
    have := List.length_pos_of_ne_nil hSub
    simp only [List.length_append]
    omega
  have hNat : 0 < n.toNat := Nat.pos_of_ne_zero fun h => hn (BitVec.eq_of_toNat_eq h)
  have hListed : ∀ x, listed [(s.pre ++ sub, n)] x = if x = s.pre ++ sub then n.toNat else 0 := by
    intro x
    simp [listed, eq_comm]
  have hStop : stopSub s (s.pre ++ sub, n) =
      if (host.remRefs (s.pre ++ sub) n).2 = 0 then
        (s.setHost (host.remRefs (s.pre ++ sub) n).1).send (.listenStop sub)
      else s.setHost (host.remRefs (s.pre ++ sub) n).1 := by
    simp only [stopSub, hLong, if_true, hHost, hDaemon, List.drop_left]
  have hSent : ∀ sub', .listenStop sub' ∈ (stopSub s (s.pre ++ sub, n)).sent ↔
      .listenStop sub' ∈ s.sent ∨ sub' = sub ∧ refcnt host.subMap (s.pre ++ sub) ≤ n.toNat := by
    intro sub'
    rw [hStop, ← hZero]
    split
    · next h => simp [Service.send, Service.setHost, h]
    · next h => simp only [Service.setHost, h, and_false, or_false]
  refine ⟨(host.remRefs (s.pre ++ sub) n).1, ?_, hPos', ?_, ?_⟩
  · rw [hStop]
    split <;> rfl
  · intro x
    rw [hCount, hListed]
  · intro sub'
    rw [hSent sub', hListed, hCount]
    by_cases hEq : sub' = sub
    · subst hEq
      simp only [if_true, true_and]
      have hIff : refcnt host.subMap (s.pre ++ sub') ≤ n.toNat ↔ 0 < n.toNat ∧
          refcnt host.subMap (s.pre ++ sub') - n.toNat = 0 := by
        omega
      rw [hIff]
    · have hNe : s.pre ++ sub' ≠ s.pre ++ sub := fun h => hEq (List.append_cancel_left h)
      simp [hEq, hNe]

/-- The entries are those of a daemon session with the prefix. -/
def Prefixed (pre : Text) (entries : List (Text × BitVec 32)) : Prop :=
  ∀ e ∈ entries, e.2 ≠ 0 ∧ ∃ sub, sub ≠ [] ∧ e.1 = pre ++ sub

/-- The end of a daemon session that has no more references than its host. -/
theorem foldl_stopSub {entries : List (Text × BitVec 32)} {host : Host}
    (hDaemon : s.isDaemon = true) (hHost : s.host = some host) (hPos : Positive host.subMap)
    (hPrefixed : Prefixed s.pre entries) (hLe : ∀ x, listed entries x ≤ refcnt host.subMap x) :
    ∃ host', Stopped entries s (entries.foldl stopSub s) host host' := by
  induction entries generalizing s host with
  | nil => exact ⟨host, hHost, hPos, fun x => rfl, fun sub => by simp [listed]⟩
  | cons e rest ih =>
      obtain ⟨hn, sub, hSub, hKey⟩ := hPrefixed e List.mem_cons_self
      obtain ⟨x, n⟩ := e
      obtain rfl : x = s.pre ++ sub := hKey
      replace hn : n ≠ 0 := hn
      obtain ⟨mid, hMid⟩ := stopSub_stopped hDaemon hHost hPos hn hSub
      have hFixed := stopSub_fixed s (s.pre ++ sub, n)
      have hSum : ∀ y, listed ((s.pre ++ sub, n) :: rest) y =
          listed [(s.pre ++ sub, n)] y + listed rest y :=
        listed_append [(s.pre ++ sub, n)] rest
      have hRest : Prefixed (stopSub s (s.pre ++ sub, n)).pre rest := by
        rw [hFixed.pre]
        exact fun e he => hPrefixed e (List.mem_cons_of_mem _ he)
      obtain ⟨host', hEnd⟩ := ih (hFixed.isDaemon.trans hDaemon) hMid.toHost hMid.positive hRest (by
        intro y
        have hy := hLe y
        rw [hSum] at hy
        rw [hMid.count]
        omega)
      refine ⟨host', hEnd.toHost, hEnd.positive, fun y => ?_, fun sub' => ?_⟩
      · rw [hEnd.count, hMid.count, hSum]
        omega
      · have hy := hLe (s.pre ++ sub')
        have hMidCount := hMid.count (s.pre ++ sub')
        have hEndCount := hEnd.count (s.pre ++ sub')
        rw [hSum] at hy ⊢
        rw [List.foldl_cons, hEnd.sent, hMid.sent, hFixed.pre]
        by_cases hOld : .listenStop sub' ∈ s.sent
        · simp only [hOld, true_or]
        · simp only [hOld, false_or]
          omega

end Sassrv.Daemon
