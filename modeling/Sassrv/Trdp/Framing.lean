import Sassrv.Trdp.Window

/-! The payload stream that `output` cuts into rv messages, as an automaton
over the reassembly state. `output` returns on a payload exactly when the
automaton has a transition for it. -/
namespace Sassrv.Trdp

/-- Between messages, or inside one with `off` of its `len` bytes present. -/
inductive Pending where
  | between
  | inside (off len : Nat)

def TrdpWindow.pending (w : TrdpWindow) : Pending :=
  if w.outputLen = 0 then .between else .inside w.outputOff.toNat w.outputLen.toNat

/-- A payload that starts between messages is a row of rv messages of
non-zero size. It ends in fewer than eight stray bytes or in a message that
continues in later payloads. -/
inductive Framed : Bytes → Pending → Prop where
  | stray {data : Bytes} (hShort : data.length < 8) : Framed data .between
  | opens {data : Bytes} (hLong : 8 ≤ data.length) (hMagic : wordAt data 4 = rvMagic)
      (hSize : data.length < (wordAt data 0).toNat) :
      Framed data (.inside data.length (wordAt data 0).toNat)
  | message {data : Bytes} {after : Pending} (hLong : 8 ≤ data.length)
      (hMagic : wordAt data 4 = rvMagic) (hPos : 0 < (wordAt data 0).toNat)
      (hSize : (wordAt data 0).toNat ≤ data.length)
      (rest : Framed (data.drop (wordAt data 0).toNat) after) : Framed data after

/-- One payload. Inside a message it must fit what is missing, otherwise the
code drops it. -/
inductive Accepts : Pending → Bytes → Pending → Prop where
  | framed {data : Bytes} {after : Pending} (h : Framed data after) :
      Accepts .between data after
  | grows {off len : Nat} {data : Bytes} (h : off + data.length < len) :
      Accepts (.inside off len) data (.inside (off + data.length) len)
  | completes {off len : Nat} {data : Bytes} (h : off + data.length = len) :
      Accepts (.inside off len) data .between
  | drops {off len : Nat} {data : Bytes} (h : len < off + data.length) :
      Accepts (.inside off len) data (.inside off len)

inductive AcceptsAll : Pending → List Bytes → Pending → Prop where
  | nil (p : Pending) : AcceptsAll p [] p
  | cons {p q r : Pending} {data : Bytes} {rest : List Bytes}
      (head : Accepts p data q) (tail : AcceptsAll q rest r) :
      AcceptsAll p (data :: rest) r

theorem Framed.unique {data : Bytes} {p q : Pending} (hp : Framed data p)
    (hq : Framed data q) : p = q := by
  induction hp with
  | stray hShort =>
      cases hq with
      | stray => rfl
      | opens => omega
      | message => omega
  | opens hLong _ hSize =>
      cases hq with
      | stray => omega
      | opens => rfl
      | message => omega
  | message hLong _ _ hSize _ ih =>
      cases hq with
      | stray => omega
      | opens => omega
      | message _ _ _ _ rest => exact ih rest

theorem Accepts.unique {start p q : Pending} {data : Bytes} (hp : Accepts start data p)
    (hq : Accepts start data q) : p = q := by
  cases hp with
  | framed h => cases hq with | framed h' => exact h.unique h'
  | grows h =>
      cases hq with
      | grows => rfl
      | completes h' => omega
      | drops h' => omega
  | completes h =>
      cases hq with
      | grows h' => omega
      | completes => rfl
      | drops h' => omega
  | drops h =>
      cases hq with
      | grows h' => omega
      | completes h' => omega
      | drops => rfl

/-- More fuel does not change a finished loop. -/
theorem outputLoop_mono {fuel more : Nat} (hMore : fuel ≤ more) {w : TrdpWindow}
    {sent : List Bytes} {data : Bytes} {result : TrdpWindow × List Bytes}
    (h : outputLoop fuel w sent data = some result) :
    outputLoop more w sent data = some result := by
  induction fuel generalizing more sent data with
  | zero => simp [outputLoop] at h
  | succ fuel ih =>
      obtain ⟨more, rfl⟩ : ∃ m, more = m + 1 := ⟨more - 1, by omega⟩
      have hLe : fuel ≤ more := by omega
      simp only [outputLoop] at h ⊢
      split at h
      · rename_i hMagic
        rw [if_pos hMagic]
        split at h
        · rename_i hSize
          rw [if_pos hSize]
          split at h
          · rename_i hRest
            rw [if_pos hRest]
            exact h
          · rename_i hRest
            rw [if_neg hRest]
            exact ih hLe h
        · rename_i hSize
          rw [if_neg hSize]
          exact h
      · rename_i hMagic
        rw [if_neg hMagic]
        exact ih hLe h

/-- The loop leaves everything but the reassembly fields of the window. -/
def SameWindow (w v : TrdpWindow) : Prop :=
  v = { w with outputLen := v.outputLen, outputOff := v.outputOff, outputBuf := v.outputBuf }

theorem SameWindow.refl (w : TrdpWindow) : SameWindow w w := rfl

theorem SameWindow.trans {u v w : TrdpWindow} (huv : SameWindow u v) (hvw : SameWindow v w) :
    SameWindow u w := by
  unfold SameWindow at *
  rw [hvw, huv]

theorem SameWindow.lastSeqno {w v : TrdpWindow} (h : SameWindow w v) :
    v.lastSeqno = w.lastSeqno := by rw [h]

theorem SameWindow.lastMonoTime {w v : TrdpWindow} (h : SameWindow w v) :
    v.lastMonoTime = w.lastMonoTime := by rw [h]

theorem SameWindow.list {w v : TrdpWindow} (h : SameWindow w v) : v.list = w.list := by rw [h]

theorem SameWindow.tsid {w v : TrdpWindow} (h : SameWindow w v) : v.tsid = w.tsid := by rw [h]

/-- A finished loop has read a framed payload and ends in its state. -/
theorem outputLoop_framed {fuel : Nat} {w v : TrdpWindow} {sent out : List Bytes}
    {data : Bytes} (hLong : 8 ≤ data.length) (hLen : data.length < 2 ^ 32)
    (hBetween : w.outputLen = 0)
    (h : outputLoop fuel w sent data = some (v, out)) :
    Framed data v.pending ∧ SameWindow w v := by
  induction fuel generalizing sent data with
  | zero => simp [outputLoop] at h
  | succ fuel ih =>
      simp only [outputLoop] at h
      split at h
      · rename_i hMagic
        split at h
        · rename_i hSize
          split at h
          · rename_i hRest
            obtain ⟨rfl, -⟩ := Prod.mk.inj (Option.some.inj h)
            have hPos : 0 < (wordAt data 0).toNat := by
              by_contra hZero
              simp [Nat.eq_zero_of_not_pos hZero] at hRest
              omega
            refine ⟨.message hLong hMagic hPos hSize ?_, SameWindow.refl w⟩
            rw [TrdpWindow.pending, if_pos hBetween]
            exact .stray hRest
          · rename_i hRest
            have hShorter : (data.drop (wordAt data 0).toNat).length < 2 ^ 32 := by
              rw [List.length_drop]
              omega
            by_cases hPos : 0 < (wordAt data 0).toNat
            · obtain ⟨hFramed, hSame⟩ := ih (by omega) hShorter h
              exact ⟨.message hLong hMagic hPos hSize hFramed, hSame⟩
            · have hZero := Nat.eq_zero_of_not_pos hPos
              rw [hZero, List.drop_zero] at h
              exact ih hLong hLen h
        · rename_i hSize
          obtain ⟨rfl, -⟩ := Prod.mk.inj (Option.some.inj h)
          refine ⟨?_, rfl⟩
          have hOpen := Framed.opens hLong hMagic (by omega)
          have hNonzero : wordAt data 0 ≠ 0 := by
            intro hZero
            simp [hZero] at hSize
          rw [TrdpWindow.pending, if_neg hNonzero]
          simpa only [BitVec.toNat_ofNat, Nat.mod_eq_of_lt hLen] using hOpen
      · exact ih hLong hLen h

/-- The loop finishes on every framed payload. -/
theorem outputLoop_of_framed {data : Bytes} {after : Pending} (hFramed : Framed data after)
    (hLong : 8 ≤ data.length) (w : TrdpWindow) (sent : List Bytes) :
    ∃ fuel result, outputLoop fuel w sent data = some result := by
  induction hFramed generalizing sent with
  | stray hShort => omega
  | opens _ hMagic hSize =>
      refine ⟨1, ?_⟩
      simp only [outputLoop]
      rw [if_pos hMagic, if_neg (by omega)]
      exact ⟨_, rfl⟩
  | @message data after _ hMagic hPos hSize rest ih =>
      by_cases hRest : (data.drop (wordAt data 0).toNat).length < 8
      · refine ⟨1, ?_⟩
        simp only [outputLoop]
        rw [if_pos hMagic, if_pos hSize, if_pos hRest]
        exact ⟨_, rfl⟩
      · obtain ⟨fuel, result, hLoop⟩ := ih (by omega) (sent ++ [data.take (wordAt data 0).toNat])
        refine ⟨fuel + 1, result, ?_⟩
        simp only [outputLoop]
        rw [if_pos hMagic, if_pos hSize, if_neg hRest]
        exact hLoop

theorem output_mono {fuel more : Nat} (hMore : fuel ≤ more) {w : TrdpWindow} {data : Bytes}
    {result : TrdpWindow × List Bytes} (h : w.output fuel data = some result) :
    w.output more data = some result := by
  unfold TrdpWindow.output at h ⊢
  split at h
  · rename_i hInside
    rw [if_pos hInside]
    exact h
  · rename_i hBetween
    rw [if_neg hBetween]
    split at h
    · rename_i hLong
      rw [if_pos hLong]
      exact outputLoop_mono hMore h
    · rename_i hLong
      rw [if_neg hLong]
      exact h

/-- A returned `output` call took the automaton's transition and changed only
the reassembly fields. Payloads are shorter than 2^16 bytes, their length
being a 16-bit field. -/
theorem output_accepts {fuel : Nat} {w v : TrdpWindow} {data : Bytes} {out : List Bytes}
    (hLen : data.length < 2 ^ 32) (h : w.output fuel data = some (v, out)) :
    Accepts w.pending data v.pending ∧ SameWindow w v := by
  simp only [TrdpWindow.output] at h
  split at h
  · rename_i hInside
    have hPending : w.pending = .inside w.outputOff.toNat w.outputLen.toNat := by
      rw [TrdpWindow.pending, if_neg hInside]
    rw [hPending]
    split at h
    · rename_i hFits
      have hSum : (w.outputOff + BitVec.ofNat 32 data.length).toNat =
          w.outputOff.toNat + data.length := by
        have hTop := w.outputLen.isLt
        rw [BitVec.toNat_add, BitVec.toNat_ofNat, Nat.mod_eq_of_lt hLen]
        exact Nat.mod_eq_of_lt (by omega)
      split at h
      · rename_i hFull
        obtain ⟨rfl, -⟩ := Prod.mk.inj (Option.some.inj h)
        refine ⟨.completes ?_, rfl⟩
        rw [← hSum, hFull]
      · rename_i hPart
        obtain ⟨rfl, -⟩ := Prod.mk.inj (Option.some.inj h)
        have hLess : w.outputOff.toNat + data.length < w.outputLen.toNat := by
          have hNe : w.outputOff.toNat + data.length ≠ w.outputLen.toNat := by
            intro hEq
            exact hPart (BitVec.eq_of_toNat_eq (hSum.trans hEq))
          omega
        refine ⟨?_, rfl⟩
        rw [TrdpWindow.pending, if_neg hInside, hSum]
        exact .grows hLess
    · rename_i hFits
      obtain ⟨rfl, -⟩ := Prod.mk.inj (Option.some.inj h)
      rw [hPending]
      exact ⟨.drops (by omega), rfl⟩
  · rename_i hBetween
    have hZero : w.outputLen = 0 := not_not.mp hBetween
    have hPending : w.pending = .between := by rw [TrdpWindow.pending, if_pos hZero]
    split at h
    · rename_i hLong
      obtain ⟨hFramed, hSame⟩ := outputLoop_framed hLong hLen hZero h
      rw [hPending]
      exact ⟨.framed hFramed, hSame⟩
    · rename_i hLong
      obtain ⟨rfl, -⟩ := Prod.mk.inj (Option.some.inj h)
      rw [hPending]
      exact ⟨.framed (.stray (by omega)), rfl⟩

theorem output_of_accepts {w : TrdpWindow} {data : Bytes} {after : Pending}
    (h : Accepts w.pending data after) : ∃ fuel result, w.output fuel data = some result := by
  unfold TrdpWindow.output
  by_cases hBetween : w.outputLen = 0
  · simp only [ne_eq, hBetween, not_true_eq_false, if_false]
    rw [TrdpWindow.pending, if_pos hBetween] at h
    cases h with
    | framed hFramed =>
        by_cases hLong : 8 ≤ data.length
        · simp only [if_pos hLong]
          exact outputLoop_of_framed hFramed hLong w []
        · simp only [if_neg hLong]
          exact ⟨0, _, rfl⟩
  · simp only [ne_eq, hBetween, not_false_eq_true, if_true]
    refine ⟨0, ?_⟩
    split_ifs <;> exact ⟨_, rfl⟩

theorem outputAll_mono {fuel more : Nat} (hMore : fuel ≤ more) {w : TrdpWindow}
    {pkts : List TrdpWindowPkt} {result : TrdpWindow × List Bytes}
    (h : w.outputAll fuel pkts = some result) : w.outputAll more pkts = some result := by
  induction pkts generalizing w result with
  | nil => exact h
  | cons p rest ih =>
      simp only [TrdpWindow.outputAll, Option.bind_eq_bind, Option.bind_eq_some_iff,
        Option.pure_def] at h ⊢
      obtain ⟨first, hFirst, second, hSecond, hResult⟩ := h
      exact ⟨first, output_mono hMore hFirst, second, ih hSecond, hResult⟩

theorem outputAll_accepts {fuel : Nat} {w v : TrdpWindow} {pkts : List TrdpWindowPkt}
    {out : List Bytes} (hLen : ∀ p ∈ pkts, p.data.length < 2 ^ 32)
    (h : w.outputAll fuel pkts = some (v, out)) :
    AcceptsAll w.pending (pkts.map (·.data)) v.pending ∧ SameWindow w v := by
  induction pkts generalizing w out with
  | nil =>
      obtain ⟨rfl, -⟩ := Prod.mk.inj (Option.some.inj h)
      exact ⟨.nil _, SameWindow.refl _⟩
  | cons p rest ih =>
      simp only [TrdpWindow.outputAll, Option.bind_eq_bind, Option.bind_eq_some_iff,
        Option.pure_def, Option.some.injEq] at h
      obtain ⟨⟨middle, sent⟩, hFirst, ⟨final, more⟩, hSecond, hResult⟩ := h
      obtain ⟨rfl, -⟩ := Prod.mk.inj hResult
      obtain ⟨hHead, hSameHead⟩ := output_accepts (hLen p (by simp)) hFirst
      obtain ⟨hTail, hSameTail⟩ := ih (fun q hq => hLen q (by simp [hq])) hSecond
      exact ⟨.cons hHead hTail, hSameHead.trans hSameTail⟩

theorem outputAll_of_accepts {w : TrdpWindow} {pkts : List TrdpWindowPkt} {after : Pending}
    (hLen : ∀ p ∈ pkts, p.data.length < 2 ^ 32)
    (h : AcceptsAll w.pending (pkts.map (·.data)) after) :
    ∃ fuel result, w.outputAll fuel pkts = some result := by
  induction pkts generalizing w with
  | nil => exact ⟨0, _, rfl⟩
  | cons p rest ih =>
      cases h with
      | cons hHead hTail =>
          obtain ⟨first, ⟨v, sent⟩, hOutput⟩ := output_of_accepts hHead
          obtain ⟨hAccepts, -⟩ := output_accepts (hLen p (by simp)) hOutput
          obtain rfl := hHead.unique hAccepts
          obtain ⟨second, ⟨u, more⟩, hRest⟩ := ih (fun q hq => hLen q (by simp [hq])) hTail
          refine ⟨max first second, (u, sent ++ more), ?_⟩
          simp [TrdpWindow.outputAll, output_mono (Nat.le_max_left _ _) hOutput,
            outputAll_mono (Nat.le_max_right _ _) hRest]

end Sassrv.Trdp
