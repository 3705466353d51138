import Sassrv.Ft.Member

/-! The intervals that `start_hb` takes over from a peer and the delays that
`set_timer` arms, in the words of the code. Both compute in 32 bits with
numbers that come from the network. -/
namespace Sassrv.Ft
namespace RvFt

variable {f g : RvFt} {hbIval actIval prepIval : Nat}

/-- An interval of a message replaces the own one unless it is zero. -/
def adopt (own ival : Nat) : Nat := if ival ≠ 0 then ival else own

/-- "adjust activate", on words and on unbounded numbers. -/
def wordActivate (hb act : Nat) : Nat := if act ≤ hb then (hb * 2 + hb / 10) % 2 ^ 32 else act

def exactActivate (hb act : Nat) : Nat := if act ≤ hb then hb * 2 + hb / 10 else act

/-- "adjust prepare" -/
def wordPrepare (hb act prep : Nat) : Nat :=
  if prep ≠ 0 ∧ (prep < hb ∨ prep ≥ act) then (hb + act) % 2 ^ 32 / 2 else prep

def exactPrepare (hb act prep : Nat) : Nat :=
  if prep ≠ 0 ∧ (prep < hb ∨ prep ≥ act) then (hb + act) / 2 else prep

/-- `start_hb` in unbounded arithmetic. -/
def exactIntervals (f : RvFt) (hbIval actIval prepIval : Nat) : Nat × Nat × Nat :=
  let heartbeatMs := adopt f.heartbeatMs hbIval
  let activateMs := exactActivate heartbeatMs (adopt f.activateMs actIval)
  (heartbeatMs, activateMs, exactPrepare heartbeatMs activateMs (adopt f.prepareMs prepIval))

/-- The three intervals of an instance. -/
def intervals (f : RvFt) : Nat × Nat × Nat := (f.heartbeatMs, f.activateMs, f.prepareMs)

/-- Heartbeats come before the activation, and a preparation in between. -/
def Graded (ivals : Nat × Nat × Nat) : Prop :=
  ivals.1 < ivals.2.1 ∧ (ivals.2.2 = 0 ∨ ivals.1 ≤ ivals.2.2 ∧ ivals.2.2 < ivals.2.1)

instance (ivals : Nat × Nat × Nat) : Decidable (Graded ivals) := inferInstanceAs (Decidable (_ ∧ _))

/-- The sums that `start_hb` makes of the adopted intervals fit in a word. -/
def SumsFit (f : RvFt) (hbIval actIval prepIval : Nat) : Prop :=
  let hb := adopt f.heartbeatMs hbIval
  let act := exactActivate hb (adopt f.activateMs actIval)
  let prep := adopt f.prepareMs prepIval
  (adopt f.activateMs actIval ≤ hb → hb * 2 + hb / 10 < 2 ^ 32) ∧
  (prep ≠ 0 ∧ (prep < hb ∨ prep ≥ act) → hb + act < 2 ^ 32)

instance (f : RvFt) (hbIval actIval prepIval : Nat) : Decidable (f.SumsFit hbIval actIval prepIval) :=
  inferInstanceAs (Decidable (_ ∧ _))

theorem hbIntervals_eq (f : RvFt) (hbIval actIval prepIval : Nat) :
    f.hbIntervals hbIval actIval prepIval =
      let hb := adopt f.heartbeatMs hbIval
      let act := wordActivate hb (adopt f.activateMs actIval)
      (hb, act, wordPrepare hb act (adopt f.prepareMs prepIval)) := rfl

theorem wordActivate_iff (hb act : Nat) :
    wordActivate hb act = exactActivate hb act ↔ (act ≤ hb → hb * 2 + hb / 10 < 2 ^ 32) := by
  unfold wordActivate exactActivate
  split
  · next hLow => exact ⟨fun h _ => by omega, fun h => Nat.mod_eq_of_lt (h hLow)⟩
  · next hHigh => exact ⟨fun _ h => absurd h hHigh, fun _ => rfl⟩

theorem wordPrepare_iff (hb act prep : Nat) :
    wordPrepare hb act prep = exactPrepare hb act prep ↔
      (prep ≠ 0 ∧ (prep < hb ∨ prep ≥ act) → hb + act < 2 ^ 32) := by
  unfold wordPrepare exactPrepare
  split
  · next hOut => exact ⟨fun h _ => by omega, fun h => by rw [Nat.mod_eq_of_lt (h hOut)]⟩
  · next hIn => exact ⟨fun _ h => absurd h hIn, fun _ => rfl⟩

/-- The code's words hold the exact numbers if the sums fit, and only then. -/
theorem hbIntervals_exact_iff (f : RvFt) (hbIval actIval prepIval : Nat) :
    f.hbIntervals hbIval actIval prepIval = f.exactIntervals hbIval actIval prepIval ↔
      f.SumsFit hbIval actIval prepIval := by
  rw [hbIntervals_eq]
  unfold exactIntervals SumsFit
  dsimp only
  rw [Prod.mk.injEq, Prod.mk.injEq]
  constructor
  · rintro ⟨-, hAct, hPrep⟩
    rw [hAct, wordPrepare_iff] at hPrep
    exact ⟨(wordActivate_iff _ _).mp hAct, hPrep⟩
  · rintro ⟨hFit, hSum⟩
    have hAct := (wordActivate_iff _ _).mpr hFit
    rw [hAct, wordPrepare_iff]
    exact ⟨rfl, rfl, hSum⟩

theorem exactActivate_gt {hb : Nat} (hPos : 0 < hb) (act : Nat) : hb < exactActivate hb act := by
  unfold exactActivate
  split <;> omega

theorem exactPrepare_between {hb act : Nat} (hLess : hb < act) (prep : Nat) :
    exactPrepare hb act prep = 0 ∨ hb ≤ exactPrepare hb act prep ∧ exactPrepare hb act prep < act := by
  unfold exactPrepare
  split <;> omega

theorem adopt_pos {own : Nat} (hPos : 0 < own) (ival : Nat) : 0 < adopt own ival := by
  unfold adopt
  split <;> omega

theorem exactIntervals_graded (hPos : 0 < f.heartbeatMs) (hbIval actIval prepIval : Nat) :
    Graded (f.exactIntervals hbIval actIval prepIval) := by
  have hLess := exactActivate_gt (adopt_pos hPos hbIval) (adopt f.activateMs actIval)
  exact ⟨hLess, exactPrepare_between hLess (adopt f.prepareMs prepIval)⟩

theorem cancelTimer_intervals (f : RvFt) (action : FtAction) :
    (f.cancelTimer action).intervals = f.intervals := by
  unfold cancelTimer
  split <;> rfl

theorem startHb_intervals (f : RvFt) (hbIval actIval prepIval : Nat) :
    (f.startHb hbIval actIval prepIval).intervals = f.hbIntervals hbIval actIval prepIval := by
  have hArm : ∀ g : RvFt,
      (if g.timerMask .heartbeat then g
        else { g.addTimer .heartbeat with lastHbNs := g.monoNs }).intervals = g.intervals := by
    intro g
    split <;> rfl
  unfold startHb
  dsimp only
  rw [hArm]
  split
  · rw [cancelTimer_intervals, cancelTimer_intervals, cancelTimer_intervals]
    rfl
  · rfl

theorem adopt_again (own ival : Nat) : adopt (adopt own ival) ival = adopt own ival := by
  unfold adopt
  split <;> rfl

/-- An adjusted interval that is graded is not adjusted again, and one that the
message sets anew is adjusted to the same value. -/
theorem wordActivate_again {hb own ival : Nat} (h : hb < wordActivate hb (adopt own ival)) :
    wordActivate hb (adopt (wordActivate hb (adopt own ival)) ival) =
      wordActivate hb (adopt own ival) := by
  by_cases hIval : ival ≠ 0
  · have hSame : ∀ x, adopt x ival = ival := fun x => if_pos hIval
    rw [hSame, hSame]
  · have hKeep : ∀ x, adopt x ival = x := fun x => if_neg hIval
    rw [hKeep] at h ⊢
    rw [hKeep, wordActivate, if_neg (Nat.not_le.mpr h)]

theorem wordPrepare_again {hb act own ival : Nat}
    (h : wordPrepare hb act (adopt own ival) = 0 ∨
      hb ≤ wordPrepare hb act (adopt own ival) ∧ wordPrepare hb act (adopt own ival) < act) :
    wordPrepare hb act (adopt (wordPrepare hb act (adopt own ival)) ival) =
      wordPrepare hb act (adopt own ival) := by
  by_cases hIval : ival ≠ 0
  · have hSame : ∀ x, adopt x ival = ival := fun x => if_pos hIval
    rw [hSame, hSame]
  · have hKeep : ∀ x, adopt x ival = x := fun x => if_neg hIval
    rw [hKeep] at h ⊢
    rw [hKeep]
    generalize wordPrepare hb act own = prep at h ⊢
    rw [wordPrepare, if_neg (by omega)]

/-- A second call with the same arguments leaves graded intervals alone. -/
theorem startHb_again (f : RvFt) (hbIval actIval prepIval : Nat)
    (hGraded : Graded (f.startHb hbIval actIval prepIval).intervals) :
    ((f.startHb hbIval actIval prepIval).startHb hbIval actIval prepIval).intervals =
      (f.startHb hbIval actIval prepIval).intervals := by
  have hIvals := startHb_intervals f hbIval actIval prepIval
  rw [startHb_intervals]
  generalize f.startHb hbIval actIval prepIval = g at hIvals hGraded ⊢
  rw [hIvals, hbIntervals_eq] at hGraded
  obtain ⟨hLess, hPrep⟩ := hGraded
  have hHb : g.heartbeatMs = _ := congrArg Prod.fst hIvals
  have hAct : g.activateMs = _ := congrArg (fun i => i.2.1) hIvals
  have hPre : g.prepareMs = _ := congrArg (fun i => i.2.2) hIvals
  rw [hIvals, hbIntervals_eq, hHb, hAct, hPre, hbIntervals_eq]
  dsimp only at hLess hPrep ⊢
  rw [adopt_again, wordActivate_again hLess, wordPrepare_again hPrep]

/-- What `start_hb` leaves behind: the intervals of unbounded arithmetic,
graded, and the same after a second call. -/
def AdoptsWell (f : RvFt) (hbIval actIval prepIval : Nat) : Prop :=
  let g := f.startHb hbIval actIval prepIval
  g.intervals = f.exactIntervals hbIval actIval prepIval ∧ Graded g.intervals ∧
    (g.startHb hbIval actIval prepIval).intervals = g.intervals

theorem adoptsWell_iff (hPos : 0 < f.heartbeatMs) (hbIval actIval prepIval : Nat) :
    f.AdoptsWell hbIval actIval prepIval ↔ f.SumsFit hbIval actIval prepIval := by
  rw [← hbIntervals_exact_iff, ← startHb_intervals]
  refine ⟨fun h => h.1, fun hExact => ?_⟩
  have hGraded : Graded (f.startHb hbIval actIval prepIval).intervals := by
    rw [hExact]
    exact exactIntervals_graded hPos hbIval actIval prepIval
  exact ⟨hExact, hGraded, startHb_again f hbIval actIval prepIval hGraded⟩

/-- An instance with the default intervals. -/
def defaultIntervals : RvFt where
  client := ⟨fun _ => [], fun _ => 0⟩
  heartbeatMs := 3000
  activateMs := 7000
  prepareMs := 6500

/-- A heartbeat of 8 s needs a later activation and preparation. -/
theorem adoptsWell_eightSeconds : defaultIntervals.AdoptsWell 8000 0 0 :=
  (adoptsWell_iff (by decide) 8000 0 0).mpr (by decide)

/-- A peer imposes a heartbeat of 2^31 ms, and the doubled interval wraps. -/
theorem adopts_can_wrap : ¬ ∀ (f : RvFt) (hbIval actIval prepIval : Nat), 0 < f.heartbeatMs →
    f.heartbeatMs < 2 ^ 32 → f.activateMs < 2 ^ 32 → f.prepareMs < 2 ^ 32 → hbIval < 2 ^ 32 →
    actIval < 2 ^ 32 → prepIval < 2 ^ 32 → f.AdoptsWell hbIval actIval prepIval := by
  intro h
  obtain ⟨-, hGraded, -⟩ := h defaultIntervals (2 ^ 31) 0 0 (by decide) (by decide) (by decide)
    (by decide) (by decide) (by decide) (by decide)
  rw [startHb_intervals] at hGraded
  revert hGraded
  decide

end RvFt
end Sassrv.Ft
