import Sassrv.Lib.Transition

/-! The sub-messages that a message owns, and the marks of `tibrvMsg_MarkReferences`.
A sub-message takes the serial number that the counter has and the counter goes on; a
mark notes the counter, so the first sub-message after it has the number of the mark
and `tibrvMsg_ClearReferences`, which deletes the greater ones, leaves it. -/
namespace Sassrv.Rv7
open Transition

/-- A sub-message. `number` is what tells it from the others that the message ever
made, in the order in which they were made; the code has no such field. -/
structure SubMessage where
  number : Nat
  serial : Nat
  deriving DecidableEq

/-- `serial` counts extractions in 64 bits. -/
structure MsgTether where
  serial : Nat := 0
  msgs : List SubMessage := []
  deriving DecidableEq

/-- A mark, with how many sub-messages had been made before it; the code has no such
count. -/
structure TibrvMsgRef where
  serial : Nat
  made : Nat
  deriving DecidableEq

/-- What a message has of sub-messages and marks; the newest mark is first. -/
structure Owner where
  submsgTether : Option MsgTether := none
  refs : List TibrvMsgRef := []
  made : Nat := 0
  deriving DecidableEq

/-- The sub-messages that the message owns. -/
def Owner.owned (m : Owner) : List SubMessage := (m.submsgTether.map MsgTether.msgs).getD []

/-- `make_submsg`: the first one makes the tether. -/
def Owner.makeSubmsg (m : Owner) : Owner :=
  let t := m.submsgTether.getD {}
  { m with
    submsgTether := some { serial := t.serial + 1, msgs := t.msgs ++ [⟨m.made, t.serial⟩] }
    made := m.made + 1 }

/-- `GetMsg` and `GetField` make one sub-message, `GetMsgArray` one for each element
that it comes to. -/
def Owner.extract (m : Owner) : Nat → Owner
  | 0 => m
  | n + 1 => m.makeSubmsg.extract n

def Owner.markReferences (m : Owner) : Owner :=
  let serial := match m.submsgTether with
    | some t => t.serial
    | none => 0
  { m with refs := ⟨serial, m.made⟩ :: m.refs }

/-- The message afterwards, and the sub-messages that are deleted. -/
def Owner.clearReferences (m : Owner) : Owner × List SubMessage :=
  match m.refs with
  | [] => (m, [])
  | ref :: refs =>
      match m.submsgTether with
      | none => ({ m with refs }, [])
      | some t =>
          ({ m with
              refs
              submsgTether :=
                some { t with msgs := t.msgs.filter fun sub => ¬ ref.serial < sub.serial } },
            t.msgs.filter fun sub => ref.serial < sub.serial)

/-- `tibrvMsg_Detach` of a sub-message. -/
def Owner.detach (m : Owner) (number : Nat) : Owner :=
  { m with
    submsgTether := m.submsgTether.map fun t =>
      { t with msgs := t.msgs.filter fun sub => sub.number ≠ number } }

/-- `release`, of `tibrvMsg_Reset`; the sub-messages go last first. -/
def Owner.release (m : Owner) : Owner × List SubMessage :=
  ({ m with
      refs := []
      submsgTether := m.submsgTether.map fun t => { t with msgs := [] } },
    m.owned.reverse)

inductive RefCall where
  | markReferences
  | extract (count : Nat)
  | detach (number : Nat)
  | clearReferences
  | reset

def Owner.call (m : Owner) : RefCall → Owner × List SubMessage
  | .markReferences => (m.markReferences, [])
  | .extract count => (m.extract count, [])
  | .detach number => (m.detach number, [])
  | .clearReferences => m.clearReferences
  | .reset => m.release

/-- The outputs are the sub-messages that are deleted. -/
def subMessages : System Owner RefCall SubMessage where
  init m := m = {}
  step m call deleted m' := m.call call = (m', deleted)

/-- Serial numbers count what the message makes. -/
structure Numbered (m : Owner) : Prop where
  counter : (m.submsgTether.map MsgTether.serial).getD 0 = m.made
  owned : ∀ sub ∈ m.owned, sub.serial = sub.number
  refs : ∀ ref ∈ m.refs, ref.serial = ref.made

variable {m : Owner}

theorem Numbered.makeSubmsg (h : Numbered m) : Numbered m.makeSubmsg := by
  have hSerial : (m.submsgTether.getD {}).serial = m.made := by
    rw [← h.counter]
    cases m.submsgTether <;> rfl
  have hMsgs : (m.submsgTether.getD {}).msgs = m.owned := by
    rw [Owner.owned]
    cases m.submsgTether <;> rfl
  refine ⟨congrArg (· + 1) hSerial, ?_, h.refs⟩
  intro sub hMem
  rcases List.mem_append.mp hMem with hOld | hNew
  · exact h.owned sub (hMsgs ▸ hOld)
  · rw [List.mem_singleton.mp hNew]
    exact hSerial

theorem Numbered.extract (h : Numbered m) (count : Nat) : Numbered (m.extract count) := by
  induction count generalizing m with
  | zero => exact h
  | succ count ih => exact ih h.makeSubmsg

theorem Numbered.markReferences (h : Numbered m) : Numbered m.markReferences := by
  refine ⟨h.counter, h.owned, fun ref hMem => ?_⟩
  rcases List.mem_cons.mp hMem with rfl | hOld
  · rw [← h.counter]
    cases m.submsgTether <;> rfl
  · exact h.refs ref hOld

theorem clearReferences_of_mark {ref : TibrvMsgRef} {refs : List TibrvMsgRef}
    (hRefs : m.refs = ref :: refs) :
    m.clearReferences.2 = m.owned.filter (fun sub => ref.serial < sub.serial) ∧
      m.clearReferences.1.owned = m.owned.filter (fun sub => ¬ ref.serial < sub.serial) ∧
      m.clearReferences.1.refs = refs := by
  unfold Owner.clearReferences
  rw [hRefs]
  dsimp only
  cases hTether : m.submsgTether with
  | none => simp [Owner.owned, hTether]
  | some t => simp [Owner.owned, hTether]

/-- Nothing is numbered anew when sub-messages and marks go. -/
theorem Numbered.of_fewer {m' : Owner} (h : Numbered m) (hMade : m'.made = m.made)
    (hCounter : m'.submsgTether.map MsgTether.serial = m.submsgTether.map MsgTether.serial)
    (hOwned : ∀ sub ∈ m'.owned, sub ∈ m.owned) (hRefs : ∀ ref ∈ m'.refs, ref ∈ m.refs) :
    Numbered m' :=
  ⟨by rw [hCounter, hMade, h.counter], fun sub hMem => h.owned sub (hOwned sub hMem),
    fun ref hMem => h.refs ref (hRefs ref hMem)⟩

theorem Numbered.clearReferences (h : Numbered m) : Numbered m.clearReferences.1 := by
  cases hRefs : m.refs with
  | nil =>
      have hSame : m.clearReferences.1 = m := by rw [Owner.clearReferences, hRefs]
      rwa [hSame]
  | cons ref refs =>
      obtain ⟨-, hOwned, hLeft⟩ := clearReferences_of_mark hRefs
      refine h.of_fewer ?_ ?_ ?_ ?_
      · rw [Owner.clearReferences, hRefs]
        cases m.submsgTether <;> rfl
      · rw [Owner.clearReferences, hRefs]
        cases m.submsgTether <;> rfl
      · rw [hOwned]
        exact fun sub hMem => List.mem_of_mem_filter hMem
      · rw [hLeft, hRefs]
        exact fun ref hMem => List.mem_cons_of_mem _ hMem

theorem Numbered.detach (h : Numbered m) (number : Nat) : Numbered (m.detach number) := by
  refine h.of_fewer rfl ?_ ?_ fun _ hMem => hMem
  · cases hTether : m.submsgTether <;> simp [Owner.detach, hTether]
  · cases hTether : m.submsgTether with
    | none => simp [Owner.detach, Owner.owned, hTether]
    | some t =>
        simp only [Owner.detach, Owner.owned, hTether, Option.map_some, Option.getD_some]
        exact fun sub hMem => List.mem_of_mem_filter hMem

theorem Numbered.release (h : Numbered m) : Numbered m.release.1 := by
  refine h.of_fewer rfl ?_ ?_ nofun
  · cases hTether : m.submsgTether <;> simp [Owner.release, hTether]
  · cases hTether : m.submsgTether <;> simp [Owner.release, Owner.owned, hTether]

theorem Numbered.call (h : Numbered m) (call : RefCall) : Numbered (m.call call).1 := by
  cases call with
  | markReferences => exact h.markReferences
  | extract count => exact h.extract count
  | detach number => exact h.detach number
  | clearReferences => exact h.clearReferences
  | reset => exact h.release

theorem reachable_numbered (h : subMessages.Reachable m) : Numbered m := by
  refine h.invariant ?_ ?_
  · rintro _ rfl
    exact ⟨rfl, nofun, nofun⟩
  · rintro m call deleted m' hNumbered hCall
    have hNext := hNumbered.call call
    rwa [show m.call call = (m', deleted) from hCall] at hNext

/-- What was made since a mark. -/
def madeSince (ref : TibrvMsgRef) (sub : SubMessage) : Bool := ref.made ≤ sub.number

/-- All that was made since the mark goes but the first. -/
theorem clearReferences_deleted (h : subMessages.Reachable m) {ref : TibrvMsgRef}
    {refs : List TibrvMsgRef} (hRefs : m.refs = ref :: refs) :
    m.clearReferences.2 = m.owned.filter fun sub => ref.made < sub.number := by
  have hNumbered := reachable_numbered h
  rw [(clearReferences_of_mark hRefs).1, hNumbered.refs ref (by simp [hRefs])]
  refine List.filter_congr fun sub hMem => ?_
  rw [hNumbered.owned sub hMem]

/-- `ClearReferences` deletes exactly what was made since the mark, and keeps the
rest. -/
def ClearsSince (m : Owner) (ref : TibrvMsgRef) : Prop :=
  m.clearReferences.2 = m.owned.filter (madeSince ref) ∧
    m.clearReferences.1.owned = m.owned.filter fun sub => ¬ madeSince ref sub

instance (m : Owner) (ref : TibrvMsgRef) : Decidable (ClearsSince m ref) :=
  inferInstanceAs (Decidable (_ ∧ _))

/-- In every state of every run it does so exactly when the message owns no
sub-message with the serial number of the mark. -/
theorem clearsSince_iff {ref : TibrvMsgRef} {refs : List TibrvMsgRef}
    (h : subMessages.Reachable m) (hRefs : m.refs = ref :: refs) :
    ClearsSince m ref ↔ ∀ sub ∈ m.owned, sub.serial ≠ ref.serial := by
  have hNumbered := reachable_numbered h
  have hRef := hNumbered.refs ref (by simp [hRefs])
  obtain ⟨hDeleted, hKept, -⟩ := clearReferences_of_mark hRefs
  constructor
  · rintro ⟨hSince, -⟩ sub hMem hSame
    have hNumber : sub.number = ref.made := by
      rw [← hRef, ← hNumbered.owned sub hMem, hSame]
    have hMade : madeSince ref sub = true :=
      decide_eq_true (Nat.le_of_eq hNumber.symm)
    have hGone : sub ∈ m.clearReferences.2 := hSince ▸ List.mem_filter.mpr ⟨hMem, hMade⟩
    rw [clearReferences_deleted h hRefs, List.mem_filter, hNumber] at hGone
    exact absurd (of_decide_eq_true hGone.2) (Nat.lt_irrefl _)
  · intro hNone
    have hSame : ∀ sub ∈ m.owned, decide (ref.serial < sub.serial) = madeSince ref sub := by
      intro sub hMem
      have hNe := hNone sub hMem
      rw [madeSince, ← hRef, ← hNumbered.owned sub hMem]
      exact decide_eq_decide.mpr (by omega)
    refine ⟨hDeleted.trans (List.filter_congr hSame), hKept.trans ?_⟩
    refine List.filter_congr fun sub hMem => ?_
    exact decide_eq_decide.mpr (not_congr (by rw [← hSame sub hMem, decide_eq_true_eq]))

theorem run_of_calls {deleted : List SubMessage} {m m' : Owner} {calls : List RefCall}
    (h : System.runAll (fun m call => some (m.call call)) m calls = some (m', deleted)) :
    subMessages.Run m calls deleted m' :=
  .of_runAll (fun _ _ _ _ h => Option.some.inj h) h

/-- One sub-message is made before a mark and two after it, of which the first is
detached. -/
theorem clearsSince_iff_detached :
    ClearsSince
      { submsgTether := some { serial := 3, msgs := [⟨0, 0⟩, ⟨2, 2⟩] }
        refs := [⟨1, 1⟩]
        made := 3 } ⟨1, 1⟩ := by
  have hRun : subMessages.Run {} [.extract 1, .markReferences, .extract 2, .detach 1] [] _ :=
    run_of_calls rfl
  exact (clearsSince_iff ⟨_, _, _, rfl, hRun⟩ rfl).mpr (by decide)

/-- The sub-message that is made right after a mark outlives `ClearReferences`. -/
theorem clearReferences_can_leave :
    ¬ ∀ (calls : List RefCall) (deleted : List SubMessage) (m : Owner) (ref : TibrvMsgRef)
      (refs : List TibrvMsgRef), subMessages.Run {} calls deleted m → m.refs = ref :: refs →
        ClearsSince m ref := by
  intro hClaim
  have hRun : subMessages.Run {} [.markReferences, .extract 1] [] _ := run_of_calls rfl
  have hClears := hClaim _ _ _ _ _ hRun rfl
  revert hClears
  decide

end Sassrv.Rv7
