import Mathlib
import Sassrv.Rv7.Msg

/-! What the observers of a message are to see: its first fields with every write
so far applied. The three images keep to that as long as no write follows a read
of a received message that was written to, and none of the observers that go to
the received image is called after a write. -/
namespace Sassrv.Rv7
open SubMgr Transition

universe u
variable {V : Type u} {env : MsgEnv V}

/-- A message as its users think of it: one list of fields, and the ids in use. -/
structure Content (V : Type u) where
  fields : List (Field V)
  idUsed : BitVec 64

def Content.new : Origin V → Content V
  | .create => ⟨[], 0⟩
  | .createFromBytes fields => ⟨fields, BitVec.allOnes 64⟩
  | .received fields => ⟨fields, BitVec.allOnes 64⟩
  | .getMsg fields => ⟨fields, BitVec.allOnes 64⟩

def Content.write (env : MsgEnv V) (c : Content V) : Write V → Content V
  | .add name id value =>
      { fields :=
          if checkId env c.idUsed id then updateField env c.fields (fnameArg name id) value
          else addField c.fields (fnameArg name id) value
        idUsed := useId env c.idUsed id }
  | .update name id value =>
      { c with fields := updateField env c.fields (fnameArg name id) value }
  | .remove name id => { c with fields := removeField env c.fields (fnameArg name id) }
  | .removeInstance name inst =>
      { c with fields := removeFieldInstance env (fnameArg name 0) inst c.fields }

def Content.call (env : MsgEnv V) (c : Content V) : Call V → Content V × List (Seen V)
  | .write w => (c.write env w, [])
  | .getAsBytesCopy size => (c, [seeCopy env size c.fields])
  | _ => (c, [.fields c.fields])

/-- What the observers among the calls see. -/
def Content.seen (env : MsgEnv V) (c : Content V) : List (Call V) → List (Seen V)
  | [] => []
  | call :: rest => (c.call env call).2 ++ (c.call env call).1.seen env rest

/-- A received message that its writes so far have left as it came. -/
def Msg.Unchanged (m : Msg V) : Prop :=
  m.rvmsg = none ∨ m.wrRefs = 0 ∨ m.rvmsg = some m.wr

/-- The next two writes do not make the counters meet again. -/
def Msg.NoWrap (m : Msg V) : Prop :=
  m.wrRefs + 1 ≠ m.rdRefs ∧ m.wrRefs + 2 ≠ m.rdRefs ∧
    (m.rvmsg ≠ none → m.wrRefs.toNat + 2 < 2 ^ 32)

/-- When a call sees or changes the right fields. -/
def InStep (m : Msg V) : Call V → Prop
  | .write _ => (m.wrRefs = m.rdRefs → m.Unchanged) ∧ m.NoWrap
  | .embed => (m.wrRefs = m.rdRefs → m.Unchanged) ∧ m.NoWrap
  | .getAsBytes => m.Unchanged
  | .getAsBytesCopy _ => m.Unchanged
  | .createCopy => m.Unchanged
  | _ => True

/-- The images of a message agree with its fields where they are used. -/
structure Synced (m : Msg V) (c : Content V) : Prop where
  writer : m.rvmsg = none ∨ m.wrRefs ≠ 0 → m.wr = c.fields ∧ m.idUsed = c.idUsed
  reader : m.wrRefs = m.rdRefs → ∀ fields, m.rd = some fields → fields = c.fields
  received : ∀ fields, m.rvmsg = some fields →
    (m.wrRefs = 0 → c.fields = fields) ∧ c.idUsed = BitVec.allOnes 64 ∧
      m.rdRefs ≤ m.wrRefs ∧ (m.rd = none → m.rdRefs = 0)

variable {m : Msg V} {c : Content V}

theorem Synced.new (origin : Origin V) : Synced (.new origin) (.new origin) := by
  cases origin <;> constructor <;> simp [Msg.new, Content.new]

theorem Synced.unchanged (hSynced : Synced m c) (hUnchanged : m.Unchanged) {fields : List (Field V)}
    (h : m.rvmsg = some fields) : c.fields = fields := by
  rcases hUnchanged with hNone | hZero | hSame
  · rw [h] at hNone
    cases hNone
  · exact (hSynced.received fields h).1 hZero
  · by_cases hZero : m.wrRefs = 0
    · exact (hSynced.received fields h).1 hZero
    · rw [← (hSynced.writer (.inr hZero)).1]
      exact Option.some.inj (hSame.symm.trans h)

theorem getWriter_refs (m : Msg V) :
    (getWriter m).wrRefs = m.wrRefs + 1 ∧ (getWriter m).rdRefs = m.rdRefs ∧
      (getWriter m).rvmsg = m.rvmsg ∧ (getWriter m).rd = m.rd := by
  unfold getWriter
  split
  · split <;> simp_all
  · simp_all

theorem getWriter_of_ne (h : m.rdRefs ≠ m.wrRefs) :
    getWriter m = { m with wrRefs := m.wrRefs + 1 } := by
  unfold getWriter
  split
  · rw [if_neg h]
  · rfl

theorem update_of_ne (env : MsgEnv V) (name : Option Text) (id : BitVec 16) (value : V)
    (h : m.rdRefs ≠ m.wrRefs) :
    m.update env name id value =
      { m with
        wr := updateField env m.wr (fnameArg name id) value
        wrRefs := m.wrRefs + 1 } := by
  rw [Msg.update, getWriter_of_ne h]

/-- After `get_writer` the writer has the fields. -/
theorem Synced.getWriter_wr (hSynced : Synced m c) (hUnchanged : m.wrRefs = m.rdRefs → m.Unchanged) :
    (getWriter m).wr = c.fields ∧ (getWriter m).idUsed = c.idUsed := by
  unfold getWriter
  cases hRv : m.rvmsg with
  | none => exact hSynced.writer (.inl hRv)
  | some fields =>
      obtain ⟨_, hUsed, hLe, _⟩ := hSynced.received fields hRv
      by_cases hRefs : m.rdRefs = m.wrRefs
      · have hFields := hSynced.unchanged (hUnchanged hRefs.symm) hRv
        simp [hRefs, hFields, hUsed]
      · have hNot : m.wrRefs ≠ 0 := by
          intro hZero
          rw [hZero] at hLe hRefs
          exact hRefs (BitVec.le_zero_iff.mp hLe)
        simpa [hRefs] using hSynced.writer (.inr hNot)

/-- A write changes the writer and the fields alike; the reader is out of date. -/
theorem Synced.written (hSynced : Synced m c) (hNoWrap : m.NoWrap) {m' : Msg V} {c' : Content V}
    (hWr : m'.wr = c'.fields) (hUsed : m'.idUsed = c'.idUsed)
    (hAll : c.idUsed = BitVec.allOnes 64 → c'.idUsed = BitVec.allOnes 64)
    (hRefs : m'.wrRefs = m.wrRefs + 1 ∨ m'.wrRefs = m.wrRefs + 2) (hRd : m'.rdRefs = m.rdRefs)
    (hRv : m'.rvmsg = m.rvmsg) (hReader : m'.rd = m.rd) : Synced m' c' := by
  refine ⟨fun _ => ⟨hWr, hUsed⟩, ?_, ?_⟩
  · intro hSame
    rw [hRd] at hSame
    rcases hRefs with hRefs | hRefs
    · exact absurd (hRefs ▸ hSame) hNoWrap.1
    · exact absurd (hRefs ▸ hSame) hNoWrap.2.1
  · intro fields hFields
    rw [hRv] at hFields
    obtain ⟨_, hOnes, hLe, hNone⟩ := hSynced.received fields hFields
    have hBound := hNoWrap.2.2 (by simp [hFields])
    have hNat : m.wrRefs.toNat < m'.wrRefs.toNat := by
      rcases hRefs with hRefs | hRefs
      · bv_omega
      · bv_omega
    refine ⟨?_, hAll hOnes, ?_, ?_⟩
    · intro hZero
      rw [hZero] at hNat
      simp at hNat
    · rw [hRd, BitVec.le_def]
      rw [BitVec.le_def] at hLe
      omega
    · rw [hReader, hRd]
      exact hNone

theorem useId_allOnes (id : BitVec 16) {used : BitVec 64} (h : used = BitVec.allOnes 64) :
    useId env used id = BitVec.allOnes 64 := by
  unfold useId
  split
  · exact h
  · rw [h, BitVec.allOnes_or]

theorem Synced.write (hSynced : Synced m c) (w : Write V)
    (hUnchanged : m.wrRefs = m.rdRefs → m.Unchanged) (hNoWrap : m.NoWrap) :
    Synced (m.write env w) (c.write env w) := by
  obtain ⟨hWr, hUsed⟩ := hSynced.getWriter_wr hUnchanged
  obtain ⟨hRefs, hRd, hRv, hReader⟩ := getWriter_refs m
  cases w with
  | add name id value =>
      simp only [Msg.write, Msg.add, Content.write]
      by_cases hCheck : checkId env c.idUsed id
      · have hNe : (getWriter m).rdRefs ≠ (getWriter m).wrRefs := by
          rw [hRefs, hRd]
          exact fun h => hNoWrap.1 h.symm
        have hTwice : (getWriter m).wrRefs + 1 = m.wrRefs + 2 := by
          rw [hRefs, BitVec.add_assoc]
          rfl
        have hUpdate := update_of_ne env name id value
          (m := { getWriter m with idUsed := useId env (getWriter m).idUsed id }) hNe
        rw [if_pos (hUsed ▸ hCheck), if_pos hCheck, hUpdate]
        exact hSynced.written hNoWrap (by simp [hWr]) (by simp [hUsed]) (useId_allOnes id)
          (.inr hTwice) hRd hRv hReader
      · rw [if_neg (hUsed ▸ hCheck), if_neg hCheck]
        exact hSynced.written hNoWrap (by simp [hWr]) (by simp [hUsed]) (useId_allOnes id)
          (.inl hRefs) hRd hRv hReader
  | update name id value =>
      exact hSynced.written hNoWrap (by simp [Msg.write, Msg.update, Content.write, hWr]) hUsed
        (fun h => h) (.inl hRefs) hRd hRv hReader
  | remove name id =>
      exact hSynced.written hNoWrap (by simp [Msg.write, Content.write, hWr]) hUsed
        (fun h => h) (.inl hRefs) hRd hRv hReader
  | removeInstance name inst =>
      exact hSynced.written hNoWrap (by simp [Msg.write, Content.write, hWr]) hUsed
        (fun h => h) (.inl hRefs) hRd hRv hReader

theorem Synced.getAsBytes (hSynced : Synced m c) : getAsBytes m = c.fields := by
  have hWritten : m.wrRefs ≠ m.rdRefs ∨ m.rd = none → writtenBytes m = c.fields := by
    intro hOld
    unfold writtenBytes
    cases hRv : m.rvmsg with
    | none => exact (hSynced.writer (.inl hRv)).1
    | some fields =>
        obtain ⟨hZero, _, hLe, hNone⟩ := hSynced.received fields hRv
        by_cases hLt : m.rdRefs < m.wrRefs
        · have hNot : m.wrRefs ≠ 0 := by
            rintro hEq
            rw [hEq] at hLt
            exact absurd hLt (BitVec.not_lt_zero)
          simpa [hLt] using (hSynced.writer (.inr hNot)).1
        · have hSame : m.wrRefs = m.rdRefs := BitVec.le_antisymm (BitVec.not_lt.mp hLt) hLe
          have hNoReader := hOld.resolve_left fun h => h hSame
          simpa [hLt] using (hZero (hSame.trans (hNone hNoReader))).symm
  unfold Rv7.getAsBytes
  cases hRd : m.rd with
  | none => exact hWritten (.inr hRd)
  | some fields =>
      by_cases hRefs : m.wrRefs = m.rdRefs
      · simpa [hRefs] using hSynced.reader hRefs fields hRd
      · simpa [hRefs] using hWritten (.inl hRefs)

theorem Synced.readerImage (hSynced : Synced m c) (h : m.rd = none ∨ m.rdRefs ≠ m.wrRefs) :
    readerImage m = c.fields := by
  unfold Rv7.readerImage
  cases hRv : m.rvmsg with
  | none => exact hSynced.getAsBytes
  | some fields =>
      by_cases hRefs : m.rdRefs = m.wrRefs
      · obtain ⟨hZero, _, _, hNone⟩ := hSynced.received fields hRv
        have hNoReader := h.resolve_right fun h => h hRefs
        simpa [hRefs] using (hZero (hRefs ▸ hNone hNoReader)).symm
      · simpa [hRefs] using hSynced.getAsBytes

theorem Synced.makeReader (hSynced : Synced m c) (h : m.rd = none ∨ m.rdRefs ≠ m.wrRefs) :
    Synced (makeReader m).1 c ∧ (Rv7.makeReader m).2 = c.fields := by
  have hImage := hSynced.readerImage h
  refine ⟨⟨hSynced.writer, ?_, ?_⟩, hImage⟩
  · intro _ fields hFields
    exact (Option.some.inj hFields).symm.trans hImage
  · intro fields hFields
    obtain ⟨hZero, hUsed, _, _⟩ := hSynced.received fields hFields
    exact ⟨hZero, hUsed, BitVec.le_refl _, fun hNone => by cases hNone⟩

theorem Synced.getReader (hSynced : Synced m c) :
    Synced (getReader m).1 c ∧ (Rv7.getReader m).2 = c.fields := by
  unfold Rv7.getReader
  cases hRd : m.rd with
  | none => exact hSynced.makeReader (.inl hRd)
  | some fields =>
      by_cases hRefs : m.rdRefs = m.wrRefs
      · simpa [hRefs] using ⟨hSynced, hSynced.reader hRefs.symm fields hRd⟩
      · simpa [hRefs] using hSynced.makeReader (.inr hRefs)

theorem Synced.bytesOf (hSynced : Synced m c) (hUnchanged : m.Unchanged) :
    bytesOf m = c.fields := by
  unfold Rv7.bytesOf
  cases hRv : m.rvmsg with
  | none => exact hSynced.getAsBytes
  | some fields => exact (hSynced.unchanged hUnchanged hRv).symm

theorem Synced.copyOf (hSynced : Synced m c) (hUnchanged : m.Unchanged) :
    copyOf m = c.fields := by
  unfold Rv7.copyOf
  cases hRv : m.rvmsg with
  | none => exact (hSynced.writer (.inl hRv)).1
  | some fields => exact (hSynced.unchanged hUnchanged hRv).symm

/-- A call sees the fields and keeps the images in step. -/
theorem Synced.call (env : MsgEnv V) (hSynced : Synced m c) {call : Call V}
    (hInStep : InStep m call) :
    Synced (m.call env call).1 (c.call env call).1 ∧
      (m.call env call).2 = (c.call env call).2 := by
  cases call with
  | write w => exact ⟨hSynced.write w hInStep.1 hInStep.2, rfl⟩
  | read =>
      obtain ⟨hKept, hSeen⟩ := hSynced.getReader
      exact ⟨hKept, by simp [Msg.call, Content.call, hSeen]⟩
  | getAsBytes => exact ⟨hSynced, by simp [Msg.call, Content.call, hSynced.bytesOf hInStep]⟩
  | getAsBytesCopy size =>
      exact ⟨hSynced, by simp [Msg.call, Content.call, hSynced.bytesOf hInStep]⟩
  | createCopy => exact ⟨hSynced, by simp [Msg.call, Content.call, hSynced.copyOf hInStep]⟩
  | send => exact ⟨hSynced, by simp [Msg.call, Content.call, hSynced.getAsBytes]⟩
  | embed =>
      obtain ⟨hWr, hUsed⟩ := hSynced.getWriter_wr hInStep.1
      obtain ⟨hRefs, hRd, hRv, hReader⟩ := getWriter_refs m
      refine ⟨?_, by simp [Msg.call, Content.call, hWr]⟩
      exact hSynced.written hInStep.2 hWr hUsed (fun h => h) (.inl hRefs) hRd hRv hReader

/-- The fields after some calls. -/
def Content.after (env : MsgEnv V) (c : Content V) (calls : List (Call V)) : Content V :=
  calls.foldl (fun c call => (c.call env call).1) c

theorem Content.seen_snoc (c : Content V) (calls : List (Call V)) (call : Call V) :
    c.seen env (calls ++ [call]) = c.seen env calls ++ ((c.after env calls).call env call).2 := by
  induction calls generalizing c with
  | nil => simp [Content.seen, Content.after]
  | cons first rest ih =>
      rw [List.cons_append, Content.seen, Content.seen, ih, List.append_assoc]
      rfl

/-- In every run whose calls are in step, each observer sees the first fields with
all writes before it applied in order. -/
theorem observers_see_writes {origin : Origin V} {start : Msg V} {calls : List (Call V)}
    {seen : List (Seen V)} (hStart : (apiMsg env origin).init start)
    (hRun : ((apiMsg env origin).guard InStep).Run start calls seen m) :
    seen = (Content.new origin).seen env calls := by
  obtain rfl : start = .new origin := hStart
  suffices h : Synced m ((Content.new origin).after env calls) ∧
      seen = (Content.new origin).seen env calls from h.2
  induction hRun with
  | nil => exact ⟨.new origin, rfl⟩
  | snoc prior last ih =>
      obtain ⟨hSynced, hSeen⟩ := ih
      obtain ⟨hInStep, hCall⟩ := last
      obtain ⟨hKept, hSame⟩ := hSynced.call env hInStep
      rw [show Msg.call env _ _ = _ from hCall] at hKept hSame
      refine ⟨?_, ?_⟩
      · simpa [Content.after, List.foldl_append] using hKept
      · rw [Content.seen_snoc, hSeen]
        exact congrArg _ hSame

instance [DecidableEq V] (m : Msg V) : Decidable m.Unchanged :=
  inferInstanceAs (Decidable (_ ∨ _ ∨ _))

instance [DecidableEq V] (m : Msg V) : Decidable m.NoWrap :=
  inferInstanceAs (Decidable (_ ∧ _ ∧ (_ → _)))

instance [DecidableEq V] (m : Msg V) (call : Call V) : Decidable (InStep m call) :=
  match call with
  | .write _ => inferInstanceAs (Decidable ((_ → _) ∧ _))
  | .embed => inferInstanceAs (Decidable ((_ → _) ∧ _))
  | .getAsBytes => inferInstanceAs (Decidable m.Unchanged)
  | .getAsBytesCopy _ => inferInstanceAs (Decidable m.Unchanged)
  | .createCopy => inferInstanceAs (Decidable m.Unchanged)
  | .read => inferInstanceAs (Decidable True)
  | .send => inferInstanceAs (Decidable True)

/-- A call that is made only in step. -/
def callInStep [DecidableEq V] (env : MsgEnv V) (m : Msg V) (call : Call V) :
    Option (Msg V × List (Seen V)) :=
  if InStep m call then some (m.call env call) else none

theorem run_of_callInStep [DecidableEq V] {origin : Origin V} {m' : Msg V} {calls : List (Call V)}
    {seen : List (Seen V)} (h : System.runAll (callInStep env) m calls = some (m', seen)) :
    ((apiMsg env origin).guard InStep).Run m calls seen m' := by
  refine .of_runAll ?_ h
  intro m call m' emitted hCall
  unfold callInStep at hCall
  split at hCall
  case isTrue hInStep => exact ⟨hInStep, Option.some.inj hCall⟩
  case isFalse _ => cases hCall

def plainMsgEnv : MsgEnv Nat where
  isNamed nm f := f.name = nm
  idBit id := 1 <<< (id.toNat % 64)
  byteSize fields := fields.length

/-- A received message is read, written to twice and sent. -/
theorem observers_see_writes_sent :
    let calls : List (Call Nat) :=
      [.read, .write (.add (some (text "b")) 0 2), .write (.remove (some (text "a")) 0), .send]
    [.fields [⟨text "a" ++ [0], 1⟩], .fields [⟨text "b" ++ [0], 2⟩]] =
      (Content.new (.received [⟨text "a" ++ [0], 1⟩])).seen plainMsgEnv calls := by
  intro calls
  have hRun : ((apiMsg plainMsgEnv (.received [⟨text "a" ++ [0], 1⟩])).guard InStep).Run
      (.new (.received [⟨text "a" ++ [0], 1⟩])) calls
      [.fields [⟨text "a" ++ [0], 1⟩], .fields [⟨text "b" ++ [0], 2⟩]] _ :=
    run_of_callInStep rfl
  exact observers_see_writes rfl hRun

/-- A write after a read of a received message drops the writes before it. -/
theorem observers_can_miss_writes :
    ¬ ∀ (env : MsgEnv Nat) (origin : Origin Nat) (calls : List (Call Nat)) (seen : List (Seen Nat))
      (m : Msg Nat), (apiMsg env origin).Run (.new origin) calls seen m →
        seen = (Content.new origin).seen env calls := by
  intro hClaim
  have hRun : (apiMsg plainMsgEnv (.received [])).Run (.new (.received []))
      [.write (.add (some (text "b")) 0 2), .read, .write (.add (some (text "c")) 0 3), .read]
      [.fields [⟨text "b" ++ [0], 2⟩], .fields [⟨text "c" ++ [0], 3⟩]] _ :=
    .of_runAll (f := fun m call => some (m.call plainMsgEnv call))
      (fun _ _ _ _ h => Option.some.inj h) rfl
  have hSeen := hClaim _ _ _ _ _ hRun
  revert hSeen
  decide

end Sassrv.Rv7
