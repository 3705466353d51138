import Sassrv.Rv7.MsgImages

/-! The ids of the fields of a message that is created empty. `check_id` turns an
`Add` of a marked id into an `Update`, but an `Update` of a field that is not there
adds it and marks nothing, so an `Add` can come after it with the same id. -/
namespace Sassrv.Rv7
open SubMgr Transition

universe u
variable {V : Type u} {env : MsgEnv V}

def fieldNames (fields : List (Field V)) : List Text := fields.map Field.name

/-- Names of C have no zero in them. -/
def CString (name : Option Text) : Prop := ∀ s, name = some s → 0 ∉ s

def Write.name : Write V → Option Text
  | .add name _ _ => name
  | .update name _ _ => name
  | .remove name _ => name
  | .removeInstance name _ => name

def Call.CString : Call V → Prop
  | .write w => Rv7.CString w.name
  | _ => True

/-- A name and an id that are told apart from a plain name: without a name the bytes
of an id that ends in zero are those of a name of one letter. -/
def Identified (name : Option Text) (id : BitVec 16) : Prop :=
  id ≠ 0 ∧ (name = none → id.toNat % 256 ≠ 0)

/-- No two fields have the same name and the same id. -/
def FieldIdsUnique (fields : List (Field V)) : Prop :=
  ∀ name id, CString name → Identified name id → (fieldNames fields).count (fnameArg name id) ≤ 1

/-- An `Add` with an id that is marked, or that no field has under this name. -/
def AddsFresh (env : MsgEnv V) (m : Msg V) : Call V → Prop
  | .write (.add name id _) => Identified name id →
      checkId env m.idUsed id = true ∨ fnameArg name id ∉ fieldNames m.wr
  | _ => True

theorem fnameArg_some {id : BitVec 16} (s : Text) (h : id ≠ 0) :
    ∃ u, fnameArg (some s) id =
      u ++ [0] ++ [UInt8.ofNat (id.toNat / 256), UInt8.ofNat (id.toNat % 256)] := by
  simp only [fnameArg, Option.map_some, Option.getD_some, if_neg h]
  split
  · exact ⟨_, rfl⟩
  · exact ⟨s, rfl⟩

/-- No plain name has the bytes of a name with an id. -/
theorem fnameArg_ne_plain {name plain : Option Text} {id : BitVec 16} (hPlain : CString plain)
    (h : Identified name id) : fnameArg name id ≠ fnameArg plain 0 := by
  intro hSame
  cases plain with
  | none =>
      have hEmpty : fnameArg name id = [] := hSame
      rw [fnameArg, if_neg h.1] at hEmpty
      exact absurd (List.append_eq_nil_iff.mp hEmpty).2 (List.cons_ne_nil _ _)
  | some s =>
      have hBytes : fnameArg name id = s ++ [0] := hSame
      cases name with
      | none =>
          have hLast := congrArg List.getLast? hBytes
          simp only [fnameArg, if_neg h.1, Option.map_none, Option.getD_none, List.length_nil,
            List.getLast?_append, List.getLast?_cons_cons, List.getLast?_singleton,
            Option.some_or, Option.some.injEq] at hLast
          have hLow := h.2 rfl
          have hZero := congrArg UInt8.toNat hLast
          simp only [UInt8.toNat_ofNat', UInt8.toNat_ofNat] at hZero
          omega
      | some nm =>
          obtain ⟨u, hName⟩ := fnameArg_some nm h.1
          rw [hName] at hBytes
          have hInit := congrArg List.dropLast hBytes
          rw [List.dropLast_concat, List.dropLast_append_of_ne_nil (by simp)] at hInit
          exact hPlain s rfl (hInit ▸ by simp)

section Writes
variable (hNamed : ∀ nm f, env.isNamed nm f = true ↔ f.name = nm)
include hNamed

/-- An `Update` keeps the names, or adds one that is not there. -/
theorem updateField_names (fields : List (Field V)) (nm : Text) (value : V) :
    fieldNames (updateField env fields nm value) = fieldNames fields ∨
      nm ∉ fieldNames fields ∧
        fieldNames (updateField env fields nm value) = fieldNames fields ++ [nm] := by
  unfold updateField
  split
  case h_1 i hFind =>
      obtain ⟨hBound, hIs, _⟩ := List.findIdx?_eq_some_iff_getElem.mp hFind
      left
      rw [fieldNames, List.map_set, ← (hNamed nm _).mp hIs, ← List.getElem_map Field.name,
        List.set_getElem_self]
      · rfl
      · simpa using hBound
  case h_2 hFind =>
      right
      refine ⟨fun hMem => ?_, by simp [fieldNames, addField]⟩
      obtain ⟨f, hField, hName⟩ := List.mem_map.mp hMem
      have hNot := List.findIdx?_eq_none_iff.mp hFind f hField
      rw [(hNamed nm f).mpr hName] at hNot
      cases hNot

theorem FieldIdsUnique.update {fields : List (Field V)} (h : FieldIdsUnique fields) (nm : Text)
    (value : V) : FieldIdsUnique (updateField env fields nm value) := by
  intro name id hName hId
  rcases updateField_names hNamed fields nm value with hSame | ⟨hAbsent, hMore⟩
  · rw [hSame]
    exact h name id hName hId
  · rw [hMore, List.count_append, List.count_singleton]
    split
    case isTrue hEq =>
        have hNone := List.count_eq_zero_of_not_mem hAbsent
        rw [eq_of_beq hEq] at hNone
        omega
    case isFalse _ => exact h name id hName hId

end Writes

theorem removeFieldInstance_sublist (nm : Text) (inst : Nat) (fields : List (Field V)) :
    (removeFieldInstance env nm inst fields).Sublist fields := by
  fun_induction removeFieldInstance env nm inst fields with
  | case1 => exact List.Sublist.refl _
  | case2 => exact List.Sublist.refl _
  | case3 => exact List.sublist_cons_self _ _
  | case4 _ _ _ _ _ ih => exact ih.cons_cons _
  | case5 _ _ _ _ ih => exact ih.cons_cons _

theorem FieldIdsUnique.sublist {fields fields' : List (Field V)} (h : FieldIdsUnique fields)
    (hSub : fields'.Sublist fields) : FieldIdsUnique fields' :=
  fun name id hName hId =>
    Nat.le_trans ((hSub.map Field.name).count_le _) (h name id hName hId)

theorem identified_or_plain {name : Option Text} (id : BitVec 16) (hName : CString name) :
    Identified name id ∨ ∃ plain, CString plain ∧ fnameArg name id = fnameArg plain 0 := by
  by_cases hZero : id = 0
  · exact .inr ⟨name, hName, by rw [hZero]⟩
  · by_cases hLow : name = none → id.toNat % 256 ≠ 0
    · exact .inl ⟨hZero, hLow⟩
    · obtain ⟨rfl, hLast⟩ := Classical.not_imp.mp hLow
      right
      -- the bytes are those of a name of one letter
      refine ⟨some [UInt8.ofNat (id.toNat / 256)], ?_, ?_⟩
      · rintro s ⟨⟩ hMem
        have hHigh := congrArg UInt8.toNat (List.mem_singleton.mp hMem)
        simp only [UInt8.toNat_ofNat', UInt8.toNat_ofNat] at hHigh
        exact hZero (by bv_omega)
      · rw [fnameArg, if_neg hZero, Decidable.not_not.mp hLast]
        rfl

/-- A field is added under a plain name, or under one that is not there. -/
theorem FieldIdsUnique.add {fields : List (Field V)} (h : FieldIdsUnique fields)
    {name : Option Text} {id : BitVec 16} (hName : CString name)
    (hFresh : Identified name id → fnameArg name id ∉ fieldNames fields) (value : V) :
    FieldIdsUnique (addField fields (fnameArg name id) value) := by
  intro name' id' hName' hId'
  rw [fieldNames, addField, List.map_append, List.map_singleton, List.count_append,
    List.count_singleton]
  split
  case isTrue hEq =>
      have hSame : fnameArg name id = fnameArg name' id' := eq_of_beq hEq
      rcases identified_or_plain id hName with hId | ⟨plain, hPlain, hBytes⟩
      · have hNone := List.count_eq_zero_of_not_mem (hFresh hId)
        rw [hSame, fieldNames] at hNone
        omega
      · exact absurd (hSame.symm.trans hBytes) (fnameArg_ne_plain hPlain hId')
  case isFalse _ => exact h name' id' hName' hId'

theorem getWriter_created {m : Msg V} (h : m.rvmsg = none) :
    getWriter m = { m with wrRefs := m.wrRefs + 1 } := by
  unfold getWriter
  rw [h]

/-- The message was created empty, and its writer is all there is of it. -/
structure Created (m : Msg V) : Prop where
  rvmsg : m.rvmsg = none
  unique : FieldIdsUnique m.wr

theorem write_rvmsg (m : Msg V) (w : Write V) : (m.write env w).rvmsg = m.rvmsg := by
  have hGet := fun m : Msg V => (getWriter_refs m).2.2.1
  cases w with
  | add name id value =>
      simp only [Msg.write, Msg.add]
      split
      · simp only [Msg.update, hGet]
      · exact hGet m
  | update name id value => exact hGet m
  | remove name id => exact hGet m
  | removeInstance name inst => exact hGet m

theorem makeReader_writer (m : Msg V) :
    (makeReader m).1.rvmsg = m.rvmsg ∧ (makeReader m).1.wr = m.wr := ⟨rfl, rfl⟩

theorem getReader_writer (m : Msg V) :
    (getReader m).1.rvmsg = m.rvmsg ∧ (getReader m).1.wr = m.wr := by
  unfold getReader
  split
  · split
    · exact ⟨rfl, rfl⟩
    · exact makeReader_writer m
  · exact makeReader_writer m

theorem call_rvmsg (m : Msg V) (call : Call V) : (m.call env call).1.rvmsg = m.rvmsg := by
  cases call with
  | write w => exact write_rvmsg m w
  | read => exact (getReader_writer m).1
  | embed => exact (getWriter_refs m).2.2.1
  | getAsBytes => rfl
  | getAsBytesCopy size => rfl
  | createCopy => rfl
  | send => rfl

theorem Created.write (hNamed : ∀ nm f, env.isNamed nm f = true ↔ f.name = nm) {m : Msg V}
    (h : Created m) {w : Write V} (hName : CString w.name) (hFresh : AddsFresh env m (.write w)) :
    FieldIdsUnique (m.write env w).wr := by
  have hGet := getWriter_created h.rvmsg
  cases w with
  | add name id value =>
      simp only [Msg.write, Msg.add, hGet]
      split
      case isTrue hMarked =>
          rw [Msg.update, getWriter_created (by exact h.rvmsg)]
          exact h.unique.update hNamed _ value
      case isFalse hMarked =>
          refine h.unique.add hName (fun hId => ?_) value
          exact (hFresh hId).resolve_left hMarked
  | update name id value =>
      simp only [Msg.write, Msg.update, hGet]
      exact h.unique.update hNamed _ value
  | remove name id =>
      simp only [Msg.write, hGet]
      exact h.unique.sublist List.eraseP_sublist
  | removeInstance name inst =>
      simp only [Msg.write, hGet]
      exact h.unique.sublist (removeFieldInstance_sublist _ _ _)

theorem Created.call (hNamed : ∀ nm f, env.isNamed nm f = true ↔ f.name = nm) {m : Msg V}
    (h : Created m) {call : Call V} (hName : call.CString) (hFresh : AddsFresh env m call) :
    Created (m.call env call).1 := by
  refine ⟨(call_rvmsg m call).trans h.rvmsg, ?_⟩
  cases call with
  | write w => exact h.write hNamed hName hFresh
  | read =>
      have hWr : (m.call env .read).1.wr = m.wr := (getReader_writer m).2
      rw [hWr]
      exact h.unique
  | embed =>
      have hWr : (m.call env .embed).1.wr = m.wr := by
        rw [Msg.call, getWriter_created h.rvmsg]
      rw [hWr]
      exact h.unique
  | getAsBytes => exact h.unique
  | getAsBytesCopy size => exact h.unique
  | createCopy => exact h.unique
  | send => exact h.unique

/-- An `Add` of an id that is not marked, for a field that is there, makes two. -/
theorem add_repeats {m : Msg V} (hCreated : m.rvmsg = none) {name : Option Text}
    {id : BitVec 16} {value : V} (hName : CString name)
    (h : ¬ AddsFresh env m (.write (.add name id value))) :
    ¬ FieldIdsUnique (m.add env name id value).wr := by
  obtain ⟨hId, hNot⟩ := Classical.not_imp.mp h
  obtain ⟨hMarked, hThere⟩ := not_or.mp hNot
  intro hUnique
  have hAdded : (m.add env name id value).wr = addField m.wr (fnameArg name id) value := by
    rw [Msg.add, getWriter_created hCreated]
    simp only [if_neg hMarked]
  have hCount := hUnique name id hName hId
  have hOne := List.count_pos_iff.mpr (Decidable.not_not.mp hThere)
  rw [hAdded, fieldNames, addField, List.map_append, List.map_singleton, List.count_append,
    List.count_singleton_self, ← fieldNames] at hCount
  omega

/-- The fields of a message that is created empty differ in name or id after every
run whose `Add`s are of a marked id or of a new field, and an `Add` that is neither
repeats a field. -/
theorem fieldIds_unique (hNamed : ∀ nm f, env.isNamed nm f = true ↔ f.name = nm) :
    (∀ m, ((apiMsg env .create).guard fun m call =>
        call.CString ∧ AddsFresh env m call).Reachable m → FieldIdsUnique m.wr) ∧
    ∀ m name id value, ((apiMsg env .create).guard fun _ call => call.CString).Reachable m →
      CString name → ¬ AddsFresh env m (.write (.add name id value)) →
        ¬ FieldIdsUnique (m.call env (.write (.add name id value))).1.wr := by
  constructor
  · intro m hReach
    suffices h : Created m from h.unique
    refine hReach.invariant ?_ ?_
    · rintro _ rfl
      exact ⟨rfl, fun _ _ _ _ => Nat.zero_le 1⟩
    · rintro m call emitted m' hCreated ⟨⟨hName, hFresh⟩, hCall⟩
      have hKept := hCreated.call hNamed hName hFresh
      rwa [show m.call env call = (m', emitted) from hCall] at hKept
  · intro m name id value hReach hName hNot
    suffices h : m.rvmsg = none from add_repeats h hName hNot
    refine @System.Reachable.invariant _ _ _ _ (fun m => m.rvmsg = none) ?_ ?_ m hReach
    · rintro _ rfl
      rfl
    · rintro m call emitted m' hNone ⟨_, hCall⟩
      have hKept := @call_rvmsg _ env m call
      rw [show m.call env call = (m', emitted) from hCall] at hKept
      exact hKept.trans hNone

theorem plainMsgEnv_named (nm : Text) (f : Field Nat) :
    plainMsgEnv.isNamed nm f = true ↔ f.name = nm := decide_eq_true_iff

/-- An `Update` adds the field, and the `Add` with its id goes through. -/
def updateThenAdd : List (Call Nat) :=
  [.write (.update (some (text "A")) 5 1), .write (.add (some (text "A")) 5 2)]

theorem updateThenAdd_run : (apiMsg plainMsgEnv .create).Run (.new .create) updateThenAdd []
    { wr := [⟨text "A" ++ [0, 0, 5], 1⟩, ⟨text "A" ++ [0, 0, 5], 2⟩], wrRefs := 2, idUsed := 32 } :=
  .of_runAll (f := fun m call => some (m.call plainMsgEnv call))
    (fun _ _ _ _ h => Option.some.inj h) rfl

theorem cstring_A : CString (some (text "A")) := by
  rintro s ⟨⟩
  decide

/-- Two fields of one name with different ids, and the repeat that an `Update` before
the `Add` leads to. -/
theorem fieldIds_unique_added :
    FieldIdsUnique (V := Nat) [⟨text "A" ++ [0, 0, 5], 1⟩, ⟨text "A" ++ [0, 0, 6], 2⟩] ∧
      ¬ FieldIdsUnique (V := Nat) [⟨text "A" ++ [0, 0, 5], 1⟩, ⟨text "A" ++ [0, 0, 5], 2⟩] := by
  constructor
  · have hStart : ((apiMsg plainMsgEnv .create).guard
        fun m call => call.CString ∧ AddsFresh plainMsgEnv m call).Reachable (.new .create) :=
      System.reachable_of_init rfl
    have hFirst := hStart.take (.write (.add (some (text "A")) 5 1)) []
      ⟨cstring_A, fun _ => .inr (by decide)⟩ rfl
    have hSecond := hFirst.take (.write (.add (some (text "A")) 6 2)) []
      ⟨cstring_A, fun _ => .inr (by decide)⟩ rfl
    exact (fieldIds_unique plainMsgEnv_named).1 _ hSecond
  · have hStart : ((apiMsg plainMsgEnv .create).guard
        fun _ call => call.CString).Reachable (.new .create) := System.reachable_of_init rfl
    have hFirst := hStart.take (.write (.update (some (text "A")) 5 1)) [] cstring_A rfl
    refine (fieldIds_unique plainMsgEnv_named).2 _ (some (text "A")) 5 2 hFirst cstring_A ?_
    exact fun h => Or.elim (h ⟨by decide, nofun⟩) (by decide) (by decide)

/-- A message that is created empty does not keep its fields unique. -/
theorem fieldIds_can_repeat :
    ¬ ∀ (env : MsgEnv Nat) (calls : List (Call Nat)) (seen : List (Seen Nat)) (m : Msg Nat),
      (∀ nm f, env.isNamed nm f = true ↔ f.name = nm) → (∀ call ∈ calls, call.CString) →
        (apiMsg env .create).Run (.new .create) calls seen m → FieldIdsUnique m.wr := by
  intro hClaim
  have hNames : ∀ call ∈ updateThenAdd, call.CString := by
    intro call hMem
    rcases List.mem_cons.mp hMem with rfl | hMem
    · exact cstring_A
    · obtain rfl := List.mem_singleton.mp hMem
      exact cstring_A
  have hUnique := hClaim _ _ _ _ plainMsgEnv_named hNames updateThenAdd_run (some (text "A")) 5 cstring_A
    ⟨by decide, nofun⟩
  revert hUnique
  decide

end Sassrv.Rv7
