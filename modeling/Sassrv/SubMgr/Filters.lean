import Sassrv.SubMgr.Runs
import Sassrv.SubMgr.Wildcards

/-! The filters of `add_wildcard` and the subjects that `is_matched` lets through. The
text of a filter is extended so that `match_rv_wildcard` takes what lies under it. -/
namespace Sassrv.SubMgr

variable {env : Env} {f s : Text} {base ss : List Text}

/-- The argument of `add_wildcard` up to its end; there is none for a null pointer. -/
def filterText (wildcard : Option Text) : Text := wildcard.elim [] cstr

/-- `suflen`, with the length that decides between the two arms of the outer conditional. -/
def suffixLength (f : Text) : Nat :=
  if (if f.length = 0 then true else f.getLast? ≠ some 62) then 2 else 0

/-- `add_wildcard`: the filter that is kept. -/
def addWildcard (wildcard : Option Text) : Text :=
  let f := filterText wildcard
  if 0 < suffixLength f then (if suffixLength f = 2 then f ++ [46] else f) ++ [62] else f

/-- `is_matched` after the filters were added. -/
def isMatchedBy (env : Env) (wildcards : List (Option Text)) (sub : Text) : Bool :=
  isMatched { env with filters := wildcards.map addWildcard } sub

/-- A segment of a filter stands for one of a subject. -/
def Stands (seg x : Text) : Prop := seg = starSegment ∨ seg = x

/-- The segments of a filter without a final `>`. -/
def baseSegments (f : Text) : List Text :=
  if (segments f).getLast? = some tailSegment then (segments f).dropLast else segments f

/-- The subject starts with the segments of the filter and goes on. -/
def Under (f s : Text) : Prop :=
  ∃ front back, segments s = front ++ back ∧ back ≠ [] ∧ List.Forall₂ Stands (baseSegments f) front

/-- The last character is a `>` that is no segment of its own. -/
def Glued (f : Text) : Prop := f.getLast? = some 62 ∧ (segments f).getLast? ≠ some tailSegment

theorem segments_append_dot (t u : Text) : segments (t ++ 46 :: u) = segments t ++ segments u := by
  induction t with
  | nil => rw [List.nil_append, segments_dot, segments_nil, List.singleton_append]
  | cons c t ih =>
      by_cases hDot : c = 46
      · subst hDot
        rw [List.cons_append, segments_dot, segments_dot, ih, List.cons_append]
      · obtain ⟨seg, rest, h⟩ := exists_segments t
        have hAll : segments (t ++ 46 :: u) = seg :: (rest ++ segments u) := by
          rw [ih, h, List.cons_append]
        rw [List.cons_append, segments_cons hDot hAll, segments_cons hDot h, List.cons_append]

/-- A final `>` takes what is left, one segment at least. -/
theorem covers_tail : Covers (base ++ [tailSegment]) ss ↔
    ∃ front back, ss = front ++ back ∧ back ≠ [] ∧ List.Forall₂ Stands base front := by
  induction base generalizing ss with
  | nil =>
      constructor
      · intro h
        cases h with
        | same _ h => exact ⟨[], _, rfl, List.cons_ne_nil _ _, .nil⟩
        | rest => exact ⟨[], _, rfl, List.cons_ne_nil _ _, .nil⟩
      · rintro ⟨front, back, rfl, hBack, hFront⟩
        cases hFront
        obtain ⟨x, more, rfl⟩ := List.exists_cons_of_ne_nil hBack
        exact .rest x more
  | cons seg base ih =>
      constructor
      · intro h
        rw [List.cons_append] at h
        generalize hPat : base ++ [tailSegment] = pat at h
        cases h with
        | same _ h =>
            obtain ⟨front, back, rfl, hBack, hFront⟩ := ih.mp (hPat ▸ h)
            exact ⟨seg :: front, back, rfl, hBack, .cons (.inr rfl) hFront⟩
        | any x h =>
            obtain ⟨front, back, rfl, hBack, hFront⟩ := ih.mp (hPat ▸ h)
            exact ⟨x :: front, back, rfl, hBack, .cons (.inl rfl) hFront⟩
        | rest => exact absurd hPat (List.append_ne_nil_of_right_ne_nil base (List.cons_ne_nil _ _))
      · rintro ⟨front, back, rfl, hBack, hFront⟩
        cases hFront with
        | @cons _ x _ front hHead hTail =>
            have hRest := ih.mpr ⟨front, back, rfl, hBack, hTail⟩
            rcases hHead with rfl | rfl
            · exact .any x hRest
            · exact .same seg hRest

/-- A last segment `>` ends the text. -/
theorem getLast_of_tail {t : Text} (h : (segments t).getLast? = some tailSegment) :
    t.getLast? = some 62 := by
  induction t with
  | nil =>
      rw [segments_nil] at h
      exact absurd (Option.some.inj h) (by decide)
  | cons c t ih =>
      obtain ⟨seg, rest, hSeg⟩ := exists_segments t
      by_cases hDot : c = 46
      · subst hDot
        rw [segments_dot, hSeg, List.getLast?_cons_cons, ← hSeg] at h
        rw [List.getLast?_cons, ih h]
        rfl
      · rw [segments_cons hDot hSeg] at h
        cases rest with
        | nil =>
            have hOnly : c :: seg = [62] := Option.some.inj h
            rw [List.cons.injEq] at hOnly
            obtain ⟨rfl, rfl⟩ := hOnly
            rw [segments_eq_singleton_nil.mp hSeg]
            rfl
        | cons next more =>
            rw [List.getLast?_cons_cons] at h
            have hLast : (segments t).getLast? = some tailSegment := by
              rw [hSeg, List.getLast?_cons_cons]
              exact h
            rw [List.getLast?_cons, ih hLast]
            rfl

/-- Null, or an empty text. -/
def Blank (wildcard : Option Text) : Prop := filterText wildcard = []

theorem addWildcard_blank {w : Option Text} (h : Blank w) : addWildcard w = [46, 62] := by
  have hText : filterText w = [] := h
  simp only [addWildcard, hText]
  rfl

theorem addWildcard_tail {w : Option Text} (h : (filterText w).getLast? = some 62) :
    addWildcard w = filterText w := by
  have hLength : (filterText w).length ≠ 0 := by
    intro hZero
    rw [List.length_eq_zero_iff.mp hZero] at h
    exact absurd h (by simp)
  have hSuffix : suffixLength (filterText w) = 0 := by
    simp [suffixLength, hLength, h]
  simp [addWildcard, hSuffix]

theorem addWildcard_open {w : Option Text} (h : (filterText w).getLast? ≠ some 62) :
    addWildcard w = filterText w ++ [46, 62] := by
  have hSuffix : suffixLength (filterText w) = 2 := by
    simp [suffixLength, h]
  simp [addWildcard, hSuffix]

/-- A kept filter, but for the two kinds that go wrong. -/
theorem addWildcard_segments {w : Option Text} (hGlued : ¬ Glued (filterText w)) :
    segments (addWildcard w) = baseSegments (filterText w) ++ [tailSegment] := by
  by_cases hLast : (filterText w).getLast? = some 62
  · have hTail : (segments (filterText w)).getLast? = some tailSegment := by
      by_contra hNot
      exact hGlued ⟨hLast, hNot⟩
    rw [addWildcard_tail hLast, baseSegments, if_pos hTail]
    exact (List.dropLast_append_getLast? tailSegment hTail).symm
  · have hTail : (segments (filterText w)).getLast? ≠ some tailSegment :=
      fun h => hLast (getLast_of_tail h)
    rw [addWildcard_open hLast, segments_append_dot, baseSegments, if_neg hTail]
    rfl

/-- What one filter lets through. -/
theorem matchRvWildcard_addWildcard {w : Option Text} (hFull : ∀ seg ∈ segments s, seg ≠ []) :
    matchRvWildcard (addWildcard w) s = true ↔
      (¬ Blank w ∧ ¬ Glued (filterText w) ∧ Under (filterText w) s) ∨
        (Glued (filterText w) ∧ Covers (segments (filterText w)) (segments s)) := by
  rw [matchRvWildcard_segments _ _ hFull]
  by_cases hGlued : Glued (filterText w)
  · rw [addWildcard_tail hGlued.1]
    simp [hGlued]
  · by_cases hBlank : Blank w
    · -- the filter is `.>`, and no subject starts with an empty segment
      rw [addWildcard_blank hBlank]
      have hText : segments [46, 62] = [[], tailSegment] := by decide
      obtain ⟨seg, rest, hSeg⟩ := exists_segments s
      rw [hSeg] at hFull
      rw [hText, hSeg]
      refine iff_of_false ?_ (by simp [hGlued, hBlank])
      intro h
      cases h with
      | same _ h => exact hFull [] List.mem_cons_self rfl
    · rw [addWildcard_segments hGlued, covers_tail]
      simp only [hBlank, hGlued, not_false_eq_true, true_and, false_and, or_false]
      rfl

theorem isMatchedBy_iff {ws : List (Option Text)} (hFull : ∀ seg ∈ segments s, seg ≠ []) :
    isMatchedBy env ws s = true ↔ ws = [] ∨
      (∃ w ∈ ws, ¬ Blank w ∧ ¬ Glued (filterText w) ∧ Under (filterText w) s) ∨
      (∃ w ∈ ws, Glued (filterText w) ∧ Covers (segments (filterText w)) (segments s)) := by
  rw [isMatchedBy, isMatched, Bool.or_eq_true, List.isEmpty_iff, List.map_eq_nil_iff,
    List.any_map, List.any_eq_true]
  simp only [Function.comp_apply, matchRvWildcard_addWildcard hFull, and_or_left, exists_or]

/-- The subjects of a null or empty filter are missed, and a `>` that is glued to its segment is
taken literally. -/
theorem is_matched_under (env : Env) (ws : List (Option Text)) (s : Text)
    (hFull : ∀ seg ∈ segments s, seg ≠ []) :
    (isMatchedBy env ws s = true ↔
      ws = [] ∨ ∃ w ∈ ws, Blank w ∨ Under (filterText w) s) ↔
    (∃ w ∈ ws, ¬ Blank w ∧ ¬ Glued (filterText w) ∧ Under (filterText w) s) ∨
      ((∃ w ∈ ws, Blank w ∨ (Glued (filterText w) ∧ Under (filterText w) s)) ↔
        ∃ w ∈ ws, Glued (filterText w) ∧ Covers (segments (filterText w)) (segments s)) := by
  rw [isMatchedBy_iff hFull]
  have hSplit : (∃ w ∈ ws, Blank w ∨ Under (filterText w) s) ↔
      (∃ w ∈ ws, ¬ Blank w ∧ ¬ Glued (filterText w) ∧ Under (filterText w) s) ∨
        (∃ w ∈ ws, Blank w ∨ (Glued (filterText w) ∧ Under (filterText w) s)) := by
    rw [← exists_or]
    refine exists_congr fun w => ?_
    rw [← and_or_left]
    refine and_congr_right fun _ => ?_
    generalize Under (filterText w) s = under, Blank w = blank, Glued (filterText w) = glued
    tauto
  rw [hSplit]
  by_cases hNone : ws = []
  · subst hNone
    simp
  · simp only [hNone, false_or]
    generalize (∃ w ∈ ws, ¬ Blank w ∧ ¬ Glued (filterText w) ∧ Under (filterText w) s) = plain
    generalize (∃ w ∈ ws, Glued (filterText w) ∧ Covers (segments (filterText w)) (segments s)) = literal
    generalize (∃ w ∈ ws, Blank w ∨ (Glued (filterText w) ∧ Under (filterText w) s)) = missed
    tauto

theorem is_matched_under_quotes :
    isMatchedBy sampleEnv [some (text "RDF.*"), some (text "TIB>")] (text "RDF.EQ.IBM") = true := by
  have hPlain : ¬ Blank (some (text "RDF.*")) ∧ ¬ Glued (filterText (some (text "RDF.*"))) ∧
      Under (filterText (some (text "RDF.*"))) (text "RDF.EQ.IBM") := by
    refine ⟨by unfold Blank; decide, by unfold Glued; decide, [text "RDF", text "EQ"], [text "IBM"],
      by decide, by decide, ?_⟩
    have hBase : baseSegments (filterText (some (text "RDF.*"))) = [text "RDF", starSegment] := by
      decide
    rw [hBase]
    exact .cons (.inr rfl) (.cons (.inl rfl) .nil)
  have hLaw := (is_matched_under sampleEnv [some (text "RDF.*"), some (text "TIB>")] (text "RDF.EQ.IBM")
    (by decide)).mpr (.inl ⟨_, List.mem_cons_self, hPlain⟩)
  exact hLaw.mpr (.inr ⟨_, List.mem_cons_self, .inr hPlain.2.2⟩)

/-- A null filter, which is meant to let every subject through. -/
theorem null_filter_matches_nothing :
    ¬ ∀ (env : Env) (ws : List (Option Text)) (s : Text), (∀ seg ∈ segments s, seg ≠ []) →
      (isMatchedBy env ws s = true ↔ ws = [] ∨ ∃ w ∈ ws, Blank w ∨ Under (filterText w) s) := by
  intro h
  have hMatch := (h sampleEnv [none] (text "A") (by decide)).mpr (.inr ⟨none, List.mem_cons_self, .inl rfl⟩)
  exact absurd hMatch (by decide)

end Sassrv.SubMgr
