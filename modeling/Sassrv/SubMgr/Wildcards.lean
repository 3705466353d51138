import Sassrv.SubMgr.Text

/-! What `match_rv_wildcard` accepts, segment by segment. The scan compares
characters and looks around for the dots that make a `*` or a `>` a segment of its
own. -/
namespace Sassrv.SubMgr

def starSegment : Text := [42]

def tailSegment : Text := [62]

/-- The segments of a pattern stand for those of a subject. -/
inductive Covers : List Text → List Text → Prop where
  | nil : Covers [] []
  | same (seg : Text) {ws ss : List Text} (h : Covers ws ss) : Covers (seg :: ws) (seg :: ss)
  | any (seg : Text) {ws ss : List Text} (h : Covers ws ss) : Covers (starSegment :: ws) (seg :: ss)
  | rest (seg : Text) (ss : List Text) : Covers [tailSegment] (seg :: ss)

theorem covers_nil_left {ss : List Text} : Covers [] ss ↔ ss = [] := by
  constructor
  · intro h
    cases h
    rfl
  · rintro rfl
    exact .nil

theorem covers_nil_right {ws : List Text} : Covers ws [] ↔ ws = [] := by
  constructor
  · intro h
    cases h
    rfl
  · rintro rfl
    exact .nil

theorem covers_star {seg : Text} {ws ss : List Text} :
    Covers (starSegment :: ws) (seg :: ss) ↔ Covers ws ss := by
  constructor
  · intro h
    cases h with
    | same _ h => exact h
    | any _ h => exact h
  · exact Covers.any seg

/-- A segment that is no wildcard in its place matches itself. -/
theorem covers_literal {w seg : Text} {ws ss : List Text} (hStar : w ≠ starSegment)
    (hTail : w = tailSegment → ws ≠ []) : Covers (w :: ws) (seg :: ss) ↔ w = seg ∧ Covers ws ss := by
  constructor
  · intro h
    cases h with
    | same _ h => exact ⟨rfl, h⟩
    | any _ h => exact absurd rfl hStar
    | rest => exact absurd rfl (hTail rfl)
  · rintro ⟨rfl, h⟩
    exact .same w h

/-- The segments of a subject, which dots separate. -/
def segments (t : Text) : List Text := t.splitOn 46

theorem segments_nil : segments [] = [[]] := List.splitOn_nil 46

theorem segments_dot (t : Text) : segments (46 :: t) = [] :: segments t := by
  rw [segments, List.splitOn_cons_eq_if_modifyHead, if_pos (beq_self_eq_true 46)]
  rfl

theorem exists_segments (t : Text) : ∃ seg rest, segments t = seg :: rest :=
  List.exists_cons_of_ne_nil (List.splitOn_ne_nil 46 t)

theorem segments_cons {c : UInt8} {t seg : Text} {rest : List Text} (hDot : c ≠ 46)
    (h : segments t = seg :: rest) : segments (c :: t) = (c :: seg) :: rest := by
  have hBeq : (c == 46) = false := beq_eq_false_iff_ne.mpr hDot
  have hSplit : t.splitOn 46 = seg :: rest := h
  rw [segments, List.splitOn_cons_eq_if_modifyHead, hBeq, hSplit]
  rfl

/-- What is left of a subject behind its first segment. -/
theorem segments_dropWhile {t seg : Text} {rest : List Text} (h : segments t = seg :: rest) :
    segments (t.dropWhile (· ≠ 46)) = [] :: rest := by
  induction t generalizing seg with
  | nil =>
      rw [segments_nil, List.cons.injEq] at h
      obtain ⟨-, rfl⟩ := h
      rfl
  | cons c t ih =>
      by_cases hDot : c = 46
      · subst hDot
        rw [segments_dot, List.cons.injEq] at h
        rw [List.dropWhile_cons_of_neg (by simp), segments_dot, h.2]
      · obtain ⟨x, xs, hx⟩ := exists_segments t
        rw [segments_cons hDot hx, List.cons.injEq] at h
        rw [List.dropWhile_cons_of_pos (by simpa using hDot)]
        exact ih (h.2 ▸ hx)

theorem segments_eq_singleton_nil {t : Text} : segments t = [[]] ↔ t = [] := by
  constructor
  · intro h
    have hJoin : List.intercalate [46] (t.splitOn 46) = t := List.intercalate_splitOn _
    have hSplit : t.splitOn 46 = [[]] := h
    rw [hSplit] at hJoin
    exact hJoin.symm
  · rintro rfl
    exact segments_nil

/-- A wildcard in front of its dot or its end is a segment. -/
theorem boundary_iff {t seg : Text} {rest : List Text} (h : segments t = seg :: rest) :
    (t.isEmpty || t.head? == some 46) = true ↔ seg = [] := by
  cases t with
  | nil =>
      rw [segments_nil, List.cons.injEq] at h
      simp [h.1.symm]
  | cons c t =>
      by_cases hDot : c = 46
      · subst hDot
        rw [segments_dot, List.cons.injEq] at h
        simp [h.1.symm]
      · obtain ⟨x, xs, hx⟩ := exists_segments t
        rw [segments_cons hDot hx, List.cons.injEq] at h
        simp [hDot, ← h.1]

theorem head_of_singleton {t seg : Text} {rest rest' : List Text} {c d : UInt8}
    (h : segments t = seg :: rest) (hCons : segments (c :: t) = [d] :: rest') :
    c = d ∧ seg = [] ∧ rest' = rest := by
  by_cases hc : c = 46
  · subst hc
    rw [segments_dot, List.cons.injEq] at hCons
    exact absurd hCons.1 (by simp)
  · rw [segments_cons hc h, List.cons.injEq, List.cons.injEq] at hCons
    exact ⟨hCons.1.1, hCons.1.2, hCons.2.symm⟩

/-- A character of a pattern against the one of a subject, where it is no wildcard. -/
theorem literal_iff {wild sub x y : Text} {ws ss : List Text} {c s : UInt8}
    (hRest : ∀ {x' y' : Text} {ws' ss' : List Text}, segments wild = x' :: ws' →
      segments sub = y' :: ss' → (∀ seg ∈ ss', seg ≠ []) →
      (matchRvWildcardFrom false wild sub = true ↔ x' = y' ∧ Covers ws' ss') ∧
        (y' ≠ [] → (matchRvWildcardFrom true wild sub = true ↔ Covers (x' :: ws') (y' :: ss'))))
    (hWild : segments (c :: wild) = x :: ws) (hSub : segments (s :: sub) = y :: ss)
    (hFull : ∀ seg ∈ ss, seg ≠ []) :
    (if c ≠ s then false else matchRvWildcardFrom (c == 46) wild sub) = true ↔
      x = y ∧ Covers ws ss := by
  obtain ⟨x', ws', hWild'⟩ := exists_segments wild
  obtain ⟨y', ss', hSub'⟩ := exists_segments sub
  by_cases hSame : c = s
  · subst hSame
    rw [if_neg (by simp)]
    by_cases hDot : c = 46
    · subst hDot
      rw [segments_dot, hWild', List.cons.injEq] at hWild
      rw [segments_dot, hSub', List.cons.injEq] at hSub
      obtain ⟨rfl, rfl⟩ := hWild
      obtain ⟨rfl, rfl⟩ := hSub
      have hTail := hRest hWild' hSub' fun seg hSeg => hFull seg (List.mem_cons_of_mem _ hSeg)
      rw [beq_self_eq_true, hTail.2 (hFull y' List.mem_cons_self)]
      simp
    · rw [segments_cons hDot hWild', List.cons.injEq] at hWild
      rw [segments_cons hDot hSub', List.cons.injEq] at hSub
      obtain ⟨rfl, rfl⟩ := hWild
      obtain ⟨rfl, rfl⟩ := hSub
      rw [beq_eq_false_iff_ne.mpr hDot, (hRest hWild' hSub' hFull).1]
      simp
  · rw [if_pos hSame]
    refine iff_of_false (by simp) ?_
    rintro ⟨rfl, -⟩
    by_cases hDot : c = 46
    · subst hDot
      rw [segments_dot, List.cons.injEq] at hWild
      rw [segments_cons (Ne.symm hSame) hSub', List.cons.injEq] at hSub
      exact absurd (hSub.1.trans hWild.1.symm) (by simp)
    · rw [segments_cons hDot hWild', List.cons.injEq] at hWild
      by_cases hDot' : s = 46
      · subst hDot'
        rw [segments_dot, List.cons.injEq] at hSub
        exact absurd (hWild.1.trans hSub.1.symm) (by simp)
      · rw [segments_cons hDot' hSub', List.cons.injEq] at hSub
        exact hSame (List.cons.inj (hWild.1.trans hSub.1.symm)).1

/-- The scan in the middle of a segment, and at the start of one. -/
theorem matchRvWildcardFrom_iff {wild sub x y : Text} {ws ss : List Text}
    (hWild : segments wild = x :: ws) (hSub : segments sub = y :: ss)
    (hFull : ∀ seg ∈ ss, seg ≠ []) :
    (matchRvWildcardFrom false wild sub = true ↔ x = y ∧ Covers ws ss) ∧
      (y ≠ [] → (matchRvWildcardFrom true wild sub = true ↔ Covers (x :: ws) (y :: ss))) := by
  induction wild generalizing sub x y ws ss with
  | nil =>
      rw [segments_nil, List.cons.injEq] at hWild
      obtain ⟨rfl, rfl⟩ := hWild
      have hEmpty : ∀ segment, matchRvWildcardFrom segment [] sub = true ↔ [] = y ∧ ss = [] := by
        intro segment
        rw [matchRvWildcardFrom, List.isEmpty_iff, ← segments_eq_singleton_nil, hSub,
          List.cons.injEq]
        exact and_congr_left' eq_comm
      refine ⟨?_, fun hNe => ?_⟩
      · rw [hEmpty, covers_nil_left]
      · rw [hEmpty, covers_literal (by decide) (by simp [tailSegment]), covers_nil_left]
  | cons c wild ih =>
      cases sub with
      | nil =>
          rw [segments_nil, List.cons.injEq] at hSub
          obtain ⟨rfl, rfl⟩ := hSub
          refine ⟨?_, fun hNe => absurd rfl hNe⟩
          refine iff_of_false (by simp [matchRvWildcardFrom]) ?_
          rintro ⟨rfl, hCovers⟩
          rw [covers_nil_right] at hCovers
          subst hCovers
          exact absurd (segments_eq_singleton_nil.mp hWild) (by simp)
      | cons s sub =>
          have hLiteral := literal_iff (fun h h' h'' => ih h h' h'') hWild hSub hFull
          obtain ⟨x', ws', hWild'⟩ := exists_segments wild
          have hStep : ∀ segment, matchRvWildcardFrom segment (c :: wild) (s :: sub) =
              if c == 62 && segment && wild.isEmpty then true
              else if c == 42 && segment && (wild.isEmpty || wild.head? == some 46) then
                matchRvWildcardFrom false wild ((s :: sub).dropWhile (· ≠ 46))
              else if c ≠ s then false
              else matchRvWildcardFrom (c == 46) wild sub := fun _ => rfl
          refine ⟨?_, fun hNe => ?_⟩
          · rw [hStep, Bool.and_false, Bool.and_false]
            exact hLiteral
          · rw [hStep, Bool.and_true, Bool.and_true]
            by_cases hTail : c = 62 ∧ wild = []
            · -- a `>` at the end takes what is left of the subject
              obtain ⟨rfl, rfl⟩ := hTail
              rw [segments_cons (by decide) segments_nil, List.cons.injEq] at hWild
              obtain ⟨rfl, rfl⟩ := hWild
              exact iff_of_true rfl (.rest y ss)
            · have hNotTail : (c == 62 && wild.isEmpty) = false := by
                rw [Bool.and_eq_false_iff, beq_eq_false_iff_ne, Bool.eq_false_iff]
                simpa [imp_iff_not_or] using hTail
              rw [hNotTail, if_neg Bool.false_ne_true]
              by_cases hStar : c = 42 ∧ x' = []
              · -- a `*` that is a segment takes the rest of the subject's segment
                obtain ⟨rfl, rfl⟩ := hStar
                rw [segments_cons (by decide) hWild', List.cons.injEq] at hWild
                obtain ⟨rfl, rfl⟩ := hWild
                rw [(boundary_iff hWild').mpr rfl, if_pos (by rfl),
                  (ih hWild' (segments_dropWhile hSub) hFull).1]
                exact (and_iff_right rfl).trans covers_star.symm
              · have hNotStar : (c == 42 && (wild.isEmpty || wild.head? == some 46)) = false := by
                  rw [Bool.eq_false_iff, ne_eq, Bool.and_eq_true, beq_iff_eq, boundary_iff hWild']
                  exact hStar
                rw [hNotStar, if_neg Bool.false_ne_true, hLiteral, covers_literal]
                · rintro rfl
                  obtain ⟨hHead, hSeg, -⟩ := head_of_singleton hWild' hWild
                  exact hStar ⟨hHead, hSeg⟩
                · rintro rfl rfl
                  obtain ⟨hHead, rfl, rfl⟩ := head_of_singleton hWild' hWild
                  exact hTail ⟨hHead, segments_eq_singleton_nil.mp hWild'⟩

/-- A segment `*`, or a last segment `>`. -/
def wildSegments : List Text → Bool
  | [] => false
  | seg :: rest => seg == starSegment || (seg == tailSegment && rest.isEmpty) || wildSegments rest

/-- The scan for a wildcard in the middle of a segment, and at the start of one. -/
theorem isRvWildcardFrom_segments {t seg : Text} {rest : List Text} (h : segments t = seg :: rest) :
    isRvWildcardFrom false t = wildSegments rest ∧
      isRvWildcardFrom true t = wildSegments (seg :: rest) := by
  induction t generalizing seg rest with
  | nil =>
      rw [segments_nil, List.cons.injEq] at h
      obtain ⟨rfl, rfl⟩ := h
      exact ⟨rfl, rfl⟩
  | cons c t ih =>
      obtain ⟨next, more, hNext⟩ := exists_segments t
      by_cases hDot : c = 46
      · subst hDot
        rw [segments_dot, hNext, List.cons.injEq] at h
        obtain ⟨rfl, rfl⟩ := h
        have hRest := (ih hNext).2
        constructor <;> simp [isRvWildcardFrom, hRest, wildSegments, starSegment, tailSegment]
      · rw [segments_cons hDot hNext, List.cons.injEq] at h
        obtain ⟨rfl, rfl⟩ := h
        have hRest := (ih hNext).1
        have hBound : (t.isEmpty || t.head? == some 46) = next.isEmpty := by
          rw [Bool.eq_iff_iff, boundary_iff hNext, List.isEmpty_iff]
        have hEnd : t.isEmpty = (next.isEmpty && more.isEmpty) := by
          rw [Bool.eq_iff_iff, List.isEmpty_iff, ← segments_eq_singleton_nil, hNext]
          simp
        have hOne : ∀ d : UInt8, (c :: next == [d]) = (c == d && next.isEmpty) := by
          intro d
          cases next <;> simp
        have hSame : (c == 46) = false := beq_eq_false_iff_ne.mpr hDot
        constructor
        · simp [isRvWildcardFrom, hSame, hRest]
        · simp only [isRvWildcardFrom, hSame, hRest, hBound, Bool.and_true]
          simp only [hEnd, wildSegments, starSegment, tailSegment, hOne]
          rw [Bool.or_comm (c == 62 && _), Bool.and_assoc]

theorem isRvWildcard_segments (t : Text) : isRvWildcard t = wildSegments (segments t) := by
  obtain ⟨seg, rest, h⟩ := exists_segments t
  rw [h]
  exact (isRvWildcardFrom_segments h).2

/-- The segments that a subject has to match. `>` takes one segment at least. -/
theorem matchRvWildcard_segments (wild sub : Text) (hFull : ∀ seg ∈ segments sub, seg ≠ []) :
    matchRvWildcard wild sub = true ↔ Covers (segments wild) (segments sub) := by
  obtain ⟨x, ws, hWild⟩ := exists_segments wild
  obtain ⟨y, ss, hSub⟩ := exists_segments sub
  rw [hSub] at hFull
  rw [hWild, hSub]
  exact (matchRvWildcardFrom_iff hWild hSub fun seg hSeg => hFull seg (List.mem_cons_of_mem _ hSeg)).2
    (hFull y List.mem_cons_self)

/-- A pattern without a wildcard is compared as it is. -/
theorem matchRvWildcardFrom_literal {segment : Bool} {wild sub : Text}
    (h : isRvWildcardFrom segment wild = false) :
    matchRvWildcardFrom segment wild sub = true ↔ wild = sub := by
  induction wild generalizing segment sub with
  | nil =>
      rw [matchRvWildcardFrom, List.isEmpty_iff]
      exact eq_comm
  | cons w wild ih =>
      rw [isRvWildcardFrom, Bool.or_eq_false_iff, Bool.or_eq_false_iff] at h
      obtain ⟨⟨hTail, hStar⟩, hRest⟩ := h
      cases sub with
      | nil => simp [matchRvWildcardFrom]
      | cons s sub =>
          rw [matchRvWildcardFrom, hTail, hStar, if_neg Bool.false_ne_true,
            if_neg Bool.false_ne_true]
          by_cases hSame : w = s
          · rw [if_neg (not_not.mpr hSame), ih hRest, hSame, List.cons.injEq]
            exact (and_iff_right rfl).symm
          · rw [if_pos hSame]
            exact iff_of_false (by simp) fun hEq => hSame (List.cons.inj hEq).1

theorem match_rv_wildcard_by_segments (wild sub : Text) :
    ((∀ seg ∈ segments sub, seg ≠ []) →
      (matchRvWildcard wild sub = true ↔ Covers (segments wild) (segments sub))) ∧
    (isRvWildcard wild = false → (matchRvWildcard wild sub = true ↔ wild = sub)) :=
  ⟨matchRvWildcard_segments wild sub, matchRvWildcardFrom_literal⟩

theorem match_rv_wildcard_by_segments_quotes :
    matchRvWildcard (text "RDF.*.>") (text "RDF.EQ.IBM.N") = true ∧
    (matchRvWildcard (text "RDF*.>.N") (text "RDF*.>.N") = true) := by
  have hFirst := (match_rv_wildcard_by_segments (text "RDF.*.>") (text "RDF.EQ.IBM.N")).1 (by decide)
  have hSecond := (match_rv_wildcard_by_segments (text "RDF*.>.N") (text "RDF*.>.N")).2 (by decide)
  refine ⟨hFirst.mpr ?_, hSecond.mpr rfl⟩
  exact .same (text "RDF") (.any (text "EQ") (.rest (text "IBM") [text "N"]))

end Sassrv.SubMgr
