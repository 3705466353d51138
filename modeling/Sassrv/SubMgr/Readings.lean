import Mathlib.Data.List.TakeWhile
import Sassrv.SubMgr.Text

/-! When subjects that are matched against patterns match all that another pattern does. A `>`
at the end of a pattern reads as any number of segments `*`, behind which there may be one more
dot. A pattern without it is covered by a subject that matches it as a text, for a segment that
nobody has heard of can stand for each of its `*`. -/
namespace Sassrv.SubMgr

/-- The head of a pattern is a `>` that takes the rest of a subject. -/
def isTail (segment : Bool) (w : UInt8) (ws : Text) : Bool := w == 62 && segment && ws.isEmpty

/-- The head of a pattern is a `*` that is a segment. -/
def isStar (segment : Bool) (w : UInt8) (ws : Text) : Bool :=
  w == 42 && segment && (ws.isEmpty || ws.head? == some 46)

theorem matchRvWildcardFrom_cons (segment : Bool) (w s : UInt8) (ws ss : Text) :
    matchRvWildcardFrom segment (w :: ws) (s :: ss) =
      if isTail segment w ws then true
      else if isStar segment w ws then matchRvWildcardFrom false ws ((s :: ss).dropWhile (· ≠ 46))
      else if w ≠ s then false
      else matchRvWildcardFrom (w == 46) ws ss := rfl

variable {segment dot : Bool} {n : Nat} {c w s : UInt8} {t x y ws ss sub wild f : Text}

theorem isTail_false : isTail false w ws = false := by simp [isTail]

theorem isStar_false : isStar false w ws = false := by simp [isStar]

theorem isStar_iff : isStar segment w ws = true ↔
    w = 42 ∧ segment = true ∧ (ws = [] ∨ ∃ rest, ws = 46 :: rest) := by
  simp only [isStar, Bool.and_eq_true, beq_iff_eq, Bool.or_eq_true, List.isEmpty_iff,
    List.head?_eq_some_iff, and_assoc]

/-- Behind a `*` there is nothing or a dot. -/
theorem dropWhile_of_isStar (h : isStar segment w ws = true) :
    (w :: ws).dropWhile (· ≠ 46) = ws := by
  obtain ⟨rfl, -, hNext⟩ := isStar_iff.mp h
  rw [List.dropWhile_cons_of_pos (by decide)]
  rcases hNext with rfl | ⟨rest, rfl⟩
  · rfl
  · exact List.dropWhile_cons_of_neg (by simp)

theorem matchRvWildcardFrom_literal_cons (hTail : isTail segment w ws = false)
    (hStar : isStar segment w ws = false) :
    matchRvWildcardFrom segment (w :: ws) (s :: ss) = true ↔
      w = s ∧ matchRvWildcardFrom (w == 46) ws ss = true := by
  rw [matchRvWildcardFrom_cons, hTail, hStar, if_neg Bool.false_ne_true, if_neg Bool.false_ne_true]
  by_cases hSame : w = s
  · rw [if_neg (not_not.mpr hSame)]
    exact (and_iff_right hSame).symm
  · rw [if_pos hSame]
    exact iff_of_false Bool.false_ne_true fun h => hSame h.1

theorem matchRvWildcardFrom_star (hStar : isStar segment w ws = true) :
    matchRvWildcardFrom segment (w :: ws) (s :: ss) =
      matchRvWildcardFrom false ws ((s :: ss).dropWhile (· ≠ 46)) := by
  have hTail : isTail segment w ws = false := by
    rw [(isStar_iff.mp hStar).1]
    simp [isTail]
  rw [matchRvWildcardFrom_cons, hTail, hStar, if_neg Bool.false_ne_true, if_pos rfl]

theorem matchRvWildcardFrom_nil_left :
    matchRvWildcardFrom segment [] sub = true ↔ sub = [] := by
  rw [matchRvWildcardFrom, List.isEmpty_iff]

/-- In the middle of a segment there are no wildcards. -/
theorem matchRvWildcardFrom_middle :
    matchRvWildcardFrom false (w :: ws) (s :: ss) = true ↔
      w = s ∧ matchRvWildcardFrom (w == 46) ws ss = true :=
  matchRvWildcardFrom_literal_cons isTail_false isStar_false

/-- A pattern matches itself. -/
theorem matchRvWildcardFrom_self (segment : Bool) (t : Text) :
    matchRvWildcardFrom segment t t = true := by
  induction t generalizing segment with
  | nil => rfl
  | cons c t ih =>
      rw [matchRvWildcardFrom_cons]
      by_cases hTail : isTail segment c t = true
      · rw [if_pos hTail]
      · rw [if_neg hTail]
        by_cases hStar : isStar segment c t = true
        · rw [if_pos hStar, dropWhile_of_isStar hStar]
          exact ih false
        · rw [if_neg hStar, if_neg (not_not.mpr rfl)]
          exact ih _

theorem matchRvWildcard_self (t : Text) : matchRvWildcard t t = true :=
  matchRvWildcardFrom_self true t

/-- The rest of a segment of a pattern matches the rest of a segment of a subject. -/
theorem matchRvWildcardFrom_dropWhile (h : matchRvWildcardFrom false t sub = true) :
    matchRvWildcardFrom false (t.dropWhile (· ≠ 46)) (sub.dropWhile (· ≠ 46)) = true := by
  induction t generalizing sub with
  | nil =>
      obtain rfl := matchRvWildcardFrom_nil_left.mp h
      rfl
  | cons c t ih =>
      cases sub with
      | nil => cases h
      | cons s sub =>
          by_cases hDot : c = 46
          · obtain ⟨rfl, -⟩ := matchRvWildcardFrom_middle.mp h
            rw [List.dropWhile_cons_of_neg (by simpa using hDot),
              List.dropWhile_cons_of_neg (by simpa using hDot)]
            exact h
          · obtain ⟨rfl, hRest⟩ := matchRvWildcardFrom_middle.mp h
            rw [List.dropWhile_cons_of_pos (by simpa using hDot),
              List.dropWhile_cons_of_pos (by simpa using hDot)]
            rw [beq_eq_false_iff_ne.mpr hDot] at hRest
            exact ih hRest

/-- The text ends with a `>` that takes the rest of a subject. -/
def endsTailFrom (segment : Bool) : Text → Bool
  | [] => false
  | w :: ws => isTail segment w ws || endsTailFrom (w == 46) ws

theorem endsTailFrom_dropWhile (h : endsTailFrom segment t = false) :
    endsTailFrom false (t.dropWhile (· ≠ 46)) = false := by
  induction t generalizing segment with
  | nil => rfl
  | cons c t ih =>
      obtain ⟨-, hRest⟩ := Bool.or_eq_false_iff.mp h
      by_cases hDot : c = 46
      · rw [List.dropWhile_cons_of_neg (by simpa using hDot)]
        exact Bool.or_eq_false_iff.mpr ⟨isTail_false, hRest⟩
      · rw [List.dropWhile_cons_of_pos (by simpa using hDot)]
        exact ih hRest

/-- The first segment of a pattern and what it takes of a subject are left behind. -/
theorem matchRvWildcardFrom_segment (hTail : isTail segment w ws = false)
    (h : matchRvWildcardFrom segment (w :: ws) (s :: ss) = true) :
    matchRvWildcardFrom false ((w :: ws).dropWhile (· ≠ 46)) ((s :: ss).dropWhile (· ≠ 46)) = true := by
  by_cases hStar : isStar segment w ws = true
  · rw [matchRvWildcardFrom_star hStar] at h
    rw [dropWhile_of_isStar hStar]
    exact h
  · rw [Bool.not_eq_true] at hStar
    obtain ⟨rfl, hRest⟩ := (matchRvWildcardFrom_literal_cons hTail hStar).mp h
    exact matchRvWildcardFrom_dropWhile (matchRvWildcardFrom_middle.mpr ⟨rfl, hRest⟩)

/-- A `*` that a pattern has as a character is none in a text that the pattern matches. -/
theorem isStar_of_literal (hStar : isStar segment w t = false)
    (h : matchRvWildcardFrom (w == 46) t ws = true) : isStar segment w ws = false := by
  by_contra hNot
  rw [Bool.not_eq_false] at hNot
  obtain ⟨rfl, rfl, hNext⟩ := isStar_iff.mp hNot
  have hOther : ¬ (t = [] ∨ ∃ rest, t = 46 :: rest) := fun hSame => by
    rw [isStar_iff.mpr ⟨rfl, rfl, hSame⟩] at hStar
    cases hStar
  rcases t with _ | ⟨c, t⟩
  · exact hOther (.inl rfl)
  · rcases hNext with rfl | ⟨rest, rfl⟩
    · cases h
    · obtain ⟨rfl, -⟩ := matchRvWildcardFrom_middle.mp h
      exact hOther (.inr ⟨t, rfl⟩)

/-- The subjects that match a pattern without a `>` at its end are those of every pattern that
it matches as a text. -/
theorem matchRvWildcardFrom_trans (hEnd : endsTailFrom segment x = false)
    (hPattern : matchRvWildcardFrom segment t x = true)
    (hSubject : matchRvWildcardFrom segment x sub = true) :
    matchRvWildcardFrom segment t sub = true := by
  induction t generalizing segment x sub with
  | nil =>
      obtain rfl := matchRvWildcardFrom_nil_left.mp hPattern
      exact hSubject
  | cons c t ih =>
      cases x with
      | nil => cases hPattern
      | cons d x =>
          cases sub with
          | nil => cases hSubject
          | cons s sub =>
              obtain ⟨hNotTail, hRestEnd⟩ := Bool.or_eq_false_iff.mp hEnd
              by_cases hTail : isTail segment c t = true
              · rw [matchRvWildcardFrom_cons, if_pos hTail]
              · by_cases hStar : isStar segment c t = true
                · -- the segment of the pattern is left behind in the text and in the subject
                  rw [matchRvWildcardFrom_star hStar] at hPattern ⊢
                  refine ih (endsTailFrom_dropWhile hEnd) hPattern ?_
                  exact matchRvWildcardFrom_segment hNotTail hSubject
                · rw [Bool.not_eq_true] at hTail hStar
                  obtain ⟨rfl, hRest⟩ := (matchRvWildcardFrom_literal_cons hTail hStar).mp hPattern
                  have hPlain := isStar_of_literal hStar hRest
                  obtain ⟨rfl, hSub⟩ := (matchRvWildcardFrom_literal_cons hNotTail hPlain).mp hSubject
                  exact (matchRvWildcardFrom_literal_cons hTail hStar).mpr
                    ⟨rfl, ih hRestEnd hRest hSub⟩

/-- Segments `*`, with a dot behind them or not. -/
def starTail (dot : Bool) : Nat → Text
  | 0 => 42 :: if dot then [46] else []
  | n + 1 => 42 :: 46 :: starTail dot n

/-- The pattern with another text in place of the `>` at its end. -/
def readTailFrom (tail : Text) (segment : Bool) : Text → Text
  | [] => []
  | w :: ws => if isTail segment w ws then tail else w :: readTailFrom tail (w == 46) ws

/-- A pattern that `>` at the end stands for. -/
def Reading (wild x : Text) : Prop := ∃ dot n, x = readTailFrom (starTail dot n) true wild

theorem starTail_eq_cons (dot : Bool) (n : Nat) : ∃ rest, starTail dot n = 42 :: rest := by
  cases n with
  | zero => exact ⟨_, rfl⟩
  | succ n => exact ⟨_, rfl⟩

/-- Some number of segments matches whatever there is. -/
theorem exists_starTail (h : sub ≠ []) :
    ∃ dot n, matchRvWildcardFrom true (starTail dot n) sub = true := by
  induction hLength : sub.length using Nat.strongRecOn generalizing sub with
  | _ length ih =>
      obtain ⟨s, ss, rfl⟩ := List.exists_cons_of_ne_nil h
      cases hRest : (s :: ss).dropWhile (· ≠ 46) with
      | nil =>
          refine ⟨false, 0, ?_⟩
          rw [starTail, matchRvWildcardFrom_star (by rfl), hRest]
          rfl
      | cons c more =>
          have hDot : c = 46 := by
            have hHead := List.head?_dropWhile_not (· ≠ 46) (s :: ss)
            rw [hRest] at hHead
            simpa using hHead
          subst hDot
          by_cases hMore : more = []
          · subst hMore
            refine ⟨true, 0, ?_⟩
            rw [starTail, matchRvWildcardFrom_star (by rfl), hRest]
            rfl
          · have hShort : more.length < length := by
              have hLe := List.length_dropWhile_le (· ≠ 46) (s :: ss)
              rw [hRest, hLength] at hLe
              exact hLe
            obtain ⟨dot, n, hMatch⟩ := ih _ hShort hMore rfl
            refine ⟨dot, n + 1, ?_⟩
            rw [starTail, matchRvWildcardFrom_star (by rfl), hRest]
            exact matchRvWildcardFrom_middle.mpr ⟨rfl, hMatch⟩

/-- Another text at the end of a pattern leaves the characters in front of it what they are. -/
theorem isStar_readTail :
    isStar segment w (readTailFrom y (w == 46) ws) = isStar segment w ws := by
  by_cases hStar : w = 42
  · subst hStar
    cases ws with
    | nil => rfl
    | cons c ws =>
        have hHead : readTailFrom y false (c :: ws) = c :: readTailFrom y (c == 46) ws := by
          rw [readTailFrom, isTail_false, if_neg Bool.false_ne_true]
        change isStar segment 42 (readTailFrom y false (c :: ws)) = _
        rw [hHead]
        rfl
  · simp only [isStar, beq_eq_false_iff_ne.mpr hStar, Bool.false_and]

theorem isTail_readTail :
    isTail segment w (readTailFrom y (w == 46) ws) = isTail segment w ws := by
  by_cases hTail : w = 62
  · subst hTail
    cases ws with
    | nil => rfl
    | cons c ws =>
        have hHead : readTailFrom y false (c :: ws) = c :: readTailFrom y (c == 46) ws := by
          rw [readTailFrom, isTail_false, if_neg Bool.false_ne_true]
        change isTail segment 62 (readTailFrom y false (c :: ws)) = _
        rw [hHead]
        rfl
  · simp only [isTail, beq_eq_false_iff_ne.mpr hTail, Bool.false_and]

/-- A pattern matches what its readings match. -/
theorem matchRvWildcardFrom_reading (segment : Bool) (wild sub : Text) :
    matchRvWildcardFrom segment wild sub = true ↔
      ∃ dot n, matchRvWildcardFrom segment (readTailFrom (starTail dot n) segment wild) sub = true := by
  induction wild generalizing segment sub with
  | nil => simp [readTailFrom]
  | cons w wild ih =>
      cases sub with
      | nil =>
          refine iff_of_false Bool.false_ne_true ?_
          rintro ⟨dot, n, hMatch⟩
          rw [readTailFrom] at hMatch
          obtain ⟨rest, hRest⟩ := starTail_eq_cons dot n
          split at hMatch
          · rw [hRest] at hMatch
            cases hMatch
          · cases hMatch
      | cons s sub =>
          by_cases hTail : isTail segment w wild = true
          · have hSegment : segment = true := by
              simp only [isTail, Bool.and_eq_true] at hTail
              exact hTail.1.2
            subst hSegment
            rw [matchRvWildcardFrom_cons, if_pos hTail]
            obtain ⟨dot, n, hMatch⟩ := exists_starTail (List.cons_ne_nil s sub)
            refine iff_of_true rfl ⟨dot, n, ?_⟩
            rw [readTailFrom, if_pos hTail]
            exact hMatch
          · rw [Bool.not_eq_true] at hTail
            by_cases hStar : isStar segment w wild = true
            · have hEach : ∀ dot n, matchRvWildcardFrom segment
                  (readTailFrom (starTail dot n) segment (w :: wild)) (s :: sub) =
                  matchRvWildcardFrom false (readTailFrom (starTail dot n) false wild)
                    ((s :: sub).dropWhile (· ≠ 46)) := by
                intro dot n
                obtain ⟨rfl, -, -⟩ := isStar_iff.mp hStar
                rw [readTailFrom, hTail, if_neg Bool.false_ne_true, matchRvWildcardFrom_star]
                · rfl
                · exact isStar_readTail.trans hStar
              rw [matchRvWildcardFrom_star hStar, ih]
              simp only [hEach]
            · rw [Bool.not_eq_true] at hStar
              rw [matchRvWildcardFrom_literal_cons hTail hStar, ih]
              have hEach : ∀ dot n, matchRvWildcardFrom segment
                  (readTailFrom (starTail dot n) segment (w :: wild)) (s :: sub) = true ↔
                  w = s ∧ matchRvWildcardFrom (w == 46)
                    (readTailFrom (starTail dot n) (w == 46) wild) sub = true := by
                intro dot n
                rw [readTailFrom, hTail, if_neg Bool.false_ne_true]
                exact matchRvWildcardFrom_literal_cons (isTail_readTail.trans hTail)
                  (isStar_readTail.trans hStar)
              simp only [hEach]
              constructor
              · rintro ⟨hSame, dot, n, hMatch⟩
                exact ⟨dot, n, hSame, hMatch⟩
              · rintro ⟨dot, n, hSame, hMatch⟩
                exact ⟨hSame, dot, n, hMatch⟩

theorem matchRvWildcard_reading (wild sub : Text) :
    matchRvWildcard wild sub = true ↔ ∃ x, Reading wild x ∧ matchRvWildcard x sub = true := by
  rw [matchRvWildcard, matchRvWildcardFrom_reading]
  constructor
  · rintro ⟨dot, n, hMatch⟩
    exact ⟨_, ⟨dot, n, rfl⟩, hMatch⟩
  · rintro ⟨x, ⟨dot, n, rfl⟩, hMatch⟩
    exact ⟨dot, n, hMatch⟩

/-- Segments `*` do not end with a `>`. -/
theorem endsTailFrom_starTail (dot : Bool) (n : Nat) (segment : Bool) :
    endsTailFrom segment (starTail dot n) = false := by
  induction n generalizing segment with
  | zero =>
      cases dot <;> rfl
  | succ n ih =>
      have hRest : endsTailFrom true (starTail dot n) = false := ih true
      simpa [starTail, endsTailFrom, isTail] using hRest

theorem endsTailFrom_reading (dot : Bool) (n : Nat) (segment : Bool) (wild : Text) :
    endsTailFrom segment (readTailFrom (starTail dot n) segment wild) = false := by
  induction wild generalizing segment with
  | nil => rfl
  | cons w wild ih =>
      by_cases hTail : isTail segment w wild = true
      · rw [readTailFrom, if_pos hTail]
        exact endsTailFrom_starTail dot n segment
      · rw [Bool.not_eq_true] at hTail
        rw [readTailFrom, hTail, if_neg Bool.false_ne_true]
        exact Bool.or_eq_false_iff.mpr ⟨isTail_readTail.trans hTail, ih _⟩

/-- The subject that has the segment `f` for every `*`. -/
def fillFrom (f : Text) (segment : Bool) : Text → Text
  | [] => []
  | w :: ws => if isStar segment w ws then f ++ fillFrom f false ws else w :: fillFrom f (w == 46) ws

theorem dropWhile_segment (hDots : 46 ∉ f) (t : Text) :
    (f ++ t).dropWhile (· ≠ 46) = t.dropWhile (· ≠ 46) := by
  refine List.dropWhile_append_of_pos fun c hMem => ?_
  simp only [ne_eq, decide_eq_true_eq]
  rintro rfl
  exact hDots hMem

theorem dropWhile_fillFrom (hDots : 46 ∉ f) (segment : Bool) (x : Text) :
    (fillFrom f segment x).dropWhile (· ≠ 46) = fillFrom f false (x.dropWhile (· ≠ 46)) := by
  induction x generalizing segment with
  | nil => rfl
  | cons w x ih =>
      by_cases hStar : isStar segment w x = true
      · obtain ⟨rfl, -, -⟩ := isStar_iff.mp hStar
        rw [fillFrom, if_pos hStar, dropWhile_segment hDots, ih,
          List.dropWhile_cons_of_pos (by decide)]
      · rw [fillFrom, if_neg hStar]
        by_cases hDot : w = 46
        · subst hDot
          rw [List.dropWhile_cons_of_neg (by simp), List.dropWhile_cons_of_neg (by simp), fillFrom,
            isStar_false, if_neg Bool.false_ne_true]
        · rw [List.dropWhile_cons_of_pos (by simpa using hDot),
            List.dropWhile_cons_of_pos (by simpa using hDot)]
          exact ih _

theorem fillFrom_cons (hLong : f ≠ []) (segment : Bool) (w : UInt8) (x : Text) :
    ∃ c rest, fillFrom f segment (w :: x) = c :: rest := by
  rw [fillFrom]
  split
  · obtain ⟨c, rest, rfl⟩ := List.exists_cons_of_ne_nil hLong
    exact ⟨c, _, rfl⟩
  · exact ⟨w, _, rfl⟩

/-- The subject is one that the pattern matches. -/
theorem matchRvWildcardFrom_fill (hLong : f ≠ []) (hDots : 46 ∉ f) (segment : Bool) (x : Text) :
    matchRvWildcardFrom segment x (fillFrom f segment x) = true := by
  induction x generalizing segment with
  | nil => rfl
  | cons w x ih =>
      by_cases hStar : isStar segment w x = true
      · obtain ⟨c, rest, hCons⟩ := fillFrom_cons hLong segment w x
        have hDrop := dropWhile_fillFrom hDots segment (w :: x)
        rw [dropWhile_of_isStar hStar] at hDrop
        rw [hCons] at hDrop ⊢
        rw [matchRvWildcardFrom_star hStar, hDrop]
        exact ih false
      · rw [fillFrom, if_neg hStar]
        by_cases hTail : isTail segment w x = true
        · rw [matchRvWildcardFrom_cons, if_pos hTail]
        · rw [Bool.not_eq_true] at hTail hStar
          exact (matchRvWildcardFrom_literal_cons hTail hStar).mpr ⟨rfl, ih _⟩

/-- A text that is shorter than a segment has no place for it. -/
theorem matchRvWildcardFrom_short (hShort : t.length < f.length) (hDots : 46 ∉ f) (y : Text) :
    matchRvWildcardFrom false t (f ++ y) = false := by
  induction t generalizing f with
  | nil =>
      obtain ⟨c, rest, rfl⟩ := List.exists_cons_of_length_pos hShort
      rfl
  | cons w t ih =>
      obtain ⟨c, rest, rfl⟩ := List.exists_cons_of_length_pos (Nat.zero_lt_of_lt hShort)
      rw [Bool.eq_false_iff]
      intro hMatch
      rw [List.cons_append] at hMatch
      obtain ⟨rfl, hRest⟩ := matchRvWildcardFrom_middle.mp hMatch
      obtain ⟨hDot, hMore⟩ := not_or.mp (mt List.mem_cons.mpr hDots)
      rw [beq_eq_false_iff_ne.mpr (Ne.symm hDot), ih (Nat.lt_of_succ_lt_succ hShort) hMore] at hRest
      cases hRest

/-- A text that matches a subject with new segments has wildcards in their places. -/
theorem matchRvWildcardFrom_of_fill (hShort : t.length < f.length) (hDots : 46 ∉ f)
    (h : matchRvWildcardFrom segment t (fillFrom f segment x) = true) :
    matchRvWildcardFrom segment t x = true := by
  have hLong : f ≠ [] := List.ne_nil_of_length_pos (Nat.zero_lt_of_lt hShort)
  induction t generalizing segment x with
  | nil =>
      cases x with
      | nil => rfl
      | cons d x =>
          obtain ⟨c, rest, hCons⟩ := fillFrom_cons hLong segment d x
          rw [hCons] at h
          cases h
  | cons w t ih =>
      have hNext : t.length < f.length := Nat.lt_of_succ_lt hShort
      cases x with
      | nil => cases h
      | cons d x =>
          by_cases hTail : isTail segment w t = true
          · rw [matchRvWildcardFrom_cons, if_pos hTail]
          · by_cases hStar : isStar segment w t = true
            · obtain ⟨c, rest, hCons⟩ := fillFrom_cons hLong segment d x
              have hDrop := dropWhile_fillFrom hDots segment (d :: x)
              rw [hCons] at hDrop h
              rw [matchRvWildcardFrom_star hStar, hDrop] at h
              rw [matchRvWildcardFrom_star hStar]
              exact ih hNext h
            · rw [Bool.not_eq_true] at hTail hStar
              by_cases hFill : isStar segment d x = true
              · -- the new segment would have to stand in the text
                obtain ⟨c, rest, rfl⟩ := List.exists_cons_of_ne_nil hLong
                rw [fillFrom, if_pos hFill, List.cons_append] at h
                obtain ⟨rfl, hRest⟩ := (matchRvWildcardFrom_literal_cons hTail hStar).mp h
                obtain ⟨hDot, hMore⟩ := not_or.mp (mt List.mem_cons.mpr hDots)
                rw [beq_eq_false_iff_ne.mpr (Ne.symm hDot),
                  matchRvWildcardFrom_short (Nat.lt_of_succ_lt_succ hShort) hMore] at hRest
                cases hRest
              · rw [fillFrom, if_neg hFill] at h
                obtain ⟨rfl, hRest⟩ := (matchRvWildcardFrom_literal_cons hTail hStar).mp h
                exact (matchRvWildcardFrom_literal_cons hTail hStar).mpr ⟨rfl, ih hNext hRest⟩

/-- Every subject of the pattern matches one of the texts. -/
def CoveredBy (texts : List Text) (wild : Text) : Prop :=
  ∀ sub, matchRvWildcard wild sub = true → ∃ t ∈ texts, matchRvWildcard t sub = true

/-- The texts cover a pattern exactly when they match its readings. -/
theorem coveredBy_iff (texts : List Text) (wild : Text) :
    CoveredBy texts wild ↔ ∀ x, Reading wild x → ∃ t ∈ texts, matchRvWildcard t x = true := by
  constructor
  · intro hCovered x hReading
    obtain ⟨bound, hBound⟩ : ∃ bound, ∀ t ∈ texts, t.length ≤ bound :=
      ⟨texts.flatten.length, fun t hMem => (List.sublist_flatten_of_mem hMem).length_le⟩
    have hDots : 46 ∉ List.replicate (bound + 1) (120 : UInt8) := by
      rw [List.mem_replicate]
      rintro ⟨-, hEq⟩
      cases hEq
    have hLong : List.replicate (bound + 1) (120 : UInt8) ≠ [] := List.cons_ne_nil _ _
    have hMatch := matchRvWildcardFrom_fill hLong hDots true x
    obtain ⟨t, hMem, hText⟩ := hCovered _ ((matchRvWildcard_reading wild _).mpr ⟨x, hReading, hMatch⟩)
    refine ⟨t, hMem, matchRvWildcardFrom_of_fill ?_ hDots hText⟩
    rw [List.length_replicate]
    exact Nat.lt_succ_of_le (hBound t hMem)
  · intro hReadings sub hSub
    obtain ⟨x, hReading, hMatch⟩ := (matchRvWildcard_reading wild sub).mp hSub
    obtain ⟨t, hMem, hText⟩ := hReadings x hReading
    obtain ⟨dot, n, rfl⟩ := hReading
    exact ⟨t, hMem, matchRvWildcardFrom_trans (endsTailFrom_reading dot n true wild) hText hMatch⟩

end Sassrv.SubMgr
