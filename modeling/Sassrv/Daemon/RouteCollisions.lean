import Mathlib
import Sassrv.Daemon.Routes

/-! The collisions that a connection reports over its life: `L` and `C` messages in any
order, then `rem_all_sub`. The routes of exact subjects and those of pattern prefixes are
apart. -/
namespace Sassrv.Daemon.Routes
open SubMgr Client Matching Transition Collisions

variable {Regex : Type}

inductive Input (Regex : Type) where
  /-- An `L` message, with what the libraries do for it. -/
  | listen (o : Installer Regex) (sub : Text) (isWild : Bool)
  /-- A `C` message. -/
  | cancel (sub : Text) (isWild : Bool)

def handle (env : Env Regex) (c : Connection Regex) : Input Regex → Connection Regex × List Call
  | .listen o sub isWild => addSub o env c sub isWild
  | .cancel sub isWild => remSub env c sub isWild

/-- A connection without subscriptions. -/
def connection (env : Env Regex) : System (Connection Regex) (Input Regex) Call where
  init := fun c => c.subTab = .empty ∧ c.patTab = .empty
  step := fun c input calls c' => handle env c input = (c', calls)

/-- Every pattern that converts can be installed. -/
def Succeeds (env : Env Regex) (c : Connection Regex) : Input Regex → Prop
  | .listen o sub true =>
      ∀ l, env.convertRv (c.pre ++ sub) = some l → (install o (c.pre ++ sub) l).isSome
  | _ => True

/-- The calls for exact subjects. A key is a hash with the subject that has it. -/
def Call.subChange : Call → Option (Change Key)
  | .addSub subject hash coll => some (.add (hash, subject) coll)
  | .delSub subject hash coll => some (.del (hash, subject) coll)
  | _ => none

/-- The calls for patterns. A key is the hash of a prefix with the pattern. -/
def Call.patChange : Call → Option (Change Key)
  | .addPat pattern hash coll => some (.add (hash, pattern) coll)
  | .delPat pattern hash coll => some (.del (hash, pattern) coll)
  | _ => none

def subChanges (calls : List Call) : List (Change Key) := calls.filterMap Call.subChange

def patChanges (calls : List Call) : List (Change Key) := calls.filterMap Call.patChange

theorem subChanges_append (xs ys : List Call) :
    subChanges (xs ++ ys) = subChanges xs ++ subChanges ys := List.filterMap_append

theorem patChanges_append (xs ys : List Call) :
    patChanges (xs ++ ys) = patChanges xs ++ patChanges ys := List.filterMap_append

variable {env : Env Regex} {o : Installer Regex} {c c' : Connection Regex} {sub : Text}
  {key k : Key} {l : Nat} {α : Type} {t : Table Key α}

/-- The connection has the exact subject. -/
def HasSub (t : Table Key α) (k : Key) : Prop := ∃ a, t.find? k = some a

theorem hashCount_eq_total (t : Table Key α) (h : BitVec 32) :
    hashCount t h = t.total fun k _ => if k.1 = h then 1 else 0 := by
  unfold hashCount Table.total
  induction t.entries with
  | nil => rfl
  | cons e rest ih =>
      rw [List.filter_cons, List.map_cons, List.sum_cons, ← ih]
      by_cases hEq : e.1.1 = h
      · simp [hEq, Nat.add_comm]
      · simp [hEq]

theorem hashCount_pos {h : BitVec 32} : 0 < hashCount t h ↔ ∃ k, HasSub t k ∧ k.1 = h := by
  unfold hashCount HasSub
  rw [List.length_pos_iff_exists_mem]
  constructor
  · rintro ⟨e, he⟩
    obtain ⟨hMem, hHash⟩ := List.mem_filter.mp he
    exact ⟨e.1, ⟨e.2, Table.find?_eq_some.mpr hMem⟩, of_decide_eq_true hHash⟩
  · rintro ⟨k, ⟨a, hFind⟩, hHash⟩
    exact ⟨(k, a), List.mem_filter.mpr ⟨Table.find?_eq_some.mp hFind, decide_eq_true hHash⟩⟩

theorem hasSub_erase : HasSub (t.erase key) k ↔ k ≠ key ∧ HasSub t k := by
  unfold HasSub
  rw [Table.find?_erase]
  by_cases h : k = key <;> simp [h]

theorem hasSub_insert (a : α) : HasSub (t.insert key a) k ↔ k = key ∨ HasSub t k := by
  unfold HasSub
  rw [Table.find?_insert]
  by_cases h : k = key <;> simp [h]

/-- More than one entry with the hash of a key: another one has it. -/
theorem hashCount_gt_one (h : HasSub t key) :
    1 < hashCount t key.1 ↔ ∃ k, k ≠ key ∧ HasSub t k ∧ k.1 = key.1 := by
  obtain ⟨a, hFind⟩ := h
  have hErase := Table.total_erase (fun k _ => if k.1 = key.1 then 1 else 0) hFind
  rw [if_pos rfl, ← hashCount_eq_total, ← hashCount_eq_total] at hErase
  have hPos : 1 < hashCount t key.1 ↔ 0 < hashCount (t.erase key) key.1 := by omega
  rw [hPos, hashCount_pos]
  simp only [hasSub_erase, and_assoc]

/-- The patterns in the lists of the table. -/
def patNames (t : Table Key (List (RvWildMatch Regex))) : Table Key (List Text) :=
  t.map fun route => route.map RvWildMatch.value

/-- The hash is that of the list which the pattern is in. -/
def HasPat (t : Table Key (List Text)) (k : Key) : Prop :=
  ∃ key names, t.find? key = some names ∧ key.1 = k.1 ∧ k.2 ∈ names

/-- No list is empty, none has a pattern twice, and each pattern is in the list of its
prefix. -/
structure Kept (env : Env Regex) (t : Table Key (List Text)) : Prop where
  nonempty {key : Key} {names : List Text} : t.find? key = some names → names ≠ []
  nodup {key : Key} {names : List Text} : t.find? key = some names → names.Nodup
  placed {key : Key} {names : List Text} {x : Text} : t.find? key = some names → x ∈ names →
    ∃ l, env.convertRv x = some l ∧ key = prefixKey env.toEnv x l

variable {names : Table Key (List Text)} {list : List Text} {x : Text}

theorem Kept.empty : Kept env .empty :=
  ⟨fun h => (by cases h), fun h => (by cases h), fun h => (by cases h)⟩

/-- There is a list for a pattern in its place only. -/
theorem Kept.hasPat_iff (h : Kept env names) (hConvert : env.convertRv x = some l) :
    HasPat names ((prefixKey env.toEnv x l).1, x) ↔
      ∃ list, names.find? (prefixKey env.toEnv x l) = some list ∧ x ∈ list := by
  constructor
  · rintro ⟨key, list, hFind, -, hMem⟩
    obtain ⟨l', hConvert', rfl⟩ := h.placed hFind hMem
    obtain rfl : l = l' := Option.some.inj (hConvert.symm.trans hConvert')
    exact ⟨list, hFind, hMem⟩
  · rintro ⟨list, hFind, hMem⟩
    exact ⟨_, list, hFind, rfl, hMem⟩

/-- Lists with a hash are patterns with it. -/
theorem Kept.exists_pat {h : BitVec 32} (hKept : Kept env names) :
    (∃ key, HasSub names key ∧ key.1 = h) ↔ ∃ k, HasPat names k ∧ k.1 = h := by
  constructor
  · rintro ⟨key, ⟨list, hFind⟩, rfl⟩
    obtain ⟨x, rest, rfl⟩ := List.exists_cons_of_ne_nil (hKept.nonempty hFind)
    exact ⟨(key.1, x), ⟨key, _, hFind, rfl, List.mem_cons_self⟩, rfl⟩
  · rintro ⟨k, ⟨key, list, hFind, hHash, -⟩, rfl⟩
    exact ⟨key, ⟨list, hFind⟩, hHash⟩

/-- What the calls of one message say about the keys of a table: nothing has changed, or one
key is new, or one is gone, and the collision is with the others. -/
inductive Moves (has has' : Key → Prop) : List (Change Key) → Prop where
  | stay (h : ∀ k, has' k ↔ has k) : Moves has has' []
  | add (key : Key) (coll : Bool) (hFresh : ¬ has key)
      (hColl : coll = false ↔ ∀ k, has k → k.1 ≠ key.1)
      (h : ∀ k, has' k ↔ k = key ∨ has k) : Moves has has' [.add key coll]
  | del (key : Key) (coll : Bool) (hHeld : has key)
      (hColl : coll = false ↔ ∀ k, has k → k ≠ key → k.1 ≠ key.1)
      (h : ∀ k, has' k ↔ k ≠ key ∧ has k) : Moves has has' [.del key coll]

/-- The calls so far were right, and the live keys are those of the table. -/
structure Follows (has : Key → Prop) (cs : List (Change Key)) : Prop where
  fair : Fair Prod.fst ∅ cs
  live (k : Key) : k ∈ liveAfter ∅ cs ↔ has k

theorem Follows.moves {has has' : Key → Prop} {cs more : List (Change Key)} (h : Follows has cs)
    (hMoves : Moves has has' more) : Follows has' (cs ++ more) := by
  cases hMoves with
  | stay hSame =>
      rw [List.append_nil]
      exact ⟨h.fair, fun k => (h.live k).trans (hSame k).symm⟩
  | add key coll hFresh hColl hNext =>
      refine ⟨fair_append.mpr ⟨h.fair, ?_, ?_, trivial⟩, fun k => ?_⟩
      · rwa [h.live]
      · simp only [h.live]
        exact hColl
      · rw [liveAfter_append, hNext, ← h.live]
        exact Finset.mem_insert
  | del key coll hHeld hColl hNext =>
      refine ⟨fair_append.mpr ⟨h.fair, ?_, ?_, trivial⟩, fun k => ?_⟩
      · rwa [h.live]
      · simp only [Finset.mem_erase, h.live]
        rw [hColl]
        exact forall_congr' fun k => ⟨fun hk hBoth => hk hBoth.2 hBoth.1, fun hk hHas hNe => hk ⟨hNe, hHas⟩⟩
      · rw [liveAfter_append, hNext, ← h.live]
        exact Finset.mem_erase

/-- A test by a count against the one by the keys. -/
theorem collision_eq_false {p : Prop} [Decidable p] {has : Key → Prop} {h : BitVec 32}
    (hIff : p ↔ ∃ k, has k ∧ k.1 = h) : decide p = false ↔ ∀ k, has k → k.1 ≠ h := by
  rw [decide_eq_false_iff_not, hIff]
  simp only [not_exists, not_and, ne_eq]

theorem addExact_moves (env : Env Regex) (c : Connection Regex) (subject : Text) :
    (addExact env c subject).conn.pre = c.pre ∧ (addExact env c subject).conn.patTab = c.patTab ∧
      patChanges (addExact env c subject).calls = [] ∧
      Moves (HasSub c.subTab) (HasSub (addExact env c subject).conn.subTab)
        (subChanges (addExact env c subject).calls) := by
  unfold addExact
  dsimp only
  cases hFind : c.subTab.find? (subKey env.toEnv subject) with
  | none =>
      refine ⟨rfl, rfl, rfl, .add (subKey env.toEnv subject) _ ?_ ?_ fun k => hasSub_insert _⟩
      · rintro ⟨rt, hSome⟩
        rw [hFind] at hSome
        cases hSome
      · exact collision_eq_false hashCount_pos
  | some rt =>
      refine ⟨rfl, rfl, rfl, .stay fun k => ?_⟩
      refine (hasSub_insert _).trans (or_iff_right_of_imp ?_)
      rintro rfl
      exact ⟨rt, hFind⟩

theorem remExact_moves (env : Env Regex) (c : Connection Regex) (subject : Text) :
    (remExact env c subject).conn.pre = c.pre ∧ (remExact env c subject).conn.patTab = c.patTab ∧
      patChanges (remExact env c subject).calls = [] ∧
      Moves (HasSub c.subTab) (HasSub (remExact env c subject).conn.subTab)
        (subChanges (remExact env c subject).calls) := by
  unfold remExact
  dsimp only
  cases hFind : c.subTab.find? (subKey env.toEnv subject) with
  | none => exact ⟨rfl, rfl, rfl, .stay fun k => Iff.rfl⟩
  | some rt =>
      dsimp only
      split
      · refine ⟨rfl, rfl, rfl, .del (subKey env.toEnv subject) _ ⟨rt, hFind⟩ ?_ fun k => hasSub_erase⟩
        rw [decide_eq_false_iff_not, hashCount_gt_one ⟨rt, hFind⟩]
        simp only [not_exists, not_and]
        exact forall_congr' fun k => forall_comm
      · refine ⟨rfl, rfl, rfl, .stay fun k => ?_⟩
        refine (hasSub_insert _).trans (or_iff_right_of_imp ?_)
        rintro rfl
        exact ⟨rt, hFind⟩

/-- One list is set or taken out. -/
def Puts (names names' : Table Key (List Text)) (key : Key) (list : Option (List Text)) : Prop :=
  ∀ x, names'.find? x = if x = key then list else names.find? x

variable {names' : Table Key (List Text)}

theorem puts_insert (t : Table Key (List (RvWildMatch Regex))) (key : Key)
    (route : List (RvWildMatch Regex)) :
    Puts (patNames t) (patNames (t.insert key route)) key (some (route.map RvWildMatch.value)) := by
  intro x
  unfold patNames
  rw [Table.find?_map, Table.find?_map, Table.find?_insert]
  split <;> rfl

theorem puts_erase (t : Table Key (List (RvWildMatch Regex))) (key : Key) :
    Puts (patNames t) (patNames (t.erase key)) key none := by
  intro x
  unfold patNames
  rw [Table.find?_map, Table.find?_map, Table.find?_erase]
  split <;> rfl

/-- A list that is put back as it is. -/
theorem Puts.same (h : Puts names names' key (names.find? key)) (x : Key) :
    names'.find? x = names.find? x := by
  rw [h]
  split
  · rename_i hx
    rw [hx]
  · rfl

theorem hasPat_congr (h : ∀ x, names'.find? x = names.find? x) (k : Key) :
    HasPat names' k ↔ HasPat names k := by
  unfold HasPat
  simp only [h]

theorem Kept.congr (hKept : Kept env names) (h : ∀ x, names'.find? x = names.find? x) :
    Kept env names' where
  nonempty hFind := hKept.nonempty (h _ ▸ hFind)
  nodup hFind := hKept.nodup (h _ ▸ hFind)
  placed hFind := hKept.placed (h _ ▸ hFind)

variable {val : Option (List Text)}

/-- The patterns of one prefix are replaced. -/
theorem Puts.hasPat (h : Puts names names' key val) (hKept : Kept env names) :
    HasPat names' k ↔ (key.1 = k.1 ∧ k.2 ∈ val.getD []) ∨
      (HasPat names k ∧ k.2 ∉ (names.find? key).getD []) := by
  constructor
  · rintro ⟨key', list', hFind, hHash, hMem⟩
    rw [h] at hFind
    split at hFind
    · rename_i hEq
      rw [hFind]
      exact .inl ⟨hEq ▸ hHash, hMem⟩
    · rename_i hNe
      refine .inr ⟨⟨key', list', hFind, hHash, hMem⟩, fun hOld => ?_⟩
      cases hOldFind : names.find? key with
      | none => simp [hOldFind] at hOld
      | some old =>
          rw [hOldFind] at hOld
          obtain ⟨l, hConvert, rfl⟩ := hKept.placed hFind hMem
          obtain ⟨l', hConvert', rfl⟩ := hKept.placed hOldFind hOld
          obtain rfl : l = l' := Option.some.inj (hConvert.symm.trans hConvert')
          exact hNe rfl
  · rintro (⟨hHash, hMem⟩ | ⟨⟨key', list', hFind, hHash, hMem⟩, hOld⟩)
    · cases val with
      | none => cases hMem
      | some list => exact ⟨key, list, by rw [h, if_pos rfl], hHash, hMem⟩
    · have hNe : key' ≠ key := by
        rintro rfl
        rw [hFind] at hOld
        exact hOld hMem
      exact ⟨key', list', by rw [h, if_neg hNe, hFind], hHash, hMem⟩

theorem Kept.puts (hKept : Kept env names) (h : Puts names names' key val)
    (hList : ∀ list, val = some list → list ≠ [] ∧ list.Nodup ∧
      ∀ x ∈ list, ∃ l, env.convertRv x = some l ∧ key = prefixKey env.toEnv x l) :
    Kept env names' := by
  have hEither : ∀ {key' list}, names'.find? key' = some list →
      (key' = key ∧ val = some list) ∨ names.find? key' = some list := by
    intro key' list hFind
    rw [h] at hFind
    split at hFind
    · exact .inl ⟨‹_›, hFind⟩
    · exact .inr hFind
  constructor
  · intro key' list hFind
    rcases hEither hFind with ⟨-, hVal⟩ | hOld
    · exact (hList list hVal).1
    · exact hKept.nonempty hOld
  · intro key' list hFind
    rcases hEither hFind with ⟨-, hVal⟩ | hOld
    · exact (hList list hVal).2.1
    · exact hKept.nodup hOld
  · intro key' list x hFind hMem
    rcases hEither hFind with ⟨rfl, hVal⟩ | hOld
    · exact (hList list hVal).2.2 x hMem
    · exact hKept.placed hOld hMem

variable {tab : Table Key (List (RvWildMatch Regex))} {route : List (RvWildMatch Regex)}
  {subject : Text}

theorem patNames_find? (tab : Table Key (List (RvWildMatch Regex))) (key : Key) :
    (patNames tab).find? key = (tab.find? key).map fun route => route.map RvWildMatch.value :=
  Table.find?_map _ _ _

theorem patNames_getD (tab : Table Key (List (RvWildMatch Regex))) (key : Key) :
    ((patNames tab).find? key).getD [] = ((tab.find? key).getD []).map RvWildMatch.value := by
  rw [patNames_find?]
  cases tab.find? key <;> rfl

theorem hasSub_patNames : HasSub (patNames tab) key ↔ HasSub tab key := by
  unfold HasSub
  rw [patNames_find?]
  cases tab.find? key <;> simp

theorem find?_value_eq_none :
    (route.find? fun m => m.value = subject) = none ↔ subject ∉ route.map RvWildMatch.value := by
  rw [List.find?_eq_none, List.mem_map]
  simp

/-- Some list has the hash exactly if some pattern has it. -/
theorem Kept.hashCount_pos (hKept : Kept env (patNames tab)) {h : BitVec 32} :
    0 < hashCount tab h ↔ ∃ k, HasPat (patNames tab) k ∧ k.1 = h := by
  rw [← hKept.exists_pat, Routes.hashCount_pos]
  simp only [hasSub_patNames]

theorem modify_values (route : List (RvWildMatch Regex)) (i : Nat)
    (f : RvWildMatch Regex → RvWildMatch Regex) (hf : ∀ m, (f m).value = m.value) :
    (route.modify i f).map RvWildMatch.value = route.map RvWildMatch.value := by
  induction route generalizing i with
  | nil => cases i <;> rfl
  | cons m rest ih =>
      cases i with
      | zero => rw [List.modify_zero_cons, List.map_cons, List.map_cons, hf]
      | succ i => rw [List.modify_succ_cons, List.map_cons, List.map_cons, ih]

theorem set_values {m m' : RvWildMatch Regex}
    (hFind : (route.find? fun m => m.value = subject) = some m) (hValue : m'.value = m.value) :
    (route.set (route.findIdx fun m => m.value = subject) m').map RvWildMatch.value =
      route.map RvWildMatch.value := by
  induction route with
  | nil => cases hFind
  | cons a rest ih =>
      by_cases ha : a.value = subject
      · rw [List.find?_cons_of_pos (by simpa using ha)] at hFind
        rw [List.findIdx_cons, decide_eq_true ha]
        simp [hValue, Option.some.inj hFind]
      · rw [List.find?_cons_of_neg (by simpa using ha)] at hFind
        rw [List.findIdx_cons, decide_eq_false ha]
        simpa using ih hFind

theorem eraseIdx_values (route : List (RvWildMatch Regex)) (subject : Text) :
    (route.eraseIdx (route.findIdx fun m => m.value = subject)).map RvWildMatch.value =
      (route.map RvWildMatch.value).erase subject := by
  induction route with
  | nil => rfl
  | cons a rest ih =>
      by_cases ha : a.value = subject
      · rw [List.findIdx_cons, decide_eq_true ha]
        simp [ha]
      · rw [List.findIdx_cons, decide_eq_false ha, List.map_cons,
          List.erase_cons_tail (by simpa using ha), ← ih]
        rfl

/-- A list whose counts change keeps its patterns. -/
theorem patNames_insert (hFind : tab.find? key = some route) {route' : List (RvWildMatch Regex)}
    (hSame : route'.map RvWildMatch.value = route.map RvWildMatch.value) (x : Key) :
    (patNames (tab.insert key route')).find? x = (patNames tab).find? x := by
  have hPuts := puts_insert tab key route'
  have hOld : (patNames tab).find? key = some (route.map RvWildMatch.value) := by
    rw [patNames_find?, hFind]
    rfl
  rw [hSame, ← hOld] at hPuts
  exact hPuts.same x

theorem hasPat_of_mem (hHash : key.1 = k.1) (hMem : k.2 ∈ (names.find? key).getD []) :
    HasPat names k := by
  cases hFind : names.find? key with
  | none => simp [hFind] at hMem
  | some list => exact ⟨key, list, hFind, hHash, by rwa [hFind] at hMem⟩

theorem Kept.hash_of_mem (hKept : Kept env names) (hHas : HasPat names k)
    (hMem : k.2 ∈ (names.find? key).getD []) : key.1 = k.1 := by
  obtain ⟨key', list', hFind', hHash, hMem'⟩ := hHas
  cases hFind : names.find? key with
  | none => simp [hFind] at hMem
  | some list =>
      rw [hFind] at hMem
      obtain ⟨l, hConvert, rfl⟩ := hKept.placed hFind hMem
      obtain ⟨l', hConvert', rfl⟩ := hKept.placed hFind' hMem'
      obtain rfl : l = l' := Option.some.inj (hConvert.symm.trans hConvert')
      exact hHash

/-- What a message does to the patterns of a connection. -/
structure PatMoves (env : Env Regex) (c : Connection Regex) (r : Entered Regex) : Prop where
  pre : r.conn.pre = c.pre
  subTab : r.conn.subTab = c.subTab
  subs : subChanges r.calls = []
  kept : Kept env (patNames r.conn.patTab)
  moves : Moves (HasPat (patNames c.patTab)) (HasPat (patNames r.conn.patTab)) (patChanges r.calls)

theorem addPattern_moves (hKept : Kept env (patNames c.patTab))
    (hInstall : ∀ l, env.convertRv subject = some l → (install o subject l).isSome) :
    PatMoves env c (addPattern o env c subject) := by
  unfold addPattern
  cases hConvert : env.convertRv subject with
  | none => exact ⟨rfl, rfl, rfl, hKept, .stay fun _ => Iff.rfl⟩
  | some l =>
      dsimp only
      cases hOld : ((c.patTab.find? (prefixKey env.toEnv subject l)).getD []).find?
          fun m => m.value = subject with
      | some m =>
          have hRoute : ∃ route, c.patTab.find? (prefixKey env.toEnv subject l) = some route := by
            cases hFind : c.patTab.find? (prefixKey env.toEnv subject l) with
            | none =>
                rw [hFind] at hOld
                cases hOld
            | some route => exact ⟨route, rfl⟩
          obtain ⟨route, hFind⟩ := hRoute
          have hSame := patNames_insert hFind (modify_values route
            (route.findIdx fun m => m.value = subject)
            (fun m => { m with refcnt := m.refcnt + 1 }) fun _ => rfl)
          rw [hFind]
          exact ⟨rfl, rfl, rfl, hKept.congr hSame, .stay (hasPat_congr hSame)⟩
      | none =>
          obtain ⟨re, hRe⟩ := Option.isSome_iff_exists.mp (hInstall l hConvert)
          dsimp only
          rw [hRe]
          dsimp only
          generalize hKey : prefixKey env.toEnv subject l = key at hOld ⊢
          have hFresh := find?_value_eq_none.mp hOld
          have hPuts := puts_insert c.patTab key
            ({ value := subject, re := re } :: (c.patTab.find? key).getD [])
          rw [List.map_cons, ← patNames_getD] at hPuts
          rw [← patNames_getD] at hFresh
          have hPlaced : ∀ x ∈ subject :: ((patNames c.patTab).find? key).getD [],
              ∃ l, env.convertRv x = some l ∧ key = prefixKey env.toEnv x l := by
            intro x hx
            rcases List.mem_cons.mp hx with rfl | hx
            · exact ⟨l, hConvert, hKey.symm⟩
            · cases hFind : (patNames c.patTab).find? key with
              | none => simp [hFind] at hx
              | some list =>
                  rw [hFind] at hx
                  exact hKept.placed hFind hx
          have hNodup : (((patNames c.patTab).find? key).getD []).Nodup := by
            cases hFind : (patNames c.patTab).find? key with
            | none => exact List.nodup_nil
            | some list => exact hKept.nodup hFind
          refine ⟨rfl, rfl, rfl, hKept.puts hPuts ?_, .add (key.1, subject) _ ?_ ?_ fun k => ?_⟩
          · rintro list ⟨rfl⟩
            exact ⟨List.cons_ne_nil _ _, List.nodup_cons.mpr ⟨hFresh, hNodup⟩, hPlaced⟩
          · rw [← hKey, hKept.hasPat_iff hConvert, hKey]
            rintro ⟨list, hFind, hMem⟩
            rw [hFind] at hFresh
            exact hFresh hMem
          · have hLonger : 0 < ((c.patTab.find? key).getD []).length →
                0 < hashCount c.patTab key.1 := by
              intro hSome
              cases hFind : c.patTab.find? key with
              | none => simp [hFind] at hSome
              | some route => exact Routes.hashCount_pos.mpr ⟨key, ⟨route, hFind⟩, rfl⟩
            have hBoth : (decide (0 < hashCount c.patTab key.1) ||
                decide (0 < ((c.patTab.find? key).getD []).length)) =
                decide (0 < hashCount c.patTab key.1) := by
              rw [Bool.or_eq_left_iff_imp]
              simpa using hLonger
            rw [hBoth]
            exact collision_eq_false hKept.hashCount_pos
          · refine (hPuts.hasPat hKept).trans ?_
            rw [Option.getD_some, List.mem_cons]
            constructor
            · rintro (⟨hHash, hNew | hMem⟩ | ⟨hHas, -⟩)
              · exact .inl (Prod.ext hHash.symm hNew)
              · exact .inr (hasPat_of_mem hHash hMem)
              · exact .inr hHas
            · rintro (rfl | hHas)
              · exact .inl ⟨rfl, .inl rfl⟩
              · by_cases hMem : k.2 ∈ ((patNames c.patTab).find? key).getD []
                · exact .inl ⟨hKept.hash_of_mem hHas hMem, .inr hMem⟩
                · exact .inr ⟨hHas, hMem⟩

/-- What is left with the hash after a pattern: another list, or the rest of its own. -/
theorem Kept.others (hKept : Kept env (patNames tab)) (hFind : tab.find? key = some route)
    (hConvert : env.convertRv subject = some l) (hKey : prefixKey env.toEnv subject l = key)
    (hNodup : (route.map RvWildMatch.value).Nodup) {rest : List (RvWildMatch Regex)}
    (hValues : rest.map RvWildMatch.value = (route.map RvWildMatch.value).erase subject) :
    (∃ k, HasPat (patNames tab) k ∧ k ≠ (key.1, subject) ∧ k.1 = key.1) ↔
      1 < hashCount tab key.1 ∨ 0 < rest.length := by
  have hNames : (patNames tab).find? key = some (route.map RvWildMatch.value) := by
    rw [patNames_find?, hFind]
    rfl
  have hRestPos : 0 < rest.length ↔
      ∃ y, y ∈ (route.map RvWildMatch.value).erase subject := by
    rw [← hValues, ← List.length_map RvWildMatch.value,
      List.length_pos_iff_exists_mem]
  rw [hashCount_gt_one ⟨route, hFind⟩, hRestPos]
  simp only [hNodup.mem_erase_iff]
  constructor
  · rintro ⟨k, ⟨key', list, hList, hHash, hMem⟩, hNe, hEq⟩
    by_cases hSame : key' = key
    · subst hSame
      obtain rfl := Option.some.inj (hList.symm.trans hNames)
      exact .inr ⟨k.2, fun hText => hNe (Prod.ext hEq hText), hMem⟩
    · exact .inl ⟨key', hSame, hasSub_patNames.mp ⟨list, hList⟩, hHash.trans hEq⟩
  · rintro (⟨key', hNe, hSub, hEq⟩ | ⟨y, hNe, hMem⟩)
    · obtain ⟨list, hList⟩ := hasSub_patNames.mpr hSub
      obtain ⟨y, more, rfl⟩ := List.exists_cons_of_ne_nil (hKept.nonempty hList)
      refine ⟨(key'.1, y), ⟨key', _, hList, rfl, List.mem_cons_self⟩, ?_, hEq⟩
      intro hSame
      obtain ⟨l', hConvert', hPlace⟩ := hKept.placed hList List.mem_cons_self
      rw [(Prod.mk.inj hSame).2] at hConvert' hPlace
      obtain rfl : l = l' := Option.some.inj (hConvert.symm.trans hConvert')
      exact hNe (hPlace.trans hKey)
    · exact ⟨(key.1, y), ⟨key, _, hNames, rfl, hMem⟩,
        fun hSame => hNe (Prod.mk.inj hSame).2, rfl⟩

theorem remPattern_moves (hKept : Kept env (patNames c.patTab)) :
    PatMoves env c (remPattern env c subject) := by
  have hStay : PatMoves env c ⟨c, notFound, []⟩ :=
    ⟨rfl, rfl, rfl, hKept, .stay fun _ => Iff.rfl⟩
  unfold remPattern
  cases hConvert : env.convertRv subject with
  | none => exact hStay
  | some l =>
      dsimp only
      generalize hKey : prefixKey env.toEnv subject l = key
      cases hFind : c.patTab.find? key with
      | none => exact hStay
      | some route =>
          dsimp only
          cases hOld : route.find? fun m => m.value = subject with
          | none => exact hStay
          | some m =>
              dsimp only
              split
              · -- the pattern leaves its list, and the list goes if it was the only one
                generalize hRest : route.eraseIdx (route.findIdx fun m => m.value = subject) = rest
                have hNames : (patNames c.patTab).find? key = some (route.map RvWildMatch.value) := by
                  rw [patNames_find?, hFind]
                  rfl
                have hNodup := hKept.nodup hNames
                have hValues : rest.map RvWildMatch.value =
                    (route.map RvWildMatch.value).erase subject := by
                  rw [← hRest, eraseIdx_values]
                have hHere : subject ∈ route.map RvWildMatch.value := by
                  by_contra hNot
                  rw [find?_value_eq_none.mpr hNot] at hOld
                  cases hOld
                have hPuts : Puts (patNames c.patTab)
                    (patNames (if rest.length = 0 then c.eraseRoute key else c.setRoute key rest).patTab)
                    key (if rest.length = 0 then none else some (rest.map RvWildMatch.value)) := by
                  split
                  · exact puts_erase c.patTab key
                  · exact puts_insert c.patTab key rest
                have hVal : (if rest.length = 0 then none
                    else some (rest.map RvWildMatch.value)).getD [] =
                    (route.map RvWildMatch.value).erase subject := by
                  rw [← hValues]
                  split
                  · rename_i hNil
                    rw [List.length_eq_zero_iff.mp hNil]
                    rfl
                  · rfl
                have hHas : HasPat (patNames c.patTab) (key.1, subject) :=
                  ⟨key, _, hNames, rfl, hHere⟩
                have hOthers := hKept.others hFind hConvert hKey hNodup hValues
                refine ⟨by split <;> rfl, by split <;> rfl, rfl, hKept.puts hPuts ?_,
                  .del (key.1, subject) _ ?_ ?_ fun k => ?_⟩
                · intro list hSome
                  split at hSome
                  · cases hSome
                  · obtain rfl := Option.some.inj hSome
                    rw [hValues]
                    refine ⟨?_, hNodup.erase _, fun x hx =>
                      hKept.placed hNames (List.mem_of_mem_erase hx)⟩
                    rw [← hValues]
                    intro hNil
                    exact absurd (List.map_eq_nil_iff.mp hNil ▸ rfl) ‹¬ rest.length = 0›
                · exact hHas
                · rw [Bool.or_eq_false_iff, decide_eq_false_iff_not, decide_eq_false_iff_not,
                    ← not_or, ← hOthers]
                  simp only [not_exists, not_and]
                · refine (hPuts.hasPat hKept).trans ?_
                  rw [hVal, hNames, Option.getD_some, hNodup.mem_erase_iff]
                  constructor
                  · rintro (⟨hHash, hNe, hMem⟩ | ⟨hOther, hNot⟩)
                    · exact ⟨fun hEq => hNe (congrArg Prod.snd hEq), ⟨key, _, hNames, hHash, hMem⟩⟩
                    · exact ⟨fun hEq => hNot (hEq ▸ hHere), hOther⟩
                  · rintro ⟨hNe, hOther⟩
                    by_cases hMem : k.2 ∈ route.map RvWildMatch.value
                    · have hHash : key.1 = k.1 := hKept.hash_of_mem hOther (by rw [hNames]; exact hMem)
                      exact .inl ⟨hHash, fun hSame => hNe (Prod.ext hHash.symm hSame), hMem⟩
                    · exact .inr ⟨hOther, hMem⟩
              · have hSet : (route.set (route.findIdx fun m => m.value = subject)
                    { m with refcnt := m.refcnt - 1 }).map RvWildMatch.value =
                    route.map RvWildMatch.value := set_values hOld rfl
                have hSame := patNames_insert hFind hSet
                exact ⟨rfl, rfl, rfl, hKept.congr hSame, .stay (hasPat_congr hSame)⟩

/-- Calls that go to the host. -/
def Plain (calls : List Call) : Prop := subChanges calls = [] ∧ patChanges calls = []

theorem Plain.append {xs ys : List Call} (hxs : Plain xs) (hys : Plain ys) : Plain (xs ++ ys) := by
  obtain ⟨⟨hSubs, hPats⟩, ⟨hSubs', hPats'⟩⟩ := And.intro hxs hys
  unfold subChanges at hSubs hSubs'
  unfold patChanges at hPats hPats'
  constructor
  · rw [subChanges, List.filterMap_append, hSubs, hSubs', List.append_nil]
  · rw [patChanges, List.filterMap_append, hPats, hPats', List.append_nil]

theorem Plain.of_if {p : Prop} [Decidable p] {call : Call} (hSub : call.subChange = none)
    (hPat : call.patChange = none) : Plain (if p then [call] else []) := by
  split
  · exact ⟨by simp [subChanges, hSub], by simp [patChanges, hPat]⟩
  · exact ⟨rfl, rfl⟩

/-- What a message does to both tables of a connection. -/
structure Step (env : Env Regex) (c c' : Connection Regex) (calls : List Call) : Prop where
  pre : c'.pre = c.pre
  kept : Kept env (patNames c'.patTab)
  subs : Moves (HasSub c.subTab) (HasSub c'.subTab) (subChanges calls)
  pats : Moves (HasPat (patNames c.patTab)) (HasPat (patNames c'.patTab)) (patChanges calls)

/-- The tables are done with when the host is called. -/
theorem Step.of_entered {r : Entered Regex} {more : List Call} (h : Step env c r.conn r.calls)
    (host : Host) (hMore : Plain more) :
    Step env c { r.conn with host := host } (r.calls ++ more) := by
  obtain ⟨hSubs, hPats⟩ := hMore
  unfold subChanges at hSubs
  unfold patChanges at hPats
  refine ⟨h.pre, h.kept, ?_, ?_⟩
  · rw [subChanges, List.filterMap_append, hSubs, List.append_nil]
    exact h.subs
  · rw [patChanges, List.filterMap_append, hPats, List.append_nil]
    exact h.pats

theorem PatMoves.step {r : Entered Regex} (h : PatMoves env c r) : Step env c r.conn r.calls where
  pre := h.pre
  kept := h.kept
  subs := by
    rw [h.subs, h.subTab]
    exact .stay fun _ => Iff.rfl
  pats := h.moves

theorem step_of_exact {r : Entered Regex} (hKept : Kept env (patNames c.patTab))
    (h : r.conn.pre = c.pre ∧ r.conn.patTab = c.patTab ∧ patChanges r.calls = [] ∧
      Moves (HasSub c.subTab) (HasSub r.conn.subTab) (subChanges r.calls)) :
    Step env c r.conn r.calls where
  pre := h.1
  kept := h.2.1 ▸ hKept
  subs := h.2.2.2
  pats := by
    rw [h.2.2.1, h.2.1]
    exact .stay fun _ => Iff.rfl

theorem addSub_step (isWild : Bool) (hKept : Kept env (patNames c.patTab))
    (hOk : Succeeds env c (.listen o sub isWild)) :
    Step env c (addSub o env c sub isWild).1 (addSub o env c sub isWild).2 := by
  unfold addSub
  dsimp only
  refine Step.of_entered ?_ _ (.of_if rfl rfl)
  cases isWild with
  | true => exact (addPattern_moves hKept hOk).step
  | false => exact step_of_exact hKept (addExact_moves env c (c.pre ++ sub))

theorem remSub_step (isWild : Bool) (hKept : Kept env (patNames c.patTab)) :
    Step env c (remSub env c sub isWild).1 (remSub env c sub isWild).2 := by
  unfold remSub
  dsimp only
  refine Step.of_entered ?_ _ (.of_if rfl rfl)
  cases isWild with
  | true => exact (remPattern_moves hKept).step
  | false => exact step_of_exact hKept (remExact_moves env c (c.pre ++ sub))

/-- The tables of a connection and the calls that it has made. -/
structure Tracked (env : Env Regex) (c : Connection Regex) (calls : List Call) : Prop where
  kept : Kept env (patNames c.patTab)
  subs : Follows (HasSub c.subTab) (subChanges calls)
  pats : Follows (HasPat (patNames c.patTab)) (patChanges calls)

theorem Tracked.init (hSub : c.subTab = .empty) (hPat : c.patTab = .empty) : Tracked env c [] := by
  have hNames : patNames c.patTab = .empty := by
    rw [hPat]
    rfl
  refine ⟨?_, ⟨trivial, fun k => ?_⟩, ⟨trivial, fun k => ?_⟩⟩
  · rw [hNames]
    exact .empty
  · rw [hSub]
    exact iff_of_false (Finset.notMem_empty k) fun ⟨rt, hFind⟩ => by cases hFind
  · rw [hNames]
    exact iff_of_false (Finset.notMem_empty k) fun ⟨key, list, hFind, _⟩ => by cases hFind

theorem Tracked.step {calls more : List Call} (h : Tracked env c calls)
    (hStep : Step env c c' more) : Tracked env c' (calls ++ more) := by
  refine ⟨hStep.kept, ?_, ?_⟩
  · rw [subChanges, List.filterMap_append]
    exact h.subs.moves hStep.subs
  · rw [patChanges, List.filterMap_append]
    exact h.pats.moves hStep.pats

/-- Every call of a connection on the way tells the collisions as they are. -/
theorem connection_tracked {start : Connection Regex} {inputs : List (Input Regex)}
    {calls : List Call} (hInit : (connection env).init start)
    (hRun : ((connection env).guard (Succeeds env)).Run start inputs calls c) :
    Tracked env c calls := by
  refine hRun.invariant_outputs (Tracked env) ?_ (Tracked.init hInit.1 hInit.2)
  rintro c sofar input calls c' hTracked ⟨hOk, hStep⟩
  have hHandle : handle env c input = (c', calls) := hStep
  refine hTracked.step ?_
  cases input with
  | listen o sub isWild =>
      have hDone := addSub_step isWild hTracked.kept hOk
      rwa [show addSub o env c sub isWild = (c', calls) from hHandle] at hDone
  | cancel sub isWild =>
      have hDone := @remSub_step _ env c sub isWild hTracked.kept
      rwa [show remSub env c sub isWild = (c', calls) from hHandle] at hDone

/-- `rem_collision` of the exact subjects. -/
def subMarking : Marking (Prod.fst : Key → BitVec 32) (Table Key RvSubRoute) where
  inv := fun _ => True
  mark := markSub
  flagged := fun t k => subCollision t k.1
  alive := fun t k => ∃ rt, t.find? k = some rt ∧ rt.refcnt ≠ notFound
  inv_mark _ _ := trivial
  alive_mark {t k x} _ := by
    rw [markSub, Table.find?_modify]
    by_cases hx : x = k
    · subst hx
      simp
    · simp [hx]
  flagged_iff {t k} _ := by
    unfold subCollision
    rw [List.any_eq_true]
    constructor
    · rintro ⟨e, hMem, hBoth⟩
      rw [Bool.and_eq_true, decide_eq_true_eq, decide_eq_true_eq] at hBoth
      exact ⟨e.1, hBoth.1, e.2, Table.find?_eq_some.mpr hMem, hBoth.2⟩
    · rintro ⟨x, hHash, rt, hFind, hCount⟩
      exact ⟨(x, rt), Table.find?_eq_some.mp hFind, by simp [hHash, hCount]⟩

theorem delSubs_eq (t : Table Key RvSubRoute) (keys : List Key) :
    subChanges (delSubs t keys).2 = (subMarking.sweep t keys).2 ∧
      patChanges (delSubs t keys).2 = [] := by
  induction keys generalizing t with
  | nil => exact ⟨rfl, rfl⟩
  | cons key rest ih =>
      obtain ⟨hSubs, hPats⟩ := ih (markSub t key)
      exact ⟨congrArg (List.cons _) hSubs, hPats⟩

theorem markPat_names (tab : Table Key (List (RvWildMatch Regex))) (key : Key) (value : Text) :
    patNames (markPat tab key value) = patNames tab := by
  refine Table.map_modify fun route _ => ?_
  rw [List.map_map]
  refine List.map_congr_left fun m _ => ?_
  dsimp only [Function.comp_apply]
  split <;> rfl

/-- An unmarked pattern of the table. -/
def PatAlive (tab : Table Key (List (RvWildMatch Regex))) (k : Key) : Prop :=
  ∃ key route m, tab.find? key = some route ∧ key.1 = k.1 ∧ m ∈ route ∧ m.value = k.2 ∧
    m.refcnt ≠ notFound

theorem Kept.placed_at {m : RvWildMatch Regex} (hKept : Kept env (patNames tab))
    (hFind : tab.find? key = some route) (hMem : m ∈ route) :
    ∃ l, env.convertRv m.value = some l ∧ key = prefixKey env.toEnv m.value l := by
  have hNames : (patNames tab).find? key = some (route.map RvWildMatch.value) := by
    rw [patNames_find?, hFind]
    rfl
  exact hKept.placed hNames (List.mem_map_of_mem hMem)

theorem patAlive_markPat (hKept : Kept env (patNames tab)) (hConvert : env.convertRv x = some l) :
    PatAlive (markPat tab (prefixKey env.toEnv x l) x) k ↔
      k ≠ ((prefixKey env.toEnv x l).1, x) ∧ PatAlive tab k := by
  unfold PatAlive markPat
  simp only [Table.find?_modify, Option.map_eq_some_iff]
  constructor
  · rintro ⟨key, route', m, ⟨route, hFind, rfl⟩, hHash, hMem, hValue, hCount⟩
    by_cases hKey : key = prefixKey env.toEnv x l
    · rw [if_pos hKey] at hMem
      obtain ⟨m', hMem', rfl⟩ := List.mem_map.mp hMem
      by_cases hSame : m'.value = x
      · rw [if_pos hSame] at hCount
        exact absurd rfl hCount
      · rw [if_neg hSame] at hValue hCount
        refine ⟨?_, key, route, m', hFind, hHash, hMem', hValue, hCount⟩
        rintro rfl
        exact hSame hValue
    · rw [if_neg hKey] at hMem
      refine ⟨?_, key, route, m, hFind, hHash, hMem, hValue, hCount⟩
      rintro rfl
      obtain ⟨l', hConvert', hPlace⟩ := hKept.placed_at hFind hMem
      rw [hValue] at hConvert' hPlace
      obtain rfl : l = l' := Option.some.inj (hConvert.symm.trans hConvert')
      exact hKey hPlace
  · rintro ⟨hNe, key, route, m, hFind, hHash, hMem, hValue, hCount⟩
    refine ⟨key, _, m, ⟨route, hFind, rfl⟩, hHash, ?_, hValue, hCount⟩
    by_cases hKey : key = prefixKey env.toEnv x l
    · rw [if_pos hKey]
      have hFirst : k.1 = (prefixKey env.toEnv x l).1 := by rw [← hHash, hKey]
      have hOther : m.value ≠ x := fun hSame =>
        hNe (Prod.ext hFirst (hValue.symm.trans hSame))
      exact List.mem_map.mpr ⟨m, hMem, if_neg hOther⟩
    · rwa [if_neg hKey]

/-- Where a pattern is not in place, it is not alive. -/
theorem Kept.patAlive_placed (hKept : Kept env (patNames tab)) (hAlive : PatAlive tab k) :
    ∃ l, env.convertRv k.2 = some l ∧ (prefixKey env.toEnv k.2 l).1 = k.1 := by
  obtain ⟨key, route, m, hFind, hHash, hMem, hValue, -⟩ := hAlive
  obtain ⟨l, hConvert, hPlace⟩ := hKept.placed_at hFind hMem
  rw [hValue] at hConvert hPlace
  exact ⟨l, hConvert, hPlace ▸ hHash⟩

/-- `rem_collision` of the patterns. -/
def patMarking (env : Env Regex) :
    Marking (Prod.fst : Key → BitVec 32) (Table Key (List (RvWildMatch Regex))) where
  inv := fun t => Kept env (patNames t)
  mark := fun t k =>
    match env.convertRv k.2 with
    | none => t
    | some l =>
        if (prefixKey env.toEnv k.2 l).1 = k.1 then markPat t (prefixKey env.toEnv k.2 l) k.2 else t
  flagged := fun t k => patCollision t k.1
  alive := PatAlive
  inv_mark {t} k hKept := by
    split
    · exact hKept
    · split
      · rwa [markPat_names]
      · exact hKept
  alive_mark {t k x} hKept := by
    have hAbsent : (¬ ∃ l, env.convertRv k.2 = some l ∧ (prefixKey env.toEnv k.2 l).1 = k.1) →
        (PatAlive t x ↔ x ≠ k ∧ PatAlive t x) := by
      intro hNone
      refine (and_iff_right_of_imp fun hAlive hEq => ?_).symm
      exact hNone (hKept.patAlive_placed (hEq ▸ hAlive))
    split
    · rename_i hConvert
      refine hAbsent ?_
      rintro ⟨l, hSome, -⟩
      rw [hConvert] at hSome
      cases hSome
    · rename_i l hConvert
      split
      · rename_i hHash
        rw [patAlive_markPat hKept hConvert, hHash]
      · rename_i hHash
        refine hAbsent ?_
        rintro ⟨l', hSome, hHash'⟩
        obtain rfl : l = l' := Option.some.inj (hConvert.symm.trans hSome)
        exact hHash hHash'
  flagged_iff {t k} _ := by
    unfold patCollision
    rw [List.any_eq_true]
    constructor
    · rintro ⟨e, hMem, hBoth⟩
      rw [Bool.and_eq_true, decide_eq_true_eq, List.any_eq_true] at hBoth
      obtain ⟨hHash, m, hm, hCount⟩ := hBoth
      exact ⟨(k.1, m.value), rfl, e.1, e.2, m, Table.find?_eq_some.mpr hMem, hHash, hm, rfl,
        of_decide_eq_true hCount⟩
    · rintro ⟨x, hHash, key, route, m, hFind, hKey, hm, -, hCount⟩
      refine ⟨(key, route), Table.find?_eq_some.mp hFind, ?_⟩
      rw [Bool.and_eq_true, decide_eq_true_eq, List.any_eq_true]
      exact ⟨hKey.trans hHash, m, hm, decide_eq_true hCount⟩

/-- The patterns of a list of keys are in place. -/
def InPlace (env : Env Regex) (pairs : List (Key × Text)) : Prop :=
  ∀ e ∈ pairs, ∃ l, env.convertRv e.2 = some l ∧ e.1 = prefixKey env.toEnv e.2 l

theorem delPats_eq {pairs : List (Key × Text)} (hPairs : InPlace env pairs)
    (tab : Table Key (List (RvWildMatch Regex))) :
    patChanges (delPats env tab pairs).2 =
        ((patMarking env).sweep tab (pairs.map fun e => (e.1.1, e.2))).2 ∧
      subChanges (delPats env tab pairs).2 = [] := by
  induction pairs generalizing tab with
  | nil => exact ⟨rfl, rfl⟩
  | cons e rest ih =>
      obtain ⟨key, value⟩ := e
      obtain ⟨l, hConvert, hKey⟩ := hPairs (key, value) List.mem_cons_self
      have hMark : (patMarking env).mark tab (key.1, value) = markPat tab key value := by
        dsimp only at hConvert hKey
        simp only [patMarking, hConvert, ← hKey, if_true]
      obtain ⟨hPats, hSubs⟩ := ih (fun e he => hPairs e (List.mem_cons_of_mem _ he))
        (markPat tab key value)
      have hCalls : (delPats env tab ((key, value) :: rest)).2 =
          .delPat value key.1 (patCollision (markPat tab key value) key.1) ::
            (delPats env (markPat tab key value) rest).2 := by
        rw [delPats, hConvert]
      rw [hCalls, List.map_cons, Marking.sweep, hMark]
      exact ⟨congrArg (List.cons _) hPats, hSubs⟩

/-- The calls for one table over the life of a connection. Each hash has its route from the
first key with it to the last one. -/
structure Routed (cs : List (Change Key)) : Prop where
  fair : Fair Prod.fst ∅ cs
  ended : liveAfter ∅ cs = ∅
  turns (h : BitVec 32) : Alternates false (routeCalls Prod.fst h cs)
  between (h : BitVec 32) {front back : List (Change Key)} : cs = front ++ back →
    ((routeCalls Prod.fst h front).getLast?.getD false = true ↔
      ∃ k ∈ liveAfter ∅ front, k.1 = h)

theorem routed_iff {cs : List (Change Key)} (hEnded : liveAfter ∅ cs = ∅) :
    Routed cs ↔ Fair Prod.fst ∅ cs := by
  have hNone : ∀ h : BitVec 32, decide (Held (Prod.fst : Key → BitVec 32) ∅ h) = false := by
    intro h
    simp [Held]
  refine ⟨fun hRouted => hRouted.fair, fun hFair => ⟨hFair, hEnded, fun h => ?_, ?_⟩⟩
  · have hTurns := (hFair.alternates h).1
    rwa [hNone] at hTurns
  · rintro h front back rfl
    have hFront := ((fair_append.mp hFair).1.alternates h).2
    rw [hNone] at hFront
    exact hFront.symm

theorem stopListens_keeps (c : Connection Regex) (list : List (Text × BitVec 32)) :
    (stopListens c list).1.subTab = c.subTab ∧ (stopListens c list).1.patTab = c.patTab ∧
      Plain (stopListens c list).2 := by
  induction list generalizing c with
  | nil => exact ⟨rfl, rfl, rfl, rfl⟩
  | cons e rest ih =>
      have hOne : (stopListen c e).1.subTab = c.subTab ∧ (stopListen c e).1.patTab = c.patTab ∧
          Plain (stopListen c e).2 := by
        unfold stopListen
        split
        · exact ⟨rfl, rfl, .of_if rfl rfl⟩
        · exact ⟨rfl, rfl, rfl, rfl⟩
      obtain ⟨hSub, hPat, hPlain⟩ := ih (stopListen c e).1
      exact ⟨hSub.trans hOne.1, hPat.trans hOne.2.1, hOne.2.2.append hPlain⟩

/-- The patterns in the order in which they are deleted. -/
def visitedPats (env : Env Regex) (c : Connection Regex) : List (Key × RvWildMatch Regex) :=
  (env.visitPats c.patTab).flatMap fun e => e.2.map fun m => (e.1, m)

theorem mem_visitedPats {e : Key × RvWildMatch Regex} : e ∈ visitedPats env c ↔
    ∃ route, c.patTab.find? e.1 = some route ∧ e.2 ∈ route := by
  unfold visitedPats
  simp only [List.mem_flatMap, (env.visitPats_perm c.patTab).mem_iff, List.mem_map]
  constructor
  · rintro ⟨⟨key, route⟩, hMem, m, hm, rfl⟩
    exact ⟨route, Table.find?_eq_some.mpr hMem, hm⟩
  · rintro ⟨route, hFind, hm⟩
    exact ⟨(e.1, route), Table.find?_eq_some.mp hFind, e.2, hm, rfl⟩

theorem patKeys_eq (env : Env Regex) (c : Connection Regex) :
    patKeys env c = (visitedPats env c).map fun e => (e.1, e.2.value) := by
  rw [patKeys, visitedPats, List.map_flatMap]
  simp only [List.map_map, Function.comp_def]

theorem Kept.patKeys_inPlace (hKept : Kept env (patNames c.patTab)) : InPlace env (patKeys env c) := by
  intro e he
  rw [patKeys_eq] at he
  obtain ⟨x, hx, rfl⟩ := List.mem_map.mp he
  obtain ⟨route, hFind, hMem⟩ := mem_visitedPats.mp hx
  exact hKept.placed_at hFind hMem

/-- The names in the delete calls for patterns. -/
theorem patCalls_nodup (hKept : Kept env (patNames c.patTab)) :
    ((visitedPats env c).map fun e => (e.1.1, e.2.value)).Nodup := by
  have hVisit := env.visitPats_perm c.patTab
  have hKeys : ((env.visitPats c.patTab).map Prod.fst).Nodup :=
    (hVisit.map Prod.fst).nodup_iff.mpr c.patTab.nodup
  rw [visitedPats, List.map_flatMap]
  simp only [List.map_map, Function.comp_def]
  rw [List.nodup_flatMap]
  refine ⟨?_, ?_⟩
  · intro e he
    have hNames : (patNames c.patTab).find? e.1 = some (e.2.map RvWildMatch.value) := by
      rw [patNames_find?, Table.find?_eq_some.mpr (hVisit.mem_iff.mp he)]
      rfl
    have hNodup := hKept.nodup hNames
    have hMap : (e.2.map fun m => (e.1.1, m.value)) =
        (e.2.map RvWildMatch.value).map fun x => (e.1.1, x) := by
      rw [List.map_map]
      rfl
    rw [hMap]
    exact hNodup.map fun _ _ hEq => (Prod.mk.inj hEq).2
  · refine (hKeys.of_map _).pairwise_of_forall_ne fun e he e' he' hNe => ?_
    have hFind := Table.find?_eq_some.mpr (hVisit.mem_iff.mp he)
    have hFind' := Table.find?_eq_some.mpr (hVisit.mem_iff.mp he')
    rw [Function.onFun, List.disjoint_left]
    intro k hk hk'
    obtain ⟨m, hm, rfl⟩ := List.mem_map.mp hk
    obtain ⟨m', hm', hEq⟩ := List.mem_map.mp hk'
    have hValue : m'.value = m.value := (Prod.mk.inj hEq).2
    obtain ⟨l, hConvert, hPlace⟩ := hKept.placed_at hFind hm
    obtain ⟨l', hConvert', hPlace'⟩ := hKept.placed_at hFind' hm'
    rw [hValue] at hConvert' hPlace'
    obtain rfl : l = l' := Option.some.inj (hConvert.symm.trans hConvert')
    have hKey : e.1 = e'.1 := hPlace.trans hPlace'.symm
    rw [hKey] at hFind
    exact hNe (Prod.ext hKey (Option.some.inj (hFind.symm.trans hFind')))

/-- What was live is swept. -/
theorem Follows.sweep {σ : Type} {has : Key → Prop} {cs : List (Change Key)} (h : Follows has cs)
    {m : Marking (Prod.fst : Key → BitVec 32) σ} {s : σ} (hInv : m.inv s) {ks : List Key}
    (hNodup : ks.Nodup) (hKeys : ∀ k, k ∈ ks ↔ has k) (hAlive : ∀ k, m.alive s k → has k) :
    Routed (cs ++ (m.sweep s ks).2) ↔ Visible Prod.fst (m.alive s) ks := by
  have hLive : liveAfter ∅ cs = ks.toFinset := by
    ext k
    rw [h.live, List.mem_toFinset, hKeys]
  obtain ⟨hIff, hEmpty⟩ := m.sweep_fair hInv hNodup fun k hk => (hKeys k).mpr (hAlive k hk)
  have hEnded : liveAfter ∅ (cs ++ (m.sweep s ks).2) = ∅ := by
    rw [liveAfter_append, hLive, hEmpty]
  rw [routed_iff hEnded, fair_append, hLive, hIff]
  exact and_iff_right h.fair

theorem Tracked.subs_routed {calls : List Call} (h : Tracked env c calls) :
    Routed (subChanges calls ++ subChanges (delSubs c.subTab (subKeys env c)).2) ↔
      Visible (fun e => e.1.1) (fun e => e.2.refcnt ≠ notFound) (env.visitSubs c.subTab) := by
  have hVisit := env.visitSubs_perm c.subTab
  have hNodup : (subKeys env c).Nodup := (hVisit.map Prod.fst).nodup_iff.mpr c.subTab.nodup
  have hKeys : ∀ k, k ∈ subKeys env c ↔ HasSub c.subTab k := by
    intro k
    rw [subKeys, (hVisit.map Prod.fst).mem_iff, List.mem_map]
    constructor
    · rintro ⟨e, he, rfl⟩
      exact ⟨e.2, Table.find?_eq_some.mpr he⟩
    · rintro ⟨rt, hFind⟩
      exact ⟨(k, rt), Table.find?_eq_some.mp hFind, rfl⟩
  rw [(delSubs_eq _ _).1, h.subs.sweep (m := subMarking) trivial hNodup hKeys
    fun k ⟨rt, hFind, _⟩ => ⟨rt, hFind⟩, subKeys, visible_map]
  refine visible_congr fun e he => ?_
  have hFind := Table.find?_eq_some.mpr (hVisit.mem_iff.mp he)
  constructor
  · rintro ⟨rt, hFind', hCount⟩
    exact Option.some.inj (hFind.symm.trans hFind') ▸ hCount
  · exact fun hCount => ⟨e.2, hFind, hCount⟩

theorem Tracked.pats_routed {calls : List Call} (h : Tracked env c calls) :
    Routed (patChanges calls ++ patChanges (delPats env c.patTab (patKeys env c)).2) ↔
      Visible (fun e => e.1.1) (fun e => e.2.refcnt ≠ notFound) (visitedPats env c) := by
  have hNames : ((patKeys env c).map fun e => (e.1.1, e.2)) =
      (visitedPats env c).map fun e => (e.1.1, e.2.value) := by
    rw [patKeys_eq, List.map_map]
    rfl
  have hKeys : ∀ k, k ∈ ((visitedPats env c).map fun e => (e.1.1, e.2.value)) ↔
      HasPat (patNames c.patTab) k := by
    intro k
    rw [List.mem_map]
    constructor
    · rintro ⟨e, he, rfl⟩
      obtain ⟨route, hFind, hMem⟩ := mem_visitedPats.mp he
      refine ⟨e.1, route.map RvWildMatch.value, ?_, rfl, List.mem_map_of_mem hMem⟩
      rw [patNames_find?, hFind]
      rfl
    · rintro ⟨key, names, hFind, hHash, hMem⟩
      rw [patNames_find?] at hFind
      obtain ⟨route, hRoute, rfl⟩ := Option.map_eq_some_iff.mp hFind
      obtain ⟨m, hm, hValue⟩ := List.mem_map.mp hMem
      exact ⟨(key, m), mem_visitedPats.mpr ⟨route, hRoute, hm⟩, Prod.ext hHash hValue⟩
  have hAlive : ∀ k, (patMarking env).alive c.patTab k → HasPat (patNames c.patTab) k := by
    rintro k ⟨key, route, m, hFind, hHash, hMem, hValue, -⟩
    refine ⟨key, route.map RvWildMatch.value, ?_, hHash, List.mem_map.mpr ⟨m, hMem, hValue⟩⟩
    rw [patNames_find?, hFind]
    rfl
  rw [(delPats_eq h.kept.patKeys_inPlace _).1, hNames, h.pats.sweep (m := patMarking env) h.kept
    (patCalls_nodup h.kept) hKeys hAlive, visible_map]
  refine visible_congr fun e he => ?_
  obtain ⟨route, hFind, hMem⟩ := mem_visitedPats.mp he
  constructor
  · rintro ⟨key, route', m, hFind', hHash, hMem', hValue, hCount⟩
    obtain ⟨l, hConvert, hPlace⟩ := h.kept.placed_at hFind hMem
    obtain ⟨l', hConvert', hPlace'⟩ := h.kept.placed_at hFind' hMem'
    dsimp only at hValue
    rw [hValue] at hConvert' hPlace'
    obtain rfl : l = l' := Option.some.inj (hConvert.symm.trans hConvert')
    obtain rfl : key = e.1 := hPlace'.trans hPlace.symm
    obtain rfl : route' = route := Option.some.inj (hFind'.symm.trans hFind)
    have hNames : (patNames c.patTab).find? e.1 = some (route'.map RvWildMatch.value) := by
      rw [patNames_find?, hFind]
      rfl
    obtain rfl : m = e.2 := List.inj_on_of_nodup_map (h.kept.nodup hNames) hMem' hMem hValue
    exact hCount
  · exact fun hCount => ⟨e.1, route, e.2, hFind, rfl, hMem, rfl, hCount⟩

/-- The calls of `rem_all_sub` that go to the routes. -/
theorem remAllSub_changes (hKept : Kept env (patNames c.patTab)) (quit : Bool) :
    subChanges (remAllSub quit env c).2 = subChanges (delSubs c.subTab (subKeys env c)).2 ∧
      patChanges (remAllSub quit env c).2 = patChanges (delPats env c.patTab (patKeys env c)).2 := by
  have hStops : ∃ stops : Connection Regex × List Call, stops.1.subTab = c.subTab ∧
      stops.1.patTab = c.patTab ∧ Plain stops.2 ∧ (remAllSub quit env c).2 = stops.2 ++
        (delSubs stops.1.subTab (subKeys env c)).2 ++
        (delPats env stops.1.patTab (patKeys env c)).2 := by
    unfold remAllSub
    cases quit with
    | true => exact ⟨(c, []), rfl, rfl, ⟨rfl, rfl⟩, rfl⟩
    | false =>
        obtain ⟨hSub, hPat, hPlain⟩ := stopListens_keeps c _
        exact ⟨_, hSub, hPat, hPlain, rfl⟩
  obtain ⟨stops, hSub, hPat, ⟨hPlainSubs, hPlainPats⟩, hCalls⟩ := hStops
  have hNoSubs := (delPats_eq hKept.patKeys_inPlace c.patTab).2
  have hNoPats := (delSubs_eq c.subTab (subKeys env c)).2
  unfold subChanges at hPlainSubs hNoSubs ⊢
  unfold patChanges at hPlainPats hNoPats ⊢
  rw [hCalls, hSub, hPat]
  simp only [List.filterMap_append, hPlainSubs, hPlainPats, hNoSubs, hNoPats, List.append_nil,
    List.nil_append, and_self]

/-- A connection tells its collisions as they are, to its end if no count of a subject that is
deleted last among those with its hash looks like the mark. -/
theorem route_collisions (env : Env Regex) (start c : Connection Regex)
    (inputs : List (Input Regex)) (calls : List Call) (quit : Bool)
    (hInit : (connection env).init start)
    (hRun : ((connection env).guard (Succeeds env)).Run start inputs calls c) :
    Tracked env c calls ∧
      (Routed (subChanges (calls ++ (remAllSub quit env c).2)) ∧
        Routed (patChanges (calls ++ (remAllSub quit env c).2)) ↔
      Visible (fun e => e.1.1) (fun e => e.2.refcnt ≠ notFound) (env.visitSubs c.subTab) ∧
        Visible (fun e => e.1.1) (fun e => e.2.refcnt ≠ notFound) (visitedPats env c)) := by
  have hTracked := connection_tracked hInit hRun
  obtain ⟨hSubs, hPats⟩ := remAllSub_changes hTracked.kept quit
  refine ⟨hTracked, ?_⟩
  rw [subChanges_append, patChanges_append, hSubs, hPats, hTracked.subs_routed,
    hTracked.pats_routed]

/-- All subjects have one hash. -/
def collidingEnv : Env Text := { sampleEnv with crcC := fun _ _ => 0 }

/-- `B` once, then `A` so many times. -/
def twoSubs (n : Nat) : Table Key RvSubRoute where
  entries := [((0, text "B"), {}), ((0, text "A"), { refcnt := BitVec.ofNat 32 n })]
  nodup := by
    have hKeys : ([(0, text "B"), (0, text "A")] : List Key).Nodup := by decide
    exact hKeys

def twoInputs (n : Nat) : List (Input Text) :=
  .listen noCompile (text "B") false :: List.replicate n (.listen noCompile (text "A") false)

theorem twoSubs_insert (n : Nat) :
    (twoSubs n).insert (0, text "A") { refcnt := BitVec.ofNat 32 n + 1 } = twoSubs (n + 1) := by
  have hFind : (twoSubs n).find? (0, text "A") = some { refcnt := BitVec.ofNat 32 n } := rfl
  have hNext : BitVec.ofNat 32 n + 1 = BitVec.ofNat 32 (n + 1) := (BitVec.ofNat_add n 1).symm
  have hSome : (twoSubs n).find? (0, text "A") ≠ none := by
    rw [hFind]
    exact Option.some_ne_none _
  rw [Table.insert_of_found _ hSome, hNext]
  exact Table.ext rfl

theorem twoSubs_listen (n : Nat) :
    (addSub noCompile collidingEnv { subTab := twoSubs n } (text "A") false).1 =
      { subTab := twoSubs (n + 1) } := by
  have hFind : (twoSubs n).find? (subKey collidingEnv.toEnv (text "A")) =
      some { refcnt := BitVec.ofNat 32 n } := rfl
  have hPut : (addExact collidingEnv { subTab := twoSubs n } (text "A")).conn =
      { subTab := twoSubs (n + 1) } := by
    have hInsert : (twoSubs n).insert (subKey collidingEnv.toEnv (text "A"))
        { refcnt := BitVec.ofNat 32 n + 1 } = twoSubs (n + 1) := twoSubs_insert n
    unfold addExact
    dsimp only
    rw [hFind]
    dsimp only [Connection.setSub]
    rw [hInsert]
  have hSubject : ([] : Text) ++ text "A" = text "A" := rfl
  unfold addSub
  dsimp only
  rw [hSubject, if_neg Bool.false_ne_true, hPut]
  simp

theorem twoSubs_run (n : Nat) : ∃ calls,
    ((connection collidingEnv).guard (Succeeds collidingEnv)).Run {} (twoInputs (n + 1)) calls
      { subTab := twoSubs (n + 1) } := by
  induction n with
  | zero =>
      have hFirst : ((connection collidingEnv).guard (Succeeds collidingEnv)).Run {}
          [.listen noCompile (text "B") false] (addSub noCompile collidingEnv {} (text "B") false).2
          (addSub noCompile collidingEnv {} (text "B") false).1 :=
        System.Run.snoc (System.Run.nil _) ⟨trivial, rfl⟩
      have hState : (addSub noCompile collidingEnv
          (addSub noCompile collidingEnv {} (text "B") false).1 (text "A") false).1 =
          { subTab := twoSubs 1 } := rfl
      exact ⟨_, hFirst.take (.listen noCompile (text "A") false) _ trivial (Prod.ext hState rfl)⟩
  | succ n ih =>
      obtain ⟨calls, hRun⟩ := ih
      have hInputs : twoInputs (n + 1 + 1) =
          twoInputs (n + 1) ++ [.listen noCompile (text "A") false] := by
        rw [twoInputs, twoInputs, List.replicate_succ', List.cons_append]
      rw [hInputs]
      exact ⟨_, hRun.take (.listen noCompile (text "A") false) _ trivial
        (Prod.ext (twoSubs_listen (n + 1)) rfl)⟩

/-- Two subjects that share a route, from their `L` messages to the end. -/
theorem route_collisions_pair : ∃ calls c,
    ((connection collidingEnv).guard (Succeeds collidingEnv)).Run {} (twoInputs 1) calls c ∧
      Routed (subChanges (calls ++ (remAllSub true collidingEnv c).2)) := by
  obtain ⟨calls, hRun⟩ := twoSubs_run 0
  refine ⟨calls, _, hRun, ((route_collisions collidingEnv {} _ _ _ true ⟨rfl, rfl⟩ hRun).2.mpr
    ⟨?_, trivial⟩).1⟩
  have hVisit : collidingEnv.visitSubs (twoSubs (0 + 1)) =
      [((0, text "B"), {}), ((0, text "A"), { refcnt := 1 })] := rfl
  have hLive : (1 : BitVec 32) ≠ notFound := by decide
  rw [hVisit]
  exact ⟨fun _ => ⟨_, List.mem_singleton_self _, rfl, hLive⟩, fun hSome => by simp at hSome, trivial⟩

/-- A subject that is held 4294967295 times is taken for one that is gone. -/
theorem full_count_is_mark : ∃ calls c,
    ((connection collidingEnv).guard (Succeeds collidingEnv)).Run {} (twoInputs (2 ^ 32 - 1))
      calls c ∧ ¬ Routed (subChanges (calls ++ (remAllSub true collidingEnv c).2)) := by
  obtain ⟨calls, hRun⟩ := twoSubs_run (2 ^ 32 - 2)
  refine ⟨calls, _, hRun, fun hRouted => ?_⟩
  have hTracked := connection_tracked ⟨rfl, rfl⟩ hRun
  rw [subChanges_append, (remAllSub_changes hTracked.kept true).1, hTracked.subs_routed] at hRouted
  have hVisit : collidingEnv.visitSubs (twoSubs (2 ^ 32 - 2 + 1)) =
      [((0, text "B"), {}), ((0, text "A"), { refcnt := notFound })] := rfl
  rw [hVisit] at hRouted
  obtain ⟨x, hx, -, hCount⟩ := hRouted.1 ⟨_, List.mem_singleton_self _, rfl⟩
  rw [List.mem_singleton.mp hx] at hCount
  exact hCount rfl

end Sassrv.Daemon.Routes
