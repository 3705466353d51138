import Mathlib
import Sassrv.Rv7.Listeners

/-! The listeners that `on_rv_msg` finds are those that a comparison with every
open listener finds. -/
namespace Sassrv.Rv7
open SubMgr Client Transition

/-- The listeners opened and not closed, with their subjects. -/
def live (env : Env) : List Input → List (BitVec 32 × Text) :=
  List.foldl (fun opened input =>
    match input with
    | .createListener id queue subj =>
        if isSubject subj && env.isQueue queue then opened ++ [(id, subj)] else opened
    | .destroyEvent id => opened.filter fun l => l.1 ≠ id
    | _ => opened) []

/-- The rule that a listener's subject is compared with a message's subject by. -/
def isListenedTo (subj sub : Text) : Bool :=
  if isRvWildcard subj then matchRvWildcard subj sub else subj = sub

def Listener.key (l : Listener) : BitVec 32 × Text := (l.id, l.subject)

/-- The wildcard listeners of one prefix length. -/
def wildCount (listeners : List Listener) (pref : BitVec 32) : Nat :=
  listeners.countP fun l => l.wild ≠ 0 && l.wild.setWidth 32 = pref

/-- What the index holds for a prefix length with so many listeners. -/
def indexed (n : Nat) : Option (BitVec 32) := if n = 0 then none else some (BitVec.ofNat 32 n)

/-- The tables hold the open listeners. -/
structure Indexed (env : Env) (t : Transport) (live : List (BitVec 32 × Text)) : Prop where
  filed : Buckets.Filed Listener.hash t.ht
  listeners : (t.ht.elements.map Listener.key).Perm live
  made : ∀ l ∈ t.ht.elements,
    l = .make env l.id l.queue l.subject ∧ l.subject.length < 65536 ∧ l.id ≠ 0
  ids : (live.map Prod.fst).Nodup
  wild : ∀ pref, ((t.wildHt.getD .empty).find? pref) = indexed (wildCount t.ht.elements pref)
  table : t.wildHt ≠ none → t.ht.table ≠ []

variable {env : Env} {t : Transport} {opened : List (BitVec 32 × Text)}

theorem wildCount_perm {list list' : List Listener} (h : list.Perm list') (pref : BitVec 32) :
    wildCount list pref = wildCount list' pref :=
  h.countP_eq _

theorem wildLength_toNat {subj : Text} (hLength : subj.length < 65536) {i : Nat}
    (h : rvWildcard subj = some i) : (wildLength subj).toNat = i + 1 := by
  have hLt := rvWildcard_lt h
  rw [wildLength, h, BitVec.toNat_ofNat]
  omega

theorem wildLength_eq_zero {subj : Text} (hLength : subj.length < 65536) :
    wildLength subj = 0 ↔ rvWildcard subj = none := by
  constructor
  · intro h
    cases hWild : rvWildcard subj with
    | none => rfl
    | some i =>
        have := wildLength_toNat hLength hWild
        rw [h] at this
        simp at this
  · intro h
    rw [wildLength, h]

theorem wildLength_pred {subj : Text} (hLength : subj.length < 65536) {i : Nat}
    (h : rvWildcard subj = some i) : ((wildLength subj).setWidth 32 - 1).toNat = i := by
  have hLt := rvWildcard_lt h
  have hNat : ((wildLength subj).setWidth 32).toNat = i + 1 := by
    rw [BitVec.toNat_setWidth, wildLength_toNat hLength h]
    omega
  have hOne : (1 : BitVec 32).toNat = 1 := rfl
  rw [BitVec.toNat_sub_of_le (by rw [BitVec.le_def]; omega), hNat, hOne]
  omega

/-- A subject that a wildcard matches has the text in front of the wildcard. -/
theorem wildMatch_prefix {subj sub : Text} (hLength : subj.length < 65536)
    (hWild : wildLength subj ≠ 0) (hMatch : matchRvWildcard subj sub = true) :
    (rvWildcard subj).isSome = true ∧
      ((wildLength subj).setWidth 32 - 1).toNat < sub.length ∧
      sub.take ((wildLength subj).setWidth 32 - 1).toNat =
        subj.take ((wildLength subj).setWidth 32 - 1).toNat := by
  cases hPos : rvWildcard subj with
  | none => exact absurd ((wildLength_eq_zero hLength).mpr hPos) hWild
  | some i =>
      rw [wildLength_pred hLength hPos]
      exact ⟨rfl, matchRvWildcard_prefix hPos hMatch⟩

theorem isListenedTo_eq {subj sub : Text} (hLength : subj.length < 65536) :
    isListenedTo subj sub =
      if wildLength subj = 0 then decide (subj = sub) else matchRvWildcard subj sub := by
  rw [isListenedTo, ← rvWildcard_isSome]
  by_cases hZero : wildLength subj = 0
  · simp [(wildLength_eq_zero hLength).mp hZero, hZero]
  · have hSome : (rvWildcard subj).isSome = true := by
      rw [Option.isSome_iff_ne_none]
      exact fun hNone => hZero ((wildLength_eq_zero hLength).mpr hNone)
    simp only [hSome, if_true, if_neg hZero]

/-- Ids that are distinct and not zero are fewer than 2^32. -/
theorem ids_length {ids : List (BitVec 32)} (hNodup : ids.Nodup) (hZero : 0 ∉ ids) :
    ids.length < 2 ^ 32 := by
  have hAll : ((0 :: ids).map BitVec.toFin).Nodup :=
    (List.nodup_cons.mpr ⟨hZero, hNodup⟩).map fun a b h => BitVec.eq_of_toFin_eq h
  have := hAll.length_le_card
  rw [Fintype.card_fin, List.length_map, List.length_cons] at this
  omega

theorem Indexed.empty : Indexed env {} [] where
  filed := .empty
  listeners := .nil
  made := by simp [Buckets.elements]
  ids := List.nodup_nil
  wild pref := by simp [indexed, wildCount, Buckets.elements]
  table := by simp

theorem Indexed.length_lt (hIndexed : Indexed env t opened) : t.ht.elements.length < 2 ^ 32 := by
  have hNodup : (t.ht.elements.map Listener.id).Nodup := by
    have := (hIndexed.listeners.map Prod.fst).nodup_iff.mpr hIndexed.ids
    rwa [List.map_map] at this
  have hZero : 0 ∉ t.ht.elements.map Listener.id := by
    intro hMem
    obtain ⟨l, hl, hId⟩ := List.mem_map.mp hMem
    exact (hIndexed.made l hl).2.2 hId
  simpa using ids_length hNodup hZero

theorem addWildcard_find {pref : BitVec 32} {n : Nat}
    (h : (t.wildHt.getD .empty).find? pref = indexed n) (p : BitVec 32) :
    ((addWildcard t pref).wildHt.getD .empty).find? p =
      if p = pref then indexed (n + 1) else (t.wildHt.getD .empty).find? p := by
  unfold addWildcard
  by_cases hn : n = 0
  · rw [indexed, if_pos hn] at h
    simp only [h, Option.getD_some, Table.find?_insert]
    subst hn
    rfl
  · rw [indexed, if_neg hn] at h
    simp only [h, Option.getD_some, Table.find?_modify]
    by_cases hp : p = pref
    · subst hp
      simp [h, indexed, BitVec.ofNat_add]
    · simp [hp]

theorem removeWildcard_find {pref : BitVec 32} {n : Nat} (hn : n + 1 < 2 ^ 32)
    (h : (t.wildHt.getD .empty).find? pref = indexed (n + 1)) (p : BitVec 32) :
    ((removeWildcard t pref).wildHt.getD .empty).find? p =
      if p = pref then indexed n else (t.wildHt.getD .empty).find? p := by
  rw [indexed, if_neg (Nat.succ_ne_zero n)] at h
  unfold removeWildcard
  cases hWild : t.wildHt with
  | none => simp [hWild] at h
  | some wild =>
      rw [hWild, Option.getD_some] at h
      simp only [h, Option.getD_some]
      by_cases hOne : n = 0
      · subst hOne
        simp [Table.find?_erase, indexed]
      · have hNot : BitVec.ofNat 32 (n + 1) ≠ 1 := by
          intro hEq
          have := congrArg BitVec.toNat hEq
          rw [BitVec.toNat_ofNat, Nat.mod_eq_of_lt hn] at this
          simp at this
          omega
        rw [if_neg hNot, Option.getD_some, Table.find?_modify]
        by_cases hp : p = pref
        · subst hp
          have hSub : BitVec.ofNat 32 (n + 1) - 1#32 = BitVec.ofNat 32 n := by
            rw [BitVec.ofNat_add]
            exact BitVec.add_sub_cancel _ _
          simp [h, indexed, hOne, hSub]
        · simp [hp]

theorem wildCount_cons (l : Listener) (list : List Listener) (pref : BitVec 32) :
    wildCount (l :: list) pref =
      wildCount list pref + if l.wild ≠ 0 ∧ l.wild.setWidth 32 = pref then 1 else 0 := by
  simp [wildCount, List.countP_cons]

/-- A new listener is counted under its prefix length, if it has one. -/
theorem openListener_find (l : Listener)
    (h : ∀ pref, (t.wildHt.getD .empty).find? pref = indexed (wildCount t.ht.elements pref))
    (pref : BitVec 32) :
    ((openListener t (l.wild ≠ 0) l).wildHt.getD .empty).find? pref =
      indexed (wildCount (l :: t.ht.elements) pref) := by
  rw [wildCount_cons]
  by_cases hZero : l.wild = 0
  · simpa [openListener, hZero] using h pref
  · have hAdd := addWildcard_find (h (l.wild.setWidth 32)) pref
    simp only [openListener, ne_eq, hZero, not_false_eq_true, decide_true, if_true, true_and]
    rw [hAdd, h pref]
    by_cases hp : pref = l.wild.setWidth 32
    · subst hp
      simp
    · simp [hp, Ne.symm hp]

theorem closeListener_find (l : Listener) {list : List Listener}
    (hList : (l :: list).length < 2 ^ 32)
    (h : ∀ pref, (t.wildHt.getD .empty).find? pref = indexed (wildCount (l :: list) pref))
    (pref : BitVec 32) :
    ((closeListener t l).wildHt.getD .empty).find? pref = indexed (wildCount list pref) := by
  by_cases hZero : l.wild = 0
  · simpa [closeListener, hZero, wildCount_cons] using h pref
  · have hHere := h (l.wild.setWidth 32)
    rw [wildCount_cons, if_pos ⟨hZero, rfl⟩] at hHere
    have hBound : wildCount list (l.wild.setWidth 32) + 1 < 2 ^ 32 := by
      have := List.countP_le_length (l := list)
        (p := fun l' => l'.wild ≠ 0 && l'.wild.setWidth 32 = l.wild.setWidth 32)
      rw [List.length_cons] at hList
      unfold wildCount
      omega
    have hRemove := removeWildcard_find hBound hHere pref
    simp only [closeListener, ne_eq, hZero, not_false_eq_true, if_true]
    rw [hRemove, h pref, wildCount_cons]
    by_cases hp : pref = l.wild.setWidth 32
    · subst hp
      simp
    · simp [hp, Ne.symm hp]

theorem make_wild_ne_zero {id queue : BitVec 32} {subj : Text} (hLength : subj.length < 65536) :
    (rvWildcard subj).isSome = decide ((Listener.make env id queue subj).wild ≠ 0) := by
  have := wildLength_eq_zero hLength
  cases hWild : rvWildcard subj with
  | none => simp [Listener.make, this.mpr hWild]
  | some i =>
      have hNot : wildLength subj ≠ 0 := fun h => by simp [this.mp h] at hWild
      exact (decide_eq_true hNot).symm

theorem Indexed.openListener (hIndexed : Indexed env t opened) {id queue : BitVec 32} {subj : Text}
    (hFresh : t.Fresh id) (hLength : subj.length < 65536) :
    Indexed env (openListener t (rvWildcard subj).isSome (.make env id queue subj))
      (opened ++ [(id, subj)]) := by
  obtain ⟨hFiled, hTable, hPerm⟩ := hIndexed.filed.push (.make env id queue subj)
  refine ⟨?_, ?_, ?_, ?_, ?_, ?_⟩
  · rw [openListener_ht]
    exact hFiled
  · rw [openListener_ht]
    refine (hPerm.map Listener.key).trans ?_
    exact (hIndexed.listeners.cons _).trans (List.perm_append_singleton _ _).symm
  · rw [openListener_ht]
    intro l hl
    rcases List.mem_cons.mp (hPerm.mem_iff.mp hl) with rfl | hl
    · exact ⟨rfl, hLength, hFresh.1⟩
    · exact hIndexed.made l hl
  · rw [List.map_append, List.nodup_append]
    refine ⟨hIndexed.ids, List.nodup_singleton _, ?_⟩
    intro x hx y hy
    rw [List.map_cons, List.map_nil, List.mem_singleton] at hy
    obtain ⟨k, hk, rfl⟩ := List.mem_map.mp hx
    obtain ⟨l, hl, rfl⟩ := List.mem_map.mp (hIndexed.listeners.mem_iff.mpr hk)
    exact hy ▸ hFresh.2 l hl
  · intro pref
    rw [make_wild_ne_zero hLength, openListener_find _ hIndexed.wild, openListener_ht,
      wildCount_perm hPerm]
  · intro _
    rw [openListener_ht]
    exact hTable

theorem Indexed.closeListener (hIndexed : Indexed env t opened) {l : Listener}
    (hMem : l ∈ t.ht.elements) :
    Indexed env (closeListener t l) (opened.filter fun k => k.1 ≠ l.id) := by
  obtain ⟨hFiled, hTable, hPerm⟩ := hIndexed.filed.remove hMem
  have hOpen : (l.key :: (t.ht.remove Listener.hash l).elements.map Listener.key).Perm opened :=
    (hPerm.map Listener.key).trans hIndexed.listeners
  have hIds := (hOpen.map Prod.fst).nodup_iff.mpr hIndexed.ids
  obtain ⟨hHead, _⟩ := List.nodup_cons.mp hIds
  refine ⟨?_, ?_, ?_, ?_, ?_, ?_⟩
  · rw [closeListener_ht]
    exact hFiled
  · rw [closeListener_ht]
    refine .trans ?_ (hOpen.filter _)
    rw [List.filter_cons_of_neg (by simp [Listener.key]), List.filter_eq_self.mpr]
    intro k hk
    have : k.1 ≠ l.key.1 := fun h => hHead (h ▸ List.mem_map_of_mem (f := Prod.fst) hk)
    exact decide_eq_true this
  · rw [closeListener_ht]
    intro l' hl'
    exact hIndexed.made l' (hPerm.mem_iff.mp (List.mem_cons_of_mem _ hl'))
  · exact hIndexed.ids.sublist (List.filter_sublist.map _)
  · rw [closeListener_ht]
    have hWild : ∀ pref, (t.wildHt.getD .empty).find? pref =
        indexed (wildCount (l :: (t.ht.remove Listener.hash l).elements) pref) := by
      intro pref
      rw [wildCount_perm hPerm]
      exact hIndexed.wild pref
    exact closeListener_find l (hPerm.length_eq ▸ hIndexed.length_lt) hWild
  · intro _
    rw [closeListener_ht]
    exact hTable

theorem Indexed.destroyEvent (hIndexed : Indexed env t opened) (id : BitVec 32) :
    Indexed env (destroyEvent t id) (opened.filter fun k => k.1 ≠ id) := by
  unfold Rv7.destroyEvent
  cases hFind : t.ht.elements.find? fun l => l.id = id with
  | none =>
      have hNone : opened.filter (fun k => k.1 ≠ id) = opened := by
        refine List.filter_eq_self.mpr fun k hk => ?_
        obtain ⟨l, hl, rfl⟩ := List.mem_map.mp (hIndexed.listeners.mem_iff.mpr hk)
        have hNot : l.id ≠ id := by simpa using List.find?_eq_none.mp hFind l hl
        exact decide_eq_true hNot
      rw [hNone]
      exact hIndexed
  | some l =>
      have hId : l.id = id := by simpa using List.find?_some hFind
      exact hId ▸ hIndexed.closeListener (List.mem_of_find?_eq_some hFind)

/-- Requests leave the listeners as they are. -/
theorem Indexed.setRpcList (hIndexed : Indexed env t opened) (list : List Rpc) :
    Indexed env { t with rpcList := list } opened :=
  ⟨hIndexed.filed, hIndexed.listeners, hIndexed.made, hIndexed.ids, hIndexed.wild,
    hIndexed.table⟩

/-- Subjects of the length that a listener's `len` can hold. -/
def Short (_ : Transport) : Input → Prop
  | .createListener _ _ subj => subj.length < 65536
  | _ => True

theorem live_snoc (inputs : List Input) (input : Input) :
    live env (inputs ++ [input]) =
      match input with
      | .createListener id queue subj =>
          if isSubject subj && env.isQueue queue then live env inputs ++ [(id, subj)]
          else live env inputs
      | .destroyEvent id => (live env inputs).filter fun l => l.1 ≠ id
      | _ => live env inputs := by
  simp only [live, List.foldl_append, List.foldl_cons, List.foldl_nil]

/-- What one call does to the tables. -/
theorem Indexed.step {inputs : List Input} (hIndexed : Indexed env t (live env inputs))
    {input : Input} {emitted : List Status} {t' : Transport} (hShort : Short t input)
    (hStep : (transport env).step t input emitted t') :
    Indexed env t' (live env (inputs ++ [input])) := by
  rw [live_snoc]
  cases input with
  | createListener id queue subj =>
      obtain ⟨hFresh, rfl, _⟩ := hStep
      unfold createListener
      by_cases hSubject : isSubject subj
      · by_cases hQueue : env.isQueue queue
        · simpa [hSubject, hQueue] using hIndexed.openListener hFresh hShort
        · simpa [hSubject, hQueue] using hIndexed
      · simpa [hSubject] using hIndexed
  | destroyEvent id =>
      obtain ⟨rfl, _⟩ := hStep
      exact hIndexed.destroyEvent id
  | sendRequest reply =>
      obtain ⟨rfl, _⟩ := hStep
      exact hIndexed.setRpcList _
  | replied reply =>
      obtain ⟨rfl, _⟩ := hStep
      exact hIndexed.setRpcList _

/-- Whatever the calls, the tables hold the listeners opened and not closed. -/
theorem run_indexed {inputs : List Input} {outputs : List Status} {start : Transport}
    (hStart : Indexed env start [])
    (hRun : ((transport env).guard Short).Run start inputs outputs t) :
    Indexed env t (live env inputs) := by
  induction hRun with
  | nil => exact hStart
  | snoc prior last ih => exact ih.step last.1 last.2

/-- A bucket holds every listener with the hash that is looked up. -/
theorem Indexed.bucket (hIndexed : Indexed env t opened) {h : BitVec 32} {p : Listener → Bool}
    (hp : ∀ l, p l → l.hash = h) (hTable : t.ht.table ≠ []) :
    (t.ht.bucket? h).map (·.filter p) = some (t.ht.elements.filter p) := by
  rw [hIndexed.filed.bucket? hTable, Option.map_some, List.filter_filter]
  refine congrArg some (List.filter_congr fun l _ => ?_)
  by_cases hl : p l
  · simp [hl, hp l hl]
  · simp [hl]

theorem Indexed.exactListeners (hIndexed : Indexed env t opened) (pub : Publish) :
    exactListeners t pub = t.ht.elements.filter (isExact pub) := by
  unfold Rv7.exactListeners
  by_cases hTable : t.ht.table = []
  · simp [Buckets.bucket?, Buckets.elements, hTable]
  · have hBucket := hIndexed.bucket (h := pub.subjHash) (p := isExact pub)
      (fun l hl => by simp only [isExact, Bool.and_eq_true, decide_eq_true_eq] at hl; exact hl.1.1.1)
      hTable
    obtain ⟨list, hList, hFilter⟩ := Option.map_eq_some_iff.mp hBucket
    rw [hList, Option.getD_some, hFilter]

/-- A wildcard listener that matches. -/
def isWildMatch (pub : Publish) (l : Listener) : Bool :=
  l.wild ≠ 0 && matchRvWildcard l.subject pub.subject

/-- What a listener of the table that matches says about the message. -/
theorem Indexed.wild_prefix (hIndexed : Indexed env t opened) {l : Listener}
    (hl : l ∈ t.ht.elements) {pub : Publish} (hMatch : isWildMatch pub l = true) :
    (l.wild.setWidth 32 - 1).toNat < pub.subject.length ∧
      l.hash = prefixHash env pub.subject (l.wild.setWidth 32) := by
  simp only [isWildMatch, Bool.and_eq_true, decide_eq_true_eq] at hMatch
  obtain ⟨hMade, hLength, _⟩ := hIndexed.made l hl
  have hWild : l.wild = wildLength l.subject := congrArg Listener.wild hMade
  have hHash : l.hash = subjectHash env l.subject := congrArg Listener.hash hMade
  rw [hWild] at hMatch
  obtain ⟨hSome, hLt, hTake⟩ := wildMatch_prefix hLength hMatch.1 hMatch.2
  rw [hWild]
  refine ⟨hLt, ?_⟩
  rw [hHash, subjectHash, if_pos hSome, prefixHash, prefixHash, hTake]

theorem Indexed.prefixListeners (hIndexed : Indexed env t opened) (hTable : t.ht.table ≠ [])
    (pub : Publish) {pref : BitVec 32} (hPref : pref ≠ 0) :
    prefixListeners env t pub pref = some (t.ht.elements.filter fun l =>
      isWildMatch pub l && decide (l.wild.setWidth 32 = pref)) := by
  have hWild : ∀ l : Listener, l.wild.setWidth 32 = pref → l.wild ≠ 0 := by
    rintro l hl hZero
    rw [hZero] at hl
    exact hPref hl.symm
  unfold Rv7.prefixListeners
  split
  case isTrue hShort =>
      refine congrArg some (Eq.symm (List.filter_eq_nil_iff.mpr fun l hl hMatch => ?_))
      simp only [Bool.and_eq_true, decide_eq_true_eq] at hMatch
      have := (hIndexed.wild_prefix hl hMatch.1).1
      rw [hMatch.2] at this
      omega
  case isFalse _ =>
      have hHash : ∀ l, isMatch pub (prefixHash env pub.subject pref) pref l →
          l.hash = prefixHash env pub.subject pref := by
        intro l hl
        simp only [isMatch, Bool.and_eq_true, decide_eq_true_eq] at hl
        exact hl.1.1
      rw [hIndexed.bucket hHash hTable]
      refine congrArg some (List.filter_congr fun l hl => ?_)
      by_cases hKey : l.wild.setWidth 32 = pref
      · have hNot : decide (l.wild ≠ 0) = true := decide_eq_true (hWild l hKey)
        by_cases hMatch : matchRvWildcard l.subject pub.subject
        · have hWildMatch : isWildMatch pub l = true := by
            rw [isWildMatch, hNot, hMatch]
            rfl
          have hSame := (hIndexed.wild_prefix hl hWildMatch).2
          rw [hKey] at hSame
          simp [isMatch, hWildMatch, hKey, hSame, hMatch]
        · simp [isMatch, isWildMatch, hMatch]
      · simp [isMatch, hKey]

theorem wildCount_ne_zero {list : List Listener} {l : Listener} (hl : l ∈ list)
    (hWild : l.wild ≠ 0) : wildCount list (l.wild.setWidth 32) ≠ 0 := by
  intro hNone
  refine List.countP_eq_zero.mp hNone l hl ?_
  rw [decide_eq_true hWild, decide_eq_true rfl]
  rfl

/-- No listener has the prefix length zero. -/
theorem wildCount_zero (list : List Listener) : wildCount list 0 = 0 := by
  refine List.countP_eq_zero.mpr fun l _ hl => ?_
  simp only [Bool.and_eq_true, decide_eq_true_eq] at hl
  refine hl.1 (BitVec.eq_of_toNat_eq ?_)
  have hNat := congrArg BitVec.toNat hl.2
  rw [BitVec.toNat_setWidth, Nat.mod_eq_of_lt (by have := l.wild.isLt; omega)] at hNat
  exact hNat

/-- The index of a transport lists the prefix lengths of its wildcard listeners. -/
theorem Indexed.mem_visit (hIndexed : Indexed env t opened) {wild : UIntHashTab}
    (hWild : t.wildHt = some wild) (pref : BitVec 32) :
    pref ∈ (env.visit wild).map Prod.fst ↔ wildCount t.ht.elements pref ≠ 0 := by
  have hFind := hIndexed.wild pref
  rw [hWild, Option.getD_some, indexed] at hFind
  rw [((env.visit_perm wild).map Prod.fst).mem_iff]
  constructor
  · intro hMem hNone
    obtain ⟨e, he, rfl⟩ := List.mem_map.mp hMem
    rw [if_pos hNone] at hFind
    exact Table.find?_eq_none.mp hFind e he rfl
  · intro hCount
    rw [if_neg hCount] at hFind
    exact List.mem_map_of_mem (f := Prod.fst) (Table.find?_eq_some.mp hFind)

theorem mapM_of_some {α β : Type*} {f : α → Option β} {g : α → β} {list : List α}
    (h : ∀ a ∈ list, f a = some (g a)) : list.mapM f = some (list.map g) := by
  induction list with
  | nil => rfl
  | cons a rest ih =>
      rw [List.mapM_cons, h a List.mem_cons_self, ih fun b hb => h b (List.mem_cons_of_mem _ hb)]
      rfl

theorem Indexed.wildListeners (hIndexed : Indexed env t opened) (pub : Publish) :
    ∃ list, wildListeners env t pub = some list ∧
      list.Perm (t.ht.elements.filter (isWildMatch pub)) := by
  unfold Rv7.wildListeners
  cases hWild : t.wildHt with
  | none =>
      refine ⟨[], rfl, ?_⟩
      rw [List.filter_eq_nil_iff.mpr]
      intro l hl hMatch
      simp only [isWildMatch, Bool.and_eq_true, decide_eq_true_eq] at hMatch
      have hIndex := hIndexed.wild (l.wild.setWidth 32)
      rw [hWild, indexed, if_neg (wildCount_ne_zero hl hMatch.1)] at hIndex
      cases hIndex
  | some wild =>
      have hTable := hIndexed.table (by simp [hWild])
      have hEach : ∀ e ∈ env.visit wild, Rv7.prefixListeners env t pub e.1 =
          some (t.ht.elements.filter fun l =>
            isWildMatch pub l && decide (l.wild.setWidth 32 = e.1)) := by
        intro e he
        have hCount := (hIndexed.mem_visit hWild e.1).mp (List.mem_map_of_mem he)
        exact hIndexed.prefixListeners hTable pub fun h => hCount (h ▸ wildCount_zero _)
      have hAll := congrArg (Option.map List.flatten) (mapM_of_some hEach)
      refine ⟨_, hAll, ?_⟩
      have hKeys : ((env.visit wild).map Prod.fst).Nodup :=
        ((env.visit_perm wild).map Prod.fst).nodup_iff.mpr wild.nodup
      have hClasses := Buckets.flatMap_classes hKeys t.ht.elements
        (fun l => l.wild.setWidth 32) (isWildMatch pub) (by
          intro l hl hMatch
          simp only [isWildMatch, Bool.and_eq_true, decide_eq_true_eq] at hMatch
          exact (hIndexed.mem_visit hWild _).mpr (wildCount_ne_zero hl hMatch.1))
      rwa [List.flatMap_map] at hClasses

/-- The subject rule in terms of the fields of a listener. -/
theorem Indexed.isListenedTo (hIndexed : Indexed env t opened) {pub : Publish}
    (hHash : pub.subjHash = env.crcC pub.subject 0) {l : Listener} (hl : l ∈ t.ht.elements) :
    isListenedTo l.subject pub.subject = (isExact pub l || isWildMatch pub l) := by
  obtain ⟨hMade, hLength, _⟩ := hIndexed.made l hl
  have hWild : l.wild = wildLength l.subject := congrArg Listener.wild hMade
  have hSum : l.hash = subjectHash env l.subject := congrArg Listener.hash hMade
  have hLen : l.len = BitVec.ofNat 16 l.subject.length := congrArg Listener.len hMade
  rw [isListenedTo_eq hLength, ← hWild]
  split
  case isTrue hZero =>
      have hNone := (wildLength_eq_zero hLength).mp (hWild ▸ hZero)
      rw [subjectHash, hNone] at hSum
      have hLenNat : l.len.toNat = l.subject.length := by
        rw [hLen, BitVec.toNat_ofNat, Nat.mod_eq_of_lt hLength]
      by_cases hSame : l.subject = pub.subject
      · simp [isExact, hZero, hLenNat, hSum, hHash, hSame]
      · simp [isExact, isWildMatch, hZero, hSame]
  case isFalse hNot =>
      simp only [isExact, isWildMatch, decide_eq_true hNot, decide_eq_false hNot, Bool.and_false,
        Bool.false_and, Bool.false_or, Bool.true_and]

theorem filter_or_perm {α : Type*} (list : List α) {p q : α → Bool}
    (h : ∀ a ∈ list, p a → q a = false) :
    (list.filter p ++ list.filter q).Perm (list.filter fun a => p a || q a) := by
  have hSplit := List.filter_append_perm p (list.filter fun a => p a || q a)
  rw [List.filter_filter, List.filter_filter] at hSplit
  have hLeft : list.filter (fun a => p a && (p a || q a)) = list.filter p :=
    List.filter_congr fun a _ => by cases p a <;> rfl
  have hRight : list.filter (fun a => !p a && (p a || q a)) = list.filter q := by
    refine List.filter_congr fun a ha => ?_
    cases hp : p a
    · simp
    · simp [h a ha hp]
  rwa [hLeft, hRight] at hSplit

/-- The deliveries of a message, in terms of the listeners of the tables. -/
theorem Indexed.onRvMsg (hIndexed : Indexed env t opened) {pub : Publish}
    (hHash : pub.subjHash = env.crcC pub.subject 0) (hRv : pub.isRv = true)
    (hIdle : ∀ r ∈ t.rpcList, r.subject ≠ pub.subject) :
    ∃ calls, onRvMsg env t pub = some calls ∧
      (calls.map Listener.key).Perm (opened.filter fun k => Rv7.isListenedTo k.2 pub.subject) := by
  obtain ⟨wild, hWild, hPerm⟩ := hIndexed.wildListeners pub
  have hNoRpc : (t.rpcList.any fun r => r.awaits pub) = false := by
    refine List.any_eq_false.mpr fun r hr hAwaits => ?_
    simp only [Rpc.awaits, Bool.and_eq_true, decide_eq_true_eq] at hAwaits
    exact hIdle r hr hAwaits.2
  refine ⟨Rv7.exactListeners t pub ++ wild, ?_, ?_⟩
  · simp [Rv7.onRvMsg, hRv, hNoRpc, hWild]
  · have hBoth : (Rv7.exactListeners t pub ++ wild).Perm
        (t.ht.elements.filter fun l => Rv7.isListenedTo l.subject pub.subject) := by
      rw [hIndexed.exactListeners]
      refine (hPerm.append_left _).trans ((filter_or_perm _ ?_).trans ?_)
      · intro l _ hl
        simp only [isExact, Bool.and_eq_true, decide_eq_true_eq] at hl
        simp [isWildMatch, hl.1.1.2]
      · rw [List.filter_congr fun l hl => (hIndexed.isListenedTo hHash hl).symm]
    refine (hBoth.map Listener.key).trans ?_
    have hFilter := hIndexed.listeners.filter fun k => Rv7.isListenedTo k.2 pub.subject
    rwa [List.filter_map] at hFilter

/-- In every run of one transport, a message that can be read and that no request
waits for goes exactly once to each open listener whose subject it has or matches,
and to no other; a message that cannot be read goes to none. -/
theorem onRvMsg_delivers {inputs : List Input} {outputs : List Status} {start : Transport}
    (hStart : (transport env).init start)
    (hRun : ((transport env).guard Short).Run start inputs outputs t) {pub : Publish}
    (hHash : pub.subjHash = env.crcC pub.subject 0)
    (hIdle : ∀ r ∈ t.rpcList, r.subject ≠ pub.subject) :
    ∃ calls, onRvMsg env t pub = some calls ∧
      ∀ id subj, (calls.map Listener.key).count (id, subj) =
        if pub.isRv = true ∧ (id, subj) ∈ live env inputs ∧
          isListenedTo subj pub.subject = true then 1 else 0 := by
  obtain rfl : start = {} := hStart
  have hIndexed := run_indexed .empty hRun
  cases hRv : pub.isRv with
  | false =>
      refine ⟨[], by simp [Rv7.onRvMsg, hRv], ?_⟩
      simp
  | true =>
      obtain ⟨calls, hCalls, hPerm⟩ := hIndexed.onRvMsg hHash hRv hIdle
      refine ⟨calls, hCalls, fun id subj => ?_⟩
      have hNodup : (live env inputs).Nodup := hIndexed.ids.of_map _
      rw [hPerm.count_eq, (hNodup.filter _).count]
      simp

/-- Checksums and iteration for examples: the sum of the bytes, and the order of
insertion. -/
def plainEnv : Env where
  crcC text seed := (text.map fun c => BitVec.ofNat 32 c.toNat).sum + seed
  visit t := t.entries
  visit_perm _ := .refl _
  isQueue queue := queue = 1

def sampleMsg (isRv : Bool) : Publish where
  subject := text "A.B"
  subjHash := plainEnv.crcC (text "A.B") 0
  isRv := isRv

def sampleTransport : Transport :=
  openListener (openListener {} false (.make plainEnv 2 1 (text "A.B"))) true
    (.make plainEnv 3 1 (text "A.*"))

/-- One exact and one wildcard listener. -/
theorem sample_run :
    ((transport plainEnv).guard Short).Run {}
      [.createListener 2 1 (text "A.B"), .createListener 3 1 (text "A.*")] [.ok, .ok]
      sampleTransport := by
  have hFirst : ((transport plainEnv).guard Short).step {} (.createListener 2 1 (text "A.B")) [.ok]
      (openListener {} false (.make plainEnv 2 1 (text "A.B"))) :=
    ⟨show (text "A.B").length < 65536 by decide, ⟨by decide, by decide⟩, rfl, rfl⟩
  have hSecond : ((transport plainEnv).guard Short).step
      (openListener {} false (.make plainEnv 2 1 (text "A.B")))
      (.createListener 3 1 (text "A.*")) [.ok] sampleTransport :=
    ⟨show (text "A.*").length < 65536 by decide, ⟨by decide, by decide⟩, rfl, rfl⟩
  exact .snoc (.snoc (.nil {}) hFirst) hSecond

theorem onRvMsg_delivers_both :
    ∃ calls, onRvMsg plainEnv sampleTransport (sampleMsg true) = some calls ∧
      (calls.map Listener.key).count (2, text "A.B") = 1 ∧
      (calls.map Listener.key).count (3, text "A.*") = 1 := by
  have hHash : (sampleMsg true).subjHash = plainEnv.crcC (sampleMsg true).subject 0 := rfl
  obtain ⟨calls, hCalls, hCount⟩ := onRvMsg_delivers rfl sample_run hHash (by decide)
  refine ⟨calls, hCalls, ?_, ?_⟩
  · rw [hCount]
    decide
  · rw [hCount]
    decide

/-- A message whose data is no rv message is dropped although a listener has its
subject. -/
theorem onRvMsg_drops_unreadable :
    ¬ ∀ (env : Env) (inputs : List Input) (outputs : List Status) (t : Transport) (pub : Publish),
      ((transport env).guard Short).Run {} inputs outputs t →
      pub.subjHash = env.crcC pub.subject 0 →
      (∀ r ∈ t.rpcList, r.subject ≠ pub.subject) →
      ∃ calls, onRvMsg env t pub = some calls ∧
        ∀ id subj, (calls.map Listener.key).count (id, subj) =
          if (id, subj) ∈ live env inputs ∧ isListenedTo subj pub.subject = true then 1 else 0 := by
  intro hClaim
  obtain ⟨calls, hCalls, hCount⟩ :=
    hClaim plainEnv _ _ sampleTransport (sampleMsg false) sample_run rfl (by decide)
  obtain rfl : [] = calls := Option.some.inj hCalls
  have := hCount 2 (text "A.B")
  revert this
  decide

end Sassrv.Rv7
