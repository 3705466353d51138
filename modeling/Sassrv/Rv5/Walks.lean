import Sassrv.Rv5.Tables

/-! The loops of a dispatch: which listeners they have before them, and that each of
their turns keeps the account of the calls. The listeners of one hash keep their order
when the table grows, so a loop that stands at one of them goes on as before. -/
namespace Sassrv.Rv5
open SubMgr Client Transition

section After

variable {α : Type} [DecidableEq α] {a b : α} {list before rest : List α}

theorem after_append (h : a ∉ before) : after a (before ++ a :: rest) = rest := by
  unfold after
  rw [List.dropWhile_append_of_pos]
  · simp
  · intro b hb
    simp only [ne_eq, decide_not, Bool.not_eq_eq_eq_not, Bool.not_true, decide_eq_false_iff_not]
    rintro rfl
    exact h hb

theorem mem_of_mem_after (h : b ∈ after a list) : b ∈ list :=
  List.dropWhile_sublist _ |>.subset (List.mem_of_mem_tail h)

theorem after_filter {p : α → Bool} (hMem : a ∈ list) (ha : p a = true) :
    after a (list.filter p) = (after a list).filter p := by
  obtain ⟨before, rest, rfl, hNot⟩ := List.eq_append_cons_of_mem hMem
  rw [after_append hNot, List.filter_append, List.filter_cons_of_pos ha]
  exact after_append fun hBefore => hNot (List.mem_of_mem_filter hBefore)

theorem after_append_right (hMem : a ∈ list) : after a (list ++ rest) = after a list ++ rest := by
  obtain ⟨before, behind, rfl, hNot⟩ := List.eq_append_cons_of_mem hMem
  rw [List.append_assoc, List.cons_append, after_append hNot, after_append hNot]

theorem not_mem_after (hNodup : list.Nodup) : a ∉ after a list := by
  intro h
  obtain ⟨before, behind, rfl, hNot⟩ := List.eq_append_cons_of_mem (mem_of_mem_after h)
  rw [after_append hNot] at h
  have := (List.nodup_append.mp hNodup).2.1
  exact (List.nodup_cons.mp this).1 h

/-- What is behind the next element. -/
theorem after_next (hNodup : list.Nodup) (hMem : a ∈ list) (h : after a list = b :: rest) : after b list = rest := by
  obtain ⟨before, behind, rfl, hNot⟩ := List.eq_append_cons_of_mem hMem
  rw [after_append hNot] at h
  subst h
  have hb : b ∉ before ++ [a] := by
    intro hb
    rw [show before ++ a :: b :: rest = (before ++ [a]) ++ b :: rest by simp] at hNodup
    exact (List.nodup_append.mp hNodup).2.2 b hb b List.mem_cons_self rfl
  rw [show before ++ a :: b :: rest = (before ++ [a]) ++ b :: rest by simp]
  exact after_append hb

end After

variable {env : Env} {s t : Session} {l m : Listener} {h pref : BitVec 32}
  {cur : Option Listener} {calling : Bool}

/-- The listeners that a loop over a bucket has before it. -/
def remaining (ht : Buckets Listener) (h : BitVec 32) (cur : Option Listener) (calling : Bool) :
    List Listener :=
  match cur with
  | none => []
  | some l => (if calling then [] else [l]) ++ after l ((ht.bucket? h).getD [])

/-- The loop stands in the bucket of a hash. -/
structure Stands (ht : Buckets Listener) (h : BitVec 32) (cur : Option Listener)
    (calling : Bool) : Prop where
  table : ht.table ≠ []
  mem : ∀ l, cur = some l → l ∈ (ht.bucket? h).getD [] ∧ (calling = true → l.hash = h)

theorem Held.nodup (hHeld : Held env s) : s.ht.elements.Nodup := hHeld.ids.of_map _

theorem Held.bucket? (hHeld : Held env s) (hTable : s.ht.table ≠ []) (h : BitVec 32) :
    (s.ht.bucket? h).getD [] = s.ht.elements.filter fun l => s.ht.index l.hash = s.ht.index h := by
  rw [hHeld.filed.bucket? hTable, Option.getD_some]

theorem Held.bucket_nodup (hHeld : Held env s) (hTable : s.ht.table ≠ []) :
    ((s.ht.bucket? h).getD []).Nodup := by
  rw [hHeld.bucket? hTable]
  exact hHeld.nodup.filter _

theorem Held.mem_bucket (hHeld : Held env s) (hTable : s.ht.table ≠ []) (hMem : l ∈ s.ht.elements)
    (hHash : l.hash = h) : l ∈ (s.ht.bucket? h).getD [] := by
  rw [hHeld.bucket? hTable]
  simp [hMem, hHash]

theorem Stands.elements (hStands : Stands s.ht h (some l) calling) (hHeld : Held env s) :
    l ∈ s.ht.elements := by
  have := (hStands.mem l rfl).1
  rw [hHeld.bucket? hStands.table] at this
  exact List.mem_of_mem_filter this

/-- The bucket that a listener is found in is the bucket it is in. -/
theorem Stands.bucket (hStands : Stands s.ht h (some l) calling) (hHeld : Held env s) :
    s.ht.bucket? l.hash = s.ht.bucket? h := by
  have := (hStands.mem l rfl).1
  rw [hHeld.bucket? hStands.table] at this
  simp only [List.mem_filter, decide_eq_true_eq] at this
  rw [Buckets.bucket?, Buckets.bucket?, this.2]

theorem Stands.next (hStands : Stands s.ht h (some l) calling) (hHeld : Held env s) :
    Stands s.ht h (nextListener s l) false ∧
      remaining s.ht h (nextListener s l) false = after l ((s.ht.bucket? h).getD []) := by
  rw [nextListener, hStands.bucket hHeld]
  cases hAfter : after l ((s.ht.bucket? h).getD []) with
  | nil => exact ⟨⟨hStands.table, by simp⟩, rfl⟩
  | cons m rest =>
      refine ⟨⟨hStands.table, fun l' hl' => ?_⟩, ?_⟩
      · obtain rfl := Option.some.inj hl'
        refine ⟨mem_of_mem_after (a := l) ?_, by simp⟩
        rw [hAfter]
        exact List.mem_cons_self
      · simp [remaining, after_next (hHeld.bucket_nodup hStands.table) (hStands.mem l rfl).1
          hAfter]

theorem Stands.head {list : List Listener}
    (hBucket : s.ht.bucket? h = some list) :
    Stands s.ht h list.head? false ∧ remaining s.ht h list.head? false = list := by
  have hTable : s.ht.table ≠ [] := by
    intro hNil
    simp [Buckets.bucket?, hNil] at hBucket
  cases list with
  | nil => exact ⟨⟨hTable, by simp⟩, rfl⟩
  | cons m rest =>
      refine ⟨⟨hTable, fun l' hl' => ?_⟩, ?_⟩
      · obtain rfl := Option.some.inj hl'
        simp [hBucket]
      · simp only [remaining, List.head?_cons, hBucket, Option.getD_some, Bool.false_eq_true,
          if_false, List.singleton_append, List.cons.injEq, true_and]
        have hNil : m ∉ ([] : List Listener) := List.not_mem_nil
        exact after_append hNil

/-- A listener that is opened in a callback is behind the listeners of its hash, so
the loop has the same old listeners before it. -/
theorem Stands.push (hStands : Stands s.ht h cur true) (hHeld : Held env s)
    (hHeld' : Held env t) (hHt : t.ht = s.ht.push Listener.hash m) :
    Stands t.ht h cur true ∧ ∀ l' ∈ s.ht.elements, l' ≠ m → l'.hash = h →
      (l' ∈ remaining t.ht h cur true ↔ l' ∈ remaining s.ht h cur true) := by
  obtain ⟨_, hTable, hElements⟩ := hHeld.filed.push m
  rw [← hHt] at hTable hElements
  obtain _ | l := cur
  · exact ⟨⟨hTable, by simp⟩, fun _ _ _ _ => Iff.rfl⟩
  have hHash := (hStands.mem l rfl).2 rfl
  have hMem : l ∈ s.ht.elements := hStands.elements hHeld
  have hMem' : l ∈ t.ht.elements := hElements.mem_iff.mpr (List.mem_cons_of_mem _ hMem)
  have hChain : ∀ {u : Session}, Held env u → u.ht.table ≠ [] → l ∈ u.ht.elements → ∀ l' : Listener,
      l'.hash = h → (l' ∈ remaining u.ht h (some l) true ↔
        l' ∈ after l (Buckets.chain Listener.hash u.ht h)) := by
    intro u hHeldU hTableU hMemU l' hl'
    have hBucket : u.ht.bucket? h = some ((u.ht.bucket? h).getD []) := by
      rw [hHeldU.filed.bucket? hTableU]
      rfl
    rw [← hHeldU.filed.chain_bucket? hBucket,
      after_filter (hHeldU.mem_bucket hTableU hMemU hHash) (by simpa using hHash)]
    simp [remaining, hl']
  refine ⟨⟨hTable, fun l' hl' => ?_⟩, fun l' hMemOld hNew hSame => ?_⟩
  · obtain rfl := Option.some.inj hl'
    exact ⟨hHeld'.mem_bucket hTable hMem' hHash, fun _ => hHash⟩
  · have hIn : l ∈ Buckets.chain Listener.hash s.ht h := by
      simp [Buckets.chain, hMem, hHash]
    rw [hChain hHeld' hTable hMem' l' hSame, hChain hHeld hStands.table hMem l' hSame, hHt,
      hHeld.filed.chain_push, after_append_right hIn, List.mem_append]
    split <;> simp [hNew]

/-- The prefix length of the listener has a slot at a position or behind it. -/
def Ahead (s : Session) (pos : Nat) (l : Listener) : Prop :=
  ∃ (p : Nat) (val : BitVec 32), pos ≤ p ∧ s.slots[p]? = some (some (l.wild.setWidth 32, val))

/-- The loops have yet to come to the listener. -/
def Due (env : Env) (s : Session) (l : Listener) : Prop :=
  match s.pc with
  | .exact cur calling => l.wild ≠ 0 ∨ l ∈ remaining s.ht s.delivery.pub.subjHash cur calling
  | .slot pos => l.wild ≠ 0 ∧ Ahead s pos l
  | .wild pos pref cur calling =>
      l.wild ≠ 0 ∧ (Ahead s (pos + 1) l ∨ l.wild.setWidth 32 = pref ∧
        l ∈ remaining s.ht (prefixHash env s.delivery.pub.subject pref) cur calling)
  | _ => False

/-- The loops stand where they can go on. -/
def Located (env : Env) (s : Session) : Prop :=
  match s.pc with
  | .exact cur calling => Stands s.ht s.delivery.pub.subjHash cur calling
  | .slot _ => True
  | .wild pos pref cur calling =>
      (∃ val : BitVec 32, s.slots[pos]? = some (some (pref, val))) ∧
        Stands s.ht (prefixHash env s.delivery.pub.subject pref) cur calling
  | _ => False

/-- The message in dispatch has been given to the listeners that the loops have passed. -/
structure Dispatching (env : Env) (s : Session) : Prop where
  held : Held env s
  located : Located env s
  hash : s.delivery.pub.subjHash = env.crcC s.delivery.pub.subject 0
  present : ∀ l ∈ s.delivery.present, l ∈ s.ht.elements
  waiting : ∀ l ∈ s.delivery.present,
    Rv7.isListenedTo l.subject s.delivery.pub.subject = false ∨ Due env s l →
      s.delivery.calls.count l.id = 0
  called : ∀ l ∈ s.delivery.present,
    Rv7.isListenedTo l.subject s.delivery.pub.subject = true → ¬ Due env s l →
      s.delivery.calls.count l.id = 1

theorem Held.id_inj (hHeld : Held env s) (hl : l ∈ s.ht.elements) (hm : m ∈ s.ht.elements)
    (h : l.id = m.id) : l = m :=
  List.inj_on_of_nodup_map hHeld.ids hl hm h

/-- The tables are the same wherever the loops stand. -/
theorem Held.move (hHeld : Held env s) (delivery : Delivery) (pc : Pc) :
    Held env { s with
      delivery := delivery
      pc := pc } :=
  ⟨hHeld.filed, hHeld.listeners, hHeld.made, hHeld.fresh, hHeld.ids, hHeld.callable,
    hHeld.nulled, hHeld.keyed, hHeld.wild, hHeld.counts, hHeld.table⟩

/-- The account of a message stays as it is over a step that calls no listener and for
which the same listeners are due. -/
theorem Dispatching.carry (hDispatch : Dispatching env s) (hHeld : Held env t)
    (hLocated : Located env t) (hDelivery : t.delivery = s.delivery)
    (hElements : ∀ l ∈ s.ht.elements, l ∈ t.ht.elements)
    (hDue : ∀ l ∈ s.delivery.present, Rv7.isListenedTo l.subject s.delivery.pub.subject = true →
      (Due env t l ↔ Due env s l)) :
    Dispatching env t where
  held := hHeld
  located := hLocated
  hash := hDelivery ▸ hDispatch.hash
  present := hDelivery ▸ fun l hl => hElements l (hDispatch.present l hl)
  waiting := by
    rw [hDelivery]
    intro l hl hWaiting
    refine hDispatch.waiting l hl ?_
    cases hListens : Rv7.isListenedTo l.subject s.delivery.pub.subject with
    | false => exact .inl rfl
    | true =>
        rcases hWaiting with hNot | hWaiting
        · exact absurd (hListens.symm.trans hNot) (by decide)
        · exact .inr ((hDue l hl hListens).mp hWaiting)
  called := by
    rw [hDelivery]
    intro l hl hListens hNot
    exact hDispatch.called l hl hListens fun h => hNot ((hDue l hl hListens).mpr h)

/-- A turn of a loop without a call. -/
theorem Dispatching.move (hDispatch : Dispatching env s) {pc : Pc}
    (hLocated : Located env { s with pc := pc })
    (hDue : ∀ l ∈ s.delivery.present, Rv7.isListenedTo l.subject s.delivery.pub.subject = true →
      (Due env { s with pc := pc } l ↔ Due env s l)) :
    Dispatching env { s with pc := pc } :=
  hDispatch.carry (hDispatch.held.move _ _) hLocated rfl (fun _ hl => hl) hDue

/-- A turn of a loop with a call. -/
theorem Dispatching.call (hDispatch : Dispatching env s) {pc : Pc} (hMem : m ∈ s.ht.elements)
    (hListens : Rv7.isListenedTo m.subject s.delivery.pub.subject = true)
    (hLocated : Located env (s.call m pc)) (hBefore : Due env s m)
    (hAfter : ¬ Due env (s.call m pc) m)
    (hDue : ∀ l, l ≠ m → (Due env (s.call m pc) l ↔ Due env s l)) :
    Dispatching env (s.call m pc) where
  held := hDispatch.held.move _ _
  located := hLocated
  hash := hDispatch.hash
  present := hDispatch.present
  waiting := by
    intro l hl hWaiting
    have hNot : l ≠ m := by
      rintro rfl
      rcases hWaiting with hWaiting | hWaiting
      · exact absurd (hListens.symm.trans hWaiting) (by decide)
      · exact hAfter hWaiting
    have hId : m.id ≠ l.id := fun hSame =>
      hNot (hDispatch.held.id_inj (hDispatch.present l hl) hMem hSame.symm)
    have hSofar := hDispatch.waiting l hl (hWaiting.imp_right (hDue l hNot).mp)
    simp [Session.call, List.count_append, hSofar, hId]
  called := by
    intro l hl hListensTo hDone
    by_cases hSame : l = m
    · subst hSame
      have hSofar := hDispatch.waiting l hl (.inr hBefore)
      simp [Session.call, List.count_append, hSofar]
    · have hId : m.id ≠ l.id := fun hIds =>
        hSame (hDispatch.held.id_inj (hDispatch.present l hl) hMem hIds.symm)
      have hSofar := hDispatch.called l hl hListensTo fun h => hDone ((hDue l hSame).mpr h)
      simp [Session.call, List.count_append, hSofar, hId]

theorem Held.wild_eq (hHeld : Held env s) (hMem : l ∈ s.ht.elements) :
    l.wild = Rv7.wildLength l.subject :=
  congrArg Listener.wild (hHeld.made l hMem).1

/-- The comparison of the first loop. -/
theorem Held.isExact_iff (hHeld : Held env s) (hMem : l ∈ s.ht.elements) {pub : Publish}
    (hHash : pub.subjHash = env.crcC pub.subject 0) :
    isExact s pub l = true ↔
      l.wild = 0 ∧ Rv7.isListenedTo l.subject pub.subject = true := by
  obtain ⟨hMade, hLength⟩ := hHeld.made l hMem
  have hSum := congrArg Listener.hash hMade
  have hLen := congrArg Listener.len hMade
  simp only [Listener.make] at hSum hLen
  rw [Rv7.isListenedTo_eq hLength, ← hHeld.wild_eq hMem]
  by_cases hZero : l.wild = 0
  · have hNone : rvWildcard l.subject = none :=
      (Rv7.wildLength_eq_zero hLength).mp ((hHeld.wild_eq hMem).symm.trans hZero)
    rw [hNone] at hSum
    have hLenNat : l.len.toNat = l.subject.length := by
      rw [hLen, BitVec.toNat_ofNat, Nat.mod_eq_of_lt hLength]
    rw [if_pos hZero]
    by_cases hSame : l.subject = pub.subject
    · simp [isExact, hZero, hLenNat, hSum, hHash, hSame, hHeld.callable l hMem]
    · simp [isExact, hZero, hSame]
  · refine iff_of_false ?_ fun hBoth => hZero hBoth.1
    rw [isExact, decide_eq_false hZero]
    simp

/-- A wildcard listener that a message is for is in the bucket of its prefix. -/
theorem Held.wild_prefix (hHeld : Held env s) (hMem : l ∈ s.ht.elements) {pub : Publish}
    (hWild : l.wild ≠ 0) (hListens : Rv7.isListenedTo l.subject pub.subject = true) :
    (l.wild.setWidth 32 - 1).toNat < pub.subject.length ∧
      l.hash = prefixHash env pub.subject (l.wild.setWidth 32) := by
  obtain ⟨hMade, hLength⟩ := hHeld.made l hMem
  have hSum := congrArg Listener.hash hMade
  simp only [Listener.make] at hSum
  have hWildLength := hHeld.wild_eq hMem
  rw [hWildLength] at hWild
  rw [Rv7.isListenedTo_eq hLength, if_neg hWild] at hListens
  obtain ⟨hSome, hLt, hTake⟩ := Rv7.wildMatch_prefix hLength hWild hListens
  rw [hWildLength]
  refine ⟨hLt, ?_⟩
  rw [hSum, if_pos hSome, prefixHash, prefixHash, hTake]

/-- The comparison of the second loop. -/
theorem Held.isMatch_iff (hHeld : Held env s) (hMem : l ∈ s.ht.elements) {pub : Publish}
    (hPref : pref ≠ 0) :
    isMatch s pub (prefixHash env pub.subject pref) pref l = true ↔
      l.wild ≠ 0 ∧ l.wild.setWidth 32 = pref ∧
        Rv7.isListenedTo l.subject pub.subject = true := by
  obtain ⟨_, hLength⟩ := hHeld.made l hMem
  constructor
  · intro hMatch
    simp only [isMatch, Bool.and_eq_true, decide_eq_true_eq] at hMatch
    obtain ⟨⟨_, hKey⟩, hText⟩ := hMatch
    have hWild : l.wild ≠ 0 := by
      intro hZero
      rw [hZero] at hKey
      exact hPref hKey.symm
    refine ⟨hWild, hKey, ?_⟩
    rw [Rv7.isListenedTo_eq hLength, ← hHeld.wild_eq hMem, if_neg hWild]
    exact hText
  · rintro ⟨hWild, hKey, hListens⟩
    have hHash := (hHeld.wild_prefix hMem hWild hListens).2
    rw [Rv7.isListenedTo_eq hLength, ← hHeld.wild_eq hMem, if_neg hWild] at hListens
    rw [hKey] at hHash
    simp [isMatch, hHash, hKey, hListens, hHeld.callable l hMem]

theorem Held.slot_ne_zero (hHeld : Held env s) {pos : Nat} {val : BitVec 32}
    (hAt : s.slots[pos]? = some (some (pref, val))) : pref ≠ 0 := by
  rintro rfl
  have hIndexed := (hHeld.wild 0 val).mp ⟨pos, hAt⟩
  have hNone : wildCount s.opened 0 = 0 := by
    refine List.countP_eq_zero.mpr fun l _ hl => ?_
    simp only [Bool.and_eq_true, decide_eq_true_eq] at hl
    refine hl.1 (BitVec.eq_of_toNat_eq ?_)
    have := congrArg BitVec.toNat hl.2
    rw [BitVec.toNat_setWidth] at this
    have hLt := l.wild.isLt
    have hZero32 : (0 : BitVec 32).toNat = 0 := rfl
    have hZero16 : (0 : BitVec 16).toNat = 0 := rfl
    omega
  rw [hNone] at hIndexed
  cases hIndexed

/-- Every wildcard listener has a slot for its prefix length. -/
theorem Held.ahead (hHeld : Held env s) (hMem : l ∈ s.ht.elements) (hWild : l.wild ≠ 0) :
    Ahead s 0 l := by
  have hPos := wildCount_pos (hHeld.listeners.mem_iff.mp hMem) hWild
  have hHolds := (hHeld.wild (l.wild.setWidth 32) _).mpr
    (if_neg (by omega : wildCount s.opened (l.wild.setWidth 32) ≠ 0))
  obtain ⟨p, hp⟩ := hHolds
  exact ⟨p, _, Nat.zero_le _, hp⟩

/-- The state of a bucket loop that makes or skips a call and goes on. -/
def bucketStep (s : Session) (l : Listener) (calling isCalled : Bool)
    (pc : Option Listener → Bool → Pc) : Session :=
  if calling then { s with pc := pc (nextListener s l) false }
  else if isCalled then s.call l (pc (some l) true)
  else { s with pc := pc (nextListener s l) false }

/-- A turn of a bucket loop, for the listeners that the loop is about. -/
theorem Dispatching.bucketStep (hDispatch : Dispatching env s) {isCalled : Bool}
    {pc : Option Listener → Bool → Pc} (mine others : Listener → Prop)
    (hStands : Stands s.ht h (some l) calling) (hPc : s.pc = pc (some l) calling)
    (hLocated : ∀ delivery cur calling, delivery.pub = s.delivery.pub → Stands s.ht h cur calling →
      Located env { s with delivery := delivery, pc := pc cur calling })
    (hDue : ∀ delivery cur calling l', delivery.pub = s.delivery.pub →
      (Due env { s with delivery := delivery, pc := pc cur calling } l' ↔
        others l' ∨ mine l' ∧ l' ∈ remaining s.ht h cur calling))
    (hTest : isCalled = true ↔
      mine l ∧ Rv7.isListenedTo l.subject s.delivery.pub.subject = true)
    (hMine : mine l → ¬ others l) (hHash : isCalled = true → l.hash = h) :
    Dispatching env (bucketStep s l calling isCalled pc) := by
  have hMem := hStands.elements hDispatch.held
  obtain ⟨hNext, hRest⟩ := hStands.next hDispatch.held
  have hNot : l ∉ after l ((s.ht.bucket? h).getD []) :=
    not_mem_after (hDispatch.held.bucket_nodup hStands.table)
  have hDueNow : ∀ l', Due env s l' ↔ others l' ∨ mine l' ∧ l' ∈ remaining s.ht h (some l) calling := by
    intro l'
    have := hDue s.delivery (some l) calling l' rfl
    rwa [← hPc] at this
  unfold Rv5.bucketStep
  cases calling with
  | true =>
      refine hDispatch.move (hLocated s.delivery _ _ rfl hNext) fun l' _ _ => ?_
      rw [hDue s.delivery _ _ _ rfl, hDueNow, hRest]
      simp [remaining]
  | false =>
      rw [if_neg Bool.false_ne_true]
      split
      case isTrue hCall =>
          obtain ⟨hIn, hListens⟩ := hTest.mp hCall
          have hCalling : Stands s.ht h (some l) true :=
            ⟨hStands.table, fun l' hl' => ⟨(hStands.mem l' hl').1, fun _ => by
              obtain rfl := Option.some.inj hl'
              exact hHash hCall⟩⟩
          refine hDispatch.call hMem hListens (hLocated _ _ _ rfl hCalling) ?_ ?_ fun l' hl' => ?_
          · rw [hDueNow]
            exact .inr ⟨hIn, by simp [remaining]⟩
          · refine fun hAfter => ?_
            rcases (hDue _ _ _ _ rfl).mp hAfter with hOther | hAfter
            · exact hMine hIn hOther
            · exact hNot (by simpa [remaining] using hAfter.2)
          · refine (hDue _ _ _ _ rfl).trans ?_
            rw [hDueNow]
            simp [remaining, hl']
      case isFalse hSkip =>
          refine hDispatch.move (hLocated s.delivery _ _ rfl hNext) fun l' _ hListens => ?_
          rw [hDue s.delivery _ _ _ rfl, hDueNow, hRest]
          have hOther : mine l' → l' ≠ l := by
            rintro hIn rfl
            exact hSkip (hTest.mpr ⟨hIn, hListens⟩)
          refine or_congr_right (and_congr_right fun hIn => ?_)
          simp [remaining, hOther hIn]

theorem codeStep_exact (env : Env) (hPc : s.pc = .exact (some l) calling) :
    codeStep env s = bucketStep s l calling (isExact s s.delivery.pub l) .exact := by
  rw [codeStep, hPc]
  cases calling <;> rfl

theorem codeStep_wild (env : Env) {pos : Nat} (hPc : s.pc = .wild pos pref (some l) calling) :
    codeStep env s = bucketStep s l calling
      (isMatch s s.delivery.pub (prefixHash env s.delivery.pub.subject pref) pref l)
      (.wild pos pref) := by
  rw [codeStep, hPc]
  cases calling <;> rfl

theorem Dispatching.exactStep (hDispatch : Dispatching env s)
    (hPc : s.pc = .exact (some l) calling) : Dispatching env (codeStep env s) := by
  have hStands : Stands s.ht s.delivery.pub.subjHash (some l) calling := by
    simpa [Located, hPc] using hDispatch.located
  have hMem := hStands.elements hDispatch.held
  rw [codeStep_exact env hPc]
  refine hDispatch.bucketStep (fun l => l.wild = 0) (fun l => l.wild ≠ 0) hStands hPc
    ?_ ?_ ?_ ?_ ?_
  · rintro delivery cur calling hPub hStands
    simpa [Located, hPub] using hStands
  · rintro delivery cur calling l' hPub
    simp only [Due, hPub]
    tauto
  · exact hDispatch.held.isExact_iff hMem hDispatch.hash
  · exact fun hZero hNot => hNot hZero
  · intro hCall
    simp only [isExact, Bool.and_eq_true, decide_eq_true_eq] at hCall
    exact hCall.1.1.1.1

theorem Dispatching.wildStep (hDispatch : Dispatching env s) {pos : Nat}
    (hPc : s.pc = .wild pos pref (some l) calling) : Dispatching env (codeStep env s) := by
  have hLocated := hDispatch.located
  simp only [Located, hPc] at hLocated
  obtain ⟨⟨val, hAt⟩, hStands⟩ := hLocated
  have hMem := hStands.elements hDispatch.held
  rw [codeStep_wild env hPc]
  refine hDispatch.bucketStep (fun l => l.wild ≠ 0 ∧ l.wild.setWidth 32 = pref)
    (fun l => l.wild ≠ 0 ∧ Ahead s (pos + 1) l) hStands hPc ?_ ?_ ?_ ?_ ?_
  · rintro delivery cur calling hPub hStands
    simp only [Located, hPub]
    exact ⟨⟨val, hAt⟩, hStands⟩
  · rintro delivery cur calling l' hPub
    simp only [Due, hPub]
    show _ ∧ (Ahead s (pos + 1) l' ∨ _) ↔ _
    tauto
  · rw [hDispatch.held.isMatch_iff hMem (hDispatch.held.slot_ne_zero hAt), and_assoc]
  · rintro ⟨_, rfl⟩ ⟨_, p, val', hPos, hp⟩
    have := hDispatch.held.keyed p pos _ _ _ hp hAt
    omega
  · intro hCall
    simp only [isMatch, Bool.and_eq_true, decide_eq_true_eq] at hCall
    exact hCall.1.1.1

/-- The loop over the prefix lengths at its next entry: it has passed no listener that
the message is for, or it is through. -/
theorem Dispatching.slotStep (hDispatch : Dispatching env s) {pos : Nat}
    (hPc : s.pc = .slot pos) :
    (slotStep env s pos = .idle ∧ ∀ l, ¬ Due env s l) ∨
      Dispatching env { s with pc := slotStep env s pos } := by
  have hDue : ∀ l, Due env s l ↔ l.wild ≠ 0 ∧ Ahead s pos l := by
    intro l
    simp [Due, hPc]
  cases hNext : s.slots.next pos with
  | none =>
      have hIdle : Rv5.slotStep env s pos = .idle := by
        rw [Rv5.slotStep, show s.wildHt.getD [] = s.slots from rfl, hNext]
      refine .inl ⟨hIdle, fun l hl => ?_⟩
      obtain ⟨_, p, val, hPos, hp⟩ := (hDue l).mp hl
      have := Slots.next_none hNext hp
      omega
  | some entry =>
      obtain ⟨p, pref, val⟩ := entry
      obtain ⟨hPos, hAt, hFirst⟩ := Slots.next_some hNext
      have hSlots : s.wildHt.getD [] = s.slots := rfl
      -- The prefix length of a listener that is ahead is this one or further on.
      have hAhead : ∀ l, Ahead s pos l ↔ Ahead s (p + 1) l ∨ l.wild.setWidth 32 = pref := by
        intro l
        constructor
        · rintro ⟨q, val', hq, hl⟩
          have := hFirst q _ hl hq
          rcases Nat.eq_or_lt_of_le this with rfl | hLt
          · rw [hAt] at hl
            simp only [Option.some.injEq, Prod.mk.injEq] at hl
            exact .inr hl.1.symm
          · exact .inl ⟨q, val', hLt, hl⟩
        · rintro (⟨q, val', hq, hl⟩ | rfl)
          · exact ⟨q, val', by omega, hl⟩
          · exact ⟨p, val, hPos, hAt⟩
      right
      by_cases hShort : s.delivery.pub.subject.length ≤ (pref - 1).toNat
      case pos =>
          simp only [Rv5.slotStep, hSlots, hNext, if_pos hShort]
          refine hDispatch.move trivial fun l hl hListens => ?_
          rw [hDue, hAhead]
          refine and_congr_right fun hWild => (or_iff_left ?_).symm
          rintro rfl
          have := (hDispatch.held.wild_prefix (hDispatch.present l hl) hWild hListens).1
          omega
      case neg =>
          have hTable : s.ht.table ≠ [] := by
            refine hDispatch.held.table fun hNone => ?_
            simp [Session.slots, hNone] at hAt
          have hBucket := hDispatch.held.filed.bucket? hTable
            (prefixHash env s.delivery.pub.subject pref)
          obtain ⟨hStands, hRest⟩ := Stands.head hBucket
          simp only [Rv5.slotStep, hSlots, hNext, if_neg hShort, hBucket]
          refine hDispatch.move ⟨⟨val, hAt⟩, hStands⟩ fun l hl hListens => ?_
          rw [hDue, hAhead]
          refine and_congr_right fun hWild => or_congr_right (and_iff_left_of_imp ?_)
          rintro rfl
          have hMem := hDispatch.present l hl
          have hHash := (hDispatch.held.wild_prefix hMem hWild hListens).2
          show l ∈ remaining s.ht (prefixHash env s.delivery.pub.subject _) _ _
          rw [hRest]
          simp [hMem, hHash]

/-- The session's own steps: they keep the account of the message, or they end it. -/
theorem Dispatching.codeStep (hDispatch : Dispatching env s) :
    Dispatching env (codeStep env s) ∨
      (∃ pos, s.pc = .slot pos) ∧ (codeStep env s).pc = .idle ∧ ∀ l, ¬ Due env s l := by
  have hLocated := hDispatch.located
  cases hPc : s.pc with
  | idle => simp [Located, hPc] at hLocated
  | timer => simp [Located, hPc] at hLocated
  | fault => simp [Located, hPc] at hLocated
  | exact cur calling =>
      cases cur with
      | some l => exact .inl (hDispatch.exactStep hPc)
      | none =>
          rw [Rv5.codeStep, hPc]
          refine .inl (hDispatch.move trivial fun l hl _ => ?_)
          have hAhead := hDispatch.held.ahead (hDispatch.present l hl)
          simp only [Due, hPc, remaining, List.not_mem_nil, or_false]
          exact and_iff_left_of_imp hAhead
  | slot pos =>
      rw [Rv5.codeStep, hPc]
      rcases hDispatch.slotStep hPc with hEnd | hOn
      · exact .inr ⟨⟨pos, rfl⟩, hEnd⟩
      · exact .inl hOn
  | wild pos pref cur calling =>
      cases cur with
      | some l => exact .inl (hDispatch.wildStep hPc)
      | none =>
          rw [Rv5.codeStep, hPc]
          refine .inl (hDispatch.move trivial fun l _ _ => ?_)
          simp only [Due, hPc, remaining, List.not_mem_nil, and_false, or_false]
          rfl

end Sassrv.Rv5
