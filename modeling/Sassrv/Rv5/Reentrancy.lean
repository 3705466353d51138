import Mathlib
import Sassrv.Rv5.Walks

/-! A message reaches every listener that was open when it arrived once, whatever the
callbacks open on the way. The loop over the prefix lengths goes on as before as long
as its slots stay where they are. -/
namespace Sassrv.Rv5
open SubMgr Client Transition

variable {env : Env} {s t : Session} {l : Listener} {h pref : BitVec 32}
  {cur : Option Listener} {calling : Bool}

/-- A new listener in the loop over the prefix lengths fills an empty slot at most. -/
def KeepsSlots (env : Env) (s : Session) (pref : BitVec 32) : Prop :=
  match s.pc with
  | .wild _ _ _ _ => s.slots.find? pref = none → env.tab.resizes s.slots pref = false
  | _ => True

theorem addWildcard_slot (env : Env) {k : BitVec 32} (hSome : ∃ val, s.slots.Holds (k, val))
    (hKeeps : s.slots.find? pref = none → env.tab.resizes s.slots pref = false) (p : Nat) :
    (∃ val, (addWildcard env s pref).slots[p]? = some (some (k, val))) ↔
      ∃ val, s.slots[p]? = some (some (k, val)) := by
  obtain ⟨val, q, hq⟩ := hSome
  have hTable : s.wildHt.getD env.tab.fresh = s.slots := by
    cases hHt : s.wildHt with
    | none => simp [Session.slots, hHt] at hq
    | some wild => rw [Session.slots, hHt]; rfl
  unfold addWildcard
  rw [hTable]
  dsimp only
  split
  case h_1 pos val' hFind =>
      have hAt := Slots.find?_some hFind
      have hLt := (List.getElem?_eq_some_iff.mp hAt).1
      rw [Session.slots, Option.getD_some, List.getElem?_set]
      by_cases hp : pos = p
      · subst hp
        simp only [if_true, hLt, hAt, Option.some.injEq, Prod.mk.injEq]
        constructor
        · rintro ⟨_, hKey, _⟩
          exact ⟨_, hKey, rfl⟩
        · rintro ⟨_, hKey, _⟩
          exact ⟨_, hKey, rfl⟩
      · rw [if_neg hp]
  case h_2 hFind =>
      have hAbsent := Slots.find?_none hFind
      obtain ⟨free, hFree, hUpsert⟩ := env.tab.upsert_in_place (v := 1) (hKeeps hFind) hAbsent
      have hLt := (List.getElem?_eq_some_iff.mp hFree).1
      have hKey : pref ≠ k := by
        rintro rfl
        exact hAbsent val ⟨q, hq⟩
      rw [Session.slots, Option.getD_some, hUpsert, List.getElem?_set]
      by_cases hp : free = p
      · subst hp
        rw [if_pos rfl, if_pos hLt, hFree]
        simp [hKey]
      · rw [if_neg hp]

/-- Where the prefix lengths of the old listeners are, before and after a new one. -/
theorem openListener_slot (hKeeps : l.wild ≠ 0 → KeepsSlots env s (l.wild.setWidth 32)) {pos : Nat}
    {calling : Bool} (hPc : s.pc = .wild pos pref cur calling) {k : BitVec 32}
    (hSome : ∃ val, s.slots.Holds (k, val)) (p : Nat) :
    (∃ val, (Rv5.openListener env s (l.wild ≠ 0) true l).slots[p]? = some (some (k, val))) ↔
      ∃ val, s.slots[p]? = some (some (k, val)) := by
  rw [(openListener_fields env s (decide (l.wild ≠ 0)) l).2.2.2.2.2.2]
  simp only [KeepsSlots, hPc] at hKeeps
  split
  case isTrue hWild => exact addWildcard_slot env hSome (hKeeps (by simpa using hWild)) p
  case isFalse _ => rfl

/-- A listener that a callback opens changes nothing for those that were there. -/
theorem Dispatching.openListener (hDispatch : Dispatching env s)
    (hHeld : Held env (Rv5.openListener env s (l.wild ≠ 0) true l)) (hId : l.id = s.nextId)
    (hApplication : s.isApplication = true)
    (hKeeps : l.wild ≠ 0 → KeepsSlots env s (l.wild.setWidth 32)) :
    Dispatching env (Rv5.openListener env s (l.wild ≠ 0) true l) := by
  obtain ⟨hHt, _, _, _, hPc, hDelivery, _⟩ := openListener_fields env s (decide (l.wild ≠ 0)) l
  obtain ⟨_, _, hElements⟩ := hDispatch.held.filed.push l
  have hOld : ∀ l' ∈ s.ht.elements, l' ≠ l := by
    rintro l' hl' rfl
    have := hDispatch.held.fresh l' hl'
    omega
  have hBoth : Located env (Rv5.openListener env s (l.wild ≠ 0) true l) ∧
      ∀ l' ∈ s.ht.elements, Rv7.isListenedTo l'.subject s.delivery.pub.subject = true →
        (Due env (Rv5.openListener env s (l.wild ≠ 0) true l) l' ↔ Due env s l') := by
    have hLocated := hDispatch.located
    unfold Located Due
    rw [hPc, hDelivery]
    cases hAt : s.pc with
    | idle => simp [Located, hAt] at hLocated
    | timer => simp [Located, hAt] at hLocated
    | fault => simp [Located, hAt] at hLocated
    | slot pos => simp [Session.isApplication, hAt] at hApplication
    | exact cur calling =>
        simp only [Session.isApplication, hAt] at hApplication
        simp only [Located, hAt, hApplication] at hLocated
        obtain ⟨hStands, hSame⟩ := hLocated.push hDispatch.held hHeld hHt
        rw [hApplication]
        refine ⟨hStands, fun l' hl' hListens => ?_⟩
        by_cases hZero : l'.wild = 0
        · have hExact := (hDispatch.held.isExact_iff hl' hDispatch.hash).mpr ⟨hZero, hListens⟩
          simp only [isExact, Bool.and_eq_true, decide_eq_true_eq] at hExact
          exact or_congr_right (hSame l' hl' (hOld l' hl') hExact.1.1.1.1)
        · exact iff_of_true (.inl hZero) (.inl hZero)
    | wild pos pref cur calling =>
        simp only [Session.isApplication, hAt] at hApplication
        simp only [Located, hAt, hApplication] at hLocated
        obtain ⟨⟨val, hSlot⟩, hStands⟩ := hLocated
        obtain ⟨hStands', hSame⟩ := hStands.push hDispatch.held hHeld hHt
        have hSlots := fun k hSome => openListener_slot (k := k) hKeeps hAt hSome
        rw [hApplication]
        refine ⟨⟨(hSlots pref ⟨val, pos, hSlot⟩ pos).mpr ⟨val, hSlot⟩, hStands'⟩,
          fun l' hl' hListens => and_congr_right fun hWild => or_congr ?_ ?_⟩
        · obtain ⟨q, val', _, hq⟩ := hDispatch.held.ahead hl' hWild
          have hHere := hSlots _ ⟨val', q, hq⟩
          constructor
          · rintro ⟨p, val'', hp, hGet⟩
            obtain ⟨v, hv⟩ := (hHere p).mp ⟨val'', hGet⟩
            exact ⟨p, v, hp, hv⟩
          · rintro ⟨p, val'', hp, hGet⟩
            obtain ⟨v, hv⟩ := (hHere p).mpr ⟨val'', hGet⟩
            exact ⟨p, v, hp, hv⟩
        · refine and_congr_right fun hPref => hSame l' hl' (hOld l' hl') ?_
          rw [← hPref]
          exact (hDispatch.held.wild_prefix hl' hWild hListens).2
  refine hDispatch.carry hHeld hBoth.1 hDelivery (fun l' hl' => ?_)
    fun l' hl' hListens => hBoth.2 l' (hDispatch.present l' hl') hListens
  rw [hHt]
  exact hElements.mem_iff.mpr (List.mem_cons_of_mem _ hl')

/-- The conditions: a listener has a callback and a subject whose length fits its field;
none is closed while the session is busy; the table is there when a message arrives. -/
def Allowed (env : Env) (s : Session) : Event → Prop
  | .listenSubject subject hasCb =>
      hasCb = true ∧ subject.length < 65536 ∧
        (Rv7.wildLength subject ≠ 0 →
          wildCount s.opened ((Rv7.wildLength subject).setWidth 32) + 1 < 2 ^ 32 ∧
            KeepsSlots env s ((Rv7.wildLength subject).setWidth 32))
  | .listenInbox hasCb => hasCb = true
  | .close _ => s.busy = 0
  | .arrive _ => s.ht.table ≠ []
  | _ => True

/-- The tables are right, and so is the account of a message in dispatch. -/
def Steady (env : Env) (s : Session) : Prop :=
  Held env s ∧ (s.pc = .idle ∨ s.pc = .timer ∨ Dispatching env s)

theorem Held.init : Held env {} where
  filed := .empty
  listeners := .nil
  made := by simp [Buckets.elements]
  fresh := by simp [Buckets.elements]
  ids := by simp [Buckets.elements]
  callable := by simp [Buckets.elements]
  nulled := by simp
  keyed := by
    intro p q k v w hp
    simp [Session.slots] at hp
  wild := by
    intro pref val
    simp [Session.slots, Slots.Holds, wildCount, Rv7.indexed]
  counts := by simp [wildCount]
  table := by simp

theorem Steady.openListener (h : Steady env s) (hApplication : s.isApplication = true)
    (hMade : l = .make env l.id l.subject) (hLength : l.subject.length < 65536)
    (hId : l.id = s.nextId)
    (hWild : l.wild ≠ 0 → wildCount s.opened (l.wild.setWidth 32) + 1 < 2 ^ 32 ∧
      KeepsSlots env s (l.wild.setWidth 32)) :
    Steady env (Rv5.openListener env s (l.wild ≠ 0) true l) := by
  have hHeld := h.1.openListener hMade hLength hId fun hNot => (hWild hNot).1
  have hPc := (openListener_fields env s (decide (l.wild ≠ 0)) l).2.2.2.2.1
  refine ⟨hHeld, ?_⟩
  rw [hPc]
  refine h.2.imp_right (Or.imp_right fun hDispatch => ?_)
  exact hDispatch.openListener hHeld hId hApplication fun hNot => (hWild hNot).2

theorem make_isWild (env : Env) {subject : Text} (hLength : subject.length < 65536) (id : Nat) :
    (rvWildcard subject).isSome = decide ((Listener.make env id subject).wild ≠ 0) := by
  have hZero := Rv7.wildLength_eq_zero hLength
  show _ = decide (Rv7.wildLength subject ≠ 0)
  cases hWild : rvWildcard subject with
  | none => simp [hZero.mpr hWild]
  | some i =>
      have hNot : Rv7.wildLength subject ≠ 0 := fun h => by simp [hZero.mp h] at hWild
      rw [decide_eq_true hNot]
      rfl

theorem rvWildcardFrom_plain {subject : Text} (h : ∀ c ∈ subject, c ≠ 42 ∧ c ≠ 62) (segment : Bool) :
    rvWildcardFrom segment subject = none := by
  induction subject generalizing segment with
  | nil => rfl
  | cons c rest ih =>
      obtain ⟨hStar, hGreater⟩ := h c List.mem_cons_self
      have hHead : isWild segment (c :: rest) = false := by
        simp [isWild, hStar, hGreater]
      rw [rvWildcardFrom, hHead, ih fun c hc => h c (List.mem_cons_of_mem _ hc)]
      rfl

theorem plain_of_all {s : Text} (h : (s.all fun c => c != 42 && c != 62) = true) :
    ∀ c ∈ s, c ≠ 42 ∧ c ≠ 62 := by
  simpa using h

theorem inboxName_plain (env : Env) (n : BitVec 32) :
    (inboxName env n).length < 65536 ∧ ∀ c ∈ inboxName env n, c ≠ 42 ∧ c ≠ 62 := by
  obtain ⟨hLength, hPlain⟩ := env.session_plain
  obtain ⟨hDigits, hDigitsPlain⟩ := env.uint32ToString_plain n
  have hPrefix : Rv7.inboxPrefix.length = 7 ∧ ∀ c ∈ Rv7.inboxPrefix, c ≠ 42 ∧ c ≠ 62 :=
    ⟨rfl, plain_of_all rfl⟩
  have hDot : ∀ session : Text, (if session = [] then [] else [46] : Text).length ≤ 1 ∧
      ∀ c ∈ (if session = [] then [] else [46] : Text), c ≠ 42 ∧ c ≠ 62 := by
    intro session
    split <;> simp
  constructor
  · simp only [inboxName, Rv7.makeInbox, List.length_append]
    have := (hDot env.session).1
    omega
  · intro c hc
    simp only [inboxName, Rv7.makeInbox, List.mem_append] at hc
    rcases hc with ((hc | hc) | hc) | hc
    · exact hPrefix.2 c hc
    · exact hPlain c hc
    · exact (hDot _).2 c hc
    · exact hDigitsPlain c hc

/-- The inbox of a session has no wildcard. -/
theorem makeInbox_eq (env : Env) (id : Nat) (n : BitVec 32) :
    Listener.makeInbox env id (inboxName env n) = .make env id (inboxName env n) := by
  have hNone : rvWildcard (inboxName env n) = none := rvWildcardFrom_plain (inboxName_plain env n).2 _
  simp [Listener.makeInbox, Listener.make, Rv7.wildLength, hNone]

theorem Steady.inboxCount (h : Steady env s) (n : BitVec 32) :
    Steady env { s with inboxCount := n } := by
  obtain ⟨hHeld, hPc⟩ := h
  have hSame : Held env { s with inboxCount := n } :=
    ⟨hHeld.filed, hHeld.listeners, hHeld.made, hHeld.fresh, hHeld.ids, hHeld.callable,
      hHeld.nulled, hHeld.keyed, hHeld.wild, hHeld.counts, hHeld.table⟩
  refine ⟨hSame, hPc.imp_right (Or.imp_right fun hDispatch => ?_)⟩
  exact hDispatch.carry hSame hDispatch.located rfl (fun _ hl => hl) fun _ _ _ => Iff.rfl

/-- A message that arrives is due at every listener it is for. -/
theorem Steady.arrive (h : Steady env s) {pub : Publish} (hTable : s.ht.table ≠ [])
    (hHash : pub.subjHash = env.crcC pub.subject 0) : Steady env (arrive s pub) := by
  have hBucket := h.1.filed.bucket? hTable pub.subjHash
  obtain ⟨hStands, hRest⟩ := Stands.head hBucket
  have hArrived : Rv5.arrive s pub = { s with
      delivery := ⟨pub, s.opened, []⟩
      pc := .exact (s.ht.elements.filter fun l =>
        s.ht.index l.hash = s.ht.index pub.subjHash).head? false } := by
    rw [Rv5.arrive, hBucket]
  rw [hArrived]
  refine ⟨h.1.move _ _, .inr (.inr ⟨h.1.move _ _, hStands, hHash,
    fun l hl => h.1.listeners.mem_iff.mpr hl, fun _ _ _ => rfl, fun l hl hListens hNot => ?_⟩)⟩
  have hMem := h.1.listeners.mem_iff.mpr hl
  refine absurd ?_ hNot
  by_cases hZero : l.wild = 0
  · have hExact := (h.1.isExact_iff hMem hHash).mpr ⟨hZero, hListens⟩
    simp only [isExact, Bool.and_eq_true, decide_eq_true_eq] at hExact
    refine .inr ?_
    show l ∈ remaining s.ht pub.subjHash _ false
    rw [hRest]
    simp [hMem, hExact.1.1.1.1]
  · exact .inl hZero

/-- Each listener that was open at the arrival was called once if the message was for
it, and not otherwise. -/
def Delivery.Complete (d : Delivery) : Prop :=
  ∀ l ∈ d.present, d.calls.count l.id =
    if Rv7.isListenedTo l.subject d.pub.subject then 1 else 0

theorem Dispatching.complete (hDispatch : Dispatching env s) (h : ∀ l, ¬ Due env s l) :
    s.delivery.Complete := by
  intro l hl
  cases hListens : Rv7.isListenedTo l.subject s.delivery.pub.subject with
  | true => exact hDispatch.called l hl hListens (h l)
  | false => exact hDispatch.waiting l hl (.inl hListens)

theorem busy_eq_zero (h : s.busy = 0) : s.pc = .idle := by
  unfold Session.busy at h
  cases hPc : s.pc with
  | idle => rfl
  | timer => simp [hPc] at h
  | exact cur calling => simp [hPc] at h
  | slot pos => simp [hPc] at h
  | wild pos pref cur calling => simp [hPc] at h
  | fault => simp [hPc] at h

theorem Steady.codeStep (h : Steady env s) :
    Steady env (codeStep env s) ∧
      ∀ pos, s.pc = .slot pos → (Rv5.codeStep env s).pc = .idle → s.delivery.Complete := by
  rcases h.2 with hIdle | hTimer | hDispatch
  · refine ⟨?_, fun pos hPos => by simp [hIdle] at hPos⟩
    rw [Rv5.codeStep, hIdle]
    exact h
  · refine ⟨?_, fun pos hPos => by simp [hTimer] at hPos⟩
    rw [Rv5.codeStep, hTimer]
    exact ⟨h.1.move _ _, .inl rfl⟩
  · rcases hDispatch.codeStep with hOn | ⟨⟨pos, hPos⟩, hIdle, hNone⟩
    · refine ⟨⟨hOn.held, .inr (.inr hOn)⟩, fun pos _ hIdle => ?_⟩
      have := hOn.located
      simp [Located, hIdle] at this
    · refine ⟨⟨?_, .inl hIdle⟩, fun _ _ _ => hDispatch.complete hNone⟩
      rw [Rv5.codeStep, hPos]
      exact h.1.move _ _

theorem Steady.step (h : Steady env s) {event : Event} {out : List Delivery}
    (hAllowed : Allowed env s event) (hStep : (session env).step s event out t) :
    Steady env t ∧ ∀ d ∈ out, d.Complete := by
  cases event with
  | listenSubject subject hasCb =>
      obtain ⟨hApplication, rfl, rfl⟩ := hStep
      obtain ⟨rfl, hLength, hWild⟩ := hAllowed
      refine ⟨?_, by simp⟩
      unfold rvListenSubject
      split
      · rw [make_isWild env hLength s.nextId]
        exact h.openListener hApplication rfl hLength rfl hWild
      · exact h
  | listenInbox hasCb =>
      obtain ⟨hApplication, rfl, rfl⟩ := hStep
      obtain rfl := hAllowed
      refine ⟨?_, by simp⟩
      obtain ⟨hLength, hPlain⟩ := inboxName_plain env s.inboxCount
      have hZero : (Listener.makeInbox env s.nextId (inboxName env s.inboxCount)).wild = 0 := rfl
      have hOpened := (h.inboxCount (s.inboxCount + 1)).openListener
        (l := .makeInbox env s.nextId (inboxName env s.inboxCount)) hApplication
        (makeInbox_eq env s.nextId s.inboxCount) hLength rfl fun hNot => absurd hZero hNot
      exact hOpened
  | close l =>
      obtain ⟨_, hMem, rfl, rfl⟩ := hStep
      have hIdle := busy_eq_zero hAllowed
      have hPc := (rvClose_fields env (h.1.callable l hMem) hAllowed).2.2.2.2.1
      exact ⟨⟨h.1.rvClose hAllowed hMem, .inl (hPc.trans hIdle)⟩, by simp⟩
  | arrive pub =>
      obtain ⟨_, hHash, rfl, rfl⟩ := hStep
      exact ⟨h.arrive hAllowed hHash, by simp⟩
  | timer =>
      obtain ⟨_, rfl, rfl⟩ := hStep
      exact ⟨⟨h.1.move _ _, .inr (.inl rfl)⟩, by simp⟩
  | code =>
      obtain ⟨rfl, rfl⟩ := hStep
      refine ⟨h.codeStep.1, fun d hd => ?_⟩
      split at hd
      · rename_i pos hPos
        split at hd
        · rename_i hIdle
          rw [List.mem_singleton.mp hd]
          exact h.codeStep.2 pos hPos hIdle
        · cases hd
      · cases hd

/-- A bound on the steps that a loop over a bucket has before it. -/
def bucketWork (ht : Buckets Listener) (h : BitVec 32) (cur : Option Listener) (calling : Bool) :
    Nat :=
  2 * (remaining ht h cur calling).length + (if calling then 1 else 0)

/-- A bound on the steps that the loop over the prefix lengths has before it. -/
def slotWork (s : Session) (pos : Nat) : Nat :=
  (s.slots.length - pos) * (2 * s.ht.elements.length + 3) + 1

/-- A bound on the steps to the end of the dispatch, from where the loops stand. -/
def work (env : Env) (s : Session) (pc : Pc) : Nat :=
  match pc with
  | .exact cur calling =>
      bucketWork s.ht s.delivery.pub.subjHash cur calling + 1 + slotWork s 0
  | .slot pos => slotWork s pos
  | .wild pos pref cur calling =>
      bucketWork s.ht (prefixHash env s.delivery.pub.subject pref) cur calling + 1 +
        slotWork s (pos + 1)
  | .timer => 1
  | _ => 0

theorem Stands.bucketWork_next (hStands : Stands s.ht h (some l) calling) (hHeld : Held env s) :
    bucketWork s.ht h (nextListener s l) false < bucketWork s.ht h (some l) calling := by
  rw [bucketWork, (hStands.next hHeld).2]
  cases calling <;> simp [bucketWork, remaining]

theorem bucketWork_call :
    bucketWork s.ht h (some l) true < bucketWork s.ht h (some l) false := by
  simp only [bucketWork, remaining, if_true, Bool.false_eq_true, if_false, List.length_append,
    List.length_singleton, List.length_nil]
  omega

/-- A turn of a bucket loop takes one from its work. -/
theorem Stands.bucketStep_work (hStands : Stands s.ht h (some l) calling) (hHeld : Held env s)
    (isCalled : Bool) (pc : Option Listener → Bool → Pc) :
    ∃ cur' calling', (bucketStep s l calling isCalled pc).pc = pc cur' calling' ∧
      bucketWork s.ht h cur' calling' < bucketWork s.ht h (some l) calling := by
  have hNext := hStands.bucketWork_next hHeld
  unfold Rv5.bucketStep
  cases calling with
  | true => exact ⟨_, _, rfl, hNext⟩
  | false =>
      cases isCalled with
      | true => exact ⟨_, _, rfl, bucketWork_call⟩
      | false => exact ⟨_, _, rfl, hNext⟩

theorem bucketStep_fields (s : Session) (l : Listener) (calling isCalled : Bool)
    (pc : Option Listener → Bool → Pc) :
    (bucketStep s l calling isCalled pc).ht = s.ht ∧
      (bucketStep s l calling isCalled pc).wildHt = s.wildHt ∧
      (bucketStep s l calling isCalled pc).delivery.pub = s.delivery.pub := by
  unfold bucketStep
  cases calling <;> cases isCalled <;> exact ⟨rfl, rfl, rfl⟩

theorem codeStep_fields (env : Env) (s : Session) :
    (codeStep env s).ht = s.ht ∧ (codeStep env s).wildHt = s.wildHt ∧
      (codeStep env s).delivery.pub = s.delivery.pub := by
  cases hPc : s.pc with
  | idle => simp [codeStep, hPc]
  | timer => simp [codeStep, hPc]
  | fault => simp [codeStep, hPc]
  | slot pos => simp [codeStep, hPc]
  | exact cur calling =>
      cases cur with
      | none => simp [codeStep, hPc]
      | some l =>
          rw [codeStep_exact env hPc]
          exact bucketStep_fields ..
  | wild pos pref cur calling =>
      cases cur with
      | none => simp [codeStep, hPc]
      | some l =>
          rw [codeStep_wild env hPc]
          exact bucketStep_fields ..

theorem slotWork_skip (s : Session) {pos p : Nat} (hPos : pos ≤ p) (hp : p < s.slots.length) :
    slotWork s (p + 1) + 2 * s.ht.elements.length + 3 ≤ slotWork s pos := by
  unfold slotWork
  have hLess : s.slots.length - (p + 1) + 1 ≤ s.slots.length - pos := by omega
  have := Nat.mul_le_mul_right (2 * s.ht.elements.length + 3) hLess
  rw [Nat.add_mul] at this
  omega

/-- The dispatch comes nearer to its end with every step. -/
theorem Steady.work_codeStep (h : Steady env s) (hBusy : s.pc ≠ .idle) :
    work env s (Rv5.codeStep env s).pc < work env s s.pc := by
  rcases h.2 with hIdle | hTimer | hDispatch
  · exact absurd hIdle hBusy
  · rw [Rv5.codeStep, hTimer]
    simp [work]
  have hLocated := hDispatch.located
  cases hPc : s.pc with
  | idle => exact absurd hPc hBusy
  | timer => simp [Located, hPc] at hLocated
  | fault => simp [Located, hPc] at hLocated
  | exact cur calling =>
      simp only [Located, hPc] at hLocated
      cases cur with
      | none =>
          rw [Rv5.codeStep, hPc]
          simp only [work]
          omega
      | some l =>
          rw [codeStep_exact env hPc]
          obtain ⟨cur', calling', hNext, hLess⟩ :=
            hLocated.bucketStep_work h.1 (isExact s s.delivery.pub l) .exact
          rw [hNext]
          simp only [work]
          omega
  | wild pos pref cur calling =>
      simp only [Located, hPc] at hLocated
      cases cur with
      | none =>
          rw [Rv5.codeStep, hPc]
          simp only [work]
          omega
      | some l =>
          rw [codeStep_wild env hPc]
          obtain ⟨cur', calling', hNext, hLess⟩ := hLocated.2.bucketStep_work h.1
            (isMatch s s.delivery.pub (prefixHash env s.delivery.pub.subject pref) pref l)
            (.wild pos pref)
          rw [hNext]
          simp only [work]
          omega
  | slot pos =>
      rw [Rv5.codeStep, hPc]
      show work env s (Rv5.slotStep env s pos) < slotWork s pos
      cases hNext : s.slots.next pos with
      | none =>
          rw [Rv5.slotStep, show s.wildHt.getD [] = s.slots from rfl, hNext]
          simp [work, slotWork]
      | some entry =>
          obtain ⟨p, pref, val⟩ := entry
          obtain ⟨hPos, hAt, _⟩ := Slots.next_some hNext
          have hSkip := slotWork_skip s hPos (List.getElem?_eq_some_iff.mp hAt).1
          rw [Rv5.slotStep, show s.wildHt.getD [] = s.slots from rfl, hNext]
          dsimp only
          split
          · simp only [work]
            omega
          · cases hBucket : s.ht.bucket? (prefixHash env s.delivery.pub.subject pref) with
            | none =>
                simp only [work, slotWork]
                omega
            | some list =>
                have hLength : list.length ≤ s.ht.elements.length := by
                  have hTable : s.ht.table ≠ [] := by
                    intro hNil
                    simp [Buckets.bucket?, hNil] at hBucket
                  have := h.1.bucket? hTable (prefixHash env s.delivery.pub.subject pref)
                  rw [hBucket, Option.getD_some] at this
                  rw [this]
                  exact List.length_filter_le _ _
                simp only [work, bucketWork, (Stands.head hBucket).2, Bool.false_eq_true, if_false]
                omega

/-- A dispatch whose callbacks open nothing more is through after finitely many steps. -/
theorem Steady.ends (h : Steady env s) : ∃ n, ((Rv5.codeStep env)^[n] s).pc = .idle := by
  induction hWork : work env s s.pc using Nat.strong_induction_on generalizing s with
  | _ bound ih =>
      by_cases hIdle : s.pc = .idle
      · exact ⟨0, hIdle⟩
      · obtain ⟨hHt, hWild, hPub⟩ := codeStep_fields env s
        have hSame : work env (Rv5.codeStep env s) = work env s := by
          funext pc
          cases pc <;> simp only [work, slotWork, Session.slots, hHt, hWild, hPub]
        have hLess := h.work_codeStep hIdle
        rw [hWork] at hLess
        obtain ⟨n, hn⟩ := ih _ hLess h.codeStep.1 (congrFun hSame _)
        exact ⟨n + 1, hn⟩

theorem Steady.run {inputs : List Event} {outputs : List Delivery}
    (hRun : ((session env).guard (Allowed env)).Run {} inputs outputs s) :
    Steady env s ∧ ∀ d ∈ outputs, d.Complete := by
  have hStep : ∀ s sofar event out t, Steady env s ∧ (∀ d ∈ sofar, d.Complete) →
      ((session env).guard (Allowed env)).step s event out t →
        Steady env t ∧ ∀ d ∈ sofar ++ out, d.Complete := by
    intro s sofar event out t hSofar hGuarded
    obtain ⟨hSteady, hOut⟩ := hSofar.1.step hGuarded.1 hGuarded.2
    refine ⟨hSteady, fun d hd => ?_⟩
    exact (List.mem_append.mp hd).elim (hSofar.2 d) (hOut d)
  have hStart : Steady env {} ∧ ∀ d ∈ ([] : List Delivery), d.Complete :=
    ⟨⟨Held.init, .inl rfl⟩, by simp⟩
  have := hRun.invariant_outputs (fun s outs => Steady env s ∧ ∀ d ∈ outs, d.Complete) hStep hStart
  rwa [List.nil_append] at this

/-- In every run that keeps the conditions: a message that is through has called each
listener that was open when it arrived and that it is for, once, and no other of them;
the tables hold the open listeners at any time; and a dispatch comes to its end once
the callbacks open nothing more. -/
theorem onRvMsg_exactly_once {inputs : List Event} {outputs : List Delivery}
    (hRun : ((session env).guard (Allowed env)).Run {} inputs outputs s) :
    (∀ d ∈ outputs, d.Complete) ∧
      s.ht.elements.Perm s.opened ∧
      (∀ pref val, s.slots.Holds (pref, val) ↔
        Rv7.indexed (wildCount s.opened pref) = some val) ∧
      ∃ n, ((codeStep env)^[n] s).pc = .idle := by
  obtain ⟨hSteady, hComplete⟩ := Steady.run hRun
  exact ⟨hComplete, hSteady.1.listeners, hSteady.1.wild, hSteady.ends⟩

def sampleEnv : Env where
  crcC text seed := (text.map fun c => BitVec.ofNat 32 c.toNat).sum + seed
  uint32ToString _ := text "2"
  tab := Slots.probing BitVec.toNat
  session := text "0A000001.1"
  session_plain := ⟨by decide, plain_of_all rfl⟩
  uint32ToString_plain := fun _ => ⟨by decide, plain_of_all rfl⟩

def sampleMsg : Publish where
  subject := text "A.B"
  subjHash := sampleEnv.crcC (text "A.B") 0

/-- A session with an exact and a wildcard listener, in the callback of the first. -/
def callbackSession : Session :=
  let s := rvListenSubject sampleEnv {} (text "A.B") true
  let s := rvListenSubject sampleEnv s (text "A.*") true
  codeStep sampleEnv (arrive s sampleMsg)

theorem callbackSession_run :
    ((session sampleEnv).guard (Allowed sampleEnv)).Run {}
      [.listenSubject (text "A.B") true, .listenSubject (text "A.*") true, .arrive sampleMsg, .code]
      [] callbackSession := by
  have hStart : ((session sampleEnv).guard (Allowed sampleEnv)).Run {} [] [] {} := .nil _
  have hExact := hStart.take (.listenSubject (text "A.B") true) []
    ⟨rfl, by decide, fun hNot => absurd rfl hNot⟩ ⟨rfl, rfl, rfl⟩
  have hWild := hExact.take (.listenSubject (text "A.*") true) []
    ⟨rfl, by decide, fun _ => ⟨by decide, trivial⟩⟩ ⟨rfl, rfl, rfl⟩
  have hArrived := hWild.take (.arrive sampleMsg) [] (by show Buckets.table _ ≠ []; decide)
    ⟨rfl, rfl, rfl, rfl⟩
  exact hArrived.take .code [] trivial ⟨rfl, rfl⟩

/-- A callback that opens another listener on the subject: the listeners that were there
are called once each, in the order of the tables. -/
theorem onRvMsg_exactly_once_reopened :
    ∃ (inputs : List Event) (s : Session) (d : Delivery),
      ((session sampleEnv).guard (Allowed sampleEnv)).Run {} inputs [d] s ∧
        d.present.map Listener.id = [0, 1] ∧ d.calls = [0, 2, 1] ∧ d.Complete := by
  have hReopened := callbackSession_run.take (.listenSubject (text "A.B") true) []
    ⟨rfl, by decide, fun hNot => absurd rfl hNot⟩ ⟨rfl, rfl, rfl⟩
  have hReturned := hReopened.take .code [] trivial ⟨rfl, rfl⟩
  have hNew := hReturned.take .code [] trivial ⟨rfl, rfl⟩
  have hEnd := hNew.take .code [] trivial ⟨rfl, rfl⟩
  have hSlots := hEnd.take .code [] trivial ⟨rfl, rfl⟩
  have hSlot := hSlots.take .code [] trivial ⟨rfl, rfl⟩
  have hCalled := hSlot.take .code [] trivial ⟨rfl, rfl⟩
  have hBack := hCalled.take .code [] trivial ⟨rfl, rfl⟩
  have hPassed := hBack.take .code [] trivial ⟨rfl, rfl⟩
  have hDone := hPassed.take .code [_] trivial ⟨rfl, rfl⟩
  refine ⟨_, _, _, hDone, rfl, rfl, ?_⟩
  exact (onRvMsg_exactly_once hDone).1 _ (by simp)

theorem run_codeSteps {start : Session} {inputs : List Event} {outputs : List Delivery}
    (hRun : (session env).Run start inputs outputs s) (n : Nat) :
    ∃ inputs' outputs', (session env).Run start inputs' outputs' ((codeStep env)^[n] s) := by
  induction n generalizing s inputs outputs with
  | zero => exact ⟨_, _, hRun⟩
  | succ n ih =>
      have hCode : (session env).step s .code _ (codeStep env s) := ⟨rfl, rfl⟩
      exact ih (hRun.snoc hCode)

/-- A listener that is closed in its own callback stays in the table. -/
theorem closed_listener_stays :
    ¬ ∀ (env : Env) (inputs : List Event) (outputs : List Delivery) (s : Session),
      (session env).Run {} inputs outputs s → s.pc = .idle → s.ht.elements.Perm s.opened := by
  intro hClaim
  have hClose : (session sampleEnv).step callbackSession (.close (.make sampleEnv 0 (text "A.B"))) []
      (rvClose sampleEnv callbackSession (.make sampleEnv 0 (text "A.B"))) :=
    ⟨rfl, by decide, rfl, rfl⟩
  obtain ⟨inputs, outputs, hRun⟩ := run_codeSteps (callbackSession_run.of_guard.snoc hClose) 7
  have hPerm := hClaim sampleEnv inputs outputs _ hRun rfl
  exact absurd hPerm.length_eq (by decide)

end Sassrv.Rv5
