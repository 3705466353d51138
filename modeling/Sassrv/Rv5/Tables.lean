import Sassrv.Rv5.Listeners
import Sassrv.Rv7.Dispatch

/-! The tables of an rv5 session hold the listeners that are open, as long as none is
closed in a callback. -/
namespace Sassrv.Rv5
open SubMgr Client Transition

/-- The wildcard listeners of one prefix length. -/
def wildCount (listeners : List Listener) (pref : BitVec 32) : Nat :=
  listeners.countP fun l => l.wild ≠ 0 && l.wild.setWidth 32 = pref

/-- The slots of `wild_ht`, none while there is no table. -/
def Session.slots (s : Session) : UIntHashTab := s.wildHt.getD []

/-- The tables hold the open listeners, and all of them have their callback. -/
structure Held (env : Env) (s : Session) : Prop where
  filed : Buckets.Filed Listener.hash s.ht
  listeners : s.ht.elements.Perm s.opened
  made : ∀ l ∈ s.ht.elements, l = .make env l.id l.subject ∧ l.subject.length < 65536
  fresh : ∀ l ∈ s.ht.elements, l.id < s.nextId
  ids : (s.ht.elements.map Listener.id).Nodup
  callable : ∀ l ∈ s.ht.elements, l.id ∉ s.nulled
  nulled : ∀ id ∈ s.nulled, id < s.nextId
  keyed : s.slots.Keyed
  wild : ∀ pref val, s.slots.Holds (pref, val) ↔
    Rv7.indexed (wildCount s.opened pref) = some val
  counts : ∀ pref, wildCount s.opened pref < 2 ^ 32
  table : s.wildHt ≠ none → s.ht.table ≠ []

variable {env : Env} {s : Session} {l : Listener} {pref : BitVec 32}

theorem wildCount_append (list list' : List Listener) (pref : BitVec 32) :
    wildCount (list ++ list') pref = wildCount list pref + wildCount list' pref :=
  List.countP_append

theorem wildCount_singleton (l : Listener) (pref : BitVec 32) :
    wildCount [l] pref = if l.wild ≠ 0 ∧ l.wild.setWidth 32 = pref then 1 else 0 := by
  simp [wildCount, List.countP_singleton]

theorem wildCount_perm {list list' : List Listener} (h : list.Perm list') (pref : BitVec 32) :
    wildCount list pref = wildCount list' pref :=
  h.countP_eq _

theorem wildCount_erase {list : List Listener} (h : l ∈ list) (pref : BitVec 32) :
    wildCount list pref = wildCount (list.erase l) pref +
      if l.wild ≠ 0 ∧ l.wild.setWidth 32 = pref then 1 else 0 := by
  have hSplit : list.Perm (list.erase l ++ [l]) :=
    (List.perm_cons_erase h).trans (List.perm_append_singleton _ _).symm
  rw [wildCount_perm hSplit, wildCount_append, wildCount_singleton]

theorem wildCount_pos {list : List Listener} (hl : l ∈ list) (hWild : l.wild ≠ 0) :
    0 < wildCount list (l.wild.setWidth 32) := by
  rw [wildCount_erase hl, if_pos ⟨hWild, rfl⟩]
  omega

theorem indexed_succ (n : Nat) : Rv7.indexed (n + 1) = some (BitVec.ofNat 32 (n + 1)) := by
  simp [Rv7.indexed]

/-- One more listener of a prefix length. -/
theorem addWildcard_slots (env : Env) (hKeyed : s.slots.Keyed) {n : Nat}
    (h : ∀ val, s.slots.Holds (pref, val) ↔ Rv7.indexed n = some val) :
    (addWildcard env s pref).slots.Keyed ∧
      ∀ e, (addWildcard env s pref).slots.Holds e ↔
        e = (pref, BitVec.ofNat 32 (n + 1)) ∨ (s.slots.Holds e ∧ e.1 ≠ pref) := by
  have hTable : (s.wildHt.getD env.tab.fresh).Keyed ∧
      ∀ e, (s.wildHt.getD env.tab.fresh).Holds e ↔ s.slots.Holds e := by
    cases hHt : s.wildHt with
    | none =>
        have hEmpty : ∀ e, ¬ s.slots.Holds e := by
          intro e
          simp [Session.slots, hHt, Slots.Holds]
        refine ⟨fun p q k v w hp => absurd ⟨p, hp⟩ (env.tab.fresh_empty (k, v)), fun e => ?_⟩
        exact iff_of_false (env.tab.fresh_empty e) (hEmpty e)
    | some wild =>
        rw [Session.slots, hHt] at hKeyed
        exact ⟨hKeyed, fun e => by rw [Session.slots, hHt]; rfl⟩
  unfold addWildcard
  dsimp only
  split
  case h_1 pos val hFind =>
      have hAt := Slots.find?_some hFind
      have hHolds : s.slots.Holds (pref, val) := (hTable.2 _).mp ⟨pos, hAt⟩
      have hNext : val + 1 = BitVec.ofNat 32 (n + 1) := by
        have hIndexed := (h val).mp hHolds
        unfold Rv7.indexed at hIndexed
        split at hIndexed
        · cases hIndexed
        · rw [BitVec.ofNat_add, ← Option.some.inj hIndexed]
          rfl
      obtain ⟨hKeyed', hSet⟩ := hTable.1.set (w := val + 1) hAt
      refine ⟨hKeyed', fun e => ?_⟩
      show Slots.Holds _ e ↔ _
      rw [Session.slots, Option.getD_some, hSet e, hTable.2, hNext]
  case h_2 hFind =>
      have hAbsent := Slots.find?_none hFind
      have hZero : n = 0 := by
        by_contra hNot
        have : Rv7.indexed n = some (BitVec.ofNat 32 n) := if_neg hNot
        exact hAbsent _ ((hTable.2 _).mpr ((h _).mpr this))
      obtain ⟨hKeyed', hUpsert⟩ := env.tab.upsert_spec (v := 1) hTable.1 hAbsent
      refine ⟨hKeyed', fun e => ?_⟩
      rw [Session.slots, Option.getD_some, hUpsert e, hTable.2, hZero]
      refine or_congr_right (iff_self_and.mpr fun hHolds hKey => ?_)
      refine hAbsent e.2 ((hTable.2 _).mpr ?_)
      rwa [← hKey]

/-- One listener of a prefix length less. -/
theorem removeWildcard_slots (env : Env) (hKeyed : s.slots.Keyed) {n : Nat} (hn : n + 1 < 2 ^ 32)
    (h : ∀ val, s.slots.Holds (pref, val) ↔ Rv7.indexed (n + 1) = some val) :
    (removeWildcard env s pref).slots.Keyed ∧
      ∀ e, (removeWildcard env s pref).slots.Holds e ↔
        (e.1 = pref ∧ Rv7.indexed n = some e.2) ∨ (s.slots.Holds e ∧ e.1 ≠ pref) := by
  have hHolds := (h _).mpr (indexed_succ n)
  unfold removeWildcard
  split
  case h_1 hHt => simp [Session.slots, hHt, Slots.Holds] at hHolds
  case h_2 wild hHt =>
      have hSlots : s.slots = wild := by rw [Session.slots, hHt]; rfl
      rw [hSlots] at hKeyed h hHolds
      split
      case h_1 hFind => exact absurd hHolds (Slots.find?_none hFind _)
      case h_2 pos val hFind =>
          have hAt := Slots.find?_some hFind
          have hVal : val = BitVec.ofNat 32 (n + 1) := hKeyed.value ⟨pos, hAt⟩ hHolds
          split
          case isTrue hOne =>
              have hZero : n = 0 := by
                rw [hVal, ← BitVec.toNat_inj, BitVec.toNat_ofNat, Nat.mod_eq_of_lt hn] at hOne
                simpa using hOne
              obtain ⟨hKeyed', hRemove⟩ := env.tab.remove_spec hKeyed hAt
              refine ⟨hKeyed', fun e => ?_⟩
              rw [hSlots, Session.slots, Option.getD_some, hRemove e, hZero]
              simp [Rv7.indexed]
          case isFalse hMore =>
              have hNot : n ≠ 0 := by
                rintro rfl
                exact hMore hVal
              have hPred : val - 1 = BitVec.ofNat 32 n := by
                rw [hVal, BitVec.ofNat_add]
                exact BitVec.add_sub_cancel _ _
              obtain ⟨hKeyed', hSet⟩ := hKeyed.set (w := val - 1) hAt
              refine ⟨hKeyed', fun e => ?_⟩
              rw [hSlots, Session.slots, Option.getD_some, hSet e, hPred]
              refine or_congr_left ?_
              rw [Rv7.indexed, if_neg hNot, Option.some.injEq, Prod.ext_iff, eq_comm (a := e.2)]

theorem addWildcard_fields (env : Env) (s : Session) (pref : BitVec 32) :
    (addWildcard env s pref).ht = s.ht ∧ (addWildcard env s pref).opened = s.opened ∧
      (addWildcard env s pref).nulled = s.nulled ∧ (addWildcard env s pref).nextId = s.nextId ∧
      (addWildcard env s pref).pc = s.pc ∧ (addWildcard env s pref).delivery = s.delivery := by
  unfold addWildcard
  dsimp only
  split <;> simp

theorem removeWildcard_fields (env : Env) (s : Session) (pref : BitVec 32) :
    (removeWildcard env s pref).ht = s.ht ∧ (removeWildcard env s pref).opened = s.opened ∧
      (removeWildcard env s pref).nulled = s.nulled ∧
      (removeWildcard env s pref).nextId = s.nextId ∧ (removeWildcard env s pref).pc = s.pc := by
  unfold removeWildcard
  split
  · simp
  · split
    · simp
    · split <;> simp

/-- What a new listener leaves as it is. -/
theorem openListener_fields (env : Env) (s : Session) (isWild : Bool) (l : Listener) :
    (openListener env s isWild true l).ht = s.ht.push Listener.hash l ∧
      (openListener env s isWild true l).opened = s.opened ++ [l] ∧
      (openListener env s isWild true l).nulled = s.nulled ∧
      (openListener env s isWild true l).nextId = s.nextId + 1 ∧
      (openListener env s isWild true l).pc = s.pc ∧
      (openListener env s isWild true l).delivery = s.delivery ∧
      (openListener env s isWild true l).slots =
        if isWild then (addWildcard env s (l.wild.setWidth 32)).slots else s.slots := by
  obtain ⟨hHt, hOpened, hNulled, hNext, hPc, hDelivery⟩ :=
    addWildcard_fields env s (l.wild.setWidth 32)
  cases isWild with
  | false => simp [openListener, Session.slots]
  | true => simp [openListener, Session.slots, hHt, hOpened, hNulled, hNext, hPc, hDelivery]

/-- The index after a new listener. -/
theorem Held.openListener_slots (hHeld : Held env s) (l : Listener) :
    let t := openListener env s (l.wild ≠ 0) true l
    t.slots.Keyed ∧ ∀ pref val, t.slots.Holds (pref, val) ↔
      Rv7.indexed (wildCount (s.opened ++ [l]) pref) = some val := by
  intro t
  have hSlots : t.slots = if l.wild ≠ 0 then (addWildcard env s (l.wild.setWidth 32)).slots
      else s.slots := by
    rw [(openListener_fields env s (decide (l.wild ≠ 0)) l).2.2.2.2.2.2]
    simp only [decide_eq_true_eq]
  rw [hSlots]
  simp only [wildCount_append, wildCount_singleton]
  by_cases hWild : l.wild = 0
  · rw [if_neg (by simpa using hWild)]
    refine ⟨hHeld.keyed, fun pref val => ?_⟩
    rw [if_neg (by simp [hWild]), Nat.add_zero]
    exact hHeld.wild pref val
  · rw [if_pos hWild]
    obtain ⟨hKeyed, hHolds⟩ := addWildcard_slots env hHeld.keyed
      (hHeld.wild (l.wild.setWidth 32))
    refine ⟨hKeyed, fun pref val => ?_⟩
    rw [hHolds]
    by_cases hPref : l.wild.setWidth 32 = pref
    · rw [if_pos ⟨hWild, hPref⟩, indexed_succ, Option.some.injEq, ← hPref]
      simp [eq_comm]
    · rw [if_neg (fun h => hPref h.2)]
      simp [Ne.symm hPref, hHeld.wild]

theorem Held.openListener (hHeld : Held env s) (hMade : l = .make env l.id l.subject)
    (hLength : l.subject.length < 65536) (hId : l.id = s.nextId)
    (hCount : l.wild ≠ 0 → wildCount s.opened (l.wild.setWidth 32) + 1 < 2 ^ 32) :
    Held env (openListener env s (l.wild ≠ 0) true l) := by
  obtain ⟨hFiled, hTable, hElements⟩ := hHeld.filed.push l
  obtain ⟨hKeyed, hWild⟩ := hHeld.openListener_slots l
  obtain ⟨hHt, hOpened, hNulled, hNext, _, _, _⟩ :=
    openListener_fields env s (decide (l.wild ≠ 0)) l
  have hMem : ∀ l', l' ∈ (s.ht.push Listener.hash l).elements ↔ l' = l ∨ l' ∈ s.ht.elements := by
    intro l'
    rw [hElements.mem_iff, List.mem_cons]
  refine ⟨hHt ▸ hFiled, ?_, ?_, ?_, ?_, ?_, ?_, hKeyed, ?_, ?_, ?_⟩
  · rw [hHt, hOpened]
    exact hElements.trans ((hHeld.listeners.cons l).trans (List.perm_append_singleton _ _).symm)
  · rw [hHt]
    intro l' hl'
    rcases (hMem l').mp hl' with rfl | hl'
    · exact ⟨hMade, hLength⟩
    · exact hHeld.made l' hl'
  · rw [hHt, hNext]
    intro l' hl'
    rcases (hMem l').mp hl' with rfl | hl'
    · omega
    · have := hHeld.fresh l' hl'
      omega
  · rw [hHt, (hElements.map Listener.id).nodup_iff, List.map_cons, List.nodup_cons]
    refine ⟨fun hOld => ?_, hHeld.ids⟩
    obtain ⟨l', hl', hSame⟩ := List.mem_map.mp hOld
    have := hHeld.fresh l' hl'
    omega
  · rw [hHt, hNulled]
    intro l' hl'
    rcases (hMem l').mp hl' with rfl | hl'
    · intro hNull
      have := hHeld.nulled _ hNull
      omega
    · exact hHeld.callable l' hl'
  · rw [hNulled, hNext]
    intro id hNull
    have := hHeld.nulled id hNull
    omega
  · rw [hOpened]
    exact hWild
  · rw [hOpened]
    intro pref
    have := hHeld.counts pref
    rw [wildCount_append, wildCount_singleton]
    split
    · rename_i hPref
      rw [← hPref.2]
      exact hCount hPref.1
    · exact this
  · rw [hHt]
    exact fun _ => hTable

/-- The index after a listener is gone. -/
theorem Held.removeWildcard_slots (hHeld : Held env s) (hMem : l ∈ s.opened) {t : Session}
    (hSlots : t.slots = if l.wild ≠ 0 then (removeWildcard env s (l.wild.setWidth 32)).slots
      else s.slots) :
    t.slots.Keyed ∧ ∀ pref val, t.slots.Holds (pref, val) ↔
      Rv7.indexed (wildCount (s.opened.erase l) pref) = some val := by
  have hErase := wildCount_erase hMem
  rw [hSlots]
  by_cases hWild : l.wild = 0
  · rw [if_neg (by simpa using hWild)]
    refine ⟨hHeld.keyed, fun pref val => ?_⟩
    rw [hHeld.wild, hErase pref, if_neg (by simp [hWild]), Nat.add_zero]
  · rw [if_pos hWild]
    have hCount := hErase (l.wild.setWidth 32)
    rw [if_pos ⟨hWild, rfl⟩] at hCount
    obtain ⟨hKeyed, hHolds⟩ := Rv5.removeWildcard_slots env hHeld.keyed
      (hCount ▸ hHeld.counts (l.wild.setWidth 32))
      (by rw [← hCount]; exact hHeld.wild (l.wild.setWidth 32))
    refine ⟨hKeyed, fun pref val => ?_⟩
    rw [hHolds, hHeld.wild]
    by_cases hPref : l.wild.setWidth 32 = pref
    · rw [← hPref]
      simp
    · rw [hErase pref, if_neg (fun h => hPref h.2)]
      simp [Ne.symm hPref]

/-- What closing a listener outside of a callback does. -/
theorem rvClose_fields (env : Env) (hLive : l.id ∉ s.nulled) (hIdle : s.busy = 0) :
    (rvClose env s l).ht = s.ht.remove Listener.hash l ∧
      (rvClose env s l).opened = s.opened.erase l ∧
      (rvClose env s l).nulled = l.id :: s.nulled ∧
      (rvClose env s l).nextId = s.nextId ∧ (rvClose env s l).pc = s.pc ∧
      (rvClose env s l).slots =
        if l.wild ≠ 0 then (removeWildcard env s (l.wild.setWidth 32)).slots else s.slots := by
  let marked : Session := { s with
    nulled := l.id :: s.nulled
    opened := s.opened.erase l }
  have hMarked : (removeWildcard env marked (l.wild.setWidth 32)).slots =
      (removeWildcard env s (l.wild.setWidth 32)).slots := by
    unfold removeWildcard Session.slots
    dsimp only [marked]
    split
    · rfl
    · split
      · rfl
      · split <;> rfl
  obtain ⟨hHt, hOpened, hNulled, hNext, hPc⟩ :=
    removeWildcard_fields env marked (l.wild.setWidth 32)
  have hBusy : marked.busy = 0 := hIdle
  let unindexed := if l.wild ≠ 0 then removeWildcard env marked (l.wild.setWidth 32) else marked
  have hClosed : rvClose env s l =
      { unindexed with ht := unindexed.ht.remove Listener.hash l } := by
    unfold rvClose
    rw [if_neg hLive]
    exact if_pos hBusy
  rw [hClosed]
  dsimp only [unindexed]
  by_cases hWild : l.wild = 0
  · rw [if_neg (by simpa using hWild), if_neg (by simpa using hWild)]
    exact ⟨rfl, rfl, rfl, rfl, rfl, rfl⟩
  · rw [if_pos hWild, if_pos hWild, ← hMarked]
    refine ⟨?_, hOpened, hNulled, hNext, hPc, rfl⟩
    show Buckets.remove _ (removeWildcard env marked _).ht l = _
    rw [hHt]

/-- A listener that is closed outside of a callback leaves the tables. -/
theorem Held.rvClose (hHeld : Held env s) (hIdle : s.busy = 0) (hMem : l ∈ s.ht.elements) :
    Held env (rvClose env s l) := by
  have hOpen : l ∈ s.opened := hHeld.listeners.mem_iff.mp hMem
  obtain ⟨hFiled, hTable, hElements⟩ := hHeld.filed.remove hMem
  obtain ⟨hHt, hOpened, hNulled, hNext, _, hSlots⟩ :=
    rvClose_fields env (hHeld.callable l hMem) hIdle
  obtain ⟨hKeyed, hWild⟩ := hHeld.removeWildcard_slots hOpen hSlots
  have hIds := (hElements.map Listener.id).nodup_iff.mpr hHeld.ids
  rw [List.map_cons, List.nodup_cons] at hIds
  have hOld : ∀ l' ∈ (s.ht.remove Listener.hash l).elements, l' ∈ s.ht.elements :=
    fun l' hl' => hElements.mem_iff.mp (List.mem_cons_of_mem _ hl')
  refine ⟨hHt ▸ hFiled, ?_, ?_, ?_, hHt ▸ hIds.2, ?_, ?_, hKeyed, hOpened ▸ hWild, ?_, ?_⟩
  · rw [hHt, hOpened]
    exact ((hElements.trans hHeld.listeners).trans (List.perm_cons_erase hOpen)).cons_inv
  · rw [hHt]
    exact fun l' hl' => hHeld.made l' (hOld l' hl')
  · rw [hHt, hNext]
    exact fun l' hl' => hHeld.fresh l' (hOld l' hl')
  · rw [hHt, hNulled]
    intro l' hl' hNull
    rcases List.mem_cons.mp hNull with hSame | hNull
    · exact hIds.1 (List.mem_map.mpr ⟨l', hl', hSame⟩)
    · exact hHeld.callable l' (hOld l' hl') hNull
  · rw [hNulled, hNext]
    intro id hNull
    rcases List.mem_cons.mp hNull with rfl | hNull
    · exact hHeld.fresh l hMem
    · exact hHeld.nulled id hNull
  · rw [hOpened]
    intro pref
    have hCount := wildCount_erase hOpen pref
    have := hHeld.counts pref
    omega
  · rw [hHt]
    exact fun _ => hTable

end Sassrv.Rv5
