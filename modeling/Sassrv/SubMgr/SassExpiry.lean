import Mathlib.Data.List.TakeWhile
import Sassrv.SubMgr.Issued
import Sassrv.SubMgr.Sass3

/-! The order of `sass3_list`, which the expiry loop of `process_events` rests on:
nodes for the listener only, then the entries of the table from the one that was
refreshed first to the one that was refreshed last. -/
namespace Sassrv.SubMgr
open Partial Transition

variable {env : Env} {db db' : RvSubscriptionDB} {list : List RvSass3Entry}
  {tab : Finset RvSass3Key} {mono curMono : BitVec 32} {sub : Text} {app : SassApp}
  {flags : BitVec 16}

/-- The list with the table; the clock has not gone further than the last refresh. -/
structure SassOrdered (list : List RvSass3Entry) (tab : Finset RvSass3Key) (mono : BitVec 32) :
    Prop where
  sorted : list.Pairwise fun e later =>
    e.refMono ≤ later.refMono ∧ (later.subjectId = 0 → e.subjectId = 0)
  stamped : ∀ e ∈ list, e.refMono ≤ mono
  left : ∀ e ∈ list, e.subjectId = 0 → e.refMono = 0
  once : (tableKeys list).Nodup
  tab : ∀ key, key ∈ tab ↔ key ∈ tableKeys list

theorem mem_tableKeys {key : RvSass3Key} : key ∈ tableKeys list ↔
    key.subjectId ≠ 0 ∧ ∃ e ∈ list, e.toRvSass3Key = key := by
  unfold tableKeys
  rw [List.mem_filter, List.mem_map, decide_eq_true_iff, and_comm]

theorem tableKeys_sublist {rest : List RvSass3Entry} (h : rest.Sublist list) :
    (tableKeys rest).Sublist (tableKeys list) :=
  (h.map _).filter _

theorem zero_le_mono (mono : BitVec 32) : 0 ≤ mono := BitVec.le_def.mpr (Nat.zero_le _)

namespace SassOrdered

theorem empty (mono : BitVec 32) : SassOrdered [] ∅ mono :=
  ⟨.nil, fun _ h => (List.not_mem_nil h).elim, fun _ h => (List.not_mem_nil h).elim, .nil,
    fun _ => iff_of_false (Finset.notMem_empty _) List.not_mem_nil⟩

theorem later (h : SassOrdered list tab mono) (hLe : mono ≤ curMono) :
    SassOrdered list tab curMono :=
  { h with stamped := fun e he => BitVec.le_trans (h.stamped e he) hLe }

theorem sublist {rest : List RvSass3Entry} {tab' : Finset RvSass3Key}
    (h : SassOrdered list tab mono) (hSub : rest.Sublist list)
    (hTab : ∀ key, key ∈ tab' ↔ key ∈ tableKeys rest) : SassOrdered rest tab' mono where
  sorted := h.sorted.sublist hSub
  stamped e he := h.stamped e (hSub.subset he)
  left e he := h.left e (hSub.subset he)
  once := h.once.sublist (tableKeys_sublist hSub)
  tab := hTab

/-- A node for the listener goes to the head. -/
theorem push_hd (h : SassOrdered list tab mono) {e : RvSass3Entry} (hId : e.subjectId = 0)
    (hRef : e.refMono = 0) : SassOrdered (e :: list) tab mono where
  sorted := .cons (fun later _ => ⟨hRef ▸ zero_le_mono _, fun _ => hId⟩) h.sorted
  stamped := by
    intro x hx
    rcases List.mem_cons.mp hx with rfl | hRest
    · exact hRef ▸ zero_le_mono _
    · exact h.stamped x hRest
  left := by
    intro x hx
    rcases List.mem_cons.mp hx with rfl | hRest
    · exact fun _ => hRef
    · exact h.left x hRest
  once := by
    rw [tableKeys_cons, if_pos hId]
    exact h.once
  tab := by
    rw [tableKeys_cons, if_pos hId]
    exact h.tab

/-- An entry that is referenced now goes to the tail. -/
theorem push_tl (h : SassOrdered list tab mono) {e : RvSass3Entry} (hId : e.subjectId ≠ 0)
    (hRef : e.refMono = mono) (hNew : e.toRvSass3Key ∉ tab) :
    SassOrdered (list ++ [e]) (insert e.toRvSass3Key tab) mono where
  sorted := by
    refine List.pairwise_append.mpr ⟨h.sorted, List.pairwise_singleton _ _, ?_⟩
    intro x hx y hy
    obtain rfl := List.mem_singleton.mp hy
    exact ⟨hRef ▸ h.stamped x hx, fun hZero => absurd hZero hId⟩
  stamped := by
    intro x hx
    rcases List.mem_append.mp hx with hOld | hLast
    · exact h.stamped x hOld
    · obtain rfl := List.mem_singleton.mp hLast
      exact hRef ▸ BitVec.le_refl _
  left := by
    intro x hx
    rcases List.mem_append.mp hx with hOld | hLast
    · exact h.left x hOld
    · obtain rfl := List.mem_singleton.mp hLast
      exact fun hZero => absurd hZero hId
  once := by
    rw [tableKeys_append list hId]
    refine List.nodup_append.mpr ⟨h.once, List.nodup_singleton _, ?_⟩
    intro a ha b hb hEq
    obtain rfl := List.mem_singleton.mp hb
    exact hNew ((h.tab _).mpr (hEq ▸ ha))
  tab := by
    intro key
    rw [tableKeys_append list hId, Finset.mem_insert, h.tab, List.mem_append, List.mem_singleton,
      or_comm]

/-- An entry is taken out of the list and the table. -/
theorem erase (h : SassOrdered list tab mono) {old : RvSass3Entry} (hIn : old ∈ list)
    (hId : old.subjectId ≠ 0) : SassOrdered (list.erase old) (tab.erase old.toRvSass3Key) mono := by
  have hPerm : (tableKeys list).Perm (old.toRvSass3Key :: tableKeys (list.erase old)) := by
    have hCons := tableKeys_cons old (list.erase old)
    rw [if_neg hId] at hCons
    rw [← hCons]
    exact tableKeys_perm ((List.perm_cons_erase hIn).map _)
  have hHead := (List.nodup_cons.mp (hPerm.nodup_iff.mp h.once)).1
  refine h.sublist (List.erase_sublist ..) fun key => ?_
  rw [Finset.mem_erase, h.tab, hPerm.mem_iff, List.mem_cons]
  constructor
  · rintro ⟨hNe, hKey⟩
    exact hKey.resolve_left hNe
  · exact fun hKey => ⟨fun hEq => hHead (hEq ▸ hKey), .inr hKey⟩

theorem refresh (h : SassOrdered list tab mono) {old : RvSass3Entry} (hIn : old ∈ list)
    (hId : old.subjectId ≠ 0) :
    SassOrdered (list.erase old ++ [{ old with refMono := mono }]) tab mono := by
  have hMem : old.toRvSass3Key ∈ tab := (h.tab _).mpr (mem_tableKeys.mpr ⟨hId, old, hIn, rfl⟩)
  have hBack := (h.erase hIn hId).push_tl (e := { old with refMono := mono }) hId rfl
    (Finset.notMem_erase _ _)
  rwa [Finset.insert_erase hMem] at hBack

/-- The tables see the keys and the times of the last reference only. -/
theorem congr {list' : List RvSass3Entry} (h : SassOrdered list tab mono)
    (hSame : list'.map (fun e => (e.toRvSass3Key, e.refMono)) =
      list.map fun e => (e.toRvSass3Key, e.refMono)) : SassOrdered list' tab mono := by
  have hFrom : ∀ e ∈ list', ∃ x ∈ list, x.toRvSass3Key = e.toRvSass3Key ∧ x.refMono = e.refMono := by
    intro e he
    have hMem := List.mem_map_of_mem (f := fun e => (e.toRvSass3Key, e.refMono)) he
    rw [hSame] at hMem
    obtain ⟨x, hx, hEq⟩ := List.mem_map.mp hMem
    exact ⟨x, hx, Prod.mk.inj hEq⟩
  have hKeys : tableKeys list' = tableKeys list := by
    have hFst := congrArg (List.map Prod.fst) hSame
    rw [List.map_map, List.map_map] at hFst
    exact congrArg (List.filter _) hFst
  refine ⟨?_, ?_, ?_, hKeys ▸ h.once, hKeys ▸ h.tab⟩
  · let before : RvSass3Key × BitVec 32 → RvSass3Key × BitVec 32 → Prop := fun a b =>
      a.2 ≤ b.2 ∧ (b.1.subjectId = 0 → a.1.subjectId = 0)
    have hOld : (list.map fun e => (e.toRvSass3Key, e.refMono)).Pairwise before :=
      List.pairwise_map.mpr h.sorted
    exact List.pairwise_map.mp (hSame ▸ hOld)
  · intro e he
    obtain ⟨x, hx, -, hRef⟩ := hFrom e he
    exact hRef ▸ h.stamped x hx
  · intro e he hId
    obtain ⟨x, hx, hKey, hRef⟩ := hFrom e he
    rw [← hRef]
    exact h.left x hx ((congrArg RvSass3Key.subjectId hKey).trans hId)

end SassOrdered

/-! The operations on the list. -/

theorem setSass3Start_ordered {key : RvSass3Key} (h : SassOrdered db.sass3List db.sass3Tab mono) :
    SassOrdered (setSass3Start db key).sass3List db.sass3Tab mono := by
  refine h.congr ?_
  refine List.ext_getElem? fun m => ?_
  simp only [setSass3Start, List.getElem?_map, List.getElem?_modify]
  cases db.sass3List[m]? with
  | none => rfl
  | some e =>
      simp only [Option.map_eq_map, Option.map_some]
      split
      · rfl
      · rfl

theorem reapSass3_ordered (h : SassOrdered db.sass3List db.sass3Tab mono) :
    SassOrdered (reapSass3 db).sass3List (reapSass3 db).sass3Tab mono :=
  h.sublist (List.dropWhile_sublist _) fun key =>
    (h.tab key).trans (reapSass3_quiet db).keys.mem_iff.symm

theorem sass3_ordered {script : RvSubscription} {entry : RvSass3Entry}
    (h : SassOrdered db.sass3List db.sass3Tab db.curMono) (hId : script.subjectId ≠ 0)
    (hSass : sass3 env db sub script app flags = .ok (db', entry)) :
    db'.curMono = db.curMono ∧ SassOrdered db'.sass3List db'.sass3Tab db'.curMono := by
  unfold sass3 at hSass
  dsimp only at hSass
  split at hSass
  · split at hSass
    · cases hSass
    · rename_i old hFind
      have hIn := List.mem_of_find?_eq_some hFind
      have hKey : old.toRvSass3Key = sass3Key env sub script app := by
        simpa using List.find?_some hFind
      have hOld : old.subjectId ≠ 0 := by
        rwa [← sass3Key_subjectId env sub script app, ← hKey] at hId
      rw [← hKey] at hSass
      simp only [sass3Known, Except.ok.injEq] at hSass
      split at hSass
      · cases hSass
        exact ⟨rfl, h⟩
      · split at hSass
        · cases hSass
          exact ⟨rfl, (h.erase hIn hOld).push_hd rfl rfl⟩
        · cases hSass
          exact ⟨rfl, h.refresh hIn hOld⟩
  · rename_i hNew
    simp only [sass3New, Except.ok.injEq] at hSass
    split at hSass
    · cases hSass
      exact ⟨rfl, h.push_hd rfl rfl⟩
    · cases hSass
      exact ⟨rfl, h.push_tl hId rfl hNew⟩

/-- The ids that have been given out are not zero. -/
def IdsNonzero (env : Env) (n : Nat) : Prop := ∀ i, 0 < i → i ≤ n → subjectId env i ≠ 0

theorem IdsNonzero.fewer {m n : Nat} (h : IdsNonzero env n) (hLe : m ≤ n) : IdsNonzero env m :=
  fun i hPos hi => h i hPos (hi.trans hLe)

theorem sassSubject_ordered {reply fname : Text} (ids : IdsNonzero env db'.nextSubjectCtr)
    (issued : Issued env db) (h : SassOrdered db.sass3List db.sass3Tab db.curMono)
    (hSubject : sassSubject env reply app flags db fname = .ok db') :
    Issued env db' ∧ db'.curMono = db.curMono ∧
      SassOrdered db'.sass3List db'.sass3Tab db'.curMono := by
  by_cases hLong : 1 < fname.length
  · obtain ⟨script, db₂, entry, hScript, hSass, hCtr, hMono, hTab, hSubs, hCase⟩ :=
      sassSubject_cases hLong hSubject
    have hKept := getSubscription_sassKept env db fname.dropLast
    have hClock : (getSubscription env db fname.dropLast).curMono = db.curMono := by
      unfold getSubscription
      split <;> rfl
    have issued₁ := issued.getSubscription fname.dropLast
    have hSame := sass3_sameIds hSass
    have hId : script.subjectId ≠ 0 := by
      obtain ⟨n, hPos, hLe, hEq⟩ := issued₁ _ _ hScript
      rw [hEq]
      exact ids n hPos (hLe.trans_eq (hSame.ctr.symm.trans hCtr.symm))
    rw [← hKept.list, ← hKept.tab, ← hClock] at h
    obtain ⟨hStill, hOrdered⟩ := sass3_ordered h hId hSass
    have issued' : Issued env db' := by
      intro x s hs
      rw [hSubs] at hs
      rw [hCtr]
      exact (issued₁.of_sameIds hSame) x s hs
    refine ⟨issued', hMono.trans (hStill.trans hClock), ?_⟩
    rw [hMono, hTab]
    rcases hCase with ⟨-, -, hList, -⟩ | ⟨-, -, hList, -⟩ | ⟨-, hList, -⟩
    · rw [hList]
      exact hOrdered
    · rw [hList]
      exact setSass3Start_ordered hOrdered
    · rw [hList]
      exact hOrdered
  · unfold sassSubject at hSubject
    rw [if_pos (Nat.not_lt.mp hLong)] at hSubject
    cases hSubject
    exact ⟨issued, rfl, h⟩

/-- The subjects of one message. -/
theorem sassNames_ordered {reply : Text} {names : List Text}
    (ids : IdsNonzero env db'.nextSubjectCtr) (issued : Issued env db)
    (h : SassOrdered db.sass3List db.sass3Tab db.curMono)
    (hNames : names.foldlM (sassSubject env reply app flags) db = .ok db') :
    db'.curMono = db.curMono ∧ SassOrdered db'.sass3List db'.sass3Tab db'.curMono := by
  induction names generalizing db with
  | nil =>
      cases hNames
      exact ⟨rfl, h⟩
  | cons fname rest ih =>
      rw [List.foldlM_cons, bind_eq_ok] at hNames
      obtain ⟨db₁, hOne, hRest⟩ := hNames
      have hGrows : Keeps env db₁ db' :=
        foldlM_rel (Keeps.refl env) Keeps.trans (fun _ _ _ _ hOne => sassSubject_keeps hOne) hRest
      obtain ⟨issued₁, hClock, h₁⟩ := sassSubject_ordered (ids.fewer hGrows.grows) issued h hOne
      obtain ⟨hStill, h'⟩ := ih issued₁ h₁ hRest
      exact ⟨hStill.trans hClock, h'⟩

theorem sassMessage_ordered {reply : Text} {m : Fields} (ids : IdsNonzero env db'.nextSubjectCtr)
    (issued : Issued env db) (h : SassOrdered db.sass3List db.sass3Tab db.curMono)
    (hMessage : sassMessage env db reply m = .ok db') :
    SassOrdered db'.sass3List db'.sass3Tab db.curMono := by
  unfold sassMessage at hMessage
  split at hMessage
  · obtain ⟨hClock, h'⟩ := sassNames_ordered ids issued h hMessage
    rwa [hClock] at h'
  · cases hMessage
    exact h

theorem expireEntry_curMono {entry : RvSass3Entry} (h : expireEntry env db entry = .ok db') :
    db'.curMono = db.curMono := by
  unfold expireEntry at h
  dsimp only at h
  split at h
  · cases h
    rfl
  · simp only [bind_eq_ok] at h
    obtain ⟨script, -, h⟩ := h
    split at h
    · cases h
      rfl
    · split at h
      · cases h
        rfl
      · cases h

/-- A node at the head is dropped with its key; a node for the listener has no key. -/
theorem SassOrdered.pop_hd {entry : RvSass3Entry} {rest : List RvSass3Entry}
    (h : SassOrdered (entry :: rest) tab mono) :
    SassOrdered rest (tab.erase entry.toRvSass3Key) mono := by
  refine h.sublist (List.sublist_cons_self ..) fun key => ?_
  have hCons := tableKeys_cons entry rest
  rw [Finset.mem_erase, h.tab, hCons]
  by_cases hId : entry.subjectId = 0
  · rw [if_pos hId]
    refine and_iff_right_of_imp fun hKey hEq => ?_
    exact (mem_tableKeys.mp hKey).1 ((congrArg RvSass3Key.subjectId hEq).trans hId)
  · have hOnce := h.once
    rw [hCons, if_neg hId] at hOnce
    have hHead := (List.nodup_cons.mp hOnce).1
    rw [if_neg hId, List.mem_cons]
    constructor
    · rintro ⟨hNe, hKey⟩
      exact hKey.resolve_left hNe
    · exact fun hKey => ⟨fun hEq => hHead (hEq ▸ hKey), .inr hKey⟩

theorem expireSass3_ordered (h : SassOrdered list db.sass3Tab mono)
    (hLoop : expireSass3 env db list = .ok db') :
    db'.sass3List = list.dropWhile (fun e => e.expired db.curMono) ∧
      SassOrdered db'.sass3List db'.sass3Tab mono := by
  induction list generalizing db with
  | nil =>
      cases hLoop
      exact ⟨rfl, h⟩
  | cons entry rest ih =>
      unfold expireSass3 at hLoop
      split at hLoop
      · rename_i hExpired
        rw [bind_eq_ok] at hLoop
        obtain ⟨db₁, hFirst, hRest⟩ := hLoop
        have hClock := expireEntry_curMono hFirst
        have hTab := (expireEntry_frame hFirst).2.2
        obtain ⟨hList, h'⟩ := ih (hTab ▸ h.pop_hd) hRest
        rw [hClock] at hList
        refine ⟨hList.trans ?_, h'⟩
        rw [List.dropWhile_cons, if_pos hExpired]
      · rename_i hAlive
        cases hLoop
        refine ⟨?_, h⟩
        rw [List.dropWhile_cons, if_neg hAlive]

/-- The loop runs through when there is a listener. -/
theorem expireSass3_returns (hListening : env.listening = true) (db : RvSubscriptionDB)
    (list : List RvSass3Entry) : ∃ db', expireSass3 env db list = .ok db' := by
  induction list generalizing db with
  | nil => exact ⟨_, rfl⟩
  | cons entry rest ih =>
      unfold expireSass3
      split
      · have hEntry : ∃ db₁, expireEntry env db entry = .ok db₁ := by
          unfold expireEntry
          dsimp only
          split
          · exact ⟨_, rfl⟩
          · rename_i x hGet
            obtain ⟨s, hs, -, -⟩ := getSubject_eq_some hGet
            rw [subAt_eq_ok.mpr hs]
            change ∃ db₁, (if s.refcnt = 0 then _ else _) = Except.ok db₁
            split
            · exact ⟨_, rfl⟩
            · exact ⟨_, rfl⟩
        obtain ⟨db₁, hFirst⟩ := hEntry
        rw [hFirst]
        exact ih db₁
      · exact ⟨_, rfl⟩

/-- What a list in order drops from its head is all that it has. -/
theorem dropWhile_eq_filter {α : Type} {p : α → Bool} {l : List α}
    (h : l.Pairwise fun a later => p later = true → p a = true) :
    l.dropWhile p = l.filter fun a => !p a := by
  induction l with
  | nil => rfl
  | cons a rest ih =>
      obtain ⟨hHead, hRest⟩ := List.pairwise_cons.mp h
      cases hp : p a with
      | true => rw [List.dropWhile_cons_of_pos hp, List.filter_cons_of_neg (by simp [hp]), ih hRest]
      | false =>
          have hAll : ∀ b ∈ a :: rest, (!p b) = true := by
            intro b hb
            rcases List.mem_cons.mp hb with rfl | hLater
            · simp [hp]
            · cases hb : p b with
              | true => exact absurd (hHead b hLater hb) (by simp [hp])
              | false => rfl
          rw [List.dropWhile_cons_of_neg (by simp [hp]), List.filter_eq_self.mpr hAll]

/-! The steps. -/

/-- An advisory about sass3 entries is the only one that touches them. -/
theorem processPub2_cases {pub : EvPublish} (h : processPub2 env db curMono pub = .ok db') :
    SassKept db db' ∨ ∃ m db₁, sassMessage env { db with curMono := curMono } pub.reply m = .ok db₁ ∧
      db' = reapSass3 db₁ := by
  have hClock : SassKept db { db with curMono := curMono } := ⟨rfl, rfl⟩
  cases hInfo : matchRvInfo pub.subject with
  | some info =>
      cases hBody : pub.body.decoded with
      | none =>
          have hUndecoded : pub.body = .undecodable := by
            cases hPub : pub.body <;> simp_all [Body.decoded]
          unfold processPub2 at h
          rw [hInfo, hUndecoded] at h
          cases h
          exact .inl hClock
      | some m =>
          rw [processPub2_advisory hInfo hBody] at h
          by_cases hKind : info.kind = .sass
          · simp only [advisory, hKind, bind_eq_ok, pure_eq_ok] at h
            obtain ⟨hostId, -, db₁, hSass, rfl⟩ := h
            exact .inr ⟨m, db₁, hSass, rfl⟩
          · exact .inl (hClock.trans (advisory_sassKept hKind h))
  | none =>
      unfold processPub2 at h
      rw [hInfo] at h
      dsimp only at h
      split at h
      · cases h
        exact .inl (.refl db)
      · refine .inl (hClock.trans ?_)
        split at h
        · cases h
          exact .refl _
        · cases h
        · unfold queryReply at h
          split at h
          · exact hostReply_sassKept h
          · exact sessionReply_sassKept h

/-- Behind the expiry loop `process_events` leaves the list alone. -/
theorem processEvents_expires (h : processEvents env db curMono = .ok db') :
    ∃ db₁, expireSass3 env { db with curMono := curMono } db.sass3List = .ok db₁ ∧
      SassKept db₁ db' := by
  simp only [processEvents, bind_eq_ok] at h
  obtain ⟨db₁, hExpire, db₂, hPoll, h⟩ := h
  have hSoft := SassKept.of_hostsOnly (softQuery_hostsOnly db₁ db₁.softHostQuery)
  have hHosts : SassKept (softQuery db₁ db₁.softHostQuery) db₂ :=
    foldlM_rel SassKept.refl SassKept.trans (fun _ _ _ _ hOne => pollHost_sassKept hOne) hPoll
  refine ⟨db₁, hExpire, (hSoft.trans hHosts).trans ?_⟩
  split at h
  · cases h
    have hGc := gc_sassKept { db₂ with nextGc := db₂.curMono + 131 }
    exact ⟨hGc.tab, hGc.list⟩
  · cases h
    exact .refl _

/-- The clock that an input is read with. -/
def Input.clock : Input → BitVec 32 → BitVec 32
  | .pub curMono _, _ => curMono
  | .events curMono, _ => curMono
  | _, mono => mono

/-- The list stays in order as long as the clock does not go back. -/
theorem step_ordered {input : Input} (ids : IdsNonzero env db'.nextSubjectCtr)
    (issued : Issued env db) (h : SassOrdered db.sass3List db.sass3Tab mono)
    (hClock : mono ≤ input.clock mono) (hStep : step env db input = .ok db') :
    SassOrdered db'.sass3List db'.sass3Tab (input.clock mono) := by
  have hKept : ∀ {db₁}, SassKept db₁ db' → SassOrdered db₁.sass3List db₁.sass3Tab mono →
      SassOrdered db'.sass3List db'.sass3Tab (input.clock mono) := by
    intro db₁ hKept h₁
    rw [hKept.list, hKept.tab]
    exact h₁.later hClock
  cases input with
  | pub curMono pub =>
      rcases processPub2_cases hStep with hSame | ⟨m, db₁, hMessage, rfl⟩
      · exact hKept hSame h
      · have issued₀ : Issued env { db with curMono := curMono } := issued
        have h₀ : SassOrdered { db with curMono := curMono }.sass3List
            { db with curMono := curMono }.sass3Tab { db with curMono := curMono }.curMono :=
          h.later hClock
        have ids₁ : IdsNonzero env db₁.nextSubjectCtr := ids
        have h₁ := sassMessage_ordered ids₁ issued₀ h₀ hMessage
        exact reapSass3_ordered h₁
  | events curMono =>
      obtain ⟨db₁, hExpire, hSame⟩ := processEvents_expires hStep
      have h₀ : SassOrdered db.sass3List { db with curMono := curMono }.sass3Tab mono := h
      exact hKept hSame (expireSass3_ordered h₀ hExpire).2
  | sync hosts =>
      exact hKept (foldlM_rel SassKept.refl SassKept.trans
        (fun _ _ _ _ hOne => syncHost_sassKept hOne) hStep) h
  | gc =>
      cases hStep
      exact hKept (gc_sassKept db) h
  | unsubAll => exact hKept (unsubAll_sassKept hStep) h

/-- Without a listener there is nothing in the list: the first message about it would
have called the listener. -/
def Unheard (env : Env) (db : RvSubscriptionDB) : Prop := env.listening = false → db.sass3List = []

/-- A subject that is looked at ends in a call. -/
theorem sassSubject_unheard {reply fname : Text} (bits : SassBits env)
    (hNone : env.listening = false) (hTab : db.sass3Tab = ∅)
    (h : sassSubject env reply app flags db fname = .ok db') : db' = db := by
  unfold sassSubject at h
  split at h
  · cases h
    rfl
  · simp only [bind_eq_ok, subAt_eq_ok, hNone] at h
    obtain ⟨script, -, ⟨db₂, entry⟩, hSass, script₂, -, h⟩ := h
    have hNew : sass3Key env fname.dropLast script app ∉
        (getSubscription env db fname.dropLast).sass3Tab := by
      rw [(getSubscription_sassKept env db fname.dropLast).tab, hTab]
      exact Finset.notMem_empty _
    rw [sass3, if_neg hNew] at hSass
    split at h
    · rename_i hKnown
      obtain ⟨hResub, hStart⟩ := hKnown
      refine absurd ?_ hStart
      simp only [sass3New, Except.ok.injEq] at hSass
      split at hSass
      · cases hSass
        rfl
      · cases hSass
        refine if_pos ?_
        rw [hResub, BitVec.and_self]
        exact bits.resubscribe
    · cases h

theorem sassMessage_unheard {reply : Text} {m : Fields} (bits : SassBits env)
    (hNone : env.listening = false) (hTab : db.sass3Tab = ∅)
    (h : sassMessage env db reply m = .ok db') : db' = db := by
  unfold sassMessage at h
  split at h
  · rename_i names _ _ _
    clear * - bits hNone hTab h
    induction names with
    | nil =>
        cases h
        rfl
    | cons fname rest ih =>
        rw [List.foldlM_cons, bind_eq_ok] at h
        obtain ⟨db₁, hOne, hRest⟩ := h
        obtain rfl := sassSubject_unheard bits hNone hTab hOne
        exact ih hRest
  · cases h
    rfl

theorem step_unheard {input : Input} (bits : SassBits env) (h : Unheard env db)
    (hOrdered : SassOrdered db.sass3List db.sass3Tab mono) (hStep : step env db input = .ok db') :
    Unheard env db' := by
  intro hNone
  have hEmpty := h hNone
  have hTab : db.sass3Tab = ∅ := by
    refine Finset.eq_empty_of_forall_notMem fun key hKey => ?_
    rw [hOrdered.tab, hEmpty] at hKey
    exact List.not_mem_nil hKey
  have hKept : SassKept db db' → db'.sass3List = [] := fun hSame => hSame.list.trans hEmpty
  cases input with
  | pub curMono pub =>
      rcases processPub2_cases hStep with hSame | ⟨m, db₁, hMessage, rfl⟩
      · exact hKept hSame
      · have hTab₀ : { db with curMono := curMono }.sass3Tab = ∅ := hTab
        rw [sassMessage_unheard bits hNone hTab₀ hMessage]
        change db.sass3List.dropWhile _ = []
        rw [hEmpty]
        rfl
  | events curMono =>
      obtain ⟨db₁, hExpire, hSame⟩ := processEvents_expires hStep
      rw [hSame.list]
      rw [hEmpty] at hExpire
      cases hExpire
      rfl
  | sync hosts =>
      exact hKept (foldlM_rel SassKept.refl SassKept.trans
        (fun _ _ _ _ hOne => syncHost_sassKept hOne) hStep)
  | gc =>
      cases hStep
      exact hKept (gc_sassKept db)
  | unsubAll => exact hKept (unsubAll_sassKept hStep)

/-- The runs of the database in which the clock never goes back. The state keeps the
last reading of the clock. -/
def clockSystem (env : Env) : System (RvSubscriptionDB × BitVec 32) Input Output where
  init s := ∃ s2, startSubscriptions env s.2 s2 = .ok s.1
  step s input emitted t :=
    s.2 ≤ input.clock s.2 ∧ t.2 = input.clock s.2 ∧ (subscriptionDB env).step s.1 input emitted t.1

/-- The invariant, as long as the ids given out are not zero. -/
def OrderKept (env : Env) (s : RvSubscriptionDB × BitVec 32) : Prop :=
  IdsNonzero env s.1.nextSubjectCtr →
    SassOrdered s.1.sass3List s.1.sass3Tab s.2 ∧ Unheard env s.1

theorem clockSystem_ordered (bits : SassBits env) {s : RvSubscriptionDB × BitVec 32}
    (h : (clockSystem env).Reachable s) : OrderKept env s := by
  have hInv : (subscriptionDB env).Reachable s.1 ∧ OrderKept env s := by
    refine @System.Reachable.invariant _ _ _ (clockSystem env)
      (fun s => (subscriptionDB env).Reachable s.1 ∧ OrderKept env s) ?_ ?_ s h
    · rintro s ⟨s2, hStart⟩
      have hKept := startSubscriptions_sassKept hStart
      refine ⟨System.reachable_of_init ⟨_, s2, hStart⟩, fun _ => ⟨?_, fun _ => hKept.list⟩⟩
      rw [hKept.list, hKept.tab]
      exact .empty s.2
    · rintro s input emitted t ⟨hReach, inv⟩ ⟨hClock, hNow, hStep⟩
      refine ⟨hReach.step hStep, fun ids => ?_⟩
      have hGrows := step_grows hStep.1
      obtain ⟨hOrdered, hQuiet⟩ := inv (ids.fewer hGrows)
      have hIssued := reachable_issued hReach
      have issued : Issued env { s.1 with outputs := [] } := hIssued
      have hQuiet₀ : Unheard env { s.1 with outputs := [] } := hQuiet
      have hOrdered₀ : SassOrdered { s.1 with outputs := [] }.sass3List
          { s.1 with outputs := [] }.sass3Tab s.2 := hOrdered
      rw [hNow]
      exact ⟨step_ordered ids issued hOrdered₀ hClock hStep.1,
        step_unheard bits hQuiet₀ hOrdered₀ hStep.1⟩
  exact hInv.2

/-- The entries that were referenced before second 2^32 - 480 of the clock expire in the
order of the list. -/
theorem expired_iff {e : RvSass3Entry} (hRoom : e.refMono.toNat + 480 < 2 ^ 32)
    (curMono : BitVec 32) : e.expired curMono = true ↔ e.refMono.toNat + 480 < curMono.toNat := by
  have hSum : (e.refMono + 480).toNat = e.refMono.toNat + 480 := by
    rw [BitVec.toNat_add]
    exact Nat.mod_eq_of_lt hRoom
  rw [RvSass3Entry.expired, decide_eq_true_iff, BitVec.lt_def, hSum]

theorem SassOrdered.expires (h : SassOrdered list tab mono)
    (hRoom : ∀ e ∈ list, e.refMono.toNat + 480 < 2 ^ 32) (curMono : BitVec 32) :
    list.dropWhile (fun e => e.expired curMono) =
      list.filter fun e => ¬ e.refMono.toNat + 480 < curMono.toNat := by
  rw [dropWhile_eq_filter]
  · refine List.filter_congr fun e he => ?_
    rw [Bool.eq_iff_iff, Bool.not_eq_true', ← Bool.not_eq_true, expired_iff (hRoom e he),
      decide_eq_true_iff]
  · refine h.sorted.imp_of_mem ?_
    intro a b ha hb hBefore hLater
    rw [expired_iff (hRoom b hb)] at hLater
    rw [expired_iff (hRoom a ha)]
    have hLe := BitVec.le_def.mp hBefore.1
    omega

/-- Behind the nodes for the listener stand the entries of the table. -/
theorem SassOrdered.live_keys (h : SassOrdered list tab mono) :
    (list.dropWhile fun e => e.subjectId = 0).map RvSass3Entry.toRvSass3Key = tableKeys list := by
  have hSplit : list.Pairwise fun e later =>
      decide (later.subjectId = 0) = true → decide (e.subjectId = 0) = true :=
    h.sorted.imp fun hBefore hLater => decide_eq_true (hBefore.2 (of_decide_eq_true hLater))
  rw [dropWhile_eq_filter hSplit, tableKeys, List.filter_map]
  congr 1
  refine List.filter_congr fun e _ => ?_
  simp

/-- In every state that is reached while the clock does not go back the list is nodes
for the listener and then the entries of the table in the order of their last
reference. The expiry loop removes what is due, as long as the time of each entry
leaves room for the 480 seconds. -/
theorem sass3_list_ordered (env : Env) (bits : SassBits env) (db : RvSubscriptionDB)
    (mono : BitVec 32) (hReach : (clockSystem env).Reachable (db, mono))
    (ids : IdsNonzero env db.nextSubjectCtr) :
    (∃ tombs live, db.sass3List = tombs ++ live ∧
      (∀ e ∈ tombs, e.refMono = 0 ∧ e.subjectId = 0 ∧ e.toRvSass3Key ∉ db.sass3Tab) ∧
      live.Pairwise (fun e later => e.refMono ≤ later.refMono) ∧
      (live.map RvSass3Entry.toRvSass3Key).Nodup ∧
      ∀ key, key ∈ db.sass3Tab ↔ key ∈ live.map RvSass3Entry.toRvSass3Key) ∧
    ((∀ e ∈ db.sass3List, e.refMono.toNat + 480 < 2 ^ 32) → ∀ curMono,
      ∃ db₁, expireSass3 env { db with curMono := curMono, outputs := [] } db.sass3List = .ok db₁ ∧
        db₁.sass3List =
          db.sass3List.filter (fun e => ¬ e.refMono.toNat + 480 < curMono.toNat) ∧
        (∀ key, key ∈ db₁.sass3Tab ↔
          key.subjectId ≠ 0 ∧ ∃ e ∈ db₁.sass3List, e.toRvSass3Key = key) ∧
        ∀ db', processEvents env { db with outputs := [] } curMono = .ok db' →
          db'.sass3List = db₁.sass3List ∧ db'.sass3Tab = db₁.sass3Tab) := by
  obtain ⟨hOrdered, hQuiet⟩ := clockSystem_ordered bits hReach ids
  refine ⟨?_, ?_⟩
  · refine ⟨db.sass3List.takeWhile (fun e => e.subjectId = 0),
      db.sass3List.dropWhile (fun e => e.subjectId = 0),
      (List.takeWhile_append_dropWhile).symm, ?_, ?_, ?_, ?_⟩
    · intro e he
      have hTaken := List.mem_takeWhile_imp he
      have hId : e.subjectId = 0 := of_decide_eq_true hTaken
      have hIn := (List.takeWhile_sublist _).subset he
      refine ⟨hOrdered.left e hIn hId, hId, fun hMem => ?_⟩
      exact (mem_tableKeys.mp ((hOrdered.tab _).mp hMem)).1 hId
    · exact (hOrdered.sorted.sublist (List.dropWhile_sublist _)).imp fun hBefore => hBefore.1
    · rw [hOrdered.live_keys]
      exact hOrdered.once
    · rw [hOrdered.live_keys]
      exact hOrdered.tab
  · intro hRoom curMono
    have hLoop : ∃ db₁,
        expireSass3 env { db with curMono := curMono, outputs := [] } db.sass3List = .ok db₁ := by
      cases hListening : env.listening with
      | true => exact expireSass3_returns hListening _ _
      | false =>
          rw [hQuiet hListening]
          exact ⟨_, rfl⟩
    obtain ⟨db₁, hLoop⟩ := hLoop
    have hOrdered₀ : SassOrdered db.sass3List
        { db with curMono := curMono, outputs := [] }.sass3Tab mono := hOrdered
    obtain ⟨hList, hAfter⟩ := expireSass3_ordered hOrdered₀ hLoop
    refine ⟨db₁, hLoop, hList.trans (hOrdered.expires hRoom curMono), ?_, ?_⟩
    · exact fun key => (hAfter.tab key).trans mem_tableKeys
    · intro db' hEvents
      obtain ⟨db₂, hSame, hKept⟩ := processEvents_expires hEvents
      cases hLoop.symm.trans hSame
      exact ⟨hKept.list, hKept.tab⟩

def expirySass (user : String) : EvPublish where
  subject := text "_SASS.AB"
  body := .fields
    { t := some (some 8), a := some (some { user := text user }), s := some [text "A.B" ++ [0]] }

/-- The state that a message at the time leads to. -/
def afterSass (db : RvSubscriptionDB) (curMono : BitVec 32) (user : String) : RvSubscriptionDB :=
  (step sampleEnv { db with outputs := [] } (.pub curMono (expirySass user))).toOption.getD {}

theorem afterSass_reachable {db : RvSubscriptionDB} {mono curMono : BitVec 32} {user : String}
    (h : (clockSystem sampleEnv).Reachable (db, mono)) (hClock : mono ≤ curMono)
    (hOk : (step sampleEnv { db with outputs := [] }
      (.pub curMono (expirySass user))).toOption.isSome) :
    (clockSystem sampleEnv).Reachable (afterSass db curMono user, curMono) := by
  have hStep : (clockSystem sampleEnv).step (db, mono) (.pub curMono (expirySass user))
      (afterSass db curMono user).outputs (afterSass db curMono user, curMono) :=
    ⟨hClock, rfl, eq_ok_of_isSome hOk {}, rfl⟩
  exact h.step hStep

def lateDB : RvSubscriptionDB := { curMono := 4294966815, nextGc := 4294966946 }

theorem lateDB_reachable : (clockSystem sampleEnv).Reachable (lateDB, 4294966815) :=
  System.reachable_of_init ⟨false, rfl⟩

/-- The entries of seconds 2^32 - 481 and 2^32 - 480: at the next second the sum of the
second one has wrapped and it is due, but the first one stands before it. Alone it is
removed at once. -/
theorem sass3_expiry_wraps :
    let db := afterSass (afterSass lateDB 4294966815 "U") 4294966816 "V"
    let one := afterSass lateDB 4294966816 "V"
    (clockSystem sampleEnv).Reachable (db, 4294966816) ∧
    (processEvents sampleEnv { db with outputs := [] } 4294966817).map
      (fun db => db.sass3List.map fun e => (e.refMono, e.expired 4294966817)) =
        .ok [(4294966815, false), (4294966816, true)] ∧
    (clockSystem sampleEnv).Reachable (one, 4294966816) ∧
    one.sass3List.map RvSass3Entry.refMono = [4294966816] ∧
    (processEvents sampleEnv { one with outputs := [] } 4294966816).map
      RvSubscriptionDB.sass3List = .ok [] := by
  have hFirst : (clockSystem sampleEnv).Reachable (afterSass lateDB 4294966815 "U", 4294966815) :=
    afterSass_reachable lateDB_reachable (BitVec.le_refl _) (by decide +kernel)
  refine ⟨afterSass_reachable hFirst (by decide) (by decide +kernel), by decide +kernel,
    afterSass_reachable lateDB_reachable (by decide) (by decide +kernel), by decide +kernel,
    by decide +kernel⟩

theorem sass3_list_ordered_expires :
    ∃ db₁, expireSass3 sampleEnv { afterSass { nextGc := 131 } 5 "U" with
        curMono := 486, outputs := [] } (afterSass { nextGc := 131 } 5 "U").sass3List = .ok db₁ ∧
      db₁.sass3List = [] := by
  have hStart : (clockSystem sampleEnv).Reachable ({ nextGc := 131 }, 0) :=
    System.reachable_of_init ⟨false, rfl⟩
  have hReach : (clockSystem sampleEnv).Reachable (afterSass { nextGc := 131 } 5 "U", 5) :=
    afterSass_reachable hStart (by decide) (by decide +kernel)
  have ids : IdsNonzero sampleEnv (afterSass { nextGc := 131 } 5 "U").nextSubjectCtr := by
    have hCtr : (afterSass { nextGc := 131 } 5 "U").nextSubjectCtr = 1 := by decide +kernel
    rw [hCtr]
    exact fun i hPos hi => sampleIds.nonzero i hPos (hi.trans (by decide))
  have hRoom : ∀ e ∈ (afterSass { nextGc := 131 } 5 "U").sass3List,
      e.refMono.toNat + 480 < 2 ^ 32 := by decide +kernel
  obtain ⟨db₁, hLoop, hList, -⟩ := (sass3_list_ordered sampleEnv sampleBits _ 5 hReach ids).2 hRoom 486
  exact ⟨db₁, hLoop, hList.trans (by decide +kernel)⟩

end Sassrv.SubMgr
