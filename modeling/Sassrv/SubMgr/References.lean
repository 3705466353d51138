import Mathlib.Data.BitVec
import Mathlib.Data.Finset.Card
import Sassrv.Lib.Partial
import Sassrv.SubMgr.Sessions

/-! Who refers to a subscription: sessions, through their tables of subject ids, and
the keys of `sass3_tab`. The invariant `Referenced` ties `refcnt` to these two
counts, and says that what is referred to is in `sub_tab`. -/
namespace Sassrv.SubMgr

def RvSessionEntry.holds (s : RvSessionEntry) (id : BitVec 32) : Bool :=
  s.subHt.any fun ht => ht.contains id

/-- The sessions with a table that contains the subject id. -/
def RvSubscriptionDB.holders (db : RvSubscriptionDB) (id : BitVec 32) : Nat :=
  db.sessionTab.entries.countP fun e => e.2.holds id

/-- The entries of `sass3_tab` with the subject id. -/
def RvSubscriptionDB.sassHolders (db : RvSubscriptionDB) (id : BitVec 32) : Nat :=
  (db.sass3Tab.filter fun key => key.subjectId = id).card

def RvSubscriptionDB.refs (db : RvSubscriptionDB) (id : BitVec 32) : Nat :=
  db.holders id + db.sassHolders id

/-- The first `n` subject ids are distinct and non-zero. -/
structure SubjectIds (env : Env) (n : Nat) : Prop where
  nonzero : ∀ i, 0 < i → i ≤ n → subjectId env i ≠ 0
  distinct : ∀ i j, 0 < i → i ≤ n → 0 < j → j ≤ n → subjectId env i = subjectId env j → i = j

theorem SubjectIds.mono {env : Env} {m n : Nat} (h : SubjectIds env n) (hle : m ≤ n) :
    SubjectIds env m where
  nonzero i hPos hi := h.nonzero i hPos (hi.trans hle)
  distinct i j hi hin hj hjn := h.distinct i j hi (hin.trans hle) hj (hjn.trans hle)

/-- An id with its hash leads to a subscription of `sub_tab`. -/
def Resolves (env : Env) (subTab : Table Text RvSubscription) (id hash : BitVec 32) : Prop :=
  ∃ sub s, subTab.find? sub = some s ∧ s.subjectId = id ∧ env.crcC sub 0 = hash

/-- The nodes of `sass3_list` that are in the table: the others have no subject id. -/
def tableKeys (list : List RvSass3Entry) : List RvSass3Key :=
  (list.map RvSass3Entry.toRvSass3Key).filter fun key => key.subjectId ≠ 0

def RvSubscriptionDB.sass3Keys (db : RvSubscriptionDB) : List RvSass3Key := tableKeys db.sass3List

structure Referenced (env : Env) (db : RvSubscriptionDB) : Prop where
  issued : ∀ sub s, db.subTab.find? sub = some s →
    ∃ n, 0 < n ∧ n ≤ db.nextSubjectCtr ∧ s.subjectId = subjectId env n
  distinct : ∀ sub s sub' s', db.subTab.find? sub = some s → db.subTab.find? sub' = some s' →
    s.subjectId = s'.subjectId → sub = sub'
  held : ∀ name sess ht id hash, db.sessionTab.find? name = some sess → sess.subHt = some ht →
    ht.find? id = some hash → Resolves env db.subTab id hash
  stopped : ∀ name sess, db.sessionTab.find? name = some sess → sess.state = .stop →
    sess.subHt = none
  located : ∀ key ∈ db.sass3Tab, Resolves env db.subTab key.subjectId key.subjHash
  listed : ∀ key ∈ db.sass3Keys, key ∈ db.sass3Tab
  once : db.sass3Keys.Nodup
  counted : ∀ sub s, db.subTab.find? sub = some s →
    s.refcnt = BitVec.ofNat 31 (db.refs s.subjectId)

/-- A step in which each `refcnt` moves by as much as the references to its id. -/
structure Moves (env : Env) (db db' : RvSubscriptionDB) : Prop where
  ctr : db'.nextSubjectCtr = db.nextSubjectCtr
  ids : ∀ sub, (db'.subTab.find? sub).map RvSubscription.subjectId =
    (db.subTab.find? sub).map RvSubscription.subjectId
  follows : ∀ sub s s', db.subTab.find? sub = some s → db'.subTab.find? sub = some s' →
    s'.refcnt + BitVec.ofNat 31 (db.refs s.subjectId) =
      s.refcnt + BitVec.ofNat 31 (db'.refs s.subjectId)
  held : ∀ name sess ht id hash, db'.sessionTab.find? name = some sess → sess.subHt = some ht →
    ht.find? id = some hash → Resolves env db.subTab id hash
  stopped : ∀ name sess, db'.sessionTab.find? name = some sess → sess.state = .stop →
    sess.subHt = none
  located : ∀ key ∈ db'.sass3Tab, Resolves env db.subTab key.subjectId key.subjHash
  listed : ∀ key ∈ db'.sass3Keys, key ∈ db'.sass3Tab
  once : db'.sass3Keys.Nodup

theorem exists_sub_of_ids {t t' : Table Text RvSubscription}
    (h : ∀ sub, (t'.find? sub).map RvSubscription.subjectId =
      (t.find? sub).map RvSubscription.subjectId) {sub : Text}
    {s' : RvSubscription} (hFind : t'.find? sub = some s') :
    ∃ s, t.find? sub = some s ∧ s.subjectId = s'.subjectId := by
  have hSame := h sub
  rw [hFind, Option.map_some] at hSame
  exact Option.map_eq_some_iff.mp hSame.symm

theorem Resolves.of_subs {env : Env} {t t' : Table Text RvSubscription} {id hash : BitVec 32}
    (hSubs : ∀ sub s, t.find? sub = some s → ∃ s', t'.find? sub = some s' ∧
      s'.subjectId = s.subjectId) (h : Resolves env t id hash) : Resolves env t' id hash := by
  obtain ⟨sub, s, hFind, hId, hHash⟩ := h
  obtain ⟨s', hFind', hId'⟩ := hSubs sub s hFind
  exact ⟨sub, s', hFind', hId'.trans hId, hHash⟩

theorem Resolves.of_ids {env : Env} {t t' : Table Text RvSubscription} {id hash : BitVec 32}
    (hIds : ∀ sub, (t'.find? sub).map RvSubscription.subjectId =
      (t.find? sub).map RvSubscription.subjectId)
    (h : Resolves env t id hash) : Resolves env t' id hash :=
  h.of_subs fun _ _ hFind => exists_sub_of_ids (fun sub => (hIds sub).symm) hFind

theorem Referenced.moved {env : Env} {db db' : RvSubscriptionDB} (inv : Referenced env db)
    (h : Moves env db db') : Referenced env db' where
  issued sub s' hFind := by
    obtain ⟨s, hs, hId⟩ := exists_sub_of_ids h.ids hFind
    rw [← hId, h.ctr]
    exact inv.issued sub s hs
  distinct sub s' sub' t' hFind hFind' hEq := by
    obtain ⟨s, hs, hId⟩ := exists_sub_of_ids h.ids hFind
    obtain ⟨t, ht, hId'⟩ := exists_sub_of_ids h.ids hFind'
    exact inv.distinct sub s sub' t hs ht (by rw [hId, hId', hEq])
  held name sess ht id hash hFind hHt hMem :=
    (h.held name sess ht id hash hFind hHt hMem).of_ids h.ids
  stopped := h.stopped
  located key hKey := (h.located key hKey).of_ids h.ids
  listed := h.listed
  once := h.once
  counted sub s' hFind := by
    obtain ⟨s, hs, hId⟩ := exists_sub_of_ids h.ids hFind
    have hMove := h.follows sub s s' hs hFind
    rw [inv.counted sub s hs, add_comm] at hMove
    rw [← hId]
    exact add_left_cancel hMove

/-- Two states with the same holders. Only the state of a session may differ, and a
session that was not stopped is not stopped. -/
structure Calm (db db' : RvSubscriptionDB) : Prop where
  held : db'.sessionTab.map RvSessionEntry.subHt = db.sessionTab.map RvSessionEntry.subHt
  stopped : ∀ name s', db'.sessionTab.find? name = some s' → s'.state = .stop →
    ∃ s, db.sessionTab.find? name = some s ∧ s.state = .stop
  tab : db'.sass3Tab = db.sass3Tab
  keys : db'.sass3Keys.Perm db.sass3Keys
  ctr : db'.nextSubjectCtr = db.nextSubjectCtr

namespace Calm
variable {db db' : RvSubscriptionDB}

theorem refl (db : RvSubscriptionDB) : Calm db db where
  held := rfl
  stopped _ s' h hStop := ⟨s', h, hStop⟩
  tab := rfl
  keys := .refl _
  ctr := rfl

theorem trans {a b c : RvSubscriptionDB} (h : Calm a b) (h' : Calm b c) : Calm a c where
  held := h'.held.trans h.held
  stopped name s' hFind hStop := by
    obtain ⟨s, hs, hsStop⟩ := h'.stopped name s' hFind hStop
    exact h.stopped name s hs hsStop
  tab := h'.tab.trans h.tab
  keys := h'.keys.trans h.keys
  ctr := h'.ctr.trans h.ctr

theorem of_eq (hSession : db'.sessionTab = db.sessionTab) (hTab : db'.sass3Tab = db.sass3Tab)
    (hList : db'.sass3List = db.sass3List) (hCtr : db'.nextSubjectCtr = db.nextSubjectCtr) :
    Calm db db' where
  held := by rw [hSession]
  stopped name s' h hStop := ⟨s', hSession ▸ h, hStop⟩
  tab := hTab
  keys := by simp only [RvSubscriptionDB.sass3Keys, hList, List.Perm.refl]
  ctr := hCtr

theorem modifySession (db : RvSubscriptionDB) (name : Text)
    {f : RvSessionEntry → RvSessionEntry} (hHt : ∀ s, (f s).subHt = s.subHt)
    (hState : ∀ s, (f s).state = .stop → s.state = .stop) : Calm db (db.modifySession name f) where
  held := Table.map_modify fun s _ => hHt s
  stopped x s' h hStop := by
    simp only [RvSubscriptionDB.modifySession, Table.find?_modify, Option.map_eq_some_iff] at h
    obtain ⟨s, hFind, rfl⟩ := h
    refine ⟨s, hFind, ?_⟩
    split at hStop
    · exact hState s hStop
    · exact hStop
  tab := rfl
  keys := .refl _
  ctr := rfl

theorem holders (h : Calm db db') (id : BitVec 32) : db'.holders id = db.holders id := by
  have hCount : ∀ t : Table Text RvSessionEntry,
      t.entries.countP (fun e => e.2.holds id) =
        (t.map RvSessionEntry.subHt).entries.countP fun e => e.2.any fun ht => ht.contains id := by
    intro t
    simp [Table.map, List.countP_map, Function.comp_def, RvSessionEntry.holds]
  simp only [RvSubscriptionDB.holders, hCount, h.held]

theorem refs (h : Calm db db') (id : BitVec 32) : db'.refs id = db.refs id := by
  simp only [RvSubscriptionDB.refs, RvSubscriptionDB.sassHolders, h.holders, h.tab]

theorem session (h : Calm db db') {name : Text} {s' : RvSessionEntry}
    (hFind : db'.sessionTab.find? name = some s') :
    ∃ s, db.sessionTab.find? name = some s ∧ s.subHt = s'.subHt := by
  have hSame := congrArg (fun t => t.find? name) h.held
  simp only [Table.find?_map, hFind, Option.map_some] at hSame
  exact Option.map_eq_some_iff.mp hSame.symm

theorem heldAt {env : Env} (h : Calm db db') (inv : Referenced env db) {name : Text}
    {s' : RvSessionEntry} {ht : UIntHashTab} {id hash : BitVec 32}
    (hFind : db'.sessionTab.find? name = some s') (hHt : s'.subHt = some ht)
    (hMem : ht.find? id = some hash) : Resolves env db.subTab id hash := by
  obtain ⟨s, hs, hEq⟩ := h.session hFind
  exact inv.held name s ht id hash hs (hEq.trans hHt) hMem

theorem stoppedAt {env : Env} (h : Calm db db') (inv : Referenced env db) {name : Text}
    {s' : RvSessionEntry} (hFind : db'.sessionTab.find? name = some s')
    (hStop : s'.state = .stop) : s'.subHt = none := by
  obtain ⟨s, hs, hsStop⟩ := h.stopped name s' hFind hStop
  obtain ⟨t, ht, hEq⟩ := h.session hFind
  cases hs.symm.trans ht
  exact hEq.symm.trans (inv.stopped name s hs hsStop)

theorem listedAt {env : Env} (h : Calm db db') (inv : Referenced env db) :
    ∀ key ∈ db'.sass3Keys, key ∈ db'.sass3Tab := by
  intro key hKey
  rw [h.tab]
  exact inv.listed key (h.keys.mem_iff.mp hKey)

end Calm

/-- Two states in which the same ids are held and counted. -/
structure Quiet (db db' : RvSubscriptionDB) : Prop extends Calm db db' where
  subs : db'.subTab.map (fun s => (s.subjectId, s.refcnt)) =
    db.subTab.map fun s => (s.subjectId, s.refcnt)

namespace Quiet
variable {db db' : RvSubscriptionDB}

theorem refl (db : RvSubscriptionDB) : Quiet db db :=
  ⟨.refl db, rfl⟩

theorem trans {a b c : RvSubscriptionDB} (h : Quiet a b) (h' : Quiet b c) : Quiet a c :=
  ⟨h.toCalm.trans h'.toCalm, h'.subs.trans h.subs⟩

/-- A state with the same subscriptions, sessions and sass3 entries is quiet. -/
theorem of_eq (hSub : db'.subTab = db.subTab)
    (hSession : db'.sessionTab = db.sessionTab) (hTab : db'.sass3Tab = db.sass3Tab)
    (hList : db'.sass3List = db.sass3List) (hCtr : db'.nextSubjectCtr = db.nextSubjectCtr) :
    Quiet db db' :=
  ⟨.of_eq hSession hTab hList hCtr, by rw [hSub]⟩

theorem modifySession (db : RvSubscriptionDB) (name : Text)
    {f : RvSessionEntry → RvSessionEntry} (hHt : ∀ s, (f s).subHt = s.subHt)
    (hState : ∀ s, (f s).state = .stop → s.state = .stop) : Quiet db (db.modifySession name f) :=
  ⟨.modifySession db name hHt hState, rfl⟩

theorem modifySub (db : RvSubscriptionDB) (sub : Text) {f : RvSubscription → RvSubscription}
    (hf : ∀ s, (f s).subjectId = s.subjectId ∧ (f s).refcnt = s.refcnt) :
    Quiet db (db.modifySub sub f) where
  toCalm := .of_eq rfl rfl rfl rfl
  subs := Table.map_modify fun s _ => Prod.ext (hf s).1 (hf s).2

theorem moves {env : Env} (h : Quiet db db') (inv : Referenced env db) : Moves env db db' where
  ctr := h.ctr
  ids sub := by
    have hSame := congrArg (fun t => (t.find? sub).map Prod.fst) h.subs
    simpa [Table.find?_map, Function.comp_def] using hSame
  follows sub s s' hs hs' := by
    have hSame := congrArg (fun t => t.find? sub) h.subs
    simp only [Table.find?_map, hs, hs', Option.map_some, Option.some.injEq,
      Prod.mk.injEq] at hSame
    rw [h.refs, hSame.2]
  held name s' ht id hash hFind hHt hMem := h.heldAt inv hFind hHt hMem
  stopped name s' hFind hStop := h.stoppedAt inv hFind hStop
  located key hKey := inv.located key (h.tab ▸ hKey)
  listed := h.listedAt inv
  once := h.keys.nodup_iff.mpr inv.once

end Quiet

/-- What an operation does to the invariant: ids are issued in order, and the
invariant is kept as long as they are distinct and not zero. -/
structure Keeps (env : Env) (db db' : RvSubscriptionDB) : Prop where
  grows : db.nextSubjectCtr ≤ db'.nextSubjectCtr
  keeps : SubjectIds env db'.nextSubjectCtr → Referenced env db → Referenced env db'

theorem Keeps.refl (env : Env) (db : RvSubscriptionDB) : Keeps env db db :=
  ⟨le_rfl, fun _ inv => inv⟩

theorem Keeps.trans {env : Env} {a b c : RvSubscriptionDB} (h : Keeps env a b)
    (h' : Keeps env b c) : Keeps env a c :=
  ⟨h.grows.trans h'.grows, fun ids inv => h'.keeps ids (h.keeps (ids.mono h'.grows) inv)⟩

/-- An operation that issues no id and moves references. -/
theorem Keeps.of_moves {env : Env} {db db' : RvSubscriptionDB}
    (hCtr : db'.nextSubjectCtr = db.nextSubjectCtr)
    (h : SubjectIds env db.nextSubjectCtr → Referenced env db → Moves env db db') :
    Keeps env db db' :=
  ⟨hCtr.ge, fun ids inv => inv.moved (h (hCtr ▸ ids) inv)⟩

theorem Quiet.keeps {env : Env} {db db' : RvSubscriptionDB} (h : Quiet db db') :
    Keeps env db db' :=
  .of_moves h.ctr fun _ inv => h.moves inv

end Sassrv.SubMgr
