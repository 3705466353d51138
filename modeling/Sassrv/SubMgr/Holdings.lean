import Sassrv.SubMgr.BulkRemoval

/-! What the sessions hold, over the turns of a run. The tables of subject ids and the
ids of the subjects say all of it; a turn changes one table, or enters a subject, or
leaves them as they are. -/
namespace Sassrv.SubMgr
open Partial

namespace RvSubscriptionDB

/-- The table of a session, if it has one. -/
def tableOf (db : RvSubscriptionDB) (name : Text) : Option UIntHashTab :=
  (db.sessionTab.find? name).bind RvSessionEntry.subHt

def idOf (db : RvSubscriptionDB) (sub : Text) : Option (BitVec 32) :=
  (db.subTab.find? sub).map RvSubscription.subjectId

def StoppedAt (db : RvSubscriptionDB) (name : Text) : Prop :=
  ∃ s, db.sessionTab.find? name = some s ∧ s.state = .stop

end RvSubscriptionDB

variable {env : Env} {P : RvSubscriptionDB → Call → Prop} {db db' : RvSubscriptionDB} {i : Nat}
  {name sub x y : Text}

theorem holds_iff_tables : db.Holds x y ↔ ∃ ht id, db.tableOf x = some ht ∧ db.idOf y = some id ∧
    ht.contains id = true := by
  constructor
  · rintro ⟨sess, script, hSess, hScript, hHolds⟩
    obtain ⟨ht, hash, hHt, hFind⟩ := holds_iff.mp hHolds
    refine ⟨ht, script.subjectId, by simp [RvSubscriptionDB.tableOf, hSess, hHt],
      by simp [RvSubscriptionDB.idOf, hScript], Table.contains_iff.mpr ⟨hash, hFind⟩⟩
  · rintro ⟨ht, id, hTable, hId, hMem⟩
    obtain ⟨sess, hSess, hHt⟩ := Option.bind_eq_some_iff.mp hTable
    obtain ⟨script, hScript, rfl⟩ := Option.map_eq_some_iff.mp hId
    exact ⟨sess, script, hSess, hScript, by simp [RvSessionEntry.holds, hHt, hMem]⟩

/-- The same tables and ids. -/
structure HoldingsKept (db db' : RvSubscriptionDB) : Prop where
  tables : db'.tableOf = db.tableOf
  ids : db'.idOf = db.idOf
  ctr : db'.nextSubjectCtr = db.nextSubjectCtr
  stopped : ∀ x, db'.StoppedAt x → db.StoppedAt x

namespace HoldingsKept

theorem refl (db : RvSubscriptionDB) : HoldingsKept db db := ⟨rfl, rfl, rfl, fun _ h => h⟩

theorem trans {a b c : RvSubscriptionDB} (h : HoldingsKept a b) (h' : HoldingsKept b c) :
    HoldingsKept a c :=
  ⟨h'.tables.trans h.tables, h'.ids.trans h.ids, h'.ctr.trans h.ctr,
    fun x hx => h.stopped x (h'.stopped x hx)⟩

theorem of_eq (hSess : db'.sessionTab = db.sessionTab) (hSub : db'.subTab = db.subTab)
    (hCtr : db'.nextSubjectCtr = db.nextSubjectCtr) : HoldingsKept db db' := by
  refine ⟨?_, ?_, hCtr, ?_⟩
  · unfold RvSubscriptionDB.tableOf
    rw [hSess]
  · unfold RvSubscriptionDB.idOf
    rw [hSub]
  · unfold RvSubscriptionDB.StoppedAt
    rw [hSess]
    exact fun _ h => h

theorem of_calm (h : Calm db db') (hIds : db'.idOf = db.idOf) : HoldingsKept db db' := by
  refine ⟨?_, hIds, h.ctr, ?_⟩
  · funext x
    have hSame := congrArg (fun t => (t.find? x).bind id) h.held
    simp only [Table.find?_map, Option.bind_map] at hSame
    exact hSame
  · rintro x ⟨s', hs', hStop⟩
    exact h.stopped x s' hs' hStop

theorem of_quiet (h : Quiet db db') : HoldingsKept db db' := by
  refine .of_calm h.toCalm ?_
  funext x
  have hSame := congrArg (fun t => (t.find? x).map Prod.fst) h.subs
  simpa [RvSubscriptionDB.idOf, Function.comp_def] using hSame

theorem holds (h : HoldingsKept db db') : db'.Holds x y ↔ db.Holds x y := by
  rw [holds_iff_tables, holds_iff_tables, h.tables, h.ids]

end HoldingsKept

theorem idOf_modifySub (db : RvSubscriptionDB) (sub : Text) {f : RvSubscription → RvSubscription}
    (hId : ∀ s, (f s).subjectId = s.subjectId) : (db.modifySub sub f).idOf = db.idOf := by
  funext z
  simp only [RvSubscriptionDB.idOf, RvSubscriptionDB.modifySub, Table.find?_modify, Option.map_map]
  congr 1
  funext s
  by_cases hz : z = sub <;> simp [hz, hId]

theorem modifySub_kept (db : RvSubscriptionDB) (sub : Text) {f : RvSubscription → RvSubscription}
    (hId : ∀ s, (f s).subjectId = s.subjectId) : HoldingsKept db (db.modifySub sub f) :=
  ⟨rfl, idOf_modifySub db sub hId, rfl, fun _ h => h⟩

/-- What is held resolves to a subject, and no two subjects have one id. -/
structure Linked (env : Env) (db : RvSubscriptionDB) : Prop where
  issued : ∀ sub id, db.idOf sub = some id →
    ∃ n, 0 < n ∧ n ≤ db.nextSubjectCtr ∧ id = subjectId env n
  distinct : ∀ sub sub' id, db.idOf sub = some id → db.idOf sub' = some id → sub = sub'
  held : ∀ name ht id hash, db.tableOf name = some ht → ht.find? id = some hash →
    ∃ sub, db.idOf sub = some id ∧ env.crcC sub 0 = hash
  stopped : ∀ name, db.StoppedAt name → db.tableOf name = none

namespace Linked

theorem of_kept (linked : Linked env db) (h : HoldingsKept db db') : Linked env db' where
  issued := by
    rw [h.ids, h.ctr]
    exact linked.issued
  distinct := by
    rw [h.ids]
    exact linked.distinct
  held := by
    rw [h.tables, h.ids]
    exact linked.held
  stopped name hStop := by
    rw [h.tables]
    exact linked.stopped name (h.stopped name hStop)

/-- A subject is entered under the next id. -/
theorem enterSub (linked : Linked env db) (ids : SubjectIds env (db.nextSubjectCtr + 1))
    (hFresh : db.idOf sub = none) (hTables : db'.tableOf = db.tableOf)
    (hStopped : ∀ x, db'.StoppedAt x → db.StoppedAt x)
    (hCtr : db'.nextSubjectCtr = db.nextSubjectCtr + 1)
    (hIds : ∀ x, db'.idOf x =
      if x = sub then some (subjectId env (db.nextSubjectCtr + 1)) else db.idOf x) :
    Linked env db' ∧ ∀ x y, db'.Holds x y ↔ db.Holds x y := by
  have hNew : ∀ x, db.idOf x ≠ some (subjectId env (db.nextSubjectCtr + 1)) := by
    intro x hx
    obtain ⟨n, hPos, hLe, hEq⟩ := linked.issued x _ hx
    have hSame := ids.distinct n (db.nextSubjectCtr + 1) hPos (Nat.le_succ_of_le hLe)
      (Nat.succ_pos _) le_rfl hEq.symm
    omega
  have hOld : ∀ x id, db.idOf x = some id → db'.idOf x = some id := by
    intro x id hx
    have hNe : x ≠ sub := by
      rintro rfl
      rw [hFresh] at hx
      cases hx
    rw [hIds, if_neg hNe, hx]
  refine ⟨⟨?_, ?_, ?_, ?_⟩, ?_⟩
  · intro x id hx
    rw [hIds] at hx
    split at hx
    · cases hx
      exact ⟨db.nextSubjectCtr + 1, Nat.succ_pos _, hCtr.ge, rfl⟩
    · obtain ⟨n, hPos, hLe, hEq⟩ := linked.issued x id hx
      exact ⟨n, hPos, by omega, hEq⟩
  · intro x z id hx hz
    rw [hIds] at hx hz
    split at hx <;> split at hz
    · next hxs hzs => exact hxs.trans hzs.symm
    · exact absurd (hz.trans hx.symm) (by rw [hx]; exact hx ▸ hNew z)
    · exact absurd (hx.trans hz.symm) (by rw [hz]; exact hz ▸ hNew x)
    · exact linked.distinct x z id hx hz
  · intro x ht id hash hTable hFind
    rw [hTables] at hTable
    obtain ⟨z, hz, hCrc⟩ := linked.held x ht id hash hTable hFind
    exact ⟨z, hOld z id hz, hCrc⟩
  · intro x hx
    rw [hTables]
    exact linked.stopped x (hStopped x hx)
  · intro x y
    rw [holds_iff_tables, holds_iff_tables, hTables]
    constructor
    · rintro ⟨ht, id, hTable, hId, hMem⟩
      rw [hIds] at hId
      split at hId
      · cases hId
        obtain ⟨hash, hFind⟩ := Table.contains_iff.mp hMem
        obtain ⟨z, hz, -⟩ := linked.held x ht _ hash hTable hFind
        exact absurd hz (hNew z)
      · exact ⟨ht, id, hTable, hId, hMem⟩
    · rintro ⟨ht, id, hTable, hId, hMem⟩
      exact ⟨ht, id, hTable, hOld y id hId, hMem⟩

/-- The table of one session is changed. -/
theorem setTable (linked : Linked env db) {table : Option UIntHashTab}
    (hTables : ∀ x, db'.tableOf x = if x = name then table else db.tableOf x)
    (hIds : db'.idOf = db.idOf) (hCtr : db'.nextSubjectCtr = db.nextSubjectCtr)
    (hStopped : ∀ x, x ≠ name → db'.StoppedAt x → db.StoppedAt x)
    (hSelf : db'.StoppedAt name → table = none)
    (hHeld : ∀ ht id hash, table = some ht → ht.find? id = some hash →
      ∃ sub, db.idOf sub = some id ∧ env.crcC sub 0 = hash) : Linked env db' where
  issued := by
    rw [hIds, hCtr]
    exact linked.issued
  distinct := by
    rw [hIds]
    exact linked.distinct
  held x ht id hash hTable hFind := by
    rw [hIds]
    rw [hTables] at hTable
    split at hTable
    · exact hHeld ht id hash hTable hFind
    · exact linked.held x ht id hash hTable hFind
  stopped x hx := by
    rw [hTables]
    split
    · next hName =>
        subst hName
        exact hSelf hx
    · next hName => exact linked.stopped x (hStopped x hName hx)

/-- The loops over the subjects of a session reach all of them, each once. -/
theorem mem_subjects (linked : Linked env db) {ht : UIntHashTab} (hTable : db.tableOf name = some ht) :
    (y ∈ subjects env db (some ht) ↔ db.Holds name y) ∧ (subjects env db (some ht)).Nodup := by
  have hGet : ∀ sub id, db.idOf sub = some id → getSubject env db id (env.crcC sub 0) = some sub := by
    intro sub id hSub
    obtain ⟨s, hs, rfl⟩ := Option.map_eq_some_iff.mp hSub
    have hRes : Resolves env db.subTab s.subjectId (env.crcC sub 0) := ⟨sub, s, hs, rfl, rfl⟩
    obtain ⟨z, hz⟩ := hRes.getSubject
    obtain ⟨t, ht, hId, -⟩ := getSubject_eq_some hz
    have hSame := linked.distinct z sub s.subjectId
      (Option.map_eq_some_iff.mpr ⟨t, ht, hId⟩) hSub
    rw [hz, hSame]
  have hAll : ∀ e ∈ env.visit ht, ∃ sub, db.idOf sub = some e.1 ∧ env.crcC sub 0 = e.2 ∧
      getSubject env db e.1 e.2 = some sub := by
    intro e he
    have hFind := Table.find?_eq_some.mpr ((env.visit_perm ht).mem_iff.mp he)
    obtain ⟨sub, hSub, hCrc⟩ := linked.held name ht e.1 e.2 hTable hFind
    exact ⟨sub, hSub, hCrc, hCrc ▸ hGet sub e.1 hSub⟩
  have hWalk : subjects env db (some ht) =
      (env.visit ht).filterMap fun e => getSubject env db e.1 e.2 := by
    refine walk_eq_filterMap fun e he => ?_
    obtain ⟨sub, -, -, hFound⟩ := hAll e he
    exact ⟨sub, hFound⟩
  constructor
  · rw [hWalk, List.mem_filterMap, holds_iff_tables]
    constructor
    · rintro ⟨e, he, hFound⟩
      obtain ⟨sub, hSub, -, hFound'⟩ := hAll e he
      cases hFound.symm.trans hFound'
      have hFind := Table.find?_eq_some.mpr ((env.visit_perm ht).mem_iff.mp he)
      exact ⟨ht, e.1, hTable, hSub, Table.contains_iff.mpr ⟨e.2, hFind⟩⟩
    · rintro ⟨t, id, hTable', hId, hMem⟩
      cases hTable.symm.trans hTable'
      obtain ⟨hash, hFind⟩ := Table.contains_iff.mp hMem
      have he := (env.visit_perm ht).mem_iff.mpr (Table.find?_eq_some.mp hFind)
      obtain ⟨sub, hSub, -, hFound⟩ := hAll _ he
      rw [linked.distinct y sub id hId hSub]
      exact ⟨_, he, hFound⟩
  · rw [hWalk]
    apply List.Nodup.filterMap
    · intro e e' z hz hz'
      obtain ⟨s, hs, hId, hHash⟩ := getSubject_eq_some hz
      obtain ⟨t, ht, hId', hHash'⟩ := getSubject_eq_some hz'
      cases hs.symm.trans ht
      exact Prod.ext (hId.symm.trans hId') (hHash.symm.trans hHash')
    · exact (env.visit_perm ht).nodup_iff.mpr (List.Nodup.of_map _ ht.nodup)

end Linked

/-! The operations that move subjects. -/

theorem hostDigest_outputs (env : Env) (db : RvSubscriptionDB) (name : Text) (sess : RvSessionEntry)
    (sub : Text) (isAdd : Bool) : (hostDigest env db name sess sub isAdd).outputs = db.outputs := by
  unfold hostDigest
  split
  · split <;> rfl
  · rfl

theorem queryRv7Session_outputs (env : Env) (db : RvSubscriptionDB) (hostId : BitVec 32) :
    (queryRv7Session env db hostId).outputs = db.outputs := by
  unfold queryRv7Session
  split <;> rfl

theorem refSubscription_outputs (env : Env) (db : RvSubscriptionDB) (sub : Text) :
    (refSubscription env db sub).outputs = db.outputs := by
  rcases refSubscription_cases env db sub with ⟨-, hDb⟩ | ⟨-, hDb⟩
  · rw [hDb]
    rfl
  · rw [hDb]

theorem holdSubject_outputs (env : Env) (db : RvSubscriptionDB) (name : Text) (sess : RvSessionEntry)
    (ht : UIntHashTab) (sub : Text) (script : RvSubscription) :
    (holdSubject env db name sess ht sub script).1.outputs = db.outputs := by
  unfold holdSubject
  dsimp only
  split <;> exact hostDigest_outputs ..

/-- Another table for a session that has one. -/
theorem tableOf_setSubHt {ht : UIntHashTab} (hTable : db.tableOf name = some ht) (ht' : UIntHashTab)
    (x : Text) : (db.modifySession name fun s => s.setSubHt ht').tableOf x =
      if x = name then some ht' else db.tableOf x := by
  obtain ⟨sess, hSess, -⟩ := Option.bind_eq_some_iff.mp hTable
  simp only [RvSubscriptionDB.tableOf, RvSubscriptionDB.modifySession, Table.find?_modify]
  by_cases hx : x = name
  · subst hx
    simp [hSess, RvSessionEntry.setSubHt]
  · simp [hx]

theorem stoppedAt_setSubHt {ht' : UIntHashTab}
    (h : (db.modifySession name fun s => s.setSubHt ht').StoppedAt x) : db.StoppedAt x := by
  obtain ⟨t, ht, hStop⟩ := h
  simp only [RvSubscriptionDB.modifySession, Table.find?_modify, Option.map_eq_some_iff] at ht
  obtain ⟨s, hs, rfl⟩ := ht
  refine ⟨s, hs, ?_⟩
  split at hStop <;> exact hStop

theorem Linked.setSubHt (linked : Linked env db) {ht ht' : UIntHashTab}
    (hTable : db.tableOf name = some ht) (hHeld : ∀ id hash, ht'.find? id = some hash →
      ∃ sub, db.idOf sub = some id ∧ env.crcC sub 0 = hash) :
    Linked env (db.modifySession name fun s => s.setSubHt ht') := by
  refine linked.setTable (tableOf_setSubHt hTable ht') rfl rfl ?_ ?_ ?_
  · exact fun x _ hx => stoppedAt_setSubHt hx
  · intro hStop
    rw [linked.stopped name (stoppedAt_setSubHt hStop)] at hTable
    cases hTable
  · intro t id hash hSome hFind
    cases hSome
    exact hHeld id hash hFind

theorem holds_setSubHt {ht : UIntHashTab} (hTable : db.tableOf name = some ht) (ht' : UIntHashTab)
    (x y : Text) : (db.modifySession name fun s => s.setSubHt ht').Holds x y ↔
      if x = name then ∃ id, db.idOf y = some id ∧ ht'.contains id = true else db.Holds x y := by
  rw [holds_iff_tables]
  simp only [tableOf_setSubHt hTable ht']
  split
  · constructor
    · rintro ⟨t, id, hSome, hRest⟩
      cases hSome
      exact ⟨id, hRest⟩
    · rintro ⟨id, hRest⟩
      exact ⟨ht', id, rfl, hRest⟩
  · rw [holds_iff_tables]
    exact Iff.rfl

theorem holdSubject_kept (env : Env) (db : RvSubscriptionDB) (name : Text) (sess : RvSessionEntry)
    (ht : UIntHashTab) (sub : Text) (script : RvSubscription) :
    HoldingsKept (db.modifySession name fun s =>
      s.setSubHt (ht.insert script.subjectId (env.crcC sub 0)))
      (holdSubject env db name sess ht sub script).1 := by
  have hMove : ∀ db₁, HoldingsKept db₁ (hostDigest env (db₁.modifySub sub fun s =>
      s.addRef sess.hasDaemon) name sess sub true) := by
    intro db₁
    refine (modifySub_kept db₁ sub (f := fun s => s.addRef sess.hasDaemon) fun _ => rfl).trans ?_
    exact .of_quiet (hostDigest_hostsOnly ..).quiet
  unfold holdSubject
  dsimp only
  split
  · exact (hMove _).trans (.of_eq rfl rfl rfl)
  · exact hMove _

theorem releaseSubject_kept (env : Env) (db : RvSubscriptionDB) (name : Text) (sess : RvSessionEntry)
    (ht : UIntHashTab) (sub : Text) (script : RvSubscription) :
    HoldingsKept (db.modifySession name fun s => s.setSubHt (ht.erase script.subjectId))
      (releaseSubject env db name sess ht sub script).1 := by
  have hMove : ∀ db₁, HoldingsKept db₁ (hostDigest env (db₁.modifySub sub fun s =>
      s.dropRef sess.hasDaemon) name sess sub false) := by
    intro db₁
    refine (modifySub_kept db₁ sub (f := fun s => s.dropRef sess.hasDaemon) fun _ => rfl).trans ?_
    exact .of_quiet (hostDigest_hostsOnly ..).quiet
  unfold releaseSubject
  dsimp only
  split
  · exact (hMove _).trans (.of_eq rfl rfl rfl)
  · split
    · exact (hMove _).trans (.of_quiet (queryRv7Session_quiet env _ _))
    · exact hMove _

theorem Linked.getSubscription (linked : Linked env db)
    (ids : SubjectIds env (getSubscription env db sub).nextSubjectCtr) :
    Linked env (getSubscription env db sub) ∧
      ∀ x y, (getSubscription env db sub).Holds x y ↔ db.Holds x y := by
  unfold SubMgr.getSubscription at ids ⊢
  split
  · exact ⟨linked, fun _ _ => Iff.rfl⟩
  · next hNew =>
      rw [if_neg hNew] at ids
      have hFresh : db.idOf sub = none := by
        have hNone : db.subTab.find? sub = none := by simpa [Table.contains] using hNew
        simp [RvSubscriptionDB.idOf, hNone]
      refine linked.enterSub ids hFresh rfl (fun _ h => h) rfl fun x => ?_
      simp only [RvSubscriptionDB.idOf, Table.find?_insert]
      split <;> rfl

theorem Linked.refSubscription (linked : Linked env db)
    (ids : SubjectIds env (refSubscription env db sub).nextSubjectCtr) :
    Linked env (refSubscription env db sub) ∧
      ∀ x y, (refSubscription env db sub).Holds x y ↔ db.Holds x y := by
  unfold SubMgr.refSubscription at ids ⊢
  split
  · have hKept : HoldingsKept db (db.modifySub sub fun s => { s with refMono := db.curMono }) :=
      modifySub_kept db sub fun _ => rfl
    exact ⟨linked.of_kept hKept, fun _ _ => hKept.holds⟩
  · next hNew =>
      rw [if_neg hNew] at ids
      exact linked.getSubscription ids

/-- `listen_ref` has the session hold the subject, whether it did before or not. -/
theorem listenRef_holdings (linked : Linked env db) {r : Listened}
    (ids : SubjectIds env r.db.nextSubjectCtr) (h : listenRef env db name sub = .ok r) :
    Linked env r.db ∧ r.db.outputs = db.outputs ∧ (r.done = true ↔ ¬ db.Holds name r.sub) ∧
      ∀ x y, r.db.Holds x y ↔ x = name ∧ y = r.sub ∨ db.Holds x y := by
  obtain ⟨sess, ht, script, hSess, hHt, hScript, hSub, hCase⟩ := listenRef_cases h
  have hTable : (refSubscription env db (stripNul sub)).tableOf name = some ht := by
    simp [RvSubscriptionDB.tableOf, hSess, hHt]
  have hId : (refSubscription env db (stripNul sub)).idOf (stripNul sub) = some script.subjectId := by
    simp [RvSubscriptionDB.idOf, hScript]
  have hCtr : r.db.nextSubjectCtr = (refSubscription env db (stripNul sub)).nextSubjectCtr := by
    rcases hCase with ⟨-, hDb, -⟩ | ⟨-, -, hDb⟩
    · rw [hDb]
    · rw [hDb, (holdSubject_kept ..).ctr]
      rfl
  obtain ⟨linked₁, hHolds⟩ := linked.refSubscription (hCtr ▸ ids)
  have hHeld : db.Holds name (stripNul sub) ↔ ht.contains script.subjectId = true := by
    rw [← hHolds, holds_iff_tables]
    constructor
    · rintro ⟨t, id, hTable', hId', hMem⟩
      cases hTable.symm.trans hTable'
      cases hId.symm.trans hId'
      exact hMem
    · exact fun hMem => ⟨ht, _, hTable, hId, hMem⟩
  rw [hSub]
  rcases hCase with ⟨hMem, hDb, hDone⟩ | ⟨hNot, hDone, hDb⟩
  · rw [hDb, hDone]
    refine ⟨linked₁, refSubscription_outputs .., ?_, fun x y => ?_⟩
    · exact iff_of_false Bool.false_ne_true (not_not.mpr (hHeld.mpr hMem))
    · rw [hHolds]
      refine (or_iff_right_of_imp ?_).symm
      rintro ⟨rfl, rfl⟩
      exact hHeld.mpr hMem
  · have hKept := holdSubject_kept env (refSubscription env db (stripNul sub)) name sess ht
      (stripNul sub) script
    rw [hDb, hDone]
    refine ⟨?_, ?_, ?_, fun x y => ?_⟩
    · refine Linked.of_kept ?_ hKept
      refine linked₁.setSubHt hTable fun id hash hFind => ?_
      rw [Table.find?_insert] at hFind
      split at hFind
      · next hSame =>
          cases hFind
          exact ⟨_, hSame ▸ hId, rfl⟩
      · exact linked₁.held name ht id hash hTable hFind
    · rw [holdSubject_outputs, refSubscription_outputs]
    · refine iff_of_true rfl ?_
      rw [hHeld, hNot]
      exact Bool.false_ne_true
    · rw [hKept.holds, holds_setSubHt hTable]
      by_cases hx : x = name
      · subst hx
        rw [if_pos rfl, ← hHolds, holds_iff_tables]
        constructor
        · rintro ⟨id, hy, hMem⟩
          rw [Table.contains_insert, Bool.or_eq_true, decide_eq_true_eq] at hMem
          rcases hMem with rfl | hMem
          · exact .inl ⟨rfl, linked₁.distinct y _ _ hy hId⟩
          · exact .inr ⟨ht, id, hTable, hy, hMem⟩
        · rintro (⟨-, rfl⟩ | ⟨t, id, hTable', hy, hMem⟩)
          · exact ⟨_, hId, by simp [Table.contains_insert]⟩
          · cases hTable.symm.trans hTable'
            exact ⟨id, hy, by simp [Table.contains_insert, hMem]⟩
      · simp [hx, hHolds]

/-- `deref_subscription` has the session not hold the subject. -/
theorem derefSubscription_holdings (linked : Linked env db) {r : Listened}
    (h : derefSubscription env db name sub = .ok r) :
    Linked env r.db ∧ r.db.nextSubjectCtr = db.nextSubjectCtr ∧ r.db.outputs = db.outputs ∧
      (r.done = true → db.Holds name sub ∧ ∀ x y, r.db.Holds x y ↔ ¬ (x = name ∧ y = sub) ∧ db.Holds x y) ∧
      (r.done = false → r.db = db) := by
  obtain ⟨sess, script, hSess, hScript, -, hCase⟩ := derefSubscription_cases h
  rcases hCase with ⟨hDone, hDb, -⟩ | ⟨hDone, -, ht, hHt, hMem, hDb⟩
  · rw [hDb, hDone]
    exact ⟨linked, rfl, rfl, by simp, fun _ => rfl⟩
  · have hTable : db.tableOf name = some ht := by simp [RvSubscriptionDB.tableOf, hSess, hHt]
    have hId : db.idOf sub = some script.subjectId := by simp [RvSubscriptionDB.idOf, hScript]
    have hKept := releaseSubject_kept env db name sess ht sub script
    rw [hDb, hDone]
    refine ⟨?_, hKept.ctr, releaseSubject_outputs .., fun _ => ⟨?_, fun x y => ?_⟩, by simp⟩
    · refine Linked.of_kept ?_ hKept
      refine linked.setSubHt hTable fun id hash hFind => ?_
      rw [Table.find?_erase] at hFind
      split at hFind
      · cases hFind
      · exact linked.held name ht id hash hTable hFind
    · exact holds_iff_tables.mpr ⟨ht, _, hTable, hId, hMem⟩
    · rw [hKept.holds, holds_setSubHt hTable]
      by_cases hx : x = name
      · subst hx
        rw [if_pos rfl, holds_iff_tables]
        constructor
        · rintro ⟨id, hy, hLeft⟩
          rw [Table.contains_erase, Bool.and_eq_true, decide_eq_true_eq] at hLeft
          refine ⟨?_, ht, id, hTable, hy, hLeft.2⟩
          rintro ⟨-, rfl⟩
          cases hId.symm.trans hy
          exact hLeft.1 rfl
        · rintro ⟨hNot, t, id, hTable', hy, hLeft⟩
          cases hTable.symm.trans hTable'
          refine ⟨id, hy, ?_⟩
          rw [Table.contains_erase, hLeft, Bool.and_true, decide_eq_true_eq]
          rintro rfl
          exact hNot ⟨rfl, linked.distinct y sub _ hy hId⟩
      · simp [hx]

/-- The loop of `unsub_session` keeps what is held, and calls the listener for each
subject. -/
theorem unsubSubject_kept (env : Env) (name : Text) (sess : RvSessionEntry) (db : RvSubscriptionDB)
    (sub : Text) : HoldingsKept db (unsubSubject env name sess db sub) := by
  refine .of_calm (unsubSubject_calm env name sess db sub) ?_
  have hIds := idOf_modifySub db sub (f := fun s => s.dropRef sess.hasDaemon) fun _ => rfl
  unfold RvSubscriptionDB.idOf at hIds ⊢
  rw [unsubSubject_subTab]
  exact hIds

theorem notify_outputs (hListening : env.listening = true) (hBefore : db'.outputs = db.outputs)
    (out : Output) : (db'.notify env out).outputs = db.outputs ++ [out] := by
  rw [RvSubscriptionDB.notify, if_pos hListening, ← hBefore]
  rfl

theorem unsubSubject_outputs (hListening : env.listening = true) (name : Text) (sess : RvSessionEntry)
    {id : BitVec 32} (hId : db.idOf sub = some id) : ∃ refcnt coll,
      (unsubSubject env name sess db sub).outputs =
        db.outputs ++ [.listenStop name sub refcnt false false coll] := by
  obtain ⟨script, hScript, -⟩ := Option.map_eq_some_iff.mp hId
  have hDigest := hostDigest_outputs env db name sess sub false
  unfold unsubSubject
  rw [hScript]
  dsimp only
  split
  · refine ⟨_, _, notify_outputs hListening ?_ _⟩
    exact hDigest
  · refine ⟨_, _, notify_outputs hListening ?_ _⟩
    split
    · rw [queryRv7Session_outputs]
      exact hDigest
    · exact hDigest

theorem unsubSubjects_kept (env : Env) (name : Text) (sess : RvSessionEntry) (subs : List Text)
    (db : RvSubscriptionDB) : HoldingsKept db (subs.foldl (unsubSubject env name sess) db) :=
  foldl_rel HoldingsKept.refl HoldingsKept.trans
    (fun db sub _ => unsubSubject_kept env name sess db sub) db

theorem unsubSession_tables (h : unsubSession env db name = .ok db') (x : Text) :
    db'.tableOf x = if x = name then none else db.tableOf x := by
  simp only [unsubSession, bind_eq_ok, pure_eq_ok, sessionAt_eq_ok] at h
  obtain ⟨sess, hSess, rfl⟩ := h
  rw [← (unsubSubjects_kept env name sess (subjects env db sess.subHt) db).tables]
  simp only [closeSession, RvSubscriptionDB.tableOf, RvSubscriptionDB.modifySession,
    Table.find?_modify, Option.bind_map]
  by_cases hx : x = name
  · simp [hx, RvSessionEntry.stop]
  · simp [hx]

/-- A session that is dropped holds nothing. -/
theorem unsubSession_holdings (linked : Linked env db) (h : unsubSession env db name = .ok db') :
    Linked env db' ∧ db'.nextSubjectCtr = db.nextSubjectCtr ∧
      ∀ x y, db'.Holds x y ↔ x ≠ name ∧ db.Holds x y := by
  have hTables := unsubSession_tables h
  simp only [unsubSession, bind_eq_ok, pure_eq_ok, sessionAt_eq_ok] at h
  obtain ⟨sess, hSess, rfl⟩ := h
  have hKept := unsubSubjects_kept env name sess (subjects env db sess.subHt) db
  refine ⟨?_, hKept.ctr, fun x y => ?_⟩
  · refine linked.setTable hTables hKept.ids hKept.ctr ?_ (fun _ => rfl) (by simp)
    rintro x hx ⟨s, hs, hStop⟩
    refine hKept.stopped x ⟨s, ?_, hStop⟩
    simpa [closeSession, RvSubscriptionDB.modifySession, hx] using hs
  · have hIds : (closeSession ((subjects env db sess.subHt).foldl (unsubSubject env name sess) db) name
        sess.sessionId).idOf = db.idOf := hKept.ids
    rw [holds_iff_tables, holds_iff_tables]
    simp only [hTables, hIds]
    by_cases hx : x = name <;> simp [hx]

theorem unsubSessions_holdings {names : List Text} (linked : Linked env db)
    (h : names.foldlM (unsubSession env) db = .ok db') :
    Linked env db' ∧ ∀ x y, db'.Holds x y ↔ x ∉ names ∧ db.Holds x y := by
  induction names generalizing db with
  | nil =>
      cases h
      exact ⟨linked, by simp⟩
  | cons name rest ih =>
      rw [List.foldlM_cons, bind_eq_ok] at h
      obtain ⟨db₁, hFirst, hRest⟩ := h
      obtain ⟨linked₁, -, hOne⟩ := unsubSession_holdings linked hFirst
      obtain ⟨linked', hMore⟩ := ih linked₁ hRest
      refine ⟨linked', fun x y => ?_⟩
      rw [hMore, hOne, List.mem_cons, not_or]
      tauto

theorem remSession_holdings (linked : Linked env db) (h : remSession env db i name = .ok db') :
    Linked env db' ∧ ∀ x y, db'.Holds x y ↔ x ≠ name ∧ db.Holds x y := by
  simp only [remSession, bind_eq_ok] at h
  obtain ⟨db₁, hUnsub, hUnlink⟩ := h
  obtain ⟨linked₁, -, hHolds⟩ := unsubSession_holdings linked hUnsub
  have hKept := HoldingsKept.of_quiet (unlinkSession_quiet hUnlink)
  exact ⟨linked₁.of_kept hKept, fun x y => hKept.holds.trans (hHolds x y)⟩

theorem unsubHost_holdings (linked : Linked env db) (h : unsubHost env db i = .ok db') :
    Linked env db' ∧ ∃ host, db.hostTab[i]? = some host ∧
      ∀ x y, db'.Holds x y ↔ x ∉ sessionsOf env db host.sessHt ∧ db.Holds x y := by
  obtain ⟨host, db₁, hHost, -, hLoop, rfl⟩ := unsubHost_cases h
  obtain ⟨linked₁, hHolds⟩ := unsubSessions_holdings linked hLoop
  have hKept : HoldingsKept db₁ { db₁.modifyHost i fun host => host.stop db₁.curMono with
      hosts := db₁.hosts.retire } := .of_eq rfl rfl rfl
  exact ⟨linked₁.of_kept hKept, host, hHost, fun x y => hKept.holds.trans (hHolds x y)⟩

/-- A new entry for a session that is not live. -/
theorem enterSession_holdings (linked : Linked env db) {hostId : BitVec 32} {cid : BitVec 16}
    {isStart : Bool} {user : Option Text} {g : RvSessionEntry → RvSessionEntry}
    (hNew : isLive db name = false) (hSame : ∀ s, SameSession s (g s))
    (hState : ∀ s, (g s).state = .stop → s.state = .stop)
    (h : addSession env ((startEntry db name hostId cid isStart user).modifySession name g) i name =
      .ok db') : Linked env db' ∧ db'.nextSubjectCtr = db.nextSubjectCtr ∧
        db'.outputs = db.outputs ∧ ∀ x y, db'.Holds x y ↔ db.Holds x y := by
  have hQuiet := HoldingsKept.of_quiet (addSession_quiet h)
  have hOut : db'.outputs = db.outputs := by
    simp only [addSession, bind_eq_ok] at h
    obtain ⟨host, -, sess, -, h⟩ := h
    split at h
    · cases h
    · split at h <;> cases h <;> rfl
  have hBefore : db.tableOf name = none := by
    cases hFind : db.sessionTab.find? name with
    | none => simp [RvSubscriptionDB.tableOf, hFind]
    | some s =>
        refine linked.stopped name ⟨s, hFind, ?_⟩
        simpa [isLive, hFind] using hNew
  have hTables : ∀ x, ((startEntry db name hostId cid isStart user).modifySession name g).tableOf x =
      if x = name then some .empty else db.tableOf x := by
    intro x
    simp only [RvSubscriptionDB.tableOf, RvSubscriptionDB.modifySession, startEntry, Table.find?_modify,
      Table.find?_insert]
    by_cases hx : x = name
    · subst hx
      simp [(hSame _).subHt, RvSessionEntry.start]
    · simp [hx]
  have hStopped : ∀ x, ((startEntry db name hostId cid isStart user).modifySession name g).StoppedAt x →
      x ≠ name ∧ db.StoppedAt x := by
    rintro x ⟨s, hs, hStop⟩
    simp only [RvSubscriptionDB.modifySession, startEntry, Table.find?_modify, Table.find?_insert] at hs
    by_cases hx : x = name
    · subst hx
      simp only [if_true, Option.map_some, Option.some.injEq] at hs
      subst hs
      exact absurd (hState _ hStop) (start_state_ne_stop _ _ _ _ _ _ _)
    · refine ⟨hx, s, ?_, hStop⟩
      simpa [hx] using hs
  have linked₁ : Linked env ((startEntry db name hostId cid isStart user).modifySession name g) := by
    refine linked.setTable hTables rfl rfl (fun x _ hx => (hStopped x hx).2) ?_ ?_
    · exact fun hStop => absurd rfl (hStopped name hStop).1
    · intro ht id hash hSome hFind
      cases hSome
      cases hFind
  refine ⟨linked₁.of_kept hQuiet, hQuiet.ctr, hOut, fun x y => ?_⟩
  rw [hQuiet.holds, holds_iff_tables, holds_iff_tables]
  simp only [hTables]
  have hIds : ((startEntry db name hostId cid isStart user).modifySession name g).idOf = db.idOf := rfl
  rw [hIds]
  by_cases hx : x = name
  · subst hx
    rw [hBefore]
    constructor
    · rintro ⟨ht, id, hSome, -, hMem⟩
      rw [if_pos rfl] at hSome
      cases hSome
      cases hMem
    · rintro ⟨ht, id, hSome, -⟩
      cases hSome
  · simp [hx]

/-- A subject that no session holds can be collected. -/
theorem Linked.gcSubscriptions (linked : Linked env db)
    (hFree : ∀ sub s, db.subTab.find? sub = some s → s.refcnt = 0 → ∀ name, ¬ db.Holds name sub) :
    Linked env (gcSubscriptions db) ∧ ∀ x y, (gcSubscriptions db).Holds x y ↔ db.Holds x y := by
  unfold SubMgr.gcSubscriptions
  split
  · have hIds : ∀ x id, RvSubscriptionDB.idOf { db with
        subscriptions := { db.subscriptions with removed := 0 }
        subTab := db.subTab.filter fun s => s.refcnt ≠ 0 } x = some id → db.idOf x = some id := by
      intro x id hx
      obtain ⟨s, hs, rfl⟩ := Option.map_eq_some_iff.mp hx
      rw [Table.find?_filter] at hs
      exact Option.map_eq_some_iff.mpr ⟨s, (Option.filter_eq_some_iff.mp hs).1, rfl⟩
    have hStays : ∀ x y id, db.idOf y = some id → db.Holds x y →
        RvSubscriptionDB.idOf { db with
          subscriptions := { db.subscriptions with removed := 0 }
          subTab := db.subTab.filter fun s => s.refcnt ≠ 0 } y = some id := by
      intro x y id hy hHolds
      obtain ⟨s, hs, rfl⟩ := Option.map_eq_some_iff.mp hy
      refine Option.map_eq_some_iff.mpr ⟨s, ?_, rfl⟩
      rw [Table.find?_filter]
      refine Option.filter_eq_some_iff.mpr ⟨hs, ?_⟩
      have hRef : s.refcnt ≠ 0 := fun hZero => hFree y s hs hZero x hHolds
      simpa using hRef
    refine ⟨⟨?_, ?_, ?_, linked.stopped⟩, fun x y => ?_⟩
    · exact fun x id hx => linked.issued x id (hIds x id hx)
    · exact fun x z id hx hz => linked.distinct x z id (hIds x id hx) (hIds z id hz)
    · intro x ht id hash hTable hFind
      obtain ⟨y, hy, hCrc⟩ := linked.held x ht id hash hTable hFind
      refine ⟨y, hStays x y id hy ?_, hCrc⟩
      exact holds_iff_tables.mpr ⟨ht, id, hTable, hy, Table.contains_iff.mpr ⟨hash, hFind⟩⟩
    · constructor
      · intro hHolds
        obtain ⟨ht, id, hTable, hy, hMem⟩ := holds_iff_tables.mp hHolds
        exact holds_iff_tables.mpr ⟨ht, id, hTable, hIds y id hy, hMem⟩
      · intro hHolds
        obtain ⟨ht, id, hTable, hy, hMem⟩ := holds_iff_tables.mp hHolds
        exact holds_iff_tables.mpr ⟨ht, id, hTable, hStays x y id hy hHolds, hMem⟩
  · exact ⟨linked, fun _ _ => Iff.rfl⟩

/-- Stopped sessions hold nothing when they are collected. -/
theorem gcSessions_holdings (linked : Linked env db) : HoldingsKept db (gcSessions db) := by
  unfold gcSessions
  split
  · refine ⟨?_, rfl, rfl, ?_⟩
    · funext x
      simp only [RvSubscriptionDB.tableOf, Table.find?_filter]
      cases hFind : db.sessionTab.find? x with
      | none => rfl
      | some s =>
          by_cases hStop : s.state = .stop
          · have hNone := linked.stopped x ⟨s, hFind, hStop⟩
            simp only [RvSubscriptionDB.tableOf, hFind, Option.bind_some] at hNone
            simp [Option.filter, hStop, hNone]
          · simp [Option.filter, hStop]
    · rintro x ⟨s, hs, hStop⟩
      rw [Table.find?_filter] at hs
      exact ⟨s, (Option.filter_eq_some_iff.mp hs).1, hStop⟩
  · exact .refl db

end Sassrv.SubMgr
