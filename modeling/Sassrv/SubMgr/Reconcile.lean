import Sassrv.SubMgr.Callbacks
import Sassrv.SubMgr.Recognition

/-! The reply to a session query. It leaves the session with the subjects that it lists
and with those held before that were entered since the query was sent; what other
sessions hold is left alone. -/
namespace Sassrv.SubMgr
open Partial Transition

variable {env : Env} {db db' : RvSubscriptionDB} {name sub x y : Text} {ht : UIntHashTab}

/-- The subject of a field of a reply, if the filters let it through. -/
def ReplyField.subject (env : Env) (item : ReplyField) : Option Text :=
  match item.name, item.string with
  | [], some sub => if isMatched env sub then some (stripNul sub) else none
  | _, _ => none

def subjectsListed (env : Env) (items : List ReplyField) : List Text :=
  items.filterMap (ReplyField.subject env)

/-- Entered before the query was sent, or still with the mark of an earlier one. -/
def RvSubscriptionDB.isStale (db : RvSubscriptionDB) (queryMono : BitVec 32) (sub : Text) : Bool :=
  (db.subTab.find? sub).any fun s => s.startMono < queryMono || s.refMono = 0

/-! The marks. -/

/-- `mark_subscriptions` on one entry. -/
def RvSubscription.mark (queryMono : BitVec 32) (s : RvSubscription) : RvSubscription :=
  if s.startMono < queryMono then { s with refMono := 0 } else s

@[simp] theorem mark_mark (queryMono : BitVec 32) (s : RvSubscription) :
    (s.mark queryMono).mark queryMono = s.mark queryMono := by
  unfold RvSubscription.mark
  split <;> simp_all

@[simp] theorem mark_subjectId (queryMono : BitVec 32) (s : RvSubscription) :
    (s.mark queryMono).subjectId = s.subjectId := by
  unfold RvSubscription.mark
  split <;> rfl

@[simp] theorem mark_refcnt (queryMono : BitVec 32) (s : RvSubscription) :
    (s.mark queryMono).refcnt = s.refcnt := by
  unfold RvSubscription.mark
  split <;> rfl

theorem mark_refMono (queryMono : BitVec 32) (s : RvSubscription) :
    (s.mark queryMono).refMono = 0 ↔ s.startMono < queryMono ∨ s.refMono = 0 := by
  unfold RvSubscription.mark
  split <;> simp_all

theorem marks_find (queryMono : BitVec 32) (subs : List Text) (db : RvSubscriptionDB) (y : Text) :
    let marked := subs.foldl (fun db sub => db.modifySub sub (RvSubscription.mark queryMono)) db
    HoldingsKept db marked ∧ marked.curMono = db.curMono ∧ marked.subTab.find? y =
      (db.subTab.find? y).map fun s => if y ∈ subs then s.mark queryMono else s := by
  induction subs generalizing db with
  | nil => exact ⟨.refl db, rfl, by simp⟩
  | cons sub rest ih =>
      obtain ⟨hKept, hClock, hFind⟩ := ih (db.modifySub sub (RvSubscription.mark queryMono))
      have hFirst := modifySub_kept db sub (mark_subjectId queryMono)
      refine ⟨hFirst.trans hKept, hClock, ?_⟩
      rw [List.foldl_cons, hFind, RvSubscriptionDB.modifySub, Table.find?_modify, Option.map_map]
      congr 1
      funext s
      by_cases hy : y = sub <;> by_cases hRest : y ∈ rest <;> simp [hy, hRest]

/-- The entries after `mark_subscriptions`. -/
theorem markSubscriptions_find (env : Env) (db : RvSubscriptionDB) (sess : RvSessionEntry) (y : Text) :
    HoldingsKept db (markSubscriptions env db sess) ∧
      (markSubscriptions env db sess).curMono = db.curMono ∧
      (markSubscriptions env db sess).subTab.find? y = (db.subTab.find? y).map fun s =>
        if y ∈ subjects env db sess.subHt then s.mark sess.queryMono else s :=
  marks_find sess.queryMono (subjects env db sess.subHt) db y

/-! The subjects listed. -/

theorem hostDigest_curMono (env : Env) (db : RvSubscriptionDB) (name : Text) (sess : RvSessionEntry)
    (sub : Text) (isAdd : Bool) : (hostDigest env db name sess sub isAdd).curMono = db.curMono := by
  unfold hostDigest
  split
  · split <;> rfl
  · rfl

theorem holdSubject_curMono (env : Env) (db : RvSubscriptionDB) (name : Text) (sess : RvSessionEntry)
    (ht : UIntHashTab) (sub : Text) (script : RvSubscription) :
    (holdSubject env db name sess ht sub script).1.curMono = db.curMono := by
  unfold holdSubject
  dsimp only
  split <;> exact hostDigest_curMono env _ name sess sub true

theorem notify_curMono (env : Env) (db : RvSubscriptionDB) (out : Output) :
    (db.notify env out).curMono = db.curMono := by
  unfold RvSubscriptionDB.notify
  split <;> rfl

/-- The entry of a subject that is referenced, and those of the others. -/
theorem refSubscription_entries (env : Env) (db : RvSubscriptionDB) (sub : Text) :
    (refSubscription env db sub).curMono = db.curMono ∧
      (∃ s, (refSubscription env db sub).subTab.find? sub = some s ∧ s.refMono = db.curMono) ∧
      ∀ y, y ≠ sub → (refSubscription env db sub).subTab.find? y = db.subTab.find? y := by
  rcases refSubscription_cases env db sub with ⟨⟨s, hs⟩, h⟩ | ⟨-, h⟩
  · rw [h]
    refine ⟨rfl, ⟨_, by rw [RvSubscriptionDB.modifySub, Table.find?_modify_self, hs, Option.map_some], rfl⟩, ?_⟩
    intro y hy
    rw [RvSubscriptionDB.modifySub, Table.find?_modify_ne _ _ hy]
  · rw [h]
    refine ⟨rfl, ⟨_, Table.find?_insert_self .., rfl⟩, fun y hy => ?_⟩
    rw [Table.find?_insert, if_neg hy]

/-- What `listen_ref` does to the entries, to the clock and to the table of the session. -/
theorem listenRef_entries {r : Listened} (h : listenRef env db name sub = .ok r) :
    r.db.curMono = db.curMono ∧ r.db.nextSubjectCtr ≤ db.nextSubjectCtr + 1 ∧
      (∃ ht, r.db.tableOf name = some ht) ∧
      (∃ s, r.db.subTab.find? (stripNul sub) = some s ∧ s.refMono = db.curMono) ∧
      ∀ y, y ≠ stripNul sub → r.db.subTab.find? y = db.subTab.find? y := by
  obtain ⟨sess, ht, script, hSess, hHt, hScript, -, hCase⟩ := listenRef_cases h
  obtain ⟨hClock, ⟨s, hs, hSeen⟩, hOther⟩ := refSubscription_entries env db (stripNul sub)
  have hGrows := refSubscription_ctr env db (stripNul sub)
  have hTable : (refSubscription env db (stripNul sub)).tableOf name = some ht := by
    simp [RvSubscriptionDB.tableOf, hSess, hHt]
  rcases hCase with ⟨-, hDb, -⟩ | ⟨-, -, hDb⟩
  · rw [hDb]
    exact ⟨hClock, hGrows, ⟨ht, hTable⟩, ⟨s, hs, hSeen⟩, hOther⟩
  · have hKept := holdSubject_kept env (refSubscription env db (stripNul sub)) name sess ht
      (stripNul sub) script
    rw [hDb]
    refine ⟨by rw [holdSubject_curMono, hClock], hKept.ctr.trans_le hGrows,
      ⟨ht.insert script.subjectId (env.crcC (stripNul sub) 0), ?_⟩,
      ⟨s.addRef sess.hasDaemon, ?_, hSeen⟩, ?_⟩
    · rw [hKept.tables, tableOf_setSubHt hTable, if_pos rfl]
    · rw [holdSubject_subTab, Table.find?_modify_self, hs, Option.map_some]
    · intro y hy
      rw [holdSubject_subTab, Table.find?_modify_ne _ _ hy, hOther y hy]

theorem listenRef_ok (sub : Text) (hTable : db.tableOf name = some ht) :
    ∃ r, listenRef env db name sub = .ok r := by
  obtain ⟨sess, hSess, hHt⟩ := Option.bind_eq_some_iff.mp hTable
  obtain ⟨script, hScript⟩ := refSubscription_find env db (stripNul sub)
  have hSess₁ : (refSubscription env db (stripNul sub)).sessionTab.find? name = some sess := by
    rw [refSubscription_sessionTab, hSess]
  simp only [listenRef, RvSubscriptionDB.sessionAt, hSess₁, RvSubscriptionDB.subAt, hScript, hHt,
    bind, Except.bind]
  split <;> exact ⟨_, rfl⟩

/-- The subjects of a list are held by the session and their entries seen now; the other
entries are as they were. -/
structure Heard (env : Env) (name : Text) (listed : List Text) (db db' : RvSubscriptionDB) : Prop where
  linked : Linked env db'
  clock : db'.curMono = db.curMono
  grows : db'.nextSubjectCtr ≤ db.nextSubjectCtr + listed.length
  table : ∃ ht, db'.tableOf name = some ht
  holds : ∀ x y, db'.Holds x y ↔ x = name ∧ y ∈ listed ∨ db.Holds x y
  seen : ∀ y ∈ listed, ∃ s, db'.subTab.find? y = some s ∧ s.refMono = db.curMono
  others : ∀ y, y ∉ listed → db'.subTab.find? y = db.subTab.find? y

namespace Heard

theorem of_kept (linked : Linked env db) (hTable : db.tableOf name = some ht) (h : HoldingsKept db db')
    (hClock : db'.curMono = db.curMono) (hSubs : db'.subTab = db.subTab) : Heard env name [] db db' where
  linked := linked.of_kept h
  clock := hClock
  grows := h.ctr.le
  table := ⟨ht, by rw [h.tables, hTable]⟩
  holds x y := by simp [h.holds]
  seen y hy := by cases hy
  others y _ := by rw [hSubs]

theorem trans {listed rest : List Text} {a b c : RvSubscriptionDB} (h : Heard env name listed a b)
    (h' : Heard env name rest b c) : Heard env name (listed ++ rest) a c where
  linked := h'.linked
  clock := h'.clock.trans h.clock
  grows := by
    have hFirst := h.grows
    have hRest := h'.grows
    rw [List.length_append]
    omega
  table := h'.table
  holds x y := by
    rw [h'.holds, h.holds, List.mem_append]
    tauto
  seen y hy := by
    by_cases hRest : y ∈ rest
    · obtain ⟨s, hs, hSeen⟩ := h'.seen y hRest
      exact ⟨s, hs, hSeen.trans h.clock⟩
    · obtain ⟨s, hs, hSeen⟩ := h.seen y ((List.mem_append.mp hy).resolve_right hRest)
      exact ⟨s, by rw [h'.others y hRest, hs], hSeen⟩
  others y hy := by
    rw [List.mem_append, not_or] at hy
    rw [h'.others y hy.2, h.others y hy.1]

end Heard

/-- A subject that a reply or a sync lists. -/
theorem listSubject_heard (linked : Linked env db) (ids : SubjectIds env (db.nextSubjectCtr + 1))
    (hTable : db.tableOf name = some ht) (sub : Text) :
    ∃ db', listSubject env name db sub = .ok db' ∧ Heard env name [stripNul sub] db db' := by
  obtain ⟨r, hListen⟩ : ∃ r, listenRef env db name sub = .ok r := listenRef_ok sub hTable
  obtain ⟨hClock, hGrows, hTable', hSeen, hOther⟩ := listenRef_entries hListen
  obtain ⟨linked', -, -, hHolds⟩ := listenRef_holdings linked (ids.mono hGrows) hListen
  have hSub : r.sub = stripNul sub := by
    obtain ⟨-, -, -, -, -, -, hSub, -⟩ := listenRef_cases hListen
    exact hSub
  have hHeard : Heard env name [stripNul sub] db r.db := by
    refine ⟨linked', hClock, hGrows, hTable', fun x y => ?_, ?_, ?_⟩
    · rw [hHolds, hSub, List.mem_singleton]
    · simpa using hSeen
    · simpa using hOther
  obtain ⟨script, hScript⟩ := listenRef_entered hListen
  obtain ⟨t, ht⟩ := hTable'
  simp only [listSubject, hListen, RvSubscriptionDB.subAt, hScript, bind, Except.bind]
  split
  · refine ⟨_, rfl, ?_⟩
    have hCall := Heard.of_kept linked' ht (notify_kept env r.db (.listenStart name r.sub
      script.refcnt [] false r.coll)) (notify_curMono env _ _) (notify_subTab env _ _)
    simpa using hHeard.trans hCall
  · exact ⟨_, rfl, hHeard⟩

theorem replySubject_heard (linked : Linked env db) (hTable : db.tableOf name = some ht)
    (item : ReplyField)
    (ids : SubjectIds env (db.nextSubjectCtr + (item.subject env).toList.length)) :
    ∃ db', replySubject env name db item = .ok db' ∧ Heard env name (item.subject env).toList db db' := by
  have hSame : Heard env name [] db db := .of_kept linked hTable (.refl db) rfl rfl
  obtain ⟨field, value⟩ := item
  cases field with
  | nil =>
      cases value with
      | none => exact ⟨db, rfl, hSame⟩
      | some sub =>
          by_cases hMatched : isMatched env sub = true
          · have hSubject : ReplyField.subject env ⟨[], some sub⟩ = some (stripNul sub) := by
              simp [ReplyField.subject, hMatched]
            rw [hSubject] at ids ⊢
            obtain ⟨db', hList, hHeard⟩ := listSubject_heard linked ids hTable sub
            refine ⟨db', ?_, ?_⟩
            · simpa [replySubject, hMatched] using hList
            · exact hHeard
          · refine ⟨db, ?_, ?_⟩
            · simp [replySubject, hMatched, pure, Except.pure]
            · simpa [ReplyField.subject, hMatched] using hSame
  | cons c rest =>
      by_cases hUser : c :: rest = text "user"
      · refine ⟨db.modifySession name fun s => { s with userId := value }, ?_, ?_⟩
        · simp only [replySubject, if_pos hUser]
          rfl
        · exact .of_kept linked hTable (modifySession_kept (fun _ => rfl) fun _ _ h => h) rfl rfl
      · refine ⟨db, ?_, hSame⟩
        simp only [replySubject, if_neg hUser]
        rfl

/-- The loop over the fields of a session query reply. -/
theorem replySubjects_heard (items : List ReplyField) (linked : Linked env db)
    (ids : SubjectIds env (db.nextSubjectCtr + (subjectsListed env items).length))
    (hTable : db.tableOf name = some ht) :
    ∃ db', items.foldlM (replySubject env name) db = .ok db' ∧
      Heard env name (subjectsListed env items) db db' := by
  induction items generalizing db ht with
  | nil => exact ⟨db, rfl, .of_kept linked hTable (.refl db) rfl rfl⟩
  | cons item rest ih =>
      have hList : subjectsListed env (item :: rest) =
          (item.subject env).toList ++ subjectsListed env rest := by
        unfold subjectsListed
        cases hItem : item.subject env <;> simp [hItem]
      rw [hList] at ids ⊢
      rw [List.length_append] at ids
      obtain ⟨db₁, hFirst, hHeard⟩ := replySubject_heard linked hTable item (ids.mono (by omega))
      have hGrows := hHeard.grows
      obtain ⟨t, hTable₁⟩ := hHeard.table
      obtain ⟨db', hRest, hHeard'⟩ := ih hHeard.linked (ids.mono (by omega)) hTable₁
      refine ⟨db', ?_, hHeard.trans hHeard'⟩
      rw [List.foldlM_cons, hFirst]
      exact hRest

/-! The subjects that stay marked. -/

theorem Linked.of_referenced (inv : Referenced env db) : Linked env db where
  issued sub id h := by
    obtain ⟨s, hs, rfl⟩ := Option.map_eq_some_iff.mp h
    exact inv.issued sub s hs
  distinct sub sub' id h h' := by
    obtain ⟨s, hs, rfl⟩ := Option.map_eq_some_iff.mp h
    obtain ⟨s', hs', hId⟩ := Option.map_eq_some_iff.mp h'
    exact inv.distinct sub s sub' s' hs hs' hId.symm
  held name ht id hash hTable hFind := by
    obtain ⟨sess, hSess, hHt⟩ := Option.bind_eq_some_iff.mp hTable
    obtain ⟨sub, s, hs, rfl, hHash⟩ := inv.held name sess ht id hash hSess hHt hFind
    exact ⟨sub, by simp [RvSubscriptionDB.idOf, hs], hHash⟩
  stopped name h := by
    obtain ⟨s, hs, hStop⟩ := h
    simp [RvSubscriptionDB.tableOf, hs, inv.stopped name s hs hStop]

/-- A subject that is held has references, and with fewer than 2^31 of them a count. -/
theorem refcntOf_ne_zero (inv : Referenced env db) (few : db.Few) (h : db.Holds name sub) :
    db.refcntOf sub ≠ 0 := by
  obtain ⟨sess, script, hSess, hScript, hHolds⟩ := h
  have hPos : 0 < db.holders script.subjectId :=
    List.countP_pos_iff.mpr ⟨_, Table.find?_eq_some.mp hSess, hHolds⟩
  have hFew := few script.subjectId
  simp only [RvSubscriptionDB.refcntOf, hScript, inv.counted sub script hScript, ne_eq]
  intro hZero
  have hNone : db.refs script.subjectId % 2 ^ 31 = 0 := by
    simpa using congrArg BitVec.toNat hZero
  rw [Nat.mod_eq_of_lt hFew, RvSubscriptionDB.refs] at hNone
  omega

/-- A marked subject is dropped from the session and from no other. -/
theorem stopMarked_holdings (linked : Linked env db) (hHolds : db.Holds name sub)
    (hRef : db.refcntOf sub ≠ 0) : ∃ db', stopMarked env name db sub = .ok db' ∧ Linked env db' ∧
      (∀ x y, db'.Holds x y ↔ ¬ (x = name ∧ y = sub) ∧ db.Holds x y) ∧
      ∀ y, y ≠ sub → db'.refcntOf y = db.refcntOf y := by
  obtain ⟨sess, script, hSess, hScript, hMem⟩ := hHolds
  obtain ⟨ht, hash, hHt, hFind⟩ := holds_iff.mp hMem
  have hCount : script.refcnt ≠ 0 := by simpa [RvSubscriptionDB.refcntOf, hScript] using hRef
  have hContains : ht.contains script.subjectId = true := Table.contains_iff.mpr ⟨hash, hFind⟩
  have hDeref : derefSubscription env db name sub =
      .ok ⟨(releaseSubject env db name sess ht sub script).1, sub, true,
        (releaseSubject env db name sess ht sub script).2⟩ := by
    simp only [derefSubscription, RvSubscriptionDB.sessionAt, hSess, RvSubscriptionDB.subAt, hScript,
      hHt, hContains, bind, Except.bind, pure, Except.pure, if_neg hCount, if_true]
  have hSubs := releaseSubject_subTab env db name sess ht sub script
  obtain ⟨linked', -, -, hHeld, -⟩ := derefSubscription_holdings linked hDeref
  have hScript' : (releaseSubject env db name sess ht sub script).1.subTab.find? sub =
      some (script.dropRef sess.hasDaemon) := by
    rw [hSubs, Table.find?_modify_self, hScript, Option.map_some]
  let out : Output := .listenStop name sub (script.dropRef sess.hasDaemon).refcnt false false
    (releaseSubject env db name sess ht sub script).2
  refine ⟨(releaseSubject env db name sess ht sub script).1.notify env out, ?_,
    linked'.of_kept (notify_kept env _ _), fun x y => ?_, fun y hy => ?_⟩
  · simp only [stopMarked, hDeref, RvSubscriptionDB.subAt, hScript', bind, Except.bind, if_true,
      pure, Except.pure]
    rfl
  · rw [(notify_kept env _ _).holds]
    exact (hHeld rfl).2 x y
  · simp only [RvSubscriptionDB.refcntOf, notify_subTab, hSubs, Table.find?_modify_ne _ _ hy]

theorem stopMarkeds_holdings {subs : List Text} (hNodup : subs.Nodup) (linked : Linked env db)
    (hHeld : ∀ y ∈ subs, db.Holds name y ∧ db.refcntOf y ≠ 0) :
    ∃ db', subs.foldlM (stopMarked env name) db = .ok db' ∧
      ∀ x y, db'.Holds x y ↔ ¬ (x = name ∧ y ∈ subs) ∧ db.Holds x y := by
  induction subs generalizing db with
  | nil => exact ⟨db, rfl, by simp⟩
  | cons sub rest ih =>
      obtain ⟨hNot, hRest⟩ := List.nodup_cons.mp hNodup
      obtain ⟨hHolds, hRef⟩ := hHeld sub List.mem_cons_self
      obtain ⟨db₁, hFirst, linked₁, hHolds₁, hRef₁⟩ := stopMarked_holdings linked hHolds hRef
      obtain ⟨db', hLoop, hLeft⟩ := ih hRest linked₁ fun y hy => by
        have hNe : y ≠ sub := fun hEq => hNot (hEq ▸ hy)
        obtain ⟨hHolds, hRef⟩ := hHeld y (List.mem_cons_of_mem _ hy)
        exact ⟨(hHolds₁ name y).mpr ⟨fun h => hNe h.2, hHolds⟩, by rwa [hRef₁ y hNe]⟩
      refine ⟨db', ?_, fun x y => ?_⟩
      · rw [List.foldlM_cons, hFirst]
        exact hLoop
      · rw [hLeft, hHolds₁, List.mem_cons]
        tauto

/-- The subjects of the session that a reply takes from it. -/
def RvSubscriptionDB.staleSubjects (env : Env) (db : RvSubscriptionDB) (sess : RvSessionEntry)
    (items : List ReplyField) : List Text :=
  (subjects env db sess.subHt).filter fun sub =>
    db.isStale sess.queryMono sub && decide (sub ∉ subjectsListed env items)

/-- The session holds what the reply lists and what it held that is not stale; the other
sessions hold what they held. -/
def Reconciled (env : Env) (name : Text) (queryMono : BitVec 32) (items : List ReplyField)
    (db db' : RvSubscriptionDB) : Prop :=
  (∀ y, db'.Holds name y ↔
    y ∈ subjectsListed env items ∨ db.Holds name y ∧ db.isStale queryMono y = false) ∧
  ∀ x y, x ≠ name → (db'.Holds x y ↔ db.Holds x y)

/-- The marks that are left when the reply has been read are those of the stale subjects. -/
theorem isMarked_heard {items : List ReplyField} {sess : RvSessionEntry} (hClock : db.curMono ≠ 0)
    (hHeard : Heard env name (subjectsListed env items) (markSubscriptions env db sess) db')
    (hIn : y ∈ subjects env db sess.subHt) : isMarkedSubscription db' y = true ↔
      db.isStale sess.queryMono y = true ∧ y ∉ subjectsListed env items := by
  obtain ⟨-, hSame, hFind⟩ := markSubscriptions_find env db sess y
  by_cases hListed : y ∈ subjectsListed env items
  · refine iff_of_false ?_ fun h => h.2 hListed
    obtain ⟨s, hs, hSeen⟩ := hHeard.seen y hListed
    simp only [isMarkedSubscription, hs, Option.any_some, decide_eq_true_eq, hSeen, hSame]
    exact hClock
  · rw [isMarkedSubscription, hHeard.others y hListed, hFind, RvSubscriptionDB.isStale,
      and_iff_left hListed]
    cases db.subTab.find? y with
    | none => simp
    | some s =>
        simp only [hIn, if_true, Option.map_some, Option.any_some, decide_eq_true_eq, Bool.or_eq_true]
        exact mark_refMono sess.queryMono s

/-- `process_pub2` for a reply to `send_session_query`, once its session is found. -/
theorem sessionReply_reconciles {sess : RvSessionEntry} {items : List ReplyField} {sessId : BitVec 32}
    (inv : Referenced env db) (few : db.Few) (hClock : db.curMono ≠ 0)
    (ids : SubjectIds env (db.nextSubjectCtr + (subjectsListed env items).length))
    (hName : getSessionId env db sessId = some name) (hSess : db.sessionTab.find? name = some sess)
    (hState : sess.state = .query) (hHt : sess.subHt = some ht) :
    ((db.staleSubjects env sess items).length < 256 → ∃ db',
      sessionReply env db sessId items = .ok db' ∧ Reconciled env name sess.queryMono items db db') ∧
    (256 ≤ (db.staleSubjects env sess items).length →
      sessionReply env db sessId items = .error .arraysFull) := by
  have linked := Linked.of_referenced inv
  have hTable : db.tableOf name = some ht := by simp [RvSubscriptionDB.tableOf, hSess, hHt]
  obtain ⟨hMarked, -, -⟩ := markSubscriptions_find env db sess []
  have hTable₁ : (markSubscriptions env db sess).tableOf name = some ht := by
    rw [hMarked.tables, hTable]
  obtain ⟨db₁, hLoop, hHeard⟩ := replySubjects_heard items (linked.of_kept hMarked)
    (by rw [hMarked.ctr]; exact ids) hTable₁
  -- what the reply leaves marked
  let db₂ := db₁.modifySession name fun s =>
    { s with state := if s.hasDaemon then .rv7 else .rv5 }
  have hKept : HoldingsKept db₁ db₂ := by
    refine modifySession_kept (fun _ => rfl) fun s _ hStop => ?_
    dsimp only at hStop
    split at hStop <;> cases hStop
  have linked₂ := hHeard.linked.of_kept hKept
  obtain ⟨ht₂, hTable₁⟩ := hHeard.table
  have hTable₂ : db₂.tableOf name = some ht₂ := by rw [hKept.tables, hTable₁]
  obtain ⟨sess₂, hSess₂, hHt₂⟩ := Option.bind_eq_some_iff.mp hTable₂
  have hHolds₂ : ∀ x y, db₂.Holds x y ↔
      x = name ∧ y ∈ subjectsListed env items ∨ db.Holds x y := by
    intro x y
    rw [hKept.holds, hHeard.holds, hMarked.holds]
  have hStale : ∀ y, y ∈ (subjects env db₂ sess₂.subHt).filter (isMarkedSubscription db₂) ↔
      y ∈ db.staleSubjects env sess items := by
    intro y
    rw [List.mem_filter, RvSubscriptionDB.staleSubjects, List.mem_filter, hHt₂,
      (linked₂.mem_subjects hTable₂).1, hHolds₂, hHt, (linked.mem_subjects hTable).1,
      Bool.and_eq_true, decide_eq_true_eq]
    have hSame : isMarkedSubscription db₂ y = isMarkedSubscription db₁ y := rfl
    rw [hSame]
    by_cases hHeld : db.Holds name y
    · rw [isMarked_heard hClock hHeard (by rw [hHt]; exact (linked.mem_subjects hTable).1.mpr hHeld)]
      tauto
    · refine iff_of_false ?_ fun h => hHeld h.1
      rintro ⟨⟨-, hListed⟩ | hNow, hMark⟩
      · obtain ⟨s, hs, hSeen⟩ := hHeard.seen y hListed
        simp only [isMarkedSubscription, hs, Option.any_some, decide_eq_true_eq, hSeen,
          (markSubscriptions_find env db sess y).2.1] at hMark
        exact hClock hMark
      · exact hHeld hNow
  have hNodup₂ : ((subjects env db₂ sess₂.subHt).filter (isMarkedSubscription db₂)).Nodup := by
    rw [hHt₂]
    exact (linked₂.mem_subjects (y := []) hTable₂).2.filter _
  have hNodup : (db.staleSubjects env sess items).Nodup := by
    rw [RvSubscriptionDB.staleSubjects, hHt]
    exact (linked.mem_subjects (y := []) hTable).2.filter _
  have hLength := ((List.perm_ext_iff_of_nodup hNodup₂ hNodup).mpr hStale).length_eq
  have hReply : sessionReply env db sessId items = stopMarkedSubscriptions env db₂ name := by
    simp only [sessionReply, hName, RvSubscriptionDB.sessionAt, hSess, hState, hLoop, bind,
      Except.bind, if_true]
    rfl
  rw [hReply]
  simp only [stopMarkedSubscriptions, RvSubscriptionDB.sessionAt, hSess₂, bind, Except.bind, hLength]
  constructor
  · intro hRoom
    rw [if_neg (Nat.not_le.mpr hRoom)]
    obtain ⟨db', hStop, hLeft⟩ := stopMarkeds_holdings hNodup₂ linked₂ (fun y hy => by
      have hIn := (hStale y).mp hy
      rw [RvSubscriptionDB.staleSubjects, List.mem_filter, hHt, (linked.mem_subjects hTable).1,
        Bool.and_eq_true, decide_eq_true_eq] at hIn
      obtain ⟨hHeld, -, hNot⟩ := hIn
      refine ⟨(hHolds₂ name y).mpr (.inr hHeld), ?_⟩
      have hEntry : db₂.subTab.find? y = _ := (hHeard.others y hNot).trans
        (markSubscriptions_find env db sess y).2.2
      have hSame : db₂.refcntOf y = db.refcntOf y := by
        unfold RvSubscriptionDB.refcntOf
        rw [hEntry]
        cases db.subTab.find? y with
        | none => rfl
        | some s =>
            dsimp only [Option.map_some]
            split <;> simp
      rw [hSame]
      exact refcntOf_ne_zero inv few hHeld)
    refine ⟨db', hStop, fun y => ?_, fun x y hx => ?_⟩
    · rw [hLeft, hStale, hHolds₂, RvSubscriptionDB.staleSubjects, List.mem_filter, hHt,
        (linked.mem_subjects hTable).1, Bool.and_eq_true, decide_eq_true_eq]
      cases db.isStale sess.queryMono y <;> tauto
    · rw [hLeft, hHolds₂]
      tauto
  · intro hFull
    rw [if_pos hFull]

/-- A reply is received with the clock set and the outputs empty. -/
theorem referenced_received (h : (fewReferences env).Reachable db)
    (ids : SubjectIds env db.nextSubjectCtr) (curMono : BitVec 32) :
    Referenced env { db with outputs := [], curMono := curMono } := by
  have inv := reachable_kept h ids
  have hSame : Quiet db { db with outputs := [], curMono := curMono } :=
    .of_eq rfl rfl rfl rfl rfl
  exact inv.moved (hSame.moves inv)

theorem step_sessionReply {subject reply : Text} {m : Fields} {sessId : BitVec 32}
    (hInbox : matchRvInfo subject = none) (hBranch : replyBranch env subject = some (.session sessId))
    (curMono : BitVec 32) :
    step env { db with outputs := [] } (.pub curMono ⟨subject, reply, .fields m⟩) =
      sessionReply env { db with outputs := [], curMono := curMono } sessId m.items := by
  change processPub2 env { db with outputs := [] } curMono ⟨subject, reply, .fields m⟩ = _
  rw [processPub2_reply env { db with outputs := [] } curMono m hInbox, hBranch]

/-- A session query reply, from any state reached: unless 256 subjects or more are stale,
the session is left with what the reply lists and what it held that was entered since the
query was sent, and all other sessions with what they held. -/
theorem query_reply_reconciles (env : Env) (db : RvSubscriptionDB) (curMono : BitVec 32)
    (subject reply : Text) (m : Fields) (sessId : BitVec 32) (name : Text) (sess : RvSessionEntry)
    (h : (fewReferences env).Reachable db) (few : db.Few) (hClock : curMono ≠ 0)
    (ids : SubjectIds env (db.nextSubjectCtr + (subjectsListed env m.items).length))
    (hInbox : matchRvInfo subject = none) (hBranch : replyBranch env subject = some (.session sessId))
    (hName : getSessionId env db sessId = some name) (hSess : db.sessionTab.find? name = some sess)
    (hState : sess.state = .query) (hTable : sess.subHt ≠ none) :
    ((db.staleSubjects env sess m.items).length < 256 → ∃ db',
      step env { db with outputs := [] } (.pub curMono ⟨subject, reply, .fields m⟩) = .ok db' ∧
        Reconciled env name sess.queryMono m.items db db') ∧
    (256 ≤ (db.staleSubjects env sess m.items).length →
      step env { db with outputs := [] } (.pub curMono ⟨subject, reply, .fields m⟩) =
        .error .arraysFull) := by
  obtain ⟨ht, hHt⟩ := Option.ne_none_iff_exists'.mp hTable
  have inv := referenced_received h (ids.mono (Nat.le_add_right _ _)) curMono
  have few' : { db with outputs := [], curMono := curMono }.Few := few
  rw [step_sessionReply hInbox hBranch]
  exact sessionReply_reconciles inv few' hClock ids hName hSess hState hHt

/-- A reply that lists one subject that the session does not hold and leaves out the one it
does. -/
def sampleReply : Fields where
  items := [⟨text "user", some (text "nobody")⟩, ⟨[], some (text "C.D" ++ [0])⟩, ⟨text "end", none⟩]

theorem query_reply_reconciles_listen : ∃ name sess db', sampleDB.sessionTab.find? name = some sess ∧
    step sampleEnv { sampleDB with outputs := [] }
      (.pub 9 ⟨text "_INBOX." ++ text "0A000009.1.1001", [], .fields sampleReply⟩) = .ok db' ∧
      Reconciled sampleEnv name sess.queryMono sampleReply.items sampleDB db' := by
  obtain ⟨sess, hSess⟩ : ∃ s, sampleDB.sessionTab.find? (text "0A000001.X") = some s :=
    Option.isSome_iff_exists.mp (by decide)
  have hSome : (sampleDB.sessionTab.find? (text "0A000001.X")).any
      (fun s => decide (s.state = .query ∧ s.subHt ≠ none)) = true := by decide
  rw [hSess, Option.any_some, decide_eq_true_eq] at hSome
  have hFew : (sampleDB.staleSubjects sampleEnv sess sampleReply.items).length < 256 := by
    refine (List.length_filter_le _ _).trans_lt ?_
    have hNone : (sampleDB.sessionTab.find? (text "0A000001.X")).all
      (fun s => decide ((subjects sampleEnv sampleDB s.subHt).length < 256)) = true := by decide +kernel
    rw [hSess, Option.all_some, decide_eq_true_eq] at hNone
    exact hNone
  obtain ⟨db', hStep, hDone⟩ := (query_reply_reconciles sampleEnv sampleDB 9
    (text "_INBOX." ++ text "0A000009.1.1001") [] sampleReply 1 (text "0A000001.X") sess sampleDB_reachable
    (few_of_size (by decide)) (by decide) (sampleIds.mono (by decide +kernel))
    (matchRvInfo_inbox (text "0A000009.1.1001")) (by decide +kernel) (by decide +kernel) hSess hSome.1 hSome.2).1 hFew
  exact ⟨_, sess, db', hSess, hStep, hDone⟩

end Sassrv.SubMgr
