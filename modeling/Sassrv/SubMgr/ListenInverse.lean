import Sassrv.SubMgr.Held
import Sassrv.SubMgr.HostTurns
import Sassrv.SubMgr.Runs

/-! `listen_stop` against `listen_start`. The start takes a `'\0'` off the end of the
subject, the stop looks the subject up as it comes. -/
namespace Sassrv.SubMgr
open Partial Transition

variable {env : Env} {db : RvSubscriptionDB} {name sub : Text}

/-- The host in a slot counts the pairs of a session that have this subject. -/
def CountedAt (env : Env) (db : RvSubscriptionDB) (sess : RvSessionEntry) (sub : Text)
    (i : Nat) : Prop :=
  Counted sub ∧ findHost env db sess.hostId sess.cid = some i

instance (env : Env) (db : RvSubscriptionDB) (sess : RvSessionEntry) (sub : Text) (i : Nat) :
    Decidable (CountedAt env db sess sub i) := inferInstanceAs (Decidable (_ ∧ _))

/-- The host that counts the pair has room for one more in its 32-bit `sub_count`. -/
def CountFits (env : Env) (db : RvSubscriptionDB) (sess : RvSessionEntry) (sub : Text) : Prop :=
  ∀ i host, CountedAt env db sess sub i → db.hostTab[i]? = some host → host.subCount + 1 ≠ 0

theorem hostDigest_getElem? (env : Env) (db : RvSubscriptionDB) (name : Text)
    (sess : RvSessionEntry) (sub : Text) (isAdd : Bool) (i : Nat) :
    (hostDigest env db name sess sub isAdd).hostTab[i]? = (db.hostTab[i]?).map fun host =>
      if CountedAt env db sess sub i then host.digest isAdd (pairHash env name sub) else host := by
  unfold hostDigest
  by_cases hCounted : Counted sub
  · rw [if_pos hCounted]
    cases hFind : findHost env db sess.hostId sess.cid with
    | none => simp [CountedAt, hFind]
    | some j =>
        dsimp only
        rw [RvSubscriptionDB.modifyHost, List.getElem?_modify]
        by_cases hj : j = i
        · simp [CountedAt, hFind, hj, hCounted]
        · simp [CountedAt, hFind, hj]
  · simp [CountedAt, hCounted]

theorem CountedAt.congr {db' : RvSubscriptionDB} {sess sess' : RvSessionEntry}
    (hIndex : db'.hostHt = db.hostHt) (hLength : db'.hostTab.length = db.hostTab.length)
    (hHost : sess'.hostId = sess.hostId) (hCid : sess'.cid = sess.cid) (i : Nat) :
    CountedAt env db' sess' sub i ↔ CountedAt env db sess sub i := by
  rw [CountedAt, CountedAt, findHost, findHost, hIndex, hLength, hHost, hCid]

/-- A host after one pair more and the same pair less. -/
def RvHostEntry.digestTwice (host : RvHostEntry) (pairHash : BitVec 32) : RvHostEntry :=
  (host.digest true pairHash).digest false pairHash

@[simp] theorem RvHostEntry.digestTwice_subDigest (host : RvHostEntry) (hash : BitVec 32) :
    (host.digestTwice hash).subDigest = host.subDigest := by
  rw [digestTwice, digest, digest, BitVec.xor_assoc, BitVec.xor_self, BitVec.xor_zero]

/-- The guarded decrement takes the one back, unless the sum was 0. -/
theorem RvHostEntry.digestTwice_subCount (host : RvHostEntry) (hash : BitVec 32) :
    (host.digestTwice hash).subCount = host.subCount ↔ host.subCount + 1 ≠ 0 := by
  simp only [digestTwice, digest, if_true, Bool.false_eq_true, if_false]
  by_cases hZero : host.subCount + 1 = 0
  · rw [hZero, if_neg (BitVec.lt_irrefl 0)]
    refine iff_of_false ?_ (not_not_intro rfl)
    intro hSame
    rw [← hSame] at hZero
    exact absurd hZero (by decide)
  · have hPos : 0 < host.subCount + 1 := by bv_omega
    rw [if_pos hPos, BitVec.add_sub_cancel]
    exact iff_of_true rfl hZero

/-- A pair that is added and taken away again: every host has done both or neither. -/
theorem hostDigest_twice {db₁ : RvSubscriptionDB} {sess sess' : RvSessionEntry}
    (hTab : db₁.hostTab = (hostDigest env db name sess sub true).hostTab)
    (hIndex : db₁.hostHt = db.hostHt) (hHost : sess'.hostId = sess.hostId)
    (hCid : sess'.cid = sess.cid) (i : Nat) :
    (hostDigest env db₁ name sess' sub false).hostTab[i]? = (db.hostTab[i]?).map fun host =>
      if CountedAt env db sess sub i then host.digestTwice (pairHash env name sub) else host := by
  have hLength : db₁.hostTab.length = db.hostTab.length := by
    rw [hTab]
    exact (hostDigest_digestsOnly env db name sess sub true).slotsKept.length
  rw [hostDigest_getElem?, hTab, hostDigest_getElem?, Option.map_map]
  congr 1
  funext host
  simp only [Function.comp_apply, CountedAt.congr hIndex hLength hHost hCid]
  split
  · rfl
  · rfl

/-- What the session holds, the counts of references and the digests, `sub_count` and
`sub_digest`, are what they were. -/
structure Restored (db db' : RvSubscriptionDB) (name : Text) : Prop where
  held : ∀ sub, db'.Holds name sub ↔ db.Holds name sub
  refcnt : ∀ sub, db'.refcntOf sub = db.refcntOf sub
  count : db'.hostTab.map RvHostEntry.subCount = db.hostTab.map RvHostEntry.subCount
  digest : db'.hostTab.map RvHostEntry.subDigest = db.hostTab.map RvHostEntry.subDigest

section Twice
variable {db' : RvSubscriptionDB} {sess : RvSessionEntry}
  (hTwice : ∀ i, db'.hostTab[i]? = (db.hostTab[i]?).map fun host =>
    if CountedAt env db sess sub i then host.digestTwice (pairHash env name sub) else host)
include hTwice

theorem subDigest_twice :
    db'.hostTab.map RvHostEntry.subDigest = db.hostTab.map RvHostEntry.subDigest := by
  apply List.ext_getElem?
  intro i
  rw [List.getElem?_map, List.getElem?_map, hTwice, Option.map_map]
  congr 1
  funext host
  rw [Function.comp_apply]
  split
  · exact host.digestTwice_subDigest _
  · rfl

theorem subCount_twice :
    db'.hostTab.map RvHostEntry.subCount = db.hostTab.map RvHostEntry.subCount ↔
      CountFits env db sess sub := by
  constructor
  · intro hSame i host hAt hHost
    have hSlot := congrArg (fun l => l[i]?) hSame
    simp only [List.getElem?_map, hTwice, hHost, Option.map_some, if_pos hAt,
      Option.some.injEq] at hSlot
    exact (host.digestTwice_subCount _).mp hSlot
  · intro hFits
    apply List.ext_getElem?
    intro i
    rw [List.getElem?_map, List.getElem?_map, hTwice]
    cases hHost : db.hostTab[i]? with
    | none => rfl
    | some host =>
        rw [Option.map_some, Option.map_some, Option.map_some]
        split
        · next hAt => rw [(host.digestTwice_subCount _).mpr (hFits i host hAt hHost)]
        · rfl

end Twice

/-- `listen_stop` after `listen_start` with the same bytes. It is no orphan if it is done. -/
def StopUndoes (env : Env) (db : RvSubscriptionDB) (name sub : Text) : Prop :=
  ∃ start stop, listenRef env db name sub = .ok start ∧
    listenStop env start.db name sub = .ok stop ∧ stop.done = true ∧ Restored db stop.db name

theorem holdSubject_hostTab (env : Env) (db : RvSubscriptionDB) (name : Text) (sess : RvSessionEntry)
    (ht : UIntHashTab) (sub : Text) (script : RvSubscription) :
    ∃ db₁ : RvSubscriptionDB, db₁.hostTab = db.hostTab ∧ db₁.hostHt = db.hostHt ∧
      (holdSubject env db name sess ht sub script).1.hostTab =
        (hostDigest env db₁ name sess sub true).hostTab := by
  refine ⟨(db.modifySession name fun s => s.setSubHt (ht.insert script.subjectId
    (env.crcC sub 0))).modifySub sub fun s => s.addRef sess.hasDaemon, rfl, rfl, ?_⟩
  unfold holdSubject
  dsimp only
  split <;> rfl

theorem releaseSubject_hostTab (env : Env) (db : RvSubscriptionDB) (name : Text)
    (sess : RvSessionEntry) (ht : UIntHashTab) (sub : Text) (script : RvSubscription) :
    ∃ db₁ : RvSubscriptionDB, db₁.hostTab = db.hostTab ∧ db₁.hostHt = db.hostHt ∧
      (releaseSubject env db name sess ht sub script).1.hostTab =
        (hostDigest env db₁ name sess sub false).hostTab := by
  refine ⟨(db.modifySession name fun s => s.setSubHt (ht.erase script.subjectId)).modifySub sub
    fun s => s.dropRef sess.hasDaemon, rfl, rfl, ?_⟩
  unfold releaseSubject
  dsimp only
  split
  · rfl
  · split
    · unfold queryRv7Session
      split <;> rfl
    · rfl

theorem holdSubject_ctr (env : Env) (db : RvSubscriptionDB) (name : Text) (sess : RvSessionEntry)
    (ht : UIntHashTab) (sub : Text) (script : RvSubscription) :
    (holdSubject env db name sess ht sub script).1.nextSubjectCtr = db.nextSubjectCtr := by
  have hDigest := fun db₁ => (hostDigest_hostsOnly env db₁ name sess sub true).quiet.ctr
  unfold holdSubject
  dsimp only
  split <;> exact hDigest _

theorem refSubscription_hostTab (env : Env) (db : RvSubscriptionDB) (sub : Text) :
    (refSubscription env db sub).hostTab = db.hostTab ∧
      (refSubscription env db sub).hostHt = db.hostHt := by
  rcases refSubscription_cases env db sub with ⟨-, h⟩ | ⟨-, h⟩
  · rw [h]
    exact ⟨rfl, rfl⟩
  · rw [h]
    exact ⟨rfl, rfl⟩

theorem refcntOf_modify {db₁ : RvSubscriptionDB} {g : RvSubscription → RvSubscription}
    (hSubs : db₁.subTab = db.subTab.modify sub g) (x : Text) :
    db₁.refcntOf x = if x = sub then
      (match db.subTab.find? sub with | none => 0 | some script => (g script).refcnt)
      else db.refcntOf x := by
  unfold RvSubscriptionDB.refcntOf
  rw [hSubs, Table.find?_modify]
  by_cases hx : x = sub
  · subst hx
    rw [if_pos rfl]
    cases db.subTab.find? x <;> simp
  · rw [if_neg hx]
    cases db.subTab.find? x <;> simp [hx]

/-- `listen_stop` is done if it finds the subject and drops a reference. -/
theorem listenStop_done {stop : Listened} : (listenStop env db name sub = .ok stop ∧ stop.done = true) ↔
    ((∃ script, db.subTab.find? sub = some script) ∧
      derefSubscription env db name sub = .ok stop ∧ stop.done = true) := by
  unfold listenStop derefOrEnter
  by_cases hFound : db.subTab.contains sub = true
  · rw [if_pos hFound, and_iff_right (Table.contains_iff.mp hFound)]
    cases hDeref : derefSubscription env db name sub with
    | error e => simp [bind, Except.bind]
    | ok r =>
        by_cases hDone : r.done = true
        · simp [bind, Except.bind, hDone, pure, Except.pure]
        · simp only [bind, Except.bind, hDone, pure, Except.pure, Except.ok.injEq,
            Bool.false_eq_true, if_false]
          constructor
          · rintro ⟨rfl, h⟩
            exact absurd h Bool.false_ne_true
          · rintro ⟨rfl, h⟩
            exact absurd h hDone
  · rw [if_neg hFound]
    refine iff_of_false ?_ fun h => hFound (Table.contains_iff.mpr h.1)
    rintro ⟨h, hDone⟩
    simp only [bind, Except.bind, Bool.false_eq_true, if_false, pure, Except.pure,
      Except.ok.injEq] at h
    rw [← h] at hDone
    cases hDone

/-- What `listen_start` leaves when the session did not hold the subject. -/
structure Started (env : Env) (db : RvSubscriptionDB) (name sub : Text) (start : Listened)
    (sess : RvSessionEntry) (ht : UIntHashTab) (script : RvSubscription) : Prop where
  session : start.db.sessionTab.find? name = some (sess.setSubHt ht)
  entered : start.db.subTab.find? sub = some script
  refcnt : script.refcnt = db.refcntOf sub + 1
  others : ∀ x, x ≠ sub → start.db.refcntOf x = db.refcntOf x
  holds : ∀ x y, start.db.Holds x y ↔ (if x = name ∧ y = sub then True else db.Holds x y)
  kept : Referenced env start.db
  digest : ∃ (db₁ : RvSubscriptionDB) (sess₁ : RvSessionEntry), db₁.hostTab = db.hostTab ∧
    db₁.hostHt = db.hostHt ∧ sess₁.hostId = sess.hostId ∧ sess₁.cid = sess.cid ∧
    start.db.hostTab = (hostDigest env db₁ name sess₁ sub true).hostTab ∧
    start.db.hostHt = db.hostHt

theorem exists_started {sess : RvSessionEntry} {ht : UIntHashTab}
    (ids : SubjectIds env (db.nextSubjectCtr + 1)) (inv : Referenced env db)
    (hSess : db.sessionTab.find? name = some sess) (hHt : sess.subHt = some ht)
    (hNot : ¬ db.Holds name (stripNul sub)) :
    ∃ start ht' script, listenRef env db name sub = .ok start ∧
      Started env db name (stripNul sub) start sess ht' script := by
  obtain ⟨start, hStart, hDone, hHolds⟩ := listenRef_spec sub ids inv hSess hHt
  obtain ⟨sess₁, ht₁, script, hSess₁, hHt₁, hScript, -, hCase⟩ := listenRef_cases hStart
  rw [refSubscription_sessionTab] at hSess₁
  cases hSess.symm.trans hSess₁
  cases hHt.symm.trans hHt₁
  rcases hCase with ⟨-, -, hFalse⟩ | ⟨-, -, hDb⟩
  · exact absurd (hDone.mpr hNot) (by simp [hFalse])
  have hSubs := congrArg RvSubscriptionDB.subTab hDb
  rw [holdSubject_subTab] at hSubs
  have hSessions := congrArg RvSubscriptionDB.sessionTab hDb
  rw [holdSubject_sessionTab, refSubscription_sessionTab] at hSessions
  have hCounts := refcntOf_modify hSubs
  refine ⟨start, ht.insert script.subjectId (env.crcC (stripNul sub) 0),
    script.addRef sess.hasDaemon, hStart, ?_⟩
  constructor
  case session => rw [hSessions, Table.find?_modify_self, hSess, Option.map_some]
  case entered => rw [hSubs, Table.find?_modify_self, hScript, Option.map_some]
  case refcnt =>
    have hOld := refSubscription_refcntOf env db (stripNul sub) (stripNul sub)
    rw [RvSubscriptionDB.refcntOf, hScript] at hOld
    exact congrArg (· + 1) hOld
  case others =>
    intro x hx
    rw [hCounts, if_neg hx, refSubscription_refcntOf]
  case holds => exact hHolds
  case kept =>
    have hGrows : start.db.nextSubjectCtr ≤ db.nextSubjectCtr + 1 := by
      rw [hDb]
      exact (holdSubject_ctr env _ name sess ht _ script).trans_le
        (refSubscription_ctr env db (stripNul sub))
    exact (listenRef_keeps hStart).keeps (ids.mono hGrows) inv
  case digest =>
    obtain ⟨hTab, hIndex⟩ := refSubscription_hostTab env db (stripNul sub)
    obtain ⟨db₁, hTab₁, hIndex₁, hHosts⟩ := holdSubject_hostTab env
      (refSubscription env db (stripNul sub)) name sess ht (stripNul sub) script
    refine ⟨db₁, sess, hTab₁.trans hTab, hIndex₁.trans hIndex, rfl, rfl, ?_, ?_⟩
    · rw [hDb]
      exact hHosts
    · rw [hDb, (holdSubject_digestsOnly env _ name sess ht _ script).hostHt, hIndex]

/-- A stop that finds what the start entered takes it away, and the digests are as they
were if the count of the host had room for the pair. -/
theorem Started.restored {start : Listened} {sess : RvSessionEntry} {ht : UIntHashTab}
    {script : RvSubscription} (h : Started env db name sub start sess ht script)
    (hNot : ¬ db.Holds name sub) (hRef : db.refcntOf sub + 1 ≠ 0) :
    ∃ stop, listenStop env start.db name sub = .ok stop ∧ stop.done = true ∧
      (Restored db stop.db name ↔ CountFits env db sess sub) := by
  have hCount : script.refcnt ≠ 0 := by
    rw [h.refcnt]
    exact hRef
  obtain ⟨stop, hDeref, hDone, hHolds⟩ := derefSubscription_spec h.kept h.session rfl h.entered hCount
  have hHeld : start.db.Holds name sub := by
    rw [h.holds, if_pos ⟨rfl, rfl⟩]
    trivial
  have hStop := listenStop_done.mpr ⟨⟨script, h.entered⟩, hDeref, hDone.mpr hHeld⟩
  refine ⟨stop, hStop.1, hStop.2, ?_⟩
  obtain ⟨sess₁, script₁, hSess₁, hScript₁, -, hCase⟩ := derefSubscription_cases hDeref
  rcases hCase with ⟨hFalse, -⟩ | ⟨-, -, ht₁, -, -, hDb⟩
  · exact absurd hStop.2 (by simp [hFalse])
  cases h.session.symm.trans hSess₁
  cases h.entered.symm.trans hScript₁
  have hHosts : ∀ i, stop.db.hostTab[i]? = (db.hostTab[i]?).map fun host =>
      if CountedAt env db sess sub i then host.digestTwice (pairHash env name sub) else host := by
    obtain ⟨db₁, sess₂, hTab₁, hIndex₁, hHost, hCid, hHosts, hIndex⟩ := h.digest
    obtain ⟨db₂, hTab₂, hIndex₂, hHosts₂⟩ := releaseSubject_hostTab env start.db name
      (sess.setSubHt ht) ht₁ sub script
    have hHost' : (sess.setSubHt ht).hostId = sess₂.hostId := hHost.symm
    have hCid' : (sess.setSubHt ht).cid = sess₂.cid := hCid.symm
    intro i
    rw [hDb, hHosts₂, hostDigest_twice (hTab₂.trans hHosts)
      (hIndex₂.trans (hIndex.trans hIndex₁.symm)) hHost' hCid', hTab₁]
    simp only [CountedAt.congr hIndex₁ (congrArg List.length hTab₁) hHost hCid]
  rw [← subCount_twice hHosts]
  refine ⟨Restored.count, fun hCounts => ⟨?_, ?_, hCounts, subDigest_twice hHosts⟩⟩
  · intro x
    rw [hHolds]
    by_cases hx : x = sub
    · subst hx
      rw [if_pos ⟨rfl, rfl⟩]
      exact iff_of_false id hNot
    · rw [if_neg fun hBoth => hx hBoth.2, h.holds, if_neg fun hBoth => hx hBoth.2]
  · intro x
    have hSubs := congrArg RvSubscriptionDB.subTab hDb
    rw [releaseSubject_subTab] at hSubs
    rw [refcntOf_modify hSubs]
    split
    · next hx =>
        subst hx
        rw [h.entered]
        dsimp only
        rw [RvSubscription.dropRef, h.refcnt]
        exact BitVec.add_sub_cancel _ _
    · next hx => exact h.others x hx

/-- A `'\0'` at the end is taken off by the start only, and a count at its limit, of the
references or of the host's pairs, is zero with one more. -/
theorem listen_stop_undoes_iff (env : Env) (db : RvSubscriptionDB) (name sub : Text)
    (sess : RvSessionEntry) (ht : UIntHashTab) (ids : SubjectIds env (db.nextSubjectCtr + 1))
    (hReach : (fewReferences env).Reachable db) (hSess : db.sessionTab.find? name = some sess)
    (hHt : sess.subHt = some ht) (hNot : ¬ db.Holds name (stripNul sub)) :
    StopUndoes env db name sub ↔ sub.getLast? ≠ some 0 ∧ db.refcntOf sub + 1 ≠ 0 ∧
      CountFits env db sess sub := by
  have inv := reachable_kept hReach (ids.mono (Nat.le_succ _))
  obtain ⟨start, ht', script, hStart, h⟩ := exists_started ids inv hSess hHt hNot
  by_cases hNul : sub.getLast? = some 0
  · refine iff_of_false ?_ fun hBoth => hBoth.1 hNul
    rintro ⟨start', stop, hStart', hStop, hDone, hRestored⟩
    cases hStart.symm.trans hStart'
    have hNe : stripNul sub ≠ sub := by
      rw [stripNul, if_pos hNul]
      intro hEq
      have hLength := congrArg List.length hEq
      have hPos : sub ≠ [] := by
        rintro rfl
        cases hNul
      have hLt := List.length_pos_iff.mpr hPos
      rw [List.length_dropLast] at hLength
      omega
    obtain ⟨-, hDeref, -⟩ := listenStop_done.mp ⟨hStop, hDone⟩
    obtain ⟨sess₁, script₁, hSess₁, hScript₁, -, hCase⟩ := derefSubscription_cases hDeref
    rcases hCase with ⟨hFalse, -⟩ | ⟨-, hRef, ht₁, hHt₁, -, -⟩
    · exact absurd hDone (by simp [hFalse])
    · obtain ⟨stop', hDeref', -, hHolds⟩ := derefSubscription_spec h.kept hSess₁ hHt₁ hScript₁ hRef
      cases hDeref.symm.trans hDeref'
      have hStill : stop.db.Holds name (stripNul sub) := by
        rw [hHolds, if_neg fun hBoth => hNe hBoth.2, h.holds, if_pos ⟨rfl, rfl⟩]
        trivial
      exact hNot ((hRestored.held (stripNul sub)).mp hStill)
  · have hSame : stripNul sub = sub := if_neg hNul
    rw [hSame] at h hNot
    rw [and_iff_right hNul]
    constructor
    · rintro ⟨start', stop, hStart', hStop, hDone, hRestored⟩
      cases hStart.symm.trans hStart'
      have hRef : db.refcntOf sub + 1 ≠ 0 := by
        intro hZero
        obtain ⟨-, hDeref, -⟩ := listenStop_done.mp ⟨hStop, hDone⟩
        obtain ⟨sess₁, script₁, -, hScript₁, -, hCase⟩ := derefSubscription_cases hDeref
        rcases hCase with ⟨hFalse, -⟩ | ⟨-, hRef, -⟩
        · exact absurd hDone (by simp [hFalse])
        · cases h.entered.symm.trans hScript₁
          exact hRef (h.refcnt.trans hZero)
      obtain ⟨stop', hStop', -, hFits⟩ := h.restored hNot hRef
      cases hStop.symm.trans hStop'
      exact ⟨hRef, hFits.mp hRestored⟩
    · rintro ⟨hRef, hFits⟩
      obtain ⟨stop, hStop, hDone, hRestored⟩ := h.restored hNot hRef
      exact ⟨start, stop, hStart, hStop, hDone, hRestored.mpr hFits⟩

theorem not_holds_of_new (h : db.subTab.find? sub = none) : ¬ db.Holds name sub := by
  rintro ⟨sess, script, -, hScript, -⟩
  cases h.symm.trans hScript

theorem listen_stop_undoes_one : StopUndoes sampleEnv sampleDB (text "0A000001.X") (text "A.C") := by
  obtain ⟨sess, ht, hSess, hHt⟩ : ∃ sess ht,
      sampleDB.sessionTab.find? (text "0A000001.X") = some sess ∧ sess.subHt = some ht :=
    ⟨_, _, rfl, rfl⟩
  have hNew : sampleDB.subTab.find? (stripNul (text "A.C")) = none := by decide
  have hRef : sampleDB.refcntOf (text "A.C") + 1 ≠ 0 := by decide
  have hCounts : ∀ host ∈ sampleDB.hostTab, host.subCount + 1 ≠ 0 := by decide
  have hFits : CountFits sampleEnv sampleDB sess (text "A.C") :=
    fun _ _ _ hHost => hCounts _ (List.mem_of_getElem? hHost)
  exact (listen_stop_undoes_iff sampleEnv sampleDB (text "0A000001.X") (text "A.C") sess ht
    (sampleIds.mono (by decide)) sampleDB_reachable hSess hHt (not_holds_of_new hNew)).mpr
      ⟨by decide, hRef, hFits⟩

/-- The stop of `A.C` with a `'\0'` is an orphan, and the session goes on holding `A.C`. -/
theorem listen_stop_keeps_nul : (fewReferences sampleEnv).Reachable sampleDB ∧
    isLive sampleDB (text "0A000001.X") = true ∧
    ¬ sampleDB.Holds (text "0A000001.X") (stripNul (text "A.C" ++ [0])) ∧
    ¬ StopUndoes sampleEnv sampleDB (text "0A000001.X") (text "A.C" ++ [0]) := by
  refine ⟨sampleDB_reachable, by decide, not_holds_of_new (by decide), ?_⟩
  rintro ⟨start, stop, hStart, hStop, hDone, -⟩
  have hRun : ((listenRef sampleEnv sampleDB (text "0A000001.X") (text "A.C" ++ [0])).bind
      fun start => listenStop sampleEnv start.db (text "0A000001.X") (text "A.C" ++ [0])).map
        Listened.done = .ok false := by decide +kernel
  rw [hStart, Except.bind, hStop] at hRun
  have hFalse := Except.ok.inj hRun
  rw [hDone] at hFalse
  cases hFalse

end Sassrv.SubMgr
