import Sassrv.SubMgr.Steps

/-! Which session holds which subject, and what the operations on a subject of a
session do to that relation. -/
namespace Sassrv.SubMgr
open Partial

/-- The table of the session has the id of the subject. -/
def RvSubscriptionDB.Holds (db : RvSubscriptionDB) (name sub : Text) : Prop :=
  ∃ sess script, db.sessionTab.find? name = some sess ∧ db.subTab.find? sub = some script ∧
    sess.holds script.subjectId = true

/-- The count of a subject, which is none where the subject has no entry. -/
def RvSubscriptionDB.refcntOf (db : RvSubscriptionDB) (sub : Text) : BitVec 31 :=
  match db.subTab.find? sub with
  | none => 0
  | some script => script.refcnt

variable {env : Env} {db db' : RvSubscriptionDB} {name sub : Text}

theorem holds_of_tables (hHeld : db'.sessionTab.map RvSessionEntry.subHt =
      db.sessionTab.map RvSessionEntry.subHt)
    (hIds : ∀ x, (db'.subTab.find? x).map RvSubscription.subjectId =
      (db.subTab.find? x).map RvSubscription.subjectId) (x y : Text) :
    db'.Holds x y ↔ db.Holds x y := by
  have hOne : ∀ {a b : RvSubscriptionDB}, b.sessionTab.map RvSessionEntry.subHt =
      a.sessionTab.map RvSessionEntry.subHt →
      (∀ x, (b.subTab.find? x).map RvSubscription.subjectId =
        (a.subTab.find? x).map RvSubscription.subjectId) → b.Holds x y → a.Holds x y := by
    rintro a b hHeld hIds ⟨sess', script', hSess', hScript', hHolds⟩
    have hSame := congrArg (fun t => t.find? x) hHeld
    simp only [Table.find?_map, hSess', Option.map_some] at hSame
    obtain ⟨sess, hSess, hHt⟩ := Option.map_eq_some_iff.mp hSame.symm
    obtain ⟨script, hScript, hId⟩ := exists_sub_of_ids hIds hScript'
    refine ⟨sess, script, hSess, hScript, ?_⟩
    rw [hId]
    simpa only [RvSessionEntry.holds, hHt] using hHolds
  exact ⟨hOne hHeld hIds, hOne hHeld.symm fun x => (hIds x).symm⟩

theorem modifySub_holds (db : RvSubscriptionDB) (sub : Text) {f : RvSubscription → RvSubscription}
    (hId : ∀ s, (f s).subjectId = s.subjectId) (x y : Text) :
    (db.modifySub sub f).Holds x y ↔ db.Holds x y := by
  have hIds : ∀ z, ((db.modifySub sub f).subTab.find? z).map RvSubscription.subjectId =
      (db.subTab.find? z).map RvSubscription.subjectId := by
    intro z
    simp only [RvSubscriptionDB.modifySub, Table.find?_modify, Option.map_map]
    congr 1
    funext s
    by_cases hz : z = sub <;> simp [hz, hId]
  have hHeld : (db.modifySub sub f).sessionTab.map RvSessionEntry.subHt =
      db.sessionTab.map RvSessionEntry.subHt := rfl
  exact holds_of_tables hHeld hIds x y

theorem holds_iff_contains (db : RvSubscriptionDB) {sess : RvSessionEntry} {ht : UIntHashTab} {script : RvSubscription}
    (hSess : db.sessionTab.find? name = some sess) (hHt : sess.subHt = some ht)
    (hScript : db.subTab.find? sub = some script) :
    db.Holds name sub ↔ ht.contains script.subjectId = true := by
  have hHolds : sess.holds script.subjectId = ht.contains script.subjectId := by
    simp [RvSessionEntry.holds, hHt]
  rw [← hHolds]
  constructor
  · rintro ⟨sess', script', hSess', hScript', h⟩
    cases hSess.symm.trans hSess'
    cases hScript.symm.trans hScript'
    exact h
  · exact fun h => ⟨sess, script, hSess, hScript, h⟩

/-- A subject is referenced, or entered with the next id. -/
theorem refSubscription_cases (env : Env) (db : RvSubscriptionDB) (sub : Text) :
    ((∃ script, db.subTab.find? sub = some script) ∧
      refSubscription env db sub = db.modifySub sub fun s => { s with refMono := db.curMono }) ∨
    (db.subTab.find? sub = none ∧
      refSubscription env db sub =
        { db with
          nextSubjectCtr := db.nextSubjectCtr + 1
          subTab := db.subTab.insert sub
            (.start (subjectId env (db.nextSubjectCtr + 1)) db.curMono) }) := by
  by_cases hOld : db.subTab.contains sub = true
  · refine .inl ⟨Table.contains_iff.mp hOld, ?_⟩
    rw [refSubscription, if_pos hOld]
  · refine .inr ⟨by simpa [Table.contains] using hOld, ?_⟩
    rw [refSubscription, if_neg hOld, getSubscription, if_neg hOld]

/-- A subject that is entered or referenced is not held for that. -/
theorem refSubscription_holds (ids : SubjectIds env (db.nextSubjectCtr + 1))
    (inv : Referenced env db) (sub x y : Text) :
    (refSubscription env db sub).Holds x y ↔ db.Holds x y := by
  rcases refSubscription_cases env db sub with ⟨-, h⟩ | ⟨hFresh, h⟩
  · rw [h]
    refine modifySub_holds db sub ?_ x y
    exact fun _ => rfl
  · rw [h]
    constructor
    · rintro ⟨sess, script, hSess, hScript, hHolds⟩
      simp only [Table.find?_insert] at hScript
      split at hScript
      · -- nothing has the id that is given out
        cases hScript
        obtain ⟨ht, hash, hHt, hMem⟩ := holds_iff.mp hHolds
        obtain ⟨z, s, hz, hId, -⟩ := inv.held x sess ht _ hash hSess hHt hMem
        obtain ⟨n, hPos, hLe, hIssued⟩ := inv.issued z s hz
        have hEq := ids.distinct n (db.nextSubjectCtr + 1) hPos (Nat.le_succ_of_le hLe)
          (Nat.succ_pos _) le_rfl (hIssued.symm.trans hId)
        omega
      · exact ⟨sess, script, hSess, hScript, hHolds⟩
    · rintro ⟨sess, script, hSess, hScript, hHolds⟩
      refine ⟨sess, script, hSess, ?_, hHolds⟩
      have hNe : y ≠ sub := by
        rintro rfl
        cases hFresh.symm.trans hScript
      simp [hNe, hScript]

theorem refSubscription_refcntOf (env : Env) (db : RvSubscriptionDB) (sub x : Text) :
    (refSubscription env db sub).refcntOf x = db.refcntOf x := by
  unfold RvSubscriptionDB.refcntOf
  rcases refSubscription_cases env db sub with ⟨-, h⟩ | ⟨hFresh, h⟩
  · rw [h, RvSubscriptionDB.modifySub, Table.find?_modify]
    cases db.subTab.find? x with
    | none => rfl
    | some s => by_cases hx : x = sub <;> simp [hx]
  · rw [h, Table.find?_insert]
    by_cases hx : x = sub
    · subst hx
      simp [hFresh, RvSubscription.start]
    · simp [hx]

theorem refSubscription_find (env : Env) (db : RvSubscriptionDB) (sub : Text) :
    ∃ script, (refSubscription env db sub).subTab.find? sub = some script := by
  rcases refSubscription_cases env db sub with ⟨⟨s, hs⟩, h⟩ | ⟨-, h⟩
  · exact ⟨_, by rw [h, RvSubscriptionDB.modifySub, Table.find?_modify_self, hs, Option.map_some]⟩
  · exact ⟨_, by rw [h, Table.find?_insert_self]⟩

theorem refSubscription_ctr (env : Env) (db : RvSubscriptionDB) (sub : Text) :
    (refSubscription env db sub).nextSubjectCtr ≤ db.nextSubjectCtr + 1 := by
  rcases refSubscription_cases env db sub with ⟨-, h⟩ | ⟨-, h⟩
  · rw [h]
    exact Nat.le_succ _
  · rw [h]

/-- One id more or less in the table of a session, and the count of the subject changed. -/
theorem moveHeld {db₁ : RvSubscriptionDB} {sess : RvSessionEntry} {ht ht' : UIntHashTab}
    {script : RvSubscription} {g : RvSubscription → RvSubscription} {now : Prop}
    (inv : Referenced env db) (hSess : db.sessionTab.find? name = some sess)
    (hHt : sess.subHt = some ht) (hScript : db.subTab.find? sub = some script)
    (hTab : db₁.sessionTab.map RvSessionEntry.subHt =
      (db.sessionTab.modify name fun s => s.setSubHt ht').map RvSessionEntry.subHt)
    (hSubs : db₁.subTab = db.subTab.modify sub g) (hId : ∀ s, (g s).subjectId = s.subjectId)
    (hOther : ∀ id, id ≠ script.subjectId → ht'.contains id = ht.contains id)
    (hSelf : ht'.contains script.subjectId = true ↔ now) (x y : Text) :
    db₁.Holds x y ↔ (if x = name ∧ y = sub then now else db.Holds x y) := by
  have hMoved : db₁.Holds x y ↔
      ({ db with sessionTab := db.sessionTab.modify name fun s => s.setSubHt ht' }).Holds x y := by
    refine (holds_of_tables hTab ?_ x y).trans
      (modifySub_holds { db with sessionTab := _ } sub hId x y)
    intro z
    rw [hSubs]
    rfl
  rw [hMoved]
  by_cases hx : x = name
  · subst hx
    have hSess' : (db.sessionTab.modify x fun s => s.setSubHt ht').find? x =
        some (sess.setSubHt ht') := by
      rw [Table.find?_modify_self, hSess, Option.map_some]
    by_cases hy : y = sub
    · subst hy
      rw [if_pos ⟨rfl, rfl⟩, ← hSelf]
      exact holds_iff_contains { db with sessionTab := _ } hSess' rfl hScript
    · rw [if_neg fun h => hy h.2]
      cases hFind : db.subTab.find? y with
      | none =>
          refine iff_of_false ?_ ?_
          · rintro ⟨s, script', -, hScript', -⟩
            cases hFind.symm.trans hScript'
          · rintro ⟨s, script', -, hScript', -⟩
            cases hFind.symm.trans hScript'
      | some script' =>
          have hNe : script'.subjectId ≠ script.subjectId := fun hEq =>
            hy (inv.distinct y script' sub script hFind hScript hEq)
          rw [holds_iff_contains db hSess hHt hFind, ← hOther _ hNe]
          exact holds_iff_contains { db with sessionTab := _ } hSess' rfl hFind
  · rw [if_neg fun h => hx h.1]
    have hSess' : ∀ s, (db.sessionTab.modify name fun s => s.setSubHt ht').find? x = some s ↔
        db.sessionTab.find? x = some s := by
      intro s
      rw [Table.find?_modify_ne _ _ hx]
    constructor
    · rintro ⟨s, script', hs, hScript', hHolds⟩
      exact ⟨s, script', (hSess' s).mp hs, hScript', hHolds⟩
    · rintro ⟨s, script', hs, hScript', hHolds⟩
      exact ⟨s, script', (hSess' s).mpr hs, hScript', hHolds⟩

theorem releaseSubject_subTab (env : Env) (db : RvSubscriptionDB) (name : Text)
    (sess : RvSessionEntry) (ht : UIntHashTab) (sub : Text) (script : RvSubscription) :
    (releaseSubject env db name sess ht sub script).1.subTab =
      db.subTab.modify sub fun s => s.dropRef sess.hasDaemon := by
  have hDigest := fun db₁ => (hostDigest_hostsOnly env db₁ name sess sub false).subTab
  unfold releaseSubject
  dsimp only
  split
  · exact hDigest _
  · split
    · rw [queryRv7Session_subTab]
      exact hDigest _
    · exact hDigest _

theorem releaseSubject_held (env : Env) (db : RvSubscriptionDB) (name : Text)
    (sess : RvSessionEntry) (ht : UIntHashTab) (sub : Text) (script : RvSubscription) :
    (releaseSubject env db name sess ht sub script).1.sessionTab.map RvSessionEntry.subHt =
      (db.sessionTab.modify name fun s => s.setSubHt (ht.erase script.subjectId)).map
        RvSessionEntry.subHt := by
  have hDigest := fun db₁ => (hostDigest_hostsOnly env db₁ name sess sub false).sessionTab
  unfold releaseSubject
  dsimp only
  split
  · exact congrArg _ (hDigest _)
  · split
    · rw [(queryRv7Session_quiet env _ _).held]
      exact congrArg _ (hDigest _)
    · exact congrArg _ (hDigest _)

/-- `listen_ref` on a session that has a table. -/
theorem listenRef_spec (sub : Text) {sess : RvSessionEntry} {ht : UIntHashTab}
    (ids : SubjectIds env (db.nextSubjectCtr + 1)) (inv : Referenced env db)
    (hSess : db.sessionTab.find? name = some sess) (hHt : sess.subHt = some ht) :
    ∃ r, listenRef env db name sub = .ok r ∧ (r.done = true ↔ ¬ db.Holds name (stripNul sub)) ∧
      ∀ x y, r.db.Holds x y ↔ (if x = name ∧ y = stripNul sub then True else db.Holds x y) := by
  have hHolds := refSubscription_holds ids inv (stripNul sub)
  have hGrows := refSubscription_ctr env db (stripNul sub)
  have inv₁ := (refSubscription_keeps env db (stripNul sub)).keeps (ids.mono hGrows) inv
  obtain ⟨script, hScript⟩ := refSubscription_find env db (stripNul sub)
  have hSess₁ : (refSubscription env db (stripNul sub)).sessionTab.find? name = some sess := by
    rw [refSubscription_sessionTab, hSess]
  have hContains := holds_iff_contains _ hSess₁ hHt hScript
  rw [hHolds] at hContains
  simp only [listenRef, RvSubscriptionDB.sessionAt, hSess₁, RvSubscriptionDB.subAt, hScript, hHt,
    bind, Except.bind]
  split
  · next hHeld =>
      refine ⟨_, rfl, ?_, ?_⟩
      · exact iff_of_false Bool.false_ne_true (not_not.mpr (hContains.mpr hHeld))
      · intro x y
        rw [hHolds]
        split
        · next hSame =>
            obtain ⟨rfl, rfl⟩ := hSame
            exact iff_of_true (hContains.mpr hHeld) trivial
        · exact Iff.rfl
  · next hNot =>
      refine ⟨_, rfl, ?_, ?_⟩
      · exact iff_of_true rfl (mt hContains.mp hNot)
      · intro x y
        rw [← hHolds]
        have hTab := congrArg (fun t => t.map RvSessionEntry.subHt)
          (holdSubject_sessionTab env (refSubscription env db (stripNul sub)) name sess ht
            (stripNul sub) script)
        refine moveHeld inv₁ hSess₁ hHt hScript hTab (holdSubject_subTab _ _ _ _ _ _ _)
          (fun _ => rfl) ?_ ?_ x y
        · intro id hNe
          simp [Table.contains_insert, hNe]
        · simp [Table.contains_insert]

/-- `deref_subscription` on a session that has a table. -/
theorem derefSubscription_spec {sess : RvSessionEntry} {ht : UIntHashTab} {script : RvSubscription}
    (inv : Referenced env db) (hSess : db.sessionTab.find? name = some sess)
    (hHt : sess.subHt = some ht) (hScript : db.subTab.find? sub = some script)
    (hRef : script.refcnt ≠ 0) :
    ∃ r, derefSubscription env db name sub = .ok r ∧ (r.done = true ↔ db.Holds name sub) ∧
      ∀ x y, r.db.Holds x y ↔ (if x = name ∧ y = sub then False else db.Holds x y) := by
  have hContains := holds_iff_contains db hSess hHt hScript
  simp only [derefSubscription, RvSubscriptionDB.sessionAt, hSess, RvSubscriptionDB.subAt, hScript,
    hHt, bind, Except.bind, if_neg hRef]
  split
  · next hHeld =>
      refine ⟨_, rfl, iff_of_true rfl (hContains.mpr hHeld), ?_⟩
      intro x y
      refine moveHeld inv hSess hHt hScript (releaseSubject_held _ _ _ _ _ _ _)
        (releaseSubject_subTab _ _ _ _ _ _ _) (fun _ => rfl) ?_ ?_ x y
      · intro id hNe
        simp [Table.contains_erase, hNe]
      · simp [Table.contains_erase]
  · next hNot =>
      refine ⟨_, rfl, iff_of_false Bool.false_ne_true (mt hContains.mp hNot), ?_⟩
      intro x y
      split
      · next hSame =>
          obtain ⟨rfl, rfl⟩ := hSame
          exact iff_of_false (mt hContains.mp hNot) id
      · exact Iff.rfl

end Sassrv.SubMgr
