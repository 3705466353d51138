import Sassrv.SubMgr.Holding
import Sassrv.SubMgr.Process

/-! Every call of the database keeps the reference counts. `Keeps` is for what an
advisory or a reply does. Expiry and `gc` look at a count of zero, so for them the
counts must not have wrapped: `Ebbs` is for what `process_events` does, where
references only go away. -/
namespace Sassrv.SubMgr
open Partial

/-- Fewer references to each id than a 31 bit count can tell from none. -/
def RvSubscriptionDB.Few (db : RvSubscriptionDB) : Prop := ∀ id, db.refs id < 2 ^ 31

/-- What a call does that only lets references go: no new ids, no more references to any id,
and the counts stay right as long as none has wrapped. -/
structure Ebbs (env : Env) (db db' : RvSubscriptionDB) : Prop where
  ctr : db'.nextSubjectCtr = db.nextSubjectCtr
  fewer : ∀ id, db'.refs id ≤ db.refs id
  keeps : SubjectIds env db.nextSubjectCtr → db.Few → Referenced env db → Referenced env db'

theorem Ebbs.refl (env : Env) (db : RvSubscriptionDB) : Ebbs env db db :=
  ⟨rfl, fun _ => le_rfl, fun _ _ inv => inv⟩

theorem Ebbs.trans {env : Env} {a b c : RvSubscriptionDB} (h : Ebbs env a b) (h' : Ebbs env b c) :
    Ebbs env a c where
  ctr := h'.ctr.trans h.ctr
  fewer id := (h'.fewer id).trans (h.fewer id)
  keeps ids few inv :=
    h'.keeps (h.ctr ▸ ids) (fun id => (h.fewer id).trans_lt (few id)) (h.keeps ids few inv)

/-- A call that keeps the counts and adds no reference. -/
theorem Keeps.ebbs {env : Env} {db db' : RvSubscriptionDB} (h : Keeps env db db')
    (hCtr : db'.nextSubjectCtr = db.nextSubjectCtr) (hRefs : ∀ id, db'.refs id ≤ db.refs id) :
    Ebbs env db db' where
  ctr := hCtr
  fewer := hRefs
  keeps ids _ inv := h.keeps (hCtr ▸ ids) inv

theorem Quiet.ebbs {env : Env} {db db' : RvSubscriptionDB} (h : Quiet db db') : Ebbs env db db' :=
  h.keeps.ebbs h.ctr fun id => (h.refs id).le

variable {env : Env} {db db' : RvSubscriptionDB} {name sub : Text} {i : Nat}

/-- A session that is unsubscribed is stopped and holds no table. -/
theorem unsubSession_stopped (h : unsubSession env db name = .ok db') {s : RvSessionEntry}
    (hFind : db'.sessionTab.find? name = some s) : s.subHt = none ∧ s.state = .stop := by
  simp only [unsubSession, bind_eq_ok, pure_eq_ok] at h
  obtain ⟨sess, -, rfl⟩ := h
  simp only [closeSession, RvSubscriptionDB.modifySession, Table.find?_modify_self,
    Option.map_eq_some_iff] at hFind
  obtain ⟨t, -, rfl⟩ := hFind
  exact ⟨rfl, rfl⟩

/-- The references that `unsub_session` drops are those of the session's table. -/
theorem unsubSession_ebbs (h : unsubSession env db name = .ok db') : Ebbs env db db' := by
  have hKeeps := unsubSession_keeps h
  simp only [unsubSession, bind_eq_ok, pure_eq_ok, sessionAt_eq_ok] at h
  obtain ⟨sess, hSess, rfl⟩ := h
  have hCalm := unsubSubjects_calm env name sess (subjects env db sess.subHt) db
  exact hKeeps.ebbs hCalm.ctr fun id => Nat.le.intro (closeSession_refs hCalm hSess id)

/-- Unlinking is in the list of the host. -/
theorem unlinkSession_sessionTab (h : unlinkSession db i name = .ok db') :
    db'.sessionTab = db.sessionTab := by
  simp only [unlinkSession, bind_eq_ok] at h
  obtain ⟨host, -, sess, -, h⟩ := h
  split at h
  · cases h
  · split at h <;> cases h <;> rfl

theorem remSession_keeps (h : remSession env db i name = .ok db') : Keeps env db db' := by
  simp only [remSession, bind_eq_ok] at h
  obtain ⟨db₁, hUnsub, hUnlink⟩ := h
  exact (unsubSession_keeps hUnsub).trans (unlinkSession_quiet hUnlink).keeps

/-- So a session that is removed can be entered again without losing a reference. -/
theorem remSession_stopped (h : remSession env db i name = .ok db') {s : RvSessionEntry}
    (hFind : db'.sessionTab.find? name = some s) : s.subHt = none ∧ s.state = .stop := by
  simp only [remSession, bind_eq_ok] at h
  obtain ⟨db₁, hUnsub, hUnlink⟩ := h
  rw [unlinkSession_sessionTab hUnlink] at hFind
  exact unsubSession_stopped hUnsub hFind

/-- `unsub_host`: every session that is dropped lets references go. -/
theorem unsubHost_ebbs (h : unsubHost env db i = .ok db') : Ebbs env db db' := by
  simp only [unsubHost, bind_eq_ok, pure_eq_ok] at h
  obtain ⟨host, -, db₁, hLoop, rfl⟩ := h
  have hDrop : Ebbs env db db₁ :=
    foldlM_rel (Ebbs.refl env) Ebbs.trans (fun _ _ _ _ hOne => unsubSession_ebbs hOne) hLoop
  apply hDrop.trans
  apply Quiet.ebbs
  exact .of_eq rfl rfl rfl rfl rfl

theorem unsubHost_keeps (h : unsubHost env db i = .ok db') : Keeps env db db' := by
  simp only [unsubHost, bind_eq_ok, pure_eq_ok] at h
  obtain ⟨host, -, db₁, hLoop, rfl⟩ := h
  have hDrop : Keeps env db db₁ :=
    foldlM_rel (Keeps.refl env) Keeps.trans (fun _ _ _ _ hOne => unsubSession_keeps hOne) hLoop
  apply hDrop.trans
  apply Quiet.keeps
  exact .of_eq rfl rfl rfl rfl rfl

/-- A host that is not there is left alone. -/
theorem hostStop_keeps {hostId : BitVec 32} {cid : BitVec 16}
    (h : hostStop env db hostId cid = .ok db') : Keeps env db db' := by
  unfold hostStop at h
  split at h
  · cases h
    exact .refl env db
  · exact unsubHost_keeps h

/-- A session that is not live holds nothing. -/
theorem not_live_subHt (inv : Referenced env db)
    (hLive : ¬ isLive db name = true) {s : RvSessionEntry}
    (hFind : db.sessionTab.find? name = some s) : s.subHt = none := by
  apply inv.stopped name s hFind
  simpa [isLive, hFind] using hLive

/-- A live session of the name is dropped first, so the new entry covers no table. -/
theorem sessionStart_keeps {hostId : BitVec 32} {cid : BitVec 16} {isSelf : Bool}
    {user : Option Text} (h : sessionStart env db hostId cid name isSelf user = .ok db') :
    Keeps env db db' := by
  unfold sessionStart at h
  split at h
  · cases h
    exact .refl env db
  · simp only [bind_eq_ok, pure_eq_ok] at h
    obtain ⟨db₁, hDrop, db₂, hAdd, rfl⟩ := h
    have hFirst : Keeps env db db₁ ∧ (Referenced env db₁ →
        ∀ s, db₁.sessionTab.find? name = some s → s.subHt = none) := by
      unfold dropLive at hDrop
      split at hDrop
      · exact ⟨remSession_keeps hDrop, fun _ s hs => (remSession_stopped hDrop hs).1⟩
      · rename_i hLive
        cases hDrop
        exact ⟨.refl env db, fun inv s hs => not_live_subHt inv hLive hs⟩
    have hStart : Keeps env db (startEntry db₁ name hostId cid true user) :=
      hFirst.1.trans (startEntry_keeps hFirst.2)
    have hQuery : Keeps env db db₂ := by
      apply hStart.trans
      refine Keeps.trans ?_ (addSession_quiet hAdd).keeps
      split
      · apply Quiet.keeps
        apply Quiet.modifySession
        · intro s
          split <;> rfl
        · intro s hStop
          split at hStop
          · exact hStop
          · cases hStop
      · exact .refl env _
    apply hQuery.trans
    split
    · apply Quiet.keeps
      apply Quiet.modifySession
      · exact fun _ => rfl
      · intro s hStop
        cases hStop
    · exact .refl env _

theorem sessionStop_keeps (h : sessionStop env db name = .ok db') : Keeps env db db' := by
  unfold sessionStop at h
  split at h
  · cases h
    exact .refl env db
  · split at h
    · cases h
      exact .refl env db
    · exact remSession_keeps h

/-- `open_session` enters over an entry that holds nothing. -/
theorem openSession_keeps {cid : BitVec 16} (h : openSession env db cid name = .ok db')
    (hClosed : Referenced env db → ∀ s, db.sessionTab.find? name = some s → s.subHt = none) :
    Keeps env db db' := by
  simp only [openSession, bind_eq_ok] at h
  obtain ⟨hostId, -, ⟨db₁, i⟩, hRef, hAdd⟩ := h
  have hHosts := hostRef_hostsOnly hRef
  apply hHosts.quiet.keeps.trans
  refine Keeps.trans ?_ (addSession_quiet hAdd).keeps
  apply startEntry_keeps
  intro inv s hs
  have hBack : Quiet db₁ db := .of_eq hHosts.subTab.symm hHosts.sessionTab.symm
    hHosts.sass3Tab.symm hHosts.sass3List.symm hHosts.nextSubjectCtr.symm
  exact hClosed (inv.moved (hBack.moves inv)) s (hHosts.sessionTab ▸ hs)

/-- `session_ref` opens only a session that is not live. -/
theorem sessionRef_keeps {cid : BitVec 16} (h : sessionRef env db cid name = .ok db') :
    Keeps env db db' := by
  simp only [sessionRef, bind_eq_ok, pure_eq_ok] at h
  obtain ⟨db₁, hOpen, rfl⟩ := h
  have hFirst : Keeps env db db₁ := by
    unfold ensureOpen at hOpen
    split at hOpen
    · cases hOpen
      exact .refl env db
    · rename_i hLive
      exact openSession_keeps hOpen fun inv s hs => not_live_subHt inv hLive hs
  apply hFirst.trans
  apply Quiet.keeps
  exact .modifySession _ _ (fun _ => rfl) fun _ hStop => hStop

/-- `listen_ref`: a subject that the table has already is not counted again. -/
theorem listenRef_keeps {r : Listened} (h : listenRef env db name sub = .ok r) :
    Keeps env db r.db := by
  simp only [listenRef, bind_eq_ok, sessionAt_eq_ok, subAt_eq_ok] at h
  obtain ⟨sess, hSess, script, hScript, h⟩ := h
  apply (refSubscription_keeps env db (stripNul sub)).trans
  split at h
  · cases h
  · rename_i ht hHt
    split at h
    · cases h
      exact .refl env _
    · rename_i hNew
      cases h
      exact holdSubject_keeps hSess hHt hScript (by simpa using hNew)

/-- `deref_subscription`: a subject that the table does not have is not let go. -/
theorem derefSubscription_keeps {r : Listened} (h : derefSubscription env db name sub = .ok r) :
    Keeps env db r.db := by
  simp only [derefSubscription, bind_eq_ok, sessionAt_eq_ok, subAt_eq_ok] at h
  obtain ⟨sess, hSess, script, hScript, h⟩ := h
  split at h
  · cases h
    exact .refl env db
  · split at h
    · cases h
    · rename_i ht hHt
      split at h
      · rename_i hHeld
        cases h
        exact releaseSubject_keeps hSess hHt hScript hHeld
      · cases h
        exact .refl env db

/-- Where the subject was not held, the session is asked and no count moves. -/
theorem listenStop_keeps {r : Listened} (h : listenStop env db name sub = .ok r) :
    Keeps env db r.db := by
  simp only [listenStop, bind_eq_ok] at h
  obtain ⟨r₁, hDrop, h⟩ := h
  have hFirst : Keeps env db r₁.db := by
    unfold derefOrEnter at hDrop
    split at hDrop
    · exact derefSubscription_keeps hDrop
    · cases hDrop
      exact getSubscription_keeps env db sub
  split at h
  · cases h
    exact hFirst
  · cases h
    apply hFirst.trans
    apply Quiet.keeps
    exact .modifySession _ _ toQuery_subHt fun _ => toQuery_stop

theorem queryHost_quiet {buf : Text} (h : queryHost env db buf = .ok db') : Quiet db db' := by
  simp only [queryHost, bind_eq_ok, pure_eq_ok] at h
  obtain ⟨hostId, -, ⟨db₁, i⟩, hRef, rfl⟩ := h
  exact (hostRef_hostsOnly hRef).quiet.trans (modifyHost_hostsOnly _ _ _).quiet

/-- A snapshot holds nothing; it may enter its subject. -/
theorem snapshot_keeps {buf : Text} {found : Option Text}
    (h : snapshot env db sub name buf = .ok (db', found)) : Keeps env db db' := by
  simp only [snapshot, bind_eq_ok] at h
  obtain ⟨script, -, session, -, h⟩ := h
  apply (getSubscription_keeps env db sub).trans
  split at h
  · simp only [bind_eq_ok, pure_eq_ok] at h
    obtain ⟨db₁, hQuery, hEq⟩ := h
    cases hEq
    exact (queryHost_quiet hQuery).keeps
  · split at h
    · cases h
      apply Quiet.keeps
      exact .modifySession _ _ toQuery_subHt fun _ => toQuery_stop
    · cases h
      exact .refl env _

theorem tic_keeps {buf : Text} {found : Option Text}
    (h : tic env db sub name buf = .ok (db', found)) : Keeps env db db' := by
  simp only [tic, bind_eq_ok] at h
  obtain ⟨session, -, h⟩ := h
  apply (getSubscription_keeps env db sub).trans
  split at h
  · simp only [bind_eq_ok, pure_eq_ok] at h
    obtain ⟨db₁, hQuery, hEq⟩ := h
    cases hEq
    exact (queryHost_quiet hQuery).keeps
  · cases h
    exact .refl env _

/-- Marks are states of the sessions. -/
theorem markSessions_quiet (env : Env) (db : RvSubscriptionDB) (host : RvHostEntry) :
    Quiet db (markSessions env db host) := by
  apply foldl_rel Quiet.refl Quiet.trans
  intro db name _
  apply Quiet.modifySession
  · intro s
    split <;> rfl
  · intro s hStop
    split at hStop <;> exact hStop

/-- The marked sessions of a reply: asked again, or removed. -/
theorem stopMarkedSessions_keeps (h : stopMarkedSessions env db i = .ok db') :
    Keeps env db db' := by
  simp only [stopMarkedSessions, bind_eq_ok] at h
  obtain ⟨host, -, h⟩ := h
  split at h
  · cases h
  · have hAsk : ∀ names : List Text, Quiet db (names.foldl
        (fun db name => db.modifySession name RvSessionEntry.toQuery) db) := by
      intro names
      apply foldl_rel Quiet.refl Quiet.trans
      exact fun db name _ => .modifySession db name toQuery_subHt fun _ => toQuery_stop
    apply (hAsk _).keeps.trans
    exact foldlM_rel (Keeps.refl env) Keeps.trans (fun _ _ _ _ hOne => remSession_keeps hOne) h

/-- Marks of subscriptions are in a field of their own. -/
theorem markSubscriptions_quiet (env : Env) (db : RvSubscriptionDB) (sess : RvSessionEntry) :
    Quiet db (markSubscriptions env db sess) := by
  apply foldl_rel Quiet.refl Quiet.trans
  intro db sub _
  apply Quiet.modifySub
  intro s
  split <;> exact ⟨rfl, rfl⟩

theorem stopMarked_keeps (h : stopMarked env name db sub = .ok db') : Keeps env db db' := by
  simp only [stopMarked, bind_eq_ok] at h
  obtain ⟨r, hDrop, h⟩ := h
  apply (derefSubscription_keeps hDrop).trans
  split at h
  · simp only [bind_eq_ok, pure_eq_ok] at h
    obtain ⟨script, -, rfl⟩ := h
    exact (notify_quiet env _ _).keeps
  · cases h
    exact .refl env _

/-- The marked subjects of a reply are let go one by one. -/
theorem stopMarkedSubscriptions_keeps (h : stopMarkedSubscriptions env db name = .ok db') :
    Keeps env db db' := by
  simp only [stopMarkedSubscriptions, bind_eq_ok] at h
  obtain ⟨sess, -, h⟩ := h
  split at h
  · cases h
  · exact foldlM_rel (Keeps.refl env) Keeps.trans (fun _ _ _ _ hOne => stopMarked_keeps hOne) h

/-- A host that was not heard of for the whole timeout loses its sessions. -/
theorem sendHostQuery_ebbs (h : sendHostQuery env db i = .ok db') : Ebbs env db db' := by
  simp only [sendHostQuery, bind_eq_ok] at h
  obtain ⟨host, -, h⟩ := h
  split at h
  · cases h
    exact .refl env db
  · split at h
    · exact unsubHost_ebbs h
    · cases h
      apply Quiet.ebbs
      exact .of_eq rfl rfl rfl rfl rfl

theorem sendSessionQuery_quiet (h : sendSessionQuery env db i name = .ok db') : Quiet db db' := by
  simp only [sendSessionQuery, bind_eq_ok] at h
  obtain ⟨host, -, sess, -, h⟩ := h
  split at h
  · cases h
    exact .refl db
  · split at h
    · cases h
      exact (modifyHost_hostsOnly _ _ _).quiet
    · split at h
      · cases h
        apply Quiet.modifySession
        · exact fun _ => rfl
        · intro s hStop
          cases hStop
      · cases h
        apply (emit_quiet _ _).trans
        exact .modifySession _ _ (fun _ => rfl) fun _ hStop => hStop

/-- The queries hold nothing; the host's sessions may go on the way. -/
theorem querySessions_ebbs {names : List Text} (h : querySessions env i names db = .ok db') :
    Ebbs env db db' := by
  induction names generalizing db with
  | nil =>
      cases h
      exact .refl env _
  | cons name rest ih =>
      simp only [querySessions, bind_eq_ok] at h
      obtain ⟨sess, -, h⟩ := h
      split at h
      · simp only [bind_eq_ok] at h
        obtain ⟨db₁, hSend, host, -, h⟩ := h
        apply (sendSessionQuery_quiet hSend).ebbs.trans
        split at h
        · exact sendHostQuery_ebbs h
        · exact ih h
      · exact ih h

/-- One host of `process_events`: it can only lose references. -/
theorem pollHost_ebbs (h : pollHost env db i = .ok db') : Ebbs env db db' := by
  simp only [pollHost, bind_eq_ok] at h
  obtain ⟨host, -, h⟩ := h
  split at h
  · cases h
    exact .refl env db
  · simp only [bind_eq_ok] at h
    obtain ⟨host₁, -, db₁, hDue, host₂, -, h⟩ := h
    apply (modifyHost_hostsOnly db i _).quiet.ebbs.trans
    have hSend : Ebbs env (db.modifyHost i fun host => host.checkQueryNeeded db.curMono) db₁ := by
      unfold queryIfDue at hDue
      split at hDue
      · exact sendHostQuery_ebbs hDue
      · cases hDue
        exact .refl env _
    apply hSend.trans
    split at h
    · cases h
      exact .refl env _
    · exact querySessions_ebbs h

/-- The walk over `soft_host_query` goes through the hosts only. -/
theorem softQuery_hostsOnly (db : RvSubscriptionDB) (n : Nat) : HostsOnly db (softQuery db n) := by
  induction n with
  | zero => exact ⟨rfl, rfl, rfl, rfl, rfl, rfl, rfl, rfl⟩
  | succ n ih =>
      unfold softQuery
      split
      · exact ⟨rfl, rfl, rfl, rfl, rfl, rfl, rfl, rfl⟩
      · split
        · exact ⟨rfl, rfl, rfl, rfl, rfl, rfl, rfl, rfl⟩
        · exact ih

end Sassrv.SubMgr
