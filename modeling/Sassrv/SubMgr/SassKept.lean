import Sassrv.SubMgr.Runs

/-! What does not touch the sass3 entries: every operation but the messages about them
and their expiry. -/
namespace Sassrv.SubMgr
open Partial

variable {env : Env} {db db' : RvSubscriptionDB} {i : Nat} {name sub : Text}

/-- The table and the list of the sass3 entries are the same. -/
structure SassKept (db db' : RvSubscriptionDB) : Prop where
  tab : db'.sass3Tab = db.sass3Tab
  list : db'.sass3List = db.sass3List

namespace SassKept

theorem refl (db : RvSubscriptionDB) : SassKept db db := ⟨rfl, rfl⟩

theorem trans {a b c : RvSubscriptionDB} (h : SassKept a b) (h' : SassKept b c) : SassKept a c :=
  ⟨h'.tab.trans h.tab, h'.list.trans h.list⟩

theorem of_hostsOnly (h : HostsOnly db db') : SassKept db db' := ⟨h.sass3Tab, h.sass3List⟩

end SassKept

theorem notify_sassKept (env : Env) (db : RvSubscriptionDB) (out : Output) :
    SassKept db (db.notify env out) := by
  unfold RvSubscriptionDB.notify
  split <;> exact ⟨rfl, rfl⟩

theorem queryRv7Session_sassKept (env : Env) (db : RvSubscriptionDB) (hostId : BitVec 32) :
    SassKept db (queryRv7Session env db hostId) := by
  unfold queryRv7Session
  split <;> exact ⟨rfl, rfl⟩

/-- Even the query that a release of the last reference may start leaves them. -/
theorem unsubSubject_sassKept (env : Env) (name : Text) (sess : RvSessionEntry)
    (db : RvSubscriptionDB) (sub : Text) : SassKept db (unsubSubject env name sess db sub) := by
  have hDigest := SassKept.of_hostsOnly (hostDigest_hostsOnly env db name sess sub false)
  unfold unsubSubject
  split
  · exact .refl db
  · dsimp only
    split
    · refine SassKept.trans ?_ (notify_sassKept env _ _)
      exact ⟨hDigest.tab, hDigest.list⟩
    · refine SassKept.trans ?_ (notify_sassKept env _ _)
      split
      · refine SassKept.trans ?_ (queryRv7Session_sassKept env _ _)
        exact ⟨hDigest.tab, hDigest.list⟩
      · exact ⟨hDigest.tab, hDigest.list⟩

/-- `unsub_session`: the loop over its subjects. -/
theorem unsubSession_sassKept (h : unsubSession env db name = .ok db') : SassKept db db' := by
  simp only [unsubSession, bind_eq_ok, pure_eq_ok] at h
  obtain ⟨sess, -, rfl⟩ := h
  have hLoop : SassKept db ((subjects env db sess.subHt).foldl (unsubSubject env name sess) db) :=
    foldl_rel SassKept.refl SassKept.trans
      (fun db sub _ => unsubSubject_sassKept env name sess db sub) db
  exact ⟨hLoop.tab, hLoop.list⟩

/-- The list of the host is all that `rem_session` changes after it. -/
theorem unlinkSession_sassKept (h : unlinkSession db i name = .ok db') : SassKept db db' := by
  simp only [unlinkSession, bind_eq_ok] at h
  obtain ⟨host, -, sess, -, h⟩ := h
  split at h
  · cases h
  · split at h <;> cases h <;> exact ⟨rfl, rfl⟩

theorem remSession_sassKept (h : remSession env db i name = .ok db') : SassKept db db' := by
  simp only [remSession, bind_eq_ok] at h
  obtain ⟨db₁, hUnsub, hUnlink⟩ := h
  exact (unsubSession_sassKept hUnsub).trans (unlinkSession_sassKept hUnlink)

/-- `unsub_host`: the loop over its sessions. -/
theorem unsubHost_sassKept (h : unsubHost env db i = .ok db') : SassKept db db' := by
  simp only [unsubHost, bind_eq_ok, pure_eq_ok] at h
  obtain ⟨host, -, db₁, hLoop, rfl⟩ := h
  have hDrop : SassKept db db₁ :=
    foldlM_rel SassKept.refl SassKept.trans (fun _ _ _ _ hOne => unsubSession_sassKept hOne) hLoop
  exact ⟨hDrop.tab, hDrop.list⟩

theorem hostStop_sassKept {hostId : BitVec 32} {cid : BitVec 16}
    (h : hostStop env db hostId cid = .ok db') : SassKept db db' := by
  unfold hostStop at h
  split at h
  · cases h
    exact .refl db
  · exact unsubHost_sassKept h

/-- `add_session` changes the host and the session that it links. -/
theorem addSession_sassKept (h : addSession env db i name = .ok db') : SassKept db db' := by
  simp only [addSession, bind_eq_ok] at h
  obtain ⟨host, -, sess, -, h⟩ := h
  split at h
  · cases h
  · split at h <;> cases h <;> exact ⟨rfl, rfl⟩

/-- A live session of the name is removed first; then the new one is entered. -/
theorem sessionStart_sassKept {hostId : BitVec 32} {cid : BitVec 16} {isSelf : Bool}
    {user : Option Text} (h : sessionStart env db hostId cid name isSelf user = .ok db') :
    SassKept db db' := by
  unfold sessionStart at h
  split at h
  · cases h
    exact .refl db
  · simp only [bind_eq_ok, pure_eq_ok] at h
    obtain ⟨db₁, hDrop, db₂, hAdd, rfl⟩ := h
    have hFirst : SassKept db db₁ := by
      unfold dropLive at hDrop
      split at hDrop
      · exact remSession_sassKept hDrop
      · cases hDrop
        exact .refl db
    have hSecond : SassKept db₁ db₂ := by
      refine SassKept.trans ?_ (addSession_sassKept hAdd)
      split <;> exact ⟨rfl, rfl⟩
    apply (hFirst.trans hSecond).trans
    split <;> exact ⟨rfl, rfl⟩

theorem sessionStop_sassKept (h : sessionStop env db name = .ok db') : SassKept db db' := by
  unfold sessionStop at h
  split at h
  · cases h
    exact .refl db
  · split at h
    · cases h
      exact .refl db
    · exact remSession_sassKept h

/-- `session_ref`, with the host that it may make. -/
theorem sessionRef_sassKept {cid : BitVec 16} (h : sessionRef env db cid name = .ok db') :
    SassKept db db' := by
  simp only [sessionRef, bind_eq_ok, pure_eq_ok] at h
  obtain ⟨db₁, hOpen, rfl⟩ := h
  have hFirst : SassKept db db₁ := by
    unfold ensureOpen at hOpen
    split at hOpen
    · cases hOpen
      exact .refl db
    · simp only [openSession, bind_eq_ok] at hOpen
      obtain ⟨hostId, -, ⟨db₂, j⟩, hRef, hAdd⟩ := hOpen
      apply (SassKept.of_hostsOnly (hostRef_hostsOnly hRef)).trans
      have hAdded := addSession_sassKept hAdd
      exact ⟨hAdded.tab, hAdded.list⟩
  exact ⟨hFirst.tab, hFirst.list⟩

/-- A new subscription has no sass3 entry yet. -/
theorem getSubscription_sassKept (env : Env) (db : RvSubscriptionDB) (sub : Text) :
    SassKept db (getSubscription env db sub) := by
  unfold getSubscription
  split <;> exact ⟨rfl, rfl⟩

theorem refSubscription_sassKept (env : Env) (db : RvSubscriptionDB) (sub : Text) :
    SassKept db (refSubscription env db sub) := by
  unfold refSubscription
  split
  · exact ⟨rfl, rfl⟩
  · exact getSubscription_sassKept env db sub

/-- `listen_ref` counts in the subscription, never in an entry. -/
theorem listenRef_sassKept {r : Listened} (h : listenRef env db name sub = .ok r) :
    SassKept db r.db := by
  simp only [listenRef, bind_eq_ok] at h
  obtain ⟨sess, -, script, -, h⟩ := h
  apply (refSubscription_sassKept env db (stripNul sub)).trans
  split at h
  · cases h
  · split at h
    · cases h
      exact .refl _
    · cases h
      have hDigest := fun db₁ => SassKept.of_hostsOnly
        (hostDigest_hostsOnly env db₁ name sess (stripNul sub) true)
      unfold holdSubject
      dsimp only
      split <;> exact ⟨(hDigest _).tab, (hDigest _).list⟩

/-- The count goes down in the subscription, with the digest of the host. -/
theorem releaseSubject_sassKept (env : Env) (db : RvSubscriptionDB) (name : Text)
    (sess : RvSessionEntry) (ht : UIntHashTab) (sub : Text) (script : RvSubscription) :
    SassKept db (releaseSubject env db name sess ht sub script).1 := by
  have hDigest := fun db₁ => SassKept.of_hostsOnly (hostDigest_hostsOnly env db₁ name sess sub false)
  unfold releaseSubject
  dsimp only
  split
  · exact ⟨(hDigest _).tab, (hDigest _).list⟩
  · split
    · refine SassKept.trans ?_ (queryRv7Session_sassKept env _ _)
      exact ⟨(hDigest _).tab, (hDigest _).list⟩
    · exact ⟨(hDigest _).tab, (hDigest _).list⟩

/-- `deref_subscription`, whether or not the session holds the subject. -/
theorem derefSubscription_sassKept {r : Listened} (h : derefSubscription env db name sub = .ok r) :
    SassKept db r.db := by
  simp only [derefSubscription, bind_eq_ok] at h
  obtain ⟨sess, -, script, -, h⟩ := h
  split at h
  · cases h
    exact .refl db
  · split at h
    · cases h
    · split at h
      · cases h
        exact releaseSubject_sassKept env db name sess _ sub script
      · cases h
        exact .refl db

/-- `listen_stop`, which enters a subject that is not there. -/
theorem listenStop_sassKept {r : Listened} (h : listenStop env db name sub = .ok r) :
    SassKept db r.db := by
  simp only [listenStop, bind_eq_ok] at h
  obtain ⟨r₁, hDrop, h⟩ := h
  have hFirst : SassKept db r₁.db := by
    unfold derefOrEnter at hDrop
    split at hDrop
    · exact derefSubscription_sassKept hDrop
    · cases hDrop
      exact getSubscription_sassKept env db sub
  split at h <;> cases h <;> exact ⟨hFirst.tab, hFirst.list⟩

/-- The host that a snapshot asks for is made if it is new. -/
theorem queryHost_sassKept {buf : Text} (h : queryHost env db buf = .ok db') : SassKept db db' := by
  simp only [queryHost, bind_eq_ok, pure_eq_ok] at h
  obtain ⟨hostId, -, ⟨db₁, j⟩, hRef, rfl⟩ := h
  have hHosts := SassKept.of_hostsOnly (hostRef_hostsOnly hRef)
  exact ⟨hHosts.tab, hHosts.list⟩

/-- A snapshot asks a session or a host, and counts nothing. -/
theorem snapshot_sassKept {buf : Text} {found : Option Text}
    (h : snapshot env db sub name buf = .ok (db', found)) : SassKept db db' := by
  simp only [snapshot, bind_eq_ok] at h
  obtain ⟨script, -, session, -, h⟩ := h
  apply (getSubscription_sassKept env db sub).trans
  split at h
  · simp only [bind_eq_ok, pure_eq_ok] at h
    obtain ⟨db₁, hQuery, hEq⟩ := h
    cases hEq
    exact queryHost_sassKept hQuery
  · split at h <;> cases h <;> exact ⟨rfl, rfl⟩

theorem tic_sassKept {buf : Text} {found : Option Text}
    (h : tic env db sub name buf = .ok (db', found)) : SassKept db db' := by
  simp only [tic, bind_eq_ok] at h
  obtain ⟨session, -, h⟩ := h
  apply (getSubscription_sassKept env db sub).trans
  split at h
  · simp only [bind_eq_ok, pure_eq_ok] at h
    obtain ⟨db₁, hQuery, hEq⟩ := h
    cases hEq
    exact queryHost_sassKept hQuery
  · cases h
    exact .refl _

/-- The sessions that the reply of a host does not name. -/
theorem stopMarkedSessions_sassKept (h : stopMarkedSessions env db i = .ok db') :
    SassKept db db' := by
  simp only [stopMarkedSessions, bind_eq_ok] at h
  obtain ⟨host, -, h⟩ := h
  split at h
  · cases h
  · have hAsk : ∀ names : List Text, SassKept db (names.foldl
        (fun db name => db.modifySession name RvSessionEntry.toQuery) db) := by
      intro names
      apply foldl_rel SassKept.refl SassKept.trans
      exact fun _ _ _ => ⟨rfl, rfl⟩
    exact (hAsk _).trans (foldlM_rel SassKept.refl SassKept.trans
      (fun _ _ _ _ hOne => remSession_sassKept hOne) h)

/-- The subjects that the reply of a session does not name. -/
theorem stopMarkedSubscriptions_sassKept (h : stopMarkedSubscriptions env db name = .ok db') :
    SassKept db db' := by
  simp only [stopMarkedSubscriptions, bind_eq_ok] at h
  obtain ⟨sess, -, h⟩ := h
  split at h
  · cases h
  · refine foldlM_rel SassKept.refl SassKept.trans (fun db sub db' _ hOne => ?_) h
    simp only [stopMarked, bind_eq_ok] at hOne
    obtain ⟨r, hDrop, hOne⟩ := hOne
    apply (derefSubscription_sassKept hDrop).trans
    split at hOne
    · simp only [bind_eq_ok, pure_eq_ok] at hOne
      obtain ⟨script, -, rfl⟩ := hOne
      exact notify_sassKept env _ _
    · cases hOne
      exact .refl _

/-- A host that was not heard of for the whole timeout loses its sessions. -/
theorem sendHostQuery_sassKept (h : sendHostQuery env db i = .ok db') : SassKept db db' := by
  simp only [sendHostQuery, bind_eq_ok] at h
  obtain ⟨host, -, h⟩ := h
  split at h
  · cases h
    exact .refl db
  · split at h
    · exact unsubHost_sassKept h
    · cases h
      exact ⟨rfl, rfl⟩

theorem sendSessionQuery_sassKept (h : sendSessionQuery env db i name = .ok db') :
    SassKept db db' := by
  simp only [sendSessionQuery, bind_eq_ok] at h
  obtain ⟨host, -, sess, -, h⟩ := h
  split at h
  · cases h
    exact .refl db
  · split at h
    · cases h
      exact ⟨rfl, rfl⟩
    · split at h <;> cases h <;> exact ⟨rfl, rfl⟩

/-- The loop of `process_events` over the sessions of one host. -/
theorem querySessions_sassKept {names : List Text} (h : querySessions env i names db = .ok db') :
    SassKept db db' := by
  induction names generalizing db with
  | nil =>
      cases h
      exact .refl _
  | cons name rest ih =>
      simp only [querySessions, bind_eq_ok] at h
      obtain ⟨sess, -, h⟩ := h
      split at h
      · simp only [bind_eq_ok] at h
        obtain ⟨db₁, hSend, host, -, h⟩ := h
        apply (sendSessionQuery_sassKept hSend).trans
        split at h
        · exact sendHostQuery_sassKept h
        · exact ih h
      · exact ih h

/-- One host of `process_events`. -/
theorem pollHost_sassKept (h : pollHost env db i = .ok db') : SassKept db db' := by
  simp only [pollHost, bind_eq_ok] at h
  obtain ⟨host, -, h⟩ := h
  split at h
  · cases h
    exact .refl db
  · simp only [bind_eq_ok] at h
    obtain ⟨host₁, -, db₁, hDue, host₂, -, h⟩ := h
    have hSend : SassKept db db₁ := by
      unfold queryIfDue at hDue
      split at hDue
      · have hQuery := sendHostQuery_sassKept hDue
        exact ⟨hQuery.tab, hQuery.list⟩
      · cases hDue
        exact ⟨rfl, rfl⟩
    apply hSend.trans
    split at h
    · cases h
      exact .refl _
    · exact querySessions_sassKept h

/-- `gc` frees sessions, subscriptions and hosts, and looks at no entry. -/
theorem gc_sassKept (db : RvSubscriptionDB) : SassKept db (gc db) := by
  have hFirst : SassKept db (gcSubscriptions db) := by
    unfold gcSubscriptions
    split <;> exact ⟨rfl, rfl⟩
  have hSecond : ∀ db, SassKept db (gcSessions db) := by
    intro db
    unfold gcSessions
    split <;> exact ⟨rfl, rfl⟩
  exact (hFirst.trans (hSecond _)).trans (.of_hostsOnly (gcHosts_hostsOnly _))

/-! Messages. -/

theorem hostStatus_sassKept {hostId : BitVec 32} {cid : BitVec 16} {m : Fields}
    (h : hostStatus env db hostId cid m = .ok db') : SassKept db db' := by
  simp only [hostStatus, bind_eq_ok] at h
  obtain ⟨⟨db₁, j⟩, hRef, host, -, h⟩ := h
  have hHosts := SassKept.of_hostsOnly (hostRef_hostsOnly hRef)
  have hAsk : ∀ db host, SassKept db (askHost env db j host) := fun db host =>
    .of_hostsOnly (askHost_hostsOnly env db j host)
  dsimp only at h
  split at h
  · cases h
    refine hHosts.trans (SassKept.trans ?_ (hAsk _ _))
    exact ⟨rfl, rfl⟩
  · split at h
    · split at h
      · cases h
        exact hHosts.trans (hAsk _ _)
      · cases h
        exact hHosts
    · cases h
      exact hHosts

/-- A `LISTEN.START`, with the session that it may start. -/
theorem listenStartAdvisory_sassKept {cid : BitVec 16} {reply : Text}
    (h : listenStartAdvisory env db cid name sub reply = .ok db') : SassKept db db' := by
  simp only [listenStartAdvisory, bind_eq_ok] at h
  obtain ⟨db₁, hRef, sess, -, h⟩ := h
  apply (sessionRef_sassKept hRef).trans
  split at h
  · cases h
    exact .refl _
  · simp only [bind_eq_ok, pure_eq_ok] at h
    obtain ⟨r, hListen, script, -, rfl⟩ := h
    exact (listenRef_sassKept hListen).trans (notify_sassKept env _ _)

/-- A `LISTEN.STOP`, with the session that it may start. -/
theorem listenStopAdvisory_sassKept {cid : BitVec 16}
    (h : listenStopAdvisory env db cid name sub = .ok db') : SassKept db db' := by
  simp only [listenStopAdvisory, bind_eq_ok] at h
  obtain ⟨db₁, hRef, sess, -, h⟩ := h
  apply (sessionRef_sassKept hRef).trans
  split at h
  · cases h
    exact .refl _
  · simp only [bind_eq_ok, pure_eq_ok] at h
    obtain ⟨r, hListen, script, -, rfl⟩ := h
    exact (listenStop_sassKept hListen).trans (notify_sassKept env _ _)

theorem snapAdvisory_sassKept {subject reply : Text} {flags : BitVec 16}
    (h : snapAdvisory env db subject reply flags = .ok db') : SassKept db db' := by
  unfold snapAdvisory at h
  split at h
  · simp only [bind_eq_ok, pure_eq_ok] at h
    obtain ⟨⟨db₁, session⟩, hSnap, rfl⟩ := h
    have hKept := snapshot_sassKept hSnap
    exact ⟨hKept.tab, hKept.list⟩
  · cases h
    exact .refl db

theorem ticAdvisory_sassKept {subject reply : Text} (h : ticAdvisory env db subject reply = .ok db') :
    SassKept db db' := by
  unfold ticAdvisory at h
  split at h
  · simp only [bind_eq_ok, pure_eq_ok] at h
    obtain ⟨⟨db₁, session⟩, hTic, rfl⟩ := h
    have hKept := tic_sassKept hTic
    exact ⟨hKept.tab, hKept.list⟩
  · cases h
    exact .refl db

/-- Only the advisories of sass3 itself reach the entries. -/
theorem advisory_sassKept {info : SubMatch} {subject reply : Text} {m : Fields}
    (hKind : info.kind ≠ .sass) (h : advisory env db info subject reply m = .ok db') :
    SassKept db db' := by
  simp only [advisory, bind_eq_ok] at h
  obtain ⟨hostId, -, h⟩ := h
  split at h
  · exact hostStatus_sassKept h
  · exact .of_hostsOnly (hostStart_hostsOnly h)
  · exact hostStop_sassKept h
  · cases h
    exact queryRv7Session_sassKept env db hostId
  · exact sessionStart_sassKept h
  · exact sessionStop_sassKept h
  · exact listenStartAdvisory_sassKept h
  · exact listenStopAdvisory_sassKept h
  · exact snapAdvisory_sassKept h
  · next hSass => exact absurd hSass hKind
  · exact ticAdvisory_sassKept h

/-- The reply of a host: marks, the sessions named in it, and the rest stopped. -/
theorem hostReply_sassKept {items : List ReplyField} (h : hostReply env db i items = .ok db') :
    SassKept db db' := by
  unfold hostReply at h
  split at h
  · cases h
    exact .refl db
  · next host _ =>
      split at h
      · simp only [bind_eq_ok, pure_eq_ok] at h
        obtain ⟨db₁, hItems, db₂, hStop, rfl⟩ := h
        have hMark : SassKept db (markSessions env db host) := by
          apply foldl_rel SassKept.refl SassKept.trans
          exact fun _ _ _ => ⟨rfl, rfl⟩
        have hLoop : SassKept (markSessions env db host) db₁ := by
          refine foldlM_rel SassKept.refl SassKept.trans (fun db item db' _ hOne => ?_) hItems
          unfold replySession at hOne
          split at hOne
          · simp only [bind_eq_ok] at hOne
            obtain ⟨host, -, hOne⟩ := hOne
            exact sessionRef_sassKept hOne
          · cases hOne
            exact .refl _
        have hAll := (hMark.trans hLoop).trans (stopMarkedSessions_sassKept hStop)
        exact ⟨hAll.tab, hAll.list⟩
      · cases h
        exact .refl db

/-- A subject of a reply is held as one of an advisory. -/
theorem listSubject_sassKept (h : listSubject env name db sub = .ok db') : SassKept db db' := by
  simp only [listSubject, bind_eq_ok] at h
  obtain ⟨r, hListen, h⟩ := h
  apply (listenRef_sassKept hListen).trans
  split at h
  · simp only [bind_eq_ok, pure_eq_ok] at h
    obtain ⟨script, -, rfl⟩ := h
    exact notify_sassKept env _ _
  · cases h
    exact .refl _

theorem replySubject_sassKept {item : ReplyField} (h : replySubject env name db item = .ok db') :
    SassKept db db' := by
  unfold replySubject at h
  split at h
  · split at h
    · exact listSubject_sassKept h
    · cases h
      exact .refl db
  · cases h
    exact .refl db
  · split at h <;> cases h <;> exact ⟨rfl, rfl⟩

/-- The reply of a session: marks, the subjects named in it, and the rest stopped. -/
theorem sessionReply_sassKept {sessId : BitVec 32} {items : List ReplyField}
    (h : sessionReply env db sessId items = .ok db') : SassKept db db' := by
  unfold sessionReply at h
  split at h
  · cases h
    exact .refl db
  · next found _ =>
      simp only [bind_eq_ok] at h
      obtain ⟨sess, -, h⟩ := h
      split at h
      · simp only [bind_eq_ok] at h
        obtain ⟨db₁, hItems, h⟩ := h
        have hMark : SassKept db (markSubscriptions env db sess) := by
          apply foldl_rel SassKept.refl SassKept.trans
          exact fun _ _ _ => ⟨rfl, rfl⟩
        have hLoop : SassKept (markSubscriptions env db sess) db₁ :=
          foldlM_rel SassKept.refl SassKept.trans (fun _ _ _ _ hOne => replySubject_sassKept hOne)
            hItems
        have hStop := stopMarkedSubscriptions_sassKept h
        exact (hMark.trans hLoop).trans ⟨hStop.tab, hStop.list⟩
      · cases h
        exact .refl db

/-- The field list of one host in the daemon's own table. -/
theorem syncHost_sassKept {hostId : BitVec 32} {cid : BitVec 16} {fields : List SyncField}
    (h : syncHost env hostId cid fields db = .ok db') : SassKept db db' := by
  induction fields generalizing db hostId cid with
  | nil =>
      cases h
      exact .refl _
  | cons field rest ih =>
      cases field with
      | id value => exact ih h
      | cid value => exact ih h
      | sessions list =>
          unfold syncHost at h
          split at h
          · exact ih h
          · simp only [bind_eq_ok] at h
            obtain ⟨⟨db₁, j⟩, hRef, db₂, hList, h⟩ := h
            apply (SassKept.of_hostsOnly (hostRef_hostsOnly hRef)).trans
            refine SassKept.trans ?_ (ih h)
            refine foldlM_rel SassKept.refl SassKept.trans (fun db s db' _ hOne => ?_) hList
            unfold syncSession at hOne
            split at hOne
            · cases hOne
            · simp only [bind_eq_ok] at hOne
              obtain ⟨db₃, hSess, sess, -, hOne⟩ := hOne
              apply (sessionRef_sassKept hSess).trans
              split at hOne
              · cases hOne
                exact .refl _
              · exact foldlM_rel SassKept.refl SassKept.trans
                  (fun _ _ _ _ hSub => listSubject_sassKept hSub) hOne

theorem unsubAll_sassKept (h : unsubAll env db = .ok db') : SassKept db db' := by
  refine foldlM_rel SassKept.refl SassKept.trans (fun db j db' _ hOne => ?_) h
  simp only [bind_eq_ok] at hOne
  obtain ⟨host, -, hOne⟩ := hOne
  split at hOne
  · cases hOne
    exact .refl db
  · exact unsubHost_sassKept hOne

/-- The database starts with none. -/
theorem startSubscriptions_sassKept {curMono : BitVec 32} {s2 : Bool}
    (h : startSubscriptions env curMono s2 = .ok db) :
    SassKept { curMono := curMono, nextGc := curMono + 131 } db := by
  unfold startSubscriptions at h
  dsimp only at h
  split at h
  · simp only [bind_eq_ok] at h
    obtain ⟨⟨db₁, i⟩, hRef, hStart⟩ := h
    have hHosts := SassKept.of_hostsOnly (hostRef_hostsOnly hRef)
    have hSelf := sessionStart_sassKept hStart
    exact hHosts.trans ⟨hSelf.tab, hSelf.list⟩
  · cases h
    exact .refl _

end Sassrv.SubMgr
