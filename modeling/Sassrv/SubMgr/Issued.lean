import Sassrv.SubMgr.Held
import Sassrv.SubMgr.StepTurns

/-! Subject ids over every run: each subscription has one of the ids that
`next_subject_id` has given out. -/
namespace Sassrv.SubMgr
open Partial

variable {env : Env} {P : RvSubscriptionDB → Call → Prop} {db db' : RvSubscriptionDB} {i : Nat}
  {name sub : Text}

/-! A condition that all calls meet is met by every step. -/

/-- `session_ref`. -/
theorem meetsRef_of_forall (h : ∀ db call, P db call) (cid : BitVec 16) :
    MeetsRef env P db cid name :=
  fun _ _ _ => ⟨h _ _, fun _ _ _ => h _ _⟩

theorem meetsSession_of_forall (h : ∀ db call, P db call) (hostId : BitVec 32) (cid : BitVec 16) :
    MeetsSession env P db hostId cid name :=
  fun _ _ => ⟨fun _ => h _ _, fun _ _ => h _ _⟩

theorem meetsSnapshot_of_forall (h : ∀ db call, P db call) (buf : Text) :
    MeetsSnapshot env P db sub name buf := by
  intro session _
  split
  · exact fun _ _ => h _ _
  · exact fun _ _ _ _ => h _ _

/-- Each advisory makes its own calls, and each call meets the condition. -/
theorem meetsAdvisory_of_forall (h : ∀ db call, P db call) (info : SubMatch) (subject reply : Text)
    (m : Fields) : MeetsAdvisory env P db info subject reply m := by
  intro hostId _
  dsimp only
  split
  · exact h _ _
  · exact h _ _
  · exact fun _ _ => h _ _
  · trivial
  · exact meetsSession_of_forall h _ _
  · trivial
  · exact ⟨meetsRef_of_forall h _, fun _ _ => h _ _⟩
  · exact ⟨meetsRef_of_forall h _, fun _ _ _ _ _ => h _ _⟩
  · exact fun _ => meetsSnapshot_of_forall h _
  · exact fun _ _ _ _ _ _ => along_of_forall (fun _ _ _ => h _ _) _ _
  · exact fun _ _ _ _ => h _ _

/-- The field list of the daemon's own table. -/
theorem meetsSync_of_forall (h : ∀ db call, P db call) (hostId : BitVec 32) (cid : BitVec 16)
    (fields : List SyncField) (db : RvSubscriptionDB) : MeetsSync env P hostId cid fields db := by
  induction fields generalizing hostId cid db with
  | nil => trivial
  | cons field rest ih =>
      cases field with
      | id value => exact ih _ _ _
      | cid value => exact ih _ _ _
      | sessions list =>
          unfold MeetsSync
          split
          · exact ih _ _ _
          · refine ⟨h _ _, fun _ _ _ => ⟨along_of_forall ?_ _ _, fun _ _ => ih _ _ _⟩⟩
            exact fun _ _ => ⟨meetsRef_of_forall h _, fun _ _ => along_of_forall (fun _ _ => h _ _) _ _⟩

/-- The loop over the sessions of a host. -/
theorem meetsQuerySessions_of_forall (h : ∀ db call, P db call) (names : List Text)
    (db : RvSubscriptionDB) : MeetsQuerySessions env P i names db := by
  induction names generalizing db with
  | nil => trivial
  | cons name rest ih =>
      intro sess _
      split
      · intro db₁ host _ _
        split
        · exact fun _ _ _ _ => h _ _
        · exact ih db₁
      · exact ih db

theorem meetsExpiry_of_forall (h : ∀ db call, P db call) (list : List RvSass3Entry)
    (db : RvSubscriptionDB) : MeetsExpiry env P db list := by
  induction list generalizing db with
  | nil => trivial
  | cons entry rest ih => exact fun _ => ⟨h _ _, fun db' _ => ih db'⟩

/-- So the runs of the restricted system are all runs. -/
theorem meets_of_forall (h : ∀ db call, P db call) (input : Input) : Meets env P db input := by
  cases input with
  | pub curMono pub =>
      change MeetsPub env P db curMono pub
      unfold MeetsPub
      dsimp only
      split
      · trivial
      · exact meetsAdvisory_of_forall h _ _ _ _
      · exact meetsAdvisory_of_forall h _ _ _ _
      · unfold MeetsReply
        split
        · exact fun _ _ _ => along_of_forall (fun _ _ _ _ _ _ _ => meetsRef_of_forall h _) _ _
        · exact fun _ _ _ _ _ => along_of_forall (fun _ _ _ _ _ _ => h _ _) _ _
      · trivial
  | events curMono =>
      refine ⟨meetsExpiry_of_forall h _ _, fun _ _ => ⟨along_of_forall ?_ _ _, fun _ _ _ => h _ _⟩⟩
      exact fun _ _ _ _ _ => ⟨fun _ _ _ _ _ => h _ _, fun _ _ _ _ _ => meetsQuerySessions_of_forall h _ _⟩
  | sync hosts => exact along_of_forall (fun _ _ => meetsSync_of_forall h _ _ _ _) _ _
  | gc => exact h _ _
  | unsubAll => exact along_of_forall (fun _ _ _ => h _ _) _ _

/-! No new ids but those of `get_subscription`. -/

/-- The subscriptions that are left have the ids they had. -/
structure SameIds (db db' : RvSubscriptionDB) : Prop where
  ctr : db'.nextSubjectCtr = db.nextSubjectCtr
  subs : ∀ x s', db'.subTab.find? x = some s' →
    ∃ s, db.subTab.find? x = some s ∧ s.subjectId = s'.subjectId

namespace SameIds

theorem refl (db : RvSubscriptionDB) : SameIds db db := ⟨rfl, fun _ s' h => ⟨s', h, rfl⟩⟩

theorem trans {a b c : RvSubscriptionDB} (h : SameIds a b) (h' : SameIds b c) : SameIds a c where
  ctr := h'.ctr.trans h.ctr
  subs x s' hs' := by
    obtain ⟨s, hs, hId⟩ := h'.subs x s' hs'
    obtain ⟨t, ht, hEq⟩ := h.subs x s hs
    exact ⟨t, ht, hEq.trans hId⟩

theorem of_eq (hSub : db'.subTab = db.subTab) (hCtr : db'.nextSubjectCtr = db.nextSubjectCtr) :
    SameIds db db' :=
  ⟨hCtr, fun _ s' h => ⟨s', hSub ▸ h, rfl⟩⟩

/-- A call that keeps the subjects and ids of the table keeps them for each subject. -/
theorem of_quiet (h : Quiet db db') : SameIds db db' where
  ctr := h.ctr
  subs x s' hs' := by
    have hSame := congrArg (fun t => (t.find? x).map Prod.fst) h.subs
    simp only [Table.find?_map, Option.map_map, hs', Option.map_some] at hSame
    obtain ⟨s, hs, hId⟩ := Option.map_eq_some_iff.mp hSame.symm
    exact ⟨s, hs, hId⟩

/-- One subscription changes in a field other than its id. -/
theorem of_modify (sub : Text) (f : RvSubscription → RvSubscription)
    (hf : ∀ s, (f s).subjectId = s.subjectId) (hSub : db'.subTab = db.subTab.modify sub f)
    (hCtr : db'.nextSubjectCtr = db.nextSubjectCtr) : SameIds db db' where
  ctr := hCtr
  subs x s' h := by
    rw [hSub, Table.find?_modify, Option.map_eq_some_iff] at h
    obtain ⟨s, hs, rfl⟩ := h
    refine ⟨s, hs, ?_⟩
    split
    · exact (hf s).symm
    · rfl

end SameIds

/-- The loop of `unsub_session` counts down. -/
theorem unsubSession_sameIds (h : unsubSession env db name = .ok db') : SameIds db db' := by
  simp only [unsubSession, bind_eq_ok, pure_eq_ok] at h
  obtain ⟨sess, -, rfl⟩ := h
  have hLoop : SameIds db ((subjects env db sess.subHt).foldl (unsubSubject env name sess) db) :=
    foldl_rel SameIds.refl SameIds.trans (fun db sub _ => .of_modify sub
      (fun s => s.dropRef sess.hasDaemon) (fun _ => rfl) (unsubSubject_subTab env name sess db sub)
      (unsubSubject_calm env name sess db sub).ctr) db
  exact hLoop.trans (.of_eq rfl rfl)

theorem remSession_sameIds (h : remSession env db i name = .ok db') : SameIds db db' := by
  simp only [remSession, bind_eq_ok] at h
  obtain ⟨db₁, hUnsub, hUnlink⟩ := h
  exact (unsubSession_sameIds hUnsub).trans (.of_quiet (unlinkSession_quiet hUnlink))

theorem unsubHost_sameIds (h : unsubHost env db i = .ok db') : SameIds db db' := by
  simp only [unsubHost, bind_eq_ok, pure_eq_ok] at h
  obtain ⟨host, -, db₁, hLoop, rfl⟩ := h
  have hDrop : SameIds db db₁ :=
    foldlM_rel SameIds.refl SameIds.trans (fun _ _ _ _ hOne => unsubSession_sameIds hOne) hLoop
  exact hDrop.trans (.of_eq rfl rfl)

/-- A reference more is no new id. -/
theorem holdSubject_sameIds (env : Env) (db : RvSubscriptionDB) (name : Text)
    (sess : RvSessionEntry) (ht : UIntHashTab) (sub : Text) (script : RvSubscription) :
    SameIds db (holdSubject env db name sess ht sub script).1 := by
  refine .of_modify sub (fun s => s.addRef sess.hasDaemon) (fun _ => rfl)
    (holdSubject_subTab env db name sess ht sub script) ?_
  have hDigest := fun db₁ => (hostDigest_hostsOnly env db₁ name sess sub true).nextSubjectCtr
  unfold holdSubject
  dsimp only
  split
  · exact hDigest _
  · exact hDigest _

/-- A subscription without references keeps its id until `gc`. -/
theorem releaseSubject_sameIds (env : Env) (db : RvSubscriptionDB) (name : Text)
    (sess : RvSessionEntry) (ht : UIntHashTab) (sub : Text) (script : RvSubscription) :
    SameIds db (releaseSubject env db name sess ht sub script).1 := by
  refine .of_modify sub (fun s => s.dropRef sess.hasDaemon) (fun _ => rfl)
    (releaseSubject_subTab env db name sess ht sub script) ?_
  have hDigest := fun db₁ => (hostDigest_hostsOnly env db₁ name sess sub false).nextSubjectCtr
  unfold releaseSubject
  dsimp only
  split
  · exact hDigest _
  · split
    · exact (queryRv7Session_quiet env _ _).ctr.trans (hDigest _)
    · exact hDigest _

theorem derefSubscription_sameIds {r : Listened} (h : derefSubscription env db name sub = .ok r) :
    SameIds db r.db := by
  obtain ⟨sess, script, -, -, -, hCase⟩ := derefSubscription_cases h
  rcases hCase with ⟨-, hDb, -⟩ | ⟨-, -, ht, -, -, hDb⟩
  · rw [hDb]
    exact .refl db
  · rw [hDb]
    exact releaseSubject_sameIds ..

/-- A sass3 message is about a subscription that is there already. -/
theorem sass3_sameIds {script : RvSubscription} {app : SassApp} {flags : BitVec 16}
    {entry : RvSass3Entry} (h : sass3 env db sub script app flags = .ok (db', entry)) :
    SameIds db db' := by
  unfold sass3 at h
  dsimp only at h
  split at h
  · split at h
    · cases h
    · simp only [sass3Known, Except.ok.injEq] at h
      split at h
      · cases h
        exact .refl db
      · split at h
        · cases h
          exact .of_modify sub (fun s => s.dropRef false) (fun _ => rfl) rfl rfl
        · cases h
          exact .of_eq rfl rfl
  · simp only [sass3New, Except.ok.injEq] at h
    split at h
    · cases h
      exact .of_eq rfl rfl
    · cases h
      exact .of_modify sub (fun s => s.addRef false) (fun _ => rfl) rfl rfl

/-- Expiry looks the subscription up by its id and counts it down. -/
theorem expireEntry_sameIds {entry : RvSass3Entry} (h : expireEntry env db entry = .ok db') :
    SameIds db db' := by
  unfold expireEntry at h
  dsimp only at h
  split at h
  · cases h
    exact .of_eq rfl rfl
  · rename_i x _
    simp only [bind_eq_ok] at h
    obtain ⟨script, -, h⟩ := h
    split at h
    · cases h
      exact .of_eq rfl rfl
    · split at h
      · cases h
        exact .of_modify x (fun s => s.dropRef false) (fun _ => rfl) rfl rfl
      · cases h

/-- `gc` drops subscriptions and renames none. -/
theorem gcSubscriptions_sameIds (db : RvSubscriptionDB) : SameIds db (gcSubscriptions db) := by
  unfold SubMgr.gcSubscriptions
  split
  · refine ⟨rfl, fun x s' h => ⟨s', ?_, rfl⟩⟩
    rw [Table.find?_filter] at h
    exact (Option.filter_eq_some_iff.mp h).1
  · exact .refl db

/-- Every subscription has an id that was given out. -/
def Issued (env : Env) (db : RvSubscriptionDB) : Prop :=
  ∀ sub s, db.subTab.find? sub = some s →
    ∃ n, 0 < n ∧ n ≤ db.nextSubjectCtr ∧ s.subjectId = subjectId env n

theorem Issued.of_sameIds (inv : Issued env db) (h : SameIds db db') : Issued env db' := by
  intro sub s' hs'
  obtain ⟨s, hs, hId⟩ := h.subs sub s' hs'
  obtain ⟨n, hPos, hLe, hEq⟩ := inv sub s hs
  exact ⟨n, hPos, h.ctr ▸ hLe, hId.symm.trans hEq⟩

/-- The only place where an id is given out. -/
theorem Issued.getSubscription (inv : Issued env db) (sub : Text) :
    Issued env (getSubscription env db sub) := by
  unfold SubMgr.getSubscription
  split
  · exact inv
  · intro x s hs
    simp only [Table.find?_insert] at hs
    split at hs
    · cases hs
      exact ⟨db.nextSubjectCtr + 1, Nat.succ_pos _, le_rfl, rfl⟩
    · obtain ⟨n, hPos, hLe, hEq⟩ := inv x s hs
      exact ⟨n, hPos, Nat.le_succ_of_le hLe, hEq⟩

theorem Issued.refSubscription (inv : Issued env db) (sub : Text) :
    Issued env (refSubscription env db sub) := by
  unfold SubMgr.refSubscription
  split
  · exact inv.of_sameIds (.of_modify sub (fun s => { s with refMono := db.curMono })
      (fun _ => rfl) rfl rfl)
  · exact inv.getSubscription sub

/-- `listen_ref` may enter the subject first. -/
theorem listenRef_issued (inv : Issued env db) {r : Listened}
    (h : listenRef env db name sub = .ok r) : Issued env r.db := by
  have hRef := inv.refSubscription (stripNul sub)
  obtain ⟨sess, ht, script, -, -, -, -, hCase⟩ := listenRef_cases h
  rcases hCase with ⟨-, hDb, -⟩ | ⟨-, -, hDb⟩
  · rw [hDb]
    exact hRef
  · rw [hDb]
    exact hRef.of_sameIds (holdSubject_sameIds ..)

/-- One case per call. -/
theorem Turn.issued (h : Turn env P db db') (inv : Issued env db) : Issued env db' := by
  cases h with
  | hostRef _ h => exact inv.of_sameIds (.of_quiet (hostRef_hostsOnly h).quiet)
  | hostStart _ h => exact inv.of_sameIds (.of_quiet (hostStart_hostsOnly h).quiet)
  | touchHost => exact inv.of_sameIds (.of_eq rfl rfl)
  | unsubHost _ h => exact inv.of_sameIds (unsubHost_sameIds h)
  | remSession _ h => exact inv.of_sameIds (remSession_sameIds h)
  | enterSession _ _ _ _ _ _ h =>
      refine inv.of_sameIds (SameIds.trans ?_ (.of_quiet (addSession_quiet h)))
      exact .of_eq rfl rfl
  | touchSession => exact inv.of_sameIds (.of_eq rfl rfl)
  | query => exact inv.of_sameIds (.of_eq rfl rfl)
  | touchSub sub hSame =>
      exact inv.of_sameIds (.of_modify sub _ (fun s => (hSame s).subjectId) rfl rfl)
  | getSubscription sub => exact inv.getSubscription sub
  | listen _ isListenStart reply h hScript =>
      have hRef := listenRef_issued inv h
      split
      · exact hRef.of_sameIds (.of_quiet (notify_quiet env _ _))
      · exact hRef
  | release _ h _ _ =>
      exact (inv.of_sameIds (derefSubscription_sameIds h)).of_sameIds (.of_quiet (notify_quiet env _ _))
  | orphan => exact inv.of_sameIds (.of_quiet (notify_quiet env _ _))
  | sass3 _ _ h => exact inv.of_sameIds (sass3_sameIds h)
  | expire _ h => exact inv.of_sameIds (expireEntry_sameIds h)
  | sass3List => exact inv.of_sameIds (.of_eq rfl rfl)
  | note => exact inv.of_sameIds (.of_eq rfl rfl)
  | gcSubscriptions => exact inv.of_sameIds (gcSubscriptions_sameIds _)
  | gcSessions =>
      unfold SubMgr.gcSessions
      split
      · exact inv.of_sameIds (.of_eq rfl rfl)
      · exact inv
  | gcHosts =>
      unfold SubMgr.gcHosts
      split
      · exact inv.of_sameIds (.of_eq rfl rfl)
      · exact inv

/-- The condition that holds of every call restricts no run. -/
theorem restricted_of_reachable (h : (subscriptionDB env).Reachable db) :
    (restricted env fun _ _ => True).Reachable db := by
  obtain ⟨start, inputs, outputs, hInit, hRun⟩ := h
  refine ⟨start, inputs, outputs, hInit, ?_⟩
  induction hRun with
  | nil => exact .nil _
  | snoc _ last ih => exact .snoc ih ⟨meets_of_forall (fun _ _ => trivial) _, last⟩

/-- The ids of every run, from the empty database on. -/
theorem reachable_issued (h : (subscriptionDB env).Reachable db) : Issued env db := by
  refine restricted_invariant (fun curMono => ⟨?_, ?_⟩) ?_ ?_ (restricted_of_reachable h)
  · intro sub s hs
    cases hs
  · exact meetsInit_of_enter trivial fun _ _ _ => trivial
  · exact fun _ inv => inv
  · exact fun _ _ hTurn inv => hTurn.issued inv

end Sassrv.SubMgr
