import Sassrv.SubMgr.Held
import Sassrv.SubMgr.HostTurns
import Sassrv.SubMgr.Runs
import Sassrv.SubMgr.StepTurns

/-! When a stop advisory stops what it names. `session_stop` asks `host_exists`, which
does not know hosts of a connection id; `host_stop` goes through the table that the
entry of the host has now. -/
namespace Sassrv.SubMgr
open Partial Transition

variable {env : Env} {db db' : RvSubscriptionDB} {name x : Text}

/-- The references to an id without those of one session. -/
def RvSubscriptionDB.refsWithout (db : RvSubscriptionDB) (name : Text) (id : BitVec 32) : Nat :=
  (db.sessionTab.entries.countP fun e => e.1 ≠ name && e.2.holds id) + db.sassHolders id

/-- The session is not live, and no count has a part of it. -/
structure Stopped (db : RvSubscriptionDB) (name : Text) : Prop where
  entry : ∀ s, db.sessionTab.find? name = some s → s.state = .stop ∧ s.subHt = none
  counted : ∀ sub script, db.subTab.find? sub = some script →
    script.refcnt = BitVec.ofNat 31 (db.refsWithout name script.subjectId)

theorem stopped_iff (inv : Referenced env db) :
    Stopped db name ↔ ∀ s, db.sessionTab.find? name = some s → s.state = .stop := by
  constructor
  · exact fun h s hs => (h.entry s hs).1
  · intro h
    have hNone : ∀ s, db.sessionTab.find? name = some s → s.subHt = none := fun s hs =>
      inv.stopped name s hs (h s hs)
    refine ⟨fun s hs => ⟨h s hs, hNone s hs⟩, fun sub script hScript => ?_⟩
    rw [inv.counted sub script hScript]
    have hHolders : db.holders script.subjectId =
        db.sessionTab.entries.countP fun e => e.1 ≠ name && e.2.holds script.subjectId := by
      apply List.countP_congr
      intro e he
      by_cases hName : e.1 = name
      · have hFind : db.sessionTab.find? name = some e.2 :=
          Table.find?_eq_some.mpr (hName ▸ he)
        simp [hName, RvSessionEntry.holds, hNone e.2 hFind]
      · simp [hName]
    rw [RvSubscriptionDB.refs, hHolders]
    rfl

/-- The session was closed: its id is in no table of the database. -/
def Closed (db : RvSubscriptionDB) (name : Text) : Prop :=
  ∃ s, db.sessionTab.find? name = some s ∧ s.state = .stop ∧ s.subHt = none ∧
    db.sessHt.find? s.sessionId = none

theorem Closed.of_eq (h : Closed db name) (hTab : db'.sessionTab = db.sessionTab)
    (hHt : db'.sessHt = db.sessHt) : Closed db' name := by
  unfold Closed
  rw [hTab, hHt]
  exact h

theorem Closed.of_hostsOnly (h : Closed db name) (hOnly : HostsOnly db db') : Closed db' name :=
  h.of_eq hOnly.sessionTab hOnly.sessHt

/-- `get_session` by an id finds no closed session. -/
theorem Closed.queryRv7Session (h : Closed db name) (hostId : BitVec 32) :
    Closed (queryRv7Session env db hostId) name := by
  unfold SubMgr.queryRv7Session
  split
  · exact h
  · next found hFound =>
      obtain ⟨s, hs, hState, hNone, hGone⟩ := h
      have hNe : name ≠ found := by
        rintro rfl
        obtain ⟨id, hId⟩ := getRv7Session_found hFound
        obtain ⟨hash, hHash, hBy⟩ := Option.bind_eq_some_iff.mp hId
        obtain ⟨t, ht, hSessId, -⟩ := getSessionBy_eq_some hBy
        cases hs.symm.trans ht
        rw [hSessId, hHash] at hGone
        cases hGone
      exact ⟨s, by simp [RvSubscriptionDB.modifySession, hNe, hs], hState, hNone, hGone⟩

theorem Closed.notify (h : Closed db name) (out : Output) : Closed (db.notify env out) name := by
  unfold RvSubscriptionDB.notify
  split
  · exact h.of_eq rfl rfl
  · exact h

theorem Closed.unsubSubject (h : Closed db x) (sess : RvSessionEntry) (sub : Text) :
    Closed (unsubSubject env name sess db sub) x := by
  have hDigest := h.of_hostsOnly (hostDigest_hostsOnly env db name sess sub false)
  unfold SubMgr.unsubSubject
  split
  · exact h
  · dsimp only
    split
    · refine Closed.notify ?_ _
      exact hDigest.of_eq rfl rfl
    · apply Closed.notify
      split
      · refine Closed.queryRv7Session ?_ _
        exact hDigest.of_eq rfl rfl
      · exact hDigest.of_eq rfl rfl

/-- Dropping a session closes it and leaves closed sessions closed. -/
theorem unsubSession_closes (h : unsubSession env db name = .ok db') : Closed db' name := by
  simp only [unsubSession, bind_eq_ok, pure_eq_ok, sessionAt_eq_ok] at h
  obtain ⟨sess, hSess, rfl⟩ := h
  have hCores := unsubSubjects_coresKept env name sess (subjects env db sess.subHt) db
  obtain ⟨t, ht, hSame⟩ := hCores.symm.session hSess
  have hFind : (closeSession ((subjects env db sess.subHt).foldl (unsubSubject env name sess) db) name
      sess.sessionId).sessionTab.find? name = some (t.stop
        ((subjects env db sess.subHt).foldl (unsubSubject env name sess) db).curMono) := by
    simp only [closeSession, RvSubscriptionDB.modifySession, Table.find?_modify_self, ht,
      Option.map_some]
  have hId : t.sessionId = sess.sessionId := hSame.sessionId.symm
  refine ⟨_, hFind, rfl, rfl, ?_⟩
  simp [closeSession, RvSubscriptionDB.modifySession, RvSessionEntry.stop, hId]

theorem Closed.unsubSession (h : Closed db x) (hUnsub : unsubSession env db name = .ok db') :
    Closed db' x := by
  by_cases hx : x = name
  · subst hx
    exact unsubSession_closes hUnsub
  · simp only [SubMgr.unsubSession, bind_eq_ok, pure_eq_ok, sessionAt_eq_ok] at hUnsub
    obtain ⟨sess, -, rfl⟩ := hUnsub
    have hLoop : ∀ (subs : List Text) (db : RvSubscriptionDB), Closed db x →
        Closed (subs.foldl (SubMgr.unsubSubject env name sess) db) x := by
      intro subs
      induction subs with
      | nil => exact fun _ h => h
      | cons sub rest ih => exact fun db h => ih _ (h.unsubSubject sess sub)
    obtain ⟨s, hs, hState, hNone, hGone⟩ := hLoop (subjects env db sess.subHt) db h
    refine ⟨s, ?_, hState, hNone, ?_⟩
    · simp [closeSession, RvSubscriptionDB.modifySession, hx, hs]
    · simp only [closeSession, RvSubscriptionDB.modifySession, Table.find?_erase]
      split
      · rfl
      · exact hGone

theorem Closed.unsubSessions {names : List Text} (h : Closed db x)
    (hUnsub : names.foldlM (SubMgr.unsubSession env) db = .ok db') : Closed db' x := by
  induction names generalizing db with
  | nil =>
      cases hUnsub
      exact h
  | cons name rest ih =>
      rw [List.foldlM_cons, bind_eq_ok] at hUnsub
      obtain ⟨db₁, hFirst, hRest⟩ := hUnsub
      exact ih (h.unsubSession hFirst) hRest

/-- No other session is stopped with it. -/
theorem unsubSession_live {s : RvSessionEntry} (h : unsubSession env db name = .ok db')
    (hx : x ≠ name) (hFind : db.sessionTab.find? x = some s) (hLive : s.state ≠ .stop) :
    ∃ s', db'.sessionTab.find? x = some s' ∧ s'.state ≠ .stop := by
  simp only [unsubSession, bind_eq_ok, pure_eq_ok, sessionAt_eq_ok] at h
  obtain ⟨sess, -, rfl⟩ := h
  have hCores := unsubSubjects_coresKept env name sess (subjects env db sess.subHt) db
  have hCalm := unsubSubjects_calm env name sess (subjects env db sess.subHt) db
  obtain ⟨s', hs', -⟩ := hCores.symm.session hFind
  refine ⟨s', by simp [closeSession, RvSubscriptionDB.modifySession, hx, hs'], fun hStop => ?_⟩
  obtain ⟨t, ht, hState⟩ := hCalm.stopped x s' hs' hStop
  cases hFind.symm.trans ht
  exact hLive hState

/-- The loop of `unsub_host` closes the sessions it walks, and stops no other. -/
theorem unsubSessions_stops {names : List Text} (h : names.foldlM (unsubSession env) db = .ok db') :
    (∀ x ∈ names, Closed db' x) ∧ ∀ x ∉ names, ∀ s, db.sessionTab.find? x = some s →
      s.state ≠ .stop → ∃ s', db'.sessionTab.find? x = some s' ∧ s'.state ≠ .stop := by
  induction names generalizing db with
  | nil =>
      cases h
      exact ⟨by simp, fun x _ s hs hLive => ⟨s, hs, hLive⟩⟩
  | cons name rest ih =>
      rw [List.foldlM_cons, bind_eq_ok] at h
      obtain ⟨db₁, hFirst, hRest⟩ := h
      obtain ⟨hClosed, hOther⟩ := ih hRest
      constructor
      · intro x hx
        rcases List.mem_cons.mp hx with rfl | hLater
        · exact (unsubSession_closes hFirst).unsubSessions hRest
        · exact hClosed x hLater
      · intro x hx s hs hLive
        rw [List.mem_cons, not_or] at hx
        obtain ⟨s₁, hs₁, hLive₁⟩ := unsubSession_live hFirst hx.1 hs hLive
        exact hOther x hx.2 s₁ hs₁ hLive₁

theorem unlinkSession_sessHt {i : Nat} (h : unlinkSession db i name = .ok db') :
    db'.sessHt = db.sessHt := by
  simp only [unlinkSession, bind_eq_ok] at h
  obtain ⟨host, -, sess, -, h⟩ := h
  split at h
  · cases h
  · split at h <;> cases h <;> rfl

/-- The session is live with this host id and connection id. -/
def RvSubscriptionDB.LiveWith (db : RvSubscriptionDB) (hostId : BitVec 32) (cid : BitVec 16)
    (name : Text) : Prop :=
  ∃ s, db.sessionTab.find? name = some s ∧ s.state ≠ .stop ∧ s.hostId = hostId ∧ s.cid = cid

theorem sessionStop_stopped_iff (inv : Referenced env db') (h : sessionStop env db name = .ok db') :
    Stopped db' name ↔ ∀ s, db.sessionTab.find? name = some s →
      s.state = .stop ∨ (hostExists env db s.hostId s.cid).isSome := by
  rw [stopped_iff inv]
  unfold sessionStop at h
  cases hSess : db.sessionTab.find? name with
  | none =>
      rw [hSess] at h
      cases h
      simp [hSess]
  | some sess =>
      rw [hSess] at h
      dsimp only at h
      cases hHost : hostExists env db sess.hostId sess.cid with
      | none =>
          rw [hHost] at h
          cases h
          simp [hSess, hHost]
      | some i =>
          rw [hHost] at h
          simp only [remSession, bind_eq_ok] at h
          obtain ⟨db₁, hUnsub, hUnlink⟩ := h
          obtain ⟨s, hs, hState, -, -⟩ := (unsubSession_closes hUnsub).of_eq
            (unlinkSession_sessionTab hUnlink) (unlinkSession_sessHt hUnlink)
          simp [hHost, hs, hState]

theorem hostStop_stopped_iff {hostId : BitVec 32} {cid : BitVec 16} (inv : Referenced env db')
    (h : hostStop env db hostId cid = .ok db') :
    (∀ x, db.LiveWith hostId cid x → Stopped db' x) ↔
      ∀ x, db.LiveWith hostId cid x → ∃ i host, db.hostHt.find? (hashHostId env hostId cid) = some i ∧
        db.hostTab[i]? = some host ∧ x ∈ sessionsOf env db host.sessHt := by
  refine forall₂_congr fun x hLive => ?_
  rw [stopped_iff inv]
  unfold hostStop at h
  cases hSlot : db.hostHt.find? (hashHostId env hostId cid) with
  | none =>
      rw [hSlot] at h
      cases h
      obtain ⟨s, hs, hState, -, -⟩ := hLive
      exact iff_of_false (fun hStop => hState (hStop s hs)) (by simp)
  | some i =>
      rw [hSlot] at h
      simp only [unsubHost, bind_eq_ok, hostAt_eq_ok, pure_eq_ok] at h
      obtain ⟨host, hHost, db₁, hLoop, rfl⟩ := h
      obtain ⟨hListed, hOther⟩ := unsubSessions_stops hLoop
      constructor
      · intro hStop
        refine ⟨i, host, rfl, hHost, ?_⟩
        by_contra hNot
        obtain ⟨s, hs, hState, -, -⟩ := hLive
        obtain ⟨s', hs', hState'⟩ := hOther x hNot s hs hState
        exact hState' (hStop s' hs')
      · rintro ⟨j, host', hj, hHost', hMem⟩ s hs
        cases hj
        cases hHost.symm.trans hHost'
        obtain ⟨t, ht, hState, -, -⟩ := hListed x hMem
        cases ht.symm.trans hs
        exact hState

/-- `SESSION.STOP` stops the session when `host_exists` knows the host of its entry;
`HOST.STOP` stops the sessions of the host when the table of the slot leads to each. -/
theorem stop_advisories_iff (env : Env) (db db' : RvSubscriptionDB) (curMono : BitVec 32)
    (pub : EvPublish) (info : SubMatch) (m : Fields) (hostId : BitVec 32)
    (ids : SubjectIds env db'.nextSubjectCtr) (hReach : (fewReferences env).Reachable db)
    (hInfo : matchRvInfo pub.subject = some info) (hBody : pub.body.decoded = some m)
    (hHostId : subjectHostId info pub.subject = .ok hostId)
    (h : processPub2 env db curMono pub = .ok db') :
    (info.kind = .sessionStop →
      (Stopped db' (m.id.getD []) ↔ ∀ s, db.sessionTab.find? (m.id.getD []) = some s →
        s.state = .stop ∨ (hostExists env db s.hostId s.cid).isSome)) ∧
    (info.kind = .hostStop →
      ((∀ name, db.LiveWith hostId (m.cid.getD 0) name → Stopped db' name) ↔
        ∀ name, db.LiveWith hostId (m.cid.getD 0) name → ∃ i host,
          db.hostHt.find? (hashHostId env hostId (m.cid.getD 0)) = some i ∧
          db.hostTab[i]? = some host ∧ name ∈ sessionsOf env db host.sessHt)) := by
  have hKeeps := processPub2_keeps h
  have inv := hKeeps.keeps ids (reachable_kept hReach (ids.mono hKeeps.grows))
  rw [processPub2_advisory hInfo hBody, advisory, hHostId] at h
  constructor
  · intro hKind
    rw [hKind] at h
    have hStop : sessionStop env { db with curMono := curMono } (m.id.getD []) = .ok db' := h
    have hIff := sessionStop_stopped_iff inv hStop
    exact hIff
  · intro hKind
    rw [hKind] at h
    have hStop : hostStop env { db with curMono := curMono } hostId (m.cid.getD 0) = .ok db' := h
    have hIff := hostStop_stopped_iff inv hStop
    exact hIff

def sampleSessionStop : EvPublish where
  subject := text "_RV.INFO.SYSTEM.SESSION.STOP.0A000001"
  body := .fields { id := some (text "0A000001.X") }

def sampleStopOfHost : EvPublish where
  subject := text "_RV.INFO.SYSTEM.HOST.STOP.0A000001"
  body := .fields {}

/-- The session of the sample is stopped by its own advisory and by that of its host. -/
theorem stop_advisories_session :
    (∃ db', processPub2 sampleEnv sampleDB 6 sampleSessionStop = .ok db' ∧
      Stopped db' (text "0A000001.X")) ∧
    ∃ db', processPub2 sampleEnv sampleDB 6 sampleStopOfHost = .ok db' ∧
      sampleDB.LiveWith 0x0A000001#32 0 (text "0A000001.X") ∧ Stopped db' (text "0A000001.X") := by
  constructor
  · obtain ⟨info, hInfo, hKind, hHost⟩ : ∃ info, matchRvInfo sampleSessionStop.subject = some info ∧
        info.kind = .sessionStop ∧
        subjectHostId info sampleSessionStop.subject = .ok 0x0A000001#32 := ⟨_, rfl, rfl, by decide⟩
    have hRun : (processPub2 sampleEnv sampleDB 6 sampleSessionStop).map
        RvSubscriptionDB.nextSubjectCtr = .ok 1 := by decide +kernel
    obtain ⟨db', hRun, hCtr⟩ := map_eq_ok.mp hRun
    have hIds : SubjectIds sampleEnv db'.nextSubjectCtr := hCtr ▸ sampleIds.mono (by decide)
    have hIff := (stop_advisories_iff sampleEnv sampleDB db' 6 sampleSessionStop info
      { id := some (text "0A000001.X") } 0x0A000001#32 hIds sampleDB_reachable hInfo rfl hHost
      hRun).1 hKind
    refine ⟨db', hRun, hIff.mpr fun s hs => .inr ?_⟩
    have hAll : (sampleDB.sessionTab.find? (text "0A000001.X")).all
        (fun s => (hostExists sampleEnv sampleDB s.hostId s.cid).isSome) = true := by decide +kernel
    exact (Option.all_eq_true _ _).mp hAll s hs
  · obtain ⟨info, hInfo, hKind, hHost⟩ : ∃ info, matchRvInfo sampleStopOfHost.subject = some info ∧
        info.kind = .hostStop ∧
        subjectHostId info sampleStopOfHost.subject = .ok 0x0A000001#32 := ⟨_, rfl, rfl, by decide⟩
    have hRun : (processPub2 sampleEnv sampleDB 6 sampleStopOfHost).map
        RvSubscriptionDB.nextSubjectCtr = .ok 1 := by decide +kernel
    obtain ⟨db', hRun, hCtr⟩ := map_eq_ok.mp hRun
    have hIds : SubjectIds sampleEnv db'.nextSubjectCtr := hCtr ▸ sampleIds.mono (by decide)
    have hIff := (stop_advisories_iff sampleEnv sampleDB db' 6 sampleStopOfHost info
      {} 0x0A000001#32 hIds sampleDB_reachable hInfo rfl hHost hRun).2 hKind
    have hLive : sampleDB.LiveWith 0x0A000001#32 0 (text "0A000001.X") := by
      have hSome : (sampleDB.sessionTab.find? (text "0A000001.X")).any (fun s =>
          s.state ≠ .stop ∧ s.hostId = 0x0A000001#32 ∧ s.cid = 0) = true := by decide +kernel
      obtain ⟨s, hs, hFields⟩ := Option.any_eq_true _ _ |>.mp hSome
      exact ⟨s, hs, of_decide_eq_true hFields⟩
    refine ⟨db', hRun, hLive, hIff.mpr (fun name ⟨s, hs, _⟩ => ?_) _ hLive⟩
    have hOnly : sampleDB.sessionTab.entries.map Prod.fst = [text "0A000001.X"] := by decide +kernel
    have hListed : (sampleDB.hostHt.find? (hashHostId sampleEnv 0x0A000001#32 0)).any (fun i =>
        (sampleDB.hostTab[i]?).any fun host =>
          text "0A000001.X" ∈ sessionsOf sampleEnv sampleDB host.sessHt) = true := by decide +kernel
    have hName : name ∈ sampleDB.sessionTab.entries.map Prod.fst :=
      List.mem_map.mpr ⟨_, Table.find?_eq_some.mp hs, rfl⟩
    rw [hOnly, List.mem_singleton] at hName
    obtain ⟨i, hi, hAny⟩ := Option.any_eq_true _ _ |>.mp hListed
    obtain ⟨host, hHost, hMem⟩ := Option.any_eq_true _ _ |>.mp hAny
    exact ⟨i, host, hi, hHost, hName ▸ of_decide_eq_true hMem⟩

/-- A session of a host that is known by a connection id only. -/
def sampleCidListen : EvPublish where
  subject := text "_RV.INFO.SYSTEM.LISTEN.START.A.B"
  body := .fields { id := some (text "0A000001.U0002.X"), sub := some (text "A.B") }

def sampleCidStop : EvPublish where
  subject := text "_RV.INFO.SYSTEM.SESSION.STOP.0A000001"
  body := .fields { id := some (text "0A000001.U0002.X") }

def sampleCidDB : RvSubscriptionDB :=
  (step sampleEnv { nextGc := 131 } (.pub 5 sampleCidListen)).toOption.getD {}

/-- The advisory leaves the session live and its reference counted. -/
theorem session_stop_ignored : (fewReferences sampleEnv).Reachable sampleCidDB ∧
    ∃ db', processPub2 sampleEnv sampleCidDB 6 sampleCidStop = .ok db' ∧
      db'.LiveWith 0x0A000001#32 2 (text "0A000001.U0002.X") ∧ db'.refcntOf (text "A.B") = 1 ∧
      ¬ Stopped db' (text "0A000001.U0002.X") := by
  have hOk : (step sampleEnv { nextGc := 131 } (.pub 5 sampleCidListen)).toOption.isSome := by
    decide +kernel
  have hFirst : step sampleEnv { nextGc := 131 } (.pub 5 sampleCidListen) = .ok sampleCidDB :=
    eq_ok_of_isSome hOk {}
  have hInit : (fewReferences sampleEnv).Reachable { nextGc := 131 } :=
    System.reachable_of_init sample_init
  have hStep : (fewReferences sampleEnv).step { nextGc := 131 } (.pub 5 sampleCidListen)
      sampleCidDB.outputs sampleCidDB :=
    ⟨few_of_size (by decide), hFirst, rfl⟩
  have hRun : (processPub2 sampleEnv sampleCidDB 6 sampleCidStop).map (fun db =>
      ((db.sessionTab.find? (text "0A000001.U0002.X")).map fun s => (s.state, s.hostId, s.cid),
        db.refcntOf (text "A.B"))) = .ok (some (.cid, 0x0A000001#32, 2), 1) := by decide +kernel
  obtain ⟨db', hRun, hSeen⟩ := map_eq_ok.mp hRun
  obtain ⟨hEntry, hRef⟩ := Prod.ext_iff.mp hSeen
  obtain ⟨s, hFind, hFields⟩ := Option.map_eq_some_iff.mp hEntry
  obtain ⟨hState, hHost, hCid⟩ : s.state = .cid ∧ s.hostId = 0x0A000001#32 ∧ s.cid = 2 := by
    simpa using hFields
  have hLive : s.state ≠ .stop := by simp [hState]
  exact ⟨hInit.step hStep, db', hRun, ⟨s, hFind, hLive, hHost, hCid⟩, hRef,
    fun hStopped => hLive (hStopped.entry s hFind).1⟩

end Sassrv.SubMgr
