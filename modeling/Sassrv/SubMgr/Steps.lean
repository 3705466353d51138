import Sassrv.SubMgr.Collecting
import Sassrv.SubMgr.Turns

/-! Every step of the database as a sequence of turns. A condition on the calls of a
step is `Meets`, which follows the loops of the source. -/
namespace Sassrv.SubMgr
open Partial

section
variable (env : Env) (P : RvSubscriptionDB → Call → Prop)

/-- `session_ref` refers to a host only for a session that is new or stopped. -/
def MeetsRef (db : RvSubscriptionDB) (cid : BitVec 16) (name : Text) : Prop :=
  isLive db name = false → ∀ hostId, stringToHostId name = .ok hostId →
    P db (.hostRef hostId (nameCid cid name)) ∧
    ∀ db' i, hostRef env db hostId (nameCid cid name) false = .ok (db', i) →
      P db' (.enter i hostId (nameCid cid name) name)

/-- `session_start` drops the session first if it is not stopped. -/
def MeetsSession (db : RvSubscriptionDB) (hostId : BitVec 32) (cid : BitVec 16) (name : Text) : Prop :=
  ∀ i, hostExists env db hostId cid = some i → (isLive db name = true → P db (.restart i name)) ∧
    ∀ db', dropLive env db i name = .ok db' → P db' (.enter i hostId cid name)

/-- A start of a listen, which the client's own session does not make. -/
def MeetsStart (db : RvSubscriptionDB) (cid : BitVec 16) (name sub : Text) : Prop :=
  MeetsRef env P db cid name ∧ ∀ db', sessionRef env db cid name = .ok db' →
    P db' (.listen name sub)

/-- The host of a session that `snapshot` or `tic` does not find. -/
def MeetsUnknown (db : RvSubscriptionDB) (buf : Text) : Prop :=
  ∀ hostId, stringToHostId buf = .ok hostId → P db (.hostRef hostId 0)

/-- `snapshot` queries a session that it finds only for a subject with references. -/
def MeetsSnapshot (db : RvSubscriptionDB) (sub name buf : Text) : Prop :=
  let db := getSubscription env db sub
  ∀ session, getSession env db name buf = .ok session →
    match session with
    | none => MeetsUnknown P db buf
    | some found => ∀ script, db.subTab.find? sub = some script → script.refcnt ≠ 0 →
        script.ref7cnt = false → P db (.query found)

/-- `tic` refers to the host of a session that it does not find. -/
def MeetsTic (db : RvSubscriptionDB) (sub name buf : Text) : Prop :=
  let db := getSubscription env db sub
  getSession env db name buf = .ok none → MeetsUnknown P db buf

/-- The condition on `listen_stop` for a subject that is not held. -/
def MeetsStop (db : RvSubscriptionDB) (cid : BitVec 16) (name sub : Text) : Prop :=
  MeetsRef env P db cid name ∧ ∀ db', sessionRef env db cid name = .ok db' →
    ∀ r, listenStop env db' name sub = .ok r → r.done = false → P r.db (.orphan name sub)

def MeetsSass (app : SassApp) (flags : BitVec 16) (db : RvSubscriptionDB) (fname : Text) : Prop :=
  1 < fname.length → P (getSubscription env db fname.dropLast) (.sass3 fname.dropLast app flags)

/-- What an advisory calls, kind by kind. -/
def MeetsAdvisory (db : RvSubscriptionDB) (info : SubMatch) (subject reply : Text) (m : Fields) :
    Prop :=
  ∀ hostId, subjectHostId info subject = .ok hostId →
    let name := m.id.getD []
    match info.kind with
    | .hostStatus => P db (.hostRef hostId (m.cid.getD 0))
    | .hostStart => P db (.hostStart hostId (m.cid.getD 0))
    | .hostStop => ∀ i, db.hostHt.find? (hashHostId env hostId (m.cid.getD 0)) = some i →
        P db (.unsubHost i)
    | .unreachable => True
    | .sessionStart => MeetsSession env P db hostId (nameCid 0 name) name
    | .sessionStop => True
    | .listenStart => MeetsStart env P db (nameCid (m.cid.getD 0) name) name (m.sub.getD [])
    | .listenStop => MeetsStop env P db (nameCid (m.cid.getD 0) name) name (m.sub.getD [])
    | .snap => env.listening ∧ 6 < subject.length ∧ 7 + 8 < reply.length →
        MeetsSnapshot env P db (subject.drop 6) (inboxSession reply) (reply.drop 7)
    | .sass => ∀ t a names, m.t = some t → m.a = some a → m.s = some names →
        Along (sassSubject env reply (a.getD {}) (sassFlags env t))
          (MeetsSass env P (a.getD {}) (sassFlags env t)) db names
    | .ticReply => env.listening ∧ 7 + 8 < reply.length →
        MeetsTic env P db subject (inboxSession reply) (reply.drop 7)

/-- One session of a host reply. -/
def MeetsReplySession (i : Nat) (db : RvSubscriptionDB) (item : ReplyField) : Prop :=
  ∀ name host, item.name = [] → item.string = some name → db.hostTab[i]? = some host →
    MeetsRef env P db host.cid name

/-- The sessions of a reply to a host query. -/
def MeetsHostReply (db : RvSubscriptionDB) (i : Nat) (items : List ReplyField) : Prop :=
  ∀ host, db.hostTab[i]? = some host → host.state = .query →
    Along (replySession env i) (MeetsReplySession env P i) (markSessions env db host) items

/-- One subject of a session reply. -/
def MeetsReplySubject (name : Text) (db : RvSubscriptionDB) (item : ReplyField) : Prop :=
  ∀ sub, item.name = [] → item.string = some sub → isMatched env sub = true → P db (.listen name sub)

def MeetsSessionReply (db : RvSubscriptionDB) (sessId : BitVec 32) (items : List ReplyField) : Prop :=
  ∀ name sess, getSessionId env db sessId = some name → db.sessionTab.find? name = some sess →
    sess.state = .query → Along (replySubject env name) (MeetsReplySubject env P name)
      (markSubscriptions env db sess) items

def MeetsReply (db : RvSubscriptionDB) (which : BitVec 64) (items : List ReplyField) : Prop :=
  if hostInboxBase ≤ which then
    MeetsHostReply env P db ((which - hostInboxBase).setWidth 32).toNat items
  else MeetsSessionReply env P db ((which - sessionInboxBase).setWidth 32) items

def MeetsPub (db : RvSubscriptionDB) (curMono : BitVec 32) (pub : EvPublish) : Prop :=
  let db := { db with curMono := curMono }
  match matchRvInfo pub.subject, pub.body with
  | some _, .undecodable => True
  | some info, .empty => MeetsAdvisory env P db info pub.subject pub.reply {}
  | some info, .fields m => MeetsAdvisory env P db info pub.subject pub.reply m
  | none, .fields m => MeetsReply env P db (isInbox env pub.subject) m.items
  | none, _ => True

def MeetsSyncSession (cid : BitVec 16) (db : RvSubscriptionDB) (s : SyncSession) : Prop :=
  MeetsRef env P db cid s.fname.dropLast ∧
    ∀ db', sessionRef env db cid s.fname.dropLast = .ok db' →
      Along (listSubject env s.fname.dropLast)
        (fun db sub => P db (.listen s.fname.dropLast sub)) db' s.subs

/-- The fields of a host in a sync. -/
def MeetsSync (hostId : BitVec 32) (cid : BitVec 16) : List SyncField → RvSubscriptionDB → Prop
  | [], _ => True
  | .id value :: rest, db => MeetsSync (value.getD hostId) cid rest db
  | .cid value :: rest, db => MeetsSync hostId (value.getD cid) rest db
  | .sessions list :: rest, db =>
      if hostId = 0 then MeetsSync hostId cid rest db
      else P db (.hostRef hostId cid) ∧ ∀ db₁ i, hostRef env db hostId cid true = .ok (db₁, i) →
        Along (syncSession env cid) (MeetsSyncSession env P cid) db₁ list ∧
        ∀ db₂, list.foldlM (syncSession env cid) db₁ = .ok db₂ → MeetsSync hostId cid rest db₂

/-- The expiry loop, entry by entry. -/
def MeetsExpiry (db : RvSubscriptionDB) : List RvSass3Entry → Prop
  | [] => True
  | entry :: rest => entry.expired db.curMono = true → P db (.expire entry) ∧
      ∀ db', expireEntry env db entry = .ok db' → MeetsExpiry db' rest

/-- `send_host_query` drops a host that is due and timed out. -/
def MeetsSend (db : RvSubscriptionDB) (i : Nat) : Prop :=
  ∀ host, db.hostTab[i]? = some host → ¬ db.curMono < host.queryMono + hostQueryInterval →
    host.refMono + hostTimeoutInterval < db.curMono → P db (.unsubHost i)

def MeetsQuerySessions (i : Nat) : List Text → RvSubscriptionDB → Prop
  | [], _ => True
  | name :: rest, db => ∀ sess, db.sessionTab.find? name = some sess →
      if sess.state = .query then
        ∀ db₁ host, sendSessionQuery env db i name = .ok db₁ → db₁.hostTab[i]? = some host →
          if host.state = .query then MeetsSend P db₁ i else MeetsQuerySessions i rest db₁
      else MeetsQuerySessions i rest db

def MeetsPoll (db : RvSubscriptionDB) (i : Nat) : Prop :=
  let db := db.modifyHost i fun host => host.checkQueryNeeded db.curMono
  ∀ host, db.hostTab[i]? = some host → host.state ≠ .stop →
    (host.state = .query → MeetsSend P db i) ∧
    ∀ db₁ host₁, queryIfDue env db i host = .ok db₁ → db₁.hostTab[i]? = some host₁ →
      ¬ (host₁.state = .query ∨ host₁.state = .stop) →
      MeetsQuerySessions env P i (sessionsOf env db₁ host₁.sessHt) db₁

/-- The condition on `process_events`. -/
def MeetsEvents (db : RvSubscriptionDB) (curMono : BitVec 32) : Prop :=
  let db := { db with curMono := curMono }
  MeetsExpiry env P db db.sass3List ∧ ∀ db₁, expireSass3 env db db.sass3List = .ok db₁ →
    let db₂ := softQuery db₁ db₁.softHostQuery
    Along (pollHost env) (MeetsPoll env P) db₂ (List.range db₂.hostTab.length) ∧
    ∀ db₃, (List.range db₂.hostTab.length).foldlM (pollHost env) db₂ = .ok db₃ →
      db₃.nextGc < db₃.curMono → P { db₃ with nextGc := db₃.curMono + 131 } .gcSubscriptions

/-- The turn of `unsub_all` for one slot. -/
def MeetsUnsub (db : RvSubscriptionDB) (i : Nat) : Prop := db.Awake i → P db (.unsubHost i)

/-- The calls of `start_subscriptions`. -/
def MeetsInit (curMono : BitVec 32) : Prop :=
  P { curMono := curMono, nextGc := curMono + 131 } (.hostRef env.ipaddr env.cid) ∧
    ∀ db i, hostRef env { curMono := curMono, nextGc := curMono + 131 } env.ipaddr env.cid true =
      .ok (db, i) → MeetsSession env P (db.modifyHost i fun host => { host with state := .query })
        env.ipaddr env.cid env.session

/-- The calls of a step meet the condition, each in the state it is made in. -/
def Meets (db : RvSubscriptionDB) : Input → Prop
  | .pub curMono pub => MeetsPub env P db curMono pub
  | .events curMono => MeetsEvents env P db curMono
  | .sync hosts => Along (fun db fields => syncHost env 0 0 fields db)
      (fun db fields => MeetsSync env P 0 0 fields db) db hosts
  | .gc => P db .gcSubscriptions
  | .unsubAll => Along (fun db i => do
      let host ← db.hostAt i
      if host.state = .stop then return db else unsubHost env db i) (MeetsUnsub P) db
        (List.range db.hostTab.length)

end

variable {env : Env} {P : RvSubscriptionDB → Call → Prop} {db db' : RvSubscriptionDB} {i : Nat}
  {name sub : Text}

/-! Hosts. -/

theorem hostRef_leads {hostId : BitVec 32} {cid : BitVec 16} (isStatus : Bool)
    (hOk : P db (.hostRef hostId cid)) :
    Leads env P Prod.fst db (hostRef env db hostId cid isStatus) := by
  cases hRef : hostRef env db hostId cid isStatus with
  | ok r => exact .single (.hostRef hOk hRef)
  | error e =>
      rintro rfl
      refine ⟨db, hostId, cid, .refl, hOk, ?_⟩
      unfold hostRef at hRef
      split at hRef
      · next hNone =>
          unfold takeSlot at hRef
          split at hRef
          · cases hRef
          · next hNot => exact ⟨hNone, hNot⟩
      · unfold refSlot at hRef
        rcases bind_eq_error hRef with hRead | ⟨host, _, hRest⟩
        · exact absurd hRead (hostAt_ne_freeSlot _ _)
        · split at hRest
          · cases hRest
          · split at hRest <;> cases hRest

/-- The slot that `host_ref` returns is found under the key and is not stopped. -/
theorem hostRef_slot {hostId : BitVec 32} {cid : BitVec 16} {isStatus : Bool}
    (h : hostRef env db hostId cid isStatus = .ok (db', i)) :
    db'.hostHt.find? (hashHostId env hostId cid) = some i ∧ db'.Awake i := by
  have hStart : (RvHostEntry.start hostId cid db.curMono false isStatus).state ≠ .stop := by
    unfold RvHostEntry.start
    dsimp only
    split <;> simp
  unfold hostRef at h
  split at h
  · unfold takeSlot at h
    split at h
    · next hFree =>
        cases h
        refine ⟨by simp [RvSubscriptionDB.putHost], _, ?_, hStart⟩
        rcases hFree with hLast | hStop
        · simp [RvSubscriptionDB.putHost, hLast]
        · have hLt : db.firstFreeHost < db.hostTab.length := by
            by_contra hNot
            rw [List.getElem?_eq_none (by omega)] at hStop
            cases hStop
          simp [RvSubscriptionDB.putHost, hLt]
    · cases h
  · next j hFind =>
      simp only [refSlot, bind_eq_ok, hostAt_eq_ok] at h
      obtain ⟨host, hHost, h⟩ := h
      split at h
      · cases h
        exact ⟨hFind, _, by simp [RvSubscriptionDB.modifyHost, hHost], hStart⟩
      · next hNot =>
          split at h
          · cases h
            refine ⟨hFind, host.status db.curMono, by simp [RvSubscriptionDB.modifyHost, hHost], ?_⟩
            unfold RvHostEntry.status
            dsimp only
            split
            · next hKept =>
                rcases hKept with hQuery | hCid
                · simp [hQuery]
                · simp [hCid]
            · simp
          · cases h
            exact ⟨hFind, host.ref db.curMono, by simp [RvSubscriptionDB.modifyHost, hHost], hNot⟩

/-- A host that is not stopped stays so under what touches hosts. -/
theorem RvSubscriptionDB.Awake.modifyHost (h : db.Awake i) (j : Nat) {f : RvHostEntry → RvHostEntry}
    (hState : ∀ host, host.state ≠ .stop → (f host).state ≠ .stop) : (db.modifyHost j f).Awake i := by
  obtain ⟨host, hHost, hNot⟩ := h
  by_cases hSame : j = i
  · subst hSame
    exact ⟨f host, by simp [RvSubscriptionDB.modifyHost, hHost], hState host hNot⟩
  · exact ⟨host, by simp [RvSubscriptionDB.modifyHost, hSame, hHost], hNot⟩

theorem Turn.touchAwake (hAwake : db.Awake i) {f : RvHostEntry → RvHostEntry}
    (hSame : ∀ host, SameHost host (f host))
    (hState : ∀ host, host.state ≠ .stop → (f host).state ≠ .stop) :
    Turn env P db (db.modifyHost i f) := by
  refine .touchHost i hSame ?_
  intro host hHost
  obtain ⟨host', hHost', hNot⟩ := hAwake
  obtain rfl := Option.some.inj (hHost.symm.trans hHost')
  exact iff_of_false (hState host hNot) hNot

theorem Turn.clock (curMono : BitVec 32) : Turn env P db { db with curMono := curMono } := by
  have hNote : Turn env P db _ := .note curMono db.nextGc db.softHostQuery [] (by simp)
  simpa using hNote

theorem Turn.soft (n : Nat) : Turn env P db { db with softHostQuery := n } := by
  have hNote : Turn env P db _ := .note db.curMono db.nextGc n [] (by simp)
  simpa using hNote

theorem Turn.nextGc (nextGc : BitVec 32) : Turn env P db { db with nextGc := nextGc } := by
  have hNote : Turn env P db _ := .note db.curMono nextGc db.softHostQuery [] (by simp)
  simpa using hNote

theorem Turn.emit {out : Output} (hSilent : out.silent = true) : Turn env P db (db.emit out) :=
  .note db.curMono db.nextGc db.softHostQuery [out] (by simpa using hSilent)

theorem sameHost_state (host : RvHostEntry) (state : HostState) :
    SameHost host { host with state := state } :=
  ⟨rfl, rfl, rfl, rfl, rfl, rfl⟩

theorem askHost_turns (hAwake : db.Awake i) (host : RvHostEntry) :
    Turns env P db (askHost env db i host) := by
  have hQuery : Turn env P db (db.modifyHost i fun host => { host with state := .query }) :=
    .touchAwake hAwake (fun host => sameHost_state host .query) (by simp)
  unfold askHost
  dsimp only
  split
  · exact (Relation.ReflTransGen.single hQuery).tail (.soft _)
  · exact .single hQuery

/-- A status is a reference to the host and what it notes. -/
theorem hostStatus_leads {hostId : BitVec 32} {cid : BitVec 16} {m : Fields}
    (hOk : P db (.hostRef hostId cid)) : Leads env P id db (hostStatus env db hostId cid m) := by
  unfold hostStatus
  refine Leads.bind (hostRef_leads true hOk) ?_
  rintro ⟨db₁, i⟩ hRef
  have hAwake := (hostRef_slot hRef).2
  refine Leads.read (hostAt_ne_freeSlot _ _) fun host _ => ?_
  dsimp only
  split
  · apply Leads.pure
    have hTouch : Turn env P db₁ (db₁.modifyHost i fun host =>
        { host with dataLoss := m.idl.getD 0 + m.odl.getD 0 }) :=
      .touchAwake hAwake (fun _ => ⟨rfl, rfl, rfl, rfl, rfl, rfl⟩) (by simp)
    exact .head hTouch (askHost_turns (hAwake.modifyHost i (by simp)) host)
  · split
    · split
      · exact Leads.pure (askHost_turns hAwake host)
      · exact Leads.pure .refl
    · exact Leads.pure .refl

theorem hostStart_leads {hostId : BitVec 32} {cid : BitVec 16} (hOk : P db (.hostStart hostId cid)) :
    Leads env P id db (hostStart env db hostId cid) := by
  cases hStart : hostStart env db hostId cid with
  | ok db' => exact .single (.hostStart hOk hStart)
  | error e =>
      rintro rfl
      unfold hostStart at hStart
      split at hStart
      · cases hStart
      · rcases bind_eq_error hStart with hRead | ⟨host, _, hRest⟩
        · exact absurd hRead (hostAt_ne_freeSlot _ _)
        · cases hRest

theorem unsubSession_ne_freeSlot (env : Env) (db : RvSubscriptionDB) (name : Text) :
    unsubSession env db name ≠ .error .freeSlot := by
  unfold unsubSession
  intro hError
  rcases bind_eq_error hError with hRead | ⟨sess, _, hRest⟩
  · exact sessionAt_ne_freeSlot _ _ hRead
  · cases hRest

theorem foldlM_ne_error {α : Type} {f : RvSubscriptionDB → α → Result RvSubscriptionDB} {e : Fault}
    (h : ∀ db a, f db a ≠ .error e) (items : List α) (db : RvSubscriptionDB) :
    items.foldlM f db ≠ .error e := by
  induction items generalizing db with
  | nil => simp [pure, Except.pure]
  | cons a rest ih =>
      rw [List.foldlM_cons]
      intro hError
      rcases bind_eq_error hError with hHere | ⟨t, _, hRest⟩
      · exact h db a hHere
      · exact ih t hRest

/-- To drop a host is one turn. -/
theorem unsubHost_leads (hOk : P db (.unsubHost i)) : Leads env P id db (unsubHost env db i) := by
  cases hUnsub : unsubHost env db i with
  | ok db' => exact .single (.unsubHost hOk hUnsub)
  | error e =>
      rintro rfl
      unfold unsubHost at hUnsub
      rcases bind_eq_error hUnsub with hRead | ⟨host, _, hRest⟩
      · exact absurd hRead (hostAt_ne_freeSlot _ _)
      · rcases bind_eq_error hRest with hLoop | ⟨db₁, _, hEnd⟩
        · exact absurd hLoop (foldlM_ne_error (unsubSession_ne_freeSlot env) _ _)
        · cases hEnd

/-! Sessions. -/

theorem unlinkSession_ne_freeSlot (db : RvSubscriptionDB) (i : Nat) (name : Text) :
    unlinkSession db i name ≠ .error .freeSlot := by
  unfold unlinkSession
  intro hError
  rcases bind_eq_error hError with hRead | ⟨host, _, hRest⟩
  · exact hostAt_ne_freeSlot _ _ hRead
  · rcases bind_eq_error hRest with hRead | ⟨sess, _, hEnd⟩
    · exact sessionAt_ne_freeSlot _ _ hRead
    · split at hEnd
      · cases hEnd
      · split at hEnd <;> cases hEnd

theorem addSession_ne_freeSlot (env : Env) (db : RvSubscriptionDB) (i : Nat) (name : Text) :
    addSession env db i name ≠ .error .freeSlot := by
  unfold addSession
  intro hError
  rcases bind_eq_error hError with hRead | ⟨host, _, hRest⟩
  · exact hostAt_ne_freeSlot _ _ hRead
  · rcases bind_eq_error hRest with hRead | ⟨sess, _, hEnd⟩
    · exact sessionAt_ne_freeSlot _ _ hRead
    · split at hEnd
      · cases hEnd
      · split at hEnd <;> cases hEnd

/-- An operation that is one turn when it returns and does not search for a slot. -/
theorem leads_of_turn {x : Result RvSubscriptionDB} (hFault : x ≠ .error .freeSlot)
    (hTurn : ∀ db', x = .ok db' → Turn env P db db') : Leads env P id db x := by
  cases x with
  | ok db' => exact .single (hTurn db' rfl)
  | error e =>
      rintro rfl
      exact absurd rfl hFault

/-- To drop a session from its host is one turn. -/
theorem remSession_leads (hOwned : Owned env P db i name) :
    Leads env P id db (remSession env db i name) := by
  apply leads_of_turn
  · unfold remSession
    intro hError
    rcases bind_eq_error hError with hUnsub | ⟨db₁, _, hUnlink⟩
    · exact unsubSession_ne_freeSlot env db name hUnsub
    · exact unlinkSession_ne_freeSlot db₁ i name hUnlink
  · intro db' h
    exact .remSession hOwned h

theorem isLive_remSession (h : remSession env db i name = .ok db') : isLive db' name = false := by
  unfold isLive
  cases hFind : db'.sessionTab.find? name with
  | none => rfl
  | some s => simp [(remSession_stopped h hFind).2]

theorem hostExists_slot {hostId : BitVec 32} {cid : BitVec 16}
    (h : hostExists env db hostId cid = some i) :
    db.hostHt.find? (hashHostId env hostId cid) = some i ∧ db.Awake i := by
  obtain ⟨hFind, hAny⟩ := Option.filter_eq_some_iff.mp h
  obtain ⟨host, hHost, hState⟩ := (Option.any_eq_true _ _).mp hAny
  refine ⟨hFind, host, hHost, ?_⟩
  intro hStop
  simp [hStop] at hState

/-- `session_start` drops the session that it finds live. -/
theorem dropLive_leads (hOk : isLive db name = true → P db (.restart i name)) :
    Leads env P id db (dropLive env db i name) := by
  unfold dropLive
  split
  · next hLive => exact remSession_leads (.inr (.inr ⟨hLive, hOk hLive⟩))
  · exact Leads.ok .refl

/-- Whatever was there before, the session is stopped then, and the hosts are as they
were. -/
theorem dropLive_spec (h : dropLive env db i name = .ok db') :
    isLive db' name = false ∧ SlotsKept db db' := by
  unfold dropLive at h
  split at h
  · exact ⟨isLive_remSession h, remSession_slotsKept h⟩
  · next hNot =>
      cases h
      exact ⟨by simpa using hNot, .refl db⟩

theorem addSession_sessionTab (h : addSession env db i name = .ok db') :
    db'.sessionTab = db.sessionTab := by
  simp only [addSession, bind_eq_ok] at h
  obtain ⟨host, -, sess, -, h⟩ := h
  split at h
  · cases h
  · split at h <;> cases h <;> rfl

theorem modifySession_id (db : RvSubscriptionDB) (name : Text) : db.modifySession name id = db := by
  simp [RvSubscriptionDB.modifySession]

theorem sameSession_state (s : RvSessionEntry) (state : SessionState) :
    SameSession s { s with state := state } :=
  ⟨rfl, rfl, rfl, rfl, rfl⟩

/-- `session_start`: the drop, the new entry, and the listing. -/
theorem sessionStart_leads {hostId : BitVec 32} {cid : BitVec 16} {isSelf : Bool} {user : Option Text}
    (hOk : MeetsSession env P db hostId cid name) :
    Leads env P id db (sessionStart env db hostId cid name isSelf user) := by
  unfold sessionStart
  split
  · exact Leads.ok .refl
  · next i hExists =>
      obtain ⟨hFind, hAwake⟩ := hostExists_slot hExists
      obtain ⟨hRestart, hEnterOk⟩ := hOk i hExists
      refine Leads.bind (dropLive_leads hRestart) ?_
      intro db₁ hDrop
      obtain ⟨hNew, hKept⟩ := dropLive_spec hDrop
      -- The state that is set between the start and the entry.
      obtain ⟨g, hg, hSame, hState⟩ : ∃ g : RvSessionEntry → RvSessionEntry,
          (if isLive db name = true then
            (startEntry db₁ name hostId cid true user).modifySession name fun s =>
              if s.state = .cid then s else { s with state := .query }
          else startEntry db₁ name hostId cid true user) =
            (startEntry db₁ name hostId cid true user).modifySession name g ∧
          (∀ s, SameSession s (g s)) ∧ ∀ s, (g s).state = .stop → s.state = .stop := by
        split
        · refine ⟨_, rfl, ?_, ?_⟩
          · intro s
            split
            · exact ⟨rfl, rfl, rfl, rfl, rfl⟩
            · exact sameSession_state s .query
          · intro s hStop
            split at hStop
            · exact hStop
            · cases hStop
        · exact ⟨id, (modifySession_id _ _).symm, fun s => ⟨rfl, rfl, rfl, rfl, rfl⟩, fun _ h => h⟩
      dsimp only
      rw [hg]
      have hEnter : Leads env P id db₁ (addSession env
          ((startEntry db₁ name hostId cid true user).modifySession name g) i name) := by
        apply leads_of_turn (addSession_ne_freeSlot _ _ _ _)
        intro db₂ hAdd
        exact .enterSession (hEnterOk db₁ hDrop) (hKept.hostHt ▸ hFind) (hKept.awake hAwake) hNew hSame
          hState hAdd
      refine Leads.bind hEnter ?_
      intro db₂ hAdd
      apply Leads.pure
      split
      · apply Relation.ReflTransGen.single
        refine .touchSession name (fun s => sameSession_state s .self) ?_
        intro s hs
        rw [id_eq, addSession_sessionTab hAdd] at hs
        simp only [RvSubscriptionDB.modifySession, startEntry, Table.find?_modify_self,
          Table.find?_insert_self, Option.map_some, Option.some.injEq] at hs
        refine iff_of_false (by simp) ?_
        rw [← hs]
        exact fun hStop => start_state_ne_stop _ _ _ _ _ _ _ (hState _ hStop)
      · exact .refl

theorem sessionStop_leads : Leads env P id db (sessionStop env db name) := by
  unfold sessionStop
  split
  · exact Leads.ok .refl
  · next sess hSess =>
      split
      · exact Leads.ok .refl
      · next i hExists => exact remSession_leads (.inr (.inl ⟨sess, hSess, hExists⟩))

/-- A session is opened: its host first, then the entry. -/
theorem openSession_leads {cid : BitVec 16} (hNew : isLive db name = false)
    (hOk : ∀ hostId, stringToHostId name = .ok hostId → P db (.hostRef hostId cid) ∧
      ∀ db' i, hostRef env db hostId cid false = .ok (db', i) → P db' (.enter i hostId cid name)) :
    Leads env P id db (openSession env db cid name) := by
  unfold openSession
  refine Leads.read (stringToHostId_ne_freeSlot _) fun hostId hHostId => ?_
  obtain ⟨hRefOk, hEnterOk⟩ := hOk hostId hHostId
  refine Leads.bind (hostRef_leads false hRefOk) ?_
  rintro ⟨db₁, i⟩ hRef
  obtain ⟨hFind, hAwake⟩ := hostRef_slot hRef
  have hSame := (hostRef_hostsOnly hRef).sessionTab
  apply leads_of_turn (addSession_ne_freeSlot _ _ _ _)
  intro db₂ hAdd
  have hStill : isLive db₁ name = false := by
    unfold isLive
    rw [hSame]
    exact hNew
  rw [← modifySession_id (startEntry db₁ name hostId cid false none) name] at hAdd
  exact .enterSession (hEnterOk db₁ i hRef) hFind hAwake hStill (fun s => ⟨rfl, rfl, rfl, rfl, rfl⟩)
    (fun _ h => h) hAdd

theorem sessionRef_leads {cid : BitVec 16} (hOk : MeetsRef env P db cid name) :
    Leads env P id db (sessionRef env db cid name) := by
  have hOpen : Leads env P id db (ensureOpen env db cid name) := by
    unfold ensureOpen
    split
    · exact Leads.ok .refl
    · next hNot =>
        have hNew : isLive db name = false := by simpa using hNot
        exact openSession_leads hNew (hOk hNew)
  unfold sessionRef
  refine Leads.bind hOpen ?_
  intro db₁ _
  apply Leads.pure
  apply Relation.ReflTransGen.single
  exact .touchSession name (fun _ => ⟨rfl, rfl, rfl, rfl, rfl⟩) fun _ _ => Iff.rfl

/-! Subjects. -/

theorem listenRef_ne_freeSlot (env : Env) (db : RvSubscriptionDB) (name sub : Text) :
    listenRef env db name sub ≠ .error .freeSlot := by
  unfold listenRef
  intro hError
  rcases bind_eq_error hError with hRead | ⟨sess, _, hRest⟩
  · exact sessionAt_ne_freeSlot _ _ hRead
  · rcases bind_eq_error hRest with hRead | ⟨script, _, hEnd⟩
    · exact subAt_ne_freeSlot _ _ hRead
    · split at hEnd
      · cases hEnd
      · split at hEnd <;> cases hEnd

theorem listenStartAdvisory_leads {cid : BitVec 16} {reply : Text}
    (hOk : MeetsStart env P db cid name sub) :
    Leads env P id db (listenStartAdvisory env db cid name sub reply) := by
  unfold listenStartAdvisory
  refine Leads.bind (sessionRef_leads hOk.1) ?_
  intro db₁ hRef
  refine Leads.read (sessionAt_ne_freeSlot _ _) fun sess _ => ?_
  split
  · exact Leads.pure .refl
  · refine Leads.read (listenRef_ne_freeSlot _ _ _ _) fun r hListen => ?_
    refine Leads.read (subAt_ne_freeSlot _ _) fun script hScript => ?_
    have hTurn : Turn env P db₁ _ :=
      .listen (hOk.2 db₁ hRef) true reply hListen (subAt_eq_ok.mp hScript)
    exact Leads.pure (.single (by simpa using hTurn))

theorem holdSubject_subTab (env : Env) (db : RvSubscriptionDB) (name : Text) (sess : RvSessionEntry)
    (ht : UIntHashTab) (sub : Text) (script : RvSubscription) :
    (holdSubject env db name sess ht sub script).1.subTab =
      db.subTab.modify sub fun s => s.addRef sess.hasDaemon := by
  unfold holdSubject
  dsimp only
  split <;> exact (hostDigest_hostsOnly env _ name sess sub true).subTab

theorem holdSubject_sessionTab (env : Env) (db : RvSubscriptionDB) (name : Text)
    (sess : RvSessionEntry) (ht : UIntHashTab) (sub : Text) (script : RvSubscription) :
    (holdSubject env db name sess ht sub script).1.sessionTab =
      db.sessionTab.modify name fun s =>
        s.setSubHt (ht.insert script.subjectId (env.crcC sub 0)) := by
  unfold holdSubject
  dsimp only
  split <;> exact (hostDigest_hostsOnly env _ name sess sub true).sessionTab

/-- `listen_ref` finds the subject held and leaves it so, or has it held. -/
theorem listenRef_cases {r : Listened} (h : listenRef env db name sub = .ok r) :
    ∃ sess ht script, (refSubscription env db (stripNul sub)).sessionTab.find? name = some sess ∧
      sess.subHt = some ht ∧
      (refSubscription env db (stripNul sub)).subTab.find? (stripNul sub) = some script ∧
      r.sub = stripNul sub ∧
      ((ht.contains script.subjectId = true ∧ r.db = refSubscription env db (stripNul sub) ∧
          r.done = false) ∨
        (ht.contains script.subjectId = false ∧ r.done = true ∧
          r.db = (holdSubject env (refSubscription env db (stripNul sub)) name sess ht
            (stripNul sub) script).1)) := by
  simp only [listenRef, bind_eq_ok, sessionAt_eq_ok, subAt_eq_ok] at h
  obtain ⟨sess, hSess, script, hScript, h⟩ := h
  split at h
  · cases h
  · next ht hHt =>
      refine ⟨sess, ht, script, hSess, hHt, hScript, ?_⟩
      split at h
      · next hHeld =>
          cases h
          exact ⟨rfl, .inl ⟨hHeld, rfl, rfl⟩⟩
      · next hNot =>
          cases h
          exact ⟨rfl, .inr ⟨by simpa using hNot, rfl, rfl⟩⟩

theorem listenRef_entered {r : Listened} (h : listenRef env db name sub = .ok r) :
    ∃ script, r.db.subTab.find? r.sub = some script := by
  obtain ⟨sess, ht, script, -, -, hScript, hSub, hCase⟩ := listenRef_cases h
  rw [hSub]
  rcases hCase with ⟨-, hDb, -⟩ | ⟨-, -, hDb⟩
  · exact ⟨script, by rw [hDb, hScript]⟩
  · exact ⟨_, by rw [hDb, holdSubject_subTab, Table.find?_modify_self, hScript, Option.map_some]⟩

/-- One subject that a reply or a sync lists. -/
theorem listSubject_leads (hOk : P db (.listen name sub)) :
    Leads env P id db (listSubject env name db sub) := by
  unfold listSubject
  refine Leads.read (listenRef_ne_freeSlot _ _ _ _) fun r hListen => ?_
  obtain ⟨script, hScript⟩ := listenRef_entered hListen
  have hTurn : Turn env P db _ := .listen hOk false [] hListen hScript
  split
  · next hDone =>
      refine Leads.read (subAt_ne_freeSlot _ _) fun script' hScript' => ?_
      obtain rfl := Option.some.inj (hScript.symm.trans (subAt_eq_ok.mp hScript'))
      exact Leads.pure (.single (by simpa [hDone] using hTurn))
  · next hNot => exact Leads.pure (.single (by simpa [hNot] using hTurn))

/-- `deref_subscription` leaves the subject alone, or drops it from the session. -/
theorem derefSubscription_cases {r : Listened} (h : derefSubscription env db name sub = .ok r) :
    ∃ sess script, db.sessionTab.find? name = some sess ∧ db.subTab.find? sub = some script ∧
      r.sub = sub ∧
      ((r.done = false ∧ r.db = db ∧ r.coll = false ∧
          (script.refcnt = 0 ∨ sess.holds script.subjectId = false)) ∨
        (r.done = true ∧ script.refcnt ≠ 0 ∧ ∃ ht, sess.subHt = some ht ∧
          ht.contains script.subjectId = true ∧
          r.db = (releaseSubject env db name sess ht sub script).1)) := by
  simp only [derefSubscription, bind_eq_ok, sessionAt_eq_ok, subAt_eq_ok] at h
  obtain ⟨sess, hSess, script, hScript, h⟩ := h
  refine ⟨sess, script, hSess, hScript, ?_⟩
  split at h
  · next hZero =>
      cases h
      exact ⟨rfl, .inl ⟨rfl, rfl, rfl, .inl hZero⟩⟩
  · next hPos =>
      split at h
      · cases h
      · next ht hHt =>
          split at h
          · next hHeld =>
              cases h
              exact ⟨rfl, .inr ⟨rfl, hPos, ht, hHt, hHeld, rfl⟩⟩
          · next hNot =>
              cases h
              refine ⟨rfl, .inl ⟨rfl, rfl, rfl, .inr ?_⟩⟩
              simpa [RvSessionEntry.holds, hHt] using hNot

theorem derefSubscription_ne_freeSlot (env : Env) (db : RvSubscriptionDB) (name sub : Text) :
    derefSubscription env db name sub ≠ .error .freeSlot := by
  unfold derefSubscription
  intro hError
  rcases bind_eq_error hError with hRead | ⟨sess, _, hRest⟩
  · exact sessionAt_ne_freeSlot _ _ hRead
  · rcases bind_eq_error hRest with hRead | ⟨script, _, hEnd⟩
    · exact subAt_ne_freeSlot _ _ hRead
    · split at hEnd
      · cases hEnd
      · split at hEnd
        · cases hEnd
        · split at hEnd <;> cases hEnd

/-- One stale subject. -/
theorem stopMarked_leads : Leads env P id db (stopMarked env name db sub) := by
  unfold stopMarked
  refine Leads.read (derefSubscription_ne_freeSlot _ _ _ _) fun r hDeref => ?_
  split
  · next hDone =>
      refine Leads.read (subAt_ne_freeSlot _ _) fun script hScript => ?_
      exact Leads.pure (.single (.release false hDeref hDone (subAt_eq_ok.mp hScript)))
  · next hNot =>
      obtain ⟨sess, script, -, -, -, hCase⟩ := derefSubscription_cases hDeref
      rcases hCase with ⟨-, hDb, -⟩ | ⟨hDone, -⟩
      · exact Leads.pure (by rw [id_eq, hDb])
      · exact absurd hDone hNot

theorem isLive_modifySession {f : RvSessionEntry → RvSessionEntry}
    (hState : ∀ s, (f s).state = .stop ↔ s.state = .stop) (x : Text) :
    isLive (db.modifySession name f) x = isLive db x := by
  unfold isLive
  simp only [RvSubscriptionDB.modifySession, Table.find?_modify]
  cases db.sessionTab.find? x with
  | none => rfl
  | some s => by_cases hSame : x = name <;> simp [hSame, hState]

/-- After `session_ref` the session is live. -/
theorem isLive_sessionRef {cid : BitVec 16} (h : sessionRef env db cid name = .ok db') :
    isLive db' name = true := by
  simp only [sessionRef, bind_eq_ok, pure_eq_ok] at h
  obtain ⟨db₁, hOpen, rfl⟩ := h
  refine Eq.trans (isLive_modifySession ?_ name) ?_
  · exact fun _ => Iff.rfl
  unfold ensureOpen at hOpen
  split at hOpen
  · next hLive =>
      cases hOpen
      exact hLive
  · simp only [openSession, bind_eq_ok] at hOpen
    obtain ⟨hostId, -, ⟨db₂, i⟩, -, hAdd⟩ := hOpen
    unfold isLive
    rw [addSession_sessionTab hAdd]
    simp [startEntry, start_state_ne_stop]

/-- The call of the listener for a subject that is not held, after its session is
queried. -/
theorem orphan_turns {sess : RvSessionEntry} {script : RvSubscription} (hLive : isLive db name = true)
    (hOk : P (db.modifySession name RvSessionEntry.toQuery) (.orphan name sub))
    (hSess : db.sessionTab.find? name = some sess) (hScript : db.subTab.find? sub = some script)
    (hNot : script.refcnt = 0 ∨ sess.holds script.subjectId = false) :
    Turns env P db ((db.modifySession name RvSessionEntry.toQuery).notify env
      (.listenStop name sub script.refcnt true true false)) := by
  have hQuery : Turn env P db (db.modifySession name RvSessionEntry.toQuery) := .query (.inl hLive)
  have hFound : (db.modifySession name RvSessionEntry.toQuery).sessionTab.find? name =
      some sess.toQuery := by
    simp [RvSubscriptionDB.modifySession, hSess]
  refine .head hQuery (.single (.orphan hOk hFound hScript ?_))
  simpa only [RvSessionEntry.holds, toQuery_subHt] using hNot

/-- The three ways of `listen_stop`. A subject that is not found is entered, and a
session that does not hold the subject is queried. -/
theorem listenStop_turns {r : Listened} (hLive : isLive db name = true)
    (hOk : r.done = false → P r.db (.orphan name sub))
    (h : listenStop env db name sub = .ok r) {script : RvSubscription}
    (hScript : r.db.subTab.find? r.sub = some script) :
    Turns env P db
      (r.db.notify env (.listenStop name r.sub script.refcnt (!r.done) true r.coll)) := by
  simp only [listenStop, bind_eq_ok] at h
  obtain ⟨r₁, hDrop, h⟩ := h
  unfold derefOrEnter at hDrop
  split at hDrop
  · obtain ⟨sess, script₁, hSess, hScript₁, hSub, hCase⟩ := derefSubscription_cases hDrop
    rcases hCase with ⟨hDone, hDb, hColl, hNot⟩ | ⟨hDone, -⟩
    · rw [hDone] at h
      cases h
      simp only [hSub, hDb, hColl] at hOk hScript ⊢
      obtain rfl := Option.some.inj (hScript₁.symm.trans hScript)
      exact orphan_turns hLive (hOk trivial) hSess hScript hNot
    · rw [hDone] at h
      cases h
      rw [hSub] at hScript ⊢
      rw [hDone]
      exact .single (.release true hDrop hDone hScript)
  · next hNew =>
      cases hDrop
      cases h
      have hEnter : Turn env P db (getSubscription env db sub) := .getSubscription sub
      have hTab := getSubscription_sessionTab env db sub
      obtain ⟨sess, hSess, -⟩ : ∃ sess, db.sessionTab.find? name = some sess ∧ sess.state ≠ .stop := by
        simpa [isLive, Option.any_eq_true] using hLive
      refine .head hEnter (orphan_turns ?_ (hOk rfl) (hTab ▸ hSess) hScript (.inl ?_))
      · unfold isLive at hLive ⊢
        rw [hTab]
        exact hLive
      · have hFound : script = .start (subjectId env (db.nextSubjectCtr + 1)) db.curMono := by
          simpa [getSubscription, hNew, RvSubscriptionDB.modifySession] using hScript.symm
        rw [hFound]
        rfl

theorem derefOrEnter_ne_freeSlot (env : Env) (db : RvSubscriptionDB) (name sub : Text) :
    derefOrEnter env db name sub ≠ .error .freeSlot := by
  unfold derefOrEnter
  split
  · exact derefSubscription_ne_freeSlot env db name sub
  · simp

theorem listenStop_ne_freeSlot (env : Env) (db : RvSubscriptionDB) (name sub : Text) :
    listenStop env db name sub ≠ .error .freeSlot := by
  unfold listenStop
  intro hError
  rcases bind_eq_error hError with hDrop | ⟨r, _, hEnd⟩
  · exact derefOrEnter_ne_freeSlot _ _ _ _ hDrop
  · split at hEnd <;> cases hEnd

theorem listenStopAdvisory_leads {cid : BitVec 16} (hOk : MeetsStop env P db cid name sub) :
    Leads env P id db (listenStopAdvisory env db cid name sub) := by
  unfold listenStopAdvisory
  refine Leads.bind (sessionRef_leads hOk.1) ?_
  intro db₁ hRef
  refine Leads.read (sessionAt_ne_freeSlot _ _) fun sess _ => ?_
  split
  · exact Leads.pure .refl
  · refine Leads.read (listenStop_ne_freeSlot _ _ _ _) fun r hStop => ?_
    refine Leads.read (subAt_ne_freeSlot _ _) fun script hScript => ?_
    apply Leads.pure
    exact listenStop_turns (isLive_sessionRef hRef) (hOk.2 db₁ hRef r hStop) hStop
      (subAt_eq_ok.mp hScript)

end Sassrv.SubMgr
