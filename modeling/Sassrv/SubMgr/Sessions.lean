import Sassrv.SubMgr.Hosts

/-! Sessions and the subjects they hold: the operations of `RvSubscriptionDB` that
an advisory calls. -/
namespace Sassrv.SubMgr

/-- `next_session_id`. -/
def sessionId (n : Nat) : BitVec 32 := BitVec.ofNat 32 n

/-- `next_subject_id`. -/
def subjectId (env : Env) (n : Nat) : BitVec 32 := env.hashUint (BitVec.ofNat 32 n)

/-- `add_session`: the session goes to the host's table and, if it was not there,
to the table of the database. -/
def addSession (env : Env) (db : RvSubscriptionDB) (i : Nat) (name : Text) :
    Result RvSubscriptionDB := do
  let host ← db.hostAt i
  let sess ← db.sessionAt name
  match host.sessHt with
  | none => .error .nullPointer
  | some ht =>
      if ht.contains sess.sessionId then return db
      else
        let hash := env.crcC name 0
        let db := db.modifyHost i fun host =>
          { host with
            sessHt := some (ht.insert sess.sessionId hash)
            rv7SessId := if sess.hasDaemon then sess.sessionId else host.rv7SessId }
        return { db with
          sessHt := db.sessHt.insert sess.sessionId hash
          sessions := { db.sessions with active := db.sessions.active + 1 } }

/-- `RvHostEntry::rem_session`, with the counters of `rem_session`. -/
def unlinkSession (db : RvSubscriptionDB) (i : Nat) (name : Text) : Result RvSubscriptionDB := do
  let host ← db.hostAt i
  let sess ← db.sessionAt name
  match host.sessHt with
  | none => .error .nullPointer
  | some ht =>
      if ht.contains sess.sessionId then
        let db := db.modifyHost i fun host =>
          { host with
            sessHt := some (ht.erase sess.sessionId)
            rv7SessId := if sess.hasDaemon then 0 else host.rv7SessId }
        return { db with sessions := db.sessions.retire }
      else return db

def remSession (env : Env) (db : RvSubscriptionDB) (i : Nat) (name : Text) :
    Result RvSubscriptionDB := do
  let db ← unsubSession env db name
  unlinkSession db i name

/-- `entry->start( .., next_session_id(), .. )` on a new or old entry. -/
def startEntry (db : RvSubscriptionDB) (name : Text) (hostId : BitVec 32) (cid : BitVec 16)
    (isStart : Bool) (user : Option Text) : RvSubscriptionDB :=
  let n := db.nextSessionCtr + 1
  { db with
    nextSessionCtr := n
    sessionTab := db.sessionTab.insert name
      (.start name hostId cid (sessionId n) db.curMono isStart user) }

/-- The session is known and not stopped. -/
def isLive (db : RvSubscriptionDB) (name : Text) : Bool :=
  (db.sessionTab.find? name).any fun s => s.state ≠ .stop

/-- `session_start` drops a session that is not stopped, from the host that is given. -/
def dropLive (env : Env) (db : RvSubscriptionDB) (i : Nat) (name : Text) :
    Result RvSubscriptionDB :=
  if isLive db name then remSession env db i name else .ok db

/-- A session that was not stopped before is queried after its start. -/
def sessionStart (env : Env) (db : RvSubscriptionDB) (hostId : BitVec 32) (cid : BitVec 16)
    (name : Text) (isSelf : Bool) (user : Option Text) : Result RvSubscriptionDB :=
  match hostExists env db hostId cid with
  | none => .ok db
  | some i => do
      let live := isLive db name
      let db ← dropLive env db i name
      let db := startEntry db name hostId cid true user
      let db := if live then
          db.modifySession name fun s => if s.state = .cid then s else { s with state := .query }
        else db
      let db ← addSession env db i name
      return if isSelf then db.modifySession name fun s => { s with state := .self } else db

/-- The host is the one that the entry names. -/
def sessionStop (env : Env) (db : RvSubscriptionDB) (name : Text) : Result RvSubscriptionDB :=
  match db.sessionTab.find? name with
  | none => .ok db
  | some sess =>
      match hostExists env db sess.hostId sess.cid with
      | none => .ok db
      | some i => remSession env db i name

/-- `session_ref` of a session that is new or stopped. -/
def openSession (env : Env) (db : RvSubscriptionDB) (cid : BitVec 16) (name : Text) :
    Result RvSubscriptionDB := do
  let hostId ← stringToHostId name
  let (db, i) ← hostRef env db hostId cid false
  let db := startEntry db name hostId cid false none
  addSession env db i name

def ensureOpen (env : Env) (db : RvSubscriptionDB) (cid : BitVec 16) (name : Text) :
    Result RvSubscriptionDB :=
  if isLive db name then .ok db else openSession env db (nameCid cid name) name

def sessionRef (env : Env) (db : RvSubscriptionDB) (cid : BitVec 16) (name : Text) :
    Result RvSubscriptionDB := do
  let db ← ensureOpen env db cid name
  return db.modifySession name fun s => { s with refMono := db.curMono }

/-- `get_subscription`: the subject is entered if it is not there. -/
def getSubscription (env : Env) (db : RvSubscriptionDB) (sub : Text) : RvSubscriptionDB :=
  if db.subTab.contains sub then db
  else
    let n := db.nextSubjectCtr + 1
    { db with
      nextSubjectCtr := n
      subTab := db.subTab.insert sub (.start (subjectId env n) db.curMono) }

/-- The entry of the subject in `listen_ref`, new or referenced. -/
def refSubscription (env : Env) (db : RvSubscriptionDB) (sub : Text) : RvSubscriptionDB :=
  if db.subTab.contains sub then db.modifySub sub fun s => { s with refMono := db.curMono }
  else getSubscription env db sub

/-- `add_subject` when the session does not hold the subject yet, and what
`listen_ref` does then. -/
def holdSubject (env : Env) (db : RvSubscriptionDB) (name : Text) (sess : RvSessionEntry)
    (ht : UIntHashTab) (sub : Text) (script : RvSubscription) : RvSubscriptionDB × Bool :=
  let db := db.modifySession name fun s =>
    s.setSubHt (ht.insert script.subjectId (env.crcC sub 0))
  let db := db.modifySub sub fun s => s.addRef sess.hasDaemon
  let db := hostDigest env db name sess sub true
  if (script.addRef sess.hasDaemon).refcnt = 1 then
    let db := { db with
      subscriptions := { db.subscriptions with active := db.subscriptions.active + 1 } }
    (db, decide (1 < subHashCount env db sub))
  else (db, false)

/-- What `listen_ref` and `listen_stop` return besides the subscription. -/
structure Listened where
  db : RvSubscriptionDB
  sub : Text
  done : Bool
  coll : Bool

def listenRef (env : Env) (db : RvSubscriptionDB) (name sub : Text) : Result Listened := do
  let sub := stripNul sub
  let db := refSubscription env db sub
  let sess ← db.sessionAt name
  let script ← db.subAt sub
  match sess.subHt with
  | none => .error .nullPointer
  | some ht =>
      if ht.contains script.subjectId then return ⟨db, sub, false, false⟩
      else
        let (db, coll) := holdSubject env db name sess ht sub script
        return ⟨db, sub, true, coll⟩

/-- `rem_subject` when the session holds the subject, and what
`deref_subscription` does then. -/
def releaseSubject (env : Env) (db : RvSubscriptionDB) (name : Text) (sess : RvSessionEntry)
    (ht : UIntHashTab) (sub : Text) (script : RvSubscription) : RvSubscriptionDB × Bool :=
  let db := db.modifySession name fun s => s.setSubHt (ht.erase script.subjectId)
  let db := db.modifySub sub fun s => s.dropRef sess.hasDaemon
  let script := script.dropRef sess.hasDaemon
  let db := hostDigest env db name sess sub false
  if script.refcnt = 0 then
    let db := { db with subscriptions := db.subscriptions.retire }
    (db, decide (0 < subHashCount env db sub))
  else if script.refcnt = 1 ∧ script.ref7cnt then (queryRv7Session env db sess.hostId, false)
  else (db, false)

/-- `deref_subscription`. The table of the session is looked at only if the
subject has references. -/
def derefSubscription (env : Env) (db : RvSubscriptionDB) (name sub : Text) : Result Listened := do
  let sess ← db.sessionAt name
  let script ← db.subAt sub
  if script.refcnt = 0 then return ⟨db, sub, false, false⟩
  else
    match sess.subHt with
    | none => .error .nullPointer
    | some ht =>
        if ht.contains script.subjectId then
          let (db, coll) := releaseSubject env db name sess ht sub script
          return ⟨db, sub, true, coll⟩
        else return ⟨db, sub, false, false⟩

/-- The subject that `listen_stop` finds is dropped, one that it does not is entered. -/
def derefOrEnter (env : Env) (db : RvSubscriptionDB) (name sub : Text) : Result Listened :=
  if db.subTab.contains sub then derefSubscription env db name sub
  else .ok ⟨getSubscription env db sub, sub, false, false⟩

/-- `listen_stop`; `done` is false for an orphan. The name is looked up as it
comes, with any `'\0'` at its end. -/
def listenStop (env : Env) (db : RvSubscriptionDB) (name sub : Text) : Result Listened := do
  let r ← derefOrEnter env db name sub
  if r.done then return r
  else return { r with db := r.db.modifySession name RvSessionEntry.toQuery }

/-- `get_session` by name, else the daemon session of the host; `buf` is the text
that the name starts. -/
def getSession (env : Env) (db : RvSubscriptionDB) (name buf : Text) : Result (Option Text) :=
  if db.sessionTab.contains name then .ok (some name)
  else do
    let hostId ← stringToHostId buf
    return getRv7Session env db hostId

/-- The host of an unknown session is queried. -/
def queryHost (env : Env) (db : RvSubscriptionDB) (buf : Text) : Result RvSubscriptionDB := do
  let hostId ← stringToHostId buf
  let (db, i) ← hostRef env db hostId 0 false
  return db.modifyHost i fun host => { host with state := .query }

def snapshot (env : Env) (db : RvSubscriptionDB) (sub name buf : Text) :
    Result (RvSubscriptionDB × Option Text) := do
  let db := getSubscription env db sub
  let script ← db.subAt sub
  let session ← getSession env db name buf
  match session with
  | none =>
      let db ← queryHost env db buf
      return (db, none)
  | some found =>
      if script.refcnt ≠ 0 ∧ script.ref7cnt = false then
        return (db.modifySession found RvSessionEntry.toQuery, some found)
      else return (db, some found)

def tic (env : Env) (db : RvSubscriptionDB) (sub name buf : Text) :
    Result (RvSubscriptionDB × Option Text) := do
  let db := getSubscription env db sub
  let session ← getSession env db name buf
  match session with
  | none =>
      let db ← queryHost env db buf
      return (db, none)
  | some found => return (db, some found)

end Sassrv.SubMgr
