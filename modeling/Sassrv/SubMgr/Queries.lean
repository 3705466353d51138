import Sassrv.SubMgr.Sessions

/-! Queries to hosts and sessions, the reconciliation that a reply starts, the
expiry of sass3 entries, `gc` and `process_events`. -/
namespace Sassrv.SubMgr

/-- `mark_sessions`: sessions not seen since the query was sent. -/
def markSessions (env : Env) (db : RvSubscriptionDB) (host : RvHostEntry) : RvSubscriptionDB :=
  (sessionsOf env db host.sessHt).foldl
    (fun db name => db.modifySession name fun s =>
      if s.refMono < host.queryMono then { s with refMono := 0 } else s) db

def isMarkedSession (db : RvSubscriptionDB) (name : Text) : Bool :=
  (db.sessionTab.find? name).any fun s => s.refMono = 0

/-- `stop_marked_sessions`. Its arrays hold 256 entries and are not emptied between
the turns of its loop. -/
def stopMarkedSessions (env : Env) (db : RvSubscriptionDB) (i : Nat) : Result RvSubscriptionDB := do
  let host ← db.hostAt i
  let names := sessionsOf env db host.sessHt
  let marked := names.filter (isMarkedSession db)
  if 256 ≤ marked.length then .error .arraysFull
  else
    let db := (names.filter fun name => !isMarkedSession db name).foldl
      (fun db name => db.modifySession name RvSessionEntry.toQuery) db
    marked.foldlM (fun db name => remSession env db i name) db

/-- `mark_subscriptions`: subjects entered before the query was sent. -/
def markSubscriptions (env : Env) (db : RvSubscriptionDB) (sess : RvSessionEntry) :
    RvSubscriptionDB :=
  (subjects env db sess.subHt).foldl
    (fun db sub => db.modifySub sub fun s =>
      if s.startMono < sess.queryMono then { s with refMono := 0 } else s) db

def isMarkedSubscription (db : RvSubscriptionDB) (sub : Text) : Bool :=
  (db.subTab.find? sub).any fun s => s.refMono = 0

/-- One marked subject dropped in `stop_marked_subscriptions`. -/
def stopMarked (env : Env) (name : Text) (db : RvSubscriptionDB) (sub : Text) :
    Result RvSubscriptionDB := do
  let r ← derefSubscription env db name sub
  if r.done then
    let script ← r.db.subAt sub
    return r.db.notify env (.listenStop name sub script.refcnt false false r.coll)
  else return r.db

/-- `stop_marked_subscriptions`, with the same arrays. -/
def stopMarkedSubscriptions (env : Env) (db : RvSubscriptionDB) (name : Text) :
    Result RvSubscriptionDB := do
  let sess ← db.sessionAt name
  let marked := (subjects env db sess.subHt).filter (isMarkedSubscription db)
  if 256 ≤ marked.length then .error .arraysFull
  else marked.foldlM (stopMarked env name) db

def hostQueryInterval : BitVec 32 := 30

def hostTimeoutInterval : BitVec 32 := 120

def sessionQueryInterval : BitVec 32 := 30

def sessionTimeoutInterval : BitVec 32 := 60

def sendHostQuery (env : Env) (db : RvSubscriptionDB) (i : Nat) : Result RvSubscriptionDB := do
  let host ← db.hostAt i
  if db.curMono < host.queryMono + hostQueryInterval then return db
  else if host.refMono + hostTimeoutInterval < db.curMono then unsubHost env db i
  else
    let inbox := BitVec.ofNat 32 i + hostInboxBase.setWidth 32
    let db := db.emit (.hostQuery inbox host.hostId host.cid)
    return db.modifyHost i fun host => { host with queryMono := db.curMono }

def sendSessionQuery (env : Env) (db : RvSubscriptionDB) (i : Nat) (name : Text) :
    Result RvSubscriptionDB := do
  let host ← db.hostAt i
  let sess ← db.sessionAt name
  if db.curMono < sess.queryMono + sessionQueryInterval then return db
  else if sess.refMono + sessionTimeoutInterval < db.curMono then
    return db.modifyHost i fun host => { host with state := .query }
  else if name = env.session then
    return db.modifySession name fun s => { s with state := .self }
  else
    let inbox := sess.sessionId + sessionInboxBase.setWidth 32
    let db := db.emit (.sessionQuery inbox host.hostId host.cid name)
    return db.modifySession name fun s => { s with queryMono := db.curMono }

/-- The sessions of a host in `process_events`, up to one that has the host queried. -/
def querySessions (env : Env) (i : Nat) : List Text → RvSubscriptionDB → Result RvSubscriptionDB
  | [], db => .ok db
  | name :: rest, db => do
      let sess ← db.sessionAt name
      if sess.state = .query then
        let db ← sendSessionQuery env db i name
        let host ← db.hostAt i
        if host.state = .query then sendHostQuery env db i
        else querySessions env i rest db
      else querySessions env i rest db

/-- `send_host_query` on a host in state query. -/
def queryIfDue (env : Env) (db : RvSubscriptionDB) (i : Nat) (host : RvHostEntry) :
    Result RvSubscriptionDB :=
  if host.state = .query then sendHostQuery env db i else .ok db

/-- The turn of `process_events` for one slot. -/
def pollHost (env : Env) (db : RvSubscriptionDB) (i : Nat) : Result RvSubscriptionDB := do
  let host ← db.hostAt i
  if host.state = .stop then return db
  else
    let db := db.modifyHost i fun host => host.checkQueryNeeded db.curMono
    let host ← db.hostAt i
    let db ← queryIfDue env db i host
    let host ← db.hostAt i
    if host.state = .query ∨ host.state = .stop then return db
    else querySessions env i (sessionsOf env db host.sessHt) db

/-- The loop over `soft_host_query` in `process_events`. -/
def softQuery (db : RvSubscriptionDB) : Nat → RvSubscriptionDB
  | 0 => { db with softHostQuery := 0 }
  | n + 1 =>
      if (db.hostTab[n + 1]?).any fun host => host.state = .query then
        { db with softHostQuery := n + 1 }
      else if (db.hostTab[n]?).any fun host => host.state ≠ .stop then
        { db with softHostQuery := n }.modifyHost n fun host => { host with state := .query }
      else softQuery db n

/-- One entry that `process_events` expires; the listener is called without a
test of `cb`. -/
def expireEntry (env : Env) (db : RvSubscriptionDB) (entry : RvSass3Entry) :
    Result RvSubscriptionDB :=
  let db := { db with sass3Tab := db.sass3Tab.erase entry.toRvSass3Key }
  match getSubject env db entry.subjectId entry.subjHash with
  | none => .ok db
  | some sub => do
      let script ← db.subAt sub
      if script.refcnt = 0 then return db
      else if env.listening then
        let db := db.modifySub sub fun s => s.dropRef false
        return db.emit
          (.sass3 entry sub (script.dropRef false).refcnt [] env.qfUnsubscribe false true)
      else .error .nullPointer

/-- The expiry loop of `process_events` over the entries of the list. -/
def expireSass3 (env : Env) (db : RvSubscriptionDB) :
    List RvSass3Entry → Result RvSubscriptionDB
  | [] => .ok { db with sass3List := [] }
  | entry :: rest => do
      if entry.expired db.curMono then
        let db ← expireEntry env db entry
        expireSass3 env db rest
      else return { db with sass3List := entry :: rest }

def gcSubscriptions (db : RvSubscriptionDB) : RvSubscriptionDB :=
  if db.subscriptions.active < db.subscriptions.removed then
    { db with
      subscriptions := { db.subscriptions with removed := 0 }
      subTab := db.subTab.filter fun s => s.refcnt ≠ 0 }
  else db

def gcSessions (db : RvSubscriptionDB) : RvSubscriptionDB :=
  if db.sessions.active < db.sessions.removed then
    { db with
      sessions := { db.sessions with removed := 0 }
      sessionTab := db.sessionTab.filter fun s => s.state ≠ .stop }
  else db

def gcHosts (db : RvSubscriptionDB) : RvSubscriptionDB :=
  if db.hosts.active < db.hosts.removed ∧ db.firstFreeHost = db.hostTab.length then
    { db with
      hosts := { db.hosts with removed := 0 }
      firstFreeHost := (db.hostTab.findIdx? fun host => host.state = .stop).getD db.firstFreeHost }
  else db

def gc (db : RvSubscriptionDB) : RvSubscriptionDB := gcHosts (gcSessions (gcSubscriptions db))

def processEvents (env : Env) (db : RvSubscriptionDB) (curMono : BitVec 32) :
    Result RvSubscriptionDB := do
  let db := { db with curMono := curMono }
  let db ← expireSass3 env db db.sass3List
  let db := softQuery db db.softHostQuery
  let db ← (List.range db.hostTab.length).foldlM (pollHost env) db
  if db.nextGc < db.curMono then return gc { db with nextGc := db.curMono + 131 }
  else return db

end Sassrv.SubMgr
