import Sassrv.Lib.Transition
import Sassrv.SubMgr.Queries

/-! `process_pub2` with its advisories and query replies, `update_sync`, and the
database as a system that takes messages, time and calls one after the other.
A message is what raimd's field reader gives for it: an absent or unreadable
field is `none`. -/
namespace Sassrv.SubMgr
open Transition

/-- The field `A` of a `_SASS` message: what its reader leaves in `u`, `h`, `a` and
`pid`. -/
structure SassApp where
  user : Text := []
  host : Text := []
  app : Text := []
  pid : BitVec 32 := 0

/-- A field of a query reply: its name as `equals` compares it, and its value where
that is a string. -/
structure ReplyField where
  name : Text := []
  string : Option Text

/-- The fields of a message that `process_pub2` looks for. `t` and `a` are present
without a value where the field is there and cannot be read; `s` holds the field
names of the submessage `S`, with the `'\0'` that ends each. -/
structure Fields where
  id : Option Text := none
  sub : Option Text := none
  userid : Option Text := none
  cid : Option (BitVec 16) := none
  idl : Option (BitVec 32) := none
  odl : Option (BitVec 32) := none
  sc : Option (BitVec 32) := none
  sx : Option (BitVec 32) := none
  flags : Option (BitVec 16) := none
  t : Option (Option (BitVec 16)) := none
  a : Option (Option SassApp) := none
  s : Option (List Text) := none
  items : List ReplyField := []

/-- The data of a message: none, not decodable, or the fields. -/
inductive Body where
  | empty
  | undecodable
  | fields (m : Fields)

structure EvPublish where
  subject : Text
  reply : Text := []
  body : Body := .empty

/-- The key that `sass3` looks up, with the names for what is missing. -/
def sass3Key (env : Env) (sub : Text) (script : RvSubscription) (app : SassApp) : RvSass3Key where
  subjHash := env.crcC sub 0
  subjectId := script.subjectId
  pid := app.pid
  userId := if app.user.length ≠ 0 then cstr app.user else text "nobody"
  host := if app.host.length ≠ 0 then cstr app.host else text "localhost"
  app := if app.app.length ≠ 0 then cstr app.app else text "unknown"

/-- `sass3` for a key in the table. -/
def sass3Known (env : Env) (db : RvSubscriptionDB) (sub : Text) (key : RvSass3Key)
    (entry : RvSass3Entry) (flags : BitVec 16) : RvSubscriptionDB × RvSass3Entry :=
  if flags = env.qfSnapshot then (db, entry)
  else
    let list := db.sass3List.erase entry
    if flags = env.qfUnsubscribe then
      let entry := { entry with refMono := 0, subjectId := 0 }
      let db := db.modifySub sub fun s => s.dropRef false
      (db.setSass3 (db.sass3Tab.erase key) (entry :: list), entry)
    else
      let entry := { entry with refMono := db.curMono }
      (db.setSass3 db.sass3Tab (list ++ [entry]), entry)

/-- `sass3` for a key that is not in the table. -/
def sass3New (env : Env) (db : RvSubscriptionDB) (sub : Text) (key : RvSass3Key)
    (flags : BitVec 16) : RvSubscriptionDB × RvSass3Entry :=
  if flags = env.qfSnapshot ∨ flags = env.qfUnsubscribe then
    let entry : RvSass3Entry :=
      { toRvSass3Key := { key with subjectId := 0 }, startMono := 0, refMono := 0 }
    (db.setSass3 db.sass3Tab (entry :: db.sass3List), entry)
  else
    let entry : RvSass3Entry :=
      { toRvSass3Key := key
        startMono := if flags &&& env.qfResubscribe ≠ 0 then 0 else db.curMono
        refMono := db.curMono }
    let db := db.modifySub sub fun s => s.addRef false
    (db.setSass3 (Insert.insert key db.sass3Tab) (db.sass3List ++ [entry]), entry)

def sass3 (env : Env) (db : RvSubscriptionDB) (sub : Text) (script : RvSubscription)
    (app : SassApp) (flags : BitVec 16) : Result (RvSubscriptionDB × RvSass3Entry) :=
  let key := sass3Key env sub script app
  if key ∈ db.sass3Tab then
    match db.sass3List.find? fun e => e.toRvSass3Key = key with
    | none => .error .nullPointer
    | some entry => .ok (sass3Known env db sub key entry flags)
  else .ok (sass3New env db sub key flags)

/-- `script.start_mono = cur_mono` on the first node with the key. -/
def setSass3Start (db : RvSubscriptionDB) (key : RvSass3Key) : RvSubscriptionDB :=
  { db with
    sass3List := db.sass3List.modify (db.sass3List.findIdx fun e => e.toRvSass3Key = key)
      fun e => { e with startMono := db.curMono } }

/-- One subject of a `_SASS` message. -/
def sassSubject (env : Env) (reply : Text) (app : SassApp) (flags : BitVec 16)
    (db : RvSubscriptionDB) (fname : Text) : Result RvSubscriptionDB := do
  if fname.length ≤ 1 then return db
  else
    let sub := fname.dropLast
    let db := getSubscription env db sub
    let script ← db.subAt sub
    let (db, entry) ← sass3 env db sub script app flags
    let script ← db.subAt sub
    if flags = env.qfResubscribe ∧ entry.startMono ≠ 0 then return db
    else if env.listening then
      if flags = env.qfResubscribe then
        let db := setSass3Start db entry.toRvSass3Key
        let f := flags ||| env.qfRefresh
        let isOrphan := decide (f = env.qfUnsubscribe ∧ db.curMono = 0)
        return db.emit (.sass3 { entry with startMono := db.curMono } sub script.refcnt reply f
          isOrphan true)
      else
        let isOrphan := decide (flags = env.qfUnsubscribe ∧ entry.startMono = 0)
        return db.emit (.sass3 entry sub script.refcnt reply flags isOrphan false)
    else .error .nullPointer

/-- The flags of the field `T`, with one of two kinds singled out. -/
def sassFlags (env : Env) (t : Option (BitVec 16)) : BitVec 16 :=
  let flags := t.getD 0
  if flags &&& env.qfUnsubscribe ≠ 0 then env.qfUnsubscribe
  else if flags &&& env.qfSnapshot ≠ 0 then env.qfSnapshot
  else flags

def sassMessage (env : Env) (db : RvSubscriptionDB) (reply : Text) (m : Fields) :
    Result RvSubscriptionDB :=
  match m.t, m.a, m.s with
  | some t, some a, some names =>
      names.foldlM (sassSubject env reply (a.getD {}) (sassFlags env t)) db
  | _, _, _ => .ok db

/-- The nodes at the head of the list that `sass3` left for the listener only. -/
def reapSass3 (db : RvSubscriptionDB) : RvSubscriptionDB :=
  { db with sass3List := db.sass3List.dropWhile fun e => e.subjectId = 0 ∧ e.refMono = 0 }

/-- A host asked for its sessions, and all others with it if it is the client's own. -/
def askHost (env : Env) (db : RvSubscriptionDB) (i : Nat) (host : RvHostEntry) :
    RvSubscriptionDB :=
  let db := db.modifyHost i fun host => { host with state := .query }
  if host.hostId = env.ipaddr then { db with softHostQuery := db.hostTab.length } else db

def hostStatus (env : Env) (db : RvSubscriptionDB) (hostId : BitVec 32) (cid : BitVec 16)
    (m : Fields) : Result RvSubscriptionDB := do
  let (db, i) ← hostRef env db hostId cid true
  let host ← db.hostAt i
  let loss := m.idl.getD 0 + m.odl.getD 0
  if host.dataLoss ≠ loss then
    return askHost env (db.modifyHost i fun host => { host with dataLoss := loss }) i host
  else
    match m.sc, m.sx with
    | some sc, some sx =>
        if env.isAllSubscribed ∧ host.state ≠ .query ∧ (host.subCount ≠ sc ∨ host.subDigest ≠ sx)
        then return askHost env db i host
        else return db
    | _, _ => return db

def listenStartAdvisory (env : Env) (db : RvSubscriptionDB) (cid : BitVec 16) (name sub reply : Text) :
    Result RvSubscriptionDB := do
  let db ← sessionRef env db cid name
  let sess ← db.sessionAt name
  if sess.state = .self then return db
  else
    let r ← listenRef env db name sub
    let script ← r.db.subAt r.sub
    return r.db.notify env (.listenStart name r.sub script.refcnt reply true r.coll)

def listenStopAdvisory (env : Env) (db : RvSubscriptionDB) (cid : BitVec 16) (name sub : Text) :
    Result RvSubscriptionDB := do
  let db ← sessionRef env db cid name
  let sess ← db.sessionAt name
  if sess.state = .self then return db
  else
    let r ← listenStop env db name sub
    let script ← r.db.subAt r.sub
    return r.db.notify env (.listenStop name r.sub script.refcnt (!r.done) true r.coll)

def snapAdvisory (env : Env) (db : RvSubscriptionDB) (subject reply : Text) (flags : BitVec 16) :
    Result RvSubscriptionDB := do
  if env.listening ∧ 6 < subject.length ∧ 7 + 8 < reply.length then
    let sub := subject.drop 6
    let (db, session) ← snapshot env db sub (inboxSession reply) (reply.drop 7)
    return db.emit (.snapshot sub session reply flags)
  else return db

def ticAdvisory (env : Env) (db : RvSubscriptionDB) (subject reply : Text) :
    Result RvSubscriptionDB := do
  if env.listening ∧ 7 + 8 < reply.length then
    let (db, session) ← tic env db subject (inboxSession reply) (reply.drop 7)
    return db.emit (.ticReply subject session reply)
  else return db

/-- The host id behind the prefix of the subject, for the kinds that have one. -/
def subjectHostId (info : SubMatch) (subject : Text) : Result (BitVec 32) :=
  if info.kind.hasHostId then stringToHostId (subject.drop (info.len - 1)) else .ok 0

/-- `process_pub2` on a subject of the table. A missing field reads as empty. -/
def advisory (env : Env) (db : RvSubscriptionDB) (info : SubMatch) (subject reply : Text)
    (m : Fields) : Result RvSubscriptionDB := do
  let hostId ← subjectHostId info subject
  let name := m.id.getD []
  match info.kind with
  | .hostStatus => hostStatus env db hostId (m.cid.getD 0) m
  | .hostStart => hostStart env db hostId (m.cid.getD 0)
  | .hostStop => hostStop env db hostId (m.cid.getD 0)
  | .unreachable => return queryRv7Session env db hostId
  | .sessionStart => sessionStart env db hostId (nameCid 0 name) name false m.userid
  | .sessionStop => sessionStop env db name
  | .listenStart => listenStartAdvisory env db (nameCid (m.cid.getD 0) name) name (m.sub.getD []) reply
  | .listenStop => listenStopAdvisory env db (nameCid (m.cid.getD 0) name) name (m.sub.getD [])
  | .snap => snapAdvisory env db subject reply (m.flags.getD 0)
  | .sass => do
      let db ← sassMessage env db reply m
      return reapSass3 db
  | .ticReply => ticAdvisory env db subject reply

/-- One session of a host query reply. -/
def replySession (env : Env) (i : Nat) (db : RvSubscriptionDB) (item : ReplyField) :
    Result RvSubscriptionDB := do
  match item.name, item.string with
  | [], some name =>
      let host ← db.hostAt i
      sessionRef env db host.cid name
  | _, _ => return db

/-- A reply to `send_host_query`. -/
def hostReply (env : Env) (db : RvSubscriptionDB) (i : Nat) (items : List ReplyField) :
    Result RvSubscriptionDB :=
  match db.hostTab[i]? with
  | none => .ok db
  | some host =>
      if host.state = .query then do
        let db := markSessions env db host
        let db ← items.foldlM (replySession env i) db
        let db ← stopMarkedSessions env db i
        return db.modifyHost i fun host => { host with state := .status }
      else .ok db

def isMatched (env : Env) (sub : Text) : Bool :=
  env.filters.isEmpty || env.filters.any fun wild => matchRvWildcard wild sub

/-- A subject listed by a reply or by `update_sync`. -/
def listSubject (env : Env) (name : Text) (db : RvSubscriptionDB) (sub : Text) :
    Result RvSubscriptionDB := do
  let r ← listenRef env db name sub
  if r.done then
    let script ← r.db.subAt r.sub
    return r.db.notify env (.listenStart name r.sub script.refcnt [] false r.coll)
  else return r.db

/-- One field of a session query reply. -/
def replySubject (env : Env) (name : Text) (db : RvSubscriptionDB) (item : ReplyField) :
    Result RvSubscriptionDB := do
  match item.name, item.string with
  | [], some sub => if isMatched env sub then listSubject env name db sub else return db
  | [], none => return db
  | field, user =>
      if field = text "user" then
        return db.modifySession name fun s => { s with userId := user }
      else return db

/-- A reply to `send_session_query`. -/
def sessionReply (env : Env) (db : RvSubscriptionDB) (sessId : BitVec 32)
    (items : List ReplyField) : Result RvSubscriptionDB :=
  match getSessionId env db sessId with
  | none => .ok db
  | some name => do
      let sess ← db.sessionAt name
      if sess.state = .query then
        let db := markSubscriptions env db sess
        let db ← items.foldlM (replySubject env name) db
        let db := db.modifySession name fun s =>
          { s with state := if s.hasDaemon then .rv7 else .rv5 }
        stopMarkedSubscriptions env db name
      else return db

/-- `is_inbox` of the client. -/
def isInbox (env : Env) (subject : Text) : BitVec 64 :=
  let control := text "_INBOX." ++ (if env.session = [] then [] else env.session ++ [46])
  match subject.drop control.length with
  | [] => 0
  | c :: rest =>
      if 48 ≤ c ∧ c ≤ 57 ∧ control.isPrefixOf subject then env.stringToUint64 (c :: rest) else 0

def queryReply (env : Env) (db : RvSubscriptionDB) (which : BitVec 64) (items : List ReplyField) :
    Result RvSubscriptionDB :=
  if hostInboxBase ≤ which then
    hostReply env db ((which - hostInboxBase).setWidth 32).toNat items
  else sessionReply env db ((which - sessionInboxBase).setWidth 32) items

/-- `process_pub2`; the clock of the client is read first. -/
def processPub2 (env : Env) (db : RvSubscriptionDB) (curMono : BitVec 32) (pub : EvPublish) :
    Result RvSubscriptionDB :=
  match matchRvInfo pub.subject with
  | some info =>
      let db := { db with curMono := curMono }
      match pub.body with
      | .undecodable => .ok db
      | .empty => advisory env db info pub.subject pub.reply {}
      | .fields m => advisory env db info pub.subject pub.reply m
  | none =>
      let which := isInbox env pub.subject
      if which = 0 ∨ (which < sessionInboxBase ∧ which < hostInboxBase) then .ok db
      else
        let db := { db with curMono := curMono }
        match pub.body with
        | .undecodable => .ok db
        | .empty => .error .nullPointer
        | .fields m => queryReply env db which m.items

/-- A session in a sync message: its field name with the `'\0'` that ends it, and
the strings of its submessage. -/
structure SyncSession where
  fname : Text
  subs : List Text := []

/-- The fields of a `host` submessage of a sync message, in their order. -/
inductive SyncField where
  | id (value : Option (BitVec 32))
  | cid (value : Option (BitVec 16))
  | sessions (list : List SyncSession)

def syncSession (env : Env) (cid : BitVec 16) (db : RvSubscriptionDB) (s : SyncSession) :
    Result RvSubscriptionDB := do
  if s.fname = [] then .error .outOfBounds
  else
    let name := s.fname.dropLast
    let db ← sessionRef env db cid name
    let sess ← db.sessionAt name
    if sess.state = .self then return db
    else s.subs.foldlM (listSubject env name) db

/-- The loop over the fields of one host. -/
def syncHost (env : Env) (hostId : BitVec 32) (cid : BitVec 16) :
    List SyncField → RvSubscriptionDB → Result RvSubscriptionDB
  | [], db => .ok db
  | .id value :: rest, db => syncHost env (value.getD hostId) cid rest db
  | .cid value :: rest, db => syncHost env hostId (value.getD cid) rest db
  | .sessions list :: rest, db => do
      if hostId = 0 then syncHost env hostId cid rest db
      else
        let (db, _) ← hostRef env db hostId cid true
        let db ← list.foldlM (syncSession env cid) db
        syncHost env hostId cid rest db

def updateSync (env : Env) (db : RvSubscriptionDB) (hosts : List (List SyncField)) :
    Result RvSubscriptionDB :=
  hosts.foldlM (fun db fields => syncHost env 0 0 fields db) db

def unsubAll (env : Env) (db : RvSubscriptionDB) : Result RvSubscriptionDB :=
  (List.range db.hostTab.length).foldlM (fun db i => do
    let host ← db.hostAt i
    if host.state = .stop then return db else unsubHost env db i) db

/-- `start_subscriptions` on a new database. -/
def startSubscriptions (env : Env) (curMono : BitVec 32) (s2 : Bool) :
    Result RvSubscriptionDB := do
  let db : RvSubscriptionDB := { curMono := curMono, nextGc := curMono + 131 }
  if s2 then
    let (db, i) ← hostRef env db env.ipaddr env.cid true
    let db := db.modifyHost i fun host => { host with state := .query }
    sessionStart env db env.ipaddr env.cid env.session true (some (text "self"))
  else return db

inductive Input where
  | pub (curMono : BitVec 32) (pub : EvPublish)
  | events (curMono : BitVec 32)
  | sync (hosts : List (List SyncField))
  | gc
  | unsubAll

def step (env : Env) (db : RvSubscriptionDB) : Input → Result RvSubscriptionDB
  | .pub curMono pub => processPub2 env db curMono pub
  | .events curMono => processEvents env db curMono
  | .sync hosts => updateSync env db hosts
  | .gc => .ok (gc db)
  | .unsubAll => unsubAll env db

/-- The database from what `start_subscriptions` makes of an empty one: empty
tables, or the client's own host and session. A step that ends in a fault has no
successor. -/
def subscriptionDB (env : Env) : System RvSubscriptionDB Input Output where
  init db := ∃ curMono s2, startSubscriptions env curMono s2 = .ok db
  step db input emitted db' :=
    step env { db with outputs := [] } input = .ok db' ∧ emitted = db'.outputs

end Sassrv.SubMgr
