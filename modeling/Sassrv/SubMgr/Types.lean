import Mathlib.Data.Finset.Basic
import Sassrv.Lib.Table
import Sassrv.SubMgr.Text

/-! The records of `submgr.h`. An entry of `session_tab` or `sub_tab` is found
by its name, so the tables are keyed by the name and the records leave out
`value`, `len` and the hash of the name. A reference to an entry is its name,
a reference to a host is its slot in `host_tab`. -/
namespace Sassrv.SubMgr

abbrev UIntHashTab := Table (BitVec 32) (BitVec 32)

/-- What the database takes from elsewhere: the hash functions and the order of
iteration of raikv, the flags of raimd, the client, and the settings that
`start_subscriptions` and `add_wildcard` leave. -/
structure Env where
  crcC : Text → BitVec 32 → BitVec 32
  hashUint : BitVec 32 → BitVec 32
  visit : UIntHashTab → List (BitVec 32 × BitVec 32)
  visit_perm : ∀ t, (visit t).Perm t.entries
  stringToUint64 : Text → BitVec 64
  qfSnapshot : BitVec 16
  qfUnsubscribe : BitVec 16
  qfResubscribe : BitVec 16
  qfRefresh : BitVec 16
  /-- `ntohl( client.ipaddr )`. -/
  ipaddr : BitVec 32
  cid : BitVec 16
  session : Text
  /-- `cb != NULL`. -/
  listening : Bool
  isAllSubscribed : Bool
  filters : List Text

structure RvSubscription where
  subjectId : BitVec 32
  refcnt : BitVec 31
  ref7cnt : Bool
  startMono : BitVec 32
  refMono : BitVec 32
  deriving DecidableEq

def RvSubscription.start (subId curMono : BitVec 32) : RvSubscription where
  subjectId := subId
  refcnt := 0
  ref7cnt := false
  startMono := curMono
  refMono := curMono

/-- One reference more, and the mark of a daemon session. -/
def RvSubscription.addRef (s : RvSubscription) (hasDaemon : Bool) : RvSubscription :=
  { s with
    refcnt := s.refcnt + 1
    ref7cnt := hasDaemon || s.ref7cnt }

/-- One reference less, which a daemon session takes its mark with. -/
def RvSubscription.dropRef (s : RvSubscription) (hasDaemon : Bool) : RvSubscription :=
  { s with
    refcnt := s.refcnt - 1
    ref7cnt := !hasDaemon && s.ref7cnt }

inductive SessionState where
  | unknown
  | cid
  | rv5
  | query
  | stop
  | rv7
  | self
  deriving DecidableEq, Repr

structure RvSessionEntry where
  subHt : Option UIntHashTab
  userId : Option Text
  hostId : BitVec 32
  sessionId : BitVec 32
  startMono : BitVec 32
  refMono : BitVec 32
  stopMono : BitVec 32
  queryMono : BitVec 32
  state : SessionState
  cid : BitVec 16
  hasDaemon : Bool
  deriving DecidableEq

/-- Every field is set, whatever the entry held before. -/
def RvSessionEntry.start (name : Text) (hostId : BitVec 32) (cid : BitVec 16)
    (sessId curMono : BitVec 32) (isStart : Bool) (user : Option Text) : RvSessionEntry where
  subHt := some .empty
  userId := user
  hostId := hostId
  sessionId := sessId
  startMono := if isStart then curMono else 0
  refMono := curMono
  stopMono := 0
  queryMono := 0
  state :=
    if cid ≠ 0 then .cid
    else if isStart then .rv5
    else if daemonName name then .rv7
    else .query
  cid := cid
  hasDaemon := daemonName name

def RvSessionEntry.stop (s : RvSessionEntry) (curMono : BitVec 32) : RvSessionEntry :=
  { s with
    state := .stop
    stopMono := curMono
    subHt := none
    userId := none }

def RvSessionEntry.setSubHt (s : RvSessionEntry) (ht : UIntHashTab) : RvSessionEntry :=
  { s with subHt := some ht }

/-- Sets `RV_SESSION_QUERY`, except on the client's own session and on sessions
that cannot be queried. -/
def RvSessionEntry.toQuery (s : RvSessionEntry) : RvSessionEntry :=
  if s.state = .self ∨ s.state = .cid then s else { s with state := .query }

inductive HostState where
  | unknown
  | cid
  | start
  | status
  | query
  | stop
  deriving DecidableEq, Repr

structure RvHostEntry where
  sessHt : Option UIntHashTab
  hostId : BitVec 32
  startMono : BitVec 32
  statusMono : BitVec 32
  refMono : BitVec 32
  stopMono : BitVec 32
  queryMono : BitVec 32
  dataLoss : BitVec 32
  rv7SessId : BitVec 32
  subCount : BitVec 32
  subDigest : BitVec 32
  state : HostState
  cid : BitVec 16
  deriving DecidableEq

def RvHostEntry.start (hostId : BitVec 32) (cid : BitVec 16) (curMono : BitVec 32)
    (isStart isStatus : Bool) : RvHostEntry where
  sessHt := some .empty
  hostId := hostId
  startMono := if isStart then curMono else 0
  statusMono := if isStatus then curMono else 0
  refMono := curMono
  stopMono := 0
  queryMono := 0
  dataLoss := 0
  rv7SessId := 0
  subCount := 0
  subDigest := 0
  state := if cid ≠ 0 then .cid else if isStart then .start else .query
  cid := cid

def RvHostEntry.stop (host : RvHostEntry) (curMono : BitVec 32) : RvHostEntry :=
  { host with
    stopMono := curMono
    state := .stop
    sessHt := none }

/-- `check_query_needed`: late by more than 100 seconds. The source also returns
the number of seconds, for its log. -/
def RvHostEntry.checkQueryNeeded (host : RvHostEntry) (curMono : BitVec 32) : RvHostEntry :=
  if host.state = .query ∨ host.state = .cid ∨ host.state = .stop then host
  else if host.refMono < curMono ∧ 100 < curMono - host.refMono then
    { host with state := .query }
  else host

def RvHostEntry.status (host : RvHostEntry) (curMono : BitVec 32) : RvHostEntry :=
  let host := host.checkQueryNeeded curMono
  { host with
    statusMono := curMono
    refMono := curMono
    state := if host.state = .query ∨ host.state = .cid then host.state else .status }

def RvHostEntry.ref (host : RvHostEntry) (curMono : BitVec 32) : RvHostEntry :=
  { host with refMono := curMono }

/-- One pair more or less in `sub_count` and `sub_digest`. -/
def RvHostEntry.digest (host : RvHostEntry) (isAdd : Bool) (pairHash : BitVec 32) : RvHostEntry :=
  { host with
    subCount :=
      if isAdd then host.subCount + 1
      else if 0 < host.subCount then host.subCount - 1
      else host.subCount
    subDigest := host.subDigest ^^^ pairHash }

structure RvSass3Key where
  subjHash : BitVec 32
  subjectId : BitVec 32
  pid : BitVec 32
  userId : Text
  host : Text
  app : Text
  deriving DecidableEq

structure RvSass3Entry extends RvSass3Key where
  startMono : BitVec 32
  refMono : BitVec 32
  deriving DecidableEq

def RvSass3Entry.expired (e : RvSass3Entry) (curMono : BitVec 32) : Bool :=
  e.refMono + 480 < curMono

structure GCCounters where
  active : BitVec 32 := 0
  removed : BitVec 32 := 0
  deriving DecidableEq

def GCCounters.retire (c : GCCounters) : GCCounters where
  active := c.active - 1
  removed := c.removed + 1

/-- What the database does to the outside: the calls of the listener, with the
values the call sees, and the queries it publishes. -/
inductive Output where
  | listenStart (session sub : Text) (refcnt : BitVec 31) (reply : Text)
      (isListenStart coll : Bool)
  | listenStop (session sub : Text) (refcnt : BitVec 31) (isOrphan isListenStop coll : Bool)
  | snapshot (sub : Text) (session : Option Text) (reply : Text) (flags : BitVec 16)
  | sass3 (entry : RvSass3Entry) (sub : Text) (refcnt : BitVec 31) (reply : Text)
      (flags : BitVec 16) (isOrphan isAsserted : Bool)
  | ticReply (sub : Text) (session : Option Text) (reply : Text)
  | hostQuery (inbox hostId : BitVec 32) (cid : BitVec 16)
  | sessionQuery (inbox hostId : BitVec 32) (cid : BitVec 16) (session : Text)
  deriving DecidableEq

/-- The database. `sass3List` owns the sass3 entries; `sass3Tab` is the set of
keys that `locate` finds, and the entry of a key is the node of the list with
that key. The two id counters count without bound; an id takes the counter
modulo 2^32. `outputs` collects what the call in progress has done so far. -/
structure RvSubscriptionDB where
  hostHt : Table (BitVec 32) Nat := .empty
  sessHt : UIntHashTab := .empty
  hostTab : List RvHostEntry := []
  sessionTab : Table Text RvSessionEntry := .empty
  subTab : Table Text RvSubscription := .empty
  sass3List : List RvSass3Entry := []
  sass3Tab : Finset RvSass3Key := ∅
  curMono : BitVec 32 := 0
  nextSessionCtr : Nat := 0
  nextSubjectCtr : Nat := 0
  softHostQuery : Nat := 0
  firstFreeHost : Nat := 0
  subscriptions : GCCounters := {}
  sessions : GCCounters := {}
  hosts : GCCounters := {}
  nextGc : BitVec 32 := 0
  outputs : List Output := []
  deriving DecidableEq

def hostInboxBase : BitVec 64 := 1000000

def sessionInboxBase : BitVec 64 := 1000

namespace RvSubscriptionDB

def modifyHost (db : RvSubscriptionDB) (i : Nat) (f : RvHostEntry → RvHostEntry) :
    RvSubscriptionDB :=
  { db with hostTab := db.hostTab.modify i f }

def modifySession (db : RvSubscriptionDB) (name : Text) (f : RvSessionEntry → RvSessionEntry) :
    RvSubscriptionDB :=
  { db with sessionTab := db.sessionTab.modify name f }

def modifySub (db : RvSubscriptionDB) (sub : Text) (f : RvSubscription → RvSubscription) :
    RvSubscriptionDB :=
  { db with subTab := db.subTab.modify sub f }

def setSass3 (db : RvSubscriptionDB) (tab : Finset RvSass3Key) (list : List RvSass3Entry) :
    RvSubscriptionDB :=
  { db with
    sass3Tab := tab
    sass3List := list }

def emit (db : RvSubscriptionDB) (out : Output) : RvSubscriptionDB :=
  { db with outputs := db.outputs ++ [out] }

/-- A call of the listener where the source tests `cb != NULL`. -/
def notify (env : Env) (db : RvSubscriptionDB) (out : Output) : RvSubscriptionDB :=
  if env.listening then db.emit out else db

def hostAt (db : RvSubscriptionDB) (i : Nat) : Result RvHostEntry :=
  match db.hostTab[i]? with
  | none => .error .outOfBounds
  | some host => .ok host

def sessionAt (db : RvSubscriptionDB) (name : Text) : Result RvSessionEntry :=
  match db.sessionTab.find? name with
  | none => .error .nullPointer
  | some sess => .ok sess

def subAt (db : RvSubscriptionDB) (sub : Text) : Result RvSubscription :=
  match db.subTab.find? sub with
  | none => .error .nullPointer
  | some script => .ok script

end RvSubscriptionDB

/-- The prefix of `first` and `next` results up to the first that is null. -/
def walk {α β : Type} (get : α → Option β) : List α → List β
  | [] => []
  | x :: rest =>
      match get x with
      | none => []
      | some b => b :: walk get rest

/-- `get_subject`: the subscription with that id among those with that hash. -/
def getSubject (env : Env) (db : RvSubscriptionDB) (subId subHash : BitVec 32) : Option Text :=
  (db.subTab.entries.find? fun e => env.crcC e.1 0 = subHash ∧ e.2.subjectId = subId).map Prod.fst

/-- `get_session` by id and hash. -/
def getSessionBy (env : Env) (db : RvSubscriptionDB) (sessId sessHash : BitVec 32) : Option Text :=
  (db.sessionTab.entries.find? fun e =>
    env.crcC e.1 0 = sessHash ∧ e.2.sessionId = sessId).map Prod.fst

/-- `get_session` by id. -/
def getSessionId (env : Env) (db : RvSubscriptionDB) (sessId : BitVec 32) : Option Text :=
  (db.sessHt.find? sessId).bind fun hash => getSessionBy env db sessId hash

/-- What `first_subject` and `next_subject` go through. -/
def subjects (env : Env) (db : RvSubscriptionDB) (ht : Option UIntHashTab) : List Text :=
  match ht with
  | none => []
  | some ht => walk (fun e => getSubject env db e.1 e.2) (env.visit ht)

/-- What `first_session` and `next_session` go through. -/
def sessionsOf (env : Env) (db : RvSubscriptionDB) (ht : Option UIntHashTab) : List Text :=
  match ht with
  | none => []
  | some ht => walk (fun e => getSessionBy env db e.1 e.2) (env.visit ht)

end Sassrv.SubMgr
