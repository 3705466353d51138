import Sassrv.SubMgr.Types

/-! Hosts: the slots of `host_tab`, their index `host_ht`, the digest of the pairs
a host holds, and how a host and its sessions are dropped. -/
namespace Sassrv.SubMgr

def hashHostId (env : Env) (hostId : BitVec 32) (cid : BitVec 16) : BitVec 32 :=
  if cid = 0 then hostId else hostId ^^^ env.hashUint (cid.setWidth 32)

/-- The exit condition of the search in `host_ref`. Its loop does not change it. -/
def RvSubscriptionDB.FreeSlot (db : RvSubscriptionDB) : Prop :=
  db.firstFreeHost = db.hostTab.length ∨
    (db.hostTab[db.firstFreeHost]?).map RvHostEntry.state = some .stop

instance (db : RvSubscriptionDB) : Decidable db.FreeSlot :=
  inferInstanceAs (Decidable (_ ∨ _))

/-- An entry of `host_tab` overwritten, or pushed when the slot is the next one. -/
def RvSubscriptionDB.putHost (db : RvSubscriptionDB) (i : Nat) (host : RvHostEntry) :
    RvSubscriptionDB :=
  { db with
    hostTab := if i < db.hostTab.length then db.hostTab.set i host else db.hostTab ++ [host] }

/-- `host_ref` for a key that `host_ht` does not hold: the next free slot. -/
def takeSlot (env : Env) (db : RvSubscriptionDB) (hostId : BitVec 32) (cid : BitVec 16)
    (isStatus : Bool) : Result (RvSubscriptionDB × Nat) :=
  if db.FreeSlot then
    let i := db.firstFreeHost
    let host := RvHostEntry.start hostId cid db.curMono false isStatus
    .ok ({ db with
      firstFreeHost := i + 1
      hosts := { db.hosts with active := db.hosts.active + 1 }
      hostHt := db.hostHt.insert (hashHostId env hostId cid) i }.putHost i host, i)
  else .error .freeSlot

/-- `host_ref` for a key that `host_ht` holds. -/
def refSlot (db : RvSubscriptionDB) (i : Nat) (hostId : BitVec 32) (cid : BitVec 16)
    (isStatus : Bool) : Result (RvSubscriptionDB × Nat) := do
  let host ← db.hostAt i
  if host.state = .stop then
    let db := { db with hosts := { db.hosts with active := db.hosts.active + 1 } }
    return (db.modifyHost i fun _ => .start hostId cid db.curMono false isStatus, i)
  else if isStatus then
    return (db.modifyHost i fun host => host.status db.curMono, i)
  else
    return (db.modifyHost i fun host => host.ref db.curMono, i)

/-- The slot of the host, known or new, after its reference. -/
def hostRef (env : Env) (db : RvSubscriptionDB) (hostId : BitVec 32) (cid : BitVec 16)
    (isStatus : Bool) : Result (RvSubscriptionDB × Nat) :=
  match db.hostHt.find? (hashHostId env hostId cid) with
  | none => takeSlot env db hostId cid isStatus
  | some i => refSlot db i hostId cid isStatus

/-- A start advisory. A new host is pushed, whatever `first_free_host` says; a
known one is started over, and queried if it was not stopped. -/
def hostStart (env : Env) (db : RvSubscriptionDB) (hostId : BitVec 32) (cid : BitVec 16) :
    Result RvSubscriptionDB :=
  match db.hostHt.find? (hashHostId env hostId cid) with
  | none =>
      let i := db.hostTab.length
      let db := { db with hostHt := db.hostHt.insert (hashHostId env hostId cid) i }
      .ok { db with hostTab := db.hostTab ++ [.start hostId cid db.curMono true false] }
  | some i => do
      let host ← db.hostAt i
      let fresh := RvHostEntry.start hostId cid db.curMono true false
      return db.modifyHost i fun _ =>
        if host.state = .stop then fresh else { fresh with state := .query }

def findHost (env : Env) (db : RvSubscriptionDB) (hostId : BitVec 32) (cid : BitVec 16) :
    Option Nat :=
  (db.hostHt.find? (hashHostId env hostId cid)).filter (· < db.hostTab.length)

/-- `host_exists`: a slot in state start, status or query. -/
def hostExists (env : Env) (db : RvSubscriptionDB) (hostId : BitVec 32) (cid : BitVec 16) :
    Option Nat :=
  (db.hostHt.find? (hashHostId env hostId cid)).filter fun i =>
    (db.hostTab[i]?).any fun host =>
      host.state = .start ∨ host.state = .status ∨ host.state = .query

/-- `kv_crc_c( subject, kv_crc_c( session ) )`. -/
def pairHash (env : Env) (session sub : Text) : BitVec 32 :=
  env.crcC sub (env.crcC (stripNul session) 0)

/-- The subjects that the digest covers: not empty and not starting with `_`. -/
def Counted (sub : Text) : Prop := sub ≠ [] ∧ sub.head? ≠ some 95

instance (sub : Text) : Decidable (Counted sub) := inferInstanceAs (Decidable (_ ∧ _))

def hostDigest (env : Env) (db : RvSubscriptionDB) (name : Text) (sess : RvSessionEntry)
    (sub : Text) (isAdd : Bool) : RvSubscriptionDB :=
  if Counted sub then
    match findHost env db sess.hostId sess.cid with
    | none => db
    | some i => db.modifyHost i fun host => host.digest isAdd (pairHash env name sub)
  else db

/-- `get_rv7_session`. -/
def getRv7Session (env : Env) (db : RvSubscriptionDB) (hostId : BitVec 32) : Option Text := do
  let i ← db.hostHt.find? (hashHostId env hostId 0)
  let host ← db.hostTab[i]?
  if host.rv7SessId = 0 then none
  else
    let name ← getSessionId env db host.rv7SessId
    let sess ← db.sessionTab.find? name
    if sess.hasDaemon then some name else none

def queryRv7Session (env : Env) (db : RvSubscriptionDB) (hostId : BitVec 32) : RvSubscriptionDB :=
  match getRv7Session env db hostId with
  | none => db
  | some name => db.modifySession name RvSessionEntry.toQuery

/-- `sub_hash_count`: referenced subjects of the same hash and the same kind. -/
def subHashCount (env : Env) (db : RvSubscriptionDB) (sub : Text) : Nat :=
  db.subTab.entries.countP fun e =>
    env.crcC e.1 0 = env.crcC sub 0 ∧ e.2.refcnt ≠ 0 ∧ isRvWildcard e.1 = isRvWildcard sub

/-- One turn of the loop of `unsub_session`. -/
def unsubSubject (env : Env) (name : Text) (sess : RvSessionEntry) (db : RvSubscriptionDB)
    (sub : Text) : RvSubscriptionDB :=
  match db.subTab.find? sub with
  | none => db
  | some script =>
      let script := script.dropRef sess.hasDaemon
      let db := hostDigest env db name sess sub false
      let db := db.modifySub sub fun s => s.dropRef sess.hasDaemon
      if script.refcnt = 0 then
        let db := { db with subscriptions := db.subscriptions.retire }
        let coll := decide (0 < subHashCount env db sub)
        db.notify env (.listenStop name sub script.refcnt false false coll)
      else
        let db :=
          if script.ref7cnt ∧ script.refcnt = 1 then queryRv7Session env db sess.hostId else db
        db.notify env (.listenStop name sub script.refcnt false false false)

/-- The end of `unsub_session`: the session leaves `sess_ht` and is stopped. -/
def closeSession (db : RvSubscriptionDB) (name : Text) (sessId : BitVec 32) : RvSubscriptionDB :=
  { db with sessHt := db.sessHt.erase sessId }.modifySession name fun s => s.stop db.curMono

/-- Drops every subject of a session, and the session from `sess_ht`. -/
def unsubSession (env : Env) (db : RvSubscriptionDB) (name : Text) : Result RvSubscriptionDB := do
  let sess ← db.sessionAt name
  let db := (subjects env db sess.subHt).foldl (unsubSubject env name sess) db
  return closeSession db name sess.sessionId

/-- Drops the sessions that a host lists, and stops the host. -/
def unsubHost (env : Env) (db : RvSubscriptionDB) (i : Nat) : Result RvSubscriptionDB := do
  let host ← db.hostAt i
  let db ← (sessionsOf env db host.sessHt).foldlM (unsubSession env) db
  let db := db.modifyHost i fun host => host.stop db.curMono
  return { db with hosts := db.hosts.retire }

def hostStop (env : Env) (db : RvSubscriptionDB) (hostId : BitVec 32) (cid : BitVec 16) :
    Result RvSubscriptionDB :=
  match db.hostHt.find? (hashHostId env hostId cid) with
  | none => .ok db
  | some i => unsubHost env db i

end Sassrv.SubMgr
