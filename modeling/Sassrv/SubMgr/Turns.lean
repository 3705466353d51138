import Mathlib.Logic.Relation
import Sassrv.SubMgr.Holding
import Sassrv.SubMgr.Process

/-! What a step of the database is made of. A `Turn` is one operation on the tables,
with what the code knows when it comes to it; a step is a sequence of turns. An
invariant of the database is then a fact about each kind of turn. -/
namespace Sassrv.SubMgr
open Partial

/-- The operations that a condition can be put on, with what they are called with. -/
inductive Call where
  | hostRef (hostId : BitVec 32) (cid : BitVec 16)
  | hostStart (hostId : BitVec 32) (cid : BitVec 16)
  | unsubHost (i : Nat)
  /-- `session_start` of a session that is not stopped, for the host in the slot. -/
  | restart (i : Nat) (name : Text)
  /-- The session is started for the host in the slot and entered there. -/
  | enter (i : Nat) (hostId : BitVec 32) (cid : BitVec 16) (name : Text)
  | listen (name sub : Text)
  /-- `snapshot` of a session that is found by its name. -/
  | query (name : Text)
  | orphan (name sub : Text)
  | sass3 (sub : Text) (app : SassApp) (flags : BitVec 16)
  | expire (entry : RvSass3Entry)
  | gcSubscriptions

/-- The slot has a host that is not stopped. -/
def RvSubscriptionDB.Awake (db : RvSubscriptionDB) (i : Nat) : Prop :=
  ∃ host, db.hostTab[i]? = some host ∧ host.state ≠ .stop

/-- The table of the host in the slot has the id of the session. -/
def RvSubscriptionDB.Lists (db : RvSubscriptionDB) (i : Nat) (name : Text) : Prop :=
  ∃ host ht sess, db.hostTab[i]? = some host ∧ host.sessHt = some ht ∧
    db.sessionTab.find? name = some sess ∧ ht.contains sess.sessionId = true

/-- Hosts that differ in times, losses and state only. -/
structure SameHost (host host' : RvHostEntry) : Prop where
  sessHt : host'.sessHt = host.sessHt
  hostId : host'.hostId = host.hostId
  cid : host'.cid = host.cid
  rv7SessId : host'.rv7SessId = host.rv7SessId
  subCount : host'.subCount = host.subCount
  subDigest : host'.subDigest = host.subDigest

/-- Sessions that differ in times, user and state only. -/
structure SameSession (sess sess' : RvSessionEntry) : Prop where
  subHt : sess'.subHt = sess.subHt
  hostId : sess'.hostId = sess.hostId
  sessionId : sess'.sessionId = sess.sessionId
  cid : sess'.cid = sess.cid
  hasDaemon : sess'.hasDaemon = sess.hasDaemon

/-- Subscriptions that differ in times only. -/
structure SameSub (script script' : RvSubscription) : Prop where
  subjectId : script'.subjectId = script.subjectId
  refcnt : script'.refcnt = script.refcnt
  ref7cnt : script'.ref7cnt = script.ref7cnt

/-- What the listener does not hear about sessions and their subjects. -/
def Output.silent : Output → Bool
  | .listenStart .. => false
  | .listenStop .. => false
  | _ => true

section
variable (env : Env) (P : RvSubscriptionDB → Call → Prop)

/-- Why a session is dropped from the host in a slot: the host lists it, its entry
names the host, or `session_start` found it with that host given. -/
def Owned (db : RvSubscriptionDB) (i : Nat) (name : Text) : Prop :=
  db.Lists i name ∨
    (∃ sess, db.sessionTab.find? name = some sess ∧
      hostExists env db sess.hostId sess.cid = some i) ∨
    (isLive db name = true ∧ P db (.restart i name))

/-- Why a session is queried: it is not stopped, it is in one of the tables of
sessions, or `snapshot` found it by its name. -/
def Queried (db : RvSubscriptionDB) (name : Text) : Prop :=
  isLive db name = true ∨ (∃ id, getSessionId env db id = some name) ∨
    (∃ i, db.Lists i name) ∨ P db (.query name)

inductive Turn : RvSubscriptionDB → RvSubscriptionDB → Prop where
  | hostRef {db db' : RvSubscriptionDB} {hostId : BitVec 32} {cid : BitVec 16} {isStatus : Bool}
      {i : Nat} (hOk : P db (.hostRef hostId cid))
      (h : hostRef env db hostId cid isStatus = .ok (db', i)) : Turn db db'
  | hostStart {db db' : RvSubscriptionDB} {hostId : BitVec 32} {cid : BitVec 16}
      (hOk : P db (.hostStart hostId cid)) (h : hostStart env db hostId cid = .ok db') : Turn db db'
  | touchHost {db : RvSubscriptionDB} (i : Nat) {f : RvHostEntry → RvHostEntry}
      (hSame : ∀ host, SameHost host (f host))
      (hState : ∀ host, db.hostTab[i]? = some host →
        ((f host).state = .stop ↔ host.state = .stop)) : Turn db (db.modifyHost i f)
  | unsubHost {db db' : RvSubscriptionDB} {i : Nat} (hOk : P db (.unsubHost i))
      (h : unsubHost env db i = .ok db') : Turn db db'
  | remSession {db db' : RvSubscriptionDB} {i : Nat} {name : Text} (hOwned : Owned env P db i name)
      (h : remSession env db i name = .ok db') : Turn db db'
  /-- A session is started and entered. `g` sets the state between the two. -/
  | enterSession {db db' : RvSubscriptionDB} {i : Nat} {name : Text} {hostId : BitVec 32}
      {cid : BitVec 16} {isStart : Bool} {user : Option Text} {g : RvSessionEntry → RvSessionEntry}
      (hOk : P db (.enter i hostId cid name))
      (hHost : db.hostHt.find? (hashHostId env hostId cid) = some i) (hAwake : db.Awake i)
      (hNew : isLive db name = false) (hSame : ∀ s, SameSession s (g s))
      (hState : ∀ s, (g s).state = .stop → s.state = .stop)
      (h : addSession env ((startEntry db name hostId cid isStart user).modifySession name g) i name =
        .ok db') : Turn db db'
  | touchSession {db : RvSubscriptionDB} (name : Text) {f : RvSessionEntry → RvSessionEntry}
      (hSame : ∀ s, SameSession s (f s))
      (hState : ∀ s, db.sessionTab.find? name = some s → ((f s).state = .stop ↔ s.state = .stop)) :
      Turn db (db.modifySession name f)
  | query {db : RvSubscriptionDB} {name : Text} (hWhy : Queried env P db name) :
      Turn db (db.modifySession name RvSessionEntry.toQuery)
  | touchSub {db : RvSubscriptionDB} (sub : Text) {f : RvSubscription → RvSubscription}
      (hSame : ∀ s, SameSub s (f s)) : Turn db (db.modifySub sub f)
  | getSubscription {db : RvSubscriptionDB} (sub : Text) : Turn db (getSubscription env db sub)
  /-- `listen_ref` with the call of the listener, which an advisory makes always and a
  reply only for a subject that was not held. -/
  | listen {db : RvSubscriptionDB} {name sub : Text} {r : Listened} {script : RvSubscription}
      (hOk : P db (.listen name sub)) (isListenStart : Bool) (reply : Text)
      (h : listenRef env db name sub = .ok r)
      (hScript : r.db.subTab.find? r.sub = some script) :
      Turn db (if r.done || isListenStart then r.db.notify env
        (.listenStart name r.sub script.refcnt reply isListenStart r.coll) else r.db)
  /-- `deref_subscription` of a subject that was held. -/
  | release {db : RvSubscriptionDB} {name sub : Text} {r : Listened} {script : RvSubscription}
      (isListenStop : Bool) (h : derefSubscription env db name sub = .ok r) (hDone : r.done = true)
      (hScript : r.db.subTab.find? sub = some script) :
      Turn db (r.db.notify env (.listenStop name sub script.refcnt false isListenStop r.coll))
  /-- The call of the listener for a subject that `listen_stop` does not find held. -/
  | orphan {db : RvSubscriptionDB} {name sub : Text} {sess : RvSessionEntry}
      {script : RvSubscription} (hOk : P db (.orphan name sub))
      (hSess : db.sessionTab.find? name = some sess) (hScript : db.subTab.find? sub = some script)
      (hNot : script.refcnt = 0 ∨ sess.holds script.subjectId = false) :
      Turn db (db.notify env (.listenStop name sub script.refcnt true true false))
  | sass3 {db db' : RvSubscriptionDB} {sub : Text} {script : RvSubscription} {app : SassApp}
      {flags : BitVec 16} {entry : RvSass3Entry} (hOk : P db (.sass3 sub app flags))
      (hScript : db.subTab.find? sub = some script)
      (h : sass3 env db sub script app flags = .ok (db', entry)) : Turn db db'
  | expire {db db' : RvSubscriptionDB} {entry : RvSass3Entry} (hOk : P db (.expire entry))
      (h : expireEntry env db entry = .ok db') : Turn db db'
  | sass3List {db : RvSubscriptionDB} (list : List RvSass3Entry) : Turn db { db with sass3List := list }
  | note {db : RvSubscriptionDB} (curMono nextGc : BitVec 32) (softHostQuery : Nat)
      (outs : List Output) (hSilent : ∀ out ∈ outs, out.silent = true) :
      Turn db { db with
        curMono := curMono
        nextGc := nextGc
        softHostQuery := softHostQuery
        outputs := db.outputs ++ outs }
  | gcSubscriptions {db : RvSubscriptionDB} (hOk : P db .gcSubscriptions) :
      Turn db (gcSubscriptions db)
  | gcSessions {db : RvSubscriptionDB} : Turn db (gcSessions db)
  | gcHosts {db : RvSubscriptionDB} : Turn db (gcHosts db)

/-- Turns one after the other. -/
abbrev Turns := Relation.ReflTransGen (Turn env P)

/-- A computation of the source ends after some turns, or with a fault after some
turns. The search in `host_ref` is the only fault that says more. -/
def Leads {α : Type} (get : α → RvSubscriptionDB) (db : RvSubscriptionDB) : Result α → Prop
  | .ok a => Turns env P db (get a)
  | .error e => e = .freeSlot → ∃ m hostId cid, Turns env P db m ∧ P m (.hostRef hostId cid) ∧
      m.hostHt.find? (hashHostId env hostId cid) = none ∧ ¬ m.FreeSlot

end

variable {env : Env} {P Q : RvSubscriptionDB → Call → Prop} {db db' : RvSubscriptionDB}

theorem Turn.mono (hPQ : ∀ db call, P db call → Q db call) (h : Turn env P db db') :
    Turn env Q db db' := by
  cases h with
  | hostRef hOk h => exact .hostRef (hPQ _ _ hOk) h
  | hostStart hOk h => exact .hostStart (hPQ _ _ hOk) h
  | touchHost i hSame hState => exact .touchHost i hSame hState
  | unsubHost hOk h => exact .unsubHost (hPQ _ _ hOk) h
  | remSession hOwned h =>
      refine .remSession ?_ h
      rcases hOwned with hLists | hNamed | ⟨hLive, hOk⟩
      · exact .inl hLists
      · exact .inr (.inl hNamed)
      · exact .inr (.inr ⟨hLive, hPQ _ _ hOk⟩)
  | enterSession hOk hHost hAwake hNew hSame hState h =>
      exact .enterSession (hPQ _ _ hOk) hHost hAwake hNew hSame hState h
  | touchSession name hSame hState => exact .touchSession name hSame hState
  | query hWhy =>
      apply Turn.query
      rcases hWhy with hLive | hFound | hLists | hOk
      · exact .inl hLive
      · exact .inr (.inl hFound)
      · exact .inr (.inr (.inl hLists))
      · exact .inr (.inr (.inr (hPQ _ _ hOk)))
  | touchSub sub hSame => exact .touchSub sub hSame
  | getSubscription sub => exact .getSubscription sub
  | listen hOk isListenStart reply h hScript => exact .listen (hPQ _ _ hOk) isListenStart reply h hScript
  | release isListenStop h hDone hScript => exact .release isListenStop h hDone hScript
  | orphan hOk hSess hScript hNot => exact .orphan (hPQ _ _ hOk) hSess hScript hNot
  | sass3 hOk hScript h => exact .sass3 (hPQ _ _ hOk) hScript h
  | expire hOk h => exact .expire (hPQ _ _ hOk) h
  | sass3List list => exact .sass3List list
  | note curMono nextGc softHostQuery outs hSilent =>
      exact .note curMono nextGc softHostQuery outs hSilent
  | gcSubscriptions hOk => exact .gcSubscriptions (hPQ _ _ hOk)
  | gcSessions => exact .gcSessions
  | gcHosts => exact .gcHosts

theorem Turns.mono (hPQ : ∀ db call, P db call → Q db call) (h : Turns env P db db') :
    Turns env Q db db' :=
  h.lift id fun _ _ hTurn => hTurn.mono hPQ

namespace Leads
variable {α β : Type} {get : α → RvSubscriptionDB} {get' : β → RvSubscriptionDB}

theorem ok {a : α} (h : Turns env P db (get a)) : Leads env P get db (.ok a) := h

theorem pure {a : α} (h : Turns env P db (get a)) : Leads env P get db (Pure.pure a) := h

theorem after {x : Result α} (hTurns : Turns env P db db') (h : Leads env P get db' x) :
    Leads env P get db x := by
  cases x with
  | ok a => exact hTurns.trans h
  | error e =>
      intro hSlot
      obtain ⟨m, hostId, cid, hRest, hFault⟩ := h hSlot
      exact ⟨m, hostId, cid, hTurns.trans hRest, hFault⟩

theorem bind {x : Result α} {f : α → Result β} (hFirst : Leads env P get db x)
    (hNext : ∀ a, x = .ok a → Leads env P get' (get a) (f a)) : Leads env P get' db (x >>= f) := by
  cases x with
  | ok a => exact (hNext a rfl).after hFirst
  | error e => exact hFirst

/-- A computation that only reads. -/
theorem read {x : Result α} {f : α → Result β} (hRead : x ≠ .error .freeSlot)
    (hNext : ∀ a, x = .ok a → Leads env P get' db (f a)) : Leads env P get' db (x >>= f) := by
  cases x with
  | ok a => exact hNext a rfl
  | error e =>
      rintro rfl
      exact absurd rfl hRead

theorem turns {a : α} (h : Leads env P get db (.ok a)) : Turns env P db (get a) := h

end Leads

/-- A loop over the database whose turns meet a condition. -/
theorem Leads.foldlM {α : Type} {f : RvSubscriptionDB → α → Result RvSubscriptionDB}
    {ok : RvSubscriptionDB → α → Prop} {items : List α}
    (hTurn : ∀ db a, a ∈ items → ok db a → Leads env P id db (f db a)) (db : RvSubscriptionDB)
    (hAlong : Along f ok db items) : Leads env P id db (items.foldlM f db) := by
  induction items generalizing db with
  | nil => exact Leads.pure .refl
  | cons a rest ih =>
      rw [List.foldlM_cons]
      refine Leads.bind (hTurn db a List.mem_cons_self hAlong.1) ?_
      intro t ht
      exact ih (fun db b hb => hTurn db b (List.mem_cons_of_mem _ hb)) t (hAlong.2 t ht)

theorem along_of_forall {σ α ε : Type} {f : σ → α → Except ε σ} {ok : σ → α → Prop}
    (h : ∀ s a, ok s a) (s : σ) (items : List α) : Along f ok s items := by
  induction items generalizing s with
  | nil => trivial
  | cons a rest ih => exact ⟨h s a, fun t _ => ih t⟩

theorem Leads.foldlM_all {α : Type} {f : RvSubscriptionDB → α → Result RvSubscriptionDB}
    (hTurn : ∀ db a, Leads env P id db (f db a)) (items : List α) (db : RvSubscriptionDB) :
    Leads env P id db (items.foldlM f db) := by
  have hAlong : Along f (fun _ _ => True) db items := along_of_forall (fun _ _ => trivial) _ _
  exact Leads.foldlM (fun db a _ _ => hTurn db a) db hAlong

/-- A loop that cannot fail. -/
theorem turns_foldl {α : Type} {f : RvSubscriptionDB → α → RvSubscriptionDB} {items : List α}
    (hTurn : ∀ db a, Turns env P db (f db a)) (db : RvSubscriptionDB) :
    Turns env P db (items.foldl f db) := by
  induction items generalizing db with
  | nil => exact .refl
  | cons a rest ih => exact (hTurn db a).trans (ih (f db a))

/-! What keeps the slots of the hosts. -/

def RvHostEntry.slot (host : RvHostEntry) : HostState × BitVec 32 × BitVec 16 :=
  (host.state, host.hostId, host.cid)

/-- The same index, the same free slot and counters, and in each slot the same host in
the same state. -/
structure SlotsKept (db db' : RvSubscriptionDB) : Prop where
  hostHt : db'.hostHt = db.hostHt
  firstFreeHost : db'.firstFreeHost = db.firstFreeHost
  hosts : db'.hosts = db.hosts
  slots : db'.hostTab.map RvHostEntry.slot = db.hostTab.map RvHostEntry.slot

namespace SlotsKept

theorem refl (db : RvSubscriptionDB) : SlotsKept db db := ⟨rfl, rfl, rfl, rfl⟩

theorem trans {a b c : RvSubscriptionDB} (h : SlotsKept a b) (h' : SlotsKept b c) : SlotsKept a c :=
  ⟨h'.hostHt.trans h.hostHt, h'.firstFreeHost.trans h.firstFreeHost, h'.hosts.trans h.hosts,
    h'.slots.trans h.slots⟩

theorem of_eq (hHt : db'.hostHt = db.hostHt) (hFirst : db'.firstFreeHost = db.firstFreeHost)
    (hHosts : db'.hosts = db.hosts) (hTab : db'.hostTab = db.hostTab) : SlotsKept db db' :=
  ⟨hHt, hFirst, hHosts, by rw [hTab]⟩

theorem modifyHost (db : RvSubscriptionDB) (i : Nat) {f : RvHostEntry → RvHostEntry}
    (hf : ∀ host, (f host).slot = host.slot) : SlotsKept db (db.modifyHost i f) := by
  refine ⟨rfl, rfl, rfl, ?_⟩
  apply List.ext_getElem?
  intro j
  simp only [RvSubscriptionDB.modifyHost, List.getElem?_map, List.getElem?_modify]
  cases db.hostTab[j]? with
  | none => rfl
  | some host => by_cases hSame : i = j <;> simp [hSame, hf]

theorem length (h : SlotsKept db db') : db'.hostTab.length = db.hostTab.length := by
  simpa using congrArg List.length h.slots

theorem slot (h : SlotsKept db db') (i : Nat) :
    (db'.hostTab[i]?).map RvHostEntry.slot = (db.hostTab[i]?).map RvHostEntry.slot := by
  rw [← List.getElem?_map, h.slots, List.getElem?_map]

theorem state (h : SlotsKept db db') (i : Nat) :
    (db'.hostTab[i]?).map RvHostEntry.state = (db.hostTab[i]?).map RvHostEntry.state := by
  have hSlot := congrArg (fun o => o.map Prod.fst) (h.slot i)
  simpa [Function.comp_def, RvHostEntry.slot] using hSlot

theorem awake (h : SlotsKept db db') {i : Nat} (hAwake : db.Awake i) : db'.Awake i := by
  obtain ⟨host, hHost, hNot⟩ := hAwake
  have hState := h.state i
  rw [hHost, Option.map_some] at hState
  obtain ⟨host', hHost', hEq⟩ := Option.map_eq_some_iff.mp hState
  exact ⟨host', hHost', by rw [hEq]; exact hNot⟩

end SlotsKept

/-- The entry without the count and the digest of its pairs. -/
def RvHostEntry.plain (host : RvHostEntry) : RvHostEntry :=
  { host with
    subCount := 0
    subDigest := 0 }

/-- The hosts differ in counts and digests only. -/
structure DigestsOnly (db db' : RvSubscriptionDB) : Prop where
  hostHt : db'.hostHt = db.hostHt
  firstFreeHost : db'.firstFreeHost = db.firstFreeHost
  hosts : db'.hosts = db.hosts
  tab : db'.hostTab.map RvHostEntry.plain = db.hostTab.map RvHostEntry.plain

namespace DigestsOnly

theorem refl (db : RvSubscriptionDB) : DigestsOnly db db := ⟨rfl, rfl, rfl, rfl⟩

theorem trans {a b c : RvSubscriptionDB} (h : DigestsOnly a b) (h' : DigestsOnly b c) :
    DigestsOnly a c :=
  ⟨h'.hostHt.trans h.hostHt, h'.firstFreeHost.trans h.firstFreeHost, h'.hosts.trans h.hosts,
    h'.tab.trans h.tab⟩

theorem of_eq (hHt : db'.hostHt = db.hostHt) (hFirst : db'.firstFreeHost = db.firstFreeHost)
    (hHosts : db'.hosts = db.hosts) (hTab : db'.hostTab = db.hostTab) : DigestsOnly db db' :=
  ⟨hHt, hFirst, hHosts, by rw [hTab]⟩

theorem plain (h : DigestsOnly db db') (i : Nat) :
    (db'.hostTab[i]?).map RvHostEntry.plain = (db.hostTab[i]?).map RvHostEntry.plain := by
  rw [← List.getElem?_map, h.tab, List.getElem?_map]

theorem slotsKept (h : DigestsOnly db db') : SlotsKept db db' := by
  refine ⟨h.hostHt, h.firstFreeHost, h.hosts, ?_⟩
  have hSlots := congrArg (List.map RvHostEntry.slot) h.tab
  rw [List.map_map, List.map_map] at hSlots
  exact hSlots

end DigestsOnly

theorem hostDigest_digestsOnly (env : Env) (db : RvSubscriptionDB) (name : Text)
    (sess : RvSessionEntry) (sub : Text) (isAdd : Bool) :
    DigestsOnly db (hostDigest env db name sess sub isAdd) := by
  unfold hostDigest
  split
  · split
    · exact .refl db
    · refine ⟨rfl, rfl, rfl, ?_⟩
      apply List.ext_getElem?
      intro j
      simp only [RvSubscriptionDB.modifyHost, List.getElem?_map, List.getElem?_modify]
      cases db.hostTab[j]? with
      | none => rfl
      | some host =>
          simp only [Option.map_eq_map, Option.map_some]
          split <;> rfl
  · exact .refl db

theorem queryRv7Session_digestsOnly (env : Env) (db : RvSubscriptionDB) (hostId : BitVec 32) :
    DigestsOnly db (queryRv7Session env db hostId) := by
  unfold queryRv7Session
  split
  · exact .refl db
  · exact .of_eq rfl rfl rfl rfl

theorem notify_digestsOnly (env : Env) (db : RvSubscriptionDB) (out : Output) :
    DigestsOnly db (db.notify env out) := by
  unfold RvSubscriptionDB.notify
  split
  · exact .of_eq rfl rfl rfl rfl
  · exact .refl db

theorem unsubSubject_digestsOnly (env : Env) (name : Text) (sess : RvSessionEntry)
    (db : RvSubscriptionDB) (sub : Text) : DigestsOnly db (unsubSubject env name sess db sub) := by
  unfold unsubSubject
  split
  · exact .refl db
  · have hFirst : DigestsOnly db ((hostDigest env db name sess sub false).modifySub sub fun s =>
        s.dropRef sess.hasDaemon) :=
      (hostDigest_digestsOnly env db name sess sub false).trans (.of_eq rfl rfl rfl rfl)
    apply hFirst.trans
    dsimp only
    split
    · refine DigestsOnly.trans ?_ (notify_digestsOnly env _ _)
      exact .of_eq rfl rfl rfl rfl
    · refine DigestsOnly.trans ?_ (notify_digestsOnly env _ _)
      split
      · exact queryRv7Session_digestsOnly env _ _
      · exact .refl _

theorem unsubSession_digestsOnly {name : Text} (h : unsubSession env db name = .ok db') :
    DigestsOnly db db' := by
  simp only [unsubSession, bind_eq_ok, pure_eq_ok] at h
  obtain ⟨sess, -, rfl⟩ := h
  have hLoop : DigestsOnly db ((subjects env db sess.subHt).foldl (unsubSubject env name sess) db) :=
    foldl_rel DigestsOnly.refl DigestsOnly.trans
      (fun db sub _ => unsubSubject_digestsOnly env name sess db sub) db
  apply hLoop.trans
  exact .of_eq rfl rfl rfl rfl

/-! What keeps the sessions but for times, users and states. -/

/-- The entry without its times, its user and its state. -/
def RvSessionEntry.core (s : RvSessionEntry) : RvSessionEntry :=
  { s with
    userId := none
    startMono := 0
    refMono := 0
    stopMono := 0
    queryMono := 0
    state := .unknown }

theorem SameSession.core {s s' : RvSessionEntry} (h : SameSession s s') : s'.core = s.core := by
  obtain ⟨hHt, hHost, hId, hCid, hDaemon⟩ := h
  simp only [RvSessionEntry.core, hHt, hHost, hId, hCid, hDaemon]

theorem sameSession_of_core {s s' : RvSessionEntry} (h : s'.core = s.core) : SameSession s s' := by
  simp only [RvSessionEntry.core, RvSessionEntry.mk.injEq] at h
  exact ⟨h.1, h.2.2.1, h.2.2.2.1, h.2.2.2.2.2.2.2.2.2.1, h.2.2.2.2.2.2.2.2.2.2⟩

/-- The sessions differ in times, users and states only. -/
def CoresKept (db db' : RvSubscriptionDB) : Prop :=
  db'.sessionTab.map RvSessionEntry.core = db.sessionTab.map RvSessionEntry.core

theorem sameSession_toQuery (s : RvSessionEntry) : SameSession s s.toQuery := by
  unfold RvSessionEntry.toQuery
  split <;> exact ⟨rfl, rfl, rfl, rfl, rfl⟩

theorem modifySession_coresKept (db : RvSubscriptionDB) (name : Text)
    {f : RvSessionEntry → RvSessionEntry} (hSame : ∀ s, SameSession s (f s)) :
    CoresKept db (db.modifySession name f) :=
  Table.map_modify fun s _ => (hSame s).core

theorem CoresKept.session (h : CoresKept db db') {name : Text} {s' : RvSessionEntry}
    (hFind : db'.sessionTab.find? name = some s') :
    ∃ s, db.sessionTab.find? name = some s ∧ SameSession s s' := by
  have hSame := congrArg (fun t => t.find? name) h
  simp only [Table.find?_map, hFind, Option.map_some] at hSame
  obtain ⟨s, hs, hCore⟩ := Option.map_eq_some_iff.mp hSame.symm
  exact ⟨s, hs, sameSession_of_core hCore.symm⟩

theorem CoresKept.refl (db : RvSubscriptionDB) : CoresKept db db := rfl

theorem CoresKept.symm (h : CoresKept db db') : CoresKept db' db := Eq.symm h

theorem CoresKept.trans {a b c : RvSubscriptionDB} (h : CoresKept a b) (h' : CoresKept b c) :
    CoresKept a c := Eq.trans h' h

theorem unsubSubject_coresKept (env : Env) (name : Text) (sess : RvSessionEntry)
    (db : RvSubscriptionDB) (sub : Text) : CoresKept db (unsubSubject env name sess db sub) := by
  have hTab : ∀ db out, (RvSubscriptionDB.notify env db out).sessionTab = db.sessionTab := by
    intro db out
    unfold RvSubscriptionDB.notify
    split <;> rfl
  have hDigest := (hostDigest_hostsOnly env db name sess sub false).sessionTab
  unfold unsubSubject
  split
  · exact rfl
  · dsimp only
    split
    · unfold CoresKept
      rw [hTab]
      exact congrArg _ hDigest
    · unfold CoresKept
      rw [hTab]
      split
      · unfold queryRv7Session
        split
        · exact congrArg _ hDigest
        · refine CoresKept.trans (congrArg _ hDigest) ?_
          exact modifySession_coresKept _ _ sameSession_toQuery
      · exact congrArg _ hDigest

theorem unsubSubjects_coresKept (env : Env) (name : Text) (sess : RvSessionEntry) (subs : List Text)
    (db : RvSubscriptionDB) : CoresKept db (subs.foldl (unsubSubject env name sess) db) :=
  foldl_rel CoresKept.refl CoresKept.trans
    (fun db sub _ => unsubSubject_coresKept env name sess db sub) db

/-- The entry of another session after a session is dropped, and its own entry. -/
theorem unsubSession_session {name x : Text} {s' : RvSessionEntry}
    (h : unsubSession env db name = .ok db') (hFind : db'.sessionTab.find? x = some s') :
    ∃ s, db.sessionTab.find? x = some s ∧ s'.sessionId = s.sessionId ∧ s'.hostId = s.hostId ∧
      s'.cid = s.cid ∧ s'.hasDaemon = s.hasDaemon ∧
      (x ≠ name → s'.subHt = s.subHt) := by
  simp only [unsubSession, bind_eq_ok, pure_eq_ok, sessionAt_eq_ok] at h
  obtain ⟨sess, hSess, rfl⟩ := h
  have hCores := unsubSubjects_coresKept env name sess (subjects env db sess.subHt) db
  simp only [closeSession, RvSubscriptionDB.modifySession, Table.find?_modify,
    Option.map_eq_some_iff] at hFind
  obtain ⟨t, ht, rfl⟩ := hFind
  obtain ⟨s, hs, hSame⟩ := hCores.session ht
  refine ⟨s, hs, ?_⟩
  split
  · next hx =>
      exact ⟨hSame.sessionId, hSame.hostId, hSame.cid, hSame.hasDaemon, fun hNe => absurd hx hNe⟩
  · exact ⟨hSame.sessionId, hSame.hostId, hSame.cid, hSame.hasDaemon, fun _ => hSame.subHt⟩

theorem unsubSession_session_of {name x : Text} {s : RvSessionEntry}
    (h : unsubSession env db name = .ok db') (hFind : db.sessionTab.find? x = some s) :
    ∃ s', db'.sessionTab.find? x = some s' := by
  simp only [unsubSession, bind_eq_ok, pure_eq_ok, sessionAt_eq_ok] at h
  obtain ⟨sess, hSess, rfl⟩ := h
  have hCores := unsubSubjects_coresKept env name sess (subjects env db sess.subHt) db
  obtain ⟨t, ht, -⟩ := hCores.symm.session hFind
  exact ⟨_, by
    simp only [closeSession, RvSubscriptionDB.modifySession, Table.find?_modify, ht]
    rfl⟩

theorem unlinkSession_slotsKept {i : Nat} {name : Text} (h : unlinkSession db i name = .ok db') :
    SlotsKept db db' := by
  simp only [unlinkSession, bind_eq_ok] at h
  obtain ⟨host, -, sess, -, h⟩ := h
  split at h
  · cases h
  · split at h
    · cases h
      refine SlotsKept.trans (.modifyHost db i fun _ => ?_) (.of_eq rfl rfl rfl rfl)
      rfl
    · cases h
      exact .refl db

theorem remSession_slotsKept {i : Nat} {name : Text} (h : remSession env db i name = .ok db') :
    SlotsKept db db' := by
  simp only [remSession, bind_eq_ok] at h
  obtain ⟨db₁, hUnsub, hUnlink⟩ := h
  exact (unsubSession_digestsOnly hUnsub).slotsKept.trans (unlinkSession_slotsKept hUnlink)

theorem addSession_slotsKept {i : Nat} {name : Text} (h : addSession env db i name = .ok db') :
    SlotsKept db db' := by
  simp only [addSession, bind_eq_ok] at h
  obtain ⟨host, -, sess, -, h⟩ := h
  split at h
  · cases h
  · split at h
    · cases h
      exact .refl db
    · cases h
      refine SlotsKept.trans (.modifyHost db i fun _ => ?_) (.of_eq rfl rfl rfl rfl)
      rfl

theorem hostAt_ne_freeSlot (db : RvSubscriptionDB) (i : Nat) : db.hostAt i ≠ .error .freeSlot := by
  unfold RvSubscriptionDB.hostAt
  split <;> simp

theorem sessionAt_ne_freeSlot (db : RvSubscriptionDB) (name : Text) :
    db.sessionAt name ≠ .error .freeSlot := by
  unfold RvSubscriptionDB.sessionAt
  split <;> simp

theorem subAt_ne_freeSlot (db : RvSubscriptionDB) (sub : Text) :
    db.subAt sub ≠ .error .freeSlot := by
  unfold RvSubscriptionDB.subAt
  split <;> simp

theorem stringToHostId_ne_freeSlot (str : Text) : stringToHostId str ≠ .error .freeSlot := by
  unfold stringToHostId
  split <;> simp

end Sassrv.SubMgr
