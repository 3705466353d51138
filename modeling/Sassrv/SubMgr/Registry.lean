import Mathlib.Tactic.TFAE
import Sassrv.SubMgr.BulkRemoval
import Sassrv.SubMgr.FreeSlots
import Sassrv.SubMgr.StopAdvisories

/-! The records of a live session: its state, its table of subjects, `sess_ht`, and the
table of its host. The code changes each in a place of its own; here they are kept in
agreement over the turns of a run. -/
namespace Sassrv.SubMgr
open Partial Transition

/-- What the records of a session agree on. -/
structure Place where
  stopped : Bool
  closed : Bool
  hostId : BitVec 32
  cid : BitVec 16
  sessionId : BitVec 32

def RvSessionEntry.place (s : RvSessionEntry) : Place where
  stopped := s.state = .stop
  closed := s.subHt.isNone
  hostId := s.hostId
  cid := s.cid
  sessionId := s.sessionId

def Place.stop (p : Place) : Place :=
  { p with
    stopped := true
    closed := true }

/-- What a slot says about the sessions of its host. -/
structure Roll where
  stopped : Bool
  hostId : BitVec 32
  cid : BitVec 16
  sessHt : Option UIntHashTab

def RvHostEntry.roll (host : RvHostEntry) : Roll where
  stopped := host.state = .stop
  hostId := host.hostId
  cid := host.cid
  sessHt := host.sessHt

namespace RvSubscriptionDB

def placeOf (db : RvSubscriptionDB) (name : Text) : Option Place :=
  (db.sessionTab.find? name).map RvSessionEntry.place

def rollOf (db : RvSubscriptionDB) (i : Nat) : Option Roll :=
  (db.hostTab[i]?).map RvHostEntry.roll

end RvSubscriptionDB

variable {env : Env} {P : RvSubscriptionDB → Call → Prop} {db db' : RvSubscriptionDB} {i : Nat}
  {name sub x : Text}

/-! What leaves these records alone. -/

/-- The same records of the sessions. -/
structure RollsKept (db db' : RvSubscriptionDB) : Prop where
  hostHt : db'.hostHt = db.hostHt
  sessHt : db'.sessHt = db.sessHt
  rolls : db'.rollOf = db.rollOf
  places : db'.placeOf = db.placeOf

namespace RollsKept

theorem refl (db : RvSubscriptionDB) : RollsKept db db := ⟨rfl, rfl, rfl, rfl⟩

theorem trans {a b c : RvSubscriptionDB} (h : RollsKept a b) (h' : RollsKept b c) : RollsKept a c :=
  ⟨h'.hostHt.trans h.hostHt, h'.sessHt.trans h.sessHt, h'.rolls.trans h.rolls,
    h'.places.trans h.places⟩

theorem of_eq (hHt : db'.hostHt = db.hostHt) (hSess : db'.sessHt = db.sessHt)
    (hTab : db'.hostTab = db.hostTab) (hSessions : db'.sessionTab = db.sessionTab) :
    RollsKept db db' := by
  refine ⟨hHt, hSess, ?_, ?_⟩
  · unfold RvSubscriptionDB.rollOf
    rw [hTab]
  · unfold RvSubscriptionDB.placeOf
    rw [hSessions]

theorem of_digests (h : DigestsOnly db db') (hSess : db'.sessHt = db.sessHt)
    (hPlaces : db'.placeOf = db.placeOf) : RollsKept db db' := by
  refine ⟨h.hostHt, hSess, ?_, hPlaces⟩
  funext i
  have hPlain := congrArg (fun o => o.map RvHostEntry.roll) (h.plain i)
  simp only [Option.map_map] at hPlain
  exact hPlain

theorem modifySession {f : RvSessionEntry → RvSessionEntry}
    (hf : ∀ s, db.sessionTab.find? name = some s → (f s).place = s.place) :
    RollsKept db (db.modifySession name f) := by
  refine ⟨rfl, rfl, rfl, ?_⟩
  funext x
  simp only [RvSubscriptionDB.placeOf, RvSubscriptionDB.modifySession, Table.find?_modify]
  cases hFind : db.sessionTab.find? x with
  | none => rfl
  | some s =>
      by_cases hx : x = name
      · subst hx
        simp [hf s hFind]
      · simp [hx]

theorem modifyHost {f : RvHostEntry → RvHostEntry}
    (hf : ∀ host, db.hostTab[i]? = some host → (f host).roll = host.roll) :
    RollsKept db (db.modifyHost i f) := by
  refine ⟨rfl, rfl, ?_, rfl⟩
  funext j
  simp only [RvSubscriptionDB.rollOf, RvSubscriptionDB.modifyHost, List.getElem?_modify]
  cases hFind : db.hostTab[j]? with
  | none => rfl
  | some host =>
      by_cases hj : i = j
      · subst hj
        simp [hf host hFind]
      · simp [hj]

end RollsKept

theorem place_sameSession {s s' : RvSessionEntry} (hSame : SameSession s s')
    (hState : s'.state = .stop ↔ s.state = .stop) : s'.place = s.place := by
  simp only [RvSessionEntry.place, hSame.subHt, hSame.hostId, hSame.cid, hSame.sessionId, hState]

theorem roll_sameHost {host host' : RvHostEntry} (hSame : SameHost host host')
    (hState : host'.state = .stop ↔ host.state = .stop) : host'.roll = host.roll := by
  simp only [RvHostEntry.roll, hSame.sessHt, hSame.hostId, hSame.cid, hState]

theorem isLive_iff_place : isLive db name = true ↔ ∃ p, db.placeOf name = some p ∧ p.stopped = false := by
  unfold isLive RvSubscriptionDB.placeOf
  cases db.sessionTab.find? name with
  | none => simp
  | some s => simp [RvSessionEntry.place]

/-- A live session stays live when it is queried. -/
theorem toQuery_rollsKept (hLive : isLive db name = true) :
    RollsKept db (db.modifySession name RvSessionEntry.toQuery) := by
  apply RollsKept.modifySession
  intro s hs
  have hNot : s.state ≠ .stop := by simpa [isLive, hs] using hLive
  exact place_sameSession (sameSession_toQuery s) (iff_of_false (mt toQuery_stop hNot) hNot)

/-- What `sess_ht` leads to is live. -/
def Traced (env : Env) (db : RvSubscriptionDB) : Prop :=
  ∀ id hash, db.sessHt.find? id = some hash → ∀ x p, db.placeOf x = some p → p.sessionId = id →
    env.crcC x 0 = hash → p.stopped = false

theorem placeOf_eq_some {p : Place} : db.placeOf name = some p ↔
    ∃ s, db.sessionTab.find? name = some s ∧ s.place = p :=
  Option.map_eq_some_iff

theorem Traced.isLive (traced : Traced env db) {id : BitVec 32}
    (h : getSessionId env db id = some name) : isLive db name = true := by
  obtain ⟨hash, hHash, hBy⟩ := Option.bind_eq_some_iff.mp h
  obtain ⟨s, hs, hId, hCrc⟩ := getSessionBy_eq_some hBy
  have hPlace : db.placeOf name = some s.place := placeOf_eq_some.mpr ⟨s, hs, rfl⟩
  exact isLive_iff_place.mpr ⟨s.place, hPlace, traced id hash hHash name s.place hPlace hId hCrc⟩

theorem Traced.of_kept (traced : Traced env db) (h : RollsKept db db') : Traced env db' := by
  unfold Traced
  rw [h.sessHt, h.places]
  exact traced

theorem queryRv7Session_rollsKept (traced : Traced env db) (hostId : BitVec 32) :
    RollsKept db (queryRv7Session env db hostId) := by
  unfold queryRv7Session
  split
  · exact .refl db
  · next found hFound =>
      obtain ⟨id, hId⟩ := getRv7Session_found hFound
      exact toQuery_rollsKept (traced.isLive hId)

theorem notify_rollsKept (env : Env) (db : RvSubscriptionDB) (out : Output) :
    RollsKept db (db.notify env out) := by
  unfold RvSubscriptionDB.notify
  split
  · exact .of_eq rfl rfl rfl rfl
  · exact .refl db

theorem hostDigest_rollsKept (env : Env) (db : RvSubscriptionDB) (name : Text)
    (sess : RvSessionEntry) (sub : Text) (isAdd : Bool) :
    RollsKept db (hostDigest env db name sess sub isAdd) := by
  have hOnly := hostDigest_hostsOnly env db name sess sub isAdd
  refine .of_digests (hostDigest_digestsOnly env db name sess sub isAdd) hOnly.sessHt ?_
  unfold RvSubscriptionDB.placeOf
  rw [hOnly.sessionTab]

theorem unsubSubject_rollsKept (traced : Traced env db) (name : Text) (sess : RvSessionEntry)
    (sub : Text) : RollsKept db (unsubSubject env name sess db sub) := by
  have hDigest := hostDigest_rollsKept env db name sess sub false
  unfold unsubSubject
  split
  · exact .refl db
  · dsimp only
    split
    · refine RollsKept.trans ?_ (notify_rollsKept env _ _)
      exact hDigest.trans (.of_eq rfl rfl rfl rfl)
    · refine RollsKept.trans ?_ (notify_rollsKept env _ _)
      have hSub : RollsKept db ((hostDigest env db name sess sub false).modifySub sub fun s =>
          s.dropRef sess.hasDaemon) := hDigest.trans (.of_eq rfl rfl rfl rfl)
      split
      · exact hSub.trans (queryRv7Session_rollsKept (traced.of_kept hSub) _)
      · exact hSub

theorem unsubSubjects_rollsKept (traced : Traced env db) (name : Text) (sess : RvSessionEntry)
    (subs : List Text) : RollsKept db (subs.foldl (unsubSubject env name sess) db) := by
  induction subs generalizing db with
  | nil => exact .refl db
  | cons sub rest ih =>
      have hOne := unsubSubject_rollsKept traced name sess sub
      exact hOne.trans (ih (traced.of_kept hOne))

/-! What dropping sessions does to the records. -/

/-- The sessions of a list are stopped and out of `sess_ht`, the others as they were. -/
structure Leaves (db db' : RvSubscriptionDB) (names : List Text) : Prop where
  hostHt : db'.hostHt = db.hostHt
  rolls : db'.rollOf = db.rollOf
  places : ∀ x, db'.placeOf x = if x ∈ names then (db.placeOf x).map Place.stop else db.placeOf x
  erased : ∀ x ∈ names, ∀ p, db.placeOf x = some p → db'.sessHt.find? p.sessionId = none
  indexed : ∀ id, (∀ x ∈ names, ∀ p, db.placeOf x = some p → p.sessionId ≠ id) →
    db'.sessHt.find? id = db.sessHt.find? id
  smaller : ∀ id hash, db'.sessHt.find? id = some hash → db.sessHt.find? id = some hash

theorem unsubSession_leaves (traced : Traced env db) (h : unsubSession env db name = .ok db') :
    Leaves db db' [name] := by
  simp only [unsubSession, bind_eq_ok, pure_eq_ok, sessionAt_eq_ok] at h
  obtain ⟨sess, hSess, rfl⟩ := h
  have hLoop := unsubSubjects_rollsKept traced name sess (subjects env db sess.subHt)
  refine ⟨hLoop.hostHt, hLoop.rolls, ?_, ?_, ?_, ?_⟩
  · intro x
    rw [← hLoop.places]
    simp only [closeSession, RvSubscriptionDB.placeOf, RvSubscriptionDB.modifySession,
      Table.find?_modify, Option.map_map, List.mem_singleton]
    by_cases hx : x = name
    · simp only [hx, if_true]
      rfl
    · simp only [hx, if_false]
      rfl
  · intro x hx p hp
    obtain rfl := List.mem_singleton.mp hx
    obtain ⟨s, hs, rfl⟩ := placeOf_eq_some.mp hp
    obtain rfl := Option.some.inj (hSess.symm.trans hs)
    exact Table.find?_erase_self _ _
  · intro id hId
    have hNe : id ≠ sess.sessionId := by
      rintro rfl
      exact hId name (List.mem_singleton.mpr rfl) sess.place (placeOf_eq_some.mpr ⟨sess, hSess, rfl⟩) rfl
    simp [closeSession, RvSubscriptionDB.modifySession, hLoop.sessHt, hNe]
  · intro id hash hFind
    simp only [closeSession, RvSubscriptionDB.modifySession, Table.find?_erase, hLoop.sessHt] at hFind
    split at hFind
    · cases hFind
    · exact hFind

theorem Leaves.traced {names : List Text} (h : Leaves db db' names) (traced : Traced env db) : Traced env db' := by
  intro id hash hFind x p hp hId hCrc
  rw [h.places] at hp
  split at hp
  · next hx =>
      obtain ⟨q, hq, rfl⟩ := Option.map_eq_some_iff.mp hp
      have hGone := h.erased x hx q hq
      rw [show q.sessionId = id from hId, hFind] at hGone
      cases hGone
  · exact traced id hash (h.smaller id hash hFind) x p hp hId hCrc

theorem Leaves.trans {names rest : List Text} {db₁ db₂ : RvSubscriptionDB} (h : Leaves db db₁ names)
    (h' : Leaves db₁ db₂ rest) : Leaves db db₂ (names ++ rest) where
  hostHt := h'.hostHt.trans h.hostHt
  rolls := h'.rolls.trans h.rolls
  places x := by
    rw [h'.places, h.places]
    have hTwice : (fun p : Place => p.stop.stop) = Place.stop := rfl
    by_cases hx : x ∈ names <;> by_cases hy : x ∈ rest <;>
      simp [hx, hy, Function.comp_def, hTwice]
  erased x hx p hp := by
    have hMoved : ∃ q, db₁.placeOf x = some q ∧ q.sessionId = p.sessionId := by
      rw [h.places, hp]
      split
      · exact ⟨_, rfl, rfl⟩
      · exact ⟨_, rfl, rfl⟩
    obtain ⟨q, hq, hId⟩ := hMoved
    by_cases hy : x ∈ rest
    · exact hId ▸ h'.erased x hy q hq
    · have hMem : x ∈ names := (List.mem_append.mp hx).resolve_right hy
      have hGone := h.erased x hMem p hp
      cases hFind : db₂.sessHt.find? p.sessionId with
      | none => rfl
      | some hash =>
          rw [h'.smaller _ hash hFind] at hGone
          cases hGone
  indexed id hId := by
    rw [h'.indexed, h.indexed]
    · exact fun x hx p hp => hId x (List.mem_append_left _ hx) p hp
    · intro x hx q hq
      rw [h.places] at hq
      split at hq
      · obtain ⟨p, hp, rfl⟩ := Option.map_eq_some_iff.mp hq
        exact hId x (List.mem_append_right _ hx) p hp
      · exact hId x (List.mem_append_right _ hx) q hq
  smaller id hash hFind := h.smaller id hash (h'.smaller id hash hFind)

theorem Leaves.refl (db : RvSubscriptionDB) : Leaves db db [] :=
  ⟨rfl, rfl, by simp, by simp, fun _ _ => rfl, fun _ _ h => h⟩

theorem unsubSessions_leaves {names : List Text} (traced : Traced env db)
    (h : names.foldlM (unsubSession env) db = .ok db') : Leaves db db' names := by
  induction names generalizing db with
  | nil =>
      cases h
      exact .refl _
  | cons name rest ih =>
      rw [List.foldlM_cons, bind_eq_ok] at h
      obtain ⟨db₁, hFirst, hRest⟩ := h
      have hOne := unsubSession_leaves traced hFirst
      exact hOne.trans (ih (hOne.traced traced) hRest)

/-! The records in agreement. -/

structure Registry (env : Env) (db : RvSubscriptionDB) : Prop where
  /-- Sessions have ids of their own. -/
  distinct : ∀ x y p q, db.placeOf x = some p → db.placeOf y = some q → p.sessionId = q.sessionId →
    x = y
  /-- A session is stopped when it has no table. -/
  closed : ∀ x p, db.placeOf x = some p → p.closed = p.stopped
  /-- A live session is in the table of a host of its ids, which is not stopped. -/
  entered : ∀ x p, db.placeOf x = some p → p.stopped = false → ∃ i roll ht, db.rollOf i = some roll ∧
    roll.stopped = false ∧ roll.hostId = p.hostId ∧ roll.cid = p.cid ∧ roll.sessHt = some ht ∧
    ht.find? p.sessionId = some (env.crcC x 0)
  /-- A host lists nothing but live sessions of its ids. -/
  listed : ∀ i roll ht id hash, db.rollOf i = some roll → roll.sessHt = some ht →
    ht.find? id = some hash → ∃ x p, db.placeOf x = some p ∧ p.stopped = false ∧ p.sessionId = id ∧
      env.crcC x 0 = hash ∧ p.hostId = roll.hostId ∧ p.cid = roll.cid
  /-- `sess_ht` has the live sessions. -/
  indexed : ∀ id hash, db.sessHt.find? id = some hash ↔ ∃ x p, db.placeOf x = some p ∧
    p.stopped = false ∧ p.sessionId = id ∧ env.crcC x 0 = hash
  /-- The own key of a host leads to its slot. -/
  keyed : ∀ i roll, db.rollOf i = some roll →
    db.hostHt.find? (hashHostId env roll.hostId roll.cid) = some i
  /-- A host is stopped when it has no table. -/
  tables : ∀ i roll, db.rollOf i = some roll → (roll.sessHt = none ↔ roll.stopped = true)

namespace Registry

theorem of_kept (reg : Registry env db) (h : RollsKept db db') : Registry env db' where
  distinct := by
    rw [h.places]
    exact reg.distinct
  closed := by
    rw [h.places]
    exact reg.closed
  entered := by
    rw [h.places, h.rolls]
    exact reg.entered
  listed := by
    rw [h.places, h.rolls]
    exact reg.listed
  indexed := by
    rw [h.places, h.sessHt]
    exact reg.indexed
  keyed := by
    rw [h.rolls, h.hostHt]
    exact reg.keyed
  tables := by
    rw [h.rolls]
    exact reg.tables

theorem traced (reg : Registry env db) : Traced env db := by
  intro id hash hFind x p hp hId _
  obtain ⟨y, q, hq, hLive, hId', -⟩ := (reg.indexed id hash).mp hFind
  obtain rfl := reg.distinct x y p q hp hq (hId.trans hId'.symm)
  obtain rfl := Option.some.inj (hp.symm.trans hq)
  exact hLive

/-- The slot of a live session is the one that its ids lead to. -/
theorem slot_unique (reg : Registry env db) {i j : Nat} {roll roll' : Roll}
    (hRoll : db.rollOf i = some roll) (hRoll' : db.rollOf j = some roll')
    (hId : roll.hostId = roll'.hostId) (hCid : roll.cid = roll'.cid) : i = j := by
  have hOne := reg.keyed i roll hRoll
  rw [hId, hCid, reg.keyed j roll' hRoll'] at hOne
  exact (Option.some.inj hOne).symm

/-- A slot that lists nothing gets a new host with an empty table, which its key leads
to. -/
theorem renew (reg : Registry env db) (fresh : Roll) (hEmpty : fresh.sessHt = some .empty)
    (hAwake : fresh.stopped = false)
    (hOld : ∀ roll ht, db.rollOf i = some roll → roll.sessHt = some ht → ∀ id, ht.find? id = none)
    (hHt : db'.hostHt.find? (hashHostId env fresh.hostId fresh.cid) = some i)
    (hKeys : ∀ j roll, j ≠ i → db.rollOf j = some roll →
      db'.hostHt.find? (hashHostId env roll.hostId roll.cid) = some j)
    (hSess : db'.sessHt = db.sessHt) (hPlaces : db'.placeOf = db.placeOf)
    (hRoll : db'.rollOf i = some fresh) (hRolls : ∀ j, j ≠ i → db'.rollOf j = db.rollOf j) :
    Registry env db' where
  distinct := by
    rw [hPlaces]
    exact reg.distinct
  closed := by
    rw [hPlaces]
    exact reg.closed
  entered x p hp hLive := by
    rw [hPlaces] at hp
    obtain ⟨j, roll, ht, hj, hRest⟩ := reg.entered x p hp hLive
    have hNe : j ≠ i := by
      rintro rfl
      obtain ⟨-, -, -, hTable, hFind⟩ := hRest
      rw [hOld roll ht hj hTable] at hFind
      cases hFind
    exact ⟨j, roll, ht, (hRolls j hNe).trans hj, hRest⟩
  listed j roll ht id hash hj hTable hFind := by
    rw [hPlaces]
    by_cases hij : j = i
    · subst hij
      obtain rfl := Option.some.inj (hRoll.symm.trans hj)
      rw [hEmpty] at hTable
      cases hTable
      cases hFind
    · rw [hRolls j hij] at hj
      exact reg.listed j roll ht id hash hj hTable hFind
  indexed := by
    rw [hSess, hPlaces]
    exact reg.indexed
  keyed j roll hj := by
    by_cases hij : j = i
    · subst hij
      obtain rfl := Option.some.inj (hRoll.symm.trans hj)
      exact hHt
    · rw [hRolls j hij] at hj
      exact hKeys j roll hij hj
  tables j roll hj := by
    by_cases hij : j = i
    · subst hij
      obtain rfl := Option.some.inj (hRoll.symm.trans hj)
      simp [hEmpty, hAwake]
    · rw [hRolls j hij] at hj
      exact reg.tables j roll hj

end Registry

/-- Sessions leave, and the table of their host goes on without them or goes with the
host. -/
structure Drops (env : Env) (db db₁ db' : RvSubscriptionDB) (names : List Text) (i : Nat)
    (roll roll' : Roll) : Prop where
  leaves : Leaves db db₁ names
  places : db'.placeOf = db₁.placeOf
  sessHt : db'.sessHt = db₁.sessHt
  hostHt : db'.hostHt = db₁.hostHt
  before : db.rollOf i = some roll
  after : db'.rollOf i = some roll'
  others : ∀ j, j ≠ i → db'.rollOf j = db.rollOf j
  same : roll'.hostId = roll.hostId ∧ roll'.cid = roll.cid
  tables : roll'.sessHt = none ↔ roll'.stopped = true
  own : ∀ x ∈ names, ∀ p, db.placeOf x = some p → p.stopped = false →
    p.hostId = roll.hostId ∧ p.cid = roll.cid
  less : ∀ ht', roll'.sessHt = some ht' → ∀ id hash, ht'.find? id = some hash →
    (∃ ht, roll.sessHt = some ht ∧ ht.find? id = some hash) ∧
    ∀ x ∈ names, ∀ p, db.placeOf x = some p → p.sessionId ≠ id
  still : ∀ x p ht, x ∉ names → db.placeOf x = some p → roll.stopped = false →
    roll.sessHt = some ht → ht.find? p.sessionId = some (env.crcC x 0) → roll'.stopped = false ∧
    ∃ ht', roll'.sessHt = some ht' ∧ ht'.find? p.sessionId = some (env.crcC x 0)

namespace Drops

variable {db₁ : RvSubscriptionDB} {names : List Text} {roll roll' : Roll}

theorem placeOf_after (h : Drops env db db₁ db' names i roll roll') (hx : x ∉ names) :
    db'.placeOf x = db.placeOf x := by
  rw [h.places, h.leaves.places, if_neg hx]

/-- A place is the one before, or that of a session that left. -/
theorem placeOf_before (h : Drops env db db₁ db' names i roll roll') {p' : Place}
    (hp' : db'.placeOf x = some p') : ∃ p, db.placeOf x = some p ∧ p'.sessionId = p.sessionId ∧
      (p'.stopped = false → x ∉ names ∧ p' = p) ∧ (p' = p ∨ p'.closed = p'.stopped) := by
  rw [h.places, h.leaves.places] at hp'
  split at hp'
  · obtain ⟨p, hp, rfl⟩ := Option.map_eq_some_iff.mp hp'
    exact ⟨p, hp, rfl, fun hLive => absurd hLive (by simp [Place.stop]), .inr rfl⟩
  · next hx => exact ⟨p', hp', rfl, fun _ => ⟨hx, rfl⟩, .inl rfl⟩

theorem entered (h : Drops env db db₁ db' names i roll roll') (reg : Registry env db) {p' : Place}
    (hp' : db'.placeOf x = some p') (hLive : p'.stopped = false) :
    ∃ j own ht, db'.rollOf j = some own ∧ own.stopped = false ∧ own.hostId = p'.hostId ∧
      own.cid = p'.cid ∧ own.sessHt = some ht ∧ ht.find? p'.sessionId = some (env.crcC x 0) := by
  obtain ⟨p, hp, -, hKept, -⟩ := h.placeOf_before hp'
  obtain ⟨hx, rfl⟩ := hKept hLive
  obtain ⟨j, old, ht, hj, hAwake, hId, hCid, hTable, hFind⟩ := reg.entered x p' hp hLive
  by_cases hij : j = i
  · subst hij
    obtain rfl := Option.some.inj (h.before.symm.trans hj)
    obtain ⟨hAwake', ht', hTable', hFind'⟩ := h.still x p' ht hx hp hAwake hTable hFind
    exact ⟨j, roll', ht', h.after, hAwake', h.same.1.trans hId, h.same.2.trans hCid, hTable',
      hFind'⟩
  · exact ⟨j, old, ht, (h.others j hij).trans hj, hAwake, hId, hCid, hTable, hFind⟩

theorem listed (h : Drops env db db₁ db' names i roll roll') (reg : Registry env db) {j : Nat}
    {own : Roll} {ht : UIntHashTab} {id hash : BitVec 32} (hj : db'.rollOf j = some own)
    (hTable : own.sessHt = some ht) (hFind : ht.find? id = some hash) :
    ∃ x p, db'.placeOf x = some p ∧ p.stopped = false ∧ p.sessionId = id ∧
      env.crcC x 0 = hash ∧ p.hostId = own.hostId ∧ p.cid = own.cid := by
  by_cases hij : j = i
  · subst hij
    obtain rfl := Option.some.inj (h.after.symm.trans hj)
    obtain ⟨⟨ht₀, hTable₀, hFind₀⟩, hOther⟩ := h.less ht hTable id hash hFind
    obtain ⟨x, p, hp, hLive, hId, hCrc, hHost, hCid⟩ :=
      reg.listed j roll ht₀ id hash h.before hTable₀ hFind₀
    have hx : x ∉ names := fun hx => hOther x hx p hp hId
    exact ⟨x, p, (h.placeOf_after hx).trans hp, hLive, hId, hCrc, hHost.trans h.same.1.symm,
      hCid.trans h.same.2.symm⟩
  · rw [h.others j hij] at hj
    obtain ⟨x, p, hp, hLive, hId, hCrc, hHost, hCid⟩ := reg.listed j own ht id hash hj hTable hFind
    have hx : x ∉ names := by
      intro hx
      obtain ⟨hHost', hCid'⟩ := h.own x hx p hp hLive
      exact hij (reg.slot_unique hj h.before (hHost.symm.trans hHost') (hCid.symm.trans hCid'))
    exact ⟨x, p, (h.placeOf_after hx).trans hp, hLive, hId, hCrc, hHost, hCid⟩

theorem indexed (h : Drops env db db₁ db' names i roll roll') (reg : Registry env db)
    (id hash : BitVec 32) : db'.sessHt.find? id = some hash ↔ ∃ x p, db'.placeOf x = some p ∧
      p.stopped = false ∧ p.sessionId = id ∧ env.crcC x 0 = hash := by
  rw [h.sessHt]
  constructor
  · intro hFind
    obtain ⟨x, p, hp, hLive, hId, hCrc⟩ :=
      (reg.indexed id hash).mp (h.leaves.smaller id hash hFind)
    have hx : x ∉ names := by
      intro hx
      have hGone := h.leaves.erased x hx p hp
      rw [hId, hFind] at hGone
      cases hGone
    exact ⟨x, p, (h.placeOf_after hx).trans hp, hLive, hId, hCrc⟩
  · rintro ⟨x, p', hp', hLive, hId, hCrc⟩
    obtain ⟨p, hp, -, hKept, -⟩ := h.placeOf_before hp'
    obtain ⟨hx, rfl⟩ := hKept hLive
    rw [h.leaves.indexed]
    · exact (reg.indexed id hash).mpr ⟨x, p', hp, hLive, hId, hCrc⟩
    · intro y hy q hq hEq
      obtain rfl := reg.distinct x y p' q hp hq (hId.trans hEq.symm)
      exact hx hy

end Drops

theorem Registry.drop {db₁ : RvSubscriptionDB} {names : List Text} {roll roll' : Roll}
    (reg : Registry env db) (h : Drops env db db₁ db' names i roll roll') : Registry env db' where
  distinct x y p' q' hp' hq' hId := by
    obtain ⟨p, hp, hpId, -, -⟩ := h.placeOf_before hp'
    obtain ⟨q, hq, hqId, -, -⟩ := h.placeOf_before hq'
    exact reg.distinct x y p q hp hq (hpId.symm.trans (hId.trans hqId))
  closed x p' hp' := by
    obtain ⟨p, hp, -, -, rfl | hEq⟩ := h.placeOf_before hp'
    · exact reg.closed x p' hp
    · exact hEq
  entered _ _ hp' hLive := h.entered reg hp' hLive
  listed _ _ _ _ _ hj hTable hFind := h.listed reg hj hTable hFind
  indexed := h.indexed reg
  keyed j old hj := by
    rw [h.hostHt, h.leaves.hostHt]
    by_cases hij : j = i
    · subst hij
      obtain rfl := Option.some.inj (h.after.symm.trans hj)
      rw [h.same.1, h.same.2]
      exact reg.keyed j roll h.before
    · rw [h.others j hij] at hj
      exact reg.keyed j old hj
  tables j old hj := by
    by_cases hij : j = i
    · subst hij
      obtain rfl := Option.some.inj (h.after.symm.trans hj)
      exact h.tables
    · rw [h.others j hij] at hj
      exact reg.tables j old hj

theorem rollOf_modifyHost (db : RvSubscriptionDB) (i : Nat) (f : RvHostEntry → RvHostEntry) (j : Nat) :
    (db.modifyHost i f).rollOf j =
      if i = j then (db.hostTab[j]?).map fun host => (f host).roll else db.rollOf j := by
  simp only [RvSubscriptionDB.rollOf, RvSubscriptionDB.modifyHost, List.getElem?_modify]
  cases db.hostTab[j]? with
  | none => simp
  | some host => by_cases hij : i = j <;> simp [hij]

theorem rollOf_eq_some {roll : Roll} : db.rollOf i = some roll ↔
    ∃ host, db.hostTab[i]? = some host ∧ host.roll = roll :=
  Option.map_eq_some_iff

/-- The table of the host after `rem_session` has looked at it. -/
theorem unlinkSession_rolls (h : unlinkSession db i name = .ok db') : ∃ roll ht p ht',
    db.rollOf i = some roll ∧ roll.sessHt = some ht ∧ db.placeOf name = some p ∧
    (∀ id, ht'.find? id = if id = p.sessionId then none else ht.find? id) ∧
    db'.rollOf i = some { roll with sessHt := some ht' } ∧
    (∀ j, j ≠ i → db'.rollOf j = db.rollOf j) ∧ db'.placeOf = db.placeOf ∧
    db'.sessHt = db.sessHt ∧ db'.hostHt = db.hostHt := by
  simp only [unlinkSession, bind_eq_ok, hostAt_eq_ok, sessionAt_eq_ok] at h
  obtain ⟨host, hHost, sess, hSess, h⟩ := h
  split at h
  · cases h
  · next ht hHt =>
      have hRoll : db.rollOf i = some host.roll := rollOf_eq_some.mpr ⟨host, hHost, rfl⟩
      have hPlace : db.placeOf name = some sess.place := placeOf_eq_some.mpr ⟨sess, hSess, rfl⟩
      split at h
      · cases h
        refine ⟨host.roll, ht, sess.place, ht.erase sess.sessionId, hRoll, hHt, hPlace, ?_, ?_, ?_, rfl,
          rfl, rfl⟩
        · exact fun id => Table.find?_erase _ _ _
        · have hAt := rollOf_modifyHost db i (fun host =>
            { host with
              sessHt := some (ht.erase sess.sessionId)
              rv7SessId := if sess.hasDaemon then 0 else host.rv7SessId }) i
          rw [if_pos rfl, hHost] at hAt
          exact hAt
        · intro j hj
          have hAt := rollOf_modifyHost db i (fun host =>
            { host with
              sessHt := some (ht.erase sess.sessionId)
              rv7SessId := if sess.hasDaemon then 0 else host.rv7SessId }) j
          rw [if_neg (Ne.symm hj)] at hAt
          exact hAt
      · next hNot =>
          cases h
          have hSame : ({ host.roll with sessHt := some ht } : Roll) = host.roll := by
            simp only [RvHostEntry.roll, hHt]
          refine ⟨host.roll, ht, sess.place, ht, hRoll, hHt, hPlace, ?_, hSame ▸ hRoll, fun _ _ => rfl,
            rfl, rfl, rfl⟩
          intro id
          split
          · next hId =>
              rw [hId]
              simpa [Table.contains, RvSessionEntry.place] using hNot
          · rfl

/-! The turns. -/

/-- Sessions are started over for the host that lists them, hosts while they list none,
and an id is not given out while a session has it. -/
def RegistryOk (env : Env) (db : RvSubscriptionDB) : Call → Prop
  | .hostStart hostId cid => ∀ i host ht, db.hostHt.find? (hashHostId env hostId cid) = some i →
      db.hostTab[i]? = some host → host.sessHt = some ht → ∀ id, ht.find? id = none
  | .restart i name => db.Lists i name
  | .enter i hostId cid name => (∃ host, db.hostTab[i]? = some host ∧ host.hostId = hostId ∧
      host.cid = cid) ∧ ∀ x s, x ≠ name → db.sessionTab.find? x = some s →
        s.sessionId ≠ sessionId (db.nextSessionCtr + 1)
  | .query name => isLive db name = true
  | _ => True

theorem start_roll (hostId : BitVec 32) (cid : BitVec 16) (curMono : BitVec 32)
    (isStart isStatus : Bool) : (RvHostEntry.start hostId cid curMono isStart isStatus).roll =
      { stopped := false, hostId := hostId, cid := cid, sessHt := some .empty } := by
  have hState := start_host_ne_stop hostId cid curMono isStart isStatus
  simp only [RvHostEntry.roll, hState, decide_false]
  rfl

theorem Registry.lists_live (reg : Registry env db) (h : db.Lists i name) :
    ∃ roll p ht, db.rollOf i = some roll ∧ roll.sessHt = some ht ∧ db.placeOf name = some p ∧
      p.stopped = false ∧ p.hostId = roll.hostId ∧ p.cid = roll.cid := by
  obtain ⟨host, ht, sess, hHost, hHt, hSess, hMem⟩ := h
  obtain ⟨hash, hHash⟩ := Table.contains_iff.mp hMem
  have hRoll : db.rollOf i = some host.roll := rollOf_eq_some.mpr ⟨host, hHost, rfl⟩
  have hPlace : db.placeOf name = some sess.place := placeOf_eq_some.mpr ⟨sess, hSess, rfl⟩
  obtain ⟨x, p, hp, hLive, hId, -, hHostId, hCid⟩ := reg.listed i host.roll ht _ hash hRoll hHt hHash
  obtain rfl := reg.distinct x name p sess.place hp hPlace hId
  exact ⟨host.roll, p, ht, hRoll, hHt, hp, hLive, hHostId, hCid⟩

/-- A session is dropped from the host it belongs to, if it is live. -/
theorem Registry.remSession (reg : Registry env db)
    (hOwn : ∀ p, db.placeOf name = some p → p.stopped = false →
      ∃ roll, db.rollOf i = some roll ∧ p.hostId = roll.hostId ∧ p.cid = roll.cid)
    (h : remSession env db i name = .ok db') : Registry env db' := by
  simp only [SubMgr.remSession, bind_eq_ok] at h
  obtain ⟨db₁, hUnsub, hUnlink⟩ := h
  have hLeaves := unsubSession_leaves reg.traced hUnsub
  obtain ⟨roll, ht, p₁, ht', hRoll, hTable, hPlace, hFind, hRoll', hRolls, hPlaces, hSess, hHt⟩ :=
    unlinkSession_rolls hUnlink
  rw [hLeaves.rolls] at hRoll hRolls
  obtain ⟨p, hp, hId⟩ : ∃ p, db.placeOf name = some p ∧ p₁.sessionId = p.sessionId := by
    rw [hLeaves.places, if_pos List.mem_cons_self] at hPlace
    obtain ⟨p, hp, rfl⟩ := Option.map_eq_some_iff.mp hPlace
    exact ⟨p, hp, rfl⟩
  have hAwake : roll.stopped = false := by
    by_contra hStop
    rw [(reg.tables i roll hRoll).mpr (by simpa using hStop)] at hTable
    cases hTable
  refine reg.drop ⟨hLeaves, hPlaces, hSess, hHt, hRoll, hRoll', hRolls, ⟨rfl, rfl⟩, ?_, ?_, ?_, ?_⟩
  · simp [hAwake]
  · intro x hx q hq hLive
    obtain rfl := List.mem_singleton.mp hx
    obtain ⟨own, hOwnRoll, hHost, hCid⟩ := hOwn q hq hLive
    obtain rfl := Option.some.inj (hRoll.symm.trans hOwnRoll)
    exact ⟨hHost, hCid⟩
  · intro t hTable' id hash hHash
    obtain rfl : ht' = t := Option.some.inj hTable'
    rw [hFind, hId] at hHash
    split at hHash
    · cases hHash
    · next hNe =>
        refine ⟨⟨ht, hTable, hHash⟩, ?_⟩
        intro x hx q hq hEq
        obtain rfl := List.mem_singleton.mp hx
        obtain rfl := Option.some.inj (hp.symm.trans hq)
        exact hNe hEq.symm
  · intro x q t hx hq _ hTable₀ hHash
    obtain rfl := Option.some.inj (hTable.symm.trans hTable₀)
    refine ⟨hAwake, ht', rfl, ?_⟩
    rw [hFind, hId, if_neg]
    · exact hHash
    · intro hEq
      obtain rfl := reg.distinct x name q p hq hp hEq
      exact hx List.mem_cons_self

theorem Registry.getSessionBy (reg : Registry env db) {p : Place} (hp : db.placeOf x = some p) :
    getSessionBy env db p.sessionId (env.crcC x 0) = some x := by
  obtain ⟨s, hs, rfl⟩ := placeOf_eq_some.mp hp
  have hSome : (db.sessionTab.entries.find? fun e =>
      env.crcC e.1 0 = env.crcC x 0 ∧ e.2.sessionId = s.sessionId).isSome := by
    apply List.find?_isSome.mpr
    exact ⟨(x, s), Table.find?_eq_some.mp hs, decide_eq_true ⟨rfl, rfl⟩⟩
  obtain ⟨e, he⟩ := Option.isSome_iff_exists.mp hSome
  have hBy : SubMgr.getSessionBy env db s.sessionId (env.crcC x 0) = some e.1 := by
    rw [SubMgr.getSessionBy, he, Option.map_some]
  obtain ⟨t, ht, hId, -⟩ := getSessionBy_eq_some hBy
  have hEq := reg.distinct e.1 x t.place s.place (placeOf_eq_some.mpr ⟨t, ht, rfl⟩) hp hId
  rw [← hEq]
  exact hEq ▸ hBy

/-- The walk over a host that is not stopped goes through the live sessions of its ids. -/
theorem Registry.mem_sessionsOf (reg : Registry env db) {roll : Roll}
    (hRoll : db.rollOf i = some roll) (hAwake : roll.stopped = false) :
    x ∈ sessionsOf env db roll.sessHt ↔ ∃ p, db.placeOf x = some p ∧ p.stopped = false ∧
      p.hostId = roll.hostId ∧ p.cid = roll.cid := by
  obtain ⟨ht, hTable⟩ : ∃ ht, roll.sessHt = some ht := by
    cases hTable : roll.sessHt with
    | none =>
        rw [(reg.tables i roll hRoll).mp hTable] at hAwake
        cases hAwake
    | some ht => exact ⟨ht, rfl⟩
  have hAll : ∀ e ∈ env.visit ht, ∃ y p, db.placeOf y = some p ∧ p.stopped = false ∧
      p.sessionId = e.1 ∧ env.crcC y 0 = e.2 ∧ p.hostId = roll.hostId ∧ p.cid = roll.cid := by
    intro e he
    have hFind := Table.find?_eq_some.mpr ((env.visit_perm ht).mem_iff.mp he)
    exact reg.listed i roll ht e.1 e.2 hRoll hTable hFind
  have hWalk : sessionsOf env db roll.sessHt =
      (env.visit ht).filterMap fun e => SubMgr.getSessionBy env db e.1 e.2 := by
    rw [hTable]
    refine walk_eq_filterMap fun e he => ?_
    obtain ⟨y, p, hp, -, hId, hCrc, -⟩ := hAll e he
    exact ⟨y, hId ▸ hCrc ▸ reg.getSessionBy hp⟩
  rw [hWalk, List.mem_filterMap]
  constructor
  · rintro ⟨e, he, hBy⟩
    obtain ⟨y, p, hp, hLive, hId, hCrc, hIds⟩ := hAll e he
    rw [← hId, ← hCrc, reg.getSessionBy hp] at hBy
    cases hBy
    exact ⟨p, hp, hLive, hIds⟩
  · rintro ⟨p, hp, hLive, hHost, hCid⟩
    obtain ⟨j, own, t, hOwn, -, hHost', hCid', hTable', hFind⟩ := reg.entered x p hp hLive
    obtain rfl := reg.slot_unique hOwn hRoll (hHost'.trans hHost) (hCid'.trans hCid)
    obtain rfl := Option.some.inj (hRoll.symm.trans hOwn)
    obtain rfl := Option.some.inj (hTable.symm.trans hTable')
    refine ⟨(p.sessionId, env.crcC x 0), ?_, reg.getSessionBy hp⟩
    exact (env.visit_perm ht).mem_iff.mpr (Table.find?_eq_some.mp hFind)

/-- A host is dropped with the sessions of its ids. -/
theorem Registry.unsubHost (reg : Registry env db) (h : unsubHost env db i = .ok db') :
    Registry env db' ∧ ∀ roll x p, db.rollOf i = some roll → db'.placeOf x = some p →
      p.hostId = roll.hostId → p.cid = roll.cid → p.stopped = true := by
  simp only [SubMgr.unsubHost, bind_eq_ok, hostAt_eq_ok, pure_eq_ok] at h
  obtain ⟨host, hHost, db₁, hLoop, rfl⟩ := h
  have hLeaves := unsubSessions_leaves reg.traced hLoop
  have hRoll : db.rollOf i = some host.roll := rollOf_eq_some.mpr ⟨host, hHost, rfl⟩
  obtain ⟨host₁, hHost₁, hRoll₁⟩ : ∃ host₁, db₁.hostTab[i]? = some host₁ ∧ host₁.roll = host.roll :=
    rollOf_eq_some.mp (by rw [hLeaves.rolls, hRoll])
  have hRoll' : (db₁.modifyHost i fun host => host.stop db₁.curMono).rollOf i =
      some { host.roll with stopped := true, sessHt := none } := by
    rw [rollOf_modifyHost, if_pos rfl, hHost₁, Option.map_some, ← hRoll₁]
    rfl
  have hLive : host.roll.stopped = false → ∀ x p, db.placeOf x = some p → p.stopped = false →
      p.hostId = host.roll.hostId → p.cid = host.roll.cid → x ∈ sessionsOf env db host.sessHt := by
    intro hAwake x p hp hLive hHostId hCid
    exact (reg.mem_sessionsOf hRoll hAwake).mpr ⟨p, hp, hLive, hHostId, hCid⟩
  constructor
  · refine reg.drop ⟨hLeaves, rfl, rfl, rfl, hRoll, hRoll', ?_, ⟨rfl, rfl⟩, ?_, ?_, ?_, ?_⟩
    · intro j hj
      have hAt := rollOf_modifyHost db₁ i (fun host => host.stop db₁.curMono) j
      rw [if_neg (Ne.symm hj), hLeaves.rolls] at hAt
      exact hAt
    · simp
    · intro x hx p hp hNot
      cases hTable : host.roll.stopped with
      | false =>
          obtain ⟨q, hq, -, hHostId, hCid⟩ := (reg.mem_sessionsOf hRoll hTable).mp hx
          obtain rfl := Option.some.inj (hp.symm.trans hq)
          exact ⟨hHostId, hCid⟩
      | true =>
          have hNone : host.sessHt = none := (reg.tables i host.roll hRoll).mpr hTable
          rw [hNone] at hx
          cases hx
    · intro ht' hTable
      cases hTable
    · intro x p ht hx hp hAwake hTable hFind
      obtain ⟨y, q, hq, hNot, hId, -, hHostId, hCid⟩ :=
        reg.listed i host.roll ht _ _ hRoll hTable hFind
      obtain rfl := reg.distinct y x q p hq hp hId
      exact absurd (hLive hAwake y q hq hNot hHostId hCid) hx
  · intro roll x p hOwn hp hHostId hCid
    obtain rfl := Option.some.inj (hRoll.symm.trans hOwn)
    have hPlace : db₁.placeOf x = some p := hp
    rw [hLeaves.places] at hPlace
    split at hPlace
    · obtain ⟨q, -, rfl⟩ := Option.map_eq_some_iff.mp hPlace
      rfl
    · next hx =>
        by_contra hNot
        have hNot' : p.stopped = false := by simpa using hNot
        obtain ⟨j, own, ht, hOwnRoll, hAwake, hHost', hCid', -, -⟩ := reg.entered x p hPlace hNot'
        obtain rfl := reg.slot_unique hOwnRoll hRoll (hHost'.trans hHostId) (hCid'.trans hCid)
        obtain rfl := Option.some.inj (hRoll.symm.trans hOwnRoll)
        exact hx (hLive hAwake x p hPlace hNot' hHostId hCid)

/-- A session that is not live gets a place, with an id that no other session has, and
goes to the host of its ids. -/
structure Enters (env : Env) (db db' : RvSubscriptionDB) (name : Text) (p : Place) (i : Nat)
    (roll : Roll) (ht : UIntHashTab) : Prop where
  before : db.rollOf i = some roll
  table : roll.sessHt = some ht
  ids : p.hostId = roll.hostId ∧ p.cid = roll.cid
  live : p.stopped = false
  opened : p.closed = false
  stopped : ∀ q, db.placeOf name = some q → q.stopped = true
  other : ∀ x q, x ≠ name → db.placeOf x = some q → q.sessionId ≠ p.sessionId
  places : ∀ x, db'.placeOf x = if x = name then some p else db.placeOf x
  sessHt : db'.sessHt = db.sessHt.insert p.sessionId (env.crcC name 0)
  hostHt : db'.hostHt = db.hostHt
  after : db'.rollOf i =
    some { roll with sessHt := some (ht.insert p.sessionId (env.crcC name 0)) }
  others : ∀ j, j ≠ i → db'.rollOf j = db.rollOf j

namespace Enters

variable {p q : Place} {roll own : Roll} {ht t : UIntHashTab} {j : Nat} {id hash : BitVec 32}

theorem self (h : Enters env db db' name p i roll ht) : db'.placeOf name = some p := by
  rw [h.places, if_pos rfl]

theorem placeOf_cases (h : Enters env db db' name p i roll ht) (hq : db'.placeOf x = some q) :
    x = name ∧ q = p ∨ x ≠ name ∧ db.placeOf x = some q := by
  rw [h.places] at hq
  split at hq
  · next hx => exact .inl ⟨hx, (Option.some.inj hq).symm⟩
  · next hx => exact .inr ⟨hx, hq⟩

theorem kept (h : Enters env db db' name p i roll ht) (hq : db.placeOf x = some q)
    (hNot : q.stopped = false) : db'.placeOf x = some q := by
  have hx : x ≠ name := by
    rintro rfl
    rw [h.stopped q hq] at hNot
    cases hNot
  rw [h.places, if_neg hx, hq]

theorem awake (h : Enters env db db' name p i roll ht) (reg : Registry env db) :
    roll.stopped = false := by
  by_contra hStop
  have hNone := (reg.tables i roll h.before).mpr (by simpa using hStop)
  rw [h.table] at hNone
  cases hNone

theorem distinct (h : Enters env db db' name p i roll ht) (reg : Registry env db) (x y : Text)
    (q r : Place) (hq : db'.placeOf x = some q) (hr : db'.placeOf y = some r)
    (hEq : q.sessionId = r.sessionId) : x = y := by
  rcases h.placeOf_cases hq with ⟨hx, rfl⟩ | ⟨hx, hq⟩ <;>
    rcases h.placeOf_cases hr with ⟨hy, rfl⟩ | ⟨hy, hr⟩
  · exact hx.trans hy.symm
  · exact absurd hEq.symm (h.other y r hy hr)
  · exact absurd hEq (h.other x q hx hq)
  · exact reg.distinct x y q r hq hr hEq

theorem entered (h : Enters env db db' name p i roll ht) (reg : Registry env db)
    (hq : db'.placeOf x = some q) (hNot : q.stopped = false) :
    ∃ j own t, db'.rollOf j = some own ∧ own.stopped = false ∧ own.hostId = q.hostId ∧
      own.cid = q.cid ∧ own.sessHt = some t ∧ t.find? q.sessionId = some (env.crcC x 0) := by
  rcases h.placeOf_cases hq with ⟨rfl, rfl⟩ | ⟨hx, hq⟩
  · exact ⟨i, _, _, h.after, h.awake reg, h.ids.1.symm, h.ids.2.symm, rfl,
      Table.find?_insert_self _ _ _⟩
  · obtain ⟨j, own, t, hOwn, hUp, hHostId, hCid, hTable', hFind⟩ := reg.entered x q hq hNot
    by_cases hij : j = i
    · subst hij
      obtain rfl := Option.some.inj (h.before.symm.trans hOwn)
      obtain rfl := Option.some.inj (h.table.symm.trans hTable')
      refine ⟨j, _, _, h.after, hUp, hHostId, hCid, rfl, ?_⟩
      rw [Table.find?_insert_ne _ _ (h.other x q hx hq)]
      exact hFind
    · exact ⟨j, own, t, (h.others j hij).trans hOwn, hUp, hHostId, hCid, hTable', hFind⟩

theorem listed (h : Enters env db db' name p i roll ht) (reg : Registry env db)
    (hOwn : db'.rollOf j = some own) (hTable : own.sessHt = some t)
    (hFind : t.find? id = some hash) :
    ∃ x q, db'.placeOf x = some q ∧ q.stopped = false ∧ q.sessionId = id ∧
      env.crcC x 0 = hash ∧ q.hostId = own.hostId ∧ q.cid = own.cid := by
  by_cases hij : j = i
  · subst hij
    obtain rfl := Option.some.inj (h.after.symm.trans hOwn)
    obtain rfl := Option.some.inj hTable
    rw [Table.find?_insert] at hFind
    split at hFind
    · next hId =>
        obtain rfl := Option.some.inj hFind
        exact ⟨name, p, h.self, h.live, hId.symm, rfl, h.ids⟩
    · obtain ⟨x, q, hq, hNot, hRest⟩ := reg.listed j roll ht id hash h.before h.table hFind
      exact ⟨x, q, h.kept hq hNot, hNot, hRest⟩
  · rw [h.others j hij] at hOwn
    obtain ⟨x, q, hq, hNot, hRest⟩ := reg.listed j own t id hash hOwn hTable hFind
    exact ⟨x, q, h.kept hq hNot, hNot, hRest⟩

theorem indexed (h : Enters env db db' name p i roll ht) (reg : Registry env db)
    (id hash : BitVec 32) : db'.sessHt.find? id = some hash ↔ ∃ x q, db'.placeOf x = some q ∧
      q.stopped = false ∧ q.sessionId = id ∧ env.crcC x 0 = hash := by
  rw [h.sessHt, Table.find?_insert]
  split
  · next hId =>
      constructor
      · intro hFind
        exact ⟨name, p, h.self, h.live, hId.symm, Option.some.inj hFind⟩
      · rintro ⟨x, q, hq, -, hEq, hCrc⟩
        rcases h.placeOf_cases hq with ⟨rfl, rfl⟩ | ⟨hx, hq⟩
        · rw [hCrc]
        · exact absurd (hEq.trans hId) (h.other x q hx hq)
  · next hId =>
      rw [reg.indexed]
      constructor
      · rintro ⟨x, q, hq, hNot, hRest⟩
        exact ⟨x, q, h.kept hq hNot, hNot, hRest⟩
      · rintro ⟨x, q, hq, hNot, hEq, hCrc⟩
        rcases h.placeOf_cases hq with ⟨rfl, rfl⟩ | ⟨hx, hq⟩
        · exact absurd hEq.symm hId
        · exact ⟨x, q, hq, hNot, hEq, hCrc⟩

end Enters

theorem Registry.enter {p : Place} {roll : Roll} {ht : UIntHashTab} (reg : Registry env db)
    (h : Enters env db db' name p i roll ht) : Registry env db' where
  distinct := h.distinct reg
  closed x q hq := by
    rcases h.placeOf_cases hq with ⟨-, rfl⟩ | ⟨-, hq⟩
    · rw [h.opened, h.live]
    · exact reg.closed x q hq
  entered _ _ hq hNot := h.entered reg hq hNot
  listed _ _ _ _ _ hOwn hTable hFind := h.listed reg hOwn hTable hFind
  indexed := h.indexed reg
  keyed j own hOwn := by
    rw [h.hostHt]
    by_cases hij : j = i
    · subst hij
      obtain rfl := Option.some.inj (h.after.symm.trans hOwn)
      exact reg.keyed j roll h.before
    · rw [h.others j hij] at hOwn
      exact reg.keyed j own hOwn
  tables j own hOwn := by
    by_cases hij : j = i
    · subst hij
      obtain rfl := Option.some.inj (h.after.symm.trans hOwn)
      simp [h.awake reg]
    · rw [h.others j hij] at hOwn
      exact reg.tables j own hOwn

theorem Registry.enterSession (reg : Registry env db) {hostId : BitVec 32} {cid : BitVec 16}
    {isStart : Bool} {user : Option Text} {g : RvSessionEntry → RvSessionEntry}
    (hOk : RegistryOk env db (.enter i hostId cid name)) (hNew : isLive db name = false)
    (hSame : ∀ s, SameSession s (g s)) (hState : ∀ s, (g s).state = .stop → s.state = .stop)
    (h : addSession env ((startEntry db name hostId cid isStart user).modifySession name g) i name =
      .ok db') : Registry env db' := by
  obtain ⟨⟨host, hHost, hHostId, hCid⟩, hFresh⟩ := hOk
  have hRoll : db.rollOf i = some host.roll := rollOf_eq_some.mpr ⟨host, hHost, rfl⟩
  have hStopped : ∀ q, db.placeOf name = some q → q.stopped = true := by
    intro q hq
    by_contra hNot
    rw [isLive_iff_place.mpr ⟨q, hq, by simpa using hNot⟩] at hNew
    cases hNew
  have hOther : ∀ x q, x ≠ name → db.placeOf x = some q →
      q.sessionId ≠ sessionId (db.nextSessionCtr + 1) := by
    intro x q hx hq
    obtain ⟨s, hs, rfl⟩ := placeOf_eq_some.mp hq
    exact hFresh x s hx hs
  simp only [addSession, bind_eq_ok, hostAt_eq_ok, sessionAt_eq_ok] at h
  obtain ⟨host', hHost', sess, hSess, h⟩ := h
  obtain rfl : host = host' := Option.some.inj (hHost.symm.trans hHost')
  have hEntry : g (.start name hostId cid (sessionId (db.nextSessionCtr + 1)) db.curMono isStart user) =
      sess := by
    simpa [RvSubscriptionDB.modifySession, startEntry] using hSess
  have hStart := start_state_ne_stop name hostId cid (sessionId (db.nextSessionCtr + 1)) db.curMono
    isStart user
  have hGiven := hSame (.start name hostId cid (sessionId (db.nextSessionCtr + 1)) db.curMono isStart user)
  rw [hEntry] at hGiven
  have hLive : sess.state ≠ .stop := fun hStop => hStart (hState _ (hEntry ▸ hStop))
  have hId : sess.sessionId = sessionId (db.nextSessionCtr + 1) := hGiven.sessionId
  split at h
  · cases h
  · next ht hHt =>
      have hNone : ht.find? sess.sessionId = none := by
        cases hFind : ht.find? sess.sessionId with
        | none => rfl
        | some hash =>
            obtain ⟨x, q, hq, hNot, hEq, -⟩ := reg.listed i host.roll ht _ hash hRoll hHt hFind
            by_cases hx : x = name
            · subst hx
              rw [hStopped q hq] at hNot
              cases hNot
            · exact absurd (hEq.trans hId) (hOther x q hx hq)
      rw [if_neg (by simp [Table.contains, hNone])] at h
      cases h
      refine reg.enter (p := sess.place)
        ⟨hRoll, hHt, ?_, ?_, ?_, hStopped, ?_, ?_, rfl, rfl, ?_, ?_⟩
      · exact ⟨hGiven.hostId.trans hHostId.symm, hGiven.cid.trans hCid.symm⟩
      · simpa [RvSessionEntry.place] using hLive
      · simp [RvSessionEntry.place, hGiven.subHt, RvSessionEntry.start]
      · intro x q hx hq hEq
        exact hOther x q hx hq (hEq.trans hId)
      · intro x
        by_cases hx : x = name
        · subst hx
          rw [if_pos rfl]
          exact placeOf_eq_some.mpr ⟨sess, hSess, rfl⟩
        · simp [RvSubscriptionDB.placeOf, RvSubscriptionDB.modifyHost,
            RvSubscriptionDB.modifySession, startEntry, hx]
      · have hAt := rollOf_modifyHost db i (fun host =>
          { host with
            sessHt := some (ht.insert sess.sessionId (env.crcC name 0))
            rv7SessId := if sess.hasDaemon then sess.sessionId else host.rv7SessId }) i
        rw [if_pos rfl, hHost] at hAt
        exact hAt
      · intro j hj
        have hAt := rollOf_modifyHost db i (fun host =>
          { host with
            sessHt := some (ht.insert sess.sessionId (env.crcC name 0))
            rv7SessId := if sess.hasDaemon then sess.sessionId else host.rv7SessId }) j
        rw [if_neg (Ne.symm hj)] at hAt
        exact hAt

theorem getElem?_putHost (db : RvSubscriptionDB) (host : RvHostEntry) (hLe : i ≤ db.hostTab.length)
    (j : Nat) : (db.putHost i host).hostTab[j]? = if j = i then some host else db.hostTab[j]? := by
  simp only [RvSubscriptionDB.putHost]
  split
  · next hLt =>
      by_cases hj : j = i
      · subst hj
        simp [hLt]
      · simp [hj, Ne.symm hj]
  · next hNot =>
      obtain rfl : i = db.hostTab.length := by omega
      by_cases hj : j = db.hostTab.length
      · subst hj
        simp
      · simp only [hj, if_false]
        by_cases hLt : j < db.hostTab.length
        · rw [List.getElem?_append_left hLt]
        · rw [List.getElem?_eq_none (by simp; omega), List.getElem?_eq_none (by omega)]

theorem rollOf_putHost (db : RvSubscriptionDB) (host : RvHostEntry) (hLe : i ≤ db.hostTab.length) (j : Nat) :
    (db.putHost i host).rollOf j = if j = i then some host.roll else db.rollOf j := by
  rw [RvSubscriptionDB.rollOf, getElem?_putHost db host hLe]
  split <;> rfl

/-- A host that `host_ref` enters goes to the end or to a slot that lists nothing. -/
theorem Registry.hostRef (reg : Registry env db) {hostId : BitVec 32} {cid : BitVec 16}
    {isStatus : Bool} (h : hostRef env db hostId cid isStatus = .ok (db', i)) : Registry env db' := by
  rcases hostRef_cases h with ⟨hNone, hFree, rfl, rfl⟩ | ⟨host, hFind, hHost, hStop, rfl⟩ |
    ⟨host, f, -, hHost, hNot, hSame, hNot', rfl⟩
  · have hLe : db.firstFreeHost ≤ db.hostTab.length := by
      rcases hFree with hLast | hStop
      · exact hLast.le
      · obtain ⟨host, hHost, -⟩ := Option.map_eq_some_iff.mp hStop
        exact (List.getElem?_eq_some_iff.mp hHost).1.le
    have hRolls := fun j => rollOf_putHost (i := db.firstFreeHost) { db with
      firstFreeHost := db.firstFreeHost + 1
      hosts := { db.hosts with active := db.hosts.active + 1 }
      hostHt := db.hostHt.insert (hashHostId env hostId cid) db.firstFreeHost }
      (.start hostId cid db.curMono false isStatus) hLe j
    refine reg.renew (i := db.firstFreeHost) ⟨false, hostId, cid, some .empty⟩ rfl rfl ?_ ?_ ?_ rfl
      rfl ?_ ?_
    · intro roll ht hRoll hTable
      exfalso
      obtain ⟨host, hHost, rfl⟩ := rollOf_eq_some.mp hRoll
      rcases hFree with hLast | hStop
      · have hLt := (List.getElem?_eq_some_iff.mp hHost).1
        omega
      · rw [hHost, Option.map_some] at hStop
        have hNone := (reg.tables _ host.roll hRoll).mpr (by simp [RvHostEntry.roll, Option.some.inj hStop])
        rw [hNone] at hTable
        cases hTable
    · exact Table.find?_insert_self _ _ _
    · intro j roll hj hRoll
      have hKey := reg.keyed j roll hRoll
      refine Eq.trans (Table.find?_insert_ne _ _ ?_) hKey
      intro hEq
      rw [hEq, hNone] at hKey
      cases hKey
    · rw [hRolls, if_pos rfl, start_roll]
    · intro j hj
      rw [hRolls, if_neg hj]
      rfl
  · have hStop' : db.rollOf i = some host.roll := rollOf_eq_some.mpr ⟨host, hHost, rfl⟩
    refine reg.renew (i := i) ⟨false, hostId, cid, some .empty⟩ rfl rfl ?_ hFind ?_ rfl rfl ?_ ?_
    · intro roll ht hRoll hTable
      exfalso
      obtain rfl := Option.some.inj (hStop'.symm.trans hRoll)
      rw [(reg.tables i host.roll hRoll).mpr (by simp [RvHostEntry.roll, hStop])] at hTable
      cases hTable
    · exact fun j roll _ hRoll => reg.keyed j roll hRoll
    · refine (rollOf_modifyHost _ i _ i).trans ?_
      rw [if_pos rfl]
      dsimp only
      rw [hHost, Option.map_some, start_roll]
    · intro j hj
      refine (rollOf_modifyHost _ i _ j).trans ?_
      rw [if_neg (Ne.symm hj)]
      rfl
  · refine reg.of_kept (RollsKept.modifyHost fun host' hHost' => ?_)
    obtain rfl := Option.some.inj (hHost.symm.trans hHost')
    exact roll_sameHost (hSame host) (iff_of_false hNot' hNot)

/-- A host that is started over lists nothing before and after. -/
theorem Registry.hostStart (reg : Registry env db) {hostId : BitVec 32} {cid : BitVec 16}
    (hOk : RegistryOk env db (.hostStart hostId cid)) (h : hostStart env db hostId cid = .ok db') :
    Registry env db' := by
  rcases hostStart_cases h with ⟨hNone, rfl⟩ |
    ⟨i, host, fresh, hFind, hHost, hState, rfl, rfl, hEmpty, -, -, rfl⟩
  · have hRolls := fun j => rollOf_putHost (i := db.hostTab.length) db
      (.start hostId cid db.curMono true false) le_rfl j
    simp only [RvSubscriptionDB.putHost, lt_irrefl, if_false] at hRolls
    refine reg.renew (i := db.hostTab.length) ⟨false, hostId, cid, some .empty⟩ rfl rfl ?_ ?_ ?_ rfl
      rfl ?_ ?_
    · intro roll ht hRoll
      obtain ⟨host, hHost, -⟩ := rollOf_eq_some.mp hRoll
      have hLt := (List.getElem?_eq_some_iff.mp hHost).1
      omega
    · exact Table.find?_insert_self _ _ _
    · intro j roll hj hRoll
      have hKey := reg.keyed j roll hRoll
      refine Eq.trans (Table.find?_insert_ne _ _ ?_) hKey
      intro hEq
      rw [hEq, hNone] at hKey
      cases hKey
    · refine (hRolls _).trans ?_
      rw [if_pos rfl, start_roll]
    · intro j hj
      refine (hRolls j).trans ?_
      rw [if_neg hj]
  · refine reg.renew (i := i) ⟨false, fresh.hostId, fresh.cid, some .empty⟩ rfl rfl ?_ hFind ?_ rfl rfl
      ?_ ?_
    · intro roll ht hRoll hTable
      obtain ⟨old, hOld, rfl⟩ := rollOf_eq_some.mp hRoll
      exact hOk i old ht hFind hOld hTable
    · exact fun j roll _ hRoll => reg.keyed j roll hRoll
    · refine (rollOf_modifyHost _ i _ i).trans ?_
      rw [if_pos rfl, hHost, Option.map_some, RvHostEntry.roll, hEmpty]
      simp [hState]
    · intro j hj
      exact (rollOf_modifyHost _ i _ j).trans (if_neg (Ne.symm hj))

/-- What the subjects of a session are moved by leaves its place. -/
theorem setSubHt_rollsKept {sess : RvSessionEntry} {ht : UIntHashTab} (ht' : UIntHashTab)
    (hSess : db.sessionTab.find? name = some sess) (hHt : sess.subHt = some ht) :
    RollsKept db (db.modifySession name fun s => s.setSubHt ht') := by
  apply RollsKept.modifySession
  intro s hs
  obtain rfl := Option.some.inj (hSess.symm.trans hs)
  simp only [RvSessionEntry.place, RvSessionEntry.setSubHt, hHt]
  rfl

theorem refSubscription_rollsKept (env : Env) (db : RvSubscriptionDB) (sub : Text) :
    RollsKept db (refSubscription env db sub) := by
  rcases refSubscription_cases env db sub with ⟨-, hDb⟩ | ⟨-, hDb⟩
  · rw [hDb]
    exact .of_eq rfl rfl rfl rfl
  · rw [hDb]
    exact .of_eq rfl rfl rfl rfl

theorem holdSubject_rollsKept {sess : RvSessionEntry} {ht : UIntHashTab} (script : RvSubscription)
    (hSess : db.sessionTab.find? name = some sess) (hHt : sess.subHt = some ht) :
    RollsKept db (holdSubject env db name sess ht sub script).1 := by
  have hSet := setSubHt_rollsKept (ht.insert script.subjectId (env.crcC sub 0)) hSess hHt
  have hMove : RollsKept db (hostDigest env ((db.modifySession name fun s =>
      s.setSubHt (ht.insert script.subjectId (env.crcC sub 0))).modifySub sub fun s =>
        s.addRef sess.hasDaemon) name sess sub true) := by
    refine RollsKept.trans ?_ (hostDigest_rollsKept env _ name sess sub true)
    exact hSet.trans (.of_eq rfl rfl rfl rfl)
  unfold holdSubject
  dsimp only
  split
  · exact hMove.trans (.of_eq rfl rfl rfl rfl)
  · exact hMove

theorem releaseSubject_rollsKept {sess : RvSessionEntry} {ht : UIntHashTab} (script : RvSubscription)
    (traced : Traced env db) (hSess : db.sessionTab.find? name = some sess)
    (hHt : sess.subHt = some ht) : RollsKept db (releaseSubject env db name sess ht sub script).1 := by
  have hSet := setSubHt_rollsKept (ht.erase script.subjectId) hSess hHt
  have hMove : RollsKept db (hostDigest env ((db.modifySession name fun s =>
      s.setSubHt (ht.erase script.subjectId)).modifySub sub fun s =>
        s.dropRef sess.hasDaemon) name sess sub false) := by
    refine RollsKept.trans ?_ (hostDigest_rollsKept env _ name sess sub false)
    exact hSet.trans (.of_eq rfl rfl rfl rfl)
  unfold releaseSubject
  dsimp only
  split
  · exact hMove.trans (.of_eq rfl rfl rfl rfl)
  · split
    · exact hMove.trans (queryRv7Session_rollsKept (traced.of_kept hMove) _)
    · exact hMove

theorem listenRef_rollsKept {r : Listened} (h : listenRef env db name sub = .ok r) :
    RollsKept db r.db := by
  obtain ⟨sess, ht, script, hSess, hHt, -, -, hCase⟩ := listenRef_cases h
  apply (refSubscription_rollsKept env db (stripNul sub)).trans
  rcases hCase with ⟨-, hDb, -⟩ | ⟨-, -, hDb⟩
  · rw [hDb]
    exact .refl _
  · rw [hDb]
    exact holdSubject_rollsKept script hSess hHt

theorem derefSubscription_rollsKept (traced : Traced env db) {r : Listened}
    (h : derefSubscription env db name sub = .ok r) : RollsKept db r.db := by
  obtain ⟨sess, script, hSess, -, -, hCase⟩ := derefSubscription_cases h
  rcases hCase with ⟨-, hDb, -⟩ | ⟨-, -, ht, hHt, -, hDb⟩
  · rw [hDb]
    exact .refl _
  · rw [hDb]
    exact releaseSubject_rollsKept script traced hSess hHt

theorem sass3_rollsKept {script : RvSubscription} {app : SassApp} {flags : BitVec 16}
    {entry : RvSass3Entry} (h : sass3 env db sub script app flags = .ok (db', entry)) :
    RollsKept db db' := by
  unfold sass3 at h
  dsimp only at h
  split at h
  · split at h
    · cases h
    · simp only [sass3Known, Except.ok.injEq] at h
      split at h
      · cases h
        exact .refl db
      · split at h <;> cases h <;> exact .of_eq rfl rfl rfl rfl
  · simp only [sass3New, Except.ok.injEq] at h
    split at h <;> cases h <;> exact .of_eq rfl rfl rfl rfl

theorem expireEntry_rollsKept {entry : RvSass3Entry} (h : expireEntry env db entry = .ok db') :
    RollsKept db db' := by
  unfold expireEntry at h
  dsimp only at h
  split at h
  · cases h
    exact .of_eq rfl rfl rfl rfl
  · simp only [bind_eq_ok] at h
    obtain ⟨script, -, h⟩ := h
    split at h
    · cases h
      exact .of_eq rfl rfl rfl rfl
    · split at h
      · cases h
        exact .of_eq rfl rfl rfl rfl
      · cases h

/-- Only stopped sessions are collected. -/
theorem Registry.gcSessions (reg : Registry env db) : Registry env (gcSessions db) := by
  unfold SubMgr.gcSessions
  split
  · have hPlaces : ∀ x p, RvSubscriptionDB.placeOf { db with
        sessions := { db.sessions with removed := 0 }
        sessionTab := db.sessionTab.filter fun s => s.state ≠ .stop } x = some p ↔
          db.placeOf x = some p ∧ p.stopped = false := by
      intro x p
      simp only [placeOf_eq_some, Table.find?_filter, Option.filter_eq_some_iff]
      constructor
      · rintro ⟨s, ⟨hs, hNot⟩, rfl⟩
        exact ⟨⟨s, hs, rfl⟩, by simpa [RvSessionEntry.place] using hNot⟩
      · rintro ⟨⟨s, hs, rfl⟩, hNot⟩
        exact ⟨s, ⟨hs, by simpa [RvSessionEntry.place] using hNot⟩, rfl⟩
    refine ⟨?_, ?_, ?_, ?_, ?_, reg.keyed, reg.tables⟩
    · intro x y p q hp hq hEq
      exact reg.distinct x y p q ((hPlaces x p).mp hp).1 ((hPlaces y q).mp hq).1 hEq
    · exact fun x p hp => reg.closed x p ((hPlaces x p).mp hp).1
    · exact fun x p hp hLive => reg.entered x p ((hPlaces x p).mp hp).1 hLive
    · intro j roll ht id hash hRoll hTable hFind
      obtain ⟨x, p, hp, hLive, hRest⟩ := reg.listed j roll ht id hash hRoll hTable hFind
      exact ⟨x, p, (hPlaces x p).mpr ⟨hp, hLive⟩, hLive, hRest⟩
    · intro id hash
      refine (reg.indexed id hash).trans ?_
      constructor
      · rintro ⟨x, p, hp, hLive, hRest⟩
        exact ⟨x, p, (hPlaces x p).mpr ⟨hp, hLive⟩, hLive, hRest⟩
      · rintro ⟨x, p, hp, hRest⟩
        exact ⟨x, p, ((hPlaces x p).mp hp).1, hRest⟩
  · exact reg

/-- The host of an entry that `host_exists` knows is the one that lists it. -/
theorem Registry.owned_host (reg : Registry env db) (hOwned : Owned env (RegistryOk env) db i name)
    {p : Place} (hp : db.placeOf name = some p) (hLive : p.stopped = false) :
    ∃ roll, db.rollOf i = some roll ∧ p.hostId = roll.hostId ∧ p.cid = roll.cid := by
  have hListed : db.Lists i name →
      ∃ roll, db.rollOf i = some roll ∧ p.hostId = roll.hostId ∧ p.cid = roll.cid := by
    intro hLists
    obtain ⟨roll, q, ht, hRoll, -, hq, -, hIds⟩ := reg.lists_live hLists
    obtain rfl := Option.some.inj (hp.symm.trans hq)
    exact ⟨roll, hRoll, hIds⟩
  rcases hOwned with hLists | ⟨sess, hSess, hExists⟩ | ⟨-, hLists⟩
  · exact hListed hLists
  · obtain ⟨s, hs, rfl⟩ := placeOf_eq_some.mp hp
    obtain rfl := Option.some.inj (hSess.symm.trans hs)
    obtain ⟨j, roll, ht, hRoll, -, hHostId, hCid, -⟩ := reg.entered name sess.place hp hLive
    have hKey := reg.keyed j roll hRoll
    rw [hHostId, hCid] at hKey
    obtain rfl : i = j := Option.some.inj ((hostExists_slot hExists).1.symm.trans hKey)
    exact ⟨roll, hRoll, hHostId.symm, hCid.symm⟩
  · exact hListed hLists

theorem Turn.registry (h : Turn env (RegistryOk env) db db') (reg : Registry env db) :
    Registry env db' := by
  cases h with
  | hostRef _ h => exact reg.hostRef h
  | hostStart hOk h => exact reg.hostStart hOk h
  | touchHost i hSame hState =>
      exact reg.of_kept (.modifyHost fun host hHost => roll_sameHost (hSame host) (hState host hHost))
  | unsubHost _ h => exact (reg.unsubHost h).1
  | remSession hOwned h => exact reg.remSession (fun p hp hLive => reg.owned_host hOwned hp hLive) h
  | enterSession hOk _ _ hNew hSame hState h => exact reg.enterSession hOk hNew hSame hState h
  | touchSession name hSame hState =>
      exact reg.of_kept (.modifySession fun s hs => place_sameSession (hSame s) (hState s hs))
  | query hWhy =>
      refine reg.of_kept (toQuery_rollsKept ?_)
      rcases hWhy with hLive | ⟨id, hFound⟩ | ⟨i, hLists⟩ | hOk
      · exact hLive
      · exact reg.traced.isLive hFound
      · obtain ⟨-, p, -, -, -, hp, hLive, -⟩ := reg.lists_live hLists
        exact isLive_iff_place.mpr ⟨p, hp, hLive⟩
      · exact hOk
  | touchSub => exact reg.of_kept (.of_eq rfl rfl rfl rfl)
  | getSubscription sub =>
      unfold SubMgr.getSubscription
      split
      · exact reg
      · exact reg.of_kept (.of_eq rfl rfl rfl rfl)
  | listen _ isListenStart reply h hScript =>
      refine reg.of_kept ((listenRef_rollsKept h).trans ?_)
      split
      · exact notify_rollsKept env _ _
      · exact .refl _
  | release isListenStop h _ _ =>
      exact reg.of_kept ((derefSubscription_rollsKept reg.traced h).trans (notify_rollsKept env _ _))
  | orphan => exact reg.of_kept (notify_rollsKept env _ _)
  | sass3 _ _ h => exact reg.of_kept (sass3_rollsKept h)
  | expire _ h => exact reg.of_kept (expireEntry_rollsKept h)
  | sass3List => exact reg.of_kept (.of_eq rfl rfl rfl rfl)
  | note => exact reg.of_kept (.of_eq rfl rfl rfl rfl)
  | gcSubscriptions =>
      unfold SubMgr.gcSubscriptions
      split
      · exact reg.of_kept (.of_eq rfl rfl rfl rfl)
      · exact reg
  | gcSessions => exact reg.gcSessions
  | gcHosts =>
      unfold SubMgr.gcHosts
      split
      · exact reg.of_kept (.of_eq rfl rfl rfl rfl)
      · exact reg

/-- A host that was not known gets an entry with its ids. -/
theorem hostRef_fresh {hostId : BitVec 32} {cid : BitVec 16} {isStatus : Bool}
    (h : hostRef env db hostId cid isStatus = .ok (db', i))
    (hNone : db.hostHt.find? (hashHostId env hostId cid) = none) :
    ∃ host, db'.hostTab[i]? = some host ∧ host.hostId = hostId ∧ host.cid = cid := by
  obtain ⟨hFind, host, hHost, -⟩ := hostRef_slot h
  rcases hostRef_cases h with ⟨-, hFree, rfl, rfl⟩ | ⟨-, hOld, -⟩ | ⟨-, -, hOld, -⟩
  · have hLe : db.firstFreeHost ≤ db.hostTab.length := by
      rcases hFree with hLast | hStop
      · exact hLast.le
      · obtain ⟨host, hHost, -⟩ := Option.map_eq_some_iff.mp hStop
        exact (List.getElem?_eq_some_iff.mp hHost).1.le
    have hAt := rollOf_putHost (i := db.firstFreeHost) { db with
      firstFreeHost := db.firstFreeHost + 1
      hosts := { db.hosts with active := db.hosts.active + 1 }
      hostHt := db.hostHt.insert (hashHostId env hostId cid) db.firstFreeHost }
      (.start hostId cid db.curMono false isStatus) hLe db.firstFreeHost
    rw [if_pos rfl, start_roll] at hAt
    obtain ⟨found, hFound, hRoll⟩ := rollOf_eq_some.mp hAt
    exact ⟨found, hFound, congrArg Roll.hostId hRoll, congrArg Roll.cid hRoll⟩
  · rw [hNone] at hOld
    cases hOld
  · rw [hNone] at hOld
    cases hOld

theorem registry_empty (env : Env) (curMono nextGc : BitVec 32) :
    Registry env { curMono := curMono, nextGc := nextGc } where
  distinct _ _ _ _ h := by cases h
  closed _ _ h := by cases h
  entered _ _ h := by cases h
  listed _ _ _ _ _ h := by cases h
  indexed id hash := by
    refine iff_of_false (by simp) ?_
    rintro ⟨x, p, hp, -⟩
    cases hp
  keyed _ _ h := by cases h
  tables _ _ h := by cases h

/-- The client's own session is entered where its host was. -/
theorem registryOk_enter {curMono nextGc : BitVec 32} {hostId : BitVec 32} {cid : BitVec 16}
    (h : hostRef env { curMono := curMono, nextGc := nextGc } hostId cid true = .ok (db, i)) :
    RegistryOk env (db.modifyHost i fun host => { host with state := .query }) (.enter i hostId cid name) := by
  obtain ⟨host, hHost, hId, hCid⟩ := hostRef_fresh h rfl
  refine ⟨⟨{ host with state := .query }, by simp [RvSubscriptionDB.modifyHost, hHost], hId, hCid⟩, ?_⟩
  intro x s _ hs
  have hTab : db.sessionTab = .empty := (hostRef_hostsOnly h).sessionTab
  simp [RvSubscriptionDB.modifyHost, hTab] at hs

theorem reachable_registry (h : (restricted env (RegistryOk env)).Reachable db) :
    Registry env db := by
  refine restricted_invariant (fun curMono => ⟨registry_empty env _ _, ?_⟩) ?_
    (fun _ _ hTurn reg => hTurn.registry reg) h
  · exact meetsInit_of_enter trivial fun db i hRef => registryOk_enter hRef
  · exact fun _ reg => reg.of_kept (.of_eq rfl rfl rfl rfl)

/-! Subjects go to live sessions only, in every run. -/

/-- A session is handed to `listen_ref` only while it is live. -/
def ListensLive (db : RvSubscriptionDB) : Call → Prop
  | .listen name _ => isLive db name = true
  | _ => True

theorem listSubjects_live {subs : List Text} (hLive : isLive db name = true) :
    Along (listSubject env name) (fun db sub => ListensLive db (.listen name sub)) db subs := by
  induction subs generalizing db with
  | nil => trivial
  | cons sub rest ih => exact ⟨hLive, fun db' h => ih (listSubject_isLive h hLive)⟩

theorem replySubjects_live {items : List ReplyField} (hLive : isLive db name = true) :
    Along (replySubject env name) (MeetsReplySubject env ListensLive name) db items := by
  induction items generalizing db with
  | nil => trivial
  | cons item rest ih => exact ⟨fun _ _ _ _ => hLive, fun db' h => ih (replySubject_isLive h hLive)⟩

theorem meetsRef_live (cid : BitVec 16) : MeetsRef env ListensLive db cid name :=
  fun _ _ _ => ⟨trivial, fun _ _ _ => trivial⟩

theorem meetsAdvisory_live (info : SubMatch) (subject reply : Text) (m : Fields) :
    MeetsAdvisory env ListensLive db info subject reply m := by
  intro hostId _
  dsimp only
  split
  · trivial
  · trivial
  · exact fun _ _ => trivial
  · trivial
  · exact fun _ _ => ⟨fun _ => trivial, fun _ _ => trivial⟩
  · trivial
  · exact ⟨meetsRef_live _, fun _ hRef => isLive_sessionRef hRef⟩
  · exact ⟨meetsRef_live _, fun _ _ _ _ _ => trivial⟩
  · intro _ session _
    split
    · exact fun _ _ => trivial
    · exact fun _ _ _ _ => trivial
  · exact fun _ _ _ _ _ _ => along_of_forall (fun _ _ _ => trivial) _ _
  · exact fun _ _ _ _ => trivial

theorem meetsSync_live (hostId : BitVec 32) (cid : BitVec 16) (fields : List SyncField)
    (db : RvSubscriptionDB) : MeetsSync env ListensLive hostId cid fields db := by
  induction fields generalizing hostId cid db with
  | nil => trivial
  | cons field rest ih =>
      cases field with
      | id value => exact ih _ _ _
      | cid value => exact ih _ _ _
      | sessions list =>
          unfold MeetsSync
          split
          · exact ih _ _ _
          · refine ⟨trivial, fun _ _ _ => ⟨along_of_forall ?_ _ _, fun _ _ => ih _ _ _⟩⟩
            exact fun _ _ => ⟨meetsRef_live _, fun _ hRef => listSubjects_live (isLive_sessionRef hRef)⟩

theorem meetsQuerySessions_live (names : List Text) (db : RvSubscriptionDB) :
    MeetsQuerySessions env ListensLive i names db := by
  induction names generalizing db with
  | nil => trivial
  | cons name rest ih =>
      intro sess _
      split
      · intro db₁ host _ _
        split
        · exact fun _ _ _ _ => trivial
        · exact ih db₁
      · exact ih db

theorem meetsExpiry_live (list : List RvSass3Entry) (db : RvSubscriptionDB) :
    MeetsExpiry env ListensLive db list := by
  induction list generalizing db with
  | nil => trivial
  | cons entry rest ih => exact fun _ => ⟨trivial, fun db' _ => ih db'⟩

theorem meets_listensLive (env : Env) (db : RvSubscriptionDB) (input : Input) :
    Meets env ListensLive db input := by
  cases input with
  | pub curMono pub =>
      change MeetsPub env ListensLive db curMono pub
      unfold MeetsPub
      dsimp only
      split
      · trivial
      · exact meetsAdvisory_live _ _ _ _
      · exact meetsAdvisory_live _ _ _ _
      · unfold MeetsReply
        split
        · exact fun _ _ _ => along_of_forall (fun _ _ _ _ _ _ _ => meetsRef_live _) _ _
        · intro name sess _ hSess hQuery
          apply replySubjects_live
          rw [isLive, markSubscriptions_sessionTab, hSess]
          simp [hQuery]
      · trivial
  | events curMono =>
      refine ⟨meetsExpiry_live _ _, fun _ _ => ⟨along_of_forall ?_ _ _, fun _ _ _ => trivial⟩⟩
      exact fun _ _ _ _ _ => ⟨fun _ _ _ _ _ => trivial, fun _ _ _ _ _ => meetsQuerySessions_live _ _⟩
  | sync hosts => exact along_of_forall (fun _ _ => meetsSync_live _ _ _ _) _ _
  | gc => trivial
  | unsubAll => exact along_of_forall (fun _ _ _ => trivial) _ _

/-- One host lists the session: one of its ids, which is not stopped. -/
def RvSubscriptionDB.ListedOnce (db : RvSubscriptionDB) (s : RvSessionEntry) : Prop :=
  ∃ (i : Nat) (host : RvHostEntry) (ht : UIntHashTab), db.hostTab[i]? = some host ∧
    host.state ≠ .stop ∧ host.hostId = s.hostId ∧ host.cid = s.cid ∧ host.sessHt = some ht ∧
    ht.contains s.sessionId = true ∧
    ∀ (j : Nat) (other : RvHostEntry) (t : UIntHashTab), db.hostTab[j]? = some other →
      other.sessHt = some t → t.contains s.sessionId = true → j = i

/-- In the runs that start sessions and hosts over where they are listed, the four records
of a live session agree in every state; dropping a host stops every session of its ids;
and no step hands a session to `listen_ref` that is not live. -/
theorem session_registry_agrees (env : Env) (db : RvSubscriptionDB)
    (h : (restricted env (RegistryOk env)).Reachable db) :
    (∀ name s, db.sessionTab.find? name = some s → List.TFAE [s.state ≠ .stop, s.subHt ≠ none,
      db.sessHt.find? s.sessionId = some (env.crcC name 0), db.ListedOnce s]) ∧
    (∀ i host db', db.hostTab[i]? = some host → unsubHost env db i = .ok db' → ∀ name s,
      db'.sessionTab.find? name = some s → s.hostId = host.hostId → s.cid = host.cid →
      s.state = .stop ∧ s.subHt = none) ∧
    ∀ input, Meets env ListensLive { db with outputs := [] } input := by
  have reg := reachable_registry h
  refine ⟨?_, ?_, fun input => meets_listensLive env _ input⟩
  · intro name s hs
    have hPlace : db.placeOf name = some s.place := placeOf_eq_some.mpr ⟨s, hs, rfl⟩
    have hLive : s.place.stopped = false ↔ s.state ≠ .stop := by simp [RvSessionEntry.place]
    tfae_have 1 ↔ 2 := by
      have hClosed := reg.closed name s.place hPlace
      simp only [RvSessionEntry.place] at hClosed
      by_cases hStop : s.state = .stop <;> cases hHt : s.subHt <;> simp_all
    tfae_have 1 → 3 := fun hNot =>
      (reg.indexed _ _).mpr ⟨name, s.place, hPlace, hLive.mpr hNot, rfl, rfl⟩
    tfae_have 3 → 1 := by
      intro hFind
      obtain ⟨x, p, hp, hNot, hId, -⟩ := (reg.indexed _ _).mp hFind
      obtain rfl := reg.distinct x name p s.place hp hPlace hId
      obtain rfl := Option.some.inj (hPlace.symm.trans hp)
      exact hLive.mp hNot
    tfae_have 1 → 4 := by
      intro hNot
      obtain ⟨i, roll, ht, hRoll, hAwake, hId, hCid, hTable, hFind⟩ :=
        reg.entered name s.place hPlace (hLive.mpr hNot)
      obtain ⟨host, hHost, rfl⟩ := rollOf_eq_some.mp hRoll
      refine ⟨i, host, ht, hHost, by simpa [RvHostEntry.roll] using hAwake, hId, hCid, hTable,
        Table.contains_iff.mpr ⟨_, hFind⟩, ?_⟩
      intro j other t hOther hTable' hMem
      obtain ⟨hash, hHash⟩ := Table.contains_iff.mp hMem
      have hRoll' : db.rollOf j = some other.roll := rollOf_eq_some.mpr ⟨other, hOther, rfl⟩
      obtain ⟨x, p, hp, -, hEq, -, hId', hCid'⟩ := reg.listed j other.roll t _ hash hRoll' hTable' hHash
      obtain rfl := reg.distinct x name p s.place hp hPlace hEq
      obtain rfl := Option.some.inj (hPlace.symm.trans hp)
      exact reg.slot_unique hRoll' hRoll (hId'.symm.trans hId.symm) (hCid'.symm.trans hCid.symm)
    tfae_have 4 → 1 := by
      rintro ⟨i, host, ht, hHost, -, -, -, hTable, hMem, -⟩
      obtain ⟨hash, hHash⟩ := Table.contains_iff.mp hMem
      obtain ⟨x, p, hp, hNot, hEq, -⟩ := reg.listed i host.roll ht _ hash
        (rollOf_eq_some.mpr ⟨host, hHost, rfl⟩) hTable hHash
      obtain rfl := reg.distinct x name p s.place hp hPlace hEq
      obtain rfl := Option.some.inj (hPlace.symm.trans hp)
      exact hLive.mp hNot
    tfae_finish
  · intro i host db' hHost hUnsub name s hs hId hCid
    obtain ⟨regAfter, hStopped⟩ := reg.unsubHost hUnsub
    have hPlace : db'.placeOf name = some s.place := placeOf_eq_some.mpr ⟨s, hs, rfl⟩
    have hStop := hStopped host.roll name s.place (rollOf_eq_some.mpr ⟨host, hHost, rfl⟩) hPlace hId hCid
    have hClosed := regAfter.closed name s.place hPlace
    rw [hStop] at hClosed
    exact ⟨by simpa [RvSessionEntry.place] using hStop, by simpa [RvSessionEntry.place] using hClosed⟩

/-- A session that is opened by its first advisory is entered at a new host. -/
theorem meetsRef_first (hTab : db.sessionTab = .empty) (hHt : db.hostHt = .empty) (cid : BitVec 16) :
    MeetsRef env (RegistryOk env) db cid name := by
  intro _ hostId _
  refine ⟨trivial, fun db' i hRef => ?_⟩
  refine ⟨hostRef_fresh hRef (by simp [hHt]), ?_⟩
  intro x s _ hs
  rw [(hostRef_hostsOnly hRef).sessionTab, hTab] at hs
  cases hs

theorem sampleDB_registryOk : (restricted sampleEnv (RegistryOk sampleEnv)).Reachable sampleDB := by
  have hMeets : Meets sampleEnv (RegistryOk sampleEnv) { nextGc := 131 } (.pub 5 sampleListen) :=
    fun _ _ => ⟨meetsRef_first rfl rfl _, fun _ _ => trivial⟩
  have hInit : (restricted sampleEnv (RegistryOk sampleEnv)).Reachable { nextGc := 131 } :=
    System.reachable_of_init sample_init
  exact hInit.take (.pub 5 sampleListen) sampleDB.outputs hMeets ⟨rfl, rfl⟩

theorem session_registry_agrees_listen : ∃ s, sampleDB.sessionTab.find? (text "0A000001.X") = some s ∧
    s.subHt ≠ none ∧ sampleDB.ListedOnce s := by
  obtain ⟨s, hs⟩ : ∃ s, sampleDB.sessionTab.find? (text "0A000001.X") = some s :=
    Option.isSome_iff_exists.mp (by decide)
  have hLive : s.state ≠ .stop := by
    have hAll : (sampleDB.sessionTab.find? (text "0A000001.X")).all (fun s => s.state ≠ .stop) = true := by
      decide
    simpa using (Option.all_eq_true _ _).mp hAll s hs
  have hAgree := (session_registry_agrees sampleEnv sampleDB sampleDB_registryOk).1 _ s hs
  exact ⟨s, hs, (hAgree.out 0 1).mp hLive, (hAgree.out 0 3).mp hLive⟩

/-- A session is entered, and its host is started over. -/
def sampleOverDB : RvSubscriptionDB :=
  (runInputs sampleEnv [.pub 5 sampleListen, .pub 6 sampleHostStart]).toOption.getD {}

theorem sampleOverDB_reachable : (subscriptionDB sampleEnv).Reachable sampleOverDB := by
  have hRun : runInputs sampleEnv [.pub 5 sampleListen, .pub 6 sampleHostStart] = .ok sampleOverDB := rfl
  exact reachable_of_runInputs hRun

/-- `host_start` gives a host that was not stopped a new table and leaves the sessions
of the old one live. -/
theorem session_registry_can_disagree :
    ¬ ∀ env db, (subscriptionDB env).Reachable db → ∀ name s, db.sessionTab.find? name = some s →
      (s.state ≠ .stop ↔ db.ListedOnce s) := by
  intro h
  obtain ⟨s, hs⟩ : ∃ s, sampleOverDB.sessionTab.find? (text "0A000001.X") = some s :=
    Option.isSome_iff_exists.mp (by decide)
  have hLive : s.state ≠ .stop := by
    have hAll : (sampleOverDB.sessionTab.find? (text "0A000001.X")).all (fun s => s.state ≠ .stop) = true := by
      decide
    simpa using (Option.all_eq_true _ _).mp hAll s hs
  obtain ⟨i, host, ht, hHost, -, -, -, hTable, hMem, -⟩ :=
    (h sampleEnv sampleOverDB sampleOverDB_reachable _ s hs).mp hLive
  have hEmpty : sampleOverDB.hostTab.all (fun host => host.sessHt.all fun ht => ht.entries.isEmpty) = true := by
    decide
  have hNone := List.all_eq_true.mp hEmpty host (List.mem_of_getElem? hHost)
  rw [hTable, Option.all_some, List.isEmpty_iff] at hNone
  rw [Table.contains, Table.find?, hNone] at hMem
  cases hMem

end Sassrv.SubMgr
