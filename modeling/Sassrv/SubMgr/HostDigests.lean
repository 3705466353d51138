import Mathlib.Data.Finset.Prod
import Sassrv.Lib.Digests
import Sassrv.SubMgr.Callbacks
import Sassrv.SubMgr.Registry

/-! The digest of a host, which the code keeps up pair by pair: what the operations on
sessions and subjects do to it, as the digest of the pairs that are held. -/
namespace Sassrv.SubMgr
open Partial Transition

def RvHostEntry.sums (host : RvHostEntry) : Digest 32 32 := ⟨host.subCount, host.subDigest⟩

theorem sums_digest (host : RvHostEntry) (isAdd : Bool) (h : BitVec 32) :
    (host.digest isAdd h).sums = if isAdd then host.sums.add h else host.sums.drop h := by
  cases isAdd <;> rfl

namespace RvSubscriptionDB

def sumsAt (db : RvSubscriptionDB) (i : Nat) : Option (Digest 32 32) :=
  (db.hostTab[i]?).map RvHostEntry.sums

/-- The ids of the host of a session. -/
def idsOf (db : RvSubscriptionDB) (name : Text) : Option (BitVec 32 × BitVec 16) :=
  (db.placeOf name).map fun p => (p.hostId, p.cid)

instance (db : RvSubscriptionDB) (name sub : Text) : Decidable (db.Holds name sub) :=
  decidable_of_iff ((db.sessionTab.find? name).any fun sess =>
    (db.subTab.find? sub).any fun script => sess.holds script.subjectId) (by
      simp only [Option.any_eq_true, Holds]
      constructor
      · rintro ⟨sess, hSess, script, hScript, hHolds⟩
        exact ⟨sess, script, hSess, hScript, hHolds⟩
      · rintro ⟨sess, script, hSess, hScript, hHolds⟩
        exact ⟨sess, hSess, script, hScript, hHolds⟩)

/-- What is held, session by session. -/
def heldPairs (db : RvSubscriptionDB) : Finset (Text × Text) :=
  ((db.sessionTab.entries.map Prod.fst).toFinset ×ˢ (db.subTab.entries.map Prod.fst).toFinset).filter
    fun p => db.Holds p.1 p.2

/-- What the digest of a host is of. -/
def hostPairs (db : RvSubscriptionDB) (hostId : BitVec 32) (cid : BitVec 16) : Finset (Text × Text) :=
  db.heldPairs.filter fun p => Counted p.2 ∧ db.idsOf p.1 = some (hostId, cid)

end RvSubscriptionDB

variable {env : Env} {P : RvSubscriptionDB → Call → Prop} {db db' : RvSubscriptionDB} {i : Nat}
  {name sub x y : Text} {hostId : BitVec 32} {cid : BitVec 16}

theorem mem_heldPairs : (x, y) ∈ db.heldPairs ↔ db.Holds x y := by
  simp only [RvSubscriptionDB.heldPairs, Finset.mem_filter, Finset.mem_product, List.mem_toFinset,
    List.mem_map, Prod.exists, exists_and_right, exists_eq_right, and_iff_right_iff_imp]
  rintro ⟨sess, script, hSess, hScript, -⟩
  exact ⟨⟨sess, Table.find?_eq_some.mp hSess⟩, script, Table.find?_eq_some.mp hScript⟩

theorem mem_hostPairs : (x, y) ∈ db.hostPairs hostId cid ↔
    db.Holds x y ∧ Counted y ∧ db.idsOf x = some (hostId, cid) := by
  rw [RvSubscriptionDB.hostPairs, Finset.mem_filter, mem_heldPairs]

theorem hostPairs_eq (hHolds : ∀ x y, db'.Holds x y ↔ db.Holds x y)
    (hIds : ∀ x y, db.Holds x y → db'.idsOf x = db.idsOf x) :
    db'.hostPairs hostId cid = db.hostPairs hostId cid := by
  ext ⟨x, y⟩
  rw [mem_hostPairs, mem_hostPairs, hHolds]
  refine and_congr_right fun hHeld => ?_
  rw [hIds x y hHeld]

theorem heldPairs_card_le (hHolds : ∀ x y, db'.Holds x y → db.Holds x y) :
    db'.heldPairs.card ≤ db.heldPairs.card := by
  apply Finset.card_le_card
  rintro ⟨x, y⟩ hMem
  exact mem_heldPairs.mpr (hHolds x y (mem_heldPairs.mp hMem))

def pairDigest (env : Env) (pairs : Finset (Text × Text)) : Digest 32 32 :=
  Digest.of (fun p => pairHash env p.1 p.2) pairs

/-- Every host that is not stopped has the digest of the pairs of its sessions. -/
def Digested (env : Env) (db : RvSubscriptionDB) : Prop :=
  ∀ i roll, db.rollOf i = some roll → roll.stopped = false →
    db.sumsAt i = some (pairDigest env (db.hostPairs roll.hostId roll.cid))

/-- The same pairs and digests at the hosts that are left. -/
structure SumsKept (db db' : RvSubscriptionDB) : Prop where
  sums : ∀ i, db'.sumsAt i = db.sumsAt i
  rolls : ∀ i roll', db'.rollOf i = some roll' → roll'.stopped = false → ∃ roll,
    db.rollOf i = some roll ∧ roll.stopped = false ∧ roll.hostId = roll'.hostId ∧ roll.cid = roll'.cid
  holds : ∀ x y, db'.Holds x y ↔ db.Holds x y
  ids : ∀ x y, db.Holds x y → db'.idsOf x = db.idsOf x

theorem Digested.of_kept (dig : Digested env db) (h : SumsKept db db') : Digested env db' := by
  intro i roll' hRoll' hAwake'
  obtain ⟨roll, hRoll, hAwake, hId, hCid⟩ := h.rolls i roll' hRoll' hAwake'
  rw [h.sums, hostPairs_eq h.holds h.ids, dig i roll hRoll hAwake, hId, hCid]

theorem SumsKept.of_rolls (hKept : RollsKept db db') (hSums : ∀ i, db'.sumsAt i = db.sumsAt i)
    (hHolds : ∀ x y, db'.Holds x y ↔ db.Holds x y) : SumsKept db db' where
  sums := hSums
  rolls i roll' hRoll' hAwake := ⟨roll', hKept.rolls ▸ hRoll', hAwake, rfl, rfl⟩
  holds := hHolds
  ids x _ _ := by rw [RvSubscriptionDB.idsOf, RvSubscriptionDB.idsOf, hKept.places]

theorem sumsAt_of_hostTab (h : db'.hostTab = db.hostTab) (i : Nat) : db'.sumsAt i = db.sumsAt i := by
  rw [RvSubscriptionDB.sumsAt, RvSubscriptionDB.sumsAt, h]

/-! What `host_digest` does. -/

theorem sumsAt_modifyHost (db : RvSubscriptionDB) (i : Nat) (f : RvHostEntry → RvHostEntry) (j : Nat) :
    (db.modifyHost i f).sumsAt j =
      if i = j then (db.hostTab[j]?).map fun host => (f host).sums else db.sumsAt j := by
  simp only [RvSubscriptionDB.sumsAt, RvSubscriptionDB.modifyHost, List.getElem?_modify]
  cases db.hostTab[j]? with
  | none => simp
  | some host => by_cases hij : i = j <;> simp [hij]

theorem hostDigest_sums (env : Env) (db : RvSubscriptionDB) (name : Text) (sess : RvSessionEntry)
    (sub : Text) (isAdd : Bool) (hFind : findHost env db sess.hostId sess.cid = some i) (j : Nat) :
    (hostDigest env db name sess sub isAdd).sumsAt j =
      if j = i ∧ Counted sub then (db.sumsAt j).map fun d =>
        if isAdd then d.add (pairHash env name sub) else d.drop (pairHash env name sub)
      else db.sumsAt j := by
  unfold hostDigest
  by_cases hCounted : Counted sub
  · rw [if_pos hCounted, hFind]
    dsimp only
    rw [sumsAt_modifyHost]
    by_cases hj : j = i
    · subst hj
      rw [if_pos rfl, if_pos ⟨rfl, hCounted⟩, RvSubscriptionDB.sumsAt, Option.map_map]
      congr 1
      funext host
      exact sums_digest host isAdd _
    · rw [if_neg (Ne.symm hj), if_neg fun h => hj h.1]
  · rw [if_neg hCounted, if_neg fun h => hCounted h.2]

/-- The keys of the hosts lead to their slots. -/
def Keyed (env : Env) (db : RvSubscriptionDB) : Prop :=
  ∀ i roll, db.rollOf i = some roll → db.hostHt.find? (hashHostId env roll.hostId roll.cid) = some i

theorem Keyed.slot_unique (keyed : Keyed env db) {i j : Nat} {roll roll' : Roll}
    (hRoll : db.rollOf i = some roll) (hRoll' : db.rollOf j = some roll')
    (hId : roll.hostId = roll'.hostId) (hCid : roll.cid = roll'.cid) : i = j := by
  have hOne := keyed i roll hRoll
  rw [hId, hCid, keyed j roll' hRoll'] at hOne
  exact (Option.some.inj hOne).symm

theorem Keyed.findHost (keyed : Keyed env db) {roll : Roll} (hRoll : db.rollOf i = some roll) :
    findHost env db roll.hostId roll.cid = some i := by
  obtain ⟨host, hHost, -⟩ := rollOf_eq_some.mp hRoll
  have hLt := (List.getElem?_eq_some_iff.mp hHost).1
  rw [SubMgr.findHost, keyed i roll hRoll]
  simp [Option.filter, hLt]

/-- Some subjects of one session leave its host. -/
theorem Digested.leave {roll : Roll} (dig : Digested env db) (keyed : Keyed env db) (subs : List Text)
    (few : db.heldPairs.card < 2 ^ 32) (hRoll : db.rollOf i = some roll)
    (hIds : db.idsOf name = some (roll.hostId, roll.cid)) (hRolls : db'.rollOf = db.rollOf)
    (hPlaces : db'.idsOf = db.idsOf) (hNodup : subs.Nodup) (hHeld : ∀ y ∈ subs, db.Holds name y)
    (hAfter : ∀ x y, db'.Holds x y ↔ ¬ (x = name ∧ y ∈ subs) ∧ db.Holds x y)
    (hSums : ∀ j, db'.sumsAt j = if j = i then (db.sumsAt j).map fun d =>
        (subs.filter fun y => Counted y).foldl (fun d y => d.drop (pairHash env name y)) d
      else db.sumsAt j) : Digested env db' := by
  intro j roll' hRoll' hAwake
  rw [hRolls] at hRoll'
  rw [hSums]
  by_cases hj : j = i
  · subst hj
    obtain rfl := Option.some.inj (hRoll.symm.trans hRoll')
    have hGone : ∀ p ∈ (subs.filter fun y => Counted y).map fun y => (name, y),
        p ∈ db.hostPairs roll.hostId roll.cid := by
      intro p hp
      obtain ⟨y, hy, rfl⟩ := List.mem_map.mp hp
      obtain ⟨hIn, hCounted⟩ := List.mem_filter.mp hy
      exact mem_hostPairs.mpr ⟨hHeld y hIn, of_decide_eq_true hCounted, hIds⟩
    have hPairs : ((subs.filter fun y => Counted y).map fun y => (name, y)).Nodup :=
      (hNodup.filter _).map fun _ _ hEq => (Prod.mk.inj hEq).2
    have hFew : (db.hostPairs roll.hostId roll.cid).card < 2 ^ 32 :=
      (Finset.card_filter_le _ _).trans_lt few
    have hDrop := Digest.of_sdiff (f := fun p : Text × Text => pairHash env p.1 p.2) _ hPairs hGone hFew
    have hLeft : db'.hostPairs roll.hostId roll.cid = db.hostPairs roll.hostId roll.cid \
        ((subs.filter fun y => Counted y).map fun y => (name, y)).toFinset := by
      ext ⟨x, y⟩
      rw [Finset.mem_sdiff, mem_hostPairs, mem_hostPairs, hAfter, hPlaces, List.mem_toFinset, List.mem_map]
      constructor
      · rintro ⟨⟨hNot, hHolds⟩, hCounted, hAt⟩
        refine ⟨⟨hHolds, hCounted, hAt⟩, ?_⟩
        rintro ⟨z, hz, hEq⟩
        obtain ⟨rfl, rfl⟩ := Prod.mk.inj hEq
        exact hNot ⟨rfl, (List.mem_filter.mp hz).1⟩
      · rintro ⟨⟨hHolds, hCounted, hAt⟩, hNot⟩
        refine ⟨⟨?_, hHolds⟩, hCounted, hAt⟩
        rintro ⟨rfl, hy⟩
        exact hNot ⟨y, List.mem_filter.mpr ⟨hy, decide_eq_true hCounted⟩, rfl⟩
    rw [if_pos rfl, dig j roll hRoll hAwake, Option.map_some, hLeft]
    rw [List.foldl_map] at hDrop
    exact congrArg some hDrop
  · rw [if_neg hj, dig j roll' hRoll' hAwake]
    congr 2
    ext ⟨x, y⟩
    rw [mem_hostPairs, mem_hostPairs, hAfter, hPlaces]
    refine and_congr_left fun hAt => (and_iff_right ?_).symm
    rintro ⟨rfl, -⟩
    obtain ⟨hId, hCid⟩ := Prod.mk.inj (Option.some.inj (hIds.symm.trans hAt.2))
    exact hj (keyed.slot_unique hRoll' hRoll hId.symm hCid.symm)

/-- A subject that one session did not hold. -/
theorem Digested.arrive {roll : Roll} (dig : Digested env db) (keyed : Keyed env db)
    (hRoll : db.rollOf i = some roll) (hIds : db.idsOf name = some (roll.hostId, roll.cid))
    (hRolls : db'.rollOf = db.rollOf) (hPlaces : db'.idsOf = db.idsOf) (hNew : ¬ db.Holds name sub)
    (hAfter : ∀ x y, db'.Holds x y ↔ x = name ∧ y = sub ∨ db.Holds x y)
    (hSums : ∀ j, db'.sumsAt j = if j = i ∧ Counted sub then (db.sumsAt j).map fun d =>
      d.add (pairHash env name sub) else db.sumsAt j) : Digested env db' := by
  intro j roll' hRoll' hAwake
  rw [hRolls] at hRoll'
  rw [hSums]
  by_cases hj : j = i ∧ Counted sub
  · obtain ⟨rfl, hCounted⟩ := hj
    obtain rfl := Option.some.inj (hRoll.symm.trans hRoll')
    have hMore : db'.hostPairs roll.hostId roll.cid =
        Insert.insert (name, sub) (db.hostPairs roll.hostId roll.cid) := by
      ext ⟨x, y⟩
      rw [Finset.mem_insert, mem_hostPairs, mem_hostPairs, hAfter, hPlaces, Prod.mk_inj]
      constructor
      · rintro ⟨hPair | hHolds, hRest⟩
        · exact .inl hPair
        · exact .inr ⟨hHolds, hRest⟩
      · rintro (⟨rfl, rfl⟩ | ⟨hHolds, hRest⟩)
        · exact ⟨.inl ⟨rfl, rfl⟩, hCounted, hIds⟩
        · exact ⟨.inr hHolds, hRest⟩
    have hFresh : (name, sub) ∉ db.hostPairs roll.hostId roll.cid := fun hMem =>
      hNew (mem_hostPairs.mp hMem).1
    rw [if_pos ⟨rfl, hCounted⟩, dig j roll hRoll hAwake, Option.map_some, hMore]
    exact congrArg some (Digest.of_insert hFresh).symm
  · rw [if_neg hj, dig j roll' hRoll' hAwake]
    congr 2
    ext ⟨x, y⟩
    rw [mem_hostPairs, mem_hostPairs, hAfter, hPlaces]
    refine and_congr_left fun hAt => (or_iff_right ?_).symm
    rintro ⟨rfl, rfl⟩
    obtain ⟨hId, hCid⟩ := Prod.mk.inj (Option.some.inj (hIds.symm.trans hAt.2))
    exact hj ⟨keyed.slot_unique hRoll' hRoll hId.symm hCid.symm, hAt.1⟩

/-- A host starts with no pairs, and its sessions hold none. -/
theorem Digested.renew (dig : Digested env db) {f : Roll} (hRoll : db'.rollOf i = some f)
    (hZero : db'.sumsAt i = some ⟨0, 0⟩) (hRolls : ∀ j, j ≠ i → db'.rollOf j = db.rollOf j)
    (hSums : ∀ j, j ≠ i → db'.sumsAt j = db.sumsAt j) (hHolds : ∀ x y, db'.Holds x y ↔ db.Holds x y)
    (hIds : db'.idsOf = db.idsOf) (hNone : db.hostPairs f.hostId f.cid = ∅) :
    Digested env db' := by
  intro j roll' hRoll' hAwake
  have hPairs : ∀ hostId cid, db'.hostPairs hostId cid = db.hostPairs hostId cid :=
    fun _ _ => hostPairs_eq hHolds fun x _ _ => congrFun hIds x
  rw [hPairs]
  by_cases hj : j = i
  · subst hj
    obtain rfl := Option.some.inj (hRoll.symm.trans hRoll')
    rw [hZero, hNone]
    rfl
  · rw [hRolls j hj] at hRoll'
    rw [hSums j hj]
    exact dig j roll' hRoll' hAwake

theorem sums_sameHost {host host' : RvHostEntry} (h : SameHost host host') : host'.sums = host.sums := by
  rw [RvHostEntry.sums, RvHostEntry.sums, h.subCount, h.subDigest]

theorem touchHost_sums (db : RvSubscriptionDB) (i : Nat) {f : RvHostEntry → RvHostEntry}
    (hSame : ∀ host, SameHost host (f host)) (j : Nat) : (db.modifyHost i f).sumsAt j = db.sumsAt j := by
  rw [sumsAt_modifyHost]
  split
  · exact congrArg (Option.map · db.hostTab[j]?) (funext fun host => sums_sameHost (hSame host))
  · rfl

theorem idsOf_of_sessionTab (h : db'.sessionTab = db.sessionTab) : db'.idsOf = db.idsOf := by
  funext x
  rw [RvSubscriptionDB.idsOf, RvSubscriptionDB.idsOf, RvSubscriptionDB.placeOf, h]
  rfl

theorem idsOf_of_rolls (h : RollsKept db db') : db'.idsOf = db.idsOf := by
  funext x
  rw [RvSubscriptionDB.idsOf, RvSubscriptionDB.idsOf, h.places]

/-! The operations that move subjects. -/

theorem holdSubject_sums (env : Env) (db : RvSubscriptionDB) (name : Text) (sess : RvSessionEntry)
    (ht : UIntHashTab) (sub : Text) (script : RvSubscription)
    (hFind : findHost env db sess.hostId sess.cid = some i) (j : Nat) :
    (holdSubject env db name sess ht sub script).1.sumsAt j = if j = i ∧ Counted sub then
      (db.sumsAt j).map fun d => d.add (pairHash env name sub) else db.sumsAt j := by
  have hDigest := hostDigest_sums env ((db.modifySession name fun s =>
    s.setSubHt (ht.insert script.subjectId (env.crcC sub 0))).modifySub sub fun s =>
      s.addRef sess.hasDaemon) name sess sub true hFind j
  unfold holdSubject
  dsimp only
  split <;> exact hDigest

theorem releaseSubject_sums (env : Env) (db : RvSubscriptionDB) (name : Text) (sess : RvSessionEntry)
    (ht : UIntHashTab) (sub : Text) (script : RvSubscription)
    (hFind : findHost env db sess.hostId sess.cid = some i) (j : Nat) :
    (releaseSubject env db name sess ht sub script).1.sumsAt j = if j = i ∧ Counted sub then
      (db.sumsAt j).map fun d => d.drop (pairHash env name sub) else db.sumsAt j := by
  have hDigest := hostDigest_sums env ((db.modifySession name fun s =>
    s.setSubHt (ht.erase script.subjectId)).modifySub sub fun s => s.dropRef sess.hasDaemon)
      name sess sub false hFind j
  unfold releaseSubject
  dsimp only
  split
  · exact hDigest
  · split
    · refine (sumsAt_of_hostTab ?_ j).trans hDigest
      unfold queryRv7Session
      split <;> rfl
    · exact hDigest

theorem unsubSubject_sums (env : Env) (name : Text) (sess : RvSessionEntry) {id : BitVec 32}
    (hId : db.idOf sub = some id) (hFind : findHost env db sess.hostId sess.cid = some i) (j : Nat) :
    (unsubSubject env name sess db sub).sumsAt j = if j = i ∧ Counted sub then
      (db.sumsAt j).map fun d => d.drop (pairHash env name sub) else db.sumsAt j := by
  obtain ⟨script, hScript, -⟩ := Option.map_eq_some_iff.mp hId
  refine Eq.trans (sumsAt_of_hostTab ?_ j) (hostDigest_sums env db name sess sub false hFind j)
  have hNotify : ∀ (db₁ : RvSubscriptionDB) out, (db₁.notify env out).hostTab = db₁.hostTab := by
    intro db₁ out
    unfold RvSubscriptionDB.notify
    split <;> rfl
  unfold unsubSubject
  rw [hScript]
  dsimp only
  split
  · exact hNotify _ _
  · refine (hNotify _ _).trans ?_
    split
    · unfold queryRv7Session
      split <;> rfl
    · rfl

theorem findHost_kept (h : SlotsKept db db') (hostId : BitVec 32) (cid : BitVec 16) :
    findHost env db' hostId cid = findHost env db hostId cid := by
  rw [findHost, findHost, h.hostHt, h.length]

theorem unsubSubjects_sums (env : Env) (name : Text) (sess : RvSessionEntry) (subs : List Text)
    (hKnown : ∀ y ∈ subs, ∃ id, db.idOf y = some id)
    (hFind : findHost env db sess.hostId sess.cid = some i) (j : Nat) :
    (subs.foldl (unsubSubject env name sess) db).sumsAt j = if j = i then (db.sumsAt j).map fun d =>
      (subs.filter fun y => Counted y).foldl (fun d y => d.drop (pairHash env name y)) d
    else db.sumsAt j := by
  induction subs generalizing db with
  | nil => simp
  | cons sub rest ih =>
      obtain ⟨id, hId⟩ := hKnown sub List.mem_cons_self
      have hIds := (unsubSubject_kept env name sess db sub).ids
      have hRest := ih (fun y hy => by
        rw [hIds]
        exact hKnown y (List.mem_cons_of_mem sub hy))
        ((findHost_kept (unsubSubject_digestsOnly env name sess db sub).slotsKept _ _).trans hFind)
      rw [List.foldl_cons, hRest, unsubSubject_sums env name sess hId hFind j]
      by_cases hj : j = i
      · by_cases hCounted : Counted sub
        · simp [hj, hCounted, Function.comp_def]
        · simp [hj, hCounted]
      · simp [hj]

/-- Every session with a table has a host of its ids. -/
def Housed (db : RvSubscriptionDB) : Prop :=
  ∀ x ht, db.tableOf x = some ht → ∃ i roll, db.rollOf i = some roll ∧
    db.idsOf x = some (roll.hostId, roll.cid)

theorem idsOf_of_session {s : RvSessionEntry} (h : db.sessionTab.find? name = some s) :
    db.idsOf name = some (s.hostId, s.cid) := by
  simp [RvSubscriptionDB.idsOf, RvSubscriptionDB.placeOf, h, RvSessionEntry.place]

theorem Registry.housed (reg : Registry env db) : Housed db := by
  intro x ht hTable
  obtain ⟨s, hs, hHt⟩ := Option.bind_eq_some_iff.mp hTable
  have hPlace : db.placeOf x = some s.place := placeOf_eq_some.mpr ⟨s, hs, rfl⟩
  have hLive : s.place.stopped = false := by
    rw [← reg.closed x s.place hPlace]
    simp [RvSessionEntry.place, hHt]
  obtain ⟨i, roll, -, hRoll, -, hId, hCid, -⟩ := reg.entered x s.place hPlace hLive
  refine ⟨i, roll, hRoll, ?_⟩
  rw [idsOf_of_session hs, hId, hCid]
  rfl

/-- What the loops that drop sessions keep. -/
structure Balanced (env : Env) (db : RvSubscriptionDB) : Prop where
  linked : Linked env db
  traced : Traced env db
  keyed : Keyed env db
  housed : Housed db
  few : db.heldPairs.card < 2 ^ 32
  digested : Digested env db

theorem Balanced.unsubSession (bal : Balanced env db) (h : unsubSession env db name = .ok db') :
    Balanced env db' := by
  have hLeaves := unsubSession_leaves bal.traced h
  have hPlaces : db'.idsOf = db.idsOf := by
    funext x
    rw [RvSubscriptionDB.idsOf, RvSubscriptionDB.idsOf, hLeaves.places]
    split
    · cases db.placeOf x <;> rfl
    · rfl
  obtain ⟨linked', -, hHolds⟩ := unsubSession_holdings bal.linked h
  refine ⟨linked', hLeaves.traced bal.traced, ?_, ?_, ?_, ?_⟩
  · rw [Keyed, hLeaves.rolls, hLeaves.hostHt]
    exact bal.keyed
  · intro x ht hTable
    rw [unsubSession_tables h] at hTable
    split at hTable
    · cases hTable
    · rw [hLeaves.rolls, hPlaces]
      exact bal.housed x ht hTable
  · exact (heldPairs_card_le fun x y hAfter => ((hHolds x y).mp hAfter).2).trans_lt bal.few
  · simp only [SubMgr.unsubSession, bind_eq_ok, pure_eq_ok, sessionAt_eq_ok] at h
    obtain ⟨sess, hSess, rfl⟩ := h
    have hSums : ∀ j, (closeSession ((subjects env db sess.subHt).foldl (unsubSubject env name sess) db)
        name sess.sessionId).sumsAt j =
          ((subjects env db sess.subHt).foldl (unsubSubject env name sess) db).sumsAt j := fun _ => rfl
    cases hHt : sess.subHt with
    | none =>
        rw [hHt] at hHolds hSums hLeaves hPlaces
        refine bal.digested.of_kept ⟨fun j => ?_, ?_, fun x y => ?_, ?_⟩
        · rw [hSums]
          rfl
        · exact fun j roll hRoll hAwake => ⟨roll, hLeaves.rolls ▸ hRoll, hAwake, rfl, rfl⟩
        · refine (hHolds x y).trans (and_iff_right_of_imp ?_)
          rintro hHeld rfl
          obtain ⟨ht, id, hTable, -⟩ := holds_iff_tables.mp hHeld
          simp [RvSubscriptionDB.tableOf, hSess, hHt] at hTable
        · exact fun x _ _ => congrFun hPlaces x
    | some ht =>
        have hTable : db.tableOf name = some ht := by simp [RvSubscriptionDB.tableOf, hSess, hHt]
        obtain ⟨i, roll, hRoll, hIds⟩ := bal.housed name ht hTable
        obtain ⟨hId, hCid⟩ := Prod.mk.inj (Option.some.inj ((idsOf_of_session hSess).symm.trans hIds))
        have hFind : findHost env db sess.hostId sess.cid = some i := by
          rw [hId, hCid]
          exact bal.keyed.findHost hRoll
        have hHeld : ∀ y, y ∈ subjects env db (some ht) ↔ db.Holds name y :=
          fun y => (bal.linked.mem_subjects hTable).1
        rw [hHt] at hHolds hSums hLeaves hPlaces
        refine bal.digested.leave bal.keyed _ bal.few hRoll hIds hLeaves.rolls hPlaces
          (bal.linked.mem_subjects (y := []) hTable).2 (fun y hy => (hHeld y).mp hy) (fun x y => ?_)
          fun j => ?_
        · rw [hHolds]
          refine and_congr_left fun hBefore => not_congr ?_
          exact ⟨fun hx => ⟨hx, (hHeld y).mpr (hx ▸ hBefore)⟩, fun hx => hx.1⟩
        · rw [hSums]
          exact unsubSubjects_sums env name sess _ (fun y hy => by
            obtain ⟨-, id, -, hId, -⟩ := holds_iff_tables.mp ((hHeld y).mp hy)
            exact ⟨id, hId⟩) hFind j

theorem Balanced.unsubSessions {names : List Text} (bal : Balanced env db)
    (h : names.foldlM (SubMgr.unsubSession env) db = .ok db') : Balanced env db' := by
  induction names generalizing db with
  | nil =>
      cases h
      exact bal
  | cons name rest ih =>
      rw [List.foldlM_cons, bind_eq_ok] at h
      obtain ⟨db₁, hFirst, hRest⟩ := h
      exact ih (bal.unsubSession hFirst) hRest

end Sassrv.SubMgr
