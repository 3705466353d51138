import Sassrv.Daemon.Digest
import Sassrv.SubMgr.Conditions
import Sassrv.SubMgr.HostDigests

/-! Over the turns of a run the digest of a host stays that of the pairs that its sessions
hold. The publisher computes the digest of its pairs anew, so a status with that of the
same pairs asks for nothing. -/
namespace Sassrv.SubMgr
open Partial Transition

variable {env : Env} {db db' : RvSubscriptionDB} {i : Nat} {name sub x y : Text}
  {hostId : BitVec 32} {cid : BitVec 16}

/-! What keeps the slots of the hosts. -/

theorem notify_hostTab (env : Env) (db : RvSubscriptionDB) (out : Output) :
    (db.notify env out).hostTab = db.hostTab := by
  unfold RvSubscriptionDB.notify
  split <;> rfl

theorem sass3_hostTab {script : RvSubscription} {app : SassApp} {flags : BitVec 16}
    {entry : RvSass3Entry} (h : sass3 env db sub script app flags = .ok (db', entry)) :
    db'.hostTab = db.hostTab := by
  unfold sass3 at h
  dsimp only at h
  split at h
  · split at h
    · cases h
    · simp only [sass3Known, Except.ok.injEq] at h
      split at h
      · cases h
        rfl
      · split at h <;> cases h <;> rfl
  · simp only [sass3New, Except.ok.injEq] at h
    split at h <;> cases h <;> rfl

theorem expireEntry_hostTab {entry : RvSass3Entry} (h : expireEntry env db entry = .ok db') :
    db'.hostTab = db.hostTab := by
  unfold expireEntry at h
  dsimp only at h
  split at h
  · cases h
    rfl
  · simp only [bind_eq_ok] at h
    obtain ⟨script, -, h⟩ := h
    split at h
    · cases h
      rfl
    · split at h <;> cases h
      rfl

theorem unlinkSession_sums (h : unlinkSession db i name = .ok db') : SumsKept db db' := by
  obtain ⟨roll, ht, p, ht', hRoll, -, -, -, hRoll', hRolls, hPlaces, -⟩ := unlinkSession_rolls h
  have hHolds := (HoldingsKept.of_quiet (unlinkSession_quiet h))
  refine ⟨fun j => ?_, fun j roll' hj hAwake => ?_, fun _ _ => hHolds.holds, fun x _ _ => ?_⟩
  · simp only [unlinkSession, bind_eq_ok] at h
    obtain ⟨host, -, sess, -, h⟩ := h
    split at h
    · cases h
    · split at h
      · cases h
        refine (sumsAt_modifyHost db i _ j).trans ?_
        split <;> rfl
      · cases h
        rfl
  · by_cases hji : j = i
    · subst hji
      obtain rfl := Option.some.inj (hRoll'.symm.trans hj)
      exact ⟨roll, hRoll, hAwake, rfl, rfl⟩
    · exact ⟨roll', hRolls j hji ▸ hj, hAwake, rfl, rfl⟩
  · rw [RvSubscriptionDB.idsOf, RvSubscriptionDB.idsOf, hPlaces]

/-- A session that is entered holds nothing. -/
theorem enterSession_sums (linked : Linked env db) {isStart : Bool} {user : Option Text}
    {g : RvSessionEntry → RvSessionEntry} (hNew : isLive db name = false)
    (hSame : ∀ s, SameSession s (g s)) (hState : ∀ s, (g s).state = .stop → s.state = .stop)
    (h : addSession env ((startEntry db name hostId cid isStart user).modifySession name g) i name =
      .ok db') : SumsKept db db' := by
  obtain ⟨-, -, -, hHolds⟩ := enterSession_holdings linked hNew hSame hState h
  have hSlots : ∃ f : RvHostEntry → RvHostEntry, (∀ host, (f host).sums = host.sums ∧
      (f host).roll.stopped = host.roll.stopped ∧ (f host).hostId = host.hostId ∧
      (f host).cid = host.cid) ∧ ∀ j, db'.hostTab[j]? =
        if i = j then (db.hostTab[j]?).map f else db.hostTab[j]? := by
    simp only [addSession, bind_eq_ok] at h
    obtain ⟨host, -, sess, -, h⟩ := h
    split at h
    · cases h
    · split at h
      · cases h
        exact ⟨id, fun _ => ⟨rfl, rfl, rfl, rfl⟩, fun j => by simp [startEntry, RvSubscriptionDB.modifySession]⟩
      · next ht _ _ =>
          cases h
          refine ⟨fun host => { host with
            sessHt := some (ht.insert sess.sessionId (env.crcC name 0))
            rv7SessId := if sess.hasDaemon then sess.sessionId else host.rv7SessId },
            fun _ => ⟨rfl, rfl, rfl, rfl⟩, fun j => ?_⟩
          simp only [RvSubscriptionDB.modifyHost, List.getElem?_modify, startEntry,
            RvSubscriptionDB.modifySession]
          cases db.hostTab[j]? with
          | none => simp
          | some host => by_cases hij : i = j <;> simp [hij]
  obtain ⟨f, hf, hTab⟩ := hSlots
  refine ⟨fun j => ?_, fun j roll' hj hAwake => ?_, hHolds, fun x y hHeld => ?_⟩
  · rw [RvSubscriptionDB.sumsAt, RvSubscriptionDB.sumsAt, hTab]
    cases db.hostTab[j]? with
    | none => simp
    | some host => by_cases hij : i = j <;> simp [hij, (hf host).1]
  · obtain ⟨host', hHost', rfl⟩ := rollOf_eq_some.mp hj
    rw [hTab] at hHost'
    split at hHost'
    · obtain ⟨host, hHost, rfl⟩ := Option.map_eq_some_iff.mp hHost'
      obtain ⟨-, hStopped, hId, hCid⟩ := hf host
      exact ⟨host.roll, rollOf_eq_some.mpr ⟨host, hHost, rfl⟩, hStopped ▸ hAwake, hId.symm, hCid.symm⟩
    · exact ⟨host'.roll, rollOf_eq_some.mpr ⟨host', hHost', rfl⟩, hAwake, rfl, rfl⟩
  · have hNe : x ≠ name := by
      rintro rfl
      obtain ⟨ht, id, hTable, -⟩ := holds_iff_tables.mp hHeld
      obtain ⟨s, hs, hHt⟩ := Option.bind_eq_some_iff.mp hTable
      have hStop : s.state = .stop := by simpa [isLive, hs] using hNew
      rw [linked.stopped x ⟨s, hs, hStop⟩] at hTable
      cases hTable
    have hTab := addSession_sessionTab h
    simp only [RvSubscriptionDB.idsOf, RvSubscriptionDB.placeOf, hTab, RvSubscriptionDB.modifySession,
      startEntry, Table.find?_modify, Table.find?_insert, if_neg hNe, Option.map_id']

theorem called_digested {out : Output} (few : db.heldPairs.card < 2 ^ 32) (dig : Digested env db) :
    (db.notify env out).heldPairs.card < 2 ^ 32 ∧ Digested env (db.notify env out) := by
  have hSums : SumsKept db (db.notify env out) := .of_rolls (notify_rollsKept env db out)
    (sumsAt_of_hostTab (notify_hostTab env db out)) fun _ _ => (notify_kept env db out).holds
  exact ⟨(heldPairs_card_le fun x y => (hSums.holds x y).mp).trans_lt few, dig.of_kept hSums⟩

/-! The turns. -/

/-- A session holds a subject more only while fewer than 2^32 - 1 pairs are held. -/
def Roomy (db : RvSubscriptionDB) : Call → Prop
  | .listen _ _ => db.heldPairs.card + 1 < 2 ^ 32
  | _ => True

/-- The conditions on runs under which digests are kept right. -/
def DigestOk (env : Env) (db : RvSubscriptionDB) (call : Call) : Prop :=
  RegistryOk env db call ∧ Roomy db call

structure Summed (env : Env) (db : RvSubscriptionDB) : Prop where
  reg : Registry env db
  linked : Linked env db
  few : db.heldPairs.card < 2 ^ 32
  digested : Digested env db

namespace Summed

theorem balanced (sum : Summed env db) : Balanced env db :=
  ⟨sum.linked, sum.reg.traced, sum.reg.keyed, sum.reg.housed, sum.few, sum.digested⟩

theorem kept (sum : Summed env db) (h : SumsKept db db') :
    db'.heldPairs.card < 2 ^ 32 ∧ Digested env db' :=
  ⟨(heldPairs_card_le fun x y => (h.holds x y).mp).trans_lt sum.few, sum.digested.of_kept h⟩

theorem still (sum : Summed env db) (hRolls : RollsKept db db') (hTab : db'.hostTab = db.hostTab)
    (hHolds : ∀ x y, db'.Holds x y ↔ db.Holds x y) : db'.heldPairs.card < 2 ^ 32 ∧ Digested env db' :=
  sum.kept (.of_rolls hRolls (sumsAt_of_hostTab hTab) hHolds)

/-- No pair is held for a host that lists no session. -/
theorem no_pairs (sum : Summed env db) (hNone : ∀ j roll ht, db.rollOf j = some roll →
    roll.stopped = false → roll.hostId = hostId → roll.cid = cid → roll.sessHt = some ht →
    ∀ id, ht.find? id = none) : db.hostPairs hostId cid = ∅ := by
  apply Finset.eq_empty_iff_forall_notMem.mpr
  rintro ⟨x, y⟩ hMem
  obtain ⟨hHolds, -, hIds⟩ := mem_hostPairs.mp hMem
  obtain ⟨ht, id, hTable, -⟩ := holds_iff_tables.mp hHolds
  obtain ⟨s, hs, hHt⟩ := Option.bind_eq_some_iff.mp hTable
  have hPlace : db.placeOf x = some s.place := placeOf_eq_some.mpr ⟨s, hs, rfl⟩
  have hLive : s.place.stopped = false := by
    rw [← sum.reg.closed x s.place hPlace]
    simp [RvSessionEntry.place, hHt]
  obtain ⟨j, roll, table, hRoll, hAwake, hId, hCid, hTab, hFind⟩ := sum.reg.entered x s.place hPlace hLive
  obtain ⟨hSame, hSame'⟩ := Prod.mk.inj (Option.some.inj ((idsOf_of_session hs).symm.trans hIds))
  rw [hNone j roll table hRoll hAwake (hId.trans hSame) (hCid.trans hSame') hTab] at hFind
  cases hFind

theorem hostRef (sum : Summed env db) {isStatus : Bool}
    (h : hostRef env db hostId cid isStatus = .ok (db', i)) :
    db'.heldPairs.card < 2 ^ 32 ∧ Digested env db' := by
  have hQuiet := HoldingsKept.of_quiet (hostRef_hostsOnly h).quiet
  have hIds := idsOf_of_sessionTab (hostRef_hostsOnly h).sessionTab
  refine ⟨(heldPairs_card_le fun x y => hQuiet.holds.mp).trans_lt sum.few, ?_⟩
  have hStart : (RvHostEntry.start hostId cid db.curMono false isStatus).sums = ⟨0, 0⟩ := rfl
  rcases hostRef_cases h with ⟨hNone, hFree, rfl, rfl⟩ | ⟨host, hFind, hHost, hStop, rfl⟩ |
    ⟨host, f, -, hHost, hNot, hSame, hNot', rfl⟩
  · have hLe : db.firstFreeHost ≤ db.hostTab.length := by
      rcases hFree with hLast | hStop
      · exact hLast.le
      · obtain ⟨host, hHost, -⟩ := Option.map_eq_some_iff.mp hStop
        exact (List.getElem?_eq_some_iff.mp hHost).1.le
    have hSlots := fun j => getElem?_putHost (i := db.firstFreeHost) { db with
      firstFreeHost := db.firstFreeHost + 1
      hosts := { db.hosts with active := db.hosts.active + 1 }
      hostHt := db.hostHt.insert (hashHostId env hostId cid) db.firstFreeHost }
      (.start hostId cid db.curMono false isStatus) hLe j
    refine sum.digested.renew (i := db.firstFreeHost) (f := ⟨false, hostId, cid, some .empty⟩)
      ?_ ?_ ?_ ?_ (fun _ _ => hQuiet.holds) hIds ?_
    · rw [RvSubscriptionDB.rollOf, hSlots, if_pos rfl, Option.map_some, start_roll]
    · rw [RvSubscriptionDB.sumsAt, hSlots, if_pos rfl, Option.map_some, hStart]
    · intro j hj
      rw [RvSubscriptionDB.rollOf, hSlots, if_neg hj]
      rfl
    · intro j hj
      rw [RvSubscriptionDB.sumsAt, hSlots, if_neg hj]
      rfl
    · refine sum.no_pairs fun j roll ht hRoll _ hId hCid => ?_
      have hKey := sum.reg.keyed j roll hRoll
      rw [hId, hCid, hNone] at hKey
      cases hKey
  · have hStopped : db.rollOf i = some host.roll := rollOf_eq_some.mpr ⟨host, hHost, rfl⟩
    refine sum.digested.renew (i := i) (f := ⟨false, hostId, cid, some .empty⟩) ?_ ?_ ?_ ?_
      (fun _ _ => hQuiet.holds) hIds ?_
    · refine (rollOf_modifyHost _ i _ i).trans ?_
      rw [if_pos rfl]
      dsimp only
      rw [hHost, Option.map_some, start_roll]
    · refine (sumsAt_modifyHost _ i _ i).trans ?_
      rw [if_pos rfl]
      dsimp only
      rw [hHost, Option.map_some, hStart]
    · exact fun j hj => (rollOf_modifyHost _ i _ j).trans (if_neg (Ne.symm hj))
    · exact fun j hj => (sumsAt_modifyHost _ i _ j).trans (if_neg (Ne.symm hj))
    · refine sum.no_pairs fun j roll ht hRoll hAwake hId hCid => ?_
      have hKey := sum.reg.keyed j roll hRoll
      rw [hId, hCid, hFind] at hKey
      obtain rfl := Option.some.inj hKey
      obtain rfl := Option.some.inj (hStopped.symm.trans hRoll)
      simp [RvHostEntry.roll, hStop] at hAwake
  · have hRolls : RollsKept db (db.modifyHost i f) := .modifyHost fun host' hHost' => by
      obtain rfl := Option.some.inj (hHost.symm.trans hHost')
      exact roll_sameHost (hSame host) (iff_of_false hNot' hNot)
    exact (sum.kept (.of_rolls hRolls (touchHost_sums db i hSame) fun _ _ => hQuiet.holds)).2

theorem hostStart (sum : Summed env db) (hOk : RegistryOk env db (.hostStart hostId cid))
    (h : hostStart env db hostId cid = .ok db') :
    db'.heldPairs.card < 2 ^ 32 ∧ Digested env db' := by
  have hQuiet := HoldingsKept.of_quiet (hostStart_hostsOnly h).quiet
  have hIds := idsOf_of_sessionTab (hostStart_hostsOnly h).sessionTab
  refine ⟨(heldPairs_card_le fun x y => hQuiet.holds.mp).trans_lt sum.few, ?_⟩
  have hStart : (RvHostEntry.start hostId cid db.curMono true false).sums = ⟨0, 0⟩ := rfl
  rcases hostStart_cases h with ⟨hNone, rfl⟩ |
    ⟨i, host, fresh, hFind, hHost, hState, rfl, rfl, hEmpty, hCount, hDigest, rfl⟩
  · have hSlots := fun j => getElem?_putHost (i := db.hostTab.length) db
      (.start hostId cid db.curMono true false) le_rfl j
    simp only [RvSubscriptionDB.putHost, lt_irrefl, if_false] at hSlots
    refine sum.digested.renew (i := db.hostTab.length) (f := ⟨false, hostId, cid, some .empty⟩)
      ?_ ?_ ?_ ?_ (fun _ _ => hQuiet.holds) hIds ?_
    · rw [RvSubscriptionDB.rollOf, hSlots, if_pos rfl, Option.map_some, start_roll]
    · rw [RvSubscriptionDB.sumsAt, hSlots, if_pos rfl, Option.map_some, hStart]
    · intro j hj
      rw [RvSubscriptionDB.rollOf, hSlots, if_neg hj]
      rfl
    · intro j hj
      rw [RvSubscriptionDB.sumsAt, hSlots, if_neg hj]
      rfl
    · refine sum.no_pairs fun j roll ht hRoll _ hId hCid => ?_
      have hKey := sum.reg.keyed j roll hRoll
      rw [hId, hCid, hNone] at hKey
      cases hKey
  · refine sum.digested.renew (i := i) (f := ⟨false, fresh.hostId, fresh.cid, some .empty⟩) ?_ ?_ ?_ ?_
      (fun _ _ => hQuiet.holds) hIds ?_
    · refine (rollOf_modifyHost _ i _ i).trans ?_
      rw [if_pos rfl, hHost, Option.map_some, RvHostEntry.roll, hEmpty]
      simp [hState]
    · refine (sumsAt_modifyHost _ i _ i).trans ?_
      rw [if_pos rfl, hHost, Option.map_some, RvHostEntry.sums, hCount, hDigest]
    · exact fun j hj => (rollOf_modifyHost _ i _ j).trans (if_neg (Ne.symm hj))
    · exact fun j hj => (sumsAt_modifyHost _ i _ j).trans (if_neg (Ne.symm hj))
    · refine sum.no_pairs fun j roll ht hRoll _ hId hCid hTable id => ?_
      have hKey := sum.reg.keyed j roll hRoll
      rw [hId, hCid, hFind] at hKey
      obtain rfl := Option.some.inj hKey
      obtain ⟨old, hOld, rfl⟩ := rollOf_eq_some.mp hRoll
      exact hOk i old ht hFind hOld hTable id

theorem unsubHost (sum : Summed env db) (h : unsubHost env db i = .ok db') :
    db'.heldPairs.card < 2 ^ 32 ∧ Digested env db' := by
  obtain ⟨host, db₁, -, -, hLoop, rfl⟩ := unsubHost_cases h
  have bal := sum.balanced.unsubSessions hLoop
  have hSums : SumsKept db₁ { db₁.modifyHost i fun host => host.stop db₁.curMono with
      hosts := db₁.hosts.retire } := by
    refine ⟨fun j => ?_, fun j roll hj hAwake => ?_, fun _ _ => Iff.rfl, fun _ _ _ => rfl⟩
    · refine (sumsAt_modifyHost db₁ i _ j).trans ?_
      split <;> rfl
    · have hAt := (rollOf_modifyHost db₁ i (fun host => host.stop db₁.curMono) j).symm.trans hj
      split at hAt
      · obtain ⟨old, -, rfl⟩ := Option.map_eq_some_iff.mp hAt
        cases hAwake
      · exact ⟨roll, hAt, hAwake, rfl, rfl⟩
  exact ⟨(heldPairs_card_le fun x y => (hSums.holds x y).mp).trans_lt bal.few, bal.digested.of_kept hSums⟩

theorem remSession (sum : Summed env db) (h : remSession env db i name = .ok db') :
    db'.heldPairs.card < 2 ^ 32 ∧ Digested env db' := by
  simp only [SubMgr.remSession, bind_eq_ok] at h
  obtain ⟨db₁, hUnsub, hUnlink⟩ := h
  have bal := sum.balanced.unsubSession hUnsub
  have hSums := unlinkSession_sums hUnlink
  exact ⟨(heldPairs_card_le fun x y => (hSums.holds x y).mp).trans_lt bal.few, bal.digested.of_kept hSums⟩

/-- `listen_ref` of a session that has a table. -/
theorem listen (sum : Summed env db) {r : Listened} (ids : SubjectIds env r.db.nextSubjectCtr)
    (hOk : Roomy db (.listen name sub)) (h : listenRef env db name sub = .ok r) :
    r.db.heldPairs.card < 2 ^ 32 ∧ Digested env r.db := by
  have hRolls := listenRef_rollsKept h
  have hPlaces := idsOf_of_rolls hRolls
  obtain ⟨-, -, hDone, hHolds⟩ := listenRef_holdings sum.linked ids h
  have hMore : r.db.heldPairs ⊆ Insert.insert (name, r.sub) db.heldPairs := by
    rintro ⟨x, y⟩ hMem
    rw [Finset.mem_insert, Prod.mk_inj, mem_heldPairs]
    exact (hHolds x y).mp (mem_heldPairs.mp hMem)
  refine ⟨((Finset.card_le_card hMore).trans (Finset.card_insert_le _ _)).trans_lt hOk, ?_⟩
  obtain ⟨sess, ht, script, hSess, hHt, -, hSub, hCase⟩ := listenRef_cases h
  have hSlots := refSubscription_slotsKept env db (stripNul sub)
  have hSums : ∀ j, (SubMgr.refSubscription env db (stripNul sub)).sumsAt j = db.sumsAt j := by
    refine sumsAt_of_hostTab ?_
    unfold SubMgr.refSubscription
    split
    · rfl
    · unfold SubMgr.getSubscription
      split <;> rfl
  rcases hCase with ⟨-, hDb, hOld⟩ | ⟨-, hNew, hDb⟩
  · refine (sum.kept (.of_rolls hRolls (fun j => by rw [hDb, hSums]) fun x y => ?_)).2
    rw [hHolds]
    refine or_iff_right_of_imp ?_
    rintro ⟨rfl, rfl⟩
    by_contra hNot
    rw [hDone.mpr hNot] at hOld
    cases hOld
  · have hSess' : db.sessionTab.find? name = some sess := by
      rw [← hSess]
      unfold SubMgr.refSubscription
      split
      · rfl
      · rw [getSubscription_sessionTab]
    have hTable : db.tableOf name = some ht := by simp [RvSubscriptionDB.tableOf, hSess', hHt]
    obtain ⟨i, roll, hRoll, hIds⟩ := sum.reg.housed name ht hTable
    obtain ⟨hId, hCid⟩ := Prod.mk.inj (Option.some.inj ((idsOf_of_session hSess').symm.trans hIds))
    have hFind : findHost env (SubMgr.refSubscription env db (stripNul sub)) sess.hostId sess.cid =
        some i := by
      rw [findHost_kept hSlots, hId, hCid]
      exact sum.balanced.keyed.findHost hRoll
    refine sum.digested.arrive sum.reg.keyed hRoll hIds hRolls.rolls hPlaces (hDone.mp hNew) hHolds
      fun j => ?_
    rw [hDb, holdSubject_sums env _ name sess ht (stripNul sub) script hFind, hSums, hSub]

theorem release (sum : Summed env db) {r : Listened} (h : derefSubscription env db name sub = .ok r)
    (hDone : r.done = true) : r.db.heldPairs.card < 2 ^ 32 ∧ Digested env r.db := by
  have hRolls := derefSubscription_rollsKept sum.reg.traced h
  obtain ⟨-, -, -, hHeld, -⟩ := derefSubscription_holdings sum.linked h
  obtain ⟨hBefore, hAfter⟩ := hHeld hDone
  refine ⟨(heldPairs_card_le fun x y hHolds => ((hAfter x y).mp hHolds).2).trans_lt sum.few, ?_⟩
  obtain ⟨sess, script, hSess, -, -, hCase⟩ := derefSubscription_cases h
  rcases hCase with ⟨hNot, -⟩ | ⟨-, -, ht, hHt, -, hDb⟩
  · rw [hDone] at hNot
    cases hNot
  · have hTable : db.tableOf name = some ht := by simp [RvSubscriptionDB.tableOf, hSess, hHt]
    obtain ⟨i, roll, hRoll, hIds⟩ := sum.reg.housed name ht hTable
    obtain ⟨hId, hCid⟩ := Prod.mk.inj (Option.some.inj ((idsOf_of_session hSess).symm.trans hIds))
    have hFind : findHost env db sess.hostId sess.cid = some i := by
      rw [hId, hCid]
      exact sum.balanced.keyed.findHost hRoll
    refine sum.digested.leave sum.reg.keyed [sub] sum.few hRoll hIds hRolls.rolls
      (idsOf_of_rolls hRolls) (List.nodup_singleton _) (by simpa using hBefore) (by simpa using hAfter)
      fun j => ?_
    rw [hDb, releaseSubject_sums env db name sess ht sub script hFind]
    by_cases hj : j = i <;> by_cases hCounted : Counted sub <;> simp [hj, hCounted]

end Summed

/-- What digests need of a call, with what the listener's calls need. -/
def DigestTurn (env : Env) (db : RvSubscriptionDB) (call : Call) : Prop :=
  DigestOk env db call ∧ Collects env db call

theorem Turn.digested (h : Turn env (DigestTurn env) db db') (ids : SubjectIds env db'.nextSubjectCtr)
    (sum : Summed env db) : db'.heldPairs.card < 2 ^ 32 ∧ Digested env db' := by
  have hKept : ∀ {db'}, HoldingsKept db db' → ∀ x y, db'.Holds x y ↔ db.Holds x y :=
    fun h _ _ => h.holds
  cases h with
  | hostRef _ h => exact sum.hostRef h
  | hostStart hOk h => exact sum.hostStart hOk.1.1 h
  | touchHost i hSame hState =>
      have hRolls : RollsKept db _ := .modifyHost fun host hHost => roll_sameHost (hSame host) (hState host hHost)
      exact sum.kept (.of_rolls hRolls (touchHost_sums db i hSame) fun _ _ => Iff.rfl)
  | unsubHost _ h => exact sum.unsubHost h
  | remSession _ h => exact sum.remSession h
  | enterSession _ _ _ hNew hSame hState h =>
      exact sum.kept (enterSession_sums sum.linked hNew hSame hState h)
  | touchSession name hSame hState =>
      refine sum.still (.modifySession fun s hs => place_sameSession (hSame s) (hState s hs)) rfl ?_
      exact hKept (modifySession_kept (fun s => (hSame s).subHt) fun s hs => (hState s hs).mp)
  | query =>
      refine sum.kept ⟨fun _ => rfl, fun j roll hj hAwake => ⟨roll, hj, hAwake, rfl, rfl⟩,
        hKept (toQuery_kept _ _), fun x _ _ => ?_⟩
      simp only [RvSubscriptionDB.idsOf, RvSubscriptionDB.placeOf, RvSubscriptionDB.modifySession,
        Table.find?_modify, Option.map_map]
      congr 1
      funext s
      simp only [Function.comp_apply]
      split
      · simp [RvSessionEntry.place, (sameSession_toQuery s).hostId, (sameSession_toQuery s).cid]
      · rfl
  | touchSub sub hSame =>
      exact sum.still (.of_eq rfl rfl rfl rfl) rfl (hKept (modifySub_kept db sub fun s => (hSame s).subjectId))
  | getSubscription sub =>
      obtain ⟨-, hHolds⟩ := sum.linked.getSubscription ids
      unfold SubMgr.getSubscription at hHolds ⊢
      split
      · exact ⟨sum.few, sum.digested⟩
      · next hNew =>
          rw [if_neg hNew] at hHolds
          exact sum.still (.of_eq rfl rfl rfl rfl) rfl hHolds
  | @listen name sub r script hOk isListenStart reply h _ =>
      have hCalled := called_kept env r (.listenStart name r.sub script.refcnt reply isListenStart r.coll)
        (r.done || isListenStart)
      obtain ⟨hFew, hDigested⟩ := sum.listen (hCalled.ctr ▸ ids) hOk.1.2 h
      split
      · exact called_digested hFew hDigested
      · exact ⟨hFew, hDigested⟩
  | release _ h hDone _ =>
      obtain ⟨hFew, hDigested⟩ := sum.release h hDone
      exact called_digested hFew hDigested
  | orphan => exact called_digested sum.few sum.digested
  | sass3 _ _ h => exact sum.still (sass3_rollsKept h) (sass3_hostTab h) (hKept (sass3_holdings h).1)
  | expire _ h =>
      exact sum.still (expireEntry_rollsKept h) (expireEntry_hostTab h) (hKept (expireEntry_hears h).1)
  | sass3List => exact sum.still (.of_eq rfl rfl rfl rfl) rfl fun _ _ => Iff.rfl
  | note => exact sum.still (.of_eq rfl rfl rfl rfl) rfl fun _ _ => Iff.rfl
  | gcSubscriptions hOk =>
      obtain ⟨-, hHolds⟩ := sum.linked.gcSubscriptions (hOk.2 ((gcSubscriptions_sameIds db).ctr ▸ ids))
      unfold SubMgr.gcSubscriptions at hHolds ⊢
      split
      · next hFull =>
          rw [if_pos hFull] at hHolds
          exact sum.still (.of_eq rfl rfl rfl rfl) rfl hHolds
      · exact ⟨sum.few, sum.digested⟩
  | gcSessions =>
      have hHolds := hKept (gcSessions_holdings sum.linked)
      unfold SubMgr.gcSessions at hHolds ⊢
      split
      · next hFull =>
          rw [if_pos hFull] at hHolds
          refine sum.kept ⟨fun _ => rfl, fun j roll hj hAwake => ⟨roll, hj, hAwake, rfl, rfl⟩, hHolds,
            fun x y hHeld => ?_⟩
          obtain ⟨ht, id, hTable, -⟩ := holds_iff_tables.mp hHeld
          obtain ⟨s, hs, hHt⟩ := Option.bind_eq_some_iff.mp hTable
          have hLive : s.state ≠ .stop := by
            intro hStop
            rw [sum.linked.stopped x ⟨s, hs, hStop⟩] at hTable
            cases hTable
          simp [RvSubscriptionDB.idsOf, RvSubscriptionDB.placeOf, Table.find?_filter, hs, Option.filter, hLive]
      · exact ⟨sum.few, sum.digested⟩
  | gcHosts =>
      unfold SubMgr.gcHosts
      split
      · exact sum.still (.of_eq rfl rfl rfl rfl) rfl fun _ _ => Iff.rfl
      · exact ⟨sum.few, sum.digested⟩

theorem Turn.summed (h : Turn env (DigestTurn env) db db') (ids : SubjectIds env db'.nextSubjectCtr)
    (sum : Summed env db) : Summed env db' := by
  obtain ⟨few, hDigested⟩ := h.digested ids sum
  exact ⟨(h.mono fun _ _ hOk => hOk.1.1).registry sum.reg,
    (h.mono fun _ _ hOk => hOk.2).linked ids sum.linked, few, hDigested⟩

theorem Turns.summed (h : Turns env (DigestTurn env) db db') (ids : SubjectIds env db'.nextSubjectCtr)
    (sum : Summed env db) : Summed env db' := by
  induction h with
  | refl => exact sum
  | tail _ hLast ih => exact hLast.summed ids (ih (ids.mono hLast.grows))

/-! The runs. -/

/-- Runs with few references in which sessions and hosts start over where they are listed,
and with room for the pairs. -/
def digestRuns (env : Env) : System RvSubscriptionDB Input Output :=
  (fewReferences env).guard fun db input => Meets env (DigestOk env) { db with outputs := [] } input

theorem summed_empty (env : Env) (curMono nextGc : BitVec 32) :
    Summed env { curMono := curMono, nextGc := nextGc } where
  reg := registry_empty env curMono nextGc
  linked := linked_empty env curMono nextGc
  few := Nat.two_pow_pos 32
  digested i roll h := by cases h

/-- The digests are right while the ids given out are good. -/
def KeptSummed (env : Env) (db : RvSubscriptionDB) : Prop :=
  Kept env db ∧ (SubjectIds env db.nextSubjectCtr → Summed env db)

theorem reachable_summed (ids : SubjectIds env db.nextSubjectCtr) (h : (digestRuns env).Reachable db) :
    Summed env db := by
  have hRuns : KeptSummed env db := by
    refine h.invariant ?_ ?_
    · intro start hInit
      refine ⟨reachable_kept (System.reachable_of_init hInit), fun ids => ?_⟩
      obtain ⟨curMono, s2, hStart⟩ := hInit
      have hFirst : MeetsInit env (DigestTurn env) curMono :=
        meetsInit_of_enter ⟨⟨trivial, trivial⟩, trivial⟩ fun db i hRef =>
          ⟨⟨registryOk_enter hRef, trivial⟩, trivial⟩
      exact Turns.summed (startSubscriptions_turns hFirst hStart) ids (summed_empty env _ _)
    · rintro s input emitted t ⟨kept, hSummed⟩ ⟨hMeets, few, hStep, -⟩
      have hClear : Quiet s { s with outputs := [] } := .of_eq rfl rfl rfl rfl rfl
      have keptClear : Kept env { s with outputs := [] } := hClear.ebbs.kept few kept
      have hFew : { s with outputs := [] }.Few := few
      have hGrows := step_grows hStep
      refine ⟨fun ids => step_references ids hFew (keptClear (ids.mono hGrows)) hStep, fun ids => ?_⟩
      have sum := hSummed (ids.mono hGrows)
      have hSums : SumsKept s { s with outputs := [] } :=
        .of_rolls (.of_eq rfl rfl rfl rfl) (fun _ => rfl) fun _ _ => Iff.rfl
      have hBoth : Meets env (DigestTurn env) { s with outputs := [] } input :=
        Meets.and (fun _ _ hOk hCall => ⟨hOk, hCall⟩) hMeets (meets_collects keptClear hFew input)
      have hTurns := step_leads hBoth
      rw [hStep] at hTurns
      exact Turns.summed hTurns ids ⟨sum.reg.of_kept (.of_eq rfl rfl rfl rfl),
        sum.linked.of_kept (.of_quiet hClear), (sum.kept hSums).1, (sum.kept hSums).2⟩
  exact hRuns.2 ids

/-- The pairs as the publisher names them. -/
def RvSubscriptionDB.published (db : RvSubscriptionDB) (hostId : BitVec 32) (cid : BitVec 16) :
    Multiset (Text × Text) :=
  (db.hostPairs hostId cid).val.map fun p => (stripNul p.1, p.2)

theorem xorOf_published (env : Env) (db : RvSubscriptionDB) (hostId : BitVec 32) (cid : BitVec 16) :
    Daemon.xorOf env.crcC (db.published hostId cid) = (pairDigest env (db.hostPairs hostId cid)).sum := by
  rw [Daemon.xorOf, RvSubscriptionDB.published, Multiset.map_map]
  rfl

/-- A host in `host_tab` that is not stopped has the count and the xor of the pairs that
its sessions hold. The publisher computes the same for the same pairs, if those too long for
its key are held once and no two share a key, and a status with them and without new losses
is taken down and asks for nothing. -/
theorem host_digest_agrees (env : Env) (db : RvSubscriptionDB) (ids : SubjectIds env db.nextSubjectCtr)
    (h : (digestRuns env).Reachable db) (i : Nat) (host : RvHostEntry)
    (hHost : db.hostTab[i]? = some host) (hAwake : host.state ≠ .stop) :
    host.subCount.toNat = (db.published host.hostId host.cid).card ∧
    host.subDigest = Daemon.xorOf env.crcC (db.published host.hostId host.cid) ∧
    ∀ sockets : List Daemon.EvSocket,
      (Daemon.pairsOf sockets).toFinset.val = db.published host.hostId host.cid →
      KeylessOnce (Daemon.digestKey env.crcC) (Daemon.pairsOf sockets) →
      KeysApart (Daemon.digestKey env.crcC) (Daemon.pairsOf sockets) →
      let digest := Daemon.getSubDigest env.crcC sockets
      digest.sc = host.subCount.toNat ∧ digest.sx = host.subDigest ∧
      ∀ m : Fields, m.sc = some (BitVec.ofNat 32 digest.sc) → m.sx = some digest.sx →
        host.dataLoss = m.idl.getD 0 + m.odl.getD 0 →
        hostStatus env db host.hostId host.cid m =
          .ok (db.modifyHost i fun host => host.status db.curMono) := by
  have sum := reachable_summed ids h
  have hRoll : db.rollOf i = some host.roll := rollOf_eq_some.mpr ⟨host, hHost, rfl⟩
  have hSums := sum.digested i host.roll hRoll (by simpa [RvHostEntry.roll] using hAwake)
  have hDigest : host.sums = pairDigest env (db.hostPairs host.hostId host.cid) := by
    rw [RvSubscriptionDB.sumsAt, hHost] at hSums
    exact Option.some.inj hSums
  have hFew : (db.hostPairs host.hostId host.cid).card < 2 ^ 32 :=
    (Finset.card_filter_le _ _).trans_lt sum.few
  have hCard : (db.published host.hostId host.cid).card = (db.hostPairs host.hostId host.cid).card :=
    Multiset.card_map _ _
  have hCount : host.subCount = BitVec.ofNat 32 (db.published host.hostId host.cid).card := by
    rw [hCard]
    exact congrArg Digest.count hDigest
  have hXor : host.subDigest = Daemon.xorOf env.crcC (db.published host.hostId host.cid) := by
    rw [xorOf_published]
    exact congrArg Digest.sum hDigest
  have hToNat : host.subCount.toNat = (db.published host.hostId host.cid).card := by
    rw [hCount, BitVec.toNat_ofNat, hCard, Nat.mod_eq_of_lt hFew]
  refine ⟨hToNat, hXor, ?_⟩
  intro sockets hSame hOnce hApart
  obtain ⟨hCounted, hXored⟩ := Daemon.digestRight_of_apart hOnce hApart
  rw [Finset.card, hSame, ← hToNat] at hCounted
  rw [hSame, ← hXor] at hXored
  refine ⟨hCounted, hXored, ?_⟩
  · intro m hSc hSx hLoss
    rw [hCounted, BitVec.ofNat_toNat, BitVec.setWidth_eq] at hSc
    rw [hXored] at hSx
    have hKey := sum.reg.keyed i host.roll hRoll
    have hStatus : (host.status db.curMono).subCount = host.subCount ∧
        (host.status db.curMono).subDigest = host.subDigest ∧
        (host.status db.curMono).dataLoss = host.dataLoss := by
      unfold RvHostEntry.status RvHostEntry.checkQueryNeeded
      dsimp only
      split
      · exact ⟨rfl, rfl, rfl⟩
      · split <;> exact ⟨rfl, rfl, rfl⟩
    have hRef : SubMgr.hostRef env db host.hostId host.cid true =
        .ok (db.modifyHost i fun host => host.status db.curMono, i) := by
      have hAt : db.hostAt i = .ok host := hostAt_eq_ok.mpr hHost
      simp only [SubMgr.hostRef, show db.hostHt.find? (hashHostId env host.hostId host.cid) = some i from hKey,
        refSlot, hAt]
      rw [bind_eq_ok]
      exact ⟨host, rfl, by simp [hAwake]⟩
    have hAfter : (db.modifyHost i fun host => host.status db.curMono).hostAt i =
        .ok (host.status db.curMono) :=
      hostAt_eq_ok.mpr (by simp [RvSubscriptionDB.modifyHost, hHost])
    unfold hostStatus
    rw [bind_eq_ok]
    refine ⟨_, hRef, ?_⟩
    dsimp only
    rw [bind_eq_ok]
    refine ⟨_, hAfter, ?_⟩
    rw [if_neg (by rw [hStatus.2.2, hLoss]; exact not_not.mpr rfl), hSc, hSx]
    dsimp only
    rw [if_neg]
    · rfl
    · rintro ⟨-, -, hCount | hSum⟩
      · exact hCount hStatus.1
      · exact hSum hStatus.2.1

theorem sessionRef_subTab (h : sessionRef env db cid name = .ok db') : db'.subTab = db.subTab := by
  simp only [sessionRef, bind_eq_ok, pure_eq_ok] at h
  obtain ⟨db₁, hOpen, rfl⟩ := h
  unfold ensureOpen at hOpen
  split at hOpen
  · cases hOpen
    rfl
  · simp only [openSession, bind_eq_ok] at hOpen
    obtain ⟨hostId, -, ⟨db₂, i⟩, hRef, hAdd⟩ := hOpen
    have hSub : db₁.subTab = db₂.subTab := by
      simp only [addSession, bind_eq_ok] at hAdd
      obtain ⟨host, -, sess, -, hAdd⟩ := hAdd
      split at hAdd
      · cases hAdd
      · split at hAdd <;> cases hAdd <;> rfl
    exact hSub.trans (hostRef_hostsOnly hRef).subTab

theorem sampleDB_digestRuns : (digestRuns sampleEnv).Reachable sampleDB := by
  have hMeets : Meets sampleEnv (DigestOk sampleEnv) { nextGc := 131 } (.pub 5 sampleListen) := by
    refine fun _ _ => ⟨fun hNew hostId hId => ?_, fun db' hRef => ⟨trivial, ?_⟩⟩
    · obtain ⟨-, hEnter⟩ := meetsRef_first rfl rfl _ hNew hostId hId
      exact ⟨⟨trivial, trivial⟩, fun db' i h => ⟨hEnter db' i h, trivial⟩⟩
    · have hSub : db'.subTab = .empty := sessionRef_subTab hRef
      have hNone : db'.heldPairs = ∅ := by
        apply Finset.eq_empty_iff_forall_notMem.mpr
        rintro ⟨x, y⟩ hMem
        obtain ⟨sess, script, -, hScript, -⟩ := mem_heldPairs.mp hMem
        rw [hSub] at hScript
        cases hScript
      change db'.heldPairs.card + 1 < 2 ^ 32
      rw [hNone]
      decide
  have hInit : (digestRuns sampleEnv).Reachable { nextGc := 131 } :=
    System.reachable_of_init sample_init
  exact hInit.take (.pub 5 sampleListen) sampleDB.outputs hMeets ⟨few_of_size (by decide), rfl, rfl⟩

/-- The socket of the session that listens. -/
def sampleSockets : List Daemon.EvSocket := [⟨text "0A000001.X", [text "A.B"], []⟩]

theorem host_digest_agrees_listen : ∃ host, sampleDB.hostTab = [host] ∧ host.subCount.toNat = 1 ∧
    ∀ m : Fields, m.sc = some 1 → m.sx = some (crc32c (text "A.B") (crc32c (text "0A000001.X") 0)) →
      host.dataLoss = m.idl.getD 0 + m.odl.getD 0 →
      hostStatus sampleEnv sampleDB host.hostId host.cid m =
        .ok (sampleDB.modifyHost 0 fun host => host.status sampleDB.curMono) := by
  obtain ⟨host, hTab⟩ := List.length_eq_one_iff.mp (show sampleDB.hostTab.length = 1 by decide)
  have hHost : sampleDB.hostTab[0]? = some host := by rw [hTab]; rfl
  have hAll : sampleDB.hostTab.all (fun host => host.state ≠ .stop ∧ host.hostId = 0x0A000001#32 ∧
      host.cid = 0) = true := by decide
  obtain ⟨hAwake, hId, hCid⟩ : host.state ≠ .stop ∧ host.hostId = 0x0A000001#32 ∧ host.cid = 0 := by
    rw [hTab] at hAll
    simpa using hAll
  obtain ⟨hCount, -, hAsks⟩ := host_digest_agrees sampleEnv sampleDB (sampleIds.mono (by decide))
    sampleDB_digestRuns 0 host hHost hAwake
  have hPairs : (Daemon.pairsOf sampleSockets).toFinset.val = sampleDB.published 0x0A000001#32 0 := by
    decide +kernel
  have hOne : Daemon.pairsOf sampleSockets = [(text "0A000001.X", text "A.B")] := by decide +kernel
  have hOnce : KeylessOnce (Daemon.digestKey sampleEnv.crcC) (Daemon.pairsOf sampleSockets) := by
    rw [hOne]
    exact fun _ _ => List.countP_le_length
  have hApart : KeysApart (Daemon.digestKey sampleEnv.crcC) (Daemon.pairsOf sampleSockets) := by
    rw [hOne]
    intro x hx y hy _ _ _
    exact (List.mem_singleton.mp hx).trans (List.mem_singleton.mp hy).symm
  rw [hId, hCid] at hCount hAsks
  refine ⟨host, hTab, ?_, fun m hSc hSx hLoss => ?_⟩
  · rw [hCount, ← hPairs]
    decide +kernel
  rw [hId, hCid]
  obtain ⟨-, -, hQuiet⟩ := hAsks sampleSockets hPairs hOnce hApart
  refine hQuiet m ?_ ?_ hLoss
  · rw [hSc]
    decide +kernel
  · rw [hSx]
    decide +kernel

/-- A host that is started over without a stop counts from zero, and its session still holds
what it held. -/
theorem host_digest_can_drift :
    ¬ ∀ (env : Env) (db : RvSubscriptionDB), (subscriptionDB env).Reachable db →
      ∀ (i : Nat) (host : RvHostEntry), db.hostTab[i]? = some host → host.state ≠ .stop →
        host.subCount.toNat = (db.published host.hostId host.cid).card := by
  intro h
  obtain ⟨host, hTab⟩ := List.length_eq_one_iff.mp (show sampleOverDB.hostTab.length = 1 by decide)
  have hAll : sampleOverDB.hostTab.all (fun host => host.state ≠ .stop ∧ host.hostId = 0x0A000001#32 ∧
      host.cid = 0 ∧ host.subCount = 0) = true := by decide
  rw [hTab, List.all_cons, List.all_nil, Bool.and_true] at hAll
  obtain ⟨hAwake, hId, hCid, hCount⟩ := of_decide_eq_true hAll
  have hHost : sampleOverDB.hostTab[0]? = some host := by rw [hTab]; rfl
  have hCard := h sampleEnv sampleOverDB sampleOverDB_reachable 0 host hHost hAwake
  rw [hId, hCid, hCount] at hCard
  have hHeld : (sampleOverDB.published 0x0A000001#32 0).card = 1 := by decide +kernel
  rw [hHeld] at hCard
  revert hCard
  decide

end Sassrv.SubMgr
