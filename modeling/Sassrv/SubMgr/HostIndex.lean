import Sassrv.SubMgr.FreeSlots

/-! The index `host_ht` of the hosts. Its keys are a 32-bit mix of host id and cid, and
a key stays when its slot is given to another host. -/
namespace Sassrv.SubMgr
open Transition

/-- The calls about the hosts of a set, an unseen one of which is entered at the end of
the table and not in a slot that `gc` found. -/
def Apart (env : Env) (pairs : Set (BitVec 32 × BitVec 16)) (db : RvSubscriptionDB) : Call → Prop
  | .hostRef hostId cid => (hostId, cid) ∈ pairs ∧
      (db.hostHt.find? (hashHostId env hostId cid) = none → db.firstFreeHost = db.hostTab.length)
  | .hostStart hostId cid => (hostId, cid) ∈ pairs
  | _ => True

/-- Every key of the index is the key of the host in its slot. -/
def Indexed (env : Env) (pairs : Set (BitVec 32 × BitVec 16)) (db : RvSubscriptionDB) : Prop :=
  ∀ key i, db.hostHt.find? key = some i → ∃ host, db.hostTab[i]? = some host ∧
    (host.hostId, host.cid) ∈ pairs ∧ key = hashHostId env host.hostId host.cid

variable {env : Env} {pairs : Set (BitVec 32 × BitVec 16)} {db db' : RvSubscriptionDB} {i : Nat}

theorem Indexed.of_slotsKept (h : SlotsKept db db') (hIndexed : Indexed env pairs db) :
    Indexed env pairs db' := by
  intro key i hFind
  rw [h.hostHt] at hFind
  obtain ⟨host, hHost, hPair, hKey⟩ := hIndexed key i hFind
  have hSlot := h.slot i
  rw [hHost, Option.map_some] at hSlot
  obtain ⟨host', hHost', hEq⟩ := Option.map_eq_some_iff.mp hSlot
  simp only [RvHostEntry.slot, Prod.mk.injEq] at hEq
  obtain ⟨-, hId, hCid⟩ := hEq
  exact ⟨host', hHost', by rwa [hId, hCid], by rw [hId, hCid]; exact hKey⟩

/-- A new host at the end of the table. -/
theorem Indexed.push {host : RvHostEntry} (hIndexed : Indexed env pairs db)
    (hPair : (host.hostId, host.cid) ∈ pairs)
    (hHt : db'.hostHt = db.hostHt.insert (hashHostId env host.hostId host.cid) db.hostTab.length)
    (hTab : db'.hostTab = db.hostTab ++ [host]) : Indexed env pairs db' := by
  intro key i hFind
  rw [hHt, Table.find?_insert] at hFind
  split at hFind
  · next hKey =>
      obtain rfl := Option.some.inj hFind
      exact ⟨host, by simp [hTab], hPair, hKey⟩
  · obtain ⟨old, hOld, hRest⟩ := hIndexed key i hFind
    have hLt : i < db.hostTab.length := (List.getElem?_eq_some_iff.mp hOld).1
    exact ⟨old, by rw [hTab, List.getElem?_append_left hLt]; exact hOld, hRest⟩

/-- The entry of a slot is rewritten for a host with the same key. -/
theorem Indexed.rewrite {f : RvHostEntry → RvHostEntry} (hIndexed : Indexed env pairs db)
    (hHt : db'.hostHt = db.hostHt) (hTab : db'.hostTab = db.hostTab.modify i f)
    (hSame : ∀ host, db.hostTab[i]? = some host → (host.hostId, host.cid) ∈ pairs →
      ((f host).hostId, (f host).cid) ∈ pairs ∧
      hashHostId env (f host).hostId (f host).cid = hashHostId env host.hostId host.cid) :
    Indexed env pairs db' := by
  intro key j hFind
  rw [hHt] at hFind
  obtain ⟨host, hHost, hPair, hKey⟩ := hIndexed key j hFind
  by_cases hij : i = j
  · subst hij
    obtain ⟨hPair', hEq⟩ := hSame host hHost hPair
    exact ⟨f host, by simp [hTab, hHost], hPair', hKey.trans hEq.symm⟩
  · exact ⟨host, by simp [hTab, hij, hHost], hPair, hKey⟩

/-- The entry of a slot keeps its host. -/
theorem Indexed.touch {f : RvHostEntry → RvHostEntry} (hIndexed : Indexed env pairs db)
    (hHt : db'.hostHt = db.hostHt) (hTab : db'.hostTab = db.hostTab.modify i f)
    (hSame : ∀ host, (f host).hostId = host.hostId ∧ (f host).cid = host.cid) :
    Indexed env pairs db' := by
  apply hIndexed.rewrite hHt hTab
  intro host _ hPair
  obtain ⟨hId, hCid⟩ := hSame host
  rw [hId, hCid]
  exact ⟨hPair, rfl⟩

/-- The host under a key starts over in its slot. -/
theorem Indexed.restart {fresh : RvHostEntry} (hIndexed : Indexed env pairs db)
    (hFind : db.hostHt.find? (hashHostId env fresh.hostId fresh.cid) = some i)
    (hPair : (fresh.hostId, fresh.cid) ∈ pairs) (hHt : db'.hostHt = db.hostHt)
    (hTab : db'.hostTab = db.hostTab.modify i fun _ => fresh) : Indexed env pairs db' := by
  apply hIndexed.rewrite hHt hTab
  intro host hHost _
  obtain ⟨found, hFound, -, hKey⟩ := hIndexed _ i hFind
  obtain rfl := Option.some.inj (hHost.symm.trans hFound)
  exact ⟨hPair, hKey⟩

theorem hostRef_indexed {hostId : BitVec 32} {cid : BitVec 16} {isStatus : Bool}
    (hOk : Apart env pairs db (.hostRef hostId cid)) (hIndexed : Indexed env pairs db)
    (h : hostRef env db hostId cid isStatus = .ok (db', i)) : Indexed env pairs db' := by
  obtain ⟨hPair, hEnd⟩ := hOk
  rcases hostRef_cases h with ⟨hNone, -, rfl, rfl⟩ | ⟨host, hFind, -, -, rfl⟩ |
    ⟨host, f, -, -, -, hSame, -, rfl⟩
  · have hLast := hEnd hNone
    have hStart : ((RvHostEntry.start hostId cid db.curMono false isStatus).hostId,
        (RvHostEntry.start hostId cid db.curMono false isStatus).cid) ∈ pairs := hPair
    refine hIndexed.push hStart ?_ ?_
    · rw [← hLast]
      rfl
    · simp only [RvSubscriptionDB.putHost, hLast, lt_irrefl, if_false]
  · have hStart : Indexed env pairs ({ db with hosts := { db.hosts with active := db.hosts.active + 1 } } :
        RvSubscriptionDB) := hIndexed
    exact hStart.restart hFind hPair rfl rfl
  · exact hIndexed.touch rfl rfl fun host => ⟨(hSame host).hostId, (hSame host).cid⟩

theorem hostStart_indexed {hostId : BitVec 32} {cid : BitVec 16}
    (hPair : (hostId, cid) ∈ pairs) (hIndexed : Indexed env pairs db)
    (h : hostStart env db hostId cid = .ok db') : Indexed env pairs db' := by
  rcases hostStart_cases h with ⟨hNone, rfl⟩ | ⟨i, host, fresh, hFind, -, -, rfl, rfl, -, -, -, rfl⟩
  · exact hIndexed.push hPair rfl rfl
  · exact hIndexed.restart hFind hPair rfl rfl

theorem Turn.indexed (h : Turn env (Apart env pairs) db db') (hIndexed : Indexed env pairs db) :
    Indexed env pairs db' := by
  cases h.hostTurn with
  | kept hKept => exact hIndexed.of_slotsKept hKept
  | hostRef hOk hRef => exact hostRef_indexed hOk hIndexed hRef
  | hostStart hOk hStart => exact hostStart_indexed hOk hIndexed hStart
  | touchHost i hSame hState =>
      exact hIndexed.touch rfl rfl fun host => ⟨(hSame host).hostId, (hSame host).cid⟩
  | unsubHost _ hUnsub =>
      obtain ⟨host, db₁, -, hDigests, -, rfl⟩ := unsubHost_cases hUnsub
      have hBefore : Indexed env pairs db₁ := hIndexed.of_slotsKept hDigests.slotsKept
      exact hBefore.touch rfl rfl fun _ => ⟨rfl, rfl⟩
  | gcHosts =>
      unfold SubMgr.gcHosts
      split <;> exact hIndexed

/-- What a key of the set resolves to, as long as the mix tells the set apart. -/
theorem Indexed.entry (hIndexed : Indexed env pairs db)
    (hApart : Set.InjOn (fun p : BitVec 32 × BitVec 16 => hashHostId env p.1 p.2) pairs)
    {hostId : BitVec 32} {cid : BitVec 16} (hPair : (hostId, cid) ∈ pairs)
    (hFind : db.hostHt.find? (hashHostId env hostId cid) = some i) :
    ∃ host, db.hostTab[i]? = some host ∧ host.hostId = hostId ∧ host.cid = cid := by
  obtain ⟨host, hHost, hIn, hKey⟩ := hIndexed _ i hFind
  have hEq : (hostId, cid) = (host.hostId, host.cid) := hApart hPair hIn hKey
  exact ⟨host, hHost, (congrArg Prod.fst hEq).symm, (congrArg Prod.snd hEq).symm⟩

/-- In the runs about hosts that the mix tells apart, with no slot used again for
another host, a lookup for a host finds its own entry and no other. -/
theorem host_index_agrees (env : Env) (pairs : Set (BitVec 32 × BitVec 16))
    (hApart : Set.InjOn (fun p : BitVec 32 × BitVec 16 => hashHostId env p.1 p.2) pairs)
    (hSelf : (env.ipaddr, env.cid) ∈ pairs) (db : RvSubscriptionDB)
    (h : (restricted env (Apart env pairs)).Reachable db) :
    (∀ hostId cid i host, (hostId, cid) ∈ pairs →
      db.hostHt.find? (hashHostId env hostId cid) = some i → db.hostTab[i]? = some host →
      host.hostId = hostId ∧ host.cid = cid) ∧
    (∀ p ∈ pairs, ∀ q ∈ pairs, ∀ i, db.hostHt.find? (hashHostId env p.1 p.2) = some i →
      db.hostHt.find? (hashHostId env q.1 q.2) = some i → p = q) ∧
    (∀ hostId cid isStatus db' i, Apart env pairs db (.hostRef hostId cid) →
      hostRef env db hostId cid isStatus = .ok (db', i) →
      ∃ host, db'.hostTab[i]? = some host ∧ host.hostId = hostId ∧ host.cid = cid) ∧
    (∀ hostId cid db', (hostId, cid) ∈ pairs → hostStart env db hostId cid = .ok db' →
      ∃ i host, db'.hostHt.find? (hashHostId env hostId cid) = some i ∧
        db'.hostTab[i]? = some host ∧ host.hostId = hostId ∧ host.cid = cid) ∧
    (∀ hostId cid i, (hostId, cid) ∈ pairs → findHost env db hostId cid = some i →
      ∃ host, db.hostTab[i]? = some host ∧ host.hostId = hostId ∧ host.cid = cid) := by
  have hIndexed : Indexed env pairs db := by
    refine restricted_invariant ?_ (fun _ hIndexed => hIndexed) (fun _ _ hTurn => hTurn.indexed) h
    intro curMono
    constructor
    · intro key i hFind
      cases hFind
    · exact meetsInit_of_enter ⟨hSelf, fun _ => rfl⟩ fun _ _ _ => trivial
  refine ⟨?_, ?_, ?_, ?_, ?_⟩
  · intro hostId cid i host hPair hFind hHost
    obtain ⟨found, hFound, hSame⟩ := hIndexed.entry hApart hPair hFind
    obtain rfl := Option.some.inj (hHost.symm.trans hFound)
    exact hSame
  · intro p hp q hq i hFindP hFindQ
    obtain ⟨host, hHost, hId, hCid⟩ := hIndexed.entry hApart hp hFindP
    obtain ⟨host', hHost', hId', hCid'⟩ := hIndexed.entry hApart hq hFindQ
    obtain rfl := Option.some.inj (hHost.symm.trans hHost')
    exact Prod.ext (hId.symm.trans hId') (hCid.symm.trans hCid')
  · intro hostId cid isStatus db' i hOk hRef
    have hAfter : Indexed env pairs db' := hostRef_indexed hOk hIndexed hRef
    exact hAfter.entry hApart hOk.1 (hostRef_slot hRef).1
  · intro hostId cid db' hPair hStart
    have hAfter : Indexed env pairs db' := hostStart_indexed hPair hIndexed hStart
    have hFound : ∃ i, db'.hostHt.find? (hashHostId env hostId cid) = some i := by
      rcases hostStart_cases hStart with ⟨-, rfl⟩ | ⟨i, -, -, hFind, -, -, -, -, -, -, -, rfl⟩
      · exact ⟨_, Table.find?_insert_self _ _ _⟩
      · exact ⟨i, hFind⟩
    obtain ⟨i, hFind⟩ := hFound
    obtain ⟨host, hHost, hSame⟩ := hAfter.entry hApart hPair hFind
    exact ⟨i, host, hFind, hHost, hSame⟩
  · intro hostId cid i hPair hFind
    have hKey : db.hostHt.find? (hashHostId env hostId cid) = some i :=
      Option.eq_some_of_filter_eq_some hFind
    exact hIndexed.entry hApart hPair hKey

/-- The client's own host and the one that `sampleHostStatus` is about. -/
def samplePairs : Set (BitVec 32 × BitVec 16) := {(0x0A000009#32, 0#16), (0x0A000002#32, 0#16)}

theorem host_index_agrees_status :
    sampleStatusDB.hostTab.length = 1 ∧
    ∀ host, sampleStatusDB.hostHt.find? (hashHostId sampleEnv 0x0A000002#32 0) = some 0 →
      sampleStatusDB.hostTab[0]? = some host → host.hostId = 0x0A000002#32 ∧ host.cid = 0#16 := by
  have hApart : Set.InjOn (fun p : BitVec 32 × BitVec 16 => hashHostId sampleEnv p.1 p.2)
      samplePairs := by
    rintro p (rfl | rfl) q (rfl | rfl) hEq
    · rfl
    · revert hEq
      decide
    · revert hEq
      decide
    · rfl
  have hMeets : Meets sampleEnv (Apart sampleEnv samplePairs) { nextGc := 131 }
      (.pub 5 sampleHostStatus) := by
    intro hostId hId
    have hHost : (.ok 0x0A000002#32 : Result (BitVec 32)) = .ok hostId := hId
    cases hHost
    exact ⟨.inr rfl, fun _ => rfl⟩
  have hInit : (restricted sampleEnv (Apart sampleEnv samplePairs)).Reachable { nextGc := 131 } :=
    System.reachable_of_init sample_init
  have hReach : (restricted sampleEnv (Apart sampleEnv samplePairs)).Reachable sampleStatusDB :=
    hInit.take (.pub 5 sampleHostStatus) sampleStatusDB.outputs hMeets ⟨rfl, rfl⟩
  have hAgrees := (host_index_agrees sampleEnv samplePairs hApart (.inl rfl) sampleStatusDB hReach).1
  exact ⟨by decide, fun host => hAgrees _ _ 0 host (.inr rfl)⟩

def sampleHostStop : EvPublish where
  subject := text "_RV.INFO.SYSTEM.HOST.STOP.0A000002"

def sampleOtherStatus : EvPublish where
  subject := text "_RV.INFO.SYSTEM.HOST.STATUS.0A000001"

/-- A host is seen and stopped, `gc` finds its slot, and another host takes it. -/
def sampleReuse : List Input :=
  [.pub 5 sampleHostStatus, .pub 6 sampleHostStop, .gc, .pub 7 sampleOtherStatus]

def sampleReuseDB : RvSubscriptionDB := (runInputs sampleEnv sampleReuse).toOption.getD {}

/-- The key of the old host still leads to the slot, where the other host now lives. -/
theorem stopped_host_finds_other :
    (subscriptionDB sampleEnv).Reachable sampleReuseDB ∧
    sampleReuseDB.hostHt.find? (hashHostId sampleEnv 0x0A000002#32 0) = some 0 ∧
    sampleReuseDB.hostHt.find? (hashHostId sampleEnv 0x0A000001#32 0) = some 0 ∧
    (sampleReuseDB.hostTab[0]?).map RvHostEntry.slot = some (.query, 0x0A000001#32, 0) ∧
    ((hostRef sampleEnv sampleReuseDB 0x0A000002#32 0 true).toOption.bind fun r =>
      (r.1.hostTab[r.2]?).map RvHostEntry.hostId) = some 0x0A000001#32 := by
  have hRun : runInputs sampleEnv sampleReuse = .ok sampleReuseDB := rfl
  exact ⟨reachable_of_runInputs hRun, by decide, by decide, by decide, by decide⟩

end Sassrv.SubMgr
