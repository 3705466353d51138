import Sassrv.SubMgr.Runs
import Sassrv.SubMgr.StepTurns

/-! The search of `host_ref` for a free slot. It ends at once or never, so that an
unseen host is entered only while `first_free_host` is the end of the table or a
stopped slot. `host_start` does not look at it when it enters or restarts a host. -/
namespace Sassrv.SubMgr
open Transition

/-- A call that leaves a slot for the next unseen host. `host_ref` takes the free slot
and moves on by one, which has to be free as well; the slot of a host that starts
again, or that `host_start` pushes, must not be the free one. -/
def SlotLeft (env : Env) (db : RvSubscriptionDB) : Call → Prop
  | .hostRef hostId cid =>
      match db.hostHt.find? (hashHostId env hostId cid) with
      | none => db.firstFreeHost = db.hostTab.length ∨
          db.firstFreeHost + 1 = db.hostTab.length ∨
          (db.hostTab[db.firstFreeHost + 1]?).map RvHostEntry.state = some .stop
      | some i => (db.hostTab[i]?).map RvHostEntry.state = some .stop → i ≠ db.firstFreeHost
  | .hostStart hostId cid =>
      match db.hostHt.find? (hashHostId env hostId cid) with
      | none => db.firstFreeHost ≠ db.hostTab.length
      | some i => (db.hostTab[i]?).map RvHostEntry.state = some .stop → i ≠ db.firstFreeHost
  | _ => True

variable {env : Env} {db db' : RvSubscriptionDB} {i : Nat}

theorem SlotsKept.freeSlot (h : SlotsKept db db') (hFree : db.FreeSlot) : db'.FreeSlot := by
  unfold RvSubscriptionDB.FreeSlot
  rw [h.firstFreeHost, h.length, h.state]
  exact hFree

/-- An entry that is not the free one is rewritten. -/
theorem RvSubscriptionDB.FreeSlot.modifyHost {f : RvHostEntry → RvHostEntry} (hFree : db.FreeSlot)
    (hOther : ∀ host, db.hostTab[i]? = some host → host.state = .stop → i = db.firstFreeHost →
      (f host).state = .stop) : (db.modifyHost i f).FreeSlot := by
  rcases hFree with hLast | hStop
  · left
    simpa [RvSubscriptionDB.modifyHost] using hLast
  · right
    obtain ⟨host, hHost, hState⟩ := Option.map_eq_some_iff.mp hStop
    by_cases hSame : i = db.firstFreeHost
    · have hAfter := hOther host (hSame ▸ hHost) hState hSame
      simp [RvSubscriptionDB.modifyHost, hSame, hHost, hAfter]
    · simp [RvSubscriptionDB.modifyHost, hSame, hHost, hState]

theorem hostRef_freeSlot {hostId : BitVec 32} {cid : BitVec 16} {isStatus : Bool}
    (hOk : SlotLeft env db (.hostRef hostId cid)) (hFree : db.FreeSlot)
    (h : hostRef env db hostId cid isStatus = .ok (db', i)) : db'.FreeSlot := by
  simp only [SlotLeft] at hOk
  rcases hostRef_cases h with ⟨hNone, -, rfl, rfl⟩ | ⟨host, hFind, hHost, hStop, rfl⟩ |
    ⟨host, f, -, hHost, hNot, -, -, rfl⟩
  · rw [hNone] at hOk
    dsimp only at hOk
    unfold RvSubscriptionDB.FreeSlot RvSubscriptionDB.putHost
    dsimp only
    split
    · next hLt =>
        rcases hOk with hLast | hLast | hNext
        · omega
        · left
          rw [List.length_set]
          exact hLast
        · right
          rw [List.getElem?_set_ne (by omega)]
          exact hNext
    · next hNot =>
        left
        rcases hFree with hLast | hStop
        · rw [List.length_append, hLast, List.length_singleton]
        · rw [List.getElem?_eq_none (by omega)] at hStop
          cases hStop
  · rw [hFind] at hOk
    have hOther : i ≠ db.firstFreeHost := hOk (by rw [hHost, Option.map_some, hStop])
    have hCounted : ({ db with hosts := { db.hosts with active := db.hosts.active + 1 } } :
        RvSubscriptionDB).FreeSlot := hFree
    exact hCounted.modifyHost fun _ _ _ hSame => absurd hSame hOther
  · apply hFree.modifyHost
    intro host' hHost' hStop _
    obtain rfl := Option.some.inj (hHost.symm.trans hHost')
    exact absurd hStop hNot

theorem hostStart_freeSlot {hostId : BitVec 32} {cid : BitVec 16}
    (hOk : SlotLeft env db (.hostStart hostId cid)) (hFree : db.FreeSlot)
    (h : hostStart env db hostId cid = .ok db') : db'.FreeSlot := by
  simp only [SlotLeft] at hOk
  rcases hostStart_cases h with ⟨hNone, rfl⟩ | ⟨i, host, fresh, hFind, hHost, -, -, -, -, -, -, rfl⟩
  · rw [hNone] at hOk
    rcases hFree with hLast | hStop
    · exact absurd hLast hOk
    · right
      obtain ⟨host, hHost, hState⟩ := Option.map_eq_some_iff.mp hStop
      have hLt : db.firstFreeHost < db.hostTab.length := (List.getElem?_eq_some_iff.mp hHost).1
      dsimp only
      rw [List.getElem?_append_left hLt]
      exact hStop
  · rw [hFind] at hOk
    apply hFree.modifyHost
    intro host' hHost' hStop hSame
    obtain rfl := Option.some.inj (hHost.symm.trans hHost')
    exact absurd hSame (hOk (by rw [hHost, Option.map_some, hStop]))

theorem gcHosts_freeSlot (hFree : db.FreeSlot) : (gcHosts db).FreeSlot := by
  unfold gcHosts
  split
  · next hFull =>
      cases hFind : db.hostTab.findIdx? fun host => host.state = .stop with
      | none =>
          left
          exact hFull.2
      | some j =>
          right
          obtain ⟨hLt, hStop, -⟩ := List.findIdx?_eq_some_iff_getElem.mp hFind
          have hState : db.hostTab[j].state = .stop := by simpa using hStop
          simp [hLt, hState]
  · exact hFree

/-- A turn leaves a slot for the next unseen host. -/
theorem Turn.freeSlot (h : Turn env (SlotLeft env) db db') (hFree : db.FreeSlot) : db'.FreeSlot := by
  cases h.hostTurn with
  | kept hKept => exact hKept.freeSlot hFree
  | hostRef hOk hRef => exact hostRef_freeSlot hOk hFree hRef
  | hostStart hOk hStart => exact hostStart_freeSlot hOk hFree hStart
  | touchHost i hSame hState =>
      apply hFree.modifyHost
      intro host hHost hStop _
      exact (hState host hHost).mpr hStop
  | unsubHost _ hUnsub =>
      obtain ⟨host, db₁, -, hDigests, -, rfl⟩ := unsubHost_cases hUnsub
      have hBefore : db₁.FreeSlot := hDigests.slotsKept.freeSlot hFree
      have hStopped : ∀ i, (db₁.modifyHost i fun host => host.stop db₁.curMono).FreeSlot :=
        fun i => hBefore.modifyHost fun _ _ _ _ => rfl
      exact hStopped _
  | gcHosts => exact gcHosts_freeSlot hFree

/-- In the runs whose calls leave a slot, the search for one ends in every state, and
no step hangs in it. -/
theorem host_ref_finds_slot (env : Env) (db : RvSubscriptionDB)
    (h : (restricted env (SlotLeft env)).Reachable db) :
    db.FreeSlot ∧ ∀ input, Meets env (SlotLeft env) { db with outputs := [] } input →
      step env { db with outputs := [] } input ≠ .error .freeSlot := by
  have hTurn : ∀ db db', Turn env (SlotLeft env) db db' → db.FreeSlot → db'.FreeSlot :=
    fun _ _ hTurn => hTurn.freeSlot
  have hFree : db.FreeSlot := by
    refine restricted_invariant ?_ (fun _ hFree => hFree) hTurn h
    exact fun curMono => ⟨.inl rfl, meetsInit_of_enter (.inl rfl) fun _ _ _ => trivial⟩
  exact ⟨hFree, fun input hMeets => restricted_finds_slot hTurn (fun _ hFree => hFree) hFree hMeets⟩

def sampleHostStart : EvPublish where
  subject := text "_RV.INFO.SYSTEM.HOST.START.0A000001"

def sampleHostStatus : EvPublish where
  subject := text "_RV.INFO.SYSTEM.HOST.STATUS.0A000002"

/-- The state after the status of a host that was not seen before. -/
def sampleStatusDB : RvSubscriptionDB :=
  (runInputs sampleEnv [.pub 5 sampleHostStatus]).toOption.getD {}

theorem host_ref_finds_slot_status :
    sampleStatusDB.FreeSlot ∧ sampleStatusDB.hostTab.length = 1 := by
  have hMeets : Meets sampleEnv (SlotLeft sampleEnv) { nextGc := 131 } (.pub 5 sampleHostStatus) := by
    intro hostId hId
    exact .inl rfl
  have hInit : (restricted sampleEnv (SlotLeft sampleEnv)).Reachable { nextGc := 131 } :=
    System.reachable_of_init sample_init
  have hReach : (restricted sampleEnv (SlotLeft sampleEnv)).Reachable sampleStatusDB :=
    hInit.take (.pub 5 sampleHostStatus) sampleStatusDB.outputs hMeets ⟨rfl, rfl⟩
  exact ⟨(host_ref_finds_slot sampleEnv sampleStatusDB hReach).1, by decide⟩

/-- The state after the start of a host that was not seen before. -/
def sampleStartDB : RvSubscriptionDB :=
  (runInputs sampleEnv [.pub 5 sampleHostStart]).toOption.getD {}

/-- `host_start` pushes the host over the free slot, and the status of the next unseen
host is never processed. -/
theorem host_ref_search_hangs :
    (subscriptionDB sampleEnv).Reachable sampleStartDB ∧ ¬ sampleStartDB.FreeSlot ∧
      sampleStartDB.hostHt.find? (hashHostId sampleEnv 0x0A000002#32 0) = none ∧
      step sampleEnv { sampleStartDB with outputs := [] } (.pub 6 sampleHostStatus) =
        .error .freeSlot := by
  have hStep : (subscriptionDB sampleEnv).step { nextGc := 131 } (.pub 5 sampleHostStart)
      sampleStartDB.outputs sampleStartDB := ⟨rfl, rfl⟩
  refine ⟨(System.reachable_of_init sample_init).step hStep, by decide, by decide, rfl⟩

end Sassrv.SubMgr
