import Sassrv.SubMgr.Steps

/-! What the turns do to the slots of the hosts: most of them nothing. -/
namespace Sassrv.SubMgr
open Partial

/-- The turns as far as the slots of the hosts are concerned. -/
inductive HostTurn (env : Env) (P : RvSubscriptionDB → Call → Prop) (db : RvSubscriptionDB) :
    RvSubscriptionDB → Prop where
  | kept {db' : RvSubscriptionDB} (h : SlotsKept db db') : HostTurn env P db db'
  | hostRef {db' : RvSubscriptionDB} {hostId : BitVec 32} {cid : BitVec 16} {isStatus : Bool}
      {i : Nat} (hOk : P db (.hostRef hostId cid))
      (h : hostRef env db hostId cid isStatus = .ok (db', i)) : HostTurn env P db db'
  | hostStart {db' : RvSubscriptionDB} {hostId : BitVec 32} {cid : BitVec 16}
      (hOk : P db (.hostStart hostId cid)) (h : hostStart env db hostId cid = .ok db') :
      HostTurn env P db db'
  | touchHost (i : Nat) {f : RvHostEntry → RvHostEntry} (hSame : ∀ host, SameHost host (f host))
      (hState : ∀ host, db.hostTab[i]? = some host →
        ((f host).state = .stop ↔ host.state = .stop)) : HostTurn env P db (db.modifyHost i f)
  | unsubHost {db' : RvSubscriptionDB} {i : Nat} (hOk : P db (.unsubHost i))
      (h : unsubHost env db i = .ok db') : HostTurn env P db db'
  | gcHosts : HostTurn env P db (gcHosts db)

variable {env : Env} {P : RvSubscriptionDB → Call → Prop} {db db' : RvSubscriptionDB} {i : Nat}
  {name sub : Text}

theorem getSubscription_slotsKept (env : Env) (db : RvSubscriptionDB) (sub : Text) :
    SlotsKept db (getSubscription env db sub) := by
  unfold getSubscription
  split
  · exact .refl db
  · exact .of_eq rfl rfl rfl rfl

theorem refSubscription_slotsKept (env : Env) (db : RvSubscriptionDB) (sub : Text) :
    SlotsKept db (refSubscription env db sub) := by
  unfold refSubscription
  split
  · exact .of_eq rfl rfl rfl rfl
  · exact getSubscription_slotsKept env db sub

theorem holdSubject_digestsOnly (env : Env) (db : RvSubscriptionDB) (name : Text)
    (sess : RvSessionEntry) (ht : UIntHashTab) (sub : Text) (script : RvSubscription) :
    DigestsOnly db (holdSubject env db name sess ht sub script).1 := by
  have hMove : ∀ f g, DigestsOnly db (hostDigest env ((db.modifySession name f).modifySub sub g)
      name sess sub true) := by
    intro f g
    refine DigestsOnly.trans ?_ (hostDigest_digestsOnly env _ name sess sub true)
    exact .of_eq rfl rfl rfl rfl
  unfold holdSubject
  dsimp only
  split
  · exact (hMove _ _).trans (.of_eq rfl rfl rfl rfl)
  · exact hMove _ _

theorem releaseSubject_digestsOnly (env : Env) (db : RvSubscriptionDB) (name : Text)
    (sess : RvSessionEntry) (ht : UIntHashTab) (sub : Text) (script : RvSubscription) :
    DigestsOnly db (releaseSubject env db name sess ht sub script).1 := by
  have hMove : ∀ f g, DigestsOnly db (hostDigest env ((db.modifySession name f).modifySub sub g)
      name sess sub false) := by
    intro f g
    refine DigestsOnly.trans ?_ (hostDigest_digestsOnly env _ name sess sub false)
    exact .of_eq rfl rfl rfl rfl
  unfold releaseSubject
  dsimp only
  split
  · exact (hMove _ _).trans (.of_eq rfl rfl rfl rfl)
  · split
    · exact (hMove _ _).trans (queryRv7Session_digestsOnly env _ _)
    · exact hMove _ _

theorem listenRef_slotsKept {r : Listened} (h : listenRef env db name sub = .ok r) :
    SlotsKept db r.db := by
  obtain ⟨sess, ht, script, -, -, -, -, hCase⟩ := listenRef_cases h
  apply (refSubscription_slotsKept env db (stripNul sub)).trans
  rcases hCase with ⟨-, hDb, -⟩ | ⟨-, -, hDb⟩
  · rw [hDb]
    exact .refl _
  · rw [hDb]
    exact (holdSubject_digestsOnly env _ name sess ht _ script).slotsKept

theorem derefSubscription_slotsKept {r : Listened} (h : derefSubscription env db name sub = .ok r) :
    SlotsKept db r.db := by
  obtain ⟨sess, script, -, -, -, hCase⟩ := derefSubscription_cases h
  rcases hCase with ⟨-, hDb, -⟩ | ⟨-, -, ht, -, -, hDb⟩
  · rw [hDb]
    exact .refl _
  · rw [hDb]
    exact (releaseSubject_digestsOnly env db name sess ht sub script).slotsKept

theorem sass3_slotsKept {script : RvSubscription} {app : SassApp} {flags : BitVec 16}
    {entry : RvSass3Entry} (h : sass3 env db sub script app flags = .ok (db', entry)) :
    SlotsKept db db' := by
  unfold sass3 at h
  dsimp only at h
  split at h
  · split at h
    · cases h
    · simp only [sass3Known, Except.ok.injEq] at h
      split at h
      · cases h
        exact .refl db
      · split at h <;> cases h <;> exact .of_eq rfl rfl rfl rfl
  · simp only [sass3New, Except.ok.injEq] at h
    split at h <;> cases h <;> exact .of_eq rfl rfl rfl rfl

theorem expireEntry_slotsKept {entry : RvSass3Entry} (h : expireEntry env db entry = .ok db') :
    SlotsKept db db' := by
  unfold expireEntry at h
  dsimp only at h
  split at h
  · cases h
    exact .of_eq rfl rfl rfl rfl
  · simp only [bind_eq_ok] at h
    obtain ⟨script, -, h⟩ := h
    split at h
    · cases h
      exact .of_eq rfl rfl rfl rfl
    · split at h
      · cases h
        exact .of_eq rfl rfl rfl rfl
      · cases h

theorem Turn.hostTurn (h : Turn env P db db') : HostTurn env P db db' := by
  cases h with
  | hostRef hOk h => exact .hostRef hOk h
  | hostStart hOk h => exact .hostStart hOk h
  | touchHost i hSame hState => exact .touchHost i hSame hState
  | unsubHost hOk h => exact .unsubHost hOk h
  | remSession hOwned h => exact .kept (remSession_slotsKept h)
  | enterSession hOk hHost hAwake hNew hSame hState h =>
      refine .kept (SlotsKept.trans ?_ (addSession_slotsKept h))
      exact .of_eq rfl rfl rfl rfl
  | touchSession name hSame hState => exact .kept (.of_eq rfl rfl rfl rfl)
  | query hWhy => exact .kept (.of_eq rfl rfl rfl rfl)
  | touchSub sub hSame => exact .kept (.of_eq rfl rfl rfl rfl)
  | getSubscription sub => exact .kept (getSubscription_slotsKept env db sub)
  | listen hOk isListenStart reply h hScript =>
      refine .kept ((listenRef_slotsKept h).trans ?_)
      split
      · exact (notify_digestsOnly env _ _).slotsKept
      · exact .refl _
  | release isListenStop h hDone hScript =>
      exact .kept ((derefSubscription_slotsKept h).trans (notify_digestsOnly env _ _).slotsKept)
  | orphan hOk hSess hScript hNot => exact .kept (notify_digestsOnly env _ _).slotsKept
  | sass3 hOk hScript h => exact .kept (sass3_slotsKept h)
  | expire hOk h => exact .kept (expireEntry_slotsKept h)
  | sass3List list => exact .kept (.of_eq rfl rfl rfl rfl)
  | note curMono nextGc softHostQuery outs hSilent => exact .kept (.of_eq rfl rfl rfl rfl)
  | gcSubscriptions hOk =>
      apply HostTurn.kept
      unfold SubMgr.gcSubscriptions
      split
      · exact .of_eq rfl rfl rfl rfl
      · exact .refl db
  | gcSessions =>
      apply HostTurn.kept
      unfold SubMgr.gcSessions
      split
      · exact .of_eq rfl rfl rfl rfl
      · exact .refl db
  | gcHosts => exact .gcHosts

/-- A condition together with that no host is dropped. -/
def Staying (P : RvSubscriptionDB → Call → Prop) (db : RvSubscriptionDB) (call : Call) : Prop :=
  P db call ∧ ∀ i, call ≠ .unsubHost i

theorem start_host_ne_stop (hostId : BitVec 32) (cid : BitVec 16) (curMono : BitVec 32)
    (isStart isStatus : Bool) : (RvHostEntry.start hostId cid curMono isStart isStatus).state ≠ .stop := by
  unfold RvHostEntry.start
  dsimp only
  split
  · simp
  · split <;> simp

/-- The entry of a slot after `host_ref`: a new one where there was none or a stopped one,
or the old one with its times and state. -/
theorem hostRef_cases {hostId : BitVec 32} {cid : BitVec 16} {isStatus : Bool}
    (h : hostRef env db hostId cid isStatus = .ok (db', i)) :
    (db.hostHt.find? (hashHostId env hostId cid) = none ∧ db.FreeSlot ∧ i = db.firstFreeHost ∧
      db' = { db with
        firstFreeHost := i + 1
        hosts := { db.hosts with active := db.hosts.active + 1 }
        hostHt := db.hostHt.insert (hashHostId env hostId cid) i }.putHost i
          (.start hostId cid db.curMono false isStatus)) ∨
    (∃ host, db.hostHt.find? (hashHostId env hostId cid) = some i ∧ db.hostTab[i]? = some host ∧
      host.state = .stop ∧
      db' = { db with hosts := { db.hosts with active := db.hosts.active + 1 } }.modifyHost i
        fun _ => .start hostId cid db.curMono false isStatus) ∨
    (∃ host f, db.hostHt.find? (hashHostId env hostId cid) = some i ∧ db.hostTab[i]? = some host ∧
      host.state ≠ .stop ∧ (∀ host, SameHost host (f host)) ∧ (f host).state ≠ .stop ∧
      db' = db.modifyHost i f) := by
  have hAwake := (hostRef_slot h).2
  unfold hostRef at h
  split at h
  · next hNone =>
      unfold takeSlot at h
      split at h
      · next hFree =>
          cases h
          exact .inl ⟨hNone, hFree, rfl, rfl⟩
      · cases h
  · next j hFind =>
      simp only [refSlot, bind_eq_ok, hostAt_eq_ok] at h
      obtain ⟨host, hHost, h⟩ := h
      split at h
      · next hStop =>
          cases h
          exact .inr (.inl ⟨host, hFind, hHost, hStop, rfl⟩)
      · next hNot =>
          split at h
          · cases h
            refine .inr (.inr ⟨host, fun host => host.status db.curMono, hFind, hHost, hNot, ?_, ?_, rfl⟩)
            · intro host
              unfold RvHostEntry.status RvHostEntry.checkQueryNeeded
              dsimp only
              split
              · exact ⟨rfl, rfl, rfl, rfl, rfl, rfl⟩
              · split <;> exact ⟨rfl, rfl, rfl, rfl, rfl, rfl⟩
            · obtain ⟨host', hHost', hNot'⟩ := hAwake
              have hEq : host' = host.status db.curMono := by
                simpa [RvSubscriptionDB.modifyHost, hHost] using hHost'.symm
              rw [hEq] at hNot'
              exact hNot'
          · cases h
            refine .inr (.inr ⟨host, fun host => host.ref db.curMono, hFind, hHost, hNot, ?_, hNot, rfl⟩)
            exact fun _ => ⟨rfl, rfl, rfl, rfl, rfl, rfl⟩

theorem hostStart_cases {hostId : BitVec 32} {cid : BitVec 16}
    (h : hostStart env db hostId cid = .ok db') :
    (db.hostHt.find? (hashHostId env hostId cid) = none ∧
      db' = { db with
        hostHt := db.hostHt.insert (hashHostId env hostId cid) db.hostTab.length
        hostTab := db.hostTab ++ [.start hostId cid db.curMono true false] }) ∨
    (∃ i host fresh, db.hostHt.find? (hashHostId env hostId cid) = some i ∧
      db.hostTab[i]? = some host ∧ fresh.state ≠ .stop ∧ fresh.hostId = hostId ∧ fresh.cid = cid ∧
      fresh.sessHt = some .empty ∧ fresh.subCount = 0 ∧ fresh.subDigest = 0 ∧
      db' = db.modifyHost i fun _ => fresh) := by
  unfold hostStart at h
  split at h
  · next hNone =>
      cases h
      exact .inl ⟨hNone, rfl⟩
  · next i hFind =>
      simp only [bind_eq_ok, hostAt_eq_ok, pure_eq_ok] at h
      obtain ⟨host, hHost, rfl⟩ := h
      refine .inr ⟨i, host, _, hFind, hHost, ?_, ?_, ?_, ?_, ?_, ?_, rfl⟩
      · split
        · exact start_host_ne_stop _ _ _ _ _
        · simp
      all_goals split <;> rfl

/-- The sessions of a host are dropped before the host is stopped. -/
theorem unsubHost_cases (h : unsubHost env db i = .ok db') :
    ∃ host db₁, db.hostTab[i]? = some host ∧ DigestsOnly db db₁ ∧
      (sessionsOf env db host.sessHt).foldlM (unsubSession env) db = .ok db₁ ∧
      db' = { db₁.modifyHost i fun host => host.stop db₁.curMono with hosts := db₁.hosts.retire } := by
  simp only [unsubHost, bind_eq_ok, hostAt_eq_ok, pure_eq_ok] at h
  obtain ⟨host, hHost, db₁, hLoop, rfl⟩ := h
  refine ⟨host, db₁, hHost, ?_, hLoop, rfl⟩
  exact foldlM_rel DigestsOnly.refl DigestsOnly.trans
    (fun _ _ _ _ hOne => unsubSession_digestsOnly hOne) hLoop

theorem RvSubscriptionDB.Awake.of_modifyHost {j : Nat} {f : RvHostEntry → RvHostEntry}
    (h : db.Awake i) (hState : ∀ host, db.hostTab[j]? = some host → host.state ≠ .stop →
      (f host).state ≠ .stop) : (db.modifyHost j f).Awake i := by
  obtain ⟨host, hHost, hNot⟩ := h
  by_cases hSame : j = i
  · subst hSame
    exact ⟨f host, by simp [RvSubscriptionDB.modifyHost, hHost], hState host hHost hNot⟩
  · exact ⟨host, by simp [RvSubscriptionDB.modifyHost, hSame, hHost], hNot⟩

/-- A host stays awake as long as no host is dropped. -/
theorem Turn.awake (h : Turn env (Staying P) db db') (hAwake : db.Awake i) : db'.Awake i := by
  cases h.hostTurn with
  | kept hKept => exact hKept.awake hAwake
  | hostRef hOk hRef =>
      rcases hostRef_cases hRef with ⟨-, hFree, rfl, rfl⟩ | ⟨host, -, -, -, rfl⟩ |
        ⟨host, f, -, hHost, -, -, hState, rfl⟩
      · obtain ⟨host, hHost, hNot⟩ := hAwake
        have hLt : i < db.hostTab.length := (List.getElem?_eq_some_iff.mp hHost).1
        have hNe : i ≠ db.firstFreeHost := by
          rintro rfl
          rcases hFree with hLast | hStop
          · omega
          · rw [hHost, Option.map_some] at hStop
            exact hNot (Option.some.inj hStop)
        refine ⟨host, ?_, hNot⟩
        simp only [RvSubscriptionDB.putHost]
        split
        · rw [List.getElem?_set_ne (Ne.symm hNe)]
          exact hHost
        · rw [List.getElem?_append_left hLt]
          exact hHost
      · apply RvSubscriptionDB.Awake.of_modifyHost hAwake
        exact fun _ _ _ => start_host_ne_stop _ _ _ _ _
      · apply RvSubscriptionDB.Awake.of_modifyHost hAwake
        intro host' hHost' _
        obtain rfl := Option.some.inj (hHost.symm.trans hHost')
        exact hState
  | hostStart hOk hStart =>
      rcases hostStart_cases hStart with ⟨-, rfl⟩ | ⟨j, host, fresh, -, -, hState, -, -, -, -, -, rfl⟩
      · obtain ⟨host, hHost, hNot⟩ := hAwake
        have hLt : i < db.hostTab.length := (List.getElem?_eq_some_iff.mp hHost).1
        refine ⟨host, ?_, hNot⟩
        dsimp only
        rw [List.getElem?_append_left hLt]
        exact hHost
      · apply RvSubscriptionDB.Awake.of_modifyHost hAwake
        exact fun _ _ _ => hState
  | touchHost j hSame hState =>
      apply RvSubscriptionDB.Awake.of_modifyHost hAwake
      intro host hHost hNot hStop
      exact hNot ((hState host hHost).mp hStop)
  | unsubHost hOk _ => exact absurd rfl (hOk.2 _)
  | gcHosts =>
      unfold SubMgr.gcHosts
      split <;> exact hAwake

theorem Turns.awake (h : Turns env (Staying P) db db') (hAwake : db.Awake i) : db'.Awake i := by
  induction h with
  | refl => exact hAwake
  | tail _ hTurn ih => exact hTurn.awake ih

end Sassrv.SubMgr
