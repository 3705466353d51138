import Sassrv.SubMgr.SassKept

/-! What the listener is told about sass3 entries. An entry is held while its key is in
the table; the calls go by its start time, which is zero for what is not held. -/
namespace Sassrv.SubMgr
open Partial Transition

variable {env : Env} {db db' : RvSubscriptionDB} {sub x : Text} {app : SassApp}
  {flags : BitVec 16}

/-- The flags of a message about sass3 entries are different bits. -/
structure SassBits (env : Env) : Prop where
  snapshot : env.qfSnapshot ≠ 0
  unsubscribe : env.qfUnsubscribe ≠ 0
  resubscribe : env.qfResubscribe ≠ 0
  snapshotUnsubscribe : env.qfSnapshot &&& env.qfUnsubscribe = 0
  snapshotResubscribe : env.qfSnapshot &&& env.qfResubscribe = 0
  unsubscribeResubscribe : env.qfUnsubscribe &&& env.qfResubscribe = 0

theorem ne_of_and_eq_zero {a b : BitVec 16} (ha : a ≠ 0) (h : a &&& b = 0) : a ≠ b := by
  rintro rfl
  exact ha (by simpa using h)

/-- An entry of the subject for the application is held. -/
def SassHeld (env : Env) (db : RvSubscriptionDB) (app : SassApp) (sub : Text) : Prop :=
  ∃ script, db.subTab.find? sub = some script ∧ sass3Key env sub script app ∈ db.sass3Tab

/-- The user, the host, the application and the process that a call is about. -/
def RvSass3Key.client (key : RvSass3Key) : Text × Text × Text × BitVec 32 :=
  (key.userId, key.host, key.app, key.pid)

/-- The same of a message: what stands in for names that are missing. -/
def SassApp.client (app : SassApp) : Text × Text × Text × BitVec 32 :=
  (if app.user.length ≠ 0 then cstr app.user else text "nobody",
    if app.host.length ≠ 0 then cstr app.host else text "localhost",
    if app.app.length ≠ 0 then cstr app.app else text "unknown", app.pid)

/-- A call of `on_sass3`. -/
structure SassCall where
  sub : Text
  client : Text × Text × Text × BitVec 32
  isOrphan : Bool
  isAsserted : Bool
deriving DecidableEq

def sassCalls (outs : List Output) : List SassCall :=
  outs.filterMap fun out => match out with
    | .sass3 entry sub _ _ _ isOrphan isAsserted => some ⟨sub, entry.client, isOrphan, isAsserted⟩
    | _ => none

/-- An entry whose key is in the table has a start time. -/
def SassStarted (db : RvSubscriptionDB) : Prop :=
  ∀ e ∈ db.sass3List, e.toRvSass3Key ∈ db.sass3Tab → e.startMono ≠ 0

theorem SassStarted.of_kept (h : SassStarted db) (hKept : SassKept db db') : SassStarted db' := by
  unfold SassStarted
  rw [hKept.tab, hKept.list]
  exact h

theorem Referenced.sass3Key_ne_zero (inv : Referenced env db)
    (ids : SubjectIds env db.nextSubjectCtr) {key : RvSass3Key} (h : key ∈ db.sass3Tab) :
    key.subjectId ≠ 0 := by
  obtain ⟨y, s, hs, hId, -⟩ := inv.located key h
  rw [← hId]
  exact inv.subjectId_ne_zero ids hs

/-- A key tells the subjects apart. -/
theorem Referenced.sass3Key_inj (inv : Referenced env db) {y : Text} {s t : RvSubscription}
    (hs : db.subTab.find? x = some s) (ht : db.subTab.find? y = some t)
    (hKey : sass3Key env x s app = sass3Key env y t app) : x = y :=
  inv.distinct x s y t hs ht (congrArg RvSass3Key.subjectId hKey)

theorem sassHeld_iff {script : RvSubscription} (hScript : db.subTab.find? sub = some script) :
    SassHeld env db app sub ↔ sass3Key env sub script app ∈ db.sass3Tab := by
  constructor
  · rintro ⟨s, hs, hMem⟩
    cases hScript.symm.trans hs
    exact hMem
  · exact fun hMem => ⟨script, hScript, hMem⟩

/-- A subject that is entered has no sass3 entry. -/
theorem getSubscription_sassHeld (sub : Text)
    (ids : SubjectIds env (getSubscription env db sub).nextSubjectCtr) (inv : Referenced env db)
    (x : Text) : SassHeld env (getSubscription env db sub) app x ↔ SassHeld env db app x := by
  by_cases hOld : db.subTab.contains sub = true
  · rw [getSubscription, if_pos hOld]
  · have hNone : db.subTab.find? sub = none := by simpa [Table.contains] using hOld
    rw [getSubscription, if_neg hOld] at ids ⊢
    constructor
    · rintro ⟨s, hs, hMem⟩
      simp only [Table.find?_insert] at hs
      split at hs
      · cases hs
        obtain ⟨y, t, ht, hId, -⟩ := inv.located _ hMem
        obtain ⟨n, hPos, hLe, hIssued⟩ := inv.issued y t ht
        have hEq := ids.distinct n (db.nextSubjectCtr + 1) hPos (Nat.le_succ_of_le hLe)
          (Nat.succ_pos _) le_rfl (hIssued.symm.trans hId)
        omega
      · exact ⟨s, hs, hMem⟩
    · rintro ⟨s, hs, hMem⟩
      have hNe : x ≠ sub := by
        rintro rfl
        cases hNone.symm.trans hs
      exact ⟨s, by simp [hNe, hs], hMem⟩

theorem modifySub_ids (db : RvSubscriptionDB) {f : RvSubscription → RvSubscription}
    (hId : ∀ s, (f s).subjectId = s.subjectId) (sub x : Text) :
    ((db.modifySub sub f).subTab.find? x).map RvSubscription.subjectId =
      (db.subTab.find? x).map RvSubscription.subjectId := by
  simp only [RvSubscriptionDB.modifySub, Table.find?_modify, Option.map_map]
  congr 1
  funext s
  by_cases hx : x = sub <;> simp [hx, hId]

/-- The ids of the subjects stay, and one key enters or leaves the table. -/
theorem sassHeld_moved (f : RvSubscription → RvSubscription) {tab : Finset RvSass3Key}
    {script : RvSubscription} {now : Prop} (inv : Referenced env db) (list : List RvSass3Entry)
    (hScript : db.subTab.find? sub = some script) (hId : ∀ s, (f s).subjectId = s.subjectId)
    (hTab : ∀ key, key ∈ tab ↔
      if key = sass3Key env sub script app then now else key ∈ db.sass3Tab) (x : Text) :
    SassHeld env ((db.modifySub sub f).setSass3 tab list) app x ↔
      (if x = sub then now else SassHeld env db app x) := by
  have hKeys : ∀ s s' : RvSubscription, s'.subjectId = s.subjectId →
      sass3Key env x s' app = sass3Key env x s app := by
    intro s s' hId
    simp only [sass3Key, hId]
  have hFind : (((db.modifySub sub f).setSass3 tab list).subTab.find? x).map RvSubscription.subjectId =
      (db.subTab.find? x).map RvSubscription.subjectId := modifySub_ids db hId sub x
  have hMem : ∀ key, key ∈ ((db.modifySub sub f).setSass3 tab list).sass3Tab ↔
      if key = sass3Key env sub script app then now else key ∈ db.sass3Tab := hTab
  unfold SassHeld
  cases hOld : db.subTab.find? x with
  | none =>
      rw [hOld, Option.map_none, Option.map_eq_none_iff] at hFind
      have hNe : x ≠ sub := by
        rintro rfl
        cases hOld.symm.trans hScript
      simp [hFind, hNe]
  | some s =>
      rw [hOld, Option.map_some] at hFind
      obtain ⟨s', hs', hId'⟩ := Option.map_eq_some_iff.mp hFind
      simp only [hs', Option.some.injEq, exists_eq_left', hMem, hKeys s s' hId']
      by_cases hx : x = sub
      · subst hx
        cases hOld.symm.trans hScript
        simp
      · rw [if_neg hx, if_neg fun hKey => hx (inv.sass3Key_inj hOld hScript hKey)]

/-- What a message does to the entry of the subject it is about. -/
def SassAfter (env : Env) (flags : BitVec 16) (before : Prop) : Prop :=
  flags ≠ env.qfUnsubscribe ∧ (flags = env.qfSnapshot → before)

/-- How `sass3` comes by the entry that it returns. -/
inductive SassFound (env : Env) (db db' : RvSubscriptionDB) (app : SassApp) (sub : Text)
    (flags : BitVec 16) (entry : RvSass3Entry) : Prop where
  | known (hHeld : SassHeld env db app sub) (hStart : entry.startMono ≠ 0)
      (hStarted : SassStarted db')
  | refused (hNot : ¬ SassHeld env db app sub)
      (hFlags : flags = env.qfSnapshot ∨ flags = env.qfUnsubscribe) (hStart : entry.startMono = 0)
      (hStarted : SassStarted db')
  | entered (hNot : ¬ SassHeld env db app sub)
      (hFlags : ¬ (flags = env.qfSnapshot ∨ flags = env.qfUnsubscribe))
      (hStart : entry.startMono = if flags &&& env.qfResubscribe ≠ 0 then 0 else db.curMono)
      (hList : db'.sass3List = db.sass3List ++ [entry])
      (hFresh : ∀ e ∈ db.sass3List, e.toRvSass3Key ≠ entry.toRvSass3Key)
      (hTab : ∀ e ∈ db.sass3List, e.toRvSass3Key ∈ db'.sass3Tab → e.toRvSass3Key ∈ db.sass3Tab)

/-- What `sass3` leaves, whatever it does with the entry. -/
structure SassTurn (env : Env) (db db' : RvSubscriptionDB) (app : SassApp) (sub : Text)
    (flags : BitVec 16) (entry : RvSass3Entry) : Prop where
  held : ∀ x, SassHeld env db' app x ↔
    (if x = sub then SassAfter env flags (SassHeld env db app sub) else SassHeld env db app x)
  client : entry.client = app.client
  curMono : db'.curMono = db.curMono
  outputs : db'.outputs = db.outputs
  found : SassFound env db db' app sub flags entry

theorem sass3Known_turn (flags : BitVec 16) {script : RvSubscription} {old : RvSass3Entry}
    (bits : SassBits env) (ids : SubjectIds env db.nextSubjectCtr) (inv : Referenced env db)
    (hStarted : SassStarted db) (hScript : db.subTab.find? sub = some script)
    (hHeld : sass3Key env sub script app ∈ db.sass3Tab) (hIn : old ∈ db.sass3List)
    (hKey : old.toRvSass3Key = sass3Key env sub script app) :
    SassTurn env db (sass3Known env db sub (sass3Key env sub script app) old flags).1 app sub flags
      (sass3Known env db sub (sass3Key env sub script app) old flags).2 := by
  have hBefore : SassHeld env db app sub := (sassHeld_iff hScript).mpr hHeld
  have hOld : old.startMono ≠ 0 := hStarted old hIn (hKey ▸ hHeld)
  have hClient : old.client = app.client := congrArg RvSass3Key.client hKey
  have hNe := ne_of_and_eq_zero bits.snapshot bits.snapshotUnsubscribe
  unfold sass3Known
  by_cases hSnap : flags = env.qfSnapshot
  · rw [if_pos hSnap]
    refine ⟨fun x => ?_, hClient, rfl, rfl,
      .known hBefore hOld hStarted⟩
    split
    · next hx =>
        subst hx
        exact iff_of_true hBefore ⟨fun hUnsub => hNe (hSnap.symm.trans hUnsub), fun _ => hBefore⟩
    · exact Iff.rfl
  · rw [if_neg hSnap]
    by_cases hUnsub : flags = env.qfUnsubscribe
    · rw [if_pos hUnsub]
      refine ⟨fun x => ?_, hClient, rfl, rfl,
        .known hBefore hOld ?_⟩
      · have hErase : ∀ key, key ∈ db.sass3Tab.erase (sass3Key env sub script app) ↔
            if key = sass3Key env sub script app then False else key ∈ db.sass3Tab := by
          intro key
          rw [Finset.mem_erase]
          split
          · next hEq => exact iff_of_false (fun h => h.1 hEq) id
          · next hEq => exact and_iff_right hEq
        refine (sassHeld_moved (fun s => s.dropRef false) inv _ hScript (fun _ => rfl) hErase x).trans ?_
        · split
          · exact iff_of_false id fun h => h.1 hUnsub
          · exact Iff.rfl
      · intro e he hMem
        rcases List.mem_cons.mp he with rfl | hRest
        · exact absurd rfl (inv.sass3Key_ne_zero ids (Finset.mem_of_mem_erase hMem))
        · exact hStarted e (List.mem_of_mem_erase hRest) (Finset.mem_of_mem_erase hMem)
    · rw [if_neg hUnsub]
      refine ⟨fun x => ?_, hClient, rfl, rfl,
        .known hBefore hOld ?_⟩
      · refine Iff.trans (b := SassHeld env db app x) Iff.rfl ?_
        split
        · next hx =>
            subst hx
            exact iff_of_true hBefore ⟨hUnsub, fun h => absurd h hSnap⟩
        · exact Iff.rfl
      · intro e he hMem
        rcases List.mem_append.mp he with hRest | hLast
        · exact hStarted e (List.mem_of_mem_erase hRest) hMem
        · obtain rfl := List.mem_singleton.mp hLast
          exact hOld

theorem sass3New_turn (flags : BitVec 16) {script : RvSubscription} (ids : SubjectIds env db.nextSubjectCtr)
    (inv : Referenced env db) (hStarted : SassStarted db)
    (hScript : db.subTab.find? sub = some script)
    (hNew : sass3Key env sub script app ∉ db.sass3Tab) :
    SassTurn env db (sass3New env db sub (sass3Key env sub script app) flags).1 app sub flags
      (sass3New env db sub (sass3Key env sub script app) flags).2 := by
  have hNot : ¬ SassHeld env db app sub := fun h => hNew ((sassHeld_iff hScript).mp h)
  unfold sass3New
  by_cases hFlags : flags = env.qfSnapshot ∨ flags = env.qfUnsubscribe
  · rw [if_pos hFlags]
    refine ⟨fun x => ?_, rfl, rfl, rfl, .refused hNot hFlags rfl ?_⟩
    · refine Iff.trans (b := SassHeld env db app x) Iff.rfl ?_
      split
      · next hx =>
          subst hx
          refine iff_of_false hNot fun h => ?_
          rcases hFlags with hSnap | hUnsub
          · exact hNot (h.2 hSnap)
          · exact h.1 hUnsub
      · exact Iff.rfl
    · intro e he hMem
      rcases List.mem_cons.mp he with rfl | hRest
      · exact absurd rfl (inv.sass3Key_ne_zero ids hMem)
      · exact hStarted e hRest hMem
  · rw [if_neg hFlags]
    have hFresh : ∀ e ∈ db.sass3List, e.toRvSass3Key ≠ sass3Key env sub script app := by
      intro e he hKey
      have hNe : e.subjectId ≠ 0 := by
        have hId : e.subjectId = script.subjectId := congrArg RvSass3Key.subjectId hKey
        rw [hId]
        exact inv.subjectId_ne_zero ids hScript
      have hListed : e.toRvSass3Key ∈ db.sass3Keys :=
        List.mem_filter.mpr ⟨List.mem_map.mpr ⟨e, he, rfl⟩, by simpa using hNe⟩
      exact hNew (hKey ▸ inv.listed _ hListed)
    refine ⟨fun x => ?_, rfl, rfl, rfl, .entered hNot hFlags rfl rfl hFresh ?_⟩
    · have hInsert : ∀ key, key ∈ Insert.insert (sass3Key env sub script app) db.sass3Tab ↔
          if key = sass3Key env sub script app then True else key ∈ db.sass3Tab := by
        intro key
        rw [Finset.mem_insert]
        split
        · next hEq => exact iff_of_true (.inl hEq) trivial
        · next hEq => exact or_iff_right hEq
      refine (sassHeld_moved (fun s => s.addRef false) inv _ hScript (fun _ => rfl) hInsert x).trans ?_
      · split
        · exact iff_of_true trivial ⟨fun h => hFlags (.inr h), fun h => absurd (.inl h) hFlags⟩
        · exact Iff.rfl
    · intro e he hMem
      exact (Finset.mem_insert.mp hMem).resolve_left (hFresh e he)

theorem sass3_turn {script : RvSubscription} {entry : RvSass3Entry}
    (bits : SassBits env) (ids : SubjectIds env db.nextSubjectCtr) (inv : Referenced env db)
    (hStarted : SassStarted db) (hScript : db.subTab.find? sub = some script)
    (h : sass3 env db sub script app flags = .ok (db', entry)) :
    SassTurn env db db' app sub flags entry := by
  unfold sass3 at h
  dsimp only at h
  split at h
  · next hHeld =>
      split at h
      · cases h
      · next old hFind =>
          have hIn := List.mem_of_find?_eq_some hFind
          have hKey : old.toRvSass3Key = sass3Key env sub script app := by
            simpa using List.find?_some hFind
          have hTurn := sass3Known_turn flags bits ids inv hStarted hScript hHeld hIn hKey
          rw [Except.ok.inj h] at hTurn
          exact hTurn
  · next hNew =>
      have hTurn := sass3New_turn flags ids inv hStarted hScript hNew
      rw [Except.ok.inj h] at hTurn
      exact hTurn

theorem modify_findIdx_last {α : Type} {p : α → Bool} {list : List α} {a : α} (f : α → α)
    (hFresh : ∀ b ∈ list, p b = false) (ha : p a = true) :
    (list ++ [a]).modify ((list ++ [a]).findIdx p) f = list ++ [f a] := by
  induction list with
  | nil => simp [List.findIdx_cons, ha]
  | cons b rest ih =>
      rw [List.cons_append, List.findIdx_cons, hFresh b List.mem_cons_self, cond_false,
        List.modify_succ_cons, ih fun c hc => hFresh c (List.mem_cons_of_mem _ hc)]
      rfl

/-- The three ways a subject of a message ends in: no call, a resubscribe that is asserted,
any other call. -/
inductive SassEnd (env : Env) (db db' : RvSubscriptionDB) (flags : BitVec 16) (sub : Text)
    (entry : RvSass3Entry) : Prop where
  | silent (hFlags : flags = env.qfResubscribe) (hStart : entry.startMono ≠ 0)
      (hList : db'.sass3List = db.sass3List)
      (hCalls : sassCalls db'.outputs = sassCalls db.outputs)
  | asserted (hFlags : flags = env.qfResubscribe) (hStart : entry.startMono = 0)
      (hList : db'.sass3List = (setSass3Start db entry.toRvSass3Key).sass3List)
      (hCalls : sassCalls db'.outputs = sassCalls db.outputs ++ [⟨sub, entry.client,
        decide (flags ||| env.qfRefresh = env.qfUnsubscribe ∧ db.curMono = 0), true⟩])
  | called (hFlags : flags ≠ env.qfResubscribe) (hList : db'.sass3List = db.sass3List)
      (hCalls : sassCalls db'.outputs = sassCalls db.outputs ++ [⟨sub, entry.client,
        decide (flags = env.qfUnsubscribe ∧ entry.startMono = 0), false⟩])

theorem sassSubject_cases {reply fname : Text} (hLong : 1 < fname.length)
    (h : sassSubject env reply app flags db fname = .ok db') :
    ∃ script db₂ entry, (getSubscription env db fname.dropLast).subTab.find? fname.dropLast =
        some script ∧
      sass3 env (getSubscription env db fname.dropLast) fname.dropLast script app flags =
        .ok (db₂, entry) ∧ db'.nextSubjectCtr = db₂.nextSubjectCtr ∧ db'.curMono = db₂.curMono ∧
      db'.sass3Tab = db₂.sass3Tab ∧
      (∀ x, db'.subTab.find? x = db₂.subTab.find? x) ∧
      SassEnd env db₂ db' flags fname.dropLast entry := by
  unfold sassSubject at h
  rw [if_neg (Nat.not_le.mpr hLong)] at h
  simp only [bind_eq_ok, subAt_eq_ok] at h
  obtain ⟨script, hScript, ⟨db₂, entry⟩, hSass, script₂, -, h⟩ := h
  refine ⟨script, db₂, entry, hScript, hSass, ?_⟩
  split at h
  · next hKnown =>
      cases h
      exact ⟨rfl, rfl, rfl, fun _ => rfl, .silent hKnown.1 hKnown.2 rfl rfl⟩
  · next hKnown =>
      split at h
      · split at h
        · next hResub =>
            cases h
            refine ⟨rfl, rfl, rfl, fun _ => rfl,
              .asserted hResub (by_contra fun hStart => hKnown ⟨hResub, hStart⟩) rfl ?_⟩
            exact List.filterMap_append
        · next hOther =>
            cases h
            refine ⟨rfl, rfl, rfl, fun _ => rfl, .called hOther rfl ?_⟩
            exact List.filterMap_append
      · cases h

/-- The call for a subject of a message, unless a resubscribe finds the entry held. -/
inductive SassSaid (env : Env) (app : SassApp) (flags : BitVec 16) (sub : Text) (held : Prop) :
    List SassCall → Prop where
  | silent (hFlags : flags = env.qfResubscribe) (hHeld : held) : SassSaid env app flags sub held []
  | said (c : SassCall) (hNot : ¬ (flags = env.qfResubscribe ∧ held)) (hSub : c.sub = sub)
      (hClient : c.client = app.client)
      (hOrphan : c.isOrphan = true ↔ flags = env.qfUnsubscribe ∧ ¬ held)
      (hAsserted : c.isAsserted = true ↔ flags = env.qfResubscribe) :
      SassSaid env app flags sub held [c]

/-- With a resubscribe and with an unsubscribe the start time tells whether the entry was
held. -/
theorem SassFound.startMono_eq_zero {entry : RvSass3Entry} (bits : SassBits env)
    (h : SassFound env db db' app sub flags entry)
    (hFlags : flags = env.qfResubscribe ∨ flags = env.qfUnsubscribe) :
    entry.startMono = 0 ↔ ¬ SassHeld env db app sub := by
  cases h with
  | known hHeld hStart => exact iff_of_false hStart (not_not.mpr hHeld)
  | refused hNot _ hStart => exact iff_of_true hStart hNot
  | entered hNot hKept hStart =>
      refine iff_of_true ?_ hNot
      rcases hFlags with hResub | hUnsub
      · rw [hStart, if_pos]
        rw [hResub, BitVec.and_self]
        exact bits.resubscribe
      · exact absurd (.inr hUnsub) hKept

/-- The call goes by the start time. -/
theorem SassEnd.said {entry : RvSass3Entry} {held : Prop} (bits : SassBits env)
    (hEnd : SassEnd env db db' flags sub entry) (hClient : entry.client = app.client)
    (hStart : flags = env.qfResubscribe ∨ flags = env.qfUnsubscribe →
      (entry.startMono = 0 ↔ ¬ held))
    (hClock : flags = env.qfResubscribe → ¬ held → db.curMono ≠ 0) :
    ∃ calls, sassCalls db'.outputs = sassCalls db.outputs ++ calls ∧
      SassSaid env app flags sub held calls := by
  cases hEnd with
  | silent hFlags hNonzero _ hCalls =>
      have hHeld : held := not_not.mp ((not_congr (hStart (.inl hFlags))).mp hNonzero)
      exact ⟨[], by rw [hCalls, List.append_nil], .silent hFlags hHeld⟩
  | asserted hFlags hZero _ hCalls =>
      have hNot : ¬ held := (hStart (.inl hFlags)).mp hZero
      have hNe := ne_of_and_eq_zero bits.unsubscribe bits.unsubscribeResubscribe
      refine ⟨_, hCalls, .said _ (fun h => hNot h.2) rfl hClient ?_ (by simp [hFlags])⟩
      exact decide_eq_true_iff.trans (iff_of_false (fun h => hClock hFlags hNot h.2)
        fun h => hNe (h.1.symm.trans hFlags))
  | called hFlags _ hCalls =>
      refine ⟨_, hCalls, .said _ (fun h => hFlags h.1) rfl hClient ?_ (by simp [hFlags])⟩
      exact decide_eq_true_iff.trans (and_congr_right fun hUnsub => hStart (.inr hUnsub))

/-- An entry gets its start time in the message that enters it, when the clock is not zero
and no other flag comes with a resubscribe. -/
theorem SassEnd.started {db₂ : RvSubscriptionDB} {entry : RvSass3Entry} (bits : SassBits env)
    (hFound : SassFound env db db₂ app sub flags entry)
    (hEnd : SassEnd env db₂ db' flags sub entry) (hStarted : SassStarted db)
    (hMono : db₂.curMono = db.curMono) (hTab : db'.sass3Tab = db₂.sass3Tab)
    (hOk : ¬ SassHeld env db app sub →
      ¬ (flags = env.qfSnapshot ∨ flags = env.qfUnsubscribe) →
      db.curMono ≠ 0 ∧ (flags &&& env.qfResubscribe ≠ 0 → flags = env.qfResubscribe)) :
    SassStarted db' := by
  have hZero : flags = env.qfResubscribe → ¬ SassHeld env db app sub → entry.startMono = 0 :=
    fun hFlags hNot => (hFound.startMono_eq_zero bits (.inl hFlags)).mpr hNot
  have hUnsub := ne_of_and_eq_zero bits.unsubscribe bits.unsubscribeResubscribe
  have hSnap := ne_of_and_eq_zero bits.snapshot bits.snapshotResubscribe
  cases hFound with
  | known _ hStart hStarted₂ =>
      cases hEnd with
      | silent _ _ hList => exact hStarted₂.of_kept ⟨hTab, hList⟩
      | asserted _ hStart' => exact absurd hStart' hStart
      | called _ hList => exact hStarted₂.of_kept ⟨hTab, hList⟩
  | refused hNot hFlags hStart hStarted₂ =>
      cases hEnd with
      | silent _ hStart' => exact absurd hStart hStart'
      | asserted hResub =>
          rcases hFlags with hEq | hEq
          · exact absurd (hEq.symm.trans hResub) hSnap
          · exact absurd (hEq.symm.trans hResub) hUnsub
      | called _ hList => exact hStarted₂.of_kept ⟨hTab, hList⟩
  | entered hNot hFlags hStart hGrown hFresh hOld =>
      obtain ⟨hClock, hOnly⟩ := hOk hNot hFlags
      obtain ⟨last, hLastStart, hLast⟩ : ∃ last : RvSass3Entry, last.startMono ≠ 0 ∧
          db'.sass3List = db.sass3List ++ [last] := by
        cases hEnd with
        | silent hResub hStart' => exact absurd (hZero hResub hNot) hStart'
        | asserted _ _ hList =>
            refine ⟨{ entry with startMono := db₂.curMono }, hMono ▸ hClock, ?_⟩
            rw [hList, setSass3Start, hGrown]
            exact modify_findIdx_last _ (fun e he => decide_eq_false (hFresh e he))
              (decide_eq_true rfl)
        | called hOther hList =>
            refine ⟨entry, ?_, hList.trans hGrown⟩
            rw [hStart, if_neg fun hBit => hOther (hOnly hBit)]
            exact hClock
      intro e he hMem
      rw [hLast] at he
      rcases List.mem_append.mp he with hEarlier | hEntry
      · exact hStarted e hEarlier (hOld e hEarlier (hTab ▸ hMem))
      · obtain rfl := List.mem_singleton.mp hEntry
        exact hLastStart

/-- What one subject of a message leaves, and the call for it. -/
theorem sassSubject_calls {reply fname : Text} (bits : SassBits env)
    (ids : SubjectIds env db'.nextSubjectCtr) (inv : Referenced env db) (hStarted : SassStarted db)
    (hLong : 1 < fname.length)
    (hOk : ¬ SassHeld env db app fname.dropLast →
      ¬ (flags = env.qfSnapshot ∨ flags = env.qfUnsubscribe) →
      db.curMono ≠ 0 ∧ (flags &&& env.qfResubscribe ≠ 0 → flags = env.qfResubscribe))
    (h : sassSubject env reply app flags db fname = .ok db') :
    SassStarted db' ∧ db'.curMono = db.curMono ∧
      (∀ x, SassHeld env db' app x ↔ (if x = fname.dropLast then
        SassAfter env flags (SassHeld env db app fname.dropLast) else SassHeld env db app x)) ∧
      ∃ calls, sassCalls db'.outputs = sassCalls db.outputs ++ calls ∧
        SassSaid env app flags fname.dropLast (SassHeld env db app fname.dropLast) calls := by
  obtain ⟨script, db₂, entry, hScript, hSass, hCtr, hMono, hTab, hSubs, hEnd⟩ :=
    sassSubject_cases hLong h
  have hGetCtr : (getSubscription env db fname.dropLast).nextSubjectCtr ≤ db'.nextSubjectCtr :=
    hCtr ▸ (sass3_keeps hScript hSass).grows
  have ids₁ := ids.mono hGetCtr
  have hGetMono : (getSubscription env db fname.dropLast).curMono = db.curMono := by
    unfold getSubscription
    split <;> rfl
  have hGetOut : (getSubscription env db fname.dropLast).outputs = db.outputs := by
    unfold getSubscription
    split <;> rfl
  have hHeld₁ : ∀ x, SassHeld env (getSubscription env db fname.dropLast) app x ↔
      SassHeld env db app x := getSubscription_sassHeld fname.dropLast ids₁ inv
  have inv₁ := (getSubscription_keeps env db fname.dropLast).keeps ids₁ inv
  have hStarted₁ := hStarted.of_kept (getSubscription_sassKept env db fname.dropLast)
  have hTurn := sass3_turn bits ids₁ inv₁ hStarted₁ hScript hSass
  have hOk₁ := hOk
  rw [← hHeld₁, ← hGetMono] at hOk₁
  have hUnsub := ne_of_and_eq_zero bits.unsubscribe bits.unsubscribeResubscribe
  have hSnap := ne_of_and_eq_zero bits.snapshot bits.snapshotResubscribe
  have hClock : flags = env.qfResubscribe →
      ¬ SassHeld env (getSubscription env db fname.dropLast) app fname.dropLast →
      db₂.curMono ≠ 0 := by
    intro hResub hNot
    rw [hTurn.curMono]
    refine (hOk₁ hNot ?_).1
    rintro (hEq | hEq)
    · exact hSnap (hEq.symm.trans hResub)
    · exact hUnsub (hEq.symm.trans hResub)
  obtain ⟨calls, hCalls, hSaid⟩ :=
    hEnd.said bits hTurn.client (hTurn.found.startMono_eq_zero bits) hClock
  rw [hTurn.outputs, hGetOut] at hCalls
  rw [hHeld₁] at hSaid
  refine ⟨hEnd.started bits hTurn.found hStarted₁ hTurn.curMono hTab hOk₁,
    (hMono.trans hTurn.curMono).trans hGetMono, fun x => ?_, calls, hCalls, hSaid⟩
  have hSame : SassHeld env db' app x ↔ SassHeld env db₂ app x := by
    unfold SassHeld
    rw [hSubs, hTab]
  rw [hSame, hTurn.held, hHeld₁, hHeld₁]

/-- The subjects of a message: its field names without the `'\0'`, where there is more. -/
def sassSubjects (names : List Text) : List Text :=
  (names.filter fun fname => 1 < fname.length).map List.dropLast

/-- No held subject is given up twice, and what is entered is entered at a time that is not
zero, without other flags beside a resubscribe. -/
structure SassMeets (env : Env) (db : RvSubscriptionDB) (curMono : BitVec 32) (app : SassApp)
    (flags : BitVec 16) (names : List Text) : Prop where
  once : flags = env.qfUnsubscribe → ∀ sub ∈ sassSubjects names, SassHeld env db app sub →
    (sassSubjects names).count sub = 1
  entered : ¬ (flags = env.qfSnapshot ∨ flags = env.qfUnsubscribe) → ∀ sub ∈ sassSubjects names,
    ¬ SassHeld env db app sub →
      curMono ≠ 0 ∧ (flags &&& env.qfResubscribe ≠ 0 → flags = env.qfResubscribe)

/-- The calls of a message: an unsubscribe is an orphan unless the entry was held, and a
resubscribe is asserted unless it was. -/
structure SassReported (env : Env) (db : RvSubscriptionDB) (app : SassApp) (flags : BitVec 16)
    (names : List Text) (calls : List SassCall) : Prop where
  client : ∀ c ∈ calls, c.client = app.client
  unsubscribed : flags = env.qfUnsubscribe → calls.map SassCall.sub = sassSubjects names ∧
    ∀ c ∈ calls, (c.isOrphan = false ↔ SassHeld env db app c.sub)
  resubscribed : flags &&& env.qfResubscribe ≠ 0 → ∀ sub ∈ sassSubjects names,
    ((∃ c ∈ calls, c.sub = sub ∧ c.isAsserted = true) ↔ ¬ SassHeld env db app sub)

theorem sassSubjects_cons_long {fname : Text} (rest : List Text) (h : 1 < fname.length) :
    sassSubjects (fname :: rest) = fname.dropLast :: sassSubjects rest := by
  simp [sassSubjects, h]

theorem sassSubjects_cons_short {fname : Text} (rest : List Text) (h : ¬ 1 < fname.length) :
    sassSubjects (fname :: rest) = sassSubjects rest := by
  simp [sassSubjects, h]

theorem SassMeets.tail {fname : Text} {rest : List Text} (hLong : 1 < fname.length)
    (h : SassMeets env db db.curMono app flags (fname :: rest)) (hMono : db'.curMono = db.curMono)
    (hHeld : ∀ x, SassHeld env db' app x ↔ (if x = fname.dropLast then
      SassAfter env flags (SassHeld env db app fname.dropLast) else SassHeld env db app x)) :
    SassMeets env db' db'.curMono app flags rest := by
  rw [hMono]
  constructor
  case once =>
    intro hUnsub sub hSub hAfter
    rw [hHeld] at hAfter
    have hNe : sub ≠ fname.dropLast := by
      rintro rfl
      rw [if_pos rfl] at hAfter
      exact hAfter.1 hUnsub
    rw [if_neg hNe] at hAfter
    have hOnce := h.once hUnsub sub (by simp [sassSubjects_cons_long rest hLong, hSub]) hAfter
    rwa [sassSubjects_cons_long rest hLong, List.count_cons_of_ne hNe.symm] at hOnce
  case entered =>
    intro hFlags sub hSub hNot
    refine h.entered hFlags sub (by simp [sassSubjects_cons_long rest hLong, hSub]) fun hBefore => ?_
    refine hNot ((hHeld sub).mpr ?_)
    split
    · exact ⟨fun hUnsub => hFlags (.inr hUnsub), fun hSnap => absurd (.inl hSnap) hFlags⟩
    · exact hBefore

/-- The calls of the subjects of a message, by what is held before it. -/
structure SassLoop (env : Env) (db : RvSubscriptionDB) (app : SassApp) (flags : BitVec 16)
    (subs : List Text) (calls : List SassCall) : Prop where
  each : ∀ c ∈ calls, c.client = app.client ∧ c.sub ∈ subs ∧
    (c.isAsserted = true → flags = env.qfResubscribe)
  unsubscribed : flags = env.qfUnsubscribe → calls.map SassCall.sub = subs ∧
    ∀ c ∈ calls, (c.isOrphan = true ↔ ¬ SassHeld env db app c.sub)
  resubscribed : flags = env.qfResubscribe → ∀ sub,
    (∃ c ∈ calls, c.sub = sub ∧ c.isAsserted = true) ↔ sub ∈ subs ∧ ¬ SassHeld env db app sub

section
variable {db₁ : RvSubscriptionDB} {subs : List Text} {calls : List SassCall}

/-- A resubscribe leaves its subject held. -/
theorem sassHeld_resubscribed (bits : SassBits env) (hFlags : flags = env.qfResubscribe)
    (hHeld : ∀ x, SassHeld env db₁ app x ↔ (if x = sub then
      SassAfter env flags (SassHeld env db app sub) else SassHeld env db app x)) :
    SassHeld env db₁ app x ↔ x = sub ∨ SassHeld env db app x := by
  have hUnsub := ne_of_and_eq_zero bits.unsubscribe bits.unsubscribeResubscribe
  have hSnap := ne_of_and_eq_zero bits.snapshot bits.snapshotResubscribe
  rw [hHeld]
  split
  · next hx =>
      exact iff_of_true ⟨fun hEq => hUnsub (hEq.symm.trans hFlags),
        fun hEq => absurd (hEq.symm.trans hFlags) hSnap⟩ (.inl hx)
  · next hx => exact (or_iff_right hx).symm

theorem SassLoop.silent (bits : SassBits env) (hFlags : flags = env.qfResubscribe)
    (hBefore : SassHeld env db app sub)
    (hHeld : ∀ x, SassHeld env db₁ app x ↔ (if x = sub then
      SassAfter env flags (SassHeld env db app sub) else SassHeld env db app x))
    (h : SassLoop env db₁ app flags subs calls) : SassLoop env db app flags (sub :: subs) calls := by
  have hNe := ne_of_and_eq_zero bits.unsubscribe bits.unsubscribeResubscribe
  refine ⟨fun c hc => ?_, fun hUnsub => absurd (hUnsub.symm.trans hFlags) hNe, fun _ x => ?_⟩
  · obtain ⟨hClient, hSub, hAsserted⟩ := h.each c hc
    exact ⟨hClient, List.mem_cons_of_mem _ hSub, hAsserted⟩
  · rw [h.resubscribed hFlags, sassHeld_resubscribed bits hFlags hHeld, List.mem_cons]
    by_cases hx : x = sub
    · subst hx
      simp [hBefore]
    · simp [hx]

theorem SassLoop.said {c : SassCall} (bits : SassBits env)
    (hNot : ¬ (flags = env.qfResubscribe ∧ SassHeld env db app sub)) (hSub : c.sub = sub)
    (hClient : c.client = app.client)
    (hOrphan : c.isOrphan = true ↔ flags = env.qfUnsubscribe ∧ ¬ SassHeld env db app sub)
    (hAsserted : c.isAsserted = true ↔ flags = env.qfResubscribe)
    (hHeld : ∀ x, SassHeld env db₁ app x ↔ (if x = sub then
      SassAfter env flags (SassHeld env db app sub) else SassHeld env db app x))
    (hOnce : flags = env.qfUnsubscribe → SassHeld env db app sub → (sub :: subs).count sub = 1)
    (h : SassLoop env db₁ app flags subs calls) :
    SassLoop env db app flags (sub :: subs) (c :: calls) := by
  constructor
  case each =>
    intro d hd
    rcases List.mem_cons.mp hd with rfl | hLater
    · exact ⟨hClient, hSub ▸ List.mem_cons_self, hAsserted.mp⟩
    · obtain ⟨hClient', hSub', hAsserted'⟩ := h.each d hLater
      exact ⟨hClient', List.mem_cons_of_mem _ hSub', hAsserted'⟩
  case unsubscribed =>
    intro hUnsub
    obtain ⟨hSubs, hOrphans⟩ := h.unsubscribed hUnsub
    refine ⟨by rw [List.map_cons, hSub, hSubs], fun d hd => ?_⟩
    rcases List.mem_cons.mp hd with rfl | hLater
    · rw [hOrphan, hSub]
      exact and_iff_right hUnsub
    · rw [hOrphans d hLater, hHeld]
      split
      · -- the subject comes again, so it was not held
        next hx =>
          refine iff_of_true (fun hAfter => hAfter.1 hUnsub) fun hBefore => ?_
          rw [hx] at hBefore
          have hCount := hOnce hUnsub hBefore
          rw [List.count_cons_self] at hCount
          have hPos := List.count_pos_iff.mpr (hx ▸ (h.each d hLater).2.1)
          omega
      · exact Iff.rfl
  case resubscribed =>
    intro hFlags x
    have hBefore : ¬ SassHeld env db app sub := fun hHeld => hNot ⟨hFlags, hHeld⟩
    have hLater := h.resubscribed hFlags x
    rw [sassHeld_resubscribed bits hFlags hHeld] at hLater
    simp only [List.mem_cons, exists_eq_or_imp, hLater, hSub, hAsserted.mpr hFlags, and_true]
    by_cases hx : x = sub
    · subst hx
      simp [hBefore]
    · simp [hx, Ne.symm hx]

theorem SassLoop.cons {first : List SassCall} (bits : SassBits env)
    (hSaid : SassSaid env app flags sub (SassHeld env db app sub) first)
    (hHeld : ∀ x, SassHeld env db₁ app x ↔ (if x = sub then
      SassAfter env flags (SassHeld env db app sub) else SassHeld env db app x))
    (hOnce : flags = env.qfUnsubscribe → SassHeld env db app sub → (sub :: subs).count sub = 1)
    (h : SassLoop env db₁ app flags subs calls) :
    SassLoop env db app flags (sub :: subs) (first ++ calls) := by
  cases hSaid with
  | silent hFlags hBefore => exact h.silent bits hFlags hBefore hHeld
  | said c hNot hSub hClient hOrphan hAsserted =>
      exact h.said bits hNot hSub hClient hOrphan hAsserted hHeld hOnce

end

/-- The calls of the loop over the subjects of a message. -/
theorem sassNames_calls {reply : Text} {names : List Text} (bits : SassBits env)
    (ids : SubjectIds env db'.nextSubjectCtr) (inv : Referenced env db) (hStarted : SassStarted db)
    (hMeets : SassMeets env db db.curMono app flags names)
    (h : names.foldlM (sassSubject env reply app flags) db = .ok db') :
    SassStarted db' ∧ ∃ calls, sassCalls db'.outputs = sassCalls db.outputs ++ calls ∧
      SassLoop env db app flags (sassSubjects names) calls := by
  induction names generalizing db with
  | nil =>
      cases h
      exact ⟨hStarted, [], by simp, by simp, fun _ => ⟨rfl, by simp⟩, by simp [sassSubjects]⟩
  | cons fname rest ih =>
      rw [List.foldlM_cons, bind_eq_ok] at h
      obtain ⟨db₁, hFirst, hRest⟩ := h
      by_cases hLong : 1 < fname.length
      · have hSubs := sassSubjects_cons_long rest hLong
        have hMem : fname.dropLast ∈ sassSubjects (fname :: rest) := hSubs ▸ List.mem_cons_self
        have hGrows : db₁.nextSubjectCtr ≤ db'.nextSubjectCtr :=
          (foldlM_rel (Keeps.refl env) Keeps.trans (fun _ _ _ _ hOne => sassSubject_keeps hOne)
            hRest).grows
        obtain ⟨hStarted₁, hMono, hHeld, first, hCall, hSaid⟩ := sassSubject_calls bits
          (ids.mono hGrows) inv hStarted hLong
          (fun hNot hFlags => hMeets.entered hFlags _ hMem hNot) hFirst
        have inv₁ := (sassSubject_keeps hFirst).keeps (ids.mono hGrows) inv
        obtain ⟨hStarted', calls, hCalls, hLoop⟩ :=
          ih inv₁ hStarted₁ (hMeets.tail hLong hMono hHeld) hRest
        refine ⟨hStarted', first ++ calls, by rw [hCalls, hCall, List.append_assoc], ?_⟩
        rw [hSubs]
        exact hLoop.cons bits hSaid hHeld fun hUnsub => hSubs ▸ hMeets.once hUnsub _ hMem
      · have hSame : db₁ = db := by
          unfold sassSubject at hFirst
          rw [if_pos (Nat.not_lt.mp hLong)] at hFirst
          cases hFirst
          rfl
        subst hSame
        have hSubjects := sassSubjects_cons_short rest hLong
        rw [hSubjects]
        refine ih inv hStarted ⟨fun hUn => ?_, fun hFlags => ?_⟩ hRest
        · have hOnce := hMeets.once hUn
          rwa [hSubjects] at hOnce
        · have hEntered := hMeets.entered hFlags
          rwa [hSubjects] at hEntered

theorem sassNames_reported {reply : Text} {names : List Text} (bits : SassBits env)
    (ids : SubjectIds env db'.nextSubjectCtr) (inv : Referenced env db) (hStarted : SassStarted db)
    (hMeets : SassMeets env db db.curMono app flags names)
    (h : names.foldlM (sassSubject env reply app flags) db = .ok db') :
    SassStarted db' ∧ ∃ calls, sassCalls db'.outputs = sassCalls db.outputs ++ calls ∧
      SassReported env db app flags names calls := by
  obtain ⟨hStarted', calls, hCalls, ⟨hEach, hUnsub, hResub⟩⟩ :=
    sassNames_calls bits ids inv hStarted hMeets h
  refine ⟨hStarted', calls, hCalls, fun c hc => (hEach c hc).1, fun hUn => ?_, fun hBit sub hSub => ?_⟩
  · obtain ⟨hSubs, hOrphans⟩ := hUnsub hUn
    refine ⟨hSubs, fun c hc => ?_⟩
    rw [← Bool.not_eq_true, hOrphans c hc, not_not]
  · by_cases hFlags : flags = env.qfResubscribe
    · rw [hResub hFlags, and_iff_right hSub]
    · have hNotRefused : ¬ (flags = env.qfSnapshot ∨ flags = env.qfUnsubscribe) := by
        rintro (rfl | rfl)
        · exact hBit bits.snapshotResubscribe
        · exact hBit bits.unsubscribeResubscribe
      have hHeld : SassHeld env db app sub := by
        by_contra hNot
        exact hFlags ((hMeets.entered hNotRefused sub hSub hNot).2 hBit)
      refine iff_of_false ?_ (not_not.mpr hHeld)
      rintro ⟨c, hc, -, hAsserted⟩
      exact hFlags ((hEach c hc).2.2 hAsserted)

/-! Runs. -/

theorem SassStarted.of_sublist {list : List RvSass3Entry} (h : SassStarted db)
    (hSub : list.Sublist db.sass3List) : SassStarted { db with sass3List := list } :=
  fun e he => h e (hSub.subset he)

theorem reapSass3_started (h : SassStarted db) : SassStarted (reapSass3 db) :=
  h.of_sublist (List.dropWhile_sublist _)

theorem expireSass3_started {list : List RvSass3Entry}
    (hStarted : ∀ e ∈ list, e.toRvSass3Key ∈ db.sass3Tab → e.startMono ≠ 0)
    (h : expireSass3 env db list = .ok db') : SassStarted db' := by
  induction list generalizing db with
  | nil =>
      cases h
      exact hStarted
  | cons entry rest ih =>
      unfold expireSass3 at h
      split at h
      · rw [bind_eq_ok] at h
        obtain ⟨db₁, hFirst, hRest⟩ := h
        refine ih (fun e he hMem => ?_) hRest
        rw [(expireEntry_frame hFirst).2.2] at hMem
        exact hStarted e (List.mem_cons_of_mem _ he) (Finset.mem_of_mem_erase hMem)
      · cases h
        exact hStarted

theorem processEvents_started {curMono : BitVec 32} (hStarted : SassStarted db)
    (h : processEvents env db curMono = .ok db') : SassStarted db' := by
  simp only [processEvents, bind_eq_ok] at h
  obtain ⟨db₁, hExpire, db₂, hPoll, h⟩ := h
  have hStarted₀ : SassStarted { db with curMono := curMono } := hStarted
  have hFirst : SassStarted db₁ := expireSass3_started hStarted₀ hExpire
  have hSoft := SassKept.of_hostsOnly (softQuery_hostsOnly db₁ db₁.softHostQuery)
  have hHosts : SassKept (softQuery db₁ db₁.softHostQuery) db₂ :=
    foldlM_rel SassKept.refl SassKept.trans (fun _ _ _ _ hOne => pollHost_sassKept hOne) hPoll
  have hSecond : SassStarted db₂ := hFirst.of_kept (hSoft.trans hHosts)
  split at h
  · cases h
    refine SassStarted.of_kept ?_ (gc_sassKept _)
    exact hSecond
  · cases h
    exact hSecond

theorem Referenced.clock (inv : Referenced env db) (curMono : BitVec 32) :
    Referenced env { db with curMono := curMono } := by
  have hQuiet : Quiet db { db with curMono := curMono } := .of_eq rfl rfl rfl rfl rfl
  exact inv.moved (hQuiet.moves inv)

/-- The calls of one message, which starts from the database with the clock read. -/
theorem sassMessage_reported (db : RvSubscriptionDB) {reply : Text} {m : Fields} {t : Option (BitVec 16)}
    {a : Option SassApp} {names : List Text} (bits : SassBits env)
    (ids : SubjectIds env db'.nextSubjectCtr) (inv : Referenced env db) (hStarted : SassStarted db)
    (hT : m.t = some t) (hA : m.a = some a) (hS : m.s = some names)
    (hMeets : SassMeets env db db.curMono (a.getD {}) (sassFlags env t) names)
    (h : sassMessage env db reply m = .ok db') :
    SassStarted db' ∧ ∃ calls, sassCalls db'.outputs = sassCalls db.outputs ++ calls ∧
      SassReported env db (a.getD {}) (sassFlags env t) names calls := by
  unfold sassMessage at h
  rw [hT, hA, hS] at h
  exact sassNames_reported bits ids inv hStarted hMeets h

/-- The condition on a message about sass3 entries; no other input has one. -/
def SassInput (env : Env) (db : RvSubscriptionDB) : Input → Prop
  | .pub curMono pub => ∀ info m t a names, matchRvInfo pub.subject = some info →
      info.kind = .sass → pub.body.decoded = some m → m.t = some t → m.a = some a →
      m.s = some names → SassMeets env db curMono (a.getD {}) (sassFlags env t) names
  | _ => True

/-- The runs of the database in which every message meets the condition. -/
def sassRuns (env : Env) : System RvSubscriptionDB Input Output :=
  (subscriptionDB env).guard fun db input => db.Few ∧ SassInput env db input

theorem processPub2_started {curMono : BitVec 32} {pub : EvPublish} (bits : SassBits env)
    (ids : SubjectIds env db'.nextSubjectCtr) (inv : Referenced env db) (hStarted : SassStarted db)
    (hInput : SassInput env db (.pub curMono pub)) (h : processPub2 env db curMono pub = .ok db') :
    SassStarted db' := by
  have hClock : SassKept db { db with curMono := curMono } := ⟨rfl, rfl⟩
  cases hInfo : matchRvInfo pub.subject with
  | some info =>
      cases hBody : pub.body.decoded with
      | none =>
          have hUndecoded : pub.body = .undecodable := by
            cases hPub : pub.body <;> simp_all [Body.decoded]
          unfold processPub2 at h
          rw [hInfo, hUndecoded] at h
          cases h
          exact hStarted
      | some m =>
          rw [processPub2_advisory hInfo hBody] at h
          by_cases hKind : info.kind = .sass
          · simp only [advisory, hKind, bind_eq_ok, pure_eq_ok] at h
            obtain ⟨hostId, -, db₁, hSass, rfl⟩ := h
            have ids₁ : SubjectIds env db₁.nextSubjectCtr := ids
            apply reapSass3_started
            have hMessage := hSass
            unfold sassMessage at hMessage
            split at hMessage
            · next t a names hT hA hS =>
                have hMeets := hInput info m t a names hInfo hKind hBody hT hA hS
                have hStarted₁ : SassStarted { db with curMono := curMono } := hStarted
                have hMeets₁ : SassMeets env { db with curMono := curMono } curMono (a.getD {})
                    (sassFlags env t) names := ⟨hMeets.once, hMeets.entered⟩
                exact (sassMessage_reported { db with curMono := curMono } bits ids₁ (inv.clock curMono)
                  hStarted₁ hT hA hS hMeets₁ hSass).1
            · cases hMessage
              exact hStarted
          · exact hStarted.of_kept (hClock.trans (advisory_sassKept hKind h))
  | none =>
      unfold processPub2 at h
      rw [hInfo] at h
      dsimp only at h
      split at h
      · cases h
        exact hStarted
      · refine hStarted.of_kept (hClock.trans ?_)
        split at h
        · cases h
          exact .refl _
        · cases h
        · unfold queryReply at h
          split at h
          · exact hostReply_sassKept h
          · exact sessionReply_sassKept h

theorem step_started (db : RvSubscriptionDB) {input : Input} (bits : SassBits env)
    (ids : SubjectIds env db'.nextSubjectCtr) (inv : Referenced env db) (hStarted : SassStarted db)
    (hInput : SassInput env db input) (h : step env db input = .ok db') : SassStarted db' := by
  cases input with
  | pub curMono pub => exact processPub2_started bits ids inv hStarted hInput h
  | events curMono => exact processEvents_started hStarted h
  | sync hosts =>
      exact hStarted.of_kept (foldlM_rel SassKept.refl SassKept.trans
        (fun _ _ _ _ hOne => syncHost_sassKept hOne) h)
  | gc =>
      cases h
      exact hStarted.of_kept (gc_sassKept db)
  | unsubAll => exact hStarted.of_kept (unsubAll_sassKept h)

/-- The invariant of these runs, as long as the ids given out are good. -/
def SassSound (env : Env) (db : RvSubscriptionDB) : Prop :=
  SubjectIds env db.nextSubjectCtr → Referenced env db ∧ SassStarted db

theorem sassRuns_sound (bits : SassBits env) (h : (sassRuns env).Reachable db) :
    SassSound env db := by
  refine h.invariant ?_ ?_
  · rintro start ⟨curMono, s2, hStart⟩ ids
    refine ⟨(startSubscriptions_keeps hStart).keeps ids (referenced_empty env _ _), ?_⟩
    refine SassStarted.of_kept ?_ (startSubscriptions_sassKept hStart)
    intro e he
    cases he
  · rintro s input emitted t inv ⟨⟨few, hInput⟩, hStep, -⟩ ids
    have hGrows := step_grows hStep
    obtain ⟨hBefore, hStarted⟩ := inv (ids.mono hGrows)
    have hSame : Quiet s { s with outputs := [] } := .of_eq rfl rfl rfl rfl rfl
    have inv₁ : Referenced env { s with outputs := [] } := hBefore.moved (hSame.moves hBefore)
    have hFew : { s with outputs := [] }.Few := few
    have hStarted₁ : SassStarted { s with outputs := [] } := hStarted
    have hInput₁ : SassInput env { s with outputs := [] } input := by
      cases input with
      | pub curMono pub =>
          intro info m t a names hInfo hKind hBody hT hA hS
          have hMeets := hInput info m t a names hInfo hKind hBody hT hA hS
          exact ⟨hMeets.once, hMeets.entered⟩
      | events _ => trivial
      | sync _ => trivial
      | gc => trivial
      | unsubAll => trivial
    have hAfter : Referenced env t := step_references ids hFew (hBefore.moved (hSame.moves hBefore)) hStep
    exact ⟨hAfter, step_started { s with outputs := [] } bits ids inv₁ hStarted₁ hInput₁ hStep⟩

/-- In the runs that meet the condition, the calls of each message that meets it tell
which entries were held before it. -/
theorem sass3_reports_held (env : Env) (bits : SassBits env) (db db' : RvSubscriptionDB)
    (ids : SubjectIds env db'.nextSubjectCtr) (hReach : (sassRuns env).Reachable db)
    (curMono : BitVec 32) (pub : EvPublish) (info : SubMatch) (m : Fields)
    (t : Option (BitVec 16)) (a : Option SassApp) (names : List Text)
    (hInfo : matchRvInfo pub.subject = some info) (hKind : info.kind = .sass)
    (hBody : pub.body.decoded = some m) (hT : m.t = some t) (hA : m.a = some a)
    (hS : m.s = some names) (hMeets : SassMeets env db curMono (a.getD {}) (sassFlags env t) names)
    (h : processPub2 env db curMono pub = .ok db') :
    ∃ calls, sassCalls db'.outputs = sassCalls db.outputs ++ calls ∧
      SassReported env db (a.getD {}) (sassFlags env t) names calls := by
  have hGrows := (processPub2_keeps h).grows
  obtain ⟨inv, hStarted⟩ := sassRuns_sound bits hReach (ids.mono hGrows)
  rw [processPub2_advisory hInfo hBody] at h
  simp only [advisory, hKind, bind_eq_ok, pure_eq_ok] at h
  obtain ⟨hostId, -, db₁, hSass, rfl⟩ := h
  have ids₁ : SubjectIds env db₁.nextSubjectCtr := ids
  have hStarted₁ : SassStarted { db with curMono := curMono } := hStarted
  have hMeets₁ : SassMeets env { db with curMono := curMono } curMono (a.getD {})
      (sassFlags env t) names := ⟨hMeets.once, hMeets.entered⟩
  obtain ⟨-, calls, hCalls, hReported⟩ := sassMessage_reported { db with curMono := curMono } bits
    ids₁ (inv.clock curMono) hStarted₁ hT hA hS hMeets₁ hSass
  exact ⟨calls, hCalls, hReported.client, hReported.unsubscribed, hReported.resubscribed⟩

theorem sampleBits : SassBits sampleEnv :=
  ⟨by decide, by decide, by decide, by decide, by decide, by decide⟩

def sampleApp : SassApp where
  user := text "U"

def sampleSass (flags : BitVec 16) : EvPublish where
  subject := text "_SASS.AB"
  body := .fields { t := some (some flags), a := some (some sampleApp), s := some [text "A.B" ++ [0]] }

/-- A resubscribe is asserted, for nothing is held. -/
theorem sass3_reports_held_sample : ∃ db', processPub2 sampleEnv { nextGc := 131 } 5 (sampleSass 8) =
    .ok db' ∧ ∃ calls, sassCalls db'.outputs = calls ∧
      SassReported sampleEnv { nextGc := 131 } sampleApp 8 [text "A.B" ++ [0]] calls := by
  have hInit : (sassRuns sampleEnv).Reachable { nextGc := 131 } :=
    System.reachable_of_init sample_init
  obtain ⟨info, hInfo, hKind⟩ : ∃ info, matchRvInfo (sampleSass 8).subject = some info ∧
      info.kind = .sass := ⟨_, rfl, rfl⟩
  have hRun : (processPub2 sampleEnv { nextGc := 131 } 5 (sampleSass 8)).map
      RvSubscriptionDB.nextSubjectCtr = .ok 1 := by decide +kernel
  obtain ⟨db', hRun, hCtr⟩ := map_eq_ok.mp hRun
  have hIds : SubjectIds sampleEnv db'.nextSubjectCtr := hCtr ▸ sampleIds.mono (by decide)
  have hMeets : SassMeets sampleEnv { nextGc := 131 } 5 sampleApp 8 [text "A.B" ++ [0]] :=
    ⟨fun hFlags => absurd hFlags (by decide), fun _ _ _ _ => ⟨by decide, fun _ => rfl⟩⟩
  exact ⟨db', hRun, sass3_reports_held sampleEnv sampleBits { nextGc := 131 } db' hIds hInit 5
    (sampleSass 8) info _ (some 8) (some sampleApp) _ hInfo hKind rfl rfl rfl rfl hMeets hRun⟩

/-- The state after a resubscribe that has the refresh bit as well. -/
def sampleSassDB : RvSubscriptionDB :=
  (step sampleEnv { nextGc := 131 } (.pub 5 (sampleSass 24))).toOption.getD {}

/-- The resubscribe was not asserted, and the entry that it left is an orphan when it is
given up. -/
theorem sass3_held_orphan : (fewReferences sampleEnv).Reachable sampleSassDB ∧
    ¬ SassHeld sampleEnv { nextGc := 131 } sampleApp (text "A.B") ∧
    sassCalls sampleSassDB.outputs = [⟨text "A.B", sampleApp.client, false, false⟩] ∧
    SassHeld sampleEnv sampleSassDB sampleApp (text "A.B") ∧
    (processPub2 sampleEnv { sampleSassDB with outputs := [] } 6 (sampleSass 4)).map
      (fun db => sassCalls db.outputs) = .ok [⟨text "A.B", sampleApp.client, true, false⟩] := by
  have hOk : (step sampleEnv { nextGc := 131 } (.pub 5 (sampleSass 24))).toOption.isSome := by
    decide +kernel
  have hFirst : step sampleEnv { nextGc := 131 } (.pub 5 (sampleSass 24)) = .ok sampleSassDB :=
    eq_ok_of_isSome hOk {}
  have hInit : (fewReferences sampleEnv).Reachable { nextGc := 131 } :=
    System.reachable_of_init sample_init
  have hStep : (fewReferences sampleEnv).step { nextGc := 131 } (.pub 5 (sampleSass 24))
      sampleSassDB.outputs sampleSassDB := ⟨few_of_size (by decide), hFirst, rfl⟩
  have hHeld : (sampleSassDB.subTab.find? (text "A.B")).any (fun script =>
      decide (sass3Key sampleEnv (text "A.B") script sampleApp ∈ sampleSassDB.sass3Tab)) = true := by
    decide +kernel
  refine ⟨hInit.step hStep, ?_, by decide +kernel, ?_, by decide +kernel⟩
  · rintro ⟨script, hNone, -⟩
    cases hNone
  · obtain ⟨script, hFind, hMem⟩ := (Option.any_eq_true _ _).mp hHeld
    exact ⟨script, hFind, of_decide_eq_true hMem⟩

end Sassrv.SubMgr
