import Sassrv.Lib.Replay
import Sassrv.SubMgr.Holdings
import Sassrv.SubMgr.Issued

/-! The calls of the listener as a log: what a client rebuilds from them is what the
sessions hold. Subjects go on six paths, one by one or all of a session at once, and each
path has its own call. -/
namespace Sassrv.SubMgr
open Partial Transition Replay

/-- What a call of the listener says about a session and a subject. Only a reply or a
sync says that the subject was not held, and every stop says if it was. -/
def Output.event : Output → Option (Event (Text × Text))
  | .listenStart name sub _ _ isListenStart _ => some (.enter (name, sub) (!isListenStart))
  | .listenStop name sub _ isOrphan _ _ => some (.leave (name, sub) (!isOrphan))
  | _ => none

def callbacks (outs : List Output) : List (Event (Text × Text)) := outs.filterMap Output.event

variable {env : Env} {P : RvSubscriptionDB → Call → Prop} {db db' : RvSubscriptionDB} {i : Nat}
  {name sub : Text}

/-- The set has the pairs that are held. -/
def Shows (held : Finset (Text × Text)) (db : RvSubscriptionDB) : Prop :=
  ∀ x y, (x, y) ∈ held ↔ db.Holds x y

/-- The calls on the way are honest and lead from what was held to what is held. -/
def Hears (db db' : RvSubscriptionDB) : Prop :=
  ∃ outs, db'.outputs = db.outputs ++ outs ∧ ∀ held, Shows held db →
    Honest held (callbacks outs) ∧ Shows (replay held (callbacks outs)) db'

namespace Hears

theorem trans {a b c : RvSubscriptionDB} (h : Hears a b) (h' : Hears b c) : Hears a c := by
  obtain ⟨outs, hOuts, hFirst⟩ := h
  obtain ⟨more, hMore, hNext⟩ := h'
  refine ⟨outs ++ more, by rw [hMore, hOuts, List.append_assoc], fun held hShows => ?_⟩
  obtain ⟨hHonest, hThere⟩ := hFirst held hShows
  obtain ⟨hHonest', hThere'⟩ := hNext _ hThere
  have hBoth : callbacks (outs ++ more) = callbacks outs ++ callbacks more := List.filterMap_append
  rw [hBoth, honest_append, replay_append]
  exact ⟨⟨hHonest, hHonest'⟩, hThere'⟩

/-- Nothing is said, and nothing changed. -/
theorem silent {outs : List Output} (hOuts : db'.outputs = db.outputs ++ outs)
    (hSilent : ∀ out ∈ outs, out.silent = true) (hHolds : ∀ x y, db'.Holds x y ↔ db.Holds x y) :
    Hears db db' := by
  have hNone : callbacks outs = [] := by
    apply List.filterMap_eq_nil_iff.mpr
    intro out hOut
    have hQuiet := hSilent out hOut
    cases out with
    | listenStart => cases hQuiet
    | listenStop => cases hQuiet
    | snapshot | sass3 | ticReply | hostQuery | sessionQuery => rfl
  refine ⟨outs, hOuts, fun held hShows => ?_⟩
  rw [hNone]
  exact ⟨trivial, fun x y => (hShows x y).trans (hHolds x y).symm⟩

theorem still (hOuts : db'.outputs = db.outputs) (hHolds : ∀ x y, db'.Holds x y ↔ db.Holds x y) :
    Hears db db' := by
  have hSame : db'.outputs = db.outputs ++ [] := by rw [hOuts, List.append_nil]
  exact silent hSame (by simp) hHolds

theorem kept (hOuts : db'.outputs = db.outputs) (h : HoldingsKept db db') : Hears db db' :=
  still hOuts fun _ _ => h.holds

end Hears

theorem HoldingsKept.emit (h : HoldingsKept db db') (out : Output) : HoldingsKept db (db'.emit out) :=
  ⟨h.tables, h.ids, h.ctr, h.stopped⟩

theorem notify_kept (env : Env) (db : RvSubscriptionDB) (out : Output) :
    HoldingsKept db (db.notify env out) := by
  unfold RvSubscriptionDB.notify
  split
  · exact (HoldingsKept.refl db).emit out
  · exact .refl db

theorem called_kept (env : Env) (r : Listened) (out : Output) (calls : Bool) :
    HoldingsKept r.db (if calls then r.db.notify env out else r.db) := by
  split
  · exact notify_kept env r.db out
  · exact .refl r.db

/-- A session entry that keeps its table and is not stopped by the change. -/
theorem modifySession_kept {f : RvSessionEntry → RvSessionEntry}
    (hSubs : ∀ s, (f s).subHt = s.subHt)
    (hState : ∀ s, db.sessionTab.find? name = some s → (f s).state = .stop → s.state = .stop) :
    HoldingsKept db (db.modifySession name f) := by
  refine ⟨?_, rfl, rfl, ?_⟩
  · funext x
    simp only [RvSubscriptionDB.tableOf, RvSubscriptionDB.modifySession, Table.find?_modify,
      Option.bind_map]
    congr 1
    funext s
    by_cases hx : x = name <;> simp [hx, hSubs]
  · rintro x ⟨t, ht, hStop⟩
    simp only [RvSubscriptionDB.modifySession, Table.find?_modify, Option.map_eq_some_iff] at ht
    obtain ⟨s, hs, rfl⟩ := ht
    refine ⟨s, hs, ?_⟩
    split at hStop
    · next hx => exact hState s (hx ▸ hs) hStop
    · exact hStop

theorem toQuery_kept (db : RvSubscriptionDB) (name : Text) :
    HoldingsKept db (db.modifySession name RvSessionEntry.toQuery) :=
  modifySession_kept (fun s => (sameSession_toQuery s).subHt) fun _ _ => toQuery_stop

/-! The outputs of the operations. -/

theorem hostRef_outputs {hostId : BitVec 32} {cid : BitVec 16} {isStatus : Bool}
    (h : hostRef env db hostId cid isStatus = .ok (db', i)) : db'.outputs = db.outputs := by
  rcases hostRef_cases h with ⟨-, -, -, rfl⟩ | ⟨-, -, -, -, rfl⟩ | ⟨-, f, -, -, -, -, -, rfl⟩ <;> rfl

theorem hostStart_outputs {hostId : BitVec 32} {cid : BitVec 16}
    (h : hostStart env db hostId cid = .ok db') : db'.outputs = db.outputs := by
  rcases hostStart_cases h with ⟨-, rfl⟩ | ⟨-, -, -, -, -, -, -, -, -, -, -, rfl⟩ <;> rfl

theorem unlinkSession_outputs (h : unlinkSession db i name = .ok db') : db'.outputs = db.outputs := by
  simp only [unlinkSession, bind_eq_ok] at h
  obtain ⟨host, -, sess, -, h⟩ := h
  split at h
  · cases h
  · split at h <;> cases h <;> rfl

theorem getSubscription_outputs (env : Env) (db : RvSubscriptionDB) (sub : Text) :
    (getSubscription env db sub).outputs = db.outputs := by
  unfold getSubscription
  split <;> rfl

theorem sass3_holdings {script : RvSubscription} {app : SassApp} {flags : BitVec 16}
    {entry : RvSass3Entry} (h : sass3 env db sub script app flags = .ok (db', entry)) :
    HoldingsKept db db' ∧ db'.outputs = db.outputs := by
  have hMove : ∀ f, (∀ s : RvSubscription, (f s).subjectId = s.subjectId) → ∀ tab list,
      HoldingsKept db ((db.modifySub sub f).setSass3 tab list) := fun f hId tab list =>
    (modifySub_kept db sub hId).trans (.of_eq rfl rfl rfl)
  unfold sass3 at h
  dsimp only at h
  split at h
  · split at h
    · cases h
    · simp only [sass3Known, Except.ok.injEq] at h
      split at h
      · cases h
        exact ⟨.refl db, rfl⟩
      · split at h
        · cases h
          exact ⟨hMove (fun s => s.dropRef false) (fun _ => rfl) _ _, rfl⟩
        · cases h
          exact ⟨.of_eq rfl rfl rfl, rfl⟩
  · simp only [sass3New, Except.ok.injEq] at h
    split at h
    · cases h
      exact ⟨.of_eq rfl rfl rfl, rfl⟩
    · cases h
      exact ⟨hMove (fun s => s.addRef false) (fun _ => rfl) _ _, rfl⟩

theorem expireEntry_hears {entry : RvSass3Entry} (h : expireEntry env db entry = .ok db') :
    HoldingsKept db db' ∧ Hears db db' := by
  unfold expireEntry at h
  dsimp only at h
  split at h
  · cases h
    have hKept : HoldingsKept db { db with sass3Tab := db.sass3Tab.erase entry.toRvSass3Key } :=
      .of_eq rfl rfl rfl
    exact ⟨hKept, .kept rfl hKept⟩
  · next found _ =>
      simp only [bind_eq_ok] at h
      obtain ⟨script, -, h⟩ := h
      split at h
      · cases h
        have hKept : HoldingsKept db { db with sass3Tab := db.sass3Tab.erase entry.toRvSass3Key } :=
          .of_eq rfl rfl rfl
        exact ⟨hKept, .kept rfl hKept⟩
      · split at h
        · cases h
          have hKept : HoldingsKept db (({ db with sass3Tab := db.sass3Tab.erase entry.toRvSass3Key } :
              RvSubscriptionDB).modifySub found fun s => s.dropRef false) := by
            refine HoldingsKept.trans ?_ (modifySub_kept _ found fun _ => rfl)
            exact .of_eq rfl rfl rfl
          have hEmit := hKept.emit (.sass3 entry found (script.dropRef false).refcnt []
            env.qfUnsubscribe false true)
          refine ⟨hEmit, .silent rfl ?_ fun _ _ => hEmit.holds⟩
          simp [Output.silent]
        · cases h

/-! What is said when subjects move. -/

/-- The stops of a session that is dropped. -/
theorem unsubSubjects_outputs (hListening : env.listening = true) (name : Text) (sess : RvSessionEntry)
    (subs : List Text) (db : RvSubscriptionDB) (hKnown : ∀ y ∈ subs, ∃ id, db.idOf y = some id) :
    ∃ outs, (subs.foldl (unsubSubject env name sess) db).outputs = db.outputs ++ outs ∧
      callbacks outs = (subs.map fun y => (name, y)).map fun p => .leave p true := by
  induction subs generalizing db with
  | nil => exact ⟨[], by simp, rfl⟩
  | cons sub rest ih =>
      obtain ⟨id, hId⟩ := hKnown sub List.mem_cons_self
      obtain ⟨refcnt, coll, hOne⟩ := unsubSubject_outputs hListening name sess hId
      have hIds := (unsubSubject_kept env name sess db sub).ids
      obtain ⟨outs, hRest, hCalls⟩ := ih (unsubSubject env name sess db sub) fun y hy => by
        rw [hIds]
        exact hKnown y (List.mem_cons_of_mem _ hy)
      refine ⟨.listenStop name sub refcnt false false coll :: outs, ?_, ?_⟩
      · rw [List.foldl_cons, hRest, hOne, List.append_assoc, List.singleton_append]
      · rw [List.map_cons, List.map_cons, ← hCalls]
        rfl

theorem unsubSession_hears (hListening : env.listening = true) (linked : Linked env db)
    (h : unsubSession env db name = .ok db') : Hears db db' := by
  obtain ⟨-, -, hHolds⟩ := unsubSession_holdings linked h
  simp only [unsubSession, bind_eq_ok, pure_eq_ok, sessionAt_eq_ok] at h
  obtain ⟨sess, hSess, rfl⟩ := h
  have hMem : (∀ y, y ∈ subjects env db sess.subHt ↔ db.Holds name y) ∧
      (subjects env db sess.subHt).Nodup := by
    cases hHt : sess.subHt with
    | none =>
        refine ⟨fun y => iff_of_false (by simp [subjects]) ?_, List.nodup_nil⟩
        rw [holds_iff_tables]
        rintro ⟨ht, id, hTable, -⟩
        simp [RvSubscriptionDB.tableOf, hSess, hHt] at hTable
    | some ht =>
        have hTable : db.tableOf name = some ht := by simp [RvSubscriptionDB.tableOf, hSess, hHt]
        exact ⟨fun y => (linked.mem_subjects hTable).1, (linked.mem_subjects (y := []) hTable).2⟩
  obtain ⟨hHeld, hNodup⟩ := hMem
  obtain ⟨outs, hOuts, hCalls⟩ := unsubSubjects_outputs hListening name sess
    (subjects env db sess.subHt) db fun y hy => by
      obtain ⟨-, id, -, hId, -⟩ := holds_iff_tables.mp ((hHeld y).mp hy)
      exact ⟨id, hId⟩
  refine ⟨outs, hOuts, fun held hShows => ?_⟩
  rw [hCalls]
  have hPairs : ((subjects env db sess.subHt).map fun y => (name, y)).Nodup :=
    hNodup.map fun _ _ hEq => (Prod.mk.inj hEq).2
  obtain ⟨hHonest, hThere⟩ := leaves held _ hPairs fun p hp => by
    obtain ⟨y, hy, rfl⟩ := List.mem_map.mp hp
    exact (hShows name y).mpr ((hHeld y).mp hy)
  refine ⟨hHonest, fun x y => ?_⟩
  rw [hThere, hShows, hHolds, List.mem_map]
  constructor
  · rintro ⟨hHold, hNot⟩
    refine ⟨?_, hHold⟩
    rintro rfl
    exact hNot ⟨y, (hHeld y).mpr hHold, rfl⟩
  · rintro ⟨hNe, hHold⟩
    refine ⟨hHold, ?_⟩
    rintro ⟨z, -, hEq⟩
    exact hNe (Prod.mk.inj hEq).1.symm

theorem unsubSessions_hears (hListening : env.listening = true) {names : List Text}
    (linked : Linked env db) (h : names.foldlM (unsubSession env) db = .ok db') : Hears db db' := by
  induction names generalizing db with
  | nil =>
      cases h
      exact .kept rfl (.refl _)
  | cons name rest ih =>
      rw [List.foldlM_cons, bind_eq_ok] at h
      obtain ⟨db₁, hFirst, hRest⟩ := h
      have hLater := ih (unsubSession_holdings linked hFirst).1 hRest
      exact (unsubSession_hears hListening linked hFirst).trans hLater

theorem unsubHost_hears (hListening : env.listening = true) (linked : Linked env db)
    (h : unsubHost env db i = .ok db') : Hears db db' := by
  obtain ⟨host, db₁, -, -, hLoop, rfl⟩ := unsubHost_cases h
  have hKept : HoldingsKept db₁ { db₁.modifyHost i fun host => host.stop db₁.curMono with
      hosts := db₁.hosts.retire } := .of_eq rfl rfl rfl
  exact (unsubSessions_hears hListening linked hLoop).trans (.kept rfl hKept)

theorem remSession_hears (hListening : env.listening = true) (linked : Linked env db)
    (h : remSession env db i name = .ok db') : Hears db db' := by
  simp only [remSession, bind_eq_ok] at h
  obtain ⟨db₁, hUnsub, hUnlink⟩ := h
  have hKept := HoldingsKept.of_quiet (unlinkSession_quiet hUnlink)
  exact (unsubSession_hears hListening linked hUnsub).trans (.kept (unlinkSession_outputs hUnlink) hKept)

/-- `listen_ref` and its call. -/
theorem listen_hears (hListening : env.listening = true) (linked : Linked env db) {r : Listened}
    (ids : SubjectIds env r.db.nextSubjectCtr) (isListenStart : Bool) (refcnt : BitVec 31)
    (reply : Text) (h : listenRef env db name sub = .ok r) :
    Hears db (if r.done || isListenStart then r.db.notify env
      (.listenStart name r.sub refcnt reply isListenStart r.coll) else r.db) := by
  obtain ⟨-, hOut, hDone, hHolds⟩ := listenRef_holdings linked ids h
  split
  · next hCalls =>
      refine ⟨_, notify_outputs hListening hOut _, fun held hShows => ⟨⟨?_, trivial⟩, fun x y => ?_⟩⟩
      · intro hFresh
        have hNew : r.done = true := by simpa [show isListenStart = false by simpa using hFresh] using hCalls
        exact fun hMem => hDone.mp hNew ((hShows name r.sub).mp hMem)
      · have hSame : (r.db.notify env
            (.listenStart name r.sub refcnt reply isListenStart r.coll)).Holds x y ↔ r.db.Holds x y :=
          (notify_kept env r.db _).holds
        rw [hSame, hHolds, ← hShows x y]
        exact Finset.mem_insert.trans (or_congr_left Prod.mk_inj)
  · next hQuiet =>
      have hOld : db.Holds name r.sub := by
        by_contra hNot
        simp [hDone.mpr hNot] at hQuiet
      refine .still hOut fun x y => ?_
      rw [hHolds]
      refine or_iff_right_of_imp ?_
      rintro ⟨rfl, rfl⟩
      exact hOld

/-- `deref_subscription` of a subject that was held, and its call. -/
theorem release_hears (hListening : env.listening = true) (linked : Linked env db) {r : Listened}
    (isListenStop : Bool) (refcnt : BitVec 31) (h : derefSubscription env db name sub = .ok r)
    (hDone : r.done = true) :
    Hears db (r.db.notify env (.listenStop name sub refcnt false isListenStop r.coll)) := by
  obtain ⟨-, -, hOut, hHeld, -⟩ := derefSubscription_holdings linked h
  obtain ⟨hBefore, hAfter⟩ := hHeld hDone
  refine ⟨_, notify_outputs hListening hOut _, fun held hShows => ⟨⟨?_, trivial⟩, fun x y => ?_⟩⟩
  · exact iff_of_true rfl ((hShows name sub).mpr hBefore)
  · rw [(notify_kept env r.db _).holds, hAfter, ← hShows x y]
    refine Finset.mem_erase.trans (and_congr_left' ?_)
    rw [Ne, Prod.mk_inj]

/-- The call for a subject that the session does not hold. -/
theorem orphan_hears (hListening : env.listening = true) (refcnt : BitVec 31)
    (hNot : ¬ db.Holds name sub) :
    Hears db (db.notify env (.listenStop name sub refcnt true true false)) := by
  refine ⟨_, notify_outputs hListening rfl _, fun held hShows => ?_⟩
  have hOut : (name, sub) ∉ held := fun hMem => hNot ((hShows name sub).mp hMem)
  refine ⟨⟨iff_of_false Bool.false_ne_true hOut, trivial⟩, fun x y => ?_⟩
  rw [(notify_kept env db _).holds, ← hShows x y]
  exact iff_of_eq (congrArg ((x, y) ∈ ·) (Finset.erase_eq_of_notMem hOut))

/-! The turns. -/

/-- As long as the ids are good, an orphan is not held, and no session holds a subject that
is collected. -/
def Collects (env : Env) (db : RvSubscriptionDB) : Call → Prop
  | .orphan name sub => SubjectIds env db.nextSubjectCtr → ¬ db.Holds name sub
  | .gcSubscriptions => SubjectIds env db.nextSubjectCtr →
      ∀ sub s, db.subTab.find? sub = some s → s.refcnt = 0 → ∀ name, ¬ db.Holds name sub
  | _ => True

theorem Turn.grows (h : Turn env P db db') : db.nextSubjectCtr ≤ db'.nextSubjectCtr := by
  cases h with
  | hostRef _ h => exact (hostRef_hostsOnly h).nextSubjectCtr.ge
  | hostStart _ h => exact (hostStart_hostsOnly h).nextSubjectCtr.ge
  | touchHost => exact le_rfl
  | unsubHost _ h => exact (unsubHost_sameIds h).ctr.ge
  | remSession _ h => exact (remSession_sameIds h).ctr.ge
  | enterSession _ _ _ _ _ _ h => exact (addSession_quiet h).ctr.ge
  | touchSession => exact le_rfl
  | query => exact le_rfl
  | touchSub => exact le_rfl
  | getSubscription sub => exact (getSubscription_keeps env db sub).grows
  | listen _ isListenStart reply h _ =>
      refine (listenRef_keeps h).grows.trans ?_
      split
      · exact (notify_quiet env _ _).ctr.ge
      · exact le_rfl
  | release _ h _ _ => exact (derefSubscription_keeps h).grows.trans (notify_quiet env _ _).ctr.ge
  | orphan => exact (notify_quiet env _ _).ctr.ge
  | sass3 _ _ h => exact (sass3_sameIds h).ctr.ge
  | expire _ h => exact (expireEntry_sameIds h).ctr.ge
  | sass3List => exact le_rfl
  | note => exact le_rfl
  | gcSubscriptions => exact (gcSubscriptions_sameIds db).ctr.ge
  | gcSessions => exact (gcSessions_ebbs env db).ctr.ge
  | gcHosts => exact (gcHosts_hostsOnly db).nextSubjectCtr.ge

/-- The links of what is held are good after a turn if they were before. -/
theorem Turn.linked (h : Turn env (Collects env) db db') (ids : SubjectIds env db'.nextSubjectCtr)
    (linked : Linked env db) : Linked env db' := by
  cases h with
  | hostRef _ h => exact linked.of_kept (.of_quiet (hostRef_hostsOnly h).quiet)
  | hostStart _ h => exact linked.of_kept (.of_quiet (hostStart_hostsOnly h).quiet)
  | touchHost => exact linked.of_kept (.of_eq rfl rfl rfl)
  | unsubHost _ h => exact (unsubHost_holdings linked h).1
  | remSession _ h => exact (remSession_holdings linked h).1
  | enterSession _ _ _ hNew hSame hState h => exact (enterSession_holdings linked hNew hSame hState h).1
  | touchSession name hSame hState =>
      exact linked.of_kept (modifySession_kept (fun s => (hSame s).subHt) fun s hs => (hState s hs).mp)
  | query => exact linked.of_kept (toQuery_kept _ _)
  | touchSub sub hSame => exact linked.of_kept (modifySub_kept db sub fun s => (hSame s).subjectId)
  | getSubscription sub => exact (linked.getSubscription ids).1
  | @listen name sub r script _ isListenStart reply h _ =>
      have hKept := called_kept env r (.listenStart name r.sub script.refcnt reply isListenStart r.coll)
        (r.done || isListenStart)
      exact (listenRef_holdings linked (hKept.ctr ▸ ids) h).1.of_kept hKept
  | release _ h _ _ =>
      exact (derefSubscription_holdings linked h).1.of_kept (notify_kept env _ _)
  | orphan => exact linked.of_kept (notify_kept env db _)
  | sass3 _ _ h => exact linked.of_kept (sass3_holdings h).1
  | expire _ h => exact linked.of_kept (expireEntry_hears h).1
  | sass3List => exact linked.of_kept (.of_eq rfl rfl rfl)
  | note => exact linked.of_kept (.of_eq rfl rfl rfl)
  | gcSubscriptions hOk =>
      exact (linked.gcSubscriptions (hOk ((gcSubscriptions_sameIds db).ctr ▸ ids))).1
  | gcSessions => exact linked.of_kept (gcSessions_holdings linked)
  | gcHosts => exact linked.of_kept (.of_quiet (gcHosts_hostsOnly db).quiet)

/-- What a turn says is what it does. -/
theorem Turn.hears (hListening : env.listening = true) (h : Turn env (Collects env) db db')
    (ids : SubjectIds env db'.nextSubjectCtr) (linked : Linked env db) : Hears db db' := by
  cases h with
  | hostRef _ h => exact .kept (hostRef_outputs h) (.of_quiet (hostRef_hostsOnly h).quiet)
  | hostStart _ h => exact .kept (hostStart_outputs h) (.of_quiet (hostStart_hostsOnly h).quiet)
  | touchHost => exact .kept rfl (.of_eq rfl rfl rfl)
  | unsubHost _ h => exact unsubHost_hears hListening linked h
  | remSession _ h => exact remSession_hears hListening linked h
  | enterSession _ _ _ hNew hSame hState h =>
      obtain ⟨-, -, hOut, hHolds⟩ := enterSession_holdings linked hNew hSame hState h
      exact .still hOut hHolds
  | touchSession name hSame hState =>
      exact .kept rfl (modifySession_kept (fun s => (hSame s).subHt) fun s hs => (hState s hs).mp)
  | query => exact .kept rfl (toQuery_kept _ _)
  | touchSub sub hSame => exact .kept rfl (modifySub_kept db sub fun s => (hSame s).subjectId)
  | getSubscription sub =>
      exact .still (getSubscription_outputs env db sub) (linked.getSubscription ids).2
  | @listen name sub r script _ isListenStart reply h _ =>
      have hKept := called_kept env r (.listenStart name r.sub script.refcnt reply isListenStart r.coll)
        (r.done || isListenStart)
      exact listen_hears hListening linked (hKept.ctr ▸ ids) isListenStart script.refcnt reply h
  | release isListenStop h hDone _ => exact release_hears hListening linked isListenStop _ h hDone
  | orphan hOk _ _ _ =>
      refine orphan_hears hListening _ (hOk ?_)
      rw [← (notify_kept env db _).ctr]
      exact ids
  | sass3 _ _ h => exact .kept (sass3_holdings h).2 (sass3_holdings h).1
  | expire _ h => exact (expireEntry_hears h).2
  | sass3List => exact .kept rfl (.of_eq rfl rfl rfl)
  | note curMono nextGc softHostQuery outs hSilent =>
      have hKept : HoldingsKept db { db with
        curMono := curMono, nextGc := nextGc, softHostQuery := softHostQuery,
        outputs := db.outputs ++ outs } := .of_eq rfl rfl rfl
      exact .silent rfl hSilent fun _ _ => hKept.holds
  | gcSubscriptions hOk =>
      refine .still ?_ (linked.gcSubscriptions (hOk ((gcSubscriptions_sameIds db).ctr ▸ ids))).2
      unfold SubMgr.gcSubscriptions
      split <;> rfl
  | gcSessions =>
      refine .kept ?_ (gcSessions_holdings linked)
      unfold SubMgr.gcSessions
      split <;> rfl
  | gcHosts =>
      refine .kept ?_ (.of_quiet (gcHosts_hostsOnly db).quiet)
      unfold SubMgr.gcHosts
      split <;> rfl

theorem Turns.hears (hListening : env.listening = true) (h : Turns env (Collects env) db db')
    (ids : SubjectIds env db'.nextSubjectCtr) (linked : Linked env db) :
    Linked env db' ∧ Hears db db' := by
  induction h with
  | refl => exact ⟨linked, .kept rfl (.refl _)⟩
  | tail _ hLast ih =>
      obtain ⟨linked₁, hFirst⟩ := ih (ids.mono hLast.grows)
      exact ⟨hLast.linked ids linked₁, hFirst.trans (hLast.hears hListening ids linked₁)⟩

/-! Where references are few, the calls are as `Collects` says. -/

theorem Referenced.free (inv : Referenced env db) (few : db.Few) {s : RvSubscription}
    (hFind : db.subTab.find? sub = some s) (hZero : s.refcnt = 0) : ¬ db.Holds name sub := by
  rintro ⟨sess, script, hSess, hScript, hHolds⟩
  obtain rfl := Option.some.inj (hFind.symm.trans hScript)
  exact inv.refcnt_ne_zero few hFind (refs_pos_of_holds hSess hHolds) hZero

theorem collects_gc (kept : Kept env db) (few : db.Few) : Collects env db .gcSubscriptions :=
  fun ids _ _ hFind hZero _ => (kept ids).free few hFind hZero

/-- What `listen_stop` leaves of a subject that it does not find held. -/
theorem listenStop_orphan {r : Listened} (h : listenStop env db name sub = .ok r)
    (hDone : r.done = false) : Quiet (getSubscription env db sub) r.db ∧
      (r.db.Holds name sub → ∃ s, r.db.subTab.find? sub = some s ∧ s.refcnt = 0) := by
  have hQuery : ∀ db : RvSubscriptionDB, Quiet db (db.modifySession name RvSessionEntry.toQuery) :=
    fun db => .modifySession db name (fun s => (sameSession_toQuery s).subHt) fun _ => toQuery_stop
  simp only [listenStop, bind_eq_ok] at h
  obtain ⟨r₁, hDrop, h⟩ := h
  have hBoth : r₁.done = false ∧ r.db = r₁.db.modifySession name RvSessionEntry.toQuery := by
    split at h
    · next hTrue =>
        cases h
        rw [hDone] at hTrue
        cases hTrue
    · next hFalse =>
        cases h
        exact ⟨by simpa using hFalse, rfl⟩
  obtain ⟨hNot, hDb⟩ := hBoth
  have hSubTab : r.db.subTab = r₁.db.subTab := by rw [hDb]; rfl
  have hHolds : r.db.Holds name sub → r₁.db.Holds name sub := by
    rw [hDb]
    exact (HoldingsKept.of_quiet (hQuery r₁.db)).holds.mp
  rw [hSubTab]
  have hSame : r₁.db = getSubscription env db sub ∧
      (r₁.db.Holds name sub → ∃ s, r₁.db.subTab.find? sub = some s ∧ s.refcnt = 0) := by
    unfold derefOrEnter at hDrop
    split at hDrop
    · next hKnown =>
        obtain ⟨sess, script, hSess, hScript, -, hCase⟩ := derefSubscription_cases hDrop
        rcases hCase with ⟨-, hDb₁, -, hWhy⟩ | ⟨hTrue, -⟩
        · rw [hDb₁, getSubscription, if_pos hKnown]
          refine ⟨rfl, ?_⟩
          rintro ⟨sess', script', hSess', hScript', hHeld⟩
          obtain rfl := Option.some.inj (hSess.symm.trans hSess')
          obtain rfl := Option.some.inj (hScript.symm.trans hScript')
          rcases hWhy with hZero | hFree
          · exact ⟨script, hScript, hZero⟩
          · rw [hFree] at hHeld
            cases hHeld
        · rw [hNot] at hTrue
          cases hTrue
    · next hNew =>
        cases hDrop
        refine ⟨rfl, fun _ => ⟨.start (subjectId env (db.nextSubjectCtr + 1)) db.curMono, ?_, rfl⟩⟩
        simp [getSubscription, hNew]
  refine ⟨?_, fun h => hSame.2 (hHolds h)⟩
  rw [hDb, ← hSame.1]
  exact hQuery r₁.db

theorem getSubscription_refs (env : Env) (db : RvSubscriptionDB) (sub : Text) (id : BitVec 32) :
    (getSubscription env db sub).refs id = db.refs id := by
  unfold getSubscription
  split <;> rfl

/-- `session_ref` leaves a live session as it is, and opens any other without subjects. -/
theorem sessionRef_table {cid : BitVec 16} (h : sessionRef env db cid name = .ok db') :
    (∀ id, db'.refs id = db.refs id) ∨ db'.tableOf name = some .empty := by
  simp only [sessionRef, bind_eq_ok, pure_eq_ok] at h
  obtain ⟨db₁, hOpen, rfl⟩ := h
  have hQuiet : Quiet db₁ (db₁.modifySession name fun s => { s with refMono := db₁.curMono }) :=
    .modifySession _ _ (fun _ => rfl) fun _ hStop => hStop
  unfold ensureOpen at hOpen
  split at hOpen
  · cases hOpen
    exact .inl hQuiet.refs
  · simp only [openSession, bind_eq_ok] at hOpen
    obtain ⟨hostId, -, ⟨db₂, i⟩, -, hAdd⟩ := hOpen
    refine .inr ?_
    rw [(HoldingsKept.of_quiet ((addSession_quiet hAdd).trans hQuiet)).tables]
    simp [RvSubscriptionDB.tableOf, startEntry, RvSessionEntry.start]

theorem collects_orphan (kept : Kept env db) (few : db.Few) {cid : BitVec 16} {r : Listened}
    (hRef : sessionRef env db cid name = .ok db') (hStop : listenStop env db' name sub = .ok r)
    (hDone : r.done = false) : Collects env r.db (.orphan name sub) := by
  intro ids hHolds
  obtain ⟨hQuiet, hWhy⟩ := listenStop_orphan hStop hDone
  obtain ⟨s, hFind, hZero⟩ := hWhy hHolds
  have hKeeps := (sessionRef_keeps hRef).trans (listenStop_keeps hStop)
  have inv := hKeeps.keeps ids (kept (ids.mono hKeeps.grows))
  rcases sessionRef_table hRef with hRefs | hEmpty
  · refine inv.free (fun id => ?_) hFind hZero hHolds
    rw [hQuiet.refs, getSubscription_refs, hRefs]
    exact few id
  · obtain ⟨ht, id, hTable, -, hMem⟩ := holds_iff_tables.mp hHolds
    have hSame : (getSubscription env db' sub).tableOf name = db'.tableOf name := by
      unfold RvSubscriptionDB.tableOf
      rw [getSubscription_sessionTab]
    rw [(HoldingsKept.of_quiet hQuiet).tables, hSame, hEmpty] at hTable
    cases hTable
    cases hMem

theorem meetsRef_collects (cid : BitVec 16) : MeetsRef env (Collects env) db cid name :=
  fun _ _ _ => ⟨trivial, fun _ _ _ => trivial⟩

theorem meetsAdvisory_collects (kept : Kept env db) (few : db.Few) (info : SubMatch)
    (subject reply : Text) (m : Fields) : MeetsAdvisory env (Collects env) db info subject reply m := by
  intro hostId _
  dsimp only
  split
  · trivial
  · trivial
  · exact fun _ _ => trivial
  · trivial
  · exact fun _ _ => ⟨fun _ => trivial, fun _ _ => trivial⟩
  · trivial
  · exact ⟨meetsRef_collects _, fun _ _ => trivial⟩
  · exact ⟨meetsRef_collects _, fun _ hRef _ hStop hDone => collects_orphan kept few hRef hStop hDone⟩
  · intro _ session _
    split
    · exact fun _ _ => trivial
    · exact fun _ _ _ _ => trivial
  · exact fun _ _ _ _ _ _ => along_of_forall (fun _ _ _ => trivial) _ _
  · exact fun _ _ _ _ => trivial

theorem meetsSync_collects (hostId : BitVec 32) (cid : BitVec 16) (fields : List SyncField)
    (db : RvSubscriptionDB) : MeetsSync env (Collects env) hostId cid fields db := by
  induction fields generalizing hostId cid db with
  | nil => trivial
  | cons field rest ih =>
      cases field with
      | id value => exact ih _ _ _
      | cid value => exact ih _ _ _
      | sessions list =>
          unfold MeetsSync
          split
          · exact ih _ _ _
          · refine ⟨trivial, fun _ _ _ => ⟨along_of_forall ?_ _ _, fun _ _ => ih _ _ _⟩⟩
            exact fun _ _ => ⟨meetsRef_collects _, fun _ _ => along_of_forall (fun _ _ => trivial) _ _⟩

theorem meetsQuerySessions_collects (names : List Text) (db : RvSubscriptionDB) :
    MeetsQuerySessions env (Collects env) i names db := by
  induction names generalizing db with
  | nil => trivial
  | cons name rest ih =>
      intro sess _
      split
      · intro db₁ host _ _
        split
        · exact fun _ _ _ _ => trivial
        · exact ih db₁
      · exact ih db

theorem meetsExpiry_collects (list : List RvSass3Entry) (db : RvSubscriptionDB) :
    MeetsExpiry env (Collects env) db list := by
  induction list generalizing db with
  | nil => trivial
  | cons entry rest ih => exact fun _ => ⟨trivial, fun db' _ => ih db'⟩

/-- What `process_events` does before it collects. -/
theorem events_ebbs {curMono : BitVec 32} {db₁ db₃ : RvSubscriptionDB}
    (hExpire : expireSass3 env { db with curMono := curMono } db.sass3List = .ok db₁)
    (hPoll : (List.range (softQuery db₁ db₁.softHostQuery).hostTab.length).foldlM (pollHost env)
      (softQuery db₁ db₁.softHostQuery) = .ok db₃) : Ebbs env db db₃ := by
  have hClock : Ebbs env db ({ db with curMono := curMono }.setSass3 db.sass3Tab db.sass3List) := by
    apply Quiet.ebbs
    exact .of_eq rfl rfl rfl rfl rfl
  apply hClock.trans
  apply (expireSass3_ebbs hExpire).trans
  apply (softQuery_hostsOnly _ _).quiet.ebbs.trans
  exact foldlM_rel (Ebbs.refl env) Ebbs.trans (fun _ _ _ _ hOne => pollHost_ebbs hOne) hPoll

theorem Ebbs.few (h : Ebbs env db db') (few : db.Few) : db'.Few :=
  fun id => (h.fewer id).trans_lt (few id)

theorem Ebbs.kept (h : Ebbs env db db') (few : db.Few) (kept : Kept env db) : Kept env db' :=
  fun ids => h.keeps (h.ctr ▸ ids) few (kept (h.ctr ▸ ids))

theorem meets_collects (kept : Kept env db) (few : db.Few) (input : Input) :
    Meets env (Collects env) db input := by
  cases input with
  | pub curMono pub =>
      change MeetsPub env (Collects env) db curMono pub
      unfold MeetsPub
      have hClock : Ebbs env db { db with curMono := curMono } := by
        apply Quiet.ebbs
        exact .of_eq rfl rfl rfl rfl rfl
      dsimp only
      split
      · trivial
      · exact meetsAdvisory_collects (hClock.kept few kept) (hClock.few few) _ _ _ _
      · exact meetsAdvisory_collects (hClock.kept few kept) (hClock.few few) _ _ _ _
      · unfold MeetsReply
        split
        · exact fun _ _ _ => along_of_forall (fun _ _ _ _ _ _ _ => meetsRef_collects _) _ _
        · exact fun _ _ _ _ _ => along_of_forall (fun _ _ _ _ _ _ => trivial) _ _
      · trivial
  | events curMono =>
      refine ⟨meetsExpiry_collects _ _, fun db₁ hExpire => ⟨along_of_forall ?_ _ _, fun db₃ hPoll _ => ?_⟩⟩
      · exact fun _ _ _ _ _ => ⟨fun _ _ _ _ _ => trivial, fun _ _ _ _ _ => meetsQuerySessions_collects _ _⟩
      · have hNext : Ebbs env db₃ { db₃ with nextGc := db₃.curMono + 131 } := by
          apply Quiet.ebbs
          exact .of_eq rfl rfl rfl rfl rfl
        have hEbbs := (events_ebbs hExpire hPoll).trans hNext
        exact collects_gc (hEbbs.kept few kept) (hEbbs.few few)
  | sync hosts => exact along_of_forall (fun _ _ => meetsSync_collects _ _ _ _) _ _
  | gc => exact collects_gc kept few
  | unsubAll => exact along_of_forall (fun _ _ _ => trivial) _ _

/-! The runs. -/

theorem linked_empty (env : Env) (curMono nextGc : BitVec 32) :
    Linked env { curMono := curMono, nextGc := nextGc } where
  issued _ _ h := by cases h
  distinct _ _ _ h := by cases h
  held _ _ _ _ h := by cases h
  stopped _ _ := rfl

/-- Nothing is said at the start, and nothing is held. -/
theorem startSubscriptions_outputs {curMono : BitVec 32} {s2 : Bool}
    (h : startSubscriptions env curMono s2 = .ok db) : db.outputs = [] := by
  unfold startSubscriptions at h
  dsimp only at h
  split at h
  · simp only [bind_eq_ok] at h
    obtain ⟨⟨db₁, i⟩, hRef, hStart⟩ := h
    have hOut := hostRef_outputs hRef
    have hTab : db₁.sessionTab = .empty := (hostRef_hostsOnly hRef).sessionTab
    unfold sessionStart at hStart
    split at hStart
    · cases hStart
      exact hOut
    · have hNew : isLive (db₁.modifyHost i fun host => { host with state := .query }) env.session =
          false := by simp [isLive, RvSubscriptionDB.modifyHost, hTab]
      rw [dropLive, hNew] at hStart
      simp only [Bool.false_eq_true, if_false, bind_eq_ok, pure_eq_ok] at hStart
      obtain ⟨db₂, hSame, db₃, hAdd, rfl⟩ := hStart
      cases hSame
      have hAddOut : db₃.outputs = db₁.outputs := by
        simp only [addSession, bind_eq_ok] at hAdd
        obtain ⟨host, -, sess, -, hAdd⟩ := hAdd
        split at hAdd
        · cases hAdd
        · split at hAdd <;> cases hAdd <;> rfl
      split
      · exact hAddOut.trans hOut
      · exact hAddOut.trans hOut
  · cases h
    rfl

theorem start_shows (hListening : env.listening = true) (h : (subscriptionDB env).init db)
    (ids : SubjectIds env db.nextSubjectCtr) : Linked env db ∧ Shows ∅ db := by
  obtain ⟨curMono, s2, hStart⟩ := h
  have hInit : MeetsInit env (Collects env) curMono := meetsInit_of_enter trivial fun _ _ _ => trivial
  obtain ⟨linked, outs, hOuts, hHears⟩ :=
    Turns.hears hListening (startSubscriptions_turns hInit hStart) ids (linked_empty env _ _)
  have hNone : outs = [] := by simpa [startSubscriptions_outputs hStart] using hOuts.symm
  subst hNone
  refine ⟨linked, (hHears ∅ fun x y => ?_).2⟩
  refine iff_of_false (Finset.notMem_empty _) ?_
  rintro ⟨sess, script, hSess, -⟩
  cases hSess

/-- What was said so far is honest and leads to what is held. -/
def Told (env : Env) (db : RvSubscriptionDB) (sofar : List Output) : Prop :=
  Kept env db ∧ (SubjectIds env db.nextSubjectCtr → Linked env db ∧
    Honest ∅ (callbacks sofar) ∧ Shows (replay ∅ (callbacks sofar)) db)

/-- The calls of the listener rebuild what is held: replayed from nothing, they give the
pairs of a session and a subject that the sessions hold, in every state reached. A call for a
reply or a sync is of a pair that was not held, and a stop is an orphan exactly where its
pair was not. -/
theorem callbacks_rebuild_holdings (env : Env) (hListening : env.listening = true)
    (start db : RvSubscriptionDB) (inputs : List Input) (outputs : List Output)
    (hInit : (subscriptionDB env).init start) (ids : SubjectIds env db.nextSubjectCtr)
    (h : (fewReferences env).Run start inputs outputs db) :
    (∀ name sub, (name, sub) ∈ replay ∅ (callbacks outputs) ↔ db.Holds name sub) ∧
      Honest ∅ (callbacks outputs) := by
  have hRun : Told env db ([] ++ outputs) := by
    refine h.invariant_outputs (Told env) ?_ ?_
    · rintro s sofar input emitted t ⟨kept, hSofar⟩ ⟨few, hStep, hEmitted⟩
      have hClear : Quiet s { s with outputs := [] } := .of_eq rfl rfl rfl rfl rfl
      have keptClear : Kept env { s with outputs := [] } := hClear.ebbs.kept few kept
      have hFew : { s with outputs := [] }.Few := few
      have hGrows := step_grows hStep
      refine ⟨fun ids => step_references ids hFew (keptClear (ids.mono hGrows)) hStep, fun ids => ?_⟩
      obtain ⟨linked, hHonest, hShows⟩ := hSofar (ids.mono hGrows)
      have hTurns := step_leads (meets_collects keptClear hFew input)
      rw [hStep] at hTurns
      obtain ⟨linked', outs, hOuts, hHears⟩ := Turns.hears hListening hTurns ids
        (linked.of_kept (HoldingsKept.of_quiet hClear))
      have hOut : t.outputs = outs := by simpa using hOuts
      have hAll : callbacks (sofar ++ emitted) = callbacks sofar ++ callbacks outs := by
        rw [hEmitted, hOut]
        exact List.filterMap_append
      obtain ⟨hMore, hThere⟩ := hHears _ fun x y =>
        (hShows x y).trans (HoldingsKept.of_quiet hClear).holds.symm
      rw [hAll, honest_append, replay_append]
      exact ⟨linked', ⟨hHonest, hMore⟩, hThere⟩
    · have keptStart : Kept env start := reachable_kept (System.reachable_of_init hInit)
      exact ⟨keptStart, fun ids =>
        ⟨(start_shows hListening hInit ids).1, trivial, (start_shows hListening hInit ids).2⟩⟩
  obtain ⟨-, hHonest, hShows⟩ := hRun.2 ids
  exact ⟨hShows, hHonest⟩

theorem callbacks_rebuild_holdings_listen :
    sampleDB.outputs.length = 1 ∧ sampleDB.Holds (text "0A000001.X") (text "A.B") := by
  have hStep : (fewReferences sampleEnv).step { nextGc := 131 } (.pub 5 sampleListen)
      sampleDB.outputs sampleDB := ⟨few_of_size (by decide), rfl, rfl⟩
  have hRebuilt := callbacks_rebuild_holdings sampleEnv rfl { nextGc := 131 } sampleDB
    [.pub 5 sampleListen] sampleDB.outputs sample_init (sampleIds.mono (by decide)) (.snoc (.nil _) hStep)
  exact ⟨by decide, (hRebuilt.1 _ _).mp (by decide)⟩

end Sassrv.SubMgr
