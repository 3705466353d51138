import Sassrv.SubMgr.DigestRuns
import Sassrv.SubMgr.Reconcile
import Sassrv.SubMgr.SessionCodec

/-! The message that brings a new peer up to date: `make_sync` writes what the live sessions
hold, host by host, and `update_sync` reads it. A session goes by its name, which the reader
takes the host from. -/
namespace Sassrv.SubMgr
open Partial Transition

/-- The field of a session, with the `'\0'` at the end of its name. -/
def syncRecord (env : Env) (db : RvSubscriptionDB) (name : Text) : SyncSession where
  fname := name ++ [0]
  subs := subjects env db (db.tableOf name)

/-- The sessions of a host, if there are any. -/
def sessionFields (env : Env) (db : RvSubscriptionDB) (names : List Text) : List SyncField :=
  if names = [] then [] else [.sessions (names.map (syncRecord env db))]

variable {env : Env} {db db' : RvSubscriptionDB} {i : Nat} {name sub x y : Text}

/-! A database that has dropped no host takes every host and session. -/

structure AllAwake (db : RvSubscriptionDB) : Prop where
  free : db.firstFreeHost = db.hostTab.length
  within : ∀ key i, db.hostHt.find? key = some i → i < db.hostTab.length
  rolls : ∀ i roll, db.rollOf i = some roll → roll.stopped = false ∧ roll.sessHt ≠ none

namespace AllAwake

theorem of_kept (h : AllAwake db) (hRolls : RollsKept db db') (hSlots : SlotsKept db db') :
    AllAwake db' where
  free := by rw [hSlots.firstFreeHost, h.free, hSlots.length]
  within key i hFind := by
    rw [hSlots.hostHt] at hFind
    rw [hSlots.length]
    exact h.within key i hFind
  rolls := by
    rw [hRolls.rolls]
    exact h.rolls

theorem hostRef (h : AllAwake db) (env : Env) (hostId : BitVec 32) (cid : BitVec 16) (isStatus : Bool) :
    ∃ db' i, hostRef env db hostId cid isStatus = .ok (db', i) ∧ AllAwake db' ∧
      i < db'.hostTab.length := by
  have hOk : ∃ r, SubMgr.hostRef env db hostId cid isStatus = .ok r := by
    unfold SubMgr.hostRef
    split
    · exact ⟨_, if_pos (.inl h.free)⟩
    · next i hFind =>
        have hi := h.within _ i hFind
        have hAt : db.hostTab[i]? = some db.hostTab[i] := List.getElem?_eq_getElem hi
        simp only [refSlot, RvSubscriptionDB.hostAt, hAt, bind, Except.bind, pure, Except.pure]
        split
        · exact ⟨_, rfl⟩
        · split <;> exact ⟨_, rfl⟩
  obtain ⟨⟨db', i⟩, hRef⟩ := hOk
  obtain ⟨-, host, hHost, -⟩ := hostRef_slot hRef
  refine ⟨db', i, hRef, ?_, (List.getElem?_eq_some_iff.mp hHost).1⟩
  rcases hostRef_cases hRef with ⟨-, -, rfl, rfl⟩ | ⟨old, -, hOld, hStop, -⟩ |
    ⟨old, f, -, hOld, hNot, hSame, hAwake, rfl⟩
  · have hLe : db.firstFreeHost ≤ db.hostTab.length := h.free.le
    have hLength : ∀ a new, (RvSubscriptionDB.putHost { db with
        firstFreeHost := db.firstFreeHost + 1
        hosts := a
        hostHt := db.hostHt.insert (hashHostId env hostId cid) db.firstFreeHost }
          db.firstFreeHost new).hostTab.length = db.hostTab.length + 1 := by
      intro a new
      simp [RvSubscriptionDB.putHost, h.free]
    refine ⟨?_, ?_, ?_⟩
    · rw [hLength]
      exact congrArg (· + 1) h.free
    · intro key j hFind
      rw [hLength]
      have hFind' : (db.hostHt.insert (hashHostId env hostId cid) db.firstFreeHost).find? key = some j :=
        hFind
      rw [Table.find?_insert] at hFind'
      split at hFind'
      · cases hFind'
        exact Nat.lt_succ_of_le hLe
      · exact Nat.lt_succ_of_lt (h.within key j hFind')
    · intro j roll hRoll
      rw [rollOf_putHost { db with
        firstFreeHost := db.firstFreeHost + 1
        hosts := { db.hosts with active := db.hosts.active + 1 }
        hostHt := db.hostHt.insert (hashHostId env hostId cid) db.firstFreeHost } _ hLe] at hRoll
      split at hRoll
      · cases hRoll
        rw [start_roll]
        exact ⟨rfl, Option.some_ne_none _⟩
      · exact h.rolls j roll hRoll
  · have hRoll := (h.rolls i old.roll (rollOf_eq_some.mpr ⟨old, hOld, rfl⟩)).1
    simp [RvHostEntry.roll, hStop] at hRoll
  · have hKept : RollsKept db (db.modifyHost i f) := by
      refine .modifyHost fun host hHost => ?_
      obtain rfl := Option.some.inj (hHost.symm.trans hOld)
      exact roll_sameHost (hSame host) (iff_of_false hAwake hNot)
    exact ⟨by simpa [RvSubscriptionDB.modifyHost] using h.free,
      by simpa [RvSubscriptionDB.modifyHost] using h.within, hKept.rolls ▸ h.rolls⟩

/-- A session that has an entry is entered at any of the hosts. -/
theorem addSession (h : AllAwake db) (env : Env) (hi : i < db.hostTab.length) {s : RvSessionEntry}
    (hs : db.sessionTab.find? name = some s) :
    ∃ db', addSession env db i name = .ok db' ∧ AllAwake db' := by
  have hAt : db.hostTab[i]? = some db.hostTab[i] := List.getElem?_eq_getElem hi
  obtain ⟨hAwake, hTable⟩ := h.rolls i _ (rollOf_eq_some.mpr ⟨_, hAt, rfl⟩)
  obtain ⟨ht, hHt⟩ := Option.ne_none_iff_exists'.mp hTable
  have hHt' : db.hostTab[i].sessHt = some ht := hHt
  simp only [SubMgr.addSession, RvSubscriptionDB.hostAt, hAt, RvSubscriptionDB.sessionAt, hs, hHt', bind,
    Except.bind]
  split
  · exact ⟨db, rfl, h⟩
  · refine ⟨_, rfl, ?_, ?_, ?_⟩
    · simpa [RvSubscriptionDB.modifyHost] using h.free
    · simpa [RvSubscriptionDB.modifyHost] using h.within
    · intro j roll hRoll
      simp only [RvSubscriptionDB.rollOf, RvSubscriptionDB.modifyHost, List.getElem?_modify] at hRoll
      by_cases hij : i = j
      · subst hij
        simp only [hAt, if_true, Option.map_eq_map, Option.map_some, Option.some.injEq] at hRoll
        subst hRoll
        exact ⟨hAwake, Option.some_ne_none _⟩
      · refine h.rolls j roll ?_
        rw [RvSubscriptionDB.rollOf]
        simpa [hij] using hRoll

end AllAwake

/-! The subjects that were ever entered. -/

/-- Each entry of `sub_tab` took an id, and all of them are known. -/
structure Numbered (known : Finset Text) (db : RvSubscriptionDB) : Prop where
  ctr : db.nextSubjectCtr = db.subTab.entries.length
  subset : ∀ e ∈ db.subTab.entries, e.1 ∈ known

theorem Numbered.le {known : Finset Text} (h : Numbered known db) : db.nextSubjectCtr ≤ known.card := by
  have hNodup : (db.subTab.entries.map Prod.fst).toFinset.card = db.subTab.entries.length := by
    rw [List.toFinset_card_of_nodup db.subTab.nodup, List.length_map]
  rw [h.ctr, ← hNodup]
  apply Finset.card_le_card
  intro y hy
  obtain ⟨e, he, rfl⟩ := List.mem_map.mp (List.mem_toFinset.mp hy)
  exact h.subset e he

theorem Numbered.modify {known : Finset Text} (h : Numbered known db) (sub : Text)
    {f : RvSubscription → RvSubscription} (hCtr : db'.nextSubjectCtr = db.nextSubjectCtr)
    (hSubs : db'.subTab = db.subTab.modify sub f) : Numbered known db' where
  ctr := by
    rw [hCtr, hSubs, h.ctr]
    simp [Table.modify]
  subset e he := by
    rw [hSubs] at he
    obtain ⟨e', he', rfl⟩ := List.mem_map.mp he
    exact h.subset e' he'

theorem Numbered.refSubscription {known : Finset Text} (h : Numbered known db) (env : Env)
    (hSub : sub ∈ known) : Numbered known (refSubscription env db sub) := by
  rcases refSubscription_cases env db sub with ⟨-, hDb⟩ | ⟨hNone, hDb⟩
  · rw [hDb]
    exact h.modify sub (f := fun s => { s with refMono := db.curMono }) rfl rfl
  · have hEntries := Table.entries_insert_of_fresh
      (RvSubscription.start (subjectId env (db.nextSubjectCtr + 1)) db.curMono) hNone
    rw [hDb]
    refine ⟨?_, fun e he => ?_⟩
    · rw [hEntries, List.length_append, ← h.ctr]
      rfl
    · rw [hEntries, List.mem_append, List.mem_singleton] at he
      rcases he with he | rfl
      · exact h.subset e he
      · exact hSub

theorem Numbered.listenRef {known : Finset Text} (h : Numbered known db)
    (hSub : stripNul sub ∈ known) {r : Listened} (hListen : listenRef env db name sub = .ok r) :
    Numbered known r.db := by
  obtain ⟨sess, ht, script, -, -, -, -, hCase⟩ := listenRef_cases hListen
  have hRef := h.refSubscription env hSub
  rcases hCase with ⟨-, hDb, -⟩ | ⟨-, -, hDb⟩
  · rw [hDb]
    exact hRef
  · rw [hDb]
    exact hRef.modify (stripNul sub) (holdSubject_kept ..).ctr (holdSubject_subTab ..)

/-! What the reader has entered so far. -/

/-- A session that was written, with the ids of its host. -/
structure SyncRow where
  hostId : BitVec 32
  cid : BitVec 16
  name : Text
  subs : List Text

def SyncRow.field (row : SyncRow) : SyncSession where
  fname := row.name ++ [0]
  subs := row.subs

/-- The name leads to the ids, and the subjects are read as they were written. -/
structure SyncRow.Good (known : Finset Text) (row : SyncRow) : Prop where
  hostId : stringToHostId row.name = .ok row.hostId
  cid : nameCid row.cid row.name = row.cid
  subs : ∀ y ∈ row.subs, stripNul y = y ∧ y ∈ known

/-- What sessions bring to a reader. -/
def Brings (own : Option Text) (rows : List SyncRow) (x y : Text) : Prop :=
  own ≠ some x ∧ ∃ row ∈ rows, row.name = x ∧ y ∈ row.subs

theorem brings_append {own : Option Text} (rows rest : List SyncRow) :
    Brings own (rows ++ rest) x y ↔ Brings own rows x y ∨ Brings own rest x y := by
  simp [Brings, or_and_right, exists_or, and_or_left]

def RvSubscriptionDB.isSelf (db : RvSubscriptionDB) (name : Text) : Bool :=
  (db.sessionTab.find? name).any fun s => s.state = .self

theorem listenRef_isSelf {r : Listened} (h : listenRef env db name sub = .ok r) :
    r.db.isSelf = db.isSelf := by
  obtain ⟨sess, ht, script, -, -, -, -, hCase⟩ := listenRef_cases h
  have hRef : (refSubscription env db (stripNul sub)).isSelf = db.isSelf := by
    unfold RvSubscriptionDB.isSelf
    rw [refSubscription_sessionTab]
  rcases hCase with ⟨-, hDb, -⟩ | ⟨-, -, hDb⟩
  · rw [hDb, hRef]
  · rw [hDb, ← hRef]
    funext x
    simp only [RvSubscriptionDB.isSelf, holdSubject_sessionTab, Table.find?_modify, Option.any_map]
    congr 1
    funext s
    by_cases hx : x = name <;> simp [hx, RvSessionEntry.setSubHt]

theorem addSession_subTab (h : addSession env db i name = .ok db') : db'.subTab = db.subTab := by
  simp only [addSession, bind_eq_ok] at h
  obtain ⟨host, -, sess, -, h⟩ := h
  split at h
  · cases h
  · split at h <;> cases h <;> rfl

/-- Hosts and sessions are left alone by a subject that is listed. -/
theorem listSubject_entered {known : Finset Text} (hNumbered : Numbered known db)
    (hSub : stripNul sub ∈ known) (h : listSubject env name db sub = .ok db') :
    RollsKept db db' ∧ SlotsKept db db' ∧ Numbered known db' ∧ db'.isSelf = db.isSelf := by
  simp only [listSubject, bind_eq_ok] at h
  obtain ⟨r, hListen, h⟩ := h
  have hRolls := listenRef_rollsKept hListen
  have hSlots := listenRef_slotsKept hListen
  have hNumbered' := hNumbered.listenRef hSub hListen
  have hSelf := listenRef_isSelf hListen
  split at h
  · obtain ⟨script, -, h⟩ := (bind_eq_ok ..).mp h
    cases h
    refine ⟨hRolls.trans (notify_rollsKept env _ _), hSlots.trans (notify_digestsOnly env _ _).slotsKept,
      ⟨?_, ?_⟩, ?_⟩
    · rw [(notify_kept env _ _).ctr, notify_subTab, hNumbered'.ctr]
    · rw [notify_subTab]
      exact hNumbered'.subset
    · unfold RvSubscriptionDB.isSelf
      rw [notify_sessionTab]
      exact hSelf
  · cases h
    exact ⟨hRolls, hSlots, hNumbered', hSelf⟩

/-- The database of a reader that had no session but its own, after the sessions `rows`. -/
structure Replica (env : Env) (own : Option Text) (known : Finset Text) (rows : List SyncRow)
    (db : RvSubscriptionDB) : Prop where
  awake : AllAwake db
  linked : Linked env db
  numbered : Numbered known db
  self : ∀ x, db.isSelf x = true ↔ own = some x
  entered : ∀ x, db.placeOf x ≠ none ↔ own = some x ∨ ∃ row ∈ rows, row.name = x
  places : ∀ x p, db.placeOf x = some p → p.stopped = false ∧ p.closed = false ∧
    (own = some x ∨ ∃ row ∈ rows, row.name = x ∧ row.hostId = p.hostId ∧ row.cid = p.cid)

section
variable {own : Option Text} {known : Finset Text} {rows : List SyncRow}

namespace Replica

theorem isLive (h : Replica env own known rows db) :
    SubMgr.isLive db x = true ↔ own = some x ∨ ∃ row ∈ rows, row.name = x := by
  rw [isLive_iff_place, ← h.entered, Option.ne_none_iff_exists']
  constructor
  · rintro ⟨p, hp, -⟩
    exact ⟨p, hp⟩
  · rintro ⟨p, hp⟩
    exact ⟨p, hp, (h.places x p hp).1⟩

theorem tableOf (h : Replica env own known rows db) (hLive : SubMgr.isLive db x = true) :
    ∃ ht, db.tableOf x = some ht := by
  obtain ⟨p, hp, -⟩ := isLive_iff_place.mp hLive
  have hClosed := (h.places x p hp).2.1
  obtain ⟨s, hs, rfl⟩ := placeOf_eq_some.mp hp
  obtain ⟨ht, hHt⟩ := Option.ne_none_iff_exists'.mp (show s.subHt ≠ none by
    rintro hNone
    simp [RvSessionEntry.place, hNone] at hClosed)
  exact ⟨ht, by simp [RvSubscriptionDB.tableOf, hs, hHt]⟩

/-- A subject more for a session that is not the reader's own. -/
theorem listSubject (h : Replica env own known rows db) (ids : SubjectIds env (known.card + 1))
    (hLive : SubMgr.isLive db name = true) (hSub : stripNul sub = sub) (hKnown : sub ∈ known) :
    ∃ db', listSubject env name db sub = .ok db' ∧ Replica env own known rows db' ∧
      ∀ x y, db'.Holds x y ↔ x = name ∧ y = sub ∨ db.Holds x y := by
  obtain ⟨ht, hTable⟩ := h.tableOf hLive
  obtain ⟨db', hList, hHeard⟩ := listSubject_heard h.linked
    (ids.mono (Nat.succ_le_succ h.numbered.le)) hTable sub
  have hKnown' : stripNul sub ∈ known := hSub.symm ▸ hKnown
  obtain ⟨hRolls, hSlots, hNumbered, hSelf⟩ := listSubject_entered h.numbered hKnown' hList
  refine ⟨db', hList, ⟨h.awake.of_kept hRolls hSlots, hHeard.linked, hNumbered, ?_, ?_, ?_⟩, ?_⟩
  · rw [hSelf]
    exact h.self
  · rw [hRolls.places]
    exact h.entered
  · rw [hRolls.places]
    exact h.places
  · intro x y
    rw [hHeard.holds, hSub, List.mem_singleton]

theorem listSubjects (h : Replica env own known rows db) (ids : SubjectIds env (known.card + 1))
    (hLive : SubMgr.isLive db name = true) {subs : List Text}
    (hSubs : ∀ y ∈ subs, stripNul y = y ∧ y ∈ known) :
    ∃ db', subs.foldlM (SubMgr.listSubject env name) db = .ok db' ∧ Replica env own known rows db' ∧
      ∀ x y, db'.Holds x y ↔ x = name ∧ y ∈ subs ∨ db.Holds x y := by
  induction subs generalizing db with
  | nil => exact ⟨db, rfl, h, by simp⟩
  | cons sub rest ih =>
      obtain ⟨hSub, hKnown⟩ := hSubs sub List.mem_cons_self
      obtain ⟨db₁, hFirst, h₁, hHolds₁⟩ := h.listSubject ids hLive hSub hKnown
      have hLive₁ : SubMgr.isLive db₁ name = true := h₁.isLive.mpr (h.isLive.mp hLive)
      obtain ⟨db', hRest, h', hHolds⟩ := ih h₁ hLive₁ fun y hy => hSubs y (List.mem_cons_of_mem _ hy)
      refine ⟨db', ?_, h', fun x y => ?_⟩
      · rw [List.foldlM_cons, hFirst]
        exact hRest
      · rw [hHolds, hHolds₁, List.mem_cons]
        tauto

/-- Sessions and subjects as they were. -/
theorem of_kept (h : Replica env own known rows db) (hAwake : AllAwake db')
    (hPlaces : db'.placeOf = db.placeOf) (hSelf : db'.isSelf = db.isSelf) (hKept : HoldingsKept db db')
    (hSubs : db'.subTab = db.subTab) : Replica env own known rows db' where
  awake := hAwake
  linked := h.linked.of_kept hKept
  numbered := ⟨by rw [hKept.ctr, hSubs, h.numbered.ctr], by rw [hSubs]; exact h.numbered.subset⟩
  self := by rw [hSelf]; exact h.self
  entered := by rw [hPlaces]; exact h.entered
  places := by rw [hPlaces]; exact h.places

theorem of_hostsOnly (h : Replica env own known rows db) (hAwake : AllAwake db')
    (hSame : HostsOnly db db') : Replica env own known rows db' := by
  refine h.of_kept hAwake ?_ ?_ (.of_quiet hSame.quiet) hSame.subTab
  · unfold RvSubscriptionDB.placeOf
    rw [hSame.sessionTab]
  · unfold RvSubscriptionDB.isSelf
    rw [hSame.sessionTab]

/-- The time of a session is set. -/
theorem touch (h : Replica env own known rows db) (name : Text) (curMono : BitVec 32) :
    Replica env own known rows (db.modifySession name fun s => { s with refMono := curMono }) ∧
      HoldingsKept db (db.modifySession name fun s => { s with refMono := curMono }) := by
  have hKept : HoldingsKept db (db.modifySession name fun s => { s with refMono := curMono }) :=
    modifySession_kept (fun _ => rfl) fun _ _ hStop => hStop
  have hRolls : RollsKept db (db.modifySession name fun s => { s with refMono := curMono }) :=
    .modifySession fun _ _ => rfl
  refine ⟨h.of_kept ⟨h.awake.free, h.awake.within, h.awake.rolls⟩ hRolls.places ?_ hKept rfl, hKept⟩
  funext x
  simp only [RvSubscriptionDB.isSelf, RvSubscriptionDB.modifySession, Table.find?_modify, Option.any_map]
  congr 1
  funext s
  by_cases hx : x = name <;> simp [hx]

theorem start_state_ne_self (name : Text) (hostId : BitVec 32) (cid : BitVec 16)
    (sessId curMono : BitVec 32) (isStart : Bool) (user : Option Text) :
    (RvSessionEntry.start name hostId cid sessId curMono isStart user).state ≠ .self := by
  unfold RvSessionEntry.start
  dsimp only
  split
  · exact nofun
  · split
    · exact nofun
    · split <;> exact nofun

/-- A session that the reader does not have is entered at a host. -/
theorem enter (h : Replica env own known rows db) (row : SyncRow)
    (hNew : SubMgr.isLive db row.name = false) (hi : i < db.hostTab.length) (isStart : Bool)
    (user : Option Text) :
    ∃ db', addSession env (startEntry db row.name row.hostId row.cid isStart user) i row.name = .ok db' ∧
      Replica env own known (rows ++ [row]) db' ∧ ∀ x y, db'.Holds x y ↔ db.Holds x y := by
  have hOpen : AllAwake (startEntry db row.name row.hostId row.cid isStart user) :=
    ⟨h.awake.free, h.awake.within, h.awake.rolls⟩
  have hFind : (startEntry db row.name row.hostId row.cid isStart user).sessionTab.find? row.name =
      some _ := Table.find?_insert_self ..
  obtain ⟨db', hAdd, hAwake⟩ := hOpen.addSession env hi hFind
  have hNot : ¬ (own = some row.name ∨ ∃ r ∈ rows, r.name = row.name) := by
    rw [← h.isLive, hNew]
    decide
  have hTab : db'.sessionTab = _ := addSession_sessionTab hAdd
  have hAdd' := hAdd
  rw [← modifySession_id (startEntry db row.name row.hostId row.cid isStart user) row.name] at hAdd'
  obtain ⟨linked, hCtr, -, hHolds⟩ := enterSession_holdings h.linked hNew
    (fun s => ⟨rfl, rfl, rfl, rfl, rfl⟩) (fun _ hStop => hStop) hAdd'
  have hSubs : db'.subTab = db.subTab := by
    rw [addSession_subTab hAdd]
    rfl
  have hPlace : ∀ x, db'.placeOf x = if x = row.name then
      some (RvSessionEntry.start row.name row.hostId row.cid (sessionId (db.nextSessionCtr + 1))
        db.curMono isStart user).place else db.placeOf x := by
    intro x
    simp only [RvSubscriptionDB.placeOf, hTab, startEntry, Table.find?_insert]
    split <;> rfl
  refine ⟨db', hAdd, ⟨hAwake, linked, ⟨?_, ?_⟩, ?_, ?_, ?_⟩, hHolds⟩
  · rw [hCtr, hSubs, h.numbered.ctr]
  · rw [hSubs]
    exact h.numbered.subset
  · intro x
    simp only [RvSubscriptionDB.isSelf, hTab, startEntry, Table.find?_insert]
    by_cases hx : x = row.name
    · subst hx
      simp only [if_true, Option.any_some, decide_eq_true_eq]
      exact iff_of_false (start_state_ne_self _ _ _ _ _ _ _) fun hOwn => hNot (.inl hOwn)
    · simpa [hx, RvSubscriptionDB.isSelf] using h.self x
  · intro x
    rw [hPlace]
    by_cases hx : x = row.name
    · subst hx
      simp
    · simp [hx, h.entered, or_and_right, exists_or, Ne.symm hx]
  · intro x p hp
    rw [hPlace] at hp
    split at hp
    · next hx =>
        cases hp
        refine ⟨decide_eq_false (start_state_ne_stop _ _ _ _ _ _ _), rfl, ?_⟩
        exact .inr ⟨row, by simp, hx.symm, rfl, rfl⟩
    · obtain ⟨hAwake, hTable, hIds⟩ := h.places x p hp
      refine ⟨hAwake, hTable, hIds.imp_right ?_⟩
      rintro ⟨r, hr, hRest⟩
      exact ⟨r, List.mem_append_left _ hr, hRest⟩

theorem sessionRef (h : Replica env own known rows db) {row : SyncRow} (hGood : row.Good known) :
    ∃ db', sessionRef env db row.cid row.name = .ok db' ∧ Replica env own known (rows ++ [row]) db' ∧
      ∀ x y, db'.Holds x y ↔ db.Holds x y := by
  cases hLive : SubMgr.isLive db row.name with
  | true =>
      obtain ⟨hTouch, hKept⟩ := h.touch row.name db.curMono
      refine ⟨_, by rw [SubMgr.sessionRef, ensureOpen, hLive]; rfl, ?_, fun x y => hKept.holds⟩
      refine { hTouch with
        entered := fun x => ?_
        places := fun x p hp => ?_ }
      · rw [hTouch.entered]
        constructor
        · rintro (hOwn | ⟨r, hr, hName⟩)
          · exact .inl hOwn
          · exact .inr ⟨r, List.mem_append_left _ hr, hName⟩
        · rintro (hOwn | ⟨r, hr, rfl⟩)
          · exact .inl hOwn
          · rcases List.mem_append.mp hr with hr | hr
            · exact .inr ⟨r, hr, rfl⟩
            · rw [List.mem_singleton.mp hr]
              exact h.isLive.mp hLive
      · obtain ⟨hAwake, hTable, hIds⟩ := hTouch.places x p hp
        refine ⟨hAwake, hTable, hIds.imp_right ?_⟩
        rintro ⟨r, hr, hRest⟩
        exact ⟨r, List.mem_append_left _ hr, hRest⟩
  | false =>
      rw [sessionRef_eq hGood.hostId hGood.cid hLive]
      obtain ⟨db₁, i, hRef, hAwake, hi⟩ := h.awake.hostRef env row.hostId row.cid false
      have hHosts := hostRef_hostsOnly hRef
      have h₁ := h.of_hostsOnly hAwake hHosts
      have hNew : SubMgr.isLive db₁ row.name = false := by
        rw [SubMgr.isLive, hHosts.sessionTab]
        exact hLive
      obtain ⟨db₂, hAdd, h₂, hHolds⟩ := h₁.enter row hNew hi false none
      obtain ⟨hTouch, hKept⟩ := h₂.touch row.name db₂.curMono
      refine ⟨_, ?_, hTouch, fun x y => ?_⟩
      · simp only [hRef, hAdd, bind, Except.bind]
        rfl
      · rw [hKept.holds, hHolds, (HoldingsKept.of_quiet hHosts.quiet).holds]

/-- A session that was written; the reader's own takes no subjects. -/
theorem syncSession (h : Replica env own known rows db) (ids : SubjectIds env (known.card + 1))
    {row : SyncRow} (hGood : row.Good known) :
    ∃ db', syncSession env row.cid db row.field = .ok db' ∧ Replica env own known (rows ++ [row]) db' ∧
      ∀ x y, db'.Holds x y ↔ Brings own [row] x y ∨ db.Holds x y := by
  obtain ⟨db₁, hRef, h₁, hHolds₁⟩ := h.sessionRef hGood
  have hLive : SubMgr.isLive db₁ row.name = true := h₁.isLive.mpr (.inr ⟨row, by simp, rfl⟩)
  obtain ⟨s, hs⟩ : ∃ s, db₁.sessionTab.find? row.name = some s := by
    obtain ⟨p, hp, -⟩ := isLive_iff_place.mp hLive
    obtain ⟨s, hs, -⟩ := placeOf_eq_some.mp hp
    exact ⟨s, hs⟩
  have hSelf : s.state = .self ↔ own = some row.name := by
    rw [← h₁.self, RvSubscriptionDB.isSelf, hs, Option.any_some, decide_eq_true_eq]
  have hName : row.field.fname.dropLast = row.name := List.dropLast_concat
  have hSync : SubMgr.syncSession env row.cid db row.field =
      if s.state = .self then .ok db₁ else row.subs.foldlM (SubMgr.listSubject env row.name) db₁ := by
    rw [SubMgr.syncSession, if_neg (by simp [SyncRow.field]), hName]
    simp only [hRef, RvSubscriptionDB.sessionAt, hs, bind, Except.bind]
    rfl
  rw [hSync]
  by_cases hOwn : own = some row.name
  · rw [if_pos (hSelf.mpr hOwn)]
    refine ⟨db₁, rfl, h₁, fun x y => ?_⟩
    rw [hHolds₁]
    refine (or_iff_right ?_).symm
    simp only [Brings, List.mem_singleton, exists_eq_left]
    rintro ⟨hNot, rfl, -⟩
    exact hNot hOwn
  · rw [if_neg (mt hSelf.mp hOwn)]
    obtain ⟨db', hList, h', hHolds⟩ := h₁.listSubjects ids hLive hGood.subs
    refine ⟨db', hList, h', fun x y => ?_⟩
    rw [hHolds, hHolds₁]
    simp only [Brings, List.mem_singleton, exists_eq_left]
    refine or_congr_left ⟨?_, ?_⟩
    · rintro ⟨rfl, hy⟩
      exact ⟨hOwn, rfl, hy⟩
    · rintro ⟨-, rfl, hy⟩
      exact ⟨rfl, hy⟩

theorem syncSessions (h : Replica env own known rows db) (ids : SubjectIds env (known.card + 1))
    {cid : BitVec 16} {list : List SyncRow} (hGood : ∀ row ∈ list, row.Good known ∧ row.cid = cid) :
    ∃ db', (list.map SyncRow.field).foldlM (SubMgr.syncSession env cid) db = .ok db' ∧
      Replica env own known (rows ++ list) db' ∧ ∀ x y, db'.Holds x y ↔
        Brings own list x y ∨ db.Holds x y := by
  induction list generalizing db rows with
  | nil => exact ⟨db, rfl, by simpa using h, by simp [Brings]⟩
  | cons row rest ih =>
      obtain ⟨hRow, rfl⟩ := hGood row List.mem_cons_self
      obtain ⟨db₁, hFirst, h₁, hHolds₁⟩ := h.syncSession ids hRow
      obtain ⟨db', hRest, h', hHolds⟩ := ih h₁ fun r hr => hGood r (List.mem_cons_of_mem _ hr)
      refine ⟨db', ?_, by simpa using h', fun x y => ?_⟩
      · rw [List.map_cons, List.foldlM_cons, hFirst]
        exact hRest
      · rw [hHolds, hHolds₁, ← or_assoc, or_comm (b := Brings own [row] x y), ← brings_append]
        rfl

end Replica

/-- A host that was written. -/
structure SyncHost where
  hostId : BitVec 32
  cid : BitVec 16
  rows : List SyncRow
  same : ∀ row ∈ rows, row.hostId = hostId ∧ row.cid = cid

def SyncHost.fields (host : SyncHost) : List SyncField :=
  let cid := if host.cid ≠ 0 then [SyncField.cid (some host.cid)] else []
  let sessions := if host.rows = [] then [] else [SyncField.sessions (host.rows.map SyncRow.field)]
  .id (some host.hostId) :: cid ++ sessions

namespace Replica

/-- The reader takes the ids before it comes to the sessions. -/
theorem syncHost_fields (env : Env) (host : SyncHost) (db : RvSubscriptionDB) :
    syncHost env 0 0 host.fields db = if host.rows = [] ∨ host.hostId = 0 then .ok db else
      SubMgr.hostRef env db host.hostId host.cid true >>= fun r =>
        (host.rows.map SyncRow.field).foldlM (SubMgr.syncSession env host.cid) r.1 := by
  -- after the sessions no field is left
  have hLast : ∀ r : Result RvSubscriptionDB, (do let db ← r; .ok db) = r := by
    intro r
    cases r <;> rfl
  unfold SyncHost.fields
  dsimp only
  split <;> split <;> simp_all [SubMgr.syncHost]

theorem syncHost (h : Replica env own known rows db) (ids : SubjectIds env (known.card + 1))
    {host : SyncHost} (hGood : ∀ row ∈ host.rows, row.Good known ∧ row.hostId ≠ 0) :
    ∃ db', syncHost env 0 0 host.fields db = .ok db' ∧
      Replica env own known (rows ++ host.rows) db' ∧ ∀ x y, db'.Holds x y ↔
        Brings own host.rows x y ∨ db.Holds x y := by
  rw [syncHost_fields]
  by_cases hNone : host.rows = []
  · refine ⟨db, if_pos (.inl hNone), ?_, ?_⟩
    · simpa [hNone] using h
    · simp [hNone, Brings]
  · obtain ⟨row, hRow⟩ := List.exists_mem_of_ne_nil _ hNone
    have hId : host.hostId ≠ 0 := (host.same row hRow).1 ▸ (hGood row hRow).2
    obtain ⟨db₁, i, hRef, hAwake, -⟩ := h.awake.hostRef env host.hostId host.cid true
    have hHosts := hostRef_hostsOnly hRef
    obtain ⟨db', hSessions, h', hHolds⟩ := (h.of_hostsOnly hAwake hHosts).syncSessions ids
      fun row hRow => ⟨(hGood row hRow).1, (host.same row hRow).2⟩
    refine ⟨db', ?_, h', fun x y => ?_⟩
    · rw [if_neg (not_or.mpr ⟨hNone, hId⟩), hRef]
      exact hSessions
    · rw [hHolds, (HoldingsKept.of_quiet hHosts.quiet).holds]

theorem updateSync (h : Replica env own known rows db) (ids : SubjectIds env (known.card + 1))
    {hosts : List SyncHost}
    (hGood : ∀ host ∈ hosts, ∀ row ∈ host.rows, row.Good known ∧ row.hostId ≠ 0) :
    ∃ db', updateSync env db (hosts.map SyncHost.fields) = .ok db' ∧
      Replica env own known (rows ++ hosts.flatMap SyncHost.rows) db' ∧ ∀ x y, db'.Holds x y ↔
        Brings own (hosts.flatMap SyncHost.rows) x y ∨ db.Holds x y := by
  induction hosts generalizing db rows with
  | nil => exact ⟨db, rfl, by simpa using h, by simp [Brings]⟩
  | cons host rest ih =>
      obtain ⟨db₁, hFirst, h₁, hHolds₁⟩ := h.syncHost ids (hGood host List.mem_cons_self)
      obtain ⟨db', hRest, h', hHolds⟩ := ih h₁ fun r hr => hGood r (List.mem_cons_of_mem _ hr)
      refine ⟨db', ?_, by simpa using h', fun x y => ?_⟩
      · unfold SubMgr.updateSync
        rw [List.map_cons, List.foldlM_cons, hFirst]
        exact hRest
      · rw [hHolds, hHolds₁, List.flatMap_cons, brings_append]
        tauto

theorem sessionStart_new {hostId : BitVec 32} {cid : BitVec 16} {user : Option Text}
    (hExists : hostExists env db hostId cid = some i) (hNew : SubMgr.isLive db name = false)
    (isSelf : Bool) : sessionStart env db hostId cid name isSelf user =
      addSession env (startEntry db name hostId cid true user) i name >>= fun db => .ok
        (if isSelf then db.modifySession name fun s => { s with state := .self } else db) := by
  rw [sessionStart, hExists]
  simp only [dropLive, hNew]
  rfl

/-- A client that starts has no session, or its own, which holds nothing. -/
theorem start (known : Finset Text) {curMono : BitVec 32} {s2 : Bool}
    (hStart : startSubscriptions env curMono s2 = .ok db) :
    Replica env (if s2 then some env.session else none) known [] db ∧ ∀ x y, ¬ db.Holds x y := by
  have hEmpty : Replica env none known [] { curMono := curMono, nextGc := curMono + 131 } :=
    { awake := ⟨rfl, nofun, nofun⟩
      linked := linked_empty env _ _
      numbered := ⟨rfl, nofun⟩
      self := fun x => iff_of_false nofun nofun
      entered := fun x => iff_of_false (not_not.mpr rfl) (by simp)
      places := nofun }
  have hNothing : ∀ x y, ¬ RvSubscriptionDB.Holds { curMono := curMono, nextGc := curMono + 131 } x y := by
    rintro x y ⟨sess, script, hSess, -⟩
    cases hSess
  cases s2 with
  | false =>
      cases hStart
      exact ⟨hEmpty, hNothing⟩
  | true =>
      obtain ⟨db₁, i, hRef, hAwake, hi⟩ := hEmpty.awake.hostRef env env.ipaddr env.cid true
      obtain ⟨hFind, host, hHost, -⟩ := hostRef_slot hRef
      let db₂ := db₁.modifyHost i fun host => { host with state := .query }
      have hRolls : RollsKept db₁ db₂ := .modifyHost fun host hHost => by
        have hNot := (hAwake.rolls i _ (rollOf_eq_some.mpr ⟨host, hHost, rfl⟩)).1
        simp only [RvHostEntry.roll, decide_eq_false_iff_not] at hNot
        simp [RvHostEntry.roll, hNot]
      have hAwake₂ : AllAwake db₂ := ⟨by simpa [db₂, RvSubscriptionDB.modifyHost] using hAwake.free,
        by simpa [db₂, RvSubscriptionDB.modifyHost] using hAwake.within, hRolls.rolls ▸ hAwake.rolls⟩
      have hHosts := hostRef_hostsOnly hRef
      have h₂ : Replica env none known [] db₂ :=
        (hEmpty.of_hostsOnly hAwake hHosts).of_hostsOnly hAwake₂ (modifyHost_hostsOnly ..)
      have hExists : hostExists env db₂ env.ipaddr env.cid = some i := by
        refine Option.filter_eq_some_iff.mpr ⟨hFind, ?_⟩
        simp [db₂, RvSubscriptionDB.modifyHost, hHost]
      have hNew : SubMgr.isLive db₂ env.session = false := by
        have hTab : db₂.sessionTab = .empty := hHosts.sessionTab
        rw [SubMgr.isLive, hTab]
        rfl
      let row : SyncRow := ⟨env.ipaddr, env.cid, env.session, []⟩
      obtain ⟨db₃, hAdd, h₃, hHolds⟩ := h₂.enter row hNew (by
        simpa [db₂, RvSubscriptionDB.modifyHost] using hi) true (some (text "self"))
      have hSession : startSubscriptions env curMono true =
          .ok (db₃.modifySession env.session fun s => { s with state := .self }) := by
        have hFirst : startSubscriptions env curMono true =
            sessionStart env db₂ env.ipaddr env.cid env.session true (some (text "self")) := by
          simp only [startSubscriptions, hRef, bind, Except.bind, if_true]
          rfl
        rw [hFirst, sessionStart_new hExists hNew, hAdd]
        rfl
      cases hSession.symm.trans hStart
      have hKept : HoldingsKept db₃ (db₃.modifySession env.session fun s => { s with state := .self }) :=
        modifySession_kept (fun _ => rfl) fun _ _ hStop => by cases hStop
      have hPlaces : RollsKept db₃ (db₃.modifySession env.session fun s => { s with state := .self }) := by
        refine .modifySession fun s hs => ?_
        have hNot := (h₃.places env.session s.place (placeOf_eq_some.mpr ⟨s, hs, rfl⟩)).1
        simp only [RvSessionEntry.place, decide_eq_false_iff_not] at hNot
        simp [RvSessionEntry.place, hNot]
      have hRow : ∀ x, ((none : Option Text) = some x ∨ ∃ r ∈ [] ++ [row], r.name = x) ↔
          some env.session = some x ∨ ∃ r ∈ ([] : List SyncRow), r.name = x := by
        intro x
        simp [row]
      refine ⟨{ awake := ⟨h₃.awake.free, h₃.awake.within, h₃.awake.rolls⟩
                linked := h₃.linked.of_kept hKept
                numbered := ⟨h₃.numbered.ctr, h₃.numbered.subset⟩
                self := fun x => ?_
                entered := fun x => ?_
                places := fun x p hp => ?_ }, fun x y => ?_⟩
      · have hEntry : (db₃.sessionTab.find? x).isSome = true ↔ env.session = x := by
          rw [← Option.isSome_map (f := RvSessionEntry.place), ← Option.ne_none_iff_isSome]
          simpa [row, RvSubscriptionDB.placeOf] using h₃.entered x
        simp only [RvSubscriptionDB.isSelf, RvSubscriptionDB.modifySession, Table.find?_modify,
          Option.any_map, if_true, Option.some.injEq]
        rw [← hEntry]
        cases hFind : db₃.sessionTab.find? x with
        | none => simp
        | some s =>
            have hx := hEntry.mp (by rw [hFind]; rfl)
            simp [hx]
      · rw [hPlaces.places, h₃.entered, hRow]
        rfl
      · rw [hPlaces.places] at hp
        obtain ⟨hAwake, hTable, hIds⟩ := h₃.places x p hp
        refine ⟨hAwake, hTable, .inl ?_⟩
        simpa [row] using (h₃.entered x).mp (by simp [hp])
      · rw [hKept.holds, hHolds, (HoldingsKept.of_quiet (modifyHost_hostsOnly ..).quiet).holds,
          (HoldingsKept.of_quiet hHosts.quiet).holds]
        exact hNothing x y

end Replica

end

/-! What the writer says. -/

end Sassrv.SubMgr
