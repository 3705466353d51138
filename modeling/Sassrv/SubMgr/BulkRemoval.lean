import Sassrv.Lib.Rounds
import Sassrv.SubMgr.Held
import Sassrv.SubMgr.Runs
import Sassrv.SubMgr.StepTurns

/-! `stop_marked_sessions` and `stop_marked_subscriptions` with the rounds of their
loops. The index of the arrays is not set back between two rounds. -/
namespace Sassrv.SubMgr
open Partial Rounds

variable {env : Env} {db db' : RvSubscriptionDB} {i : Nat} {name sub : Text}

/-- The size of the arrays. -/
def endSize : Nat := 256

/-- `stop_marked_sessions`: the arrays keep a session by its id and its hash. -/
def sessionSweep (env : Env) (i : Nat) :
    Sweep Fault RvSubscriptionDB Text (BitVec 32 × BitVec 32) where
  entries db := match db.hostTab[i]? with
    | none => []
    | some host => sessionsOf env db host.sessHt
  marked := isMarkedSession
  pass db name := db.modifySession name RvSessionEntry.toQuery
  key db name := ((db.sessionTab.find? name).elim 0 RvSessionEntry.sessionId, env.crcC name 0)
  remove db key := match getSessionBy env db key.1 key.2 with
    | none => .error .nullPointer
    | some name => remSession env db i name

/-- `stop_marked_subscriptions`: the arrays keep a subject by its id and its hash. -/
def subjectSweep (env : Env) (name : Text) :
    Sweep Fault RvSubscriptionDB Text (BitVec 32 × BitVec 32) where
  entries db := match db.sessionTab.find? name with
    | none => []
    | some sess => subjects env db sess.subHt
  marked := isMarkedSubscription
  pass db _ := db
  key db sub := ((db.subTab.find? sub).elim 0 RvSubscription.subjectId, env.crcC sub 0)
  remove db key := match getSubject env db key.1 key.2 with
    | none => .error .nullPointer
    | some sub => stopMarked env name db sub

/-- The loop ends after some rounds. -/
def SweepReturns (w : Sweep Fault RvSubscriptionDB Text (BitVec 32 × BitVec 32))
    (db db' : RvSubscriptionDB) : Prop :=
  ∃ n, rounds w endSize .outOfBounds n db [] = some (.ok db')

theorem toQuery_refMono (s : RvSessionEntry) : s.toQuery.refMono = s.refMono := by
  unfold RvSessionEntry.toQuery
  split <;> rfl

theorem sessionSweep_steady (env : Env) (i : Nat) : (sessionSweep env i).Steady where
  marked db x name := by
    simp only [sessionSweep, isMarkedSession, RvSubscriptionDB.modifySession, Table.find?_modify]
    cases db.sessionTab.find? name with
    | none => rfl
    | some s => by_cases hx : name = x <;> simp [hx, toQuery_refMono]
  key db x name := by
    simp only [sessionSweep, RvSubscriptionDB.modifySession, Table.find?_modify]
    cases db.sessionTab.find? name with
    | none => rfl
    | some s => by_cases hx : name = x <;> simp [hx, (sameSession_toQuery s).sessionId]

theorem subjectSweep_steady (env : Env) (name : Text) : (subjectSweep env name).Steady :=
  ⟨fun _ _ _ => rfl, fun _ _ _ => rfl⟩

/-! What a removal keeps of the tables that its keys go through. -/

theorem getSessionBy_congr (h : db'.sessionTab.map RvSessionEntry.sessionId =
    db.sessionTab.map RvSessionEntry.sessionId) (id hash : BitVec 32) :
    getSessionBy env db' id hash = getSessionBy env db id hash :=
  Table.findKey_congr h fun x sessId => decide (env.crcC x 0 = hash ∧ sessId = id)

theorem getSubject_congr (h : db'.subTab.map RvSubscription.subjectId =
    db.subTab.map RvSubscription.subjectId) (id hash : BitVec 32) :
    getSubject env db' id hash = getSubject env db id hash :=
  Table.findKey_congr h fun x subId => decide (env.crcC x 0 = hash ∧ subId = id)

theorem CoresKept.ids (h : CoresKept db db') : db'.sessionTab.map RvSessionEntry.sessionId =
    db.sessionTab.map RvSessionEntry.sessionId := by
  have hIds := congrArg (fun t => t.map RvSessionEntry.sessionId) h
  apply Table.ext
  have hEntries := congrArg Table.entries hIds
  simp only [Table.map, List.map_map] at hEntries ⊢
  exact hEntries

theorem unsubSession_ids (h : unsubSession env db name = .ok db') :
    db'.sessionTab.map RvSessionEntry.sessionId = db.sessionTab.map RvSessionEntry.sessionId := by
  simp only [unsubSession, bind_eq_ok, pure_eq_ok] at h
  obtain ⟨sess, -, rfl⟩ := h
  refine Eq.trans ?_ (unsubSubjects_coresKept env name sess (subjects env db sess.subHt) db).ids
  exact Table.map_modify fun _ _ => rfl

theorem remSession_ids (h : remSession env db i name = .ok db') :
    db'.sessionTab.map RvSessionEntry.sessionId = db.sessionTab.map RvSessionEntry.sessionId := by
  simp only [remSession, bind_eq_ok] at h
  obtain ⟨db₁, hUnsub, hUnlink⟩ := h
  rw [unlinkSession_sessionTab hUnlink]
  exact unsubSession_ids hUnsub

/-- The id of a session, where it is known. -/
def RvSubscriptionDB.sessionIdOf (db : RvSubscriptionDB) (name : Text) : BitVec 32 :=
  (db.sessionTab.find? name).elim 0 RvSessionEntry.sessionId

theorem sessionIdOf_congr (h : db'.sessionTab.map RvSessionEntry.sessionId =
    db.sessionTab.map RvSessionEntry.sessionId) (name : Text) :
    db'.sessionIdOf name = db.sessionIdOf name := by
  have hFind := congrArg (fun t => t.find? name) h
  simp only [Table.find?_map] at hFind
  unfold RvSubscriptionDB.sessionIdOf
  cases hOne : db'.sessionTab.find? name <;> cases hTwo : db.sessionTab.find? name <;>
    simp_all

/-- One session removed from a host that has a table. -/
theorem remSession_table (env : Env) {host : RvHostEntry} {ht : UIntHashTab} (hHost : db.hostTab[i]? = some host)
    (hHt : host.sessHt = some ht) (hSess : db.sessionTab.contains name = true) :
    ∃ db' host' ht', remSession env db i name = .ok db' ∧ db'.hostTab[i]? = some host' ∧
      host'.sessHt = some ht' ∧
      ∀ id, ht'.find? id = if id = db.sessionIdOf name then none else ht.find? id := by
  obtain ⟨sess, hSess⟩ := Table.contains_iff.mp hSess
  have hUnsub : ∃ db₁, unsubSession env db name = .ok db₁ := by
    simp only [unsubSession, RvSubscriptionDB.sessionAt, hSess, bind, Except.bind, pure, Except.pure]
    exact ⟨_, rfl⟩
  obtain ⟨db₁, hUnsub⟩ := hUnsub
  have hPlain := (unsubSession_digestsOnly hUnsub).plain i
  rw [hHost, Option.map_some] at hPlain
  obtain ⟨host₁, hHost₁, hEq⟩ := Option.map_eq_some_iff.mp hPlain
  have hHt₁ : host₁.sessHt = some ht := (congrArg RvHostEntry.sessHt hEq).trans hHt
  obtain ⟨sess₁, hSess₁⟩ := unsubSession_session_of hUnsub hSess
  have hId : sess₁.sessionId = db.sessionIdOf name := by
    obtain ⟨s, hs, hId, -⟩ := unsubSession_session hUnsub hSess₁
    simp [RvSubscriptionDB.sessionIdOf, hs, hId]
  simp only [remSession, hUnsub, unlinkSession, RvSubscriptionDB.hostAt, hHost₁, hHt₁,
    RvSubscriptionDB.sessionAt, hSess₁, hId, bind, Except.bind, pure, Except.pure]
  split
  · refine ⟨_, { host₁ with
      sessHt := some (ht.erase (db.sessionIdOf name))
      rv7SessId := if sess₁.hasDaemon then 0 else host₁.rv7SessId },
      ht.erase (db.sessionIdOf name), rfl, ?_, rfl, fun id => Table.find?_erase _ _ _⟩
    simp [RvSubscriptionDB.modifyHost, hHost₁]
  · next hGone =>
      refine ⟨_, host₁, ht, rfl, hHost₁, hHt₁, fun id => ?_⟩
      split
      · next hId =>
          subst hId
          simpa [Table.contains] using hGone
      · rfl

theorem remSessions_table (env : Env) {names : List Text} {host : RvHostEntry} {ht : UIntHashTab}
    (hHost : db.hostTab[i]? = some host) (hHt : host.sessHt = some ht)
    (hSess : ∀ x ∈ names, db.sessionTab.contains x = true) :
    ∃ db' host' ht', names.foldlM (fun db name => remSession env db i name) db = .ok db' ∧
      db'.hostTab[i]? = some host' ∧ host'.sessHt = some ht' ∧
      ∀ id, ht'.find? id = if ∃ x ∈ names, db.sessionIdOf x = id then none else ht.find? id := by
  induction names generalizing db host ht with
  | nil => exact ⟨db, host, ht, rfl, hHost, hHt, by simp⟩
  | cons name rest ih =>
      obtain ⟨db₁, host₁, ht₁, hRem, hHost₁, hHt₁, hTable⟩ :=
        remSession_table env hHost hHt (hSess name List.mem_cons_self)
      have hIds := remSession_ids hRem
      have hSess₁ : ∀ x ∈ rest, db₁.sessionTab.contains x = true := by
        intro x hx
        have hFind := congrArg (fun t => (t.find? x).isSome) hIds
        simp only [Table.find?_map, Option.isSome_map] at hFind
        exact hFind.trans (hSess x (List.mem_cons_of_mem _ hx))
      obtain ⟨db', host', ht', hLoop, hHost', hHt', hTable'⟩ := ih hHost₁ hHt₁ hSess₁
      refine ⟨db', host', ht', ?_, hHost', hHt', fun id => ?_⟩
      · rw [List.foldlM_cons, hRem]
        exact hLoop
      · rw [hTable', hTable]
        simp only [sessionIdOf_congr hIds, List.mem_cons, exists_eq_or_imp]
        by_cases hName : id = db.sessionIdOf name
        · simp [hName]
        · simp [hName, Ne.symm hName]

/-! What is left in a table whose walk is swept. -/

def InTable (ht : Option UIntHashTab) (id : BitVec 32) : Prop :=
  ∃ t, ht = some t ∧ t.contains id = true

/-- The table leads from the id to the entry of this name. -/
def Reaches (get : BitVec 32 → BitVec 32 → Option Text) (ht : Option UIntHashTab) (id : BitVec 32)
    (x : Text) : Prop :=
  ∃ t hash, ht = some t ∧ t.find? id = some hash ∧ get id hash = some x

/-- `first` and `next` of a table, with the entries that they look up. -/
def tableWalk (env : Env) (get : BitVec 32 → BitVec 32 → Option Text) (ht : Option UIntHashTab) :
    List Text :=
  match ht with
  | none => []
  | some t => walk (fun e => get e.1 e.2) (env.visit t)

variable {get : BitVec 32 → BitVec 32 → Option Text} {ht ht' : Option UIntHashTab} {x : Text}

theorem reaches_of_mem (h : x ∈ tableWalk env get ht) : ∃ id, Reaches get ht id x := by
  cases ht with
  | none => cases h
  | some t =>
      obtain ⟨e, he, hGet⟩ := mem_walk h
      exact ⟨e.1, t, e.2, rfl, Table.find?_eq_some.mpr ((env.visit_perm t).mem_iff.mp he), hGet⟩

theorem mem_tableWalk (hAll : ∀ id, InTable ht id → ∃ x, Reaches get ht id x) :
    x ∈ tableWalk env get ht ↔ ∃ id, Reaches get ht id x := by
  refine ⟨reaches_of_mem, ?_⟩
  rintro ⟨id, t, hash, rfl, hFind, hGet⟩
  have hWalk : walk (fun e => get e.1 e.2) (env.visit t) =
      (env.visit t).filterMap fun e => get e.1 e.2 := by
    refine walk_eq_filterMap fun e he => ?_
    have hMem := Table.find?_eq_some.mpr ((env.visit_perm t).mem_iff.mp he)
    obtain ⟨y, t', hash', hSome, hFind', hGet'⟩ := hAll e.1 ⟨t, rfl, Table.contains_iff.mpr ⟨_, hMem⟩⟩
    cases hSome
    cases hMem.symm.trans hFind'
    exact ⟨y, hGet'⟩
  rw [tableWalk, hWalk, List.mem_filterMap]
  exact ⟨(id, hash), (env.visit_perm t).mem_iff.mpr (Table.find?_eq_some.mp hFind), hGet⟩

theorem tableWalk_pairwise {idOf : Text → BitVec 32}
    (hId : ∀ id hash x, get id hash = some x → idOf x = id) (ht : Option UIntHashTab) :
    (tableWalk env get ht).Pairwise fun x y => idOf x ≠ idOf y := by
  cases ht with
  | none => exact .nil
  | some t =>
      have hNodup : (env.visit t).Pairwise fun d e => d.1 ≠ e.1 := by
        have hKeys := ((env.visit_perm t).map Prod.fst).nodup_iff.mpr t.nodup
        exact List.pairwise_map.mp hKeys
      refine walk_pairwise (hNodup.imp ?_)
      intro d e hNe x y hx hy
      rw [hId _ _ _ hx, hId _ _ _ hy]
      exact hNe

/-- The entries that are left are those without a mark exactly when the table leads to an
entry from each id, and each marked entry was removed. -/
theorem left_iff {idOf : Text → BitVec 32} {marked : Text → Bool} {removed : Text → Prop}
    (hId : ∀ id hash x, get id hash = some x → idOf x = id)
    (hLeft : ∀ id, InTable ht' id ↔ InTable ht id ∧
      ¬ ∃ x ∈ tableWalk env get ht, marked x = true ∧ removed x ∧ idOf x = id) :
    (∀ id, InTable ht' id ↔ ∃ x, Reaches get ht id x ∧ marked x = false) ↔
      (∀ id, InTable ht id → ∃ x, Reaches get ht id x) ∧
        ∀ x ∈ tableWalk env get ht, marked x = true → removed x := by
  have hReach : ∀ {id x}, Reaches get ht id x → idOf x = id := by
    rintro id x ⟨t, hash, -, -, hGet⟩
    exact hId id hash x hGet
  have hUnique : ∀ {id x y}, Reaches get ht id x → Reaches get ht id y → x = y := by
    rintro id x y ⟨t, hash, rfl, hFind, hGet⟩ ⟨t', hash', hSome, hFind', hGet'⟩
    cases hSome
    cases hFind.symm.trans hFind'
    exact Option.some.inj (hGet.symm.trans hGet')
  constructor
  · intro hPost
    constructor
    · intro id hIn
      by_cases hOut : InTable ht' id
      · obtain ⟨x, hx, -⟩ := (hPost id).mp hOut
        exact ⟨x, hx⟩
      · obtain ⟨x, hx, -, -, hIdOf⟩ := not_not.mp fun hNone => hOut ((hLeft id).mpr ⟨hIn, hNone⟩)
        obtain ⟨id', hReaches⟩ := reaches_of_mem hx
        obtain rfl := (hReach hReaches).symm.trans hIdOf
        exact ⟨x, hReaches⟩
    · intro x hx hMarked
      obtain ⟨id, hReaches⟩ := reaches_of_mem hx
      have hGone : ¬ InTable ht' id := by
        intro hOut
        obtain ⟨y, hy, hPlain⟩ := (hPost id).mp hOut
        rw [hUnique hy hReaches, hMarked] at hPlain
        cases hPlain
      obtain ⟨t, hash, hSome, hFind, hGet⟩ := hReaches
      have hIn : InTable ht id := ⟨t, hSome, Table.contains_iff.mpr ⟨hash, hFind⟩⟩
      obtain ⟨y, hy, -, hRemoved, hIdOf⟩ :=
        not_not.mp fun hNone => hGone ((hLeft id).mpr ⟨hIn, hNone⟩)
      obtain ⟨id', hReaches'⟩ := reaches_of_mem hy
      obtain rfl := (hReach hReaches').symm.trans hIdOf
      exact hUnique hReaches' ⟨t, hash, hSome, hFind, hGet⟩ ▸ hRemoved
  · rintro ⟨hAll, hRemoved⟩ id
    rw [hLeft]
    constructor
    · rintro ⟨hIn, hNone⟩
      obtain ⟨x, hx⟩ := hAll id hIn
      refine ⟨x, hx, ?_⟩
      by_contra hMarked
      rw [Bool.not_eq_false] at hMarked
      have hMem : x ∈ tableWalk env get ht := (mem_tableWalk hAll).mpr ⟨id, hx⟩
      exact hNone ⟨x, hMem, hMarked, hRemoved x hMem hMarked, hReach hx⟩
    · rintro ⟨x, hx, hPlain⟩
      obtain ⟨t, hash, hSome, hFind, hGet⟩ := hx
      refine ⟨⟨t, hSome, Table.contains_iff.mpr ⟨hash, hFind⟩⟩, ?_⟩
      rintro ⟨y, hy, hMarked, -, hIdOf⟩
      obtain ⟨id', hReaches⟩ := reaches_of_mem hy
      obtain rfl := (hReach hReaches).symm.trans hIdOf
      rw [hUnique hReaches ⟨t, hash, hSome, hFind, hGet⟩, hPlain] at hMarked
      cases hMarked

/-! The loop over the sessions of a host. -/

theorem getSessionBy_sessionIdOf {id hash : BitVec 32} (h : getSessionBy env db id hash = some x) :
    db.sessionIdOf x = id ∧ env.crcC x 0 = hash := by
  obtain ⟨s, hs, hId, hHash⟩ := getSessionBy_eq_some h
  exact ⟨by simp [RvSubscriptionDB.sessionIdOf, hs, hId], hHash⟩

theorem querySessions_ids (names : List Text) (db : RvSubscriptionDB) :
    CoresKept db (names.foldl (fun db name => db.modifySession name RvSessionEntry.toQuery) db) :=
  foldl_rel CoresKept.refl CoresKept.trans
    (fun db x _ => modifySession_coresKept db x sameSession_toQuery) db

theorem querySessions_hostTab (names : List Text) (db : RvSubscriptionDB) :
    (names.foldl (fun db name => db.modifySession name RvSessionEntry.toQuery) db).hostTab =
      db.hostTab := by
  induction names generalizing db with
  | nil => rfl
  | cons x rest ih => exact ih _

theorem arraysFull_ne_ok : (Except.error .arraysFull : Result RvSubscriptionDB) ≠ .ok db' := by
  intro hOk
  cases hOk

/-- The rounds return what the walk and the removals of the first one leave, unless the
arrays are full. -/
theorem stopMarkedSessions_rounds {host : RvHostEntry} (hHost : db.hostTab[i]? = some host) :
    SweepReturns (sessionSweep env i) db db' ↔ stopMarkedSessions env db i = .ok db' := by
  have hEntries : (sessionSweep env i).entries db = sessionsOf env db host.sessHt := by
    simp [sessionSweep, hHost]
  let marked := (sessionsOf env db host.sessHt).filter (isMarkedSession db)
  let queried := ((sessionsOf env db host.sessHt).filter fun x => !isMarkedSession db x).foldl
    (fun db name => db.modifySession name RvSessionEntry.toQuery) db
  have hLoop : (marked.map ((sessionSweep env i).key db)).foldlM (sessionSweep env i).remove queried =
      marked.foldlM (fun db name => remSession env db i name) queried := by
    refine foldlM_keys (fun t => t.sessionTab.map RvSessionEntry.sessionId =
      db.sessionTab.map RvSessionEntry.sessionId) ?_ ?_ (querySessions_ids _ db).ids
    · intro t x hx hIds
      obtain ⟨id, s, hash, -, -, hGet⟩ := reaches_of_mem (List.mem_of_mem_filter hx)
      obtain ⟨hId, hHash⟩ := getSessionBy_sessionIdOf hGet
      have hKey : (sessionSweep env i).key db x = (id, hash) := Prod.ext hId hHash
      rw [hKey]
      simp only [sessionSweep, getSessionBy_congr hIds, hGet]
    · exact fun t x u _ hIds hRem => (remSession_ids hRem).trans hIds
  unfold SweepReturns
  rw [rounds_eq_ok (sessionSweep_steady env i), hEntries, List.countP_eq_length_filter]
  change marked.length < 256 ∧
    (marked.map ((sessionSweep env i).key db)).foldlM (sessionSweep env i).remove queried = .ok db' ↔ _
  rw [hLoop]
  simp only [stopMarkedSessions, RvSubscriptionDB.hostAt, hHost, bind, Except.bind]
  split
  · next hFull =>
      exact iff_of_false (fun h => Nat.not_lt.mpr hFull h.1) arraysFull_ne_ok
  · next hRoom => exact and_iff_right (Nat.not_le.mp hRoom)

/-- `sess_ht` of the host holds exactly the sessions that were not marked. -/
def SessionsSwept (env : Env) (db : RvSubscriptionDB) (i : Nat) (host : RvHostEntry)
    (db' : RvSubscriptionDB) : Prop :=
  ∃ host', db'.hostTab[i]? = some host' ∧ ∀ id, InTable host'.sessHt id ↔
    ∃ x, Reaches (getSessionBy env db) host.sessHt id x ∧ isMarkedSession db x = false

theorem stopMarkedSessions_left {host : RvHostEntry} (hHost : db.hostTab[i]? = some host)
    (hRoom : ((sessionsOf env db host.sessHt).filter (isMarkedSession db)).length < 256) :
    ∃ db' host', stopMarkedSessions env db i = .ok db' ∧ db'.hostTab[i]? = some host' ∧
      ∀ id, InTable host'.sessHt id ↔ InTable host.sessHt id ∧
        ¬ ∃ x ∈ sessionsOf env db host.sessHt, isMarkedSession db x = true ∧ True ∧
          db.sessionIdOf x = id := by
  simp only [stopMarkedSessions, RvSubscriptionDB.hostAt, hHost, bind, Except.bind,
    if_neg (Nat.not_le.mpr hRoom)]
  have hCores := querySessions_ids
    ((sessionsOf env db host.sessHt).filter fun x => !isMarkedSession db x) db
  have hHost₁ := (congrArg (fun t => t[i]?) (querySessions_hostTab
    ((sessionsOf env db host.sessHt).filter fun x => !isMarkedSession db x) db)).trans hHost
  generalize ((sessionsOf env db host.sessHt).filter fun x => !isMarkedSession db x).foldl
    (fun db name => db.modifySession name RvSessionEntry.toQuery) db = db₁ at hCores hHost₁ ⊢
  cases hHt : host.sessHt with
  | none => exact ⟨db₁, host, rfl, hHost₁, by simp [sessionsOf, hHt]⟩
  | some t =>
      have hKnown : ∀ x ∈ (sessionsOf env db (some t)).filter (isMarkedSession db),
          db₁.sessionTab.contains x = true := by
        intro x hx
        have hMem : x ∈ tableWalk env (getSessionBy env db) (some t) := List.mem_of_mem_filter hx
        obtain ⟨id, t', hash, -, -, hGet⟩ := reaches_of_mem hMem
        obtain ⟨s, hs, -, -⟩ := getSessionBy_eq_some hGet
        obtain ⟨s₁, hs₁, -⟩ := hCores.symm.session hs
        exact Table.contains_iff.mpr ⟨s₁, hs₁⟩
      obtain ⟨db', host', t', hLoop, hHost', hHt', hTable⟩ :=
        remSessions_table env hHost₁ hHt hKnown
      refine ⟨db', host', hLoop, hHost', fun id => ?_⟩
      simp only [InTable, hHt', Option.some.injEq, exists_eq_left', Table.contains, hTable,
        sessionIdOf_congr hCores.ids, List.mem_filter, true_and, and_assoc]
      split
      · next hGone => exact iff_of_false Bool.false_ne_true fun h => h.2 hGone
      · next hStays => exact (and_iff_left hStays).symm

theorem sessionSweep_full {host : RvHostEntry} (hHost : db.hostTab[i]? = some host)
    (hFull : ¬ ((sessionsOf env db host.sessHt).filter (isMarkedSession db)).length < 256)
    (db' : RvSubscriptionDB) : ¬ SweepReturns (sessionSweep env i) db db' := by
  rw [stopMarkedSessions_rounds hHost]
  intro hStop
  simp only [stopMarkedSessions, RvSubscriptionDB.hostAt, hHost, bind, Except.bind,
    if_pos (Nat.not_lt.mp hFull)] at hStop
  cases hStop

theorem stop_marked_sessions_iff {host : RvHostEntry} (hHost : db.hostTab[i]? = some host) :
    (∃ db', SweepReturns (sessionSweep env i) db db' ∧ SessionsSwept env db i host db') ↔
      (sessionsOf env db host.sessHt).countP (isMarkedSession db) < 256 ∧
        ∀ id, InTable host.sessHt id → ∃ x, Reaches (getSessionBy env db) host.sessHt id x := by
  rw [List.countP_eq_length_filter]
  by_cases hRoom : ((sessionsOf env db host.sessHt).filter (isMarkedSession db)).length < 256
  · simp only [stopMarkedSessions_rounds hHost]
    obtain ⟨db', host', hStop, hHost', hLeft⟩ := stopMarkedSessions_left hHost hRoom
    have hId : ∀ id hash x, getSessionBy env db id hash = some x → db.sessionIdOf x = id :=
      fun id hash x hGet => (getSessionBy_sessionIdOf hGet).1
    have hIff := left_iff hId hLeft
    rw [and_iff_right hRoom]
    constructor
    · rintro ⟨db₁, hStop₁, host₁, hHost₁, hPost⟩
      cases hStop.symm.trans hStop₁
      cases hHost'.symm.trans hHost₁
      exact (hIff.mp hPost).1
    · intro hAll
      exact ⟨db', hStop, host', hHost', hIff.mpr ⟨hAll, fun _ _ _ => trivial⟩⟩
  · refine iff_of_false ?_ fun h => hRoom h.1
    rintro ⟨db', hStop, -⟩
    exact sessionSweep_full hHost hRoom db' hStop

/-! The loop over the subjects of a session. -/

/-- The stops that the listener was told of: the session and the subject of each. -/
def RvSubscriptionDB.stopsReported (db : RvSubscriptionDB) : List (Text × Text) :=
  db.outputs.filterMap fun out => match out with
    | .listenStop session sub _ _ _ _ => some (session, sub)
    | _ => none

def RvSubscriptionDB.subjectIdOf (db : RvSubscriptionDB) (sub : Text) : BitVec 32 :=
  (db.subTab.find? sub).elim 0 RvSubscription.subjectId

theorem getSubject_subjectIdOf {id hash : BitVec 32} (h : getSubject env db id hash = some x) :
    db.subjectIdOf x = id ∧ env.crcC x 0 = hash := by
  obtain ⟨s, hs, hId, hHash⟩ := getSubject_eq_some h
  exact ⟨by simp [RvSubscriptionDB.subjectIdOf, hs, hId], hHash⟩

theorem subjects_apart (ht : Option UIntHashTab) :
    (subjects env db ht).Pairwise fun x y => db.subjectIdOf x ≠ db.subjectIdOf y := by
  have hId : ∀ id hash x, getSubject env db id hash = some x → db.subjectIdOf x = id :=
    fun _ _ _ hGet => (getSubject_subjectIdOf hGet).1
  exact tableWalk_pairwise hId ht

theorem subjectIdOf_congr (h : db'.subTab.map RvSubscription.subjectId =
    db.subTab.map RvSubscription.subjectId) (x : Text) : db'.subjectIdOf x = db.subjectIdOf x := by
  have hFind := congrArg (fun t => t.find? x) h
  simp only [Table.find?_map] at hFind
  unfold RvSubscriptionDB.subjectIdOf
  cases hOne : db'.subTab.find? x <;> cases hTwo : db.subTab.find? x <;> simp_all

theorem releaseSubject_outputs (env : Env) (db : RvSubscriptionDB) (name : Text)
    (sess : RvSessionEntry) (ht : UIntHashTab) (sub : Text) (script : RvSubscription) :
    (releaseSubject env db name sess ht sub script).1.outputs = db.outputs := by
  have hDigest : ∀ db, (hostDigest env db name sess sub false).outputs = db.outputs := by
    intro db
    unfold hostDigest
    split
    · split <;> rfl
    · rfl
  unfold releaseSubject
  dsimp only
  split
  · exact hDigest _
  · split
    · unfold queryRv7Session
      split <;> exact hDigest _
    · exact hDigest _

/-- One marked subject: it goes, and is reported, unless its count is zero. -/
theorem stopMarked_table {sess : RvSessionEntry} {ht : UIntHashTab} {script : RvSubscription}
    (env : Env) (hSess : db.sessionTab.find? name = some sess) (hHt : sess.subHt = some ht)
    (hScript : db.subTab.find? sub = some script) (hHeld : ht.contains script.subjectId = true) :
    ∃ db' sess' ht', stopMarked env name db sub = .ok db' ∧
      db'.sessionTab.find? name = some sess' ∧ sess'.subHt = some ht' ∧
      (∀ id, ht'.contains id = true ↔ ht.contains id = true ∧
        ¬ (script.refcnt ≠ 0 ∧ script.subjectId = id)) ∧
      (∀ x, x ≠ sub → db'.subTab.find? x = db.subTab.find? x) ∧
      db'.subTab.map RvSubscription.subjectId = db.subTab.map RvSubscription.subjectId ∧
      db'.stopsReported = db.stopsReported ++
        if env.listening ∧ script.refcnt ≠ 0 then [(name, sub)] else [] := by
  by_cases hRef : script.refcnt = 0
  · refine ⟨db, sess, ht, ?_, hSess, hHt, by simp [hRef], fun _ _ => rfl, rfl, by simp [hRef]⟩
    simp [stopMarked, derefSubscription, RvSubscriptionDB.sessionAt, hSess, RvSubscriptionDB.subAt,
      hScript, hRef, bind, Except.bind, pure, Except.pure]
  · have hSubs := releaseSubject_subTab env db name sess ht sub script
    have hHeld' := releaseSubject_held env db name sess ht sub script
    have hOut := releaseSubject_outputs env db name sess ht sub script
    have hDeref : derefSubscription env db name sub =
        .ok ⟨(releaseSubject env db name sess ht sub script).1, sub, true,
          (releaseSubject env db name sess ht sub script).2⟩ := by
      simp only [derefSubscription, RvSubscriptionDB.sessionAt, hSess, RvSubscriptionDB.subAt, hScript,
        hHt, hHeld, bind, Except.bind, pure, Except.pure, if_neg hRef, if_true]
    generalize (releaseSubject env db name sess ht sub script).1 = db₁ at hSubs hHeld' hOut hDeref
    have hScript₁ : db₁.subTab.find? sub = some (script.dropRef sess.hasDaemon) := by
      rw [hSubs, Table.find?_modify_self, hScript, Option.map_some]
    have hFind := congrArg (fun t => t.find? name) hHeld'
    simp only [Table.find?_map, Table.find?_modify_self, hSess, Option.map_some] at hFind
    obtain ⟨sess', hSess', hHt'⟩ := Option.map_eq_some_iff.mp hFind
    let out : Output := .listenStop name sub (script.dropRef sess.hasDaemon).refcnt false false
      (releaseSubject env db name sess ht sub script).2
    refine ⟨db₁.notify env out, sess', ht.erase script.subjectId, ?_, ?_, hHt', ?_, ?_, ?_, ?_⟩
    · simp only [stopMarked, hDeref, RvSubscriptionDB.subAt, hScript₁, bind, Except.bind, if_true,
        pure, Except.pure]
      rfl
    · rw [notify_sessionTab, hSess']
    · intro id
      rw [Table.contains_erase]
      simp only [Bool.and_eq_true, decide_eq_true_eq, ne_eq, hRef, not_false_eq_true, true_and]
      exact and_comm.trans (and_congr_right fun _ => not_congr eq_comm)
    · intro x hx
      rw [notify_subTab, hSubs, Table.find?_modify_ne _ _ hx]
    · rw [notify_subTab, hSubs]
      exact Table.map_modify fun _ _ => rfl
    · unfold RvSubscriptionDB.notify
      cases hListening : env.listening with
      | false => simp [RvSubscriptionDB.stopsReported, hOut]
      | true =>
          rw [if_pos rfl, if_pos ⟨rfl, hRef⟩]
          simp [RvSubscriptionDB.stopsReported, RvSubscriptionDB.emit, hOut, out]

theorem stopMarkeds_table {names : List Text} {sess : RvSessionEntry} {ht : UIntHashTab} (env : Env)
    (hApart : names.Pairwise fun x y => db.subjectIdOf x ≠ db.subjectIdOf y)
    (hSess : db.sessionTab.find? name = some sess) (hHt : sess.subHt = some ht)
    (hHeld : ∀ x ∈ names, ∃ script, db.subTab.find? x = some script ∧
      ht.contains script.subjectId = true) :
    ∃ db' sess' ht', names.foldlM (stopMarked env name) db = .ok db' ∧
      db'.sessionTab.find? name = some sess' ∧ sess'.subHt = some ht' ∧
      (∀ id, ht'.contains id = true ↔ ht.contains id = true ∧
        ¬ ∃ x ∈ names, db.refcntOf x ≠ 0 ∧ db.subjectIdOf x = id) ∧
      db'.stopsReported = db.stopsReported ++ if env.listening then
        (names.filter fun x => db.refcntOf x ≠ 0).map fun x => (name, x) else [] := by
  induction names generalizing db sess ht with
  | nil => exact ⟨db, sess, ht, rfl, hSess, hHt, by simp, by simp⟩
  | cons sub rest ih =>
      obtain ⟨hFirst, hRest⟩ := List.pairwise_cons.mp hApart
      obtain ⟨script, hScript, hIn⟩ := hHeld sub List.mem_cons_self
      obtain ⟨db₁, sess₁, ht₁, hStop, hSess₁, hHt₁, hTable₁, hOther, hIds, hStops₁⟩ :=
        stopMarked_table env hSess hHt hScript hIn
      have hNe : ∀ x ∈ rest, x ≠ sub := fun x hx hEq => hFirst x hx (by rw [hEq])
      have hIdOf : db.subjectIdOf sub = script.subjectId := by
        simp [RvSubscriptionDB.subjectIdOf, hScript]
      have hCount : db.refcntOf sub = script.refcnt := by
        simp [RvSubscriptionDB.refcntOf, hScript]
      have hCounts : ∀ x ∈ rest, db₁.refcntOf x = db.refcntOf x := by
        intro x hx
        rw [RvSubscriptionDB.refcntOf, hOther x (hNe x hx)]
        rfl
      obtain ⟨db', sess', ht', hLoop, hSess', hHt', hTable, hStops⟩ := ih
        (hRest.imp fun hxy => by rwa [subjectIdOf_congr hIds, subjectIdOf_congr hIds]) hSess₁ hHt₁ (by
          intro x hx
          obtain ⟨t, ht, hMem⟩ := hHeld x (List.mem_cons_of_mem _ hx)
          refine ⟨t, by rw [hOther x (hNe x hx), ht], (hTable₁ _).mpr ⟨hMem, fun hEq => ?_⟩⟩
          refine hFirst x hx ?_
          rw [hIdOf, hEq.2]
          simp [RvSubscriptionDB.subjectIdOf, ht])
      refine ⟨db', sess', ht', ?_, hSess', hHt', fun id => ?_, ?_⟩
      · rw [List.foldlM_cons, hStop]
        exact hLoop
      · rw [hTable, hTable₁, ← hIdOf, ← hCount]
        simp only [List.mem_cons, exists_eq_or_imp, subjectIdOf_congr hIds, not_or, and_assoc]
        refine and_congr_right fun _ => and_congr_right fun _ => not_congr ?_
        exact exists_congr fun x => and_congr_right fun hx => by rw [hCounts x hx]
      · have hFilter : (rest.filter fun x => db₁.refcntOf x ≠ 0) =
            rest.filter fun x => db.refcntOf x ≠ 0 :=
          List.filter_congr fun x hx => by rw [hCounts x hx]
        rw [hStops, hStops₁, hFilter, ← hCount]
        by_cases hListening : env.listening = true
        · rw [if_pos hListening, if_pos hListening, List.append_assoc]
          by_cases hRef : db.refcntOf sub ≠ 0
          · rw [if_pos ⟨hListening, hRef⟩, List.filter_cons_of_pos (by simpa using hRef)]
            rfl
          · rw [if_neg fun h => hRef h.2, List.filter_cons_of_neg (by simpa using hRef)]
            rfl
        · simp [hListening]

theorem stopMarked_ids (h : stopMarked env name db sub = .ok db') :
    db'.subTab.map RvSubscription.subjectId = db.subTab.map RvSubscription.subjectId := by
  simp only [stopMarked, bind_eq_ok] at h
  obtain ⟨r, hDeref, h⟩ := h
  have hIds : r.db.subTab.map RvSubscription.subjectId =
      db.subTab.map RvSubscription.subjectId := by
    obtain ⟨sess, script, -, -, -, hCase⟩ := derefSubscription_cases hDeref
    rcases hCase with ⟨-, hSame, -⟩ | ⟨-, -, ht, -, -, hDb⟩
    · rw [hSame]
    · rw [hDb, releaseSubject_subTab]
      exact Table.map_modify fun _ _ => rfl
  split at h
  · simp only [bind_eq_ok, pure_eq_ok] at h
    obtain ⟨script, -, rfl⟩ := h
    rw [notify_subTab]
    exact hIds
  · cases h
    exact hIds

theorem stopMarkedSubscriptions_rounds {sess : RvSessionEntry}
    (hSess : db.sessionTab.find? name = some sess) :
    SweepReturns (subjectSweep env name) db db' ↔ stopMarkedSubscriptions env db name = .ok db' := by
  have hEntries : (subjectSweep env name).entries db = subjects env db sess.subHt := by
    simp [subjectSweep, hSess]
  let marked := (subjects env db sess.subHt).filter (isMarkedSubscription db)
  have hLoop : (marked.map ((subjectSweep env name).key db)).foldlM (subjectSweep env name).remove db =
      marked.foldlM (stopMarked env name) db := by
    refine foldlM_keys (fun t => t.subTab.map RvSubscription.subjectId =
      db.subTab.map RvSubscription.subjectId) ?_ ?_ rfl
    · intro t x hx hIds
      have hMem : x ∈ tableWalk env (getSubject env db) sess.subHt := List.mem_of_mem_filter hx
      obtain ⟨id, s, hash, -, -, hGet⟩ := reaches_of_mem hMem
      obtain ⟨hId, hHash⟩ := getSubject_subjectIdOf hGet
      have hKey : (subjectSweep env name).key db x = (id, hash) := Prod.ext hId hHash
      rw [hKey]
      simp only [subjectSweep, getSubject_congr hIds, hGet]
    · exact fun t x u _ hIds hStop => (stopMarked_ids hStop).trans hIds
  have hPassed : ∀ names : List Text, names.foldl (subjectSweep env name).pass db = db := by
    intro names
    induction names with
    | nil => rfl
    | cons x rest ih => exact ih
  unfold SweepReturns
  rw [rounds_eq_ok (subjectSweep_steady env name), hEntries, List.countP_eq_length_filter, hPassed]
  change marked.length < 256 ∧
    (marked.map ((subjectSweep env name).key db)).foldlM (subjectSweep env name).remove db = .ok db' ↔ _
  rw [hLoop]
  simp only [stopMarkedSubscriptions, RvSubscriptionDB.sessionAt, hSess, bind, Except.bind]
  split
  · next hFull =>
      exact iff_of_false (fun h => Nat.not_lt.mpr hFull h.1) arraysFull_ne_ok
  · next hRoom => exact and_iff_right (Nat.not_le.mp hRoom)

/-- The session holds exactly the subjects that were not marked, and the listener was told
once of each that was. -/
def SubjectsSwept (env : Env) (db : RvSubscriptionDB) (name : Text) (sess : RvSessionEntry)
    (db' : RvSubscriptionDB) : Prop :=
  (∃ sess', db'.sessionTab.find? name = some sess' ∧ ∀ id, InTable sess'.subHt id ↔
    ∃ x, Reaches (getSubject env db) sess.subHt id x ∧ isMarkedSubscription db x = false) ∧
  ∃ dropped : List Text, dropped.Nodup ∧
    (∀ x, x ∈ dropped ↔ (∃ id, Reaches (getSubject env db) sess.subHt id x) ∧
      isMarkedSubscription db x = true) ∧
    (env.listening = true →
      db'.stopsReported = db.stopsReported ++ dropped.map fun x => (name, x))

theorem stopMarkedSubscriptions_left {sess : RvSessionEntry}
    (hSess : db.sessionTab.find? name = some sess)
    (hRoom : ((subjects env db sess.subHt).filter (isMarkedSubscription db)).length < 256) :
    ∃ db' sess', stopMarkedSubscriptions env db name = .ok db' ∧
      db'.sessionTab.find? name = some sess' ∧
      (∀ id, InTable sess'.subHt id ↔ InTable sess.subHt id ∧
        ¬ ∃ x ∈ subjects env db sess.subHt, isMarkedSubscription db x = true ∧
          db.refcntOf x ≠ 0 ∧ db.subjectIdOf x = id) ∧
      db'.stopsReported = db.stopsReported ++ if env.listening then
        (((subjects env db sess.subHt).filter (isMarkedSubscription db)).filter fun x =>
          db.refcntOf x ≠ 0).map fun x => (name, x) else [] := by
  simp only [stopMarkedSubscriptions, RvSubscriptionDB.sessionAt, hSess, bind, Except.bind,
    if_neg (Nat.not_le.mpr hRoom)]
  cases hHt : sess.subHt with
  | none => exact ⟨db, sess, rfl, hSess, by simp [subjects, hHt], by simp [subjects]⟩
  | some t =>
      have hApart : (subjects env db (some t)).Pairwise fun x y =>
          db.subjectIdOf x ≠ db.subjectIdOf y := subjects_apart (some t)
      have hHeld : ∀ x ∈ (subjects env db (some t)).filter (isMarkedSubscription db),
          ∃ script, db.subTab.find? x = some script ∧ t.contains script.subjectId = true := by
        intro x hx
        have hMem : x ∈ tableWalk env (getSubject env db) (some t) := List.mem_of_mem_filter hx
        obtain ⟨id, t', hash, hSome, hFind, hGet⟩ := reaches_of_mem hMem
        cases hSome
        obtain ⟨script, hScript, rfl, -⟩ := getSubject_eq_some hGet
        exact ⟨script, hScript, Table.contains_iff.mpr ⟨hash, hFind⟩⟩
      obtain ⟨db', sess', t', hLoop, hSess', hHt', hTable, hStops⟩ :=
        stopMarkeds_table env (hApart.filter (isMarkedSubscription db)) hSess hHt hHeld
      refine ⟨db', sess', hLoop, hSess', fun id => ?_, hStops⟩
      simp only [InTable, hHt', Option.some.injEq, exists_eq_left', hTable, List.mem_filter, and_assoc]

theorem stop_marked_subscriptions_iff {sess : RvSessionEntry}
    (hSess : db.sessionTab.find? name = some sess) :
    (∃ db', SweepReturns (subjectSweep env name) db db' ∧ SubjectsSwept env db name sess db') ↔
      (subjects env db sess.subHt).countP (isMarkedSubscription db) < 256 ∧
        (∀ id, InTable sess.subHt id → ∃ x, Reaches (getSubject env db) sess.subHt id x) ∧
        ∀ x ∈ subjects env db sess.subHt, isMarkedSubscription db x = true → db.refcntOf x ≠ 0 := by
  simp only [stopMarkedSubscriptions_rounds hSess, List.countP_eq_length_filter]
  by_cases hRoom : ((subjects env db sess.subHt).filter (isMarkedSubscription db)).length < 256
  · obtain ⟨db', sess', hStop, hSess', hLeft, hStops⟩ := stopMarkedSubscriptions_left hSess hRoom
    have hId : ∀ id hash x, getSubject env db id hash = some x → db.subjectIdOf x = id :=
      fun id hash x hGet => (getSubject_subjectIdOf hGet).1
    have hIff := left_iff hId hLeft
    rw [and_iff_right hRoom]
    constructor
    · rintro ⟨db₁, hStop₁, ⟨sess₁, hSess₁, hPost⟩, -⟩
      cases hStop.symm.trans hStop₁
      cases hSess'.symm.trans hSess₁
      exact hIff.mp hPost
    · intro hAll
      refine ⟨db', hStop, ⟨sess', hSess', hIff.mpr hAll⟩,
        (subjects env db sess.subHt).filter (isMarkedSubscription db), ?_, fun x => ?_, ?_⟩
      · have hApart : (subjects env db sess.subHt).Pairwise fun x y =>
            db.subjectIdOf x ≠ db.subjectIdOf y := tableWalk_pairwise hId sess.subHt
        exact List.Nodup.filter _ (hApart.imp fun hxy hEq => hxy (by rw [hEq]))
      · rw [List.mem_filter]
        exact and_congr_left fun _ => mem_tableWalk hAll.1
      · intro hListening
        rw [hStops, if_pos hListening, List.filter_eq_self.mpr]
        intro x hx
        obtain ⟨hMem, hMarked⟩ := List.mem_filter.mp hx
        exact decide_eq_true (hAll.2 x hMem hMarked)
  · refine iff_of_false ?_ fun h => hRoom h.1
    rintro ⟨db', hStop, -⟩
    simp only [stopMarkedSubscriptions, RvSubscriptionDB.sessionAt, hSess, bind, Except.bind,
      if_pos (Nat.not_lt.mp hRoom)] at hStop
    cases hStop

/-- Fewer than 256 marked entries, a table that leads to an entry from each of its ids and,
for subjects, counts that are not zero: this is when the loops do what they are for. -/
theorem bulk_removal_iff (env : Env) (db : RvSubscriptionDB) :
    (∀ i host, db.hostTab[i]? = some host →
      ((∃ db', SweepReturns (sessionSweep env i) db db' ∧ SessionsSwept env db i host db') ↔
        (sessionsOf env db host.sessHt).countP (isMarkedSession db) < 256 ∧
          ∀ id, InTable host.sessHt id → ∃ x, Reaches (getSessionBy env db) host.sessHt id x)) ∧
    (∀ name sess, db.sessionTab.find? name = some sess →
      ((∃ db', SweepReturns (subjectSweep env name) db db' ∧ SubjectsSwept env db name sess db') ↔
        (subjects env db sess.subHt).countP (isMarkedSubscription db) < 256 ∧
          (∀ id, InTable sess.subHt id → ∃ x, Reaches (getSubject env db) sess.subHt id x) ∧
          ∀ x ∈ subjects env db sess.subHt, isMarkedSubscription db x = true →
            db.refcntOf x ≠ 0)) :=
  ⟨fun _ _ hHost => stop_marked_sessions_iff hHost,
    fun _ _ hSess => stop_marked_subscriptions_iff hSess⟩

def otherListen : EvPublish where
  subject := text "_RV.INFO.SYSTEM.LISTEN.START.A.B"
  body := .fields { id := some (text "0A000001.Y"), sub := some (text "A.B") }

/-- Two sessions of one host, of which a reply has listed one. -/
def markedDB : RvSubscriptionDB :=
  ((runInputs sampleEnv [.pub 5 sampleListen, .pub 5 otherListen]).toOption.getD {}).modifySession
    (text "0A000001.X") fun s => { s with refMono := 0 }

theorem bulk_removal_sample : ∃ host, markedDB.hostTab[0]? = some host ∧
    (sessionsOf sampleEnv markedDB host.sessHt).map (isMarkedSession markedDB) = [true, false] ∧
    ∃ db', SweepReturns (sessionSweep sampleEnv 0) markedDB db' ∧
      SessionsSwept sampleEnv markedDB 0 host db' := by
  obtain ⟨host, t, hHost, hHt, hEntries⟩ : ∃ host t, markedDB.hostTab[0]? = some host ∧
      host.sessHt = some t ∧
      t.entries.all (fun e => (getSessionBy sampleEnv markedDB e.1 e.2).isSome) = true :=
    ⟨_, _, rfl, rfl, by decide +kernel⟩
  have hMarks : (sessionsOf sampleEnv markedDB host.sessHt).map (isMarkedSession markedDB) =
      [true, false] := by
    have hRun : (markedDB.hostTab[0]?).map (fun host => (sessionsOf sampleEnv markedDB host.sessHt).map
        (isMarkedSession markedDB)) = some [true, false] := by decide +kernel
    rw [hHost] at hRun
    exact Option.some.inj hRun
  have hFew : (sessionsOf sampleEnv markedDB host.sessHt).length < 256 := by
    have hTwo := congrArg List.length hMarks
    rw [List.length_map] at hTwo
    rw [hTwo]
    decide
  refine ⟨host, hHost, hMarks, ((bulk_removal_iff sampleEnv markedDB).1 0 host hHost).mpr ⟨?_, ?_⟩⟩
  · exact List.countP_le_length.trans_lt hFew
  · rintro id ⟨t', hSome, hIn⟩
    cases hHt.symm.trans hSome
    obtain ⟨hash, hFind⟩ := Table.contains_iff.mp hIn
    obtain ⟨x, hGet⟩ := Option.isSome_iff_exists.mp
      (List.all_eq_true.mp hEntries (id, hash) (Table.find?_eq_some.mp hFind))
    exact ⟨x, t, hash, hHt, hFind, hGet⟩

/-- 256 sessions that no reply listed, each with the number of its place as its name. -/
def crowdName (k : Nat) : Text := [UInt8.ofNat k]

theorem crowdName_inj : ∀ x ∈ List.range 256, ∀ y ∈ List.range 256, crowdName x = crowdName y →
    x = y := by
  intro x hx y hy h
  have hNat := congrArg UInt8.toNat (List.singleton_inj.mp h)
  simp only [UInt8.toNat_ofNat', List.mem_range] at hNat hx hy
  omega

theorem crowdId_inj : ∀ x ∈ List.range 256, ∀ y ∈ List.range 256, sessionId x = sessionId y →
    x = y := by
  intro x hx y hy h
  have hNat := congrArg BitVec.toNat h
  simp only [sessionId, BitVec.toNat_ofNat, List.mem_range] at hNat hx hy
  omega

def crowdTable : UIntHashTab where
  entries := (List.range 256).map fun k => (sessionId k, sampleEnv.crcC (crowdName k) 0)
  nodup := by
    rw [List.map_map]
    exact List.Nodup.map_on crowdId_inj List.nodup_range

def crowdHost : RvHostEntry :=
  { RvHostEntry.start 0x0A000001#32 0 5 false true with sessHt := some crowdTable }

def crowdDB : RvSubscriptionDB where
  hostTab := [crowdHost]
  sessionTab :=
    { entries := (List.range 256).map fun k => (crowdName k,
        { RvSessionEntry.start (crowdName k) 0x0A000001#32 0 (sessionId k) 5 false none with
          refMono := 0 })
      nodup := by
        rw [List.map_map]
        exact List.Nodup.map_on crowdName_inj List.nodup_range }

theorem crowd_entry {x : Text} {s : RvSessionEntry} (h : crowdDB.sessionTab.find? x = some s) :
    ∃ k ∈ List.range 256, x = crowdName k ∧ s.sessionId = sessionId k ∧ s.refMono = 0 := by
  obtain ⟨k, hk, hEq⟩ := List.mem_map.mp (Table.find?_eq_some.mp h)
  obtain ⟨rfl, rfl⟩ := Prod.ext_iff.mp hEq
  exact ⟨k, hk, rfl, rfl, rfl⟩

/-- The walk finds each session of the crowd, with its mark. -/
theorem crowd_walked {k : Nat} (hk : k ∈ List.range 256) :
    crowdName k ∈ (sessionsOf sampleEnv crowdDB (some crowdTable)).filter
      (isMarkedSession crowdDB) := by
  have hGet : ∀ k ∈ List.range 256, getSessionBy sampleEnv crowdDB (sessionId k)
      (sampleEnv.crcC (crowdName k) 0) = some (crowdName k) := by
    intro k hk
    cases hFound : getSessionBy sampleEnv crowdDB (sessionId k)
        (sampleEnv.crcC (crowdName k) 0) with
    | none =>
        have hNone := List.find?_eq_none.mp (Option.map_eq_none_iff.mp hFound) _
          (List.mem_map.mpr ⟨k, hk, rfl⟩)
        simp [RvSessionEntry.start] at hNone
    | some x =>
        obtain ⟨s, hs, hId, -⟩ := getSessionBy_eq_some hFound
        obtain ⟨k', hk', rfl, hId', -⟩ := crowd_entry hs
        rw [crowdId_inj k' hk' k hk (hId'.symm.trans hId)]
  have hAll : ∀ id, InTable (some crowdTable) id →
      ∃ x, Reaches (getSessionBy sampleEnv crowdDB) (some crowdTable) id x := by
    rintro id ⟨t, hSome, hIn⟩
    cases hSome
    obtain ⟨hash, hFind⟩ := Table.contains_iff.mp hIn
    obtain ⟨k, hk, hEq⟩ := List.mem_map.mp (Table.find?_eq_some.mp hFind)
    obtain ⟨rfl, rfl⟩ := Prod.ext_iff.mp hEq
    exact ⟨crowdName k, crowdTable, _, rfl, hFind, hGet k hk⟩
  have hFind : crowdTable.find? (sessionId k) = some (sampleEnv.crcC (crowdName k) 0) :=
    Table.find?_eq_some.mpr (List.mem_map.mpr ⟨k, hk, rfl⟩)
  refine List.mem_filter.mpr ⟨?_, ?_⟩
  · exact (mem_tableWalk hAll).mpr ⟨sessionId k, crowdTable, _, rfl, hFind, hGet k hk⟩
  · obtain ⟨s, hs, -, -⟩ := getSessionBy_eq_some (hGet k hk)
    obtain ⟨k', -, -, -, hRef⟩ := crowd_entry hs
    simp [isMarkedSession, hs, hRef]

/-- The loop goes on with the same 256 sessions in its arrays. -/
theorem crowd_never_returns : crowdDB.hostTab[0]? = some crowdHost ∧
    ∀ db', ¬ SweepReturns (sessionSweep sampleEnv 0) crowdDB db' := by
  have hHost : crowdDB.hostTab[0]? = some crowdHost := rfl
  refine ⟨hHost, fun db' => ?_⟩
  have hNodup : ((List.range 256).map crowdName).Nodup :=
    List.Nodup.map_on crowdName_inj List.nodup_range
  have hSubset : (List.range 256).map crowdName ⊆
      (sessionsOf sampleEnv crowdDB crowdHost.sessHt).filter (isMarkedSession crowdDB) := by
    intro x hx
    obtain ⟨k, hk, rfl⟩ := List.mem_map.mp hx
    exact crowd_walked hk
  have hFull := (hNodup.subperm hSubset).length_le
  rw [List.length_map, List.length_range] at hFull
  exact sessionSweep_full hHost (Nat.not_lt.mpr hFull) db'

end Sassrv.SubMgr
