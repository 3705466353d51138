import Sassrv.Daemon.Routes
import Sassrv.SubMgr.Readings

/-! What a client of another daemon is told again when a host that has been started before is
started: the subjects of all connections of the host, and for their patterns the text in front
of the wildcard with `.>` behind it, the length of the text cut to eight bits. -/
namespace Sassrv.Daemon.Reassert
open SubMgr Client Matching Transition

variable {Regex : Type}

/-- The order in which the sets of subjects are iterated over. -/
structure Env (Regex : Type) extends toRoutes : Routes.Env Regex where
  visitDb : List Key → List Key
  visitDb_perm : ∀ db, (visitDb db).Perm db

/-- One of the connections that are iterated over; `host` says which host it has. -/
structure Peer (Regex : Type) extends EvRvService Regex where
  host : Nat

/-- The number of the host, the prefix of its service and its address. -/
structure RvHost where
  number : Nat
  service : Option Text := none
  sessionIp : Text

/-- `DaemonInbox`. -/
def daemonInbox (host : RvHost) : Text :=
  (match host.service with
    | some service => 95 :: service ++ [46]
    | none => []) ++ text "_INBOX." ++ host.sessionIp ++ text ".DAEMON"

/-- `sub_db` and `pat_db`. -/
structure SubDbs where
  subDb : List Key
  patDb : List Key

/-- `upsert` of a set. -/
def upsert (db : List Key) (key : Key) : List Key := if key ∈ db then db else db ++ [key]

/-- The turn of the loop of `reassert_subs` for one connection. -/
def collect (env : Env Regex) (host : RvHost) (dbs : SubDbs) (s : Peer Regex) : SubDbs :=
  if s.host = host.number then
    { subDb := ((env.visitSubs s.subTab).map Prod.fst).foldl upsert dbs.subDb
      patDb := ((env.visitPats s.patTab).map Prod.fst).foldl upsert dbs.patDb }
  else dbs

def reassertSubs (env : Env Regex) (host : RvHost) (peers : List (Peer Regex)) : SubDbs :=
  peers.foldl (collect env host)
    { subDb := [subKey env.toRoutes.toEnv (daemonInbox host)]
      patDb := [] }

/-- `do_psub`. -/
def doPsub (c : EvRvClient) (pre : Text) (prefixLen : UInt8) : EvRvClient :=
  if c.noWrite then c
  else
    let sub := pre.take prefixLen.toNat
    queueSend c (.listen ((if prefixLen ≠ 0 then sub ++ [46] else sub) ++ [62]) none)

def onReassert (env : Env Regex) (c : EvRvClient) (dbs : SubDbs) : EvRvClient :=
  if c.noWrite then c
  else
    let c := (env.visitDb dbs.subDb).foldl (fun c sub => subscribe c sub.2 []) c
    (env.visitDb dbs.patDb).foldl (fun c sub => doPsub c sub.2 (UInt8.ofNat sub.2.length)) c

/-- A connection of the host has the subject. -/
def HoldsExact (host : RvHost) (peers : List (Peer Regex)) (sub : Text) : Prop :=
  ∃ s ∈ peers, s.host = host.number ∧ ∃ hash rt, s.subTab.find? (hash, sub) = some rt

/-- A connection of the host has patterns behind the text, or has had. -/
def HoldsPrefix (host : RvHost) (peers : List (Peer Regex)) (pre : Text) : Prop :=
  ∃ s ∈ peers, s.host = host.number ∧ ∃ hash route, s.patTab.find? (hash, pre) = some route

def HoldsPattern (host : RvHost) (peers : List (Peer Regex)) (wild : Text) : Prop :=
  ∃ s ∈ peers, s.host = host.number ∧
    ∃ key route, s.patTab.find? key = some route ∧ ∃ m ∈ route, m.value = wild

/-- The subjects of the messages `L` that the second client has queued beyond the first. -/
def sentSubjects (c c' : EvRvClient) : List Text :=
  (c'.queued.drop c.queued.length).filterMap fun
    | .listen sub _ => some sub
    | _ => none

/-- Every subject that a subject or a pattern of the host matches is matched by what is sent. -/
def ReassertCovers (env : Env Regex) (host : RvHost) (peers : List (Peer Regex)) (c : EvRvClient) :
    Prop :=
  ∀ sub, HoldsExact host peers sub ∨
      (∃ wild, HoldsPattern host peers wild ∧ matchRvWildcard wild sub = true) →
    ∃ t ∈ sentSubjects c (onReassert env c (reassertSubs env host peers)),
      matchRvWildcard t sub = true

variable {env : Env Regex} {host : RvHost} {peers : List (Peer Regex)} {c : EvRvClient} {db : List Key}
  {dbs : SubDbs} {key : Key} {sub wild pre x : Text}

theorem mem_upsert {other : Key} : other ∈ upsert db key ↔ other ∈ db ∨ other = key := by
  unfold upsert
  split
  · next hMem =>
      refine ⟨Or.inl, ?_⟩
      rintro (hOld | rfl)
      · exact hOld
      · exact hMem
  · rw [List.mem_append, List.mem_singleton]

theorem mem_foldl_upsert {keys : List Key} :
    key ∈ keys.foldl upsert db ↔ key ∈ db ∨ key ∈ keys := by
  induction keys generalizing db with
  | nil => simp
  | cons first keys ih => rw [List.foldl_cons, ih, mem_upsert, List.mem_cons, or_assoc]

theorem mem_visitSubs {t : Table Key RvSubRoute} :
    key ∈ (env.visitSubs t).map Prod.fst ↔ ∃ rt, t.find? key = some rt := by
  rw [((env.visitSubs_perm t).map Prod.fst).mem_iff, List.mem_map]
  constructor
  · rintro ⟨e, hMem, rfl⟩
    exact ⟨e.2, Table.find?_eq_some.mpr hMem⟩
  · rintro ⟨rt, hFind⟩
    exact ⟨_, Table.find?_eq_some.mp hFind, rfl⟩

theorem mem_visitPats {t : Table Key (List (RvWildMatch Regex))} :
    key ∈ (env.visitPats t).map Prod.fst ↔ ∃ route, t.find? key = some route := by
  rw [((env.visitPats_perm t).map Prod.fst).mem_iff, List.mem_map]
  constructor
  · rintro ⟨e, hMem, rfl⟩
    exact ⟨e.2, Table.find?_eq_some.mpr hMem⟩
  · rintro ⟨rt, hFind⟩
    exact ⟨_, Table.find?_eq_some.mp hFind, rfl⟩

/-- The sets have what is in the tables of the connections of the host. -/
theorem mem_collected (dbs : SubDbs) :
    (key ∈ (peers.foldl (collect env host) dbs).subDb ↔ key ∈ dbs.subDb ∨
      ∃ s ∈ peers, s.host = host.number ∧ ∃ rt, s.subTab.find? key = some rt) ∧
    (key ∈ (peers.foldl (collect env host) dbs).patDb ↔ key ∈ dbs.patDb ∨
      ∃ s ∈ peers, s.host = host.number ∧ ∃ route, s.patTab.find? key = some route) := by
  induction peers generalizing dbs with
  | nil => simp
  | cons s peers ih =>
      rw [List.foldl_cons, (ih _).1, (ih _).2]
      by_cases hHost : s.host = host.number
      · have hSub : key ∈ (collect env host dbs s).subDb ↔
            key ∈ dbs.subDb ∨ ∃ rt, s.subTab.find? key = some rt := by
          rw [collect, if_pos hHost, mem_foldl_upsert, mem_visitSubs]
        have hPat : key ∈ (collect env host dbs s).patDb ↔
            key ∈ dbs.patDb ∨ ∃ route, s.patTab.find? key = some route := by
          rw [collect, if_pos hHost, mem_foldl_upsert, mem_visitPats]
        rw [hSub, hPat]
        simp only [List.exists_mem_cons_iff, hHost, true_and, or_assoc, and_self]
      · rw [collect, if_neg hHost]
        simp only [List.exists_mem_cons_iff, hHost, false_and, false_or, and_self]

/-- What `do_psub` makes of the text in front of a wildcard. -/
def psubText (pre : Text) : Text :=
  if pre.length % 256 = 0 then [62] else pre.take (pre.length % 256) ++ [46, 62]

theorem doPsub_eq (hWrite : c.noWrite = false) (pre : Text) :
    doPsub c pre (UInt8.ofNat pre.length) = queueSend c (.listen (psubText pre) none) := by
  have hLength : (UInt8.ofNat pre.length).toNat = pre.length % 256 := UInt8.toNat_ofNat'
  have hZero : UInt8.ofNat pre.length = 0 ↔ pre.length % 256 = 0 := by
    rw [← UInt8.toNat_inj, hLength]
    rfl
  unfold doPsub psubText
  dsimp only
  rw [hWrite, if_neg Bool.false_ne_true, hLength]
  by_cases hWhole : pre.length % 256 = 0
  · rw [if_neg (not_not.mpr (hZero.mpr hWhole)), if_pos hWhole, hWhole]
    rfl
  · rw [if_pos (mt hZero.mp hWhole), if_neg hWhole, List.append_assoc]
    rfl

/-- A client that queues what it is to send. -/
structure Writes (c : EvRvClient) : Prop where
  write : c.noWrite = false
  state : c.rvState ≠ .errClose

theorem Writes.queueSend (h : Writes c) (m : Msg) :
    Writes (queueSend c m) ∧ (Client.queueSend c m).queued = c.queued ++ [m] := by
  refine ⟨?_, queueSend_queued h.state m⟩
  unfold Client.queueSend
  split
  · exact ⟨h.write, h.state⟩
  · exact h
  · exact ⟨h.write, h.state⟩

/-- One message for every entry of a set. -/
theorem Writes.foldl {f : EvRvClient → Key → EvRvClient} {g : Key → Text}
    (hf : ∀ c key, Writes c → f c key = Client.queueSend c (.listen (g key) none)) (h : Writes c)
    (keys : List Key) :
    Writes (keys.foldl f c) ∧
      (keys.foldl f c).queued = c.queued ++ keys.map fun key => .listen (g key) none := by
  induction keys generalizing c with
  | nil => exact ⟨h, by simp⟩
  | cons key keys ih =>
      obtain ⟨hNext, hQueued⟩ := h.queueSend (.listen (g key) none)
      rw [List.foldl_cons, hf c key h]
      obtain ⟨hLast, hRest⟩ := ih hNext
      refine ⟨hLast, ?_⟩
      rw [hRest, hQueued, List.append_assoc]
      rfl

theorem Writes.sentSubjects (h : Writes c) (dbs : SubDbs) :
    sentSubjects c (onReassert env c dbs) =
      (env.visitDb dbs.subDb).map (fun key => stripNul key.2) ++
        (env.visitDb dbs.patDb).map fun key => psubText key.2 := by
  have hSubscribe : ∀ (c : EvRvClient) (key : Key), Writes c →
      subscribe c key.2 [] = Client.queueSend c (.listen (stripNul key.2) none) := by
    intro c key hc
    unfold subscribe
    rw [hc.write, if_neg Bool.false_ne_true, if_pos rfl]
  have hPsub : ∀ (c : EvRvClient) (key : Key), Writes c →
      doPsub c key.2 (UInt8.ofNat key.2.length) = Client.queueSend c (.listen (psubText key.2) none) :=
    fun c key hc => doPsub_eq hc.write key.2
  obtain ⟨hFirst, hSubs⟩ := h.foldl hSubscribe (env.visitDb dbs.subDb)
  obtain ⟨-, hPats⟩ := hFirst.foldl hPsub (env.visitDb dbs.patDb)
  unfold Reassert.sentSubjects onReassert
  rw [h.write, if_neg Bool.false_ne_true]
  dsimp only
  rw [hPats, hSubs, List.append_assoc, List.drop_left, List.filterMap_append, List.filterMap_map,
    List.filterMap_map]
  rw [← List.filterMap_eq_map, ← List.filterMap_eq_map]
  rfl

/-- A client that may not write or is closed sends nothing. -/
theorem sentSubjects_of_not_writes (env : Env Regex) (h : ¬ Writes c) (dbs : SubDbs) :
    sentSubjects c (onReassert env c dbs) = [] := by
  have hSame : onReassert env c dbs = c := by
    unfold onReassert
    cases hWrite : c.noWrite with
    | true => rfl
    | false =>
        have hState : c.rvState = .errClose := by
          by_contra hNot
          exact h ⟨hWrite, hNot⟩
        have hQueue : ∀ m, queueSend c m = c := fun m => by
          unfold queueSend
          rw [hState]
        have hSubs : ∀ keys : List Key,
            keys.foldl (fun c sub => subscribe c sub.2 []) c = c := by
          intro keys
          refine List.foldl_fixed' (fun key => ?_) keys
          unfold subscribe
          rw [hWrite, if_neg Bool.false_ne_true, hQueue]
        have hPats : ∀ keys : List Key,
            keys.foldl (fun c sub => doPsub c sub.2 (UInt8.ofNat sub.2.length)) c = c := by
          intro keys
          refine List.foldl_fixed' (fun key => ?_) keys
          rw [doPsub_eq hWrite, hQueue]
        rw [if_neg Bool.false_ne_true]
        dsimp only
        rw [hSubs, hPats]
  rw [hSame, sentSubjects, List.drop_length]
  rfl

theorem stripNul_daemonInbox (host : RvHost) : stripNul (daemonInbox host) = daemonInbox host := by
  have hLast : (text ".DAEMON").getLast? = some 78 := by decide
  rw [stripNul_eq_self, daemonInbox, List.getLast?_append, hLast, Option.some_or]
  decide

/-- What is sent, by what the connections of the host have. -/
theorem mem_sentSubjects (h : Writes c) {t : Text} :
    t ∈ sentSubjects c (onReassert env c (reassertSubs env host peers)) ↔
      t = daemonInbox host ∨ (∃ sub, HoldsExact host peers sub ∧ t = stripNul sub) ∨
        ∃ pre, HoldsPrefix host peers pre ∧ t = psubText pre := by
  have hSubs : ∀ key, key ∈ env.visitDb (reassertSubs env host peers).subDb ↔
      key = subKey env.toRoutes.toEnv (daemonInbox host) ∨
        ∃ s ∈ peers, s.host = host.number ∧ ∃ rt, s.subTab.find? key = some rt := by
    intro key
    rw [(env.visitDb_perm _).mem_iff, reassertSubs, (mem_collected _).1, List.mem_singleton]
  have hPats : ∀ key, key ∈ env.visitDb (reassertSubs env host peers).patDb ↔
      ∃ s ∈ peers, s.host = host.number ∧ ∃ route, s.patTab.find? key = some route := by
    intro key
    rw [(env.visitDb_perm _).mem_iff, reassertSubs, (mem_collected _).2]
    simp
  rw [← stripNul_daemonInbox host, h.sentSubjects, List.mem_append, List.mem_map, List.mem_map,
    ← or_assoc]
  refine or_congr ?_ ?_
  · constructor
    · rintro ⟨key, hKey, rfl⟩
      rcases (hSubs key).mp hKey with rfl | ⟨s, hs, hHost, rt, hFind⟩
      · exact .inl rfl
      · exact .inr ⟨key.2, ⟨s, hs, hHost, key.1, rt, hFind⟩, rfl⟩
    · rintro (rfl | ⟨sub, ⟨s, hs, hHost, hash, rt, hFind⟩, rfl⟩)
      · exact ⟨_, (hSubs _).mpr (.inl rfl), rfl⟩
      · exact ⟨(hash, sub), (hSubs _).mpr (.inr ⟨s, hs, hHost, rt, hFind⟩), rfl⟩
  · constructor
    · rintro ⟨key, hKey, rfl⟩
      obtain ⟨s, hs, hHost, route, hFind⟩ := (hPats key).mp hKey
      exact ⟨key.2, ⟨s, hs, hHost, key.1, route, hFind⟩, rfl⟩
    · rintro ⟨pre, ⟨s, hs, hHost, hash, route, hFind⟩, rfl⟩
      exact ⟨(hash, pre), (hPats _).mpr ⟨s, hs, hHost, route, hFind⟩, rfl⟩

/-- A subject is matched by the inbox of the daemon, by a subject of the host without the one
`'\0'` at its end, or by the first characters of a text in front of wildcards, as many as its
length is beyond a multiple of 256, with `.>` behind them. -/
def Announced (host : RvHost) (peers : List (Peer Regex)) (x : Text) : Prop :=
  matchRvWildcard (daemonInbox host) x = true ∨
    (∃ sub, HoldsExact host peers sub ∧ matchRvWildcard (stripNul sub) x = true) ∨
    ∃ pre, HoldsPrefix host peers pre ∧
      matchRvWildcard (pre.take (pre.length % 256) ++ text ".>") x = true

/-- What a host holds is announced: one of its patterns has nothing, or a multiple of 256
characters, in front of its wildcard; or all subjects that end with a `'\0'` are announced, and
all readings of all patterns. -/
def Reannounced (host : RvHost) (peers : List (Peer Regex)) : Prop :=
  (∃ pre, HoldsPrefix host peers pre ∧ pre.length % 256 = 0) ∨
    ((∀ sub, HoldsExact host peers sub → sub.getLast? = some 0 → Announced host peers sub) ∧
      ∀ wild, HoldsPattern host peers wild → ∀ x, Reading wild x → Announced host peers x)

/-- `>` matches what is not empty. -/
theorem matchRvWildcard_all (h : x ≠ []) : matchRvWildcard [62] x = true := by
  obtain ⟨c, rest, rfl⟩ := List.exists_cons_of_ne_nil h
  rfl

theorem announced_iff (h : Writes c)
    (hWhole : ¬ ∃ pre, HoldsPrefix host peers pre ∧ pre.length % 256 = 0) :
    (∃ t ∈ sentSubjects c (onReassert env c (reassertSubs env host peers)),
      matchRvWildcard t x = true) ↔ Announced host peers x := by
  unfold Announced
  constructor
  · rintro ⟨t, hMem, hMatch⟩
    rcases (mem_sentSubjects h).mp hMem with rfl | ⟨sub, hHolds, rfl⟩ | ⟨pre, hHolds, rfl⟩
    · exact .inl hMatch
    · exact .inr (.inl ⟨sub, hHolds, hMatch⟩)
    · rw [psubText, if_neg fun hNone => hWhole ⟨pre, hHolds, hNone⟩] at hMatch
      exact .inr (.inr ⟨pre, hHolds, hMatch⟩)
  · rintro (hMatch | ⟨sub, hHolds, hMatch⟩ | ⟨pre, hHolds, hMatch⟩)
    · exact ⟨_, (mem_sentSubjects h).mpr (.inl rfl), hMatch⟩
    · exact ⟨_, (mem_sentSubjects h).mpr (.inr (.inl ⟨sub, hHolds, rfl⟩)), hMatch⟩
    · refine ⟨_, (mem_sentSubjects h).mpr (.inr (.inr ⟨pre, hHolds, rfl⟩)), ?_⟩
      rw [psubText, if_neg fun hNone => hWhole ⟨pre, hHolds, hNone⟩]
      exact hMatch

/-- A pattern of a connection has a wildcard. -/
theorem HoldsPattern.ne_nil (lawful : env.toRoutes.toEnv.Lawful)
    (hReach : ∀ s ∈ peers, ∃ own p, (connection env.toRoutes.toEnv own p).Reachable s.toEvRvService)
    (h : HoldsPattern host peers wild) : wild ≠ [] := by
  obtain ⟨s, hs, -, key, route, hFind, m, hm, rfl⟩ := h
  obtain ⟨own, p, hReachable⟩ := hReach s hs
  obtain ⟨l, w, hFits⟩ := (connection_served hReachable).placed key route hFind m hm
  have hWild := lawful.prefixlen _ _ hFits.prefixlen
  intro hNil
  rw [hNil] at hWild
  cases hWild

/-- What is held is covered exactly if nothing is held, or the client writes and what is held is
announced. -/
theorem reassert_covers (env : Env Regex) (lawful : env.toRoutes.toEnv.Lawful) (host : RvHost)
    (peers : List (Peer Regex))
    (hReach : ∀ s ∈ peers, ∃ own p, (connection env.toRoutes.toEnv own p).Reachable s.toEvRvService)
    (c : EvRvClient) :
    ReassertCovers env host peers c ↔
      ((∀ sub, ¬ HoldsExact host peers sub) ∧ ∀ wild, ¬ HoldsPattern host peers wild) ∨
        (Writes c ∧ Reannounced host peers) := by
  by_cases hWrites : Writes c
  · by_cases hWhole : ∃ pre, HoldsPrefix host peers pre ∧ pre.length % 256 = 0
    · refine iff_of_true ?_ (.inr ⟨hWrites, .inl hWhole⟩)
      obtain ⟨pre, hPrefix, hLength⟩ := hWhole
      intro sub hHeld
      by_cases hNil : sub = []
      · subst hNil
        rcases hHeld with hExact | ⟨wild, hPattern, hMatch⟩
        · exact ⟨[], (mem_sentSubjects hWrites).mpr (.inr (.inl ⟨[], hExact, rfl⟩)), rfl⟩
        · obtain ⟨w, ws, rfl⟩ := List.exists_cons_of_ne_nil (hPattern.ne_nil lawful hReach)
          cases hMatch
      · refine ⟨[62], (mem_sentSubjects hWrites).mpr (.inr (.inr ⟨pre, hPrefix, ?_⟩)),
          matchRvWildcard_all hNil⟩
        rw [psubText, if_pos hLength]
    · have hSent := fun x => @announced_iff Regex env host peers c x hWrites hWhole
      constructor
      · intro hCovers
        refine .inr ⟨hWrites, .inr ⟨fun sub hExact _ => ?_, fun wild hPattern => ?_⟩⟩
        · exact (hSent sub).mp (hCovers sub (.inl hExact))
        · have hCovered := (coveredBy_iff _ wild).mp fun sub hMatch =>
            hCovers sub (.inr ⟨wild, hPattern, hMatch⟩)
          exact fun x hReading => (hSent x).mp (hCovered x hReading)
      · rintro (⟨hNoExact, hNoPattern⟩ | ⟨-, hNone | ⟨hExacts, hPatterns⟩⟩) sub hHeld
        · rcases hHeld with hExact | ⟨wild, hPattern, -⟩
          · exact absurd hExact (hNoExact sub)
          · exact absurd hPattern (hNoPattern wild)
        · exact absurd hNone hWhole
        · rcases hHeld with hExact | ⟨wild, hPattern, hMatch⟩
          · by_cases hNul : sub.getLast? = some 0
            · exact (hSent sub).mpr (hExacts sub hExact hNul)
            · refine ⟨sub, (mem_sentSubjects hWrites).mpr (.inr (.inl ⟨sub, hExact, ?_⟩)),
                matchRvWildcard_self sub⟩
              exact (stripNul_eq_self.mpr hNul).symm
          · refine (coveredBy_iff _ wild).mpr (fun x hReading => ?_) sub hMatch
            exact (hSent x).mpr (hPatterns wild hPattern x hReading)
  · have hNothing := sentSubjects_of_not_writes env hWrites (reassertSubs env host peers)
    constructor
    · intro hCovers
      refine .inl ⟨fun sub hExact => ?_, fun wild hPattern => ?_⟩
      · obtain ⟨t, hMem, -⟩ := hCovers sub (.inl hExact)
        rw [hNothing] at hMem
        cases hMem
      · obtain ⟨t, hMem, -⟩ := hCovers wild (.inr ⟨wild, hPattern, matchRvWildcard_self wild⟩)
        rw [hNothing] at hMem
        cases hMem
    · rintro (⟨hNoExact, hNoPattern⟩ | ⟨hNot, -⟩) sub hHeld
      · rcases hHeld with hExact | ⟨wild, hPattern, -⟩
        · exact absurd hExact (hNoExact sub)
        · exact absurd hPattern (hNoPattern wild)
      · exact absurd hNot hWrites

def sampleEnv : Env Text where
  toRoutes := Routes.sampleEnv
  visitDb := id
  visitDb_perm _ := .refl _

def sampleHost : RvHost where
  number := 0
  sessionIp := text "0A000001"

/-- A connection without a prefix that has one pattern. -/
def samplePeer (wild : Text) : Peer Text where
  toEvRvService := Matching.addSub Matching.sampleEnv {} wild true
  host := 0

theorem samplePeer_reachable (wild : Text) : ∃ own p,
    (connection Matching.sampleEnv own p).Reachable (samplePeer wild).toEvRvService := by
  have hStart : (connection Matching.sampleEnv {} ⟨[], .inl rfl⟩).init {} := rfl
  have hStep : (connection Matching.sampleEnv {} ⟨[], .inl rfl⟩).step {} (.listen wild true) []
      (samplePeer wild).toEvRvService := rfl
  exact ⟨{}, ⟨[], .inl rfl⟩, (System.reachable_of_init hStart).step hStep⟩

theorem samplePeer_pattern {l : Nat} (h : rvWildcard wild = some l) : ∃ hash re,
    (samplePeer wild).patTab.find? (hash, wild.take l) = some [{ value := wild, re := re }] := by
  have hConvert : Matching.sampleEnv.convertRv wild = some l := h
  obtain ⟨re, hCompile⟩ : ∃ re, compilePattern Matching.sampleEnv wild l = some re := by
    unfold compilePattern
    split
    · exact ⟨_, rfl⟩
    · exact ⟨_, rfl⟩
  have hPeer : (samplePeer wild).toEvRvService = ({} : EvRvService Text).setRoute
      (prefixKey Matching.sampleEnv wild l) [{ value := wild, re := re }] := by
    change Matching.putPattern Matching.sampleEnv {} wild = _
    unfold Matching.putPattern
    rw [hConvert]
    dsimp only
    rw [hCompile]
    rfl
  refine ⟨(prefixKey Matching.sampleEnv wild l).1, re, ?_⟩
  rw [hPeer]
  exact Table.find?_insert_self _ _ _

theorem reassert_covers_all : ReassertCovers sampleEnv sampleHost [samplePeer (text ">")] bridgeClient := by
  refine (reassert_covers sampleEnv Matching.sampleEnv_lawful sampleHost [samplePeer (text ">")] ?_
    bridgeClient).mpr (.inr ⟨⟨rfl, by decide⟩, .inl ⟨[], ⟨samplePeer (text ">"), ?_, rfl, ?_⟩, rfl⟩⟩)
  · intro s hs
    rw [List.mem_singleton.mp hs]
    exact samplePeer_reachable _
  · exact List.mem_singleton.mpr rfl
  · obtain ⟨hash, re, hFind⟩ := @samplePeer_pattern (text ">") 0 rfl
    exact ⟨hash, _, hFind⟩

/-- The client is told `A..>`. -/
theorem reassert_misses :
    ¬ ReassertCovers sampleEnv sampleHost [samplePeer (text "A.>")] bridgeClient := by
  intro hCovers
  have hHolds : HoldsPattern sampleHost [samplePeer (text "A.>")] (text "A.>") := by
    obtain ⟨hash, re, hFind⟩ := @samplePeer_pattern (text "A.>") 2 (by decide)
    exact ⟨samplePeer (text "A.>"), List.mem_singleton.mpr rfl, rfl, _, _, hFind, _,
      List.mem_singleton.mpr rfl, rfl⟩
  obtain ⟨t, hMem, hMatch⟩ := hCovers (text "A.B") (.inr ⟨text "A.>", hHolds, by decide⟩)
  have hSent : (sentSubjects bridgeClient (onReassert sampleEnv bridgeClient
      (reassertSubs sampleEnv sampleHost [samplePeer (text "A.>")]))).all
        (fun t => !matchRvWildcard t (text "A.B")) = true := by decide +kernel
  have hNot := List.all_eq_true.mp hSent t hMem
  rw [hMatch] at hNot
  cases hNot

end Sassrv.Daemon.Reassert
