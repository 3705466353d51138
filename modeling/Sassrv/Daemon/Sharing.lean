import Sassrv.Daemon.References

/-! The daemon session that connections share, over any number of connections of a
host: its references are the sum of theirs, and the host announces the end of a
subscription when the last of them goes. -/
namespace Sassrv.Daemon
open SubMgr Partial Transition

/-- The connection has the daemon session of the host. -/
def Conn.shares (c : Conn) (service : Text) : Bool := c.isAt service && c.isDaemon

/-- The references that the connection adds to those of the host. -/
def Conn.share (c : Conn) (service x : Text) : Nat := if c.shares service then c.own x else 0

/-- The references to a subject over the connections of a host with its daemon session. -/
def Net.refs (d : Net) (service x : Text) : Nat := d.conns.total fun _ c => c.share service x

/-- A connection that has a prefix is started, and so is a daemon session that has
subscriptions. -/
structure Conn.Sound (c : Conn) : Prop where
  fresh : c.hostStarted = false → c.pre = []
  hosted : c.isDaemon = true → c.hostName.isSome = true
  keyed : c.isDaemon = true → c.toService.Keyed
  started : c.isDaemon = true → ∀ x, 0 < c.own x → c.hostStarted = true

/-- A connection and its host. -/
structure Conn.Fits (c : Conn) (h : RvHost) : Prop where
  pre : c.hostStarted = true → c.pre = h.service.getD []
  session : c.isDaemon = true → c.session = h.daemonId
  runs : c.isDaemon = true → (h.networkStarted = true ∧ c.hostStarted = true) ∨
    (h.networkStarted = false ∧ h.startInProgress = true)

/-- What a run must keep to: a connection does not change its host once it is started,
and a daemon session neither its host nor its session; a daemon session begins without
subscriptions, subscribes once it is started, and to subjects that are none of them
empty and to patterns that compile. -/
def Net.Orderly (env : Env) (d : Net) : NetInput → Prop
  | .info fd info _ => ∀ c, d.conns.find? fd = some c →
      (c.isDaemon = true → info.session.getD c.session = c.session) ∧
      (info.readable = true →
        (c.hostStarted = true → c.hostName = some info.serviceName) ∧
        (c.isDaemon = true → c.hostName = some info.serviceName) ∧
        (c.isDaemon = false → 9 < (info.session.getD c.session).length →
          (info.session.getD c.session).drop 9 = c.gob → c.subTab = .empty ∧ c.patTab = .empty))
  | .listen fd m => ∀ c service, d.conns.find? fd = some c → c.isDaemon = true →
      c.hostName = some service → c.hostStarted = true ∧ m.sub ≠ [] ∧
        (m.isWild = true → env.converts (c.pre ++ m.sub) = true →
          env.compiles (c.pre ++ m.sub) = true) ∧
        d.refs service (c.pre ++ m.sub) + 1 < 2 ^ 32
  | .close fd quit => ∀ c, d.conns.find? fd = some c → c.isDaemon = true → quit = false
  | _ => True

/-- The references of each host are those of its daemon sessions. -/
structure Net.Shared (d : Net) : Prop where
  sound : ∀ fd c, d.conns.find? fd = some c → c.Sound
  fits : ∀ fd c service, d.conns.find? fd = some c → c.hostName = some service →
    ∃ h, d.hosts.find? service = some h ∧ c.Fits h
  positive : ∀ service h, d.hosts.find? service = some h → Positive h.subMap
  refs : ∀ service h x, d.hosts.find? service = some h → refcnt h.subMap x = d.refs service x

variable {env : Env} {d d' : Net} {service x : Text} {fd : Fd} {c c' : Conn} {h h' : RvHost}

theorem Conn.shares_iff : c.shares service = true ↔ c.hostName = some service ∧ c.isDaemon = true := by
  simp [Conn.shares, Conn.isAt]

theorem Conn.share_of_daemon (hName : c.hostName = some service) (hDaemon : c.isDaemon = true) :
    c.share service x = c.own x :=
  if_pos (Conn.shares_iff.mpr ⟨hName, hDaemon⟩)

theorem Conn.share_of_session (hDaemon : c.isDaemon = false) : c.share service x = 0 := by
  simp [Conn.share, Conn.shares, hDaemon]

theorem Conn.share_of_ne {name : Text} (hName : c.hostName = some service) (hNe : name ≠ service) :
    c.share name x = 0 := by
  simp [Conn.share, Conn.shares, Conn.isAt, hName, Ne.symm hNe]

/-- The same host, session and tables. -/
theorem Conn.share_congr (hName : c'.hostName = c.hostName) (hDaemon : c'.isDaemon = c.isDaemon)
    (hSub : c'.subTab = c.subTab) (hPat : c'.patTab = c.patTab) :
    c'.share service x = c.share service x := by
  unfold Conn.share Conn.shares Conn.isAt
  rw [hName, hDaemon, Service.own_congr hSub hPat]

theorem Net.refs_insert (hosts : Table Text RvHost) (hConn : d.conns.find? fd = some c) (c' : Conn)
    (service x : Text) : ({ hosts := hosts, conns := d.conns.insert fd c' } : Net).refs service x +
      c.share service x = d.refs service x + c'.share service x := by
  unfold Net.refs
  rw [Table.insert_of_found c' (by simp [hConn])]
  exact Table.total_modify (fun _ => c') (fun _ c => c.share service x) hConn

theorem Net.refs_erase (hosts : Table Text RvHost) (hConn : d.conns.find? fd = some c)
    (service x : Text) : ({ hosts := hosts, conns := d.conns.erase fd } : Net).refs service x +
      c.share service x = d.refs service x :=
  Table.total_erase (fun _ c => c.share service x) hConn

theorem Net.share_le_refs (hConn : d.conns.find? fd = some c) (service x : Text) :
    c.share service x ≤ d.refs service x := by
  rw [← Net.refs_erase d.hosts hConn]
  exact Nat.le_add_left _ _

/-- Connections that point at no host of that name add nothing. -/
theorem Net.Shared.refs_none (hShared : d.Shared) (hNone : d.hosts.find? service = none) :
    d.refs service x = 0 := by
  apply List.sum_eq_zero
  intro k hk
  obtain ⟨e, he, rfl⟩ := List.mem_map.mp hk
  have hConn := Table.find?_eq_some.mpr he
  show e.2.share service x = 0
  unfold Conn.share
  split
  · next hShares =>
      obtain ⟨h, hHost, -⟩ := hShared.fits e.1 e.2 service hConn (Conn.shares_iff.mp hShares).1
      rw [hNone] at hHost
      cases hHost
  · rfl

/-- A connection changes, and not what it shares. -/
theorem Net.Shared.insert_conn (hShared : d.Shared) (hConn : d.conns.find? fd = some c)
    (c' : Conn) (hSound : c'.Sound) (hFits : ∀ service, c'.hostName = some service →
      ∃ h, d.hosts.find? service = some h ∧ c'.Fits h)
    (hShare : ∀ service x, c'.share service x = c.share service x)
    (hConns : d'.conns = d.conns.insert fd c')
    (hHosts : ∀ name, d'.hosts.find? name = d.hosts.find? name) :
    d'.Shared ∧ ∀ service x, d'.refs service x = d.refs service x := by
  have hRefs : ∀ service x, d'.refs service x = d.refs service x := by
    intro service x
    have hInsert := Net.refs_insert d'.hosts hConn c' service x
    rw [← hConns, hShare] at hInsert
    exact Nat.add_right_cancel hInsert
  refine ⟨⟨?_, ?_, ?_, ?_⟩, hRefs⟩
  · intro fd' y hy
    rw [hConns, Table.find?_insert] at hy
    split at hy
    · cases hy
      exact hSound
    · exact hShared.sound fd' y hy
  · intro fd' y service hy hName
    rw [hHosts]
    rw [hConns, Table.find?_insert] at hy
    split at hy
    · cases hy
      exact hFits service hName
    · exact hShared.fits fd' y service hy hName
  · intro service h hHost
    exact hShared.positive service h (by rwa [← hHosts])
  · intro service h x hHost
    rw [hRefs]
    exact hShared.refs service h x (by rwa [← hHosts])

/-- A host changes, and neither its references nor what its connections rely on. -/
theorem Net.Shared.insert_host (hShared : d.Shared) (hHost : d.hosts.find? service = some h)
    (hMap : h'.subMap = h.subMap)
    (hFits : ∀ fd c, d.conns.find? fd = some c → c.hostName = some service → c.Fits h → c.Fits h') :
    ({ d with hosts := d.hosts.insert service h' } : Net).Shared where
  sound := hShared.sound
  fits := by
    intro fd c name hConn hName
    obtain ⟨host, hFind, hFit⟩ := hShared.fits fd c name hConn hName
    simp only [Table.find?_insert]
    split
    · next hEq =>
        subst hEq
        obtain rfl := Option.some.inj (hHost.symm.trans hFind)
        exact ⟨h', rfl, hFits fd c hConn hName hFit⟩
    · exact ⟨host, hFind, hFit⟩
  positive := by
    intro name host hFind
    simp only [Table.find?_insert] at hFind
    split at hFind
    · cases hFind
      rw [hMap]
      exact hShared.positive service h hHost
    · exact hShared.positive name host hFind
  refs := by
    intro name host x hFind
    simp only [Table.find?_insert] at hFind
    split at hFind
    · next hEq =>
        cases hFind
        rw [hMap, hEq]
        exact hShared.refs service h x hHost
    · exact hShared.refs name host x hFind

/-- The connection and its host change together. -/
theorem Net.Shared.update (hShared : d.Shared) (hConn : d.conns.find? fd = some c)
    (hName : c.hostName = some service) (hHost : d.hosts.find? service = some h)
    (c' : Conn) (hName' : c'.hostName = some service) (hSound : c'.Sound) (hFits : c'.Fits h')
    (hOthers : ∀ c : Conn, c.Fits h → c.Fits h') (hPos : Positive h'.subMap)
    (hCount : ∀ x, refcnt h'.subMap x + c.share service x = refcnt h.subMap x + c'.share service x)
    (hConns : d'.conns = d.conns.insert fd c')
    (hHosts : ∀ name, d'.hosts.find? name = if name = service then some h' else d.hosts.find? name) :
    d'.Shared where
  sound := by
    intro fd' y hy
    rw [hConns, Table.find?_insert] at hy
    split at hy
    · cases hy
      exact hSound
    · exact hShared.sound fd' y hy
  fits := by
    intro fd' y name hy hNameY
    rw [hConns, Table.find?_insert] at hy
    rw [hHosts]
    split at hy
    · cases hy
      rw [hName', Option.some.injEq] at hNameY
      rw [if_pos hNameY.symm]
      exact ⟨h', rfl, hFits⟩
    · obtain ⟨host, hFind, hFit⟩ := hShared.fits fd' y name hy hNameY
      split
      · next hEq =>
          subst hEq
          obtain rfl := Option.some.inj (hHost.symm.trans hFind)
          exact ⟨h', rfl, hOthers y hFit⟩
      · exact ⟨host, hFind, hFit⟩
  positive := by
    intro name host hFind
    rw [hHosts] at hFind
    split at hFind
    · cases hFind
      exact hPos
    · exact hShared.positive name host hFind
  refs := by
    intro name host x hFind
    have hInsert := Net.refs_insert d'.hosts hConn c' name x
    rw [← hConns] at hInsert
    have hInsert : d'.refs name x + c.share name x = d.refs name x + c'.share name x := hInsert
    rw [hHosts] at hFind
    split at hFind
    · next hEq =>
        cases hFind
        subst hEq
        have hWas := hShared.refs name h x hHost
        have hNow := hCount x
        omega
    · next hNe =>
        rw [Conn.share_of_ne hName hNe, Conn.share_of_ne hName' hNe] at hInsert
        rw [hShared.refs name host x hFind]
        omega

/-- A host that is new has no connections. -/
theorem Net.Shared.startService (hShared : d.Shared) (service : Text) (hasPrefix : Bool) :
    (d.startService service hasPrefix).1.Shared := by
  unfold Net.startService
  split
  · next hNone =>
      refine ⟨hShared.sound, ?_, ?_, ?_⟩
      · intro fd c name hConn hName
        obtain ⟨h, hHost, hFit⟩ := hShared.fits fd c name hConn hName
        refine ⟨h, ?_, hFit⟩
        rw [Table.find?_insert_ne]
        · exact hHost
        · rintro rfl
          rw [hNone] at hHost
          cases hHost
      · intro name h hHost
        simp only [Table.find?_insert] at hHost
        split at hHost
        · cases hHost
          exact positive_empty
        · exact hShared.positive name h hHost
      · intro name h x hHost
        simp only [Table.find?_insert] at hHost
        split at hHost
        · next hEq =>
            cases hHost
            subst hEq
            exact (hShared.refs_none hNone).symm
        · exact hShared.refs name h x hHost
  · exact hShared

theorem sendStart_same (s : Service) (host : Host) :
    (sendStart s host).isDaemon = s.isDaemon ∧ (sendStart s host).session = s.session ∧
      (sendStart s host).subTab = s.subTab ∧ (sendStart s host).patTab = s.patTab ∧
      (sendStart s host).pre = host.service.getD s.pre := by
  simp only [sendStart]
  split <;> split <;> exact ⟨rfl, rfl, rfl, rfl, rfl⟩

/-- The prefix of a connection that is started is the host's for good. -/
theorem Conn.Fits.getD_pre (hFits : c.Fits h) (hSound : c.Sound) :
    h.service.getD c.pre = h.service.getD [] := by
  cases hStarted : c.hostStarted with
  | true =>
      rw [hFits.pre hStarted]
      cases h.service <;> rfl
  | false => rw [hSound.fresh hStarted]

/-- Tables that a new prefix leaves as they are. -/
theorem Conn.Sound.keyed_pre (hSound : c.Sound) (hFits : c.Fits h) {s : Service}
    (hDaemon : c.isDaemon = true) (hSub : s.subTab = c.subTab) (hPat : s.patTab = c.patTab)
    (hPre : s.pre = h.service.getD []) : s.Keyed := by
  have hKeyed := hSound.keyed hDaemon
  refine ⟨hSub ▸ hKeyed.subTab, hPat ▸ hKeyed.patTab, fun x hx => ?_⟩
  rw [Service.own_congr hSub hPat] at hx
  rw [hPre, ← hFits.pre (hSound.started hDaemon x hx)]
  exact hKeyed.keys x hx

theorem Conn.start_fits (hSound : c.Sound) (hFits : c.Fits h) (h' : RvHost) (hService : h'.service = h.service)
    (hDaemonId : h'.daemonId = h.daemonId) (hRuns : h'.networkStarted = true) :
    (c.start h.toHost).Sound ∧ (c.start h.toHost).Fits h' := by
  obtain ⟨hDaemon, hSession, hSub, hPat, hPre⟩ :=
    sendStart_same { c.toService with hostStarted := true } h.toHost
  rw [hFits.getD_pre hSound] at hPre
  have hStarted : (c.start h.toHost).hostStarted = true := c.start_hostStarted h.toHost
  constructor
  · refine ⟨fun hFalse => ?_, fun hIs => hSound.hosted (hDaemon ▸ hIs), fun hIs => ?_,
      fun _ _ _ => hStarted⟩
    · rw [hStarted] at hFalse
      cases hFalse
    · exact hSound.keyed_pre hFits (hDaemon ▸ hIs) hSub hPat hPre
  · refine ⟨fun _ => hPre.trans (by rw [hService]), fun hIs => ?_, fun _ => .inl ⟨hRuns, hStarted⟩⟩
    rw [hDaemonId]
    exact hSession.trans (hFits.session (hDaemon ▸ hIs))

theorem Conn.start_share (c : Conn) (host : Host) (name x : Text) :
    (c.start host).share name x = c.share name x := by
  obtain ⟨hDaemon, -, hSub, hPat, -⟩ := sendStart_same { c.toService with hostStarted := true } host
  exact Conn.share_congr rfl hDaemon hSub hPat

/-- The references to every subject are as they were. -/
def Net.SameRefs (d d' : Net) : Prop := ∀ service x, d'.refs service x = d.refs service x

theorem Net.startHost2_refs (d : Net) (service : Text) (delaySecs : Nat) :
    d.SameRefs (d.startHost2 service delaySecs) := by
  intro name x
  unfold Net.startHost2
  split
  · rfl
  · split
    · rfl
    · unfold Net.refs
      rw [Table.total_map]
      apply Table.total_congr
      intro fd c _
      split
      · exact c.start_share _ name x
      · rfl

theorem Net.Shared.startHost2 (hShared : d.Shared) (service : Text) (delaySecs : Nat) :
    (d.startHost2 service delaySecs).Shared := by
  have hRefs := d.startHost2_refs service delaySecs
  unfold Net.startHost2 at hRefs ⊢
  split
  · exact hShared
  · next h hHost =>
      simp only [hHost] at hRefs
      split
      · exact hShared.insert_host hHost rfl fun _ _ _ _ hFit => ⟨hFit.pre, hFit.session, hFit.runs⟩
      · next hNow =>
          rw [if_neg hNow] at hRefs
          refine ⟨?_, ?_, ?_, ?_⟩
          · intro fd y hy
            simp only [Table.find?_map, Option.map_eq_some_iff] at hy
            obtain ⟨c, hConn, rfl⟩ := hy
            split
            · next hAt =>
                obtain ⟨host, hFind, hFit⟩ := hShared.fits fd c service hConn (of_decide_eq_true hAt)
                obtain rfl := Option.some.inj (hHost.symm.trans hFind)
                exact (Conn.start_fits (hShared.sound fd c hConn) hFit
                  { h with networkStarted := true } rfl rfl rfl).1
            · exact hShared.sound fd c hConn
          · intro fd y name hy hName
            simp only [Table.find?_map, Option.map_eq_some_iff] at hy
            obtain ⟨c, hConn, rfl⟩ := hy
            split at hName
            · next hAt =>
                obtain ⟨host, hFind, hFit⟩ := hShared.fits fd c service hConn (of_decide_eq_true hAt)
                obtain rfl := Option.some.inj (hHost.symm.trans hFind)
                obtain rfl : service = name :=
                  Option.some.inj ((of_decide_eq_true hAt).symm.trans hName)
                refine ⟨_, Table.find?_insert_self _ _ _, ?_⟩
                rw [if_pos hAt]
                refine (Conn.start_fits (hShared.sound fd c hConn) hFit _ ?_ ?_ ?_).2 <;> rfl
            · next hAt =>
                obtain ⟨host, hFind, hFit⟩ := hShared.fits fd c name hConn hName
                refine ⟨host, ?_, by rwa [if_neg hAt]⟩
                rw [Table.find?_insert_ne]
                · exact hFind
                · rintro rfl
                  exact hAt (decide_eq_true hName)
          · intro name host hFind
            simp only [Table.find?_insert] at hFind
            split at hFind
            · cases hFind
              exact hShared.positive service h hHost
            · exact hShared.positive name host hFind
          · intro name host x hFind
            rw [hRefs]
            simp only [Table.find?_insert] at hFind
            split at hFind
            · next hEq =>
                cases hFind
                subst hEq
                exact hShared.refs name h x hHost
            · exact hShared.refs name host x hFind

/-- A check of the network may give the host a new daemon session. -/
theorem RvHost.checkNetwork_same (h : RvHost) (service network : Text) (answers : Answers) :
    (h.checkNetwork service network answers).1.subMap = h.subMap ∧
      (h.checkNetwork service network answers).1.service = h.service ∧
      (h.checkNetwork service network answers).1.networkStarted = h.networkStarted := by
  unfold RvHost.checkNetwork RvHost.startNetwork RvHost.copyNetwork
  repeat' split
  all_goals exact ⟨rfl, rfl, rfl⟩

/-- A host that neither runs nor starts has no daemon sessions. -/
theorem Conn.Fits.idle (hFits : c.Fits h) (hIdle : (!h.networkStarted && !h.startInProgress) = true)
    (hService : h'.service = h.service) : c.Fits h' := by
  simp only [Bool.and_eq_true, Bool.not_eq_true'] at hIdle
  have hNot : c.isDaemon ≠ true := by
    intro hDaemon
    rcases hFits.runs hDaemon with ⟨hRuns, -⟩ | ⟨-, hStarts⟩
    · rw [hIdle.1] at hRuns
      cases hRuns
    · rw [hIdle.2] at hStarts
      cases hStarts
  refine ⟨fun hStarted => ?_, fun hDaemon => absurd hDaemon hNot,
    fun hDaemon => absurd hDaemon hNot⟩
  rw [hService]
  exact hFits.pre hStarted

/-- The host runs or is about to. -/
def Net.IsUp (d : Net) (service : Text) : Prop :=
  ∃ h, d.hosts.find? service = some h ∧ (h.networkStarted = true ∨ h.startInProgress = true)

theorem Net.startHost_up (delaySecs : Nat) (hHost : d.hosts.find? service = some h)
    (hStarts : h.startInProgress = true) : (d.startHost service delaySecs).IsUp service := by
  unfold Net.startHost
  simp only [hHost]
  split
  · exact ⟨h, hHost, .inr hStarts⟩
  · unfold Net.startHost2
    simp only [hHost]
    split
    · exact ⟨_, Table.find?_insert_self _ _ _, .inr hStarts⟩
    · exact ⟨_, Table.find?_insert_self _ _ _, .inl rfl⟩

theorem Net.startHost_refs (d : Net) (service : Text) (delaySecs : Nat) :
    d.SameRefs (d.startHost service delaySecs) := by
  intro name x
  unfold Net.startHost
  split
  · rfl
  · split
    · rfl
    · exact d.startHost2_refs service delaySecs name x

theorem Net.Shared.startHost (hShared : d.Shared) (service : Text) (delaySecs : Nat) :
    (d.startHost service delaySecs).Shared := by
  unfold Net.startHost
  split
  · exact hShared
  · split
    · exact hShared
    · exact hShared.startHost2 service delaySecs

theorem Net.Shared.listenerStartHost (hShared : d.Shared) (hSome : ∃ h, d.hosts.find? service = some h)
    (network : Text) (answers : Answers) :
    (d.listenerStartHost service network answers).1.Shared ∧
      d.SameRefs (d.listenerStartHost service network answers).1 ∧
      ((d.listenerStartHost service network answers).2 = .ok () →
        (d.listenerStartHost service network answers).1.IsUp service) := by
  obtain ⟨h, hHost⟩ := hSome
  unfold Net.listenerStartHost
  simp only [hHost]
  obtain ⟨hMap, hService, -⟩ := h.checkNetwork_same service network answers
  split
  · next hIdle =>
      split
      · next checked e hCheck =>
          rw [hCheck] at hMap hService
          refine ⟨?_, fun _ _ => rfl, by simp⟩
          exact hShared.insert_host hHost hMap fun _ _ _ _ hFit => hFit.idle hIdle hService
      · next checked ok hCheck =>
          rw [hCheck] at hMap hService
          have hInsert : ({ d with hosts := d.hosts.insert service { checked with
              startInProgress := true } } : Net).Shared :=
            hShared.insert_host hHost hMap fun _ _ _ _ hFit => hFit.idle hIdle hService
          refine ⟨hInsert.startHost service answers.delaySecs, ?_, fun _ => ?_⟩
          · intro name x
            exact Net.startHost_refs _ service answers.delaySecs name x
          · exact Net.startHost_up answers.delaySecs (Table.find?_insert_self _ _ _) rfl
  · next hUp =>
      have hIs : d.IsUp service := ⟨h, hHost, by
        cases hRuns : h.networkStarted <;> cases hStarts : h.startInProgress <;> simp_all⟩
      split
      · exact ⟨hShared, fun _ _ => rfl, by simp⟩
      · exact ⟨hShared, fun _ _ => rfl, fun _ => hIs⟩

theorem setSession_same (env : Env) (s : Service) (host : Host) :
    (setSession env s host).subTab = s.subTab ∧ (setSession env s host).patTab = s.patTab ∧
      (setSession env s host).pre = s.pre ∧ (setSession env s host).hostStarted = s.hostStarted ∧
      ((setSession env s host).isDaemon = s.isDaemon ∧
        (setSession env s host).session = s.session ∨
        9 < s.session.length ∧ s.session.drop 9 = env.gob ∧
          (setSession env s host).isDaemon = true ∧
          (setSession env s host).session = host.daemonId) := by
  unfold setSession
  split
  · split
    · next hGob => exact ⟨rfl, rfl, rfl, rfl, .inr ⟨hGob.1, hGob.2, rfl, rfl⟩⟩
    · exact ⟨rfl, rfl, rfl, rfl, .inl ⟨rfl, rfl⟩⟩
  · exact ⟨rfl, rfl, rfl, rfl, .inl ⟨rfl, rfl⟩⟩

/-- The reply to an `I` message before the session is set. -/
def replied (s : Service) (status : Int) (host : Host) : Service :=
  let s := { s with hostStarted := s.hostStarted || host.networkStarted }
  if status ≠ 0 then s.send (.initRefused status)
  else if !s.sentInitresp then { s with sentInitresp := true }.send .initResp
  else { s with sentRvdconn := true }.send .connected

theorem replied_same (s : Service) (status : Int) (host : Host) :
    (replied s status host).subTab = s.subTab ∧ (replied s status host).patTab = s.patTab ∧
      (replied s status host).pre = s.pre ∧
      (replied s status host).hostStarted = (s.hostStarted || host.networkStarted) ∧
      (replied s status host).isDaemon = s.isDaemon ∧
      (replied s status host).session = s.session := by
  unfold replied
  dsimp only
  split
  · exact ⟨rfl, rfl, rfl, rfl, rfl, rfl⟩
  · split <;> exact ⟨rfl, rfl, rfl, rfl, rfl, rfl⟩

theorem respondStarted_eq (env : Env) (s : Service) (status : Int) (host : Host) :
    respondStarted env s status host =
      let s := if status = 0 then setSession env (replied s status host) host
        else replied s status host
      if s.hostStarted then sendStart s host else s :=
  rfl

/-- What `respond_info` makes of the session. -/
theorem respondStarted_same (env : Env) (s : Service) (status : Int) (host : Host) :
    (respondStarted env s status host).subTab = s.subTab ∧
      (respondStarted env s status host).patTab = s.patTab ∧
      (respondStarted env s status host).pre =
        (if s.hostStarted || host.networkStarted then host.service.getD s.pre else s.pre) ∧
      ((respondStarted env s status host).isDaemon = s.isDaemon ∧
        (respondStarted env s status host).session = s.session ∨
        status = 0 ∧ 9 < s.session.length ∧ s.session.drop 9 = env.gob ∧
          (respondStarted env s status host).isDaemon = true ∧
          (respondStarted env s status host).session = host.daemonId) := by
  obtain ⟨hSub, hPat, hPre, hStarted, hDaemon, hSession⟩ := replied_same s status host
  have hMid : ∃ r, r = (if status = 0 then setSession env (replied s status host) host
      else replied s status host) ∧ r.subTab = s.subTab ∧ r.patTab = s.patTab ∧ r.pre = s.pre ∧
        r.hostStarted = (s.hostStarted || host.networkStarted) ∧
        (r.isDaemon = s.isDaemon ∧ r.session = s.session ∨
          status = 0 ∧ 9 < s.session.length ∧ s.session.drop 9 = env.gob ∧ r.isDaemon = true ∧
            r.session = host.daemonId) := by
    refine ⟨_, rfl, ?_⟩
    split
    · next hOk =>
        obtain ⟨hSub', hPat', hPre', hStarted', hCase⟩ :=
          setSession_same env (replied s status host) host
        refine ⟨hSub'.trans hSub, hPat'.trans hPat, hPre'.trans hPre, hStarted'.trans hStarted, ?_⟩
        rcases hCase with ⟨hD, hS⟩ | ⟨hLen, hGob, hD, hS⟩
        · exact .inl ⟨hD.trans hDaemon, hS.trans hSession⟩
        · rw [hSession] at hLen hGob
          exact .inr ⟨hOk, hLen, hGob, hD, hS⟩
    · exact ⟨hSub, hPat, hPre, hStarted, .inl ⟨hDaemon, hSession⟩⟩
  obtain ⟨r, hr, hSub, hPat, hPre, hStarted, hCase⟩ := hMid
  rw [respondStarted_eq]
  dsimp only
  rw [← hr, hStarted]
  split
  · obtain ⟨hD, hS, hSub', hPat', hPre'⟩ := sendStart_same r host
    rw [hD, hS, hSub', hPat', hPre', hPre]
    exact ⟨hSub, hPat, rfl, hCase⟩
  · exact ⟨hSub, hPat, hPre, hCase⟩

/-- The connection after the reply to an `I` message: a daemon session begins without
subscriptions, and with a host that is up. -/
theorem Conn.respond_fits (env : Env) (status : Int) (hSound : c.Sound) (hFits : c.Fits h)
    (hName : c.hostName.isSome = true)
    (hUp : status = 0 → h.networkStarted = true ∨ h.startInProgress = true)
    (hEmpty : c.isDaemon = false → 9 < c.session.length → c.session.drop 9 = env.gob →
      c.subTab = .empty ∧ c.patTab = .empty) {s : Service}
    (hs : Daemon.respondStarted env c.toService status h.toHost = s) :
    Conn.Sound { c with toService := s } ∧ Conn.Fits { c with toService := s } h ∧
      ∀ service x, Conn.share { c with toService := s } service x = c.share service x := by
  obtain ⟨hSub, hPat, hPre, hCase⟩ := respondStarted_same env c.toService status h.toHost
  have hStarted := respondStarted_hostStarted env c.toService status h.toHost
  rw [hs] at hSub hPat hPre hCase hStarted
  have hOwn : ∀ x, s.own x = c.own x := Service.own_congr hSub hPat
  have hPre' : s.hostStarted = true → s.pre = h.service.getD [] := by
    intro hs'
    rw [hPre, ← hStarted, if_pos hs']
    exact hFits.getD_pre hSound
  have hFresh : s.hostStarted = false → s.pre = [] := by
    intro hs'
    rw [hPre, ← hStarted, hs']
    rw [hStarted, Bool.or_eq_false_iff] at hs'
    exact hSound.fresh hs'.1
  by_cases hDaemon : c.isDaemon = true
  · -- a daemon session stays one, and keeps its tables
    have hIs : s.isDaemon = true := by
      rcases hCase with ⟨hD, -⟩ | ⟨-, -, -, hD, -⟩
      · exact hD.trans hDaemon
      · exact hD
    have hSession : s.session = h.daemonId := by
      rcases hCase with ⟨-, hS⟩ | ⟨-, -, -, -, hS⟩
      · exact hS.trans (hFits.session hDaemon)
      · exact hS
    have hStays : ∀ x, 0 < s.own x → s.hostStarted = true := by
      intro x hx
      rw [hOwn] at hx
      rw [hStarted, hSound.started hDaemon x hx, Bool.true_or]
    refine ⟨⟨hFresh, fun _ => hName, fun _ => ?_, fun _ => hStays⟩, ⟨hPre', fun _ => hSession, fun _ => ?_⟩,
      fun service x => Conn.share_congr rfl (hIs.trans hDaemon.symm) hSub hPat⟩
    · have hKeyed := hSound.keyed hDaemon
      refine ⟨hSub ▸ hKeyed.subTab, hPat ▸ hKeyed.patTab, fun x hx => ?_⟩
      rw [hPre' (hStays x hx), ← hFits.pre (hSound.started hDaemon x (hOwn x ▸ hx))]
      exact hKeyed.keys x (hOwn x ▸ hx)
    · rcases hFits.runs hDaemon with ⟨hRuns, hWas⟩ | hStarts
      · exact .inl ⟨hRuns, by rw [hStarted, hWas, Bool.true_or]⟩
      · exact .inr hStarts
  · rw [Bool.not_eq_true] at hDaemon
    rcases hCase with ⟨hD, hS⟩ | ⟨hOk, hLen, hGob, hD, hS⟩
    · have hNot : s.isDaemon ≠ true := by simp [hD, hDaemon]
      refine ⟨⟨hFresh, fun hIs => absurd hIs hNot, fun hIs => absurd hIs hNot,
        fun hIs => absurd hIs hNot⟩, ⟨hPre', fun hIs => absurd hIs hNot,
        fun hIs => absurd hIs hNot⟩, fun service x => Conn.share_congr rfl hD hSub hPat⟩
    · -- a new daemon session has nothing to share yet
      obtain ⟨hNoSub, hNoPat⟩ := hEmpty hDaemon hLen hGob
      have hZero : ∀ x, s.own x = 0 := by
        intro x
        rw [hOwn, Service.own, hNoSub, hNoPat]
        rfl
      have hNone : ∀ x, ¬ 0 < s.own x := fun x => by simp [hZero]
      refine ⟨⟨hFresh, fun _ => hName, fun _ => ⟨?_, ?_, fun x hx => absurd hx (hNone x)⟩,
        fun _ x hx => absurd hx (hNone x)⟩, ⟨hPre', fun _ => hS, fun _ => ?_⟩, fun service x => ?_⟩
      · show Positive s.subTab
        rw [hSub, hNoSub]
        exact positive_empty
      · show Positive s.patTab
        rw [hPat, hNoPat]
        exact positive_empty
      · cases hRuns : h.networkStarted with
        | true => exact .inl ⟨rfl, by rw [hStarted, hRuns, Bool.or_true]⟩
        | false => exact .inr ⟨rfl, (hUp hOk).resolve_left (by simp [hRuns])⟩
      · rw [Conn.share_of_session hDaemon]
        unfold Conn.share
        split
        · exact hZero x
        · rfl

theorem Net.Shared.respondStarted (hShared : d.Shared) (env : Env) (fd : Fd) (service : Text)
    (status : Int)
    (hPoint : ∀ c, d.conns.find? fd = some c → c.hostName = some service)
    (hUp : status = 0 → d.IsUp service)
    (hEmpty : ∀ c, d.conns.find? fd = some c → c.isDaemon = false → 9 < c.session.length →
      c.session.drop 9 = c.gob → c.subTab = .empty ∧ c.patTab = .empty) :
    (d.respondStarted env fd service status).Shared ∧
      d.SameRefs (d.respondStarted env fd service status) := by
  unfold Net.respondStarted
  split
  · next host c hHost hConn =>
      have hName := hPoint c hConn
      obtain ⟨h, hFind, hFit⟩ := hShared.fits fd c service hConn hName
      obtain rfl := Option.some.inj (hHost.symm.trans hFind)
      obtain ⟨hSound', hFits', hShare'⟩ := Conn.respond_fits { env with gob := c.gob } status
        (hShared.sound fd c hConn) hFit (by simp [hName]) (by
          intro hOk
          obtain ⟨h, hFind, hRuns⟩ := hUp hOk
          obtain rfl := Option.some.inj (hHost.symm.trans hFind)
          exact hRuns) (hEmpty c hConn) rfl
      obtain ⟨hosts, hHosts⟩ : ∃ hosts, (if host.networkStarted && !c.hostStarted then
        d.hosts.insert service { host with activeClients := host.activeClients + 1 }
        else d.hosts) = hosts := ⟨_, rfl⟩
      rw [hHosts]
      have hBase : ({ d with hosts := hosts } : Net).Shared := by
        subst hHosts
        split
        · exact hShared.insert_host hHost rfl fun _ _ _ _ hFit =>
            ⟨hFit.pre, hFit.session, hFit.runs⟩
        · exact hShared
      refine hBase.insert_conn hConn _ hSound' ?_ hShare' rfl fun _ => rfl
      intro name hName'
      obtain rfl : service = name := Option.some.inj (hName.symm.trans hName')
      subst hHosts
      dsimp only
      split
      · exact ⟨_, Table.find?_insert_self _ _ _, hFits'.pre, hFits'.session, hFits'.runs⟩
      · exact ⟨host, hHost, hFits'⟩
  · exact ⟨hShared, fun _ _ => rfl⟩

/-- The connection points at the host that it names. -/
theorem Net.Shared.point (hShared : d.Shared) (fd : Fd) (hHost : d.hosts.find? service = some h)
    (hKept : ∀ c, d.conns.find? fd = some c →
      (c.hostStarted = true → c.hostName = some service) ∧
        (c.isDaemon = true → c.hostName = some service)) :
    ({ d with conns := d.conns.modify fd fun c => { c with hostName := some service } } :
      Net).Shared ∧
      d.SameRefs { d with conns := d.conns.modify fd fun c => { c with hostName := some service } } := by
  cases hConn : d.conns.find? fd with
  | none =>
      rw [Table.modify_of_none _ hConn]
      exact ⟨hShared, fun _ _ => rfl⟩
  | some c =>
      have hSound := hShared.sound fd c hConn
      obtain ⟨hStarted, hDaemon⟩ := hKept c hConn
      refine hShared.insert_conn hConn { c with hostName := some service }
        ⟨hSound.fresh, fun _ => rfl, hSound.keyed, hSound.started⟩ ?_ ?_ ?_ fun _ => rfl
      · rintro name ⟨⟩
        refine ⟨h, hHost, ?_⟩
        by_cases hWas : c.hostName = some service
        · obtain ⟨h, hFind, hFit⟩ := hShared.fits fd c service hConn hWas
          obtain rfl := Option.some.inj (hHost.symm.trans hFind)
          exact ⟨hFit.pre, hFit.session, hFit.runs⟩
        · exact ⟨fun hs => absurd (hStarted hs) hWas, fun hd => absurd (hDaemon hd) hWas,
            fun hd => absurd (hDaemon hd) hWas⟩
      · intro name x
        by_cases hIs : c.isDaemon = true
        · exact Conn.share_congr (hDaemon hIs).symm rfl rfl rfl
        · rw [Bool.not_eq_true] at hIs
          rw [Conn.share_of_session hIs]
          exact Conn.share_of_session hIs
      · exact Table.modify_eq_insert (fun c : Conn => { c with hostName := some service }) hConn

theorem Net.startService_conns (d : Net) (service : Text) (hasPrefix : Bool) :
    (d.startService service hasPrefix).1.conns = d.conns := by
  unfold Net.startService
  split <;> rfl

theorem Net.startService_some (d : Net) (service : Text) (hasPrefix : Bool) :
    ∃ h, (d.startService service hasPrefix).1.hosts.find? service = some h := by
  unfold Net.startService
  split
  · exact ⟨_, Table.find?_insert_self _ _ _⟩
  · next h hHost => exact ⟨h, hHost⟩

theorem Net.Shared.startNetwork (hShared : d.Shared) (fd : Fd) (c : Conn) (info : Info)
    (answers : Answers)
    (hKept : ∀ c, d.conns.find? fd = some c →
      (c.hostStarted = true → c.hostName = some info.serviceName) ∧
        (c.isDaemon = true → c.hostName = some info.serviceName)) :
    (d.startNetwork fd c info answers).1.Shared ∧
      d.SameRefs (d.startNetwork fd c info answers).1 ∧
      ((d.startNetwork fd c info answers).2 = .ok () →
        (d.startNetwork fd c info answers).1.IsUp info.serviceName) := by
  have hConns := d.startService_conns info.serviceName c.hasServicePrefix
  obtain ⟨h, hHost⟩ := d.startService_some info.serviceName c.hasServicePrefix
  obtain ⟨hPoint, hRefs⟩ :=
    (hShared.startService info.serviceName c.hasServicePrefix).point fd hHost (by rwa [hConns])
  have hSame : ∀ name x, (d.startService info.serviceName c.hasServicePrefix).1.refs name x =
      d.refs name x := by
    intro name x
    unfold Net.refs
    rw [hConns]
  unfold Net.startNetwork
  dsimp only
  split
  · exact ⟨hPoint, fun name x => (hRefs name x).trans (hSame name x), by simp⟩
  · obtain ⟨hUp, hRefs', hIs⟩ := hPoint.listenerStartHost ⟨h, hHost⟩ info.network answers
    exact ⟨hUp, fun name x => (hRefs' name x).trans ((hRefs name x).trans (hSame name x)), hIs⟩

def Sent.isStop : Sent → Bool
  | .listenStop _ => true
  | _ => false

/-- The advisories of a connection that are out of its hands at the end of the step. -/
def Service.stops (s : Service) : List Sent := s.sent.filter Sent.isStop

theorem Service.mem_stops {s : Service} {sub : Text} :
    .listenStop sub ∈ s.stops ↔ .listenStop sub ∈ s.sent := by
  simp [Service.stops, Sent.isStop]

theorem Service.stops_eq_nil {s : Service} : s.stops = [] ↔ ∀ sub, .listenStop sub ∉ s.sent := by
  constructor
  · intro h sub hMem
    rw [← Service.mem_stops, h] at hMem
    cases hMem
  · intro h
    rw [Service.stops, List.filter_eq_nil_iff]
    intro out hOut hIs
    cases out <;> first | exact h _ hOut | cases hIs

/-- What a start leaves of a connection. -/
structure Conn.SameFace (c c' : Conn) : Prop where
  isDaemon : c'.isDaemon = c.isDaemon
  session : c'.session = c.session
  gob : c'.gob = c.gob
  subTab : c'.subTab = c.subTab
  patTab : c'.patTab = c.patTab
  stops : c'.stops = c.stops

theorem Conn.SameFace.refl (c : Conn) : c.SameFace c := ⟨rfl, rfl, rfl, rfl, rfl, rfl⟩

theorem Conn.SameFace.trans {c c' c'' : Conn} (h : c.SameFace c') (h' : c'.SameFace c'') :
    c.SameFace c'' :=
  ⟨h'.isDaemon.trans h.isDaemon, h'.session.trans h.session, h'.gob.trans h.gob,
    h'.subTab.trans h.subTab, h'.patTab.trans h.patTab, h'.stops.trans h.stops⟩

theorem sendStart_stops (s : Service) (host : Host) : (sendStart s host).stops = s.stops := by
  simp only [sendStart]
  split <;> split <;> simp [Service.stops, Service.send, Sent.isStop]

theorem Conn.start_face (c : Conn) (host : Host) : c.SameFace (c.start host) := by
  obtain ⟨hDaemon, hSession, hSub, hPat, -⟩ :=
    sendStart_same { c.toService with hostStarted := true } host
  exact ⟨hDaemon, hSession, rfl, hSub, hPat, sendStart_stops _ host⟩

/-- Every connection was there before, with the same face. -/
def Net.SameFaces (d d' : Net) : Prop :=
  ∀ fd c', d'.conns.find? fd = some c' → ∃ c, d.conns.find? fd = some c ∧ c.SameFace c'

theorem Net.SameFaces.refl (d : Net) : d.SameFaces d := fun _ c hConn => ⟨c, hConn, .refl c⟩

theorem Net.SameFaces.trans {d d' d'' : Net} (h : d.SameFaces d') (h' : d'.SameFaces d'') :
    d.SameFaces d'' := by
  intro fd c'' hConn''
  obtain ⟨c', hConn', hFace'⟩ := h' fd c'' hConn''
  obtain ⟨c, hConn, hFace⟩ := h fd c' hConn'
  exact ⟨c, hConn, hFace.trans hFace'⟩

theorem Net.startHost2_faces (d : Net) (service : Text) (delaySecs : Nat) :
    d.SameFaces (d.startHost2 service delaySecs) := by
  unfold Net.startHost2
  split
  · exact .refl d
  · split
    · exact .refl d
    · intro fd c' hConn'
      simp only [Table.find?_map, Option.map_eq_some_iff] at hConn'
      obtain ⟨c, hConn, rfl⟩ := hConn'
      refine ⟨c, hConn, ?_⟩
      split
      · exact c.start_face _
      · exact .refl c

theorem Net.listenerStartHost_faces (d : Net) (service network : Text) (answers : Answers) :
    d.SameFaces (d.listenerStartHost service network answers).1 := by
  unfold Net.listenerStartHost Net.startHost
  split
  · exact .refl d
  · split
    · split
      · exact .refl d
      · dsimp only
        split
        · exact .refl d
        · split
          · exact .refl d
          · exact Net.startHost2_faces _ service answers.delaySecs
    · split <;> exact .refl d

theorem Net.startNetwork_faces (d : Net) (fd : Fd) (c : Conn) (info : Info) (answers : Answers) :
    d.SameFaces (d.startNetwork fd c info answers).1 := by
  have hPoint : ∀ e : Net, e.SameFaces { e with conns := e.conns.modify fd fun c =>
      { c with hostName := some info.serviceName } } := by
    intro e fd' c' hConn'
    simp only [Table.find?_modify, Option.map_eq_some_iff] at hConn'
    obtain ⟨c, hConn, rfl⟩ := hConn'
    refine ⟨c, hConn, ?_⟩
    split
    · exact ⟨rfl, rfl, rfl, rfl, rfl, rfl⟩
    · exact .refl c
  have hService : d.SameFaces (d.startService info.serviceName c.hasServicePrefix).1 := by
    intro fd' c' hConn'
    rw [Net.startService_conns] at hConn'
    exact ⟨c', hConn', .refl c'⟩
  unfold Net.startNetwork
  dsimp only
  split
  · exact hService.trans (hPoint _)
  · exact (hService.trans (hPoint _)).trans (Net.listenerStartHost_faces _ _ _ _)

/-- An `I` message names the session, which a daemon session keeps. -/
theorem Net.Shared.setSession (hShared : d.Shared) (hConn : d.conns.find? fd = some c) (info : Info)
    (hKept : c.isDaemon = true → info.session.getD c.session = c.session) :
    ({ d with conns := d.conns.modify fd fun c => { c with
      session := info.session.getD c.session } } : Net).Shared ∧
      d.SameRefs { d with conns := d.conns.modify fd fun c => { c with
        session := info.session.getD c.session } } := by
  have hSound := hShared.sound fd c hConn
  refine hShared.insert_conn hConn { c with session := info.session.getD c.session }
    ⟨hSound.fresh, hSound.hosted, ?_, hSound.started⟩ ?_ (fun _ _ => rfl) ?_ fun _ => rfl
  · intro hDaemon
    have hKeyed := hSound.keyed hDaemon
    exact ⟨hKeyed.subTab, hKeyed.patTab, hKeyed.keys⟩
  · intro name hName
    obtain ⟨h, hHost, hFit⟩ := hShared.fits fd c name hConn hName
    exact ⟨h, hHost, hFit.pre, fun hDaemon => (hKept hDaemon).trans (hFit.session hDaemon), hFit.runs⟩
  · exact Table.modify_eq_insert
      (fun c : Conn => { c with session := info.session.getD c.session }) hConn

theorem respondStarted_stops (env : Env) (s : Service) (status : Int) (host : Host) :
    (respondStarted env s status host).stops = s.stops := by
  have hReply : (replied s status host).stops = s.stops := by
    unfold replied
    dsimp only
    split
    · simp [Service.stops, Service.send, Sent.isStop]
    · split <;> simp [Service.stops, Service.send, Sent.isStop]
  have hSession : ∀ r : Service, (Daemon.setSession env r host).stops = r.stops := by
    intro r
    unfold Daemon.setSession
    split
    · split <;> rfl
    · rfl
  have hStart : ∀ r : Service, (if r.hostStarted then sendStart r host else r).stops = r.stops := by
    intro r
    split
    · exact sendStart_stops r host
    · rfl
  rw [respondStarted_eq]
  dsimp only
  rw [hStart]
  split
  · rw [hSession, hReply]
  · exact hReply

/-- No advisory of an end is on its way. -/
def Net.Silent (d : Net) : Prop := ∀ fd c, d.conns.find? fd = some c → c.stops = []

theorem Net.SameFaces.silent (hFaces : d.SameFaces d') (hSilent : d.Silent) : d'.Silent := by
  intro fd c' hConn'
  obtain ⟨c, hConn, hFace⟩ := hFaces fd c' hConn'
  exact hFace.stops.trans (hSilent fd c hConn)

theorem Net.Silent.respondStarted (hSilent : d.Silent) (env : Env) (fd : Fd) (service : Text)
    (status : Int) : (d.respondStarted env fd service status).Silent := by
  unfold Net.respondStarted
  split
  · next host c _ hConn =>
      intro fd' c' hConn'
      simp only [Table.find?_insert] at hConn'
      split at hConn'
      · cases hConn'
        exact (respondStarted_stops _ c.toService status host.toHost).trans (hSilent fd c hConn)
      · exact hSilent fd' c' hConn'
  · exact hSilent

theorem Net.Shared.respondInfo (hShared : d.Shared) (hConn : d.conns.find? fd = some c) (info : Info)
    (answers : Answers) (hOrderly : d.Orderly env (.info fd info answers)) :
    (d.respondInfo env fd c info answers).Shared ∧
      d.SameRefs (d.respondInfo env fd c info answers) ∧
      (d.Silent → (d.respondInfo env fd c info answers).Silent) := by
  obtain ⟨hSame, hReads⟩ := hOrderly c hConn
  obtain ⟨hNamed, hRefs⟩ := hShared.setSession hConn info hSame
  obtain ⟨named, hEq⟩ : ∃ e : Net, { d with conns := d.conns.modify fd fun c => { c with
    session := info.session.getD c.session } } = e := ⟨_, rfl⟩
  have hFind : named.conns.find? fd = some { c with session := info.session.getD c.session } := by
    rw [← hEq, Table.find?_modify_self, hConn]
    rfl
  have hFace : d.Silent → named.Silent := by
    intro hSilent fd' c' hConn'
    rw [← hEq] at hConn'
    simp only [Table.find?_modify, Option.map_eq_some_iff] at hConn'
    obtain ⟨y, hy, rfl⟩ := hConn'
    split <;> exact hSilent fd' y hy
  rw [hEq] at hNamed hRefs
  unfold Net.respondInfo
  dsimp only
  rw [hEq]
  split
  · next hReadable =>
      obtain ⟨hStarted, hDaemon, hEmpty⟩ := hReads hReadable
      obtain ⟨hNet, hRefs', hUp⟩ := hNamed.startNetwork fd c info answers (by
        intro y hy
        obtain rfl := Option.some.inj (hFind.symm.trans hy)
        exact ⟨hStarted, hDaemon⟩)
      have hFaces := named.startNetwork_faces fd c info answers
      have hReply := hNet.respondStarted env fd info.serviceName
        (statusCode (named.startNetwork fd c info answers).2)
        (fun y hy => Net.startNetwork_points c info answers hy) (by
          intro hOk
          apply hUp
          cases hStatus : (named.startNetwork fd c info answers).2 with
          | ok => rfl
          | error e =>
              rw [hStatus] at hOk
              cases e <;> cases hOk) (by
          intro y hy hNot hLen hGob
          obtain ⟨z, hz, hSame⟩ := hFaces fd y hy
          obtain rfl := Option.some.inj (hFind.symm.trans hz)
          rw [hSame.session] at hLen hGob
          rw [hSame.gob] at hGob
          rw [hSame.isDaemon] at hNot
          rw [hSame.subTab, hSame.patTab]
          exact hEmpty hNot hLen hGob)
      refine ⟨hReply.1, fun name x => ?_, fun hSilent => ?_⟩
      · exact (hReply.2 name x).trans ((hRefs' name x).trans (hRefs name x))
      · exact (hFaces.silent (hFace hSilent)).respondStarted env fd _ _
  · exact ⟨hNamed, hRefs, hFace⟩

theorem Net.load_host {c : Conn} (hName : c.hostName = some service)
    (hHost : d.hosts.find? service = some h) : (d.load c).host = some h.toHost := by
  simp [Net.load, hName, hHost]

/-- A call that leaves the host of the connection as it is. -/
theorem Net.store_hosts (fd : Fd) {s : Service} (hSame : s.host = (d.load c).host) (name : Text) :
    (d.store fd c s).hosts.find? name = d.hosts.find? name := by
  simp only [Net.store]
  split
  · next service host hName hHost =>
      rw [Table.find?_modify]
      cases hFind : d.hosts.find? name with
      | none => rfl
      | some h =>
          by_cases hEq : name = service
          · subst hEq
            rw [hSame, Net.load_host hName hFind, Option.some.injEq] at hHost
            simp [← hHost]
          · simp [hEq]
  · rfl

/-- The host of the connection after a call. -/
theorem Net.store_host (fd : Fd) {s : Service} {host : Host} (hName : c.hostName = some service)
    (hHost : d.hosts.find? service = some h) (hHost' : s.host = some host) (name : Text) :
    (d.store fd c s).hosts.find? name =
      if name = service then some { h with toHost := host } else d.hosts.find? name := by
  simp only [Net.store, hName, hHost', Table.find?_modify]
  split
  · next hEq =>
      subst hEq
      simp [hHost]
  · next hNe => simp

theorem Service.Keyed.withHost {s : Service} (hKeyed : s.Keyed) (host : Option Host) :
    Service.Keyed { s with host := host } :=
  ⟨hKeyed.subTab, hKeyed.patTab, hKeyed.keys⟩

/-- The connection after a call that changes no more than its subjects. -/
theorem Conn.fits_of_fixed {s : Service} {host : Host} (hFits : c.Fits h)
    (hFixed : (d.load c).Fixed s) (hLoad : (d.load c).host = some h.toHost)
    (hHost' : s.host = some host) :
    Conn.Fits { c with toService := { s with host := none } } { h with toHost := host } ∧
      ∀ y : Conn, y.Fits h → y.Fits { h with toHost := host } := by
  have hRuns := hFixed.networkStarted
  have hService := hFixed.service
  have hDaemonId := hFixed.daemonId
  simp only [hHost', hLoad, Option.map_some, Option.some.injEq] at hRuns hService hDaemonId
  have hOthers : ∀ y : Conn, y.Fits h → y.Fits { h with toHost := host } := by
    intro y hy
    refine ⟨fun hs => ?_, fun hd => ?_, fun hd => ?_⟩
    · rw [hService]
      exact hy.pre hs
    · rw [hDaemonId]
      exact hy.session hd
    · rw [hRuns]
      exact hy.runs hd
  refine ⟨?_, hOthers⟩
  have hOwn := hOthers c hFits
  refine ⟨fun hs => hFixed.pre.trans (hOwn.pre (hFixed.hostStarted ▸ hs)), fun hd =>
    hFixed.session.trans (hOwn.session (hFixed.isDaemon ▸ hd)), fun hd => ?_⟩
  have hStarted : s.hostStarted = c.hostStarted := hFixed.hostStarted
  rw [show ({ c with toService := { s with host := none } } : Conn).hostStarted = c.hostStarted
    from hStarted]
  exact hOwn.runs (hFixed.isDaemon ▸ hd)

/-- A call of a session of its own. -/
theorem Net.Shared.callSession (hShared : d.Shared) (hConn : d.conns.find? fd = some c)
    (hDaemon : c.isDaemon = false) {s : Service} (hFixed : (d.load c).Fixed s)
    (hHost : s.host = (d.load c).host) : (d.store fd c s).Shared ∧ d.SameRefs (d.store fd c s) := by
  have hSound := hShared.sound fd c hConn
  have hNot : s.isDaemon = false := hFixed.isDaemon.trans hDaemon
  have hIsNot : s.isDaemon ≠ true := by simp [hNot]
  refine hShared.insert_conn hConn { c with toService := { s with host := none } }
    ⟨fun hs => hFixed.pre.trans (hSound.fresh (hFixed.hostStarted ▸ hs)),
      fun hd => absurd hd hIsNot, fun hd => absurd hd hIsNot, fun hd => absurd hd hIsNot⟩
    ?_ ?_ rfl fun name => Net.store_hosts fd hHost name
  · intro name hName
    obtain ⟨h, hFind, hFit⟩ := hShared.fits fd c name hConn hName
    exact ⟨h, hFind, fun hs => hFixed.pre.trans (hFit.pre (hFixed.hostStarted ▸ hs)),
      fun hd => absurd hd hIsNot, fun hd => absurd hd hIsNot⟩
  · intro name x
    rw [Conn.share_of_session hDaemon]
    exact Conn.share_of_session hNot

/-- A call of a daemon session, which moves its references and those of the host. -/
theorem Net.Shared.callDaemon (hShared : d.Shared) (hConn : d.conns.find? fd = some c)
    (hDaemon : c.isDaemon = true) (hName : c.hostName = some service)
    (hHost : d.hosts.find? service = some h) {s : Service} {host : Host}
    (hFixed : (d.load c).Fixed s) (hHost' : s.host = some host) (hKeyed : s.Keyed)
    (hStarted : ∀ x, 0 < s.own x → c.hostStarted = true) (hPos : Positive host.subMap)
    (hCount : ∀ x, refcnt host.subMap x + c.own x = refcnt h.subMap x + s.own x) :
    (d.store fd c s).Shared := by
  have hSound := hShared.sound fd c hConn
  obtain ⟨h₀, hFind, hFit⟩ := hShared.fits fd c service hConn hName
  obtain rfl := Option.some.inj (hHost.symm.trans hFind)
  obtain ⟨hFits', hOthers⟩ := Conn.fits_of_fixed hFit hFixed (Net.load_host hName hHost) hHost'
  have hIs : s.isDaemon = true := hFixed.isDaemon.trans hDaemon
  refine hShared.update hConn hName hHost { c with toService := { s with host := none } } hName
    ⟨fun hs => hFixed.pre.trans (hSound.fresh (hFixed.hostStarted ▸ hs)), fun _ => by simp [hName],
      fun _ => hKeyed.withHost none, fun _ x hx => ?_⟩
    hFits' hOthers hPos (fun x => ?_) rfl fun name => Net.store_host fd hName hHost hHost' name
  · exact hFixed.hostStarted.trans (hStarted x hx)
  · rw [Conn.share_of_daemon hName hDaemon]
    have hShare : Conn.share { c with toService := { s with host := none } } service x = s.own x :=
      Conn.share_of_daemon hName hIs
    rw [hShare]
    exact hCount x

theorem Net.Shared.own_le_refcnt (hShared : d.Shared) (hConn : d.conns.find? fd = some c)
    (hDaemon : c.isDaemon = true) (hName : c.hostName = some service)
    (hHost : d.hosts.find? service = some h) (x : Text) : c.own x ≤ refcnt h.subMap x := by
  rw [hShared.refs service h x hHost, ← Conn.share_of_daemon hName hDaemon]
  exact Net.share_le_refs hConn service x

theorem Service.Gains.keyed {s s' : Service} {sub : Text} (hGains : s.Gains s' (s.pre ++ sub))
    (hKeyed : s.Keyed) (hSub : sub ≠ []) (hPre : s'.pre = s.pre) : s'.Keyed := by
  obtain ⟨hPosSub, hPosPat, hOwn⟩ := hGains
  refine ⟨hPosSub, hPosPat, fun x hx => ?_⟩
  rw [hPre]
  by_cases hEq : x = s.pre ++ sub
  · exact ⟨sub, hSub, hEq⟩
  · rw [hOwn, if_neg hEq, Nat.add_zero] at hx
    exact hKeyed.keys x hx

theorem Service.Loses.keyed {s s' : Service} {x : Text} (hLoses : s.Loses s' x) (hKeyed : s.Keyed)
    (hPre : s'.pre = s.pre) : s'.Keyed := by
  obtain ⟨hPosSub, hPosPat, hOwn⟩ := hLoses
  refine ⟨hPosSub, hPosPat, fun y hy => ?_⟩
  rw [hPre]
  exact hKeyed.keys y (by rw [hOwn]; omega)

/-- A call that comes to nothing. -/
theorem Net.Shared.callNothing (hShared : d.Shared) (hConn : d.conns.find? fd = some c)
    (hDaemon : c.isDaemon = true) (hName : c.hostName = some service)
    (hHost : d.hosts.find? service = some h) :
    (d.store fd c (d.load c)).Shared ∧ d.SameRefs (d.store fd c (d.load c)) := by
  have hSound := hShared.sound fd c hConn
  have hNext := hShared.callDaemon hConn hDaemon hName hHost (.refl _) (Net.load_host hName hHost)
    ((hSound.keyed hDaemon).withHost _) (hSound.started hDaemon) (hShared.positive service h hHost)
    fun _ => rfl
  refine ⟨hNext, fun name x => ?_⟩
  have hInsert := Net.refs_insert (d.store fd c (d.load c)).hosts hConn
    { c with toService := { d.load c with host := none } } name x
  have hShare : Conn.share { c with toService := { d.load c with host := none } } name x =
      c.share name x := Conn.share_congr rfl rfl rfl rfl
  rw [hShare] at hInsert
  exact Nat.add_right_cancel hInsert

/-- The references after a call of a daemon session. -/
theorem Net.refs_call (hConn : d.conns.find? fd = some c) (hDaemon : c.isDaemon = true)
    (hName : c.hostName = some service) {s : Service} (hFixed : (d.load c).Fixed s) (name x : Text) :
    (d.store fd c s).refs name x + (if name = service then c.own x else 0) =
      d.refs name x + if name = service then s.own x else 0 := by
  have hInsert : (d.store fd c s).refs name x + c.share name x = d.refs name x +
      Conn.share { c with toService := { s with host := none } } name x :=
    Net.refs_insert _ hConn _ name x
  have hIs : s.isDaemon = true := hFixed.isDaemon.trans hDaemon
  split
  · next hEq =>
      subst hEq
      have hShare : Conn.share { c with toService := { s with host := none } } name x = s.own x :=
        Conn.share_of_daemon hName hIs
      rwa [Conn.share_of_daemon hName hDaemon, hShare] at hInsert
  · next hNe =>
      have hShare : Conn.share { c with toService := { s with host := none } } name x = 0 :=
        Conn.share_of_ne hName hNe
      rwa [Conn.share_of_ne hName hNe, hShare] at hInsert

theorem Net.Shared.listen (hShared : d.Shared) (hConn : d.conns.find? fd = some c) (m : Envelope)
    (hOrderly : d.Orderly env (.listen fd m)) {s : Service} (hAdd : addSub env (d.load c) m = .ok s) :
    (d.store fd c s).Shared ∧ (∀ service x, d.refs service x ≤ (d.store fd c s).refs service x) ∧
      (c.stops = [] → s.stops = []) := by
  have hFixed := addSub_fixed hAdd
  have hSound := hShared.sound fd c hConn
  cases hDaemon : c.isDaemon with
  | false =>
      obtain ⟨hHost, hStops⟩ := addSub_session (s := d.load c) hDaemon hAdd
      obtain ⟨hNext, hRefs⟩ := hShared.callSession hConn hDaemon hFixed hHost
      refine ⟨hNext, fun service x => (hRefs service x).ge, fun hNone => ?_⟩
      rw [Service.stops_eq_nil] at hNone ⊢
      exact fun sub hMem => hNone sub (hStops sub hMem)
  | true =>
      obtain ⟨service, hName⟩ := Option.isSome_iff_exists.mp (hSound.hosted hDaemon)
      obtain ⟨h, hHost, -⟩ := hShared.fits fd c service hConn hName
      obtain ⟨hStarted, hSub, hCompiles, hBound⟩ := hOrderly c service hConn hDaemon hName
      have hKeyed := hSound.keyed hDaemon
      have hLoad := Net.load_host hName hHost
      have hMap := hShared.refs service h (c.pre ++ m.sub) hHost
      have hOwn := hShared.own_le_refcnt hConn hDaemon hName hHost (c.pre ++ m.sub)
      have hBoundOwn : (d.load c).own ((d.load c).pre ++ m.sub) + 1 < 2 ^ 32 := by
        show c.own (c.pre ++ m.sub) + 1 < 2 ^ 32
        omega
      rcases addSub_daemon (s := d.load c) hDaemon hLoad hKeyed.subTab hKeyed.patTab hBoundOwn
        hCompiles hAdd with rfl | ⟨hGains, hHost', hStops⟩
      · obtain ⟨hNext, hRefs⟩ := hShared.callNothing hConn hDaemon hName hHost
        exact ⟨hNext, fun name x => (hRefs name x).ge, id⟩
      · obtain ⟨hPos, hCount⟩ := Host.addRef_refcnt (x := c.pre ++ m.sub)
          (hShared.positive service h hHost) (by omega)
        have hOwn' : ∀ y, s.own y = c.own y + if y = c.pre ++ m.sub then 1 else 0 := hGains.2.2
        refine ⟨hShared.callDaemon hConn hDaemon hName hHost hFixed hHost'
          (hGains.keyed (hKeyed.withHost _) hSub hFixed.pre) (fun _ _ => hStarted) hPos ?_, ?_, ?_⟩
        · intro y
          have hAt : refcnt (h.toHost.addRef (c.pre ++ m.sub)).1.subMap y = _ := hCount y
          have hRef : refcnt (h.toHost.addRef ((d.load c).pre ++ m.sub)).1.subMap y =
              refcnt h.subMap y + if y = c.pre ++ m.sub then 1 else 0 := hAt
          rw [hRef, hOwn']
          omega
        · intro name y
          have hRefs := Net.refs_call hConn hDaemon hName hFixed name y
          have hMore := hOwn' y
          split at hRefs <;> omega
        · intro hNone
          rw [Service.stops_eq_nil] at hNone ⊢
          exact fun sub hMem => hNone sub (hStops sub hMem)

/-- The advisory of an end goes out with the last reference of the subject. -/
def Net.StopsLast (d d' : Net) (c : Conn) (s : Service) : Prop :=
  ∀ service h sub, d.hosts.find? service = some h →
    (c.shares service = true ∧ .listenStop sub ∈ s.sent ↔
      0 < d.refs service (h.service.getD [] ++ sub) ∧ d'.refs service (h.service.getD [] ++ sub) = 0)

/-- Nothing ends, and nothing is announced. -/
theorem Net.SameRefs.stopsLast {s : Service} (hRefs : d.SameRefs d')
    (hSilent : ∀ service, c.shares service = true → s.stops = []) : d.StopsLast d' c s := by
  intro service h sub _
  rw [hRefs]
  constructor
  · rintro ⟨hShares, hMem⟩
    exact absurd hMem (Service.stops_eq_nil.mp (hSilent service hShares) sub)
  · rintro ⟨hPos, hZero⟩
    omega

theorem Net.Shared.cancel (hShared : d.Shared) (hConn : d.conns.find? fd = some c) (m : Envelope)
    (hSent : c.sent = []) {s : Service} (hRem : remSub env (d.load c) m = .ok s) :
    (d.store fd c s).Shared ∧ d.StopsLast (d.store fd c s) c s := by
  have hFixed := remSub_fixed hRem
  have hSound := hShared.sound fd c hConn
  cases hDaemon : c.isDaemon with
  | false =>
      have hHost := remSub_session (s := d.load c) hDaemon hRem
      obtain ⟨hNext, hRefs⟩ := hShared.callSession hConn hDaemon hFixed hHost
      refine ⟨hNext, hRefs.stopsLast fun service hShares => ?_⟩
      rw [Conn.shares_iff, hDaemon] at hShares
      cases hShares.2
  | true =>
      obtain ⟨service, hName⟩ := Option.isSome_iff_exists.mp (hSound.hosted hDaemon)
      obtain ⟨h, hHost, hFit⟩ := hShared.fits fd c service hConn hName
      have hKeyed := hSound.keyed hDaemon
      have hLoad := Net.load_host hName hHost
      rcases remSub_daemon (s := d.load c) hDaemon hLoad hKeyed.subTab hKeyed.patTab hRem with
        rfl | ⟨hLoses, hHost', hStops⟩
      · obtain ⟨hNext, hRefs⟩ := hShared.callNothing hConn hDaemon hName hHost
        refine ⟨hNext, hRefs.stopsLast fun _ _ => ?_⟩
        show c.stops = []
        rw [Service.stops, hSent]
        rfl
      · have hOwn : ∀ y, c.own y = s.own y + if y = c.pre ++ m.sub then 1 else 0 := hLoses.2.2
        have hTaken : Taken h.subMap (h.toHost.remRefs ((d.load c).pre ++ m.sub) 1).1.subMap
            (c.pre ++ m.sub) 1 ∧ ((h.toHost.remRefs ((d.load c).pre ++ m.sub) 1).2 = 0 ↔
              refcnt h.subMap (c.pre ++ m.sub) ≤ 1) :=
          Host.remRefs_taken (hShared.positive service h hHost) 1
        obtain ⟨⟨hPos, hCount⟩, hLast⟩ := hTaken
        have hLe := hShared.own_le_refcnt hConn hDaemon hName hHost
        refine ⟨hShared.callDaemon hConn hDaemon hName hHost hFixed hHost'
          (hLoses.keyed (hKeyed.withHost _) hFixed.pre) (fun x hx => ?_) hPos fun y => ?_, ?_⟩
        · exact hSound.started hDaemon x (by rw [hOwn]; omega)
        · have hLeY := hLe y
          have hOwnY := hOwn y
          rw [hCount]
          split at hOwnY
          · next hEq =>
              rw [if_pos hEq]
              omega
          · next hNe =>
              rw [if_neg hNe]
              omega
        · intro name host sub hFind
          have hRefs := Net.refs_call hConn hDaemon hName hFixed name (host.service.getD [] ++ sub)
          have hOwnX := hOwn (host.service.getD [] ++ sub)
          rw [hStops, show (d.load c).sent = [] from hSent, List.nil_append, Conn.shares_iff, hName,
            Option.some.injEq]
          by_cases hEq : service = name
          · subst hEq
            obtain rfl := Option.some.inj (hHost.symm.trans hFind)
            have hMap := hShared.refs service h (h.service.getD [] ++ sub) hHost
            have hPre : c.pre = h.service.getD [] := by
              apply hFit.pre
              exact hSound.started hDaemon (c.pre ++ m.sub) (by rw [hOwn, if_pos rfl]; omega)
            rw [if_pos rfl, if_pos rfl] at hRefs
            have hLeX := hLe (h.service.getD [] ++ sub)
            by_cases hSub : sub = m.sub
            · rw [hPre, hSub, if_pos rfl] at hOwnX
              rw [hPre] at hLast
              subst hSub
              rw [hMap] at hLast
              split
              · next hZero =>
                  have hOne := hLast.mp hZero
                  exact iff_of_true ⟨⟨rfl, hDaemon⟩, List.mem_singleton_self _⟩ ⟨by omega, by omega⟩
              · next hZero =>
                  have hMany : ¬ d.refs service (h.service.getD [] ++ m.sub) ≤ 1 := fun hOne =>
                    hZero (hLast.mpr hOne)
                  simp only [List.not_mem_nil, and_false, false_iff]
                  omega
            · rw [hPre, if_neg fun hSame => hSub (List.append_cancel_left hSame)] at hOwnX
              constructor
              · rintro ⟨-, hMem⟩
                split at hMem
                · rw [List.mem_singleton, Sent.listenStop.injEq] at hMem
                  exact absurd hMem hSub
                · cases hMem
              · rintro ⟨hPosRefs, hZeroRefs⟩
                omega
          · rw [if_neg (Ne.symm hEq), if_neg (Ne.symm hEq)] at hRefs
            constructor
            · rintro ⟨⟨hSame, -⟩, -⟩
              exact absurd hSame hEq
            · rintro ⟨hPosRefs, hZeroRefs⟩
              omega

/-- A connection is gone, and its references with it. -/
theorem Net.Shared.leave (hShared : d.Shared) (hConn : d.conns.find? fd = some c)
    (hName : c.hostName = some service) (hHost : d.hosts.find? service = some h) (h' : RvHost)
    (hOthers : ∀ fd' y, fd' ≠ fd → d.conns.find? fd' = some y → y.hostName = some service →
      y.Fits h → y.Fits h') (hPos : Positive h'.subMap)
    (hCount : ∀ x, refcnt h'.subMap x + c.share service x = refcnt h.subMap x)
    (hConns : d'.conns = d.conns.erase fd)
    (hHosts : ∀ name, d'.hosts.find? name = if name = service then some h' else d.hosts.find? name) :
    d'.Shared where
  sound := by
    intro fd' y hy
    rw [hConns, Table.find?_erase] at hy
    split at hy
    · cases hy
    · exact hShared.sound fd' y hy
  fits := by
    intro fd' y name hy hNameY
    rw [hConns, Table.find?_erase] at hy
    rw [hHosts]
    split at hy
    · cases hy
    · next hFd =>
        obtain ⟨host, hFind, hFit⟩ := hShared.fits fd' y name hy hNameY
        split
        · next hEq =>
            subst hEq
            obtain rfl := Option.some.inj (hHost.symm.trans hFind)
            exact ⟨h', rfl, hOthers fd' y hFd hy hNameY hFit⟩
        · exact ⟨host, hFind, hFit⟩
  positive := by
    intro name host hFind
    rw [hHosts] at hFind
    split at hFind
    · cases hFind
      exact hPos
    · exact hShared.positive name host hFind
  refs := by
    intro name host x hFind
    have hErase := Net.refs_erase d'.hosts hConn name x
    rw [← hConns] at hErase
    have hErase : d'.refs name x + c.share name x = d.refs name x := hErase
    rw [hHosts] at hFind
    split at hFind
    · next hEq =>
        cases hFind
        subst hEq
        have hWas := hShared.refs name h x hHost
        have hNow := hCount x
        omega
    · next hNe =>
        rw [Conn.share_of_ne hName hNe] at hErase
        rw [hShared.refs name host x hFind]
        omega

/-- A connection that shares nothing is gone. -/
theorem Net.Shared.erase (hShared : d.Shared) (hConn : d.conns.find? fd = some c)
    (hShare : ∀ service x, c.share service x = 0) :
    (d.remove fd).Shared ∧ d.SameRefs (d.remove fd) := by
  have hRefs : d.SameRefs (d.remove fd) := by
    intro service x
    have hErase : (d.remove fd).refs service x + c.share service x = d.refs service x :=
      Net.refs_erase d.hosts hConn service x
    rwa [hShare, Nat.add_zero] at hErase
  refine ⟨⟨?_, ?_, hShared.positive, ?_⟩, hRefs⟩
  · intro fd' y hy
    rw [Net.remove, Table.find?_erase] at hy
    split at hy
    · cases hy
    · exact hShared.sound fd' y hy
  · intro fd' y name hy hName
    rw [Net.remove, Table.find?_erase] at hy
    split at hy
    · cases hy
    · exact hShared.fits fd' y name hy hName
  · intro name host x hFind
    rw [hRefs]
    exact hShared.refs name host x hFind

/-- All that has been sent has gone out. -/
def Net.Quiet (d : Net) : Prop := ∀ fd c, d.conns.find? fd = some c → c.sent = []

theorem Net.quiet_flush (d : Net) : d.flush.1.Quiet := by
  intro fd c hConn
  simp only [Net.flush, Table.find?_map, Option.map_eq_some_iff] at hConn
  obtain ⟨y, -, rfl⟩ := hConn
  rfl

theorem Net.Quiet.silent (hQuiet : d.Quiet) : d.Silent := by
  intro fd c hConn
  rw [Service.stops, hQuiet fd c hConn]
  rfl

/-- The other connections at the end of one. -/
theorem Net.Quiet.erase_flush (hQuiet : d.Quiet) (hConn : d.conns.find? fd = some c) (s : Service) :
    (d.store fd c s).flush.1.conns.erase fd = d.conns.erase fd := by
  simp only [Net.flush, Net.store]
  rw [Table.insert_of_found _ (by simp [hConn]), Table.erase_map, Table.erase_modify]
  apply Table.map_of_fixed
  intro fd' y hy
  rw [Table.find?_erase] at hy
  split at hy
  · cases hy
  · rw [← hQuiet fd' y hy]

/-- The host after a connection has left it. -/
theorem Net.leaveHost_host (hHost : d.hosts.find? service = some h) (hRuns : h.networkStarted = true) :
    ∃ h', (∀ name, (d.leaveHost service).1.hosts.find? name =
        if name = service then some h' else d.hosts.find? name) ∧
      h'.subMap = h.subMap ∧ h'.service = h.service ∧ h'.daemonId = h.daemonId ∧
      (h.activeClients - 1 ≠ 0 → h'.networkStarted = true) := by
  unfold Net.leaveHost RvHost.stopNetwork
  simp only [hHost, hRuns, if_true]
  by_cases hLast : h.activeClients - 1 = 0
  · simp only [hLast, if_true]
    refine ⟨_, fun name => Table.find?_insert _ _ _ _, ?_, ?_, ?_, fun hNot => absurd rfl hNot⟩
    all_goals
      unfold RvHost.stopHost
      split <;> rfl
  · simp only [hLast, if_false]
    exact ⟨_, fun name => Table.find?_insert _ _ _ _, rfl, rfl, rfl, fun _ => hRuns⟩

theorem remAllSub_session {s : Service} (quit : Bool) (hDaemon : s.isDaemon = false) :
    (remAllSub quit s).host = s.host := by
  have hTurn : ∀ (r : Service) (e : Text × BitVec 32), r.isDaemon = false →
      (stopSub r e).host = r.host ∧ (stopSub r e).isDaemon = false := by
    intro r e hNot
    refine ⟨?_, (stopSub_fixed r e).isDaemon.trans hNot⟩
    unfold stopSub
    split
    · split
      · rfl
      · next host hHost => simp [hNot, Service.send, Service.setHost, hHost]
    · rfl
  unfold remAllSub
  split
  · generalize s.subTab.entries ++ s.patTab.entries = entries
    clear * - hTurn hDaemon
    induction entries generalizing s with
    | nil => rfl
    | cons e rest ih =>
        obtain ⟨hHost, hNot⟩ := hTurn s e hDaemon
        rw [List.foldl_cons, ih hNot, hHost]
  · rfl

theorem Service.Keyed.prefixed {s : Service} (hKeyed : s.Keyed) :
    Prefixed s.pre (s.subTab.entries ++ s.patTab.entries) := by
  intro e he
  rcases List.mem_append.mp he with hSub | hPat
  · have hFind := Table.find?_eq_some.mpr hSub
    exact ⟨hKeyed.subTab e.1 e.2 hFind, hKeyed.keys e.1 (Service.own_pos_of_sub hKeyed.subTab hFind)⟩
  · have hFind := Table.find?_eq_some.mpr hPat
    exact ⟨hKeyed.patTab e.1 e.2 hFind, hKeyed.keys e.1 (Service.own_pos_of_pat hKeyed.patTab hFind)⟩

/-- The end of a daemon session takes its references off its host. -/
theorem remAllSub_daemon {s : Service} {host : Host} (hDaemon : s.isDaemon = true)
    (hHost : s.host = some host) (hPos : Positive host.subMap) (hKeyed : s.Keyed)
    (hLe : ∀ x, s.own x ≤ refcnt host.subMap x) :
    ∃ host', (remAllSub false s).host = some host' ∧ Positive host'.subMap ∧
      (∀ x, refcnt host'.subMap x + s.own x = refcnt host.subMap x) ∧
      ∀ sub, .listenStop sub ∈ (remAllSub false s).sent ↔ .listenStop sub ∈ s.sent ∨
        0 < s.own (s.pre ++ sub) ∧ refcnt host'.subMap (s.pre ++ sub) = 0 := by
  have hListed : ∀ x, listed (s.subTab.entries ++ s.patTab.entries) x = s.own x := by
    intro x
    rw [listed_append, listed_entries, listed_entries]
    rfl
  obtain ⟨host', hStopped⟩ := foldl_stopSub hDaemon hHost hPos hKeyed.prefixed
    (fun x => by rw [hListed]; exact hLe x)
  have hAll : remAllSub false s = (s.subTab.entries ++ s.patTab.entries).foldl stopSub s := by
    simp [remAllSub, hHost]
  refine ⟨host', hAll ▸ hStopped.toHost, hStopped.positive, fun x => ?_, fun sub => ?_⟩
  · have hCount := hStopped.count x
    have hLeX := hLe x
    rw [hListed] at hCount
    omega
  · rw [hAll, hStopped.sent, hListed]

/-- A client that is not alone leaves a host that has more. -/
theorem Net.Counted.active_more (hCounted : d.Counted) (hHost : d.hosts.find? service = some h)
    {fd' : Fd} {y : Conn} (hNe : fd' ≠ fd) (hConn : d.conns.find? fd = some c)
    (hClient : c.isClient service = true) (hOther : d.conns.find? fd' = some y)
    (hClient' : y.isClient service = true) : h.activeClients - 1 ≠ 0 := by
  have hErase := Net.clients_erase service hConn
  have hThere : (d.remove fd).conns.find? fd' = some y := by
    rw [Net.remove, Table.find?_erase_ne _ hNe]
    exact hOther
  have hRest := Net.clients_pos hThere hClient'
  rw [hClient, Bool.toNat_true] at hErase
  have hLt := d.clients_lt service
  rw [hCounted.active service h hHost, ofNat_sub_one (by omega)]
  intro hZero
  have hNat := congrArg BitVec.toNat hZero
  rw [BitVec.toNat_ofNat, Nat.mod_eq_of_lt (by omega)] at hNat
  replace hNat : d.clients service - 1 = 0 := hNat
  omega

/-- The references of a connection when it ends. -/
theorem Net.Shared.stopped (hShared : d.Shared) (hConn : d.conns.find? fd = some c)
    (hName : c.hostName = some service) (hHost : d.hosts.find? service = some h) {quit : Bool}
    (hQuit : c.isDaemon = true → quit = false) :
    ∃ host', (remAllSub quit (d.load c)).host = some host' ∧ Positive host'.subMap ∧
      (∀ x, refcnt host'.subMap x + c.share service x = refcnt h.subMap x) ∧
      (c.isDaemon = true → ∀ sub, .listenStop sub ∈ (remAllSub quit (d.load c)).sent ↔
        .listenStop sub ∈ c.sent ∨ 0 < c.own (c.pre ++ sub) ∧
          refcnt host'.subMap (c.pre ++ sub) = 0) := by
  have hLoad := Net.load_host hName hHost
  cases hDaemon : c.isDaemon with
  | false =>
      refine ⟨h.toHost, (remAllSub_session (s := d.load c) quit hDaemon).trans hLoad,
        hShared.positive service h hHost, fun x => ?_, fun hIs => by cases hIs⟩
      rw [Conn.share_of_session hDaemon, Nat.add_zero]
  | true =>
      obtain rfl := hQuit hDaemon
      have hKeyed := (hShared.sound fd c hConn).keyed hDaemon
      obtain ⟨host', hHost', hPos, hCount, hSent⟩ := remAllSub_daemon (s := d.load c) hDaemon hLoad
        (hShared.positive service h hHost) (hKeyed.withHost _)
        (hShared.own_le_refcnt hConn hDaemon hName hHost)
      refine ⟨host', hHost', hPos, fun x => ?_, fun _ => hSent⟩
      rw [Conn.share_of_daemon hName hDaemon]
      exact hCount x

theorem Net.Shared.close (hShared : d.Shared) (hCounted : d.Counted) (hQuiet : d.Quiet)
    (hConn : d.conns.find? fd = some c) (hStarted : c.hostStarted = true)
    (hName : c.hostName = some service) {quit : Bool} (hQuit : c.isDaemon = true → quit = false)
    (hNext : ((d.store fd c (remAllSub quit (d.load c))).flush.1.leaveHost service).1.remove fd = d') :
    d'.Shared ∧ d.StopsLast d' c (remAllSub quit (d.load c)) := by
  obtain ⟨name, h, hName', hHost, hRuns⟩ := hCounted.runs fd c hConn hStarted
  obtain rfl : service = name := Option.some.inj (hName.symm.trans hName')
  obtain ⟨host', hHost', hPos, hCount, hSent⟩ := hShared.stopped hConn hName hHost hQuit
  have hFixed := remAllSub_fixed quit (d.load c)
  obtain ⟨h₀, hFind, hFit⟩ := hShared.fits fd c service hConn hName
  obtain rfl := Option.some.inj (hHost.symm.trans hFind)
  obtain ⟨-, hOthers⟩ := Conn.fits_of_fixed hFit hFixed (Net.load_host hName hHost) hHost'
  have hRuns' : host'.networkStarted = true := by
    have hSame := hFixed.networkStarted
    simp only [hHost', Net.load_host hName hHost, Option.map_some, Option.some.injEq] at hSame
    exact hSame.trans hRuns
  have hStored : ∀ name, (d.store fd c (remAllSub quit (d.load c))).flush.1.hosts.find? name =
      if name = service then some { h with toHost := host' } else d.hosts.find? name :=
    fun name => Net.store_host fd hName hHost hHost' name
  obtain ⟨h', hHosts, hMap, hService, hDaemonId, hStays⟩ :=
    Net.leaveHost_host ((hStored service).trans (if_pos rfl)) hRuns'
  have hConns : d'.conns = d.conns.erase fd := by
    rw [← hNext, Net.remove, Net.leaveHost_conns]
    exact hQuiet.erase_flush hConn _
  have hClient : c.isClient service = true := Conn.isClient_iff.mpr ⟨hName, hStarted⟩
  have hRefs : ∀ name x, d'.refs name x + c.share name x = d.refs name x := by
    intro name x
    have hErase := Net.refs_erase d'.hosts hConn name x
    rwa [← hConns] at hErase
  have hEnd : d'.Shared := by
    refine hShared.leave hConn hName hHost h' ?_ (hMap ▸ hPos) (by rw [hMap]; exact hCount) hConns ?_
    · intro fd' y hNe hy hNameY hFitY
      have hMid := hOthers y hFitY
      refine ⟨fun hs => (hMid.pre hs).trans (by rw [hService]),
        fun hd => (hMid.session hd).trans hDaemonId.symm, fun hd => ?_⟩
      rcases hMid.runs hd with ⟨-, hStartedY⟩ | ⟨hNot, -⟩
      · have hMore := hCounted.active_more hHost hNe hConn hClient hy
          (Conn.isClient_iff.mpr ⟨hNameY, hStartedY⟩)
        exact .inl ⟨hStays hMore, hStartedY⟩
      · rw [show ({ h with toHost := host' } : RvHost).networkStarted = true from hRuns'] at hNot
        cases hNot
    · intro name
      rw [← hNext]
      refine (hHosts name).trans ?_
      split
      · rfl
      · next hNe => exact (hStored name).trans (if_neg hNe)
  refine ⟨hEnd, fun name host sub hFindName => ?_⟩
  have hRefsX := hRefs name (host.service.getD [] ++ sub)
  by_cases hShares : c.shares name = true
  · obtain ⟨hAt, hDaemon⟩ := Conn.shares_iff.mp hShares
    obtain rfl : service = name := Option.some.inj (hName.symm.trans hAt)
    obtain rfl := Option.some.inj (hHost.symm.trans hFindName)
    have hCountX := hCount (h.service.getD [] ++ sub)
    rw [hShared.refs service h _ hHost] at hCountX
    rw [Conn.share_of_daemon hName hDaemon] at hRefsX hCountX
    rw [hSent hDaemon sub, hQuiet fd c hConn, hFit.pre hStarted]
    simp only [hShares, true_and, List.not_mem_nil, false_or]
    omega
  · have hNone : c.share name (host.service.getD [] ++ sub) = 0 := if_neg hShares
    rw [hNone, Nat.add_zero] at hRefsX
    simp only [hShares, Bool.false_eq_true, false_and, false_iff]
    omega

/-- The daemon sessions of a host announce the end of a subject with its last
reference; restricted subjects are not announced. -/
def Net.Announces (d d' : Net) (emitted : List Output) : Prop :=
  ∀ service h sub, d.hosts.find? service = some h →
    ((∃ fd c, d.conns.find? fd = some c ∧ c.shares service = true ∧
        .sent fd h.daemonId (.listenStop sub) ∈ emitted) ↔
      0 < d.refs service (h.service.getD [] ++ sub) ∧
        d'.refs service (h.service.getD [] ++ sub) = 0 ∧ isRestrictedSubject sub = false)

theorem Net.announces_none {emitted : List Output}
    (hRefs : ∀ service x, d.refs service x ≤ d'.refs service x)
    (hNone : ∀ fd session sub, .sent fd session (.listenStop sub) ∉ emitted) :
    d.Announces d' emitted := by
  intro service h sub _
  constructor
  · rintro ⟨fd, c, -, -, hMem⟩
    exact absurd hMem (hNone fd h.daemonId sub)
  · rintro ⟨hPos, hZero, -⟩
    have hLe := hRefs service (h.service.getD [] ++ sub)
    omega

theorem Net.Shared.announces (hShared : d.Shared) (hConn : d.conns.find? fd = some c) {s : Service}
    {emitted : List Output} (hStops : d.StopsLast d' c s)
    (hEmitted : ∀ fd' session sub, .sent fd' session (.listenStop sub) ∈ emitted ↔
      fd' = fd ∧ session = c.session ∧ .listenStop sub ∈ s.sent ∧ isRestrictedSubject sub = false) :
    d.Announces d' emitted := by
  intro service h sub hHost
  rw [← and_assoc, ← hStops service h sub hHost]
  constructor
  · rintro ⟨fd', y, hy, hShares, hMem⟩
    obtain ⟨rfl, -, hSent, hFree⟩ := (hEmitted fd' h.daemonId sub).mp hMem
    obtain rfl := Option.some.inj (hConn.symm.trans hy)
    exact ⟨⟨hShares, hSent⟩, hFree⟩
  · rintro ⟨⟨hShares, hSent⟩, hFree⟩
    obtain ⟨hName, hDaemon⟩ := Conn.shares_iff.mp hShares
    obtain ⟨h₀, hFind, hFit⟩ := hShared.fits fd c service hConn hName
    obtain rfl := Option.some.inj (hHost.symm.trans hFind)
    exact ⟨fd, c, hConn, hShares,
      (hEmitted fd h.daemonId sub).mpr ⟨rfl, (hFit.session hDaemon).symm, hSent, hFree⟩⟩

theorem Net.mem_outputs {fd : Fd} {session sub : Text} :
    .sent fd session (.listenStop sub) ∈ d.outputs ↔ ∃ c, d.conns.find? fd = some c ∧
      c.session = session ∧ .listenStop sub ∈ c.sent ∧ isRestrictedSubject sub = false := by
  simp only [Net.outputs, List.mem_flatMap, List.mem_map, List.mem_filter, Output.sent.injEq]
  constructor
  · rintro ⟨e, he, out, ⟨hOut, hFree⟩, rfl, rfl, rfl⟩
    exact ⟨e.2, Table.find?_eq_some.mpr he, rfl, hOut, by simpa [Sent.isSent] using hFree⟩
  · rintro ⟨c, hConn, hSession, hOut, hFree⟩
    exact ⟨(fd, c), Table.find?_eq_some.mp hConn, .listenStop sub, ⟨hOut, by simp [Sent.isSent, hFree]⟩,
      rfl, hSession, rfl⟩

/-- What goes out at the end of a call is what the call has sent. -/
theorem Net.Quiet.mem_outputs_store (hQuiet : d.Quiet) (fd : Fd) {s : Service} (hSession : s.session = c.session)
    (fd' : Fd) (session sub : Text) :
    .sent fd' session (.listenStop sub) ∈ (d.store fd c s).outputs ↔
      fd' = fd ∧ session = c.session ∧ .listenStop sub ∈ s.sent ∧ isRestrictedSubject sub = false := by
  rw [Net.mem_outputs]
  constructor
  · rintro ⟨y, hy, hSame, hMem, hFree⟩
    rw [Net.store, Table.find?_insert] at hy
    split at hy
    · next hEq =>
        cases hy
        exact ⟨hEq, hSame.symm.trans hSession, hMem, hFree⟩
    · rw [hQuiet fd' y hy] at hMem
      cases hMem
  · rintro ⟨rfl, rfl, hMem, hFree⟩
    exact ⟨_, Table.find?_insert_self _ _ _, hSession, hMem, hFree⟩

theorem Net.Silent.notMem_outputs (hSilent : d.Silent) (fd : Fd) (session sub : Text) :
    .sent fd session (.listenStop sub) ∉ d.outputs := by
  rw [Net.mem_outputs]
  rintro ⟨c, hConn, -, hMem, -⟩
  exact Service.stops_eq_nil.mp (hSilent fd c hConn) sub hMem

theorem Net.flush_refs (d : Net) : d.SameRefs d.flush.1 := by
  intro service x
  simp only [Net.refs, Net.flush, Table.total_map]
  rfl

theorem Net.Shared.flush (hShared : d.Shared) : d.flush.1.Shared := by
  refine ⟨?_, ?_, hShared.positive, ?_⟩
  · intro fd y hy
    simp only [Net.flush, Table.find?_map, Option.map_eq_some_iff] at hy
    obtain ⟨c, hConn, rfl⟩ := hy
    have hSound := hShared.sound fd c hConn
    refine ⟨hSound.fresh, hSound.hosted, fun hd => ?_, hSound.started⟩
    have hKeyed := hSound.keyed hd
    exact ⟨hKeyed.subTab, hKeyed.patTab, hKeyed.keys⟩
  · intro fd y name hy hName
    simp only [Net.flush, Table.find?_map, Option.map_eq_some_iff] at hy
    obtain ⟨c, hConn, rfl⟩ := hy
    obtain ⟨h, hHost, hFit⟩ := hShared.fits fd c name hConn hName
    exact ⟨h, hHost, hFit.pre, hFit.session, hFit.runs⟩
  · intro name h x hHost
    rw [Net.flush_refs]
    exact hShared.refs name h x hHost

theorem Net.StopsLast.flush {s : Service} (hStops : d.StopsLast d' c s) :
    d.StopsLast d'.flush.1 c s := by
  intro service h sub hHost
  rw [Net.flush_refs]
  exact hStops service h sub hHost

/-- The invariant of a daemon between two steps. -/
structure Net.Settled (d : Net) : Prop where
  counted : d.Counted
  shared : d.Shared
  quiet : d.Quiet

theorem Net.Orderly.hostKept {input : NetInput} (hOrderly : d.Orderly env input) : d.HostKept input := by
  cases input with
  | info fd info answers =>
      intro c hConn hStarted hReadable
      exact ((hOrderly c hConn).2 hReadable).1 hStarted
  | _ => trivial

theorem Net.Shared.connect (hShared : d.Shared) (gob : Text) (hasPrefix : Bool)
    (hFresh : d.conns.find? fd = none) :
    ({ d with conns := d.conns.insert fd { gob := gob, hasServicePrefix := hasPrefix } } :
      Net).Shared ∧
      d.SameRefs { d with conns := d.conns.insert fd { gob := gob, hasServicePrefix := hasPrefix } } := by
  have hRefs : d.SameRefs { d with conns := d.conns.insert fd { gob := gob, hasServicePrefix := hasPrefix } } := by
    intro service x
    simp only [Net.refs]
    rw [Table.total_insert _ _ hFresh]
    rfl
  refine ⟨⟨?_, ?_, hShared.positive, ?_⟩, hRefs⟩
  · intro fd' y hy
    simp only [Table.find?_insert] at hy
    split at hy
    · cases hy
      refine ⟨fun _ => rfl, ?_, ?_, ?_⟩ <;> intro hDaemon <;> cases hDaemon
    · exact hShared.sound fd' y hy
  · intro fd' y name hy hName
    simp only [Table.find?_insert] at hy
    split at hy
    · cases hy
      cases hName
    · exact hShared.fits fd' y name hy hName
  · intro name h x hHost
    rw [hRefs]
    exact hShared.refs name h x hHost

theorem Net.timerExpire_same (hShared : d.Shared) (service : Text) :
    (d.timerExpire service).Shared ∧ d.SameRefs (d.timerExpire service) ∧
      d.SameFaces (d.timerExpire service) := by
  unfold Net.timerExpire
  split
  · exact ⟨hShared, fun _ _ => rfl, .refl d⟩
  · next h hHost =>
      split
      · have hInsert : ({ d with hosts := d.hosts.insert service { h with delayTimer := false } } :
            Net).Shared :=
          hShared.insert_host hHost rfl fun _ _ _ _ hFit => ⟨hFit.pre, hFit.session, hFit.runs⟩
        exact ⟨hInsert.startHost2 service 0, fun name x => Net.startHost2_refs _ service 0 name x,
          Net.startHost2_faces _ service 0⟩
      · exact ⟨hShared, fun _ _ => rfl, .refl d⟩

/-- A step that ends no subscription. -/
theorem Net.Shared.settled_flush (hShared : d'.Shared) (hCounted : d'.flush.1.Counted)
    (hSilent : d'.Silent) (hRefs : ∀ service x, d.refs service x ≤ d'.refs service x) :
    d'.flush.1.Settled ∧ d.Announces d'.flush.1 d'.flush.2 := by
  refine ⟨⟨hCounted, hShared.flush, d'.quiet_flush⟩, Net.announces_none (fun service x => ?_) ?_⟩
  · rw [d'.flush_refs]
    exact hRefs service x
  · exact fun fd session sub => hSilent.notMem_outputs fd session sub

theorem Conn.sent_notMem_sendStop (fd fd' : Fd) (c : Conn) (session : Text) (out : Sent) :
    .sent fd' session out ∉ c.sendStop fd := by
  unfold Conn.sendStop
  repeat' split
  all_goals simp

theorem Net.sent_notMem_leaveHost (d : Net) (service : Text) (fd : Fd) (session : Text) (out : Sent) :
    .sent fd session out ∉ (d.leaveHost service).2 := by
  unfold Net.leaveHost
  repeat' split
  all_goals simp

/-- A connection that is not started shares nothing. -/
theorem Conn.Sound.share_eq_zero (hSound : c.Sound) (hStarted : c.hostStarted = false)
    (service x : Text) : c.share service x = 0 := by
  unfold Conn.share
  split
  · next hShares =>
      by_contra hPos
      have hTrue := hSound.started (Conn.shares_iff.mp hShares).2 x (Nat.pos_of_ne_zero hPos)
      rw [hStarted] at hTrue
      cases hTrue
  · rfl

/-- A started connection leaves its host. -/
theorem Net.Settled.leave (hSettled : d.Settled) (hConn : d.conns.find? fd = some c)
    (hStarted : c.hostStarted = true) (hName : c.hostName = some service) {quit : Bool}
    (hQuit : c.isDaemon = true → quit = false) (hNext : d'.Counted)
    (hLeft : ((d.store fd c (remAllSub quit (d.load c))).flush.1.leaveHost service).1.remove fd =
      d') :
    d'.Settled ∧ d.Announces d' ((d.store fd c (remAllSub quit (d.load c))).flush.2 ++
      c.sendStop fd ++
        ((d.store fd c (remAllSub quit (d.load c))).flush.1.leaveHost service).2) := by
  obtain ⟨hCounted, hShared, hQuiet⟩ := hSettled
  obtain ⟨hNew, hStops⟩ := hShared.close hCounted hQuiet hConn hStarted hName hQuit hLeft
  refine ⟨⟨hNext, hNew, ?_⟩, hShared.announces hConn hStops ?_⟩
  · intro fd' y hy
    rw [← hLeft, Net.remove, Net.leaveHost_conns, hQuiet.erase_flush hConn,
      Table.find?_erase] at hy
    split at hy
    · cases hy
    · exact hQuiet fd' y hy
  · intro fd' session sub
    have hFixed := remAllSub_fixed quit (d.load c)
    rw [← hQuiet.mem_outputs_store fd hFixed.session, List.mem_append, List.mem_append]
    constructor
    · rintro ((hMem | hMem) | hMem)
      · exact hMem
      · exact absurd hMem (c.sent_notMem_sendStop fd fd' session _)
      · exact absurd hMem (Net.sent_notMem_leaveHost _ service fd' session _)
    · exact fun hMem => .inl (.inl hMem)

/-- A connection that has not started is dropped with what it holds. -/
theorem Net.Settled.drop (hSettled : d.Settled) (hConn : d.conns.find? fd = some c)
    (hStarted : c.hostStarted = false) (hNext : (d.remove fd).Counted) :
    (d.remove fd).Settled ∧ d.Announces (d.remove fd) [] := by
  obtain ⟨hNew, hRefs⟩ := hSettled.shared.erase hConn
    ((hSettled.shared.sound fd c hConn).share_eq_zero hStarted)
  refine ⟨⟨hNext, hNew, fun fd' y hy => ?_⟩,
    Net.announces_none (fun service x => (hRefs service x).ge) (by simp)⟩
  rw [Net.remove, Table.find?_erase] at hy
  split at hy
  · cases hy
  · exact hSettled.quiet fd' y hy

theorem Net.Settled.processClose {emitted : List Output} (hSettled : d.Settled) {quit : Bool}
    (hOrderly : d.Orderly env (.close fd quit)) (hNext : d'.Counted)
    (hClose : d.processClose fd quit = (d', emitted)) : d'.Settled ∧ d.Announces d' emitted := by
  unfold Net.processClose at hClose
  split at hClose
  · obtain ⟨rfl, rfl⟩ := Prod.mk.inj hClose
    exact ⟨hSettled, Net.announces_none (fun _ _ => le_refl _) (by simp)⟩
  · next c hConn =>
      dsimp only at hClose
      split at hClose
      · next service hStarted hName =>
          obtain ⟨hLeft, rfl⟩ := Prod.mk.inj hClose
          exact hSettled.leave hConn hStarted hName (hOrderly c hConn) hNext hLeft
      · next hNot =>
          obtain ⟨rfl, rfl⟩ := Prod.mk.inj hClose
          have hStarted : c.hostStarted = false := by
            by_contra hTrue
            rw [Bool.not_eq_false] at hTrue
            obtain ⟨service, host, hName, -, -⟩ := hSettled.counted.runs fd c hConn hTrue
            exact hNot service hTrue hName
          exact hSettled.drop hConn hStarted hNext

theorem Net.Settled.listen {emitted : List Output} (hSettled : d.Settled) {m : Envelope}
    (hOrderly : d.Orderly env (.listen fd m)) (hNext : d'.Counted)
    (hStep : d.step env (.listen fd m) = .ok (d', emitted)) :
    d'.Settled ∧ d.Announces d' emitted := by
  obtain ⟨-, hShared, hQuiet⟩ := hSettled
  simp only [Net.step, Net.call, bind_eq_ok, pure_eq_ok] at hStep
  obtain ⟨e, hCall, hEq⟩ := hStep
  obtain ⟨rfl, rfl⟩ := Prod.mk.inj hEq
  split at hCall
  · cases hCall
    exact hShared.settled_flush hNext hQuiet.silent fun _ _ => le_refl _
  · next c hConn =>
      simp only [bind_eq_ok, pure_eq_ok] at hCall
      obtain ⟨s, hAdd, rfl⟩ := hCall
      obtain ⟨hNew, hRefs, hSilent⟩ := hShared.listen hConn m hOrderly hAdd
      refine hNew.settled_flush hNext (fun fd' y hy => ?_) hRefs
      rw [Net.store, Table.find?_insert] at hy
      split at hy
      · cases hy
        exact hSilent (hQuiet.silent fd c hConn)
      · exact hQuiet.silent fd' y hy

theorem Net.Settled.cancel {emitted : List Output} (hSettled : d.Settled) {m : Envelope}
    (hNext : d'.Counted) (hStep : d.step env (.cancel fd m) = .ok (d', emitted)) :
    d'.Settled ∧ d.Announces d' emitted := by
  obtain ⟨-, hShared, hQuiet⟩ := hSettled
  simp only [Net.step, Net.call, bind_eq_ok, pure_eq_ok] at hStep
  obtain ⟨e, hCall, hEq⟩ := hStep
  obtain ⟨rfl, rfl⟩ := Prod.mk.inj hEq
  split at hCall
  · cases hCall
    exact hShared.settled_flush hNext hQuiet.silent fun _ _ => le_refl _
  · next c hConn =>
      simp only [bind_eq_ok, pure_eq_ok] at hCall
      obtain ⟨s, hRem, rfl⟩ := hCall
      obtain ⟨hNew, hStops⟩ := hShared.cancel hConn m (hQuiet fd c hConn) hRem
      exact ⟨⟨hNext, hNew.flush, Net.quiet_flush _⟩, hShared.announces hConn hStops.flush
        (hQuiet.mem_outputs_store fd (remSub_fixed hRem).session)⟩

theorem Net.Settled.step {input : NetInput} {emitted : List Output} (hSettled : d.Settled)
    (hOrderly : d.Orderly env input) (hStep : d.step env input = .ok (d', emitted)) :
    d'.Settled ∧ d.Announces d' emitted := by
  have hNext : d'.Counted := (hSettled.counted.step hOrderly.hostKept hStep).1
  have hShared := hSettled.shared
  have hQuiet := hSettled.quiet
  have hNothing : d.Announces d [] := Net.announces_none (fun _ _ => le_refl _) (by simp)
  cases input with
  | connect fd gob hasPrefix =>
      simp only [Net.step] at hStep
      split at hStep
      · cases hStep
        exact ⟨hSettled, hNothing⟩
      · next hFresh =>
          cases hStep
          obtain ⟨hNew, hRefs⟩ := hShared.connect gob hasPrefix
            (by simpa [Table.contains] using hFresh)
          refine ⟨⟨hNext, hNew, fun fd' y hy => ?_⟩,
            Net.announces_none (fun service x => (hRefs service x).ge) (by simp)⟩
          simp only [Table.find?_insert] at hy
          split at hy
          · cases hy
            rfl
          · exact hQuiet fd' y hy
  | info fd info answers =>
      simp only [Net.step] at hStep
      split at hStep
      · cases hStep
        exact ⟨hSettled, hNothing⟩
      · next c hConn =>
          obtain ⟨rfl, rfl⟩ := Prod.mk.inj (Except.ok.inj hStep)
          obtain ⟨hNew, hRefs, hSilent⟩ := hShared.respondInfo hConn info answers hOrderly
          exact hNew.settled_flush hNext (hSilent hQuiet.silent) fun service x => (hRefs service x).ge
  | listen fd m => exact hSettled.listen hOrderly hNext hStep
  | cancel fd m => exact hSettled.cancel hNext hStep
  | timer service =>
      obtain ⟨rfl, rfl⟩ := Prod.mk.inj (Except.ok.inj hStep)
      obtain ⟨hNew, hRefs, hFaces⟩ := Net.timerExpire_same hShared service
      exact hNew.settled_flush hNext (hFaces.silent hQuiet.silent) fun name x => (hRefs name x).ge
  | close fd quit => exact hSettled.processClose hOrderly hNext (Except.ok.inj hStep)

theorem Net.settled_of_reachable (hReach : ((netSystem env).guard (Net.Orderly env)).Reachable d) :
    d.Settled := by
  have hInv : Net.Settled d := by
    refine hReach.invariant ?_ ?_
    · rintro d rfl
      refine ⟨⟨?_, ?_⟩, ⟨?_, ?_, ?_, ?_⟩, fun fd c hConn => ?_⟩ <;> intros <;> contradiction
    · intro d input emitted d' hSettled hStep
      exact (hSettled.step hStep.1 hStep.2).1
  exact hInv

/-- The references of a host are the sum of those of its daemon sessions, an entry is
there exactly for the subjects that have some, and the daemon sessions announce the end
of a subject, unless it is restricted, exactly when the sum comes to zero. -/
theorem daemon_refs_shared (env : Env) (d : Net)
    (hReach : ((netSystem env).guard (Net.Orderly env)).Reachable d) :
    (∀ service h x, d.hosts.find? service = some h →
      refcnt h.subMap x = d.refs service x ∧
        (h.subMap.contains x = true ↔ 0 < d.refs service x)) ∧
    ∀ input emitted d', d.Orderly env input → (netSystem env).step d input emitted d' →
      ∀ service h sub, d.hosts.find? service = some h →
        ((∃ fd c, d.conns.find? fd = some c ∧ c.shares service = true ∧
            .sent fd h.daemonId (.listenStop sub) ∈ emitted) ↔
          0 < d.refs service (h.service.getD [] ++ sub) ∧
            d'.refs service (h.service.getD [] ++ sub) = 0 ∧ isRestrictedSubject sub = false) := by
  have hSettled := Net.settled_of_reachable hReach
  constructor
  · intro service h x hHost
    have hRefs := hSettled.shared.refs service h x hHost
    refine ⟨hRefs, ?_⟩
    rw [← hRefs]
    exact (hSettled.shared.positive service h hHost).contains_iff
  · intro input emitted d' hOrderly hStep
    exact (hSettled.step hOrderly hStep).2

/-- The second `I` message of a client that takes the id of the daemon. -/
def takesGob : Info where
  service := text "7500"
  session := some (text "7F000001.A")

def listenTo (sub : String) : Envelope := { mtype := .listen, sub := text sub }

def cancelOf (sub : String) : Envelope := { mtype := .cancel, sub := text sub }

/-- A client with the daemon session subscribes to a subject. -/
theorem daemon_refs_shared_listen : ∃ d : Net, d.refs (text "7500") (text "TEST") = 1 ∧
    ∀ h, d.hosts.find? (text "7500") = some h → refcnt h.subMap (text "TEST") = 1 := by
  have hInit : ((netSystem quietEnv).guard (Net.Orderly quietEnv)).Reachable {} :=
    System.reachable_of_init rfl
  have hFirst := (hInit.take (.connect 1 (text "A") false) [] trivial rfl).take
    (.info 1 (infoOf "7500") loopback) _ (by
      rintro c ⟨⟩
      exact ⟨by rintro ⟨⟩, fun _ => ⟨by rintro ⟨⟩, by rintro ⟨⟩, fun _ _ _ => ⟨rfl, rfl⟩⟩⟩) rfl
  have hSecond := hFirst.take (.info 1 takesGob loopback) _ (by
      rintro c ⟨⟩
      exact ⟨by rintro ⟨⟩, fun _ => ⟨fun _ => rfl, by rintro ⟨⟩, fun _ _ _ => ⟨rfl, rfl⟩⟩⟩) rfl
  have hListen := hSecond.take (.listen 1 (listenTo "TEST")) _ (by
      rintro c service ⟨⟩ - ⟨⟩
      exact ⟨rfl, by decide, by rintro ⟨⟩, by decide⟩) rfl
  refine ⟨_, ?_, fun h hHost => ((daemon_refs_shared quietEnv _ hListen).1 _ h (text "TEST") hHost).1⟩
  rfl

/-- The last reference of an inbox goes, and nothing is announced. -/
theorem inbox_end_is_not_announced : ∃ d d' : Net, ∃ emitted,
    (netSystem quietEnv).Reachable d ∧
      (netSystem quietEnv).step d (.cancel 1 (cancelOf "_INBOX.X")) emitted d' ∧
      d.refs (text "7500") (text "_INBOX.X") = 1 ∧ d'.refs (text "7500") (text "_INBOX.X") = 0 ∧
      emitted = [] := by
  have hInit : ((netSystem quietEnv).guard fun _ _ => True).Reachable {} :=
    System.reachable_of_init rfl
  have hFirst := (hInit.take (.connect 1 (text "A") false) [] trivial rfl).take
    (.info 1 (infoOf "7500") loopback) _ trivial rfl
  have hListen := (hFirst.take (.info 1 takesGob loopback) _ trivial rfl).take
    (.listen 1 (listenTo "_INBOX.X")) _ trivial rfl
  exact ⟨_, _, _, hListen.of_guard, rfl, rfl, rfl, rfl⟩

end Sassrv.Daemon
