import Mathlib.Data.Fintype.Card
import Sassrv.Daemon.Network

/-! `active_clients` of a host and the connections that it stands for. A connection
is counted at the host that it points at when `host_started` is set, and taken off the
host that it points at when it closes, so the count is right as long as no `I` message
moves a connection that has been counted. -/
namespace Sassrv.Daemon
open SubMgr Partial Transition

/-- The connection is counted at the host. -/
def Conn.isClient (c : Conn) (service : Text) : Bool := c.isAt service && c.hostStarted

/-- The open connections that are counted at a host. -/
def Net.clients (d : Net) (service : Text) : Nat :=
  d.conns.entries.countP fun e => e.2.isClient service

/-- Each host has the number of its clients, and runs if it has one. -/
structure Net.Counted (d : Net) : Prop where
  active : ∀ service h, d.hosts.find? service = some h →
    h.activeClients = BitVec.ofNat 64 (d.clients service)
  runs : ∀ fd c, d.conns.find? fd = some c → c.hostStarted = true →
    ∃ service h, c.hostName = some service ∧ d.hosts.find? service = some h ∧
      h.networkStarted = true

/-- An `I` message of a counted connection names the host that it points at. -/
def Net.HostKept (d : Net) : NetInput → Prop
  | .info fd info _ => ∀ c, d.conns.find? fd = some c → c.hostStarted = true →
      info.readable = true → c.hostName = some info.serviceName
  | _ => True

/-- What a call leaves as it is, of a connection and of its host. -/
structure Service.Fixed (s t : Service) : Prop where
  hostStarted : t.hostStarted = s.hostStarted
  isDaemon : t.isDaemon = s.isDaemon
  session : t.session = s.session
  pre : t.pre = s.pre
  networkStarted : t.host.map Host.networkStarted = s.host.map Host.networkStarted
  service : t.host.map Host.service = s.host.map Host.service
  daemonId : t.host.map Host.daemonId = s.host.map Host.daemonId

variable {env : Env} {s t u : Service}

theorem Service.Fixed.refl (s : Service) : s.Fixed s := ⟨rfl, rfl, rfl, rfl, rfl, rfl, rfl⟩

theorem Service.Fixed.trans (h : s.Fixed t) (h' : t.Fixed u) : s.Fixed u where
  hostStarted := h'.hostStarted.trans h.hostStarted
  isDaemon := h'.isDaemon.trans h.isDaemon
  session := h'.session.trans h.session
  pre := h'.pre.trans h.pre
  networkStarted := h'.networkStarted.trans h.networkStarted
  service := h'.service.trans h.service
  daemonId := h'.daemonId.trans h.daemonId

theorem Service.fixed_send (s : Service) (out : Sent) : s.Fixed (s.send out) :=
  ⟨rfl, rfl, rfl, rfl, rfl, rfl, rfl⟩

/-- References change the map of a host and nothing else. -/
theorem Service.fixed_setHost {host : Host} (h : s.host = some host) (subs : Table Text (BitVec 32)) :
    s.Fixed (s.setHost { host with subMap := subs }) := by
  refine ⟨rfl, rfl, rfl, rfl, ?_, ?_, ?_⟩ <;> simp [Service.setHost, h]

theorem Host.addRef_eq (host : Host) (sub : Text) :
    (host.addRef sub).1 = { host with subMap := (host.addRef sub).1.subMap } := rfl

theorem Host.remRefs_eq (host : Host) (sub : Text) (cnt : BitVec 32) :
    (host.remRefs sub cnt).1 = { host with subMap := (host.remRefs sub cnt).1.subMap } := by
  unfold Host.remRefs
  split
  · rfl
  · split <;> rfl

theorem Host.remRef_eq (host : Host) (sub : Text) : host.remRef sub = host.remRefs sub 1 := rfl

theorem enterSub_fixed (env : Env) (s : Service) (m : Envelope) : s.Fixed (enterSub env s m).1 := by
  unfold enterSub putPattern putSub
  repeat' split
  all_goals exact ⟨rfl, rfl, rfl, rfl, rfl, rfl, rfl⟩

theorem leaveSub_fixed (env : Env) (s : Service) (m : Envelope) : s.Fixed (leaveSub env s m).1 := by
  unfold leaveSub remPattern remSubTab
  repeat' split
  all_goals exact ⟨rfl, rfl, rfl, rfl, rfl, rfl, rfl⟩

theorem hostAt_eq_ok {host : Host} : s.hostAt = .ok host ↔ s.host = some host := by
  unfold Service.hostAt
  split
  · next h => simp [h]
  · next h => simp [h]

theorem addHostRef_fixed {sub : Text} {refcnt : BitVec 32} {r : Service × BitVec 32}
    (h : addHostRef s sub refcnt = .ok r) : s.Fixed r.1 := by
  unfold addHostRef at h
  split at h
  · simp only [bind_eq_ok, hostAt_eq_ok, pure_eq_ok] at h
    obtain ⟨host, hHost, rfl⟩ := h
    rw [Host.addRef_eq]
    exact s.fixed_setHost hHost _
  · cases h
    exact .refl s

theorem remHostRef_fixed {sub : Text} {refcnt : BitVec 32} {r : Service × BitVec 32}
    (h : remHostRef s sub refcnt = .ok r) : s.Fixed r.1 := by
  unfold remHostRef at h
  split at h
  · simp only [bind_eq_ok, hostAt_eq_ok, pure_eq_ok] at h
    obtain ⟨host, hHost, rfl⟩ := h
    rw [Host.remRef_eq, Host.remRefs_eq]
    exact s.fixed_setHost hHost _
  · cases h
    exact .refl s

theorem addSub_fixed {m : Envelope} (h : addSub env s m = .ok t) : s.Fixed t := by
  simp only [addSub, bind_eq_ok] at h
  obtain ⟨r, hRef, hSend⟩ := h
  refine ((enterSub_fixed env s m).trans (addHostRef_fixed hRef)).trans ?_
  unfold sendListenStart at hSend
  split at hSend
  · simp only [bind_eq_ok, pure_eq_ok] at hSend
    obtain ⟨-, -, rfl⟩ := hSend
    exact r.1.fixed_send _
  · cases hSend
    exact .refl r.1

theorem remSub_fixed {m : Envelope} (h : remSub env s m = .ok t) : s.Fixed t := by
  simp only [remSub, bind_eq_ok] at h
  obtain ⟨r, hRef, hSend⟩ := h
  refine ((leaveSub_fixed env s m).trans (remHostRef_fixed hRef)).trans ?_
  unfold sendListenStop at hSend
  split at hSend
  · simp only [bind_eq_ok, pure_eq_ok] at hSend
    obtain ⟨-, -, rfl⟩ := hSend
    exact r.1.fixed_send _
  · cases hSend
    exact .refl r.1

theorem stopSub_fixed (s : Service) (e : Text × BitVec 32) : s.Fixed (stopSub s e) := by
  unfold stopSub
  split
  · split
    · exact .refl s
    · next host hHost =>
        have hRefs : s.Fixed (s.setHost (if s.isDaemon then host.remRefs e.1 e.2 else (host, 0)).1) := by
          split
          · rw [Host.remRefs_eq]
            exact s.fixed_setHost hHost _
          · exact s.fixed_setHost hHost host.subMap
        generalize (if s.isDaemon then host.remRefs e.1 e.2 else (host, 0)) = r at hRefs ⊢
        dsimp only
        split
        · exact hRefs.trans (Service.fixed_send _ _)
        · exact hRefs
  · exact .refl s

theorem remAllSub_fixed (quit : Bool) (s : Service) : s.Fixed (remAllSub quit s) := by
  unfold remAllSub
  split
  · exact foldl_rel Service.Fixed.refl (fun h h' => h.trans h') (fun s e _ => stopSub_fixed s e) s
  · exact .refl s

variable {d d' : Net} {service : Text} {fd : Fd}

theorem Conn.isClient_iff {c : Conn} :
    c.isClient service = true ↔ c.hostName = some service ∧ c.hostStarted = true := by
  simp [Conn.isClient, Conn.isAt]

/-- What the count depends on. -/
def Conn.mark (c : Conn) : Option Text × Bool := (c.hostName, c.hostStarted)

def RvHost.tally (h : RvHost) : BitVec 64 × Bool := (h.activeClients, h.networkStarted)

theorem Net.clients_eq_total (d : Net) (service : Text) :
    d.clients service = d.conns.total fun _ c => (c.isClient service).toNat :=
  d.conns.countP_eq_total fun c => c.isClient service

theorem Net.clients_congr (h : d'.conns.map Conn.mark = d.conns.map Conn.mark) :
    d'.clients service = d.clients service := by
  have hTotal : ∀ e : Net, e.clients service =
      (e.conns.map Conn.mark).total fun _ m => (decide (m.1 = some service) && m.2).toNat := by
    intro e
    rw [Table.total_map, Net.clients_eq_total]
    rfl
  rw [hTotal, hTotal, h]

theorem Net.Counted.congr (h : d.Counted) (hMarks : d'.conns.map Conn.mark = d.conns.map Conn.mark)
    (hTally : ∀ name, (d'.hosts.find? name).map RvHost.tally = (d.hosts.find? name).map RvHost.tally) :
    d'.Counted where
  active := by
    intro name host' hHost'
    have hSame := hTally name
    rw [hHost', Option.map_some, eq_comm, Option.map_eq_some_iff] at hSame
    obtain ⟨host, hHost, hEq⟩ := hSame
    rw [Net.clients_congr hMarks, ← h.active name host hHost]
    exact (congrArg Prod.fst hEq).symm
  runs := by
    intro fd c' hConn' hStarted
    have hSame := congrArg (fun t => t.find? fd) hMarks
    simp only [Table.find?_map, hConn', Option.map_some] at hSame
    obtain ⟨c, hConn, hEq⟩ := Option.map_eq_some_iff.mp hSame.symm
    obtain ⟨name, host, hName, hHost, hRuns⟩ :=
      h.runs fd c hConn ((congrArg Prod.snd hEq).trans hStarted)
    have hSameHost := hTally name
    rw [hHost, Option.map_some, Option.map_eq_some_iff] at hSameHost
    obtain ⟨host', hHost', hEqHost⟩ := hSameHost
    exact ⟨name, host', (congrArg Prod.fst hEq).symm.trans hName, hHost',
      (congrArg Prod.snd hEqHost).trans hRuns⟩

/-- A host that is not there has no clients. -/
theorem Net.Counted.clients_none (h : d.Counted) (hNone : d.hosts.find? service = none) :
    d.clients service = 0 := by
  rw [Net.clients, List.countP_eq_zero]
  intro e he hClient
  obtain ⟨hName, hStarted⟩ := Conn.isClient_iff.mp hClient
  obtain ⟨name, host, hName', hHost, -⟩ := h.runs e.1 e.2 (Table.find?_eq_some.mpr he) hStarted
  rw [hName, Option.some.injEq] at hName'
  rw [hName', hHost] at hNone
  cases hNone

/-- One host changes, and neither its count nor whether it runs. -/
theorem Net.Counted.insert_host {h h' : RvHost} (hCounted : d.Counted)
    (hHost : d.hosts.find? service = some h) (hTally : h'.tally = h.tally) :
    ({ d with hosts := d.hosts.insert service h' } : Net).Counted := by
  refine hCounted.congr rfl fun name => ?_
  rw [Table.find?_insert]
  split
  · next hName => rw [hName, hHost, Option.map_some, Option.map_some, hTally]
  · rfl

/-- One connection changes, and neither its host nor whether it is counted. -/
theorem Net.Counted.insert_conn {c : Conn} (h : d.Counted) (hConn : d.conns.find? fd = some c)
    (c' : Conn) (hMark : c'.mark = c.mark) : ({ d with conns := d.conns.insert fd c' } : Net).Counted := by
  refine h.congr ?_ fun _ => rfl
  rw [Table.insert_of_found _ (by simp [hConn])]
  apply Table.map_modify
  intro a ha
  obtain rfl := Option.some.inj (hConn.symm.trans ha)
  exact hMark

theorem Net.clients_insert {c : Conn} (hosts : Table Text RvHost) (c' : Conn) (service : Text)
    (h : d.conns.find? fd = some c) :
    ({ hosts := hosts, conns := d.conns.insert fd c' } : Net).clients service +
      (c.isClient service).toNat = d.clients service + (c'.isClient service).toNat := by
  rw [Net.clients_eq_total, Net.clients_eq_total, Table.insert_of_found c' (by simp [h])]
  exact Table.total_modify (fun _ => c') (fun _ c => (c.isClient service).toNat) h

theorem Net.clients_erase {c : Conn} (service : Text) (h : d.conns.find? fd = some c) :
    (d.remove fd).clients service + (c.isClient service).toNat =
      d.clients service := by
  rw [Net.clients_eq_total, Net.clients_eq_total]
  exact Table.total_erase (fun _ c => (c.isClient service).toNat) h

theorem Net.Counted.flush (h : d.Counted) : d.flush.1.Counted :=
  h.congr (Table.ext (by simp [Net.flush, Table.map, Conn.mark])) fun _ => rfl

/-- A call that leaves the connection and its host as they are, subjects apart. -/
theorem Net.Counted.store {c : Conn} {s : Service} (h : d.Counted)
    (hConn : d.conns.find? fd = some c) (hFixed : (d.load c).Fixed s) :
    (d.store fd c s).Counted := by
  apply h.congr
  · rw [Net.store, Table.insert_of_found _ (by simp [hConn])]
    apply Table.map_modify
    intro a ha
    obtain rfl := Option.some.inj (hConn.symm.trans ha)
    exact congrArg (Prod.mk c.hostName) hFixed.hostStarted
  · intro name
    simp only [Net.store]
    split
    · next service host hName hHost =>
        rw [Table.find?_modify]
        by_cases hEq : name = service
        · subst hEq
          cases hFind : d.hosts.find? name with
          | none => rfl
          | some h =>
              have hRuns := hFixed.networkStarted
              simp only [Net.load, hName, Option.bind_some, hFind, hHost, Option.map_some,
                Option.some.injEq] at hRuns
              simp [RvHost.tally, hRuns]
        · simp [hEq]
    · rfl

theorem Net.Counted.call {f : Service → Result Service} (h : d.Counted)
    (hFixed : ∀ s t, f s = .ok t → s.Fixed t) (hCall : d.call fd f = .ok d') : d'.Counted := by
  unfold Net.call at hCall
  split at hCall
  · cases hCall
    exact h
  · next c hConn =>
      simp only [bind_eq_ok, pure_eq_ok] at hCall
      obtain ⟨s, hs, rfl⟩ := hCall
      exact h.store hConn (hFixed _ s hs)

theorem Net.Counted.connect (h : d.Counted) (gob : Text) (hasPrefix : Bool)
    (hFresh : d.conns.find? fd = none) :
    ({ d with conns := d.conns.insert fd { gob := gob, hasServicePrefix := hasPrefix } } :
      Net).Counted where
  active := by
    intro name host hHost
    rw [h.active name host hHost, Net.clients_eq_total, Net.clients_eq_total,
      Table.total_insert _ _ hFresh]
    rfl
  runs := by
    intro fd' c hConn hStarted
    simp only [Table.find?_insert] at hConn
    split at hConn
    · cases hConn
      cases hStarted
    · exact h.runs fd' c hConn hStarted

theorem Net.Counted.startService (h : d.Counted) (service : Text) (hasPrefix : Bool) :
    (d.startService service hasPrefix).1.Counted := by
  unfold Net.startService
  split
  · next hNone =>
      constructor
      · intro name host hHost
        simp only [Table.find?_insert] at hHost
        split at hHost
        · next hName =>
            cases hHost
            subst hName
            have hZero : d.clients name = 0 := h.clients_none hNone
            show (newHost name hasPrefix).activeClients = BitVec.ofNat 64 (d.clients name)
            rw [hZero]
            rfl
        · exact h.active name host hHost
      · intro fd c hConn hStarted
        obtain ⟨name, host, hName, hHost, hRuns⟩ := h.runs fd c hConn hStarted
        refine ⟨name, host, hName, ?_, hRuns⟩
        rw [Table.find?_insert_ne]
        · exact hHost
        · rintro rfl
          rw [hNone] at hHost
          cases hHost
  · exact h

/-- The connection points at the host; one that is counted has pointed at it before. -/
theorem Net.Counted.point (h : d.Counted) (fd : Fd) (service : Text)
    (hKept : ∀ c, d.conns.find? fd = some c → c.hostStarted = true → c.hostName = some service) :
    ({ d with conns := d.conns.modify fd fun c => { c with hostName := some service } } :
      Net).Counted where
  active := by
    intro name host hHost
    rw [h.active name host hHost, Net.clients_eq_total, Net.clients_eq_total]
    cases hConn : d.conns.find? fd with
    | none => rw [Table.modify_of_none _ hConn]
    | some c =>
        have hTotal := Table.total_modify (fun c : Conn => { c with hostName := some service })
          (fun _ c => (c.isClient name).toNat) hConn
        have hSame : Conn.isClient { c with hostName := some service } name = c.isClient name := by
          cases hStarted : c.hostStarted with
          | false => simp [Conn.isClient, hStarted]
          | true => simp [Conn.isClient, Conn.isAt, hKept c hConn hStarted]
        rw [hSame] at hTotal
        exact congrArg (BitVec.ofNat 64) (Nat.add_right_cancel hTotal).symm
  runs := by
    intro fd' c' hConn' hStarted
    simp only [Table.find?_modify, Option.map_eq_some_iff] at hConn'
    obtain ⟨c, hConn, rfl⟩ := hConn'
    split at hStarted
    · next hFd =>
        subst hFd
        obtain ⟨name, host, hName, hHost, hRuns⟩ := h.runs fd' c hConn hStarted
        rw [hKept c hConn hStarted, Option.some.injEq] at hName
        exact ⟨service, host, by simp, hName ▸ hHost, hRuns⟩
    · next hFd =>
        obtain ⟨name, host, hName, hHost, hRuns⟩ := h.runs fd' c hConn hStarted
        exact ⟨name, host, by simp [hFd, hName], hHost, hRuns⟩

@[simp] theorem sendStart_hostStarted (host : Host) :
    (sendStart s host).hostStarted = s.hostStarted := by
  simp only [sendStart]
  split <;> split <;> rfl

@[simp] theorem Conn.start_isAt (c : Conn) (host : Host) (name : Text) :
    (c.start host).isAt name = c.isAt name := rfl

@[simp] theorem Conn.start_hostStarted (c : Conn) (host : Host) :
    (c.start host).hostStarted = true :=
  sendStart_hostStarted host

def Conn.isWaiting (c : Conn) (service : Text) : Bool := c.isAt service && !c.hostStarted

/-- The waiting connections of a host become clients of it. -/
theorem Net.clients_started (d : Net) (hosts : Table Text RvHost) (host : Host) (name : Text) :
    ({ hosts := hosts, conns := d.conns.map fun c => if c.isAt service then c.start host else c } :
      Net).clients name = d.clients name +
        if name = service then d.conns.entries.countP fun e => e.2.isWaiting service else 0 := by
  rw [Net.clients_eq_total, Net.clients_eq_total, Table.total_map]
  split
  · next hName =>
      subst hName
      rw [d.conns.countP_eq_total fun c => c.isWaiting name]
      simp only [Table.total, ← List.sum_map_add]
      congr 1
      apply List.map_congr_left
      intro e _
      by_cases hAt : e.2.isAt name = true <;> cases hStarted : e.2.hostStarted <;>
        simp [Conn.isClient, Conn.isWaiting, hAt, hStarted]
  · next hName =>
      rw [Nat.add_zero]
      apply Table.total_congr
      intro fd c _
      by_cases hAt : c.isAt service = true
      · have hOther : c.isAt name = false := by
          simp only [Conn.isAt, decide_eq_true_eq, decide_eq_false_iff_not] at hAt ⊢
          rw [hAt, Option.some.injEq]
          exact fun hEq => hName hEq.symm
        simp [Conn.isClient, hAt, hOther]
      · simp [hAt]

theorem Net.Counted.startHost2 (h : d.Counted) (delaySecs : Nat) :
    (d.startHost2 service delaySecs).Counted := by
  unfold Net.startHost2
  split
  · exact h
  · next host hHost =>
      split
      · exact h.insert_host hHost rfl
      · constructor
        · intro name host' hHost'
          rw [Net.clients_started]
          simp only [Table.find?_insert] at hHost'
          split at hHost'
          · next hName =>
              cases hHost'
              rw [if_pos hName, hName, BitVec.ofNat_add]
              exact congrArg (· + _) (h.active service host hHost)
          · next hName =>
              rw [if_neg hName, Nat.add_zero]
              exact h.active name host' hHost'
        · intro fd c' hConn' hStarted
          simp only [Table.find?_map, Option.map_eq_some_iff] at hConn'
          obtain ⟨c, hConn, rfl⟩ := hConn'
          split at hStarted
          · next hAt =>
              refine ⟨service, _, ?_, Table.find?_insert_self _ _ _, rfl⟩
              rw [if_pos hAt]
              exact of_decide_eq_true hAt
          · next hAt =>
              obtain ⟨name, host', hName, hHost', hRuns⟩ := h.runs fd c hConn hStarted
              refine ⟨name, host', by rw [if_neg hAt, hName], ?_, hRuns⟩
              rw [Table.find?_insert_ne]
              · exact hHost'
              · rintro rfl
                exact hAt (decide_eq_true hName)

/-- No check of a network counts or starts anything. -/
theorem RvHost.checkNetwork_tally (h : RvHost) (service network : Text) (answers : Answers) :
    (h.checkNetwork service network answers).1.tally = h.tally := by
  unfold RvHost.checkNetwork RvHost.startNetwork RvHost.copyNetwork
  repeat' split
  all_goals rfl

theorem Net.Counted.startHost (h : d.Counted) (delaySecs : Nat) :
    (d.startHost service delaySecs).Counted := by
  unfold Net.startHost
  split
  · exact h
  · split
    · exact h
    · exact h.startHost2 delaySecs

theorem Net.Counted.listenerStartHost (h : d.Counted) (network : Text) (answers : Answers) :
    (d.listenerStartHost service network answers).1.Counted := by
  unfold Net.listenerStartHost
  split
  · exact h
  · next host hHost =>
      have hTally := host.checkNetwork_tally service network answers
      split
      · split
        · next hCheck =>
            rw [hCheck] at hTally
            exact h.insert_host hHost hTally
        · next hCheck =>
            rw [hCheck] at hTally
            apply Net.Counted.startHost
            exact h.insert_host hHost hTally
      · split <;> exact h

theorem Net.Counted.timerExpire (h : d.Counted) : (d.timerExpire service).Counted := by
  unfold Net.timerExpire
  split
  · exact h
  · next host hHost =>
      split
      · apply Net.Counted.startHost2
        exact h.insert_host hHost rfl
      · exact h

/-- The connections keep their hosts. -/
def Net.SamePoints (d d' : Net) : Prop :=
  ∀ fd, (d'.conns.find? fd).map Conn.hostName = (d.conns.find? fd).map Conn.hostName

theorem Net.startHost2_points (d : Net) (service : Text) (delaySecs : Nat) :
    d.SamePoints (d.startHost2 service delaySecs) := by
  intro fd
  unfold Net.startHost2
  split
  · rfl
  · split
    · rfl
    · rw [Table.find?_map, Option.map_map]
      congr 1
      funext c
      simp only [Function.comp_apply]
      split <;> rfl

theorem Net.listenerStartHost_points (d : Net) (service network : Text) (answers : Answers) :
    d.SamePoints (d.listenerStartHost service network answers).1 := by
  intro fd
  unfold Net.listenerStartHost
  split
  · rfl
  · split
    · split
      · rfl
      · dsimp only
        unfold Net.startHost
        split
        · rfl
        · split
          · rfl
          · exact Net.startHost2_points _ service answers.delaySecs fd
    · split <;> rfl

/-- The connection points at the host that the message names. -/
theorem Net.startNetwork_points (c : Conn) (info : Info) (answers : Answers) {c' : Conn}
    (hConn : (d.startNetwork fd c info answers).1.conns.find? fd = some c') :
    c'.hostName = some info.serviceName := by
  have hPoint : ∀ e : Net, ∀ x : Conn, (e.conns.modify fd fun c =>
      { c with hostName := some info.serviceName }).find? fd = some x →
        x.hostName = some info.serviceName := by
    intro e x hx
    rw [Table.find?_modify_self, Option.map_eq_some_iff] at hx
    obtain ⟨a, -, rfl⟩ := hx
    rfl
  unfold Net.startNetwork at hConn
  dsimp only at hConn
  split at hConn
  · exact hPoint _ c' hConn
  · have hSame := Net.listenerStartHost_points
      ({ (d.startService info.serviceName c.hasServicePrefix).1 with
        conns := (d.startService info.serviceName c.hasServicePrefix).1.conns.modify fd fun c =>
          { c with hostName := some info.serviceName } } : Net) info.serviceName info.network answers fd
    rw [hConn, Option.map_some, eq_comm, Option.map_eq_some_iff] at hSame
    obtain ⟨x, hx, hEq⟩ := hSame
    exact hEq.symm.trans (hPoint _ x hx)

theorem Net.Counted.startNetwork (h : d.Counted) (fd : Fd) (c : Conn) (info : Info) (answers : Answers)
    (hKept : ∀ c, d.conns.find? fd = some c → c.hostStarted = true →
      c.hostName = some info.serviceName) :
    (d.startNetwork fd c info answers).1.Counted := by
  have hConns : (d.startService info.serviceName c.hasServicePrefix).1.conns = d.conns := by
    unfold Net.startService
    split <;> rfl
  have hService := h.startService info.serviceName c.hasServicePrefix
  have hPoint := hService.point fd info.serviceName (by rwa [hConns])
  unfold Net.startNetwork
  dsimp only
  split
  · exact hPoint
  · exact hPoint.listenerStartHost info.network answers

theorem respondStarted_hostStarted (env : Env) (s : Service) (status : Int) (host : Host) :
    (respondStarted env s status host).hostStarted = (s.hostStarted || host.networkStarted) := by
  unfold respondStarted setSession
  dsimp only
  repeat' split
  all_goals simp_all [Service.send]

/-- A connection that is not counted becomes a client of a host that runs. -/
theorem Net.Counted.join {c c' : Conn} {host : RvHost} (h : d.Counted)
    (hHost : d.hosts.find? service = some host) (hConn : d.conns.find? fd = some c)
    (hStarted : c.hostStarted = false) (hRuns : host.networkStarted = true)
    (hName' : c'.hostName = some service) (hStarted' : c'.hostStarted = true) :
    ({ hosts := d.hosts.insert service { host with activeClients := host.activeClients + 1 }
       conns := d.conns.insert fd c' } : Net).Counted where
  active := by
    intro name host' hHost'
    have hClients := Net.clients_insert (d.hosts.insert service { host with
      activeClients := host.activeClients + 1 }) c' name hConn
    have hWas : c.isClient name = false := by simp [Conn.isClient, hStarted]
    rw [hWas, Bool.toNat_false, Nat.add_zero] at hClients
    rw [hClients]
    simp only [Table.find?_insert] at hHost'
    split at hHost'
    · next hEq =>
        cases hHost'
        subst hEq
        have hIs : c'.isClient name = true := Conn.isClient_iff.mpr ⟨hName', hStarted'⟩
        rw [hIs, Bool.toNat_true, BitVec.ofNat_add]
        exact congrArg (· + 1) (h.active name host hHost)
    · next hNe =>
        have hNot : c'.isClient name = false := by
          simp [Conn.isClient, Conn.isAt, hName', Ne.symm hNe]
        rw [hNot, Bool.toNat_false, Nat.add_zero]
        exact h.active name host' hHost'
  runs := by
    intro fd' x hx hStartedX
    simp only [Table.find?_insert] at hx
    split at hx
    · cases hx
      exact ⟨service, _, hName', Table.find?_insert_self _ _ _, hRuns⟩
    · obtain ⟨name, host', hName, hHost', hRuns'⟩ := h.runs fd' x hx hStartedX
      by_cases hEq : name = service
      · exact ⟨service, _, hEq ▸ hName, Table.find?_insert_self _ _ _, hRuns⟩
      · exact ⟨name, host', hName, by rwa [Table.find?_insert_ne _ _ hEq], hRuns'⟩

theorem Net.Counted.respondStarted (h : d.Counted) (status : Int)
    (hPoint : ∀ c, d.conns.find? fd = some c → c.hostName = some service) :
    (d.respondStarted env fd service status).Counted := by
  unfold Net.respondStarted
  split
  · next host c hHost hConn =>
      have hStarts : (Daemon.respondStarted { env with gob := c.gob } c.toService status
          host.toHost).hostStarted = (c.hostStarted || host.networkStarted) :=
        respondStarted_hostStarted _ _ status host.toHost
      generalize Daemon.respondStarted { env with gob := c.gob } c.toService status host.toHost = s'
        at hStarts
      cases hStarted : c.hostStarted with
      | true =>
          rw [hStarted, Bool.true_or, ← hStarted] at hStarts
          simpa using h.insert_conn hConn { c with toService := s' }
            (congrArg (Prod.mk c.hostName) hStarts)
      | false =>
          cases hRuns : host.networkStarted with
          | true =>
              rw [hStarted, hRuns] at hStarts
              exact h.join hHost hConn hStarted hRuns (hPoint c hConn) hStarts
          | false =>
              rw [hRuns, Bool.or_false] at hStarts
              simpa using h.insert_conn hConn { c with toService := s' }
                (congrArg (Prod.mk c.hostName) hStarts)
  · exact h

theorem Net.Counted.respondInfo (h : d.Counted) {c : Conn} (info : Info) (answers : Answers)
    (hConn : d.conns.find? fd = some c)
    (hKept : c.hostStarted = true → info.readable = true → c.hostName = some info.serviceName) :
    (d.respondInfo env fd c info answers).Counted := by
  have hSession : ({ d with conns := d.conns.modify fd fun c => { c with
      session := info.session.getD c.session } } : Net).Counted :=
    h.congr (Table.map_modify fun _ _ => rfl) fun _ => rfl
  unfold Net.respondInfo
  dsimp only
  split
  · next hReadable =>
      have hNetwork := hSession.startNetwork fd c info answers (by
        intro x hx hStarted
        rw [Table.find?_modify_self, hConn, Option.map_some, Option.some.injEq] at hx
        subst hx
        exact hKept hStarted hReadable)
      exact hNetwork.respondStarted _ fun x hx => Net.startNetwork_points c info answers hx
  · exact hSession

/-- The bound that the type of descriptors puts on the clients of a host. -/
theorem Net.clients_lt (d : Net) (service : Text) : d.clients service < 2 ^ 64 := by
  have hLe : d.clients service ≤ (d.conns.entries.map Prod.fst).length := by
    rw [List.length_map]
    exact List.countP_le_length
  have hCard : (d.conns.entries.map Prod.fst).length ≤ 2 ^ 31 := by
    simpa using List.Nodup.length_le_card d.conns.nodup
  omega

theorem Net.clients_pos {c : Conn} (hConn : d.conns.find? fd = some c)
    (hClient : c.isClient service = true) : 0 < d.clients service :=
  List.countP_pos_iff.mpr ⟨(fd, c), Table.find?_eq_some.mp hConn, hClient⟩

theorem ofNat_sub_one {n : Nat} (h : 0 < n) : BitVec.ofNat 64 n - 1 = BitVec.ofNat 64 (n - 1) := by
  obtain ⟨k, rfl⟩ := Nat.exists_eq_succ_of_ne_zero h.ne'
  rw [Nat.succ_sub_one, Nat.succ_eq_add_one, BitVec.ofNat_add]
  exact BitVec.add_sub_cancel _ _

/-- A client is gone, and its host still runs if it has another. -/
theorem Net.Counted.leave (h : d.Counted) {c : Conn} {host : RvHost}
    (hConn : d.conns.find? fd = some c) (hClient : c.isClient service = true)
    (hActive : host.activeClients = BitVec.ofNat 64 (d.clients service - 1))
    (hRuns : d.clients service ≠ 1 → host.networkStarted = true) :
    ({ hosts := d.hosts.insert service host, conns := d.conns.erase fd } : Net).Counted where
  active := by
    intro name host' hHost'
    have hClients : ({ hosts := d.hosts.insert service host, conns := d.conns.erase fd } :
        Net).clients name + (c.isClient name).toNat = d.clients name := Net.clients_erase name hConn
    simp only [Table.find?_insert] at hHost'
    split at hHost'
    · next hName =>
        cases hHost'
        subst hName
        rw [hClient, Bool.toNat_true] at hClients
        rw [hActive, ← hClients, Nat.add_sub_cancel]
    · next hName =>
        have hNot : c.isClient name = false := by
          simp [Conn.isClient, Conn.isAt, (Conn.isClient_iff.mp hClient).1, Ne.symm hName]
        rw [hNot, Bool.toNat_false, Nat.add_zero] at hClients
        rw [hClients]
        exact h.active name host' hHost'
  runs := by
    intro fd' x hx hStarted
    have hOther : (d.remove fd).conns.find? fd' = some x := hx
    simp only [Table.find?_erase] at hx
    split at hx
    · cases hx
    · obtain ⟨name, host', hName, hHost', hRuns'⟩ := h.runs fd' x hx hStarted
      by_cases hEq : name = service
      · subst hEq
        refine ⟨name, host, hName, Table.find?_insert_self _ _ _, hRuns ?_⟩
        have hMore := Net.clients_pos hOther (Conn.isClient_iff.mpr ⟨hName, hStarted⟩)
        have hClients := Net.clients_erase name hConn
        rw [hClient, Bool.toNat_true] at hClients
        omega
      · exact ⟨name, host', hName, by rwa [Table.find?_insert_ne _ _ hEq], hRuns'⟩

/-- The host of a client loses it: the host ends when it was the last one. -/
theorem Net.Counted.leaveHost (h : d.Counted) {c : Conn} (hConn : d.conns.find? fd = some c)
    (hClient : c.isClient service = true) :
    ((d.leaveHost service).1.remove fd).Counted ∧
      (d.leaveHost service).2 = if d.clients service = 1 then [.stopHost service] else [] := by
  obtain ⟨hName, hStarted⟩ := Conn.isClient_iff.mp hClient
  obtain ⟨name, host, hName', hHost, hRuns⟩ := h.runs fd c hConn hStarted
  obtain rfl : service = name := Option.some.inj (hName.symm.trans hName')
  have hPos := Net.clients_pos hConn hClient
  have hLess : host.activeClients - 1 = BitVec.ofNat 64 (d.clients service - 1) := by
    rw [h.active service host hHost, ofNat_sub_one hPos]
  have hZero : BitVec.ofNat 64 (d.clients service - 1) = 0 ↔ d.clients service = 1 := by
    have hLt := d.clients_lt service
    rw [BitVec.toNat_eq, BitVec.toNat_ofNat, Nat.mod_eq_of_lt (by omega)]
    show d.clients service - 1 = 0 ↔ _
    omega
  unfold Net.leaveHost RvHost.stopNetwork
  simp only [hHost, hRuns, if_true, hLess, hZero]
  by_cases hLast : d.clients service = 1
  · simp only [hLast, if_true]
    refine ⟨h.leave hConn hClient ?_ fun hNot => absurd hLast hNot, trivial⟩
    unfold RvHost.stopHost
    split <;> simp [hLast]
  · simp only [hLast, if_false]
    exact ⟨h.leave hConn hClient rfl fun _ => hRuns, trivial⟩

theorem Net.stopHost_notMem_outputs (d : Net) (service : Text) : Output.stopHost service ∉ d.outputs := by
  simp [Net.outputs]

theorem Conn.stopHost_notMem_sendStop (fd : Fd) (c : Conn) : Output.stopHost service ∉ c.sendStop fd := by
  unfold Conn.sendStop
  repeat' split
  all_goals simp

/-- The connection of a client after `rem_all_sub`, still a client. -/
theorem Net.stopped_client {c : Conn} {s : Service} (fd : Fd) (hClient : c.isClient service = true)
    (hFixed : (d.load c).Fixed s) : ∃ c', (d.store fd c s).flush.1.conns.find? fd = some c' ∧
      c'.isClient service = true := by
  refine ⟨_, by simp [Net.flush, Net.store]; rfl, ?_⟩
  obtain ⟨hName, hStarted⟩ := Conn.isClient_iff.mp hClient
  exact Conn.isClient_iff.mpr ⟨hName, hFixed.hostStarted.trans hStarted⟩

theorem Net.leaveHost_conns (d : Net) (service : Text) : (d.leaveHost service).1.conns = d.conns := by
  unfold Net.leaveHost
  repeat' split
  all_goals rfl

theorem Net.leaveHost_clients {c : Conn} (name service : Text) (hConn : d.conns.find? fd = some c) :
    ((d.leaveHost service).1.remove fd).clients name + (c.isClient name).toNat = d.clients name := by
  rw [← Net.clients_erase name hConn]
  simp only [Net.clients, Net.remove, Net.leaveHost_conns]

/-- A connection that is not counted is gone. -/
theorem Net.Counted.erase (h : d.Counted) {c : Conn} (hConn : d.conns.find? fd = some c)
    (hStarted : c.hostStarted = false) :
    (d.remove fd).Counted where
  active := by
    intro name host hHost
    have hClients := Net.clients_erase name hConn
    have hNot : c.isClient name = false := by simp [Conn.isClient, hStarted]
    rw [hNot, Bool.toNat_false, Nat.add_zero] at hClients
    rw [hClients]
    exact h.active name host hHost
  runs := by
    intro fd' x hx hStartedX
    simp only [Net.remove, Table.find?_erase] at hx
    split at hx
    · cases hx
    · exact h.runs fd' x hx hStartedX

theorem Net.Counted.processClose (h : d.Counted) (fd : Fd) (quit : Bool) :
    (d.processClose fd quit).1.Counted ∧ ∀ service,
      .stopHost service ∈ (d.processClose fd quit).2 ↔ ∃ c, d.conns.find? fd = some c ∧
        c.isClient service = true ∧ (d.processClose fd quit).1.clients service = 0 := by
  unfold Net.processClose
  cases hConn : d.conns.find? fd with
  | none => exact ⟨h, by simp⟩
  | some c =>
      dsimp only
      split
      · next service hStarted hName =>
          have hFixed := remAllSub_fixed quit (d.load c)
          have hClient : c.isClient service = true := Conn.isClient_iff.mpr ⟨hName, hStarted⟩
          have hStopped := (h.store hConn hFixed).flush
          obtain ⟨c', hConn', hClient'⟩ := Net.stopped_client fd hClient hFixed
          obtain ⟨hCounted, hLast⟩ := hStopped.leaveHost hConn' hClient'
          have hClients := Net.leaveHost_clients service service hConn'
          rw [hClient', Bool.toNat_true] at hClients
          refine ⟨hCounted, fun name => ?_⟩
          have hOutputs : .stopHost name ∉ (d.store fd c (remAllSub quit (d.load c))).flush.2 :=
            Net.stopHost_notMem_outputs _ name
          have hIs : c.isClient name = true ↔ name = service := by
            rw [Conn.isClient_iff, hName, Option.some.injEq, eq_comm]
            simp [hStarted]
          simp only [hLast, List.mem_append, hOutputs, Conn.stopHost_notMem_sendStop,
            false_or, Option.some.injEq, exists_eq_left', hIs]
          constructor
          · intro hMem
            split at hMem
            · next hOne =>
                rw [List.mem_singleton, Output.stopHost.injEq] at hMem
                subst hMem
                exact ⟨rfl, by omega⟩
            · cases hMem
          · rintro ⟨rfl, hZero⟩
            rw [if_pos (by omega)]
            exact List.mem_singleton_self _
      · next hNot =>
          have hStarted : c.hostStarted = false := by
            by_contra hTrue
            rw [Bool.not_eq_false] at hTrue
            obtain ⟨service, host, hName, -, -⟩ := h.runs fd c hConn hTrue
            exact hNot service hTrue hName
          refine ⟨h.erase hConn hStarted, fun service => ?_⟩
          simp [Conn.isClient, hStarted]

theorem Net.Counted.step (h : d.Counted) {input : NetInput} {emitted : List Output}
    (hKept : d.HostKept input) (hStep : d.step env input = .ok (d', emitted)) :
    d'.Counted ∧ ∀ service, .stopHost service ∈ emitted ↔ ∃ fd quit c, input = .close fd quit ∧
      d.conns.find? fd = some c ∧ c.isClient service = true ∧ d'.clients service = 0 := by
  have hFlush : ∀ e : Net, e.Counted → (∀ fd quit, input ≠ .close fd quit) →
      (d', emitted) = e.flush → d'.Counted ∧ ∀ service, .stopHost service ∈ emitted ↔
        ∃ fd quit c, input = .close fd quit ∧ d.conns.find? fd = some c ∧
          c.isClient service = true ∧ d'.clients service = 0 := by
    intro e he hInput hEq
    obtain ⟨rfl, rfl⟩ := Prod.mk.inj hEq
    refine ⟨he.flush, fun service => ⟨fun hMem => ?_, ?_⟩⟩
    · exact absurd hMem (e.stopHost_notMem_outputs service)
    · rintro ⟨fd, quit, -, rfl, -⟩
      exact absurd rfl (hInput fd quit)
  cases input with
  | connect fd gob hasPrefix =>
      simp only [Net.step] at hStep
      split at hStep
      · cases hStep
        exact ⟨h, by simp⟩
      · next hFresh =>
          cases hStep
          exact ⟨h.connect gob hasPrefix (by simpa [Table.contains] using hFresh), by simp⟩
  | info fd info answers =>
      simp only [Net.step] at hStep
      split at hStep
      · cases hStep
        exact ⟨h, by simp⟩
      · next c hConn =>
          exact hFlush _ (h.respondInfo info answers hConn (hKept c hConn)) (by simp)
            (Except.ok.inj hStep).symm
  | listen fd m =>
      simp only [Net.step, bind_eq_ok, pure_eq_ok] at hStep
      obtain ⟨e, hCall, hEq⟩ := hStep
      exact hFlush e (h.call (fun s t => addSub_fixed) hCall) (by simp) hEq.symm
  | cancel fd m =>
      simp only [Net.step, bind_eq_ok, pure_eq_ok] at hStep
      obtain ⟨e, hCall, hEq⟩ := hStep
      exact hFlush e (h.call (fun s t => remSub_fixed) hCall) (by simp) hEq.symm
  | timer service => exact hFlush _ h.timerExpire (by simp) (Except.ok.inj hStep).symm
  | close fd quit =>
      obtain ⟨rfl, rfl⟩ := Prod.mk.inj (Except.ok.inj hStep)
      obtain ⟨hCounted, hLast⟩ := h.processClose fd quit
      refine ⟨hCounted, fun service => (hLast service).trans ⟨?_, ?_⟩⟩
      · rintro ⟨c, hConn, hClient, hZero⟩
        exact ⟨fd, quit, c, rfl, hConn, hClient, hZero⟩
      · rintro ⟨fd', quit', c, hInput, hConn, hClient, hZero⟩
        cases hInput
        exact ⟨c, hConn, hClient, hZero⟩

theorem Net.counted_of_reachable (h : ((netSystem env).guard Net.HostKept).Reachable d) :
    d.Counted := by
  have hInv : Net.Counted d := by
    refine h.invariant ?_ ?_
    · rintro d rfl
      constructor
      · intro _ _ hHost
        cases hHost
      · intro _ _ hConn
        cases hConn
    · intro d input emitted d' hCounted hStep
      exact (hCounted.step hStep.1 hStep.2).1
  exact hInv

/-- Each host counts its open clients, and ends when the last of them closes, in every
run in which no `I` message moves a client to another host. -/
theorem active_clients_counted (env : Env) (d : Net)
    (h : ((netSystem env).guard Net.HostKept).Reachable d) :
    (∀ service host, d.hosts.find? service = some host →
      host.activeClients.toNat = d.clients service) ∧
    ∀ input emitted d', d.HostKept input → (netSystem env).step d input emitted d' →
      ∀ service, .stopHost service ∈ emitted ↔ ∃ fd quit c, input = .close fd quit ∧
        d.conns.find? fd = some c ∧ c.isClient service = true ∧ d'.clients service = 0 := by
  have hCounted := Net.counted_of_reachable h
  constructor
  · intro service host hHost
    rw [hCounted.active service host hHost, BitVec.toNat_ofNat,
      Nat.mod_eq_of_lt (d.clients_lt service)]
  · intro input emitted d' hKept hStep
    exact (hCounted.step hKept hStep).2

/-- Patterns are not used here. -/
def quietEnv : Env where
  gob := []
  converts _ := true
  compiles _ := true
  isMatch _ _ := false
  notified := false
  startNetwork _ _ _ := (0, { networkStarted := true })
  forwardMsg _ := .good

/-- `127.0.0.1` is there. -/
def loopback : Answers where
  parsed := .ok { hostIp := 0x7f000001 }
  stamp := text "1"

def infoOf (service : String) : Info := { service := text service }

/-- Two connections introduce themselves to one host. -/
theorem active_clients_counted_two : ∃ d : Net, d.clients (text "7500") = 2 ∧
    ∀ host, d.hosts.find? (text "7500") = some host → host.activeClients.toNat = 2 := by
  have hInit : ((netSystem quietEnv).guard Net.HostKept).Reachable {} :=
    System.reachable_of_init rfl
  have hOne := (hInit.take (.connect 1 (text "A") false) [] trivial rfl).take
    (.info 1 (infoOf "7500") loopback) _ (by rintro c ⟨⟩ ⟨⟩) rfl
  have hTwo := (hOne.take (.connect 2 (text "B") false) [] trivial rfl).take
    (.info 2 (infoOf "7500") loopback) _ (by rintro c ⟨⟩ ⟨⟩) rfl
  refine ⟨_, ?_, (active_clients_counted quietEnv _ hTwo).1 (text "7500")⟩
  rfl

/-- A client names another service, and the host that it leaves counts it for good. -/
theorem moved_client_stays_counted : ∃ d : Net, (netSystem quietEnv).Reachable d ∧
    d.clients (text "7500") = 0 ∧
      ∃ host, d.hosts.find? (text "7500") = some host ∧ host.activeClients = 1 := by
  have hInit : ((netSystem quietEnv).guard fun _ _ => True).Reachable {} :=
    System.reachable_of_init rfl
  have hFirst := (hInit.take (.connect 1 (text "A") false) [] trivial rfl).take
    (.info 1 (infoOf "7500") loopback) _ trivial rfl
  have hSecond := hFirst.take (.info 1 (infoOf "7600") loopback) _ trivial rfl
  exact ⟨_, hSecond.of_guard, rfl, _, rfl, rfl⟩

end Sassrv.Daemon
