import Sassrv.Ft.Calls

/-! What a message of a peer does to an FT instance. -/
namespace Sassrv.Ft
namespace RvFt
open FtGroup

variable {C : Prop}

/-- The rank that the sender of a message has by it. -/
def outranks (m : FtPeerMsg) (x : FtPeer) : Bool :=
  FtPeer.isGreater { startNs := m.startNs, weight := m.weight, state := m.state } x

/-- A queued peer other than the sender of a message is above `me`. -/
def outrankedBesides (f : RvFt) (m : FtPeerMsg) : Bool :=
  f.group.live.any (fun r => decide (r ≠ .me) &&
    decide ((f.group.peer r).startNs ≠ m.startNs) && (f.group.peer r).isGreater f.me)

/-- `on_peer_msg` as far as the lookup of the sender. -/
def received (f : RvFt) (m : FtPeerMsg) : RvFt :=
  { f with lastRcvNs := f.monoNs }.followOldest m

/-- The message is not discarded for its latency. -/
def applies (f : RvFt) (m : FtPeerMsg) : Bool :=
  decide (m.state = .listen) || !(f.received m).discards m

/-- A peer that goes back to the listen state leaves another above a
secondary. -/
def LeavesAbove (f : RvFt) (m : FtPeerMsg) : Prop :=
  m.state = .listen → f.me.state = .secondary → f.outrankedBesides m = true

/-- A finish message does not put its sender before a primary, and a secondary
stays behind its sender or another peer. -/
def FinishesInRank (f : RvFt) (m : FtPeerMsg) : Prop :=
  m.type = .finish → m.state ≠ .listen ∧ f.applies m = true →
    (f.me.state = .primary → outranks m f.me = false) ∧
    (f.me.state = .secondary → outranks m f.me = true ∨ f.outrankedBesides m = true)

/-- The condition under which the early returns of `on_peer_msg` do no harm. -/
def KeepsRank (f : RvFt) (m : FtPeerMsg) : Prop := f.LeavesAbove m ∧ f.FinishesInRank m

instance (f : RvFt) (m : FtPeerMsg) : Decidable (f.LeavesAbove m) :=
  inferInstanceAs (Decidable (_ → _ → _))

instance (f : RvFt) (m : FtPeerMsg) : Decidable (f.FinishesInRank m) :=
  inferInstanceAs (Decidable (_ → _ ∧ _ → _))

instance (f : RvFt) (m : FtPeerMsg) : Decidable (f.KeepsRank m) :=
  inferInstanceAs (Decidable (_ ∧ _))

/-- The peers after a message: those from before, and the sender as the
message describes it. -/
def PeersAfter (f : RvFt) (m : FtPeerMsg) (g : FtGroup) : Prop :=
  ∀ r ∈ g.live, r ≠ .me →
    (r ∈ f.group.live ∧ (f.group.peer r).Same (g.peer r) ∧
      (f.applies m = true → (g.peer r).startNs ≠ m.startNs)) ∨
    (f.applies m = true ∧ (g.peer r).startNs = m.startNs ∧ (g.peer r).state = m.state ∧
      (g.peer r).weight = m.weight)

theorem PeersAfter.same {f : RvFt} {m : FtPeerMsg} {g h : FtGroup} (hAfter : f.PeersAfter m g)
    (hLive : ∀ r ∈ h.live, r ∈ g.live) (hPeer : ∀ r, r ≠ .me → (g.peer r).Same (h.peer r)) :
    f.PeersAfter m h := by
  intro r hr hne
  have hSame := hPeer r hne
  rw [hSame.startNs, hSame.state, hSame.weight]
  rcases hAfter r (hLive r hr) hne with ⟨hOld, hOldPeer, hStart⟩ | hSender
  · exact Or.inl ⟨hOld, hOldPeer.trans hSame, hStart⟩
  · exact Or.inr hSender

/-- The sender of a message is not in the queue. -/
def Gone (m : FtPeerMsg) (g : FtGroup) : Prop :=
  ∀ r ∈ g.live, r ≠ .me → (g.peer r).startNs ≠ m.startNs

/-- What a message does. -/
structure Heard (C : Prop) (f : RvFt) (m : FtPeerMsg) (g : RvFt) : Prop extends Kept C f g where
  order : f.Ordered → g.Ordered
  finish : g.me.state = .finish → f.me.state = .finish
  idle : f.me.state.counted = false → g.me.state.counted = false
  expired : (f.Ranked → f.Expired) → g.Ranked → g.Expired
  quits : (f.tid, .finish) ∈ g.timers → (f.tid, .finish) ∈ f.timers
  peers : f.PeersAfter m g.group
  primary : f.Ordered → g.me.state = .primary → g.group.Heads ∨
    (f.me.state = .primary ∧ (m.type = .finish ∨ (f.applies m = true → Gone m g.group)))
  law : f.KeepsRank m → f.Ordered → (f.Ranked → f.Expired) → Lawful f.group → Lawful g.group

theorem Heard.trans_quiet {f g h : RvFt} {m : FtPeerMsg} (left : f.Heard C m g)
    (right : g.Quiet h) : f.Heard C m h := by
  have hMe := right.me
  have hGroup := right.group
  refine ⟨left.toKept.trans_base right.toBase (left.sound.quiet right), ?_, ?_, ?_, ?_, ?_, ?_, ?_, ?_⟩
  · unfold Ordered at *
    rw [hGroup]
    exact left.order
  · rw [hMe]
    exact left.finish
  · rw [hMe]
    exact left.idle
  · intro hExpired
    unfold Ranked
    rw [hMe, right.expired]
    exact left.expired hExpired
  · intro hMem
    rw [← left.tid] at hMem
    refine left.quits ?_
    rw [← left.tid]
    exact right.kept .finish (by simp) (by simp) hMem
  · rw [hGroup]
    exact left.peers
  · rw [hMe, hGroup]
    exact left.primary
  · rw [hGroup]
    exact left.law

theorem startHb_kept {f : RvFt} (h : f.Sound C) (hListen : f.me.state = .listen)
    (hbIval actIval prepIval : Nat) :
    f.Kept C (f.startHb hbIval actIval prepIval) ∧
    (f.startHb hbIval actIval prepIval).group = f.group ∧
    ((f.tid, .finish) ∈ (f.startHb hbIval actIval prepIval).timers →
      (f.tid, .finish) ∈ f.timers) := by
  obtain ⟨e, hGroup, hTid, hMono, hTimers, hMask, hEq⟩ : ∃ e : RvFt,
      e.group = f.group ∧ e.tid = f.tid ∧ e.monoNs = f.monoNs ∧
      e.timers = f.timers ∧ e.timerMask = f.timerMask ∧
      f.startHb hbIval actIval prepIval =
        (let k := if f.hbChanged hbIval actIval prepIval then
          ((e.cancelTimer .activate).cancelTimer .prepare).cancelTimer .heartbeat else e
        if k.timerMask .heartbeat then k
        else { k.addTimer .heartbeat with lastHbNs := k.monoNs }) :=
    ⟨{ f with
        heartbeatMs := (f.hbIntervals hbIval actIval prepIval).1
        activateMs := (f.hbIntervals hbIval actIval prepIval).2.1
        prepareMs := (f.hbIntervals hbIval actIval prepIval).2.2 },
      rfl, rfl, rfl, rfl, rfl, rfl⟩
  rw [hEq]
  have hCancelled : e.Base (if f.hbChanged hbIval actIval prepIval then
      ((e.cancelTimer .activate).cancelTimer .prepare).cancelTimer .heartbeat else e) ∧
      (if f.hbChanged hbIval actIval prepIval then
        ((e.cancelTimer .activate).cancelTimer .prepare).cancelTimer .heartbeat else e).group =
        f.group := by
    split
    · refine ⟨?_, ?_⟩
      · exact ((Base.cancelTimer e .activate).trans (.cancelTimer _ .prepare)).trans
          (.cancelTimer _ .heartbeat)
      · rw [cancelTimer_group, cancelTimer_group, cancelTimer_group, hGroup]
    · exact ⟨Base.refl e, hGroup⟩
  generalize (if f.hbChanged hbIval actIval prepIval then
    ((e.cancelTimer .activate).cancelTimer .prepare).cancelTimer .heartbeat else e) = k
    at hCancelled ⊢
  obtain ⟨hBase, hSame⟩ := hCancelled
  have hMe : k.me = f.me := by rw [RvFt.me, RvFt.me, hSame]
  have hTidK : k.tid = f.tid := hBase.tid.trans hTid
  have hOk : k.TimersOk := by
    refine hBase.timers ?_
    unfold TimersOk
    rw [hTimers, hMask, hTid]
    exact h.timers
  have hKept : ∀ a, a ≠ .prepare → a ≠ .activate → (f.tid, a) ∈ k.timers →
      (f.tid, a) ∈ f.timers := by
    intro a hPrepare hActivate hMem
    rw [← hTid] at hMem ⊢
    have hOld := hBase.kept a hPrepare hActivate hMem
    rw [hTimers] at hOld
    exact hOld
  have hSound : ∀ timers mask, (timers.Nodup ∧ ∀ a, (k.tid, a) ∈ timers → mask a = true) →
      ((f.tid, .join) ∈ timers → (f.tid, .join) ∈ f.timers) → ∀ lastHbNs,
      ({ k with timers := timers, timerMask := mask, lastHbNs := lastHbNs } : RvFt).Sound C := by
    intro timers mask hTimersOk hJoin lastHbNs
    have hState : ({ k with timers := timers, timerMask := mask, lastHbNs := lastHbNs } : RvFt).me
        = f.me := hMe
    refine ⟨?_, ?_, ?_, hTimersOk, ?_, ?_⟩
    · rw [hSame]
      exact h.ledger
    · rw [hState, hSame]
      exact h.absent
    · rw [hState, hSame]
      exact h.present
    · rw [hState, hTidK]
      exact fun hMem => h.joinTimer (hJoin hMem)
    · rw [hState, hListen]
      simp
  simp only
  split
  · refine ⟨⟨?_, hTidK, hBase.monoNs.trans hMono⟩, hSame, hKept .finish (by simp) (by simp)⟩
    exact hSound k.timers k.timerMask hOk (hKept .join (by simp) (by simp)) k.lastHbNs
  · rename_i hClear
    have hAdded : (k.addTimer .heartbeat).TimersOk := hOk.addTimer (hOk.notMem (by simpa using hClear))
    have hMem : ∀ a, a ≠ .heartbeat → (f.tid, a) ∈ (k.addTimer .heartbeat).timers →
        (f.tid, a) ∈ k.timers := by
      intro a ha hIn
      rcases List.mem_append.mp hIn with hOld | hNew
      · exact hOld
      · exact absurd (Prod.mk.inj (List.mem_singleton.mp hNew)).2 ha
    refine ⟨⟨?_, hTidK, hBase.monoNs.trans hMono⟩, hSame, fun hIn => ?_⟩
    · exact hSound _ _ hAdded (fun hIn => hKept .join (by simp) (by simp)
        (hMem .join (by simp) hIn)) k.monoNs
    · exact hKept .finish (by simp) (by simp) (hMem .finish (by simp) hIn)

/-- The head of `on_peer_msg`. -/
structure Received (C : Prop) (f e : RvFt) : Prop extends Kept C f e where
  group : e.group = f.group
  quits : (f.tid, .finish) ∈ e.timers → (f.tid, .finish) ∈ f.timers
  quiet : f.me.state ≠ .listen → f.Quiet e

theorem Received.me {f e : RvFt} (h : Received C f e) : e.me = f.me := by
  rw [RvFt.me, RvFt.me, h.group]

theorem received_spec {f : RvFt} (h : f.Sound C) (m : FtPeerMsg) :
    Received C f (f.received m) := by
  have hStamp : f.Quiet { f with lastRcvNs := f.monoNs } :=
    .same rfl rfl rfl rfl rfl rfl rfl
  have hSound := h.quiet hStamp
  unfold received followOldest
  split
  · rename_i hFollow
    obtain ⟨hKept, hGroup, hQuits⟩ := startHb_kept (f := { f with
      lastRcvNs := f.monoNs
      oldestPeer := m.startNs })
      ⟨hSound.ledger, hSound.absent, hSound.present, hSound.timers, hSound.joinTimer,
        hSound.beatTimer⟩ hFollow.1 m.hbIval m.actIval m.prepIval
    exact ⟨⟨hKept.sound, hKept.tid, hKept.monoNs⟩,
      hGroup, hQuits, fun hNot => absurd hFollow.1 hNot⟩
  · exact ⟨hStamp.keeps hSound, rfl, id, fun _ => hStamp⟩

/-- The group after the sender was recorded, admitted, dropped or discarded. -/
structure Updated (C : Prop) (e : RvFt) (m : FtPeerMsg) (applied : Bool) (a : RvFt) : Prop where
  frame : e.Frame a
  ledger : a.group.Ledger C
  me : (e.group.peer .me).Same (a.group.peer .me)
  meMem : .me ∈ a.group.live ↔ .me ∈ e.group.live
  order : e.Ordered → a.Ordered
  peers : ∀ r ∈ a.group.live, r ≠ .me →
    (r ∈ e.group.live ∧ (e.group.peer r).Same (a.group.peer r) ∧
      (applied = true → (a.group.peer r).startNs ≠ m.startNs)) ∨
    (applied = true ∧ (a.group.peer r).startNs = m.startNs ∧
      (a.group.peer r).state = m.state ∧ (a.group.peer r).weight = m.weight)
  others : ∀ r ∈ e.group.live, r ≠ .me → (e.group.peer r).startNs ≠ m.startNs →
    r ∈ a.group.live ∧ (e.group.peer r).Same (a.group.peer r)

theorem Updated.state {e a : RvFt} {m : FtPeerMsg} {applied : Bool}
    (h : Updated C e m applied a) : a.me.state = e.me.state :=
  h.me.state

theorem Updated.sound {e a : RvFt} {m : FtPeerMsg} {applied : Bool} (hSound : e.Sound C)
    (h : Updated C e m applied a) : a.Sound C := by
  have hState := h.state
  refine hSound.frame h.frame.toBase h.ledger ?_ ?_ ?_ ?_
  · rw [hState, h.meMem]
    exact hSound.absent
  · rw [hState, h.meMem]
    exact hSound.present
  · rw [hState]
    exact hSound.joinTimer
  · rw [hState]
    exact hSound.beatTimer

/-- Nothing is recorded. -/
theorem Updated.discarded {e : RvFt} (h : e.group.Ledger C) (m : FtPeerMsg) :
    Updated C e m false e :=
  ⟨Frame.refl e, h, FtPeer.Same.refl _, Iff.rfl, id,
    fun _ hr _ => Or.inl ⟨hr, FtPeer.Same.refl _, fun hEq => by cases hEq⟩,
    fun _ hr _ _ => ⟨hr, FtPeer.Same.refl _⟩⟩

/-- Nobody is known under the start time of a message. -/
theorem Updated.unknown {e : RvFt} (h : e.group.Ledger C) {m : FtPeerMsg}
    (hFind : e.group.find m.startNs = none) : Updated C e m true e ∧ Gone m e.group := by
  have hGone : Gone m e.group := by
    intro r hr hne hEq
    obtain ⟨s, hs⟩ := mem_indexed.mp ((h.matched r).mpr ⟨hr, hne⟩)
    rw [h.booked.start s r hs] at hEq
    subst hEq
    exact find_eq_none hFind r hs
  refine ⟨⟨Frame.refl e, h, FtPeer.Same.refl _, Iff.rfl, id, ?_,
    fun _ hr _ _ => ⟨hr, FtPeer.Same.refl _⟩⟩, hGone⟩
  intro r hr hne
  exact Or.inl ⟨hr, FtPeer.Same.refl _, fun _ => hGone r hr hne⟩

theorem Updated.dropped {e : RvFt} {h : FtGroup} {m : FtPeerMsg} {p : PeerRef}
    (hLedger : e.group.Ledger C) (hPlaced : h.Placed) (hBooked : h.Booked C) (hApart : h.Apart)
    (hMem : (m.startNs, p) ∈ h.peerHt) (hMatched : h.MatchedBut p) (hLive : h.live = e.group.live)
    (hPeer : ∀ r, r ≠ p → h.peer r = e.group.peer r)
    (hKnown : p ∈ e.group.live → (e.group.peer p).startNs = m.startNs) {state : FtState}
    (hState : state.counted = false) :
    Updated C e m true (e.withGroup (h.dropPeer p state)) ∧
      Remain e.group (h.dropPeer p state) ∧ Gone m (h.dropPeer p state) := by
  have hp : p ≠ .me := hBooked.others _ _ hMem
  obtain ⟨hDropped, hErased, hSame⟩ := dropPeer_spec hPlaced hBooked hApart hMem hMatched hState
  have hSame' : ∀ r, r ≠ p → (e.group.peer r).Same ((h.dropPeer p state).peer r) := by
    intro r hr
    rw [← hPeer r hr]
    exact hSame r hr
  have hIn : ∀ r, r ∈ (h.dropPeer p state).live ↔ r ≠ p ∧ r ∈ e.group.live := by
    intro r
    rw [hErased, hLive, hLedger.placed.nodup.mem_erase_iff]
  have hMe := hSame' .me hp.symm
  have hRemain : Remain e.group (h.dropPeer p state) := by
    intro r hr _
    exact ⟨((hIn r).mp hr).2, hSame' r ((hIn r).mp hr).1⟩
  have hGone : Gone m (h.dropPeer p state) := by
    intro r hr hne hEq
    obtain ⟨hrp, hOld⟩ := (hIn r).mp hr
    have hIndexed : r ∈ h.indexed := (hMatched r hrp).mpr ⟨by rw [hLive]; exact hOld, hne⟩
    obtain ⟨s, hs⟩ := mem_indexed.mp hIndexed
    have hStart : (h.peer r).startNs = m.startNs := by
      rw [← hEq]
      exact (hSame r hrp).startNs.symm
    rw [hBooked.start s r hs] at hStart
    subst hStart
    exact hrp (hBooked.unique hs hMem)
  refine ⟨⟨Frame.withGroup e _, hDropped, hMe, ?_, ?_, ?_, ?_⟩, hRemain, hGone⟩
  · change .me ∈ (h.dropPeer p state).live ↔ _
    rw [hIn]
    exact ⟨And.right, fun hIn => ⟨hp.symm, hIn⟩⟩
  · intro hOrder
    change (h.dropPeer p state).Descending (h.dropPeer p state).live
    rw [hErased, hLive]
    refine Descending.congr (List.Pairwise.sublist List.erase_sublist hOrder) ?_
    intro r hr
    exact (hSame' r ((hLedger.placed.nodup.mem_erase_iff).mp hr).1).rank
  · intro r hr hne
    obtain ⟨hrp, hOld⟩ := (hIn r).mp hr
    exact Or.inl ⟨hOld, hSame' r hrp, fun _ => hGone r hr hne⟩
  · intro r hr hne hStart
    have hrp : r ≠ p := by
      rintro rfl
      exact hStart (hKnown hr)
    exact ⟨(hIn r).mpr ⟨hrp, hr⟩, hSame' r hrp⟩

/-- A peer that goes back to the listen state is dropped. -/
theorem Updated.left {e : RvFt} (h : e.group.Ledger C) {m : FtPeerMsg} {p : PeerRef}
    (hFind : e.group.find m.startNs = some p) :
    Updated C e m true (e.withGroup (e.group.dropPeer p .listen)) ∧
      Remain e.group (e.group.dropPeer p .listen) ∧ Gone m (e.group.dropPeer p .listen) := by
  have hMem := h.booked.find_eq_some.mp hFind
  exact Updated.dropped h h.placed h.booked h.apart hMem (fun r _ => h.matched r) rfl
    (fun _ _ => rfl) (fun _ => h.booked.start _ _ hMem) rfl

/-- A peer that exits is recorded and dropped. -/
theorem Updated.exited {e : RvFt} (h : e.group.Ledger C) {m : FtPeerMsg} {p : PeerRef}
    {group : FtGroup} (hRec : e.group.Recorded C m p group)
    (hStart : m.startNs ≠ e.me.startNs) :
    Updated C e m true (e.withGroup (group.dropPeer p .finish)) :=
  (Updated.dropped h (hRec.placed h) hRec.booked (hRec.apart h hStart) hRec.entry
    (hRec.matchedBut h) hRec.live hRec.peer
    (fun hLive => hRec.known ((h.matched p).mpr ⟨hLive, hRec.ne_me⟩)) rfl).1

/-- Any other peer is recorded and put in its place. -/
theorem Updated.admitted {e : RvFt} (h : e.group.Ledger C) {m : FtPeerMsg} {p : PeerRef}
    {group : FtGroup} (hRec : e.group.Recorded C m p group)
    (hStart : m.startNs ≠ e.me.startNs) :
    Updated C e m true (e.withGroup (group.update p)) := by
  obtain ⟨hLedger, hMem, hSame, hOrder⟩ := hRec.admitted h hStart
  have hPeer : ∀ r, r ≠ p → (e.group.peer r).Same ((group.update p).peer r) := by
    intro r hr
    rw [← hRec.peer r hr]
    exact hSame r
  have hMe := hPeer .me hRec.ne_me.symm
  have hSender : ((group.update p).peer p).startNs = m.startNs := by
    rw [(hSame p).startNs]
    exact hRec.start
  refine ⟨Frame.withGroup e _, hLedger, hMe, ?_, hOrder, ?_, ?_⟩
  · change .me ∈ (group.update p).live ↔ _
    rw [hMem]
    exact ⟨fun hIn => hIn.resolve_left hRec.ne_me.symm, Or.inr⟩
  · intro r hr hne
    by_cases hrp : r = p
    · subst hrp
      refine Or.inr ⟨rfl, hSender, ?_, ?_⟩
      · exact ((hSame r).state).trans hRec.state
      · exact ((hSame r).weight).trans hRec.weight
    · refine Or.inl ⟨((hMem r).mp hr).resolve_left hrp, hPeer r hrp, fun _ hEq => ?_⟩
      have hpLive : p ∈ (group.update p).live := (hMem p).mpr (Or.inl rfl)
      refine hLedger.start_ne (hLedger.mem_members hr) (hLedger.mem_members hpLive) hrp ?_
      rw [hSender]
      exact hEq
  · intro r hr hne hOther
    have hrp : r ≠ p := by
      rintro rfl
      exact hOther (hRec.known ((h.matched r).mpr ⟨hr, hne⟩))
    exact ⟨(hMem r).mpr (Or.inr hr), hPeer r hrp⟩

section Stages

variable {f e a g : RvFt} {m : FtPeerMsg}

/-- What is known after the group was updated, before the rank is looked at. -/
theorem Updated.order_of (hRec : Received C f e) (hUp : Updated C e m (f.applies m) a)
    (hOrder : f.Ordered) : a.Ordered := by
  refine hUp.order ?_
  unfold Ordered at hOrder ⊢
  rw [hRec.group]
  exact hOrder

theorem Updated.state_of (hRec : Received C f e) (hUp : Updated C e m (f.applies m) a) :
    a.me.state = f.me.state := by
  rw [hUp.state, hRec.me]

theorem Updated.peers_of (hRec : Received C f e) (hUp : Updated C e m (f.applies m) a) :
    f.PeersAfter m a.group := by
  intro r hr hne
  have hPeers := hUp.peers r hr hne
  rw [hRec.group] at hPeers
  exact hPeers

theorem Updated.kept_of (hRec : Received C f e) (hUp : Updated C e m (f.applies m) a) :
    f.Kept C a :=
  hRec.toKept.trans_base hUp.frame.toBase (hUp.sound hRec.sound)

theorem Updated.quits_of (hRec : Received C f e) (hUp : Updated C e m (f.applies m) a)
    (hMem : (f.tid, .finish) ∈ a.timers) : (f.tid, .finish) ∈ f.timers := by
  refine hRec.quits ?_
  rw [← hRec.tid] at hMem ⊢
  exact hUp.frame.kept .finish (by simp) (by simp) hMem

theorem Updated.expired_of (hRec : Received C f e) (hUp : Updated C e m (f.applies m) a)
    (hExpired : f.Ranked → f.Expired) (hRanked : a.Ranked) : a.Expired := by
  have hState := hUp.state_of hRec
  unfold Ranked at hRanked
  rw [hState] at hRanked
  have hQuiet := hRec.quiet (by rcases hRanked with hEq | hEq <;> rw [hEq] <;> simp)
  rw [hUp.frame.expired, hQuiet.expired]
  exact hExpired hRanked

/-- Nothing follows that depends on the rank. -/
theorem Updated.heard (hRec : Received C f e) (hUp : Updated C e m (f.applies m) a)
    (hPrimary : f.me.state = .primary → m.type = .finish ∨ (f.applies m = true → Gone m a.group))
    (hLaw : f.KeepsRank m → f.Ordered → (f.Ranked → f.Expired) → Lawful f.group →
      Lawful a.group) : f.Heard C m a := by
  have hState := hUp.state_of hRec
  refine ⟨hUp.kept_of hRec, hUp.order_of hRec, ?_, ?_, hUp.expired_of hRec, hUp.quits_of hRec,
    hUp.peers_of hRec, ?_, hLaw⟩
  · rw [hState]
    exact id
  · rw [hState]
    exact id
  · intro _ hEq
    rw [hState] at hEq
    exact Or.inr ⟨hEq, hPrimary hEq⟩

/-- The check of the rank follows. -/
theorem Updated.heard_checked (hRec : Received C f e) (hUp : Updated C e m (f.applies m) a)
    (hCheck : a.Checked C g) : f.Heard C m g := by
  have hState := hUp.state_of hRec
  have hSound := hUp.sound hRec.sound
  have hKept := hUp.kept_of hRec
  have hFrame := hCheck.frame
  have hGSound : g.Sound C := by
    refine hSound.frame hFrame.toBase hCheck.ledger ?_ ?_ ?_ ?_
    · rw [hCheck.live]
      intro hEq
      rcases hCheck.state with hSame | ⟨-, hEq' | hEq'⟩
      · exact hSound.absent (hSame ▸ hEq)
      · rw [hEq'] at hEq
        cases hEq
      · rw [hEq'] at hEq
        cases hEq
    · rw [hCheck.live]
      intro hEq
      rcases hCheck.state with hSame | ⟨hOld, -⟩
      · exact hSound.present (hSame ▸ hEq)
      · exact hSound.ranked_mem hOld
    · intro hMem
      have hListen := hSound.joinTimer hMem
      rcases hCheck.state with hSame | ⟨hOld | hOld, -⟩
      · rw [hSame]
        exact hListen
      · rw [hOld] at hListen
        cases hListen
      · rw [hOld] at hListen
        cases hListen
    · intro hMem
      rcases hCheck.state with hSame | ⟨-, hNew | hNew⟩
      · rw [hSame]
        exact hSound.beatTimer hMem
      · rw [hNew]
        simp
      · rw [hNew]
        simp
  refine ⟨hKept.trans_base hFrame.toBase hGSound,
    fun hOrder => hCheck.order (hUp.order_of hRec hOrder), ?_, ?_, ?_, ?_,
    (hUp.peers_of hRec).same (by rw [hCheck.live]; exact fun _ hr => hr) hCheck.peer, ?_,
    fun _ _ _ _ => hCheck.law⟩
  · intro hEq
    rcases hCheck.state with hSame | ⟨-, hNew | hNew⟩
    · rw [← hState, ← hSame]
      exact hEq
    · rw [hNew] at hEq
      cases hEq
    · rw [hNew] at hEq
      cases hEq
  · intro hIdle
    rw [← hState] at hIdle
    rcases hCheck.state with hSame | ⟨hOld | hOld, -⟩
    · rw [hSame]
      exact hIdle
    · rw [hOld] at hIdle
      cases hIdle
    · rw [hOld] at hIdle
      cases hIdle
  · intro hExpired hRanked
    have hOld : a.Ranked := by
      rcases hCheck.state with hSame | ⟨hOld, -⟩
      · unfold Ranked at hRanked ⊢
        rw [← hSame]
        exact hRanked
      · exact hOld
    rw [hFrame.expired]
    exact hUp.expired_of hRec hExpired hOld
  · intro hMem
    refine hUp.quits_of hRec ?_
    rw [← hKept.tid] at hMem ⊢
    exact hFrame.kept .finish (by simp) (by simp) hMem
  · exact fun _ hEq => Or.inl (hCheck.law.1 hEq)

theorem outranks_iff {m : FtPeerMsg} {x y z : FtPeer} (hStart : x.startNs = m.startNs)
    (hState : x.state = m.state) (hWeight : x.weight = m.weight) (hRank : y.SameRank z) :
    outranks m y = true ↔ x.isGreater z = true := by
  have hSender : FtPeer.SameRank { startNs := m.startNs, weight := m.weight, state := m.state } x :=
    ⟨by simp only [FtPeer.level, hState], hWeight, hStart⟩
  have hBack : FtPeer.SameRank x { startNs := m.startNs, weight := m.weight, state := m.state } :=
    ⟨hSender.level.symm, hSender.weight.symm, hSender.startNs.symm⟩
  have hRank' : z.SameRank y := ⟨hRank.level.symm, hRank.weight.symm, hRank.startNs.symm⟩
  exact ⟨hSender.isGreater hRank, hBack.isGreater hRank'⟩

/-- The first entry of a queue in order is not below another. -/
theorem not_heads {g : FtGroup} {r : PeerRef} (hOrder : g.Descending g.live) (hr : r ∈ g.live)
    (hne : r ≠ .me) (hAbove : (g.peer r).isGreater (g.peer .me) = true) : ¬ g.Heads := by
  intro hHeads
  have hBelow := head_isGreater hOrder hHeads hr hne
  rw [isGreater_asymm hBelow] at hAbove
  cases hAbove

/-- An entry above all others of a queue in order is the first. -/
theorem heads_of_below {g : FtGroup} (hOrder : g.Descending g.live) (hMe : .me ∈ g.live)
    (hBelow : ∀ r ∈ g.live, r ≠ .me → (g.peer .me).isGreater (g.peer r) = true) : g.Heads := by
  obtain ⟨x, rest, hLive⟩ := List.exists_cons_of_ne_nil (List.ne_nil_of_mem hMe)
  have hHead : g.live.head? = some x := by rw [hLive]; rfl
  by_cases hx : x = .me
  · rw [Heads, hHead, hx]
  · have hAbove := head_isGreater hOrder hHead hMe (Ne.symm hx)
    rw [isGreater_asymm (hBelow x (List.mem_of_mem_head? hHead) hx)] at hAbove
    cases hAbove

/-- A peer besides the sender still keeps a secondary from being first. -/
theorem Updated.not_heads_besides (hRec : Received C f e) (hUp : Updated C e m (f.applies m) a)
    (hOrder : f.Ordered) (hBesides : f.outrankedBesides m = true) : ¬ a.group.Heads := by
  obtain ⟨r, hr, hTest⟩ := List.any_eq_true.mp hBesides
  simp only [Bool.and_eq_true, decide_eq_true_eq] at hTest
  obtain ⟨⟨hne, hStart⟩, hAbove⟩ := hTest
  have hOthers := hUp.others r
  rw [hRec.group] at hOthers
  obtain ⟨hIn, hSame⟩ := hOthers hr hne hStart
  have hMe := hUp.me
  rw [hRec.group] at hMe
  exact not_heads (hUp.order_of hRec hOrder) hIn hne (hSame.rank.isGreater hMe.rank hAbove)

/-- A finish message before the takeover that it may start. -/
theorem Updated.lawful_finish (hSound : f.Sound C) (hRec : Received C f e)
    (hUp : Updated C e m (f.applies m) a)
    (hType : m.type = .finish) (hState : m.state ≠ .listen) (hApplied : f.applies m = true)
    {p : PeerRef} (hp : p ∈ a.group.live) (hne : p ≠ .me)
    (hStart : (a.group.peer p).startNs = m.startNs) (hSt : (a.group.peer p).state = m.state)
    (hWt : (a.group.peer p).weight = m.weight)
    (hKeeps : f.KeepsRank m) (hOrder : f.Ordered) (hLaw : Lawful f.group) :
    Lawful a.group := by
  obtain ⟨hPrimary, hSecondary⟩ := hKeeps.2 hType ⟨hState, hApplied⟩
  have hSame := hUp.state_of hRec
  have hMe := hUp.me
  rw [hRec.group] at hMe
  have hMeMem := hUp.meMem
  rw [hRec.group] at hMeMem
  have hOrdered := hUp.order_of hRec hOrder
  unfold Lawful
  change (a.me.state = _ → _) ∧ (a.me.state = _ → _)
  rw [hSame]
  refine ⟨fun hEq => ?_, fun hEq => ?_⟩
  · have hHeads := hLaw.1 hEq
    have hIn : .me ∈ a.group.live := hMeMem.mpr (hSound.ranked_mem (Or.inl hEq))
    refine heads_of_below hOrdered hIn ?_
    intro x hx hxMe
    rcases hUp.peers_of hRec x hx hxMe with ⟨hOld, hPeer, -⟩ | ⟨-, hxStart, hxSt, hxWt⟩
    · exact hMe.rank.isGreater hPeer.rank (head_isGreater hOrder hHeads hOld hxMe)
    · have hOut : ¬ outranks m f.me = true := by rw [hPrimary hEq]; simp
      have hBelow := fun hAbove => hOut ((outranks_iff hxStart hxSt hxWt hMe.rank).mpr hAbove)
      have hApart : (a.group.peer x).startNs ≠ (a.group.peer .me).startNs :=
        hUp.ledger.start_ne (hUp.ledger.mem_members hx) (hUp.ledger.mem_members hIn) hxMe
      exact isGreater_total hApart (by simpa using hBelow)
  · rcases hSecondary hEq with hOut | hBesides
    · exact not_heads hOrdered hp hne ((outranks_iff hStart hSt hWt hMe.rank).mp hOut)
    · exact hUp.not_heads_besides hRec hOrder hBesides

/-- A takeover follows. -/
theorem Updated.heard_settled (hRec : Received C f e) (hUp : Updated C e m (f.applies m) a)
    (hCounted : f.me.state.counted = true) (hFrame : a.Frame g) (hExpired : a.Expired)
    (hSettled : a.group.Settled C g.group) : f.Heard C m g := by
  have hSound := hUp.sound hRec.sound
  have hKept := hUp.kept_of hRec
  have hRank : g.Ranked := by
    rcases hSettled.rank with ⟨hEq, -⟩ | ⟨hEq, -⟩
    · exact Or.inl hEq
    · exact Or.inr hEq
  have hLaw : f.Ordered → Lawful g.group := fun hOrder =>
    Settled.lawful hSettled (hUp.order_of hRec hOrder)
  refine ⟨hKept.trans_base hFrame.toBase (hSound.frame hFrame.toBase hSettled.ledger ?_ ?_ ?_ ?_),
    ?_, ?_, ?_, ?_, ?_,
    (hUp.peers_of hRec).same (fun r hr => (hSettled.mem r).mp hr) hSettled.peer, ?_, ?_⟩
  · intro hEq
    rcases hRank with hEq' | hEq' <;> rw [hEq'] at hEq <;> cases hEq
  · intro _
    exact (hSettled.mem .me).mpr hSettled.present
  · intro hMem
    have hState := hSound.joinTimer hMem
    rw [hUp.state_of hRec] at hState
    rw [hState] at hCounted
    cases hCounted
  · intro _
    rcases hRank with hEq | hEq <;> rw [hEq] <;> simp
  · intro hOrder
    exact hSettled.order (hUp.order_of hRec hOrder)
  · intro hEq
    rcases hRank with hEq' | hEq' <;> rw [hEq'] at hEq <;> cases hEq
  · intro hIdle
    rw [hIdle] at hCounted
    cases hCounted
  · intro _ _
    exact hFrame.expired.mpr hExpired
  · intro hMem
    apply hUp.quits_of hRec
    rw [← hKept.tid] at hMem ⊢
    exact hFrame.kept .finish (by simp) (by simp) hMem
  · exact fun hOrder hEq => Or.inl ((hLaw hOrder).1 hEq)
  · exact fun _ hOrder _ _ => hLaw hOrder

/-- The sender leaves, or is not there. -/
theorem Updated.lawful_left (hSound : f.Sound C) (hRec : Received C f e)
    (hUp : Updated C e m (f.applies m) a) (hRemain : Remain e.group a.group)
    (hState : m.state = .listen) (hKeeps : f.KeepsRank m) (hOrder : f.Ordered)
    (hLaw : Lawful f.group) : Lawful a.group := by
  have hSame := hUp.state_of hRec
  have hMe := hUp.me
  have hMeMem := hUp.meMem
  rw [hRec.group] at hMe hMeMem hRemain
  unfold Lawful
  change (a.me.state = _ → _) ∧ (a.me.state = _ → _)
  rw [hSame]
  refine ⟨fun hEq => ?_, fun hEq => ?_⟩
  · have hIn : .me ∈ a.group.live := hMeMem.mpr (hSound.ranked_mem (Or.inl hEq))
    refine heads_of_below (hUp.order_of hRec hOrder) hIn ?_
    intro x hx hxMe
    obtain ⟨hOld, hPeer⟩ := hRemain x hx hxMe
    exact hMe.rank.isGreater hPeer.rank (head_isGreater hOrder (hLaw.1 hEq) hOld hxMe)
  · exact hUp.not_heads_besides hRec hOrder (hKeeps.1 hState hEq)

end Stages

/-- The sender is back in the listen state: it leaves, where it is there. -/
theorem onPeerMsg_ofListen {f : RvFt} {m : FtPeerMsg} (hState : m.state = .listen)
    {sender : Option PeerRef} (hFind : (f.received m).group.find m.startNs = sender) :
    f.onPeerMsg m = some ((sender.elim (f.received m) fun p =>
      (f.received m).withGroup ((f.received m).group.dropPeer p .listen)).notifyUpdate.ackAnnounce m) := by
  rw [received] at hFind ⊢
  cases sender <;> simp only [onPeerMsg, hState, if_true, Option.pure_def, hFind, Option.elim]

theorem onPeerMsg_listen {f : RvFt} (h : f.Sound C) {m : FtPeerMsg} (hState : m.state = .listen) :
    ∃ g, f.onPeerMsg m = some g ∧ f.Heard C m g := by
  have hRec := received_spec h m
  have hApplies : f.applies m = true := by simp [applies, hState]
  have hLeft : ∃ a, f.onPeerMsg m = some (a.notifyUpdate.ackAnnounce m) ∧
      Updated C (f.received m) m (f.applies m) a ∧ Remain (f.received m).group a.group ∧
      Gone m a.group := by
    rw [hApplies]
    cases hFind : (f.received m).group.find m.startNs with
    | none =>
        obtain ⟨hUp, hGone⟩ := Updated.unknown hRec.sound.ledger hFind
        exact ⟨_, onPeerMsg_ofListen hState hFind, hUp, Remain.refl _, hGone⟩
    | some p => exact ⟨_, onPeerMsg_ofListen hState hFind, Updated.left hRec.sound.ledger hFind⟩
  obtain ⟨a, hCall, hUp, hRemain, hGone⟩ := hLeft
  rw [hCall]
  refine ⟨_, rfl, Heard.trans_quiet (Heard.trans_quiet (hUp.heard hRec ?_ ?_)
    (.notifyUpdate a)) (.ackAnnounce _ m)⟩
  · exact fun _ => Or.inr (fun _ => hGone)
  · intro hKeeps hOrder _ hLaw
    exact hUp.lawful_left h hRec hRemain hState hKeeps hOrder hLaw

theorem onPeerMsg_discarded {f : RvFt} (h : f.Sound C) {m : FtPeerMsg} (hState : m.state ≠ .listen)
    (hDiscards : (f.received m).discards m = true)
    (hRecord : (f.received m).recordPeer m = some none) :
    f.onPeerMsg m = some (f.received m) ∧ f.Heard C m (f.received m) := by
  have hRec := received_spec h m
  have hApplies : f.applies m = false := by simp [applies, hState, hDiscards]
  have hUp : Updated C (f.received m) m (f.applies m) (f.received m) := by
    rw [hApplies]
    exact .discarded hRec.sound.ledger m
  refine ⟨?_, hUp.heard hRec ?_ ?_⟩
  · simp only [onPeerMsg, hState, if_false, Option.bind_eq_bind]
    change ((f.received m).recordPeer m).bind _ = _
    rw [hRecord]
    rfl
  · intro _
    rw [hApplies]
    exact Or.inr (fun hEq => by cases hEq)
  · intro _ _ _ hLaw
    rw [hRec.group]
    exact hLaw

/-- `on_peer_msg` after the sender was recorded. -/
def seat (e : RvFt) (m : FtPeerMsg) (group : FtGroup) (p : PeerRef) : Option RvFt :=
  if m.type ≠ .exiting then do
    let f := e.withGroup (group.update p)
    if f.me.state = .listen then return f.notifyUpdate
    else if m.type = .finish then
      let f ← if f.group.ptr 0 = some p then
          f.prepareTakeover setState .finish m.finTime
        else some f
      return f.notifyUpdate
    else
      let f ← f.checkRank
      return f.notifyUpdate.ackAnnounce m
  else do
    let f := e.withGroup (group.dropPeer p .finish)
    let f ← f.checkRank
    return f.notifyUpdate.ackAnnounce m

theorem onPeerMsg_seat {f : RvFt} {m : FtPeerMsg} (hState : m.state ≠ .listen) {group : FtGroup}
    {p : PeerRef} (hRecord : (f.received m).recordPeer m =
      some (some ((f.received m).withGroup group, p))) :
    f.onPeerMsg m = (f.received m).seat m group p := by
  simp only [onPeerMsg, hState, if_false, Option.bind_eq_bind]
  change ((f.received m).recordPeer m).bind _ = _
  rw [hRecord]
  rfl


/-- The check of the rank at the end of `on_peer_msg`. -/
theorem Updated.checks {f e a : RvFt} {m : FtPeerMsg} (hRec : Received C f e)
    (hUp : Updated C e m (f.applies m) a) :
    ∃ g, a.checkRank = some g ∧ f.Heard C m (g.notifyUpdate.ackAnnounce m) := by
  obtain ⟨g, hCheck, hChecked⟩ := checkRank_spec hUp.ledger (hUp.sound hRec.sound).ranked_mem
  refine ⟨g, hCheck, ?_⟩
  have hQuiet := (Quiet.notifyUpdate g).trans (Quiet.ackAnnounce g.notifyUpdate m)
  exact (hUp.heard_checked hRec hChecked).trans_quiet hQuiet

/-- A finish message of a recorded peer. -/
theorem Updated.finishes {f e a : RvFt} {m : FtPeerMsg} {p : PeerRef} (hSound : f.Sound C)
    (hRec : Received C f e) (hUp : Updated C e m (f.applies m) a) (hType : m.type = .finish)
    (hState : m.state ≠ .listen) (hApplied : f.applies m = true) (hListen : a.me.state ≠ .listen)
    (hp : p ∈ a.group.live) (hne : p ≠ .me) (hStart : (a.group.peer p).startNs = m.startNs)
    (hSt : (a.group.peer p).state = m.state) (hWt : (a.group.peer p).weight = m.weight) :
    ∃ g, (if a.group.ptr 0 = some p then a.prepareTakeover setState .finish m.finTime
      else some a) = some g ∧ f.Heard C m g.notifyUpdate := by
  have hFirst : f.Heard C m a := by
    refine hUp.heard hRec (fun _ => Or.inl hType) ?_
    intro hKeeps hOrder _ hLaw
    exact hUp.lawful_finish hSound hRec hType hState hApplied hp hne hStart hSt hWt hKeeps hOrder
      hLaw
  split
  · rename_i hPtr
    have hLive := List.ne_nil_of_mem hp
    have hAfter := hUp.sound hRec.sound
    by_cases hFinish : a.me.state = .finish
    · -- `me` is done and behind the sender: nothing is taken over
      obtain ⟨g, hCall, hFrame, ⟨hGroup, -⟩ | ⟨hHeads, -⟩⟩ := prepareTakeover_settled hLive
        (by rw [hFinish]; simp) 2 .finish m.finTime
      · exact ⟨g, hCall, (hFirst.trans_quiet ⟨hFrame, hGroup⟩).trans_quiet (.notifyUpdate g)⟩
      · rw [ptr_zero hLive] at hPtr
        rw [Heads, hPtr] at hHeads
        exact absurd (Option.some.inj hHeads) hne
    obtain ⟨g, hCall, hFrame, hResult⟩ := prepareTakeover_spec hUp.ledger hLive hListen
      (fun hEq => hAfter.present (by rw [hEq]; rfl)) 1 .finish m.finTime
    refine ⟨g, hCall, Heard.trans_quiet ?_ (.notifyUpdate g)⟩
    rcases hResult with ⟨hGroup, -⟩ | ⟨hExpired, hSettled⟩
    · exact hFirst.trans_quiet ⟨hFrame, hGroup⟩
    · have hCounted : f.me.state.counted = true := by
        rw [hUp.state_of hRec] at hListen hFinish
        revert hListen hFinish
        cases f.me.state <;> simp [FtState.counted]
      exact hUp.heard_settled hRec hCounted hFrame hExpired hSettled
  · exact ⟨a, rfl, hFirst.trans_quiet (.notifyUpdate a)⟩

theorem seat_heard {f : RvFt} (h : f.Sound C) {m : FtPeerMsg} (hState : m.state ≠ .listen)
    (hApplied : f.applies m = true) (hStart : m.startNs ≠ f.me.startNs) {group : FtGroup}
    {p : PeerRef} (hRecorded : (f.received m).group.Recorded C m p group) :
    ∃ g, (f.received m).seat m group p = some g ∧ f.Heard C m g := by
  have hRec := received_spec h m
  have hStart' : m.startNs ≠ (f.received m).me.startNs := by
    rw [hRec.me]
    exact hStart
  unfold seat
  by_cases hExiting : m.type = .exiting
  · have hUp := Updated.exited hRec.sound.ledger hRecorded hStart'
    rw [← hApplied] at hUp
    obtain ⟨g, hCheck, hHeard⟩ := hUp.checks hRec
    refine ⟨_, ?_, hHeard⟩
    simp [hExiting, hCheck]
  · have hUp := Updated.admitted hRec.sound.ledger hRecorded hStart'
    obtain ⟨-, hMem, hSame, -⟩ := hRecorded.admitted hRec.sound.ledger hStart'
    rw [← hApplied] at hUp
    simp only [ne_eq, hExiting, not_false_eq_true, if_true, Option.bind_eq_bind, Option.pure_def]
    by_cases hListen : ((f.received m).withGroup (group.update p)).me.state = .listen
    · rw [if_pos hListen]
      have hNot : ¬ f.Ranked := by
        rw [hUp.state_of hRec] at hListen
        unfold Ranked
        rw [hListen]
        simp
      refine ⟨_, rfl, Heard.trans_quiet (hUp.heard hRec ?_ ?_) (.notifyUpdate _)⟩
      · exact fun hEq => absurd (Or.inl hEq) hNot
      · intro _ _ _ _
        unfold Lawful
        change ((RvFt.me _).state = _ → _) ∧ ((RvFt.me _).state = _ → _)
        rw [hListen]
        simp
    · rw [if_neg hListen]
      by_cases hType : m.type = .finish
      · rw [if_pos hType]
        obtain ⟨g, hCall, hHeard⟩ := hUp.finishes h hRec hType hState hApplied hListen
          ((hMem p).mpr (Or.inl rfl)) hRecorded.ne_me ((hSame p).startNs.trans hRecorded.start)
          ((hSame p).state.trans hRecorded.state) ((hSame p).weight.trans hRecorded.weight)
        refine ⟨_, ?_, hHeard⟩
        split at hCall
        · rename_i hFirst
          rw [if_pos hFirst, hCall]
          rfl
        · rename_i hLater
          rw [if_neg hLater]
          exact congrArg (Option.map notifyUpdate) hCall
      · rw [if_neg hType]
        obtain ⟨g, hCheck, hHeard⟩ := hUp.checks hRec
        refine ⟨_, ?_, hHeard⟩
        rw [hCheck]
        rfl

/-- Every message of another member is handled. -/
theorem onPeerMsg_heard {f : RvFt} (h : f.Sound C) {m : FtPeerMsg}
    (hStart : m.startNs ≠ f.me.startNs) : ∃ g, f.onPeerMsg m = some g ∧ f.Heard C m g := by
  by_cases hState : m.state = .listen
  · exact onPeerMsg_listen h hState
  · rcases recordPeer_spec (received_spec h m).sound.ledger.booked m with
      ⟨hDiscards, hRecord⟩ | ⟨hKeeps, group, p, hRecord, hRecorded⟩
    · exact ⟨_, onPeerMsg_discarded h hState hDiscards hRecord⟩
    · rw [onPeerMsg_seat hState hRecord]
      exact seat_heard h hState (by simp [applies, hKeeps]) hStart hRecorded

end RvFt

end Sassrv.Ft
