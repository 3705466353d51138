import Mathlib.Data.List.Chain
import Sassrv.Rv7.FtMember

/-! The callbacks of an rv7 fault tolerance member alternate, and it keeps at most one
timer, as long as no other call comes into the window in which `do_callback` has
released the mutex. Inside the window the member is neither what it was nor what it
will be: the heartbeat timer, which stands for being active, comes after it. -/
namespace Sassrv.Rv7.Ft
open SubMgr Transition

/-- The callbacks between which a member alternates. -/
def switches (out : List FtOutput) : List Action :=
  out.filterMap fun
    | .callback .activate => some .activate
    | .callback .deactivate => some .deactivate
    | _ => none

/-- Strictly alternating, from `ACTIVATE` on. -/
def Alternates (l : List Action) : Prop :=
  l.IsChain (· ≠ ·) ∧ l.head? ≠ some .deactivate

/-- The member has one record of its own, and that has not stopped. -/
structure FtMember.Seated (m : FtMember) : Prop where
  nodup : (m.peers.map FtPeer.inbox).Nodup
  own : ∃ x, findPeer m.self m.peers = some x ∧ x.isStopped = false

namespace FtWork

/-- Nothing has been done to the timers. -/
structure Fixed (w w' : FtWork) : Prop where
  timers : w'.timers = w.timers
  ids : ∀ kind, w'.member.idOf kind = w.member.idOf kind

/-- No member has gone and no callback has been made that counts. -/
structure Same (w w' : FtWork) : Prop where
  self : w'.member.self = w.member.self
  seated : w.member.Seated → w'.member.Seated
  isDestroyed : w'.member.isDestroyed = w.member.isDestroyed
  switches : switches w'.out = switches w.out

/-- The place and the activity of the member are what they were, too. -/
structure Calm (w w' : FtWork) : Prop extends Same w w' where
  below : w.member.Seated → w'.isBelowGoal = w.isBelowGoal
  running : w.member.Seated → w'.member.me.isRunning = w.member.me.isRunning

variable {w w' w'' : FtWork} {env : FtEnv} {api : Api} {inbox : Text} {state : FtState}

theorem Fixed.refl (w : FtWork) : Fixed w w := ⟨rfl, fun _ => rfl⟩

theorem Fixed.trans (h : Fixed w w') (h' : Fixed w' w'') : Fixed w w'' :=
  ⟨h'.timers.trans h.timers, fun kind => (h'.ids kind).trans (h.ids kind)⟩

theorem Fixed.hbId (h : Fixed w w') : w'.member.hbId = w.member.hbId := h.ids .hb

theorem Same.trans (h : Same w w') (h' : Same w' w'') : Same w w'' where
  self := h'.self.trans h.self
  seated hSeated := h'.seated (h.seated hSeated)
  isDestroyed := h'.isDestroyed.trans h.isDestroyed
  switches := h'.switches.trans h.switches

theorem Calm.refl (w : FtWork) : Calm w w where
  self := rfl
  seated := id
  isDestroyed := rfl
  switches := rfl
  below _ := rfl
  running _ := rfl

theorem Calm.trans (h : Calm w w') (h' : Calm w' w'') : Calm w w'' where
  toSame := h.toSame.trans h'.toSame
  below hSeated := (h'.below (h.seated hSeated)).trans (h.below hSeated)
  running hSeated := (h'.running (h.seated hSeated)).trans (h.running hSeated)

theorem me_of_find {m : FtMember} {x : FtPeer} (h : findPeer m.self m.peers = some x) :
    m.me = x := by
  rw [FtMember.me, h, Option.getD_some]

/-- Calls that do not touch the own record. -/
structure Aside (w w' : FtWork) : Prop extends Same w w' where
  me : w'.member.me = w.member.me

/-- Calls that touch neither the own record nor the timers. -/
structure Idle (w w' : FtWork) : Prop extends Aside w w', Fixed w w' where

theorem Aside.trans (h : Aside w w') (h' : Aside w' w'') : Aside w w'' :=
  ⟨h.toSame.trans h'.toSame, h'.me.trans h.me⟩

theorem Aside.calm (h : Aside w w') : Calm w w' where
  toSame := h.toSame
  below _ := by rw [isBelowGoal, isBelowGoal, h.me]
  running _ := by rw [h.me]

theorem Aside.refl (w : FtWork) : Aside w w := ⟨(Calm.refl w).toSame, rfl⟩

theorem Idle.refl (w : FtWork) : Idle w w := ⟨.refl w, .refl w⟩

theorem Idle.trans (h : Idle w w') (h' : Idle w' w'') : Idle w w'' :=
  ⟨h.toAside.trans h'.toAside, h.toFixed.trans h'.toFixed⟩

/-- A change of the list that keeps the own record. -/
theorem idle_setPeers {peers : List FtPeer}
    (hNodup : (w.member.peers.map FtPeer.inbox).Nodup → (peers.map FtPeer.inbox).Nodup)
    (hOwn : findPeer w.member.self peers = findPeer w.member.self w.member.peers) :
    Idle w (w.setPeers peers) := by
  refine ⟨⟨⟨rfl, fun hSeated => ⟨hNodup hSeated.nodup, ?_⟩, rfl, rfl⟩, ?_⟩, rfl, ?_⟩
  · change ∃ x, findPeer w.member.self peers = some x ∧ x.isStopped = false
    rw [hOwn]
    exact hSeated.own
  · change (findPeer w.member.self peers).getD _ = _
    rw [hOwn]
    rfl
  · intro kind
    cases kind <;> rfl

theorem fixed_setPeers (w : FtWork) (peers : List FtPeer) : Fixed w (w.setPeers peers) :=
  ⟨rfl, fun kind => by cases kind <;> rfl⟩

theorem fixed_setMe (w : FtWork) (f : FtPeer → FtPeer) : Fixed w (w.setMe f) :=
  ⟨rfl, fun kind => by cases kind <;> rfl⟩

theorem setMe_me {f : FtPeer → FtPeer} (hInbox : ∀ p, (f p).inbox = p.inbox)
    (h : w.member.Seated) : (w.setMe f).member.me = f w.member.me := by
  obtain ⟨x, hFind, -⟩ := h.own
  rw [me_of_find hFind]
  apply me_of_find
  change findPeer w.member.self (modifyPeer w.member.self f w.member.peers) = _
  rw [findPeer_modifyPeer hInbox, hFind, Option.map_some, if_pos (findPeer_some hFind).2]

/-- A change of the own record that does not stop the member. -/
theorem same_setMe {f : FtPeer → FtPeer} (hInbox : ∀ p, (f p).inbox = p.inbox)
    (hStopped : ∀ p, (f p).isStopped = p.isStopped) : Same w (w.setMe f) := by
  refine ⟨rfl, fun hSeated => ?_, rfl, rfl⟩
  obtain ⟨x, hFind, hHere⟩ := hSeated.own
  constructor
  · change ((modifyPeer w.member.self f w.member.peers).map FtPeer.inbox).Nodup
    rw [modifyPeer_inboxes hInbox]
    exact hSeated.nodup
  · refine ⟨f x, ?_, (hStopped x).trans hHere⟩
    change findPeer w.member.self (modifyPeer w.member.self f w.member.peers) = _
    rw [findPeer_modifyPeer hInbox, hFind, Option.map_some, if_pos (findPeer_some hFind).2]

theorem switches_append (l m : List FtOutput) : switches (l ++ m) = switches l ++ switches m :=
  List.filterMap_append

theorem idle_emit {output : FtOutput} (h : switches [output] = []) : Idle w (w.emit output) := by
  refine ⟨⟨⟨rfl, id, rfl, ?_⟩, rfl⟩, rfl, fun _ => rfl⟩
  change switches (w.out ++ [output]) = _
  rw [switches_append, h, List.append_nil]

theorem idle_publish (w : FtWork) (env : FtEnv) (subject : FtSubject) (flds : BitVec 8) :
    Idle w (w.publish env subject flds) :=
  idle_emit rfl

theorem idle_publishRvftsub (w : FtWork) (now : BitVec 64) (cl nm : Text) (de : Option Text) :
    Idle w (w.publishRvftsub now cl nm de).2 := by
  unfold publishRvftsub
  split
  · exact .refl w
  · have hTime : Idle w { w with member := { w.member with fterrTime := now } } :=
      ⟨⟨⟨rfl, fun hSeated => ⟨hSeated.nodup, hSeated.own⟩, rfl, rfl⟩, rfl⟩, rfl,
        fun kind => by cases kind <;> rfl⟩
    exact hTime.trans (idle_emit rfl)

/-- A change of another peer. -/
theorem idle_modifyPeer {f : FtPeer → FtPeer} (hInbox : ∀ p, (f p).inbox = p.inbox)
    (hOther : inbox ≠ w.member.self) :
    Idle w (w.setPeers (modifyPeer inbox f w.member.peers)) := by
  apply idle_setPeers
  · rw [modifyPeer_inboxes hInbox]
    exact id
  · rw [findPeer_modifyPeer hInbox]
    cases hFind : findPeer w.member.self w.member.peers with
    | none => rfl
    | some x =>
        have hKey : x.inbox ≠ inbox := by
          rw [(findPeer_some hFind).2]
          exact hOther.symm
        rw [Option.map_some, if_neg hKey]

theorem idle_warnOnce (api : Api) (differs : Bool) (bit : BitVec 8) (cl de : Text)
    (hOther : inbox ≠ w.member.self) : Idle w (w.warnOnce api inbox differs bit cl de).2 := by
  have hSent := idle_publishRvftsub w api.warned cl (text "PARAM_MISMATCH") (some de)
  unfold warnOnce
  dsimp only
  split
  · split
    · refine hSent.trans (idle_modifyPeer (fun _ => rfl) ?_)
      rw [hSent.self]
      exact hOther
    · exact hSent
  · exact .refl w

theorem idle_checkValues (v : FtValues) (hOther : inbox ≠ w.member.self) :
    Idle w (w.checkValues api inbox v) := by
  unfold checkValues
  dsimp only
  have hFirst := idle_warnOnce api (decide (v.maxActives ≠ w.member.me.activeGoal.setWidth 32))
    1 (text "ERROR") (text "Active goal") hOther
  split
  · exact hFirst
  · have hOther' := hFirst.self ▸ hOther
    have hSecond := hFirst.trans (idle_warnOnce api
      (decide (v.hbInterval ≠ w.member.me.hbIval)) 2 (text "WARN") (text "Heartbeat interval") hOther')
    split
    · exact hSecond
    · exact hSecond.trans (idle_warnOnce api _ _ _ _ (hSecond.self ▸ hOther))

theorem idle_setValues (env : FtEnv) (v : FtValues) (hOther : inbox ≠ w.member.self) :
    Idle w (w.setValues env api inbox v) := by
  have hSet : Idle w (w.setPeers (modifyPeer inbox (FtPeer.setValues env v) w.member.peers)) :=
    idle_modifyPeer (fun _ => rfl) hOther
  exact hSet.trans (idle_checkValues v hOther)

theorem idle_admitPeer (m : FtMsg) (weight : BitVec 32) (hOther : m.reply ≠ w.member.self) :
    Idle w (w.admitPeer env api m weight state) := by
  unfold admitPeer
  split
  · have hSee : Idle w (w.setPeers (modifyPeer m.reply
        (fun p => (p.see api.now weight).stopIf state) w.member.peers)) :=
      idle_modifyPeer (fun p => FtPeer.stopIf_inbox ..) hOther
    have hSync : Idle w (if state = .sync then (w.setPeers (modifyPeer m.reply
        (fun p => (p.see api.now weight).stopIf state) w.member.peers)).publish env (.inbox m.reply) 1
        else w.setPeers (modifyPeer m.reply
        (fun p => (p.see api.now weight).stopIf state) w.member.peers)) := by
      split
      · exact hSee.trans (idle_publish ..)
      · exact hSee
    dsimp only
    split
    · exact hSync.trans (idle_setValues env _ (hSync.self ▸ hOther))
    · exact hSync
  · next hFind =>
      have hTold := idle_publish w env (.inbox m.reply) 1
      have hNew : Idle (w.publish env (.inbox m.reply) 1) ((w.publish env (.inbox m.reply) 1).setPeers
          ((w.publish env (.inbox m.reply) 1).member.peers ++ [newPeer m weight])) := by
        apply idle_setPeers
        · intro hNodup
          rw [List.map_append, List.map_singleton, newPeer_inbox]
          refine List.nodup_append.mpr ⟨hNodup, List.nodup_singleton _, ?_⟩
          intro inbox hMem other hEnd
          obtain ⟨x, hx, rfl⟩ := List.mem_map.mp hMem
          rw [List.mem_singleton.mp hEnd]
          exact findPeer_none hFind hx
        · apply findPeer_concat
          rw [newPeer_inbox]
          exact hOther
      exact (hTold.trans hNew).trans (idle_setValues env _ hOther)

/-- The activation interval of a peer in nanoseconds. -/
def interval (w : FtWork) (inbox : Text) : BitVec 64 :=
  ((findPeer inbox w.member.peers).map FtPeer.activateNs).getD 0

theorem interval_modifyPeer (f : FtPeer → FtPeer) (hInbox : ∀ p, (f p).inbox = p.inbox)
    (hNs : ∀ p, (f p).activateNs = p.activateNs) (inbox : Text) :
    ((findPeer inbox (modifyPeer inbox f w.member.peers)).map FtPeer.activateNs).getD 0 =
      w.interval inbox := by
  rw [findPeer_modifyPeer hInbox, interval]
  cases findPeer inbox w.member.peers with
  | none => rfl
  | some x =>
      rw [Option.map_some, Option.map_some, Option.getD_some, Option.map_some, Option.getD_some]
      split
      · exact hNs x
      · rfl

theorem fixed_rankAll (w : FtWork) (env : FtEnv) (api : Api) (inbox : Text) (state : FtState) :
    Fixed w (w.rankAll env api inbox state) :=
  fixed_setPeers w _

theorem expire_isStopped (now ns : BitVec 64) (p : FtPeer) :
    (p.expire now ns).isStopped = p.isStopped := by
  unfold FtPeer.expire
  split <;> rfl

/-- The own record after the pass over the list. -/
theorem rankAll_own (env : FtEnv) (api : Api) (state : FtState) (h : w.member.Seated)
    (hOther : inbox ≠ w.member.self) :
    ((w.rankAll env api inbox state).member.peers.map FtPeer.inbox).Nodup ∧
    ∃ r, findPeer w.member.self (w.rankAll env api inbox state).member.peers =
      some { w.member.me.expire api.now (w.interval inbox) with rank := r } := by
  let entered := modifyPeer inbox (FtPeer.enter state api.now) w.member.peers
  have hEntered : Idle w (w.setPeers entered) := idle_modifyPeer (fun _ => rfl) hOther
  obtain ⟨x, hFind, hHere⟩ := (hEntered.seated h).own
  have hMe : w.member.me = x := hEntered.me.symm.trans (me_of_find hFind)
  have hNs : ((findPeer inbox entered).map FtPeer.activateNs).getD 0 = w.interval inbox :=
    interval_modifyPeer (FtPeer.enter state api.now) (fun _ => rfl) (fun _ => rfl) inbox
  have hPeers : (w.rankAll env api inbox state).member.peers =
      reap api.now (order env api.now (w.interval inbox) entered) := by
    rw [← hNs]
    rfl
  have hExpired : findPeer w.member.self (entered.map (FtPeer.expire api.now (w.interval inbox))) =
      some (x.expire api.now (w.interval inbox)) := by
    rw [findPeer_map (FtPeer.expire_inbox _ _)]
    exact congrArg (Option.map _) hFind
  have hNodup : ((entered.map (FtPeer.expire api.now (w.interval inbox))).map
      FtPeer.inbox).Nodup := by
    rw [map_inboxes (FtPeer.expire_inbox _ _)]
    exact (hEntered.seated h).nodup
  obtain ⟨hOrdered, r, hRanked⟩ := findPeer_ranked env hNodup hExpired
  rw [hPeers, hMe]
  refine ⟨hOrdered.sublist ((reap_sublist _ _).map _), r, findPeer_reap hOrdered ?_ hRanked⟩
  exact (expire_isStopped _ _ x).trans hHere

theorem Seated.me_here {m : FtMember} (h : m.Seated) : m.me.isStopped = false := by
  obtain ⟨x, hFind, hHere⟩ := h.own
  rw [me_of_find hFind]
  exact hHere

theorem same_rankAll (env : FtEnv) (api : Api) (state : FtState)
    (hOther : inbox ≠ w.member.self) : Same w (w.rankAll env api inbox state) := by
  refine ⟨rfl, fun hSeated => ?_, rfl, rfl⟩
  obtain ⟨hNodup, r, hOwn⟩ := rankAll_own env api state hSeated hOther
  refine ⟨hNodup, _, hOwn, ?_⟩
  exact (expire_isStopped _ _ _).trans (Seated.me_here hSeated)

/-- A member that is not past the interval of the peer goes on running. -/
theorem rankAll_running (env : FtEnv) (api : Api) (state : FtState) (h : w.member.Seated)
    (hOther : inbox ≠ w.member.self) (hRunning : w.member.me.isRunning = true)
    (hSeen : w.member.me.isPast api.now (w.interval inbox) = false) :
    (w.rankAll env api inbox state).member.me.isRunning = true := by
  obtain ⟨-, r, hOwn⟩ := rankAll_own env api state h hOther
  rw [me_of_find hOwn]
  exact (FtPeer.expire_isRunning ..).mpr ⟨hRunning, hSeen⟩

theorem agePeer_inbox (now : BitVec 64) (x : FtPeer) : (agePeer now x).2.inbox = x.inbox := by
  unfold agePeer
  dsimp only
  split <;> split <;> rfl

theorem agePeer_isStopped (now : BitVec 64) (x : FtPeer) :
    (agePeer now x).2.isStopped = x.isStopped := by
  unfold agePeer
  dsimp only
  split <;> split <;> rfl

theorem fixed_updateTime (w : FtWork) (env : FtEnv) (api : Api) :
    Fixed w (w.updateTime env api) :=
  (fixed_setMe w _).trans (fixed_setPeers _ _)

theorem same_updateTime (w : FtWork) (env : FtEnv) (api : Api) :
    Same w (w.updateTime env api) := by
  have hSeen : Same w (w.setMe fun p => { p with lastSeen := api.updated }) :=
    same_setMe (fun _ => rfl) (fun _ => rfl)
  refine hSeen.trans ⟨rfl, fun hSeated => ?_, rfl, rfl⟩
  obtain ⟨x, hFind, hHere⟩ := hSeated.own
  let before := (w.setMe fun p => { p with lastSeen := api.updated }).member.peers
  let aged := (before.map (agePeer api.updated)).map Prod.snd
  have hMap : aged = before.map fun y => (agePeer api.updated y).2 := List.map_map
  have hNodup : (aged.map FtPeer.inbox).Nodup := by
    rw [hMap, map_inboxes (agePeer_inbox _)]
    exact hSeated.nodup
  have hAged : findPeer w.member.self aged = some (agePeer api.updated x).2 := by
    rw [hMap, findPeer_map (agePeer_inbox _)]
    exact congrArg (Option.map _) hFind
  have hStays : (agePeer api.updated x).2.isStopped = false := (agePeer_isStopped _ x).trans hHere
  by_cases hChanged : (before.map (agePeer api.updated)).any Prod.fst = true
  · have hPeers : (w.updateTime env api).member.peers = rankPeers (env.sort comparePeer aged) :=
      if_pos hChanged
    obtain ⟨hRankedNodup, r, hRanked⟩ := findPeer_ranked env hNodup hAged
    rw [← hPeers] at hRankedNodup hRanked
    exact ⟨hRankedNodup, _, hRanked, hStays⟩
  · have hPeers : (w.updateTime env api).member.peers = aged := if_neg hChanged
    rw [← hPeers] at hNodup hAged
    exact ⟨hNodup, _, hAged, hStays⟩

/-- The id to keep for a kind of timer if `timer` is the only one. -/
def heldId (timer : Option (TimerKind × BitVec 32)) (kind : TimerKind) : BitVec 32 :=
  match timer with
  | some (k, id) => if kind = k then id else 0
  | none => 0

/-- The timer that a member has, if any: it is the one that exists, and its id is the
only one kept. -/
structure Timed (w : FtWork) (timer : Option (TimerKind × BitVec 32)) : Prop where
  timers : w.timers = timer.toList
  ids : ∀ kind, w.member.idOf kind = heldId timer kind
  nonzero : ∀ k id, timer = some (k, id) → id ≠ 0

variable {timer : Option (TimerKind × BitVec 32)} {kind : TimerKind} {id : BitVec 32}

theorem Timed.fixed (h : Timed w timer) (hFixed : Fixed w w') : Timed w' timer where
  timers := hFixed.timers.trans h.timers
  ids kind := (hFixed.ids kind).trans (h.ids kind)
  nonzero := h.nonzero

theorem aside_setId (w : FtWork) (kind : TimerKind) (id : BitVec 32)
    (timers : List (TimerKind × BitVec 32)) :
    Aside w { w with member := w.member.setId kind id, timers := timers } := by
  cases kind <;>
    exact ⟨⟨rfl, fun hSeated => ⟨hSeated.nodup, hSeated.own⟩, rfl, rfl⟩, rfl⟩

theorem aside_createTimer (w : FtWork) (api : Api) (kind : TimerKind) :
    Aside w (w.createTimer api kind) :=
  aside_setId w kind _ _

theorem aside_destroyTimer (w : FtWork) (kind : TimerKind) : Aside w (w.destroyTimer kind) := by
  unfold destroyTimer
  split
  · exact .refl w
  · exact aside_setId w kind _ _

theorem aside_stopTimers (w : FtWork) : Aside w w.stopTimers :=
  ((aside_destroyTimer w _).trans (aside_destroyTimer _ _)).trans (aside_destroyTimer _ _)

theorem idOf_setId (m : FtMember) (kind other : TimerKind) (id : BitVec 32) :
    (m.setId kind id).idOf other = if other = kind then id else m.idOf other := by
  cases kind <;> cases other <;> rfl

theorem destroyTimer_zero (h : w.member.idOf kind = 0) : w.destroyTimer kind = w :=
  if_pos h

theorem Timed.destroyTimer (h : Timed w (some (kind, id))) : Timed (w.destroyTimer kind) none := by
  have hId : w.member.idOf kind = id := (h.ids kind).trans (if_pos rfl)
  have hOther : ¬w.member.idOf kind = 0 := hId ▸ h.nonzero kind id rfl
  unfold FtWork.destroyTimer
  rw [if_neg hOther]
  constructor
  · change w.timers.filter _ = []
    rw [h.timers, hId]
    simp
  · intro other
    change (w.member.setId kind 0).idOf other = 0
    rw [idOf_setId, h.ids other]
    split
    · rfl
    · next hNe => exact if_neg hNe
  · rintro _ _ ⟨⟩

/-- However it came, the timer is gone afterwards. -/
theorem Timed.stopTimers (h : Timed w timer) : Timed w.stopTimers none := by
  cases timer with
  | none =>
      have hZero : ∀ kind, w.member.idOf kind = 0 := h.ids
      rw [FtWork.stopTimers, destroyTimer_zero (hZero _), destroyTimer_zero (hZero _),
        destroyTimer_zero (hZero _)]
      exact h
  | some held =>
      obtain ⟨kind, id⟩ := held
      have hGone := h.destroyTimer
      have hZero : ∀ other, (w.destroyTimer kind).member.idOf other = 0 := hGone.ids
      have hElse : ∀ other, other ≠ kind → w.member.idOf other = 0 := fun other hNe =>
        (h.ids other).trans (if_neg hNe)
      unfold FtWork.stopTimers
      cases kind with
      | prepare =>
          rw [destroyTimer_zero (hZero .activate), destroyTimer_zero (hZero .hb)]
          exact hGone
      | activate =>
          rw [destroyTimer_zero (hElse .prepare (by decide)), destroyTimer_zero (hZero .hb)]
          exact hGone
      | hb =>
          rw [destroyTimer_zero (hElse .prepare (by decide)),
            destroyTimer_zero (hElse .activate (by decide))]
          exact hGone

theorem Timed.createTimer (h : Timed w none) (hLawful : api.Lawful) (kind : TimerKind) :
    Timed (w.createTimer api kind) (some (kind, api.timer kind)) := by
  constructor
  · change (if api.timer kind = 0 then w.timers else w.timers ++ [(kind, api.timer kind)]) = _
    rw [if_neg (hLawful kind), h.timers]
    rfl
  · intro other
    change (w.member.setId kind (api.timer kind)).idOf other = _
    rw [idOf_setId, h.ids other]
    rfl
  · rintro _ _ ⟨⟩
    exact hLawful kind

theorem idle_askHead (w : FtWork) (env : FtEnv) (api : Api) : Idle w (w.askHead env api) := by
  unfold askHead
  split
  · exact .refl w
  · next p rest hPeers =>
      split
      · next hAsk =>
          refine Idle.trans ?_ (idle_publish ..)
          apply idle_setPeers
          · rw [hPeers]
            exact fun hNodup => hNodup
          · have hOther : ¬p.inbox = w.member.self := by
              simp only [Bool.and_eq_true, decide_eq_true_eq] at hAsk
              exact hAsk.1.1.1
            rw [hPeers, findPeer, findPeer, List.find?_cons, List.find?_cons]
            simp [hOther]
      · exact .refl w

/-- `prepare` leaves a timer for preparing or activating. -/
theorem prepare_spec (env : FtEnv) (hTimed : Timed w timer) (hLawful : api.Lawful) :
    Aside w (w.prepare env api) ∧ ∃ kind, kind ≠ .hb ∧
      Timed (w.prepare env api) (some (kind, api.timer kind)) := by
  have hStopped := hTimed.stopTimers
  suffices hMade : ∀ kind, kind ≠ .hb →
      let made := w.stopTimers.createTimer api kind
      Aside w (if made.member.idOf kind ≠ 0 then made.askHead env api else made) ∧
        Timed (if made.member.idOf kind ≠ 0 then made.askHead env api else made)
          (some (kind, api.timer kind)) by
    unfold prepare
    dsimp only
    split
    · exact ⟨(hMade .prepare (by decide)).1, .prepare, by decide, (hMade .prepare (by decide)).2⟩
    · exact ⟨(hMade .activate (by decide)).1, .activate, by decide, (hMade .activate (by decide)).2⟩
  intro kind _
  dsimp only
  have hAside := (aside_stopTimers w).trans (aside_createTimer w.stopTimers api kind)
  have hCreated := hStopped.createTimer hLawful kind
  have hAsk := idle_askHead (w.stopTimers.createTimer api kind) env api
  split
  · exact ⟨hAside.trans hAsk.toAside, hCreated.fixed hAsk.toFixed⟩
  · exact ⟨hAside, hCreated⟩

/-- What the callbacks of one stretch of code make of a member that is active or not. -/
inductive Switch : Bool → List Action → Bool → Prop where
  | stay (on : Bool) : Switch on [] on
  | activate : Switch false [.activate] true
  | deactivate : Switch true [.deactivate] false

/-- What a member looks like while a callback runs. -/
def Window (on : Bool) (w : FtWork) : Cont → Prop
  | .activateTimer => on = true ∧ Timed w none ∧ w.isBelowGoal = true ∧ w.member.me.isRunning = true
  | .nowActivated _ _ =>
      on = true ∧ Timed w none ∧ w.isBelowGoal = true ∧ w.member.me.isRunning = true
  | .prepareTimer => on = false ∧ Timed w none ∧ w.isBelowGoal = true
  | .nowPrepared _ _ => on = false ∧ Timed w none ∧ w.isBelowGoal = true
  | .deactivated => on = false ∧ w.isBelowGoal = false

/-- Outside the windows a member is active if it has a heartbeat timer. At most one call is
suspended. -/
def Phase (on : Bool) (w : FtWork) : List Cont → Prop
  | [] => on = decide (w.member.hbId ≠ 0) ∧
      (w.member.hbId ≠ 0 → w.isBelowGoal = true ∧ w.member.me.isRunning = true)
  | [c] => Window on w c
  | _ => False

structure Sound (w : FtWork) : Prop where
  seated : w.member.Seated
  isDestroyed : w.member.isDestroyed = false
  timed : ∃ timer, Timed w timer

/-- A member before anything has been told. -/
structure Ready (w : FtWork) : Prop extends Sound w where
  silent : switches w.out = []

/-- The outcome of a call: what it told the application, and where it stands then. -/
structure Lands (on : Bool) (r : FtWork × Option Cont) : Prop where
  sound : Sound r.1
  told : ∃ on', Switch on (switches r.1.out) on' ∧ Phase on' r.1 r.2.toList

theorem Ready.same (h : Ready w) (hSame : Same w w') (hTimed : Timed w' timer) : Ready w' where
  seated := hSame.seated h.seated
  isDestroyed := hSame.isDestroyed.trans h.isDestroyed
  timed := ⟨timer, hTimed⟩
  silent := hSame.switches.trans h.silent

theorem Ready.fixed (h : Ready w) (hSame : Same w w') (hFixed : Fixed w w') : Ready w' := by
  obtain ⟨timer, hTimed⟩ := h.timed
  exact h.same hSame (hTimed.fixed hFixed)

theorem Timed.hbId_zero (h : Timed w timer) (hKind : ∀ id, timer ≠ some (.hb, id)) :
    w.member.hbId = 0 := by
  have hId : w.member.hbId = heldId timer .hb := h.ids .hb
  rw [hId]
  cases timer with
  | none => rfl
  | some held =>
      obtain ⟨kind, id⟩ := held
      refine if_neg ?_
      rintro rfl
      exact hKind id rfl

theorem Ready.rests (h : Ready w) (hZero : w.member.hbId = 0) : Lands false (w, none) where
  sound := h.toSound
  told := by
    refine ⟨false, ?_, ?_, ?_⟩
    · rw [h.silent]
      exact .stay false
    · simp [hZero]
    · exact fun hHb => absurd hZero hHb

theorem Ready.runs (h : Ready w) (hHb : w.member.hbId ≠ 0) (hBelow : w.isBelowGoal = true)
    (hRunning : w.member.me.isRunning = true) : Lands true (w, none) where
  sound := h.toSound
  told := by
    refine ⟨true, ?_, ?_, ?_⟩
    · rw [h.silent]
      exact .stay true
    · exact (decide_eq_true hHb).symm
    · exact fun _ => ⟨hBelow, hRunning⟩

/-- A call that ends in `prepare` leaves the member inactive. -/
theorem prepare_ready (env : FtEnv) (h : Ready w) (hLawful : api.Lawful) :
    Ready (w.prepare env api) ∧ (w.prepare env api).member.hbId = 0 := by
  obtain ⟨timer, hTimed⟩ := h.timed
  obtain ⟨hAside, kind, hKind, hMade⟩ := prepare_spec env hTimed hLawful
  refine ⟨h.same hAside.toSame hMade, hMade.hbId_zero ?_⟩
  rintro id hHb
  exact hKind (Prod.mk.inj (Option.some.inj hHb)).1

theorem stopTimers_ready (h : Ready w) : Ready w.stopTimers ∧ Timed w.stopTimers none := by
  obtain ⟨timer, hTimed⟩ := h.timed
  exact ⟨h.same (aside_stopTimers w).toSame hTimed.stopTimers, hTimed.stopTimers⟩

theorem standBy_lands (env : FtEnv) (h : Ready w) (hLawful : api.Lawful) :
    Lands false (w.standBy env api, none) := by
  obtain ⟨hReady, hZero⟩ := prepare_ready env (stopTimers_ready h).1 hLawful
  exact hReady.rests hZero

theorem doCallback_eq (action : Action) (h : w.member.isDestroyed = false) :
    w.doCallback action = w.emit (.callback action) :=
  if_neg (by simp [h])

theorem deactivate_lands (env : FtEnv) (h : Ready w) (hLawful : api.Lawful)
    (hKeep : w.member.hbId ≠ 0 → w.isBelowGoal = false) :
    Lands (decide (w.member.hbId ≠ 0)) (w.deactivate env api) := by
  unfold deactivate
  split
  · next hActive =>
      rw [Bool.and_eq_true, Bool.not_eq_true', decide_eq_true_eq] at hActive
      obtain ⟨hBelow, hHb⟩ := hActive
      rw [doCallback_eq _ h.isDestroyed, decide_eq_true hHb]
      refine ⟨⟨h.seated, h.isDestroyed, h.timed.imp fun _ ht => ⟨ht.timers, ht.ids, ht.nonzero⟩⟩, ?_⟩
      refine ⟨false, ?_, rfl, hBelow⟩
      change Switch true (switches (w.out ++ [_])) false
      rw [switches_append, h.silent]
      exact .deactivate
  · next hActive =>
      have hZero : w.member.hbId = 0 := by
        by_contra hHb
        exact hActive (by rw [hKeep hHb, decide_eq_true hHb]; rfl)
      rw [hZero]
      exact standBy_lands env h hLawful

theorem stayActive_lands (env : FtEnv) (h : Ready w) (hLawful : api.Lawful)
    (hHb : w.member.hbId ≠ 0) (hRun : w.isBelowGoal = true → w.member.me.isRunning = true) :
    Lands true (w.stayActive env api inbox state) := by
  unfold stayActive
  split
  · next hActive =>
      obtain ⟨hBelow, hRunning⟩ := Bool.and_eq_true_iff.mp hActive
      dsimp only
      split
      · have hWarn := idle_publishRvftsub w api.crowded (text "WARN") (text "TOO_MANY_ACTIVE") none
        refine (h.fixed hWarn.toSame hWarn.toFixed).runs ?_ ?_ ?_
        · rw [hWarn.hbId]
          exact hHb
        · exact (hWarn.calm.below h.seated).trans hBelow
        · exact (hWarn.calm.running h.seated).trans hRunning
      · exact h.runs hHb hBelow hRunning
  · next hActive =>
      have hBelow : w.isBelowGoal = false := by
        by_contra hNot
        rw [Bool.not_eq_false] at hNot
        exact hActive (by rw [hNot, hRun hNot]; rfl)
      have hLands := deactivate_lands env h hLawful fun _ => hBelow
      rwa [decide_eq_true hHb] at hLands

theorem activatedNow_lands (env : FtEnv) (h : Ready w) (hLawful : api.Lawful)
    (hRun : w.member.hbId ≠ 0 → w.isBelowGoal = true → w.member.me.isRunning = true) :
    Lands (decide (w.member.hbId ≠ 0)) (w.activatedNow env api inbox state) := by
  unfold activatedNow
  by_cases hHb : w.member.hbId = 0
  · obtain ⟨hReady, hZero⟩ := prepare_ready env h hLawful
    dsimp only
    rw [if_pos hHb, if_pos hZero, hHb]
    exact hReady.rests hZero
  · dsimp only
    rw [if_neg hHb, if_neg hHb, decide_eq_true hHb]
    exact stayActive_lands env h hLawful hHb (hRun hHb)

/-- The callback `ACTIVATE` of an inactive member. -/
theorem startActive_told (env : FtEnv) (h : Ready w) (hTimed : Timed w none)
    (hBelow : w.isBelowGoal = true) :
    Sound (w.startActive env) ∧ switches (w.startActive env).out = [.activate] ∧
      Timed (w.startActive env) none ∧ (w.startActive env).isBelowGoal = true ∧
      (w.startActive env).member.me.isRunning = true := by
  let run : FtPeer → FtPeer := fun p => { p with isRunning := true }
  have hMe : (w.setMe run).member.me = run w.member.me := setMe_me (fun _ => rfl) h.seated
  have hReady : Ready (w.setMe run) :=
    h.fixed (same_setMe (fun _ => rfl) (fun _ => rfl)) (fixed_setMe w run)
  have hPublish := idle_publish (w.setMe run) env .activeStart 0
  have hPublished := hReady.fixed hPublish.toSame hPublish.toFixed
  have hStill := (hTimed.fixed (fixed_setMe w run)).fixed hPublish.toFixed
  unfold startActive
  rw [doCallback_eq _ hPublished.isDestroyed]
  refine ⟨⟨hPublished.seated, hPublished.isDestroyed, none, hStill.timers, hStill.ids, hStill.nonzero⟩,
    ?_, ⟨hStill.timers, hStill.ids, hStill.nonzero⟩, ?_, ?_⟩
  · change switches (_ ++ [_]) = _
    rw [switches_append, hPublished.silent]
    rfl
  · change decide ((w.setMe run).member.me.rank < (w.setMe run).member.me.activeGoal) = true
    rw [hMe]
    exact hBelow
  · change (w.setMe run).member.me.isRunning = true
    rw [hMe]

theorem activateNow2_lands (env : FtEnv) (h : Ready w) (hLawful : api.Lawful)
    (hTimed : Timed w none) : Lands false (w.activateNow2 env api inbox state) := by
  unfold activateNow2
  split
  · next hGo =>
      obtain ⟨-, hBelow⟩ := Bool.and_eq_true_iff.mp hGo
      obtain ⟨hSound, hTold, hStill, hBelow', hRunning⟩ := startActive_told env h hTimed hBelow
      refine ⟨hSound, true, ?_, rfl, hStill, hBelow', hRunning⟩
      rw [hTold]
      exact .activate
  · have hZero : w.member.hbId = 0 := hTimed.hbId_zero (by rintro id ⟨⟩)
    have hLands : Lands (decide (w.member.hbId ≠ 0)) (w.activatedNow env api inbox state) :=
      activatedNow_lands env h hLawful fun hHb => absurd hZero hHb
    rwa [hZero] at hLands

theorem setPrepared_told (api : Api) (h : Ready w) (hTimed : Timed w none) (hBelow : w.isBelowGoal = true) :
    Sound (w.setPrepared api) ∧ switches (w.setPrepared api).out = [] ∧
      Timed (w.setPrepared api) none ∧ (w.setPrepared api).isBelowGoal = true := by
  unfold setPrepared
  rw [doCallback_eq _ (by exact h.isDestroyed)]
  have hStill : ∀ kind, { w.member with prepareTime := api.updated }.idOf kind = 0 := by
    intro kind
    have hIds : w.member.idOf kind = 0 := hTimed.ids kind
    rw [← hIds]
    cases kind <;> rfl
  refine ⟨⟨⟨h.seated.nodup, h.seated.own⟩, h.isDestroyed, none, hTimed.timers, hStill, hTimed.nonzero⟩,
    ?_, ⟨hTimed.timers, hStill, hTimed.nonzero⟩, hBelow⟩
  change switches (w.out ++ [_]) = []
  rw [switches_append, h.silent]
  rfl

theorem activateNow_lands (env : FtEnv) (h : Ready w) (hLawful : api.Lawful)
    (hZero : w.member.hbId = 0) : Lands false (w.activateNow env api inbox state) := by
  have hUpdated := h.fixed (same_updateTime w env api) (fixed_updateTime w env api)
  have hStill : (w.updateTime env api).member.hbId = 0 :=
    (fixed_updateTime w env api).hbId.trans hZero
  obtain ⟨hReady, hTimed⟩ := stopTimers_ready hUpdated
  unfold activateNow
  dsimp only
  split
  · split
    · next hBelow =>
        split
        · obtain ⟨hSound, hTold, hNone, hBelow'⟩ := setPrepared_told api hReady hTimed hBelow
          refine ⟨hSound, false, ?_, rfl, hNone, hBelow'⟩
          rw [hTold]
          exact .stay false
        · exact activateNow2_lands env hReady hLawful hTimed
    · have hNone : (w.updateTime env api).stopTimers.member.hbId = 0 :=
        hTimed.hbId_zero (by rintro id ⟨⟩)
      have hLands : Lands (decide ((w.updateTime env api).stopTimers.member.hbId ≠ 0))
          ((w.updateTime env api).stopTimers.activatedNow env api inbox state) :=
        activatedNow_lands env hReady hLawful fun hHb => absurd hNone hHb
      rwa [hNone] at hLands
  · exact hUpdated.rests hStill

theorem decideState_lands (env : FtEnv) (h : Ready w) (hLawful : api.Lawful)
    (hRun : w.member.hbId ≠ 0 → w.isBelowGoal = true → w.member.me.isRunning = true) :
    Lands (decide (w.member.hbId ≠ 0)) (w.decideState env api inbox state) := by
  unfold decideState
  split
  · split
    · next hZero =>
        rw [hZero]
        exact activateNow_lands env h hLawful hZero
    · next hHb =>
        rw [decide_eq_true hHb]
        exact stayActive_lands env h hLawful hHb (hRun hHb)
  · next hBelow =>
      exact deactivate_lands env h hLawful fun _ => by simpa using hBelow

theorem activateTimerCb_lands (env : FtEnv) (h : Ready w) (hLawful : api.Lawful)
    (hRun : w.member.hbId ≠ 0 → w.isBelowGoal = true ∧ w.member.me.isRunning = true) :
    Lands (decide (w.member.hbId ≠ 0)) (w.activateTimerCb env api) := by
  unfold activateTimerCb
  rw [if_neg (by simp [h.isDestroyed])]
  split
  · next hZero =>
      obtain ⟨hStopped, hNone⟩ := stopTimers_ready h
      have hFixed := fixed_updateTime w.stopTimers env api
      have hReady := hStopped.fixed (same_updateTime w.stopTimers env api) hFixed
      have hTimed := hNone.fixed hFixed
      rw [hZero]
      dsimp only
      split
      · next hBelow =>
          obtain ⟨hSound, hTold, hStill, hBelow', hRunning⟩ := startActive_told env hReady hTimed hBelow
          refine ⟨hSound, true, ?_, rfl, hStill, hBelow', hRunning⟩
          rw [hTold]
          exact .activate
      · have hHb : (w.stopTimers.updateTime env api).member.hbId = 0 :=
          hTimed.hbId_zero (by rintro id ⟨⟩)
        rw [if_pos hHb]
        obtain ⟨hPrepared, hRests⟩ := prepare_ready env hReady hLawful
        exact hPrepared.rests hRests
  · next hHb =>
      rw [decide_eq_true hHb]
      exact h.runs hHb (hRun hHb).1 (hRun hHb).2

theorem waitActivate_lands (env : FtEnv) (h : Ready w) (hLawful : api.Lawful)
    (hTimed : Timed w none) : Lands false (w.waitActivate env api, none) := by
  unfold waitActivate
  dsimp only
  split
  · have hMade := hTimed.createTimer hLawful .activate
    have hReady := h.same (aside_createTimer w api .activate).toSame hMade
    have hId : (w.createTimer api .activate).member.activateId ≠ 0 := hLawful .activate
    rw [if_neg hId]
    exact hReady.rests (hMade.hbId_zero (by rintro id ⟨⟩))
  · have hId : w.member.activateId = 0 := hTimed.ids .activate
    rw [if_pos hId]
    obtain ⟨hPrepared, hRests⟩ := prepare_ready env h hLawful
    exact hPrepared.rests hRests

theorem prepareTimerCb_lands (env : FtEnv) (h : Ready w) (hLawful : api.Lawful)
    (hRun : w.member.hbId ≠ 0 → w.isBelowGoal = true ∧ w.member.me.isRunning = true) :
    Lands (decide (w.member.hbId ≠ 0)) (w.prepareTimerCb env api) := by
  unfold prepareTimerCb
  rw [if_neg (by simp [h.isDestroyed])]
  split
  · next hZero =>
      obtain ⟨hStopped, hNone⟩ := stopTimers_ready h
      have hFixed := fixed_updateTime w.stopTimers env api
      have hReady := hStopped.fixed (same_updateTime w.stopTimers env api) hFixed
      have hTimed := hNone.fixed hFixed
      rw [hZero]
      dsimp only
      split
      · next hDue =>
          obtain ⟨hBelow, -⟩ := Bool.and_eq_true_iff.mp hDue
          obtain ⟨hSound, hTold, hStill, hBelow'⟩ := setPrepared_told api hReady hTimed hBelow
          refine ⟨hSound, false, ?_, rfl, hStill, hBelow'⟩
          rw [hTold]
          exact .stay false
      · exact waitActivate_lands env hReady hLawful hTimed
  · next hHb =>
      rw [decide_eq_true hHb]
      exact h.runs hHb (hRun hHb).1 (hRun hHb).2

/-- The rest of a call after the callback of an undisturbed window. -/
theorem resume_lands (env : FtEnv) {on : Bool} {c : Cont} (h : Ready w) (hLawful : api.Lawful)
    (hWindow : Window on w c) : Lands on (w.resume env api c) := by
  have hHere : ¬w.member.isDestroyed = true := by rw [h.isDestroyed]; exact Bool.false_ne_true
  cases c with
  | activateTimer =>
      obtain ⟨rfl, hTimed, hBelow, hRunning⟩ := hWindow
      have hMade := hTimed.createTimer hLawful .hb
      have hAside := aside_createTimer w api .hb
      have hHb : (w.createTimer api .hb).member.hbId ≠ 0 := hLawful .hb
      unfold resume
      dsimp only
      rw [if_neg hHere, if_neg hHb]
      refine (h.same hAside.toSame hMade).runs hHb ?_ ?_
      · exact (hAside.calm.below h.seated).trans hBelow
      · exact (hAside.calm.running h.seated).trans hRunning
  | prepareTimer =>
      obtain ⟨rfl, hTimed, -⟩ := hWindow
      exact waitActivate_lands env h hLawful hTimed
  | nowPrepared inbox state =>
      obtain ⟨rfl, hTimed, -⟩ := hWindow
      exact activateNow2_lands env h hLawful hTimed
  | nowActivated inbox state =>
      obtain ⟨rfl, hTimed, hBelow, hRunning⟩ := hWindow
      have hMade := hTimed.createTimer hLawful .hb
      have hAside := aside_createTimer w api .hb
      have hHb : (w.createTimer api .hb).member.hbId ≠ 0 := hLawful .hb
      have hLands : Lands _ ((w.createTimer api .hb).activatedNow env api inbox state) :=
        activatedNow_lands env (h.same hAside.toSame hMade) hLawful fun _ _ =>
          (hAside.calm.running h.seated).trans hRunning
      unfold resume
      dsimp only
      rw [if_pos (by simp [h.isDestroyed, hBelow])]
      rwa [decide_eq_true hHb] at hLands
  | deactivated =>
      obtain ⟨rfl, hBelow⟩ := hWindow
      have hAbove : ¬w.isBelowGoal = true := by simp [hBelow]
      unfold resume
      dsimp only
      rw [if_neg hHere, if_neg hAbove]
      refine standBy_lands env ?_ hLawful
      refine Ready.fixed ?_ (idle_publish ..).toSame (idle_publish ..).toFixed
      exact h.fixed (same_setMe (fun _ => rfl) (fun _ => rfl)) (fixed_setMe w _)

theorem Phase.calm {on : Bool} {conts : List Cont} (h : Phase on w conts) (hSeated : w.member.Seated)
    (hCalm : Calm w w') (hFixed : Fixed w w') : Phase on w' conts := by
  have hBelow := hCalm.below hSeated
  have hRunning := hCalm.running hSeated
  have hHb := hFixed.hbId
  match conts, h with
  | [], h =>
      unfold Phase
      rw [hBelow, hRunning, hHb]
      exact h
  | [c], h =>
      cases c with
      | activateTimer =>
          obtain ⟨hOn, hTimed, hIs, hRuns⟩ := h
          exact ⟨hOn, hTimed.fixed hFixed, hBelow.trans hIs, hRunning.trans hRuns⟩
      | nowActivated inbox state =>
          obtain ⟨hOn, hTimed, hIs, hRuns⟩ := h
          exact ⟨hOn, hTimed.fixed hFixed, hBelow.trans hIs, hRunning.trans hRuns⟩
      | prepareTimer =>
          obtain ⟨hOn, hTimed, hIs⟩ := h
          exact ⟨hOn, hTimed.fixed hFixed, hBelow.trans hIs⟩
      | nowPrepared inbox state =>
          obtain ⟨hOn, hTimed, hIs⟩ := h
          exact ⟨hOn, hTimed.fixed hFixed, hBelow.trans hIs⟩
      | deactivated =>
          obtain ⟨hOn, hIs⟩ := h
          exact ⟨hOn, hBelow.trans hIs⟩

/-- A member that is told nothing and goes on from where it was. -/
structure Goes (on : Bool) (conts : List Cont) (w : FtWork) : Prop extends Ready w where
  phase : Phase on w conts

theorem Goes.calm {on : Bool} {conts : List Cont} (h : Goes on conts w) (hCalm : Calm w w')
    (hFixed : Fixed w w') : Goes on conts w' :=
  ⟨h.fixed hCalm.toSame hFixed, h.phase.calm h.seated hCalm hFixed⟩

theorem calm_setMe {f : FtPeer → FtPeer} (hInbox : ∀ p, (f p).inbox = p.inbox)
    (hStopped : ∀ p, (f p).isStopped = p.isStopped) (hRank : ∀ p, (f p).rank = p.rank)
    (hGoal : ∀ p, (f p).activeGoal = p.activeGoal)
    (hRunning : ∀ p, (f p).isRunning = p.isRunning) : Calm w (w.setMe f) where
  toSame := same_setMe hInbox hStopped
  below hSeated := by rw [isBelowGoal, isBelowGoal, setMe_me hInbox hSeated, hRank, hGoal]
  running hSeated := by rw [setMe_me hInbox hSeated, hRunning]

theorem calm_seeMe (w : FtWork) (api : Api) : Calm w (w.seeMe api) :=
  calm_setMe (fun _ => rfl) (fun _ => rfl) (fun _ => rfl) (fun _ => rfl) (fun _ => rfl)

theorem Goes.setWeight {on : Bool} {conts : List Cont} (env : FtEnv) (weight : BitVec 16)
    (h : Goes on conts w) : Goes on conts (w.setWeight env weight) := by
  unfold FtWork.setWeight
  split
  · exact h
  · have hSet : Calm w (w.setMe fun p => { p with weight := weight }) :=
      calm_setMe (fun _ => rfl) (fun _ => rfl) (fun _ => rfl) (fun _ => rfl) (fun _ => rfl)
    have hPublish := idle_publish (w.setMe fun p => { p with weight := weight }) env .status 1
    exact (h.calm hSet (fixed_setMe w _)).calm hPublish.calm hPublish.toFixed

/-- The heartbeat does no harm, wherever a call is suspended. -/
theorem Goes.hbTimerCb {on : Bool} {conts : List Cont} (env : FtEnv) (hLawful : api.Lawful)
    (h : Goes on conts w) : Goes on conts (w.hbTimerCb env api) := by
  have hHere : ¬w.member.isDestroyed = true := by rw [h.isDestroyed]; exact Bool.false_ne_true
  unfold FtWork.hbTimerCb
  rw [if_neg hHere]
  split
  · next hBelow =>
      let beat : FtPeer → FtPeer := fun p => { p with lastSeen := api.now, isRunning := true }
      have hSame : Same w (w.setMe beat) := same_setMe (fun _ => rfl) (fun _ => rfl)
      have hFixed := fixed_setMe w beat
      have hMe : (w.setMe beat).member.me = beat w.member.me := setMe_me (fun _ => rfl) h.seated
      have hStill : (w.setMe beat).isBelowGoal = true := by
        rw [isBelowGoal, hMe]
        exact hBelow
      have hRuns : (w.setMe beat).member.me.isRunning = true := by rw [hMe]
      have hBeat : Goes on conts (w.setMe beat) := by
        refine ⟨h.fixed hSame hFixed, ?_⟩
        match conts, h.phase with
        | [], hPhase => exact ⟨hPhase.1.trans (by rw [hFixed.hbId]), fun _ => ⟨hStill, hRuns⟩⟩
        | [c], hPhase =>
            cases c with
            | activateTimer => exact ⟨hPhase.1, hPhase.2.1.fixed hFixed, hStill, hRuns⟩
            | nowActivated inbox state => exact ⟨hPhase.1, hPhase.2.1.fixed hFixed, hStill, hRuns⟩
            | prepareTimer => exact ⟨hPhase.1, hPhase.2.1.fixed hFixed, hStill⟩
            | nowPrepared inbox state => exact ⟨hPhase.1, hPhase.2.1.fixed hFixed, hStill⟩
            | deactivated => exact absurd hBelow (by simp [hPhase.2])
      have hPublish := idle_publish (w.setMe beat) env .activeHb 0
      exact hBeat.calm hPublish.calm hPublish.toFixed
  · next hBelow =>
      obtain ⟨hReady, hZero⟩ := prepare_ready env h.toReady hLawful
      obtain ⟨timer, hTimed⟩ := h.timed
      have hAbove : w.isBelowGoal = false := by simpa using hBelow
      have hStays : (w.prepare env api).isBelowGoal = false :=
        ((prepare_spec env hTimed hLawful).1.calm.below h.seated).trans hAbove
      refine ⟨hReady, ?_⟩
      match conts, h.phase with
      | [], hPhase =>
          have hRests : w.member.hbId = 0 := by
            by_contra hHb
            exact hBelow (hPhase.2 hHb).1
          refine ⟨?_, fun hHb => absurd hZero hHb⟩
          rw [hPhase.1, hRests, hZero]
      | [c], hPhase =>
          cases c with
          | activateTimer => exact absurd hPhase.2.2.1 hBelow
          | nowActivated inbox state => exact absurd hPhase.2.2.1 hBelow
          | prepareTimer => exact absurd hPhase.2.2 hBelow
          | nowPrepared inbox state => exact absurd hPhase.2.2 hBelow
          | deactivated => exact ⟨hPhase.1, hStays⟩

theorem Goes.lands {on : Bool} (h : Goes on [] w) : Lands on (w, none) where
  sound := h.toSound
  told := by
    refine ⟨on, ?_, h.phase⟩
    rw [h.silent]
    exact .stay on

/-- A message that `update_peer` does not look into. -/
def Ignores (w : FtWork) (m : FtMsg) : Prop :=
  m.weight = none ∨ m.reply.length < 16 ∨ m.reply = w.member.self

theorem Goes.ignores {on : Bool} {conts : List Cont} {m : FtMsg} (env : FtEnv) (api : Api)
    (state : FtState) (h : Goes on conts w) (hIgnores : w.Ignores m) :
    Goes on conts (w.updatePeer env api m state).1 ∧ (w.updatePeer env api m state).2 = none := by
  have hSee := h.calm (calm_seeMe w api) (fixed_setMe w _)
  unfold Ignores at hIgnores
  unfold updatePeer
  split
  · exact ⟨h, rfl⟩
  · next weight hWeight =>
      split
      · exact ⟨h, rfl⟩
      · next hLong =>
          rw [hWeight] at hIgnores
          rcases hIgnores with hNone | hShort | hOwn
          · cases hNone
          · exact absurd hShort hLong
          · rw [if_pos hOwn]
            exact ⟨hSee, rfl⟩

theorem isPast_now {now ns : BitVec 64} {p : FtPeer} (h : p.lastSeen = now) :
    p.isPast now ns = false := by
  unfold FtPeer.isPast
  rw [h]
  simp

theorem Goes.updatePeer {on : Bool} {m : FtMsg} (env : FtEnv) (state : FtState)
    (h : Goes on [] w) (hLawful : api.Lawful) (hHeard : ¬w.Ignores m) :
    Lands on (w.updatePeer env api m state) := by
  unfold Ignores at hHeard
  push Not at hHeard
  obtain ⟨hWeight, hLong, hOther⟩ := hHeard
  obtain ⟨weight, hWeight⟩ := Option.ne_none_iff_exists'.mp hWeight
  let seen := w.seeMe api
  have hSee : Goes on [] seen := h.calm (calm_seeMe w api) (fixed_setMe w _)
  have hSeen : seen.member.me.lastSeen = api.now := by
    have hMe : seen.member.me = { w.member.me with lastSeen := api.now } :=
      setMe_me (fun _ => rfl) h.seated
    rw [hMe]
  have hAdmit : Idle seen (seen.admitPeer env api m weight state) := idle_admitPeer m weight hOther
  have hAdmitted : Goes on [] (seen.admitPeer env api m weight state) :=
    hSee.calm hAdmit.calm hAdmit.toFixed
  have hOther' : m.reply ≠ (seen.admitPeer env api m weight state).member.self := by
    rw [hAdmit.self]
    exact hOther
  have hRank := same_rankAll env api state hOther'
  have hFixed := fixed_rankAll (seen.admitPeer env api m weight state) env api m.reply state
  have hOn : on = decide (((seen.admitPeer env api m weight state).rankAll env api m.reply
      state).member.hbId ≠ 0) := by
    rw [hFixed.hbId]
    exact hAdmitted.phase.1
  have hLands : Lands on (((seen.admitPeer env api m weight state).rankAll env api m.reply state).decideState
      env api m.reply state) := by
    rw [hOn]
    refine decideState_lands env (hAdmitted.fixed hRank hFixed) hLawful fun hHb _ => ?_
    rw [hFixed.hbId] at hHb
    refine rankAll_running env api state hAdmitted.seated hOther' (hAdmitted.phase.2 hHb).2 ?_
    exact isPast_now (hAdmit.me ▸ hSeen)
  unfold FtWork.updatePeer
  rw [hWeight]
  dsimp only
  rw [if_neg (Nat.not_lt.mpr hLong), if_neg hOther]
  exact hLands

/-- The list as an advisory about a peer leaves it. -/
def rankEnded (env : FtEnv) (api : Api) (w : FtWork) (inbox : Text) : FtWork :=
  (w.setPeers (modifyPeer inbox FtPeer.stopEvents w.member.peers)).rankAll env api inbox .stop

theorem Goes.endPeer {on : Bool} (env : FtEnv) (h : Goes on [] w) (hLawful : api.Lawful)
    (hOther : inbox ≠ w.member.self)
    (hKept : w.member.hbId ≠ 0 → w.member.me.isPast api.now (w.interval inbox) = false ∨
      (w.rankEnded env api inbox).isBelowGoal = false) :
    Lands on (w.endPeer env api inbox) := by
  have hEnd : Idle w (w.setPeers (modifyPeer inbox FtPeer.stopEvents w.member.peers)) :=
    idle_modifyPeer (fun _ => rfl) hOther
  have hEnded := h.calm hEnd.calm hEnd.toFixed
  have hNs : (w.setPeers (modifyPeer inbox FtPeer.stopEvents w.member.peers)).interval inbox =
      w.interval inbox :=
    interval_modifyPeer FtPeer.stopEvents (fun _ => rfl) (fun _ => rfl) inbox
  have hFixed := fixed_rankAll (w.setPeers (modifyPeer inbox FtPeer.stopEvents w.member.peers))
    env api inbox .stop
  have hReady := hEnded.fixed (same_rankAll env api .stop hOther) hFixed
  have hOn : on = decide ((w.rankEnded env api inbox).member.hbId ≠ 0) := by
    rw [rankEnded, hFixed.hbId]
    exact hEnded.phase.1
  have hLands : Lands on ((w.rankEnded env api inbox).decideState env api inbox .stop) := by
    rw [hOn]
    refine decideState_lands env hReady hLawful fun hHb hBelow => ?_
    rw [rankEnded, hFixed.hbId] at hHb
    rcases hKept (hEnd.hbId ▸ hHb) with hSeen | hAbove
    · refine rankAll_running env api .stop hEnded.seated hOther (hEnded.phase.2 hHb).2 ?_
      rw [hEnd.me, hNs]
      exact hSeen
    · rw [hAbove] at hBelow
      cases hBelow
  exact hLands

end FtWork

namespace FtSession

open FtWork

/-- While a callback runs, no peer is heard of and no timer for preparing or activating
expires; and no advisory takes a member for lost that is active and keeps its place. -/
def Undisturbed (env : FtEnv) (s : FtSession) (input : Api × MemberInput) : Prop :=
  match input.2 with
  | .message m _ => s.waiting = [] ∨ s.work.Ignores m
  | .peerStop inbox => s.waiting = [] ∧ (s.work.member.hbId ≠ 0 →
      s.work.member.me.isPast input.1.now (s.work.interval inbox) = false ∨
        (s.work.rankEnded env input.1 inbox).isBelowGoal = false)
  | .activateTimer => s.waiting = []
  | .prepareTimer => s.waiting = []
  | _ => True

/-- Whether the application was last told to be active. -/
def isOn (told : List Action) : Bool := decide (told.getLast? = some .activate)

theorem Alternates.switch {told more : List Action} {on : Bool} (h : Alternates told)
    (hSwitch : Switch (isOn told) more on) : Alternates (told ++ more) ∧ isOn (told ++ more) = on := by
  generalize hOn : isOn told = before at hSwitch
  cases hSwitch with
  | stay =>
      rw [List.append_nil]
      exact ⟨h, hOn⟩
  | activate =>
      have hLast : told.getLast? ≠ some .activate := of_decide_eq_false hOn
      refine ⟨⟨?_, ?_⟩, by simp [isOn]⟩
      · refine List.isChain_append.mpr ⟨h.1, List.isChain_singleton _, ?_⟩
        rintro x hx y hy rfl
        rw [List.head?_cons, Option.mem_some] at hy
        rw [← hy] at hx
        exact hLast hx
      · cases told with
        | nil => simp
        | cons first rest => simpa using h.2
  | deactivate =>
      have hLast : told.getLast? = some .activate := of_decide_eq_true hOn
      refine ⟨⟨?_, ?_⟩, by simp [isOn]⟩
      · refine List.isChain_append.mpr ⟨h.1, List.isChain_singleton _, ?_⟩
        rintro x hx y hy rfl
        rw [List.head?_cons, Option.mem_some] at hy
        rw [hLast, Option.mem_some, ← hy] at hx
        cases hx
      · cases told with
        | nil => cases hLast
        | cons first rest => simpa using h.2

/-- Between two stretches of code. -/
structure Inv (s : FtSession) (told : List Action) : Prop where
  alternates : Alternates told
  goes : Goes (isOn told) s.waiting s.work
  out : s.work.out = []

variable {s s' : FtSession} {env : FtEnv} {told : List Action}

theorem timed_flush {w : FtWork} {timer : Option (TimerKind × BitVec 32)} (h : Timed w timer) :
    Timed { w with out := [] } timer :=
  ⟨h.timers, h.ids, h.nonzero⟩

theorem phase_flush {w : FtWork} {on : Bool} {conts : List Cont} (h : Phase on w conts) :
    Phase on { w with out := [] } conts := by
  match conts, h with
  | [], h => exact h
  | [c], h =>
      cases c with
      | activateTimer => exact ⟨h.1, timed_flush h.2.1, h.2.2⟩
      | nowActivated inbox state => exact ⟨h.1, timed_flush h.2.1, h.2.2⟩
      | prepareTimer => exact ⟨h.1, timed_flush h.2.1, h.2.2⟩
      | nowPrepared inbox state => exact ⟨h.1, timed_flush h.2.1, h.2.2⟩
      | deactivated => exact h

/-- The outputs of a call are taken out, and what they told is added. -/
theorem Inv.flush {w : FtWork} {on : Bool} {conts : List Cont} (h : s.Inv told) (hSound : Sound w)
    (hSwitch : Switch (isOn told) (switches w.out) on) (hPhase : Phase on w conts) :
    Inv ⟨{ w with out := [] }, conts⟩ (told ++ switches w.out) := by
  obtain ⟨hAlternates, hOn⟩ := Alternates.switch h.alternates hSwitch
  have hReady : Ready { w with out := [] } :=
    ⟨⟨hSound.seated, hSound.isDestroyed, hSound.timed.imp fun _ => timed_flush⟩, rfl⟩
  refine ⟨hAlternates, ⟨hReady, ?_⟩, rfl⟩
  rw [hOn]
  exact phase_flush hPhase

theorem Inv.lands {r : FtWork × Option Cont} (h : s.Inv told) (hLands : Lands (isOn told) r) :
    Inv ⟨{ r.1 with out := [] }, r.2.toList⟩ (told ++ switches r.1.out) := by
  obtain ⟨on, hSwitch, hPhase⟩ := hLands.told
  exact h.flush hLands.sound hSwitch hPhase

theorem Inv.goes_on {w : FtWork} (h : s.Inv told) (hGoes : Goes (isOn told) s.waiting w) :
    Inv ⟨{ w with out := [] }, s.waiting⟩ (told ++ switches w.out) := by
  refine h.flush hGoes.toSound ?_ hGoes.phase
  rw [hGoes.silent]
  exact .stay _

theorem Inv.step {input : Api × MemberInput} {emitted : List FtOutput} (h : s.Inv told)
    (hOk : s.Undisturbed env input) (hStep : (memberSystem env).step s input emitted s') :
    s'.Inv (told ++ switches emitted) := by
  obtain ⟨api, input⟩ := input
  obtain ⟨hLawful, hEnabled, rfl, rfl⟩ := hStep
  have hGoes := h.goes
  -- Calls of a member without a suspended call leave the one they start, if any.
  have hFree : ∀ r : FtWork × Option Cont, s.waiting = [] → Lands (isOn told) r →
      Inv ⟨{ r.1 with out := [] }, r.2.toList ++ s.waiting⟩ (told ++ switches r.1.out) := by
    intro r hNone hLands
    rw [hNone, List.append_nil]
    exact h.lands hLands
  cases input with
  | message m state =>
      by_cases hIgnores : s.work.Ignores m
      · obtain ⟨hStays, hNone⟩ := hGoes.ignores env api state hIgnores
        have hInv := h.goes_on hStays
        have hNext : s.next env (api, .message m state) =
            ⟨{ (s.work.updatePeer env api m state).1 with out := [] }, s.waiting⟩ := by
          change FtSession.mk _ ((s.work.updatePeer env api m state).2.toList ++ s.waiting) = _
          rw [hNone]
          rfl
        rw [hNext]
        exact hInv
      · have hNone : s.waiting = [] := hOk.resolve_right hIgnores
        rw [hNone] at hGoes
        exact hFree _ hNone (hGoes.updatePeer env state hLawful hIgnores)
  | peerStop inbox =>
      obtain ⟨hNone, hKept⟩ := hOk
      rw [hNone] at hGoes
      exact hFree _ hNone (hGoes.endPeer env hLawful hEnabled.1 hKept)
  | activateTimer =>
      have hNone : s.waiting = [] := hOk
      rw [hNone] at hGoes
      refine hFree _ hNone ?_
      rw [hGoes.phase.1]
      exact activateTimerCb_lands env hGoes.toReady hLawful hGoes.phase.2
  | prepareTimer =>
      have hNone : s.waiting = [] := hOk
      rw [hNone] at hGoes
      refine hFree _ hNone ?_
      rw [hGoes.phase.1]
      exact prepareTimerCb_lands env hGoes.toReady hLawful hGoes.phase.2
  | hbTimer => exact h.goes_on (hGoes.hbTimerCb env hLawful)
  | setWeight weight => exact h.goes_on (hGoes.setWeight env weight)
  | resume c =>
      have hMem : c ∈ s.waiting := hEnabled
      have hOnly : s.waiting = [c] := by
        match hWaiting : s.waiting, hGoes.phase with
        | [], _ =>
            rw [hWaiting] at hMem
            cases hMem
        | [c'], _ =>
            rw [hWaiting, List.mem_singleton] at hMem
            rw [hMem]
      rw [hOnly] at hGoes
      have hLands := h.lands (resume_lands env hGoes.toReady hLawful hGoes.phase)
      have hNext : s.next env (api, .resume c) =
          ⟨{ (s.work.resume env api c).1 with out := [] }, (s.work.resume env api c).2.toList⟩ := by
        change FtSession.mk _ ((s.work.resume env api c).2.toList ++ s.waiting.erase c) = _
        rw [hOnly, List.erase_cons_head, List.append_nil]
        rfl
      rw [hNext]
      exact hLands

theorem inv_init (h : (memberSystem env).init s) : s.Inv [] := by
  obtain ⟨api, args, hLawful, rfl⟩ := h
  let start : FtWork :=
    { member :=
        { self := args.inbox
          peers := [args.me env api.now]
          startTime := api.now }
      timers := [] }
  have hFind : findPeer args.inbox [args.me env api.now] = some (args.me env api.now) := by
    simp [findPeer, FtArgs.me]
  have hStart : Ready start := by
    refine ⟨⟨⟨List.nodup_singleton _, _, hFind, rfl⟩, rfl, none, rfl, ?_, ?_⟩, rfl⟩
    · intro kind
      cases kind <;> rfl
    · rintro _ _ ⟨⟩
  have hPublish := idle_publish start env .start 1
  obtain ⟨hReady, hZero⟩ := prepare_ready env (hStart.fixed hPublish.toSame hPublish.toFixed) hLawful
  refine ⟨⟨List.isChain_nil, by simp⟩, ⟨⟨⟨hReady.seated, hReady.isDestroyed, ?_⟩, rfl⟩, ?_⟩, rfl⟩
  · exact hReady.timed.imp fun _ => timed_flush
  · refine ⟨(decide_eq_false ?_).symm, fun hHb => absurd hZero hHb⟩
    exact fun hHb => hHb hZero

end FtSession

/-- The application is told to be active and inactive in turn, and a member has at most one
timer of a kind and has its id, in every run without a call in a callback window and
without an advisory that takes the active member for lost. -/
theorem callbacks_alternate (env : FtEnv) (start s : FtSession) (inputs : List (Api × MemberInput))
    (outputs : List FtOutput) (hInit : (memberSystem env).init start)
    (hRun : ((memberSystem env).guard (FtSession.Undisturbed env)).Run start inputs outputs s) :
    Alternates (switches outputs) ∧
    (s.work.timers.filter fun t => t.1 = .hb).length ≤ 1 ∧
    (s.work.timers.filter fun t => t.1 ≠ .hb).length ≤ 1 ∧
    ∀ t ∈ s.work.timers, s.work.member.idOf t.1 = t.2 := by
  have hStart : start.Inv (switches []) := FtSession.inv_init hInit
  have hInv : s.Inv (switches ([] ++ outputs)) := by
    refine hRun.invariant_outputs (fun s sofar => s.Inv (switches sofar)) ?_ hStart
    intro s sofar input emitted t h hStep
    rw [FtWork.switches_append]
    exact h.step hStep.1 hStep.2
  rw [List.nil_append] at hInv
  obtain ⟨timer, hTimed⟩ := hInv.goes.timed
  have hOne : s.work.timers.length ≤ 1 := by
    rw [hTimed.timers]
    cases timer <;> simp
  refine ⟨hInv.alternates, ?_, ?_, ?_⟩
  · exact (List.length_filter_le _ _).trans hOne
  · exact (List.length_filter_le _ _).trans hOne
  · intro t hMem
    rw [hTimed.timers, Option.mem_toList] at hMem
    rw [hTimed.ids, hMem]
    exact if_pos rfl

def sampleArgs : FtArgs where
  inbox := text "_INBOX.0A000001.7F1.1"
  weight := 50
  activeGoal := 1
  hbIval := 500
  prepareIval := 0
  activateIval := 1000

def sampleTimer : TimerKind → BitVec 32
  | .prepare => 1
  | .activate => 2
  | .hb => 3

/-- The api at one time. -/
def apiAt (now : BitVec 64) : Api where
  now := now
  warned := now
  crowded := now
  updated := now
  prepared := now
  timer := sampleTimer

theorem apiAt_lawful (now : BitVec 64) : (apiAt now).Lawful := by
  have hTimer : ∀ kind, sampleTimer kind ≠ 0 := by
    intro kind
    cases kind <;> decide
  exact hTimer

def sampleStart : FtSession := ⟨{ sampleArgs.create sampleFtEnv (apiAt 0) with out := [] }, []⟩

theorem sampleStart_init : (memberSystem sampleFtEnv).init sampleStart :=
  ⟨apiAt 0, sampleArgs, apiAt_lawful 0, rfl⟩

/-- After two seconds the timer expires, and the application is told to be active. -/
def sampleWindow : FtSession := sampleStart.next sampleFtEnv (apiAt 2000000000, .activateTimer)

def sampleActive : FtSession :=
  sampleWindow.next sampleFtEnv (apiAt 2000000000, .resume .activateTimer)

/-- The heartbeat of a member with a higher weight. -/
def sampleBeat : MemberInput :=
  .message (publish sampleFtEnv { inbox := text "_INBOX.0A000002.7F2.1", weight := 60 } 0) .active

def sampleBeaten : FtSession := sampleActive.next sampleFtEnv (apiAt 2100000000, sampleBeat)

def sampleStandby : FtSession :=
  sampleBeaten.next sampleFtEnv (apiAt 2100000000, .resume .deactivated)

/-- A member that activates on its timer and gives way to a better one has told both, in
this order, and has one timer at most. -/
theorem callbacks_alternate_active :
    ∃ outputs, switches outputs = [.activate, .deactivate] ∧ Alternates (switches outputs) ∧
      (sampleStandby.work.timers.filter fun t => t.1 = .hb).length ≤ 1 := by
  let sys := (memberSystem sampleFtEnv).guard (FtSession.Undisturbed sampleFtEnv)
  have hOpen : Cont.activateTimer ∈ sampleWindow.waiting := by decide +kernel
  have hBeaten : Cont.deactivated ∈ sampleBeaten.waiting := by decide +kernel
  have hStart : sys.Run sampleStart [] [] sampleStart := .nil _
  have hWindow := hStart.take (apiAt 2000000000, .activateTimer) _ rfl
    ⟨apiAt_lawful _, trivial, rfl, (rfl : sampleWindow = _)⟩
  have hActive := hWindow.take (apiAt 2000000000, .resume .activateTimer) _ trivial
    ⟨apiAt_lawful _, hOpen, rfl, (rfl : sampleActive = _)⟩
  have hNone : sampleActive.waiting = [] := by decide +kernel
  have hBeat := hActive.take (apiAt 2100000000, sampleBeat) _ (.inl hNone)
    ⟨apiAt_lawful _, trivial, rfl, (rfl : sampleBeaten = _)⟩
  have hStandby := hBeat.take (apiAt 2100000000, .resume .deactivated) _ trivial
    ⟨apiAt_lawful _, hBeaten, rfl, (rfl : sampleStandby = _)⟩
  have hTold := callbacks_alternate sampleFtEnv _ _ _ _ sampleStart_init hStandby
  exact ⟨_, by decide +kernel, hTold.1, hTold.2.1⟩

def otherMember : FtPeer := { inbox := text "_INBOX.0A000002.7F2.1", weight := 20 }

/-- The heartbeat of another member while the first callback runs. -/
def sampleAgain : FtSession :=
  sampleWindow.next sampleFtEnv
    (apiAt 2000000000, .message (publish sampleFtEnv otherMember 0) .active)

/-- A message of another member in the window makes the callback run twice. -/
theorem callbacks_can_repeat :
    ∃ start s inputs outputs, (memberSystem sampleFtEnv).init start ∧
      (memberSystem sampleFtEnv).Run start inputs outputs s ∧
      switches outputs = [.activate, .activate] ∧ ¬Alternates (switches outputs) := by
  let sys := (memberSystem sampleFtEnv).guard fun _ _ => True
  have hStart : sys.Run sampleStart [] [] sampleStart := .nil _
  have hWindow := hStart.take (apiAt 2000000000, .activateTimer) _ trivial
    ⟨apiAt_lawful _, trivial, rfl, (rfl : sampleWindow = _)⟩
  have hAgain := hWindow.take
    (apiAt 2000000000, .message (publish sampleFtEnv otherMember 0) .active) _ trivial
    ⟨apiAt_lawful _, trivial, rfl, (rfl : sampleAgain = _)⟩
  have hTwice : ∀ told : List Action, told = [.activate, .activate] → ¬Alternates told := by
    rintro _ rfl ⟨hChain, -⟩
    exact (List.isChain_cons_cons.mp hChain).1 rfl
  refine ⟨sampleStart, sampleAgain, _, _, sampleStart_init, hAgain.of_guard, ?_, hTwice _ ?_⟩
  · decide +kernel
  · decide +kernel

end Sassrv.Rv7.Ft
