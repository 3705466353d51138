import Sassrv.Ft.Runs

/-! Several FT instances that exchange the messages of `send_msg`. A sent
message may reach any member, any number of times and in any order, or not at
all, and timers fire at any time. -/
namespace Sassrv.Ft
open Transition

/-- The members, and what the code does not keep: their start times, whether
they entered the finish state, the last message of each start time that a
member applied, and everything that was sent. -/
structure FtNetwork (Id : Type) where
  member : Id → RvFt
  starts : Id → List Nat
  finished : Id → Bool
  applied : Id → Nat → Option FtPeerMsg
  sent : List FtPeerMsg

/-- The messages among the calls out of an instance. -/
def published (out : List FtOut) : List FtPeerMsg :=
  out.filterMap (fun event => match event with
    | .publish _ m => some m
    | _ => none)

theorem mem_published {out : List FtOut} {m : FtPeerMsg} :
    m ∈ published out ↔ ∃ dest, .publish dest m ∈ out := by
  simp only [published, List.mem_filterMap]
  constructor
  · rintro ⟨event, hMem, hEq⟩
    cases event with
    | publish dest msg =>
        cases hEq
        exact ⟨dest, hMem⟩
    | _ => cases hEq
  · rintro ⟨dest, hMem⟩
    exact ⟨_, hMem, rfl⟩

namespace FtNetwork

variable {Id : Type} [DecidableEq Id]

/-- The member a call is made on, at the time of the call. -/
def called (c : FtNetwork Id) (i : Id) (input : FtInput) : RvFt :=
  (c.member i).atTime input.nowNs input.monoNs

/-- No member takes a start time that another has used, other calls are made
on members that have been started, and what they bring was sent. -/
def Allows (c : FtNetwork Id) (i : Id) (input : FtInput) : Prop :=
  if input.call.isStart then ∀ j, j ≠ i → input.nowNs ∉ c.starts j
  else c.starts i ≠ [] ∧ ∀ m ∈ (c.called i input).message input.call, m ∈ c.sent

/-- The network after a call on the member `i`, which is `g` then. -/
def after (c : FtNetwork Id) (i : Id) (input : FtInput) (g : RvFt) : FtNetwork Id where
  member := Function.update c.member i g
  starts := if input.call.isStart then
      Function.update c.starts i (input.nowNs :: c.starts i)
    else c.starts
  finished := Function.update c.finished i (c.finished i || g.me.state == .finish)
  applied := match (c.called i input).message input.call with
    | none => c.applied
    | some m =>
        if (c.called i input).applies m then
          Function.update c.applied i (Function.update (c.applied i) m.startNs (some m))
        else c.applied
  sent := c.sent ++ published g.out

end FtNetwork

/-- A network of members with the given clients. -/
def ftNetwork {Id : Type} [DecidableEq Id] (client : Id → EvRvClient) :
    System (FtNetwork Id) (Id × FtInput) FtOut where
  init := fun c => c = ⟨fun i => { client := client i }, fun _ => [], fun _ => false,
    fun _ _ => none, []⟩
  step := fun c input emitted d =>
    (c.member input.1).monoNs ≤ input.2.monoNs ∧ c.Allows input.1 input.2 ∧
    ∃ g, (c.member input.1).handle input.2 = some (g, emitted) ∧ d = c.after input.1 input.2 g

/-- What the queue of an unfinished member says of its peers, given the last
messages that were applied. -/
structure Standing (f : RvFt) (applied : Nat → Option FtPeerMsg) : Prop where
  order : f.Ordered
  records : ∀ r ∈ f.group.live, r ≠ .me → ∀ m, applied (f.group.peer r).startNs = some m →
    (f.group.peer r).state = m.state ∧ (f.group.peer r).weight = m.weight
  primary : f.me.state = .primary → ∀ r ∈ f.group.live, r ≠ .me →
    ∀ m, applied (f.group.peer r).startNs = some m → m.type ≠ .finish →
    f.me.isGreater (f.group.peer r) = true

namespace Standing

variable {C : Prop} {f g : RvFt} {applied : Nat → Option FtPeerMsg}

/-- The rank of `me` while it stays primary. -/
theorem sameRank (hSends : f.Sends g) (hOld : f.me.state = .primary)
    (hNew : g.me.state = .primary) : f.me.SameRank g.me :=
  ⟨by rw [FtPeer.level, FtPeer.level, hOld, hNew], hSends.weight, hSends.startNs⟩

theorem turn (h : Standing f applied) (hSends : f.Sends g) (hTurn : f.Turn C g) :
    Standing g applied := by
  have hOrder := hTurn.order h.order
  refine ⟨hOrder, ?_, ?_⟩
  · intro r hr hne m hm
    obtain ⟨hOld, hSame⟩ := hTurn.remain r hr hne
    rw [hSame.startNs] at hm
    rw [hSame.state, hSame.weight]
    exact h.records r hOld hne m hm
  · intro hPrimary r hr hne m hm hType
    rcases hTurn.primary h.order hPrimary with hHeads | hBefore
    · exact FtGroup.head_isGreater hOrder hHeads hr hne
    · obtain ⟨hOld, hSame⟩ := hTurn.remain r hr hne
      rw [hSame.startNs] at hm
      exact (sameRank hSends hBefore hPrimary).isGreater hSame.rank
        (h.primary hBefore r hOld hne m hm hType)

/-- A message that is applied, or not. -/
theorem heard (h : Standing f applied) (hSends : f.Sends g) {m : FtPeerMsg}
    (hHeard : f.Heard C m g) :
    Standing g (if f.applies m then Function.update applied m.startNs (some m) else applied) := by
  have hOrder := hHeard.order h.order
  have hOld : ∀ s, (f.applies m = true → s ≠ m.startNs) →
      (if f.applies m then Function.update applied m.startNs (some m) else applied) s =
        applied s := by
    intro s hs
    split
    · rename_i hApplied
      exact Function.update_of_ne (hs hApplied) _ _
    · rfl
  refine ⟨hOrder, ?_, ?_⟩
  · intro r hr hne msg hMsg
    rcases hHeard.peers r hr hne with ⟨hLive, hSame, hStart⟩ | ⟨hApplied, hStart, hState, hWeight⟩
    · rw [hOld _ hStart, hSame.startNs] at hMsg
      rw [hSame.state, hSame.weight]
      exact h.records r hLive hne msg hMsg
    · rw [if_pos hApplied, hStart, Function.update_self] at hMsg
      cases hMsg
      exact ⟨hState, hWeight⟩
  · intro hPrimary r hr hne msg hMsg hType
    rcases hHeard.primary h.order hPrimary with hHeads | ⟨hBefore, hSender⟩
    · exact FtGroup.head_isGreater hOrder hHeads hr hne
    · rcases hHeard.peers r hr hne with ⟨hLive, hSame, hStart⟩ | ⟨hApplied, hStart, -, -⟩
      · rw [hOld _ hStart, hSame.startNs] at hMsg
        exact (sameRank hSends hBefore hPrimary).isGreater hSame.rank
          (h.primary hBefore r hLive hne msg hMsg hType)
      · rw [if_pos hApplied, hStart, Function.update_self] at hMsg
        cases hMsg
        rcases hSender with hFinish | hGone
        · exact absurd hFinish hType
        · exact absurd hStart (hGone hApplied r hr hne)

end Standing

namespace FtNetwork

variable {Id : Type} [DecidableEq Id] {client : Id → EvRvClient}

/-- The invariant of a network. -/
structure Inv (client : Id → EvRvClient) (c : FtNetwork Id) : Prop where
  fresh : ∀ i, c.starts i = [] → c.member i = { client := client i }
  foreign : ∀ i, (c.member i).group.Foreign
  current : ∀ i, c.starts i ≠ [] → (c.member i).me.startNs ∈ c.starts i
  apart : ∀ i j s, s ∈ c.starts i → s ∈ c.starts j → i = j
  sound : ∀ i, (c.starts i).length = 1 → (c.member i).Sound True
  standing : ∀ i, (c.starts i).length = 1 → c.finished i = false →
    Standing (c.member i) (c.applied i)
  origin : ∀ m ∈ c.sent, ∃ j, m.startNs ∈ c.starts j ∧
    ((c.starts j).length = 1 → m.weight = (c.member j).me.weight)
  heard : ∀ i s m, c.applied i s = some m → m ∈ c.sent ∧ m.startNs = s

theorem Inv.init {c : FtNetwork Id} (h : (ftNetwork client).init c) : c.Inv client := by
  cases h
  refine ⟨fun _ _ => rfl, ?_, ?_, ?_, ?_, ?_, ?_, ?_⟩
  · intro _ s r hMem
    cases hMem
  · exact fun _ hStarts => absurd rfl hStarts
  · intro _ _ _ hMem
    cases hMem
  · intro _ hLength
    cases hLength
  · intro _ hLength
    cases hLength
  · intro _ hMem
    cases hMem
  · intro _ _ _ hEq
    cases hEq

theorem after_member_self (c : FtNetwork Id) (i : Id) (input : FtInput) (g : RvFt) :
    (c.after i input g).member i = g := Function.update_self ..

theorem after_member_of_ne (c : FtNetwork Id) {i j : Id} (hne : j ≠ i) (input : FtInput)
    (g : RvFt) : (c.after i input g).member j = c.member j := Function.update_of_ne hne _ _

theorem after_finished_of_ne (c : FtNetwork Id) {i j : Id} (hne : j ≠ i) (input : FtInput)
    (g : RvFt) : (c.after i input g).finished j = c.finished j := Function.update_of_ne hne _ _

theorem after_finished_self (c : FtNetwork Id) (i : Id) (input : FtInput) (g : RvFt) :
    (c.after i input g).finished i = (c.finished i || g.me.state == .finish) :=
  Function.update_self ..

theorem after_starts_call (c : FtNetwork Id) (i : Id) {input : FtInput}
    (hCall : input.call.isStart = false) (g : RvFt) : (c.after i input g).starts = c.starts := by
  simp [after, hCall]

theorem after_starts_self (c : FtNetwork Id) (i : Id) {input : FtInput}
    (hCall : input.call.isStart = true) (g : RvFt) :
    (c.after i input g).starts i = input.nowNs :: c.starts i := by
  simp [after, hCall]

theorem after_starts_of_ne (c : FtNetwork Id) {i j : Id} (hne : j ≠ i) (input : FtInput)
    (g : RvFt) : (c.after i input g).starts j = c.starts j := by
  unfold after
  simp only
  split
  · exact Function.update_of_ne hne _ _
  · rfl

theorem after_applied_of_ne (c : FtNetwork Id) {i j : Id} (hne : j ≠ i) (input : FtInput)
    (g : RvFt) : (c.after i input g).applied j = c.applied j := by
  unfold after
  cases (c.called i input).message input.call with
  | none => rfl
  | some m =>
      simp only
      split
      · exact Function.update_of_ne hne _ _
      · rfl

theorem after_applied_self (c : FtNetwork Id) (i : Id) {input : FtInput} {m : FtPeerMsg}
    (hMsg : (c.called i input).message input.call = some m) (g : RvFt) :
    (c.after i input g).applied i = if (c.called i input).applies m then
      Function.update (c.applied i) m.startNs (some m) else c.applied i := by
  unfold after
  simp only [hMsg]
  split
  · exact Function.update_self ..
  · rfl

theorem after_applied_none (c : FtNetwork Id) (i : Id) {input : FtInput}
    (hMsg : (c.called i input).message input.call = none) (g : RvFt) :
    (c.after i input g).applied = c.applied := by
  unfold after
  simp only [hMsg]

/-- What is applied was sent. -/
theorem Inv.heard_after {c : FtNetwork Id} (h : c.Inv client) {i : Id} {input : FtInput}
    (hSent : ∀ m, (c.called i input).message input.call = some m → m ∈ c.sent) (g : RvFt) :
    ∀ j s m, (c.after i input g).applied j s = some m →
      m ∈ (c.after i input g).sent ∧ m.startNs = s := by
  have hOld : ∀ j s m, c.applied j s = some m → m ∈ (c.after i input g).sent ∧ m.startNs = s :=
    fun j s m hEq => ⟨List.mem_append_left _ (h.heard j s m hEq).1, (h.heard j s m hEq).2⟩
  intro j s m hEq
  by_cases hj : j = i
  · subst hj
    cases hMsg : (c.called j input).message input.call with
    | none =>
        rw [after_applied_none c j hMsg] at hEq
        exact hOld j s m hEq
    | some msg =>
        rw [after_applied_self c j hMsg] at hEq
        split at hEq
        · by_cases hs : s = msg.startNs
          · subst hs
            rw [Function.update_self] at hEq
            cases hEq
            exact ⟨List.mem_append_left _ (hSent m hMsg), rfl⟩
          · rw [Function.update_of_ne hs] at hEq
            exact hOld j s m hEq
        · exact hOld j s m hEq
  · rw [after_applied_of_ne c hj] at hEq
    exact hOld j s m hEq

/-- What was sent before has the start time of a member, and what is sent has that of the
member called. -/
theorem Inv.origin_after {c : FtNetwork Id} (h : c.Inv client) {i : Id} {input : FtInput} {g : RvFt}
    (hGrows : c.starts i ⊆ (c.after i input g).starts i)
    (hWeight : c.starts i ≠ [] → ((c.after i input g).starts i).length = 1 →
      (c.starts i).length = 1 ∧ g.me.weight = (c.member i).me.weight)
    (hOwn : ∀ m ∈ published g.out,
      m.startNs ∈ (c.after i input g).starts i ∧ m.weight = g.me.weight) :
    ∀ m ∈ (c.after i input g).sent, ∃ j, m.startNs ∈ (c.after i input g).starts j ∧
      (((c.after i input g).starts j).length = 1 →
        m.weight = ((c.after i input g).member j).me.weight) := by
  intro m hMem
  rcases List.mem_append.mp hMem with hOld | hNew
  · obtain ⟨j, hIn, hOf⟩ := h.origin m hOld
    by_cases hj : j = i
    · subst hj
      refine ⟨j, hGrows hIn, fun hOnce => ?_⟩
      obtain ⟨hBefore, hSame⟩ := hWeight (List.ne_nil_of_mem hIn) hOnce
      rw [after_member_self, hSame]
      exact hOf hBefore
    · refine ⟨j, ?_, ?_⟩
      · rw [after_starts_of_ne c hj]
        exact hIn
      · rw [after_starts_of_ne c hj, after_member_of_ne c hj]
        exact hOf
  · obtain ⟨hIn, hOf⟩ := hOwn m hNew
    refine ⟨i, hIn, fun _ => ?_⟩
    rw [after_member_self]
    exact hOf

/-- No two members have a start time in common, if the one called has none of another. -/
theorem Inv.apart_after {c : FtNetwork Id} (h : c.Inv client) {i : Id} {input : FtInput} {g : RvFt}
    (hApart : ∀ j s, j ≠ i → s ∈ c.starts j → s ∉ (c.after i input g).starts i) :
    ∀ j k s, s ∈ (c.after i input g).starts j → s ∈ (c.after i input g).starts k → j = k := by
  have hOther : ∀ j s, j ≠ i → s ∈ (c.after i input g).starts j →
      s ∉ (c.after i input g).starts i := by
    intro j s hj hIn
    rw [after_starts_of_ne c hj] at hIn
    exact hApart j s hj hIn
  intro j k s hj hk
  by_cases hji : j = i
  · by_cases hki : k = i
    · rw [hji, hki]
    · rw [hji] at hj
      exact absurd hj (hOther k s hki hk)
  · by_cases hki : k = i
    · rw [hki] at hk
      exact absurd hk (hOther j s hji hj)
    · rw [after_starts_of_ne c hji] at hj
      rw [after_starts_of_ne c hki] at hk
      exact h.apart j k s hj hk

/-- The invariant after a call, by what it says of the member called: the others stay as
they are. -/
theorem Inv.after {c : FtNetwork Id} (h : c.Inv client) {i : Id} {input : FtInput} {g : RvFt}
    (hForeign : g.group.Foreign) (hCurrent : g.me.startNs ∈ (c.after i input g).starts i)
    (hApart : ∀ j s, j ≠ i → s ∈ c.starts j → s ∉ (c.after i input g).starts i)
    (hSound : ((c.after i input g).starts i).length = 1 → g.Sound True)
    (hStanding : ((c.after i input g).starts i).length = 1 →
      (c.after i input g).finished i = false → Standing g ((c.after i input g).applied i))
    (hOrigin : ∀ m ∈ (c.after i input g).sent, ∃ j, m.startNs ∈ (c.after i input g).starts j ∧
      (((c.after i input g).starts j).length = 1 →
        m.weight = ((c.after i input g).member j).me.weight))
    (hSent : ∀ m, (c.called i input).message input.call = some m → m ∈ c.sent) :
    (c.after i input g).Inv client := by
  refine ⟨?_, ?_, ?_, h.apart_after hApart, ?_, ?_, hOrigin, h.heard_after hSent g⟩
  · intro j hEmpty
    have hne : j ≠ i := by
      rintro rfl
      exact List.ne_nil_of_mem hCurrent hEmpty
    rw [after_starts_of_ne c hne] at hEmpty
    rw [after_member_of_ne c hne]
    exact h.fresh j hEmpty
  · intro j
    by_cases hj : j = i
    · rw [hj, after_member_self]
      exact hForeign
    · rw [after_member_of_ne c hj]
      exact h.foreign j
  · intro j hStarted
    by_cases hj : j = i
    · subst hj
      rw [after_member_self]
      exact hCurrent
    · rw [after_starts_of_ne c hj] at hStarted ⊢
      rw [after_member_of_ne c hj]
      exact h.current j hStarted
  · intro j hOnce
    by_cases hj : j = i
    · subst hj
      rw [after_member_self]
      exact hSound hOnce
    · rw [after_starts_of_ne c hj] at hOnce
      rw [after_member_of_ne c hj]
      exact h.sound j hOnce
  · intro j hOnce hFinished
    by_cases hj : j = i
    · subst hj
      rw [after_member_self]
      exact hStanding hOnce hFinished
    · rw [after_starts_of_ne c hj] at hOnce
      rw [after_finished_of_ne c hj] at hFinished
      rw [after_member_of_ne c hj, after_applied_of_ne c hj]
      exact h.standing j hOnce hFinished

/-- The standing of a member after a call other than `start`. -/
theorem Inv.standing_call {c : FtNetwork Id} (h : c.Inv client) {i : Id} {input : FtInput}
    {g : RvFt} (hOnce : (c.starts i).length = 1) (hSends : (c.called i input).Sends g)
    (hCalled : (c.called i input).Called True input.call g)
    (hFinished : (c.after i input g).finished i = false) :
    Standing g ((c.after i input g).applied i) := by
  rw [after_finished_self] at hFinished
  obtain ⟨hBefore, hAfter⟩ := Bool.or_eq_false_iff.mp hFinished
  have hStanding : Standing (c.called i input) (c.applied i) := by
    obtain ⟨hOrder, hRecords, hPrimary⟩ := h.standing i hOnce hBefore
    exact ⟨hOrder, hRecords, hPrimary⟩
  cases hCalled with
  | turn hMsg hTurn _ =>
      rw [after_applied_none c i hMsg]
      exact hStanding.turn hSends hTurn
  | heard m hMsg _ hHeard =>
      rw [after_applied_self c i hMsg]
      exact hStanding.heard hSends hHeard
  | finished _ _ hEnd =>
      rw [hEnd.state] at hAfter
      cases hAfter

/-- A call other than `start`. -/
theorem Inv.call {c : FtNetwork Id} (h : c.Inv client) {i : Id} {input : FtInput} {g : RvFt}
    (hCall : input.call.isStart = false) (hStarted : c.starts i ≠ [])
    (hSent : ∀ m, (c.called i input).message input.call = some m → m ∈ c.sent)
    (hDispatch : (c.called i input).dispatch input.call = some g) :
    (c.after i input g).Inv client := by
  have hNotStart : ∀ param, input.call ≠ .start param := by
    intro param hEq
    rw [hEq] at hCall
    cases hCall
  have hForeign : (c.called i input).group.Foreign := h.foreign i
  have hSends := RvFt.dispatch_sends hForeign hDispatch hNotStart
  have hStart : g.me.startNs = (c.member i).me.startNs := hSends.startNs
  have hWeight : g.me.weight = (c.member i).me.weight := hSends.weight
  have hStarts := after_starts_call c i hCall g
  have hCurrent : g.me.startNs ∈ c.starts i := by
    rw [hStart]
    exact h.current i hStarted
  have hCalled : (c.starts i).length = 1 → (c.called i input).Called True input.call g := by
    intro hOnce
    obtain ⟨e, hReturns, hCalled⟩ := RvFt.dispatch_called
      ((h.sound i hOnce).atTime input.nowNs input.monoNs) (enabled_of_dispatch hDispatch) hNotStart
    change (c.called i input).dispatch input.call = some e at hReturns
    rw [hDispatch] at hReturns
    cases hReturns
    exact hCalled
  have hOwn : ∀ m ∈ published g.out, m.startNs ∈ c.starts i ∧ m.weight = g.me.weight := by
    intro m hNew
    obtain ⟨dest, hOut⟩ := mem_published.mp hNew
    rcases hSends.sent dest m hOut with hEmpty | ⟨hOwn, hOwnWeight⟩
    · cases hEmpty
    · refine ⟨?_, hOwnWeight.trans hWeight.symm⟩
      rw [hOwn]
      exact h.current i hStarted
  refine h.after hSends.foreign ?_ ?_ ?_ ?_ (h.origin_after ?_ ?_ ?_) hSent
  · rw [hStarts]
    exact hCurrent
  · rw [hStarts]
    intro j s hj hIn hSelf
    exact hj (h.apart j i s hIn hSelf)
  · rw [hStarts]
    exact fun hOnce => (hCalled hOnce).kept.sound
  · rw [hStarts]
    exact fun hOnce hFinished => h.standing_call hOnce hSends (hCalled hOnce) hFinished
  · rw [hStarts]
    exact List.Subset.refl _
  · rw [hStarts]
    exact fun _ hOnce => ⟨hOnce, hWeight⟩
  · rw [hStarts]
    exact hOwn

/-- The first `start` of a member. -/
theorem started_fresh {client : EvRvClient} {nowNs monoNs : Nat} {param : FtParameters} {g : RvFt}
    (hStart : (RvFt.atTime { client := client } nowNs monoNs).start param = some g) :
    g.Sound True ∧ g.group.live = [] := by
  obtain ⟨e, param, hGroup, hStarted⟩ := RvFt.start_fresh ⟨client, nowNs, monoNs, param, hStart⟩
  refine ⟨hStarted.sound, ?_⟩
  rw [hStarted.live, hGroup]

/-- Nothing stands against a member that has no peers. -/
theorem standing_alone {g : RvFt} (hLive : g.group.live = []) (applied : Nat → Option FtPeerMsg) :
    Standing g applied := by
  refine ⟨?_, ?_, ?_⟩
  · unfold RvFt.Ordered
    rw [hLive]
    exact List.Pairwise.nil
  · rw [hLive]
    simp
  · rw [hLive]
    simp

/-- A `start`, the first of the member or another one. -/
theorem Inv.start {c : FtNetwork Id} (h : c.Inv client) {i : Id} {input : FtInput} {g : RvFt}
    {param : FtParameters} (hCall : input.call = .start param)
    (hNew : ∀ j, j ≠ i → input.nowNs ∉ c.starts j)
    (hDispatch : (c.called i input).dispatch input.call = some g) :
    (c.after i input g).Inv client := by
  have hIsStart : input.call.isStart = true := by rw [hCall]; rfl
  have hMsg : (c.called i input).message input.call = none := by rw [hCall]; rfl
  rw [hCall] at hDispatch
  have hForeign : (c.called i input).group.Foreign := h.foreign i
  have hSends := RvFt.start_sends hForeign hDispatch
  have hStart : g.me.startNs = input.nowNs := by
    have hSame := hSends.startNs
    change g.me.startNs = ((c.called i input).prepared param).me.startNs at hSame
    rw [hSame, RvFt.prepared_me]
    rfl
  have hSelf := after_starts_self c i hIsStart g
  have hFirst : (input.nowNs :: c.starts i).length = 1 → c.starts i = [] := by
    intro hOnce
    exact List.eq_nil_of_length_eq_zero (by simpa using hOnce)
  have hMember : c.starts i = [] → g.Sound True ∧ g.group.live = [] := by
    intro hEmpty
    have hCalled : c.called i input = RvFt.atTime { client := client i } input.nowNs
        input.monoNs := by
      rw [called, h.fresh i hEmpty]
    rw [hCalled] at hDispatch
    exact started_fresh hDispatch
  have hOwn : ∀ m ∈ published g.out, m.startNs ∈ input.nowNs :: c.starts i ∧
      m.weight = g.me.weight := by
    intro m hPublished
    obtain ⟨dest, hOut⟩ := mem_published.mp hPublished
    rcases hSends.sent dest m hOut with hEmpty | ⟨hOwn, hOwnWeight⟩
    · simp [RvFt.prepared, RvFt.emit, called, RvFt.atTime] at hEmpty
    · refine ⟨?_, hOwnWeight.trans hSends.weight.symm⟩
      rw [hOwn, RvFt.prepared_me]
      exact List.mem_cons_self ..
  refine h.after hSends.foreign ?_ ?_ ?_ ?_ (h.origin_after ?_ ?_ ?_) ?_
  · rw [hSelf, hStart]
    exact List.mem_cons_self ..
  · rw [hSelf]
    intro j s hj hIn hSelfIn
    rcases List.mem_cons.mp hSelfIn with rfl | hOld
    · exact hNew j hj hIn
    · exact hj (h.apart j i s hIn hOld)
  · rw [hSelf]
    exact fun hOnce => (hMember (hFirst hOnce)).1
  · rw [hSelf]
    exact fun hOnce _ => standing_alone (hMember (hFirst hOnce)).2 _
  · rw [hSelf]
    exact List.subset_cons_self ..
  · rw [hSelf]
    exact fun hStarted hOnce => absurd (hFirst hOnce) hStarted
  · rw [hSelf]
    exact hOwn
  · rw [hMsg]
    intro m hEq
    cases hEq

theorem Inv.step {c d : FtNetwork Id} (h : c.Inv client) {input : Id × FtInput}
    {emitted : List FtOut} (hStep : (ftNetwork client).step c input emitted d) : d.Inv client := by
  obtain ⟨hTime, hAllows, g, hHandle, rfl⟩ := hStep
  obtain ⟨-, hDispatch, -⟩ := step_dispatch ⟨hTime, hHandle⟩
  unfold Allows at hAllows
  cases hCall : input.2.call.isStart with
  | true =>
      rw [if_pos hCall] at hAllows
      obtain ⟨param, hParam⟩ : ∃ param, input.2.call = .start param := by
        cases hEq : input.2.call with
        | start param => exact ⟨param, rfl⟩
        | _ => rw [hEq] at hCall; cases hCall
      exact h.start hParam hAllows hDispatch
  | false =>
      rw [if_neg (by rw [hCall]; simp)] at hAllows
      exact h.call hCall hAllows.1 hAllows.2 hDispatch

/-- A member that was started once and has not entered the finish state. -/
def Active (c : FtNetwork Id) (i : Id) : Prop :=
  (c.starts i).length = 1 ∧ c.finished i = false

/-- The queue of `a` holds `b`, by a message of `b`'s rank. -/
def Knows (c : FtNetwork Id) (a b : Id) : Prop :=
  (∃ r ∈ (c.member a).group.live, r ≠ .me ∧
    ((c.member a).group.peer r).startNs = (c.member b).me.startNs) ∧
  ∃ m, c.applied a (c.member b).me.startNs = some m ∧ m.type ≠ .finish ∧ m.type ≠ .exiting ∧
    (m.state = .primary ∨ m.state = .secondary)

omit [DecidableEq Id] in
/-- A primary is above every active member that it knows. -/
theorem Inv.primary_above {c : FtNetwork Id} (h : c.Inv client) {a b : Id} (hA : c.Active a)
    (hB : c.Active b) (hKnows : c.Knows a b) (hPrimary : (c.member a).me.state = .primary) :
    (c.member a).me.isGreaterWeight (c.member b).me = true := by
  obtain ⟨⟨r, hr, hne, hStart⟩, m, hApplied, hType, -, hState⟩ := hKnows
  have hStanding := h.standing a hA.1 hA.2
  have hMsg := hApplied
  rw [← hStart] at hMsg
  obtain ⟨hRecState, hRecWeight⟩ := hStanding.records r hr hne m hMsg
  have hAbove := hStanding.primary hPrimary r hr hne m hMsg hType
  obtain ⟨hSent, hOwn⟩ := h.heard a _ m hApplied
  have hWeight : m.weight = (c.member b).me.weight := by
    obtain ⟨j, hIn, hOf⟩ := h.origin m hSent
    rw [hOwn] at hIn
    have hCurrent := h.current b (by intro hEq; rw [Active, hEq] at hB; cases hB.1)
    have hj := h.apart j b _ hIn hCurrent
    subst hj
    exact hOf hB.1
  have hLevel : ((c.member a).group.peer r).level = 1 := by
    rw [FtPeer.level, hRecState]
    rcases hState with hEq | hEq <;> rw [hEq] <;> rfl
  have hLevelMe : (c.member a).me.level = 1 := by
    rw [FtPeer.level, hPrimary]
    rfl
  rw [isGreater_iff, isGreaterWeight_iff, hLevel, hLevelMe] at hAbove
  rw [isGreaterWeight_iff, ← hStart, ← hWeight, ← hRecWeight]
  omega

end FtNetwork

/-- Two active members that know each other by a message of the other's rank
are not both primary, and if one is, it is the greater by weight. -/
theorem ft_agreement {Id : Type} [DecidableEq Id] {client : Id → EvRvClient} {c : FtNetwork Id}
    (h : (ftNetwork client).Reachable c) {a b : Id} (hA : c.Active a) (hB : c.Active b)
    (hAB : c.Knows a b) (hBA : c.Knows b a) :
    ¬ ((c.member a).me.state = .primary ∧ (c.member b).me.state = .primary) ∧
    ((c.member a).me.state = .primary →
      (c.member a).me.isGreaterWeight (c.member b).me = true) ∧
    ((c.member b).me.state = .primary →
      (c.member b).me.isGreaterWeight (c.member a).me = true) := by
  have hInv : c.Inv client := by
    refine h.invariant ?_ ?_
    · exact fun _ hInit => FtNetwork.Inv.init hInit
    · exact fun _ _ _ _ hBefore hStep => hBefore.step hStep
  have hAbove := hInv.primary_above hA hB hAB
  have hBelow := hInv.primary_above hB hA hBA
  refine ⟨?_, hAbove, hBelow⟩
  rintro ⟨hPrimary, hOther⟩
  have hFirst := hAbove hPrimary
  have hSecond := hBelow hOther
  rw [isGreaterWeight_iff] at hFirst hSecond
  omega

/-- A message as `send_msg` writes its fields. -/
def FtPeerMsg.pub (m : FtPeerMsg) (subject : Text) : EvPublish where
  subject := subject
  reply := m.reply
  fields := some {
    type := m.type.code
    state := m.state.code
    memberCnt := m.memberCnt
    hbIval := m.hbIval
    actIval := m.actIval
    prepIval := m.prepIval
    startNs := m.startNs
    weight := m.weight
    curTime := m.curTime
    finTime := m.finTime
    user := m.user
    syncInbox := m.syncInbox }

/-- A message that was sent arrives as it was sent. -/
theorem handsOn_pub {f : RvFt} {m : FtPeerMsg} (hStart : m.startNs ≠ 0)
    (hOther : m.startNs ≠ f.me.startNs) : f.handsOn (m.pub f.ftSub) = some m := by
  obtain ⟨type, state, memberCnt, hbIval, actIval, prepIval, startNs, weight, curTime, finTime,
    reply, user, syncInbox⟩ := m
  have hType : FtMsgType.ofCode type.code = some type := by cases type <;> rfl
  have hState : FtState.ofCode state.code = some state := by cases state <;> rfl
  simp only at hStart hOther
  simp [RvFt.handsOn, FtPeerMsg.pub, RvFt.FtFields.peerMsg, hType, hState, hStart, Option.filter,
    hOther]

/-- The message of the first member when it becomes primary. -/
def primaryMsg : FtPeerMsg where
  type := .activate
  state := .primary
  memberCnt := 1
  hbIval := 3000
  actIval := 7000
  prepIval := 6500
  startNs := 100
  weight := 30
  curTime := 8000000000

/-- The message of the second member when it becomes secondary. -/
def secondaryMsg : FtPeerMsg where
  type := .deactivate
  state := .secondary
  memberCnt := 2
  hbIval := 3000
  actIval := 7000
  prepIval := 6500
  startNs := 200
  weight := 20
  curTime := 8000000002

/-- The calls on the first member: it starts, joins and takes over at once, and
hears of the second. -/
def firstStart : FtInput := ⟨100, 1, .start { weight := 30 }⟩
def firstJoin : FtInput := ⟨8000000000, 8000000000, .timer 100 .join⟩
def firstHears : FtInput := ⟨8000000003, 8000000000, .publish (secondaryMsg.pub [])⟩

/-- The calls on the second member: it starts, hears of the first, and joins
behind it. -/
def secondStart : FtInput := ⟨200, 1, .start {}⟩
def secondHears : FtInput := ⟨8000000001, 8000000000, .publish (primaryMsg.pub [])⟩
def secondJoin : FtInput := ⟨8000000002, 8000000000, .timer 200 .join⟩

theorem handle_get {f : RvFt} {input : FtInput} (h : (f.handle input).isSome) :
    f.handle input = some (((f.handle input).get h).1, ((f.handle input).get h).1.out) := by
  obtain ⟨⟨g, out⟩, hEq⟩ := Option.isSome_iff_exists.mp h
  have hOut : out = g.out := by
    simp only [RvFt.handle, Option.bind_eq_bind, Option.bind_eq_some_iff, Option.pure_def,
      Option.some.injEq, Prod.mk.injEq] at hEq
    obtain ⟨e, -, rfl, rfl⟩ := hEq
    rfl
  simp [hEq, hOut]

/-- The first member after each of its calls. -/
structure FirstRun (a1 a2 a3 : RvFt) : Prop where
  starts : RvFt.handle { client := plainClient } firstStart = some (a1, a1.out)
  joins : a1.handle firstJoin = some (a2, a2.out)
  hears : a2.handle firstHears = some (a3, a3.out)
  times : a1.monoNs = 1 ∧ a2.monoNs = 8000000000
  before : a1.me.state ≠ .finish ∧ a2.me.state ≠ .finish
  subject : a2.ftSub = []
  startNs : a2.me.startNs = 100 ∧ a3.me.startNs = 100
  sent : primaryMsg ∈ published a2.out
  applies : (a2.atTime 8000000003 8000000000).applies secondaryMsg = true
  state : a3.me.state = .primary
  live : a3.group.live = [.me, .slot 0 0]
  peer : (a3.group.peer (.slot 0 0)).startNs = 200

/-- The second member after each of its calls. -/
structure SecondRun (b1 b2 b3 : RvFt) : Prop where
  starts : RvFt.handle { client := plainClient } secondStart = some (b1, b1.out)
  hears : b1.handle secondHears = some (b2, b2.out)
  joins : b2.handle secondJoin = some (b3, b3.out)
  times : b1.monoNs = 1 ∧ b2.monoNs = 8000000000
  before : b1.me.state ≠ .finish ∧ b2.me.state ≠ .finish
  subject : b1.ftSub = []
  startNs : b1.me.startNs = 200 ∧ b3.me.startNs = 200
  sent : secondaryMsg ∈ published b3.out
  applies : (b1.atTime 8000000001 8000000000).applies primaryMsg = true
  state : b3.me.state = .secondary
  live : b3.group.live = [.slot 0 0, .me]
  peer : (b3.group.peer (.slot 0 0)).startNs = 100

theorem exists_firstRun : ∃ a1 a2 a3 : RvFt, FirstRun a1 a2 a3 := by
  refine ⟨_, _, _, handle_get (by decide), handle_get (by decide), handle_get (by decide),
    ?_, ?_, ?_, ?_, ?_, ?_, ?_, ?_, ?_⟩
  all_goals decide

theorem exists_secondRun : ∃ b1 b2 b3 : RvFt, SecondRun b1 b2 b3 := by
  refine ⟨_, _, _, handle_get (by decide), handle_get (by decide), handle_get (by decide),
    ?_, ?_, ?_, ?_, ?_, ?_, ?_, ?_, ?_⟩
  all_goals decide

/-- The network of the two members, before any call. -/
def pairStart : FtNetwork Bool :=
  ⟨fun _ => { client := plainClient }, fun _ => [], fun _ => false, fun _ _ => none, []⟩

/-- Both have started, and the first is primary. -/
def pairJoined (a1 a2 b1 : RvFt) : FtNetwork Bool :=
  ((pairStart.after true firstStart a1).after false secondStart b1).after true firstJoin a2

/-- Each has heard of the other. -/
def pairHeard (a1 a2 a3 b1 b2 b3 : RvFt) : FtNetwork Bool :=
  (((pairJoined a1 a2 b1).after false secondHears b2).after false secondJoin b3).after true
    firstHears a3

theorem FtNetwork.reachable_start {Id : Type} [DecidableEq Id] {client : Id → EvRvClient}
    {c : FtNetwork Id} (h : (ftNetwork client).Reachable c) {i : Id} {input : FtInput} {g : RvFt}
    (hCall : input.call.isStart = true) (hTime : (c.member i).monoNs ≤ input.monoNs)
    (hNew : ∀ j, j ≠ i → input.nowNs ∉ c.starts j)
    (hHandle : (c.member i).handle input = some (g, g.out)) :
    (ftNetwork client).Reachable (c.after i input g) := by
  have hStep : (ftNetwork client).step c (i, input) g.out (c.after i input g) := by
    refine ⟨hTime, ?_, g, hHandle, rfl⟩
    rw [FtNetwork.Allows, if_pos hCall]
    exact hNew
  exact h.step hStep

theorem FtNetwork.reachable_call {Id : Type} [DecidableEq Id] {client : Id → EvRvClient}
    {c : FtNetwork Id} (h : (ftNetwork client).Reachable c) {i : Id} {input : FtInput} {g : RvFt}
    (hCall : input.call.isStart = false) (hTime : (c.member i).monoNs ≤ input.monoNs)
    (hStarted : c.starts i ≠ [])
    (hSent : ∀ m, (c.called i input).message input.call = some m → m ∈ c.sent)
    (hHandle : (c.member i).handle input = some (g, g.out)) :
    (ftNetwork client).Reachable (c.after i input g) := by
  have hStep : (ftNetwork client).step c (i, input) g.out (c.after i input g) := by
    refine ⟨hTime, ?_, g, hHandle, rfl⟩
    rw [FtNetwork.Allows, if_neg (by rw [hCall]; simp)]
    exact ⟨hStarted, hSent⟩
  exact h.step hStep

section
variable {a1 a2 a3 b1 b2 b3 : RvFt}

theorem FirstRun.message (h : FirstRun a1 a2 a3) :
    (a2.atTime 8000000003 8000000000).message firstHears.call = some secondaryMsg := by
  have hSub : (a2.atTime 8000000003 8000000000).ftSub = [] := h.subject
  have hOther : secondaryMsg.startNs ≠ (a2.atTime 8000000003 8000000000).me.startNs := by
    change 200 ≠ a2.me.startNs
    rw [h.startNs.1]
    decide
  have hArrives := handsOn_pub (by decide) hOther
  rw [hSub] at hArrives
  exact hArrives

theorem SecondRun.message (h : SecondRun b1 b2 b3) :
    (b1.atTime 8000000001 8000000000).message secondHears.call = some primaryMsg := by
  have hSub : (b1.atTime 8000000001 8000000000).ftSub = [] := h.subject
  have hOther : primaryMsg.startNs ≠ (b1.atTime 8000000001 8000000000).me.startNs := by
    change 100 ≠ b1.me.startNs
    rw [h.startNs.1]
    decide
  have hArrives := handsOn_pub (by decide) hOther
  rw [hSub] at hArrives
  exact hArrives

theorem pairJoined_reachable (hFirst : FirstRun a1 a2 a3) (hSecond : SecondRun b1 b2 b3) :
    (ftNetwork (fun _ => plainClient)).Reachable (pairJoined a1 a2 b1) := by
  have hReach0 : (ftNetwork (fun _ => plainClient)).Reachable pairStart :=
    System.reachable_of_init rfl
  have hReach1 := FtNetwork.reachable_start hReach0 (i := true) rfl (by decide)
    (fun _ _ hMem => by cases hMem) hFirst.starts
  have hReach2 : (ftNetwork (fun _ => plainClient)).Reachable
      ((pairStart.after true firstStart a1).after false secondStart b1) := by
    refine FtNetwork.reachable_start hReach1 rfl ?_ ?_ hSecond.starts
    · exact (by decide : 0 ≤ 1)
    · intro j hj
      have hEq : j = true := by simpa using hj
      rw [hEq]
      exact (by decide : 200 ∉ [100])
  refine FtNetwork.reachable_call hReach2 rfl ?_ ?_ (fun _ hEq => by cases hEq) hFirst.joins
  · change a1.monoNs ≤ 8000000000
    rw [hFirst.times.1]
    decide
  · exact List.cons_ne_nil 100 []

theorem pairHeard_reachable (hFirst : FirstRun a1 a2 a3) (hSecond : SecondRun b1 b2 b3) :
    (ftNetwork (fun _ => plainClient)).Reachable (pairHeard a1 a2 a3 b1 b2 b3) := by
  have hReach3 := pairJoined_reachable hFirst hSecond
  have hReach4 : (ftNetwork (fun _ => plainClient)).Reachable
      ((pairJoined a1 a2 b1).after false secondHears b2) := by
    refine FtNetwork.reachable_call hReach3 rfl ?_ ?_ ?_ hSecond.hears
    · change b1.monoNs ≤ 8000000000
      rw [hSecond.times.1]
      decide
    · exact List.cons_ne_nil 200 []
    · intro m hEq
      cases hSecond.message.symm.trans hEq
      exact List.mem_append_right _ hFirst.sent
  have hReach5 : (ftNetwork (fun _ => plainClient)).Reachable
      (((pairJoined a1 a2 b1).after false secondHears b2).after false secondJoin b3) := by
    refine FtNetwork.reachable_call hReach4 rfl ?_ ?_ (fun _ hEq => by cases hEq) hSecond.joins
    · exact Nat.le_of_eq hSecond.times.2
    · exact List.cons_ne_nil 200 []
  refine FtNetwork.reachable_call hReach5 rfl ?_ ?_ ?_ hFirst.hears
  · exact Nat.le_of_eq hFirst.times.2
  · exact List.cons_ne_nil 100 []
  · intro m hEq
    cases hFirst.message.symm.trans hEq
    exact List.mem_append_right _ hSecond.sent

theorem pairHeard_active (hFirst : FirstRun a1 a2 a3) (hSecond : SecondRun b1 b2 b3) :
    (pairHeard a1 a2 a3 b1 b2 b3).Active true ∧ (pairHeard a1 a2 a3 b1 b2 b3).Active false := by
  refine ⟨⟨rfl, ?_⟩, rfl, ?_⟩
  · change (((false || a1.me.state == .finish) || a2.me.state == .finish) ||
      a3.me.state == .finish) = false
    simp [hFirst.before, hFirst.state]
  · change (((false || b1.me.state == .finish) || b2.me.state == .finish) ||
      b3.me.state == .finish) = false
    simp [hSecond.before, hSecond.state]

theorem pairHeard_knows (hFirst : FirstRun a1 a2 a3) (hSecond : SecondRun b1 b2 b3) :
    (pairHeard a1 a2 a3 b1 b2 b3).Knows true false := by
  have hApplied : (pairHeard a1 a2 a3 b1 b2 b3).applied true 200 = some secondaryMsg := by
    let c := ((pairJoined a1 a2 b1).after false secondHears b2).after false secondJoin b3
    have hMsg : (c.called true firstHears).message firstHears.call = some secondaryMsg :=
      hFirst.message
    have hApplies : (c.called true firstHears).applies secondaryMsg = true := hFirst.applies
    change (c.after true firstHears a3).applied true 200 = some secondaryMsg
    rw [FtNetwork.after_applied_self c true hMsg, if_pos hApplies]
    rfl
  refine ⟨⟨.slot 0 0, ?_, by simp, ?_⟩, secondaryMsg, ?_, by decide, by decide, Or.inr rfl⟩
  · change _ ∈ a3.group.live
    rw [hFirst.live]
    simp
  · exact hFirst.peer.trans hSecond.startNs.2.symm
  · change (pairHeard a1 a2 a3 b1 b2 b3).applied true b3.me.startNs = some secondaryMsg
    rw [hSecond.startNs.2]
    exact hApplied

theorem pairHeard_known (hFirst : FirstRun a1 a2 a3) (hSecond : SecondRun b1 b2 b3) :
    (pairHeard a1 a2 a3 b1 b2 b3).Knows false true := by
  have hApplied : (pairHeard a1 a2 a3 b1 b2 b3).applied false 100 = some primaryMsg := by
    let c := pairJoined a1 a2 b1
    have hMsg : (c.called false secondHears).message secondHears.call = some primaryMsg :=
      hSecond.message
    have hApplies : (c.called false secondHears).applies primaryMsg = true := hSecond.applies
    rw [pairHeard, FtNetwork.after_applied_of_ne _ (by simp),
      FtNetwork.after_applied_none _ false rfl]
    change (c.after false secondHears b2).applied false 100 = some primaryMsg
    rw [FtNetwork.after_applied_self c false hMsg, if_pos hApplies]
    rfl
  refine ⟨⟨.slot 0 0, ?_, by simp, ?_⟩, primaryMsg, ?_, by decide, by decide, Or.inl rfl⟩
  · change _ ∈ b3.group.live
    rw [hSecond.live]
    simp
  · exact hSecond.peer.trans hFirst.startNs.2.symm
  · change (pairHeard a1 a2 a3 b1 b2 b3).applied false a3.me.startNs = some primaryMsg
    rw [hFirst.startNs.2]
    exact hApplied

end

/-- Two members exchange messages of their ranks, and the heavier one is
primary. -/
theorem ft_agreement_pair : ∃ c : FtNetwork Bool,
    (ftNetwork (fun _ => plainClient)).Reachable c ∧ c.Active true ∧ c.Active false ∧
    c.Knows true false ∧ c.Knows false true ∧ (c.member true).me.state = .primary ∧
    (c.member true).me.isGreaterWeight (c.member false).me = true := by
  obtain ⟨a1, a2, a3, hFirst⟩ := exists_firstRun
  obtain ⟨b1, b2, b3, hSecond⟩ := exists_secondRun
  have hReach := pairHeard_reachable hFirst hSecond
  obtain ⟨hActive, hActive'⟩ := pairHeard_active hFirst hSecond
  have hKnows := pairHeard_knows hFirst hSecond
  have hKnown := pairHeard_known hFirst hSecond
  have hState : ((pairHeard a1 a2 a3 b1 b2 b3).member true).me.state = .primary := hFirst.state
  exact ⟨_, hReach, hActive, hActive', hKnows, hKnown, hState,
    (ft_agreement hReach hActive hActive' hKnows hKnown).2.1 hState⟩

end Sassrv.Ft
