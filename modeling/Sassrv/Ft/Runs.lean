import Sassrv.Ft.Messages
import Sassrv.Ft.Sending

/-! One call into an FT instance, and what it keeps. -/
namespace Sassrv.Ft
namespace RvFt
open FtGroup

variable {C : Prop}

/-- What `start` needs: `me` is outside the queue and the time is new. With
peers in the index the counters are not right afterwards. -/
structure Startable (C : Prop) (f : RvFt) : Prop where
  ledger : f.group.Ledger False
  absent : .me ∉ f.group.live
  fresh : ∀ s r, (s, r) ∈ f.group.peerHt → s ≠ f.nowNs
  timers : f.timers.Nodup
  ids : ∀ a, (f.nowNs, a) ∉ f.timers
  empty : C → f.group.peerHt = []

/-- What `start` does. -/
structure Started (C : Prop) (f : RvFt) (param : FtParameters) (g : RvFt) : Prop where
  sound : g.Sound C
  state : g.me.state = .listen
  live : g.group.live = f.group.live
  peer : ∀ r, r ≠ .me → (f.group.peer r).Same (g.group.peer r)
  tid : g.tid = f.nowNs
  monoNs : g.monoNs = f.monoNs
  startNs : g.me.startNs = f.nowNs
  weight : g.me.weight = param.weight
  finish : (g.tid, .finish) ∉ g.timers

theorem renewed_ledger {g : FtGroup} (h : g.Ledger False) (hAbsent : .me ∉ g.live) {me : FtPeer}
    (hPos : me.pos = 0) (hState : me.state = .listen)
    (hFresh : ∀ s r, (s, r) ∈ g.peerHt → s ≠ me.startNs) (hEmpty : C → g.peerHt = []) :
    (renewed g me).Ledger C := by
  have hMe := renewed_me g me
  have hBooked := h.booked
  refine ⟨⟨h.placed.nodup, ?_, ?_⟩, ⟨hBooked.names, ?_, hBooked.others, hBooked.used,
    hBooked.blocks, hBooked.bounded, ?_⟩, h.matched, ?_⟩
  · intro i r hAt
    have hr : r ≠ .me := by
      intro hEq
      exact hAbsent (hEq ▸ List.mem_of_getElem? hAt)
    rw [renewed_peer g me hr]
    exact h.placed.pos i r hAt
  · intro r hr
    by_cases hEq : r = .me
    · rw [hEq, hMe]
      exact hPos
    · rw [renewed_peer g me hEq]
      exact h.placed.off r hr
  · intro s r hMem
    rw [renewed_peer g me (hBooked.others s r hMem)]
    exact hBooked.start s r hMem
  · intro hC
    have hTally : ∀ s, (renewed g me).tally s = if FtState.listen = s then 1 else 0 := by
      intro s
      have hTable : (renewed g me).peerHt = [] := hEmpty hC
      simp only [tally, members, indexed, hTable, List.map_nil, List.countP_cons,
        List.countP_nil, hMe, decide_eq_true_eq]
      split <;> rfl
    have hCount : (renewed g me).stateCount = {} := by
      simp [renewed, updateState, FtGroup.modify, hState, FtStateCount.update, FtStateCount.leave,
        FtStateCount.enter]
    rw [hCount]
    exact ⟨by rw [hTally]; rfl, by rw [hTally]; rfl, by rw [hTally]; rfl, rfl⟩
  · intro s r hMem
    rw [hMe]
    exact hFresh s r hMem

/-- The join timer is armed for a member that is listening. -/
theorem Sound.joining {f : RvFt} (h : f.Sound C) (hGone : (f.tid, .join) ∉ f.timers)
    (hListen : f.me.state = .listen) : (f.addTimer .join).Sound C := by
  refine ⟨h.ledger, h.absent, h.present, h.timers.addTimer hGone, fun _ => hListen, ?_⟩
  intro _
  change f.me.state ≠ _
  rw [hListen]
  simp

theorem start_started {f : RvFt} (h : f.Startable C) (param : FtParameters) :
    ∃ g, f.start param = some g ∧ f.Started C param g := by
  obtain ⟨e, hGroup, hTid, hMono, hTimers, hMe, hEq⟩ : ∃ e : RvFt,
      e.group = renewed f.group
        { startNs := f.nowNs, weight := param.weight, user := param.user.take 63 } ∧
      e.tid = f.nowNs ∧ e.monoNs = f.monoNs ∧ e.timers = f.timers ∧
      e.me = { startNs := f.nowNs, weight := param.weight, user := param.user.take 63 } ∧
      f.start param = (((if e.joinMs ≠ 0 then e.addTimer .join else e).startHb param.heartbeatMs
        param.activateMs param.prepareMs).setState .listen).bind
          (fun g => some (g.notifyChange .listen)) :=
    ⟨f.prepared param, rfl, rfl, rfl, rfl, prepared_me f param, start_eq f param⟩
  have hLive : e.group.live = f.group.live := by rw [hGroup]; rfl
  have hNoTimer : ∀ a, (e.tid, a) ∉ e.timers := by
    rw [hTid, hTimers]
    exact h.ids
  have hSound : e.Sound C := by
    refine ⟨?_, ?_, ?_, ⟨?_, ?_⟩, ?_, ?_⟩
    · rw [hGroup]
      exact renewed_ledger h.ledger h.absent rfl rfl h.fresh h.empty
    · intro _
      rw [hLive]
      exact h.absent
    · rw [hMe]
      simp [FtState.counted]
    · rw [hTimers]
      exact h.timers
    · exact fun a ha => absurd ha (hNoTimer a)
    · exact fun ha => absurd ha (hNoTimer .join)
    · exact fun ha => absurd ha (hNoTimer .heartbeat)
  have hArmed : ∃ k, (if e.joinMs ≠ 0 then e.addTimer .join else e) = k ∧ k.Sound C ∧
      k.group = e.group ∧ k.tid = e.tid ∧ k.monoNs = e.monoNs ∧
      (k.tid, .finish) ∉ k.timers := by
    split
    · refine ⟨_, rfl, ?_, rfl, rfl, rfl, ?_⟩
      · exact hSound.joining (hNoTimer .join) (by rw [hMe])
      · intro hMem
        rcases List.mem_append.mp hMem with hOld | hNew
        · exact hNoTimer .finish hOld
        · simp at hNew
    · exact ⟨e, rfl, hSound, rfl, rfl, rfl, hNoTimer .finish⟩
  obtain ⟨k, hCall, hKSound, hKGroup, hKTid, hKMono, hKFinish⟩ := hArmed
  have hKMe : k.me = e.me := by rw [RvFt.me, RvFt.me, hKGroup]
  obtain ⟨hKept, hSame, hQuits⟩ := startHb_kept hKSound (by rw [hKMe, hMe]) param.heartbeatMs
    param.activateMs param.prepareMs
  rw [hCall] at hEq
  generalize k.startHb param.heartbeatMs param.activateMs param.prepareMs = b at *
  have hBMe : b.me = e.me := by rw [RvFt.me, hSame, ← hKMe]; rfl
  have hStay : b.group.restate .listen = b.group := by
    unfold restate
    rw [if_neg]
    change ¬ FtState.listen ≠ b.me.state
    rw [hBMe, hMe]
    simp
  obtain ⟨g, hSet, hFrame, hListen⟩ := setState_listen b
  rw [hStay] at hListen
  have hQuiet : b.Quiet (g.notifyChange .listen) :=
    Quiet.trans ⟨hFrame, hListen⟩ (.notifyChange g .listen)
  have hFinal : (g.notifyChange .listen).group = e.group := by rw [hQuiet.group, hSame, hKGroup]
  have hFinalMe : (g.notifyChange .listen).me = e.me := by rw [hQuiet.me, hBMe]
  have hFinalTid : (g.notifyChange .listen).tid = k.tid := hQuiet.tid.trans hKept.tid
  refine ⟨g.notifyChange .listen, by rw [hEq, hSet]; rfl, hKept.sound.quiet hQuiet, ?_, ?_, ?_, ?_,
    ?_, ?_, ?_, ?_⟩
  · rw [hFinalMe, hMe]
  · rw [hFinal, hLive]
  · intro r hr
    rw [hFinal, hGroup, renewed_peer _ _ hr]
    exact FtPeer.Same.refl _
  · rw [hFinalTid, hKTid, hTid]
  · rw [hQuiet.monoNs, hKept.monoNs, hKMono, hMono]
  · rw [hFinalMe, hMe]
  · rw [hFinalMe, hMe]
  · rw [hFinalTid]
    intro hMem
    apply hKFinish
    apply hQuits
    rw [← hKept.tid] at hMem ⊢
    exact hQuiet.kept .finish (by simp) (by simp) hMem

/-- The message of a publication that `process_pub` hands on. -/
def handsOn (f : RvFt) (pub : EvPublish) : Option FtPeerMsg :=
  if pub.subject ≠ f.ftSub ∧ f.client.isInbox pub.subject ≠ f.inboxNum then none
  else (pub.fields.bind (FtFields.peerMsg · pub.reply)).filter
    (fun m => decide (m.startNs ≠ f.me.startNs))

theorem processPub_spec {f : RvFt} (h : f.Sound C) (pub : EvPublish) :
    ∃ g handled, f.processPub pub = some (g, handled) ∧
      ((f.handsOn pub = none ∧ f.Quiet g) ∨
        (∃ m, f.handsOn pub = some m ∧ m.startNs ≠ f.me.startNs ∧ f.Heard C m g)) := by
  unfold processPub handsOn
  simp only [Option.bind_eq_bind, Option.pure_def]
  split
  · split
    · exact ⟨_, _, rfl, Or.inl ⟨rfl, Quiet.emit f _⟩⟩
    · exact ⟨_, _, rfl, Or.inl ⟨rfl, Quiet.refl f⟩⟩
  · cases hMsg : pub.fields.bind (FtFields.peerMsg · pub.reply) with
    | none => exact ⟨_, _, rfl, Or.inl ⟨rfl, Quiet.refl f⟩⟩
    | some m =>
        by_cases hOwn : m.startNs = f.me.startNs
        · refine ⟨f, true, by simp [hOwn], Or.inl ⟨?_, Quiet.refl f⟩⟩
          simp [Option.filter, hOwn]
        · obtain ⟨g, hCall, hHeard⟩ := onPeerMsg_heard h hOwn
          refine ⟨g, true, by simp [hOwn, hCall], Or.inr ⟨m, ?_, hOwn, hHeard⟩⟩
          simp [Option.filter, hOwn]

/-- The message that a call brings. -/
def message (f : RvFt) : FtCall → Option FtPeerMsg
  | .publish pub => f.handsOn pub
  | _ => none

/-- A call that can be made: only armed timers fire. -/
def Enabled (f : RvFt) : FtCall → Prop
  | .timer id action => (id, action) ∈ f.timers
  | _ => True

/-- A call that ends in the finish state: `stop` without a finish interval,
or the timer at its end. -/
def finishes (f : RvFt) : FtCall → Bool
  | .stop => decide (f.finishMs = 0)
  | .timer id action => decide (id = f.tid ∧ action = .finish)
  | _ => false

/-- The three ways in which a call other than `start` ends. -/
inductive Called (C : Prop) (f : RvFt) (call : FtCall) (g : RvFt) : Prop where
  | turn (hMsg : f.message call = none) (hTurn : f.Turn C g)
      (hQuits : call ≠ .stop → (f.tid, .finish) ∈ g.timers → (f.tid, .finish) ∈ f.timers)
  | heard (m : FtPeerMsg) (hMsg : f.message call = some m) (hApart : m.startNs ≠ f.me.startNs)
      (hHeard : f.Heard C m g)
  | finished (hMsg : f.message call = none) (hCall : f.finishes call = true)
      (hFinished : f.Finished C g)

theorem Called.kept {f g : RvFt} {call : FtCall} (h : f.Called C call g) : f.Kept C g := by
  cases h with
  | turn _ hTurn _ => exact hTurn.toKept
  | heard _ _ _ hHeard => exact hHeard.toKept
  | finished _ _ hFinished => exact hFinished.toKept

/-- Every call of a started instance returns. -/
theorem dispatch_called {f : RvFt} (h : f.Sound C) {call : FtCall} (hEnabled : f.Enabled call)
    (hStart : ∀ param, call ≠ .start param) :
    ∃ g, f.dispatch call = some g ∧ f.Called C call g := by
  cases call with
  | start param => exact absurd rfl (hStart param)
  | stop =>
      obtain ⟨g, hCall, hTurn | ⟨hNow, hFinished⟩⟩ := stop_kept h
      · exact ⟨g, hCall, .turn rfl hTurn (fun hEq => absurd rfl hEq)⟩
      · exact ⟨g, hCall, .finished rfl (by simp [finishes, hNow]) hFinished⟩
  | activate =>
      obtain ⟨g, hCall, hTurn, hQuits⟩ := activate_turn h
      exact ⟨g, hCall, .turn rfl hTurn (fun _ => hQuits)⟩
  | deactivate =>
      obtain ⟨g, hCall, hTurn, hQuits⟩ := deactivate_turn h
      exact ⟨g, hCall, .turn rfl hTurn (fun _ => hQuits)⟩
  | timer id action =>
      obtain ⟨g, hCall, ⟨hTurn, hQuits⟩ | ⟨hId, hAction, hFinished⟩⟩ := fire_turn h hEnabled
      · exact ⟨g, hCall, .turn rfl hTurn (fun _ => hQuits)⟩
      · exact ⟨g, hCall, .finished rfl (by simp [finishes, hId, hAction]) hFinished⟩
  | publish pub =>
      obtain ⟨g, handled, hCall, hResult⟩ := processPub_spec h pub
      refine ⟨g, by simp [dispatch, hCall], ?_⟩
      rcases hResult with ⟨hMsg, hQuiet⟩ | ⟨m, hMsg, hApart, hHeard⟩
      · exact .turn hMsg (Turn.quiet h hQuiet) (fun _ => hQuiet.kept .finish (by simp) (by simp))
      · exact .heard m hMsg hApart hHeard

theorem Sound.atTime {f : RvFt} (h : f.Sound C) (nowNs monoNs : Nat) :
    (f.atTime nowNs monoNs).Sound C :=
  ⟨h.ledger, h.absent, h.present, h.timers, h.joinTimer, h.beatTimer⟩

theorem start_fresh {f : RvFt} (h : ftSystem.init f) :
    ∃ (e : RvFt) (param : FtParameters), e.group = {} ∧ e.Started True param f := by
  obtain ⟨client, nowNs, monoNs, param, hStart⟩ := h
  have hEmpty : FtGroup.Ledger False {} := by
    refine ⟨⟨List.nodup_nil, ?_, fun _ _ => rfl⟩, ⟨List.nodup_nil, ?_, ?_, ?_, List.nodup_nil, ?_,
      False.elim⟩, ?_, ?_⟩
    · simp
    · simp
    · simp
    · simp [Used, indexed]
    · simp
    · simp [indexed]
    · simp [Apart]
  obtain ⟨g, hCall, hStarted⟩ := start_started (C := True) (f := { client, nowNs, monoNs })
    ⟨hEmpty, by simp, by simp, List.nodup_nil, by simp, fun _ => rfl⟩ param
  rw [hStart] at hCall
  cases hCall
  exact ⟨_, param, rfl, hStarted⟩

end RvFt

def FtCall.isStart : FtCall → Bool
  | .start _ => true
  | _ => false

def FtCall.isStop : FtCall → Bool
  | .stop => true
  | _ => false

/-- A step of the system is a call that returns. -/
theorem step_dispatch {f g : RvFt} {input : FtInput} {emitted : List FtOut}
    (h : ftSystem.step f input emitted g) :
    f.monoNs ≤ input.monoNs ∧ (f.atTime input.nowNs input.monoNs).dispatch input.call = some g ∧
      emitted = g.out := by
  obtain ⟨hTime, hCall⟩ := h
  simp only [RvFt.handle, Option.bind_eq_bind, Option.bind_eq_some_iff, Option.pure_def,
    Option.some.injEq, Prod.mk.injEq] at hCall
  obtain ⟨e, hDispatch, rfl, rfl⟩ := hCall
  exact ⟨hTime, hDispatch, rfl⟩

/-- A call that returns was enabled. -/
theorem enabled_of_dispatch {f g : RvFt} {call : FtCall} (h : f.dispatch call = some g) :
    f.Enabled call := by
  cases call with
  | timer id action =>
      by_contra hNot
      simp only [RvFt.dispatch, RvFt.fire] at h
      rw [if_neg (show (id, action) ∉ f.timers from hNot)] at h
      cases h
  | _ => trivial

theorem step_called {C : Prop} {f g : RvFt} {input : FtInput} {emitted : List FtOut}
    (h : f.Sound C) (hStep : ftSystem.step f input emitted g) (hStart : input.call.isStart = false) :
    (f.atTime input.nowNs input.monoNs).Called C input.call g := by
  obtain ⟨-, hDispatch, -⟩ := step_dispatch hStep
  obtain ⟨e, hCall, hCalled⟩ := RvFt.dispatch_called (h.atTime input.nowNs input.monoNs)
    (enabled_of_dispatch hDispatch)
    (by intro param hEq; rw [hEq] at hStart; cases hStart)
  rw [hDispatch] at hCall
  cases hCall
  exact hCalled

/-- The runs of one start: any calls but another `start`. -/
def oneStart : Transition.System RvFt FtInput FtOut :=
  ftSystem.guard (fun _ input => input.call.isStart = false)

/-- The runs of one start without `stop`. -/
def oneStartNoStop : Transition.System RvFt FtInput FtOut :=
  ftSystem.guard (fun _ input => input.call.isStart = false ∧ input.call.isStop = false)

/-- In the runs of one start the books are sound. -/
theorem oneStart_sound {f : RvFt} (h : oneStart.Reachable f) : f.Sound True := by
  refine h.invariant ?_ ?_
  · intro f hInit
    obtain ⟨_, _, -, hStarted⟩ := RvFt.start_fresh hInit
    exact hStarted.sound
  · intro f input emitted g hSound hStep
    exact (step_called hSound hStep.2 hStep.1).kept.sound

/-- The invariant of the runs without `stop`: the finish state is not entered
and its timer not armed. -/
structure Working (f : RvFt) : Prop where
  sound : f.Sound True
  order : f.Ordered
  state : f.me.state ≠ .finish
  quits : (f.tid, .finish) ∉ f.timers

theorem Working.init {f : RvFt} (h : ftSystem.init f) : Working f := by
  obtain ⟨e, param, hGroup, hStarted⟩ := RvFt.start_fresh h
  refine ⟨hStarted.sound, ?_, ?_, hStarted.finish⟩
  · unfold RvFt.Ordered
    rw [hStarted.live, hGroup]
    exact List.Pairwise.nil
  · rw [hStarted.state]
    simp

theorem Working.step {f g : RvFt} {input : FtInput} {emitted : List FtOut} (h : Working f)
    (hStep : oneStartNoStop.step f input emitted g) : Working g := by
  obtain ⟨⟨hStart, hStop⟩, hStep⟩ := hStep
  have hCalled := step_called h.sound hStep hStart
  have hNotStop : input.call ≠ .stop := by
    intro hEq
    rw [hEq] at hStop
    cases hStop
  have hTid : g.tid = f.tid := hCalled.kept.tid
  have hSound := hCalled.kept.sound
  cases hCalled with
  | turn _ hTurn hQuits =>
      refine ⟨hSound, hTurn.order h.order, fun hEq => h.state (hTurn.finish hEq), ?_⟩
      rw [hTid]
      exact fun hMem => h.quits (hQuits hNotStop hMem)
  | heard m _ _ hHeard =>
      refine ⟨hSound, hHeard.order h.order, fun hEq => h.state (hHeard.finish hEq), ?_⟩
      rw [hTid]
      exact fun hMem => h.quits (hHeard.quits hMem)
  | finished _ hCall _ =>
      have hEnabled := enabled_of_dispatch (step_dispatch hStep).2.1
      exfalso
      generalize input.call = call at *
      cases call with
      | stop => exact hNotStop rfl
      | timer id action =>
          obtain ⟨rfl, rfl⟩ := of_decide_eq_true hCall
          exact h.quits hEnabled
      | _ => cases hCall

/-- The queue as an ordered array of peers that know their places. -/
structure QueueRep (f : RvFt) : Prop where
  pos : ∀ i r, f.group.live[i]? = some r → (f.group.peer r).pos = i + 1
  nodup : f.group.live.Nodup
  off : ∀ r, r ∉ f.group.live → (f.group.peer r).pos = 0
  order : f.group.live.Pairwise (fun x y => (f.group.peer x).isGreater (f.group.peer y) = true)
  me : .me ∈ f.group.live ↔
    f.me.state = .join ∨ f.me.state = .primary ∨ f.me.state = .secondary
  apart : ∀ p ∈ f.group.members, ∀ q ∈ f.group.members, p ≠ q →
    (f.group.peer p).startNs ≠ (f.group.peer q).startNs

/-- In every run of one start without `stop` the queue is well formed. -/
theorem ftQueue_represented {f : RvFt} (h : oneStartNoStop.Reachable f) : QueueRep f := by
  have hWorking : Working f := by
    refine h.invariant ?_ ?_
    · exact fun _ hInit => Working.init hInit
    · exact fun _ _ _ _ hInv hStep => hInv.step hStep
  have hLedger := hWorking.sound.ledger
  refine ⟨hLedger.placed.pos, hLedger.placed.nodup, hLedger.placed.off, hWorking.order, ?_, ?_⟩
  · refine ⟨fun hMem => ?_, fun hState => hWorking.sound.present ?_⟩
    · have hListen : f.me.state ≠ .listen := fun hEq => hWorking.sound.absent hEq hMem
      have hFinish := hWorking.state
      revert hListen hFinish
      cases f.me.state <;> simp
    · rcases hState with hEq | hEq | hEq <;> rw [hEq] <;> rfl
  · intro p hp q hq hne
    exact hLedger.start_ne hp hq hne

/-- A client without inboxes. -/
def plainClient : EvRvClient := ⟨fun _ => [], fun _ => 0⟩

/-- A publication on the subject of a group without a name. -/
def peerPub (fields : FtFields) : FtCall := .publish ⟨[], [], some fields⟩

/-- An instance started at time 100. -/
def sampleStart : Option RvFt :=
  ({ client := plainClient, nowNs := 100, monoNs := 1 } : RvFt).start {}

/-- A primary is heard of, then the join timer fires after the activation
interval. -/
def sampleInputs : List FtInput :=
  [⟨200, 2, peerPub { type := 1, state := 2, startNs := 50, weight := 30, curTime := 190 }⟩,
    ⟨8000000000, 8000000000, .timer 100 .join⟩]

/-- Execution of the guarded system on small inputs. -/
def stepWhen (ok : RvFt → FtInput → Prop) [∀ f input, Decidable (ok f input)] (f : RvFt)
    (input : FtInput) : Option (RvFt × List FtOut) :=
  if ok f input ∧ f.monoNs ≤ input.monoNs then f.handle input else none

theorem reachable_of_runAll {ok : RvFt → FtInput → Prop} [∀ f input, Decidable (ok f input)]
    {start f : RvFt} {inputs : List FtInput} {emitted : List FtOut} (hInit : ftSystem.init start)
    (hRun : Transition.System.runAll (stepWhen ok) start inputs = some (f, emitted)) :
    (ftSystem.guard ok).Reachable f := by
  refine ⟨start, inputs, emitted, hInit, Transition.System.Run.of_runAll ?_ hRun⟩
  intro s input t out hStep
  unfold stepWhen at hStep
  split at hStep
  · rename_i hOk
    exact ⟨hOk.1, hOk.2, hStep⟩
  · cases hStep

/-- The sample run from its start. -/
def sampleRun (ok : RvFt → FtInput → Prop) [∀ f input, Decidable (ok f input)]
    (inputs : List FtInput) : Option (RvFt × List FtOut) :=
  sampleStart.bind (fun f => Transition.System.runAll (stepWhen ok) f inputs)

theorem sampleRun_reachable {ok : RvFt → FtInput → Prop} [∀ f input, Decidable (ok f input)]
    {inputs : List FtInput} (hRun : (sampleRun ok inputs).isSome) :
    (ftSystem.guard ok).Reachable ((sampleRun ok inputs).get hRun).1 := by
  obtain ⟨start, hStart, hRest⟩ := Option.bind_eq_some_iff.mp (Option.some_get hRun).symm
  exact reachable_of_runAll ⟨plainClient, 100, 1, {}, hStart⟩ hRest

/-- A secondary behind a primary. -/
theorem ftQueue_represented_secondary :
    ∃ f, oneStartNoStop.Reachable f ∧ f.group.live = [.slot 0 0, .me] ∧
      f.me.state = .secondary ∧ QueueRep f := by
  have hReach : oneStartNoStop.Reachable _ := sampleRun_reachable (show (sampleRun
    (fun _ input => input.call.isStart = false ∧ input.call.isStop = false)
    sampleInputs).isSome by decide)
  exact ⟨_, hReach, by decide, by decide, ftQueue_represented hReach⟩

/-- Index, queue, slots and counters of the peers. -/
structure PeersRep (f : RvFt) : Prop where
  indexed : ∀ r, (∃ s, (s, r) ∈ f.group.peerHt) ↔ r ∈ f.group.live ∧ r ≠ .me
  start : ∀ s r, (s, r) ∈ f.group.peerHt → (f.group.peer r).startNs = s
  once : (f.group.peerHt.map Prod.fst).Nodup ∧ (f.group.peerHt.map Prod.snd).Nodup
  blocks : (f.group.ftFree.map FtPeerFree.block).Nodup
  slots : ∀ block i, Used f.group.ftFree block i ↔ ∃ s, (s, .slot block i) ∈ f.group.peerHt
  primary : f.group.stateCount.primary = f.group.tally .primary
  secondary : f.group.stateCount.secondary = f.group.tally .secondary
  join : f.group.stateCount.join = f.group.tally .join
  wrapped : f.group.stateCount.wrapped = false

/-- In every run of one start the peers are accounted for. -/
theorem ftPeers_accounted {f : RvFt} (h : oneStart.Reachable f) : PeersRep f := by
  have hLedger := (oneStart_sound h).ledger
  have hCounts := hLedger.booked.counts trivial
  refine ⟨fun r => ?_, hLedger.booked.start, ⟨hLedger.booked.names, ?_⟩, hLedger.booked.blocks,
    fun block i => ?_, hCounts.primary, hCounts.secondary, hCounts.join, hCounts.wrapped⟩
  · rw [← hLedger.matched]
    exact FtGroup.mem_indexed.symm
  · exact (List.nodup_cons.mp hLedger.booked.members_nodup).2
  · rw [hLedger.booked.used]
    exact FtGroup.mem_indexed

/-- The same run, with one primary and `me` counted. -/
theorem ftPeers_accounted_secondary :
    ∃ f, oneStart.Reachable f ∧ f.group.peerHt = [(50, .slot 0 0)] ∧
      f.group.stateCount = ⟨1, 1, 0, false⟩ ∧ PeersRep f := by
  have hReach : oneStart.Reachable _ := sampleRun_reachable (show (sampleRun
    (fun _ input => input.call.isStart = false) sampleInputs).isSome by decide)
  exact ⟨_, hReach, by decide, by decide, ftPeers_accounted hReach⟩

end Sassrv.Ft
