import Sassrv.Rv7.SendOrder

/-! The last flush of a transport. When no other thread is inside a call, a flush goes
from its call over the pipe to a walk of the event thread and leaves nothing unsent
behind, whatever the batch timer does meanwhile. -/
namespace Sassrv.Rv7.Batch
open SubMgr Transition

/-- What can happen while one thread flushes and the others make no call. -/
def Quiet (thread : Nat) : Input → Prop
  | .resume other _ => other = thread
  | .batchTimer => True
  | .eventThread => True
  | _ => False

/-- How far the flush of a thread is. -/
inductive Flushing (thread : Nat) (s : State) : Prop where
  | called (hPc : s.threads thread = .execDrain [])
  | posted (hPc : s.threads thread = .waitDrain []) (hPipe : .tportDrain thread ∈ s.pipe)
  | walking (todo : List Nat) (hPc : s.threads thread = .waitDrain [])
      (hEvent : s.event = .draining todo (some thread))
      (hOwn : ∀ writer, writer ∉ todo → (s.sendCtx writer).pubs = [])
  | publishing (full : SendCtx) (hPc : s.threads thread = .waitDrain [])
      (hEvent : s.event = .publishing full (some thread))
      (hOwn : ∀ writer, (s.sendCtx writer).pubs = []) (hFill : fillPubs s = [])
  | returned (hPc : s.threads thread = .idle) (hEvent : ∀ full req, s.event ≠ .publishing full req)
      (hOwn : ∀ writer, (s.sendCtx writer).pubs = []) (hFill : fillPubs s = [])

/-- A flush with nobody else in a call. -/
structure Final (thread : Nat) (s : State) : Prop where
  sound : Sound s
  others : ∀ other, other ≠ thread → s.threads other = .idle
  flushing : Flushing thread s

/-- Only the flushing thread can wait for the event thread. -/
theorem Final.outstanding {thread : Nat} {s : State} (h : Final thread s) (rec : EvPipeRec)
    (hRec : rec ∈ outstanding s) : rec.thread = thread := by
  have hWaits := (h.sound.posted.awaited rec hRec).waits
  by_contra hOther
  rw [h.others _ hOther] at hWaits
  cases hWaits

/-- A flush that does not wait finds the event thread without an operation. -/
theorem Final.outstanding_nil {thread : Nat} {s : State} (h : Final thread s)
    (hPc : (s.threads thread).waits = false) : Batch.outstanding s = [] := by
  apply List.eq_nil_iff_forall_not_mem.mpr
  intro rec hRec
  have hWaits := (h.sound.posted.awaited rec hRec).waits
  rw [h.outstanding rec hRec, hPc] at hWaits
  cases hWaits

/-- With the operation still in the pipe the event thread does the work of a timer or
none. -/
theorem Final.req_none {thread : Nat} {s : State} (h : Final thread s)
    (hPipe : .tportDrain thread ∈ s.pipe) : s.event.req = none := by
  cases hReq : s.event.req with
  | none => rfl
  | some other =>
      have hOther : other = thread :=
        h.outstanding (.tportDrain other) (by simp [Batch.outstanding, hReq])
      subst hOther
      have hNodup := h.sound.posted.nodup
      simp only [Batch.outstanding, hReq, Option.toList_some, List.map_cons, List.map_nil,
        List.singleton_append, List.nodup_cons] at hNodup
      exact absurd (List.mem_map_of_mem hPipe) hNodup.1

/-- The steps of the event thread that end no operation. -/
theorem eventThread_threads {s : State} (hReq : s.event.req = none) (hPipe : s.event = .idle → s.pipe = []) :
    (eventThread s).threads = s.threads ∧ (eventThread s).pipe = s.pipe := by
  cases hEvent : s.event with
  | idle => simp [eventThread, hEvent, hPipe hEvent]
  | draining todo req =>
      rw [hEvent, req_draining] at hReq
      subst hReq
      cases todo with
      | nil =>
          simp only [eventThread, hEvent]
          rcases swapShared_cases s none with ⟨_, hSwap⟩ | ⟨full, _, _, hSwap⟩
          · simp [hSwap, drained]
          · simp [hSwap]
      | cons writer todo => simp [eventThread, hEvent]
  | publishing full req =>
      rw [hEvent, req_publishing] at hReq
      subst hReq
      simp [eventThread, hEvent, drained]

theorem drained_some {s : State} {thread : Nat} {vec : List EvPublish}
    (hPc : s.threads thread = .waitDrain vec) :
    drained s (some thread) = { s with event := .idle }.ret thread vec := by
  simp [drained, hPc]

theorem eventThread_publish {s : State} {full : SendCtx} {req : Option Nat}
    (hEvent : s.event = .publishing full req) :
    eventThread s =
      drained
        { s with
          published := s.published ++ full.pubs
          sbSpare := s.sbSpare.map fun _ => {} } req := by
  simp [eventThread, hEvent]

/-- How many steps the event thread has ahead of it to the end of a drain that waits in
the pipe or that it is at. -/
def ahead (s : State) : Nat :=
  match s.event with
  | .idle => s.writers.length + 3
  | .draining todo (some _) => todo.length + 2
  | .draining todo none => s.writers.length + todo.length + 5
  | .publishing _ (some _) => 1
  | .publishing _ none => s.writers.length + 4

def work (thread : Nat) (s : State) : Nat :=
  match s.threads thread with
  | .idle => 0
  | .execDrain _ => ahead s + 1
  | _ => ahead s

/-- The event thread before it comes to the flush. -/
theorem Final.eventThread_posted {thread : Nat} {s : State} (h : Final thread s)
    (hPc : s.threads thread = .waitDrain []) (hPipe : .tportDrain thread ∈ s.pipe) :
    (∀ other, other ≠ thread → (eventThread s).threads other = .idle) ∧
      Flushing thread (eventThread s) ∧ work thread (eventThread s) < work thread s := by
  have hReq := h.req_none hPipe
  have hBusy (hEvent : s.event ≠ .idle) :
      (∀ other, other ≠ thread → (eventThread s).threads other = .idle) ∧
        Flushing thread (eventThread s) := by
    obtain ⟨hThreads, hSame⟩ := eventThread_threads hReq fun hIdle => absurd hIdle hEvent
    rw [hThreads]
    exact ⟨h.others, .posted (by rw [hThreads, hPc]) (by rw [hSame]; exact hPipe)⟩
  cases hEvent : s.event with
  | idle =>
      cases hRecs : s.pipe with
      | nil => simp [hRecs] at hPipe
      | cons rec rest =>
          have hRec : rec ∈ Batch.outstanding s := by simp [Batch.outstanding, hRecs]
          have hThread := h.outstanding rec hRec
          have hAwaited := h.sound.posted.awaited rec hRec
          cases rec with
          | tportSend other vec =>
              obtain rfl : other = thread := hThread
              have hOther : s.threads other = .waitSend vec := hAwaited
              simp [hPc] at hOther
          | tportDrain other =>
              obtain rfl : other = thread := hThread
              rw [eventThread_drain hEvent hRecs]
              refine ⟨h.others, .walking s.writers hPc rfl h.sound.ledger.registered, ?_⟩
              simp [work, ahead, hPc, hEvent]
  | draining todo req =>
      obtain ⟨hOthers, hFlushing⟩ := hBusy (by simp [hEvent])
      refine ⟨hOthers, hFlushing, ?_⟩
      rw [hEvent, req_draining] at hReq
      subst hReq
      cases todo with
      | nil =>
          simp only [eventThread, hEvent]
          rcases swapShared_cases s none with ⟨_, hSwap⟩ | ⟨full, _, _, hSwap⟩
          · simp [hSwap, drained, work, ahead, hPc, hEvent]
          · simp [hSwap, work, ahead, hPc, hEvent]
      | cons writer todo => simp [eventThread, hEvent, work, ahead, hPc]
  | publishing full req =>
      obtain ⟨hOthers, hFlushing⟩ := hBusy (by simp [hEvent])
      refine ⟨hOthers, hFlushing, ?_⟩
      rw [hEvent, req_publishing] at hReq
      subst hReq
      simp [eventThread, hEvent, drained, work, ahead, hPc]

/-- The walk of the flush. -/
theorem Final.eventThread_walking {thread : Nat} {s : State} {todo : List Nat} (h : Final thread s)
    (hPc : s.threads thread = .waitDrain []) (hEvent : s.event = .draining todo (some thread))
    (hOwn : ∀ writer, writer ∉ todo → (s.sendCtx writer).pubs = []) :
    (∀ other, other ≠ thread → (eventThread s).threads other = .idle) ∧
      Flushing thread (eventThread s) ∧ work thread (eventThread s) < work thread s := by
  cases todo with
  | nil =>
      simp only [eventThread, hEvent]
      rcases swapShared_cases s (some thread) with ⟨hFill, hSwap⟩ | ⟨full, _, _, hSwap⟩
      · have hDrained := drained_some (s := { s with sbPending := false }) hPc
        rw [hSwap, hDrained]
        refine ⟨?_, .returned ?_ ?_ ?_ hFill, ?_⟩
        · intro other hOther
          simp [hOther, h.others other hOther]
        · simp
        · simp [State.ret]
        · intro writer
          exact hOwn writer List.not_mem_nil
        · simp [work, ahead, hPc, hEvent]
      · have hSpare : sparePubs s = [] := h.sound.ledger.spare (by simp [hEvent])
        rw [hSwap]
        refine ⟨h.others, .publishing full hPc rfl ?_ hSpare, ?_⟩
        · intro writer
          exact hOwn writer List.not_mem_nil
        · simp [work, ahead, hPc, hEvent]
  | cons writer todo =>
      simp only [eventThread, hEvent]
      refine ⟨h.others, .walking todo hPc rfl ?_, ?_⟩
      · intro other hOther
        by_cases hSame : other = writer
        · simp [hSame]
        · simpa [hSame] using hOwn other (by simp [hSame, hOther])
      · simp [work, ahead, hPc, hEvent]

theorem Final.eventThread_publishing {thread : Nat} {s : State} {full : SendCtx} (h : Final thread s)
    (hPc : s.threads thread = .waitDrain []) (hEvent : s.event = .publishing full (some thread))
    (hOwn : ∀ writer, (s.sendCtx writer).pubs = []) (hFill : fillPubs s = []) :
    (∀ other, other ≠ thread → (eventThread s).threads other = .idle) ∧
      Flushing thread (eventThread s) ∧ work thread (eventThread s) < work thread s := by
  rw [eventThread_publish hEvent]
  have hDrained := drained_some (s :=
    { s with
      published := s.published ++ full.pubs
      sbSpare := s.sbSpare.map fun _ => {} }) hPc
  rw [hDrained]
  refine ⟨?_, .returned ?_ ?_ hOwn hFill, ?_⟩
  · intro other hOther
    simp [hOther, h.others other hOther]
  · simp
  · simp [State.ret]
  · simp [work, ahead, hPc, hEvent]

/-- After the flush there is nothing to do for the event thread. -/
theorem Final.eventThread_returned {thread : Nat} {s : State} (h : Final thread s)
    (hPc : s.threads thread = .idle) (hEvent : ∀ full req, s.event ≠ .publishing full req)
    (hOwn : ∀ writer, (s.sendCtx writer).pubs = []) (hFill : fillPubs s = []) :
    (∀ other, other ≠ thread → (eventThread s).threads other = .idle) ∧
      Flushing thread (eventThread s) := by
  have hNone := h.outstanding_nil (by rw [hPc]; rfl)
  obtain ⟨hReq, hPipe⟩ : s.event.req = none ∧ s.pipe = [] := by
    simpa [Batch.outstanding] using hNone
  obtain ⟨hThreads, _⟩ := eventThread_threads hReq fun _ => hPipe
  refine ⟨by rw [hThreads]; exact h.others, ?_⟩
  have hReturned : (eventThread s).threads thread = .idle := by rw [hThreads, hPc]
  cases hNow : s.event with
  | idle =>
      have hStay : eventThread s = s := by simp [eventThread, hNow, hPipe]
      rw [hStay]
      exact .returned hPc hEvent hOwn hFill
  | draining todo req =>
      cases todo with
      | nil =>
          rw [hNow, req_draining] at hReq
          subst hReq
          have hSwap : eventThread s = drained { s with sbPending := false } none := by
            simp only [eventThread, hNow]
            rcases swapShared_cases s none with ⟨_, hSwap⟩ | ⟨full, hSome, hFull, _⟩
            · exact hSwap
            · exact absurd (by simpa [fillPubs, hSome] using hFill) hFull
          rw [hSwap]
          exact .returned hPc (by simp [drained]) hOwn hFill
      | cons writer todo =>
          simp only [eventThread, hNow]
          refine .returned hPc (by simp) ?_ hFill
          intro other
          by_cases hSame : other = writer
          · simp [hSame]
          · simpa [hSame] using hOwn other
  | publishing full req => exact absurd hNow (hEvent full req)

theorem Final.eventThread_called {thread : Nat} {s : State} (h : Final thread s)
    (hPc : s.threads thread = .execDrain []) :
    (∀ other, other ≠ thread → (eventThread s).threads other = .idle) ∧
      Flushing thread (eventThread s) := by
  have hNone := h.outstanding_nil (by rw [hPc]; rfl)
  obtain ⟨hReq, hPipe⟩ : s.event.req = none ∧ s.pipe = [] := by
    simpa [Batch.outstanding] using hNone
  obtain ⟨hThreads, _⟩ := eventThread_threads hReq fun _ => hPipe
  rw [hThreads]
  exact ⟨h.others, .called (by rw [hThreads, hPc])⟩

theorem Final.eventThread {thread : Nat} {s : State} (h : Final thread s)
    (hOk : InOrder s .eventThread) : Final thread (eventThread s) := by
  have hSound := h.sound.eventThread hOk
  cases h.flushing with
  | called hPc =>
      obtain ⟨hOthers, hFlushing⟩ := h.eventThread_called hPc
      exact ⟨hSound, hOthers, hFlushing⟩
  | posted hPc hPipe =>
      obtain ⟨hOthers, hFlushing, _⟩ := h.eventThread_posted hPc hPipe
      exact ⟨hSound, hOthers, hFlushing⟩
  | walking todo hPc hEvent hOwn =>
      obtain ⟨hOthers, hFlushing, _⟩ := h.eventThread_walking hPc hEvent hOwn
      exact ⟨hSound, hOthers, hFlushing⟩
  | publishing full hPc hEvent hOwn hFill =>
      obtain ⟨hOthers, hFlushing, _⟩ := h.eventThread_publishing hPc hEvent hOwn hFill
      exact ⟨hSound, hOthers, hFlushing⟩
  | returned hPc hEvent hOwn hFill =>
      obtain ⟨hOthers, hFlushing⟩ := h.eventThread_returned hPc hEvent hOwn hFill
      exact ⟨hSound, hOthers, hFlushing⟩

theorem Final.batchTimer {thread : Nat} {s : State} (h : Final thread s) (hIdle : s.event = .idle) :
    Final thread { s with event := .draining s.writers none } := by
  have hOk : InOrder s .batchTimer := trivial
  have hSound : Sound { s with event := .draining s.writers none } :=
    h.sound.step hOk (by simp [step, hIdle])
  refine ⟨hSound, h.others, ?_⟩
  cases h.flushing with
  | called hPc => exact .called hPc
  | posted hPc hPipe => exact .posted hPc hPipe
  | walking todo hPc hEvent hOwn => simp [hIdle] at hEvent
  | publishing full hPc hEvent hOwn hFill => simp [hIdle] at hEvent
  | returned hPc hEvent hOwn hFill => exact .returned hPc (by simp) hOwn hFill

/-- The flush puts its operation into the pipe; otherwise its thread waits or is
outside of a call. -/
theorem Final.resume {thread : Nat} {s t : State} {tableFull : Bool} (h : Final thread s)
    (hStep : resume s thread tableFull = some t) :
    s.threads thread = .execDrain [] ∧
      t = { s with pipe := s.pipe ++ [EvPipeRec.tportDrain thread] }.goto thread (.waitDrain []) := by
  cases h.flushing with
  | called hPc => exact ⟨hPc, by simpa [Batch.resume, hPc] using hStep.symm⟩
  | posted hPc hPipe => simp [Batch.resume, hPc] at hStep
  | walking todo hPc hEvent hOwn => simp [Batch.resume, hPc] at hStep
  | publishing full hPc hEvent hOwn hFill => simp [Batch.resume, hPc] at hStep
  | returned hPc hEvent hOwn hFill => simp [Batch.resume, hPc] at hStep

theorem Final.step {thread : Nat} {s t : State} {input : Input} (h : Final thread s)
    (hQuiet : Quiet thread input) (hOk : InOrder s input) (hStep : step s input = some t) :
    Final thread t := by
  cases input with
  | resume other tableFull =>
      obtain rfl : other = thread := hQuiet
      have hSound := h.sound.step hOk hStep
      obtain ⟨hPc, rfl⟩ := h.resume hStep
      refine ⟨hSound, ?_, .posted (by simp) (by simp [State.goto])⟩
      intro writer hWriter
      simpa [hWriter] using h.others writer hWriter
  | batchTimer =>
      simp only [Batch.step] at hStep
      split at hStep
      · next hIdle =>
          obtain rfl := Option.some.inj hStep
          exact h.batchTimer hIdle
      · cases hStep
  | eventThread =>
      obtain rfl := Option.some.inj hStep
      exact h.eventThread hOk
  | _ => exact absurd hQuiet id

/-- Nothing overtakes anything while a thread flushes on its own. -/
theorem Final.inOrder {thread : Nat} {s : State} {input : Input} (h : Final thread s)
    (hQuiet : Quiet thread input) : InOrder s input := by
  cases input with
  | resume other tableFull =>
      obtain rfl : other = thread := hQuiet
      cases h.flushing with
      | called hPc => simp [InOrder, hPc]
      | posted hPc hPipe => simp [InOrder, hPc]
      | walking todo hPc hEvent hOwn => simp [InOrder, hPc]
      | publishing full hPc hEvent hOwn hFill => simp [InOrder, hPc]
      | returned hPc hEvent hOwn hFill => simp [InOrder, hPc]
  | batchTimer => trivial
  | eventThread =>
      simp only [InOrder]
      split
      · next other vec rest hEvent hPipe =>
          have hRec : EvPipeRec.tportSend other vec ∈ Batch.outstanding s := by
            simp [Batch.outstanding, hPipe]
          obtain rfl : other = thread := h.outstanding _ hRec
          have hWait : s.threads other = .waitSend vec := h.sound.posted.awaited _ hRec
          cases h.flushing <;> simp_all
      · trivial
  | _ => exact absurd hQuiet id

theorem Final.run {thread : Nat} {s t : State} {inputs : List Input} {outputs : List Empty}
    (hRun : system.Run s inputs outputs t) (h : Final thread s)
    (hQuiet : ∀ input ∈ inputs, Quiet thread input) : Final thread t := by
  induction hRun with
  | nil => exact h
  | snoc prior last ih =>
      have hBefore := ih fun input hInput => hQuiet input (List.mem_append_left _ hInput)
      have hLast := hQuiet _ (List.mem_append_right _ (List.mem_singleton_self _))
      exact hBefore.step hLast (hBefore.inOrder hLast) last

/-- Some step brings the flush nearer to its end. -/
theorem Final.progress {thread : Nat} {s : State} (h : Final thread s)
    (hBusy : s.threads thread ≠ .idle) :
    ∃ input t, Quiet thread input ∧ Batch.step s input = some t ∧ work thread t < work thread s := by
  cases h.flushing with
  | called hPc =>
      have hStep : Batch.step s (.resume thread false) = some
          ({ s with pipe := s.pipe ++ [EvPipeRec.tportDrain thread] }.goto thread (.waitDrain [])) := by
        simp [Batch.step, Batch.resume, hPc]
      exact ⟨.resume thread false, _, rfl, hStep, by simp [work, ahead, hPc, State.goto]⟩
  | posted hPc hPipe =>
      exact ⟨.eventThread, _, trivial, rfl, (h.eventThread_posted hPc hPipe).2.2⟩
  | walking todo hPc hEvent hOwn =>
      exact ⟨.eventThread, _, trivial, rfl, (h.eventThread_walking hPc hEvent hOwn).2.2⟩
  | publishing full hPc hEvent hOwn hFill =>
      exact ⟨.eventThread, _, trivial, rfl, (h.eventThread_publishing hPc hEvent hOwn hFill).2.2⟩
  | returned hPc hEvent hOwn hFill => exact absurd hPc hBusy

/-- The flush returns. The induction is on the steps it has ahead. -/
theorem Final.returns {thread : Nat} (bound : Nat) {s : State} (h : Final thread s)
    (hWork : work thread s ≤ bound) :
    ∃ rest t, (∀ input ∈ rest, Quiet thread input) ∧ system.Run s rest [] t ∧
      t.threads thread = .idle := by
  induction bound generalizing s with
  | zero =>
      by_cases hIdle : s.threads thread = .idle
      · exact ⟨[], s, by simp, System.Run.nil s, hIdle⟩
      · obtain ⟨input, t, _, _, hLess⟩ := h.progress hIdle
        omega
  | succ bound ih =>
      by_cases hIdle : s.threads thread = .idle
      · exact ⟨[], s, by simp, System.Run.nil s, hIdle⟩
      · obtain ⟨input, m, hQuiet, hStep, hLess⟩ := h.progress hIdle
        have hNext := h.step hQuiet (h.inOrder hQuiet) hStep
        obtain ⟨rest, t, hRest, hRun, hDone⟩ := ih hNext (by omega)
        have hFirst : system.Run s [input] [] m := System.Run.snoc (System.Run.nil s) hStep
        refine ⟨input :: rest, t, ?_, hFirst.trans hRun, hDone⟩
        simpa [hQuiet] using hRest

/-- Every accepted message is published once, and those of one thread in the order of
its calls. -/
def Delivered (s : State) : Prop :=
  s.published.Perm s.accepted ∧
    ∀ thread, ofThread thread s.published = ofThread thread s.accepted

/-- Lists that agree on every thread have the same members. -/
theorem perm_of_ofThread {pubs more : List EvPublish}
    (h : ∀ thread, ofThread thread pubs = ofThread thread more) : pubs.Perm more := by
  apply List.perm_iff_count.mpr
  intro pub
  have hCount (l : List EvPublish) : List.count pub (ofThread pub.thread l) = List.count pub l :=
    List.count_filter (by simp)
  rw [← hCount pubs, ← hCount more, h]

theorem Final.delivered {thread : Nat} {s : State} (h : Final thread s)
    (hPc : s.threads thread = .idle) : Delivered s := by
  have hEach : ∀ other, ofThread other s.published = ofThread other s.accepted := by
    intro other
    have hBalance := h.sound.ledger.balance other
    have hIdle : s.threads other = .idle := by
      by_cases hSame : other = thread
      · rw [hSame, hPc]
      · exact h.others other hSame
    cases h.flushing with
    | returned hPc hEvent hOwn hFill =>
        have hPending : pending s other = [] := by
          cases hNow : s.event with
          | idle => simp [pending, hNow, hOwn, hFill]
          | draining todo req => simp [pending, hNow, hOwn, hFill]
          | publishing full req => exact absurd hNow (hEvent full req)
        rw [hIdle, hPending] at hBalance
        simpa [Pc.placed] using hBalance.symm
    | called hPc' => simp [hPc] at hPc'
    | posted hPc' => simp [hPc] at hPc'
    | walking _ hPc' => simp [hPc] at hPc'
    | publishing _ hPc' => simp [hPc] at hPc'
  exact ⟨perm_of_ofThread hEach, hEach⟩

/-- In a run in order, a last flush returns, and everything that was accepted is then
published once and in order. -/
theorem final_flush_delivers {s : State} (hReach : (system.guard InOrder).Reachable s)
    (hIdle : ∀ thread, s.threads thread = .idle) (thread : Nat) :
    ∃ m, step s (.flush thread) = some m ∧
      (∃ rest t, (∀ input ∈ rest, Quiet thread input) ∧ system.Run m rest [] t ∧
        t.threads thread = .idle) ∧
      ∀ rest outputs t, (∀ input ∈ rest, Quiet thread input) → system.Run m rest outputs t →
        t.threads thread = .idle → Delivered t := by
  have hStep : step s (.flush thread) = some (s.goto thread (.execDrain [])) := by
    simp [step, call, hIdle]
  have hFinal : Final thread (s.goto thread (.execDrain [])) := by
    have hOk : InOrder s (.flush thread) := trivial
    refine ⟨(sound_of_reachable hReach).step hOk hStep, ?_, .called (by simp)⟩
    intro other hOther
    simpa [hOther] using hIdle other
  refine ⟨_, hStep, hFinal.returns _ (Nat.le_refl _), ?_⟩
  intro rest outputs t hQuiet hRun hDone
  exact (Final.run hRun hFinal hQuiet).delivered hDone

/-- A message in the shared accumulator after the mode was set and another thread sent. -/
theorem final_flush_delivers_shared : ∃ s : State,
    fillPubs s = [⟨1, ⟨text "A", [], []⟩⟩] ∧
    ∃ m, step s (.flush 0) = some m ∧
      (∃ rest t, (∀ input ∈ rest, Quiet 0 input) ∧ system.Run m rest [] t ∧
        t.threads 0 = .idle) ∧
      ∀ rest outputs t, (∀ input ∈ rest, Quiet 0 input) → system.Run m rest outputs t →
        t.threads 0 = .idle → Delivered t := by
  have hStart : (system.guard InOrder).Reachable {} := System.reachable_of_init rfl
  have hMode := hStart.take (.setBatchMode 0 .singleBatch) [] trivial rfl
  have hTest := hMode.take (.resume 0 false) [] trivial rfl
  have hFill := hTest.take (.resume 0 false) [] rfl rfl
  have hSpare := hFill.take (.resume 0 false) [] trivial rfl
  have hSend := hSpare.take (.send 1 [⟨text "A", [], []⟩]) [] trivial rfl
  have hRead := hSend.take (.resume 1 false) [] trivial rfl
  have hAppend := hRead.take (.resume 1 false) [] (Option.some_ne_none _) rfl
  have hReturn := hAppend.take (.resume 1 false) [] trivial rfl
  refine ⟨_, rfl, final_flush_delivers hReturn ?_ 0⟩
  intro thread
  match thread with
  | 0 => rfl
  | 1 => rfl
  | n + 2 => rfl

theorem run_of_steps {s t : State} {inputs : List Input} {none : List Empty}
    (h : System.runAll (fun s input => (step s input).map fun t => (t, [])) s inputs = some (t, none)) :
    system.Run s inputs none t := by
  apply System.Run.of_runAll _ h
  intro s input t emitted hStep
  obtain ⟨m, hm, hEq⟩ := Option.map_eq_some_iff.mp hStep
  obtain ⟨rfl, _⟩ := Prod.mk.inj hEq
  exact hm

/-- A mode is announced before its buffers exist: a message sent in between is
accepted and never published. -/
theorem accepted_message_is_lost :
    ¬ ∀ s : State, system.Reachable s → (∀ thread, s.threads thread = .idle) →
      ∀ thread m, step s (.flush thread) = some m →
      ∀ rest outputs t, (∀ input ∈ rest, Quiet thread input) → system.Run m rest outputs t →
        t.threads thread = .idle → Delivered t := by
  intro hClaim
  have hRun : system.Run {}
      [.setBatchMode 0 .singleBatch, .send 1 [⟨text "A", [], []⟩], .resume 1 false, .resume 1 false,
        .resume 1 false, .resume 0 false, .resume 0 false, .resume 0 false] [] _ :=
    run_of_steps rfl
  have hIdle := hClaim _ ⟨_, _, _, rfl, hRun⟩ fun thread =>
    match thread with
    | 0 => rfl
    | 1 => rfl
    | n + 2 => rfl
  have hFlush := hIdle 0 _ rfl [.resume 0 false, .eventThread, .eventThread] [] _
    (by simp [Quiet]) (run_of_steps rfl) rfl
  have hLength := hFlush.1.length_eq
  exact absurd hLength (by decide)

end Sassrv.Rv7.Batch
