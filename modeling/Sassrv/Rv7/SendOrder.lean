import Sassrv.Rv7.Batching
import Mathlib.Data.List.Perm.Basic

/-! Order and completeness of batched sends. The messages of one thread lie, oldest
first, among what was published, the buffer being published, the accumulator of the
thread and the shared accumulator. Each step moves messages along this line as long as
a thread does not go past messages of its own on another route. -/
namespace Sassrv.Rv7.Batch
open SubMgr Transition

/-- The publishes of one thread, in order. -/
def ofThread (thread : Nat) (pubs : List EvPublish) : List EvPublish :=
  pubs.filter fun pub => pub.thread = thread

@[simp] theorem ofThread_nil (thread : Nat) : ofThread thread [] = [] := rfl

@[simp] theorem ofThread_append (thread : Nat) (pubs more : List EvPublish) :
    ofThread thread (pubs ++ more) = ofThread thread pubs ++ ofThread thread more :=
  List.filter_append _ _

theorem ofThread_self {thread : Nat} {pubs : List EvPublish} (h : ∀ pub ∈ pubs, pub.thread = thread) :
    ofThread thread pubs = pubs :=
  List.filter_eq_self.mpr fun pub hPub => decide_eq_true (h pub hPub)

theorem ofThread_other {thread other : Nat} {pubs : List EvPublish}
    (h : ∀ pub ∈ pubs, pub.thread = other) (hNe : thread ≠ other) : ofThread thread pubs = [] := by
  apply List.filter_eq_nil_iff.mpr
  intro pub hPub hEq
  exact hNe ((of_decide_eq_true hEq).symm.trans (h pub hPub))

/-- What waits in the shared accumulator. -/
def fillPubs (s : State) : List EvPublish :=
  match s.sbFill with
  | none => []
  | some c => c.pubs

def sparePubs (s : State) : List EvPublish :=
  match s.sbSpare with
  | none => []
  | some c => c.pubs

/-- The publishes of a call that has not returned. -/
def Pc.vec : Pc → List EvPublish
  | .getSendCtx vec => vec
  | .readModeAgain vec => vec
  | .appendShared vec => vec
  | .noteDispatchSend vec => vec
  | .execSend vec => vec
  | .waitSend vec => vec
  | .execDrain vec => vec
  | .waitDrain vec => vec
  | _ => []

/-- Those among them that the call has already appended. -/
def Pc.placed : Pc → List EvPublish
  | .noteDispatchSend vec => vec
  | .execDrain vec => vec
  | .waitDrain vec => vec
  | _ => []

/-- What is appended and not published of a thread, in the order in which it will be.
The walk over the writers has passed the accumulators that are not in `todo`, which are
published with the next one, after the shared accumulator. -/
def pending (s : State) (thread : Nat) : List EvPublish :=
  let own := (s.sendCtx thread).pubs
  let shared := ofThread thread (fillPubs s)
  match s.event with
  | .idle => own ++ shared
  | .draining todo _ => if thread ∈ todo then own ++ shared else shared ++ own
  | .publishing full _ => ofThread thread full.pubs ++ (own ++ shared)

/-- A thread appends to its accumulator behind everything it sent before: nothing of it
is in the shared accumulator, or that one is published first. -/
def OwnLast (s : State) (thread : Nat) : Prop :=
  ofThread thread (fillPubs s) = [] ∨ ∃ todo req, s.event = .draining todo req ∧ thread ∉ todo

/-- The condition on a step. A message for the shared accumulator finds one, an
accumulator is not replaced while it has messages, and a thread does not send on a
route that overtakes its messages on another one. -/
def InOrder (s : State) : Input → Prop
  | .resume thread _ =>
      match s.threads thread with
      | .getSendCtx _ => thread ∈ s.writers → OwnLast s thread
      | .appendShared _ => s.sbFill ≠ none
      | .newFill => fillPubs s = []
      | _ => True
  | .eventThread =>
      match s.event, s.pipe with
      | .idle, .tportSend thread _ :: _ =>
          (s.sendCtx thread).pubs = [] ∧ ofThread thread (fillPubs s) = []
      | _, _ => True
  | _ => True

/-- The account of every message a thread was told is sent. -/
structure Ledger (s : State) : Prop where
  balance : ∀ thread, ofThread thread s.accepted ++ (s.threads thread).placed =
    ofThread thread s.published ++ pending s thread
  own : ∀ thread, ∀ pub ∈ (s.sendCtx thread).pubs, pub.thread = thread
  vec : ∀ thread, ∀ pub ∈ (s.threads thread).vec, pub.thread = thread
  registered : ∀ thread, thread ∉ s.writers → (s.sendCtx thread).pubs = []
  spare : (∀ full req, s.event ≠ .publishing full req) → sparePubs s = []

@[simp] theorem pending_goto (s : State) (thread other : Nat) (pc : Pc) :
    pending (s.goto thread pc) other = pending s other := rfl

@[simp] theorem pending_ret (s : State) (thread other : Nat) (vec : List EvPublish) :
    pending (s.ret thread vec) other = pending s other := rfl

@[simp] theorem goto_threads (s : State) (thread other : Nat) (pc : Pc) :
    (s.goto thread pc).threads other = if other = thread then pc else s.threads other :=
  Function.update_apply _ _ _ _

@[simp] theorem goto_accepted (s : State) (thread : Nat) (pc : Pc) :
    (s.goto thread pc).accepted = s.accepted := rfl

@[simp] theorem goto_published (s : State) (thread : Nat) (pc : Pc) :
    (s.goto thread pc).published = s.published := rfl

@[simp] theorem ret_accepted (s : State) (thread : Nat) (vec : List EvPublish) :
    (s.ret thread vec).accepted = s.accepted ++ vec := rfl

@[simp] theorem ret_published (s : State) (thread : Nat) (vec : List EvPublish) :
    (s.ret thread vec).published = s.published := rfl

@[simp] theorem ret_threads (s : State) (thread other : Nat) (vec : List EvPublish) :
    (s.ret thread vec).threads other = if other = thread then .idle else s.threads other :=
  Function.update_apply _ _ _ _

theorem foldl_appendPublish_pubs (vec : List EvPublish) (c : SendCtx) :
    (vec.foldl appendPublish c).pubs = c.pubs ++ vec := by
  induction vec generalizing c with
  | nil => simp
  | cons pub rest ih => simp [ih, appendPublish]

/-! The ledger under the steps of a thread. -/

/-- The pipe has no part in it. -/
theorem Ledger.repipe {s : State} (h : Ledger s) (pipe : List EvPipeRec) :
    Ledger { s with pipe := pipe } :=
  ⟨h.balance, h.own, h.vec, h.registered, h.spare⟩

theorem Ledger.goto {s : State} (h : Ledger s) {thread : Nat} {pc : Pc}
    (hPlaced : pc.placed = (s.threads thread).placed) (hVec : ∀ pub ∈ pc.vec, pub.thread = thread) :
    Ledger (s.goto thread pc) where
  balance := by
    intro other
    have hBalance := h.balance other
    by_cases hSame : other = thread
    · subst hSame
      simpa [hPlaced] using hBalance
    · simpa [hSame] using hBalance
  own := h.own
  vec := by
    intro other
    by_cases hSame : other = thread
    · subst hSame
      simpa using hVec
    · simpa [hSame] using h.vec other
  registered := h.registered
  spare := h.spare

theorem Ledger.ret {s : State} (h : Ledger s) {thread : Nat} {vec : List EvPublish}
    (hPlaced : (s.threads thread).placed = vec) (hVec : ∀ pub ∈ vec, pub.thread = thread) :
    Ledger (s.ret thread vec) where
  balance := by
    intro other
    have hBalance := h.balance other
    by_cases hSame : other = thread
    · subst hSame
      rw [hPlaced] at hBalance
      simpa [Pc.placed, ofThread_self hVec] using hBalance
    · simpa [hSame, ofThread_other hVec hSame] using hBalance
  own := h.own
  vec := by
    intro other
    by_cases hSame : other = thread
    · subst hSame
      simp [Pc.vec]
    · simpa [hSame] using h.vec other
  registered := h.registered
  spare := h.spare

/-- Messages go to the end of what is pending of their thread and are then placed. -/
theorem balance_place {accepted published before after vec : List EvPublish}
    (hBalance : accepted ++ [] = published ++ before) (hAfter : after = before ++ vec) :
    accepted ++ vec = published ++ after := by
  rw [hAfter, ← List.append_assoc, ← hBalance, List.append_nil]

theorem pending_appendOwn {s : State} {thread : Nat} {vec : List EvPublish} {c : SendCtx}
    (hLast : OwnLast s thread) (hc : c.pubs = (s.sendCtx thread).pubs ++ vec) :
    pending { s with sendCtx := Function.update s.sendCtx thread c } thread =
      pending s thread ++ vec := by
  rcases hLast with hNone | ⟨todo, req, hEvent, hPassed⟩
  · rw [fillPubs] at hNone
    cases hEvent : s.event <;> simp [pending, fillPubs, hEvent, hNone, hc]
  · simp [pending, hEvent, hPassed, hc, fillPubs]

theorem placed_appended (vec : List EvPublish) (b : Bool) :
    Pc.placed (if b then .execDrain vec else .noteDispatchSend vec) = vec := by
  cases b <;> rfl

theorem vec_appended (vec : List EvPublish) (b : Bool) :
    Pc.vec (if b then .execDrain vec else .noteDispatchSend vec) = vec := by
  cases b <;> rfl

theorem Ledger.appendOwn {s : State} (h : Ledger s) {thread : Nat} {vec : List EvPublish}
    (hPc : s.threads thread = .getSendCtx vec) (hWriter : thread ∈ s.writers)
    (hLast : OwnLast s thread) : Ledger (appendOwn s thread vec) := by
  have hVec : ∀ pub ∈ vec, pub.thread = thread := by
    intro pub hPub
    exact h.vec thread pub (by simpa [hPc, Pc.vec] using hPub)
  have hPubs := foldl_appendPublish_pubs vec (s.sendCtx thread)
  refine ⟨?_, ?_, ?_, ?_, h.spare⟩
  · intro other
    have hBalance := h.balance other
    by_cases hSame : other = thread
    · subst hSame
      rw [hPc] at hBalance
      simp only [Batch.appendOwn, goto_accepted, goto_threads, goto_published, if_true,
        placed_appended]
      exact balance_place hBalance (pending_appendOwn hLast hPubs)
    · simpa [Batch.appendOwn, State.goto, hSame, pending, fillPubs] using hBalance
  · intro other
    by_cases hSame : other = thread
    · subst hSame
      intro pub hPub
      simp only [Batch.appendOwn, State.goto, Function.update_self, hPubs, List.mem_append] at hPub
      rcases hPub with hOld | hNew
      · exact h.own other pub hOld
      · exact hVec pub hNew
    · simpa [Batch.appendOwn, State.goto, hSame] using h.own other
  · intro other
    by_cases hSame : other = thread
    · subst hSame
      simpa only [Batch.appendOwn, goto_threads, if_true, vec_appended] using hVec
    · simpa [Batch.appendOwn, State.goto, hSame] using h.vec other
  · intro other hOther
    have hSame : other ≠ thread := by
      rintro rfl
      exact hOther hWriter
    simpa [Batch.appendOwn, State.goto, hSame] using h.registered other hOther

/-- The publishes of the call are appended in full, whichever way it goes on. -/
theorem ledger_appendShared {s : State} (h : Ledger s) {thread : Nat} {vec : List EvPublish}
    (hPc : s.threads thread = .appendShared vec) (hFree : batchMutexFree s = true)
    (hFill : s.sbFill ≠ none) : Ledger (appendShared s thread vec) := by
  obtain ⟨fill, hFill⟩ := Option.ne_none_iff_exists'.mp hFill
  have hVec : ∀ pub ∈ vec, pub.thread = thread := by
    intro pub hPub
    exact h.vec thread pub (by simpa [hPc, Pc.vec] using hPub)
  have hPubs := foldl_appendPublish_pubs vec fill
  refine ⟨?_, h.own, ?_, h.registered, h.spare⟩
  · intro other
    have hBalance := h.balance other
    have hPending : pending (appendShared s thread vec) other =
        pending s other ++ ofThread other vec := by
      cases hEvent : s.event with
      | idle => simp [appendShared, sendCtxAppend, pending, fillPubs, State.goto, hEvent, hFill, hPubs]
      | draining todo req => simp [batchMutexFree, hEvent] at hFree
      | publishing full req =>
          simp [appendShared, sendCtxAppend, pending, fillPubs, State.goto, hEvent, hFill, hPubs]
    rw [hPending]
    by_cases hSame : other = thread
    · subst hSame
      rw [hPc] at hBalance
      simp only [appendShared, goto_accepted, goto_threads, goto_published, if_true,
        placed_appended]
      exact balance_place hBalance (by rw [ofThread_self hVec])
    · simpa [appendShared, hSame, ofThread_other hVec hSame] using hBalance
  · intro other
    by_cases hSame : other = thread
    · subst hSame
      simpa only [appendShared, goto_threads, if_true, vec_appended] using hVec
    · simpa [appendShared, hSame] using h.vec other

theorem Ledger.newFill {s : State} (h : Ledger s) (hFill : fillPubs s = []) :
    Ledger { s with sbFill := some {} } := by
  refine ⟨?_, h.own, h.vec, h.registered, h.spare⟩
  intro other
  have hPending : pending { s with sbFill := some {} } other = pending s other := by
    simp only [pending, hFill]
    rfl
  rw [hPending]
  exact h.balance other

theorem Ledger.newSpare {s : State} (h : Ledger s) : Ledger { s with sbSpare := some {} } :=
  ⟨h.balance, h.own, h.vec, h.registered, fun _ => rfl⟩

theorem Ledger.register {s : State} (h : Ledger s) (thread : Nat) :
    Ledger { s with writers := s.writers ++ [thread] } := by
  refine ⟨h.balance, h.own, h.vec, ?_, h.spare⟩
  intro other hOther
  apply h.registered
  intro hMem
  exact hOther (List.mem_append_left _ hMem)

theorem Ledger.resume {s t : State} (h : Ledger s) {thread : Nat} {tableFull : Bool}
    (hOk : InOrder s (.resume thread tableFull)) (hStep : resume s thread tableFull = some t) :
    Ledger t := by
  have hVec := h.vec thread
  cases hPc : s.threads thread with
  | idle => simp [Batch.resume, hPc] at hStep
  | getSendCtx vec =>
      simp only [InOrder, hPc] at hOk
      simp only [Batch.resume, hPc] at hStep
      split at hStep
      · next hWriter =>
          obtain rfl := Option.some.inj hStep
          exact h.appendOwn hPc hWriter (hOk hWriter)
      · split at hStep
        · obtain rfl := Option.some.inj hStep
          exact h.register thread
        · cases hStep
  | readModeAgain vec =>
      rw [hPc] at hVec
      simp only [Batch.resume, hPc] at hStep
      split at hStep
      · obtain rfl := Option.some.inj hStep
        exact h.goto (by rw [hPc]; rfl) hVec
      · obtain rfl := Option.some.inj hStep
        exact h.goto (by rw [hPc]; rfl) hVec
  | appendShared vec =>
      simp only [InOrder, hPc] at hOk
      simp only [Batch.resume, hPc] at hStep
      split at hStep
      · next hFree =>
          obtain rfl := Option.some.inj hStep
          exact ledger_appendShared h hPc hFree hOk
      · cases hStep
  | noteDispatchSend vec =>
      rw [hPc] at hVec
      simp only [Batch.resume, hPc] at hStep
      split at hStep
      · obtain rfl := Option.some.inj hStep
        exact h.goto (by rw [hPc]; rfl) hVec
      · obtain rfl := Option.some.inj hStep
        exact h.ret (by rw [hPc]; rfl) hVec
  | execSend vec =>
      rw [hPc] at hVec
      simp only [Batch.resume, hPc, Option.some.injEq] at hStep
      subst hStep
      exact (h.repipe _).goto (by rw [hPc]; rfl) hVec
  | execDrain vec =>
      rw [hPc] at hVec
      simp only [Batch.resume, hPc, Option.some.injEq] at hStep
      subst hStep
      exact (h.repipe _).goto (by rw [hPc]; rfl) hVec
  | waitSend vec => simp [Batch.resume, hPc] at hStep
  | waitDrain vec => simp [Batch.resume, hPc] at hStep
  | testFill =>
      simp only [Batch.resume, hPc] at hStep
      split at hStep
      · obtain rfl := Option.some.inj hStep
        exact h.goto (by rw [hPc]; rfl) (by simp [Pc.vec])
      · obtain rfl := Option.some.inj hStep
        exact h.goto (by rw [hPc]; rfl) (by simp [Pc.vec])
  | newFill =>
      simp only [InOrder, hPc] at hOk
      simp only [Batch.resume, hPc, Option.some.injEq] at hStep
      subst hStep
      exact (h.newFill hOk).goto (by rw [hPc]; rfl) (by simp [Pc.vec])
  | newSpare =>
      simp only [Batch.resume, hPc, Option.some.injEq] at hStep
      subst hStep
      exact h.newSpare.goto (by rw [hPc]; rfl) (by simp [Pc.vec])

/-! The ledger under the steps of the event thread. -/

theorem Ledger.drained {s : State} (h : Ledger { s with event := .idle }) (req : Option Nat) :
    Ledger (drained s req) := by
  cases req with
  | none => exact h
  | some thread =>
      simp only [Batch.drained]
      split
      · next vec hPc =>
          have hVec := h.vec thread
          simp only [hPc] at hVec
          exact h.ret (by simp only [hPc]; rfl) hVec
      · exact h

/-- An operation of the pipe publishes its messages before its call returns. -/
theorem Ledger.direct {s : State} (h : Ledger s) {thread : Nat} {vec : List EvPublish}
    (hPc : s.threads thread = .waitSend vec) (hEvent : s.event = .idle)
    (hOwn : (s.sendCtx thread).pubs = []) (hFill : ofThread thread (fillPubs s) = []) :
    Ledger ({ s with published := s.published ++ vec }.ret thread vec) := by
  have hVec : ∀ pub ∈ vec, pub.thread = thread := by
    simpa [hPc, Pc.vec] using h.vec thread
  refine ⟨?_, h.own, ?_, h.registered, h.spare⟩
  · intro other
    have hBalance := h.balance other
    by_cases hSame : other = thread
    · subst hSame
      have hPending : pending s other = [] := by simp [pending, hEvent, hOwn, hFill]
      rw [hPc, hPending] at hBalance
      have hAfter : pending ({ s with published := s.published ++ vec }.ret other vec) other = [] :=
        hPending
      simp only [Pc.placed, List.append_nil] at hBalance
      simp [hAfter, Pc.placed, hBalance]
    · simp only [ret_accepted, ret_published, ret_threads, ofThread_append, ofThread_other hVec hSame,
        List.append_nil, hSame, if_false]
      exact hBalance
  · intro other
    by_cases hSame : other = thread
    · subst hSame
      simp [Pc.vec]
    · simpa [hSame] using h.vec other

theorem Ledger.startDraining {s : State} (h : Ledger s) (hEvent : s.event = .idle) (req : Option Nat) :
    Ledger { s with event := .draining s.writers req } := by
  refine ⟨?_, h.own, h.vec, h.registered, ?_⟩
  · intro other
    have hPending : pending { s with event := .draining s.writers req } other = pending s other := by
      by_cases hWriter : other ∈ s.writers
      · simp [pending, hEvent, hWriter, fillPubs]
      · simp [pending, hEvent, hWriter, fillPubs, h.registered other hWriter]
    rw [hPending]
    exact h.balance other
  · intro _
    apply h.spare
    simp [hEvent]

/-- One writer of the walk. Its accumulator is what is oldest of its thread. -/
theorem Ledger.drainWriter {s : State} (h : Ledger s) {writer : Nat} {todo : List Nat}
    {req : Option Nat} (hEvent : s.event = .draining (writer :: todo) req) :
    Ledger
      { s with
        published := s.published ++ (s.sendCtx writer).pubs
        sendCtx := Function.update s.sendCtx writer {}
        event := .draining todo req } := by
  refine ⟨?_, ?_, h.vec, ?_, ?_⟩
  · intro other
    have hBalance := h.balance other
    by_cases hSame : other = writer
    · subst hSame
      have hOwn := ofThread_self (h.own other)
      simpa [pending, hEvent, hOwn, fillPubs] using hBalance
    · have hOwn := ofThread_other (h.own writer) hSame
      simpa [pending, hEvent, hOwn, fillPubs, hSame] using hBalance
  · intro other
    by_cases hSame : other = writer
    · subst hSame
      simp
    · simpa [hSame] using h.own other
  · intro other hOther
    by_cases hSame : other = writer
    · subst hSame
      simp
    · simpa [hSame] using h.registered other hOther
  · intro _
    apply h.spare
    simp [hEvent]

/-- The walk ends with nothing to exchange, or with the buffers exchanged. -/
theorem swapShared_cases (s : State) (req : Option Nat) :
    (fillPubs s = [] ∧ swapShared s req = drained { s with sbPending := false } req) ∨
    ∃ full, s.sbFill = some full ∧ full.pubs ≠ [] ∧ swapShared s req =
      { s with
        sbPending := false
        sbFill := s.sbSpare
        sbSpare := some full
        event := .publishing full req } := by
  cases hFill : s.sbFill with
  | none => exact Or.inl ⟨by simp [fillPubs, hFill], by simp [swapShared, hFill]⟩
  | some full =>
      by_cases hEmpty : full.pubs = []
      · exact Or.inl ⟨by simp [fillPubs, hFill, hEmpty], by simp [swapShared, hFill, hEmpty]⟩
      · exact Or.inr ⟨full, rfl, hEmpty, by simp [swapShared, hFill, hEmpty]⟩

theorem Ledger.swapShared {s : State} (h : Ledger s) {req : Option Nat}
    (hEvent : s.event = .draining [] req) : Ledger (swapShared s req) := by
  have hSpare : sparePubs s = [] := by
    apply h.spare
    simp [hEvent]
  rcases swapShared_cases s req with ⟨hFill, hSwap⟩ | ⟨full, hFill, _, hSwap⟩
  · rw [hSwap]
    apply Ledger.drained
    refine ⟨?_, h.own, h.vec, h.registered, fun _ => hSpare⟩
    intro other
    have hBalance := h.balance other
    rw [fillPubs] at hFill
    simpa [pending, hEvent, fillPubs, hFill] using hBalance
  · rw [hSwap]
    refine ⟨?_, h.own, h.vec, h.registered, ?_⟩
    · intro other
      have hBalance := h.balance other
      rw [sparePubs] at hSpare
      simpa [pending, hEvent, fillPubs, hFill, hSpare] using hBalance
    · intro hNot
      exact absurd rfl (hNot full req)

theorem Ledger.published {s : State} (h : Ledger s) {full : SendCtx} {req : Option Nat}
    (hEvent : s.event = .publishing full req) :
    Ledger
      { s with
        published := s.published ++ full.pubs
        sbSpare := s.sbSpare.map fun _ => {}
        event := .idle } := by
  refine ⟨?_, h.own, h.vec, h.registered, ?_⟩
  · intro other
    have hBalance := h.balance other
    simpa [pending, hEvent, fillPubs] using hBalance
  · intro _
    cases s.sbSpare <;> simp [sparePubs]

/-! The operations the event thread has not finished. -/

def EventPc.req : EventPc → Option Nat
  | .idle => none
  | .draining _ req => req
  | .publishing _ req => req

@[simp] theorem req_idle : EventPc.req .idle = none := rfl

@[simp] theorem req_draining (todo : List Nat) (req : Option Nat) :
    (EventPc.draining todo req).req = req := rfl

@[simp] theorem req_publishing (full : SendCtx) (req : Option Nat) :
    (EventPc.publishing full req).req = req := rfl

/-- The operations in the order in which their calls return. -/
def outstanding (s : State) : List EvPipeRec :=
  s.event.req.toList.map .tportDrain ++ s.pipe

/-- The thread of an operation waits for it. -/
def Awaited (threads : Nat → Pc) : EvPipeRec → Prop
  | .tportSend thread vec => threads thread = .waitSend vec
  | .tportDrain thread => ∃ vec, threads thread = .waitDrain vec

structure Posted (s : State) : Prop where
  awaited : ∀ rec ∈ outstanding s, Awaited s.threads rec
  nodup : ((outstanding s).map EvPipeRec.thread).Nodup

/-- A thread that does not wait has no operation outstanding. -/
def Pc.waits : Pc → Bool
  | .waitSend _ => true
  | .waitDrain _ => true
  | _ => false

theorem Awaited.waits {threads : Nat → Pc} {rec : EvPipeRec} (h : Awaited threads rec) :
    (threads rec.thread).waits = true := by
  cases rec with
  | tportSend thread vec =>
      have hPc : threads thread = .waitSend vec := h
      simp [EvPipeRec.thread, hPc, Pc.waits]
  | tportDrain thread =>
      obtain ⟨vec, hPc⟩ := h
      simp [EvPipeRec.thread, hPc, Pc.waits]

theorem Awaited.update {threads : Nat → Pc} {rec : EvPipeRec} (h : Awaited threads rec) {thread : Nat}
    (hNe : rec.thread ≠ thread) (pc : Pc) : Awaited (Function.update threads thread pc) rec := by
  cases rec with
  | tportSend other vec =>
      have hNe : other ≠ thread := hNe
      simpa [Awaited, hNe] using h
  | tportDrain other =>
      have hNe : other ≠ thread := hNe
      simpa [Awaited, hNe] using h

theorem Posted.not_mem {s : State} (h : Posted s) {thread : Nat}
    (hPc : (s.threads thread).waits = false) :
    thread ∉ (outstanding s).map EvPipeRec.thread := by
  intro hMem
  obtain ⟨rec, hRec, rfl⟩ := List.mem_map.mp hMem
  simp [(h.awaited rec hRec).waits] at hPc

theorem Posted.goto {s : State} (h : Posted s) {thread : Nat} (hPc : (s.threads thread).waits = false)
    (pc : Pc) : Posted (s.goto thread pc) := by
  refine ⟨?_, h.nodup⟩
  intro rec hRec
  apply (h.awaited rec hRec).update
  rintro rfl
  exact h.not_mem hPc (List.mem_map_of_mem hRec)

/-- A thread leaves an operation in the pipe and waits for it. -/
theorem Posted.exec {s : State} (h : Posted s) {rec : EvPipeRec} {pc : Pc}
    (hPc : (s.threads rec.thread).waits = false)
    (hAwaited : Awaited (Function.update s.threads rec.thread pc) rec) :
    Posted ({ s with pipe := s.pipe ++ [rec] }.goto rec.thread pc) := by
  have hOut : outstanding ({ s with pipe := s.pipe ++ [rec] }.goto rec.thread pc) =
      outstanding s ++ [rec] := by
    simp [outstanding, State.goto]
  refine ⟨?_, ?_⟩
  · intro other hOther
    rw [hOut, List.mem_append, List.mem_singleton] at hOther
    rcases hOther with hOld | rfl
    · exact (h.goto hPc pc).awaited other hOld
    · exact hAwaited
  · rw [hOut, List.map_append, List.nodup_append]
    refine ⟨h.nodup, by simp, ?_⟩
    intro other hOther thread hThread hEq
    simp only [List.map_cons, List.map_nil, List.mem_singleton] at hThread
    rw [hEq, hThread] at hOther
    exact h.not_mem hPc hOther

/-- The first of the operations is finished and its call returns. -/
theorem Posted.finish {s t : State} (h : Posted s) (rec : EvPipeRec)
    (hOut : outstanding s = rec :: outstanding t) (pc : Pc)
    (hThreads : t.threads = Function.update s.threads rec.thread pc) : Posted t := by
  have hNodup := h.nodup
  rw [hOut, List.map_cons, List.nodup_cons] at hNodup
  refine ⟨?_, hNodup.2⟩
  intro other hOther
  rw [hThreads]
  apply (h.awaited other (by rw [hOut]; exact List.mem_cons_of_mem _ hOther)).update
  intro hEq
  rw [← hEq] at hNodup
  exact hNodup.1 (List.mem_map_of_mem hOther)

theorem Posted.drained {s : State} (h : Posted s) (req : Option Nat) (hReq : s.event.req = req) :
    Posted (drained s req) := by
  cases req with
  | none =>
      have hOut : outstanding (Batch.drained s none) = outstanding s := by
        simp [outstanding, Batch.drained, hReq]
      refine ⟨?_, ?_⟩
      · rw [hOut]
        exact h.awaited
      · rw [hOut]
        exact h.nodup
  | some thread =>
      have hOut : outstanding s = .tportDrain thread :: s.pipe := by simp [outstanding, hReq]
      obtain ⟨vec, hPc⟩ := h.awaited (.tportDrain thread) (by simp [hOut])
      have hDrained : Batch.drained s (some thread) = { s with event := .idle }.ret thread vec := by
        simp [Batch.drained, hPc]
      have hRest : outstanding s =
          .tportDrain thread :: outstanding ({ s with event := .idle }.ret thread vec) := by
        simp [hReq, outstanding, State.ret]
      rw [hDrained]
      exact h.finish _ hRest .idle rfl

/-- The same operations, the same threads. -/
theorem Posted.same {s t : State} (h : Posted s) (hOut : outstanding t = outstanding s)
    (hThreads : t.threads = s.threads) : Posted t := by
  refine ⟨?_, ?_⟩
  · rw [hOut, hThreads]
    exact h.awaited
  · rw [hOut]
    exact h.nodup

theorem Posted.resume {s t : State} (h : Posted s) {thread : Nat} {tableFull : Bool}
    (hStep : resume s thread tableFull = some t) : Posted t := by
  have hGoto (hPc : (s.threads thread).waits = false) (pc : Pc) : Posted (s.goto thread pc) :=
    h.goto hPc pc
  cases hPc : s.threads thread with
  | idle => simp [Batch.resume, hPc] at hStep
  | getSendCtx vec =>
      simp only [Batch.resume, hPc] at hStep
      split at hStep
      · obtain rfl := Option.some.inj hStep
        exact (hGoto (by rw [hPc]; rfl) _).same rfl rfl
      · split at hStep
        · obtain rfl := Option.some.inj hStep
          exact h.same rfl rfl
        · cases hStep
  | readModeAgain vec =>
      simp only [Batch.resume, hPc] at hStep
      split at hStep
      · obtain rfl := Option.some.inj hStep
        exact hGoto (by rw [hPc]; rfl) _
      · obtain rfl := Option.some.inj hStep
        exact hGoto (by rw [hPc]; rfl) _
  | appendShared vec =>
      simp only [Batch.resume, hPc] at hStep
      split at hStep
      · obtain rfl := Option.some.inj hStep
        exact (hGoto (by rw [hPc]; rfl) _).same rfl rfl
      · cases hStep
  | noteDispatchSend vec =>
      simp only [Batch.resume, hPc] at hStep
      split at hStep
      · obtain rfl := Option.some.inj hStep
        exact hGoto (by rw [hPc]; rfl) _
      · obtain rfl := Option.some.inj hStep
        exact (hGoto (by rw [hPc]; rfl) .idle).same rfl rfl
  | execSend vec =>
      simp only [Batch.resume, hPc, Option.some.injEq] at hStep
      subst hStep
      exact h.exec (by simp [EvPipeRec.thread, hPc, Pc.waits])
        (by simp [Awaited, EvPipeRec.thread])
  | execDrain vec =>
      simp only [Batch.resume, hPc, Option.some.injEq] at hStep
      subst hStep
      exact h.exec (by simp [EvPipeRec.thread, hPc, Pc.waits])
        ⟨vec, by simp [EvPipeRec.thread]⟩
  | waitSend vec => simp [Batch.resume, hPc] at hStep
  | waitDrain vec => simp [Batch.resume, hPc] at hStep
  | testFill =>
      simp only [Batch.resume, hPc] at hStep
      split at hStep
      · obtain rfl := Option.some.inj hStep
        exact hGoto (by rw [hPc]; rfl) _
      · obtain rfl := Option.some.inj hStep
        exact hGoto (by rw [hPc]; rfl) _
  | newFill =>
      simp only [Batch.resume, hPc, Option.some.injEq] at hStep
      subst hStep
      exact (hGoto (by rw [hPc]; rfl) .newSpare).same rfl rfl
  | newSpare =>
      simp only [Batch.resume, hPc, Option.some.injEq] at hStep
      subst hStep
      exact (hGoto (by rw [hPc]; rfl) .idle).same rfl rfl

/-- What holds of every state of a run in order. -/
structure Sound (s : State) : Prop where
  ledger : Ledger s
  posted : Posted s

theorem eventThread_send {s : State} {thread : Nat} {vec : List EvPublish} {rest : List EvPipeRec}
    (hEvent : s.event = .idle) (hPipe : s.pipe = .tportSend thread vec :: rest) :
    eventThread s =
      { s with
        pipe := rest
        published := s.published ++ vec }.ret thread vec := by
  simp [eventThread, hEvent, hPipe]

theorem eventThread_drain {s : State} {thread : Nat} {rest : List EvPipeRec}
    (hEvent : s.event = .idle) (hPipe : s.pipe = .tportDrain thread :: rest) :
    eventThread s =
      { s with
        pipe := rest
        event := .draining s.writers (some thread) } := by
  simp [eventThread, hEvent, hPipe]

theorem Sound.eventThread {s : State} (h : Sound s) (hOk : InOrder s .eventThread) :
    Sound (eventThread s) := by
  cases hEvent : s.event with
  | idle =>
      cases hPipe : s.pipe with
      | nil => simpa [Batch.eventThread, hEvent, hPipe] using h
      | cons rec rest =>
          have hOut : outstanding s = rec :: rest := by simp [outstanding, hEvent, hPipe]
          cases rec with
          | tportSend thread vec =>
              have hPc : s.threads thread = .waitSend vec :=
                h.posted.awaited (.tportSend thread vec) (by simp [hOut])
              simp only [InOrder, hEvent, hPipe] at hOk
              rw [eventThread_send hEvent hPipe]
              refine ⟨(h.ledger.direct hPc hEvent hOk.1 hOk.2).repipe rest, ?_⟩
              apply h.posted.finish (.tportSend thread vec) (hOut.trans ?_) .idle rfl
              simp [outstanding, State.ret, hEvent]
          | tportDrain thread =>
              rw [eventThread_drain hEvent hPipe]
              refine ⟨(h.ledger.startDraining hEvent (some thread)).repipe rest, ?_⟩
              exact h.posted.same (by simp [outstanding, hEvent, hPipe]) rfl
  | draining todo req =>
      cases todo with
      | nil =>
          simp only [Batch.eventThread, hEvent]
          refine ⟨h.ledger.swapShared hEvent, ?_⟩
          rcases swapShared_cases s req with ⟨_, hSwap⟩ | ⟨full, _, _, hSwap⟩
          · rw [hSwap]
            have hPosted : Posted { s with sbPending := false } := h.posted.same rfl rfl
            exact hPosted.drained req (by simp [hEvent])
          · rw [hSwap]
            exact h.posted.same (by simp [outstanding, hEvent]) rfl
      | cons writer todo =>
          simp only [Batch.eventThread, hEvent]
          refine ⟨h.ledger.drainWriter hEvent, ?_⟩
          exact h.posted.same (by simp [outstanding, hEvent]) rfl
  | publishing full req =>
      simp only [Batch.eventThread, hEvent]
      refine ⟨(h.ledger.published hEvent).drained req, ?_⟩
      have hPosted : Posted
          { s with
            published := s.published ++ full.pubs
            sbSpare := s.sbSpare.map fun _ => {} } := h.posted.same rfl rfl
      exact hPosted.drained req (by simp [hEvent])

theorem call_eq_some {s t u : State} {thread : Nat} (h : call s thread t = some u) :
    s.threads thread = .idle ∧ u = t := by
  unfold call at h
  split at h
  · next hIdle => exact ⟨hIdle, (Option.some.inj h).symm⟩
  · cases h

theorem Sound.send {s : State} (h : Sound s) {thread : Nat} (hPc : s.threads thread = .idle)
    (vec : List Message) : Sound (send s thread vec) := by
  have hVec : ∀ pub ∈ vec.map (EvPublish.mk thread), pub.thread = thread := by
    intro pub hPub
    obtain ⟨msg, _, rfl⟩ := List.mem_map.mp hPub
    rfl
  have hWaits : (s.threads thread).waits = false := by rw [hPc]; rfl
  unfold Batch.send
  split
  · exact h
  · split
    · exact ⟨h.ledger.goto (by rw [hPc]; rfl) hVec, h.posted.goto hWaits _⟩
    · exact ⟨h.ledger.goto (by rw [hPc]; rfl) hVec, h.posted.goto hWaits _⟩

theorem Sound.setBatchMode {s : State} (h : Sound s) {thread : Nat} (hPc : s.threads thread = .idle)
    (mode : BatchMode) : Sound (setBatchMode s thread mode) := by
  have hMode : Sound { s with batchMode := mode } :=
    ⟨⟨h.ledger.balance, h.ledger.own, h.ledger.vec, h.ledger.registered, h.ledger.spare⟩,
      h.posted.same rfl rfl⟩
  have hWaits : (s.threads thread).waits = false := by rw [hPc]; rfl
  unfold Batch.setBatchMode
  split
  · exact ⟨hMode.ledger.goto (by rw [hPc]; rfl) (by simp [Pc.vec]), hMode.posted.goto hWaits _⟩
  · exact hMode

theorem Sound.step {s t : State} (h : Sound s) {input : Input} (hOk : InOrder s input)
    (hStep : step s input = some t) : Sound t := by
  cases input with
  | send thread vec =>
      obtain ⟨hPc, rfl⟩ := call_eq_some hStep
      exact h.send hPc vec
  | flush thread =>
      obtain ⟨hPc, rfl⟩ := call_eq_some hStep
      have hWaits : (s.threads thread).waits = false := by rw [hPc]; rfl
      exact ⟨h.ledger.goto (by rw [hPc]; rfl) (by simp [Pc.vec]), h.posted.goto hWaits _⟩
  | setBatchMode thread mode =>
      obtain ⟨hPc, rfl⟩ := call_eq_some hStep
      exact h.setBatchMode hPc mode
  | setBatchSize thread numBytes =>
      obtain ⟨_, rfl⟩ := call_eq_some hStep
      exact ⟨⟨h.ledger.balance, h.ledger.own, h.ledger.vec, h.ledger.registered, h.ledger.spare⟩,
        h.posted.same rfl rfl⟩
  | setBatchDispatchFlush thread on =>
      obtain ⟨_, rfl⟩ := call_eq_some hStep
      exact ⟨⟨h.ledger.balance, h.ledger.own, h.ledger.vec, h.ledger.registered, h.ledger.spare⟩,
        h.posted.same rfl rfl⟩
  | resume thread tableFull => exact ⟨h.ledger.resume hOk hStep, h.posted.resume hStep⟩
  | batchTimer =>
      simp only [Batch.step] at hStep
      split at hStep
      · next hEvent =>
          obtain rfl := Option.some.inj hStep
          refine ⟨h.ledger.startDraining hEvent none, ?_⟩
          exact h.posted.same (by simp [outstanding, hEvent]) rfl
      · cases hStep
  | eventThread =>
      obtain rfl := Option.some.inj hStep
      exact h.eventThread hOk

theorem sound_of_reachable {s : State} (h : (system.guard InOrder).Reachable s) : Sound s := by
  apply h.invariant
  · rintro _ rfl
    refine ⟨⟨?_, ?_, ?_, ?_, ?_⟩, ⟨?_, ?_⟩⟩ <;>
      simp [pending, fillPubs, sparePubs, Pc.placed, Pc.vec, outstanding]
  · intro s input emitted t hSound hStep
    exact hSound.step hStep.1 hStep.2

end Sassrv.Rv7.Batch
