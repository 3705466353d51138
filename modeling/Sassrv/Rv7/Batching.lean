import Sassrv.Lib.Transition
import Sassrv.SubMgr.Text
import Mathlib.Logic.Function.Basic

/-! The batched sends of an rv7 transport. A message goes to the event thread by one
of three routes: an operation in the pipe that the sender waits for, the accumulator
of the sending thread, or the shared accumulator with its spare. The threads run in
any order; a step here is one access of a thread to what it shares with the others,
and what a lock makes atomic is one step. -/
namespace Sassrv.Rv7.Batch
open SubMgr Transition

/-- `tibrvTransportBatchMode`. -/
inductive BatchMode where
  | defaultBatch
  | timerBatch
  | singleBatch
  deriving DecidableEq

/-- What is marshaled of a message. -/
structure Message where
  subject : Text
  reply : Text
  data : Text
  deriving DecidableEq

/-- A publish, with the thread that made the call it comes from. -/
structure EvPublish where
  thread : Nat
  msg : Message
  deriving DecidableEq

structure SendCtx where
  pubs : List EvPublish := []
  bytes : BitVec 32 := 0
  deriving DecidableEq

/-- The operations that reach the event thread through the pipe. -/
inductive EvPipeRec where
  | tportSend (thread : Nat) (pubs : List EvPublish)
  | tportDrain (thread : Nat)
  deriving DecidableEq

def EvPipeRec.thread : EvPipeRec → Nat
  | .tportSend thread _ => thread
  | .tportDrain thread => thread

/-- Where a thread stands in a call. The publishes are those of the call, which are
accepted when it returns. -/
inductive Pc where
  | idle
  | getSendCtx (vec : List EvPublish)
  | readModeAgain (vec : List EvPublish)
  | appendShared (vec : List EvPublish)
  | noteDispatchSend (vec : List EvPublish)
  | execSend (vec : List EvPublish)
  | waitSend (vec : List EvPublish)
  | execDrain (vec : List EvPublish)
  | waitDrain (vec : List EvPublish)
  | testFill
  | newFill
  | newSpare
  deriving DecidableEq

/-- Where the event thread stands. `todo` are the writers that this drain has not come
to yet, during which it holds `batch_mutex`; `req` is the thread that waits for the
drain, which a timer does not have. -/
inductive EventPc where
  | idle
  | draining (todo : List Nat) (req : Option Nat)
  | publishing (full : SendCtx) (req : Option Nat)
  deriving DecidableEq

/-- The transport with its threads. `published` is what the client was given and
`accepted` what calls returned `TIBRV_OK` for, both in order. -/
structure State where
  batchMode : BatchMode := .defaultBatch
  batchSize : BitVec 32 := 0
  dispatchFlush : Bool := false
  writers : List Nat := []
  sendCtx : Nat → SendCtx := fun _ => {}
  sbFill : Option SendCtx := none
  sbSpare : Option SendCtx := none
  sbPending : Bool := false
  pipe : List EvPipeRec := []
  event : EventPc := .idle
  threads : Nat → Pc := fun _ => .idle
  published : List EvPublish := []
  accepted : List EvPublish := []

def State.goto (s : State) (thread : Nat) (pc : Pc) : State :=
  { s with threads := Function.update s.threads thread pc }

/-- The call of a thread returns `TIBRV_OK`. -/
def State.ret (s : State) (thread : Nat) (vec : List EvPublish) : State :=
  { s with
    threads := Function.update s.threads thread .idle
    accepted := s.accepted ++ vec }

def appendPublish (c : SendCtx) (pub : EvPublish) : SendCtx where
  pubs := c.pubs ++ [pub]
  bytes := c.bytes + BitVec.ofNat 32 pub.msg.data.length

/-- `send_ctx_append`: the context afterwards and whether it has grown to the batch
size. Without a context the messages are left where they are. -/
def sendCtxAppend (c : Option SendCtx) (batchSize : BitVec 32) (vec : List EvPublish) :
    Option SendCtx × Bool :=
  match c with
  | none => (none, false)
  | some c =>
      let c := vec.foldl appendPublish c
      (some c, batchSize ≠ 0 && batchSize ≤ c.bytes)

/-- `Send` and `Sendv` as far as the first look at the mode. -/
def send (s : State) (thread : Nat) (vec : List Message) : State :=
  let pubs := vec.map (EvPublish.mk thread)
  if vec = [] then s
  else if s.batchMode = .timerBatch then s.goto thread (.getSendCtx pubs)
  else s.goto thread (.readModeAgain pubs)

/-- `SetBatchMode`, which assigns the mode before it looks at the buffers. -/
def setBatchMode (s : State) (thread : Nat) (mode : BatchMode) : State :=
  let s := { s with batchMode := mode }
  if mode = .singleBatch then s.goto thread .testFill else s

/-- The lock of the accumulators is free. Other threads hold it only within a step. -/
def batchMutexFree (s : State) : Bool :=
  match s.event with
  | .draining _ _ => false
  | _ => true

/-- A thread appends to its own accumulator, under the lock of that accumulator. -/
def appendOwn (s : State) (thread : Nat) (vec : List EvPublish) : State :=
  let c := vec.foldl appendPublish (s.sendCtx thread)
  let doFlush := s.batchSize ≠ 0 && s.batchSize ≤ c.bytes
  let s := { s with sendCtx := Function.update s.sendCtx thread c }
  s.goto thread (if doFlush then .execDrain vec else .noteDispatchSend vec)

/-- A thread appends to the shared accumulator, under `batch_mutex`. -/
def appendShared (s : State) (thread : Nat) (vec : List EvPublish) : State :=
  let (fill, grown) := sendCtxAppend s.sbFill s.batchSize vec
  let doDrain := grown && !s.sbPending
  let s :=
    { s with
      sbFill := fill
      sbPending := s.sbPending || doDrain }
  s.goto thread (if doDrain then .execDrain vec else .noteDispatchSend vec)

/-- The next step of a thread inside its call, if it can take one. `tableFull` is that
it runs in a dispatch whose table of transports to flush is full. -/
def resume (s : State) (thread : Nat) (tableFull : Bool) : Option State :=
  match s.threads thread with
  | .idle => none
  | .getSendCtx vec =>
      if thread ∈ s.writers then some (appendOwn s thread vec)
      else if batchMutexFree s then some { s with writers := s.writers ++ [thread] }
      else none
  | .readModeAgain vec =>
      if s.batchMode = .singleBatch then some (s.goto thread (.appendShared vec))
      else some (s.goto thread (.execSend vec))
  | .appendShared vec =>
      if batchMutexFree s then some (appendShared s thread vec) else none
  | .noteDispatchSend vec =>
      if s.dispatchFlush && tableFull then some (s.goto thread (.execDrain vec))
      else some (s.ret thread vec)
  | .execSend vec =>
      some ({ s with pipe := s.pipe ++ [EvPipeRec.tportSend thread vec] }.goto thread (.waitSend vec))
  | .execDrain vec =>
      some ({ s with pipe := s.pipe ++ [EvPipeRec.tportDrain thread] }.goto thread (.waitDrain vec))
  | .waitSend _ => none
  | .waitDrain _ => none
  | .testFill =>
      if s.sbFill = none then some (s.goto thread .newFill) else some (s.goto thread .idle)
  | .newFill => some ({ s with sbFill := some {} }.goto thread .newSpare)
  | .newSpare => some ({ s with sbSpare := some {} }.goto thread .idle)

/-- The end of `drain_transport`: the event thread is free again and the thread that
asked for the drain returns. -/
def drained (s : State) (req : Option Nat) : State :=
  let s := { s with event := .idle }
  match req with
  | none => s
  | some thread =>
      match s.threads thread with
      | .waitDrain vec => s.ret thread vec
      | _ => s

/-- The end of the walk over the writers: the shared accumulator is exchanged with the
spare one if it has anything. -/
def swapShared (s : State) (req : Option Nat) : State :=
  let s := { s with sbPending := false }
  match s.sbFill with
  | none => drained s req
  | some full =>
      if full.pubs = [] then drained s req
      else
        { s with
          sbFill := s.sbSpare
          sbSpare := some full
          event := .publishing full req }

/-- The next step of the event thread. A buffer that replaced the spare one while it
was published is empty as well, so that emptying what `sb_spare` points at is emptying
the published buffer. -/
def eventThread (s : State) : State :=
  match s.event with
  | .idle =>
      match s.pipe with
      | [] => s
      | .tportSend thread vec :: rest =>
          { s with
            pipe := rest
            published := s.published ++ vec }.ret thread vec
      | .tportDrain thread :: rest =>
          { s with
            pipe := rest
            event := .draining s.writers (some thread) }
  | .draining (writer :: todo) req =>
      { s with
        published := s.published ++ (s.sendCtx writer).pubs
        sendCtx := Function.update s.sendCtx writer {}
        event := .draining todo req }
  | .draining [] req => swapShared s req
  | .publishing full req =>
      drained
        { s with
          published := s.published ++ full.pubs
          sbSpare := s.sbSpare.map fun _ => {} } req

inductive Input where
  | send (thread : Nat) (vec : List Message)
  | flush (thread : Nat)
  | setBatchMode (thread : Nat) (mode : BatchMode)
  | setBatchSize (thread : Nat) (numBytes : BitVec 32)
  | setBatchDispatchFlush (thread : Nat) (on : Bool)
  | resume (thread : Nat) (tableFull : Bool)
  | batchTimer
  | eventThread
  deriving DecidableEq

/-- A call of the interface begins only when the thread is not inside another one. -/
def call (s : State) (thread : Nat) (t : State) : Option State :=
  if s.threads thread = .idle then some t else none

def step (s : State) : Input → Option State
  | .send thread vec => call s thread (send s thread vec)
  | .flush thread => call s thread (s.goto thread (.execDrain []))
  | .setBatchMode thread mode => call s thread (setBatchMode s thread mode)
  | .setBatchSize thread numBytes => call s thread { s with batchSize := numBytes }
  | .setBatchDispatchFlush thread on => call s thread { s with dispatchFlush := on }
  | .resume thread tableFull => resume s thread tableFull
  | .batchTimer =>
      if s.event = .idle then some { s with event := .draining s.writers none } else none
  | .eventThread => some (eventThread s)

/-- A transport from its creation on. -/
def system : System State Input Empty where
  init := fun s => s = {}
  step := fun s input _ t => step s input = some t

end Sassrv.Rv7.Batch
