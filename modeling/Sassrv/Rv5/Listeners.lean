import Sassrv.Lib.Slots
import Sassrv.Rv7.Connection

/-! The listeners of an rv5 session and the dispatch of a message to them. One thread
runs everything, so the callbacks of the application run in the middle of the dispatch
loops and may open and close listeners there. A state says where the loops stand; a
step is one turn of a loop or one call of the application. -/
namespace Sassrv.Rv5
open SubMgr Client Transition

abbrev UIntHashTab := Slots (BitVec 32) (BitVec 32)

/-- What comes from elsewhere: the hash function, the numbers and the tables of raikv,
and the name of the session, which the client makes of hexadecimal digits. -/
structure Env where
  crcC : Text → BitVec 32 → BitVec 32
  uint32ToString : BitVec 32 → Text
  tab : Slots.Ops (BitVec 32) (BitVec 32)
  session : Text
  session_plain : session.length < 64 ∧ ∀ c ∈ session, c ≠ 42 ∧ c ≠ 62
  uint32ToString_plain : ∀ n,
    (uint32ToString n).length ≤ 10 ∧ ∀ c ∈ uint32ToString n, c ≠ 42 ∧ c ≠ 62

/-- `rv_Listener_api`; `id` is its address. -/
structure Listener where
  id : Nat
  subject : Text
  len : BitVec 16
  wild : BitVec 16
  hash : BitVec 32
  deriving DecidableEq

def prefixHash (env : Env) (subject : Text) (wild : BitVec 32) : BitVec 32 :=
  env.crcC (subject.take (wild - 1).toNat) wild

/-- The listener of `rv_ListenSubject`. -/
def Listener.make (env : Env) (id : Nat) (subject : Text) : Listener where
  id := id
  subject := subject
  len := BitVec.ofNat 16 subject.length
  wild := Rv7.wildLength subject
  hash :=
    if (rvWildcard subject).isSome then
      prefixHash env subject ((Rv7.wildLength subject).setWidth 32)
    else env.crcC subject 0

/-- The listener of `rv_ListenInbox`, which looks for no wildcard. -/
def Listener.makeInbox (env : Env) (id : Nat) (inbox : Text) : Listener where
  id := id
  subject := inbox
  len := BitVec.ofNat 16 inbox.length
  wild := 0
  hash := env.crcC inbox 0

structure Publish where
  subject : Text
  subjHash : BitVec 32

/-- Where `on_rv_msg` stands: at a listener of the exact bucket, before a slot of
`wild_ht`, or at a listener of the bucket of a prefix. `calling` says that the callback
of the listener runs. -/
inductive Pc where
  | idle
  | timer
  | exact (cur : Option Listener) (calling : Bool)
  | slot (pos : Nat)
  | wild (pos : Nat) (pref : BitVec 32) (cur : Option Listener) (calling : Bool)
  | fault
  deriving DecidableEq

/-- A message in dispatch, the listeners that were open when it arrived and the
callbacks it was given to. -/
structure Delivery where
  pub : Publish
  present : List Listener
  calls : List Nat

/-- `rv_Session_api`. `nulled` are the listeners whose `cb` is null; `opened` are those
that the application has opened and not closed. -/
structure Session where
  ht : Buckets Listener := {}
  wildHt : Option UIntHashTab := none
  inboxCount : BitVec 32 := 2
  nulled : List Nat := []
  nextId : Nat := 0
  pc : Pc := .idle
  delivery : Delivery := ⟨⟨[], 0⟩, [], []⟩
  opened : List Listener := []

/-- `busy`, which `on_rv_msg` and `timer_cb` set while they run. -/
def Session.busy (s : Session) : BitVec 32 :=
  match s.pc with
  | .idle => 0
  | .timer => 2
  | _ => 1

/-- The application runs: outside of the loops or in a callback. -/
def Session.isApplication (s : Session) : Bool :=
  match s.pc with
  | .idle => true
  | .timer => true
  | .exact _ calling => calling
  | .wild _ _ _ calling => calling
  | _ => false

def addWildcard (env : Env) (s : Session) (pref : BitVec 32) : Session :=
  let wild := s.wildHt.getD env.tab.fresh
  match wild.find? pref with
  | some (pos, val) => { s with wildHt := some (wild.set pos (some (pref, val + 1))) }
  | none => { s with wildHt := some (env.tab.upsert wild pref 1) }

def removeWildcard (env : Env) (s : Session) (pref : BitVec 32) : Session :=
  match s.wildHt with
  | none => s
  | some wild =>
      match wild.find? pref with
      | none => s
      | some (pos, val) =>
          if val = 1 then { s with wildHt := some (env.tab.remove wild pos) }
          else { s with wildHt := some (wild.set pos (some (pref, val - 1))) }

/-- The new listener in the tables; `hasCb` is that its callback is not null. -/
def openListener (env : Env) (s : Session) (isWild hasCb : Bool) (l : Listener) : Session :=
  let s := if isWild then addWildcard env s (l.wild.setWidth 32) else s
  { s with
    ht := s.ht.push Listener.hash l
    nulled := if hasCb then s.nulled else l.id :: s.nulled
    nextId := s.nextId + 1
    opened := s.opened ++ [l] }

def isSubject (subject : Text) : Bool :=
  !Rv7.hasEmptySegment subject && subject.head? ≠ some 46 && subject ≠ []

def rvListenSubject (env : Env) (s : Session) (subject : Text) (hasCb : Bool) : Session :=
  if isSubject subject then
    openListener env s (rvWildcard subject).isSome hasCb (.make env s.nextId subject)
  else s

def inboxName (env : Env) (n : BitVec 32) : Text :=
  Rv7.makeInbox env.session ++ env.uint32ToString n

def rvListenInbox (env : Env) (s : Session) (hasCb : Bool) : Session :=
  openListener env { s with inboxCount := s.inboxCount + 1 } false hasCb
    (.makeInbox env s.nextId (inboxName env s.inboxCount))

/-- `rv_Close`: a listener that is closed while the session is busy keeps its place in
the tables. -/
def rvClose (env : Env) (s : Session) (l : Listener) : Session :=
  if l.id ∈ s.nulled then s
  else
    let s := { s with
      nulled := l.id :: s.nulled
      opened := s.opened.erase l }
    if s.busy = 0 then
      let s := if l.wild ≠ 0 then removeWildcard env s (l.wild.setWidth 32) else s
      { s with ht := s.ht.remove Listener.hash l }
    else s

/-- The elements behind the first one that is equal. -/
def after {α : Type} [DecidableEq α] (a : α) (list : List α) : List α :=
  (list.dropWhile (· ≠ a)).tail

/-- `l->next`, in the bucket that the listener is in now. -/
def nextListener (s : Session) (l : Listener) : Option Listener :=
  (after l ((s.ht.bucket? l.hash).getD [])).head?

def isExact (s : Session) (pub : Publish) (l : Listener) : Bool :=
  l.hash = pub.subjHash && l.id ∉ s.nulled && l.wild = 0 &&
    l.len.toNat = pub.subject.length && l.subject = pub.subject

def isMatch (s : Session) (pub : Publish) (h pref : BitVec 32) (l : Listener) : Bool :=
  l.hash = h && l.id ∉ s.nulled && l.wild.setWidth 32 = pref &&
    matchRvWildcard l.subject pub.subject

/-- The listener's callback is called with the message. -/
def Session.call (s : Session) (l : Listener) (pc : Pc) : Session :=
  { s with
    delivery := { s.delivery with calls := s.delivery.calls ++ [l.id] }
    pc := pc }

/-- `on_rv_msg` up to its first loop, which indexes the table whether or not there is
one. -/
def arrive (s : Session) (pub : Publish) : Session :=
  { s with
    delivery := ⟨pub, s.opened, []⟩
    pc :=
      match s.ht.bucket? pub.subjHash with
      | some list => .exact list.head? false
      | none => .fault }

/-- The loop over `wild_ht` at its next entry. -/
def slotStep (env : Env) (s : Session) (pos : Nat) : Pc :=
  match (s.wildHt.getD []).next pos with
  | none => .idle
  | some (p, pref, _) =>
      if s.delivery.pub.subject.length ≤ (pref - 1).toNat then .slot (p + 1)
      else
        match s.ht.bucket? (prefixHash env s.delivery.pub.subject pref) with
        | some list => .wild p pref list.head? false
        | none => .fault

/-- The session's own next step: a turn of a loop, or the return of a callback. -/
def codeStep (env : Env) (s : Session) : Session :=
  let pub := s.delivery.pub
  match s.pc with
  | .idle => s
  | .fault => s
  | .timer => { s with pc := .idle }
  | .exact (some l) true => { s with pc := .exact (nextListener s l) false }
  | .exact (some l) false =>
      if isExact s pub l then s.call l (.exact (some l) true)
      else { s with pc := .exact (nextListener s l) false }
  | .exact none _ => { s with pc := .slot 0 }
  | .slot pos => { s with pc := slotStep env s pos }
  | .wild pos pref (some l) true => { s with pc := .wild pos pref (nextListener s l) false }
  | .wild pos pref (some l) false =>
      if isMatch s pub (prefixHash env pub.subject pref) pref l then
        s.call l (.wild pos pref (some l) true)
      else { s with pc := .wild pos pref (nextListener s l) false }
  | .wild pos _ none _ => { s with pc := .slot (pos + 1) }

inductive Event where
  | listenSubject (subject : Text) (hasCb : Bool)
  | listenInbox (hasCb : Bool)
  | close (l : Listener)
  | arrive (pub : Publish)
  | timer
  | code

/-- A session from `rv_Init` on; a message that is through is put out. -/
def session (env : Env) : System Session Event Delivery where
  init s := s = {}
  step s event out t :=
    match event with
    | .listenSubject subject hasCb =>
        s.isApplication = true ∧ t = rvListenSubject env s subject hasCb ∧ out = []
    | .listenInbox hasCb => s.isApplication = true ∧ t = rvListenInbox env s hasCb ∧ out = []
    | .close l =>
        s.isApplication = true ∧ l ∈ s.ht.elements ∧ t = rvClose env s l ∧ out = []
    | .arrive pub =>
        s.pc = .idle ∧ pub.subjHash = env.crcC pub.subject 0 ∧ t = arrive s pub ∧ out = []
    | .timer => s.pc = .idle ∧ t = { s with pc := .timer } ∧ out = []
    | .code =>
        t = codeStep env s ∧
          out = match s.pc with
            | .slot _ => if t.pc = .idle then [s.delivery] else []
            | _ => []

end Sassrv.Rv5
