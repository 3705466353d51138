import Sassrv.Client.Subjects
import Sassrv.Lib.Buckets
import Sassrv.Lib.Table
import Sassrv.Lib.Transition

/-! The listeners of an rv7 transport: the hash table and the index of wildcard
prefix lengths that `CreateListener` and `DestroyEvent` keep, and how `on_rv_msg`
finds the listeners of a message in them. A change of the tables is made under
the mutex of the transport, so it is one step here. -/
namespace Sassrv.Rv7
open SubMgr Client Transition

abbrev UIntHashTab := Table (BitVec 32) (BitVec 32)

/-- What comes from elsewhere: the hash function and the order of iteration of
raikv, and which ids the registry holds a queue for. -/
structure Env where
  crcC : Text → BitVec 32 → BitVec 32
  visit : UIntHashTab → List (BitVec 32 × BitVec 32)
  visit_perm : ∀ t, (visit t).Perm t.entries
  isQueue : BitVec 32 → Bool

inductive Status where
  | ok
  | invalidSubject
  | invalidQueue
  deriving DecidableEq, Repr

/-- `api_Listener`, without the callbacks that `deliver_msg` hands on. -/
structure Listener where
  id : BitVec 32
  queue : BitVec 32
  subject : Text
  len : BitVec 16
  wild : BitVec 16
  hash : BitVec 32
  deriving DecidableEq

/-- `wild` is the length of the text up to and with the wildcard, which also
seeds the hash of the text in front of it. -/
def wildLength (subj : Text) : BitVec 16 :=
  match rvWildcard subj with
  | some w => BitVec.ofNat 16 (w + 1)
  | none => 0

def prefixHash (env : Env) (subject : Text) (wild : BitVec 32) : BitVec 32 :=
  env.crcC (subject.take (wild - 1).toNat) wild

def subjectHash (env : Env) (subj : Text) : BitVec 32 :=
  if (rvWildcard subj).isSome then prefixHash env subj ((wildLength subj).setWidth 32)
  else env.crcC subj 0

def Listener.make (env : Env) (id queue : BitVec 32) (subj : Text) : Listener where
  id := id
  queue := queue
  subject := subj
  len := BitVec.ofNat 16 subj.length
  wild := wildLength subj
  hash := subjectHash env subj

/-- A pending `SendRequest`. -/
structure Rpc where
  subject : Text
  hash : BitVec 32
  deriving DecidableEq

structure Transport where
  ht : Buckets Listener := {}
  wildHt : Option UIntHashTab := none
  rpcList : List Rpc := []

def addWildcard (t : Transport) (pref : BitVec 32) : Transport :=
  let wild := t.wildHt.getD .empty
  match wild.find? pref with
  | some val => { t with wildHt := some (wild.modify pref fun _ => val + 1) }
  | none => { t with wildHt := some (wild.insert pref 1) }

@[simp] theorem addWildcard_ht (t : Transport) (pref : BitVec 32) : (addWildcard t pref).ht = t.ht := by
  unfold addWildcard
  dsimp only
  split <;> rfl

def removeWildcard (t : Transport) (pref : BitVec 32) : Transport :=
  match t.wildHt with
  | none => t
  | some wild =>
      match wild.find? pref with
      | none => t
      | some val =>
          if val = 1 then { t with wildHt := some (wild.erase pref) }
          else { t with wildHt := some (wild.modify pref fun _ => val - 1) }

@[simp] theorem removeWildcard_ht (t : Transport) (pref : BitVec 32) : (removeWildcard t pref).ht = t.ht := by
  unfold removeWildcard
  split
  · rfl
  · split
    · rfl
    · split <;> rfl

def hasEmptySegment : Text → Bool
  | 46 :: 46 :: _ => true
  | _ :: rest => hasEmptySegment rest
  | [] => false

/-- The subjects that `CreateListener` takes. -/
def isSubject (subj : Text) : Bool :=
  subj ≠ [] && !hasEmptySegment subj && subj.head? ≠ some 46 && subj.getLast? ≠ some 46

/-- The listener enters the tables; `isWild` is that `is_rv_wildcard` found one. -/
def openListener (t : Transport) (isWild : Bool) (l : Listener) : Transport :=
  let t := if isWild then addWildcard t (l.wild.setWidth 32) else t
  { t with ht := t.ht.push Listener.hash l }

@[simp] theorem openListener_ht (t : Transport) (isWild : Bool) (l : Listener) :
    (openListener t isWild l).ht = t.ht.push Listener.hash l := by
  cases isWild <;> simp [openListener]

def createListener (env : Env) (t : Transport) (id queue : BitVec 32) (subj : Text) :
    Transport × Status :=
  if !isSubject subj then (t, .invalidSubject)
  else if !env.isQueue queue then (t, .invalidQueue)
  else (openListener t (rvWildcard subj).isSome (.make env id queue subj), .ok)

/-- The listener leaves the tables. -/
def closeListener (t : Transport) (l : Listener) : Transport :=
  let t := if l.wild ≠ 0 then removeWildcard t (l.wild.setWidth 32) else t
  { t with ht := t.ht.remove Listener.hash l }

@[simp] theorem closeListener_ht (t : Transport) (l : Listener) :
    (closeListener t l).ht = t.ht.remove Listener.hash l := by
  unfold closeListener
  split <;> simp

/-- `DestroyEvent` on a listener of this transport. -/
def destroyEvent (t : Transport) (id : BitVec 32) : Transport :=
  match t.ht.elements.find? fun l => l.id = id with
  | none => t
  | some l => closeListener t l

/-- A message of the client: `isRv` says that `make_rv_msg` can read its data. -/
structure Publish where
  subject : Text
  subjHash : BitVec 32
  isRv : Bool

def Rpc.awaits (r : Rpc) (pub : Publish) : Bool :=
  r.hash = pub.subjHash && r.subject = pub.subject

def isExact (pub : Publish) (l : Listener) : Bool :=
  l.hash = pub.subjHash && l.wild = 0 && l.len.toNat = pub.subject.length &&
    l.subject = pub.subject

def isMatch (pub : Publish) (h pref : BitVec 32) (l : Listener) : Bool :=
  l.hash = h && l.wild.setWidth 32 = pref && matchRvWildcard l.subject pub.subject

/-- The listeners without a wildcard, in the order of their bucket. -/
def exactListeners (t : Transport) (pub : Publish) : List Listener :=
  ((t.ht.bucket? pub.subjHash).getD []).filter (isExact pub)

/-- The wildcard listeners of one prefix length. -/
def prefixListeners (env : Env) (t : Transport) (pub : Publish) (pref : BitVec 32) :
    Option (List Listener) :=
  if pub.subject.length ≤ (pref - 1).toNat then some []
  else
    let h := prefixHash env pub.subject pref
    (t.ht.bucket? h).map fun list => list.filter (isMatch pub h pref)

def wildListeners (env : Env) (t : Transport) (pub : Publish) : Option (List Listener) :=
  match t.wildHt with
  | none => some []
  | some wild =>
      ((env.visit wild).mapM fun e => prefixListeners env t pub e.1).map List.flatten

/-- `on_rv_msg`: the calls of `deliver_msg` in order, `none` when a null table is
indexed. A request that waits for the subject takes the message. -/
def onRvMsg (env : Env) (t : Transport) (pub : Publish) : Option (List Listener) :=
  if !pub.isRv then some []
  else if t.rpcList.any fun r => r.awaits pub then some []
  else (wildListeners env t pub).map fun wild => exactListeners t pub ++ wild

inductive Input where
  | createListener (id queue : BitVec 32) (subj : Text)
  | destroyEvent (id : BitVec 32)
  | sendRequest (reply : Text)
  | replied (reply : Text)

/-- The registry gives a new listener an id that is not zero and not in use. -/
def Transport.Fresh (t : Transport) (id : BitVec 32) : Prop :=
  id ≠ 0 ∧ ∀ l ∈ t.ht.elements, l.id ≠ id

/-- Calls on one transport, from its creation on. -/
def transport (env : Env) : System Transport Input Status where
  init t := t = {}
  step t input emitted t' :=
    match input with
    | .createListener id queue subj =>
        t.Fresh id ∧ t' = (createListener env t id queue subj).1 ∧
          emitted = [(createListener env t id queue subj).2]
    | .destroyEvent id => t' = destroyEvent t id ∧ emitted = [.ok]
    | .sendRequest reply =>
        t' = { t with rpcList := ⟨reply, env.crcC reply 0⟩ :: t.rpcList } ∧ emitted = []
    | .replied reply =>
        t' = { t with rpcList := t.rpcList.eraseP fun r => r.subject = reply } ∧ emitted = []

end Sassrv.Rv7
