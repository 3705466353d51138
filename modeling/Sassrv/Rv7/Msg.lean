import Sassrv.Lib.Transition
import Sassrv.SubMgr.Text

/-! `api_Msg` of the rv7 library: the received image of a message, the writer and
the cached reader, and the two counters that say which of them is current. A wire
image is the list of fields that it encodes. -/
namespace Sassrv.Rv7
open SubMgr Transition

universe u
variable {V : Type u}

/-- A field under its name as it is encoded, with the `'\0'` that ends the name
and the bytes of the id. -/
structure Field (V : Type u) where
  name : Text
  value : V
  deriving DecidableEq

/-- What raimd decides about fields, and the bit of an id: `1 << ( id % 64 )` is the
shift of an `int`, which the language leaves open from 32 on. -/
structure MsgEnv (V : Type u) where
  isNamed : Text → Field V → Bool
  idBit : BitVec 16 → BitVec 64
  byteSize : List (Field V) → Nat

/-- `FNameArg`: an id is put behind a name of at most 253 bytes. -/
def fnameArg (name : Option Text) (id : BitVec 16) : Text :=
  let nm := (name.map fun s => s ++ [0]).getD []
  if id = 0 then nm
  else
    (if 253 ≤ nm.length then nm.take 252 ++ [0] else nm) ++
      [UInt8.ofNat (id.toNat / 256), UInt8.ofNat (id.toNat % 256)]

def addField (fields : List (Field V)) (nm : Text) (value : V) : List (Field V) :=
  fields ++ [⟨nm, value⟩]

/-- The first field of the name is replaced; without one the field is added. -/
def updateField (env : MsgEnv V) (fields : List (Field V)) (nm : Text) (value : V) :
    List (Field V) :=
  match fields.findIdx? (env.isNamed nm) with
  | some i => fields.set i ⟨nm, value⟩
  | none => addField fields nm value

def removeField (env : MsgEnv V) (fields : List (Field V)) (nm : Text) : List (Field V) :=
  fields.eraseP (env.isNamed nm)

/-- The field of the name that is number `inst`, counted from one. -/
def removeFieldInstance (env : MsgEnv V) (nm : Text) : Nat → List (Field V) → List (Field V)
  | 0, fields => fields
  | _, [] => []
  | inst + 1, f :: rest =>
      if env.isNamed nm f then
        if inst = 0 then rest else f :: removeFieldInstance env nm inst rest
      else f :: removeFieldInstance env nm (inst + 1) rest

/-- The calls that change a message. A value stands for whatever its type encodes,
messages and arrays included. -/
inductive Write (V : Type u) where
  | add (name : Option Text) (id : BitVec 16) (value : V)
  | update (name : Option Text) (id : BitVec 16) (value : V)
  | remove (name : Option Text) (id : BitVec 16)
  | removeInstance (name : Option Text) (inst : Nat)

structure Msg (V : Type u) where
  rvmsg : Option (List (Field V)) := none
  rd : Option (List (Field V)) := none
  wr : List (Field V) := []
  wrRefs : BitVec 32 := 0
  rdRefs : BitVec 32 := 0
  idUsed : BitVec 64 := 0

/-- Where a message comes from; a message of a queue and one out of `GetMsg` keep
the image that they were made of. -/
inductive Origin (V : Type u) where
  | create
  | createFromBytes (fields : List (Field V))
  | received (fields : List (Field V))
  | getMsg (fields : List (Field V))

def Msg.new : Origin V → Msg V
  | .create => {}
  | .createFromBytes fields => { wr := fields, idUsed := BitVec.allOnes 64 }
  | .received fields => { rvmsg := some fields }
  | .getMsg fields => { rvmsg := some fields }

/-- `get_writer`. The writer takes up the received image when the counters agree. -/
def getWriter (m : Msg V) : Msg V :=
  match m.rvmsg with
  | some fields =>
      if m.rdRefs = m.wrRefs then
        { m with wr := fields, idUsed := BitVec.allOnes 64, wrRefs := m.wrRefs + 1 }
      else { m with wrRefs := m.wrRefs + 1 }
  | none => { m with wrRefs := m.wrRefs + 1 }

/-- The end of `get_as_bytes`: the writer, or the received image. -/
def writtenBytes (m : Msg V) : List (Field V) :=
  match m.rvmsg with
  | none => m.wr
  | some received => if m.rdRefs < m.wrRefs then m.wr else received

/-- `get_as_bytes`. -/
def getAsBytes (m : Msg V) : List (Field V) :=
  match m.rd with
  | some fields => if m.wrRefs = m.rdRefs then fields else writtenBytes m
  | none => writtenBytes m

/-- The image that `get_reader` makes a reader of. -/
def readerImage (m : Msg V) : List (Field V) :=
  match m.rvmsg with
  | some received => if m.rdRefs = m.wrRefs then received else getAsBytes m
  | none => getAsBytes m

def makeReader (m : Msg V) : Msg V × List (Field V) :=
  ({ m with rd := some (readerImage m), rdRefs := m.wrRefs }, readerImage m)

/-- `get_reader`: the reader is made again when there is none or the counters
differ. -/
def getReader (m : Msg V) : Msg V × List (Field V) :=
  match m.rd with
  | some fields => if m.rdRefs = m.wrRefs then (m, fields) else makeReader m
  | none => makeReader m

/-- `check_id`. -/
def checkId (env : MsgEnv V) (idUsed : BitVec 64) (id : BitVec 16) : Bool :=
  id ≠ 0 && idUsed &&& env.idBit id ≠ 0

def useId (env : MsgEnv V) (idUsed : BitVec 64) (id : BitVec 16) : BitVec 64 :=
  if id = 0 then idUsed else idUsed ||| env.idBit id

def Msg.update (env : MsgEnv V) (m : Msg V) (name : Option Text) (id : BitVec 16) (value : V) :
    Msg V :=
  let m := getWriter m
  { m with wr := updateField env m.wr (fnameArg name id) value }

/-- An `Add` of an id that is marked as used goes on as an `Update`. -/
def Msg.add (env : MsgEnv V) (m : Msg V) (name : Option Text) (id : BitVec 16) (value : V) :
    Msg V :=
  let m := getWriter m
  let marked := { m with idUsed := useId env m.idUsed id }
  if checkId env m.idUsed id then marked.update env name id value
  else { marked with wr := addField m.wr (fnameArg name id) value }

def Msg.write (env : MsgEnv V) (m : Msg V) : Write V → Msg V
  | .add name id value => m.add env name id value
  | .update name id value => m.update env name id value
  | .remove name id =>
      let m := getWriter m
      { m with wr := removeField env m.wr (fnameArg name id) }
  | .removeInstance name inst =>
      let m := getWriter m
      { m with wr := removeFieldInstance env (fnameArg name 0) inst m.wr }

/-- The calls on a message: writes, and the observers by the way they take to its
fields. `embed` is the use of the message as a value in another one. -/
inductive Call (V : Type u) where
  | write (w : Write V)
  | read
  | getAsBytes
  | getAsBytesCopy (size : Nat)
  | createCopy
  | send
  | embed

/-- What an observer sees. -/
inductive Seen (V : Type u) where
  | fields (list : List (Field V))
  /-- `TIBRV_INVALID_ARG`: the image is longer than the buffer. -/
  | tooLong
  deriving DecidableEq

def seeCopy (env : MsgEnv V) (size : Nat) (fields : List (Field V)) : Seen V :=
  if size < env.byteSize fields then .tooLong else .fields fields

/-- `GetAsBytes`, `GetAsBytesCopy` and `CreateCopy` look at the received image
first. -/
def bytesOf (m : Msg V) : List (Field V) := m.rvmsg.getD (getAsBytes m)

def copyOf (m : Msg V) : List (Field V) := m.rvmsg.getD m.wr

def Msg.call (env : MsgEnv V) (m : Msg V) : Call V → Msg V × List (Seen V)
  | .write w => (m.write env w, [])
  | .read => ((getReader m).1, [.fields (getReader m).2])
  | .getAsBytes => (m, [.fields (bytesOf m)])
  | .getAsBytesCopy size => (m, [seeCopy env size (bytesOf m)])
  | .createCopy => (m, [.fields (copyOf m)])
  | .send => (m, [.fields (Rv7.getAsBytes m)])
  | .embed => (getWriter m, [.fields (getWriter m).wr])

def apiMsg (env : MsgEnv V) (origin : Origin V) : System (Msg V) (Call V) (Seen V) where
  init m := m = .new origin
  step m call emitted m' := m.call env call = (m', emitted)

end Sassrv.Rv7
