import Mathlib.Data.List.Basic

/-! The byte level of `submgr.cpp`: the advisory subjects, the hexadecimal host
ids and connection ids inside subjects and session names, inboxes, and the
wildcard functions of `ev_rv_client.h`. -/
namespace Sassrv.SubMgr

abbrev Text := List UInt8

instance : LawfulBEq Text := inferInstance

def text (s : String) : Text := s.toList.map fun c => UInt8.ofNat c.toNat

/-- What a call of the source can run into instead of returning. -/
inductive Fault where
  /-- The search loop of `host_ref` never exits. -/
  | freeSlot
  | nullPointer
  | outOfBounds
  /-- A `stop_marked_` loop has filled its arrays: it writes past them or never returns. -/
  | arraysFull
  deriving DecidableEq, Repr

abbrev Result := Except Fault

inductive SubKind where
  | hostStatus
  | hostStart
  | hostStop
  | unreachable
  | sessionStart
  | sessionStop
  | listenStart
  | listenStop
  | snap
  | sass
  | ticReply
  deriving DecidableEq, Repr

/-- `match->kind <= IS_SESSION_STOP`. -/
def SubKind.hasHostId : SubKind → Bool
  | .hostStatus => true
  | .hostStart => true
  | .hostStop => true
  | .unreachable => true
  | .sessionStart => true
  | .sessionStop => true
  | _ => false

structure SubMatch where
  sub : Text
  kind : SubKind

def SubMatch.len (m : SubMatch) : Nat := m.sub.length

def rvInfoSub : List SubMatch :=
  [⟨text "_RV.INFO.SYSTEM.HOST.STATUS.>", .hostStatus⟩,
   ⟨text "_RV.INFO.SYSTEM.HOST.START.>", .hostStart⟩,
   ⟨text "_RV.INFO.SYSTEM.HOST.STOP.>", .hostStop⟩,
   ⟨text "_RV.INFO.SYSTEM.UNREACHABLE.TRANSPORT.>", .unreachable⟩,
   ⟨text "_RV.INFO.SYSTEM.SESSION.START.>", .sessionStart⟩,
   ⟨text "_RV.INFO.SYSTEM.SESSION.STOP.>", .sessionStop⟩,
   ⟨text "_RV.INFO.SYSTEM.LISTEN.START.>", .listenStart⟩,
   ⟨text "_RV.INFO.SYSTEM.LISTEN.STOP.>", .listenStop⟩,
   ⟨text "_SNAP.>", .snap⟩,
   ⟨text "_SASS.>", .sass⟩,
   ⟨text "_TIC.REPLY.>", .ticReply⟩]

/-- The comparison covers the entry's text without its last character. -/
def matchRvInfo (sub : Text) : Option SubMatch :=
  rvInfoSub.find? fun m => m.len < sub.length && m.sub.dropLast.isPrefixOf sub

def hexval (c : UInt8) : BitVec 32 :=
  if 48 ≤ c && c ≤ 57 then BitVec.ofNat 32 (c.toNat - 48)
  else if 65 ≤ c && c ≤ 70 then BitVec.ofNat 32 (c.toNat - 65 + 10)
  else if 97 ≤ c && c ≤ 102 then BitVec.ofNat 32 (c.toNat - 97 + 10)
  else 0

def hexDigits (n : Nat) (str : Text) : BitVec 32 :=
  (str.take n).zipIdx.foldl (fun id c => id ||| hexval c.1 <<< (4 * (n - 1 - c.2))) 0

/-- Eight characters are read whatever the length of the text is. -/
def stringToHostId (str : Text) : Result (BitVec 32) :=
  if str.length < 8 then .error .outOfBounds else .ok (hexDigits 8 str)

def stringToCid (str : Text) : BitVec 16 := (hexDigits 4 str).setWidth 16

/-- The `cid` in a session name `<host>.Uxxxx.<rest>`, read when none is given. -/
def nameCid (cid : BitVec 16) (name : Text) : BitVec 16 :=
  if cid = 0 && 14 < name.length && name[8]? == some 46 && name[9]? == some 85 &&
      name[14]? == some 46 then stringToCid (name.drop 10)
  else cid

/-- A name without the one `'\0'` that may end it. -/
def stripNul (t : Text) : Text :=
  if t.getLast? = some 0 then t.dropLast else t

/-- The text up to its first `'\0'`, as `strlen` and `strcmp` see it. -/
def cstr (t : Text) : Text := t.takeWhile (· ≠ 0)

/-- `has_daemon` of a session name: `.DAEMON.` with more behind it. -/
def daemonName : Text → Bool
  | [] => false
  | c :: rest =>
      (8 < (c :: rest).length && (text ".DAEMON.").isPrefixOf (c :: rest)) || daemonName rest

/-- The session part of the reply inbox `_INBOX.<session>.<number>`. -/
def inboxSession (reply : Text) : Text :=
  if 7 < reply.length then
    ((reply.drop 7).reverse.dropWhile (· ≠ 46)).tail.reverse
  else []

def isRvWildcardFrom (segment : Bool) : Text → Bool
  | [] => false
  | w :: ws =>
      (w == 62 && segment && ws.isEmpty) ||
      (w == 42 && segment && (ws.isEmpty || ws.head? == some 46)) ||
      isRvWildcardFrom (w == 46) ws

def isRvWildcard (wild : Text) : Bool := isRvWildcardFrom true wild

def matchRvWildcardFrom (segment : Bool) : Text → Text → Bool
  | [], sub => sub.isEmpty
  | _ :: _, [] => false
  | w :: ws, s :: ss =>
      if w == 62 && segment && ws.isEmpty then true
      else if w == 42 && segment && (ws.isEmpty || ws.head? == some 46) then
        matchRvWildcardFrom false ws ((s :: ss).dropWhile (· ≠ 46))
      else if w ≠ s then false
      else matchRvWildcardFrom (w == 46) ws ss

def matchRvWildcard (wild sub : Text) : Bool := matchRvWildcardFrom true wild sub

end Sassrv.SubMgr
