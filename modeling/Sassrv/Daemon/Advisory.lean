import Sassrv.Daemon.Digest

/-! `RvFwdAdv::fwd`, the advisories of a daemon: one pass computes the sizes of
the subject and the reply, a second one writes them and finds the strings of the
message inside of them. -/
namespace Sassrv.Daemon

open SubMgr (Text text)

/-- The bytes that `append_string` takes for a string. -/
structure Slice where
  buf : Text
  off : Nat
  len : Nat

/-- The bytes lie in their buffer and the last one is the terminating NUL. -/
def Slice.Terminated (s : Slice) : Prop :=
  0 < s.len ∧ s.off + s.len ≤ s.buf.length ∧ s.buf[s.off + s.len - 1]? = some 0

/-- A text that is stored with a NUL behind it, all of it. -/
def cstring (t : Text) : Slice := ⟨t ++ [0], 0, t.length + 1⟩

/-- A string in an array of a connection: what has been written there and the length that is
kept for it. The array goes on at least to the byte behind that length. -/
structure Stored where
  bytes : Text
  len : Nat
  len_lt : len < bytes.length

theorem length_lt_nul (t : Text) : t.length < (t ++ [0]).length := by
  rw [List.length_append]
  exact Nat.lt_succ_self _

/-- `match_str`, and the length that `respond_info` keeps: `fsize - 1`, be the last byte of
the field a NUL or not. -/
def Stored.ofField (t : Text) : Stored :=
  ⟨t ++ [0], t.length - 1, (Nat.sub_le _ _).trans_lt (length_lt_nul t)⟩

/-- `get_session`, `get_userid` and the name of the daemon; nothing stored is the empty text. -/
def Stored.ofSocket (t : Text) : Stored := ⟨t ++ [0], t.length, length_lt_nul t⟩

/-- What is appended of it: the length and one byte. -/
def Stored.slice (s : Stored) : Slice := ⟨s.bytes, 0, s.len + 1⟩

/-- There is a NUL behind the length, if the string is appended at all. -/
def Stored.Ends (s : Stored) : Prop := s.len ≠ 0 → s.bytes[s.len]? = some 0

/-- Memory that is written from its start on. -/
structure CharBuf where
  size : Nat
  bytes : Text := []

def CharBuf.put (m : CharBuf) (t : Text) : CharBuf := { m with bytes := m.bytes ++ t }

def CharBuf.Fits (m : CharBuf) : Prop := m.bytes.length ≤ m.size

inductive RvAdv where
  | hostaddr | sn | os | ver | httpaddr | httpport | time | id | userid | rli | up | sub | refcnt
  | ms | bs | mr | br | ps | pr | rx | pm | idl | odl | ipport | service | network | irrs | orrs
  | tport | sessSuf | subdigest
  deriving DecidableEq

namespace RvAdv

def hostStart : List RvAdv :=
  [hostaddr, sn, os, ver, httpaddr, httpport, time, up, rli, ipport, service, network, subdigest]

def stats : List RvAdv := [ms, bs, mr, br, ps, pr, rx, pm, idl, odl, irrs, orrs]

def hostStatus : List RvAdv :=
  [hostaddr, sn, os, ver, httpaddr, httpport, time, up, rli] ++ stats ++
    [ipport, service, network, subdigest]

def hostStop : List RvAdv := [hostaddr, time]

def session : List RvAdv := [hostaddr, id, userid]

def hostCommon : List RvAdv := hostStart ++ hostStatus ++ hostStop ++ session

def listen : List RvAdv := [id, sub, refcnt]

def unreachable : List RvAdv := [tport, hostaddr, sessSuf]

end RvAdv

/-- `( flags & mask ) != 0` for a mask of several bits. -/
def anyOf (flags mask : List RvAdv) : Bool := flags.any fun a => decide (a ∈ mask)

structure RvHostStat where
  timeNs : Nat := 0
  ms : Nat := 0
  bs : Nat := 0
  mr : Nat := 0
  br : Nat := 0
  ps : Nat := 0
  pr : Nat := 0
  rx : Nat := 0
  pm : Nat := 0
  idl : Nat := 0
  odl : Nat := 0

/-- The host as the advisories see it. The session address has eight digits. -/
structure AdvHost where
  service : Text
  network : Text
  hasServicePrefix : Bool
  sessionIp : Text
  sessionIp_length : sessionIp.length = 8
  hostId : Text := []
  ver : Text := []
  hostIp : BitVec 32 := 0
  httpAddr : BitVec 32 := 0
  httpPort : BitVec 16 := 0
  ipport : BitVec 16 := 0
  startStamp : Nat := 0
  stat : RvHostStat := {}
  previousStat : RvHostStat × RvHostStat := ({}, {})
  digest : SubDigest := {}

structure RvFwdAdv where
  userid : Stored
  session : Stored
  subjPrefix : Text
  suffix : Text
  reply : Text
  refcnt : BitVec 32

inductive AdvValue where
  | string (s : Slice)
  | uint (n : Nat)
  | ipdata (n : Nat)
  | datetime (n : Nat)

structure AdvField where
  name : String
  value : AdvValue

/-- What an advisory hands to `forward_msg`, and the memory of both subjects. -/
structure Published where
  subj : CharBuf
  rsubj : Option CharBuf
  subject : Text
  fields : List AdvField

def serviceLen (host : AdvHost) : Nat := if host.hasServicePrefix then host.service.length + 2 else 0

/-- The first pass: the size of the subject. -/
def subjSize (host : AdvHost) (adv : RvFwdAdv) (flags : List RvAdv) : Nat :=
  let sublen := serviceLen host + adv.subjPrefix.length
  if RvAdv.sessSuf ∈ flags then sublen + (8 + 1 + adv.suffix.length)
  else if adv.suffix.length > 0 then sublen + adv.suffix.length
  else sublen + 8

def putService (host : AdvHost) (m : CharBuf) : CharBuf :=
  if host.hasServicePrefix then ((m.put [95]).put host.service).put [46] else m

/-- The second pass up to the NUL: the subject, the length of the service in it,
and where `tport` points to with `tportlen`. -/
def fillSubj (host : AdvHost) (adv : RvFwdAdv) (flags : List RvAdv) :
    CharBuf × Nat × Option (Nat × Nat) :=
  let subj := putService host { size := subjSize host adv flags + 1 }
  let prelen := subj.bytes.length
  let subj := subj.put adv.subjPrefix
  if RvAdv.sessSuf ∈ flags then
    let tport := subj.bytes.length
    let subj := ((subj.put host.sessionIp).put [46]).put adv.suffix
    (subj, prelen, some (tport, subj.bytes.length + 1 - tport))
  else if adv.suffix.length > 0 then (subj.put adv.suffix, prelen, none)
  else (subj.put host.sessionIp, prelen, none)

def fillReply (host : AdvHost) (adv : RvFwdAdv) : Option CharBuf :=
  if adv.reply.length ≠ 0 then
    let rsubj := putService host { size := serviceLen host + adv.reply.length + 1 }
    some ((rsubj.put adv.reply).put [0])
  else none

/-- `strchr` from an offset on. -/
def strchr (buf : Text) (off : Nat) (c : UInt8) : Option Nat :=
  let t := (buf.drop off).takeWhile (· ≠ 0)
  if c ∈ t then some (off + t.idxOf c) else none

def stringField (name : String) (s : Slice) : AdvField := ⟨name, .string s⟩

def uintField (name : String) (n : Nat) : AdvField := ⟨name, .uint n⟩

/-- The fields of the class, the source and the name. `_RV.<class>.SYSTEM.name` -/
def headFields (subj : Text) (prelen : Nat) : Option (List AdvField) := do
  let prelen := prelen + 4
  let sys ← strchr subj prelen 46
  let dot ← strchr subj (sys + 1) 46
  let nam := dot + 1
  let classLen := sys - prelen
  let classStr := if classLen < 8 then cstring ((subj.drop prelen).take classLen) else cstring (text "UNKN")
  return [stringField "ADV_CLASS" classStr, stringField "ADV_SOURCE" (cstring (text "SYSTEM")),
    stringField "ADV_NAME" ⟨subj, nam, subj.length - nam⟩]

/-- The first fields of the host. -/
def hostFields (host : AdvHost) (flags : List RvAdv) (now : Nat) : List AdvField :=
  let httpd := host.httpAddr ≠ 0 ∨ host.httpPort ≠ 0
  (if .hostaddr ∈ flags then
    ⟨"hostaddr", .ipdata host.hostIp.toNat⟩ ::
      if host.hostId.length > 0 then [stringField "hostid" (cstring host.hostId)] else []
    else []) ++
  (if .sn ∈ flags then [uintField "sn" 1] else []) ++
  (if .os ∈ flags then [uintField "os" 1] else []) ++
  (if .ver ∈ flags then [stringField "ver" (cstring host.ver)] else []) ++
  (if .httpaddr ∈ flags ∧ httpd then [⟨"httpaddr", .ipdata host.httpAddr.toNat⟩] else []) ++
  (if .httpport ∈ flags ∧ httpd then [⟨"httpport", .ipdata host.httpPort.toNat⟩] else []) ++
  (if .time ∈ flags then
    [⟨"time", .datetime (now / 1000000000 <<< 32 ||| now / 1000000 % 1000)⟩] else [])

/-- The fields of the session. Without `ADV_SESS_SUF` the pointer `tport` is
null. -/
def sessionFields (adv : RvFwdAdv) (flags : List RvAdv) (subj : Text) (tport : Option (Nat × Nat)) :
    List AdvField :=
  let tportStr : Slice :=
    match tport with
    | some (off, len) => ⟨subj, off, len + 1⟩
    | none => ⟨[], 0, 1⟩
  (if .id ∈ flags ∧ adv.session.len ≠ 0 then [stringField "id" adv.session.slice] else []) ++
  (if .userid ∈ flags ∧ adv.userid.len ≠ 0 then [stringField "userid" adv.userid.slice] else []) ++
  (if .tport ∈ flags then [stringField "tport" tportStr] else []) ++
  (if .sub ∈ flags ∧ adv.suffix.length ≠ 0 then [stringField "sub" (cstring adv.suffix)] else []) ++
  (if .refcnt ∈ flags then [uintField "refcnt" adv.refcnt.toNat] else [])

def statFields (stat : RvHostStat) (flags : List RvAdv) : List AdvField :=
  (if .ms ∈ flags then [uintField "ms" stat.ms] else []) ++
  (if .bs ∈ flags then [uintField "bs" stat.bs] else []) ++
  (if .mr ∈ flags then [uintField "mr" stat.mr] else []) ++
  (if .br ∈ flags then [uintField "br" stat.br] else []) ++
  (if .ps ∈ flags then [uintField "ps" stat.ps] else []) ++
  (if .pr ∈ flags then [uintField "pr" stat.pr] else []) ++
  (if .rx ∈ flags then [uintField "rx" stat.rx] else []) ++
  (if .pm ∈ flags then [uintField "pm" stat.pm] else []) ++
  (if .idl ∈ flags then [uintField "idl" stat.idl] else []) ++
  (if .odl ∈ flags then [uintField "odl" stat.odl] else [])

/-- The last fields of the host. -/
def statusFields (host : AdvHost) (flags : List RvAdv) (now : Nat) : List AdvField :=
  (if .up ∈ flags then [uintField "up" ((now - host.startStamp) / 1000000000 % 2 ^ 32)] else []) ++
  (if anyOf flags RvAdv.stats then statFields host.stat flags else []) ++
  (if .subdigest ∈ flags then
    [uintField "sc" host.digest.sc, uintField "sx" host.digest.sx.toNat] else []) ++
  (if .ipport ∈ flags ∧ host.ipport ≠ 0 then [⟨"ipport", .ipdata host.ipport.toNat⟩] else []) ++
  (if .service ∈ flags then [stringField "service" (cstring host.service)] else []) ++
  (if .network ∈ flags then [stringField "network" (cstring host.network)] else [])

/-- The counters that a status message reports become the previous ones. -/
def rollStats (host : AdvHost) (flags : List RvAdv) (now : Nat) : AdvHost :=
  if anyOf flags RvAdv.hostCommon ∧ anyOf flags RvAdv.stats then
    let stat := { host.stat with timeNs := now }
    { host with stat := stat, previousStat := (stat, host.previousStat.1) }
  else host

/-- `fwd`. There is no result when `strchr` finds no dot. -/
def fwd (host : AdvHost) (adv : RvFwdAdv) (flags : List RvAdv) (now : Nat) :
    Option (AdvHost × Published) := do
  let (subj, prelen, tport) := fillSubj host adv flags
  let sublen := subj.bytes.length
  let subj := subj.put [0]
  let common := anyOf flags RvAdv.hostCommon
  let head ← headFields subj.bytes prelen
  return (rollStats host flags now, {
    subj := subj
    rsubj := fillReply host adv
    subject := subj.bytes.take sublen
    fields := head ++ (if common then hostFields host flags now else []) ++
      sessionFields adv flags subj.bytes tport ++
      (if common then statusFields host flags now else []) })

/-- The advisories that are sent. -/
inductive Advisory where
  | hostStatus
  | hostStart
  | hostStop
  | sessionStart
  | sessionStop
  | listenStart
  | listenStop
  | unreachable
  deriving DecidableEq

namespace Advisory

/-- The name behind `_RV.INFO.SYSTEM.`. -/
def name : Advisory → Text
  | hostStatus => text "HOST.STATUS."
  | hostStart => text "HOST.START."
  | hostStop => text "HOST.STOP."
  | sessionStart => text "SESSION.START."
  | sessionStop => text "SESSION.STOP."
  | listenStart => text "LISTEN.START."
  | listenStop => text "LISTEN.STOP."
  | unreachable => text "UNREACHABLE.TRANSPORT."

def flags : Advisory → List RvAdv
  | hostStatus => RvAdv.hostStatus
  | hostStart => RvAdv.hostStart
  | hostStop => RvAdv.hostStop
  | sessionStart => RvAdv.session
  | sessionStop => RvAdv.session
  | listenStart => RvAdv.listen
  | listenStop => RvAdv.listen
  | unreachable => RvAdv.unreachable

def subjPrefix (a : Advisory) : Text := text "_RV.INFO.SYSTEM." ++ a.name

end Advisory

/-- Who an advisory speaks of. -/
structure About where
  userid : Stored
  session : Stored
  suffix : Text
  reply : Text
  refcnt : BitVec 32

def Advisory.adv (a : Advisory) (about : About) : RvFwdAdv :=
  { userid := about.userid, session := about.session, subjPrefix := a.subjPrefix
    suffix := about.suffix, reply := about.reply, refcnt := about.refcnt }

def servicePart (host : AdvHost) : Text :=
  if host.hasServicePrefix then 95 :: host.service ++ [46] else []

/-- What follows the prefix of a subject. -/
def subjTail (host : AdvHost) (suffix : Text) (flags : List RvAdv) : Text :=
  if RvAdv.sessSuf ∈ flags then host.sessionIp ++ 46 :: suffix
  else if suffix ≠ [] then suffix
  else host.sessionIp

def AdvField.Terminated (f : AdvField) : Prop := ∀ s, f.value = .string s → s.Terminated

/-- An advisory is published, neither subject is longer than its memory, every
string ends in its buffer, and the subject is the one of the flags. -/
def Formats (a : Advisory) (host : AdvHost) (about : About) (now : Nat) : Prop :=
  ∃ host' pub, fwd host (a.adv about) a.flags now = some (host', pub) ∧
    pub.subj.Fits ∧ (∀ m ∈ pub.rsubj, m.Fits) ∧ (∀ f ∈ pub.fields, f.Terminated) ∧
    pub.subject = servicePart host ++ a.subjPrefix ++ subjTail host about.suffix a.flags

variable {host : AdvHost} {adv : RvFwdAdv} {flags : List RvAdv} {a : Advisory} {about : About}

theorem serviceLen_eq (host : AdvHost) : serviceLen host = (servicePart host).length := by
  unfold serviceLen servicePart
  split
  · simp only [List.length_cons, List.length_append, List.length_nil]
  · rfl

theorem putService_eq (host : AdvHost) (size : Nat) :
    putService host { size := size } = { size := size, bytes := servicePart host } := by
  unfold putService servicePart CharBuf.put
  split
  · simp
  · rfl

/-- The two passes agree: what is written is the subject, of the size computed. -/
theorem fillSubj_eq (host : AdvHost) (adv : RvFwdAdv) (flags : List RvAdv) :
    fillSubj host adv flags =
      let start := servicePart host ++ adv.subjPrefix
      let subj := start ++ subjTail host adv.suffix flags
      (⟨subj.length + 1, subj⟩, (servicePart host).length,
        if RvAdv.sessSuf ∈ flags then some (start.length, subj.length + 1 - start.length) else none) := by
  have hIp := host.sessionIp_length
  unfold fillSubj subjSize subjTail
  dsimp only
  rw [putService_eq, serviceLen_eq]
  by_cases hSuf : RvAdv.sessSuf ∈ flags
  · simp only [if_pos hSuf, CharBuf.put, List.append_assoc, List.singleton_append, List.length_append,
      List.length_cons, hIp]
    have hSize : (servicePart host).length + adv.subjPrefix.length + (8 + 1 + adv.suffix.length) + 1 =
        (servicePart host).length + (adv.subjPrefix.length + (8 + (adv.suffix.length + 1))) + 1 := by omega
    rw [hSize]
  · simp only [if_neg hSuf]
    by_cases hSome : adv.suffix = []
    · simp [hSome, CharBuf.put, hIp, Nat.add_assoc]
    · have hPos := List.length_pos_of_ne_nil hSome
      simp [hSome, hPos, CharBuf.put, Nat.add_assoc]

theorem fillReply_fits (host : AdvHost) (adv : RvFwdAdv) : ∀ m ∈ fillReply host adv, m.Fits := by
  intro m hm
  unfold fillReply at hm
  dsimp only at hm
  rw [putService_eq, serviceLen_eq] at hm
  split at hm
  · cases hm
    simp [CharBuf.put, CharBuf.Fits]
    omega
  · cases hm

theorem strchr_eq (t w rest : Text) {c : UInt8} (hZero : c ≠ 0) (hNone : c ∉ w) (hNul : 0 ∉ w) :
    strchr (t ++ (w ++ c :: rest)) t.length c = some (t.length + w.length) := by
  have hTake : (w ++ c :: rest).takeWhile (· ≠ 0) = w ++ c :: rest.takeWhile (· ≠ 0) := by
    rw [List.takeWhile_append_of_pos, List.takeWhile_cons_of_pos (by simpa using hZero)]
    intro x hx
    simpa using fun hEq : x = 0 => hNul (hEq ▸ hx)
  unfold strchr
  rw [List.drop_left]
  dsimp only
  rw [hTake, if_pos (by simp), List.idxOf_append_of_notMem hNone, List.idxOf_cons_self, Nat.add_zero]

theorem cstring_terminated (t : Text) : (cstring t).Terminated := by
  refine ⟨Nat.succ_pos _, ?_, ?_⟩
  · simp [cstring]
  · simp [cstring]

theorem Stored.slice_terminated {s : Stored} : s.slice.Terminated ↔ s.bytes[s.len]? = some 0 := by
  have hEnd : 0 + (s.len + 1) - 1 = s.len := by omega
  simp only [Slice.Terminated, slice, hEnd]
  refine ⟨fun h => h.2.2, fun h => ⟨Nat.succ_pos _, ?_, h⟩⟩
  rw [Nat.zero_add]
  exact s.len_lt

/-- A string of a message ends where its length says if it came with its NUL. -/
theorem Stored.ofField_ends (t : Text) :
    (Stored.ofField t).Ends ↔ t.length ≤ 1 ∨ t.getLast? = some 0 := by
  by_cases hShort : t.length ≤ 1
  · refine iff_of_true (fun hLong => absurd ?_ hLong) (.inl hShort)
    exact Nat.sub_eq_zero_of_le hShort
  · have hLong : t.length - 1 ≠ 0 := by omega
    have hIn : t.length - 1 < t.length := by omega
    simp only [Stored.Ends, Stored.ofField, hShort, false_or, List.getLast?_eq_getElem?,
      List.getElem?_append_left hIn]
    exact ⟨fun h => h hLong, fun h _ => h⟩

theorem Stored.ofSocket_ends (t : Text) : (Stored.ofSocket t).Ends := by
  intro _
  rw [ofSocket, List.getElem?_concat_length]

/-- What a buffer holds from an offset up to its terminating NUL. -/
theorem suffix_terminated {t : Text} {off : Nat} (hIn : off ≤ t.length) :
    (Slice.mk (t ++ [0]) off (t.length + 1 - off)).Terminated := by
  refine ⟨by dsimp only; omega, by simp; omega, ?_⟩
  have hLast : off + (t.length + 1 - off) - 1 = t.length := by omega
  dsimp only
  rw [hLast]
  simp

/-- The class and the name of every advisory are found. -/
theorem headFields_eq (t rest : Text) (a : Advisory) :
    headFields (t ++ a.subjPrefix ++ rest ++ [0]) t.length =
      some [stringField "ADV_CLASS" (cstring (text "INFO")),
        stringField "ADV_SOURCE" (cstring (text "SYSTEM")),
        stringField "ADV_NAME" ⟨t ++ a.subjPrefix ++ rest ++ [0], t.length + 16,
          (t ++ a.subjPrefix ++ rest).length + 1 - (t.length + 16)⟩] := by
  obtain ⟨subj, hSubj⟩ : ∃ subj, subj = t ++ a.subjPrefix ++ rest ++ [0] := ⟨_, rfl⟩
  have hClass : subj = (t ++ text "_RV.") ++ (text "INFO" ++ 46 :: (text "SYSTEM." ++ a.name ++ rest ++ [0])) := by
    rw [hSubj, Advisory.subjPrefix]
    simp [text]
  have hName : subj = (t ++ text "_RV.INFO.") ++ (text "SYSTEM" ++ 46 :: (a.name ++ rest ++ [0])) := by
    rw [hSubj, Advisory.subjPrefix]
    simp [text]
  have hSys : strchr subj (t.length + 4) 46 = some (t.length + 8) := by
    have h := strchr_eq (t ++ text "_RV.") (text "INFO") (text "SYSTEM." ++ a.name ++ rest ++ [0])
      (c := 46) (by decide) (by decide) (by decide)
    rwa [← hClass, List.length_append] at h
  have hDot : strchr subj (t.length + 8 + 1) 46 = some (t.length + 15) := by
    have h := strchr_eq (t ++ text "_RV.INFO.") (text "SYSTEM") (a.name ++ rest ++ [0])
      (c := 46) (by decide) (by decide) (by decide)
    rwa [← hName, List.length_append] at h
  have hText : (subj.drop (t.length + 4)).take 4 = text "INFO" := by
    have hLength : t.length + 4 = (t ++ text "_RV.").length := by simp [text]
    rw [hClass, hLength, List.drop_left]
    rfl
  have hLength : subj.length = (t ++ a.subjPrefix ++ rest).length + 1 := by
    rw [hSubj, List.length_append, List.length_singleton]
  have hClassLen : t.length + 8 - (t.length + 4) = 4 := by omega
  rw [← hSubj, ← hLength]
  unfold headFields
  simp only [hSys, hDot, hClassLen, hText, Option.bind_eq_bind, Option.bind_some]
  rfl

/-- Every string of the fields ends in its buffer. -/
def AllTerminated (fields : List AdvField) : Prop := ∀ f ∈ fields, f.Terminated

@[simp] theorem allTerminated_nil : AllTerminated [] := by simp [AllTerminated]

@[simp] theorem allTerminated_cons (f : AdvField) (fs : List AdvField) :
    AllTerminated (f :: fs) ↔ f.Terminated ∧ AllTerminated fs := by simp [AllTerminated]

@[simp] theorem allTerminated_append (fs gs : List AdvField) :
    AllTerminated (fs ++ gs) ↔ AllTerminated fs ∧ AllTerminated gs := by
  simp [AllTerminated, or_imp, forall_and]

@[simp] theorem allTerminated_ite (p : Prop) [Decidable p] (fs : List AdvField) :
    AllTerminated (if p then fs else []) ↔ (p → AllTerminated fs) := by
  split <;> simp_all

@[simp] theorem stringField_terminated (name : String) (s : Slice) :
    (stringField name s).Terminated ↔ s.Terminated := by
  simp [AdvField.Terminated, stringField]

@[simp] theorem uintField_terminated (name : String) (n : Nat) : (uintField name n).Terminated := by
  simp [AdvField.Terminated, uintField]

@[simp] theorem ipdata_terminated (name : String) (n : Nat) : (AdvField.mk name (.ipdata n)).Terminated := by
  simp [AdvField.Terminated]

@[simp] theorem datetime_terminated (name : String) (n : Nat) :
    (AdvField.mk name (.datetime n)).Terminated := by
  simp [AdvField.Terminated]

theorem hostFields_terminated (host : AdvHost) (flags : List RvAdv) (now : Nat) :
    AllTerminated (hostFields host flags now) := by
  simp [hostFields, cstring_terminated]

theorem statusFields_terminated (host : AdvHost) (flags : List RvAdv) (now : Nat) :
    AllTerminated (statusFields host flags now) := by
  simp [statusFields, statFields, cstring_terminated]

/-- Of the strings of a session `tport` and the two that a client has sent may not end in
their buffers. -/
theorem sessionFields_terminated {subj : Text} {tport : Option (Nat × Nat)} :
    AllTerminated (sessionFields adv flags subj tport) ↔
      (RvAdv.id ∈ flags → adv.session.Ends) ∧ (RvAdv.userid ∈ flags → adv.userid.Ends) ∧
      (RvAdv.tport ∈ flags → Slice.Terminated
        (match tport with
          | some (off, len) => ⟨subj, off, len + 1⟩
          | none => ⟨[], 0, 1⟩)) := by
  simp [sessionFields, cstring_terminated, Stored.slice_terminated, Stored.Ends]

/-- `tportlen` counts the NUL already, and one byte more is appended. -/
theorem tport_overruns {t : Text} {off : Nat} (hIn : off ≤ t.length) :
    ¬ (Slice.mk (t ++ [0]) off (t.length + 1 - off + 1)).Terminated := by
  rintro ⟨-, hBounds, -⟩
  rw [List.length_append, List.length_singleton] at hBounds
  dsimp only at hBounds
  omega

/-- What `fwd` publishes. -/
theorem fwd_eq (a : Advisory) (host : AdvHost) (about : About) (now : Nat) :
    let start := servicePart host ++ a.subjPrefix
    let subj := start ++ subjTail host about.suffix a.flags
    ∃ head, AllTerminated head ∧
      fwd host (a.adv about) a.flags now = some (rollStats host a.flags now, {
        subj := ⟨subj.length + 1, subj ++ [0]⟩
        rsubj := fillReply host (a.adv about)
        subject := subj
        fields := head ++
          (if anyOf a.flags RvAdv.hostCommon then hostFields host a.flags now else []) ++
          sessionFields (a.adv about) a.flags (subj ++ [0])
            (if RvAdv.sessSuf ∈ a.flags then some (start.length, subj.length + 1 - start.length)
              else none) ++
          (if anyOf a.flags RvAdv.hostCommon then statusFields host a.flags now else []) }) := by
  intro start subj
  have hHead := headFields_eq (servicePart host) (subjTail host about.suffix a.flags) a
  have hName : (servicePart host).length + 16 ≤ subj.length := by
    simp [subj, start, Advisory.subjPrefix, text]
  refine ⟨[stringField "ADV_CLASS" (cstring (text "INFO")),
    stringField "ADV_SOURCE" (cstring (text "SYSTEM")),
    stringField "ADV_NAME" ⟨subj ++ [0], (servicePart host).length + 16,
      subj.length + 1 - ((servicePart host).length + 16)⟩], ?_, ?_⟩
  · simp only [allTerminated_cons, stringField_terminated]
    exact ⟨cstring_terminated _, cstring_terminated _, suffix_terminated hName, allTerminated_nil⟩
  · unfold fwd
    rw [fillSubj_eq]
    simp only [CharBuf.put, Advisory.adv]
    rw [hHead]
    simp only [Option.bind_eq_bind, Option.bind_some, Option.pure_def, List.take_left']
    rfl

/-- The strings of a client that an advisory appends end at their lengths. -/
structure About.Ends (about : About) (flags : List RvAdv) : Prop where
  session : RvAdv.id ∈ flags → about.session.Ends
  userid : RvAdv.userid ∈ flags → about.userid.Ends

/-- An advisory is well formatted if it has no `tport` field and if the client has sent its
session and user with a NUL at the end, where the advisory has them. -/
theorem formats_iff (a : Advisory) (host : AdvHost) (about : About) (now : Nat) :
    Formats a host about now ↔ a ≠ .unreachable ∧ about.Ends a.flags := by
  obtain ⟨head, hHead, hFwd⟩ := fwd_eq a host about now
  unfold Formats
  rw [hFwd]
  constructor
  · rintro ⟨_, _, hSame, -, -, hFields, -⟩
    cases hSame
    have hAll : AllTerminated _ := hFields
    simp only [allTerminated_append] at hAll
    obtain ⟨hSession, hUserid, hTport⟩ := sessionFields_terminated.mp hAll.1.2
    refine ⟨?_, hSession, hUserid⟩
    rintro rfl
    exact tport_overruns (by simp) (hTport (by decide))
  · rintro ⟨hOther, hSession, hUserid⟩
    have hNone : RvAdv.tport ∉ a.flags := by
      revert hOther
      cases a <;> decide
    refine ⟨_, _, rfl, ?_, fillReply_fits host _, ?_, rfl⟩
    · exact (List.length_append ..).le
    · change AllTerminated _
      simp only [allTerminated_append, allTerminated_ite]
      refine ⟨⟨⟨hHead, fun _ => hostFields_terminated host _ now⟩, ?_⟩,
        fun _ => statusFields_terminated host _ now⟩
      exact sessionFields_terminated.mpr ⟨hSession, hUserid, fun hTport => absurd hTport hNone⟩

/-- The advisory of an unreachable transport reads the byte behind its subject. -/
theorem unreachable_overruns :
    ¬ ∀ (a : Advisory) (host : AdvHost) (about : About) (now : Nat), Formats a host about now := by
  intro h
  let host : AdvHost := {
    service := [55, 53, 48, 48], network := [], hasServicePrefix := false
    sessionIp := List.replicate 8 48, sessionIp_length := List.length_replicate .. }
  let about : About := ⟨.ofField [117, 0], .ofField [115, 0], [97], [], 0⟩
  obtain ⟨_, _, hSame, -, -, hFields, -⟩ := h .unreachable host about 0
  obtain ⟨head, -, hFwd⟩ := fwd_eq .unreachable host about 0
  rw [hFwd] at hSame
  cases hSame
  have hAll : AllTerminated _ := hFields
  simp only [allTerminated_append] at hAll
  exact tport_overruns (by simp) ((sessionFields_terminated.mp hAll.1.2).2.2 (by decide))

end Sassrv.Daemon
