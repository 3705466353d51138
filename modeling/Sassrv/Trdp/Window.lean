import Mathlib.Data.List.Basic
import Mathlib.Data.BitVec
import Sassrv.Lib.Transition

/-! Embedding of the TRDP receive window: the header decoder, the saved
packet list with its merge loop, and the reassembly of concatenated rv
messages. The three unbounded loops take fuel. A loop that has not finished
when its fuel is spent yields `none`, so a call ends exactly when some fuel
gives a result. -/
namespace Sassrv.Trdp

abbrev Bytes := List (BitVec 8)

/-- One received datagram. The code trusts the length fields it decodes, so
it can read on into the receive buffer. `beyond` is what it then finds. -/
structure Datagram where
  bytes : Bytes
  beyond : Nat → BitVec 8

def Datagram.byte (d : Datagram) (i : Nat) : BitVec 8 :=
  d.bytes.getD i (d.beyond (i - d.bytes.length))

def Datagram.slice (d : Datagram) (off len : Nat) : Bytes :=
  (List.range len).map (fun i => d.byte (off + i))

/-- `get_u16<MD_BIG>` and `get_u32<MD_BIG>`. -/
def Datagram.getU16 (d : Datagram) (off : Nat) : BitVec 16 :=
  d.byte off ++ d.byte (off + 1)

def Datagram.getU32 (d : Datagram) (off : Nat) : BitVec 32 :=
  d.getU16 off ++ d.getU16 (off + 2)

structure TrdpTsid where
  srcAddr : BitVec 32
  srcId : BitVec 32
deriving DecidableEq

/-- The header union is kept as its `data` member. The fields `seqno`,
`data.seqno` and `nak.seqno_len` of the source are one and the same word. -/
structure TrdpHdr where
  magic : BitVec 32
  srcAddr : BitVec 32
  srcId : BitVec 32
  destAddr : BitVec 32
  pktType : BitVec 16
  status : BitVec 16
  seqno : BitVec 32 := 0
  totalLen : BitVec 32 := 0
  dataLen : BitVec 16 := 0
  fragNum : BitVec 16 := 0
deriving DecidableEq

def TrdpHdr.tsid (hdr : TrdpHdr) : TrdpTsid := ⟨hdr.srcAddr, hdr.srcId⟩

inductive PktType where
  | data | nak | spm | nakErr | p2pData | p2pSyn | p2pAck | p2pNak
  | other
deriving DecidableEq

/-- `type()` keeps the low byte of `pkt_type`. -/
def TrdpHdr.type (hdr : TrdpHdr) : PktType :=
  match (hdr.pktType &&& 0xff).toNat with
  | 1 => .data
  | 3 => .nak
  | 4 => .spm
  | 5 => .nakErr
  | 6 => .p2pData
  | 7 => .p2pSyn
  | 8 => .p2pAck
  | 9 => .p2pNak
  | _ => .other

def trdpHdrSize : Nat := 20
def trdpDataHdrSize : Nat := 32
def trdpMagic : BitVec 32 := 0x88fa6923

/-- `TrdpHdr::copy_in`. The result `none` is a return of false. -/
def TrdpHdr.copyIn (d : Datagram) : Option TrdpHdr :=
  if d.bytes.length < trdpHdrSize then none
  else if d.getU32 0 ≠ trdpMagic then none
  else
    let hdr : TrdpHdr :=
      { magic := d.getU32 0, srcAddr := d.getU32 4, srcId := d.getU32 8,
        destAddr := d.getU32 12, pktType := d.getU16 16, status := d.getU16 18 }
    match hdr.type with
    | .data =>
        if d.bytes.length < trdpDataHdrSize then none
        else some { hdr with
          seqno := d.getU32 20, totalLen := d.getU32 24,
          dataLen := d.getU16 28, fragNum := d.getU16 30 }
    | .other => some hdr
    | _ =>
        if d.bytes.length < trdpHdrSize + 4 then none
        else some { hdr with seqno := d.getU32 20 }

structure TrdpWindowPkt where
  monoTime : BitVec 64
  seqno : BitVec 32
  totalLen : BitVec 32
  dataLen : BitVec 16
  fragNum : BitVec 16
  data : Bytes
deriving DecidableEq

def TrdpWindowPkt.make (hdr : TrdpHdr) (data : Bytes) (ns : BitVec 64) : TrdpWindowPkt :=
  { monoTime := ns, seqno := hdr.seqno, totalLen := hdr.totalLen,
    dataLen := hdr.dataLen, fragNum := hdr.fragNum, data := data }

/-- The counters that only the statistics printer reads are left out. -/
structure TrdpWindow where
  tsid : TrdpTsid
  lastSeqno : BitVec 32 := 0
  lastRecvSeqno : BitVec 32 := 0
  saveSize : BitVec 32 := 0
  outputLen : BitVec 32 := 0
  outputOff : BitVec 32 := 0
  lostSeqno : BitVec 64 := 0
  repeatSeqno : BitVec 64 := 0
  reorderSeqno : BitVec 64 := 0
  nakCount : BitVec 64 := 0
  lastMonoTime : BitVec 64 := 0
  outputBuf : Bytes := []
  list : List TrdpWindowPkt := []
deriving DecidableEq

/-- The 32-bit difference read as a signed number. -/
def seqnoDiff (a b : BitVec 32) : Int := (a - b).toInt

def reliabilityNs : BitVec 64 := 1000000000

/-- The walk of `merge` to the first saved packet with a greater seqno. The
result `none` is the early return for a seqno that is already saved. -/
def insertSaved (x : TrdpWindowPkt) : List TrdpWindowPkt → Option (List TrdpWindowPkt)
  | [] => some [x]
  | p :: rest =>
      if p.seqno = x.seqno then none
      else if x.seqno < p.seqno then some (x :: p :: rest)
      else (insertSaved x rest).map (p :: ·)

/-- The inner `for` of `merge`. It walks from `x` over fragments with
consecutive seqnos, subtracting their lengths from `total`, until nothing is
left. Both the packet `y` that completes the message and the packet `x` at
which an incomplete walk stops are the last one walked over. -/
def fragmentRun (total : BitVec 32) (x : TrdpWindowPkt) :
    List TrdpWindowPkt → BitVec 32 × List TrdpWindowPkt
  | [] => (total, [])
  | y :: rest =>
      if y.seqno ≠ x.seqno + 1 then (total, [])
      else
        let total := total - y.dataLen.setWidth 32
        if total = 0 then (0, [y])
        else
          let (total, run) := fragmentRun total y rest
          (total, y :: run)

/-- One pass of the outer loop from `x`: what remains of its message and the
fragments after `x` that the pass walked over. -/
def messageRun (x : TrdpWindowPkt) (post : List TrdpWindowPkt) :
    BitVec 32 × List TrdpWindowPkt :=
  let total := x.totalLen - x.dataLen.setWidth 32
  if total = 0 then (0, []) else fragmentRun total x post

def dataSize (pkts : List TrdpWindowPkt) : BitVec 32 :=
  (pkts.map (fun p => p.dataLen.setWidth 32)).sum

def lastOf (x : TrdpWindowPkt) (run : List TrdpWindowPkt) : TrdpWindowPkt :=
  run.getLastD x

/-- The `do … while` of `merge`. The saved list is `pre ++ x :: post`. -/
def mergeLoop : Nat → TrdpWindow → List TrdpWindowPkt → List TrdpWindowPkt →
    TrdpWindowPkt → List TrdpWindowPkt → Option (TrdpWindow × List TrdpWindowPkt)
  | 0, _, _, _, _, _ => none
  | fuel + 1, w, ready, pre, x, post =>
      let (total, run) := messageRun x post
      let y := lastOf x run
      let rest := post.drop run.length
      if total = 0 then
        let popped := pre ++ x :: run
        let w := { w with
          list := rest, saveSize := w.saveSize - dataSize popped, lastSeqno := y.seqno }
        match rest with
        | [] => some (w, ready ++ popped)
        | z :: zs =>
            if z.seqno = w.lastSeqno + 1 then mergeLoop fuel w (ready ++ popped) [] z zs
            else some (w, ready ++ popped)
      else if y.seqno = w.lastSeqno + 1 then
        mergeLoop fuel w ready (pre ++ (x :: run).dropLast) y rest
      else some (w, ready)

/-- The packets missing before the list head are given up as lost. -/
def TrdpWindow.skipTo (w : TrdpWindow) (x : TrdpWindowPkt) : TrdpWindow :=
  let sdiff := seqnoDiff x.seqno (w.lastSeqno + 1)
  if sdiff ≠ 0 then
    { w with
      lostSeqno := w.lostSeqno + BitVec.ofNat 64 sdiff.natAbs
      lastSeqno := x.seqno - 1
      outputLen := 0 }
  else w

/-- `last_mono_time` becomes the arrival time of the last packet handed out. -/
def TrdpWindow.stampReady (w : TrdpWindow) (ready : List TrdpWindowPkt) : TrdpWindow :=
  match ready.getLast? with
  | some tl => { w with lastMonoTime := tl.monoTime }
  | none => w

/-- The part of `merge` after the packet is saved, `x` being the list head. -/
def TrdpWindow.mergeReady (fuel : Nat) (w : TrdpWindow) (x : TrdpWindowPkt)
    (post : List TrdpWindowPkt) (curMonoTime : BitVec 64) :
    Option (TrdpWindow × List TrdpWindowPkt) :=
  if seqnoDiff x.seqno (w.lastSeqno + 1) ≠ 0 ∧
      curMonoTime - w.lastMonoTime < reliabilityNs then some (w, [])
  else (mergeLoop fuel (w.skipTo x) [] [] x post).map
    fun (w, ready) => (w.stampReady ready, ready)

/-- The packet's bytes are counted when it is linked into the list. -/
def TrdpWindow.save (w : TrdpWindow) (hdr : TrdpHdr) (list : List TrdpWindowPkt) : TrdpWindow :=
  { w with list := list, saveSize := w.saveSize + hdr.dataLen.setWidth 32 }

/-- `TrdpWindow::merge`. The second component is the list it returns. A packet
that becomes the only one saved is not looked at further. -/
def TrdpWindow.merge (fuel : Nat) (w : TrdpWindow) (hdr : TrdpHdr) (data : Bytes)
    (curMonoTime : BitVec 64) : Option (TrdpWindow × List TrdpWindowPkt) :=
  match insertSaved (.make hdr data curMonoTime) w.list with
  | none => some ({ w with repeatSeqno := w.repeatSeqno + 1 }, [])
  | some [] => some (w.save hdr [], [])
  | some (x :: post) =>
      if w.list = [] then some (w.save hdr (x :: post), [])
      else (w.save hdr (x :: post)).mergeReady fuel x post curMonoTime

def rvMagic : BitVec 32 := 0x9955eeaa

/-- A big-endian word of a payload. The callers check the length first. -/
def wordAt (data : Bytes) (off : Nat) : BitVec 32 :=
  (data.getD off 0 ++ data.getD (off + 1) 0) ++
    (data.getD (off + 2) 0 ++ data.getD (off + 3) 0)

/-- The `for (;;)` of `output`. The second component collects the messages
passed to `recv_msg`. A bad magic changes nothing and goes round again. -/
def outputLoop : Nat → TrdpWindow → List Bytes → Bytes → Option (TrdpWindow × List Bytes)
  | 0, _, _, _ => none
  | fuel + 1, w, sent, data =>
      let magic := wordAt data 4
      let msgSize := wordAt data 0
      if magic = rvMagic then
        if msgSize.toNat ≤ data.length then
          let rest := data.drop msgSize.toNat
          let sent := sent ++ [data.take msgSize.toNat]
          if rest.length < 8 then some (w, sent) else outputLoop fuel w sent rest
        else
          some ({ w with
            outputOff := BitVec.ofNat 32 data.length, outputLen := msgSize,
            outputBuf := data }, sent)
      else outputLoop fuel w sent data

/-- `TrdpWindowDB::output` on the window's part of the state. Bytes that do
not fit the message being reassembled are dropped. -/
def TrdpWindow.output (fuel : Nat) (w : TrdpWindow) (data : Bytes) :
    Option (TrdpWindow × List Bytes) :=
  if w.outputLen ≠ 0 then
    if w.outputOff.toNat + data.length ≤ w.outputLen.toNat then
      let buf := w.outputBuf.take w.outputOff.toNat ++ data
      let off := w.outputOff + BitVec.ofNat 32 data.length
      if off = w.outputLen then
        some ({ w with outputBuf := buf, outputOff := 0, outputLen := 0 }, [buf])
      else some ({ w with outputBuf := buf, outputOff := off }, [])
    else some (w, [])
  else if 8 ≤ data.length then outputLoop fuel w [] data
  else some (w, [])

/-- The `while ( p != NULL )` of `process_msg` over the merged packets. -/
def TrdpWindow.outputAll (fuel : Nat) (w : TrdpWindow) :
    List TrdpWindowPkt → Option (TrdpWindow × List Bytes)
  | [] => some (w, [])
  | p :: rest => do
      let (w, sent) ← w.output fuel p.data
      let (w, more) ← w.outputAll fuel rest
      return (w, sent ++ more)

/-- A window whose clock is zero takes this packet as its first. -/
def TrdpWindow.sync (w : TrdpWindow) (hdr : TrdpHdr) (curMonoTime : BitVec 64) : TrdpWindow :=
  { w with
    lastSeqno := hdr.seqno, lastRecvSeqno := hdr.seqno, lastMonoTime := curMonoTime }

/-- The statistics kept for every later packet. -/
def TrdpWindow.note (w : TrdpWindow) (hdr : TrdpHdr) : TrdpWindow :=
  { w with
    lastRecvSeqno := hdr.seqno
    reorderSeqno := if seqnoDiff hdr.seqno w.lastRecvSeqno > 1 then w.reorderSeqno + 1
      else w.reorderSeqno }

/-- The branches of `process_msg` for a DATA packet. -/
inductive Route where
  | unsynced | first | repeated | merged | direct
deriving DecidableEq

def TrdpWindow.route (w : TrdpWindow) (hdr : TrdpHdr) : Route :=
  if w.lastMonoTime = 0 then
    if hdr.fragNum ≠ 0 then .unsynced else .first
  else
    let diff := seqnoDiff hdr.seqno w.lastSeqno
    if diff ≤ 0 then .repeated
    else if diff > 1 ∨ (diff = 1 ∧ hdr.totalLen ≠ hdr.dataLen.setWidth 32) then .merged
    else .direct

/-- The window's part of `process_msg` on a DATA packet. Besides the window
it yields the seqno and payload of every call of `output`, and the messages
these calls passed to `recv_msg`. -/
def TrdpWindow.recvData (fuel : Nat) (w : TrdpWindow) (hdr : TrdpHdr) (payload : Bytes)
    (curMonoTime : BitVec 64) :
    Option (TrdpWindow × List (BitVec 32 × Bytes) × List Bytes) :=
  match w.route hdr with
  | .unsynced => some (w, [], [])
  | .first => do
      let (w, sent) ← (w.sync hdr curMonoTime).output fuel payload
      return (w, [(hdr.seqno, payload)], sent)
  | .repeated => some ({ w.note hdr with repeatSeqno := w.repeatSeqno + 1 }, [], [])
  | .merged => do
      let (w, ready) ← (w.note hdr).merge fuel hdr payload curMonoTime
      let (w, sent) ← w.outputAll fuel ready
      return (w, ready.map (fun p => (p.seqno, p.data)), sent)
  | .direct => do
      let (w, sent) ← (w.note hdr).output fuel payload
      return ({ w with lastSeqno := w.lastSeqno + 1, lastMonoTime := curMonoTime },
        [(hdr.seqno, payload)], sent)

/-- The hash table that indexes `windows` by tsid is a search by tsid here.
`received` lists the messages copied to the connection by `recv_msg`. -/
structure TrdpWindowDB where
  windows : List TrdpWindow := []
  msgsRecv : BitVec 64 := 0
  outputBytes : BitVec 64 := 0
  received : List Bytes := []
deriving DecidableEq

/-- A window that is not in the table yet is pushed as zeroed memory. -/
def TrdpWindowDB.getWindow (db : TrdpWindowDB) (tsid : TrdpTsid) : TrdpWindow :=
  (db.windows.find? (fun w => w.tsid = tsid)).getD { tsid := tsid }

def TrdpWindowDB.setWindow (db : TrdpWindowDB) (w : TrdpWindow) : TrdpWindowDB :=
  if db.windows.any (fun v => v.tsid = w.tsid) then
    { db with windows := db.windows.map (fun v => if v.tsid = w.tsid then w else v) }
  else { db with windows := db.windows ++ [w] }

def TrdpWindowDB.recvMsgs (db : TrdpWindowDB) (sent : List Bytes) : TrdpWindowDB :=
  { db with
    msgsRecv := db.msgsRecv + BitVec.ofNat 64 sent.length
    received := db.received ++ sent }

/-- `TrdpWindowDB::process_msg`. The second component is the sequence of
`output` calls, each with the seqno its payload came under. -/
def TrdpWindowDB.processMsg (fuel : Nat) (db : TrdpWindowDB) (d : Datagram)
    (curMonoTime : BitVec 64) : Option (TrdpWindowDB × List (BitVec 32 × Bytes)) :=
  match TrdpHdr.copyIn d with
  | none => some (db, [])
  | some hdr =>
      match hdr.type with
      | .data => do
          let payload := d.slice trdpDataHdrSize hdr.dataLen.toNat
          let (w, handed, sent) ←
            (db.getWindow hdr.tsid).recvData fuel hdr payload curMonoTime
          let bytes := (handed.map (fun h => h.2.length)).sum
          let db := { (db.setWindow w).recvMsgs sent with
            outputBytes := db.outputBytes + BitVec.ofNat 64 bytes }
          return (db, handed)
      | .nak =>
          let w := db.getWindow hdr.tsid
          some (db.setWindow { w with nakCount := w.nakCount + 1 }, [])
      | _ => some (db, [])

def beBytes16 (x : BitVec 16) : Bytes := [x.extractLsb' 8 8, x.extractLsb' 0 8]

def beBytes32 (x : BitVec 32) : Bytes :=
  beBytes16 (x.extractLsb' 16 16) ++ beBytes16 (x.extractLsb' 0 16)

/-- The wire image of a DATA packet, with zeros behind it in the buffer. -/
def dataDatagram (tsid : TrdpTsid) (seqno totalLen : BitVec 32) (fragNum : BitVec 16)
    (payload : Bytes) : Datagram where
  bytes := beBytes32 trdpMagic ++ beBytes32 tsid.srcAddr ++ beBytes32 tsid.srcId ++
    beBytes32 0 ++ beBytes16 1 ++ beBytes16 0 ++ beBytes32 seqno ++ beBytes32 totalLen ++
    beBytes16 (BitVec.ofNat 16 payload.length) ++ beBytes16 fragNum ++ payload
  beyond := fun _ => 0

/-- A call of `process_msg` on a datagram at a clock value. -/
structure Arrival where
  datagram : Datagram
  curMonoTime : BitVec 64

/-- The system of completed `process_msg` calls from the empty database. -/
def trdpSystem : Transition.System TrdpWindowDB Arrival (BitVec 32 × Bytes) where
  init := fun db => db = {}
  step := fun db a handed db' =>
    ∃ fuel, db.processMsg fuel a.datagram a.curMonoTime = some (db', handed)

end Sassrv.Trdp
