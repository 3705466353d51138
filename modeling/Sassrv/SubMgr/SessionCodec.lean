import Sassrv.Client.Connection
import Sassrv.Daemon.SessionNames
import Sassrv.SubMgr.Steps

/-! The name of a client's session, as the connection builds it and as the
subscription database reads it back. -/
namespace Sassrv.SubMgr
open Digits Daemon Partial

/-- The loops of `host_id_to_string`: the digits go in from the back. -/
def hexFromBack {w : Nat} : Nat → BitVec w → Text → Text
  | 0, _, str => str
  | k + 1, v, str => hexFromBack k (v >>> 4) (hexchar2 (v &&& 0xf).toNat :: str)

def hostIdToString (hostId : BitVec 32) (cid : BitVec 16) : Text :=
  hexFromBack 8 hostId [] ++ if cid = 0 then [] else [46, 85] ++ hexFromBack 4 cid []

/-- Where the queries for the sessions of a host go. -/
def daemonInbox (hostId : BitVec 32) (cid : BitVec 16) : Text :=
  text "_INBOX." ++ hostIdToString hostId cid ++ text ".DAEMON"

theorem hexFromBack_eq {w : Nat} (k : Nat) (v : BitVec w) (hWidth : 4 ≤ w) (str : Text) :
    hexFromBack k v str = (fixedDigits 16 k v.toNat).map hexchar2 ++ str := by
  induction k generalizing v str with
  | zero => rfl
  | succ k ih =>
      have hDigit : (v &&& 0xf).toNat = v.toNat % 16 := by
        have hMask : (0xf : BitVec w).toNat = 2 ^ 4 - 1 := by
          refine Nat.mod_eq_of_lt (lt_of_lt_of_le ?_ (Nat.pow_le_pow_right (by decide) hWidth))
          decide
        rw [BitVec.toNat_and, hMask, Nat.and_two_pow_sub_one_eq_mod]
      rw [hexFromBack, ih, fixedDigits_snoc, hDigit, BitVec.toNat_ushiftRight,
        Nat.shiftRight_eq_div_pow, List.map_append, List.append_assoc]
      rfl

theorem hexText_eq (digits v : Nat) :
    Client.hexText digits v = (fixedDigits 16 digits v).map hexchar2 := by
  rw [Client.hexText, fixedDigits_eq_range, List.map_map]
  rfl

theorem hexval_hexchar2 : ∀ d < 16, hexval (hexchar2 d) = BitVec.ofNat 32 d := by decide

/-- A digit and the digits below it. -/
theorem ofNat_or_digits (k n : Nat) :
    BitVec.ofNat 32 (n / 16 ^ k % 16) <<< (4 * k) ||| BitVec.ofNat 32 (n % 16 ^ k) =
      BitVec.ofNat 32 (n % 16 ^ (k + 1)) := by
  have hPow : (16 : Nat) ^ k = 2 ^ (4 * k) := by rw [pow_mul]; norm_num
  have hLow : n % 16 ^ k < 2 ^ (4 * k) := hPow ▸ Nat.mod_lt _ (by positivity)
  have hSum := Nat.shiftLeft_add_eq_or_of_lt hLow (n / 16 ^ k % 16)
  have hSplit : n % 16 ^ (k + 1) = (n / 16 ^ k % 16) <<< (4 * k) + n % 16 ^ k := by
    rw [Nat.mod_pow_succ, Nat.shiftLeft_eq, ← hPow, Nat.add_comm, Nat.mul_comm]
  rw [hSplit, hSum, BitVec.ofNat_or]
  congr 1
  refine BitVec.eq_of_toNat_eq ?_
  rw [BitVec.toNat_shiftLeft, BitVec.toNat_ofNat, BitVec.toNat_ofNat, Nat.shiftLeft_eq,
    Nat.shiftLeft_eq, Nat.mod_mul_mod]

/-- The loop of `string_to_host_id` and `string_to_cid` over printed digits. -/
theorem foldl_hexchar2 (k n i : Nat) (id : BitVec 32) :
    (((fixedDigits 16 k n).map hexchar2).zipIdx i).foldl
        (fun id c => id ||| hexval c.1 <<< (4 * (i + k - 1 - c.2))) id =
      id ||| BitVec.ofNat 32 (n % 16 ^ k) := by
  induction k generalizing i id with
  | zero => simp [fixedDigits, Nat.mod_one]
  | succ k ih =>
      have hShift : i + (k + 1) - 1 - i = k := by omega
      have hLimit : i + (k + 1) = i + 1 + k := by omega
      rw [fixedDigits, List.map_cons, List.zipIdx_cons, List.foldl_cons, hShift,
        hexval_hexchar2 _ (Nat.mod_lt _ (by decide)), hLimit, ih, BitVec.or_assoc, ofNat_or_digits]

theorem hexDigits_print (k n : Nat) (rest : Text) :
    hexDigits k ((fixedDigits 16 k n).map hexchar2 ++ rest) = BitVec.ofNat 32 (n % 16 ^ k) := by
  have hTake : ((fixedDigits 16 k n).map hexchar2 ++ rest).take k =
      (fixedDigits 16 k n).map hexchar2 := List.take_left' (by simp)
  have hFold := foldl_hexchar2 k n 0 0
  rw [Nat.zero_add] at hFold
  rw [hexDigits, hTake, hFold]
  exact BitVec.zero_or

theorem stringToHostId_print (ip : BitVec 32) (rest : Text) :
    stringToHostId ((fixedDigits 16 8 ip.toNat).map hexchar2 ++ rest) = .ok ip := by
  have hLong : ¬ ((fixedDigits 16 8 ip.toNat).map hexchar2 ++ rest).length < 8 := by simp
  have hAll : ip.toNat % 16 ^ 8 = ip.toNat := Nat.mod_eq_of_lt ip.isLt
  rw [stringToHostId, if_neg hLong, hexDigits_print, hAll, BitVec.ofNat_toNat, BitVec.setWidth_eq]

theorem stringToCid_print (cid : BitVec 16) (rest : Text) :
    stringToCid ((fixedDigits 16 4 cid.toNat).map hexchar2 ++ rest) = cid := by
  have hAll : cid.toNat % 16 ^ 4 = cid.toNat := Nat.mod_eq_of_lt cid.isLt
  rw [stringToCid, hexDigits_print, hAll]
  refine BitVec.eq_of_toNat_eq ?_
  rw [BitVec.toNat_setWidth, BitVec.toNat_ofNat,
    Nat.mod_eq_of_lt (cid.isLt.trans (by decide)), Nat.mod_eq_of_lt cid.isLt]

theorem hexchar2_ne_U : ∀ d < 16, hexchar2 d ≠ 85 := by decide

/-- The digits of a stamp are never read as a cid. -/
theorem timeToStr_no_U {ns : BitVec 64} {stamp : Text} (h : timeToStr ns = some stamp) :
    85 ∉ stamp := by
  obtain ⟨-, rfl⟩ := utimeToStr_eq_some.mp h
  intro hMem
  obtain ⟨d, hDigit, hU⟩ := List.mem_map.mp hMem
  exact hexchar2_ne_U d (Nat.digits_lt_base (by decide) (List.mem_reverse.mp hDigit)) hU

/-- The host part of the name is what `host_id_to_string` prints. -/
theorem sessionName_eq (env : Client.Env) (ipaddr : BitVec 32) (cid : BitVec 16) :
    Client.sessionName env ipaddr cid = hostIdToString ipaddr cid ++ [46] ++ env.stamp := by
  rw [Client.sessionName, hostIdToString, hexFromBack_eq 8 _ (by decide),
    hexFromBack_eq 4 _ (by decide), hexText_eq, hexText_eq]
  by_cases hCid : cid = 0
  · rw [if_pos hCid, if_pos hCid]
    simp
  · rw [if_neg hCid, if_neg hCid]
    simp

theorem stringToHostId_sessionName (env : Client.Env) (ipaddr : BitVec 32) (cid : BitVec 16) :
    stringToHostId (Client.sessionName env ipaddr cid) = .ok ipaddr := by
  rw [Client.sessionName, hexText_eq, List.append_assoc, List.append_assoc]
  exact stringToHostId_print ipaddr _

/-- Behind `<host>.U` stand the digits of the cid. -/
theorem stringToCid_sessionName (env : Client.Env) (ipaddr : BitVec 32) {cid : BitVec 16}
    (hCid : cid ≠ 0) : stringToCid ((Client.sessionName env ipaddr cid).drop 10) = cid := by
  have hHost : (Client.hexText 8 ipaddr.toNat).length = 8 := by simp [Client.hexText]
  have hRest : (Client.sessionName env ipaddr cid).drop 10 =
      (fixedDigits 16 4 cid.toNat).map hexchar2 ++ ([46] ++ env.stamp) := by
    rw [Client.sessionName, if_neg hCid, ← hexText_eq]
    simp [List.drop_append, hHost]
  rw [hRest, stringToCid_print]

theorem hostIdToString_length (hostId : BitVec 32) (cid : BitVec 16) :
    (hostIdToString hostId cid).length = if cid = 0 then 8 else 14 := by
  rw [hostIdToString, hexFromBack_eq 8 _ (by decide), hexFromBack_eq 4 _ (by decide)]
  split
  · simp
  · simp

theorem nameCid_sessionName {env : Client.Env} (hStamp : 85 ∉ env.stamp) (ipaddr : BitVec 32)
    (cid : BitVec 16) : nameCid 0 (Client.sessionName env ipaddr cid) = cid := by
  have hHost : (Client.hexText 8 ipaddr.toNat).length = 8 := by simp [Client.hexText]
  have hDigits : (Client.hexText 4 cid.toNat).length = 4 := by simp [Client.hexText]
  by_cases hCid : cid = 0
  · have hNinth : (Client.sessionName env ipaddr cid)[9]? ≠ some 85 := by
      intro h
      refine hStamp (List.mem_of_getElem? (i := 0) ?_)
      rw [← h, Client.sessionName, if_pos hCid]
      simp [List.getElem?_append, hHost]
    rw [nameCid, if_neg (by simp [hNinth]), hCid]
  · rw [nameCid, if_pos, stringToCid_sessionName env ipaddr hCid]
    rw [Client.sessionName, if_neg hCid]
    simp [List.getElem?_append, hHost, hDigits]
    omega

theorem nameCid_known {cid known : BitVec 16} {name : Text} (hName : nameCid 0 name = cid)
    (hKnown : known = 0 ∨ known = cid) : nameCid known name = cid := by
  rcases hKnown with rfl | rfl
  · exact hName
  · by_cases hZero : known = 0
    · rw [hZero] at hName ⊢
      exact hName
    · have hGiven : (known = 0) = False := eq_false hZero
      simp only [nameCid, hGiven, decide_false, Bool.false_and]
      rfl

/-- A session that is not live is entered under what its name says. -/
theorem sessionRef_eq {env : Env} {db : RvSubscriptionDB} {name : Text} {hostId : BitVec 32}
    {cid known : BitVec 16} (hHost : stringToHostId name = .ok hostId)
    (hCid : nameCid known name = cid) (hNew : isLive db name = false) :
    sessionRef env db known name = (do
      let (db, i) ← hostRef env db hostId cid false
      let db ← addSession env (startEntry db name hostId cid false none) i name
      return db.modifySession name fun s => { s with refMono := db.curMono }) := by
  rw [sessionRef, ensureOpen, hNew, if_neg (by decide), hCid, openSession, hHost]
  change (hostRef env db hostId cid false >>= fun r =>
    addSession env (startEntry r.1 name hostId cid false none) r.2 name) >>= _ = _
  rw [bind_assoc]

theorem sessionRef_entry {env : Env} {db db' : RvSubscriptionDB} {name : Text}
    {hostId : BitVec 32} {cid known : BitVec 16} (hHost : stringToHostId name = .ok hostId)
    (hCid : nameCid known name = cid) (hNew : isLive db name = false)
    (h : sessionRef env db known name = .ok db') :
    ∃ s, db'.sessionTab.find? name = some s ∧ s.hostId = hostId ∧ s.cid = cid := by
  rw [sessionRef_eq hHost hCid hNew] at h
  simp only [bind_eq_ok] at h
  obtain ⟨⟨dbRef, i⟩, -, dbAdd, hAdd, h⟩ := h
  cases h
  have hTab := addSession_sessionTab hAdd
  let s := RvSessionEntry.start name hostId cid (sessionId (dbRef.nextSessionCtr + 1))
    dbRef.curMono false none
  have hFind : dbAdd.sessionTab.find? name = some s := by
    rw [hTab]
    exact Table.find?_insert_self ..
  refine ⟨{ s with refMono := dbAdd.curMono }, ?_, rfl, rfl⟩
  rw [RvSubscriptionDB.modifySession, Table.find?_modify_self, hFind]
  rfl

/-- The name that `recv_info` builds is read back to the address and the cid it was
built from, by each of the readers, and starts with the host part of the inbox
that the queries for the session go to. -/
theorem recvInfo_session_codec (env : Client.Env) (ns : BitVec 64)
    (hStamp : timeToStr ns = some env.stamp) (c : Client.EvRvClient) (m : Client.Envelope)
    (init : Client.InitData) (ipaddr : BitVec 32) (ipport : BitVec 16) (gob : Text)
    (hResp : m.sub = text "RVD.INITRESP") (hInit : m.init = some init)
    (hAddr : init.ipaddr = some ipaddr) (hPort : init.ipport = some ipport)
    (hGob : init.gob = some gob) :
    let c' := (Client.recvInfo env c m).1
    let cid := init.cid.getD 0
    stringToHostId c'.session = .ok ipaddr ∧
    (cid ≠ 0 → stringToCid (c'.session.drop 10) = cid) ∧
    c'.session = hostIdToString ipaddr cid ++ [46] ++ env.stamp ∧
    daemonInbox ipaddr cid =
      text "_INBOX." ++ c'.session.take (if cid = 0 then 8 else 14) ++ text ".DAEMON" ∧
    ∀ known, known = 0 ∨ known = cid → nameCid known c'.session = cid ∧
      ∀ env db, isLive db c'.session = false →
        (sessionRef env db known c'.session = (do
          let (db, i) ← hostRef env db ipaddr cid false
          let db ← addSession env (startEntry db c'.session ipaddr cid false none) i c'.session
          return db.modifySession c'.session fun s => { s with refMono := db.curMono })) ∧
        ∀ db', sessionRef env db known c'.session = .ok db' →
          ∃ s, db'.sessionTab.find? c'.session = some s ∧ s.hostId = ipaddr ∧ s.cid = cid := by
  intro c' cid
  have hSession : c'.session = Client.sessionName env ipaddr cid := by
    obtain ⟨error, _, _, _, field⟩ := init
    cases hAddr
    cases hPort
    cases hGob
    simp only [c', Client.recvInfo, hResp, hInit, if_true]
    rfl
  have hHost := stringToHostId_sessionName env ipaddr cid
  have hName := nameCid_sessionName (timeToStr_no_U hStamp) ipaddr cid
  rw [hSession]
  refine ⟨hHost, stringToCid_sessionName env ipaddr, sessionName_eq env ipaddr cid, ?_, ?_⟩
  · have hTake : (hostIdToString ipaddr cid ++ ([46] ++ env.stamp)).take
        (if cid = 0 then 8 else 14) = hostIdToString ipaddr cid :=
      List.take_left' (hostIdToString_length ipaddr cid)
    rw [sessionName_eq, List.append_assoc (hostIdToString ipaddr cid), hTake]
    rfl
  · intro known hKnown
    have hRead := nameCid_known hName hKnown
    exact ⟨hRead, fun env db hNew =>
      ⟨sessionRef_eq hHost hRead hNew, fun db' h => sessionRef_entry hHost hRead hNew h⟩⟩

theorem recvInfo_session_codec_U :
    ∃ env : Client.Env, ∃ m : Client.Envelope,
      nameCid 0 (Client.recvInfo env {} m).1.session = 0xABCD := by
  let env : Client.Env :=
    { unpack := fun _ => .error 0
      unpack_short := fun _ _ => ⟨0, rfl⟩
      stamp := [53]
      bcastSubs := []
      listenSubs := []
      onConnect := []
      onPub := fun _ _ => [] }
  let init : Client.InitData :=
    { ipaddr := some 0x0A040416, ipport := some 0x1234, gob := some [], cid := some 0xABCD }
  let m : Client.Envelope := { mtype := .data, sub := text "RVD.INITRESP", init := some init }
  have hStamp : timeToStr 5000 = some [53] := by decide +kernel
  exact ⟨env, m, ((recvInfo_session_codec env 5000 hStamp {} m init 0x0A040416 0x1234 [] rfl rfl
    rfl rfl rfl).2.2.2.2 0 (.inl rfl)).1⟩

end Sassrv.SubMgr
