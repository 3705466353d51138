import Sassrv.Lib.Partial
import Sassrv.SubMgr.Runs

/-! Which branch of `process_pub2` a message takes: the advisories are told by their
subjects, the replies to queries by the number at the end of their inbox. -/
namespace Sassrv.SubMgr
open Partial

/-! Advisories. -/

deriving instance DecidableEq for SubMatch

/-- The text of an entry without the `>` at its end. -/
def SubMatch.stem (m : SubMatch) : Text := m.sub.dropLast

/-- A character of a text that is passed with its length. -/
def charAt (t : Text) (i : Nat) : Result UInt8 :=
  match t[i]? with
  | none => .error .outOfBounds
  | some c => .ok c

/-- The inner loop of `match_rv_info`, which goes from a position back to the start. -/
def compareBack (sub entry : Text) : Nat → Result Bool
  | 0 => do
      let c ← charAt sub 0
      let d ← charAt entry 0
      return decide (c = d)
  | len + 1 => do
      let c ← charAt sub (len + 1)
      let d ← charAt entry (len + 1)
      if c ≠ d then return false else compareBack sub entry len

/-- `match_rv_info` with its reads of the subject. -/
def readRvInfo (sub : Text) : List SubMatch → Result (Option SubMatch)
  | [] => .ok none
  | m :: rest =>
      if m.len < sub.length then do
        let found ← compareBack sub m.sub (m.len - 2)
        if found then return some m else readRvInfo sub rest
      else readRvInfo sub rest

theorem charAt_eq {t : Text} {i : Nat} (h : i < t.length) : charAt t i = .ok t[i] := by
  unfold charAt
  rw [List.getElem?_eq_getElem h]

theorem compareBack_eq {sub entry : Text} {len : Nat} (hSub : len < sub.length)
    (hEntry : len < entry.length) :
    compareBack sub entry len = .ok (decide (sub.take (len + 1) = entry.take (len + 1))) := by
  have hTake : ∀ (t : Text) (n : Nat) (h : n < t.length), t.take (n + 1) = t.take n ++ [t[n]] := by
    intro t n h
    rw [List.take_add_one, List.getElem?_eq_getElem h, Option.toList_some]
  induction len with
  | zero =>
      rw [compareBack, charAt_eq hSub, charAt_eq hEntry, hTake sub 0 hSub, hTake entry 0 hEntry]
      simp [pure, Except.pure, bind, Except.bind]
  | succ len ih =>
      have hRest := ih (by omega) (by omega)
      have hIff : sub.take (len + 1 + 1) = entry.take (len + 1 + 1) ↔
          sub.take (len + 1) = entry.take (len + 1) ∧ sub[len + 1] = entry[len + 1] := by
        rw [hTake sub _ hSub, hTake entry _ hEntry]
        constructor
        · intro hEq
          have hParts := List.append_inj' hEq rfl
          exact ⟨hParts.1, (List.cons.inj hParts.2).1⟩
        · rintro ⟨hInit, hLast⟩
          rw [hInit, hLast]
      rw [compareBack, charAt_eq hSub, charAt_eq hEntry]
      simp only [bind, Except.bind, hRest, hIff]
      by_cases hSame : sub[len + 1] = entry[len + 1]
      · simp [hSame]
      · simp [hSame, pure, Except.pure]

/-- The loops compare the subject with the stem of an entry. -/
theorem readRvInfo_eq (sub : Text) {table : List SubMatch} (hLong : ∀ m ∈ table, 2 ≤ m.len) :
    readRvInfo sub table =
      .ok (table.find? fun m => m.len < sub.length && m.stem.isPrefixOf sub) := by
  induction table with
  | nil => rfl
  | cons m rest ih =>
      have hTwo : 2 ≤ m.sub.length := hLong m List.mem_cons_self
      have hRest := ih fun x hx => hLong x (List.mem_cons_of_mem _ hx)
      rw [readRvInfo, List.find?_cons, hRest]
      by_cases hLen : m.len < sub.length
      · have hSub : m.sub.length < sub.length := hLen
        have hStem : m.stem = m.sub.take (m.len - 2 + 1) := by
          rw [SubMatch.stem, List.dropLast_eq_take]
          congr 1
          unfold SubMatch.len
          omega
        have hCompare : compareBack sub m.sub (m.len - 2) =
            .ok (decide (sub.take (m.len - 2 + 1) = m.sub.take (m.len - 2 + 1))) :=
          compareBack_eq (by unfold SubMatch.len; omega) (by unfold SubMatch.len; omega)
        have hPrefix : m.stem.isPrefixOf sub =
            decide (sub.take (m.len - 2 + 1) = m.sub.take (m.len - 2 + 1)) := by
          rw [Bool.eq_iff_iff, List.isPrefixOf_iff_prefix, decide_eq_true_iff, hStem,
            List.prefix_iff_eq_take, List.length_take]
          rw [Nat.min_eq_left (by unfold SubMatch.len; omega)]
          exact eq_comm
        rw [if_pos hLen, hCompare, hPrefix]
        simp only [hLen, decide_true, Bool.true_and, bind, Except.bind]
        split <;> simp_all [pure, Except.pure]
      · rw [if_neg hLen]
        simp [hLen]

/-- The model of `match_rv_info` that the database uses reads what the loops read. -/
theorem readRvInfo_matchRvInfo (sub : Text) : readRvInfo sub rvInfoSub = .ok (matchRvInfo sub) :=
  readRvInfo_eq sub (by decide)

/-- No stem starts another. -/
theorem stem_unique {m m' : SubMatch} {sub : Text} (hm : m ∈ rvInfoSub) (hm' : m' ∈ rvInfoSub)
    (h : m.stem <+: sub) (h' : m'.stem <+: sub) : m = m' := by
  have hTable : ∀ m ∈ rvInfoSub, ∀ m' ∈ rvInfoSub, m.stem <+: m'.stem → m = m' := by
    decide
  rcases List.prefix_or_prefix_of_prefix h h' with hFirst | hSecond
  · exact hTable m hm m' hm' hFirst
  · exact (hTable m' hm' m hm hSecond).symm

/-- What an advisory subject is to be recognized as: the entry whose stem it goes on
from, and no entry otherwise. -/
structure Recognized (sub : Text) : Prop where
  known : ∀ m ∈ rvInfoSub, ∀ rest, rest ≠ [] → sub = m.stem ++ rest →
    readRvInfo sub rvInfoSub = .ok (some m)
  unknown : (∀ m ∈ rvInfoSub, ∀ rest, rest ≠ [] → sub ≠ m.stem ++ rest) →
    readRvInfo sub rvInfoSub = .ok none
  inBounds : ∃ result, readRvInfo sub rvInfoSub = .ok result

theorem matchRvInfo_eq_some {sub : Text} {m : SubMatch} (h : matchRvInfo sub = some m) :
    m ∈ rvInfoSub ∧ m.len < sub.length ∧ m.stem <+: sub := by
  have hMem := List.mem_of_find?_eq_some h
  have hTest := List.find?_some h
  rw [Bool.and_eq_true, List.isPrefixOf_iff_prefix, decide_eq_true_iff] at hTest
  exact ⟨hMem, hTest.1, hTest.2⟩

theorem matchRvInfo_of_long {m : SubMatch} {rest : Text} (hm : m ∈ rvInfoSub)
    (hRest : 2 ≤ rest.length) : matchRvInfo (m.stem ++ rest) = some m := by
  have hLength : ∀ m ∈ rvInfoSub, m.stem.length + 1 = m.len := by decide
  have hLen : m.len < (m.stem ++ rest).length := by
    rw [List.length_append, ← hLength m hm]
    omega
  cases hMatch : matchRvInfo (m.stem ++ rest) with
  | none =>
      have hNot := List.find?_eq_none.mp hMatch m hm
      have hStem : m.sub.dropLast.isPrefixOf (m.stem ++ rest) = true :=
        List.isPrefixOf_iff_prefix.mpr (List.prefix_append _ _)
      rw [hStem, Bool.and_true, decide_eq_true_iff] at hNot
      exact absurd hLen hNot
  | some m' =>
      obtain ⟨hm', -, hStem⟩ := matchRvInfo_eq_some hMatch
      rw [stem_unique hm' hm hStem (List.prefix_append _ _)]

/-- The guard on the length wants two characters behind the stem. -/
theorem recognized_iff (sub : Text) :
    Recognized sub ↔ ∀ m ∈ rvInfoSub, ∀ c, sub ≠ m.stem ++ [c] := by
  constructor
  · rintro h m hm c rfl
    have hKnown := h.known m hm [c] (by simp) rfl
    rw [readRvInfo_matchRvInfo, Except.ok.injEq] at hKnown
    have hLong := (matchRvInfo_eq_some hKnown).2.1
    have hLength : ∀ m ∈ rvInfoSub, m.stem.length + 1 = m.len := by decide
    rw [List.length_append, List.length_singleton, hLength m hm] at hLong
    omega
  · intro h
    constructor
    case known =>
      rintro m hm rest hRest rfl
      rw [readRvInfo_matchRvInfo, Except.ok.injEq]
      apply matchRvInfo_of_long hm
      match rest, hRest with
      | [c], _ => exact absurd rfl (h m hm c)
      | _ :: _ :: _, _ => simp
    case unknown =>
      intro hNone
      rw [readRvInfo_matchRvInfo, Except.ok.injEq]
      cases hMatch : matchRvInfo sub with
      | none => rfl
      | some m =>
          obtain ⟨hm, hLen, rest, rfl⟩ := matchRvInfo_eq_some hMatch
          have hLength : ∀ m ∈ rvInfoSub, m.stem.length + 1 = m.len := by decide
          rw [List.length_append, ← hLength m hm] at hLen
          have hRest : rest ≠ [] := by
            rintro rfl
            rw [List.length_nil] at hLen
            omega
          exact absurd rfl (hNone m hm rest hRest)
    case inBounds => exact ⟨_, readRvInfo_matchRvInfo sub⟩

/-- A snapshot request for a subject of one character is not seen. -/
theorem not_recognized_short : ¬ Recognized (text "_SNAP.A") ∧
    matchRvInfo (text "_SNAP.A") = none := by
  refine ⟨fun h => ?_, by decide⟩
  have hKnown := h.known ⟨text "_SNAP.>", .snap⟩ (by decide) [65] (by simp) (by decide)
  rw [readRvInfo_matchRvInfo, Except.ok.injEq] at hKnown
  have hNone : matchRvInfo (text "_SNAP.A") = none := by decide
  cases hNone.symm.trans hKnown

/-! Replies to queries. -/

/-- What `make_inbox` writes in front of the number. -/
def inboxControl (env : Env) : Text :=
  text "_INBOX." ++ (if env.session = [] then [] else env.session ++ [46])

def makeInbox (env : Env) (uint32ToString : BitVec 32 → Text) (num : BitVec 32) : Text :=
  inboxControl env ++ uint32ToString num

/-- A number that is written in decimal and read back as it was. -/
structure Decimal (env : Env) (uint32ToString : BitVec 32 → Text) (num : BitVec 32) : Prop where
  digit : ∃ c rest, uint32ToString num = c :: rest ∧ 48 ≤ c ∧ c ≤ 57
  inverse : env.stringToUint64 (uint32ToString num) = num.setWidth 64

/-- The branch of `process_pub2` for a query reply, with its `i`. -/
inductive ReplyBranch where
  | host (i : Nat)
  | session (sessId : BitVec 32)
  deriving DecidableEq

def replyBranch (env : Env) (subject : Text) : Option ReplyBranch :=
  let which := isInbox env subject
  if which = 0 ∨ (which < sessionInboxBase ∧ which < hostInboxBase) then none
  else if hostInboxBase ≤ which then some (.host ((which - hostInboxBase).setWidth 32).toNat)
  else some (.session ((which - sessionInboxBase).setWidth 32))

/-- A message that is no advisory goes to the branch of its inbox, or nowhere. -/
theorem processPub2_reply (env : Env) (db : RvSubscriptionDB) (curMono : BitVec 32)
    {subject reply : Text} (m : Fields) (hInbox : matchRvInfo subject = none) :
    processPub2 env db curMono ⟨subject, reply, .fields m⟩ =
      match replyBranch env subject with
      | none => .ok db
      | some (.host i) => hostReply env { db with curMono := curMono } i m.items
      | some (.session sessId) => sessionReply env { db with curMono := curMono } sessId m.items := by
  unfold processPub2 replyBranch queryReply
  rw [hInbox]
  dsimp only
  split
  · rfl
  · split <;> rfl

theorem matchRvInfo_inbox (t : Text) : matchRvInfo (text "_INBOX." ++ t) = none := by
  cases hMatch : matchRvInfo (text "_INBOX." ++ t) with
  | none => rfl
  | some m =>
      obtain ⟨hm, -, hStem⟩ := matchRvInfo_eq_some hMatch
      have hSecond : ∀ m ∈ rvInfoSub, (m.stem.take 2).length = 2 ∧ m.stem.take 2 ≠ [95, 73] := by
        decide
      have hTake : (m.stem.take 2) <+: [95, 73] := by
        have hTwo : (text "_INBOX." ++ t).take 2 = [95, 73] := rfl
        rw [← hTwo]
        exact hStem.take 2
      obtain ⟨hLength, hNe⟩ := hSecond m hm
      exact absurd (hTake.eq_of_length hLength) hNe

theorem isInbox_makeInbox {env : Env} {uint32ToString : BitVec 32 → Text} {num : BitVec 32}
    (h : Decimal env uint32ToString num) :
    isInbox env (makeInbox env uint32ToString num) = num.setWidth 64 := by
  obtain ⟨c, rest, hString, hLow, hHigh⟩ := h.digit
  have hDrop : (makeInbox env uint32ToString num).drop (inboxControl env).length = c :: rest := by
    rw [makeInbox, List.drop_left, hString]
  have hControl : (inboxControl env).isPrefixOf (makeInbox env uint32ToString num) = true :=
    List.isPrefixOf_iff_prefix.mpr (List.prefix_append _ _)
  have hInverse := h.inverse
  rw [hString] at hInverse
  rw [inboxControl] at hDrop hControl
  simp only [isInbox, hDrop]
  rw [if_pos ⟨hLow, hHigh, hControl⟩, hInverse]

/-- The branch by the number, which was written as 32 bits. -/
theorem replyBranch_makeInbox {env : Env} {uint32ToString : BitVec 32 → Text} {num : BitVec 32}
    (h : Decimal env uint32ToString num) :
    replyBranch env (makeInbox env uint32ToString num) =
      if num.toNat < 1000 then none
      else if 1000000 ≤ num.toNat then some (.host (num.toNat - 1000000))
      else some (.session (num - 1000)) := by
  have hWide : (num.setWidth 64).toNat = num.toNat := by
    rw [BitVec.toNat_setWidth]
    exact Nat.mod_eq_of_lt (by omega)
  unfold replyBranch
  rw [isInbox_makeInbox h]
  by_cases hLow : num.toNat < 1000
  · rw [if_pos hLow, if_pos]
    refine .inr ⟨?_, ?_⟩
    · rw [BitVec.lt_def, hWide]
      exact hLow
    · rw [BitVec.lt_def, hWide]
      exact hLow.trans (by decide)
  · have hNot : ¬ (num.setWidth 64 = 0 ∨
        (num.setWidth 64 < sessionInboxBase ∧ num.setWidth 64 < hostInboxBase)) := by
      rintro (hZero | ⟨hLess, -⟩)
      · rw [hZero] at hWide
        exact hLow (by rw [← hWide]; decide)
      · rw [BitVec.lt_def, hWide] at hLess
        exact hLow hLess
    rw [if_neg hLow, if_neg hNot]
    have hSide : hostInboxBase ≤ num.setWidth 64 ↔ 1000000 ≤ num.toNat := by
      rw [BitVec.le_def, hWide]
      exact Iff.rfl
    by_cases hHigh : 1000000 ≤ num.toNat
    · have hIndex : ((num.setWidth 64 - hostInboxBase).setWidth 32).toNat = num.toNat - 1000000 := by
        have hBase : hostInboxBase.toNat = 1000000 := rfl
        rw [BitVec.toNat_setWidth, BitVec.toNat_sub, hWide, hBase]
        omega
      rw [if_pos hHigh, if_pos (hSide.mpr hHigh), hIndex]
    · have hId : (num.setWidth 64 - sessionInboxBase).setWidth 32 = num - 1000#32 := by
        have hBase : sessionInboxBase.toNat = 1000 := rfl
        have hSmall : (1000#32).toNat = 1000 := rfl
        apply BitVec.eq_of_toNat_eq
        rw [BitVec.toNat_setWidth, BitVec.toNat_sub, BitVec.toNat_sub, hWide, hBase, hSmall]
        omega
      rw [if_neg hHigh, if_neg (mt hSide.mp hHigh), hId]
      rfl

/-- Session ids and host indexes share the numbers of the inboxes, with 999000 numbers
between the two bases. -/
theorem query_reply_branch (env : Env) (uint32ToString : BitVec 32 → Text) (sessId : BitVec 32)
    (i : Nat) (hSession : Decimal env uint32ToString (sessId + sessionInboxBase.setWidth 32))
    (hHost : Decimal env uint32ToString (BitVec.ofNat 32 i + hostInboxBase.setWidth 32)) :
    (∀ db curMono subject reply m, matchRvInfo subject = none →
      processPub2 env db curMono ⟨subject, reply, .fields m⟩ =
        match replyBranch env subject with
        | none => .ok db
        | some (.host i) => hostReply env { db with curMono := curMono } i m.items
        | some (.session id) => sessionReply env { db with curMono := curMono } id m.items) ∧
    (∀ num, matchRvInfo (makeInbox env uint32ToString num) = none) ∧
    (replyBranch env (makeInbox env uint32ToString (sessId + sessionInboxBase.setWidth 32)) =
        some (.session sessId) ↔ sessId.toNat < 999000) ∧
    (replyBranch env (makeInbox env uint32ToString (BitVec.ofNat 32 i + hostInboxBase.setWidth 32)) =
        some (.host i) ↔ i + 1000000 < 2 ^ 32) := by
  refine ⟨?_, ?_, ?_, ?_⟩
  · intro db curMono subject reply m hInbox
    exact processPub2_reply env db curMono m hInbox
  · intro num
    rw [makeInbox, inboxControl, List.append_assoc]
    exact matchRvInfo_inbox _
  · have hNum : (sessId + sessionInboxBase.setWidth 32).toNat = (sessId.toNat + 1000) % 2 ^ 32 :=
      BitVec.toNat_add _ _
    have hBack : sessId + sessionInboxBase.setWidth 32 - 1000 = sessId :=
      BitVec.add_sub_cancel sessId 1000#32
    rw [replyBranch_makeInbox hSession, hNum, hBack]
    have hLt := sessId.isLt
    split
    · simp
      omega
    · split
      · simp
        omega
      · simp
        omega
  · have hNum : (BitVec.ofNat 32 i + hostInboxBase.setWidth 32).toNat =
        (i % 2 ^ 32 + 1000000) % 2 ^ 32 := BitVec.toNat_add _ _
    rw [replyBranch_makeInbox hHost, hNum]
    split
    · simp
      omega
    · split
      · simp
        omega
      · simp
        omega

def decimalText (num : BitVec 32) : Text :=
  (Nat.toDigits 10 num.toNat).map fun c => UInt8.ofNat c.toNat

theorem query_reply_branch_seven :
    replyBranch sampleEnv (makeInbox sampleEnv decimalText 1007) = some (.session 7) ∧
    replyBranch sampleEnv (makeInbox sampleEnv decimalText 1000003) = some (.host 3) := by
  have hSession : Decimal sampleEnv decimalText (7 + sessionInboxBase.setWidth 32) :=
    ⟨⟨49, text "007", by decide, by decide, by decide⟩, by decide⟩
  have hHost : Decimal sampleEnv decimalText (BitVec.ofNat 32 3 + hostInboxBase.setWidth 32) :=
    ⟨⟨49, text "000003", by decide, by decide, by decide⟩, by decide⟩
  have hBoth := query_reply_branch sampleEnv decimalText 7 3 hSession hHost
  exact ⟨hBoth.2.2.1.mpr (by decide), hBoth.2.2.2.mpr (by decide)⟩

/-! A session that is started over and over: every start takes the next id. -/

def sampleStarting : EvPublish where
  subject := text "_RV.INFO.SYSTEM.SESSION.START.0A000001"
  body := .fields { id := some (text "0A000001.X") }

/-- One host, which is up and has a table. -/
def OneHost (db : RvSubscriptionDB) : Prop :=
  ∃ host ht, db.hostTab = [host] ∧ host.state = .start ∧ host.sessHt = some ht

/-- The host is up, and the session was started `n` times. -/
structure StartedTimes (n : Nat) (db : RvSubscriptionDB) : Prop where
  hosts : OneHost db
  index : db.hostHt.find? 0x0A000001#32 = some 0
  session : ∃ s, db.sessionTab.find? (text "0A000001.X") = some s ∧ s.subHt = some .empty ∧
    s.state ≠ .stop ∧ s.sessionId = sessionId n
  ctr : db.nextSessionCtr = n

theorem processPub2_starting (db : RvSubscriptionDB) (curMono : BitVec 32) :
    processPub2 sampleEnv db curMono sampleStarting =
      sessionStart sampleEnv { db with curMono := curMono } 0x0A000001#32 0 (text "0A000001.X") false
        none := by
  have hMatch : matchRvInfo sampleStarting.subject =
      some ⟨text "_RV.INFO.SYSTEM.SESSION.START.>", .sessionStart⟩ := by decide
  unfold processPub2
  rw [hMatch]
  rfl

theorem OneHost.unlink {db : RvSubscriptionDB} {name : Text} {s : RvSessionEntry} (h : OneHost db)
    (hSess : db.sessionTab.find? name = some s) :
    ∃ db', unlinkSession db 0 name = .ok db' ∧ OneHost db' ∧ db'.hostHt = db.hostHt ∧
      db'.nextSessionCtr = db.nextSessionCtr := by
  obtain ⟨host, ht, hHosts, hState, hTable⟩ := h
  have hHost : db.hostAt 0 = .ok host := by simp [RvSubscriptionDB.hostAt, hHosts]
  have hFound : db.sessionAt name = .ok s := by simp [RvSubscriptionDB.sessionAt, hSess]
  simp only [unlinkSession, hHost, hFound, hTable, bind, Except.bind, pure, Except.pure]
  split
  · refine ⟨_, rfl, ?_, rfl, rfl⟩
    simp [OneHost, RvSubscriptionDB.modifyHost, hHosts, hState]
  · exact ⟨db, rfl, ⟨host, ht, hHosts, hState, hTable⟩, rfl, rfl⟩

theorem OneHost.add (env : Env) {db : RvSubscriptionDB} {name : Text} {s : RvSessionEntry}
    (h : OneHost db) (hSess : db.sessionTab.find? name = some s) :
    ∃ db', addSession env db 0 name = .ok db' ∧ OneHost db' ∧ db'.hostHt = db.hostHt ∧
      db'.nextSessionCtr = db.nextSessionCtr ∧ db'.sessionTab = db.sessionTab := by
  obtain ⟨host, ht, hHosts, hState, hTable⟩ := h
  have hHost : db.hostAt 0 = .ok host := by simp [RvSubscriptionDB.hostAt, hHosts]
  have hFound : db.sessionAt name = .ok s := by simp [RvSubscriptionDB.sessionAt, hSess]
  simp only [addSession, hHost, hFound, hTable, bind, Except.bind, pure, Except.pure]
  split
  · exact ⟨db, rfl, ⟨host, ht, hHosts, hState, hTable⟩, rfl, rfl, rfl⟩
  · refine ⟨_, rfl, ?_, rfl, rfl, rfl⟩
    simp [OneHost, RvSubscriptionDB.modifyHost, hHosts, hState]

theorem StartedTimes.dropLive {n : Nat} {db : RvSubscriptionDB} (h : StartedTimes n db) :
    ∃ db', dropLive sampleEnv db 0 (text "0A000001.X") = .ok db' ∧ OneHost db' ∧
      db'.hostHt = db.hostHt ∧ db'.nextSessionCtr = db.nextSessionCtr := by
  obtain ⟨s, hSess, hHt, hLive, hId⟩ := h.session
  have hIsLive : isLive db (text "0A000001.X") = true := by simp [isLive, hSess, hLive]
  have hNone : subjects sampleEnv db s.subHt = [] := by
    rw [hHt]
    rfl
  have hFound : db.sessionAt (text "0A000001.X") = .ok s := by
    simp [RvSubscriptionDB.sessionAt, hSess]
  have hOne : OneHost (closeSession db (text "0A000001.X") s.sessionId) := h.hosts
  have hStopped : (closeSession db (text "0A000001.X") s.sessionId).sessionTab.find?
      (text "0A000001.X") = some (s.stop db.curMono) := by
    simp [closeSession, RvSubscriptionDB.modifySession, hSess]
  obtain ⟨db', hUnlink, hOne', hIndex, hCtr⟩ := hOne.unlink hStopped
  refine ⟨db', ?_, hOne', hIndex, hCtr⟩
  rw [SubMgr.dropLive, if_pos hIsLive]
  simp only [remSession, unsubSession, hFound, hNone, List.foldl_nil, bind, Except.bind, pure,
    Except.pure]
  exact hUnlink

theorem StartedTimes.step {n : Nat} {db : RvSubscriptionDB} (h : StartedTimes n db) :
    ∃ db', step sampleEnv { db with outputs := [] } (.pub 5 sampleStarting) = .ok db' ∧
      StartedTimes (n + 1) db' := by
  have h₀ : StartedTimes n { db with outputs := [], curMono := 5 } :=
    ⟨h.hosts, h.index, h.session, h.ctr⟩
  obtain ⟨host, ht, hHosts, hState, hTable⟩ := h.hosts
  obtain ⟨s, hSess, -, hLive, -⟩ := h.session
  have hExists : hostExists sampleEnv { db with outputs := [], curMono := 5 } 0x0A000001#32 0 =
      some 0 := by
    simp [hostExists, hashHostId, h.index, hHosts, hState]
  have hIsLive : isLive { db with outputs := [], curMono := 5 } (text "0A000001.X") = true := by
    simp [isLive, hSess, hLive]
  obtain ⟨db₁, hDrop, hOne₁, hIndex₁, hCtr₁⟩ := h₀.dropLive
  have hNew : ((startEntry db₁ (text "0A000001.X") 0x0A000001#32 0 true none).modifySession
      (text "0A000001.X") fun s => if s.state = .cid then s else
        { s with state := .query }).sessionTab.find? (text "0A000001.X") =
      some { RvSessionEntry.start (text "0A000001.X") 0x0A000001#32 0
        (sessionId (db₁.nextSessionCtr + 1)) db₁.curMono true none with state := .query } := by
    rw [RvSubscriptionDB.modifySession, startEntry, Table.find?_modify_self,
      Table.find?_insert_self, Option.map_some, if_neg]
    simp [RvSessionEntry.start]
  have hCtr : db₁.nextSessionCtr = n := hCtr₁.trans h.ctr
  have hOne : OneHost ((startEntry db₁ (text "0A000001.X") 0x0A000001#32 0 true none).modifySession
      (text "0A000001.X") fun s => if s.state = .cid then s else { s with state := .query }) := hOne₁
  obtain ⟨db₂, hAdd, hOne₂, hIndex₂, hCtr₂, hTab₂⟩ := hOne.add sampleEnv hNew
  refine ⟨db₂, ?_, hOne₂, ?_, ⟨_, hTab₂ ▸ hNew, rfl, by simp, by rw [hCtr]; rfl⟩, ?_⟩
  · rw [SubMgr.step, processPub2_starting, sessionStart, hExists]
    simp only [hIsLive, hDrop, bind, Except.bind, if_true]
    rw [hAdd]
    rfl
  · rw [hIndex₂]
    change db₁.hostHt.find? 0x0A000001#32 = some 0
    rw [hIndex₁]
    exact h.index
  · rw [hCtr₂]
    exact congrArg (· + 1) hCtr

/-- Every session id is given out in some run. -/
theorem exists_startedTimes (n : Nat) : ∃ db, (subscriptionDB sampleEnv).Reachable db ∧
    StartedTimes (n + 1) db := by
  induction n with
  | zero =>
      let inputs : List Input := [.pub 4
        { subject := text "_RV.INFO.SYSTEM.HOST.START.0A000001" }, .pub 5 sampleStarting]
      have hRun : runInputs sampleEnv inputs = .ok ((runInputs sampleEnv inputs).toOption.getD {}) :=
        rfl
      refine ⟨_, reachable_of_runInputs hRun, ⟨_, _, rfl, by decide, rfl⟩, by decide, ⟨_, rfl, rfl,
        by decide, by decide⟩, by decide⟩
  | succ n ih =>
      obtain ⟨db, hReach, hTimes⟩ := ih
      obtain ⟨db', hStep, hNext⟩ := hTimes.step
      have hOne : (subscriptionDB sampleEnv).step db (.pub 5 sampleStarting) db'.outputs db' :=
        ⟨hStep, rfl⟩
      exact ⟨db', hReach.step hOne, hNext⟩

/-- The reply to the query of session 999000 is taken for the reply of the first host. -/
theorem query_reply_collides : ∃ db name s, (subscriptionDB sampleEnv).Reachable db ∧
    db.sessionTab.find? name = some s ∧ s.state ≠ .stop ∧ s.sessionId = 999000 ∧
    Decimal sampleEnv decimalText (s.sessionId + sessionInboxBase.setWidth 32) ∧
    replyBranch sampleEnv (makeInbox sampleEnv decimalText
      (s.sessionId + sessionInboxBase.setWidth 32)) = some (.host 0) := by
  obtain ⟨db, hReach, hTimes⟩ := exists_startedTimes 998999
  obtain ⟨s, hSess, -, hLive, hId⟩ := hTimes.session
  have hNum : s.sessionId = 999000 := hId
  have hDecimal : Decimal sampleEnv decimalText (s.sessionId + sessionInboxBase.setWidth 32) := by
    rw [hNum]
    exact ⟨⟨49, text "000000", by decide, by decide, by decide⟩, by decide⟩
  refine ⟨db, _, s, hReach, hSess, hLive, hNum, hDecimal, ?_⟩
  rw [replyBranch_makeInbox hDecimal, hNum]
  decide

end Sassrv.SubMgr
