import Mathlib.Tactic.Ring
import Sassrv.Trdp.Bounds
import Sassrv.Trdp.Delivery

/-! Loss recovery. After the reliability interval `merge` gives up the packets
missing before the saved head. It then hands out the head message if all of it
is there, and otherwise leaves the list as it is, however old it gets. The
ledger of the packets output and given up balances against the window as long
as the gap given up lies ahead: the code adds the size of the gap whichever
way it points. -/
namespace Sassrv.Trdp
open Transition

variable {w v : TrdpWindow} {hdr : TrdpHdr} {payload : Bytes} {now : BitVec 64}
    {x : TrdpWindowPkt} {post ready : List TrdpWindowPkt}

/-- A `merge` call that returns and takes at least the head off the saved
list, handed out or not. -/
def TrdpWindow.Recovers (w : TrdpWindow) (hdr : TrdpHdr) (payload : Bytes) (now : BitVec 64) :
    Prop :=
  ∃ fuel v ready, w.merge fuel hdr payload now = some (v, ready) ∧
    (ready ≠ [] ∨ ∃ x post, insertSaved (.make hdr payload now) w.list = some (x :: post) ∧
      x ∉ v.list)

/-- The packet is new and not the only one saved, the message at the head is
complete with it, and the walk from there does not come to stand on a lone
incomplete fragment. -/
def TrdpWindow.HeadComplete (w : TrdpWindow) (hdr : TrdpHdr) (payload : Bytes)
    (now : BitVec 64) : Prop :=
  w.list ≠ [] ∧ ∃ x post, insertSaved (.make hdr payload now) w.list = some (x :: post) ∧
    (messageRun x post).1 = 0 ∧ ∃ ready, MergeEnds x.seqno (x :: post) ready

theorem MergeEnds.handed_iff (h : MergeEnds x.seqno (x :: post) ready) :
    ready ≠ [] ↔ (messageRun x post).1 = 0 := by
  cases h with
  | gap hGap => exact absurd rfl hGap
  | incomplete _ hTotal => exact iff_of_false (fun h => h rfl) hTotal
  | message _ hTotal => exact iff_of_true (List.cons_ne_nil _ _) hTotal

/-- Once the interval is over `merge` makes progress exactly on a complete
head. -/
theorem recovers_iff (hWf : w.Wf) (hPayload : payload.length = hdr.dataLen.toNat)
    (hExpired : reliabilityNs ≤ now - w.lastMonoTime) :
    w.Recovers hdr payload now ↔ w.HeadComplete hdr payload now := by
  have hGo : ∀ (x : TrdpWindowPkt), ¬ w.Waits x now := fun x hWaits =>
    absurd hWaits.2 (BitVec.not_lt.mpr hExpired)
  constructor
  · rintro ⟨fuel, v, ready, hMerge, hProgress⟩
    have hOutcome := merge_outcome hWf hPayload hMerge
    cases hOutcome with
    | saved hInsert =>
        obtain hReady | ⟨x, post, hList, -⟩ := hProgress
        · exact absurd rfl hReady
        · rw [hInsert] at hList
          cases hList
    | alone hEmpty hInsert =>
        obtain hReady | ⟨x, post, hList, hGone⟩ := hProgress
        · exact absurd rfl hReady
        · rw [hInsert] at hList
          obtain rfl := Option.some.inj hList
          exact absurd (List.mem_cons_self ..) hGone
    | waits _ hWaits => exact absurd hWaits (hGo _)
    | @walked x post _ hList hInsert _ hEnds =>
        have hReady : ready ≠ [] := by
          obtain hReady | ⟨z, zs, hHead, hGone⟩ := hProgress
          · exact hReady
          · rintro rfl
            rw [hInsert] at hHead
            obtain ⟨rfl, rfl⟩ := List.cons.inj (Option.some.inj hHead)
            rw [stampReady_list, TrdpWindow.handOut, skipTo_list] at hGone
            exact hGone (List.mem_cons_self ..)
        exact ⟨hList, x, post, hInsert, hEnds.handed_iff.mp hReady, ready, hEnds⟩
  · rintro ⟨hList, x, post, hInsert, hTotal, ready, hEnds⟩
    have hSaved := hWf.save hPayload hInsert
    have hOrder : Ascending (x :: post) := hSaved.ascending
    have hSkipList : ((w.save hdr (x :: post)).skipTo x).list = x :: post := skipTo_list _ x
    obtain ⟨fuel, ⟨v, out⟩, hLoop⟩ :=
      mergeLoop_of_ends hEnds rfl rfl hOrder hSkipList (skipTo_next _ x) []
    obtain ⟨more, hMore, hOut, -⟩ := mergeLoop_ends hOrder hSkipList (skipTo_next _ x) hLoop
    have hReady : out ≠ [] := by
      rw [hOut, List.nil_append]
      exact hMore.handed_iff.mpr hTotal
    refine ⟨fuel, v.stampReady out, out, ?_, Or.inl hReady⟩
    have hCall : (w.save hdr (x :: post)).mergeReady fuel x post now =
        some (v.stampReady out, out) := by
      refine (if_neg (hGo x)).trans ?_
      rw [hLoop]
      rfl
    simp only [TrdpWindow.merge, hInsert, if_neg hList]
    exact hCall

/-- The window's side of the ledger: how far it has come, less what it gave up. -/
def TrdpWindow.balance (w : TrdpWindow) : BitVec 32 := w.lastSeqno - w.lostSeqno.setWidth 32

/-- The gap before `x` points ahead. At half the range both directions are one. -/
def GapAhead (w : TrdpWindow) (x : TrdpWindowPkt) : Prop :=
  0 ≤ seqnoDiff x.seqno (w.lastSeqno + 1) ∨ seqnoDiff x.seqno (w.lastSeqno + 1) = -2 ^ 31

instance (w : TrdpWindow) (x : TrdpWindowPkt) : Decidable (GapAhead w x) :=
  inferInstanceAs (Decidable (_ ∨ _))

theorem ofNat_natAbs_toInt {d : BitVec 32} (h : 0 ≤ d.toInt ∨ d.toInt = -2 ^ 31) :
    BitVec.ofNat 32 d.toInt.natAbs = d := by
  apply BitVec.eq_of_toNat_eq
  rw [BitVec.toNat_ofNat]
  have hLt := d.isLt
  rw [BitVec.toInt_eq_toNat_cond] at h ⊢
  split at h <;> rename_i hHalf
  · rw [if_pos hHalf, Int.natAbs_natCast]
    exact Nat.mod_eq_of_lt hLt
  · rw [if_neg hHalf]
    have hTop : d.toNat = 2 ^ 31 := by omega
    rw [hTop]
    decide

/-- Giving up a gap that points ahead leaves the balance as it is. -/
theorem skipTo_balance (h : GapAhead w x) : (w.skipTo x).balance = w.balance := by
  unfold TrdpWindow.skipTo
  dsimp only
  split
  · have hAbs : BitVec.setWidth 32 (BitVec.ofNat 64 (seqnoDiff x.seqno (w.lastSeqno + 1)).natAbs) =
        x.seqno - (w.lastSeqno + 1) := by
      rw [BitVec.setWidth_ofNat_of_le (by decide)]
      exact ofNat_natAbs_toInt h
    simp only [TrdpWindow.balance]
    rw [BitVec.setWidth_add _ _ (by decide), hAbs]
    ring
  · rfl

theorem stampReady_balance (w : TrdpWindow) (ready : List TrdpWindowPkt) :
    (w.stampReady ready).balance = w.balance := by
  unfold TrdpWindow.stampReady
  split <;> rfl

theorem last_of_chain (p : TrdpWindowPkt)
    (h : List.IsChain (fun p q => q.seqno = p.seqno + 1) (p :: ready)) :
    (ready.getLast?.map (·.seqno)).getD p.seqno = p.seqno + BitVec.ofNat 32 ready.length := by
  induction ready generalizing p with
  | nil => simp
  | cons q rest ih =>
      obtain ⟨hNext, hRest⟩ := List.isChain_cons_cons.mp h
      have hLast : ((q :: rest).getLast?.map (·.seqno)).getD p.seqno =
          (rest.getLast?.map (·.seqno)).getD q.seqno := by
        rw [List.getLast?_cons]
        cases rest.getLast? <;> rfl
      rw [hLast, ih q hRest, hNext, List.length_cons, BitVec.ofNat_add, add_assoc, add_comm 1]
      rfl

/-- Handing out a row of packets raises the balance by their number. -/
theorem handOut_balance (hEnds : MergeEnds x.seqno (x :: post) ready)
    (hNext : x.seqno = w.lastSeqno + 1) :
    (w.handOut ready).balance = w.balance + BitVec.ofNat 32 ready.length := by
  have hChain := hEnds.chain { x with seqno := w.lastSeqno } hNext.symm
  have hLast := last_of_chain _ hChain
  simp only [TrdpWindow.balance, TrdpWindow.handOut] at hLast ⊢
  rw [hLast]
  ring

/-- The window of one source with the seqnos output for it so far, the first
of which synchronised it. -/
structure Balanced (w : TrdpWindow) (sofar : List (BitVec 32)) : Prop where
  fresh : w.lastMonoTime = 0 → sofar = [] ∧ w.list = [] ∧ w.lostSeqno = 0
  clocks : ∀ p ∈ w.list, p.monoTime ≠ 0
  ledger : w.lastMonoTime ≠ 0 → ∃ first, sofar.head? = some first ∧
    w.balance + 1 = first + BitVec.ofNat 32 sofar.length

theorem Balanced.extend {sofar more : List (BitVec 32)} (h : Balanced w sofar)
    (hClock : w.lastMonoTime ≠ 0) (hClock' : v.lastMonoTime ≠ 0)
    (hList : ∀ p ∈ v.list, p.monoTime ≠ 0)
    (hBalance : v.balance = w.balance + BitVec.ofNat 32 more.length) :
    Balanced v (sofar ++ more) := by
  refine ⟨fun hZero => absurd hZero hClock', hList, fun _ => ?_⟩
  obtain ⟨first, hFirst, hLedger⟩ := h.ledger hClock
  refine ⟨first, by rw [List.head?_append, hFirst]; rfl, ?_⟩
  rw [hBalance, add_right_comm, hLedger, List.length_append, BitVec.ofNat_add, add_assoc]

/-- Nothing that the ledger reads has changed. -/
theorem Balanced.same {sofar : List (BitVec 32)} (h : Balanced w sofar)
    (hClock : v.lastMonoTime = w.lastMonoTime) (hLast : v.lastSeqno = w.lastSeqno)
    (hLost : v.lostSeqno = w.lostSeqno) (hFresh : w.lastMonoTime = 0 → v.list = w.list)
    (hList : ∀ p ∈ v.list, p.monoTime ≠ 0) : Balanced v sofar := by
  refine ⟨?_, hList, ?_⟩
  · rw [hClock, hLost]
    intro hZero
    obtain ⟨hSofar, hEmpty, hNone⟩ := h.fresh hZero
    exact ⟨hSofar, (hFresh hZero).trans hEmpty, hNone⟩
  · rw [hClock, TrdpWindow.balance, hLast, hLost]
    exact h.ledger

theorem SameWindow.lostSeqno (h : SameWindow w v) : v.lostSeqno = w.lostSeqno := by rw [h]

theorem Balanced.sameWindow {sofar : List (BitVec 32)} (h : Balanced w sofar)
    (hSame : SameWindow w v) : Balanced v sofar :=
  h.same hSame.lastMonoTime hSame.lastSeqno hSame.lostSeqno (fun _ => hSame.list)
    (by rw [hSame.list]; exact h.clocks)

/-- When `merge` is about to walk the saved list, the gap before it points
ahead. -/
def CountsAhead (w : TrdpWindow) (hdr : TrdpHdr) (payload : Bytes) (now : BitVec 64) : Prop :=
  match insertSaved (.make hdr payload now) w.list with
  | some (x :: _) => w.route hdr = .merged → w.list ≠ [] → ¬ w.Waits x now → GapAhead w x
  | _ => True

instance (w : TrdpWindow) (hdr : TrdpHdr) (payload : Bytes) (now : BitVec 64) :
    Decidable (CountsAhead w hdr payload now) :=
  match h : insertSaved (.make hdr payload now) w.list with
  | some (x :: _) => decidable_of_iff
      (w.route hdr = .merged → w.list ≠ [] → ¬ w.Waits x now → GapAhead w x)
      (by simp [CountsAhead, h])
  | some [] => isTrue (by simp [CountsAhead, h])
  | none => isTrue (by simp [CountsAhead, h])

/-- The condition on a call and the database before it. -/
def KeepsCount (db : TrdpWindowDB) (a : Arrival) : Prop :=
  a.curMonoTime ≠ 0 ∧
  match TrdpHdr.copyIn a.datagram with
  | none => True
  | some hdr => CountsAhead (db.getWindow hdr.tsid) hdr
      (a.datagram.slice trdpDataHdrSize hdr.dataLen.toNat) a.curMonoTime

instance (db : TrdpWindowDB) (a : Arrival) : Decidable (KeepsCount db a) :=
  match h : TrdpHdr.copyIn a.datagram with
  | none => decidable_of_iff (a.curMonoTime ≠ 0) (by simp [KeepsCount, h])
  | some hdr => decidable_of_iff
      (a.curMonoTime ≠ 0 ∧ CountsAhead (db.getWindow hdr.tsid) hdr
        (a.datagram.slice trdpDataHdrSize hdr.dataLen.toNat) a.curMonoTime)
      (by simp [KeepsCount, h])

theorem Balanced.merge {sofar : List (BitVec 32)} (h : Balanced w sofar)
    (hClock : w.lastMonoTime ≠ 0) (hNow : now ≠ 0)
    (hAhead : ∀ x post, insertSaved (.make hdr payload now) w.list = some (x :: post) →
      w.list ≠ [] → ¬ w.Waits x now → GapAhead w x)
    (hMerge : MergeOutcome w hdr payload now ready v) :
    Balanced v (sofar ++ ready.map (·.seqno)) ∧ v.lastMonoTime ≠ 0 := by
  have hInserted : ∀ {list}, insertSaved (.make hdr payload now) w.list = some list →
      ∀ p ∈ list, p.monoTime ≠ 0 := by
    intro list hInsert p hp
    rcases List.mem_cons.mp ((insertSaved_perm hInsert).mem_iff.mp hp) with rfl | hp
    · exact hNow
    · exact h.clocks p hp
  have hStays : ∀ {list}, (∀ p ∈ list, p.monoTime ≠ 0) → Balanced (w.save hdr list) sofar :=
    fun hList => h.same rfl rfl rfl (fun hZero => absurd hZero hClock) hList
  cases hMerge with
  | saved hInsert =>
      rw [List.map_nil, List.append_nil]
      exact ⟨h.same rfl rfl rfl (fun _ => rfl) h.clocks, hClock⟩
  | alone _ hInsert =>
      rw [List.map_nil, List.append_nil]
      exact ⟨hStays (hInserted hInsert), hClock⟩
  | waits hInsert =>
      rw [List.map_nil, List.append_nil]
      exact ⟨hStays (hInserted hInsert), hClock⟩
  | @walked x post _ hList hInsert hGo hEnds =>
      have hSaved := hInserted hInsert
      have hGap : GapAhead (w.save hdr (x :: post)) x := hAhead x post hInsert hList hGo
      have hStamped : ((((w.save hdr (x :: post)).skipTo x).handOut ready).stampReady
          ready).lastMonoTime ≠ 0 := by
        simp only [TrdpWindow.stampReady]
        cases hLast : ready.getLast? with
        | none =>
            have hSkip := skipTo_lastMonoTime (w.save hdr (x :: post)) x
            exact fun hZero => hClock (hSkip.symm.trans hZero)
        | some p =>
            exact hSaved p (hEnds.isPrefix.subset (List.mem_of_getLast? hLast))
      refine ⟨(hStays hSaved).extend hClock hStamped ?_ ?_, hStamped⟩
      · intro p hp
        rw [stampReady_list, TrdpWindow.handOut, skipTo_list] at hp
        exact hSaved p (List.mem_of_mem_drop hp)
      · rw [stampReady_balance, handOut_balance hEnds (skipTo_next _ x), skipTo_balance hGap,
          List.length_map]

/-- One DATA packet under the condition. -/
theorem Balanced.recv {sofar : List (BitVec 32)} {handed : List (BitVec 32 × Bytes)}
    (h : Balanced w sofar) (hNow : now ≠ 0) (hAhead : CountsAhead w hdr payload now)
    (hData : DataOutcome w hdr payload now handed v) :
    Balanced v (sofar ++ handed.map (·.1)) := by
  cases hData with
  | unsynced =>
      rw [List.map_nil, List.append_nil]
      exact h
  | repeated =>
      rw [List.map_nil, List.append_nil]
      exact h.same rfl rfl rfl (fun _ => rfl) h.clocks
  | first hRoute hSame =>
      obtain ⟨rfl, hEmpty, hNone⟩ := h.fresh (route_first hRoute)
      have hClock : v.lastMonoTime ≠ 0 := by
        rw [hSame.lastMonoTime]
        exact hNow
      refine ⟨fun hZero => absurd hZero hClock, ?_, fun _ => ⟨hdr.seqno, rfl, ?_⟩⟩
      · rw [hSame.list]
        exact h.clocks
      · have hLost : (w.sync hdr now).lostSeqno = 0 := hNone
        have hLast : (w.sync hdr now).lastSeqno = hdr.seqno := rfl
        rw [TrdpWindow.balance, hSame.lostSeqno, hSame.lastSeqno, hLost, hLast]
        simp
  | direct hRoute hSame =>
      have hClock := (route_direct hRoute).1
      refine h.extend hClock hNow ?_ ?_
      · intro p hp
        rw [hSame.list] at hp
        exact h.clocks p hp
      · have hLost : (w.note hdr).lostSeqno = w.lostSeqno := rfl
        have hLast : (w.note hdr).lastSeqno = w.lastSeqno := rfl
        simp only [TrdpWindow.balance, hSame.lostSeqno, hSame.lastSeqno, hLost, hLast,
          List.map_cons, List.map_nil, List.length_singleton]
        rw [add_sub_right_comm]
        rfl
  | merged hRoute hMerge hSame =>
      have hClock := route_merged hRoute
      have hNote : Balanced (w.note hdr) sofar := h.same rfl rfl rfl (fun _ => rfl) h.clocks
      have hHead : ∀ x post, insertSaved (.make hdr payload now) (w.note hdr).list =
          some (x :: post) → (w.note hdr).list ≠ [] → ¬ (w.note hdr).Waits x now →
          GapAhead (w.note hdr) x := by
        intro x post hInsert
        change insertSaved (.make hdr payload now) w.list = some (x :: post) at hInsert
        simp only [CountsAhead, hInsert] at hAhead
        exact hAhead hRoute
      have hDone := (hNote.merge hClock hNow hHead hMerge).1.sameWindow hSame
      rw [List.map_map]
      exact hDone

theorem getWindow_replaced (db : TrdpWindowDB) (w : TrdpWindow) (tsid : TrdpTsid) :
    (db.setWindow w).getWindow tsid = if w.tsid = tsid then w else db.getWindow tsid := by
  split
  · next hSame =>
      subst hSame
      exact getWindow_setWindow db w
  · next hOther => exact getWindow_setWindow_other db hOther

/-- The database with the seqnos output for every source so far. -/
structure Ledger where
  db : TrdpWindowDB := {}
  output : TrdpTsid → List (BitVec 32) := fun _ => []

/-- `process_msg` calls with their outputs entered under the packet's source. -/
def ledgerSystem : System Ledger Arrival (BitVec 32 × Bytes) where
  init := fun l => l = {}
  step := fun l a handed l' =>
    trdpSystem.step l.db a handed l'.db ∧
    l'.output = match TrdpHdr.copyIn a.datagram with
      | none => l.output
      | some hdr => Function.update l.output hdr.tsid (l.output hdr.tsid ++ handed.map (·.1))

structure Ledger.Sound (l : Ledger) : Prop where
  wf : l.db.Wf
  balanced : ∀ tsid, Balanced (l.db.getWindow tsid) (l.output tsid)

theorem Ledger.Sound.start : Ledger.Sound {} :=
  ⟨by simp [TrdpWindowDB.Wf], fun _ => ⟨fun _ => ⟨rfl, rfl, rfl⟩, by simp [TrdpWindowDB.getWindow],
    fun hClock => absurd rfl hClock⟩⟩

theorem Ledger.Sound.step {l l' : Ledger} {a : Arrival} {handed : List (BitVec 32 × Bytes)}
    (h : l.Sound) (hKeeps : KeepsCount l.db a) (hStep : ledgerSystem.step l a handed l') :
    l'.Sound := by
  obtain ⟨hCall, hOutput⟩ := hStep
  obtain ⟨hNow, hAhead⟩ := hKeeps
  have hOutcome := process_outcome h.wf hCall
  refine ⟨hOutcome.wf h.wf, fun tsid => ?_⟩
  rw [hOutput]
  generalize l'.db = db' at hOutcome
  cases hOutcome with
  | ignored =>
      split
      · exact h.balanced tsid
      · rw [List.map_nil, List.append_nil, Function.update_eq_self]
        exact h.balanced tsid
  | @nak hdr hHdr hType =>
      simp only [hHdr]
      rw [List.map_nil, List.append_nil, Function.update_eq_self]
      have hTsid := getWindow_tsid l.db hdr.tsid
      rw [getWindow_replaced]
      split
      · next hSame =>
          obtain rfl : hdr.tsid = tsid := hTsid.symm.trans hSame
          exact (h.balanced hdr.tsid).same rfl rfl rfl (fun _ => rfl) (h.balanced hdr.tsid).clocks
      · exact h.balanced tsid
  | @data hdr w _ _ hHdr hType hData hWindows =>
      simp only [hHdr] at hAhead ⊢
      have hGet : ∀ t, db'.getWindow t = (l.db.setWindow w).getWindow t := by
        intro t
        unfold TrdpWindowDB.getWindow
        rw [hWindows]
      have hTsid : w.tsid = hdr.tsid := hData.tsid.trans (getWindow_tsid l.db hdr.tsid)
      rw [hGet, getWindow_replaced]
      split
      · next hSame =>
          obtain rfl : hdr.tsid = tsid := hTsid.symm.trans hSame
          rw [Function.update_self]
          exact (h.balanced hdr.tsid).recv hNow hAhead hData
      · next hOther =>
          rw [Function.update_of_ne (fun hEq => hOther (hTsid.trans hEq.symm))]
          exact h.balanced tsid

/-- The runs whose calls all meet the condition on the ledger. -/
def countedRuns := ledgerSystem.guard (fun l a => KeepsCount l.db a)

theorem sound_of_counted {l : Ledger} (h : countedRuns.Reachable l) : l.Sound := by
  refine h.invariant ?_ ?_
  · rintro _ rfl
    exact Ledger.Sound.start
  · intro s input emitted t hSound hStep
    exact hSound.step hStep.1 hStep.2

/-- The number of seqnos output for a source and the number given up make up
the way of its window from the packet that synchronised it. -/
def Ledger.Accounted (l : Ledger) : Prop :=
  ∀ tsid, (l.db.getWindow tsid).lastMonoTime ≠ 0 → ∃ first, (l.output tsid).head? = some first ∧
    BitVec.ofNat 32 (l.output tsid).length + (l.db.getWindow tsid).lostSeqno.setWidth 32 =
      (l.db.getWindow tsid).lastSeqno - first + 1

theorem Ledger.Sound.accounted {l : Ledger} (h : l.Sound) : l.Accounted := by
  intro tsid hClock
  obtain ⟨first, hFirst, hLedger⟩ := (h.balanced tsid).ledger hClock
  have hCount : BitVec.ofNat 32 (l.output tsid).length =
      (l.db.getWindow tsid).balance + 1 - first := by rw [hLedger, add_sub_cancel_left]
  refine ⟨first, hFirst, ?_⟩
  rw [hCount, TrdpWindow.balance]
  ring

/-- The merge of a DATA packet on the window of its source makes progress. -/
def RecoversAt (db : TrdpWindowDB) (a : Arrival) (hdr : TrdpHdr) : Prop :=
  ((db.getWindow hdr.tsid).note hdr).Recovers hdr
    (a.datagram.slice trdpDataHdrSize hdr.dataLen.toNat) a.curMonoTime

theorem recoversAt_iff {db : TrdpWindowDB} (hWf : db.Wf) (a : Arrival) (hdr : TrdpHdr)
    (hExpired : reliabilityNs ≤ a.curMonoTime - (db.getWindow hdr.tsid).lastMonoTime) :
    RecoversAt db a hdr ↔ (db.getWindow hdr.tsid).HeadComplete hdr
      (a.datagram.slice trdpDataHdrSize hdr.dataLen.toNat) a.curMonoTime :=
  recovers_iff (w := (db.getWindow hdr.tsid).note hdr) ((hWf.getWindow _).of_list_eq rfl)
    (slice_length _ _ _) hExpired

theorem TrdpWindow.HeadComplete.total (h : w.HeadComplete hdr payload now)
    (hInsert : insertSaved (.make hdr payload now) w.list = some (x :: post)) :
    (messageRun x post).1 = 0 := by
  obtain ⟨-, y, rest, hSaved, hTotal, -⟩ := h
  obtain ⟨rfl, rfl⟩ := List.cons.inj (Option.some.inj (hSaved.symm.trans hInsert))
  exact hTotal

/-- In every reachable state a merge after the reliability interval makes
progress exactly on a complete head, and in every run whose calls meet the
condition the packets output and lost are accounted for in every state. -/
theorem recovery_and_accounting {db : TrdpWindowDB} (hReach : trdpSystem.Reachable db)
    {l : Ledger} (hCounted : countedRuns.Reachable l) :
    (∀ a hdr, TrdpHdr.copyIn a.datagram = some hdr → hdr.type = .data →
      (db.getWindow hdr.tsid).route hdr = .merged →
      reliabilityNs ≤ a.curMonoTime - (db.getWindow hdr.tsid).lastMonoTime →
      (RecoversAt db a hdr ↔ (db.getWindow hdr.tsid).HeadComplete hdr
        (a.datagram.slice trdpDataHdrSize hdr.dataLen.toNat) a.curMonoTime)) ∧
    l.Accounted := by
  refine ⟨?_, (sound_of_counted hCounted).accounted⟩
  intro a hdr _ _ _ hExpired
  exact recoversAt_iff (wf_of_reachable hReach) a hdr hExpired

/-- Execution of the ledger on small inputs. -/
def stepLedger (l : Ledger) (a : Arrival) : Option (Ledger × List (BitVec 32 × Bytes)) := do
  let (db, handed) ← l.db.processMsg 4 a.datagram a.curMonoTime
  return ({ db := db, output := match TrdpHdr.copyIn a.datagram with
    | none => l.output
    | some hdr => Function.update l.output hdr.tsid (l.output hdr.tsid ++ handed.map (·.1)) },
    handed)

theorem stepLedger_step {l l' : Ledger} {a : Arrival} {handed : List (BitVec 32 × Bytes)}
    (h : stepLedger l a = some (l', handed)) : ledgerSystem.step l a handed l' := by
  simp only [stepLedger, Option.bind_eq_bind, Option.bind_eq_some_iff, Option.pure_def,
    Option.some.injEq, Prod.mk.injEq] at h
  obtain ⟨⟨db, given⟩, hCall, rfl, rfl⟩ := h
  exact ⟨⟨4, hCall⟩, rfl⟩

def stepCounted (l : Ledger) (a : Arrival) : Option (Ledger × List (BitVec 32 × Bytes)) :=
  if KeepsCount l.db a then stepLedger l a else none

theorem stepCounted_step {l l' : Ledger} {a : Arrival} {handed : List (BitVec 32 × Bytes)}
    (h : stepCounted l a = some (l', handed)) : countedRuns.step l a handed l' := by
  unfold stepCounted at h
  split at h
  · rename_i hOk
    exact ⟨hOk, stepLedger_step h⟩
  · cases h

/-- The one packet of source ⟨1, 1⟩ that `ping` saves at a clock value. -/
def pingPkt (seqno : BitVec 32) (now : BitVec 64) : TrdpWindowPkt :=
  { monoTime := now, seqno := seqno, totalLen := 8, dataLen := 8, fragNum := 0
    data := beBytes32 8 ++ beBytes32 rvMagic }

/-- Seqno 2 never comes. After the interval 5 lets 3 be handed out. -/
theorem recovery_and_accounting_gap :
    (∃ db hdr, trdpSystem.Reachable db ∧ RecoversAt db (ping 5 3000000002) hdr) ∧
    ∃ l, countedRuns.Reachable l ∧ l.output ⟨1, 1⟩ = [1, 3] ∧
      (l.db.getWindow ⟨1, 1⟩).lostSeqno = 1 ∧ l.Accounted := by
  have hStep : ∀ s a t handed, TrdpWindowDB.processMsg 4 s a.datagram a.curMonoTime =
      some (t, handed) → trdpSystem.step s a handed t := fun _ _ _ _ h => ⟨4, h⟩
  have run := System.Run.of_runAll hStep
    (Option.some_get (show (System.runAll
      (fun db a => TrdpWindowDB.processMsg 4 db a.datagram a.curMonoTime) {}
      [ping 1 1, ping 3 2]).isSome by decide)).symm
  have hHdr := (Option.some_get (show (TrdpHdr.copyIn (ping 5 3000000002).datagram).isSome by
    decide)).symm
  have counted := System.Run.of_runAll (fun s a t handed => @stepCounted_step s t a handed)
    (Option.some_get (show (System.runAll stepCounted {}
      [ping 1 1, ping 3 2, ping 5 3000000002]).isSome by decide)).symm
  have hBoth := recovery_and_accounting ⟨{}, _, _, rfl, run⟩ ⟨{}, _, _, rfl, counted⟩
  refine ⟨⟨_, _, ⟨{}, _, _, rfl, run⟩, (hBoth.1 _ _ hHdr (by decide) (by decide) (by decide)).mpr ?_⟩,
    ⟨_, ⟨{}, _, _, rfl, counted⟩, by decide, by decide, hBoth.2⟩⟩
  exact ⟨by decide, pingPkt 3 2, [pingPkt 5 3000000002], by decide, by decide, [pingPkt 3 2],
    .message rfl (by decide) (.gap (by decide))⟩

/-- The packet after the first one of a message of three. -/
def middle (seqno : BitVec 32) (now : BitVec 64) : Arrival :=
  ⟨dataDatagram ⟨1, 1⟩ seqno 24 1 (beBytes32 24 ++ beBytes32 rvMagic), now⟩

def middlePkt (seqno : BitVec 32) (now : BitVec 64) : TrdpWindowPkt :=
  { monoTime := now, seqno := seqno, totalLen := 24, dataLen := 8, fragNum := 1
    data := beBytes32 24 ++ beBytes32 rvMagic }

/-- Two fragments of a message whose first one is lost stay at the head of the
list. A packet that stayed saved behind the window is counted twice. -/
theorem recovery_can_stall :
    (¬ ∀ db, trdpSystem.Reachable db → ∀ a hdr, TrdpHdr.copyIn a.datagram = some hdr →
      hdr.type = .data → (db.getWindow hdr.tsid).route hdr = .merged →
      reliabilityNs ≤ a.curMonoTime - (db.getWindow hdr.tsid).lastMonoTime →
      RecoversAt db a hdr) ∧
    ¬ ∀ inputs handed l, ledgerSystem.Run {} inputs handed l →
      inputs.Pairwise (fun a b => a.curMonoTime ≤ b.curMonoTime) →
      (∀ a ∈ inputs, a.curMonoTime ≠ 0) → l.Accounted := by
  constructor
  · intro h
    have hStep : ∀ s a t handed, TrdpWindowDB.processMsg 4 s a.datagram a.curMonoTime =
        some (t, handed) → trdpSystem.step s a handed t := fun _ _ _ _ h => ⟨4, h⟩
    have run := System.Run.of_runAll hStep
      (Option.some_get (show (System.runAll
        (fun db a => TrdpWindowDB.processMsg 4 db a.datagram a.curMonoTime) {}
        [ping 1 1, middle 3 2]).isSome by decide)).symm
    have hHdr := (Option.some_get (show (TrdpHdr.copyIn (middle 4 1000000001).datagram).isSome by
      decide)).symm
    have hRecovers := h _ ⟨{}, _, _, rfl, run⟩ _ _ hHdr (by decide) (by decide) (by decide)
    have hWf := wf_of_reachable ⟨{}, _, _, rfl, run⟩
    have hTotal := ((recoversAt_iff hWf _ _ (by decide)).mp hRecovers).total
      (show _ = some (middlePkt 3 2 :: [middlePkt 4 1000000001]) by decide)
    revert hTotal
    decide
  · intro h
    have run := System.Run.of_runAll (fun s a t handed => @stepLedger_step s t a handed)
      (Option.some_get (show (System.runAll stepLedger {}
        [ping 1 1, ping 3 2, ping 2 3, ping 3 4, ping 5 1000000004]).isSome by decide)).symm
    obtain ⟨first, hFirst, hLedger⟩ := h _ _ _ run (by decide) (by decide) ⟨1, 1⟩ (by decide)
    obtain rfl : (1 : BitVec 32) = first := Option.some.inj
      ((show _ = some (1 : BitVec 32) by decide).symm.trans hFirst)
    revert hLedger
    decide

end Sassrv.Trdp
