import Mathlib.Algebra.BigOperators.Group.List.Basic
import Sassrv.Trdp.Accounting

/-! The saved list over whole runs: its order, its size counter, and what
becomes of each packet that `merge` links into it. -/
namespace Sassrv.Trdp
open Transition

/-- What the call for a DATA packet links into the saved list. -/
def TrdpWindow.linked (w : TrdpWindow) (hdr : TrdpHdr) (payload : Bytes) (now : BitVec 64) :
    List TrdpWindowPkt :=
  if w.route hdr = .merged ∧ (insertSaved (.make hdr payload now) w.list).isSome then
    [.make hdr payload now]
  else []

/-- What `merge` hands out in the call. -/
def TrdpWindow.merged (fuel : Nat) (w : TrdpWindow) (hdr : TrdpHdr) (payload : Bytes)
    (now : BitVec 64) : List TrdpWindowPkt :=
  if w.route hdr = .merged then (((w.note hdr).merge fuel hdr payload now).map (·.2)).getD []
  else []

/-- The database with the packets that were ever linked into the saved list of
a source, and those that `merge` has handed out. -/
structure SavedLog where
  db : TrdpWindowDB := {}
  saved : TrdpTsid → List TrdpWindowPkt := fun _ => []
  handed : TrdpTsid → List TrdpWindowPkt := fun _ => []

/-- The packets of a call are entered under its source. -/
def SavedLog.after (fuel : Nat) (l : SavedLog) (a : Arrival) (db : TrdpWindowDB) : SavedLog :=
  match TrdpHdr.copyIn a.datagram with
  | none => { l with db := db }
  | some hdr =>
      if hdr.type = .data then
        let w := l.db.getWindow hdr.tsid
        let payload := a.datagram.slice trdpDataHdrSize hdr.dataLen.toNat
        { db := db
          saved := Function.update l.saved hdr.tsid
            (l.saved hdr.tsid ++ w.linked hdr payload a.curMonoTime)
          handed := Function.update l.handed hdr.tsid
            (l.handed hdr.tsid ++ w.merged fuel hdr payload a.curMonoTime) }
      else { l with db := db }

/-- Completed calls of `process_msg` with these records. -/
def savedSystem : System SavedLog Arrival (BitVec 32 × Bytes) where
  init := fun l => l = {}
  step := fun l a handed l' => ∃ fuel db,
    l.db.processMsg fuel a.datagram a.curMonoTime = some (db, handed) ∧ l' = l.after fuel a db

theorem SavedLog.after_db (fuel : Nat) (l : SavedLog) (a : Arrival) (db : TrdpWindowDB) :
    (l.after fuel a db).db = db := by
  unfold SavedLog.after
  split
  · rfl
  · split <;> rfl

/-- Every run of the database is a run with records. -/
theorem savedSystem_covers {db : TrdpWindowDB} (h : trdpSystem.Reachable db) :
    ∃ l, savedSystem.Reachable l ∧ l.db = db := by
  refine @System.Reachable.invariant _ _ _ trdpSystem
    (fun db => ∃ l, savedSystem.Reachable l ∧ l.db = db) ?_ ?_ db h
  · rintro _ rfl
    exact ⟨{}, System.reachable_of_init rfl, rfl⟩
  · rintro _ a handed db' ⟨l, hReach, rfl⟩ ⟨fuel, hCall⟩
    have hStep : savedSystem.step l a handed (l.after fuel a db') := ⟨fuel, db', hCall, rfl⟩
    exact ⟨_, hReach.step hStep, l.after_db fuel a db'⟩

section Sizes

variable {w v : TrdpWindow} {hdr : TrdpHdr} {payload : Bytes} {now : BitVec 64}

/-- `save_size` is the number of bytes saved. -/
def TrdpWindow.Weighed (w : TrdpWindow) : Prop := w.saveSize = dataSize w.list

theorem TrdpWindow.Weighed.same (h : w.Weighed) (hSize : v.saveSize = w.saveSize)
    (hList : v.list = w.list) : v.Weighed := by
  unfold TrdpWindow.Weighed
  rw [hSize, hList]
  exact h

theorem dataSize_eq (pkts : List TrdpWindowPkt) :
    dataSize pkts = BitVec.ofNat 32 (pkts.map (fun p => p.dataLen.toNat)).sum := by
  induction pkts with
  | nil => rfl
  | cons p rest ih =>
      have hCons : dataSize (p :: rest) = p.dataLen.setWidth 32 + dataSize rest := rfl
      rw [hCons, ih, List.map_cons, List.sum_cons, BitVec.ofNat_add, BitVec.ofNat_toNat]

theorem dataSize_perm {first second : List TrdpWindowPkt} (h : first.Perm second) :
    dataSize first = dataSize second :=
  (h.map _).sum_eq

theorem TrdpWindow.Weighed.save (h : w.Weighed) {list : List TrdpWindowPkt}
    (hInsert : insertSaved (.make hdr payload now) w.list = some list) :
    (w.save hdr list).Weighed := by
  have hSize : dataSize list = hdr.dataLen.setWidth 32 + dataSize w.list :=
    dataSize_perm (insertSaved_perm hInsert)
  unfold TrdpWindow.Weighed at h ⊢
  rw [show (w.save hdr list).list = list from rfl, hSize, ← h, BitVec.add_comm]
  rfl

theorem TrdpWindow.Weighed.handOut (h : w.Weighed) {ready : List TrdpWindowPkt}
    (hPrefix : ready <+: w.list) : (w.handOut ready).Weighed := by
  obtain ⟨rest, hList⟩ := hPrefix
  unfold TrdpWindow.Weighed at h ⊢
  have hDrop : (w.handOut ready).list = rest := by
    simp [TrdpWindow.handOut, ← hList]
  rw [hDrop, show (w.handOut ready).saveSize = w.saveSize - dataSize ready from rfl, h, ← hList,
    dataSize_append]
  exact add_sub_cancel_left _ _

theorem skipTo_saveSize (w : TrdpWindow) (x : TrdpWindowPkt) :
    (w.skipTo x).saveSize = w.saveSize := by
  simp only [TrdpWindow.skipTo]
  split <;> rfl

theorem stampReady_saveSize (w : TrdpWindow) (ready : List TrdpWindowPkt) :
    (w.stampReady ready).saveSize = w.saveSize := by
  unfold TrdpWindow.stampReady
  split <;> rfl

theorem MergeOutcome.weighed {ready : List TrdpWindowPkt}
    (h : MergeOutcome w hdr payload now ready v) (hWeighed : w.Weighed) : v.Weighed := by
  cases h with
  | saved => exact hWeighed
  | alone _ hInsert => exact hWeighed.save hInsert
  | waits hInsert => exact hWeighed.save hInsert
  | @walked x post _ _ hInsert _ hEnds =>
      have hSkip : ((w.save hdr (x :: post)).skipTo x).Weighed :=
        (hWeighed.save hInsert).same (skipTo_saveSize _ x) (skipTo_list _ x)
      have hPrefix : ready <+: ((w.save hdr (x :: post)).skipTo x).list := by
        rw [skipTo_list]
        exact hEnds.isPrefix
      exact (hSkip.handOut hPrefix).same (stampReady_saveSize _ ready) (stampReady_list _ ready)

theorem SameWindow.saveSize (h : SameWindow w v) : v.saveSize = w.saveSize := by rw [h]

theorem DataOutcome.weighed {handed : List (BitVec 32 × Bytes)}
    (h : DataOutcome w hdr payload now handed v) (hWeighed : w.Weighed) : v.Weighed := by
  cases h with
  | unsynced => exact hWeighed
  | first _ hSame => exact hWeighed.same hSame.saveSize hSame.list
  | repeated => exact hWeighed
  | merged _ hMerge hSame =>
      have hNote : (w.note hdr).Weighed := hWeighed
      exact (hMerge.weighed hNote).same hSame.saveSize hSame.list
  | direct _ hSame => exact hWeighed.same hSame.saveSize hSame.list

end Sizes

section Records

variable {w v : TrdpWindow} {hdr : TrdpHdr} {payload : Bytes} {now : BitVec 64}

theorem Ascending.nodup {pkts : List TrdpWindowPkt} (h : Ascending pkts) :
    (pkts.map (·.seqno)).Nodup := by
  refine List.pairwise_map.mpr (h.imp ?_)
  intro p q hLt hEq
  rw [hEq] at hLt
  exact absurd hLt (lt_irrefl _)

/-- The new packet has a seqno of its own. -/
theorem linked_nodup (hWf : w.Wf) (hdr : TrdpHdr) (payload : Bytes) (now : BitVec 64) :
    ((w.linked hdr payload now ++ w.list).map (·.seqno)).Nodup := by
  unfold TrdpWindow.linked
  split
  · rename_i hLinked
    obtain ⟨list, hInsert⟩ := Option.isSome_iff_exists.mp hLinked.2
    have hPerm := (insertSaved_perm hInsert).map (fun p : TrdpWindowPkt => p.seqno)
    exact hPerm.nodup_iff.mp (insertSaved_ascending hWf.ascending hInsert).nodup
  · exact hWf.ascending.nodup

/-- A merge hands out or keeps what it found saved and what it links in. -/
theorem MergeOutcome.account {ready : List TrdpWindowPkt}
    (h : MergeOutcome w hdr payload now ready v) :
    (ready ++ v.list).Perm ((if (insertSaved (.make hdr payload now) w.list).isSome then
      [.make hdr payload now] else []) ++ w.list) := by
  cases h with
  | saved hInsert =>
      rw [hInsert]
      exact List.Perm.refl _
  | alone _ hInsert =>
      rw [hInsert]
      exact insertSaved_perm hInsert
  | waits hInsert =>
      rw [hInsert]
      exact insertSaved_perm hInsert
  | @walked x post _ _ hInsert _ hEnds =>
      obtain ⟨rest, hRest⟩ := hEnds.isPrefix
      have hList : ((((w.save hdr (x :: post)).skipTo x).handOut ready).stampReady ready).list =
          rest := by
        rw [stampReady_list, TrdpWindow.handOut, skipTo_list]
        change (x :: post).drop ready.length = rest
        rw [← hRest, List.drop_left]
      rw [hList, hRest, hInsert]
      exact insertSaved_perm hInsert

theorem recvData_account {fuel : Nat} {handed : List (BitVec 32 × Bytes)} {sent : List Bytes}
    (hWf : w.Wf) (hPayload : payload.length = hdr.dataLen.toNat)
    (h : w.recvData fuel hdr payload now = some (v, handed, sent)) :
    (w.merged fuel hdr payload now ++ v.list).Perm (w.linked hdr payload now ++ w.list) := by
  have hOutcome := recvData_outcome hWf hPayload h
  have hAside : w.route hdr ≠ .merged → v.list = w.list →
      (w.merged fuel hdr payload now ++ v.list).Perm (w.linked hdr payload now ++ w.list) := by
    intro hRoute hList
    rw [TrdpWindow.merged, TrdpWindow.linked, if_neg hRoute, if_neg (fun hBoth => hRoute hBoth.1),
      hList]
  cases hOutcome with
  | unsynced hRoute => exact hAside (by rw [hRoute]; simp) rfl
  | first hRoute hSame => exact hAside (by rw [hRoute]; simp) hSame.list
  | repeated hRoute => exact hAside (by rw [hRoute]; simp) rfl
  | direct hRoute hSame => exact hAside (by rw [hRoute]; simp) hSame.list
  | merged hRoute =>
      unfold TrdpWindow.recvData at h
      simp only [hRoute, Option.bind_eq_bind, Option.bind_eq_some_iff, Option.pure_def,
        Option.some.injEq, Prod.mk.injEq] at h
      obtain ⟨⟨u, ready⟩, hMerge, ⟨x, out⟩, hOutput, rfl, -, -⟩ := h
      have hNoteWf : (w.note hdr).Wf := hWf.of_list_eq rfl
      have hMerged := merge_outcome hNoteWf hPayload hMerge
      have hSame := (outputAll_accepts (hMerged.data_lt hNoteWf hPayload) hOutput).2
      rw [TrdpWindow.merged, TrdpWindow.linked, if_pos hRoute, hMerge, hSame.list]
      have hAccount := hMerged.account
      simp only [hRoute, true_and]
      exact hAccount

/-- What has become of the packets of a source that were ever saved. -/
structure SavedLog.Sound (l : SavedLog) : Prop where
  wf : l.db.Wf
  weighed : ∀ w ∈ l.db.windows, w.Weighed
  account : ∀ tsid, (l.handed tsid ++ (l.db.getWindow tsid).list).Perm (l.saved tsid)

theorem setWindow_weighed {db : TrdpWindowDB} (h : ∀ u ∈ db.windows, u.Weighed) (hw : w.Weighed) :
    ∀ u ∈ (db.setWindow w).windows, u.Weighed := by
  unfold TrdpWindowDB.setWindow
  split
  · intro u hu
    obtain ⟨x, hx, rfl⟩ := List.mem_map.mp hu
    split
    · exact hw
    · exact h x hx
  · intro u hu
    rcases List.mem_append.mp hu with hu | hu
    · exact h u hu
    · rw [List.mem_singleton.mp hu]
      exact hw

theorem getWindow_weighed {db : TrdpWindowDB} (h : ∀ u ∈ db.windows, u.Weighed) (tsid : TrdpTsid) :
    (db.getWindow tsid).Weighed := by
  unfold TrdpWindowDB.getWindow
  cases hFind : db.windows.find? (fun w => w.tsid = tsid) with
  | none => rfl
  | some w => exact h w (List.mem_of_find?_eq_some hFind)

/-- A call only touches the window of its source. -/
theorem SavedLog.Sound.replace {l : SavedLog} (h : l.Sound) {db : TrdpWindowDB} {tsid : TrdpTsid}
    {linked merged : List TrdpWindowPkt} (hTsid : w.tsid = tsid) (hWf : w.Wf)
    (hWeighed : w.Weighed) (hWindows : db.windows = (l.db.setWindow w).windows)
    (hAccount : (merged ++ w.list).Perm (linked ++ (l.db.getWindow tsid).list)) :
    SavedLog.Sound { db := db
                     saved := Function.update l.saved tsid (l.saved tsid ++ linked)
                     handed := Function.update l.handed tsid (l.handed tsid ++ merged) } := by
  subst hTsid
  have hGet : ∀ t, db.getWindow t = if w.tsid = t then w else l.db.getWindow t := by
    intro t
    rw [← getWindow_replaced]
    unfold TrdpWindowDB.getWindow
    rw [hWindows]
  refine ⟨?_, ?_, fun tsid => ?_⟩
  · intro u hu
    rw [hWindows] at hu
    exact (h.wf.setWindow hWf) u hu
  · intro u hu
    rw [hWindows] at hu
    exact setWindow_weighed h.weighed hWeighed u hu
  · rw [hGet]
    split
    · next hSame =>
        subst hSame
        simp only [Function.update_self, List.append_assoc]
        have hOld := h.account w.tsid
        have hSwap : (l.handed w.tsid ++ (linked ++ (l.db.getWindow w.tsid).list)).Perm
            (l.handed w.tsid ++ (l.db.getWindow w.tsid).list ++ linked) := by
          rw [List.append_assoc]
          exact List.perm_append_comm.append_left _
        exact ((hAccount.append_left _).trans hSwap).trans (hOld.append_right _)
    · next hOther =>
        simp only [Function.update_of_ne (Ne.symm hOther)]
        exact h.account tsid

theorem SavedLog.Sound.start : SavedLog.Sound {} :=
  ⟨by simp [TrdpWindowDB.Wf], by simp, fun _ => by simp [TrdpWindowDB.getWindow]⟩

/-- Handing out nothing. -/
theorem quiet_ready {l l' : SavedLog} (h : l'.handed = l.handed) (tsid : TrdpTsid) :
    ∃ ready, l'.handed tsid = l.handed tsid ++ ready ∧
      ∀ p ∈ ready, ∀ q ∈ (l'.db.getWindow tsid).list, q.seqno ≠ p.seqno :=
  ⟨[], by rw [h, List.append_nil], by simp⟩

/-- One call, and that what it hands out has left the list. -/
theorem SavedLog.Sound.step {l l' : SavedLog} {a : Arrival} {handed : List (BitVec 32 × Bytes)}
    (h : l.Sound) (hStep : savedSystem.step l a handed l') :
    l'.Sound ∧ ∀ tsid, ∃ ready, l'.handed tsid = l.handed tsid ++ ready ∧
      ∀ p ∈ ready, ∀ q ∈ (l'.db.getWindow tsid).list, q.seqno ≠ p.seqno := by
  obtain ⟨fuel, db, hCall, rfl⟩ := hStep
  unfold TrdpWindowDB.processMsg at hCall
  unfold SavedLog.after
  cases hHdr : TrdpHdr.copyIn a.datagram with
  | none =>
      simp only [hHdr] at hCall ⊢
      obtain ⟨rfl, -⟩ := Prod.mk.inj (Option.some.inj hCall)
      exact ⟨h, quiet_ready rfl⟩
  | some hdr =>
      simp only [hHdr] at hCall ⊢
      have hTsid := getWindow_tsid l.db hdr.tsid
      split at hCall
      · rename_i hType
        rw [if_pos hType]
        simp only [Option.bind_eq_bind, Option.bind_eq_some_iff, Option.pure_def,
          Option.some.injEq, Prod.mk.injEq] at hCall
        obtain ⟨⟨w, given, sent⟩, hRecv, rfl, rfl⟩ := hCall
        have hWf := h.wf.getWindow hdr.tsid
        have hPayload := slice_length a.datagram trdpDataHdrSize hdr.dataLen.toNat
        have hOutcome := recvData_outcome hWf hPayload hRecv
        have hAccount := recvData_account hWf hPayload hRecv
        have hSame : w.tsid = hdr.tsid := hOutcome.tsid.trans hTsid
        refine ⟨h.replace hSame (hOutcome.wf hWf hPayload)
          (hOutcome.weighed (getWindow_weighed h.weighed hdr.tsid)) rfl hAccount, fun tsid => ?_⟩
        by_cases hSource : tsid = hdr.tsid
        · subst hSource
          refine ⟨_, Function.update_self _ _ _, fun p hp q hq hEq => ?_⟩
          have hList : q ∈ w.list := by
            have hGet := getWindow_setWindow l.db w
            rw [hSame] at hGet
            exact hGet ▸ hq
          have hNodup := (hAccount.map (fun p : TrdpWindowPkt => p.seqno)).nodup_iff.mpr
            (linked_nodup hWf hdr _ a.curMonoTime)
          rw [List.map_append] at hNodup
          exact (List.disjoint_of_nodup_append hNodup) (List.mem_map_of_mem hp)
            (hEq ▸ List.mem_map_of_mem hList)
        · exact ⟨[], by simp [Function.update_of_ne hSource], by simp⟩
      · rename_i hType
        rw [if_neg (by rw [hType]; simp)]
        obtain ⟨rfl, -⟩ := Prod.mk.inj (Option.some.inj hCall)
        obtain ⟨w, hw⟩ : ∃ w : TrdpWindow, w = { l.db.getWindow hdr.tsid with
            nakCount := (l.db.getWindow hdr.tsid).nakCount + 1 } := ⟨_, rfl⟩
        rw [← hw]
        have hSound : SavedLog.Sound { l with
            db := l.db.setWindow w
            saved := Function.update l.saved hdr.tsid (l.saved hdr.tsid ++ [])
            handed := Function.update l.handed hdr.tsid (l.handed hdr.tsid ++ []) } := by
          refine h.replace (hw ▸ hTsid) ((h.wf.getWindow hdr.tsid).of_list_eq (by rw [hw])) ?_ rfl
            (by rw [hw])
          exact (getWindow_weighed h.weighed hdr.tsid).same (by rw [hw]) (by rw [hw])
        simp only [List.append_nil, Function.update_eq_self] at hSound
        exact ⟨hSound, quiet_ready rfl⟩
      · rename_i hData _
        rw [if_neg hData]
        obtain ⟨rfl, -⟩ := Prod.mk.inj (Option.some.inj hCall)
        exact ⟨h, quiet_ready rfl⟩

theorem savedSystem_sound {l : SavedLog} (h : savedSystem.Reachable l) : l.Sound := by
  refine h.invariant ?_ (fun _ _ _ _ hSound hStep => (hSound.step hStep).1)
  rintro _ rfl
  exact SavedLog.Sound.start

end Records

/-- In every state reached the saved lists ascend without a seqno twice and
have the size counted for them. Each packet that was ever saved for a source is
in its list or was handed out, once in all, and what a call hands out is not in
the list after it. -/
theorem saved_list_sound {l : SavedLog} (h : savedSystem.Reachable l) :
    (∀ w ∈ l.db.windows, w.list.Pairwise (fun p q => p.seqno < q.seqno) ∧
      (w.list.map (·.seqno)).Nodup ∧
      w.saveSize = BitVec.ofNat 32 (w.list.map (fun p => p.dataLen.toNat)).sum) ∧
    (∀ tsid, (l.handed tsid ++ (l.db.getWindow tsid).list).Perm (l.saved tsid)) ∧
    ∀ a handed l', savedSystem.step l a handed l' → ∀ tsid, ∃ ready,
      l'.handed tsid = l.handed tsid ++ ready ∧
        ∀ p ∈ ready, ∀ q ∈ (l'.db.getWindow tsid).list, q.seqno ≠ p.seqno := by
  have hSound := savedSystem_sound h
  refine ⟨fun w hw => ⟨(hSound.wf w hw).ascending, (hSound.wf w hw).ascending.nodup, ?_⟩,
    hSound.account, fun a handed l' hStep => (hSound.step hStep).2⟩
  rw [hSound.weighed w hw, dataSize_eq]

/-- Execution on small inputs. -/
def stepSaved (l : SavedLog) (a : Arrival) : Option (SavedLog × List (BitVec 32 × Bytes)) :=
  (l.db.processMsg 4 a.datagram a.curMonoTime).map (fun result => (l.after 4 a result.1, result.2))

theorem stepSaved_step (l : SavedLog) (a : Arrival) (l' : SavedLog)
    (handed : List (BitVec 32 × Bytes)) (h : stepSaved l a = some (l', handed)) :
    savedSystem.step l a handed l' := by
  obtain ⟨⟨db, given⟩, hCall, hEq⟩ := Option.map_eq_some_iff.mp h
  cases hEq
  exact ⟨4, db, hCall, rfl⟩

/-- The packets 4 and 3 wait for 2, and are handed out with 5. -/
theorem saved_list_sound_filled : ∃ l, savedSystem.Reachable l ∧
    (l.saved ⟨1, 1⟩).map (·.seqno) = [4, 3, 5] ∧ (l.handed ⟨1, 1⟩).map (·.seqno) = [3, 4, 5] ∧
    (l.handed ⟨1, 1⟩ ++ (l.db.getWindow ⟨1, 1⟩).list).Perm (l.saved ⟨1, 1⟩) := by
  have run := System.Run.of_runAll stepSaved_step
    (Option.some_get (show (System.runAll stepSaved {}
      [ping 1 1, ping 4 2, ping 3 3, ping 2 4, ping 5 5]).isSome by decide)).symm
  have hReach : savedSystem.Reachable _ := ⟨{}, _, _, rfl, run⟩
  exact ⟨_, hReach, by decide, by decide, (saved_list_sound hReach).2.1 _⟩

end Sassrv.Trdp
