import Sassrv.Trdp.Framing
import Sassrv.Trdp.Merge

/-! What one completed `process_msg` call can do to a window, branch by
branch, and the well-formedness of the saved list that it keeps. -/
namespace Sassrv.Trdp
open Transition

/-- What every reachable window keeps about its saved packets. -/
structure TrdpWindow.Wf (w : TrdpWindow) : Prop where
  ascending : Ascending w.list
  dataLen : ∀ p ∈ w.list, p.data.length = p.dataLen.toNat

theorem TrdpWindow.Wf.of_list_eq {w v : TrdpWindow} (h : w.Wf) (hList : v.list = w.list) :
    v.Wf := by
  refine ⟨?_, ?_⟩
  · rw [hList]
    exact h.ascending
  · rw [hList]
    exact h.dataLen

theorem TrdpWindow.Wf.handOut {w : TrdpWindow} (h : w.Wf) (ready : List TrdpWindowPkt) :
    (w.handOut ready).Wf :=
  ⟨h.ascending.sublist (List.drop_sublist _ _),
    fun p hp => h.dataLen p (List.mem_of_mem_drop hp)⟩

theorem TrdpWindow.Wf.save {w : TrdpWindow} {hdr : TrdpHdr} {payload : Bytes}
    {now : BitVec 64} {list : List TrdpWindowPkt} (h : w.Wf)
    (hPayload : payload.length = hdr.dataLen.toNat)
    (hInsert : insertSaved (.make hdr payload now) w.list = some list) : (w.save hdr list).Wf := by
  refine ⟨insertSaved_ascending h.ascending hInsert, ?_⟩
  intro p hp
  rcases List.mem_cons.mp ((insertSaved_perm hInsert).mem_iff.mp hp) with rfl | hp
  · exact hPayload
  · exact h.dataLen p hp

theorem TrdpWindow.Wf.data_lt {w : TrdpWindow} (h : w.Wf) {p : TrdpWindowPkt}
    (hp : p ∈ w.list) : p.data.length < 2 ^ 32 := by
  rw [h.dataLen p hp]
  have hLt := p.dataLen.isLt
  omega

theorem skipTo_next (w : TrdpWindow) (x : TrdpWindowPkt) :
    x.seqno = (w.skipTo x).lastSeqno + 1 := by
  simp only [TrdpWindow.skipTo]
  split
  · simp
  · rename_i hSame
    have hZero : x.seqno - (w.lastSeqno + 1) = 0 := by
      apply BitVec.eq_of_toInt_eq
      simpa [seqnoDiff] using hSame
    exact sub_eq_zero.mp hZero

theorem skipTo_list (w : TrdpWindow) (x : TrdpWindowPkt) : (w.skipTo x).list = w.list := by
  simp only [TrdpWindow.skipTo]
  split <;> rfl

theorem skipTo_pending (w : TrdpWindow) (x : TrdpWindowPkt) :
    (w.skipTo x).pending =
      if seqnoDiff x.seqno (w.lastSeqno + 1) = 0 then w.pending else .between := by
  simp only [TrdpWindow.skipTo, ne_eq, ite_not]
  split <;> rfl

theorem stampReady_pending (w : TrdpWindow) (ready : List TrdpWindowPkt) :
    (w.stampReady ready).pending = w.pending := by
  unfold TrdpWindow.stampReady
  split <;> rfl

theorem stampReady_list (w : TrdpWindow) (ready : List TrdpWindowPkt) :
    (w.stampReady ready).list = w.list := by
  unfold TrdpWindow.stampReady
  split <;> rfl

theorem handOut_pending (w : TrdpWindow) (ready : List TrdpWindowPkt) :
    (w.handOut ready).pending = w.pending := rfl

/-- The head of the list waits for missing packets. -/
def TrdpWindow.Waits (w : TrdpWindow) (x : TrdpWindowPkt) (now : BitVec 64) : Prop :=
  seqnoDiff x.seqno (w.lastSeqno + 1) ≠ 0 ∧ now - w.lastMonoTime < reliabilityNs

instance (w : TrdpWindow) (x : TrdpWindowPkt) (now : BitVec 64) : Decidable (w.Waits x now) :=
  inferInstanceAs (Decidable (_ ∧ _))

/-- A returned `mergeReady` either waits or has walked the list. -/
theorem mergeReady_cases {fuel : Nat} {w v : TrdpWindow} {x : TrdpWindowPkt}
    {post ready : List TrdpWindowPkt} {now : BitVec 64}
    (hOrder : Ascending w.list) (hList : w.list = x :: post)
    (h : w.mergeReady fuel x post now = some (v, ready)) :
    (w.Waits x now ∧ v = w ∧ ready = []) ∨
    (¬ w.Waits x now ∧ MergeEnds x.seqno (x :: post) ready ∧
      v = ((w.skipTo x).handOut ready).stampReady ready) := by
  unfold TrdpWindow.mergeReady at h
  split at h
  · rename_i hWaits
    obtain ⟨rfl, rfl⟩ := Prod.mk.inj (Option.some.inj h)
    exact Or.inl ⟨hWaits, rfl, rfl⟩
  · rename_i hWaits
    rw [Option.map_eq_some_iff] at h
    obtain ⟨⟨u, out⟩, hLoop, hResult⟩ := h
    obtain ⟨rfl, rfl⟩ := Prod.mk.inj hResult
    rw [hList] at hOrder
    obtain ⟨more, hEnds, hOut, hU⟩ := mergeLoop_ends hOrder
      ((skipTo_list w x).trans hList) (skipTo_next w x) hLoop
    rw [List.nil_append] at hOut
    subst hOut
    exact Or.inr ⟨hWaits, hEnds, by rw [hU]⟩

/-- The outcomes of `merge`: the packets it returns and the window after it. -/
inductive MergeOutcome (w : TrdpWindow) (hdr : TrdpHdr) (payload : Bytes) (now : BitVec 64) :
    List TrdpWindowPkt → TrdpWindow → Prop where
  | saved (hInsert : insertSaved (.make hdr payload now) w.list = none) :
      MergeOutcome w hdr payload now [] { w with repeatSeqno := w.repeatSeqno + 1 }
  | alone {list : List TrdpWindowPkt} (hEmpty : w.list = [])
      (hInsert : insertSaved (.make hdr payload now) w.list = some list) :
      MergeOutcome w hdr payload now [] (w.save hdr list)
  | waits {x : TrdpWindowPkt} {post : List TrdpWindowPkt}
      (hInsert : insertSaved (.make hdr payload now) w.list = some (x :: post))
      (hWaits : w.Waits x now) :
      MergeOutcome w hdr payload now [] (w.save hdr (x :: post))
  | walked {x : TrdpWindowPkt} {post ready : List TrdpWindowPkt} (hList : w.list ≠ [])
      (hInsert : insertSaved (.make hdr payload now) w.list = some (x :: post))
      (hGo : ¬ w.Waits x now) (hEnds : MergeEnds x.seqno (x :: post) ready) :
      MergeOutcome w hdr payload now ready
        ((((w.save hdr (x :: post)).skipTo x).handOut ready).stampReady ready)

theorem merge_outcome {fuel : Nat} {w v : TrdpWindow} {hdr : TrdpHdr} {payload : Bytes}
    {now : BitVec 64} {ready : List TrdpWindowPkt} (hWf : w.Wf)
    (hPayload : payload.length = hdr.dataLen.toNat)
    (h : w.merge fuel hdr payload now = some (v, ready)) :
    MergeOutcome w hdr payload now ready v := by
  unfold TrdpWindow.merge at h
  cases hInsert : insertSaved (.make hdr payload now) w.list with
  | none =>
      simp only [hInsert] at h
      obtain ⟨rfl, rfl⟩ := Prod.mk.inj (Option.some.inj h)
      exact .saved hInsert
  | some list =>
      cases list with
      | nil => exact False.elim (insertSaved_ne_nil hInsert)
      | cons x post =>
          simp only [hInsert] at h
          split at h
          · rename_i hEmpty
            obtain ⟨rfl, rfl⟩ := Prod.mk.inj (Option.some.inj h)
            exact .alone hEmpty hInsert
          · rename_i hList
            have hSavedWf := hWf.save hPayload hInsert
            rcases mergeReady_cases hSavedWf.ascending rfl h with
              ⟨hWaits, rfl, rfl⟩ | ⟨hGo, hEnds, rfl⟩
            · exact .waits hInsert hWaits
            · exact .walked hList hInsert hGo hEnds

/-- Whatever is handed out was received before or is this packet. -/
theorem MergeOutcome.mem_saved {w v : TrdpWindow} {hdr : TrdpHdr} {payload : Bytes}
    {now : BitVec 64} {ready : List TrdpWindowPkt}
    (h : MergeOutcome w hdr payload now ready v) {p : TrdpWindowPkt}
    (hp : p ∈ ready ∨ p ∈ v.list) : p = .make hdr payload now ∨ p ∈ w.list := by
  cases h with
  | saved => exact Or.inr (by simpa using hp)
  | @alone list _ hInsert =>
      have hp : p ∈ list := by simpa [TrdpWindow.save] using hp
      exact List.mem_cons.mp ((insertSaved_perm hInsert).mem_iff.mp hp)
  | @waits x post hInsert =>
      have hp : p ∈ x :: post := by simpa [TrdpWindow.save] using hp
      exact List.mem_cons.mp ((insertSaved_perm hInsert).mem_iff.mp hp)
  | @walked x post _ _ hInsert _ hEnds =>
      apply List.mem_cons.mp
      apply (insertSaved_perm hInsert).mem_iff.mp
      rcases hp with hp | hp
      · exact hEnds.isPrefix.subset hp
      · rw [stampReady_list, TrdpWindow.handOut, skipTo_list] at hp
        exact List.mem_of_mem_drop hp

theorem MergeOutcome.wf {w v : TrdpWindow} {hdr : TrdpHdr} {payload : Bytes}
    {now : BitVec 64} {ready : List TrdpWindowPkt}
    (h : MergeOutcome w hdr payload now ready v) (hWf : w.Wf)
    (hPayload : payload.length = hdr.dataLen.toNat) : v.Wf := by
  cases h with
  | saved => exact hWf.of_list_eq rfl
  | alone _ hInsert => exact hWf.save hPayload hInsert
  | waits hInsert => exact hWf.save hPayload hInsert
  | @walked x post _ _ hInsert =>
      have hSkip := (hWf.save hPayload hInsert).of_list_eq (skipTo_list _ x)
      exact (hSkip.handOut _).of_list_eq (stampReady_list _ _)

theorem MergeOutcome.data_lt {w v : TrdpWindow} {hdr : TrdpHdr} {payload : Bytes}
    {now : BitVec 64} {ready : List TrdpWindowPkt}
    (h : MergeOutcome w hdr payload now ready v) (hWf : w.Wf)
    (hPayload : payload.length = hdr.dataLen.toNat) :
    ∀ p ∈ ready, p.data.length < 2 ^ 32 := by
  intro p hp
  rcases h.mem_saved (Or.inl hp) with rfl | hp
  · have hLt := hdr.dataLen.isLt
    simp only [TrdpWindowPkt.make, hPayload]
    omega
  · exact hWf.data_lt hp

/-- The outcomes of `recvData`: what it hands to `output` and the window
after it. -/
inductive DataOutcome (w : TrdpWindow) (hdr : TrdpHdr) (payload : Bytes) (now : BitVec 64) :
    List (BitVec 32 × Bytes) → TrdpWindow → Prop where
  | unsynced (hRoute : w.route hdr = .unsynced) : DataOutcome w hdr payload now [] w
  | first {v : TrdpWindow} (hRoute : w.route hdr = .first)
      (hSame : SameWindow (w.sync hdr now) v) :
      DataOutcome w hdr payload now [(hdr.seqno, payload)] v
  | repeated (hRoute : w.route hdr = .repeated) :
      DataOutcome w hdr payload now []
        { w.note hdr with repeatSeqno := w.repeatSeqno + 1 }
  | merged {u v : TrdpWindow} {ready : List TrdpWindowPkt} (hRoute : w.route hdr = .merged)
      (hMerge : MergeOutcome (w.note hdr) hdr payload now ready u) (hSame : SameWindow u v) :
      DataOutcome w hdr payload now (ready.map (fun p => (p.seqno, p.data))) v
  | direct {v : TrdpWindow} (hRoute : w.route hdr = .direct)
      (hSame : SameWindow (w.note hdr) v) :
      DataOutcome w hdr payload now [(hdr.seqno, payload)]
        { v with lastSeqno := v.lastSeqno + 1, lastMonoTime := now }

theorem recvData_outcome {fuel : Nat} {w v : TrdpWindow} {hdr : TrdpHdr}
    {payload : Bytes} {now : BitVec 64} {handed : List (BitVec 32 × Bytes)} {sent : List Bytes}
    (hWf : w.Wf) (hPayload : payload.length = hdr.dataLen.toNat)
    (h : w.recvData fuel hdr payload now = some (v, handed, sent)) :
    DataOutcome w hdr payload now handed v := by
  have hLen : payload.length < 2 ^ 32 := by
    rw [hPayload]
    have hLt := hdr.dataLen.isLt
    omega
  unfold TrdpWindow.recvData at h
  cases hRoute : w.route hdr with
  | unsynced =>
      simp only [hRoute] at h
      obtain ⟨rfl, rfl, -⟩ := by simpa using h
      exact .unsynced hRoute
  | first =>
      simp only [hRoute, Option.bind_eq_bind, Option.bind_eq_some_iff, Option.pure_def,
        Option.some.injEq, Prod.mk.injEq] at h
      obtain ⟨⟨u, out⟩, hOutput, rfl, rfl, -⟩ := h
      exact .first hRoute (output_accepts hLen hOutput).2
  | repeated =>
      simp only [hRoute] at h
      obtain ⟨rfl, rfl, -⟩ := by simpa using h
      exact .repeated hRoute
  | merged =>
      simp only [hRoute, Option.bind_eq_bind, Option.bind_eq_some_iff, Option.pure_def,
        Option.some.injEq, Prod.mk.injEq] at h
      obtain ⟨⟨u, ready⟩, hMerge, ⟨x, out⟩, hOutput, rfl, rfl, -⟩ := h
      have hNoteWf : (w.note hdr).Wf := hWf.of_list_eq rfl
      have hOutcome := merge_outcome hNoteWf hPayload hMerge
      exact .merged hRoute hOutcome
        (outputAll_accepts (hOutcome.data_lt hNoteWf hPayload) hOutput).2
  | direct =>
      simp only [hRoute, Option.bind_eq_bind, Option.bind_eq_some_iff, Option.pure_def,
        Option.some.injEq, Prod.mk.injEq] at h
      obtain ⟨⟨u, out⟩, hOutput, rfl, rfl, -⟩ := h
      exact .direct hRoute (output_accepts hLen hOutput).2

theorem DataOutcome.wf {w v : TrdpWindow} {hdr : TrdpHdr} {payload : Bytes}
    {now : BitVec 64} {handed : List (BitVec 32 × Bytes)}
    (h : DataOutcome w hdr payload now handed v) (hWf : w.Wf)
    (hPayload : payload.length = hdr.dataLen.toNat) : v.Wf := by
  cases h with
  | unsynced => exact hWf
  | first _ hSame => exact hWf.of_list_eq hSame.list
  | repeated => exact hWf.of_list_eq rfl
  | merged _ hMerge hSame =>
      exact (hMerge.wf (hWf.of_list_eq rfl) hPayload).of_list_eq hSame.list
  | direct _ hSame => exact hWf.of_list_eq hSame.list

theorem slice_length (d : Datagram) (off len : Nat) : (d.slice off len).length = len := by
  simp [Datagram.slice]

/-- Every window of the database is well formed. -/
def TrdpWindowDB.Wf (db : TrdpWindowDB) : Prop := ∀ w ∈ db.windows, w.Wf

theorem TrdpWindowDB.Wf.getWindow {db : TrdpWindowDB} (h : db.Wf) (tsid : TrdpTsid) :
    (db.getWindow tsid).Wf := by
  unfold TrdpWindowDB.getWindow
  cases hFind : db.windows.find? (fun w => w.tsid = tsid) with
  | none => exact ⟨List.Pairwise.nil, by simp⟩
  | some w => exact h w (List.mem_of_find?_eq_some hFind)

theorem TrdpWindowDB.Wf.setWindow {db : TrdpWindowDB} (h : db.Wf) {w : TrdpWindow}
    (hw : w.Wf) : (db.setWindow w).Wf := by
  unfold TrdpWindowDB.setWindow
  split
  · intro v hv
    obtain ⟨u, hu, rfl⟩ := List.mem_map.mp hv
    split
    · exact hw
    · exact h u hu
  · intro v hv
    rcases List.mem_append.mp hv with hv | hv
    · exact h v hv
    · rw [List.mem_singleton.mp hv]
      exact hw

/-- The outcomes of `process_msg`. -/
inductive ProcessOutcome (db : TrdpWindowDB) (a : Arrival) :
    List (BitVec 32 × Bytes) → TrdpWindowDB → Prop where
  | ignored : ProcessOutcome db a [] db
  | nak {hdr : TrdpHdr} (hHdr : TrdpHdr.copyIn a.datagram = some hdr)
      (hType : hdr.type = .nak) :
      ProcessOutcome db a [] (db.setWindow
        { db.getWindow hdr.tsid with nakCount := (db.getWindow hdr.tsid).nakCount + 1 })
  | data {hdr : TrdpHdr} {w : TrdpWindow} {handed : List (BitVec 32 × Bytes)}
      {db' : TrdpWindowDB} (hHdr : TrdpHdr.copyIn a.datagram = some hdr)
      (hType : hdr.type = .data)
      (hData : DataOutcome (db.getWindow hdr.tsid) hdr
        (a.datagram.slice trdpDataHdrSize hdr.dataLen.toNat) a.curMonoTime handed w)
      (hWindows : db'.windows = (db.setWindow w).windows) :
      ProcessOutcome db a handed db'

theorem process_outcome {db db' : TrdpWindowDB} {a : Arrival}
    {handed : List (BitVec 32 × Bytes)} (hWf : db.Wf)
    (h : trdpSystem.step db a handed db') : ProcessOutcome db a handed db' := by
  obtain ⟨fuel, h⟩ := h
  unfold TrdpWindowDB.processMsg at h
  cases hHdr : TrdpHdr.copyIn a.datagram with
  | none =>
      simp only [hHdr] at h
      obtain ⟨rfl, rfl⟩ := Prod.mk.inj (Option.some.inj h)
      exact .ignored
  | some hdr =>
      simp only [hHdr] at h
      split at h
      · rename_i hType
        simp only [Option.bind_eq_bind, Option.bind_eq_some_iff, Option.pure_def,
          Option.some.injEq, Prod.mk.injEq] at h
        obtain ⟨⟨w, handed, sent⟩, hRecv, rfl, rfl⟩ := h
        have hOutcome := recvData_outcome (hWf.getWindow hdr.tsid) (slice_length _ _ _) hRecv
        exact .data hHdr hType hOutcome rfl
      · rename_i hType
        obtain ⟨rfl, rfl⟩ := Prod.mk.inj (Option.some.inj h)
        exact .nak hHdr hType
      · obtain ⟨rfl, rfl⟩ := Prod.mk.inj (Option.some.inj h)
        exact .ignored

theorem ProcessOutcome.wf {db db' : TrdpWindowDB} {a : Arrival}
    {handed : List (BitVec 32 × Bytes)} (h : ProcessOutcome db a handed db') (hWf : db.Wf) :
    db'.Wf := by
  cases h with
  | ignored => exact hWf
  | nak => exact hWf.setWindow ((hWf.getWindow _).of_list_eq rfl)
  | data _ _ hData hWindows =>
      have hSet := hWf.setWindow (hData.wf (hWf.getWindow _) (slice_length _ _ _))
      intro w hw
      rw [hWindows] at hw
      exact hSet w hw

/-- Saved lists stay ascending and hold what the length fields say. -/
theorem wf_of_reachable {db : TrdpWindowDB} (h : trdpSystem.Reachable db) : db.Wf := by
  refine h.invariant ?_ ?_
  · rintro _ rfl w hw
    cases hw
  · intro s input emitted t hWf hStep
    exact (process_outcome hWf hStep).wf hWf

end Sassrv.Trdp
