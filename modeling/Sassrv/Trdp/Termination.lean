import Sassrv.Trdp.Step

/-! When `process_msg` returns. Both of its unbounded loops can go round
without progress: `output` on a payload that is not a row of rv messages, and
`merge` on a lone fragment at the expected seqno. The condition below is on
the datagram and the window before the call, and it is exact. -/
namespace Sassrv.Trdp
open Transition

/-- `merge` returns on this packet and so do the `output` calls on what it
hands out. The first packet saved in an empty list is never walked. -/
def MergeReturns (w : TrdpWindow) (hdr : TrdpHdr) (payload : Bytes) (now : BitVec 64) : Prop :=
  w.list ≠ [] → ∀ x post,
    insertSaved (.make hdr payload now) w.list = some (x :: post) → ¬ w.Waits x now →
    ∃ ready, MergeEnds x.seqno (x :: post) ready ∧
      ∃ after, AcceptsAll
        (if seqnoDiff x.seqno (w.lastSeqno + 1) = 0 then w.pending else .between)
        (ready.map (·.data)) after

/-- The whole condition for a DATA packet at its window. -/
def DataReturns (w : TrdpWindow) (hdr : TrdpHdr) (payload : Bytes) (now : BitVec 64) : Prop :=
  match w.route hdr with
  | .unsynced => True
  | .first => ∃ after, Accepts w.pending payload after
  | .repeated => True
  | .merged => MergeReturns w hdr payload now
  | .direct => ∃ after, Accepts w.pending payload after

/-- The condition on a datagram and the database before the call. Only DATA
packets can keep `process_msg` from returning. -/
def ProcessReturns (db : TrdpWindowDB) (a : Arrival) : Prop :=
  ∀ hdr, TrdpHdr.copyIn a.datagram = some hdr → hdr.type = .data →
    DataReturns (db.getWindow hdr.tsid) hdr
      (a.datagram.slice trdpDataHdrSize hdr.dataLen.toNat) a.curMonoTime

/-- After the packet is linked in, `merge` and the `output` calls on its
result return exactly when the walk and the payload stream allow it. -/
theorem mergeReady_outputs_iff {w : TrdpWindow} {x : TrdpWindowPkt} {post : List TrdpWindowPkt}
    {now : BitVec 64} (hWf : w.Wf) (hList : w.list = x :: post) (hGo : ¬ w.Waits x now) :
    (∃ fuel v ready result, w.mergeReady fuel x post now = some (v, ready) ∧
      v.outputAll fuel ready = some result) ↔
    ∃ ready, MergeEnds x.seqno (x :: post) ready ∧
      ∃ after, AcceptsAll (w.skipTo x).pending (ready.map (·.data)) after := by
  have hOrder : Ascending (x :: post) := hList ▸ hWf.ascending
  have hSkipList : (w.skipTo x).list = x :: post := (skipTo_list w x).trans hList
  have hLens : ∀ ready, MergeEnds x.seqno (x :: post) ready →
      ∀ p ∈ ready, p.data.length < 2 ^ 32 := by
    intro ready hEnds p hp
    apply hWf.data_lt
    rw [hList]
    exact hEnds.isPrefix.subset hp
  have hPending : ∀ ready, (((w.skipTo x).handOut ready).stampReady ready).pending =
      (w.skipTo x).pending := by
    intro ready
    rw [stampReady_pending, handOut_pending]
  constructor
  · rintro ⟨fuel, v, ready, ⟨u, out⟩, hCall, hOutput⟩
    rcases mergeReady_cases hWf.ascending hList hCall with ⟨hWaits, -⟩ | ⟨-, hEnds, rfl⟩
    · exact False.elim (hGo hWaits)
    · obtain ⟨hAccepts, -⟩ := outputAll_accepts (hLens ready hEnds) hOutput
      rw [hPending] at hAccepts
      exact ⟨ready, hEnds, u.pending, hAccepts⟩
  · rintro ⟨ready, hEnds, after, hAccepts⟩
    obtain ⟨first, ⟨v, out⟩, hLoop⟩ :=
      mergeLoop_of_ends hEnds rfl rfl hOrder hSkipList (skipTo_next w x) []
    obtain ⟨more, hMore, hOut, hV⟩ := mergeLoop_ends hOrder hSkipList (skipTo_next w x) hLoop
    rw [hOut, List.nil_append, hV, hMore.unique hEnds] at hLoop
    rw [← hPending ready] at hAccepts
    obtain ⟨second, result, hOutput⟩ := outputAll_of_accepts (hLens ready hEnds) hAccepts
    refine ⟨max first second, _, ready, result, ?_,
      outputAll_mono (Nat.le_max_right _ _) hOutput⟩
    refine (if_neg hGo).trans ?_
    rw [mergeLoop_mono (Nat.le_max_left _ _) hLoop]
    rfl

theorem merge_outputs_iff {w : TrdpWindow} {hdr : TrdpHdr} {payload : Bytes} {now : BitVec 64}
    (hWf : w.Wf) (hPayload : payload.length = hdr.dataLen.toNat) :
    (∃ fuel v ready result, w.merge fuel hdr payload now = some (v, ready) ∧
      v.outputAll fuel ready = some result) ↔ MergeReturns w hdr payload now := by
  unfold TrdpWindow.merge MergeReturns
  cases hInsert : insertSaved (.make hdr payload now) w.list with
  | none =>
      refine iff_of_true ⟨0, _, [], _, rfl, rfl⟩ ?_
      intro _ x post hSaved
      cases hSaved
  | some list =>
      cases list with
      | nil => exact False.elim (insertSaved_ne_nil hInsert)
      | cons x post =>
          by_cases hEmpty : w.list = []
          · simp only [if_pos hEmpty]
            exact iff_of_true ⟨0, _, [], _, rfl, rfl⟩ (fun h => False.elim (h hEmpty))
          · simp only [if_neg hEmpty]
            have hSavedWf := hWf.save hPayload hInsert
            by_cases hWaits : w.Waits x now
            · refine iff_of_true ⟨0, w.save hdr (x :: post), [], _, ?_, rfl⟩ ?_
              · exact if_pos hWaits
              · intro _ x' post' hSaved hGo
                obtain ⟨rfl, rfl⟩ := List.cons.inj (Option.some.inj hSaved)
                exact False.elim (hGo hWaits)
            · rw [mergeReady_outputs_iff hSavedWf rfl hWaits, skipTo_pending]
              constructor
              · rintro h _ x' post' hSaved -
                obtain ⟨rfl, rfl⟩ := List.cons.inj (Option.some.inj hSaved)
                exact h
              · intro h
                exact h hEmpty x post rfl hWaits

theorem output_returns_iff {w : TrdpWindow} {data : Bytes} (hLen : data.length < 2 ^ 32) :
    (∃ fuel result, w.output fuel data = some result) ↔
      ∃ after, Accepts w.pending data after := by
  constructor
  · rintro ⟨fuel, ⟨v, out⟩, h⟩
    exact ⟨v.pending, (output_accepts hLen h).1⟩
  · rintro ⟨after, h⟩
    exact output_of_accepts h

theorem recvData_returns_iff {w : TrdpWindow} {hdr : TrdpHdr} {payload : Bytes}
    {now : BitVec 64} (hWf : w.Wf) (hPayload : payload.length = hdr.dataLen.toNat) :
    (∃ fuel result, w.recvData fuel hdr payload now = some result) ↔
      DataReturns w hdr payload now := by
  have hLen : payload.length < 2 ^ 32 := by
    rw [hPayload]
    have hLt := hdr.dataLen.isLt
    omega
  unfold TrdpWindow.recvData DataReturns
  cases w.route hdr with
  | unsynced => exact iff_of_true ⟨0, _, rfl⟩ trivial
  | first =>
      have hPending : w.pending = (w.sync hdr now).pending := rfl
      rw [hPending, ← output_returns_iff hLen]
      simp only [Option.bind_eq_bind, Option.bind_eq_some_iff, Option.pure_def]
      constructor
      · rintro ⟨fuel, -, result, hOutput, -⟩
        exact ⟨fuel, result, hOutput⟩
      · rintro ⟨fuel, result, hOutput⟩
        exact ⟨fuel, _, result, hOutput, rfl⟩
  | repeated => exact iff_of_true ⟨0, _, rfl⟩ trivial
  | merged =>
      have hNote : MergeReturns w hdr payload now ↔
          MergeReturns (w.note hdr) hdr payload now := Iff.rfl
      have hNoteWf : (w.note hdr).Wf := hWf.of_list_eq rfl
      rw [hNote, ← merge_outputs_iff hNoteWf hPayload]
      simp only [Option.bind_eq_bind, Option.bind_eq_some_iff, Option.pure_def]
      constructor
      · rintro ⟨fuel, -, ⟨v, ready⟩, hMerge, result, hOutput, -⟩
        exact ⟨fuel, v, ready, result, hMerge, hOutput⟩
      · rintro ⟨fuel, v, ready, result, hMerge, hOutput⟩
        exact ⟨fuel, _, (v, ready), hMerge, result, hOutput, rfl⟩
  | direct =>
      have hPending : w.pending = (w.note hdr).pending := rfl
      rw [hPending, ← output_returns_iff hLen]
      simp only [Option.bind_eq_bind, Option.bind_eq_some_iff, Option.pure_def]
      constructor
      · rintro ⟨fuel, -, result, hOutput, -⟩
        exact ⟨fuel, result, hOutput⟩
      · rintro ⟨fuel, result, hOutput⟩
        exact ⟨fuel, _, result, hOutput, rfl⟩

theorem processMsg_isSome_iff {db : TrdpWindowDB} (hWf : db.Wf) (a : Arrival) :
    (∃ fuel, (db.processMsg fuel a.datagram a.curMonoTime).isSome) ↔ ProcessReturns db a := by
  unfold TrdpWindowDB.processMsg ProcessReturns
  cases hHdr : TrdpHdr.copyIn a.datagram with
  | none =>
      refine iff_of_true ⟨0, rfl⟩ ?_
      intro hdr h
      cases h
  | some hdr =>
      simp only [Option.some.injEq, forall_eq']
      split
      · rename_i hType
        simp only [hType, forall_const]
        rw [← recvData_returns_iff (hWf.getWindow hdr.tsid) (slice_length _ _ _)]
        simp only [Option.isSome_iff_exists, Option.bind_eq_bind, Option.bind_eq_some_iff,
          Option.pure_def]
        constructor
        · rintro ⟨fuel, -, result, hRecv, -⟩
          exact ⟨fuel, result, hRecv⟩
        · rintro ⟨fuel, result, hRecv⟩
          exact ⟨fuel, _, result, hRecv, rfl⟩
      · rename_i hType
        exact iff_of_true ⟨0, rfl⟩ (fun h => by rw [hType] at h; cases h)
      · rename_i hData _
        exact iff_of_true ⟨0, rfl⟩ (fun h => False.elim (hData h))

/-- For every reachable database, datagram and clock value, `process_msg`
returns exactly when the condition holds. -/
theorem processMsg_returns_iff {db : TrdpWindowDB} (hReach : trdpSystem.Reachable db)
    (a : Arrival) :
    (∃ fuel, (db.processMsg fuel a.datagram a.curMonoTime).isSome) ↔ ProcessReturns db a :=
  processMsg_isSome_iff (wf_of_reachable hReach) a

/-- An rv message of eight bytes: its size, then the magic. -/
def rvPing : Bytes := beBytes32 8 ++ beBytes32 rvMagic

/-- One whole rv message, then the second half of another one. -/
def halfArrived : List Arrival :=
  [⟨dataDatagram ⟨1, 1⟩ 1 8 0 rvPing, 1⟩, ⟨dataDatagram ⟨1, 1⟩ 3 16 1 (List.replicate 8 7), 2⟩]

/-- Execution on small inputs. -/
def stepPlain (db : TrdpWindowDB) (a : Arrival) : Option (TrdpWindowDB × List (BitVec 32 × Bytes)) :=
  db.processMsg 4 a.datagram a.curMonoTime

theorem stepPlain_step (db : TrdpWindowDB) (a : Arrival) (db' : TrdpWindowDB)
    (handed : List (BitVec 32 × Bytes)) (h : stepPlain db a = some (db', handed)) :
    trdpSystem.step db a handed db' := ⟨4, h⟩

/-- The window has the second half saved when the first half arrives, and the walk over
both comes to an end. -/
theorem processMsg_returns_ping : ∃ db, trdpSystem.Reachable db ∧
    (db.getWindow ⟨1, 1⟩).list.map (·.seqno) = [3] ∧
      ProcessReturns db ⟨dataDatagram ⟨1, 1⟩ 2 16 0 (beBytes32 16 ++ beBytes32 rvMagic), 3⟩ := by
  have run := System.Run.of_runAll stepPlain_step
    (Option.some_get (show (System.runAll stepPlain {} halfArrived).isSome by decide)).symm
  have hReach : trdpSystem.Reachable _ := ⟨{}, _, _, rfl, run⟩
  exact ⟨_, hReach, by decide, (processMsg_returns_iff hReach _).mp ⟨4, by decide⟩⟩

/-- A payload of eight zero bytes has no rv magic, so the first packet of a
source already keeps `output` going round. -/
theorem zeroPayload_never_returns :
    ¬ ∃ fuel, (TrdpWindowDB.processMsg fuel {}
      (dataDatagram ⟨1, 1⟩ 1 8 0 (List.replicate 8 0)) 1).isSome := by
  have hWf : TrdpWindowDB.Wf {} := by simp [TrdpWindowDB.Wf]
  rw [processMsg_isSome_iff hWf ⟨dataDatagram ⟨1, 1⟩ 1 8 0 (List.replicate 8 0), 1⟩]
  intro h
  obtain ⟨after, hAccepts⟩ := h _ rfl rfl
  cases hAccepts with
  | framed hFramed =>
      cases hFramed with
      | stray hShort => exact absurd hShort (by decide)
      | opens _ hMagic => exact absurd hMagic (by decide)
      | message _ hMagic => exact absurd hMagic (by decide)

/-- Not every datagram is processed to an end, not even on the empty database. -/
theorem processMsg_can_diverge :
    ¬ ∀ db : TrdpWindowDB, trdpSystem.Reachable db → ∀ a : Arrival,
      ∃ fuel, (db.processMsg fuel a.datagram a.curMonoTime).isSome := by
  intro h
  exact zeroPayload_never_returns (h {} (System.reachable_of_init rfl)
    ⟨dataDatagram ⟨1, 1⟩ 1 8 0 (List.replicate 8 0), 1⟩)

end Sassrv.Trdp
