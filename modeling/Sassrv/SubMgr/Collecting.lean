import Sassrv.SubMgr.Counting

/-! The references of sass3 entries, their expiry, and `gc`. -/
namespace Sassrv.SubMgr
open Partial

variable {env : Env} {db db' : RvSubscriptionDB}

theorem sassHolders_insert {key : RvSass3Key} (h : key ∉ db.sass3Tab) (id : BitVec 32) :
    ((Insert.insert key db.sass3Tab).filter fun k => k.subjectId = id).card =
      db.sassHolders id + (decide (key.subjectId = id)).toNat := by
  have hNot : key ∉ db.sass3Tab.filter fun k => k.subjectId = id := fun hMem =>
    h (Finset.mem_filter.mp hMem).1
  rw [Finset.filter_insert]
  by_cases hId : key.subjectId = id
  · rw [if_pos hId, Finset.card_insert_of_notMem hNot, decide_eq_true hId]
    rfl
  · rw [if_neg hId, decide_eq_false hId]
    rfl

theorem sassHolders_erase {key : RvSass3Key} (h : key ∈ db.sass3Tab) (id : BitVec 32) :
    ((db.sass3Tab.erase key).filter fun k => k.subjectId = id).card +
      (decide (key.subjectId = id)).toNat = db.sassHolders id := by
  rw [Finset.filter_erase]
  by_cases hId : key.subjectId = id
  · have hMem : key ∈ db.sass3Tab.filter fun k => k.subjectId = id :=
      Finset.mem_filter.mpr ⟨h, hId⟩
    rw [decide_eq_true hId]
    exact Finset.card_erase_add_one hMem
  · have hNot : key ∉ db.sass3Tab.filter fun k => k.subjectId = id := fun hMem =>
      hId (Finset.mem_filter.mp hMem).2
    rw [Finset.erase_eq_of_notMem hNot, decide_eq_false hId]
    rfl

/-- One key enters or leaves `sass3_tab`, and the count of its subject follows. -/
theorem Referenced.moveKey (inv : Referenced env db) {sub : Text} {script : RvSubscription}
    {g : RvSubscription → RvSubscription} {tab : Finset RvSass3Key} {list : List RvSass3Entry}
    {key : RvSass3Key} (hScript : db.subTab.find? sub = some script)
    (hKey : key.subjectId = script.subjectId) (hHash : key.subjHash = env.crcC sub 0)
    (hId : ∀ s, (g s).subjectId = s.subjectId)
    (hTab : ∀ k ∈ tab, k = key ∨ k ∈ db.sass3Tab)
    (hOnly : ∀ id, id ≠ script.subjectId →
      (tab.filter fun k => k.subjectId = id).card = db.sassHolders id)
    (hCount : (g script).refcnt + BitVec.ofNat 31 (db.sassHolders script.subjectId) =
      script.refcnt + BitVec.ofNat 31 (tab.filter fun k => k.subjectId = script.subjectId).card)
    (hListed : ∀ k ∈ tableKeys list, k ∈ tab) (hOnce : (tableKeys list).Nodup) :
    Referenced env ((db.modifySub sub g).setSass3 tab list) := by
  apply inv.moved
  constructor
  case ctr => rfl
  case ids =>
    intro x
    simp only [RvSubscriptionDB.setSass3, RvSubscriptionDB.modifySub, Table.find?_modify,
      Option.map_map]
    congr 1
    funext s
    by_cases hx : x = sub <;> simp [hx, hId]
  case follows =>
    intro x s s' hs hs'
    simp only [RvSubscriptionDB.setSass3, RvSubscriptionDB.modifySub, Table.find?_modify,
      Option.map_eq_some_iff] at hs'
    obtain ⟨t, ht, rfl⟩ := hs'
    cases hs.symm.trans ht
    have hRefs : ∀ id, ((db.modifySub sub g).setSass3 tab list).refs id =
        db.holders id + (tab.filter fun k => k.subjectId = id).card := fun _ => rfl
    rw [hRefs, RvSubscriptionDB.refs, BitVec.ofNat_add, BitVec.ofNat_add]
    by_cases hx : x = sub
    · subst hx
      cases hs.symm.trans hScript
      rw [if_pos rfl]
      linear_combination hCount
    · have hne : s.subjectId ≠ script.subjectId := fun hEq =>
        hx (inv.distinct x s sub script hs hScript hEq)
      rw [if_neg hx, hOnly _ hne]
  case held => exact inv.held
  case stopped => exact inv.stopped
  case located =>
    intro k hk
    rcases hTab k hk with rfl | hOld
    · exact ⟨sub, script, hScript, hKey.symm, hHash.symm⟩
    · exact inv.located k hOld
  case listed => exact hListed
  case once => exact hOnce

theorem sass3Key_subjectId (env : Env) (sub : Text) (script : RvSubscription) (app : SassApp) :
    (sass3Key env sub script app).subjectId = script.subjectId := rfl

theorem Referenced.subjectId_ne_zero (inv : Referenced env db)
    (ids : SubjectIds env db.nextSubjectCtr) {sub : Text} {s : RvSubscription}
    (h : db.subTab.find? sub = some s) : s.subjectId ≠ 0 := by
  obtain ⟨n, hPos, hLe, hId⟩ := inv.issued sub s h
  rw [hId]
  exact ids.nonzero n hPos hLe

theorem tableKeys_cons (entry : RvSass3Entry) (list : List RvSass3Entry) :
    tableKeys (entry :: list) =
      if entry.subjectId = 0 then tableKeys list else entry.toRvSass3Key :: tableKeys list := by
  unfold tableKeys
  rw [List.map_cons, List.filter_cons]
  by_cases h : entry.subjectId = 0 <;> simp [h]

/-- A new entry at the end of the list. -/
theorem tableKeys_append (list : List RvSass3Entry) {entry : RvSass3Entry}
    (h : entry.subjectId ≠ 0) : tableKeys (list ++ [entry]) = tableKeys list ++ [entry.toRvSass3Key] := by
  simpa [tableKeys] using h

theorem tableKeys_perm {list list' : List RvSass3Entry}
    (h : (list.map RvSass3Entry.toRvSass3Key).Perm (list'.map RvSass3Entry.toRvSass3Key)) :
    (tableKeys list).Perm (tableKeys list') :=
  h.filter _

/-- The rest of the list without a node that is in the table. -/
theorem Referenced.without {entry : RvSass3Entry} {list : List RvSass3Entry}
    (inv : Referenced env db) (hPerm : db.sass3List.Perm (entry :: list))
    (hNe : entry.subjectId ≠ 0) :
    entry.toRvSass3Key ∈ db.sass3Tab ∧
      (∀ k ∈ tableKeys list, k ∈ db.sass3Tab.erase entry.toRvSass3Key) ∧
      (tableKeys list).Nodup := by
  have hKeys : db.sass3Keys.Perm (entry.toRvSass3Key :: tableKeys list) := by
    have hCons := tableKeys_cons entry list
    rw [if_neg hNe] at hCons
    rw [← hCons]
    exact tableKeys_perm (hPerm.map _)
  have hOnce := List.nodup_cons.mp (hKeys.nodup_iff.mp inv.once)
  refine ⟨inv.listed _ (hKeys.mem_iff.mpr List.mem_cons_self), ?_, hOnce.2⟩
  intro k hk
  have hOld := inv.listed k (hKeys.mem_iff.mpr (List.mem_cons_of_mem _ hk))
  exact Finset.mem_erase.mpr ⟨fun hEq => hOnce.1 (hEq ▸ hk), hOld⟩

/-- A key that leaves the table takes one reference with it. -/
theorem Referenced.dropKey {sub : Text} {script : RvSubscription} {key : RvSass3Key}
    {list : List RvSass3Entry} (inv : Referenced env db)
    (hScript : db.subTab.find? sub = some script) (hMem : key ∈ db.sass3Tab)
    (hKey : key.subjectId = script.subjectId) (hHash : key.subjHash = env.crcC sub 0)
    (hListed : ∀ k ∈ tableKeys list, k ∈ db.sass3Tab.erase key) (hOnce : (tableKeys list).Nodup) :
    Referenced env ((db.modifySub sub fun s => s.dropRef false).setSass3
      (db.sass3Tab.erase key) list) := by
  have hMove := sassHolders_erase hMem
  apply inv.moveKey hScript hKey hHash
  · exact fun _ => rfl
  · exact fun k hk => .inr (Finset.mem_of_mem_erase hk)
  · intro id hne
    have hId := hMove id
    rw [decide_eq_false fun hEq => hne (hEq.symm.trans hKey)] at hId
    exact hId
  · have hId := hMove script.subjectId
    rw [decide_eq_true hKey] at hId
    rw [← hId, BitVec.ofNat_add]
    simp [RvSubscription.dropRef]
  · exact hListed
  · exact hOnce

/-- A key that enters the table brings one reference. -/
theorem Referenced.addKey {sub : Text} {script : RvSubscription} {entry : RvSass3Entry}
    (inv : Referenced env db) (hScript : db.subTab.find? sub = some script)
    (hNew : entry.toRvSass3Key ∉ db.sass3Tab) (hNe : entry.subjectId ≠ 0)
    (hKey : entry.subjectId = script.subjectId) (hHash : entry.subjHash = env.crcC sub 0) :
    Referenced env ((db.modifySub sub fun s => s.addRef false).setSass3
      (Insert.insert entry.toRvSass3Key db.sass3Tab) (db.sass3List ++ [entry])) := by
  have hMove := sassHolders_insert hNew
  have hKeys := tableKeys_append db.sass3List hNe
  apply inv.moveKey hScript hKey hHash
  · exact fun _ => rfl
  · exact fun k hk => Finset.mem_insert.mp hk
  · intro id hne
    have hId := hMove id
    rw [decide_eq_false fun hEq => hne (hEq.symm.trans hKey)] at hId
    exact hId
  · have hId := hMove script.subjectId
    rw [decide_eq_true hKey] at hId
    rw [hId, BitVec.ofNat_add, RvSubscription.addRef, add_right_comm, add_assoc]
    rfl
  · rw [hKeys]
    intro k hk
    rcases List.mem_append.mp hk with hOld | hLast
    · exact Finset.mem_insert_of_mem (inv.listed k hOld)
    · rw [List.mem_singleton.mp hLast]
      exact Finset.mem_insert_self _ _
  · rw [hKeys]
    apply List.nodup_append.mpr
    refine ⟨inv.once, List.nodup_singleton _, ?_⟩
    intro k hk k' hk' hEq
    rw [List.mem_singleton.mp hk'] at hEq
    exact hNew (inv.listed _ (hEq ▸ hk))

theorem Quiet.setList {list : List RvSass3Entry} (h : (tableKeys list).Perm db.sass3Keys) :
    Quiet db (db.setSass3 db.sass3Tab list) :=
  ⟨⟨rfl, fun _ s hs hStop => ⟨s, hs, hStop⟩, rfl, h, rfl⟩, rfl⟩

/-- An entry is refreshed or taken out with its reference. -/
theorem sass3Known_keeps (flags : BitVec 16) {sub : Text} {script : RvSubscription} {app : SassApp}
    {old : RvSass3Entry} (hScript : db.subTab.find? sub = some script)
    (hIn : old ∈ db.sass3List) (hKey : old.toRvSass3Key = sass3Key env sub script app) :
    Keeps env db (sass3Known env db sub (sass3Key env sub script app) old flags).1 := by
  have hPerm := List.perm_cons_erase hIn
  unfold sass3Known
  split
  · exact .refl env db
  · dsimp only
    split
    · refine ⟨le_rfl, fun ids inv => ?_⟩
      have hNe : old.subjectId ≠ 0 := by
        have hId : old.subjectId = script.subjectId := congrArg RvSass3Key.subjectId hKey
        rw [hId]
        exact inv.subjectId_ne_zero ids hScript
      obtain ⟨hMem, hListed, hOnce⟩ := inv.without hPerm hNe
      rw [hKey] at hMem hListed
      apply inv.dropKey hScript hMem rfl rfl
      · rw [tableKeys_cons, if_pos rfl]
        exact hListed
      · rw [tableKeys_cons, if_pos rfl]
        exact hOnce
    · apply Quiet.keeps
      apply Quiet.setList
      apply tableKeys_perm
      apply List.Perm.trans _ (hPerm.map RvSass3Entry.toRvSass3Key).symm
      rw [List.map_append, List.map_cons, List.map_nil]
      exact List.perm_append_singleton _ _

/-- An entry is made, and counts as a reference unless it is a snapshot or an unsubscribe. -/
theorem sass3New_keeps (flags : BitVec 16) {sub : Text} {script : RvSubscription} {app : SassApp}
    (hScript : db.subTab.find? sub = some script)
    (hNew : sass3Key env sub script app ∉ db.sass3Tab) :
    Keeps env db (sass3New env db sub (sass3Key env sub script app) flags).1 := by
  unfold sass3New
  split
  · apply Quiet.keeps
    apply Quiet.setList
    rw [tableKeys_cons, if_pos rfl]
    exact .refl _
  · refine ⟨le_rfl, fun ids inv => ?_⟩
    exact inv.addKey hScript hNew (inv.subjectId_ne_zero ids hScript) rfl rfl

theorem sass3_keeps {sub : Text} {script : RvSubscription} {app : SassApp} {flags : BitVec 16}
    {entry : RvSass3Entry} (hScript : db.subTab.find? sub = some script)
    (h : sass3 env db sub script app flags = .ok (db', entry)) : Keeps env db db' := by
  unfold sass3 at h
  dsimp only at h
  split at h
  · split at h
    · cases h
    · rename_i old hFind
      have hIn := List.mem_of_find?_eq_some hFind
      have hKey : old.toRvSass3Key = sass3Key env sub script app := by
        simpa using List.find?_some hFind
      have hKeeps := sass3Known_keeps flags hScript hIn hKey
      rw [Except.ok.inj h] at hKeeps
      exact hKeeps
  · rename_i hNew
    have hKeeps := sass3New_keeps flags hScript hNew
    rw [Except.ok.inj h] at hKeeps
    exact hKeeps

theorem setSass3Start_quiet (db : RvSubscriptionDB) (key : RvSass3Key) :
    Quiet db (setSass3Start db key) := by
  have hKeys : ∀ (list : List RvSass3Entry) (n : Nat),
      (list.modify n fun e => { e with startMono := db.curMono }).map RvSass3Entry.toRvSass3Key =
        list.map RvSass3Entry.toRvSass3Key := by
    intro list n
    apply List.ext_getElem?
    intro m
    simp only [List.getElem?_map, List.getElem?_modify]
    cases list[m]? with
    | none => simp
    | some e => by_cases hm : n = m <;> simp [hm]
  have hPerm := tableKeys_perm (.of_eq (hKeys db.sass3List
    (db.sass3List.findIdx fun e => e.toRvSass3Key = key)))
  exact Quiet.setList hPerm

theorem reapSass3_quiet (db : RvSubscriptionDB) : Quiet db (reapSass3 db) := by
  have hKeys : ∀ list : List RvSass3Entry,
      tableKeys (list.dropWhile fun e => e.subjectId = 0 ∧ e.refMono = 0) = tableKeys list := by
    intro list
    induction list with
    | nil => rfl
    | cons e rest ih =>
        rw [List.dropWhile_cons]
        split
        · rename_i hTemp
          rw [ih, tableKeys_cons, if_pos (of_decide_eq_true hTemp).1]
        · rfl
  exact Quiet.setList (.of_eq (hKeys db.sass3List))

theorem sassSubject_keeps {reply fname : Text} {app : SassApp} {flags : BitVec 16}
    (h : sassSubject env reply app flags db fname = .ok db') : Keeps env db db' := by
  unfold sassSubject at h
  split at h
  · cases h
    exact .refl env db
  · simp only [bind_eq_ok, subAt_eq_ok] at h
    obtain ⟨script, hScript, ⟨db₁, entry⟩, hSass, script₁, -, h⟩ := h
    apply (getSubscription_keeps env db fname.dropLast).trans
    apply (sass3_keeps hScript hSass).trans
    split at h
    · cases h
      exact .refl env _
    · split at h
      · split at h
        · cases h
          exact ((setSass3Start_quiet _ _).trans (emit_quiet _ _)).keeps
        · cases h
          exact (emit_quiet _ _).keeps
      · cases h

/-- A whole `_SASS` message. -/
theorem sassMessage_keeps {reply : Text} {m : Fields}
    (h : sassMessage env db reply m = .ok db') : Keeps env db db' := by
  unfold sassMessage at h
  split at h
  · exact foldlM_rel (Keeps.refl env) Keeps.trans (fun _ _ _ _ hOne => sassSubject_keeps hOne) h
  · cases h
    exact .refl env db

theorem refs_pos_of_holds {name : Text} {sess : RvSessionEntry} {id : BitVec 32}
    (hSess : db.sessionTab.find? name = some sess) (h : sess.holds id = true) : 0 < db.refs id := by
  have hPos : 0 < db.holders id :=
    List.countP_pos_iff.mpr ⟨(name, sess), Table.find?_eq_some.mp hSess, h⟩
  exact Nat.add_pos_left hPos _

theorem refs_pos_of_located {key : RvSass3Key} (h : key ∈ db.sass3Tab) :
    0 < db.refs key.subjectId := by
  have hPos : 0 < db.sassHolders key.subjectId :=
    Finset.card_pos.mpr ⟨key, Finset.mem_filter.mpr ⟨h, rfl⟩⟩
  exact Nat.add_pos_right _ hPos

/-- The count of a subject that is referred to is not zero. -/
theorem Referenced.refcnt_ne_zero (inv : Referenced env db) (few : db.Few) {sub : Text}
    {s : RvSubscription} (hFind : db.subTab.find? sub = some s) (hPos : 0 < db.refs s.subjectId) :
    s.refcnt ≠ 0 := by
  intro hZero
  rw [inv.counted sub s hFind] at hZero
  have hNat := congrArg BitVec.toNat hZero
  rw [BitVec.toNat_ofNat, Nat.mod_eq_of_lt (few s.subjectId)] at hNat
  exact hPos.ne' hNat

theorem expireEntry_frame {entry : RvSass3Entry} (h : expireEntry env db entry = .ok db') :
    db'.nextSubjectCtr = db.nextSubjectCtr ∧ db'.sessionTab = db.sessionTab ∧
      db'.sass3Tab = db.sass3Tab.erase entry.toRvSass3Key := by
  unfold expireEntry at h
  dsimp only at h
  split at h
  · cases h
    exact ⟨rfl, rfl, rfl⟩
  · simp only [bind_eq_ok] at h
    obtain ⟨script, -, h⟩ := h
    split at h
    · cases h
      exact ⟨rfl, rfl, rfl⟩
    · split at h <;> cases h
      exact ⟨rfl, rfl, rfl⟩

/-- A node without a subject id is not in the table and finds no subject. -/
theorem expireEntry_of_zero {entry : RvSass3Entry} {rest : List RvSass3Entry}
    (ids : SubjectIds env db.nextSubjectCtr)
    (inv : Referenced env (db.setSass3 db.sass3Tab (entry :: rest)))
    (hZero : entry.subjectId = 0) (h : expireEntry env db entry = .ok db') :
    Referenced env (db'.setSass3 db'.sass3Tab rest) := by
  have hNone : getSubject env db entry.subjectId entry.subjHash = none := by
    cases hGet : getSubject env db entry.subjectId entry.subjHash with
    | none => rfl
    | some sub =>
        obtain ⟨s, hs, hId, -⟩ := getSubject_eq_some hGet
        exact absurd (hId.trans hZero) (inv.subjectId_ne_zero ids hs)
  have hNot : entry.toRvSass3Key ∉ db.sass3Tab := by
    intro hMem
    obtain ⟨sub, hGet⟩ := Resolves.getSubject (inv.located _ hMem)
    cases hNone.symm.trans hGet
  unfold expireEntry at h
  rw [Finset.erase_eq_of_notMem hNot] at h
  dsimp only at h
  rw [hNone] at h
  cases h
  apply inv.moved
  apply Quiet.moves _ inv
  have hKeys := tableKeys_cons entry rest
  rw [if_pos hZero] at hKeys
  have hPerm : (tableKeys rest).Perm (db.setSass3 db.sass3Tab (entry :: rest)).sass3Keys :=
    .of_eq hKeys.symm
  exact Quiet.setList hPerm

/-- An entry that expires leaves the table with its reference. Its subject is found
and, with fewer than 2^31 references, its count is not zero. -/
theorem expireEntry_of_nonzero {entry : RvSass3Entry} {rest : List RvSass3Entry}
    (few : (db.setSass3 db.sass3Tab (entry :: rest)).Few)
    (inv : Referenced env (db.setSass3 db.sass3Tab (entry :: rest)))
    (hNe : entry.subjectId ≠ 0) (h : expireEntry env db entry = .ok db') :
    Referenced env (db'.setSass3 db'.sass3Tab rest) := by
  obtain ⟨hMem, hListed, hOnce⟩ := inv.without (.refl _) hNe
  obtain ⟨sub, hGet⟩ := Resolves.getSubject (inv.located _ hMem)
  obtain ⟨s, hs, hId, hHash⟩ := getSubject_eq_some hGet
  have hGet' : getSubject env { db with sass3Tab := db.sass3Tab.erase entry.toRvSass3Key }
      entry.subjectId entry.subjHash = some sub := hGet
  have hPos := refs_pos_of_located hMem
  rw [← hId] at hPos
  have hRef := inv.refcnt_ne_zero few hs hPos
  unfold expireEntry at h
  dsimp only at h
  rw [hGet'] at h
  simp only [bind_eq_ok, subAt_eq_ok] at h
  obtain ⟨script, hScript, h⟩ := h
  cases hScript.symm.trans hs
  rw [if_neg hRef] at h
  split at h
  · cases h
    have hDrop := inv.dropKey hs hMem hId.symm hHash.symm hListed hOnce
    apply hDrop.moved
    apply Quiet.moves _ hDrop
    exact .of_eq rfl rfl rfl rfl rfl
  · cases h

/-- An expired entry gives its reference back. -/
theorem expireEntry_ebbs {entry : RvSass3Entry} {rest : List RvSass3Entry}
    (h : expireEntry env db entry = .ok db') :
    Ebbs env (db.setSass3 db.sass3Tab (entry :: rest)) (db'.setSass3 db'.sass3Tab rest) := by
  obtain ⟨hCtr, hSession, hTab⟩ := expireEntry_frame h
  constructor
  case ctr => exact hCtr
  case fewer =>
    intro id
    have hSass : db'.sassHolders id ≤ db.sassHolders id := by
      unfold RvSubscriptionDB.sassHolders
      rw [hTab]
      exact Finset.card_le_card (Finset.filter_subset_filter _ (Finset.erase_subset _ _))
    have hHolders : db'.holders id = db.holders id := by
      simp only [RvSubscriptionDB.holders, hSession]
    change db'.holders id + db'.sassHolders id ≤ db.holders id + db.sassHolders id
    omega
  case keeps =>
    intro ids few inv
    by_cases hZero : entry.subjectId = 0
    · have hIds : SubjectIds env db.nextSubjectCtr := ids
      exact expireEntry_of_zero hIds inv hZero h
    · exact expireEntry_of_nonzero few inv hZero h

/-- So does the whole expiry. -/
theorem expireSass3_ebbs {list : List RvSass3Entry} (h : expireSass3 env db list = .ok db') :
    Ebbs env (db.setSass3 db.sass3Tab list) db' := by
  induction list generalizing db with
  | nil =>
      cases h
      exact .refl env _
  | cons entry rest ih =>
      unfold expireSass3 at h
      split at h
      · rw [bind_eq_ok] at h
        obtain ⟨db₁, hFirst, hRest⟩ := h
        exact (expireEntry_ebbs hFirst).trans (ih hRest)
      · cases h
        exact .refl env _

/-- `gc` takes out subjects without references. -/
theorem gcSubscriptions_ebbs (env : Env) (db : RvSubscriptionDB) :
    Ebbs env db (gcSubscriptions db) := by
  unfold gcSubscriptions
  split
  · refine ⟨rfl, fun _ => le_rfl, fun ids few inv => ?_⟩
    have hFind : ∀ sub s, (db.subTab.filter fun s => s.refcnt ≠ 0).find? sub = some s →
        db.subTab.find? sub = some s := by
      intro sub s hs
      rw [Table.find?_filter] at hs
      exact (Option.filter_eq_some_iff.mp hs).1
    have hKeep : ∀ id hash, 0 < db.refs id → Resolves env db.subTab id hash →
        Resolves env (db.subTab.filter fun s => s.refcnt ≠ 0) id hash := by
      intro id hash hPos hRes
      obtain ⟨sub, s, hs, rfl, hHash⟩ := hRes
      have hRef := inv.refcnt_ne_zero few hs hPos
      refine ⟨sub, s, ?_, rfl, hHash⟩
      rw [Table.find?_filter]
      exact Option.filter_eq_some_iff.mpr ⟨hs, decide_eq_true hRef⟩
    constructor
    case issued => exact fun sub s hs => inv.issued sub s (hFind sub s hs)
    case distinct =>
      exact fun x s y t hs ht hEq => inv.distinct x s y t (hFind x s hs) (hFind y t ht) hEq
    case held =>
      intro name sess ht id hash hSess hHt hMem
      have hHolds : sess.holds id = true := holds_iff.mpr ⟨ht, hash, hHt, hMem⟩
      exact hKeep id hash (refs_pos_of_holds hSess hHolds)
        (inv.held name sess ht id hash hSess hHt hMem)
    case stopped => exact inv.stopped
    case located =>
      exact fun key hKey => hKeep _ _ (refs_pos_of_located hKey) (inv.located key hKey)
    case listed => exact inv.listed
    case once => exact inv.once
    case counted => exact fun sub s hs => inv.counted sub s (hFind sub s hs)
  · exact .refl env db

/-- The stopped sessions that `gc` removes hold nothing. -/
theorem gcSessions_ebbs (env : Env) (db : RvSubscriptionDB) : Ebbs env db (gcSessions db) := by
  unfold gcSessions
  split
  · constructor
    case ctr => rfl
    case fewer =>
      intro id
      apply Nat.add_le_add_right
      exact List.filter_sublist.countP_le
    case keeps =>
      intro _ _ inv
      have hHolders : ∀ id, (db.sessionTab.filter fun s => s.state ≠ .stop).entries.countP
          (fun e => e.2.holds id) = db.holders id := by
        intro id
        rw [holders_eq_total, ← Table.total_filter (p := fun s => s.state ≠ .stop)]
        · exact Table.countP_eq_total _ fun s : RvSessionEntry => s.holds id
        · intro name s hs hStop
          have hNone := inv.stopped name s hs (by simpa using hStop)
          simp [RvSessionEntry.holds, hNone]
      have hFind : ∀ name s, (db.sessionTab.filter fun s => s.state ≠ .stop).find? name = some s →
          db.sessionTab.find? name = some s := by
        intro name s hs
        rw [Table.find?_filter] at hs
        exact (Option.filter_eq_some_iff.mp hs).1
      apply inv.moved
      constructor
      case ctr => rfl
      case ids => exact fun _ => rfl
      case follows =>
        intro sub s s' hs hs'
        cases hs.symm.trans hs'
        have hRefs : db.refs s.subjectId = (db.sessionTab.filter fun s =>
            s.state ≠ .stop).entries.countP (fun e => e.2.holds s.subjectId) +
              db.sassHolders s.subjectId := by
          rw [hHolders]
          rfl
        rw [hRefs]
        rfl
      case held => exact fun name sess ht id hash hs => inv.held name sess ht id hash (hFind _ _ hs)
      case stopped => exact fun name sess hs => inv.stopped name sess (hFind _ _ hs)
      case located => exact inv.located
      case listed => exact inv.listed
      case once => exact inv.once
  · exact .refl env db

theorem gcHosts_hostsOnly (db : RvSubscriptionDB) : HostsOnly db (gcHosts db) := by
  unfold gcHosts
  split
  · exact ⟨rfl, rfl, rfl, rfl, rfl, rfl, rfl, rfl⟩
  · exact .refl db

theorem gc_ebbs (env : Env) (db : RvSubscriptionDB) : Ebbs env db (gc db) :=
  (gcSubscriptions_ebbs env db).trans
    ((gcSessions_ebbs env _).trans (gcHosts_hostsOnly _).quiet.ebbs)

theorem processEvents_ebbs {curMono : BitVec 32} (h : processEvents env db curMono = .ok db') :
    Ebbs env db db' := by
  simp only [processEvents, bind_eq_ok] at h
  obtain ⟨db₁, hExpire, db₂, hPoll, h⟩ := h
  have hClock : Ebbs env db ({ db with curMono := curMono }.setSass3 db.sass3Tab db.sass3List) := by
    apply Quiet.ebbs
    exact .of_eq rfl rfl rfl rfl rfl
  apply hClock.trans
  apply (expireSass3_ebbs hExpire).trans
  apply (softQuery_hostsOnly _ _).quiet.ebbs.trans
  have hHosts : Ebbs env (softQuery db₁ db₁.softHostQuery) db₂ :=
    foldlM_rel (Ebbs.refl env) Ebbs.trans (fun _ _ _ _ hOne => pollHost_ebbs hOne) hPoll
  apply hHosts.trans
  split at h
  · cases h
    refine Ebbs.trans ?_ (gc_ebbs env _)
    apply Quiet.ebbs
    exact .of_eq rfl rfl rfl rfl rfl
  · cases h
    exact .refl env _

end Sassrv.SubMgr
