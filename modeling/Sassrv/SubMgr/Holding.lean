import Mathlib.Tactic.LinearCombination
import Sassrv.SubMgr.References

/-! The operations of the database keep the reference counts: what touches hosts
only, what enters a subject or a session, and what adds or drops a reference. -/
namespace Sassrv.SubMgr
open Partial

/-- Only the host table, its index and its counters differ. -/
structure HostsOnly (db db' : RvSubscriptionDB) : Prop where
  subTab : db'.subTab = db.subTab
  sessionTab : db'.sessionTab = db.sessionTab
  sessHt : db'.sessHt = db.sessHt
  sass3Tab : db'.sass3Tab = db.sass3Tab
  sass3List : db'.sass3List = db.sass3List
  curMono : db'.curMono = db.curMono
  nextSessionCtr : db'.nextSessionCtr = db.nextSessionCtr
  nextSubjectCtr : db'.nextSubjectCtr = db.nextSubjectCtr

theorem HostsOnly.refl (db : RvSubscriptionDB) : HostsOnly db db :=
  ⟨rfl, rfl, rfl, rfl, rfl, rfl, rfl, rfl⟩

theorem HostsOnly.quiet {db db' : RvSubscriptionDB} (h : HostsOnly db db') : Quiet db db' :=
  .of_eq h.subTab h.sessionTab h.sass3Tab h.sass3List h.nextSubjectCtr

theorem modifyHost_hostsOnly (db : RvSubscriptionDB) (i : Nat) (f : RvHostEntry → RvHostEntry) :
    HostsOnly db (db.modifyHost i f) :=
  ⟨rfl, rfl, rfl, rfl, rfl, rfl, rfl, rfl⟩

theorem hostAt_eq_ok {db : RvSubscriptionDB} {i : Nat} {host : RvHostEntry} :
    db.hostAt i = .ok host ↔ db.hostTab[i]? = some host := by
  unfold RvSubscriptionDB.hostAt
  cases db.hostTab[i]? <;> simp

theorem sessionAt_eq_ok {db : RvSubscriptionDB} {name : Text} {sess : RvSessionEntry} :
    db.sessionAt name = .ok sess ↔ db.sessionTab.find? name = some sess := by
  unfold RvSubscriptionDB.sessionAt
  cases db.sessionTab.find? name <;> simp

theorem subAt_eq_ok {db : RvSubscriptionDB} {sub : Text} {script : RvSubscription} :
    db.subAt sub = .ok script ↔ db.subTab.find? sub = some script := by
  unfold RvSubscriptionDB.subAt
  cases db.subTab.find? sub <;> simp

/-- `host_ref` changes the hosts alone. -/
theorem hostRef_hostsOnly {env : Env} {db db' : RvSubscriptionDB} {hostId : BitVec 32}
    {cid : BitVec 16} {isStatus : Bool} {i : Nat}
    (h : hostRef env db hostId cid isStatus = .ok (db', i)) : HostsOnly db db' := by
  unfold hostRef at h
  split at h
  · unfold takeSlot at h
    split at h
    · cases h
      exact ⟨rfl, rfl, rfl, rfl, rfl, rfl, rfl, rfl⟩
    · cases h
  · simp only [refSlot, bind_eq_ok] at h
    obtain ⟨host, -, h⟩ := h
    split at h
    · cases h
      exact ⟨rfl, rfl, rfl, rfl, rfl, rfl, rfl, rfl⟩
    · split at h <;> cases h <;> exact modifyHost_hostsOnly _ _ _

/-- `host_start` too: the sessions of a host that is started over stay as they are. -/
theorem hostStart_hostsOnly {env : Env} {db db' : RvSubscriptionDB} {hostId : BitVec 32}
    {cid : BitVec 16} (h : hostStart env db hostId cid = .ok db') : HostsOnly db db' := by
  unfold hostStart at h
  split at h
  · cases h
    exact ⟨rfl, rfl, rfl, rfl, rfl, rfl, rfl, rfl⟩
  · simp only [bind_eq_ok] at h
    obtain ⟨host, -, h⟩ := h
    cases h
    exact modifyHost_hostsOnly _ _ _

theorem hostDigest_hostsOnly (env : Env) (db : RvSubscriptionDB) (name : Text)
    (sess : RvSessionEntry) (sub : Text) (isAdd : Bool) :
    HostsOnly db (hostDigest env db name sess sub isAdd) := by
  unfold hostDigest
  split
  · split
    · exact .refl db
    · exact modifyHost_hostsOnly _ _ _
  · exact .refl db

theorem toQuery_subHt (s : RvSessionEntry) : s.toQuery.subHt = s.subHt := by
  unfold RvSessionEntry.toQuery
  split <;> rfl

/-- A query never stops a session; it may wake one. -/
theorem toQuery_stop {s : RvSessionEntry} (h : s.toQuery.state = .stop) : s.state = .stop := by
  unfold RvSessionEntry.toQuery at h
  split at h
  · exact h
  · cases h

theorem queryRv7Session_quiet (env : Env) (db : RvSubscriptionDB) (hostId : BitVec 32) :
    Quiet db (queryRv7Session env db hostId) := by
  unfold queryRv7Session
  split
  · exact .refl db
  · exact .modifySession db _ toQuery_subHt fun _ => toQuery_stop

theorem notify_quiet (env : Env) (db : RvSubscriptionDB) (out : Output) :
    Quiet db (db.notify env out) := by
  unfold RvSubscriptionDB.notify
  split
  · exact .of_eq rfl rfl rfl rfl rfl
  · exact .refl db

theorem emit_quiet (db : RvSubscriptionDB) (out : Output) : Quiet db (db.emit out) :=
  .of_eq rfl rfl rfl rfl rfl

/-- To enter or unlink a session does not move what it holds. -/
theorem addSession_quiet {env : Env} {db db' : RvSubscriptionDB} {i : Nat} {name : Text}
    (h : addSession env db i name = .ok db') : Quiet db db' := by
  simp only [addSession, bind_eq_ok] at h
  obtain ⟨host, -, sess, -, h⟩ := h
  split at h
  · cases h
  · split at h <;> cases h
    · exact .refl db
    · exact .of_eq rfl rfl rfl rfl rfl

theorem unlinkSession_quiet {db db' : RvSubscriptionDB} {i : Nat} {name : Text}
    (h : unlinkSession db i name = .ok db') : Quiet db db' := by
  simp only [unlinkSession, bind_eq_ok] at h
  obtain ⟨host, -, sess, -, h⟩ := h
  split at h
  · cases h
  · split at h <;> cases h
    · exact .of_eq rfl rfl rfl rfl rfl
    · exact .refl db

section References
variable {env : Env} {db : RvSubscriptionDB}

theorem holders_eq_total (db : RvSubscriptionDB) (id : BitVec 32) :
    db.holders id = db.sessionTab.total fun _ s => (s.holds id).toNat :=
  Table.countP_eq_total db.sessionTab fun s => s.holds id

/-- One session changes the number of holders by its own part. -/
theorem holders_modifySession {name : Text} {s : RvSessionEntry}
    (hFind : db.sessionTab.find? name = some s) (f : RvSessionEntry → RvSessionEntry)
    (id : BitVec 32) :
    (db.modifySession name f).holders id + (s.holds id).toNat =
      db.holders id + ((f s).holds id).toNat := by
  simp only [holders_eq_total]
  exact Table.total_modify f _ hFind

theorem holds_iff {s : RvSessionEntry} {id : BitVec 32} :
    s.holds id = true ↔ ∃ ht hash, s.subHt = some ht ∧ ht.find? id = some hash := by
  unfold RvSessionEntry.holds Table.contains
  cases s.subHt with
  | none => simp
  | some ht => simp [Option.isSome_iff_exists]

/-- An id that no subscription has is not referred to. -/
theorem Referenced.refs_eq_zero (inv : Referenced env db) {id : BitVec 32}
    (h : ∀ sub s, db.subTab.find? sub = some s → s.subjectId ≠ id) : db.refs id = 0 := by
  have hHolders : db.holders id = 0 := by
    apply List.countP_eq_zero.mpr
    intro e he hHolds
    obtain ⟨ht, hash, hHt, hHash⟩ := holds_iff.mp hHolds
    obtain ⟨sub, s, hSub, hEq, -⟩ :=
      inv.held e.1 e.2 ht id hash (Table.find?_eq_some.mpr he) hHt hHash
    exact h sub s hSub hEq
  have hSass : db.sassHolders id = 0 := by
    apply Finset.card_eq_zero.mpr
    apply Finset.filter_eq_empty_iff.mpr
    intro key hKey hEq
    obtain ⟨sub, s, hSub, hId, -⟩ := inv.located key hKey
    exact h sub s hSub (hId.trans hEq)
  simp only [RvSubscriptionDB.refs, hHolders, hSass]

/-- A new subject takes the next id, which nothing refers to. -/
theorem getSubscription_keeps (env : Env) (db : RvSubscriptionDB) (sub : Text) :
    Keeps env db (getSubscription env db sub) := by
  unfold getSubscription
  split
  · exact .refl env db
  · rename_i hNew
    have hFresh : db.subTab.find? sub = none := by simpa [Table.contains] using hNew
    refine ⟨Nat.le_succ _, fun ids inv => ?_⟩
    have hOther : ∀ x s, db.subTab.find? x = some s →
        s.subjectId ≠ subjectId env (db.nextSubjectCtr + 1) := by
      intro x s hs hEq
      obtain ⟨n, hPos, hLe, hId⟩ := inv.issued x s hs
      have := ids.distinct n _ hPos (Nat.le_succ_of_le hLe) (Nat.succ_pos _) le_rfl
        (hId.symm.trans hEq)
      omega
    have hKeep : ∀ x s, db.subTab.find? x = some s → ∃ s',
        (db.subTab.insert sub (.start (subjectId env (db.nextSubjectCtr + 1)) db.curMono)).find? x
          = some s' ∧ s'.subjectId = s.subjectId := by
      intro x s hs
      have hne : x ≠ sub := by
        rintro rfl
        cases hFresh.symm.trans hs
      exact ⟨s, by rw [Table.find?_insert_ne _ _ hne, hs], rfl⟩
    constructor
    case issued =>
      intro x s hs
      simp only [Table.find?_insert] at hs
      split at hs
      · cases hs
        exact ⟨_, Nat.succ_pos _, le_rfl, rfl⟩
      · obtain ⟨n, hPos, hLe, hId⟩ := inv.issued x s hs
        exact ⟨n, hPos, Nat.le_succ_of_le hLe, hId⟩
    case distinct =>
      intro x s y t hs ht hEq
      simp only [Table.find?_insert] at hs ht
      split at hs <;> split at ht
      · rename_i hx hy
        exact hx.trans hy.symm
      · cases hs
        exact absurd hEq.symm (hOther y t ht)
      · cases ht
        exact absurd hEq (hOther x s hs)
      · exact inv.distinct x s y t hs ht hEq
    case held =>
      intro name sess ht id hash hs hHt hMem
      exact (inv.held name sess ht id hash hs hHt hMem).of_subs hKeep
    case stopped => exact inv.stopped
    case located => exact fun key hKey => (inv.located key hKey).of_subs hKeep
    case listed => exact inv.listed
    case once => exact inv.once
    case counted =>
      intro x s hs
      simp only [Table.find?_insert] at hs
      split at hs
      · cases hs
        have hZero := inv.refs_eq_zero hOther
        exact (congrArg (BitVec.ofNat 31) hZero).symm
      · exact inv.counted x s hs

theorem refSubscription_keeps (env : Env) (db : RvSubscriptionDB) (sub : Text) :
    Keeps env db (refSubscription env db sub) := by
  unfold refSubscription
  split
  · apply Quiet.keeps
    apply Quiet.modifySub
    exact fun _ => ⟨rfl, rfl⟩
  · exact getSubscription_keeps env db sub

theorem getSubscription_sessionTab (env : Env) (db : RvSubscriptionDB) (sub : Text) :
    (getSubscription env db sub).sessionTab = db.sessionTab := by
  unfold getSubscription
  split <;> rfl

theorem refSubscription_sessionTab (env : Env) (db : RvSubscriptionDB) (sub : Text) :
    (refSubscription env db sub).sessionTab = db.sessionTab := by
  unfold refSubscription
  split
  · rfl
  · exact getSubscription_sessionTab env db sub

theorem start_state_ne_stop (name : Text) (hostId : BitVec 32) (cid : BitVec 16)
    (sessId curMono : BitVec 32) (isStart : Bool) (user : Option Text) :
    (RvSessionEntry.start name hostId cid sessId curMono isStart user).state ≠ .stop := by
  unfold RvSessionEntry.start
  dsimp only
  split
  · simp
  · split
    · simp
    · split <;> simp

/-- A started session holds nothing. Its entry had no table before. -/
theorem startEntry_keeps {name : Text} {hostId : BitVec 32} {cid : BitVec 16} {isStart : Bool}
    {user : Option Text}
    (h : Referenced env db → ∀ s, db.sessionTab.find? name = some s → s.subHt = none) :
    Keeps env db (startEntry db name hostId cid isStart user) := by
  refine Keeps.of_moves rfl fun _ inv => ?_
  have hRefs : ∀ id, (startEntry db name hostId cid isStart user).refs id = db.refs id := by
    intro id
    apply congrArg (· + db.sassHolders id)
    simp only [holders_eq_total, startEntry]
    cases hFind : db.sessionTab.find? name with
    | none =>
        rw [Table.total_insert _ _ hFind]
        rfl
    | some s =>
        rw [Table.insert_of_found _ (by simp [hFind])]
        have hMove := Table.total_modify (fun _ => RvSessionEntry.start name hostId cid
          (sessionId (db.nextSessionCtr + 1)) db.curMono isStart user)
          (fun _ s => (s.holds id).toNat) hFind
        have hOld : s.holds id = false := by simp [RvSessionEntry.holds, h inv s hFind]
        have hNew : (RvSessionEntry.start name hostId cid (sessionId (db.nextSessionCtr + 1))
          db.curMono isStart user).holds id = false := rfl
        simpa [hOld, hNew] using hMove
  constructor
  case ctr => rfl
  case ids => exact fun _ => rfl
  case follows =>
    intro sub s s' hs hs'
    cases hs.symm.trans hs'
    rw [hRefs]
  case held =>
    intro x s ht id hash hFind hHt hMem
    simp only [startEntry, Table.find?_insert] at hFind
    split at hFind
    · cases hFind
      cases hHt
      cases hMem
    · exact inv.held x s ht id hash hFind hHt hMem
  case stopped =>
    intro x s hFind hStop
    simp only [startEntry, Table.find?_insert] at hFind
    split at hFind
    · cases hFind
      exact absurd hStop (start_state_ne_stop _ _ _ _ _ _ _)
    · exact inv.stopped x s hFind hStop
  case located => exact inv.located
  case listed => exact inv.listed
  case once => exact inv.once

/-- One session's table of subjects changes by one id, and the count of the subject
of that id with it. -/
theorem moveSubject_keeps {name sub : Text} {sess : RvSessionEntry} {script : RvSubscription}
    {ht : UIntHashTab} {f : RvSessionEntry → RvSessionEntry}
    {g : RvSubscription → RvSubscription}
    (hSess : db.sessionTab.find? name = some sess)
    (hScript : db.subTab.find? sub = some script)
    (hTable : (f sess).subHt = some ht) (hState : (f sess).state = sess.state)
    (hLive : Referenced env db → sess.state ≠ .stop)
    (hOnly : ∀ id, id ≠ script.subjectId → (f sess).holds id = sess.holds id)
    (hHeld : ∀ id hash, ht.find? id = some hash →
      (∃ old, sess.subHt = some old ∧ old.find? id = some hash) ∨
        (id = script.subjectId ∧ hash = env.crcC sub 0))
    (hId : ∀ s, (g s).subjectId = s.subjectId)
    (hCount : (g script).refcnt + BitVec.ofNat 31 (sess.holds script.subjectId).toNat =
      script.refcnt + BitVec.ofNat 31 ((f sess).holds script.subjectId).toNat) :
    Keeps env db ((db.modifySession name f).modifySub sub g) := by
  refine Keeps.of_moves rfl fun _ inv => ?_
  have hHolders := holders_modifySession hSess f
  constructor
  case ctr => rfl
  case ids =>
    intro x
    simp only [RvSubscriptionDB.modifySub, RvSubscriptionDB.modifySession, Table.find?_modify,
      Option.map_map]
    congr 1
    funext s
    by_cases hx : x = sub <;> simp [hx, hId]
  case follows =>
    intro x s s' hs hs'
    simp only [RvSubscriptionDB.modifySub, Table.find?_modify, Option.map_eq_some_iff] at hs'
    obtain ⟨t, ht', rfl⟩ := hs'
    cases hs.symm.trans ht'
    have hRefs : ∀ id, ((db.modifySession name f).modifySub sub g).refs id +
        (sess.holds id).toNat = db.refs id + ((f sess).holds id).toNat := by
      intro id
      have := hHolders id
      simp only [RvSubscriptionDB.refs]
      change (db.modifySession name f).holders id + db.sassHolders id + _ = _
      omega
    by_cases hx : x = sub
    · subst hx
      cases hs.symm.trans hScript
      rw [if_pos rfl]
      have hEq := congrArg (BitVec.ofNat 31) (hRefs script.subjectId)
      rw [BitVec.ofNat_add, BitVec.ofNat_add] at hEq
      linear_combination hCount - hEq
    · have hne : s.subjectId ≠ script.subjectId := fun hEq =>
        hx (inv.distinct x s sub script hs hScript hEq)
      have hEq := hRefs s.subjectId
      rw [hOnly _ hne] at hEq
      rw [if_neg hx, Nat.add_right_cancel hEq]
  case held =>
    intro x s ht' id hash hFind hHt hMem
    simp only [RvSubscriptionDB.modifySub, RvSubscriptionDB.modifySession, Table.find?_modify,
      Option.map_eq_some_iff] at hFind
    obtain ⟨t, ht₀, rfl⟩ := hFind
    by_cases hx : x = name
    · subst hx
      cases hSess.symm.trans ht₀
      rw [if_pos rfl, hTable] at hHt
      cases hHt
      rcases hHeld id hash hMem with ⟨old, hOld, hFound⟩ | ⟨rfl, rfl⟩
      · exact inv.held x sess old id hash hSess hOld hFound
      · exact ⟨sub, script, hScript, rfl, rfl⟩
    · rw [if_neg hx] at hHt
      exact inv.held x t ht' id hash ht₀ hHt hMem
  case stopped =>
    intro x s hFind hStop
    simp only [RvSubscriptionDB.modifySub, RvSubscriptionDB.modifySession, Table.find?_modify,
      Option.map_eq_some_iff] at hFind
    obtain ⟨t, ht₀, rfl⟩ := hFind
    by_cases hx : x = name
    · subst hx
      cases hSess.symm.trans ht₀
      rw [if_pos rfl, hState] at hStop
      exact absurd hStop (hLive inv)
    · rw [if_neg hx] at hStop ⊢
      exact inv.stopped x t ht₀ hStop
  case located => exact inv.located
  case listed => exact inv.listed
  case once => exact inv.once

theorem Referenced.live_of_table (inv : Referenced env db) {name : Text} {sess : RvSessionEntry}
    {ht : UIntHashTab} (hSess : db.sessionTab.find? name = some sess)
    (hHt : sess.subHt = some ht) : sess.state ≠ .stop := by
  intro hStop
  have hNone := inv.stopped name sess hSess hStop
  rw [hHt] at hNone
  cases hNone

/-- A session takes up a subject that it did not hold. -/
theorem holdSubject_keeps {name sub : Text} {sess : RvSessionEntry} {ht : UIntHashTab}
    {script : RvSubscription} (hSess : db.sessionTab.find? name = some sess)
    (hHt : sess.subHt = some ht) (hScript : db.subTab.find? sub = some script)
    (hNew : ht.contains script.subjectId = false) :
    Keeps env db (holdSubject env db name sess ht sub script).1 := by
  have hMove : Keeps env db ((db.modifySession name fun s =>
      s.setSubHt (ht.insert script.subjectId (env.crcC sub 0))).modifySub sub fun s =>
      s.addRef sess.hasDaemon) := by
    apply moveSubject_keeps hSess hScript rfl rfl (fun inv => inv.live_of_table hSess hHt)
    · intro id hne
      simp [RvSessionEntry.holds, RvSessionEntry.setSubHt, hHt, Table.contains_insert, hne]
    · intro id hash hFound
      rw [Table.find?_insert] at hFound
      split at hFound
      · rename_i hEq
        cases hFound
        exact .inr ⟨hEq, rfl⟩
      · exact .inl ⟨ht, hHt, hFound⟩
    · exact fun _ => rfl
    · simp [RvSessionEntry.holds, RvSessionEntry.setSubHt, RvSubscription.addRef, hHt, hNew,
        Table.contains_insert]
  apply hMove.trans
  unfold holdSubject
  dsimp only
  split
  · apply Keeps.trans (hostDigest_hostsOnly env _ name sess sub true).quiet.keeps
    apply Quiet.keeps
    exact .of_eq rfl rfl rfl rfl rfl
  · exact (hostDigest_hostsOnly env _ name sess sub true).quiet.keeps

/-- A session gives up a subject that it held. -/
theorem releaseSubject_keeps {name sub : Text} {sess : RvSessionEntry} {ht : UIntHashTab}
    {script : RvSubscription} (hSess : db.sessionTab.find? name = some sess)
    (hHt : sess.subHt = some ht) (hScript : db.subTab.find? sub = some script)
    (hHeld : ht.contains script.subjectId = true) :
    Keeps env db (releaseSubject env db name sess ht sub script).1 := by
  have hMove : Keeps env db ((db.modifySession name fun s =>
      s.setSubHt (ht.erase script.subjectId)).modifySub sub fun s =>
      s.dropRef sess.hasDaemon) := by
    apply moveSubject_keeps hSess hScript rfl rfl (fun inv => inv.live_of_table hSess hHt)
    · intro id hne
      simp [RvSessionEntry.holds, RvSessionEntry.setSubHt, hHt, Table.contains_erase, hne]
    · intro id hash hFound
      rw [Table.find?_erase] at hFound
      split at hFound
      · cases hFound
      · exact .inl ⟨ht, hHt, hFound⟩
    · exact fun _ => rfl
    · simp [RvSessionEntry.holds, RvSessionEntry.setSubHt, RvSubscription.dropRef, hHt, hHeld,
        Table.contains_erase]
  apply hMove.trans
  unfold releaseSubject
  dsimp only
  split
  · apply Keeps.trans (hostDigest_hostsOnly env _ name sess sub false).quiet.keeps
    apply Quiet.keeps
    exact .of_eq rfl rfl rfl rfl rfl
  · apply Keeps.trans (hostDigest_hostsOnly env _ name sess sub false).quiet.keeps
    split
    · exact (queryRv7Session_quiet env _ _).keeps
    · exact .refl env _

/-- A walk that never stops early is a `filterMap`. -/
theorem walk_eq_filterMap {α β : Type} {get : α → Option β} {l : List α}
    (h : ∀ x ∈ l, ∃ b, get x = some b) : walk get l = l.filterMap get := by
  induction l with
  | nil => rfl
  | cons x rest ih =>
      obtain ⟨b, hb⟩ := h x List.mem_cons_self
      have hRest := ih fun y hy => h y (List.mem_cons_of_mem _ hy)
      simp only [walk, hb, hRest, List.filterMap_cons]

theorem getSubject_eq_some {id hash : BitVec 32} {sub : Text}
    (h : getSubject env db id hash = some sub) :
    ∃ s, db.subTab.find? sub = some s ∧ s.subjectId = id ∧ env.crcC sub 0 = hash := by
  obtain ⟨⟨x, s⟩, hFind, rfl⟩ := Option.map_eq_some_iff.mp h
  have hMem := List.mem_of_find?_eq_some hFind
  have hProp : env.crcC x 0 = hash ∧ s.subjectId = id := by simpa using List.find?_some hFind
  exact ⟨s, Table.find?_eq_some.mpr hMem, hProp.2, hProp.1⟩

/-- An id that resolves leads to a subject. -/
theorem Resolves.getSubject {id hash : BitVec 32} (h : Resolves env db.subTab id hash) :
    ∃ sub, getSubject env db id hash = some sub := by
  obtain ⟨sub, s, hFind, hId, hHash⟩ := h
  have hSome : (db.subTab.entries.find? fun e =>
      env.crcC e.1 0 = hash ∧ e.2.subjectId = id).isSome := by
    apply List.find?_isSome.mpr
    exact ⟨(sub, s), Table.find?_eq_some.mp hFind, decide_eq_true ⟨hHash, hId⟩⟩
  obtain ⟨e, he⟩ := Option.isSome_iff_exists.mp hSome
  exact ⟨e.1, by rw [SubMgr.getSubject, he, Option.map_some]⟩

section Subjects
variable {name : Text} {sess : RvSessionEntry}

/-- The walk over a session's table meets every subject that it holds. -/
theorem Referenced.subjects_eq (inv : Referenced env db)
    (hSess : db.sessionTab.find? name = some sess) {ht : UIntHashTab} (hHt : sess.subHt = some ht) :
    subjects env db (some ht) = (env.visit ht).filterMap fun e => getSubject env db e.1 e.2 := by
  apply walk_eq_filterMap
  intro e he
  have hMem := Table.find?_eq_some.mpr ((env.visit_perm ht).mem_iff.mp he)
  exact (inv.held name sess ht e.1 e.2 hSess hHt hMem).getSubject

/-- The loops over the subjects of a session reach all of them. -/
theorem Referenced.mem_subjects (inv : Referenced env db)
    (hSess : db.sessionTab.find? name = some sess) {x : Text} :
    x ∈ subjects env db sess.subHt ↔
      ∃ s, db.subTab.find? x = some s ∧ sess.holds s.subjectId = true := by
  cases hHt : sess.subHt with
  | none => simp [subjects, RvSessionEntry.holds, hHt]
  | some ht =>
      rw [inv.subjects_eq hSess hHt, List.mem_filterMap]
      constructor
      · rintro ⟨e, he, hGet⟩
        obtain ⟨s, hs, hId, -⟩ := getSubject_eq_some hGet
        have hMem := Table.find?_eq_some.mpr ((env.visit_perm ht).mem_iff.mp he)
        exact ⟨s, hs, holds_iff.mpr ⟨ht, e.2, hHt, hId ▸ hMem⟩⟩
      · rintro ⟨s, hs, hHolds⟩
        obtain ⟨ht', hash, hHt', hFind⟩ := holds_iff.mp hHolds
        cases hHt.symm.trans hHt'
        obtain ⟨y, hy⟩ := (inv.held name sess ht _ hash hSess hHt hFind).getSubject
        obtain ⟨t, hFound, hId, -⟩ := getSubject_eq_some hy
        have hxy := inv.distinct y t x s hFound hs hId
        refine ⟨(s.subjectId, hash), (env.visit_perm ht).mem_iff.mpr (Table.find?_eq_some.mp hFind),
          ?_⟩
        rw [← hxy]
        exact hy

/-- It meets each once. -/
theorem Referenced.subjects_nodup (inv : Referenced env db)
    (hSess : db.sessionTab.find? name = some sess) : (subjects env db sess.subHt).Nodup := by
  cases hHt : sess.subHt with
  | none => exact List.nodup_nil
  | some ht =>
      rw [inv.subjects_eq hSess hHt]
      apply List.Nodup.filterMap
      · intro e e' x hx hx'
        obtain ⟨s, hs, hId, hHash⟩ := getSubject_eq_some hx
        obtain ⟨t, ht, hId', hHash'⟩ := getSubject_eq_some hx'
        cases hs.symm.trans ht
        exact Prod.ext (hId.symm.trans hId') (hHash.symm.trans hHash')
      · exact (env.visit_perm ht).nodup_iff.mpr (List.Nodup.of_map _ ht.nodup)

theorem unsubSubject_calm (env : Env) (name : Text) (sess : RvSessionEntry)
    (db : RvSubscriptionDB) (sub : Text) : Calm db (unsubSubject env name sess db sub) := by
  unfold unsubSubject
  split
  · exact .refl db
  · have hFirst : Calm db ((hostDigest env db name sess sub false).modifySub sub fun s =>
        s.dropRef sess.hasDaemon) := by
      apply (hostDigest_hostsOnly env db name sess sub false).quiet.toCalm.trans
      exact .of_eq rfl rfl rfl rfl
    apply hFirst.trans
    dsimp only
    split
    · refine Calm.trans ?_ (notify_quiet env _ _).toCalm
      exact .of_eq rfl rfl rfl rfl
    · refine Calm.trans ?_ (notify_quiet env _ _).toCalm
      split
      · exact (queryRv7Session_quiet env _ _).toCalm
      · exact .refl _

theorem queryRv7Session_subTab (env : Env) (db : RvSubscriptionDB) (hostId : BitVec 32) :
    (queryRv7Session env db hostId).subTab = db.subTab := by
  unfold queryRv7Session
  split <;> rfl

theorem notify_subTab (env : Env) (db : RvSubscriptionDB) (out : Output) :
    (db.notify env out).subTab = db.subTab := by
  unfold RvSubscriptionDB.notify
  split <;> rfl

/-- One subject of `unsub_session` loses one reference. -/
theorem unsubSubject_subTab (env : Env) (name : Text) (sess : RvSessionEntry)
    (db : RvSubscriptionDB) (sub : Text) :
    (unsubSubject env name sess db sub).subTab =
      db.subTab.modify sub fun s => s.dropRef sess.hasDaemon := by
  have hDigest := (hostDigest_hostsOnly env db name sess sub false).subTab
  unfold unsubSubject
  split
  · rename_i hNone
    exact (Table.modify_of_none _ hNone).symm
  · dsimp only
    split
    · rw [notify_subTab, RvSubscriptionDB.modifySub, hDigest]
    · rw [notify_subTab]
      split
      · rw [queryRv7Session_subTab, RvSubscriptionDB.modifySub, hDigest]
      · rw [RvSubscriptionDB.modifySub, hDigest]

theorem unsubSubjects_calm (env : Env) (name : Text) (sess : RvSessionEntry) (subs : List Text)
    (db : RvSubscriptionDB) : Calm db (subs.foldl (unsubSubject env name sess) db) :=
  foldl_rel Calm.refl Calm.trans (fun db sub _ => unsubSubject_calm env name sess db sub) db

/-- The loop of `unsub_session` takes one reference from each of its subjects. -/
theorem unsubSubjects_find (env : Env) (name : Text) (sess : RvSessionEntry) {subs : List Text}
    (hNodup : subs.Nodup) (db : RvSubscriptionDB) (x : Text) :
    (subs.foldl (unsubSubject env name sess) db).subTab.find? x =
      (db.subTab.find? x).map fun s => if x ∈ subs then s.dropRef sess.hasDaemon else s := by
  induction subs generalizing db with
  | nil => simp
  | cons sub rest ih =>
      obtain ⟨hHead, hRest⟩ := List.nodup_cons.mp hNodup
      rw [List.foldl_cons, ih hRest, unsubSubject_subTab, Table.find?_modify, Option.map_map]
      congr 1
      funext s
      by_cases hx : x = sub
      · subst hx
        simp [hHead]
      · simp [hx]

end Subjects

/-- The references that a session gives back when it is closed. -/
theorem closeSession_refs {db db₁ : RvSubscriptionDB} (hCalm : Calm db db₁) {name : Text}
    {sess : RvSessionEntry} (hSess : db.sessionTab.find? name = some sess) (id : BitVec 32) :
    (closeSession db₁ name sess.sessionId).refs id + (sess.holds id).toNat = db.refs id := by
  have hSame := congrArg (fun t => t.find? name) hCalm.held
  simp only [Table.find?_map, hSess, Option.map_some] at hSame
  obtain ⟨sess₁, hSess₁, hHt⟩ := Option.map_eq_some_iff.mp hSame
  have hMove : (closeSession db₁ name sess.sessionId).holders id + (sess₁.holds id).toNat =
      db₁.holders id + 0 :=
    holders_modifySession hSess₁ (fun s => s.stop db₁.curMono) id
  have hHolds : sess₁.holds id = sess.holds id := by simp only [RvSessionEntry.holds, hHt]
  have hSass : db₁.sassHolders id = db.sassHolders id := by
    simp only [RvSubscriptionDB.sassHolders, hCalm.tab]
  rw [hHolds, hCalm.holders] at hMove
  simp only [RvSubscriptionDB.refs]
  change _ + db₁.sassHolders id + _ = _
  omega

/-- A session that is dropped gives back the references of its table. -/
theorem unsubSession_keeps {db' : RvSubscriptionDB} {name : Text}
    (h : unsubSession env db name = .ok db') : Keeps env db db' := by
  simp only [unsubSession, bind_eq_ok, pure_eq_ok, sessionAt_eq_ok] at h
  obtain ⟨sess, hSess, rfl⟩ := h
  have hCalm := unsubSubjects_calm env name sess (subjects env db sess.subHt) db
  refine Keeps.of_moves hCalm.ctr fun _ inv => ?_
  have hFind := unsubSubjects_find env name sess (inv.subjects_nodup hSess) db
  have hHolds := fun x => inv.mem_subjects hSess (x := x)
  generalize (subjects env db sess.subHt).foldl (unsubSubject env name sess) db = db₁
    at hCalm hFind
  have hRefs := closeSession_refs hCalm hSess
  constructor
  case ctr => exact hCalm.ctr
  case ids =>
    intro x
    change (db₁.subTab.find? x).map _ = _
    rw [hFind, Option.map_map]
    congr 1
    funext s
    by_cases hx : x ∈ subjects env db sess.subHt <;> simp [hx, RvSubscription.dropRef]
  case follows =>
    intro x s s' hs hs'
    replace hs' : db₁.subTab.find? x = some s' := hs'
    rw [hFind, hs, Option.map_some, Option.some.injEq] at hs'
    have hMem : x ∈ subjects env db sess.subHt ↔ sess.holds s.subjectId = true := by
      rw [hHolds]
      constructor
      · rintro ⟨t, ht, hHeld⟩
        exact Option.some.inj (hs.symm.trans ht) ▸ hHeld
      · exact fun h => ⟨s, hs, h⟩
    have hEq := hRefs s.subjectId
    by_cases hx : sess.holds s.subjectId = true
    · rw [if_pos (hMem.mpr hx)] at hs'
      rw [← hs', ← hEq, hx]
      simp [RvSubscription.dropRef, BitVec.ofNat_add]
    · rw [if_neg (hMem.not.mpr hx)] at hs'
      simp only [Bool.not_eq_true] at hx
      rw [hx] at hEq
      rw [← hs', ← hEq]
      rfl
  case held =>
    intro x s ht id hash hs hHtEq hMem
    simp only [closeSession, RvSubscriptionDB.modifySession, Table.find?_modify,
      Option.map_eq_some_iff] at hs
    obtain ⟨t, ht₁, rfl⟩ := hs
    split at hHtEq
    · cases hHtEq
    · exact hCalm.heldAt inv ht₁ hHtEq hMem
  case stopped =>
    intro x s hs hStop
    simp only [closeSession, RvSubscriptionDB.modifySession, Table.find?_modify,
      Option.map_eq_some_iff] at hs
    obtain ⟨t, ht₁, rfl⟩ := hs
    by_cases hx : x = name
    · rw [if_pos hx]
      rfl
    · rw [if_neg hx] at hStop ⊢
      exact hCalm.stoppedAt inv ht₁ hStop
  case located => exact fun key hKey => inv.located key (hCalm.tab ▸ hKey)
  case listed => exact hCalm.listedAt inv
  case once => exact hCalm.keys.nodup_iff.mpr inv.once

end References
end Sassrv.SubMgr
