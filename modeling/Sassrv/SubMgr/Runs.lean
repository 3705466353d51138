import Sassrv.SubMgr.Collecting

/-! Runs of the database. Every step keeps the reference counts, and with fewer than
2^31 references in the states before the steps they hold in every state reached. -/
namespace Sassrv.SubMgr
open Partial Transition

variable {env : Env} {db db' : RvSubscriptionDB}

theorem askHost_hostsOnly (env : Env) (db : RvSubscriptionDB) (i : Nat) (host : RvHostEntry) :
    HostsOnly db (askHost env db i host) := by
  unfold askHost
  dsimp only
  split <;> exact ⟨rfl, rfl, rfl, rfl, rfl, rfl, rfl, rfl⟩

/-- A status is about the host alone. -/
theorem hostStatus_quiet {hostId : BitVec 32} {cid : BitVec 16} {m : Fields}
    (h : hostStatus env db hostId cid m = .ok db') : Quiet db db' := by
  simp only [hostStatus, bind_eq_ok] at h
  obtain ⟨⟨db₁, i⟩, hRef, host, -, h⟩ := h
  apply (hostRef_hostsOnly hRef).quiet.trans
  split at h
  · cases h
    exact (modifyHost_hostsOnly _ _ _).quiet.trans (askHost_hostsOnly _ _ _ _).quiet
  · split at h
    · split at h
      · cases h
        exact (askHost_hostsOnly _ _ _ _).quiet
      · cases h
        exact .refl _
    · cases h
      exact .refl _

theorem listenStartAdvisory_keeps {cid : BitVec 16} {name sub reply : Text}
    (h : listenStartAdvisory env db cid name sub reply = .ok db') : Keeps env db db' := by
  simp only [listenStartAdvisory, bind_eq_ok] at h
  obtain ⟨db₁, hRef, sess, -, h⟩ := h
  apply (sessionRef_keeps hRef).trans
  split at h
  · cases h
    exact .refl env _
  · simp only [bind_eq_ok, pure_eq_ok] at h
    obtain ⟨r, hListen, script, -, rfl⟩ := h
    exact (listenRef_keeps hListen).trans (notify_quiet env _ _).keeps

theorem listenStopAdvisory_keeps {cid : BitVec 16} {name sub : Text}
    (h : listenStopAdvisory env db cid name sub = .ok db') : Keeps env db db' := by
  simp only [listenStopAdvisory, bind_eq_ok] at h
  obtain ⟨db₁, hRef, sess, -, h⟩ := h
  apply (sessionRef_keeps hRef).trans
  split at h
  · cases h
    exact .refl env _
  · simp only [bind_eq_ok, pure_eq_ok] at h
    obtain ⟨r, hListen, script, -, rfl⟩ := h
    exact (listenStop_keeps hListen).trans (notify_quiet env _ _).keeps

theorem snapAdvisory_keeps {subject reply : Text} {flags : BitVec 16}
    (h : snapAdvisory env db subject reply flags = .ok db') : Keeps env db db' := by
  unfold snapAdvisory at h
  split at h
  · simp only [bind_eq_ok, pure_eq_ok] at h
    obtain ⟨⟨db₁, session⟩, hSnap, rfl⟩ := h
    exact (snapshot_keeps hSnap).trans (emit_quiet _ _).keeps
  · cases h
    exact .refl env _

theorem ticAdvisory_keeps {subject reply : Text}
    (h : ticAdvisory env db subject reply = .ok db') : Keeps env db db' := by
  unfold ticAdvisory at h
  split at h
  · simp only [bind_eq_ok, pure_eq_ok] at h
    obtain ⟨⟨db₁, session⟩, hTic, rfl⟩ := h
    exact (tic_keeps hTic).trans (emit_quiet _ _).keeps
  · cases h
    exact .refl env _

/-- Every advisory keeps the counts. -/
theorem advisory_keeps {info : SubMatch} {subject reply : Text} {m : Fields}
    (h : advisory env db info subject reply m = .ok db') : Keeps env db db' := by
  simp only [advisory, bind_eq_ok] at h
  obtain ⟨hostId, -, h⟩ := h
  split at h
  · exact (hostStatus_quiet h).keeps
  · exact (hostStart_hostsOnly h).quiet.keeps
  · exact hostStop_keeps h
  · cases h
    exact (queryRv7Session_quiet env db hostId).keeps
  · exact sessionStart_keeps h
  · exact sessionStop_keeps h
  · exact listenStartAdvisory_keeps h
  · exact listenStopAdvisory_keeps h
  · exact snapAdvisory_keeps h
  · simp only [bind_eq_ok, pure_eq_ok] at h
    obtain ⟨db₁, hSass, rfl⟩ := h
    exact (sassMessage_keeps hSass).trans (reapSass3_quiet db₁).keeps
  · exact ticAdvisory_keeps h

theorem replySession_keeps {i : Nat} {item : ReplyField}
    (h : replySession env i db item = .ok db') : Keeps env db db' := by
  unfold replySession at h
  split at h
  · simp only [bind_eq_ok] at h
    obtain ⟨host, -, h⟩ := h
    exact sessionRef_keeps h
  · cases h
    exact .refl env _

/-- A host reply: sessions are entered, and the marked ones dropped. -/
theorem hostReply_keeps {i : Nat} {items : List ReplyField}
    (h : hostReply env db i items = .ok db') : Keeps env db db' := by
  unfold hostReply at h
  split at h
  · cases h
    exact .refl env _
  · rename_i host _
    split at h
    · simp only [bind_eq_ok, pure_eq_ok] at h
      obtain ⟨db₁, hItems, db₂, hStop, rfl⟩ := h
      apply (markSessions_quiet env db host).keeps.trans
      have hLoop : Keeps env (markSessions env db host) db₁ :=
        foldlM_rel (Keeps.refl env) Keeps.trans (fun _ _ _ _ hOne => replySession_keeps hOne) hItems
      apply hLoop.trans
      apply (stopMarkedSessions_keeps hStop).trans
      exact (modifyHost_hostsOnly _ _ _).quiet.keeps
    · cases h
      exact .refl env _

theorem listSubject_keeps {name sub : Text} (h : listSubject env name db sub = .ok db') :
    Keeps env db db' := by
  simp only [listSubject, bind_eq_ok] at h
  obtain ⟨r, hListen, h⟩ := h
  apply (listenRef_keeps hListen).trans
  split at h
  · simp only [bind_eq_ok, pure_eq_ok] at h
    obtain ⟨script, -, rfl⟩ := h
    exact (notify_quiet env _ _).keeps
  · cases h
    exact .refl env _

theorem replySubject_keeps {name : Text} {item : ReplyField}
    (h : replySubject env name db item = .ok db') : Keeps env db db' := by
  unfold replySubject at h
  split at h
  · split at h
    · exact listSubject_keeps h
    · cases h
      exact .refl env _
  · cases h
    exact .refl env _
  · split at h
    · cases h
      apply Quiet.keeps
      exact .modifySession _ _ (fun _ => rfl) fun _ hStop => hStop
    · cases h
      exact .refl env _

/-- A session reply: subjects are taken up, and the stale ones given up. -/
theorem sessionReply_keeps {sessId : BitVec 32} {items : List ReplyField}
    (h : sessionReply env db sessId items = .ok db') : Keeps env db db' := by
  unfold sessionReply at h
  split at h
  · cases h
    exact .refl env _
  · rename_i name _
    simp only [bind_eq_ok] at h
    obtain ⟨sess, -, h⟩ := h
    split at h
    · simp only [bind_eq_ok] at h
      obtain ⟨db₁, hItems, hStop⟩ := h
      apply (markSubscriptions_quiet env db sess).keeps.trans
      have hLoop : Keeps env (markSubscriptions env db sess) db₁ :=
        foldlM_rel (Keeps.refl env) Keeps.trans (fun _ _ _ _ hOne => replySubject_keeps hOne) hItems
      apply hLoop.trans
      refine Keeps.trans ?_ (stopMarkedSubscriptions_keeps hStop)
      apply Quiet.keeps
      apply Quiet.modifySession
      · exact fun _ => rfl
      · intro s hState
        dsimp only at hState
        split at hState <;> cases hState
    · cases h
      exact .refl env _

/-- Every message keeps the counts. -/
theorem processPub2_keeps {curMono : BitVec 32} {pub : EvPublish}
    (h : processPub2 env db curMono pub = .ok db') : Keeps env db db' := by
  have hClock : Keeps env db { db with curMono := curMono } := by
    apply Quiet.keeps
    exact .of_eq rfl rfl rfl rfl rfl
  unfold processPub2 at h
  split at h
  · apply hClock.trans
    dsimp only at h
    split at h
    · cases h
      exact .refl env _
    · exact advisory_keeps h
    · exact advisory_keeps h
  · dsimp only at h
    split at h
    · cases h
      exact .refl env _
    · apply hClock.trans
      split at h
      · cases h
        exact .refl env _
      · cases h
      · unfold queryReply at h
        split at h
        · exact hostReply_keeps h
        · exact sessionReply_keeps h

/-- What is decoded of a body: none of one that cannot be read. -/
def Body.decoded : Body → Option Fields
  | .empty => some {}
  | .undecodable => none
  | .fields m => some m

/-- A message that is recognized goes to its advisory. -/
theorem processPub2_advisory {curMono : BitVec 32} {pub : EvPublish} {info : SubMatch} {m : Fields}
    (hInfo : matchRvInfo pub.subject = some info) (hBody : pub.body.decoded = some m) :
    processPub2 env db curMono pub =
      advisory env { db with curMono := curMono } info pub.subject pub.reply m := by
  unfold processPub2
  rw [hInfo]
  cases hPub : pub.body with
  | undecodable =>
      rw [hPub] at hBody
      cases hBody
  | empty =>
      rw [hPub] at hBody
      cases hBody
      rfl
  | fields =>
      rw [hPub] at hBody
      cases hBody
      rfl

theorem syncSession_keeps {cid : BitVec 16} {s : SyncSession}
    (h : syncSession env cid db s = .ok db') : Keeps env db db' := by
  unfold syncSession at h
  split at h
  · cases h
  · simp only [bind_eq_ok] at h
    obtain ⟨db₁, hRef, sess, -, h⟩ := h
    apply (sessionRef_keeps hRef).trans
    split at h
    · cases h
      exact .refl env _
    · exact foldlM_rel (Keeps.refl env) Keeps.trans (fun _ _ _ _ hOne => listSubject_keeps hOne) h

/-- A host of a sync. -/
theorem syncHost_keeps {hostId : BitVec 32} {cid : BitVec 16} {fields : List SyncField}
    (h : syncHost env hostId cid fields db = .ok db') : Keeps env db db' := by
  induction fields generalizing hostId cid db with
  | nil =>
      cases h
      exact .refl env _
  | cons field rest ih =>
      cases field with
      | id value => exact ih h
      | cid value => exact ih h
      | sessions list =>
          unfold syncHost at h
          split at h
          · exact ih h
          · simp only [bind_eq_ok] at h
            obtain ⟨⟨db₁, i⟩, hRef, db₂, hSessions, h⟩ := h
            apply (hostRef_hostsOnly hRef).quiet.keeps.trans
            have hLoop : Keeps env db₁ db₂ := foldlM_rel (Keeps.refl env) Keeps.trans
              (fun _ _ _ _ hOne => syncSession_keeps hOne) hSessions
            exact hLoop.trans (ih h)

theorem unsubAll_keeps (h : unsubAll env db = .ok db') : Keeps env db db' := by
  apply foldlM_rel (Keeps.refl env) Keeps.trans _ h
  intro db₁ i db₂ _ hOne
  simp only [bind_eq_ok] at hOne
  obtain ⟨host, -, hOne⟩ := hOne
  split at hOne
  · cases hOne
    exact .refl env _
  · exact unsubHost_keeps hOne

/-- One step of the database. -/
theorem step_references {input : Input} (ids : SubjectIds env db'.nextSubjectCtr) (few : db.Few)
    (inv : Referenced env db) (h : step env db input = .ok db') : Referenced env db' := by
  cases input with
  | pub curMono pub => exact (processPub2_keeps h).keeps ids inv
  | events curMono =>
      have hEbbs := processEvents_ebbs h
      exact hEbbs.keeps (hEbbs.ctr ▸ ids) few inv
  | sync hosts =>
      have hKeeps : Keeps env db db' := foldlM_rel (Keeps.refl env) Keeps.trans
        (fun _ _ _ _ hOne => syncHost_keeps hOne) h
      exact hKeeps.keeps ids inv
  | gc =>
      cases h
      have hEbbs := gc_ebbs env db
      exact hEbbs.keeps (hEbbs.ctr ▸ ids) few inv
  | unsubAll => exact (unsubAll_keeps h).keeps ids inv

/-- The counter of subject ids only grows. -/
theorem step_grows {input : Input} (h : step env db input = .ok db') :
    db.nextSubjectCtr ≤ db'.nextSubjectCtr := by
  cases input with
  | pub curMono pub => exact (processPub2_keeps h).grows
  | events curMono => exact (processEvents_ebbs h).ctr.ge
  | sync hosts =>
      exact (foldlM_rel (Keeps.refl env) Keeps.trans (fun _ _ _ _ hOne => syncHost_keeps hOne)
        h).grows
  | gc =>
      cases h
      exact (gc_ebbs env db).ctr.ge
  | unsubAll => exact (unsubAll_keeps h).grows

theorem referenced_empty (env : Env) (curMono nextGc : BitVec 32) :
    Referenced env { curMono := curMono, nextGc := nextGc } where
  issued _ _ h := by cases h
  distinct _ _ _ _ h := by cases h
  held _ _ _ _ _ h := by cases h
  stopped _ _ h := by cases h
  located _ h := by cases h
  listed _ h := by cases h
  once := List.nodup_nil
  counted _ _ h := by cases h

theorem startSubscriptions_keeps {curMono : BitVec 32} {s2 : Bool}
    (h : startSubscriptions env curMono s2 = .ok db) :
    Keeps env { curMono := curMono, nextGc := curMono + 131 } db := by
  unfold startSubscriptions at h
  dsimp only at h
  split at h
  · simp only [bind_eq_ok] at h
    obtain ⟨⟨db₁, i⟩, hRef, hStart⟩ := h
    apply (hostRef_hostsOnly hRef).quiet.keeps.trans
    apply (modifyHost_hostsOnly _ _ _).quiet.keeps.trans
    exact sessionStart_keeps hStart
  · cases h
    exact .refl env _

/-- The runs in which no subject has 2^31 references or more before a step. -/
def fewReferences (env : Env) : System RvSubscriptionDB Input Output :=
  (subscriptionDB env).guard fun db _ => db.Few

/-- The invariant of these runs, as long as the ids given out are good. -/
def Kept (env : Env) (db : RvSubscriptionDB) : Prop :=
  SubjectIds env db.nextSubjectCtr → Referenced env db

theorem reachable_kept (h : (fewReferences env).Reachable db) : Kept env db := by
  refine h.invariant ?_ ?_
  · rintro start ⟨curMono, s2, hStart⟩ ids
    exact (startSubscriptions_keeps hStart).keeps ids (referenced_empty env _ _)
  · rintro s input emitted t inv ⟨few, hStep, -⟩ ids
    have hSame : Quiet s { s with outputs := [] } := .of_eq rfl rfl rfl rfl rfl
    have hGrows := step_grows hStep
    have hBefore := inv (ids.mono hGrows)
    have hFew : { s with outputs := [] }.Few := few
    exact step_references ids hFew (hBefore.moved (hSame.moves hBefore)) hStep

/-- The CRC-32C of a text from a seed, bit by bit. -/
def crc32c (t : Text) (seed : BitVec 32) : BitVec 32 :=
  t.foldl (fun crc c => (List.range 8).foldl (fun crc _ =>
    if crc.getLsbD 0 then crc >>> 1 ^^^ 0x82F63B78#32 else crc >>> 1)
      (crc ^^^ BitVec.ofNat 32 c.toNat)) seed

def littleEndian (n : BitVec 32) : Text :=
  (List.range 4).map fun i => UInt8.ofNat (n >>> (8 * i)).toNat

/-- An environment to run the database in: the hash functions are CRC-32C, tables are
visited in the order of insertion, and the listener is there. -/
def sampleEnv : Env where
  crcC := crc32c
  hashUint n := crc32c (littleEndian n) 0
  visit t := t.entries
  visit_perm t := .refl t.entries
  stringToUint64 t := t.foldl (fun n c => n * 10 + BitVec.ofNat 64 (c.toNat - 48)) 0
  qfSnapshot := 2
  qfUnsubscribe := 4
  qfResubscribe := 8
  qfRefresh := 16
  ipaddr := 0x0A000009#32
  cid := 0
  session := text "0A000009.1"
  listening := true
  isAllSubscribed := true
  filters := []

/-- The state after some inputs, from empty tables. -/
def runInputs (env : Env) (inputs : List Input) : Result RvSubscriptionDB :=
  inputs.foldlM (fun db input => step env { db with outputs := [] } input) { nextGc := 131 }

theorem sample_init : (subscriptionDB sampleEnv).init { nextGc := 131 } :=
  ⟨0, false, rfl⟩

theorem reachable_of_runInputs {inputs : List Input} (h : runInputs sampleEnv inputs = .ok db) :
    (subscriptionDB sampleEnv).Reachable db := by
  have hFrom : ∀ (inputs : List Input) s, (subscriptionDB sampleEnv).Reachable s →
      inputs.foldlM (fun db input => step sampleEnv { db with outputs := [] } input) s = .ok db →
      (subscriptionDB sampleEnv).Reachable db := by
    intro inputs
    induction inputs with
    | nil =>
        intro s hReach hRun
        cases hRun
        exact hReach
    | cons input rest ih =>
        intro s hReach hRun
        rw [List.foldlM_cons, bind_eq_ok] at hRun
        obtain ⟨t, hStep, hRest⟩ := hRun
        have hOne : (subscriptionDB sampleEnv).step s input t.outputs t := ⟨hStep, rfl⟩
        exact ih t (hReach.step hOne) hRest
  exact hFrom inputs _ (System.reachable_of_init sample_init) h

def sampleListen : EvPublish where
  subject := text "_RV.INFO.SYSTEM.LISTEN.START.A.B"
  body := .fields { id := some (text "0A000001.X"), sub := some (text "A.B") }

def sampleDB : RvSubscriptionDB :=
  (runInputs sampleEnv [.pub 5 sampleListen]).toOption.getD {}

/-- The bound on references where the tables are small. -/
theorem few_of_size (h : db.sessionTab.size + db.sass3Tab.card < 2 ^ 31) : db.Few := by
  intro id
  have hHolders : db.holders id ≤ db.sessionTab.size := List.countP_le_length
  have hSass : db.sassHolders id ≤ db.sass3Tab.card := Finset.card_filter_le _ _
  unfold RvSubscriptionDB.refs
  omega

/-- In every state reached, the count of a subscription is the number of sessions
that hold its id plus the number of sass3 entries with it, and what they hold
resolves to a subscription that is still in the table. -/
theorem refcnt_counts_references (env : Env) (db : RvSubscriptionDB)
    (ids : SubjectIds env db.nextSubjectCtr) (few : db.Few)
    (h : (fewReferences env).Reachable db) :
    (∀ sub s, db.subTab.find? sub = some s →
      s.refcnt.toNat = db.holders s.subjectId + db.sassHolders s.subjectId) ∧
    (∀ name sess ht id hash, db.sessionTab.find? name = some sess → sess.subHt = some ht →
      ht.find? id = some hash → ∃ sub s, getSubject env db id hash = some sub ∧
        db.subTab.find? sub = some s ∧ s.subjectId = id) ∧
    (∀ key ∈ db.sass3Tab, ∃ sub s, getSubject env db key.subjectId key.subjHash = some sub ∧
      db.subTab.find? sub = some s ∧ s.subjectId = key.subjectId) := by
  have inv := reachable_kept h ids
  have hGet : ∀ id hash, Resolves env db.subTab id hash → ∃ sub s,
      getSubject env db id hash = some sub ∧ db.subTab.find? sub = some s ∧ s.subjectId = id := by
    intro id hash hRes
    obtain ⟨sub, hSub⟩ := hRes.getSubject
    obtain ⟨s, hs, hId, -⟩ := getSubject_eq_some hSub
    exact ⟨sub, s, hSub, hs, hId⟩
  refine ⟨?_, ?_, ?_⟩
  · intro sub s hs
    have hCount := congrArg BitVec.toNat (inv.counted sub s hs)
    rw [BitVec.toNat_ofNat, Nat.mod_eq_of_lt (few s.subjectId)] at hCount
    exact hCount
  · intro name sess ht id hash hSess hHt hMem
    exact hGet id hash (inv.held name sess ht id hash hSess hHt hMem)
  · intro key hKey
    exact hGet _ _ (inv.located key hKey)

/-- The first ids that the hash gives are good. -/
theorem sampleIds : SubjectIds sampleEnv 3 := by
  have hNonzero : ∀ i < 4, 0 < i → subjectId sampleEnv i ≠ 0 := by decide +kernel
  have hDistinct : ∀ i < 4, ∀ j < 4, 0 < i → 0 < j → subjectId sampleEnv i = subjectId sampleEnv j →
      i = j := by decide +kernel
  exact ⟨fun i hPos hLe => hNonzero i (by omega) hPos,
    fun i j hi hin hj hjn => hDistinct i (by omega) j (by omega) hi hj⟩

theorem sampleDB_reachable : (fewReferences sampleEnv).Reachable sampleDB := by
  have hInit : (fewReferences sampleEnv).Reachable { nextGc := 131 } :=
    System.reachable_of_init sample_init
  have hStep : (fewReferences sampleEnv).step { nextGc := 131 } (.pub 5 sampleListen)
      sampleDB.outputs sampleDB := ⟨few_of_size (by decide), rfl, rfl⟩
  exact hInit.step hStep

theorem refcnt_counts_references_listen :
    (∀ sub s, sampleDB.subTab.find? sub = some s →
      s.refcnt.toNat = sampleDB.holders s.subjectId + sampleDB.sassHolders s.subjectId) ∧
    sampleDB.subTab.entries.map (fun e => (e.1, e.2.refcnt)) = [(text "A.B", 1)] :=
  ⟨(refcnt_counts_references sampleEnv sampleDB (sampleIds.mono (by decide))
    (few_of_size (by decide)) sampleDB_reachable).1, by decide⟩

end Sassrv.SubMgr
