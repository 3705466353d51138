import Sassrv.SubMgr.HostTurns

/-! The rest of a step in turns: snapshots, sass3 messages, the replies with their
reconciliation, `update_sync` and `process_events`. -/
namespace Sassrv.SubMgr
open Partial Transition

variable {env : Env} {P : RvSubscriptionDB → Call → Prop} {db db' : RvSubscriptionDB} {i : Nat}
  {name sub : Text}

/-! The sessions that a host lists. -/

/-- Sessions that the host in a slot lists under different ids. -/
structure Listing (db : RvSubscriptionDB) (i : Nat) (names : List Text) : Prop where
  lists : ∀ name ∈ names, db.Lists i name
  apart : names.Pairwise fun x y => ∀ s t, db.sessionTab.find? x = some s →
    db.sessionTab.find? y = some t → s.sessionId ≠ t.sessionId

/-- The session with a hash and an id. -/
theorem getSessionBy_eq_some {id hash : BitVec 32} (h : getSessionBy env db id hash = some name) :
    ∃ s, db.sessionTab.find? name = some s ∧ s.sessionId = id ∧ env.crcC name 0 = hash := by
  obtain ⟨⟨x, s⟩, hFind, rfl⟩ := Option.map_eq_some_iff.mp h
  have hMem := List.mem_of_find?_eq_some hFind
  have hProp : env.crcC x 0 = hash ∧ s.sessionId = id := by simpa using List.find?_some hFind
  exact ⟨s, Table.find?_eq_some.mpr hMem, hProp.2, hProp.1⟩

theorem mem_walk {α β : Type} {get : α → Option β} {l : List α} {b : β} (h : b ∈ walk get l) :
    ∃ a ∈ l, get a = some b := by
  induction l with
  | nil => cases h
  | cons x rest ih =>
      unfold walk at h
      split at h
      · cases h
      · next c hc =>
          rcases List.mem_cons.mp h with rfl | hRest
          · exact ⟨x, List.mem_cons_self, hc⟩
          · obtain ⟨a, ha, hGet⟩ := ih hRest
            exact ⟨a, List.mem_cons_of_mem _ ha, hGet⟩

theorem walk_pairwise {α β : Type} {get : α → Option β} {l : List α} {rel : β → β → Prop}
    (h : l.Pairwise fun x y => ∀ b c, get x = some b → get y = some c → rel b c) :
    (walk get l).Pairwise rel := by
  induction l with
  | nil => exact .nil
  | cons x rest ih =>
      obtain ⟨hHead, hRest⟩ := List.pairwise_cons.mp h
      unfold walk
      split
      · exact .nil
      · next b hb =>
          refine List.pairwise_cons.mpr ⟨?_, ih hRest⟩
          intro c hc
          obtain ⟨y, hy, hGet⟩ := mem_walk hc
          exact hHead y hy b c hb hGet

/-- What the walk over a host's table meets is listed by the host. -/
theorem sessionsOf_listing (env : Env) {host : RvHostEntry} (hHost : db.hostTab[i]? = some host) :
    Listing db i (sessionsOf env db host.sessHt) := by
  cases hHt : host.sessHt with
  | none => exact ⟨by simp [sessionsOf], .nil⟩
  | some ht =>
      constructor
      · intro name hName
        obtain ⟨e, he, hGet⟩ := mem_walk hName
        obtain ⟨s, hs, hId, -⟩ := getSessionBy_eq_some hGet
        have hMem := Table.find?_eq_some.mpr ((env.visit_perm ht).mem_iff.mp he)
        exact ⟨host, ht, s, hHost, hHt, hs, Table.contains_iff.mpr ⟨e.2, hId ▸ hMem⟩⟩
      · apply walk_pairwise
        have hNodup : (env.visit ht).Pairwise fun x y => x.1 ≠ y.1 := by
          have hKeys := ((env.visit_perm ht).map Prod.fst).nodup_iff.mpr ht.nodup
          exact List.pairwise_map.mp hKeys
        refine hNodup.imp ?_
        intro x y hNe a b ha hb s t hs ht
        obtain ⟨s', hs', hId, -⟩ := getSessionBy_eq_some ha
        obtain ⟨t', ht', hId', -⟩ := getSessionBy_eq_some hb
        obtain rfl := Option.some.inj (hs.symm.trans hs')
        obtain rfl := Option.some.inj (ht.symm.trans ht')
        rw [hId, hId']
        exact hNe

theorem Listing.filter {names : List Text} (h : Listing db i names) (p : Text → Bool) :
    Listing db i (names.filter p) :=
  ⟨fun name hName => h.lists name (List.mem_of_mem_filter hName), h.apart.filter p⟩

/-- The ids of the sessions are the same, and so is what the host lists. -/
theorem Listing.of_same {names : List Text} (h : Listing db i names)
    (hSessions : ∀ x s', db'.sessionTab.find? x = some s' →
      ∃ s, db.sessionTab.find? x = some s ∧ s'.sessionId = s.sessionId)
    (hLists : ∀ x ∈ names, db.Lists i x → db'.Lists i x) : Listing db' i names := by
  refine ⟨fun x hx => hLists x hx (h.lists x hx), ?_⟩
  refine h.apart.imp ?_
  intro x y hApart s' t' hs' ht'
  obtain ⟨s, hs, hId⟩ := hSessions x s' hs'
  obtain ⟨t, ht, hId'⟩ := hSessions y t' ht'
  rw [hId, hId']
  exact hApart s t hs ht

theorem lists_of_coresKept (hCores : CoresKept db db') (hTab : db'.hostTab = db.hostTab)
    (h : db.Lists i name) : db'.Lists i name := by
  obtain ⟨host, ht, sess, hHost, hHt, hSess, hMem⟩ := h
  obtain ⟨sess', hSess', hSame⟩ := hCores.symm.session hSess
  exact ⟨host, ht, sess', hTab ▸ hHost, hHt, hSess', hSame.sessionId ▸ hMem⟩

theorem Listing.modifySession {names : List Text} (h : Listing db i names) (x : Text)
    {f : RvSessionEntry → RvSessionEntry} (hSame : ∀ s, SameSession s (f s)) :
    Listing (db.modifySession x f) i names := by
  have hCores := modifySession_coresKept db x hSame
  refine h.of_same ?_ fun y _ hy => lists_of_coresKept hCores rfl hy
  intro y s' hs'
  obtain ⟨s, hs, hSame⟩ := hCores.session hs'
  exact ⟨s, hs, hSame.sessionId⟩

/-- A session that is dropped leaves the others listed. -/
theorem remSession_lists {x : Text} (h : remSession env db i name = .ok db') (hx : db.Lists i x)
    (hApart : ∀ s t, db.sessionTab.find? name = some s → db.sessionTab.find? x = some t →
      s.sessionId ≠ t.sessionId) : db'.Lists i x := by
  obtain ⟨host, ht, sess, hHost, hHt, hSess, hMem⟩ := hx
  simp only [remSession, bind_eq_ok] at h
  obtain ⟨db₁, hUnsub, hUnlink⟩ := h
  have hPlain := (unsubSession_digestsOnly hUnsub).plain i
  rw [hHost, Option.map_some] at hPlain
  obtain ⟨host₁, hHost₁, hEq⟩ := Option.map_eq_some_iff.mp hPlain
  have hHt₁ : host₁.sessHt = some ht := (congrArg RvHostEntry.sessHt hEq).trans hHt
  obtain ⟨sess₁, hSess₁⟩ := unsubSession_session_of hUnsub hSess
  have hId : sess₁.sessionId = sess.sessionId := by
    obtain ⟨s, hs, hId, -⟩ := unsubSession_session hUnsub hSess₁
    obtain rfl := Option.some.inj (hSess.symm.trans hs)
    exact hId
  simp only [unlinkSession, bind_eq_ok, hostAt_eq_ok, sessionAt_eq_ok] at hUnlink
  obtain ⟨host₂, hHost₂, named, hNamed, hUnlink⟩ := hUnlink
  obtain rfl := Option.some.inj (hHost₁.symm.trans hHost₂)
  rw [hHt₁] at hUnlink
  dsimp only at hUnlink
  split at hUnlink
  · cases hUnlink
    obtain ⟨s, hs, hNamedId, -⟩ := unsubSession_session hUnsub hNamed
    have hNe := hApart s sess hs hSess
    refine ⟨{ host₁ with
      sessHt := some (ht.erase named.sessionId)
      rv7SessId := if named.hasDaemon then 0 else host₁.rv7SessId }, ht.erase named.sessionId, sess₁,
      by simp [RvSubscriptionDB.modifyHost, hHost₁], rfl, hSess₁, ?_⟩
    rw [Table.contains_erase, hId, hNamedId, hMem]
    simpa using hNe.symm
  · cases hUnlink
    exact ⟨host₁, ht, sess₁, hHost₁, hHt₁, hSess₁, hId ▸ hMem⟩

/-- To drop the first session of a listing leaves the rest listed. -/
theorem Listing.remSession {rest : List Text} (h : Listing db i (name :: rest))
    (hRem : remSession env db i name = .ok db') : Listing db' i rest := by
  obtain ⟨hHead, hRest⟩ := List.pairwise_cons.mp h.apart
  have hTail : Listing db i rest := ⟨fun x hx => h.lists x (List.mem_cons_of_mem _ hx), hRest⟩
  refine hTail.of_same ?_ ?_
  · intro x s' hs'
    have hRem' := hRem
    simp only [SubMgr.remSession, bind_eq_ok] at hRem'
    obtain ⟨db₁, hUnsub, hUnlink⟩ := hRem'
    rw [unlinkSession_sessionTab hUnlink] at hs'
    obtain ⟨s, hs, hId, -⟩ := unsubSession_session hUnsub hs'
    exact ⟨s, hs, hId⟩
  · intro x hx hLists
    exact remSession_lists hRem hLists (hHead x hx)

/-- The marked sessions are dropped one after the other. -/
theorem remSessions_leads {names : List Text} (h : Listing db i names) :
    Leads env P id db (names.foldlM (fun db name => remSession env db i name) db) := by
  induction names generalizing db with
  | nil => exact Leads.pure .refl
  | cons name rest ih =>
      rw [List.foldlM_cons]
      refine Leads.bind (remSession_leads (.inl (h.lists name List.mem_cons_self))) ?_
      intro db₁ hRem
      exact ih (h.remSession hRem)

/-- The sessions that a host lists are queried one after the other. -/
theorem querySessions_listing (env : Env) (P : RvSubscriptionDB → Call → Prop) {names rest : List Text} (h : Listing db i names)
    (hRest : Listing db i rest) :
    Turns env P db (rest.foldl (fun db name => db.modifySession name RvSessionEntry.toQuery) db) ∧
      Listing (rest.foldl (fun db name => db.modifySession name RvSessionEntry.toQuery) db) i
        names := by
  induction rest generalizing db with
  | nil => exact ⟨.refl, h⟩
  | cons name rest ih =>
      have hTail : Listing db i rest :=
        ⟨fun x hx => hRest.lists x (List.mem_cons_of_mem _ hx), (List.pairwise_cons.mp hRest.apart).2⟩
      have hTurn : Turn env P db (db.modifySession name RvSessionEntry.toQuery) :=
        .query (.inr (.inr (.inl ⟨i, hRest.lists name List.mem_cons_self⟩)))
      obtain ⟨hTurns, hListing⟩ := ih (h.modifySession name sameSession_toQuery)
        (hTail.modifySession name sameSession_toQuery)
      exact ⟨.head hTurn hTurns, hListing⟩

/-- The stale sessions of a host are dropped one after the other. -/
theorem stopMarkedSessions_leads : Leads env P id db (stopMarkedSessions env db i) := by
  unfold stopMarkedSessions
  refine Leads.read (hostAt_ne_freeSlot _ _) fun host hHost => ?_
  dsimp only
  split
  · intro hSlot
    cases hSlot
  · have hListing := sessionsOf_listing env (hostAt_eq_ok.mp hHost)
    obtain ⟨hTurns, hStill⟩ := querySessions_listing env P
      (hListing.filter (isMarkedSession db)) (hListing.filter fun name => !isMarkedSession db name)
    exact (remSessions_leads hStill).after hTurns

/-! Advisories. -/

theorem queryHost_leads {buf : Text} (hOk : MeetsUnknown P db buf) :
    Leads env P id db (queryHost env db buf) := by
  unfold queryHost
  refine Leads.read (stringToHostId_ne_freeSlot _) fun hostId hHostId => ?_
  refine Leads.bind (hostRef_leads false (hOk hostId hHostId)) ?_
  rintro ⟨db₁, i⟩ hRef
  apply Leads.pure
  apply Relation.ReflTransGen.single
  exact .touchAwake (hostRef_slot hRef).2 (fun host => sameHost_state host .query) (by simp)

theorem getSession_ne_freeSlot (env : Env) (db : RvSubscriptionDB) (name buf : Text) :
    getSession env db name buf ≠ .error .freeSlot := by
  unfold getSession
  split
  · simp
  · intro hError
    rcases bind_eq_error hError with hRead | ⟨hostId, _, hEnd⟩
    · exact stringToHostId_ne_freeSlot _ hRead
    · cases hEnd

/-- `snapshot` refers to an unknown host or queries the session. -/
theorem snapshot_leads {buf : Text} (hOk : MeetsSnapshot env P db sub name buf) :
    Leads env P Prod.fst db (snapshot env db sub name buf) := by
  have hEnter : Turn env P db (getSubscription env db sub) := .getSubscription sub
  unfold snapshot
  dsimp only
  refine Leads.after (.single hEnter) ?_
  refine Leads.read (subAt_ne_freeSlot _ _) fun script hScript => ?_
  refine Leads.read (getSession_ne_freeSlot _ _ _ _) fun session hSession => ?_
  have hMeets := hOk session hSession
  cases session with
  | none =>
      refine Leads.bind (queryHost_leads hMeets) ?_
      intro db₁ _
      exact Leads.pure .refl
  | some found =>
      dsimp only
      split
      · next hQuery =>
          apply Leads.pure
          apply Relation.ReflTransGen.single
          apply Turn.query
          exact .inr (.inr (.inr (hMeets script (subAt_eq_ok.mp hScript) hQuery.1 hQuery.2)))
      · exact Leads.pure .refl

theorem tic_leads {buf : Text} (hOk : MeetsTic env P db sub name buf) :
    Leads env P Prod.fst db (tic env db sub name buf) := by
  have hEnter : Turn env P db (getSubscription env db sub) := .getSubscription sub
  unfold tic
  dsimp only
  refine Leads.after (.single hEnter) ?_
  refine Leads.read (getSession_ne_freeSlot _ _ _ _) fun session hSession => ?_
  cases session with
  | none =>
      refine Leads.bind (queryHost_leads (hOk hSession)) ?_
      intro db₁ _
      exact Leads.pure .refl
  | some found => exact Leads.pure .refl

theorem snapAdvisory_leads {subject reply : Text} {flags : BitVec 16}
    (hOk : env.listening ∧ 6 < subject.length ∧ 7 + 8 < reply.length →
      MeetsSnapshot env P db (subject.drop 6) (inboxSession reply) (reply.drop 7)) :
    Leads env P id db (snapAdvisory env db subject reply flags) := by
  unfold snapAdvisory
  split
  · next hLong =>
      refine Leads.bind (snapshot_leads (hOk hLong)) ?_
      rintro ⟨db₁, session⟩ _
      exact Leads.pure (.single (.emit rfl))
  · exact Leads.pure .refl

theorem ticAdvisory_leads {subject reply : Text} (hOk : env.listening ∧ 7 + 8 < reply.length →
      MeetsTic env P db subject (inboxSession reply) (reply.drop 7)) :
    Leads env P id db (ticAdvisory env db subject reply) := by
  unfold ticAdvisory
  split
  · next hLong =>
      refine Leads.bind (tic_leads (hOk hLong)) ?_
      rintro ⟨db₁, session⟩ _
      exact Leads.pure (.single (.emit rfl))
  · exact Leads.pure .refl

theorem sass3_ne_freeSlot (env : Env) (db : RvSubscriptionDB) (sub : Text) (script : RvSubscription)
    (app : SassApp) (flags : BitVec 16) : sass3 env db sub script app flags ≠ .error .freeSlot := by
  unfold sass3
  dsimp only
  split
  · split <;> simp
  · simp

/-- One subject of a `_SASS` message. -/
theorem sassSubject_leads {reply fname : Text} {app : SassApp} {flags : BitVec 16}
    (hOk : MeetsSass env P app flags db fname) :
    Leads env P id db (sassSubject env reply app flags db fname) := by
  unfold sassSubject
  split
  · exact Leads.pure .refl
  · next hLong =>
      have hEnter : Turn env P db (getSubscription env db fname.dropLast) := .getSubscription _
      dsimp only
      refine Leads.after (.single hEnter) ?_
      refine Leads.read (subAt_ne_freeSlot _ _) fun script hScript => ?_
      have hSass : Leads env P Prod.fst (getSubscription env db fname.dropLast)
          (sass3 env (getSubscription env db fname.dropLast) fname.dropLast script app flags) := by
        cases hRes : sass3 env (getSubscription env db fname.dropLast) fname.dropLast script app
            flags with
        | ok r => exact .single (.sass3 (hOk (by omega)) (subAt_eq_ok.mp hScript) hRes)
        | error e =>
            rintro rfl
            exact absurd hRes (sass3_ne_freeSlot _ _ _ _ _ _)
      refine Leads.bind hSass ?_
      rintro ⟨db₁, entry⟩ _
      refine Leads.read (subAt_ne_freeSlot _ _) fun script₁ _ => ?_
      dsimp only
      split
      · exact Leads.pure .refl
      · split
        · split
          · have hStart : Turn env P db₁ (setSass3Start db₁ entry.toRvSass3Key) := .sass3List _
            exact Leads.pure (.head hStart (.single (.emit rfl)))
          · exact Leads.pure (.single (.emit rfl))
        · intro hSlot
          cases hSlot

theorem sassMessage_leads {reply : Text} {m : Fields}
    (hOk : ∀ t a names, m.t = some t → m.a = some a → m.s = some names →
      Along (sassSubject env reply (a.getD {}) (sassFlags env t))
        (MeetsSass env P (a.getD {}) (sassFlags env t)) db names) :
    Leads env P id db (sassMessage env db reply m) := by
  unfold sassMessage
  split
  · next t a names ht ha hs =>
      exact Leads.foldlM (fun _ _ _ hMeets => sassSubject_leads hMeets) db (hOk t a names ht ha hs)
  · exact Leads.ok .refl

theorem getRv7Session_found {hostId : BitVec 32} (h : getRv7Session env db hostId = some name) :
    ∃ id, getSessionId env db id = some name := by
  simp only [getRv7Session, Option.bind_eq_bind, Option.bind_eq_some_iff] at h
  obtain ⟨i, -, host, -, h⟩ := h
  split at h
  · cases h
  · obtain ⟨found, hFound, h⟩ := Option.bind_eq_some_iff.mp h
    obtain ⟨sess, -, h⟩ := Option.bind_eq_some_iff.mp h
    split at h
    · cases h
      exact ⟨_, hFound⟩
    · cases h

theorem queryRv7Session_turns (hostId : BitVec 32) :
    Turns env P db (queryRv7Session env db hostId) := by
  unfold queryRv7Session
  split
  · exact .refl
  · next name hName =>
      apply Relation.ReflTransGen.single
      apply Turn.query
      exact .inr (.inl (getRv7Session_found hName))

theorem reapSass3_turns : Turns env P db (reapSass3 db) :=
  .single (.sass3List _)

/-- Each advisory is a sequence of turns, if its calls meet the condition. -/
theorem advisory_leads {info : SubMatch} {subject reply : Text} {m : Fields}
    (hOk : MeetsAdvisory env P db info subject reply m) :
    Leads env P id db (advisory env db info subject reply m) := by
  have hRead : subjectHostId info subject ≠ .error .freeSlot := by
    unfold subjectHostId
    split
    · exact stringToHostId_ne_freeSlot _
    · simp
  unfold advisory
  refine Leads.read hRead fun hostId hHostId => ?_
  have hMeets := hOk hostId hHostId
  dsimp only at hMeets ⊢
  cases hKind : info.kind <;> rw [hKind] at hMeets <;> dsimp only at hMeets ⊢
  case hostStatus => exact hostStatus_leads hMeets
  case hostStart => exact hostStart_leads hMeets
  case hostStop =>
      unfold hostStop
      split
      · exact Leads.ok .refl
      · next i hFind => exact unsubHost_leads (hMeets i hFind)
  case unreachable => exact Leads.pure (queryRv7Session_turns hostId)
  case sessionStart => exact sessionStart_leads hMeets
  case sessionStop => exact sessionStop_leads
  case listenStart => exact listenStartAdvisory_leads hMeets
  case listenStop => exact listenStopAdvisory_leads hMeets
  case snap => exact snapAdvisory_leads hMeets
  case sass =>
      refine Leads.bind (sassMessage_leads hMeets) ?_
      intro db₁ _
      exact Leads.pure reapSass3_turns
  case ticReply => exact ticAdvisory_leads hMeets

/-! Replies. -/

theorem markSessions_turns (host : RvHostEntry) : Turns env P db (markSessions env db host) := by
  apply turns_foldl
  intro db name
  apply Relation.ReflTransGen.single
  refine .touchSession name ?_ ?_
  · intro s
    split <;> exact ⟨rfl, rfl, rfl, rfl, rfl⟩
  · intro s _
    split <;> exact Iff.rfl

/-- One session of a host reply. -/
theorem replySession_leads {item : ReplyField} (hOk : MeetsReplySession env P i db item) :
    Leads env P id db (replySession env i db item) := by
  unfold replySession
  split
  · next name hField hString =>
      refine Leads.read (hostAt_ne_freeSlot _ _) fun host hHost => ?_
      exact sessionRef_leads (hOk name host hField hString (hostAt_eq_ok.mp hHost))
  · exact Leads.pure .refl

theorem MeetsRef.staying {cid : BitVec 16} (h : MeetsRef env P db cid name) :
    MeetsRef env (Staying P) db cid name := by
  intro hNew hostId hHostId
  obtain ⟨hRef, hEnter⟩ := h hNew hostId hHostId
  exact ⟨⟨hRef, by simp⟩, fun db' i hOk => ⟨hEnter db' i hOk, by simp⟩⟩

theorem Turns.of_staying (h : Turns env (Staying P) db db') : Turns env P db db' :=
  Turns.mono (fun _ _ hOk => hOk.1) h

theorem Leads.of_staying {α : Type} {get : α → RvSubscriptionDB} {x : Result α}
    (h : Leads env (Staying P) get db x) : Leads env P get db x := by
  cases x with
  | ok a => exact Turns.of_staying h
  | error e =>
      intro hSlot
      obtain ⟨m, hostId, cid, hTurns, hOk, hRest⟩ := h hSlot
      exact ⟨m, hostId, cid, hTurns.of_staying, hOk.1, hRest⟩

/-- The host stays where it is through its reply, so that its state can be set at the
end. -/
theorem hostReply_leads {items : List ReplyField} (hOk : MeetsHostReply env P db i items) :
    Leads env P id db (hostReply env db i items) := by
  unfold hostReply
  split
  · exact Leads.ok .refl
  · next host hHost =>
      split
      · next hQuery =>
          have hAwake : db.Awake i := ⟨host, hHost, by simp [hQuery]⟩
          have hMark : Turns env (Staying P) db (markSessions env db host) := markSessions_turns host
          have hItems : Leads env (Staying P) id (markSessions env db host)
              (items.foldlM (replySession env i) (markSessions env db host)) := by
            refine Leads.foldlM (fun db item _ hMeets => replySession_leads ?_) _ (hOk host hHost hQuery)
            intro name host hField hString hHost
            exact (hMeets name host hField hString hHost).staying
          apply Leads.of_staying
          refine Leads.after hMark (Leads.bind hItems ?_)
          intro db₁ hDb₁
          have hStop : Leads env (Staying P) id db₁ (stopMarkedSessions env db₁ i) :=
            stopMarkedSessions_leads
          refine Leads.bind hStop ?_
          intro db₂ hDb₂
          apply Leads.pure
          rw [hDb₁] at hItems
          rw [hDb₂] at hStop
          have hStill := Turns.awake hStop.turns (Turns.awake hItems.turns (Turns.awake hMark hAwake))
          apply Relation.ReflTransGen.single
          exact .touchAwake hStill (fun host => sameHost_state host .status) (by simp)
      · exact Leads.ok .refl

theorem markSubscriptions_turns (sess : RvSessionEntry) :
    Turns env P db (markSubscriptions env db sess) := by
  apply turns_foldl
  intro db sub
  apply Relation.ReflTransGen.single
  refine .touchSub sub ?_
  intro s
  split <;> exact ⟨rfl, rfl, rfl⟩

/-- One subject of a session reply. -/
theorem replySubject_leads {item : ReplyField} (hOk : MeetsReplySubject env P name db item) :
    Leads env P id db (replySubject env name db item) := by
  unfold replySubject
  split
  · next sub hField hString =>
    split
    · next hMatched => exact listSubject_leads (hOk sub hField hString hMatched)
    · exact Leads.pure .refl
  · exact Leads.pure .refl
  · split
    · apply Leads.pure
      apply Relation.ReflTransGen.single
      exact .touchSession name (fun _ => ⟨rfl, rfl, rfl, rfl, rfl⟩) fun _ _ => Iff.rfl
    · exact Leads.pure .refl

theorem stopMarkedSubscriptions_leads :
    Leads env P id db (stopMarkedSubscriptions env db name) := by
  unfold stopMarkedSubscriptions
  refine Leads.read (sessionAt_ne_freeSlot _ _) fun sess _ => ?_
  dsimp only
  split
  · intro hSlot
    cases hSlot
  · exact Leads.foldlM_all (fun _ _ => stopMarked_leads) _ _

theorem notify_sessionTab (env : Env) (db : RvSubscriptionDB) (out : Output) :
    (db.notify env out).sessionTab = db.sessionTab := by
  unfold RvSubscriptionDB.notify
  split <;> rfl

theorem listSubject_isLive {x : Text} (h : listSubject env name db sub = .ok db')
    (hLive : isLive db x = true) : isLive db' x = true := by
  simp only [listSubject, bind_eq_ok] at h
  obtain ⟨r, hListen, h⟩ := h
  have hTab : db'.sessionTab = r.db.sessionTab := by
    split at h
    · simp only [bind_eq_ok, pure_eq_ok] at h
      obtain ⟨script, -, rfl⟩ := h
      exact notify_sessionTab env _ _
    · cases h
      rfl
  obtain ⟨sess, ht, script, hSess, -, -, -, hCase⟩ := listenRef_cases hListen
  rw [refSubscription_sessionTab] at hSess
  unfold isLive at hLive ⊢
  rw [hTab]
  rcases hCase with ⟨-, hDb, -⟩ | ⟨-, -, hDb⟩
  · rw [hDb, refSubscription_sessionTab]
    exact hLive
  · rw [hDb, holdSubject_sessionTab, refSubscription_sessionTab, Table.find?_modify]
    cases hFind : db.sessionTab.find? x with
    | none => simp [hFind] at hLive
    | some s =>
        by_cases hx : x = name
        · subst hx
          simpa [hFind, RvSessionEntry.setSubHt] using hLive
        · simpa [hFind, hx] using hLive

theorem replySubject_isLive {x : Text} {item : ReplyField}
    (h : replySubject env name db item = .ok db') (hLive : isLive db x = true) :
    isLive db' x = true := by
  unfold replySubject at h
  split at h
  · split at h
    · exact listSubject_isLive h hLive
    · cases h
      exact hLive
  · cases h
    exact hLive
  · split at h
    · cases h
      refine Eq.trans (isLive_modifySession ?_ x) hLive
      exact fun _ => Iff.rfl
    · cases h
      exact hLive

theorem markSubscriptions_sessionTab (env : Env) (db : RvSubscriptionDB) (sess : RvSessionEntry) :
    (markSubscriptions env db sess).sessionTab = db.sessionTab := by
  have hLoop : ∀ (subs : List Text) (f : Text → RvSubscription → RvSubscription)
      (db : RvSubscriptionDB),
      (subs.foldl (fun db sub => db.modifySub sub (f sub)) db).sessionTab = db.sessionTab := by
    intro subs f
    induction subs with
    | nil => exact fun _ => rfl
    | cons sub rest ih => exact fun db => ih (db.modifySub sub (f sub))
  exact hLoop _ (fun _ s => if s.startMono < sess.queryMono then { s with refMono := 0 } else s) db

theorem sessionReply_leads {sessId : BitVec 32} {items : List ReplyField}
    (hOk : MeetsSessionReply env P db sessId items) :
    Leads env P id db (sessionReply env db sessId items) := by
  unfold sessionReply
  split
  · exact Leads.ok .refl
  · next name hName =>
      refine Leads.read (sessionAt_ne_freeSlot _ _) fun sess hSess => ?_
      split
      · next hQuery =>
          dsimp only
          refine Leads.after (markSubscriptions_turns sess) ?_
          have hMeets := hOk name sess hName (sessionAt_eq_ok.mp hSess) hQuery
          refine Leads.bind (Leads.foldlM (fun _ _ _ hOne => replySubject_leads hOne) _ hMeets) ?_
          intro db₁ hItems
          have hLive : isLive (markSubscriptions env db sess) name = true := by
            unfold isLive
            rw [markSubscriptions_sessionTab, sessionAt_eq_ok.mp hSess]
            simp [hQuery]
          have hAlong : Along (replySubject env name) (fun _ _ => True)
              (markSubscriptions env db sess) items := along_of_forall (fun _ _ => trivial) _ _
          have hStill : isLive db₁ name = true :=
            hAlong.invariant (fun _ _ _ _ hl hOne => replySubject_isLive hOne hl) hLive hItems
          refine Leads.after (.single ?_) stopMarkedSubscriptions_leads
          refine .touchSession name (fun s => ⟨rfl, rfl, rfl, rfl, rfl⟩) ?_
          intro s hs
          replace hs : db₁.sessionTab.find? name = some s := hs
          have hNot : s.state ≠ .stop := by simpa [isLive, hs] using hStill
          refine iff_of_false ?_ hNot
          dsimp only
          split <;> simp
      · exact Leads.pure .refl

/-- So is each message. -/
theorem processPub2_leads {curMono : BitVec 32} {pub : EvPublish} (hOk : MeetsPub env P db curMono pub) :
    Leads env P id db (processPub2 env db curMono pub) := by
  have hClock : Turns env P db { db with curMono := curMono } := .single (.clock curMono)
  unfold MeetsPub at hOk
  unfold processPub2
  cases hInfo : matchRvInfo pub.subject with
  | some info =>
      cases hBody : pub.body with
      | undecodable => exact Leads.ok hClock
      | empty =>
          simp only [hInfo, hBody] at hOk
          exact (advisory_leads hOk).after hClock
      | fields m =>
          simp only [hInfo, hBody] at hOk
          exact (advisory_leads hOk).after hClock
  | none =>
      dsimp only
      split
      · exact Leads.ok .refl
      · cases hBody : pub.body with
        | undecodable => exact Leads.ok hClock
        | empty =>
            intro hSlot
            cases hSlot
        | fields m =>
            simp only [hInfo, hBody, MeetsReply] at hOk
            dsimp only
            unfold queryReply
            split
            · next hHost =>
                rw [if_pos hHost] at hOk
                exact (hostReply_leads hOk).after hClock
            · next hNot =>
                rw [if_neg hNot] at hOk
                exact (sessionReply_leads hOk).after hClock

/-! `update_sync`, `unsub_all` and `process_events`. -/

theorem syncSession_leads {cid : BitVec 16} {s : SyncSession} (hOk : MeetsSyncSession env P cid db s) :
    Leads env P id db (syncSession env cid db s) := by
  unfold syncSession
  split
  · intro hSlot
    cases hSlot
  · dsimp only
    refine Leads.bind (sessionRef_leads hOk.1) ?_
    intro db₁ hRef
    refine Leads.read (sessionAt_ne_freeSlot _ _) fun sess _ => ?_
    split
    · exact Leads.pure .refl
    · exact Leads.foldlM (fun _ _ _ hOne => listSubject_leads hOne) _ (hOk.2 db₁ hRef)

/-- The fields of a host in a sync, with the ids read so far. -/
theorem syncHost_leads {hostId : BitVec 32} {cid : BitVec 16} {fields : List SyncField}
    (hOk : MeetsSync env P hostId cid fields db) :
    Leads env P id db (syncHost env hostId cid fields db) := by
  induction fields generalizing hostId cid db with
  | nil => exact Leads.ok .refl
  | cons field rest ih =>
      cases field with
      | id value => exact ih hOk
      | cid value => exact ih hOk
      | sessions list =>
          unfold MeetsSync at hOk
          unfold syncHost
          split
          · next hZero =>
              rw [if_pos hZero] at hOk
              exact ih hOk
          · next hNot =>
              rw [if_neg hNot] at hOk
              refine Leads.bind (hostRef_leads true hOk.1) ?_
              rintro ⟨db₁, i⟩ hRef
              obtain ⟨hAlong, hNext⟩ := hOk.2 db₁ i hRef
              refine Leads.bind (Leads.foldlM (fun _ _ _ hMeets => syncSession_leads hMeets) _ hAlong) ?_
              intro db₂ hList
              exact ih (hNext db₂ hList)

theorem unsubAll_leads (hOk : Along (fun db i => do
      let host ← db.hostAt i
      if host.state = .stop then return db else unsubHost env db i) (MeetsUnsub P) db
        (List.range db.hostTab.length)) : Leads env P id db (unsubAll env db) := by
  refine Leads.foldlM (fun db i _ hMeets => ?_) db hOk
  refine Leads.read (hostAt_ne_freeSlot _ _) fun host hHost => ?_
  split
  · exact Leads.pure .refl
  · next hNot => exact unsubHost_leads (hMeets ⟨host, hostAt_eq_ok.mp hHost, hNot⟩)

theorem expireEntry_ne_freeSlot (env : Env) (db : RvSubscriptionDB) (entry : RvSass3Entry) :
    expireEntry env db entry ≠ .error .freeSlot := by
  unfold expireEntry
  dsimp only
  split
  · simp
  · intro hError
    rcases bind_eq_error hError with hRead | ⟨script, _, hEnd⟩
    · exact subAt_ne_freeSlot _ _ hRead
    · split at hEnd
      · cases hEnd
      · split at hEnd <;> cases hEnd

/-- The expiry runs down the list of entries. -/
theorem expireSass3_leads {list : List RvSass3Entry} (hOk : MeetsExpiry env P db list) :
    Leads env P id db (expireSass3 env db list) := by
  induction list generalizing db with
  | nil => exact Leads.ok (.single (.sass3List _))
  | cons entry rest ih =>
      unfold expireSass3
      split
      · next hExpired =>
          obtain ⟨hEntry, hNext⟩ := hOk hExpired
          have hFirst : Leads env P id db (expireEntry env db entry) :=
            leads_of_turn (expireEntry_ne_freeSlot _ _ _) fun _ h => .expire hEntry h
          refine Leads.bind hFirst ?_
          intro db₁ hExpire
          exact ih (hNext db₁ hExpire)
      · exact Leads.pure (.single (.sass3List _))

/-- A query of a host, or its timeout. -/
theorem sendHostQuery_leads (hAwake : db.Awake i) (hOk : MeetsSend P db i) :
    Leads env P id db (sendHostQuery env db i) := by
  unfold sendHostQuery
  refine Leads.read (hostAt_ne_freeSlot _ _) fun host hHost => ?_
  split
  · exact Leads.pure .refl
  · next hDue =>
      split
      · next hLate => exact unsubHost_leads (hOk host (hostAt_eq_ok.mp hHost) hDue hLate)
      · apply Leads.pure
        have hEmit : Turn env P db (db.emit (.hostQuery
          (BitVec.ofNat 32 i + hostInboxBase.setWidth 32) host.hostId host.cid)) := .emit rfl
        have hStill : (db.emit (.hostQuery
          (BitVec.ofNat 32 i + hostInboxBase.setWidth 32) host.hostId host.cid)).Awake i := hAwake
        refine .head hEmit (.single ?_)
        exact .touchAwake hStill (fun _ => ⟨rfl, rfl, rfl, rfl, rfl, rfl⟩) fun _ hNot => hNot

/-- A session query leaves the host awake. -/
theorem sendSessionQuery_leads (hAwake : db.Awake i) (hLive : isLive db name = true) :
    Leads env (Staying P) id db (sendSessionQuery env db i name) := by
  unfold sendSessionQuery
  refine Leads.read (hostAt_ne_freeSlot _ _) fun host _ => ?_
  refine Leads.read (sessionAt_ne_freeSlot _ _) fun sess _ => ?_
  split
  · exact Leads.pure .refl
  · split
    · apply Leads.pure
      apply Relation.ReflTransGen.single
      exact .touchAwake hAwake (fun host => sameHost_state host .query) (by simp)
    · split
      · apply Leads.pure
        apply Relation.ReflTransGen.single
        refine .touchSession name (fun s => sameSession_state s .self) ?_
        intro s hs
        have hNot : s.state ≠ .stop := by simpa [isLive, hs] using hLive
        exact iff_of_false (by simp) hNot
      · apply Leads.pure
        have hEmit : Turn env (Staying P) db (db.emit (.sessionQuery
          (sess.sessionId + sessionInboxBase.setWidth 32) host.hostId host.cid name)) := .emit rfl
        refine .head hEmit (.single ?_)
        exact .touchSession name (fun _ => ⟨rfl, rfl, rfl, rfl, rfl⟩) fun _ _ => Iff.rfl

/-- The queries of a host's sessions. -/
theorem querySessions_leads {names : List Text} (hAwake : db.Awake i)
    (hOk : MeetsQuerySessions env P i names db) :
    Leads env P id db (querySessions env i names db) := by
  induction names generalizing db with
  | nil => exact Leads.ok .refl
  | cons name rest ih =>
      unfold querySessions
      refine Leads.read (sessionAt_ne_freeSlot _ _) fun sess hSess => ?_
      have hMeets := hOk sess (sessionAt_eq_ok.mp hSess)
      split
      · next hQuery =>
          rw [if_pos hQuery] at hMeets
          have hLive : isLive db name = true := by
            simp [isLive, sessionAt_eq_ok.mp hSess, hQuery]
          have hSend : Leads env (Staying P) id db (sendSessionQuery env db i name) :=
            sendSessionQuery_leads hAwake hLive
          refine Leads.bind hSend.of_staying ?_
          intro db₁ hDb₁
          rw [hDb₁] at hSend
          have hStill : db₁.Awake i := Turns.awake hSend.turns hAwake
          refine Leads.read (hostAt_ne_freeSlot _ _) fun host hHost => ?_
          have hHost' := hMeets db₁ host hDb₁ (hostAt_eq_ok.mp hHost)
          split
          · next hState =>
              rw [if_pos hState] at hHost'
              exact sendHostQuery_leads hStill hHost'
          · next hState =>
              rw [if_neg hState] at hHost'
              exact ih hStill hHost'
      · next hNot =>
          rw [if_neg hNot] at hMeets
          exact ih hAwake hMeets

theorem checkQueryNeeded_same (host : RvHostEntry) (curMono : BitVec 32) :
    SameHost host (host.checkQueryNeeded curMono) := by
  unfold RvHostEntry.checkQueryNeeded
  split
  · exact ⟨rfl, rfl, rfl, rfl, rfl, rfl⟩
  · split <;> exact ⟨rfl, rfl, rfl, rfl, rfl, rfl⟩

theorem checkQueryNeeded_awake {host : RvHostEntry} {curMono : BitVec 32} (h : host.state ≠ .stop) :
    (host.checkQueryNeeded curMono).state ≠ .stop := by
  unfold RvHostEntry.checkQueryNeeded
  split
  · exact h
  · split
    · simp
    · exact h

/-- One host of `process_events`. -/
theorem pollHost_leads (hOk : MeetsPoll env P db i) : Leads env P id db (pollHost env db i) := by
  unfold pollHost
  refine Leads.read (hostAt_ne_freeSlot _ _) fun host hHost => ?_
  split
  · exact Leads.pure .refl
  · next hNot =>
      have hAwake : db.Awake i := ⟨host, hostAt_eq_ok.mp hHost, hNot⟩
      have hCheck : Turn env P db (db.modifyHost i fun host => host.checkQueryNeeded db.curMono) :=
        .touchAwake hAwake (fun host => checkQueryNeeded_same host _) fun _ => checkQueryNeeded_awake
      have hStill : (db.modifyHost i fun host => host.checkQueryNeeded db.curMono).Awake i :=
        hAwake.modifyHost i fun _ => checkQueryNeeded_awake
      dsimp only
      refine Leads.after (.single hCheck) ?_
      refine Leads.read (hostAt_ne_freeSlot _ _) fun host₁ hHost₁ => ?_
      have hAt := hostAt_eq_ok.mp hHost₁
      have hNot₁ : host₁.state ≠ .stop := by
        obtain ⟨host', hHost', hState⟩ := hStill
        obtain rfl := Option.some.inj (hAt.symm.trans hHost')
        exact hState
      obtain ⟨hSend, hRest⟩ := hOk host₁ hAt hNot₁
      have hDue : Leads env P id (db.modifyHost i fun host => host.checkQueryNeeded db.curMono)
          (queryIfDue env (db.modifyHost i fun host => host.checkQueryNeeded db.curMono) i host₁) := by
        unfold queryIfDue
        split
        · next hQuery => exact sendHostQuery_leads hStill (hSend hQuery)
        · exact Leads.ok .refl
      refine Leads.bind hDue ?_
      intro db₁ hDb₁
      refine Leads.read (hostAt_ne_freeSlot _ _) fun host₂ hHost₂ => ?_
      split
      · exact Leads.pure .refl
      · next hBusy =>
          have hAt₂ := hostAt_eq_ok.mp hHost₂
          refine querySessions_leads ?_ (hRest db₁ host₂ hDb₁ hAt₂ hBusy)
          exact ⟨host₂, hAt₂, fun hStop => hBusy (.inr hStop)⟩

theorem softQuery_turns (n : Nat) : Turns env P db (softQuery db n) := by
  induction n with
  | zero => exact .single (.soft 0)
  | succ n ih =>
      unfold softQuery
      split
      · exact .single (.soft _)
      · split
        · next hAny =>
            obtain ⟨host, hHost, hNot⟩ := (Option.any_eq_true _ _).mp hAny
            have hAwake : ({ db with softHostQuery := n } : RvSubscriptionDB).Awake n :=
              ⟨host, hHost, by simpa using hNot⟩
            refine .head (.soft n) (.single ?_)
            exact .touchAwake hAwake (fun host => sameHost_state host .query) (by simp)
        · exact ih

/-- The expiry, the soft query, the hosts in order, and `gc`. -/
theorem processEvents_leads {curMono : BitVec 32} (hOk : MeetsEvents env P db curMono) :
    Leads env P id db (processEvents env db curMono) := by
  unfold processEvents
  dsimp only
  refine Leads.after (.single (.clock curMono)) ?_
  refine Leads.bind (expireSass3_leads hOk.1) ?_
  intro db₁ hExpire
  obtain ⟨hAlong, hGc⟩ := hOk.2 db₁ hExpire
  refine Leads.after (softQuery_turns db₁.softHostQuery) ?_
  refine Leads.bind (Leads.foldlM (fun _ _ _ hMeets => pollHost_leads hMeets) _ hAlong) ?_
  intro db₃ hPoll
  split
  · next hDue =>
      apply Leads.pure
      have hNext : Turn env P db₃ { db₃ with nextGc := db₃.curMono + 131 } := .nextGc _
      exact .head hNext (.head (.gcSubscriptions (hGc db₃ hPoll hDue))
        (.head .gcSessions (.single .gcHosts)))
  · exact Leads.pure .refl

/-- A step whose calls meet the condition is a sequence of turns that meet it. -/
theorem step_leads {input : Input} (hOk : Meets env P db input) :
    Leads env P id db (step env db input) := by
  cases input with
  | pub curMono pub => exact processPub2_leads hOk
  | events curMono => exact processEvents_leads hOk
  | sync hosts => exact Leads.foldlM (fun _ _ _ hMeets => syncHost_leads hMeets) db hOk
  | gc =>
      apply Leads.ok
      exact .head (.gcSubscriptions hOk) (.head .gcSessions (.single .gcHosts))
  | unsubAll => exact unsubAll_leads hOk

/-- `start_subscriptions` enters its session in the slot of its host, and there is no
session before it. -/
theorem meetsInit_of_enter {curMono : BitVec 32}
    (hRef : P { curMono := curMono, nextGc := curMono + 131 } (.hostRef env.ipaddr env.cid))
    (hEnter : ∀ db i, hostRef env { curMono := curMono, nextGc := curMono + 131 } env.ipaddr env.cid
      true = .ok (db, i) → P (db.modifyHost i fun host => { host with state := .query })
        (.enter i env.ipaddr env.cid env.session)) : MeetsInit env P curMono := by
  refine ⟨hRef, ?_⟩
  intro db i hOk j hExists
  have hSlot : db.hostHt.find? (hashHostId env env.ipaddr env.cid) = some j := (hostExists_slot hExists).1
  obtain rfl := Option.some.inj (hSlot.symm.trans (hostRef_slot hOk).1)
  have hTab : db.sessionTab = .empty := (hostRef_hostsOnly hOk).sessionTab
  have hNew : isLive (db.modifyHost j fun host => { host with state := .query }) env.session = false := by
    simp [isLive, RvSubscriptionDB.modifyHost, hTab]
  refine ⟨fun hLive => absurd (hNew.symm.trans hLive) (by simp), ?_⟩
  intro db' hDrop
  rw [dropLive, hNew] at hDrop
  cases hDrop
  exact hEnter db j hOk

/-- What `start_subscriptions` does to the empty tables. -/
theorem startSubscriptions_turns {curMono : BitVec 32} {s2 : Bool}
    (hOk : MeetsInit env P curMono) (h : startSubscriptions env curMono s2 = .ok db) :
    Turns env P { curMono := curMono, nextGc := curMono + 131 } db := by
  unfold startSubscriptions at h
  dsimp only at h
  split at h
  · simp only [bind_eq_ok] at h
    obtain ⟨⟨db₁, i⟩, hRef, hStart⟩ := h
    have hAwake : db₁.Awake i := (hostRef_slot hRef).2
    refine .head (.hostRef hOk.1 hRef) (.head (.touchAwake hAwake (fun host => sameHost_state host .query)
      (by simp)) ?_)
    have hLeads : Leads env P id (db₁.modifyHost i fun host => { host with state := .query })
        (sessionStart env (db₁.modifyHost i fun host => { host with state := .query }) env.ipaddr env.cid
          env.session true (some (text "self"))) := sessionStart_leads (hOk.2 db₁ i hRef)
    rw [hStart] at hLeads
    exact hLeads
  · cases h
    exact .refl

/-- The runs whose calls all meet a condition. -/
def restricted (env : Env) (P : RvSubscriptionDB → Call → Prop) :
    System RvSubscriptionDB Input Output :=
  (subscriptionDB env).guard fun db input => Meets env P { db with outputs := [] } input

/-- What every turn keeps, these runs keep. -/
theorem restricted_invariant {inv : RvSubscriptionDB → Prop}
    (hEmpty : ∀ curMono, inv { curMono := curMono, nextGc := curMono + 131 } ∧ MeetsInit env P curMono)
    (hOutputs : ∀ db, inv db → inv { db with outputs := [] })
    (hTurn : ∀ db db', Turn env P db db' → inv db → inv db')
    (h : (restricted env P).Reachable db) : inv db := by
  have hTurns : ∀ {db db'}, Turns env P db db' → inv db → inv db' := by
    intro db db' hTurns hInv
    induction hTurns with
    | refl => exact hInv
    | tail _ hLast ih => exact hTurn _ _ hLast ih
  refine h.invariant ?_ ?_
  · rintro start ⟨curMono, s2, hStart⟩
    obtain ⟨hInv, hFirst⟩ := hEmpty curMono
    exact hTurns (startSubscriptions_turns hFirst hStart) hInv
  · rintro s input emitted t hInv ⟨hMeets, hStep, -⟩
    have hLeads := step_leads hMeets
    rw [hStep] at hLeads
    exact hTurns hLeads (hOutputs s hInv)

/-- No step of them ends in the search for a slot, if a slot can always be found. -/
theorem restricted_finds_slot {inv : RvSubscriptionDB → Prop} {input : Input}
    (hTurn : ∀ db db', Turn env P db db' → inv db → inv db') (hFree : ∀ db, inv db → db.FreeSlot)
    (hInv : inv db) (hMeets : Meets env P db input) : step env db input ≠ .error .freeSlot := by
  intro hError
  have hLeads := step_leads hMeets
  rw [hError] at hLeads
  obtain ⟨m, hostId, cid, hTurns, -, -, hNot⟩ := hLeads rfl
  apply hNot
  apply hFree
  clear hNot hError
  induction hTurns with
  | refl => exact hInv
  | tail _ hLast ih => exact hTurn _ _ hLast ih

end Sassrv.SubMgr
