import Sassrv.SubMgr.StepTurns

/-! Conditions on the calls of a step, taken together. Runs that meet two of them meet
what follows from both, call by call. -/
namespace Sassrv.SubMgr
open Partial

variable {env : Env} {P Q R : RvSubscriptionDB → Call → Prop} {db : RvSubscriptionDB} {i : Nat}
  {name : Text}

/-- The same along a loop over items. -/
theorem along_and {σ α ε : Type} {f : σ → α → Except ε σ} {p q r : σ → α → Prop} {s : σ}
    {items : List α} (hBoth : ∀ s a, p s a → q s a → r s a) (hp : Along f p s items)
    (hq : Along f q s items) : Along f r s items := by
  induction items generalizing s with
  | nil => trivial
  | cons a rest ih => exact ⟨hBoth s a hp.1 hq.1, fun t h => ih (hp.2 t h) (hq.2 t h)⟩

section
variable (hBoth : ∀ db call, P db call → Q db call → R db call)
include hBoth

/-- `session_ref`, with the host that it makes. -/
theorem MeetsRef.and {cid : BitVec 16} (hp : MeetsRef env P db cid name)
    (hq : MeetsRef env Q db cid name) : MeetsRef env R db cid name := by
  intro hNew hostId hId
  obtain ⟨hRef, hEnter⟩ := hp hNew hostId hId
  obtain ⟨hRef', hEnter'⟩ := hq hNew hostId hId
  exact ⟨hBoth _ _ hRef hRef', fun db' i h => hBoth _ _ (hEnter db' i h) (hEnter' db' i h)⟩

/-- One case per advisory, as `process_pub2` tells them apart. -/
theorem MeetsAdvisory.and {info : SubMatch} {subject reply : Text} {m : Fields}
    (hp : MeetsAdvisory env P db info subject reply m) (hq : MeetsAdvisory env Q db info subject reply m) :
    MeetsAdvisory env R db info subject reply m := by
  intro hostId hId
  have hFirst := hp hostId hId
  have hNext := hq hostId hId
  dsimp only at hFirst hNext ⊢
  cases hKind : info.kind <;> simp only [hKind] at hFirst hNext ⊢
  case hostStatus => exact hBoth _ _ hFirst hNext
  case hostStart => exact hBoth _ _ hFirst hNext
  case hostStop => exact fun i hFind => hBoth _ _ (hFirst i hFind) (hNext i hFind)
  case sessionStart =>
    intro i hFind
    exact ⟨fun hLive => hBoth _ _ ((hFirst i hFind).1 hLive) ((hNext i hFind).1 hLive),
      fun db' hDrop => hBoth _ _ ((hFirst i hFind).2 db' hDrop) ((hNext i hFind).2 db' hDrop)⟩
  case listenStart =>
    exact ⟨MeetsRef.and hBoth hFirst.1 hNext.1,
      fun db' hRef => hBoth _ _ (hFirst.2 db' hRef) (hNext.2 db' hRef)⟩
  case listenStop =>
    exact ⟨MeetsRef.and hBoth hFirst.1 hNext.1, fun db' hRef r hStop hDone =>
      hBoth _ _ (hFirst.2 db' hRef r hStop hDone) (hNext.2 db' hRef r hStop hDone)⟩
  case snap =>
    intro hLong session hGet
    have hSnap := hFirst hLong session hGet
    have hSnap' := hNext hLong session hGet
    cases session with
    | none => exact fun hostId hId => hBoth _ _ (hSnap hostId hId) (hSnap' hostId hId)
    | some found =>
        exact fun script hScript hRef hCnt =>
          hBoth _ _ (hSnap script hScript hRef hCnt) (hSnap' script hScript hRef hCnt)
  case sass =>
    intro t a names ht ha hNames
    refine along_and ?_ (hFirst t a names ht ha hNames) (hNext t a names ht ha hNames)
    exact fun _ _ hOne hOther hLong => hBoth _ _ (hOne hLong) (hOther hLong)
  case ticReply =>
    exact fun hLong hGet hostId hId =>
      hBoth _ _ (hFirst hLong hGet hostId hId) (hNext hLong hGet hostId hId)

/-- The field list of the daemon's own table, with its inner loops. -/
theorem MeetsSync.and {hostId : BitVec 32} {cid : BitVec 16} {fields : List SyncField}
    (hp : MeetsSync env P hostId cid fields db) (hq : MeetsSync env Q hostId cid fields db) :
    MeetsSync env R hostId cid fields db := by
  induction fields generalizing hostId cid db with
  | nil => trivial
  | cons field rest ih =>
      cases field with
      | id value => exact ih hp hq
      | cid value => exact ih hp hq
      | sessions list =>
          unfold MeetsSync at hp hq ⊢
          split
          · next hZero =>
              rw [if_pos hZero] at hp hq
              exact ih hp hq
          · next hNot =>
              rw [if_neg hNot] at hp hq
              refine ⟨hBoth _ _ hp.1 hq.1, fun db₁ i hRef => ?_⟩
              obtain ⟨hList, hRest⟩ := hp.2 db₁ i hRef
              obtain ⟨hList', hRest'⟩ := hq.2 db₁ i hRef
              refine ⟨along_and ?_ hList hList', fun db₂ h => ih (hRest db₂ h) (hRest' db₂ h)⟩
              exact fun _ _ hOne hOther => ⟨MeetsRef.and hBoth hOne.1 hOther.1, fun db' h =>
                along_and (fun _ _ hSub hSub' => hBoth _ _ hSub hSub') (hOne.2 db' h) (hOther.2 db' h)⟩

theorem MeetsExpiry.and {list : List RvSass3Entry} (hp : MeetsExpiry env P db list)
    (hq : MeetsExpiry env Q db list) : MeetsExpiry env R db list := by
  induction list generalizing db with
  | nil => trivial
  | cons entry rest ih =>
      exact fun hDue => ⟨hBoth _ _ (hp hDue).1 (hq hDue).1,
        fun db' h => ih ((hp hDue).2 db' h) ((hq hDue).2 db' h)⟩

theorem MeetsSend.and (hp : MeetsSend P db i) (hq : MeetsSend Q db i) : MeetsSend R db i :=
  fun host hHost hDue hOld => hBoth _ _ (hp host hHost hDue hOld) (hq host hHost hDue hOld)

/-- The loop over a host's sessions goes the same way under both conditions. -/
theorem MeetsQuerySessions.and {names : List Text} (hp : MeetsQuerySessions env P i names db)
    (hq : MeetsQuerySessions env Q i names db) : MeetsQuerySessions env R i names db := by
  induction names generalizing db with
  | nil => trivial
  | cons name rest ih =>
      intro sess hSess
      have hFirst := hp sess hSess
      have hNext := hq sess hSess
      split
      · next hQuery =>
          rw [if_pos hQuery] at hFirst hNext
          intro db₁ host hSend hHost
          have hSent := hFirst db₁ host hSend hHost
          have hSent' := hNext db₁ host hSend hHost
          split
          · next hState =>
              rw [if_pos hState] at hSent hSent'
              exact MeetsSend.and hBoth hSent hSent'
          · next hState =>
              rw [if_neg hState] at hSent hSent'
              exact ih hSent hSent'
      · next hQuery =>
          rw [if_neg hQuery] at hFirst hNext
          exact ih hFirst hNext

/-- The replies of a host and of a session. -/
theorem MeetsReply.and {which : BitVec 64} {items : List ReplyField}
    (hp : MeetsReply env P db which items) (hq : MeetsReply env Q db which items) :
    MeetsReply env R db which items := by
  unfold MeetsReply at hp hq ⊢
  split
  · next hHost =>
      rw [if_pos hHost] at hp hq
      intro host hFind hQuery
      exact along_and (fun _ _ hOne hOther name host hName hString hFind =>
        MeetsRef.and hBoth (hOne name host hName hString hFind) (hOther name host hName hString hFind))
        (hp host hFind hQuery) (hq host hFind hQuery)
  · next hHost =>
      rw [if_neg hHost] at hp hq
      intro name sess hGet hSess hQuery
      exact along_and (fun _ _ hOne hOther sub hName hString hMatch =>
        hBoth _ _ (hOne sub hName hString hMatch) (hOther sub hName hString hMatch))
        (hp name sess hGet hSess hQuery) (hq name sess hGet hSess hQuery)

/-- A step that meets two conditions meets what follows from both. -/
theorem Meets.and {input : Input} (hp : Meets env P db input) (hq : Meets env Q db input) :
    Meets env R db input := by
  cases input with
  | pub curMono pub =>
      change MeetsPub env P db curMono pub at hp
      change MeetsPub env Q db curMono pub at hq
      change MeetsPub env R db curMono pub
      unfold MeetsPub at hp hq ⊢
      dsimp only at hp hq ⊢
      cases hInfo : matchRvInfo pub.subject with
      | none =>
          cases hBody : pub.body with
          | empty => trivial
          | undecodable => trivial
          | fields m =>
              rw [hInfo, hBody] at hp hq
              exact MeetsReply.and hBoth hp hq
      | some info =>
          cases hBody : pub.body with
          | undecodable => trivial
          | empty =>
              rw [hInfo, hBody] at hp hq
              exact MeetsAdvisory.and hBoth hp hq
          | fields m =>
              rw [hInfo, hBody] at hp hq
              exact MeetsAdvisory.and hBoth hp hq
  | events curMono =>
      refine ⟨MeetsExpiry.and hBoth hp.1 hq.1, fun db₁ hExpire => ?_⟩
      obtain ⟨hPoll, hGc⟩ := hp.2 db₁ hExpire
      obtain ⟨hPoll', hGc'⟩ := hq.2 db₁ hExpire
      refine ⟨along_and ?_ hPoll hPoll', fun db₃ hLoop hDue =>
        hBoth _ _ (hGc db₃ hLoop hDue) (hGc' db₃ hLoop hDue)⟩
      intro db i hOne hOther host hHost hNot
      obtain ⟨hSend, hAsk⟩ := hOne host hHost hNot
      obtain ⟨hSend', hAsk'⟩ := hOther host hHost hNot
      exact ⟨fun hQuery => MeetsSend.and hBoth (hSend hQuery) (hSend' hQuery),
        fun db₁ host₁ hDue hHost₁ hState => MeetsQuerySessions.and hBoth
          (hAsk db₁ host₁ hDue hHost₁ hState) (hAsk' db₁ host₁ hDue hHost₁ hState)⟩
  | sync hosts => exact along_and (fun _ _ hOne hOther => MeetsSync.and hBoth hOne hOther) hp hq
  | gc => exact hBoth _ _ hp hq
  | unsubAll => exact along_and (fun _ _ hOne hOther hAwake => hBoth _ _ (hOne hAwake) (hOther hAwake)) hp hq

end

end Sassrv.SubMgr
