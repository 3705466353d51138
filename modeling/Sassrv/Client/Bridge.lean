import Sassrv.Client.Connection

/-! A subscription that crosses the bridge: `EvRvService` puts its prefix in front of
the subject and the reply of a client, the routes pass both on, and an `EvRvClient`
with the same prefix takes it off and subscribes at its daemon. Patterns go another
way, through `on_psub`. -/
namespace Sassrv.Client
open SubMgr

/-- The notification of a route. A reply of length 0 is none. -/
structure NotifySub where
  subject : Text
  reply : Text := []
  subCount : Nat := 0

/-- `cat_pre_subject`. -/
def catPreSubject (pre suf : Text) : Text := pre ++ suf

/-- What `EvRvService::add_sub` notifies of a subject without wildcards. The reply gets
the prefix also where the client gave none. -/
def addSubNotify (pre sub : Text) (reply : Option Text) : NotifySub where
  subject := catPreSubject pre sub
  reply := if pre = [] then reply.getD [] else catPreSubject pre (reply.getD [])

/-- What `rem_sub` notifies when the last reference goes. -/
def remSubNotify (pre sub : Text) : NotifySub where
  subject := catPreSubject pre sub

/-- `get_nsub`: the subject and where the reply starts. -/
def getNsub (pre : Text) (nsub : NotifySub) : Option (Text × Text) :=
  if pre = [] ∨ (pre.length < nsub.subject.length ∧ nsub.subject.take pre.length = pre) then
    some (nsub.subject.drop pre.length,
      if pre.length < nsub.reply.length then nsub.reply.drop pre.length else nsub.reply)
  else none

/-- The feeds of the configuration. -/
structure Feeds where
  interSubs : List Text := []
  bcastSubs : List Text := []
  listenSubs : List Text := []

def matchFilter (feeds : Feeds) (sub : Text) : Bool :=
  if Daemon.isInboxSubject sub then false
  else if feeds.interSubs = [] ∧ feeds.bcastSubs = [] ∧ feeds.listenSubs = [] then true
  else feeds.interSubs.any fun wild => matchRvWildcard (cstr wild) sub

/-- `on_sub`. The length of the reply is an argument that `get_nsub` takes by value, so
that the one of the caller stays 0. -/
def onSub (feeds : Feeds) (pre : Text) (c : EvRvClient) (nsub : NotifySub) : EvRvClient :=
  if c.noWrite then c
  else
    match getNsub pre nsub with
    | none => c
    | some (sub, rep) =>
        let replen := 0
        if matchFilter feeds sub then subscribe c sub (rep.take replen) else c

def onUnsub (feeds : Feeds) (pre : Text) (c : EvRvClient) (nsub : NotifySub) : EvRvClient :=
  if c.noWrite then c
  else if nsub.subCount ≠ 0 then c
  else
    match getNsub pre nsub with
    | none => c
    | some (sub, _) => if matchFilter feeds sub then unsubscribe c sub else c

variable {feeds : Feeds} {pre sub : Text} {c : EvRvClient}

theorem queueSend_queued (h : c.rvState ≠ .errClose) (m : Msg) :
    (queueSend c m).queued = c.queued ++ [m] := by
  unfold queueSend
  split
  · rfl
  · next hState => exact absurd hState h
  · rfl

/-- The prefix comes off again, unless it is all there is. -/
theorem getNsub_eq {nsub : NotifySub} (h : nsub.subject = pre ++ sub) :
    getNsub pre nsub =
      if pre = [] ∨ sub ≠ [] then
        some (sub, if pre.length < nsub.reply.length then nsub.reply.drop pre.length else nsub.reply)
      else none := by
  have hLength : nsub.subject.length = pre.length + sub.length := by rw [h, List.length_append]
  have hTake : nsub.subject.take pre.length = pre := by rw [h, List.take_left]
  have hDrop : nsub.subject.drop pre.length = sub := by rw [h, List.drop_left]
  have hSame : (pre = [] ∨ (pre.length < nsub.subject.length ∧ nsub.subject.take pre.length = pre)) ↔
      (pre = [] ∨ sub ≠ []) := by
    rw [hTake, hLength]
    simp [List.length_pos_iff]
  unfold getNsub
  rw [if_congr hSame rfl rfl, hDrop]

theorem stripNul_eq_self : stripNul sub = sub ↔ sub.getLast? ≠ some 0 := by
  unfold stripNul
  split
  · next hLast =>
      refine iff_of_false ?_ (fun hNot => hNot hLast)
      intro hEq
      have hLength := congrArg List.length hEq
      rw [List.length_dropLast] at hLength
      have hNil : sub = [] := List.length_eq_zero_iff.mp (by omega)
      rw [hNil] at hLast
      cases hLast
  · next hNot => exact iff_of_true rfl hNot

/-- What the daemon hears of a subscription: never a reply. -/
theorem onSub_queued (hWrite : c.noWrite = false) (hState : c.rvState ≠ .errClose)
    (hFilter : matchFilter feeds sub = true) (reply : Option Text) :
    (onSub feeds pre c (addSubNotify pre sub reply)).queued =
      if pre = [] ∨ sub ≠ [] then c.queued ++ [.listen (stripNul sub) none] else c.queued := by
  have hSubject : (addSubNotify pre sub reply).subject = pre ++ sub := rfl
  have hGet := getNsub_eq hSubject
  by_cases hOk : pre = [] ∨ sub ≠ []
  · rw [if_pos hOk] at hGet ⊢
    simp only [onSub, hWrite, hGet, hFilter, if_true, List.take_zero, subscribe, Bool.false_eq_true,
      if_false]
    exact queueSend_queued hState _
  · rw [if_neg hOk] at hGet ⊢
    simp only [onSub, hWrite, hGet, Bool.false_eq_true, if_false]

theorem onUnsub_queued (hWrite : c.noWrite = false) (hState : c.rvState ≠ .errClose)
    (hFilter : matchFilter feeds sub = true) :
    (onUnsub feeds pre c (remSubNotify pre sub)).queued =
      if pre = [] ∨ sub ≠ [] then c.queued ++ [.cancel (stripNul sub)] else c.queued := by
  have hSubject : (remSubNotify pre sub).subject = pre ++ sub := rfl
  have hGet := getNsub_eq hSubject
  have hLast : (remSubNotify pre sub).subCount = 0 := rfl
  by_cases hOk : pre = [] ∨ sub ≠ []
  · rw [if_pos hOk] at hGet ⊢
    simp only [onUnsub, hWrite, hLast, hGet, hFilter, if_true, unsubscribe, Bool.false_eq_true,
      if_false, ne_eq, not_true_eq_false]
    exact queueSend_queued hState _
  · rw [if_neg hOk] at hGet ⊢
    simp only [onUnsub, hWrite, hLast, hGet, Bool.false_eq_true, if_false, ne_eq, not_true_eq_false]

/-- A subscription and its end cross the bridge as the client made them exactly when it
gave no reply, the subject is not empty behind a prefix, and it has no `'\0'` at its
end. -/
theorem bridge_transparent_iff (feeds : Feeds) (pre sub : Text) (reply : Option Text) (c : EvRvClient)
    (hWrite : c.noWrite = false) (hState : c.rvState ≠ .errClose)
    (hFilter : matchFilter feeds sub = true) :
    ((onSub feeds pre c (addSubNotify pre sub reply)).queued = c.queued ++ [.listen sub reply] ∧
      (onUnsub feeds pre c (remSubNotify pre sub)).queued = c.queued ++ [.cancel sub]) ↔
    reply = none ∧ (pre = [] ∨ sub ≠ []) ∧ sub.getLast? ≠ some 0 := by
  rw [onSub_queued hWrite hState hFilter, onUnsub_queued hWrite hState hFilter, ← stripNul_eq_self]
  by_cases hOk : pre = [] ∨ sub ≠ []
  · rw [if_pos hOk, if_pos hOk, List.append_cancel_left_eq, List.append_cancel_left_eq]
    simp only [List.cons.injEq, Msg.listen.injEq, Msg.cancel.injEq, and_true]
    constructor
    · rintro ⟨⟨hSub, hReply⟩, -⟩
      exact ⟨hReply.symm, hOk, hSub⟩
    · rintro ⟨hReply, -, hSub⟩
      exact ⟨⟨hSub, hReply.symm⟩, hSub⟩
  · rw [if_neg hOk, if_neg hOk]
    refine iff_of_false ?_ (fun hAll => hOk hAll.2.1)
    rintro ⟨hListen, -⟩
    have hLength := congrArg List.length hListen
    rw [List.length_append, List.length_singleton] at hLength
    omega

/-- The state of a client after the handshake. -/
def bridgeClient : EvRvClient := { rvState := .dataRecv }

theorem bridge_transparent_plain :
    (onSub {} (text "_7500.") bridgeClient (addSubNotify (text "_7500.") (text "A.B") none)).queued =
      [.listen (text "A.B") none] :=
  ((bridge_transparent_iff {} (text "_7500.") (text "A.B") none bridgeClient rfl (by decide)
    (by decide)).mpr ⟨rfl, .inr (by decide), by decide⟩).1

/-- A reply is lost on the way, with or without a prefix. -/
theorem bridge_loses_reply :
    (onSub {} [] bridgeClient (addSubNotify [] (text "A.B") (some (text "R")))).queued ≠
      [.listen (text "A.B") (some (text "R"))] ∧
    (onSub {} (text "_7500.") bridgeClient
      (addSubNotify (text "_7500.") (text "A.B") (some (text "R")))).queued ≠
      [.listen (text "A.B") (some (text "R"))] := by
  decide

end Sassrv.Client
