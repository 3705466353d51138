import Sassrv.Rv7.Msg
import Sassrv.Rv7.SubMessages

/-! `dispatch_event` and the messages of an event after the callback. The helpers look
at the owner of a message, or of the first one of a vector, so they read what the
callback has detached and perhaps destroyed. -/
namespace Sassrv.Rv7
open SubMgr

universe u
variable {V : Type u}

/-- What `reset` clears of an `api_Msg`. -/
structure MsgParts (V : Type u) where
  subject : Option Text := none
  reply : Option Text := none
  msg : Msg V := {}
  subs : Owner := {}

/-- An `api_Msg` of a queue. `owned`: its owner is the tether of the queue; a message
that is detached has no owner. -/
structure ApiMsg (V : Type u) where
  owned : Bool
  inQueue : Bool
  parts : MsgParts V

/-- The messages by their addresses, without those that were deleted, and the tether
of the queue from its head on. -/
structure QueueMsgs (V : Type u) where
  cells : Nat → Option (ApiMsg V)
  tether : List Nat

def QueueMsgs.set (s : QueueMsgs V) (p : Nat) (m : Option (ApiMsg V)) : QueueMsgs V :=
  { s with cells := Function.update s.cells p m }

def MsgParts.release (m : MsgParts V) : MsgParts V := { m with subs := m.subs.release.1 }

/-- `api_Msg::reset`. -/
def MsgParts.reset (m : MsgParts V) : MsgParts V :=
  { m with
    subject := none
    reply := none
    msg := { m.msg with rvmsg := none, rd := none, wr := [], idUsed := 0 } }.release

/-- A callback's doings with the messages: `tibrvMsg_Detach`, `tibrvMsg_Destroy`, and
calls that use a message. -/
inductive Doing (V : Type u) where
  | detach (p : Nat)
  | destroy (p : Nat)
  | use (p : Nat) (f : MsgParts V → MsgParts V)

/-- A message with an owner is not destroyed. -/
def QueueMsgs.does (s : QueueMsgs V) : Doing V → QueueMsgs V
  | .detach p =>
      match s.cells p with
      | some m =>
          if m.owned then
            { s.set p (some { m with owned := false }) with tether := s.tether.erase p }
          else s
      | none => s
  | .destroy p =>
      match s.cells p with
      | some m => if m.owned then s else s.set p none
      | none => s
  | .use p f =>
      match s.cells p with
      | some m => s.set p (some { m with parts := f m.parts })
      | none => s

/-- What the helpers do to messages. -/
inductive Touch where
  | readOwner (p : Nat)
  | reset (p : Nat)
  | writeInQueue (p : Nat)
  | release (p : Nat)
  deriving DecidableEq

def Touch.address : Touch → Nat
  | .readOwner p => p
  | .reset p => p
  | .writeInQueue p => p
  | .release p => p

/-- `reset`, `in_queue = false` and `release` of one message. -/
def ApiMsg.recycle (m : ApiMsg V) : ApiMsg V :=
  { m with inQueue := false, parts := m.parts.reset.release }

/-- The reading of a message that was deleted is left open. -/
def releaseMsg (s : QueueMsgs V) (p : Nat) : Option (QueueMsgs V × List Touch) :=
  match s.cells p with
  | none => none
  | some m =>
      if m.owned then
        some (s.set p (some m.recycle), [.readOwner p, .reset p, .writeInQueue p, .release p])
      else some (s.set p (some { m with inQueue := false }), [.readOwner p, .writeInQueue p])

/-- The loop of `release_vec` when the first message has an owner. -/
def recycleAll (s : QueueMsgs V) : List Nat → Option (QueueMsgs V × List Touch)
  | [] => some (s, [])
  | p :: rest =>
      match s.cells p with
      | none => none
      | some m =>
          (recycleAll (s.set p (some m.recycle)) rest).map fun (s', touches) =>
            (s', .reset p :: .writeInQueue p :: .release p :: touches)

/-- Without an owner of the first one the loop writes to the first one only. -/
def releaseVec (s : QueueMsgs V) (first : Nat) (rest : List Nat) :
    Option (QueueMsgs V × List Touch) :=
  match s.cells first with
  | none => none
  | some m =>
      if m.owned then
        (recycleAll s (first :: rest)).map fun (s', touches) => (s', .readOwner first :: touches)
      else
        some (s.set first (some { m with inQueue := false }),
          .readOwner first :: (first :: rest).map fun _ => .writeInQueue first)

/-- An event for a callback, where a timer has no message, or for a vector callback,
which has one message or more. -/
inductive QueueEvent where
  | callback (msg : Option Nat)
  | vectorCallback (first : Nat) (rest : List Nat)

def QueueEvent.msgs : QueueEvent → List Nat
  | .callback msg => msg.toList
  | .vectorCallback first rest => first :: rest

/-- The messages when `dispatch_event` returns, and what it did to them after the
callback. -/
def dispatchEvent (s : QueueMsgs V) (ev : QueueEvent) (callback : List (Doing V)) :
    Option (QueueMsgs V × List Touch) :=
  let s := callback.foldl QueueMsgs.does s
  match ev with
  | .callback (some msg) => releaseMsg s msg
  | .callback none => some (s, [])
  | .vectorCallback msg [] => releaseMsg s msg
  | .vectorCallback first rest => releaseVec s first rest

/-- `make` takes the head of the tether when that is not in the queue, and new memory
otherwise. -/
def makeMsg (s : QueueMsgs V) (malloc : Nat) (parts : MsgParts V) : QueueMsgs V × Nat :=
  let reused := s.tether.head?.filter fun p => (s.cells p).any fun m => ¬ m.inQueue
  let p := reused.getD malloc
  let tether := if reused.isSome then s.tether.tail else s.tether
  ({ s.set p (some { owned := true, inQueue := true, parts }) with tether := tether ++ [p] }, p)

/-- Nothing is left of what the message was. -/
def ApiMsg.IsReset (m : ApiMsg V) : Prop :=
  m.parts.subject = none ∧ m.parts.reply = none ∧ m.parts.msg.rvmsg = none ∧
    m.parts.msg.rd = none ∧ m.parts.msg.wr = [] ∧ m.parts.msg.idUsed = 0 ∧
    m.parts.subs.owned = [] ∧ m.parts.subs.refs = []

/-- A message as `deliver_msg` puts it in the queue. -/
def QueueMsgs.Queued (s : QueueMsgs V) (p : Nat) : Prop :=
  p ∈ s.tether ∧ ∃ m, s.cells p = some m ∧ m.owned = true

/-- `make` can have the memory of the message. -/
def QueueMsgs.Recyclable (s : QueueMsgs V) (p : Nat) : Prop :=
  p ∈ s.tether ∧ ∃ m, s.cells p = some m ∧ m.IsReset ∧ m.inQueue = false

/-- What the callback detaches is not touched, and the other messages of the event
are free for `make`. -/
def ReleasesAll (s : QueueMsgs V) (ev : QueueEvent) (callback : List (Doing V)) : Prop :=
  ∃ s' touches, dispatchEvent s ev callback = some (s', touches) ∧ ∀ p ∈ ev.msgs,
    (.detach p ∈ callback → ∀ touch ∈ touches, touch.address ≠ p) ∧
      (.detach p ∉ callback → s'.Recyclable p)

variable {s s' : QueueMsgs V} {p q : Nat} {m : ApiMsg V}

@[simp] theorem set_cells_self (s : QueueMsgs V) (p : Nat) (m : Option (ApiMsg V)) :
    (s.set p m).cells p = m := Function.update_self ..

theorem set_cells_ne (s : QueueMsgs V) (m : Option (ApiMsg V)) (h : q ≠ p) :
    (s.set p m).cells q = s.cells q := Function.update_of_ne h ..

theorem recycle_isReset (m : ApiMsg V) : m.recycle.IsReset := by
  have hOwned : ∀ o : Owner, o.release.1.owned = [] := by
    intro o
    cases hTether : o.submsgTether <;> simp [Owner.release, Owner.owned, hTether]
  exact ⟨rfl, rfl, rfl, rfl, rfl, rfl, hOwned _, rfl⟩

/-- Only its own detaching takes a message from the queue's tether. -/
theorem QueueMsgs.Queued.does (h : s.Queued p) {doing : Doing V} (hOther : doing ≠ .detach p) :
    (s.does doing).Queued p := by
  obtain ⟨hTether, m, hCell, hOwned⟩ := h
  cases doing with
  | detach q =>
      have hNe : p ≠ q := fun hSame => hOther (hSame ▸ rfl)
      unfold QueueMsgs.does
      dsimp only
      split
      · split
        · exact ⟨(List.mem_erase_of_ne hNe).mpr hTether, m, (set_cells_ne s _ hNe).trans hCell, hOwned⟩
        · exact ⟨hTether, m, hCell, hOwned⟩
      · exact ⟨hTether, m, hCell, hOwned⟩
  | destroy q =>
      unfold QueueMsgs.does
      dsimp only
      split
      case h_1 m' hDestroyed =>
          split
          · exact ⟨hTether, m, hCell, hOwned⟩
          · by_cases hSame : p = q
            · subst hSame
              obtain rfl := Option.some.inj (hCell.symm.trans hDestroyed)
              contradiction
            · exact ⟨hTether, m, (set_cells_ne s _ hSame).trans hCell, hOwned⟩
      case h_2 _ => exact ⟨hTether, m, hCell, hOwned⟩
  | use q f =>
      unfold QueueMsgs.does
      dsimp only
      split
      case h_1 m' hUsed =>
          by_cases hSame : p = q
          · subst hSame
            obtain rfl := Option.some.inj (hCell.symm.trans hUsed)
            exact ⟨hTether, _, set_cells_self .., hOwned⟩
          · exact ⟨hTether, m, (set_cells_ne s _ hSame).trans hCell, hOwned⟩
      case h_2 _ => exact ⟨hTether, m, hCell, hOwned⟩

theorem QueueMsgs.Queued.callback (h : s.Queued p) {callback : List (Doing V)}
    (hOther : .detach p ∉ callback) : (callback.foldl QueueMsgs.does s).Queued p := by
  induction callback generalizing s with
  | nil => exact h
  | cons doing rest ih =>
      obtain ⟨hFirst, hRest⟩ := not_or.mp (mt List.mem_cons.mpr hOther)
      exact ih (h.does (Ne.symm hFirst)) hRest

theorem releaseMsg_touches {touches : List Touch} (h : releaseMsg s p = some (s', touches)) :
    .readOwner p ∈ touches := by
  unfold releaseMsg at h
  split at h
  · cases h
  · split at h
    · obtain ⟨rfl, rfl⟩ := Prod.mk.inj (Option.some.inj h)
      exact List.mem_cons_self
    · obtain ⟨rfl, rfl⟩ := Prod.mk.inj (Option.some.inj h)
      exact List.mem_cons_self

theorem recycleAll_touches {list : List Nat} {touches : List Touch}
    (h : recycleAll s list = some (s', touches)) (hMem : p ∈ list) : .reset p ∈ touches := by
  induction list generalizing s touches with
  | nil => cases hMem
  | cons q rest ih =>
      unfold recycleAll at h
      split at h
      case h_1 _ => cases h
      case h_2 m hCell =>
          obtain ⟨⟨s₁, more⟩, hRest, hLast⟩ := Option.map_eq_some_iff.mp h
          obtain ⟨rfl, rfl⟩ := Prod.mk.inj hLast
          rcases List.mem_cons.mp hMem with rfl | hLater
          · exact List.mem_cons_self
          · have hThere := ih hRest hLater
            simp [hThere]

/-- The first message is looked at, and with an owner of it all are reset. -/
theorem releaseVec_touches {first : Nat} {rest : List Nat} {touches : List Touch}
    (h : releaseVec s first rest = some (s', touches)) :
    .readOwner first ∈ touches ∧
      (s.Queued first → ∀ p ∈ first :: rest, .reset p ∈ touches) := by
  unfold releaseVec at h
  split at h
  case h_1 _ => cases h
  case h_2 m hCell =>
      split at h
      case isTrue hOwned =>
          obtain ⟨⟨s₁, more⟩, hAll, hLast⟩ := Option.map_eq_some_iff.mp h
          obtain ⟨rfl, rfl⟩ := Prod.mk.inj hLast
          exact ⟨List.mem_cons_self, fun _ p hMem =>
            List.mem_cons_of_mem _ (recycleAll_touches hAll hMem)⟩
      case isFalse hNot =>
          obtain ⟨rfl, rfl⟩ := Prod.mk.inj (Option.some.inj h)
          refine ⟨List.mem_cons_self, fun hQueued => ?_⟩
          obtain ⟨-, m', hCell', hOwned⟩ := hQueued
          obtain rfl := Option.some.inj (hCell.symm.trans hCell')
          contradiction

theorem releaseMsg_recycles (h : s.Queued p) :
    ∃ s' touches, releaseMsg s p = some (s', touches) ∧ s'.Recyclable p := by
  obtain ⟨hTether, m, hCell, hOwned⟩ := h
  refine ⟨s.set p (some m.recycle), [.readOwner p, .reset p, .writeInQueue p, .release p], ?_,
    hTether, m.recycle, set_cells_self .., recycle_isReset m, rfl⟩
  rw [releaseMsg, hCell]
  exact if_pos hOwned

theorem QueueMsgs.Recyclable.recycle (h : s.Recyclable q) (m : ApiMsg V) :
    (s.set p (some m.recycle)).Recyclable q := by
  obtain ⟨hTether, m', hCell, hReset⟩ := h
  by_cases hSame : q = p
  · subst hSame
    exact ⟨hTether, m.recycle, set_cells_self .., recycle_isReset m, rfl⟩
  · exact ⟨hTether, m', (set_cells_ne s _ hSame).trans hCell, hReset⟩

theorem QueueMsgs.Queued.recycle (h : s.Queued q) (hCell : s.cells p = some m) :
    (s.set p (some m.recycle)).Queued q := by
  obtain ⟨hTether, m', hCell', hOwned⟩ := h
  by_cases hSame : q = p
  · subst hSame
    obtain rfl := Option.some.inj (hCell.symm.trans hCell')
    exact ⟨hTether, m.recycle, set_cells_self .., hOwned⟩
  · exact ⟨hTether, m', (set_cells_ne s _ hSame).trans hCell', hOwned⟩

/-- The loop ends with every message of the list, and what was free before, free. -/
theorem recycleAll_recycles {list : List Nat} (h : ∀ p ∈ list, s.Queued p) :
    ∃ s' touches, recycleAll s list = some (s', touches) ∧
      ∀ p, p ∈ list ∨ s.Recyclable p → s'.Recyclable p := by
  induction list generalizing s with
  | nil => exact ⟨s, [], rfl, fun p hFree => hFree.resolve_left List.not_mem_nil⟩
  | cons q rest ih =>
      obtain ⟨hTether, m, hCell, hOwned⟩ := h q List.mem_cons_self
      obtain ⟨s', touches, hRest, hFree⟩ := ih (s := s.set q (some m.recycle)) fun p hMem =>
        (h p (List.mem_cons_of_mem q hMem)).recycle hCell
      refine ⟨s', .reset q :: .writeInQueue q :: .release q :: touches, ?_, ?_⟩
      · rw [recycleAll, hCell]
        dsimp only
        rw [hRest]
        rfl
      · rintro p (hMem | hBefore)
        · rcases List.mem_cons.mp hMem with rfl | hLater
          · exact hFree p (.inr ⟨hTether, m.recycle, set_cells_self .., recycle_isReset m, rfl⟩)
          · exact hFree p (.inl hLater)
        · exact hFree p (.inr (hBefore.recycle m))

theorem releaseVec_recycles {first : Nat} {rest : List Nat} (h : ∀ p ∈ first :: rest, s.Queued p) :
    ∃ s' touches, releaseVec s first rest = some (s', touches) ∧
      ∀ p ∈ first :: rest, s'.Recyclable p := by
  obtain ⟨-, m, hCell, hOwned⟩ := h first List.mem_cons_self
  obtain ⟨s', touches, hAll, hFree⟩ := recycleAll_recycles h
  refine ⟨s', .readOwner first :: touches, ?_, fun p hMem => hFree p (.inl hMem)⟩
  rw [releaseVec, hCell]
  dsimp only
  rw [if_pos hOwned, hAll]
  rfl

/-- A message that is free is the next that `make` takes when it heads the tether. -/
theorem QueueMsgs.Recyclable.makeMsg (h : s.Recyclable p) (hHead : s.tether.head? = some p)
    (malloc : Nat) (parts : MsgParts V) : (makeMsg s malloc parts).2 = p := by
  obtain ⟨-, m, hCell, -, hFree⟩ := h
  simp [Rv7.makeMsg, Option.filter, hHead, hCell, hFree]

/-- All messages are released as they should be exactly when the callback detaches
none of them. -/
theorem releasesAll_iff {ev : QueueEvent} (hQueued : ∀ p ∈ ev.msgs, s.Queued p)
    (callback : List (Doing V)) :
    ReleasesAll s ev callback ↔ ∀ p ∈ ev.msgs, .detach p ∉ callback := by
  constructor
  · rintro ⟨s', touches, hDispatch, hAll⟩ p hMem hDetached
    have hUntouched := (hAll p hMem).1 hDetached
    cases ev with
    | callback msg =>
        obtain rfl : msg = some p := by simpa [QueueEvent.msgs] using hMem
        exact hUntouched _ (releaseMsg_touches hDispatch) rfl
    | vectorCallback first rest =>
        cases rest with
        | nil =>
            obtain rfl := List.mem_singleton.mp hMem
            exact hUntouched _ (releaseMsg_touches hDispatch) rfl
        | cons second rest =>
            obtain ⟨hRead, hReset⟩ := releaseVec_touches hDispatch
            have hFirst : .detach first ∉ callback := fun h =>
              (hAll first List.mem_cons_self).1 h _ hRead rfl
            have hOwned := (hQueued first List.mem_cons_self).callback hFirst
            exact hUntouched _ (hReset hOwned p hMem) rfl
  · intro hNone
    have hAfter : ∀ p ∈ ev.msgs, (callback.foldl QueueMsgs.does s).Queued p := fun p hMem =>
      (hQueued p hMem).callback (hNone p hMem)
    suffices h : ∃ s' touches, dispatchEvent s ev callback = some (s', touches) ∧
        ∀ p ∈ ev.msgs, s'.Recyclable p by
      obtain ⟨s', touches, hDispatch, hFree⟩ := h
      exact ⟨s', touches, hDispatch, fun p hMem =>
        ⟨fun hDetached => absurd hDetached (hNone p hMem), fun _ => hFree p hMem⟩⟩
    cases ev with
    | callback msg =>
        cases msg with
        | none => exact ⟨_, [], rfl, nofun⟩
        | some msg =>
            obtain ⟨s', touches, hRelease, hFree⟩ :=
              releaseMsg_recycles (hAfter msg List.mem_cons_self)
            exact ⟨s', touches, hRelease, fun p hMem => List.mem_singleton.mp hMem ▸ hFree⟩
    | vectorCallback first rest =>
        cases rest with
        | nil =>
            obtain ⟨s', touches, hRelease, hFree⟩ :=
              releaseMsg_recycles (hAfter first List.mem_cons_self)
            exact ⟨s', touches, hRelease, fun p hMem => List.mem_singleton.mp hMem ▸ hFree⟩
        | cons second rest => exact releaseVec_recycles hAfter

/-- Two messages of a queue. -/
def twoMsgs : QueueMsgs Nat where
  cells p := if p < 2 then some { owned := true, inQueue := true, parts := {} } else none
  tether := [0, 1]

theorem twoMsgs_queued : ∀ p ∈ (QueueEvent.vectorCallback 0 [1]).msgs, twoMsgs.Queued p := by
  intro p hMem
  rcases List.mem_cons.mp hMem with rfl | hMem
  · exact ⟨by decide, _, rfl, rfl⟩
  · obtain rfl := List.mem_singleton.mp hMem
    exact ⟨by decide, _, rfl, rfl⟩

/-- The callback destroys a message that it did not detach, which does nothing. -/
theorem releasesAll_iff_two : ReleasesAll twoMsgs (.vectorCallback 0 [1]) [.destroy 1] := by
  refine (releasesAll_iff twoMsgs_queued _).mpr fun p _ hDetached => ?_
  cases List.mem_singleton.mp hDetached

/-- The second message of a vector is reset although the callback detached it. -/
theorem dispatchEvent_can_reset :
    ¬ ∀ (s : QueueMsgs Nat) (ev : QueueEvent) (callback : List (Doing Nat)),
      (∀ p ∈ ev.msgs, s.Queued p) → ReleasesAll s ev callback := by
  intro hClaim
  obtain ⟨s', touches, hDispatch, hAll⟩ := hClaim twoMsgs (.vectorCallback 0 [1]) [.detach 1]
    twoMsgs_queued
  have hRun : dispatchEvent twoMsgs (.vectorCallback 0 [1]) [.detach 1] = some (_,
      [.readOwner 0, .reset 0, .writeInQueue 0, .release 0, .reset 1, .writeInQueue 1,
        .release 1]) := rfl
  obtain ⟨rfl, rfl⟩ := Prod.mk.inj (Option.some.inj (hRun.symm.trans hDispatch))
  exact (hAll 1 (by decide)).1 List.mem_cons_self (.reset 1) (by decide) rfl

end Sassrv.Rv7
