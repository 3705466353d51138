import Mathlib.Data.List.Infix
import Sassrv.Lib.Transition

/-! Two parties that write to each other. What a party has written is on the way until it
is delivered, in pieces of any size and in any order of the two directions. Where each
party is a function of what it has read, all orders come to the same end. -/
namespace Sassrv.Duplex
open Transition

universe u v w x
variable {σ : Type u} {τ : Type v} {α : Type w} {β : Type x}

/-- A party that reads items of `β` and writes items of `α`. -/
structure Party (σ : Type u) (α : Type w) (β : Type x) where
  start : σ
  feed : σ → List β → Option σ
  written : σ → List α

/-- The parties, and what is on the way to each. -/
structure Link (σ : Type u) (τ : Type v) (α : Type w) (β : Type x) where
  left : σ
  right : τ
  toLeft : List β
  toRight : List α

/-- So many of the items that are on the way. -/
inductive Delivery where
  | toLeft (n : Nat)
  | toRight (n : Nat)
  deriving DecidableEq, Repr

/-- What was written since. -/
def Party.since (p : Party σ α β) (s t : σ) : List α := (p.written t).drop (p.written s).length

section
variable (p : Party σ α β) (q : Party τ β α)

def begin : Link σ τ α β := ⟨p.start, q.start, q.written q.start, p.written p.start⟩

def deliver (s : Link σ τ α β) : Delivery → Option (Link σ τ α β)
  | .toLeft n => (p.feed s.left (s.toLeft.take n)).map fun t =>
      { s with
        left := t
        toLeft := s.toLeft.drop n
        toRight := s.toRight ++ p.since s.left t }
  | .toRight n => (q.feed s.right (s.toRight.take n)).map fun t =>
      { s with
        right := t
        toRight := s.toRight.drop n
        toLeft := s.toLeft ++ q.since s.right t }

def link : System (Link σ τ α β) Delivery Unit where
  init s := s = begin p q
  step s d emitted t := deliver p q s d = some t ∧ emitted = []

end

/-- Up to a whole stream, the party is what it has read, and goes on writing behind what it
has written. -/
structure Party.Plays (p : Party σ α β) (whole : List β) (after : List β → σ) : Prop where
  start : after [] = p.start
  feed : ∀ read piece, read ++ piece <+: whole →
    p.feed (after read) piece = some (after (read ++ piece))
  grows : ∀ read more, read <+: more → more <+: whole →
    p.written (after read) <+: p.written (after more)

section
variable {p : Party σ α β} {q : Party τ β α} {wholeLeft : List β} {wholeRight : List α}
  {afterLeft : List β → σ} {afterRight : List α → τ}

/-- What the two have read, as far as deliveries in some order get them. -/
inductive Exchanged (p : Party σ α β) (q : Party τ β α) (afterLeft : List β → σ)
    (afterRight : List α → τ) : List β → List α → Prop where
  | start : Exchanged p q afterLeft afterRight [] []
  | left {readLeft piece : List β} {readRight : List α}
      (prior : Exchanged p q afterLeft afterRight readLeft readRight)
      (hPiece : readLeft ++ piece <+: q.written (afterRight readRight)) :
      Exchanged p q afterLeft afterRight (readLeft ++ piece) readRight
  | right {readLeft : List β} {readRight piece : List α}
      (prior : Exchanged p q afterLeft afterRight readLeft readRight)
      (hPiece : readRight ++ piece <+: p.written (afterLeft readLeft)) :
      Exchanged p q afterLeft afterRight readLeft (readRight ++ piece)

/-- What is on the way to the left is delivered, and then the answer. -/
theorem Exchanged.turn {readLeft nextLeft : List β} {readRight nextRight : List α}
    (h : Exchanged p q afterLeft afterRight readLeft readRight)
    (hRight : q.written (afterRight readRight) = nextLeft) (hLeft : p.written (afterLeft nextLeft) = nextRight)
    (hMore : readLeft <+: nextLeft) (hAnswer : readRight <+: nextRight) :
    Exchanged p q afterLeft afterRight nextLeft nextRight := by
  obtain ⟨piece, rfl⟩ := hMore
  obtain ⟨answer, rfl⟩ := hAnswer
  have hRead : Exchanged p q afterLeft afterRight (readLeft ++ piece) readRight :=
    h.left (hRight ▸ List.prefix_refl _)
  exact hRead.right (hLeft ▸ List.prefix_refl _)

/-- Two parties that have a whole exchange with each other. -/
structure Complete (p : Party σ α β) (q : Party τ β α) (wholeLeft : List β)
    (wholeRight : List α) (afterLeft : List β → σ) (afterRight : List α → τ) : Prop where
  left : p.Plays wholeLeft afterLeft
  right : q.Plays wholeRight afterRight
  leftWrites : p.written (afterLeft wholeLeft) = wholeRight
  rightWrites : q.written (afterRight wholeRight) = wholeLeft
  exchanged : Exchanged p q afterLeft afterRight wholeLeft wholeRight

/-- The parties are what they have read, and the rest of what was written is on the way. -/
def Played (p : Party σ α β) (q : Party τ β α) (wholeLeft : List β) (wholeRight : List α)
    (afterLeft : List β → σ) (afterRight : List α → τ) (s : Link σ τ α β) (readLeft : List β)
    (readRight : List α) : Prop :=
  readLeft <+: wholeLeft ∧ readRight <+: wholeRight ∧
    s.left = afterLeft readLeft ∧ s.right = afterRight readRight ∧
    readLeft ++ s.toLeft = q.written (afterRight readRight) ∧
    readRight ++ s.toRight = p.written (afterLeft readLeft)

/-- What the left party still has to read is part of the whole stream. -/
theorem Complete.toLeft_within (h : Complete p q wholeLeft wholeRight afterLeft afterRight)
    {readRight : List α} (hRight : readRight <+: wholeRight) :
    q.written (afterRight readRight) <+: wholeLeft := by
  rw [← h.rightWrites]
  exact h.right.grows readRight wholeRight hRight (List.prefix_refl _)

theorem Complete.toRight_within (h : Complete p q wholeLeft wholeRight afterLeft afterRight)
    {readLeft : List β} (hLeft : readLeft <+: wholeLeft) :
    p.written (afterLeft readLeft) <+: wholeRight := by
  rw [← h.leftWrites]
  exact h.left.grows readLeft wholeLeft hLeft (List.prefix_refl _)

/-- No delivery is refused, and it gives the party the piece to read. -/
theorem Complete.deliver (h : Complete p q wholeLeft wholeRight afterLeft afterRight)
    {s : Link σ τ α β} {readLeft : List β} {readRight : List α}
    (hPlayed : Played p q wholeLeft wholeRight afterLeft afterRight s readLeft readRight)
    (d : Delivery) : ∃ t, Duplex.deliver p q s d = some t ∧
      match d with
      | .toLeft n => Played p q wholeLeft wholeRight afterLeft afterRight t
          (readLeft ++ s.toLeft.take n) readRight
      | .toRight n => Played p q wholeLeft wholeRight afterLeft afterRight t
          readLeft (readRight ++ s.toRight.take n) := by
  obtain ⟨hLeft, hRight, hL, hR, hToLeft, hToRight⟩ := hPlayed
  cases d with
  | toLeft n =>
      have hSplit : readLeft ++ s.toLeft.take n ++ s.toLeft.drop n = q.written (afterRight readRight) := by
        rw [List.append_assoc, List.take_append_drop, hToLeft]
      have hRead : readLeft ++ s.toLeft.take n <+: wholeLeft :=
        (List.prefix_append _ (s.toLeft.drop n)).trans (hSplit ▸ h.toLeft_within hRight)
      have hFeed := h.left.feed readLeft (s.toLeft.take n) hRead
      have hGrows := h.left.grows readLeft _ (List.prefix_append _ _) hRead
      rw [Duplex.deliver, hL, hFeed, Option.map_some]
      refine ⟨_, rfl, hRead, hRight, rfl, hR, hSplit, ?_⟩
      rw [Party.since, ← List.append_assoc, hToRight]
      exact List.prefix_iff_eq_append.mp hGrows
  | toRight n =>
      have hSplit : readRight ++ s.toRight.take n ++ s.toRight.drop n = p.written (afterLeft readLeft) := by
        rw [List.append_assoc, List.take_append_drop, hToRight]
      have hRead : readRight ++ s.toRight.take n <+: wholeRight :=
        (List.prefix_append _ (s.toRight.drop n)).trans (hSplit ▸ h.toRight_within hLeft)
      have hFeed := h.right.feed readRight (s.toRight.take n) hRead
      have hGrows := h.right.grows readRight _ (List.prefix_append _ _) hRead
      rw [Duplex.deliver, hR, hFeed, Option.map_some]
      refine ⟨_, rfl, hLeft, hRead, hL, rfl, ?_, hSplit⟩
      rw [Party.since, ← List.append_assoc, hToLeft]
      exact List.prefix_iff_eq_append.mp hGrows

theorem Complete.reachable (h : Complete p q wholeLeft wholeRight afterLeft afterRight)
    {s : Link σ τ α β} (hReach : (link p q).Reachable s) : ∃ readLeft readRight,
      Played p q wholeLeft wholeRight afterLeft afterRight s readLeft readRight := by
  let inv (s : Link σ τ α β) : Prop := ∃ readLeft readRight,
    Played p q wholeLeft wholeRight afterLeft afterRight s readLeft readRight
  have hStart : ∀ s, (link p q).init s → inv s := by
    rintro s rfl
    refine ⟨[], [], List.nil_prefix, List.nil_prefix, h.left.start.symm, h.right.start.symm, ?_, ?_⟩
    · rw [h.right.start]
      rfl
    · rw [h.left.start]
      rfl
  have hNext : ∀ s d emitted t, inv s → (link p q).step s d emitted t → inv t := by
    rintro s d emitted t ⟨readLeft, readRight, hPlayed⟩ ⟨hStep, -⟩
    obtain ⟨t', hDeliver, hMore⟩ := h.deliver hPlayed d
    cases hStep.symm.trans hDeliver
    cases d with
    | toLeft n => exact ⟨_, _, hMore⟩
    | toRight n => exact ⟨_, _, hMore⟩
  exact System.Reachable.invariant hStart hNext hReach

/-- Parties that wait for each other have read all that any order of deliveries gets them. -/
theorem Complete.exchanged_le (h : Complete p q wholeLeft wholeRight afterLeft afterRight)
    {readLeft : List β} {readRight : List α} (hLeft : readLeft <+: wholeLeft)
    (hRight : readRight <+: wholeRight) (hQuietLeft : readLeft = q.written (afterRight readRight))
    (hQuietRight : readRight = p.written (afterLeft readLeft)) {pastLeft : List β}
    {pastRight : List α} (hPast : Exchanged p q afterLeft afterRight pastLeft pastRight) :
    pastLeft <+: readLeft ∧ pastRight <+: readRight := by
  induction hPast with
  | start => exact ⟨ List.nil_prefix, List.nil_prefix⟩
  | left _ hPiece ih =>
      refine ⟨?_, ih.2⟩
      rw [hQuietLeft]
      exact hPiece.trans (h.right.grows _ _ ih.2 hRight)
  | right _ hPiece ih =>
      refine ⟨ih.1, ?_⟩
      rw [hQuietRight]
      exact hPiece.trans (h.left.grows _ _ ih.1 hLeft)

/-- Where nothing is on the way, the exchange is over. -/
theorem Complete.quiet (h : Complete p q wholeLeft wholeRight afterLeft afterRight)
    {s : Link σ τ α β} {readLeft : List β} {readRight : List α}
    (hPlayed : Played p q wholeLeft wholeRight afterLeft afterRight s readLeft readRight)
    (hToLeft : s.toLeft = []) (hToRight : s.toRight = []) :
    s = ⟨afterLeft wholeLeft, afterRight wholeRight, [], []⟩ := by
  obtain ⟨hLeft, hRight, hL, hR, hWaitLeft, hWaitRight⟩ := hPlayed
  rw [hToLeft, List.append_nil] at hWaitLeft
  rw [hToRight, List.append_nil] at hWaitRight
  obtain ⟨hAllLeft, hAllRight⟩ :=
    h.exchanged_le hLeft hRight hWaitLeft hWaitRight h.exchanged
  have hEqLeft := hLeft.eq_of_length_le hAllLeft.length_le
  have hEqRight := hRight.eq_of_length_le hAllRight.length_le
  cases s with
  | mk left right toLeft toRight =>
      simp only at hL hR hToLeft hToRight
      rw [hL, hR, hToLeft, hToRight, hEqLeft, hEqRight]

/-- From wherever deliveries have led, more of them lead to the end of the exchange. -/
theorem Complete.ends (h : Complete p q wholeLeft wholeRight afterLeft afterRight)
    {s : Link σ τ α β} {readLeft : List β} {readRight : List α}
    (hPlayed : Played p q wholeLeft wholeRight afterLeft afterRight s readLeft readRight) :
    ∃ inputs outputs, (link p q).Run s inputs outputs
      ⟨afterLeft wholeLeft, afterRight wholeRight, [], []⟩ := by
  by_cases hToLeft : s.toLeft = []
  · by_cases hToRight : s.toRight = []
    · rw [h.quiet hPlayed hToLeft hToRight]
      exact ⟨[], [], .nil _⟩
    · obtain ⟨t, hStep, hNext⟩ := h.deliver hPlayed (.toRight s.toRight.length)
      dsimp only at hNext
      rw [List.take_length] at hNext
      have hPos := List.length_pos_iff.mpr hToRight
      have hLe := hNext.2.1.length_le
      rw [List.length_append] at hLe
      obtain ⟨inputs, outputs, hRun⟩ := Complete.ends h hNext
      have hOne : (link p q).Run s [.toRight s.toRight.length] [] t := .snoc (.nil s) ⟨hStep, rfl⟩
      exact ⟨_, _, hOne.trans hRun⟩
  · obtain ⟨t, hStep, hNext⟩ := h.deliver hPlayed (.toLeft s.toLeft.length)
    dsimp only at hNext
    rw [List.take_length] at hNext
    have hPos := List.length_pos_iff.mpr hToLeft
    have hLe := hNext.1.length_le
    rw [List.length_append] at hLe
    obtain ⟨inputs, outputs, hRun⟩ := Complete.ends h hNext
    have hOne : (link p q).Run s [.toLeft s.toLeft.length] [] t := .snoc (.nil s) ⟨hStep, rfl⟩
    exact ⟨_, _, hOne.trans hRun⟩
termination_by wholeLeft.length - readLeft.length + (wholeRight.length - readRight.length)
decreasing_by
  all_goals
    rw [List.length_append] at *
    omega

end
end Sassrv.Duplex
