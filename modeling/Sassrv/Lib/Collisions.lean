import Mathlib.Data.Finset.Basic
import Mathlib.Data.Finset.Insert

/-! Routes that are shared by all keys with one hash. Whoever adds or deletes a key says
whether the hash collides with another one, and a call without a collision makes the
route or removes it. -/
namespace Sassrv.Collisions

universe u v w
variable {κ : Type u} {η : Type v} {σ : Type w} [DecidableEq κ]

inductive Change (κ : Type u) where
  | add (k : κ) (collision : Bool)
  | del (k : κ) (collision : Bool)
  deriving DecidableEq, Repr

namespace Change

def key : Change κ → κ
  | add k _ => k
  | del k _ => k

def collision : Change κ → Bool
  | add _ coll => coll
  | del _ coll => coll

def isAdd : Change κ → Bool
  | add _ _ => true
  | del _ _ => false

/-- The keys that are live after the call. -/
def next (live : Finset κ) : Change κ → Finset κ
  | add k _ => insert k live
  | del k _ => live.erase k

end Change

def liveAfter (live : Finset κ) (cs : List (Change κ)) : Finset κ := cs.foldl Change.next live

/-- A key is added and deleted in turn, and a call has no collision exactly if no other
live key has the hash. -/
def Fair (hash : κ → η) : Finset κ → List (Change κ) → Prop
  | _, [] => True
  | live, .add k coll :: rest =>
      k ∉ live ∧ (coll = false ↔ ∀ x ∈ live, hash x ≠ hash k) ∧ Fair hash (insert k live) rest
  | live, .del k coll :: rest =>
      k ∈ live ∧ (coll = false ↔ ∀ x ∈ live.erase k, hash x ≠ hash k) ∧
        Fair hash (live.erase k) rest

/-- The calls that make and remove the route of a hash: `true` makes it. -/
def routeCalls [DecidableEq η] (hash : κ → η) (h : η) (cs : List (Change κ)) : List Bool :=
  (cs.filter fun c => hash c.key = h && !c.collision).map Change.isAdd

/-- A route is made when there is none, and removed when there is one. -/
def Alternates : Bool → List Bool → Prop
  | _, [] => True
  | isOpen, b :: rest => b = !isOpen ∧ Alternates b rest

variable {hash : κ → η} {live : Finset κ} {cs xs ys : List (Change κ)} {k x : κ} {h : η}

theorem liveAfter_append : liveAfter live (xs ++ ys) = liveAfter (liveAfter live xs) ys :=
  List.foldl_append

theorem fair_append :
    Fair hash live (xs ++ ys) ↔ Fair hash live xs ∧ Fair hash (liveAfter live xs) ys := by
  induction xs generalizing live with
  | nil => exact (and_iff_right trivial).symm
  | cons c xs ih =>
      cases c with
      | add k coll => simp only [List.cons_append, Fair, ih, and_assoc]; rfl
      | del k coll => simp only [List.cons_append, Fair, ih, and_assoc]; rfl

/-- Some live key has the hash. -/
def Held (hash : κ → η) (live : Finset κ) (h : η) : Prop := ∃ x ∈ live, hash x = h

instance [DecidableEq η] : Decidable (Held hash live h) := inferInstanceAs (Decidable (∃ x ∈ live, hash x = h))

theorem held_insert : Held hash (insert k live) h ↔ hash k = h ∨ Held hash live h := by
  simp [Held]

/-- A key may leave where it was the only one with its hash. -/
theorem held_erase (hMem : k ∈ live) :
    Held hash live h ↔ hash k = h ∨ Held hash (live.erase k) h := by
  rw [← held_insert, Finset.insert_erase hMem]

/-- A call without a collision changes whether its hash is held, no other call does. -/
theorem Fair.head {c : Change κ} (hFair : Fair hash live (c :: cs)) (h : η) :
    Fair hash (c.next live) cs ∧
      (hash c.key = h ∧ c.collision = false →
        (Held hash (c.next live) h ↔ c.isAdd = true) ∧ (Held hash live h ↔ c.isAdd = false)) ∧
      (¬ (hash c.key = h ∧ c.collision = false) →
        (Held hash (c.next live) h ↔ Held hash live h)) := by
  cases c with
  | add k coll =>
      obtain ⟨hFresh, hColl, hRest⟩ := hFair
      have hNext : Held hash (Change.next live (.add k coll)) h ↔ hash k = h ∨ Held hash live h :=
        held_insert
      refine ⟨hRest, ?_, ?_⟩
      · rintro ⟨hk, hCollision⟩
        obtain rfl : coll = false := hCollision
        have hNone : ¬ Held hash live h := by
          rintro ⟨x, hx, hEq⟩
          exact hColl.mp rfl x hx (hEq.trans hk.symm)
        exact ⟨hNext.trans (iff_of_true (.inl hk) rfl), iff_of_false hNone Bool.false_ne_true.symm⟩
      · intro hNot
        rw [hNext]
        refine or_iff_right_of_imp fun hk => ?_
        by_contra hNone
        exact hNot ⟨hk, hColl.mpr fun x hx hEq => hNone ⟨x, hx, hEq.trans hk⟩⟩
  | del k coll =>
      obtain ⟨hMem, hColl, hRest⟩ := hFair
      have hNext : Held hash live h ↔ hash k = h ∨ Held hash (Change.next live (.del k coll)) h :=
        held_erase hMem
      refine ⟨hRest, ?_, ?_⟩
      · rintro ⟨hk, hCollision⟩
        obtain rfl : coll = false := hCollision
        have hNone : ¬ Held hash (live.erase k) h := by
          rintro ⟨x, hx, hEq⟩
          exact hColl.mp rfl x hx (hEq.trans hk.symm)
        exact ⟨iff_of_false hNone Bool.false_ne_true, hNext.trans (iff_of_true (.inl hk) rfl)⟩
      · intro hNot
        rw [hNext]
        refine (or_iff_right_of_imp fun hk => ?_).symm
        by_contra hNone
        exact hNot ⟨hk, hColl.mpr fun x hx hEq => hNone ⟨x, hx, hEq.trans hk⟩⟩

/-- Fair calls make and remove each route in turn, and it is there while a key is live. -/
theorem Fair.alternates [DecidableEq η] (hFair : Fair hash live cs) (h : η) :
    Alternates (decide (Held hash live h)) (routeCalls hash h cs) ∧
      (Held hash (liveAfter live cs) h ↔
        (routeCalls hash h cs).getLast?.getD (decide (Held hash live h)) = true) := by
  induction cs generalizing live with
  | nil => exact ⟨trivial, decide_eq_true_iff.symm⟩
  | cons c cs ih =>
      obtain ⟨hRest, hCall, hOther⟩ := hFair.head h
      obtain ⟨hAlternates, hLast⟩ := ih hRest
      have hLive : liveAfter live (c :: cs) = liveAfter (c.next live) cs := rfl
      rw [hLive, hLast]
      by_cases hHere : hash c.key = h ∧ c.collision = false
      · obtain ⟨hNext, hBefore⟩ := hCall hHere
        have hCalls : routeCalls hash h (c :: cs) = c.isAdd :: routeCalls hash h cs := by
          simp [routeCalls, hHere]
        have hIsNext : decide (Held hash (c.next live) h) = c.isAdd := by
          rw [Bool.eq_iff_iff, decide_eq_true_iff, hNext]
        have hIsBefore : c.isAdd = !decide (Held hash live h) := by
          rw [Bool.eq_iff_iff, Bool.not_eq_true', decide_eq_false_iff_not, hBefore,
            Bool.not_eq_false]
        rw [hIsNext] at hAlternates ⊢
        rw [hCalls, List.getLast?_cons]
        exact ⟨⟨hIsBefore, hAlternates⟩, Iff.rfl⟩
      · have hCalls : routeCalls hash h (c :: cs) = routeCalls hash h cs := by
          have hOut : (decide (hash c.key = h) && !c.collision) = false := by
            rw [Bool.eq_false_iff]
            simpa using hHere
          simp only [routeCalls, List.filter_cons, hOut]
          rfl
        have hSame : decide (Held hash (c.next live) h) = decide (Held hash live h) :=
          decide_eq_decide.mpr (hOther hHere)
        rw [hSame] at hAlternates ⊢
        rw [hCalls]
        exact ⟨hAlternates, Iff.rfl⟩

section visible

variable {α : Type w} {f : α → κ} {alive alive' : α → Prop} {l : List α}

/-- An entry that another one with its hash follows is followed by one that is told from the
marked ones. -/
def Visible (hash : α → η) (alive : α → Prop) : List α → Prop
  | [] => True
  | a :: rest =>
      ((∃ x ∈ rest, hash x = hash a) → ∃ x ∈ rest, hash x = hash a ∧ alive x) ∧
        Visible hash alive rest

theorem visible_congr {hash : α → η} (h : ∀ x ∈ l, alive x ↔ alive' x) :
    Visible hash alive l ↔ Visible hash alive' l := by
  induction l with
  | nil => exact Iff.rfl
  | cons a rest ih =>
      have hRest : ∀ x ∈ rest, alive x ↔ alive' x := fun x hx => h x (List.mem_cons_of_mem _ hx)
      refine and_congr (imp_congr_right fun _ => ?_) (ih hRest)
      exact exists_congr fun x => and_congr_right fun hx => and_congr_right fun _ => hRest x hx

omit [DecidableEq κ] in
theorem visible_map {live : κ → Prop} :
    Visible hash live (l.map f) ↔ Visible (fun a => hash (f a)) (fun a => live (f a)) l := by
  induction l with
  | nil => exact Iff.rfl
  | cons a rest ih =>
      rw [List.map_cons, Visible, Visible, ih]
      simp only [List.mem_map, exists_exists_and_eq_and]

end visible

/-- A table whose entries are marked and then deleted all together. What tells an entry that
is not marked may fail to tell one that was never marked. -/
structure Marking (hash : κ → η) (σ : Type w) where
  inv : σ → Prop
  mark : σ → κ → σ
  flagged : σ → κ → Bool
  alive : σ → κ → Prop
  inv_mark {s : σ} (k : κ) : inv s → inv (mark s k)
  alive_mark {s : σ} {k x : κ} : inv s → (alive (mark s k) x ↔ x ≠ k ∧ alive s x)
  flagged_iff {s : σ} {k : κ} : inv s →
    (flagged s k = true ↔ ∃ x, hash x = hash k ∧ alive s x)

namespace Marking

variable {m : Marking hash σ} {s s' : σ} {ks : List κ}

/-- The calls for the entries of a table, one after the other. -/
def sweep (m : Marking hash σ) : σ → List κ → σ × List (Change κ)
  | s, [] => (s, [])
  | s, k :: rest =>
      let s := m.mark s k
      let r := sweep m s rest
      (r.1, .del k (m.flagged s k) :: r.2)

/-- The calls are fair exactly if no entry is taken for a marked one too early. -/
theorem sweep_fair (h : m.inv s) (hNodup : ks.Nodup) (hAll : ∀ x, m.alive s x → x ∈ ks) :
    (Fair hash ks.toFinset (m.sweep s ks).2 ↔ Visible hash (m.alive s) ks) ∧
      liveAfter ks.toFinset (m.sweep s ks).2 = ∅ := by
  induction ks generalizing s with
  | nil => exact ⟨Iff.rfl, rfl⟩
  | cons k rest ih =>
      obtain ⟨hFresh, hRest⟩ := List.nodup_cons.mp hNodup
      have hErase : (k :: rest).toFinset.erase k = rest.toFinset := by
        rw [List.toFinset_cons, Finset.erase_insert (by simpa using hFresh)]
      have hOthers : ∀ x ∈ rest, m.alive (m.mark s k) x ↔ m.alive s x := by
        intro x hx
        rw [m.alive_mark h]
        exact and_iff_right fun hEq => hFresh (hEq ▸ hx)
      have hIn : ∀ x, m.alive (m.mark s k) x → x ∈ rest := by
        intro x hx
        obtain ⟨hNe, hAlive⟩ := (m.alive_mark h).mp hx
        exact (List.mem_cons.mp (hAll x hAlive)).resolve_left hNe
      obtain ⟨hIff, hEmpty⟩ := ih (m.inv_mark k h) hRest hIn
      have hFlag : m.flagged (m.mark s k) k = false ↔
          ¬ ∃ x ∈ rest, hash x = hash k ∧ m.alive s x := by
        rw [← Bool.not_eq_true, m.flagged_iff (m.inv_mark k h)]
        refine not_congr (exists_congr fun x => ?_)
        constructor
        · rintro ⟨hEq, hx⟩
          exact ⟨hIn x hx, hEq, (hOthers x (hIn x hx)).mp hx⟩
        · rintro ⟨hx, hEq, hAlive⟩
          exact ⟨hEq, (hOthers x hx).mpr hAlive⟩
      refine ⟨?_, ?_⟩
      · rw [sweep, Fair, hErase, hIff, visible_congr hOthers, hFlag, Visible]
        have hNone : (∀ x ∈ rest.toFinset, hash x ≠ hash k) ↔ ¬ ∃ x ∈ rest, hash x = hash k := by
          simp
        have hLive : k ∈ (k :: rest).toFinset := by simp
        rw [hNone, not_iff_not]
        refine (and_iff_right hLive).trans (and_congr_left fun _ => ?_)
        refine ⟨fun hBoth => hBoth.mpr, fun hImp => ⟨?_, hImp⟩⟩
        rintro ⟨x, hx, hEq, -⟩
        exact ⟨x, hx, hEq⟩
      · have hNext : liveAfter (k :: rest).toFinset (m.sweep s (k :: rest)).2 =
            liveAfter ((k :: rest).toFinset.erase k) (m.sweep (m.mark s k) rest).2 := rfl
        rw [hNext, hErase, hEmpty]

end Marking

end Sassrv.Collisions
