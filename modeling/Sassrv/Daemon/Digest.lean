import Sassrv.Lib.FirstSeen
import Sassrv.SubMgr.Text

/-! The digest of its subscriptions that a host publishes: every socket of a
session reports subjects and patterns, and a pair of session and subject that
several sockets report is counted once, as long as it fits the key buffer. -/
namespace Sassrv.Daemon

open SubMgr (Text stripNul)

/-- What an `EvSocket` answers for the service: its session, of no length when
it has none, and its subjects and patterns in the order of the tables. -/
structure EvSocket where
  session : Text
  subs : List Text
  pats : List Text

/-- `sizeof( key )` -/
def digestKeySize : Nat := 1024

structure SubDigest where
  sc : Nat := 0
  sx : BitVec 32 := 0
  pairs : List (BitVec 32 × Text) := []

section Digest

variable (crcC : Text → BitVec 32 → BitVec 32)

/-- One subject of a session in the loop of `get_sub_digest`. -/
def SubDigest.enter (sess : Text) (d : SubDigest) (value : Text) : SubDigest :=
  if value = [] ∨ value.head? = some 95 then d
  else
    let ph := crcC value (crcC sess 0)
    let counted := { d with sc := d.sc + 1, sx := d.sx ^^^ ph }
    if sess.length + 1 + value.length ≤ digestKeySize then
      let key := sess ++ 1 :: value
      if (ph, key) ∈ d.pairs then d else { counted with pairs := (ph, key) :: d.pairs }
    else counted

def SubDigest.socket (d : SubDigest) (p : EvSocket) : SubDigest :=
  if p.session.length = 0 then d
  else [p.subs, p.pats].foldl (fun d db => db.foldl (SubDigest.enter crcC (stripNul p.session)) d) d

def getSubDigest (sockets : List EvSocket) : SubDigest := sockets.foldl (SubDigest.socket crcC) {}

end Digest

/-- A subject that the digest speaks of. -/
def Listed (value : Text) : Prop := ¬ (value = [] ∨ value.head? = some 95)

instance (value : Text) : Decidable (Listed value) := inferInstanceAs (Decidable (¬ _))

/-- The pairs of session and subject of a socket. -/
def EvSocket.pairs (p : EvSocket) : List (Text × Text) :=
  if p.session.length = 0 then []
  else ((p.subs ++ p.pats).filter fun value => decide (Listed value)).map fun value =>
    (stripNul p.session, value)

def pairsOf (sockets : List EvSocket) : List (Text × Text) := sockets.flatMap EvSocket.pairs

section Pairs

variable (crcC : Text → BitVec 32 → BitVec 32)

def digestHash (pair : Text × Text) : BitVec 32 := crcC pair.2 (crcC pair.1 0)

/-- The composite key of a pair, if it fits. -/
def digestKey (pair : Text × Text) : Option (BitVec 32 × Text) :=
  if pair.1.length + 1 + pair.2.length ≤ digestKeySize then
    some (digestHash crcC pair, pair.1 ++ 1 :: pair.2)
  else none

/-- The xor of the hashes. -/
def xorOf (pairs : Multiset (Text × Text)) : BitVec 32 :=
  (pairs.map (digestHash crcC)).fold (· ^^^ ·) 0

/-- The digest counts the set of the pairs and adds up their hashes. -/
def DigestRight (sockets : List EvSocket) : Prop :=
  let digest := getSubDigest crcC sockets
  digest.sc = (pairsOf sockets).toFinset.card ∧
    digest.sx = xorOf crcC (pairsOf sockets).toFinset.val

variable {crcC}

theorem xorOf_add (ps qs : Multiset (Text × Text)) :
    xorOf crcC (ps + qs) = xorOf crcC ps ^^^ xorOf crcC qs := by
  rw [xorOf, Multiset.map_add, ← BitVec.xor_zero (x := (0 : BitVec 32)), Multiset.fold_add]
  rfl

theorem xorOf_cons (pair : Text × Text) (ps : List (Text × Text)) :
    xorOf crcC (pair :: ps : List (Text × Text)) = digestHash crcC pair ^^^ xorOf crcC ps := by
  rw [xorOf, ← Multiset.cons_coe, Multiset.map_cons, Multiset.fold_cons_left]
  rfl

variable {d : SubDigest} {pair : Text × Text}

theorem enter_keyless (hListed : Listed pair.2) (hKey : digestKey crcC pair = none) :
    d.enter crcC pair.1 pair.2 = { d with sc := d.sc + 1, sx := d.sx ^^^ digestHash crcC pair } := by
  unfold digestKey at hKey
  unfold SubDigest.enter
  split at hKey
  · cases hKey
  · next hLong =>
      rw [if_neg hListed, if_neg hLong]
      rfl

theorem enter_keyed {key : BitVec 32 × Text} (hListed : Listed pair.2)
    (hKey : digestKey crcC pair = some key) :
    d.enter crcC pair.1 pair.2 = if key ∈ d.pairs then d else
      { sc := d.sc + 1, sx := d.sx ^^^ digestHash crcC pair, pairs := key :: d.pairs } := by
  unfold digestKey at hKey
  unfold SubDigest.enter
  split at hKey
  · next hFits =>
      cases hKey
      rw [if_neg hListed, if_pos hFits]
      rfl
  · cases hKey

/-- A pass over pairs counts what is seen first of them. -/
theorem enter_run (ps : List (Text × Text)) (d : SubDigest) (hListed : ∀ pair ∈ ps, Listed pair.2) :
    let after := ps.foldl (fun d pair => SubDigest.enter crcC pair.1 d pair.2) d
    after.sc = d.sc + (firstSeen (digestKey crcC) d.pairs ps).length ∧
      after.sx = d.sx ^^^ xorOf crcC (firstSeen (digestKey crcC) d.pairs ps) := by
  induction ps generalizing d with
  | nil => simp [firstSeen, xorOf]
  | cons pair ps ih =>
      have hHead : Listed pair.2 := hListed pair List.mem_cons_self
      have hTail : ∀ pair ∈ ps, Listed pair.2 := fun p hp => hListed p (List.mem_cons_of_mem pair hp)
      rw [List.foldl_cons]
      cases hKey : digestKey crcC pair with
      | none =>
          have hRest := ih { d with sc := d.sc + 1, sx := d.sx ^^^ digestHash crcC pair } hTail
          rw [enter_keyless hHead hKey, firstSeen_keyless hKey, xorOf_cons, ← BitVec.xor_assoc, List.length_cons]
          exact ⟨by rw [hRest.1]; dsimp only; omega, hRest.2⟩
      | some key =>
          rw [enter_keyed hHead hKey]
          by_cases hSeen : key ∈ d.pairs
          · rw [if_pos hSeen, firstSeen_again hKey hSeen]
            exact ih d hTail
          · have hRest := ih ⟨d.sc + 1, d.sx ^^^ digestHash crcC pair, key :: d.pairs⟩ hTail
            rw [if_neg hSeen, firstSeen_new hKey hSeen, xorOf_cons, ← BitVec.xor_assoc, List.length_cons]
            exact ⟨by rw [hRest.1]; dsimp only; omega, hRest.2⟩

theorem listed_of_mem {sockets : List EvSocket} (h : pair ∈ pairsOf sockets) : Listed pair.2 := by
  obtain ⟨p, -, hPair⟩ := List.mem_flatMap.mp h
  unfold EvSocket.pairs at hPair
  split at hPair
  · cases hPair
  · obtain ⟨value, hValue, rfl⟩ := List.mem_map.mp hPair
    exact of_decide_eq_true (List.mem_filter.mp hValue).2

theorem socket_eq (d : SubDigest) (p : EvSocket) :
    d.socket crcC p = p.pairs.foldl (fun d pair => SubDigest.enter crcC pair.1 d pair.2) d := by
  unfold SubDigest.socket EvSocket.pairs
  split
  · rfl
  · rw [List.foldl_map, List.foldl_filter, List.foldl_cons, List.foldl_cons, List.foldl_nil,
      ← List.foldl_append]
    congr 1
    funext d value
    by_cases hListed : Listed value
    · rw [decide_eq_true hListed, if_pos rfl]
    · rw [decide_eq_false hListed]
      exact if_pos (not_not.mp hListed)

theorem getSubDigest_eq (sockets : List EvSocket) :
    getSubDigest crcC sockets =
      (pairsOf sockets).foldl (fun d pair => SubDigest.enter crcC pair.1 d pair.2) {} := by
  unfold getSubDigest pairsOf
  rw [List.foldl_flatMap]
  congr 1
  funext d p
  exact socket_eq d p

variable (crcC) in
/-- The pairs counted again and those never counted are as many, with the same
hashes in sum. -/
def Cancels (ps : List (Text × Text)) : Prop :=
  let again := surplus (digestKey crcC) ps
  let never := lost (digestKey crcC) ps
  again.card = never.card ∧ xorOf crcC again = xorOf crcC never

theorem digestRight_iff_cancels (sockets : List EvSocket) :
    DigestRight crcC sockets ↔ Cancels crcC (pairsOf sockets) := by
  obtain ⟨hCount, hXor⟩ := @enter_run crcC (pairsOf sockets) {} fun _ => listed_of_mem
  unfold DigestRight Cancels
  dsimp only at hCount hXor ⊢
  have hZero : (0 : BitVec 32) ^^^ xorOf crcC (firstSeen (digestKey crcC) [] (pairsOf sockets)) =
      xorOf crcC (firstSeen (digestKey crcC) [] (pairsOf sockets)) := BitVec.zero_xor
  have hSet := @toFinset_eq _ _ _ (digestKey crcC) _ (pairsOf sockets)
  rw [getSubDigest_eq, hCount, hXor, hZero, Nat.zero_add, Finset.card, ← Multiset.coe_card,
    counted_eq, hSet, xorOf_add, xorOf_add, Multiset.card_add,
    Multiset.card_add, Nat.add_left_cancel_iff, BitVec.xor_right_inj]

theorem cancels_of_apart {ps : List (Text × Text)} (hOnce : KeylessOnce (digestKey crcC) ps)
    (hApart : KeysApart (digestKey crcC) ps) : Cancels crcC ps := by
  rw [← surplus_eq_zero_iff] at hOnce
  rw [← lost_eq_zero_iff] at hApart
  unfold Cancels
  dsimp only
  rw [hOnce, hApart]
  exact ⟨rfl, rfl⟩

theorem digestRight_of_apart {sockets : List EvSocket}
    (hOnce : KeylessOnce (digestKey crcC) (pairsOf sockets))
    (hApart : KeysApart (digestKey crcC) (pairsOf sockets)) : DigestRight crcC sockets :=
  (digestRight_iff_cancels sockets).mpr (cancels_of_apart hOnce hApart)

/-- The digest is right when every pair that is too long for the key occurs
once and no two pairs share hash and key. It is wrong when one of the two
fails. When both do, it is right if what is counted again makes up for what is
never counted. -/
theorem digestRight_iff (crcC : Text → BitVec 32 → BitVec 32) (sockets : List EvSocket) :
    DigestRight crcC sockets ↔
      let once := KeylessOnce (digestKey crcC) (pairsOf sockets)
      let apart := KeysApart (digestKey crcC) (pairsOf sockets)
      once ∧ apart ∨ ¬ once ∧ ¬ apart ∧ Cancels crcC (pairsOf sockets) := by
  rw [digestRight_iff_cancels]
  dsimp only
  constructor
  · intro hCancels
    have hCard := hCancels.1
    rw [← surplus_eq_zero_iff, ← lost_eq_zero_iff]
    by_cases hOnce : surplus (digestKey crcC) (pairsOf sockets) = 0
    · rw [hOnce, Multiset.card_zero] at hCard
      exact Or.inl ⟨hOnce, Multiset.card_eq_zero.mp hCard.symm⟩
    · refine Or.inr ⟨hOnce, fun hApart => hOnce ?_, hCancels⟩
      rw [hApart, Multiset.card_zero] at hCard
      exact Multiset.card_eq_zero.mp hCard
  · rintro (⟨hOnce, hApart⟩ | ⟨-, -, hCancels⟩)
    · exact cancels_of_apart hOnce hApart
    · exact hCancels

/-- Two sockets of one session with a subject of 1023 bytes. -/
def longTwins : List EvSocket :=
  let socket : EvSocket := ⟨[115], [List.replicate 1023 97], []⟩
  [socket, socket]

/-- The subject of the two sockets is counted twice, whatever the checksum. -/
theorem digest_can_count_twice :
    ¬ ∀ (crcC : Text → BitVec 32 → BitVec 32) (sockets : List EvSocket), DigestRight crcC sockets := by
  intro h
  obtain ⟨hCount, -⟩ := h (fun value seed => seed + value.length) longTwins
  obtain ⟨value, hValue⟩ : ∃ value : Text, value = List.replicate 1023 97 := ⟨_, rfl⟩
  have hLong : ([115] : Text).length + 1 + value.length = 1025 := by
    rw [hValue, List.length_replicate, List.length_singleton]
  have hListed : Listed value := by rw [hValue]; decide
  have hPairs : pairsOf longTwins = [([115], value), ([115], value)] := by
    have hSocket : EvSocket.pairs ⟨[115], [value], []⟩ = [([115], value)] := by
      unfold EvSocket.pairs
      dsimp only
      rw [if_neg (by decide), List.append_nil, List.filter_singleton, decide_eq_true hListed]
      rfl
    simp only [pairsOf, longTwins, ← hValue, List.flatMap_cons, List.flatMap_nil, hSocket]
    rfl
  rw [getSubDigest_eq, hPairs] at hCount
  have hKeyless : digestKey (fun value seed => seed + value.length) ([115], value) = none := by
    unfold digestKey
    rw [if_neg]
    rw [hLong]
    decide
  have hTwice := fun d : SubDigest => @enter_keyless _ d ([115], value) hListed hKeyless
  simp only [List.foldl_cons, List.foldl_nil, hTwice] at hCount
  simp at hCount

end Pairs
end Sassrv.Daemon
