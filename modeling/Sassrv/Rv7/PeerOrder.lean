import Mathlib.Data.List.Lex
import Sassrv.Lib.Comparators
import Sassrv.Rv7.FtPeer

/-! The order of the peers of a group. `compare_peer` looks at four keys and at the
inbox behind its sixteenth byte, so inboxes of two hosts can tie, and then the rank of
a peer depends on the order in which a member has its list. -/
namespace Sassrv.Rv7.Ft
open SubMgr Comparators

/-- The fields that `compare_peer` reads, with the inbox as a whole; the others are those
of a new peer. -/
def FtPeer.record (p : FtPeer) : FtPeer where
  inbox := p.inbox
  weight := p.weight
  isRunning := p.isRunning
  isStopped := p.isStopped
  isUnresponsive := p.isUnresponsive

/-- Nothing that `compare_peer` looks at is different. -/
def FtPeer.Tied (p q : FtPeer) : Prop :=
  p.isStopped = q.isStopped ∧ p.isUnresponsive = q.isUnresponsive ∧ p.weight = q.weight ∧
    p.isRunning = q.isRunning ∧ p.inbox.drop 16 = q.inbox.drop 16

instance (p q : FtPeer) : Decidable (p.Tied q) :=
  inferInstanceAs (Decidable (_ ∧ _))

theorem strcmp_eq_byKey (a b : Text) : strcmp a b = byKey (List.map UInt8.toNat) a b := by
  unfold byKey
  induction a generalizing b with
  | nil =>
      cases b with
      | nil => rfl
      | cons c bs => rfl
  | cons c as ih =>
      cases b with
      | nil => rfl
      | cons d bs =>
          simp only [strcmp, List.map_cons, List.cons_lt_cons_iff, UInt8.lt_iff_toNat_lt]
          by_cases hEq : c = d
          · rw [if_pos hEq, ih, hEq]
            simp only [Nat.lt_irrefl, false_or, true_and]
            congr
          · have hNe : c.toNat ≠ d.toNat := fun h => hEq (UInt8.toNat_inj.mp h)
            rw [if_neg hEq]
            rcases Nat.lt_or_gt_of_ne hNe with hLess | hMore
            · simp [hLess]
            · simp [hMore, hNe, hNe.symm, Nat.not_lt.mpr hMore.le]

theorem boolKey_eq (a b : Bool) (rest : Int) :
    (if (if a < b then -1 else if b < a then 1 else 0 : Int) = 0 then rest
      else if a < b then -1 else if b < a then 1 else 0) =
      if a ≠ b then if a then 1 else -1 else rest := by
  cases a <;> cases b <;> rfl

/-- What is false comes first. -/
theorem lex_bool (f : FtPeer → Bool) (c : FtPeer → FtPeer → Int) (p q : FtPeer) :
    lex (byKey f) c p q = if f p ≠ f q then if f p then 1 else -1 else c p q :=
  boolKey_eq (f p) (f q) (c p q)

theorem lex_bool_swap (f : FtPeer → Bool) (c : FtPeer → FtPeer → Int) (p q : FtPeer) :
    lex (fun p q => byKey f q p) c p q = if f p ≠ f q then if f p then -1 else 1 else c p q := by
  refine (boolKey_eq (f q) (f p) (c p q)).trans ?_
  cases f p <;> cases f q <;> rfl

theorem lex_weight (c : FtPeer → FtPeer → Int) (p q : FtPeer) :
    lex (fun p q => byKey (fun p => p.weight.toNat) q p) c p q =
      if q.weight < p.weight then -1 else if p.weight < q.weight then 1 else c p q := by
  simp only [lex, byKey, BitVec.lt_def]
  rcases lt_trichotomy q.weight.toNat p.weight.toNat with hLess | hEq | hMore
  · simp [hLess]
  · simp [hEq]
  · simp [hMore, hMore.not_gt]

theorem comparePeer_eq_lex : comparePeer =
    lex (byKey FtPeer.isStopped) (lex (byKey FtPeer.isUnresponsive)
      (lex (fun p q => byKey (fun p => p.weight.toNat) q p)
        (lex (fun p q => byKey FtPeer.isRunning q p)
          fun p q => byKey (fun p => (p.inbox.drop 16).map UInt8.toNat) q p))) := by
  funext p q
  have hSuffix : strcmp (q.inbox.drop 16) (p.inbox.drop 16) =
      byKey (fun p => (p.inbox.drop 16).map UInt8.toNat) q p := strcmp_eq_byKey _ _
  rw [lex_bool, lex_bool, lex_weight, lex_bool_swap, comparePeer, hSuffix]

theorem comparePeer_lawful : Lawful comparePeer := by
  rw [comparePeer_eq_lex]
  exact (lawful_byKey _).lex ((lawful_byKey _).lex ((lawful_byKey _).swap.lex
    ((lawful_byKey _).swap.lex (lawful_byKey _).swap)))

theorem comparePeer_eq_zero {p q : FtPeer} : comparePeer p q = 0 ↔ p.Tied q := by
  have hMap : ∀ a b : Text, a.map UInt8.toNat = b.map UInt8.toNat ↔ a = b := fun a b =>
    List.map_inj_right fun _ _ => UInt8.toNat_inj.mp
  rw [comparePeer_eq_lex, lex_eq_zero, lex_eq_zero, lex_eq_zero, lex_eq_zero, byKey_eq_zero,
    byKey_eq_zero, byKey_eq_zero, byKey_eq_zero, byKey_eq_zero, hMap, BitVec.toNat_inj]
  exact and_congr_right fun _ => and_congr_right fun _ =>
    and_congr eq_comm (and_congr eq_comm eq_comm)

/-- The sort of a list by `compare_peer` leaves no peer in front of one that comes before it. -/
def FtEnv.Sorts (env : FtEnv) : Prop :=
  ∀ peers, (env.sort comparePeer peers).Pairwise fun p q => comparePeer p q ≤ 0

/-- What the ranks of two members of a group rest on: `compare_peer` is a strict total
order on the peers, so that the list of another member with the same records gets the
same ranks and the same members below the active goal. -/
structure PeerOrdered (peers : List FtPeer) : Prop where
  decided : ∀ p ∈ peers, ∀ q ∈ peers, p.inbox ≠ q.inbox → comparePeer p q ≠ 0
  flip : ∀ p ∈ peers, ∀ q ∈ peers, comparePeer p q < 0 ↔ 0 < comparePeer q p
  trans : ∀ p ∈ peers, ∀ q ∈ peers, ∀ r ∈ peers, comparePeer p q < 0 → comparePeer q r < 0 →
    comparePeer p r < 0
  ranks : ∀ env env' : FtEnv, env.Sorts → env'.Sorts → ∀ peers' : List FtPeer,
    (peers'.map FtPeer.record).Perm (peers.map FtPeer.record) →
    ∀ x ∈ rankPeers (env.sort comparePeer peers), ∀ y ∈ rankPeers (env'.sort comparePeer peers'),
      x.inbox = y.inbox → x.rank = y.rank ∧ ∀ activeGoal, x.rank < activeGoal ↔ y.rank < activeGoal

/-- The sorted records of two members with the same records. -/
theorem sorted_records {peers peers' : List FtPeer} {env env' : FtEnv} (hSorts : env.Sorts)
    (hSorts' : env'.Sorts) (hSame : (peers'.map FtPeer.record).Perm (peers.map FtPeer.record))
    (hApart : ∀ p ∈ peers, ∀ q ∈ peers, comparePeer p q = 0 → p.inbox = q.inbox)
    (hNodup : (peers.map FtPeer.inbox).Nodup) :
    (env.sort comparePeer peers).map FtPeer.record =
      (env'.sort comparePeer peers').map FtPeer.record := by
  have hPerm := (env.sort_perm comparePeer peers).map FtPeer.record
  have hPerm' := (env'.sort_perm comparePeer peers').map FtPeer.record
  refine sorted_unique comparePeer_lawful (hPerm.trans (hSame.symm.trans hPerm'.symm))
    (List.pairwise_map.mpr (hSorts peers)) (List.pairwise_map.mpr (hSorts' peers')) ?_
  intro a ha b hb hZero
  obtain ⟨p, hp, rfl⟩ := List.mem_map.mp (hPerm.mem_iff.mp ha)
  obtain ⟨q, hq, rfl⟩ := List.mem_map.mp (hPerm.mem_iff.mp hb)
  rw [List.inj_on_of_nodup_map hNodup hp hq (hApart p hp q hq hZero)]

theorem mem_rankPeers_get {peers : List FtPeer} {x : FtPeer} (h : x ∈ rankPeers peers) :
    ∃ i, ∃ hi : i < peers.length, x = { peers[i] with rank := BitVec.ofNat 16 i } := by
  obtain ⟨i, hi, rfl⟩ := List.mem_mapIdx.mp h
  exact ⟨i, hi, rfl⟩

/-- For peers with pairwise distinct inboxes the order is what it has to be exactly when no
two of them have the same state, weight and inbox behind the sixteenth byte. -/
theorem peerOrdered_iff (peers : List FtPeer) (hNodup : (peers.map FtPeer.inbox).Nodup) :
    PeerOrdered peers ↔ ∀ p ∈ peers, ∀ q ∈ peers, p.inbox ≠ q.inbox → ¬ p.Tied q := by
  constructor
  · exact fun h p hp q hq hNe hTied => h.decided p hp q hq hNe (comparePeer_eq_zero.mpr hTied)
  · intro hApart
    refine ⟨fun p hp q hq hNe hZero => hApart p hp q hq hNe (comparePeer_eq_zero.mp hZero),
      fun p _ q _ => comparePeer_lawful.flip p q,
      fun p _ q _ r _ hpq hqr => comparePeer_lawful.lt_trans hpq hqr, ?_⟩
    intro env env' hSorts hSorts' peers' hSame x hx y hy hInbox
    have hTie : ∀ p ∈ peers, ∀ q ∈ peers, comparePeer p q = 0 → p.inbox = q.inbox :=
      fun p hp q hq hZero => by_contra fun hNe => hApart p hp q hq hNe (comparePeer_eq_zero.mp hZero)
    have hSorted := sorted_records hSorts hSorts' hSame hTie hNodup
    have hOnce : ((env.sort comparePeer peers).map FtPeer.inbox).Nodup :=
      ((env.sort_perm comparePeer peers).map FtPeer.inbox).nodup_iff.mpr hNodup
    have hInboxes := congrArg (List.map FtPeer.inbox) hSorted
    rw [List.map_map, List.map_map] at hInboxes
    replace hInboxes : (env.sort comparePeer peers).map FtPeer.inbox =
      (env'.sort comparePeer peers').map FtPeer.inbox := hInboxes
    obtain ⟨i, hi, rfl⟩ := mem_rankPeers_get hx
    obtain ⟨j, hj, rfl⟩ := mem_rankPeers_get hy
    have hAt : ((env.sort comparePeer peers).map FtPeer.inbox)[i]? =
        ((env.sort comparePeer peers).map FtPeer.inbox)[j]? := by
      rw [List.getElem?_map, List.getElem?_eq_getElem hi, hInboxes, List.getElem?_map,
        List.getElem?_eq_getElem hj]
      exact congrArg some hInbox
    have hIndex : i = j := (List.getElem?_inj (by rwa [List.length_map]) hOnce).mp hAt
    have hRank : BitVec.ofNat 16 i = BitVec.ofNat 16 j := congrArg (BitVec.ofNat 16) hIndex
    exact ⟨hRank, fun activeGoal => iff_of_eq (congrArg (· < activeGoal) hRank)⟩

def tiedPeer (inbox : String) : FtPeer where
  inbox := text inbox
  weight := 10

theorem peerOrdered_iff_two :
    PeerOrdered [tiedPeer "_INBOX.0A000001.5DC.2", tiedPeer "_INBOX.0A000002.5DD.2"] :=
  (peerOrdered_iff _ (by decide)).mpr (by decide)

/-- Two hosts whose sessions have started in the same microsecond: each member may put the
other one first. -/
theorem peer_tie :
    let a := tiedPeer "_INBOX.0A000001.5DC.2"
    let b := tiedPeer "_INBOX.0A000002.5DC.2"
    a.inbox ≠ b.inbox ∧ comparePeer a b = 0 ∧
    (rankPeers (sampleFtEnv.sort comparePeer [a, b])).map (fun p => (p.inbox, p.rank)) =
      [(a.inbox, 0), (b.inbox, 1)] ∧
    (rankPeers (sampleFtEnv.sort comparePeer [b, a])).map (fun p => (p.inbox, p.rank)) =
      [(b.inbox, 0), (a.inbox, 1)] := by
  decide

end Sassrv.Rv7.Ft
