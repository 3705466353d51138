import Mathlib.Data.BitVec
import Sassrv.Lib.Table
import Sassrv.SubMgr.Text

/-! The inbound losses of a host: they are recorded for a socket and a subject,
the first one is published at once, and the others by a timer, one publishing
host at a time for each socket. -/
namespace Sassrv.Daemon

open SubMgr (Text)

/-- The hash and the text of a subject. -/
abbrev LossKey := BitVec 32 × Text

structure RvDataLossElem where
  msgLoss : BitVec 32
  restart : BitVec 32
  pubMsgLoss : BitVec 32 := 0
  pubRestart : BitVec 32 := 0
  pubHost : BitVec 32
  pubHostId : Option Text

def RvDataLossElem.pending (el : RvDataLossElem) : BitVec 32 := el.msgLoss - el.pubMsgLoss

def RvDataLossElem.publish (el : RvDataLossElem) : RvDataLossElem :=
  { el with pubMsgLoss := el.msgLoss, pubRestart := el.restart }

abbrev RvDataLossQueue := Table LossKey RvDataLossElem

structure RvPubLoss where
  lossQueue : Option RvDataLossQueue := none

/-- The statuses of a publication, the prefix of the host's service when it has
one, and the order in which a queue is visited. -/
structure LossEnv where
  evMaxLoss : BitVec 32
  evPubRestart : BitVec 32
  servicePrefix : Text
  visit : RvDataLossQueue → List (LossKey × RvDataLossElem)
  visit_perm : ∀ q, (visit q).Perm q.entries

structure LossPublish where
  subject : Text
  subjHash : BitVec 32
  pubStatus : BitVec 32
  pubHost : BitVec 32

/-- A published advisory. It lists the first nine of the subjects. -/
structure LossAdvisory where
  taken : List (LossKey × BitVec 32)
  lost : Nat
  tracking : Bool
  pubHost : BitVec 32
  pubHostId : Option Text

def LossAdvisory.listed (a : LossAdvisory) : List (LossKey × BitVec 32) := a.taken.take 9

/-- What a host does with losses: it sends an advisory to a socket, or deletes a
queue. -/
inductive LossAct where
  | advisory (fd : Nat) (a : LossAdvisory)
  | deleted (q : RvDataLossQueue)

structure LossHost where
  ptr : List (Option RvPubLoss) := []
  refs : Nat := 0
  pubEvents : BitVec 32 := 0
  idl : Nat := 0
  timerId : Nat := 0
  hostStatusTimer : Nat := 0
  hostDelayTimer : Nat := 0
  hostLossTimer : Nat := 0
  log : List LossAct := []

def LossHost.entry (h : LossHost) (fd : Nat) : Option RvPubLoss := h.ptr[fd]?.join

def LossHost.put (h : LossHost) (fd : Nat) (loss : Option RvPubLoss) : LossHost :=
  { h with ptr := h.ptr.set fd loss }

def LossHost.act (h : LossHost) (a : LossAct) : LossHost := { h with log := h.log ++ [a] }

/-- The loop of `send_inbound_data_loss` over the elements. -/
structure LossPass where
  queue : RvDataLossQueue
  taken : List (LossKey × BitVec 32) := []
  totalLoss : Nat := 0
  totalRestart : Nat := 0
  pubHost : BitVec 32 := 0
  pubHostId : Option Text := none

def LossPass.visit (p : LossPass) (e : LossKey × RvDataLossElem) : LossPass :=
  let (key, el) := e
  if el.pubMsgLoss ≠ el.msgLoss ∧ (el.pubHost = p.pubHost ∨ p.pubHost = 0) then {
    queue := p.queue.modify key .publish
    taken := p.taken ++ [(key, el.pending)]
    totalLoss := p.totalLoss + el.pending.toNat
    totalRestart := p.totalRestart + (el.restart - el.pubRestart).toNat
    pubHost := el.pubHost
    pubHostId := el.pubHostId }
  else p

def LossPass.advisory (p : LossPass) : LossAdvisory :=
  { taken := p.taken
    lost := if p.totalLoss < 0x7fffffff then p.totalLoss else 0x7fffffff
    tracking := p.totalLoss = p.totalRestart
    pubHost := p.pubHost
    pubHostId := p.pubHostId }

section Host

variable (env : LossEnv)

/-- `send_inbound_data_loss` for the socket `fd` -/
def sendInboundDataLoss (h : LossHost) (fd : Nat) (loss : RvPubLoss) : Bool × LossHost :=
  match loss.lossQueue with
  | none => (false, h)
  | some q =>
      let p := (env.visit q).foldl LossPass.visit { queue := q }
      if p.totalLoss = 0 then
        (false, (h.act (.deleted p.queue)).put fd (some { loss with lossQueue := none }))
      else
        (true, (h.act (.advisory fd p.advisory)).put fd (some { loss with lossQueue := some p.queue }))

/-- The losses and restarts that a status reports. -/
def lossOf (pubStatus : BitVec 32) : Option (BitVec 32 × BitVec 32) :=
  let (msgLoss, restart) : BitVec 32 × BitVec 32 :=
    if pubStatus = env.evPubRestart then (1, 1) else (pubStatus, 0)
  if msgLoss ≤ env.evMaxLoss then some (msgLoss, restart) else none

def lossKey (pub : LossPublish) : LossKey :=
  (pub.subjHash, pub.subject.drop env.servicePrefix.length)

/-- The element of a subject after a loss. -/
def RvDataLossElem.record (el : Option RvDataLossElem) (msgLoss restart : BitVec 32)
    (pub : LossPublish) (pubHostId : Option Text) : RvDataLossElem :=
  match el with
  | none => { msgLoss := msgLoss, restart := restart, pubHost := pub.pubHost, pubHostId := pubHostId }
  | some el => { el with
      msgLoss := el.msgLoss + msgLoss, restart := el.restart + restart
      pubHost := pub.pubHost, pubHostId := pubHostId }

/-- `RvPubLoss::data_loss` -/
def dataLoss (h : LossHost) (fd : Nat) (loss : RvPubLoss) (pub : LossPublish)
    (pubHostId : Option Text) : LossHost :=
  match lossOf env pub.pubStatus with
  | none => h
  | some (msgLoss, restart) =>
      let q := loss.lossQueue.getD .empty
      let key := lossKey env pub
      let loss := { loss with
        lossQueue := some (q.insert key (.record (q.find? key) msgLoss restart pub pubHostId)) }
      let first : Bool := h.pubEvents = 0
      let h := { h.put fd (some loss) with idl := h.idl + msgLoss.toNat, pubEvents := h.pubEvents + 1 }
      if first then (sendInboundDataLoss env h fd loss).2 else h

/-- `loss_array[ fd ]` makes the array as long as that. -/
def LossHost.grow (h : LossHost) (fd : Nat) : LossHost :=
  { h with ptr := h.ptr ++ List.replicate (fd + 1 - h.ptr.length) none }

def armLossTimer (h : LossHost) : LossHost :=
  if h.hostLossTimer = 0 then { h with timerId := h.timerId + 1, hostLossTimer := h.timerId + 1 } else h

def inboundDataLoss (h : LossHost) (fd : Nat) (pub : LossPublish) (pubHostId : Option Text) : LossHost :=
  let h := h.grow fd
  match h.entry fd with
  | some loss => armLossTimer (dataLoss env h fd loss pub pubHostId)
  | none =>
      let h := { h.put fd (some {}) with refs := h.refs + 1 }
      armLossTimer (dataLoss env h fd {} pub pubHostId)

/-- `remove_loss_entry`. The last entry clears the array. -/
def removeLossEntry (h : LossHost) (fd : Nat) : LossHost :=
  match h.entry fd with
  | none => h
  | some loss =>
      let h := h.put fd none
      let h := match loss.lossQueue with
        | some q => h.act (.deleted q)
        | none => h
      let h := { h with refs := h.refs - 1 }
      if h.refs = 0 then { h with pubEvents := 0, ptr := [] } else h

/-- One turn of the loop in `pub_inbound_data_loss`. -/
def pubTurn (r : Bool × LossHost) (i : Nat) : Bool × LossHost :=
  match r.2.entry i with
  | none => r
  | some loss =>
      let (sent, h) := sendInboundDataLoss env r.2 i loss
      if sent then (true, h) else (r.1, removeLossEntry h i)

/-- `pub_inbound_data_loss`. The array does not grow meanwhile, and when it is
cleared no entry is left for the other turns. -/
def pubInboundDataLoss (h : LossHost) : Bool × LossHost :=
  (List.range h.ptr.length).foldl (pubTurn env) (false, h)

/-- The timer of `start_host2`. -/
def armStatusTimer (h : LossHost) : LossHost :=
  if h.hostStatusTimer = 0 then { h with timerId := h.timerId + 1, hostStatusTimer := h.timerId + 1 }
  else h

/-- `timer_expire` -/
def timerExpire (h : LossHost) (tid : Nat) : Bool × LossHost :=
  if tid ≠ h.hostStatusTimer then
    if tid = h.hostDelayTimer then (false, armStatusTimer h)
    else if tid = h.hostLossTimer then
      let (one, h) := pubInboundDataLoss env h
      if one then (true, h) else (false, { h with hostLossTimer := 0 })
    else (false, h)
  else (true, h)

inductive LossEvent where
  | inbound (fd : Nat) (pub : LossPublish) (pubHostId : Option Text)
  | timer (tid : Nat)

def lossStep (h : LossHost) : LossEvent → LossHost
  | .inbound fd pub pubHostId => inboundDataLoss env h fd pub pubHostId
  | .timer tid => (timerExpire env h tid).2

def lossRun (h : LossHost) (es : List LossEvent) : LossHost := es.foldl (lossStep env) h

end Host

/-! ### What is pending and what is published -/

def pendingIn (q : RvDataLossQueue) (key : LossKey) : BitVec 32 :=
  (q.find? key).elim 0 RvDataLossElem.pending

def pendingOf (loss : Option RvPubLoss) (key : LossKey) : BitVec 32 :=
  (loss.bind RvPubLoss.lossQueue).elim 0 (pendingIn · key)

/-- The loss of a subject that is still pending for a socket. -/
def LossHost.pending (h : LossHost) (fd : Nat) (key : LossKey) : BitVec 32 := pendingOf (h.entry fd) key

/-- The loss of a subject in a list of them. -/
def lossIn (taken : List (LossKey × BitVec 32)) (key : LossKey) : BitVec 32 :=
  (taken.map fun e => if e.1 = key then e.2 else 0).sum

/-- What an act publishes to a socket of the loss of a subject. -/
def LossAct.published (fd : Nat) (key : LossKey) : LossAct → BitVec 32
  | .advisory fd' a => if fd' = fd then lossIn a.taken key else 0
  | .deleted _ => 0

def LossHost.published (h : LossHost) (fd : Nat) (key : LossKey) : BitVec 32 :=
  (h.log.map (LossAct.published fd key)).sum

/-- Nothing was pending in any queue when it was deleted. -/
def LossHost.DeletesSettled (h : LossHost) : Prop :=
  ∀ q, .deleted q ∈ h.log → ∀ key, pendingIn q key = 0

def LossHost.nonNull (h : LossHost) : Nat := h.ptr.countP Option.isSome

/-- The loss of a subject that an event records for a socket. -/
def LossEvent.recorded (env : LossEnv) (fd : Nat) (key : LossKey) : LossEvent → BitVec 32
  | .inbound fd' pub _ =>
      if fd' = fd ∧ lossKey env pub = key then (lossOf env pub.pubStatus).elim 0 Prod.fst else 0
  | .timer _ => 0

def recorded (env : LossEnv) (es : List LossEvent) (fd : Nat) (key : LossKey) : BitVec 32 :=
  (es.map (LossEvent.recorded env fd key)).sum

section Pass

variable {q : RvDataLossQueue} {p : LossPass} {rest : List (LossKey × RvDataLossElem)}

theorem pending_publish (el : RvDataLossElem) : el.publish.pending = 0 := BitVec.sub_self ..

theorem pendingIn_publish (q : RvDataLossQueue) (key x : LossKey) :
    pendingIn (q.modify key .publish) x = if x = key then 0 else pendingIn q x := by
  unfold pendingIn
  rw [Table.find?_modify]
  by_cases hx : x = key
  · simp only [if_pos hx]
    cases q.find? x with
    | none => rfl
    | some el => exact pending_publish el
  · simp only [if_neg hx]
    cases q.find? x <;> rfl

theorem pending_ne_zero {el : RvDataLossElem} : el.pending ≠ 0 ↔ el.pubMsgLoss ≠ el.msgLoss := by
  rw [RvDataLossElem.pending, sub_ne_zero, ne_comm]

/-- The loop after some elements, with the others before it: nothing is lost
between the queue and what is taken, and nothing was left behind as long as
nothing is taken. -/
structure LossPass.Inv (q : RvDataLossQueue) (p : LossPass) (rest : List (LossKey × RvDataLossElem)) :
    Prop where
  kept : ∀ key, lossIn p.taken key + pendingIn p.queue key = pendingIn q key
  less : ∀ key, pendingIn p.queue key = 0 ∨ pendingIn p.queue key = pendingIn q key
  fresh : ∀ e ∈ rest, p.queue.find? e.1 = some e.2
  keys : (rest.map Prod.fst).Nodup
  idle : p.totalLoss = 0 → p.taken = [] ∧ p.pubHost = 0 ∧
    ∀ key, pendingIn p.queue key ≠ 0 → ∃ el, (key, el) ∈ rest

theorem LossPass.Inv.visit {e : LossKey × RvDataLossElem} (hInv : p.Inv q (e :: rest)) :
    (p.visit e).Inv q rest := by
  obtain ⟨key, el⟩ := e
  have hFound : p.queue.find? key = some el := hInv.fresh (key, el) List.mem_cons_self
  have hPending : pendingIn p.queue key = el.pending := by
    rw [pendingIn, hFound]
    rfl
  obtain ⟨hNotMem, hNodup⟩ := List.nodup_cons.mp hInv.keys
  unfold LossPass.visit
  dsimp only
  split
  · next hTaken =>
      have hSome : el.pending ≠ 0 := pending_ne_zero.mpr hTaken.1
      refine ⟨fun x => ?_, fun x => ?_, fun e he => ?_, hNodup, fun hTotal => absurd hTotal ?_⟩
      · have hKept := hInv.kept x
        rw [pendingIn_publish, lossIn, List.map_append, List.sum_append, ← lossIn, ← hKept]
        by_cases hx : x = key
        · subst hx
          simp [hPending]
        · simp [hx, Ne.symm hx]
      · rw [pendingIn_publish]
        split
        · exact Or.inl rfl
        · exact hInv.less x
      · have hNe : e.1 ≠ key := fun hEq => hNotMem (List.mem_map.mpr ⟨e, he, hEq⟩)
        dsimp only
        rw [Table.find?_modify_ne _ _ hNe]
        exact hInv.fresh e (List.mem_cons_of_mem _ he)
      · have hPos : el.pending.toNat ≠ 0 := fun hZero => hSome (BitVec.eq_of_toNat_eq hZero)
        dsimp only
        omega
  · next hLeft =>
      refine ⟨hInv.kept, hInv.less, fun e he => hInv.fresh e (List.mem_cons_of_mem _ he), hNodup,
        fun hTotal => ?_⟩
      obtain ⟨hTaken, hHost, hRest⟩ := hInv.idle hTotal
      refine ⟨hTaken, hHost, fun x hx => ?_⟩
      obtain ⟨el', hMem⟩ := hRest x hx
      rcases List.mem_cons.mp hMem with hEq | hMem
      · cases hEq
        rw [hPending] at hx
        exact absurd ⟨pending_ne_zero.mp hx, Or.inr hHost⟩ hLeft
      · exact ⟨el', hMem⟩

theorem LossPass.Inv.run (hInv : p.Inv q rest) : (rest.foldl LossPass.visit p).Inv q [] := by
  induction rest generalizing p with
  | nil => exact hInv
  | cons e rest ih => exact ih hInv.visit

/-- The whole loop, in whatever order the queue is visited. -/
theorem pass_inv (env : LossEnv) (q : RvDataLossQueue) :
    ((env.visit q).foldl LossPass.visit { queue := q }).Inv q [] := by
  have hPerm := env.visit_perm q
  refine LossPass.Inv.run ⟨fun key => ?_, fun _ => Or.inr rfl, fun e he => ?_, ?_, fun _ => ⟨rfl, rfl, fun key hKey => ?_⟩⟩
  · simp [lossIn]
  · exact Table.find?_eq_some.mpr (hPerm.mem_iff.mp he)
  · exact (hPerm.map Prod.fst).nodup_iff.mpr q.nodup
  · unfold pendingIn at hKey
    cases hFind : q.find? key with
    | none => simp [hFind] at hKey
    | some el => exact ⟨el, hPerm.mem_iff.mpr (Table.find?_eq_some.mp hFind)⟩

end Pass

section Steps

variable {env : LossEnv} {h h' : LossHost} {fd : Nat} {loss : RvPubLoss}

theorem lt_of_entry (hEntry : h.entry fd = some loss) : fd < h.ptr.length := by
  by_contra hOut
  rw [LossHost.entry, List.getElem?_eq_none (Nat.not_lt.mp hOut)] at hEntry
  cases hEntry

theorem entry_put (hIn : fd < h.ptr.length) (x : Option RvPubLoss) (i : Nat) :
    (h.put fd x).entry i = if i = fd then x else h.entry i := by
  unfold LossHost.entry LossHost.put
  dsimp only
  by_cases hEq : i = fd
  · subst hEq
    rw [List.getElem?_set_self hIn, if_pos rfl]
    rfl
  · rw [List.getElem?_set_ne (Ne.symm hEq), if_neg hEq]

theorem nonNull_put (hIn : fd < h.ptr.length) (x : Option RvPubLoss) :
    (h.put fd x).nonNull + (h.entry fd).isSome.toNat = h.nonNull + x.isSome.toNat := by
  have hHere : h.entry fd = h.ptr[fd] := by
    rw [LossHost.entry, List.getElem?_eq_getElem hIn]
    rfl
  have hCount : ∀ y : Option RvPubLoss, y.isSome.toNat = if y.isSome = true then 1 else 0 := by
    intro y
    cases y <;> rfl
  have hPos : (if h.ptr[fd].isSome = true then 1 else 0) ≤ h.ptr.countP Option.isSome := by
    split
    · next hSome => exact List.countP_pos_iff.mpr ⟨_, List.getElem_mem hIn, hSome⟩
    · exact Nat.zero_le _
  unfold LossHost.nonNull LossHost.put
  dsimp only
  rw [List.countP_set hIn, hHere, hCount, hCount]
  omega

theorem published_act (h : LossHost) (a : LossAct) (fd : Nat) (key : LossKey) :
    (h.act a).published fd key = h.published fd key + a.published fd key := by
  simp [LossHost.published, LossHost.act]

theorem deletesSettled_act {a : LossAct} (hSettled : h.DeletesSettled)
    (hAct : ∀ q, a = .deleted q → ∀ key, pendingIn q key = 0) : (h.act a).DeletesSettled := by
  intro q hq
  rcases List.mem_append.mp hq with hq | hq
  · exact hSettled q hq
  · exact hAct q (List.mem_singleton.mp hq).symm

/-- What is published and pending adds up to the same as before, and the other
invariants are kept. -/
structure Settles (h h' : LossHost) : Prop where
  kept : ∀ fd key, h'.published fd key + h'.pending fd key = h.published fd key + h.pending fd key
  less : ∀ fd key, h'.pending fd key = 0 ∨ h'.pending fd key = h.pending fd key
  deletes : h.DeletesSettled → h'.DeletesSettled
  refs : h.refs = h.nonNull → h'.refs = h'.nonNull

theorem Settles.refl : Settles h h := ⟨fun _ _ => rfl, fun _ _ => Or.inr rfl, id, id⟩

theorem Settles.trans {k : LossHost} (hFirst : Settles h h') (hNext : Settles h' k) : Settles h k :=
  ⟨fun fd key => (hNext.kept fd key).trans (hFirst.kept fd key),
    fun fd key => (hNext.less fd key).elim Or.inl fun hSame => hSame ▸ hFirst.less fd key,
    hNext.deletes ∘ hFirst.deletes, hNext.refs ∘ hFirst.refs⟩

/-- An act on an entry, and the entry with what is left of its queue. -/
theorem Settles.of_put {a : LossAct} {x : RvPubLoss} (hEntry : h.entry fd = some loss)
    (hKept : ∀ i key, a.published i key + (if i = fd then pendingOf (some x) key else 0) =
      if i = fd then pendingOf (some loss) key else 0)
    (hLess : ∀ key, pendingOf (some x) key = 0 ∨ pendingOf (some x) key = pendingOf (some loss) key)
    (hAct : ∀ q, a = .deleted q → ∀ key, pendingIn q key = 0) :
    Settles h ((h.act a).put fd (some x)) := by
  have hIn : fd < (h.act a).ptr.length := lt_of_entry hEntry
  refine ⟨fun i key => ?_, fun i key => ?_, fun hSettled => deletesSettled_act hSettled hAct,
    fun hRefs => ?_⟩
  · have hLog : ((h.act a).put fd (some x)).published i key = (h.act a).published i key := rfl
    have hKept := hKept i key
    rw [hLog, published_act, LossHost.pending, entry_put hIn]
    by_cases hi : i = fd
    · rw [if_pos hi] at hKept ⊢
      rw [if_pos hi] at hKept
      rw [add_assoc, hKept, LossHost.pending, hi, hEntry]
    · rw [if_neg hi, if_neg hi, add_zero] at hKept
      rw [if_neg hi, hKept, add_zero]
      rfl
  · rw [LossHost.pending, entry_put hIn]
    split
    · next hi =>
        rw [LossHost.pending, hi, hEntry]
        exact hLess key
    · exact Or.inr rfl
  · have hCount := nonNull_put hIn (some x)
    have hSame : (h.act a).entry fd = some loss := hEntry
    rw [hSame] at hCount
    exact hRefs.trans (Nat.add_right_cancel hCount).symm

variable (env) in
/-- `send_inbound_data_loss` keeps the account, and reports false only when
nothing is pending for the socket. -/
theorem send_settles (hEntry : h.entry fd = some loss) :
    let r := sendInboundDataLoss env h fd loss
    Settles h r.2 ∧ (r.1 = false → ∀ key, r.2.pending fd key = 0) ∧
      (∃ x : RvPubLoss, ∀ i, r.2.entry i = if i = fd then some x else h.entry i) ∧
      r.2.hostLossTimer = h.hostLossTimer := by
  have hIn := lt_of_entry hEntry
  unfold sendInboundDataLoss
  cases hQueue : loss.lossQueue with
  | none =>
      refine ⟨Settles.refl, fun _ key => ?_, ⟨loss, fun i => ?_⟩, rfl⟩
      · rw [LossHost.pending, hEntry]
        simp [pendingOf, hQueue]
      · by_cases hi : i = fd
        · rw [if_pos hi, hi]
          exact hEntry
        · rw [if_neg hi]
  | some q =>
      have hPass := pass_inv env q
      have hBefore : ∀ key, pendingOf (some loss) key = pendingIn q key := fun key => by
        simp [pendingOf, hQueue]
      dsimp only
      generalize (env.visit q).foldl LossPass.visit { queue := q } = p at hPass ⊢
      split
      · next hNone =>
          obtain ⟨hTaken, -, hRest⟩ := hPass.idle hNone
          have hSettled : ∀ key, pendingIn p.queue key = 0 := fun key => by
            by_contra hSome
            obtain ⟨el, hMem⟩ := hRest key hSome
            cases hMem
          have hQueue : ∀ key, pendingIn q key = 0 := fun key => by
            have hKept := hPass.kept key
            rw [hTaken, hSettled key] at hKept
            exact hKept.symm
          refine ⟨.of_put hEntry (fun i key => ?_) (fun key => Or.inl rfl) ?_, fun _ key => ?_,
            ⟨_, fun i => entry_put (by exact hIn) _ i⟩, rfl⟩
          · rw [hBefore, hQueue]
            simp [LossAct.published, pendingOf]
          · rintro _ ⟨⟩ key
            exact hSettled key
          · rw [LossHost.pending, entry_put (by exact hIn), if_pos rfl]
            rfl
      · refine ⟨.of_put hEntry (fun i key => ?_) (fun key => hBefore key ▸ hPass.less key)
          (by rintro _ ⟨⟩), by rintro ⟨⟩,
          ⟨_, fun i => entry_put (by exact hIn) _ i⟩, rfl⟩
        · rw [hBefore, ← hPass.kept key]
          by_cases hi : i = fd
          · simp [LossAct.published, LossPass.advisory, pendingOf, hi]
          · simp [LossAct.published, hi, Ne.symm hi]

/-- The entry and its queue are gone, and the array is not cleared yet. -/
def dropEntry (h : LossHost) (fd : Nat) (loss : RvPubLoss) : LossHost :=
  let h := h.put fd none
  let h := match loss.lossQueue with
    | some q => h.act (.deleted q)
    | none => h
  { h with refs := h.refs - 1 }

theorem removeLossEntry_eq (hEntry : h.entry fd = some loss) :
    removeLossEntry h fd =
      if (dropEntry h fd loss).refs = 0 then { dropEntry h fd loss with pubEvents := 0, ptr := [] }
      else dropEntry h fd loss := by
  unfold removeLossEntry
  rw [hEntry]
  rfl

theorem dropEntry_ptr (h : LossHost) (fd : Nat) (loss : RvPubLoss) :
    (dropEntry h fd loss).ptr = h.ptr.set fd none := by
  unfold dropEntry
  cases loss.lossQueue <;> rfl

theorem dropEntry_timer (h : LossHost) (fd : Nat) (loss : RvPubLoss) :
    (dropEntry h fd loss).hostLossTimer = h.hostLossTimer := by
  unfold dropEntry
  cases loss.lossQueue <;> rfl

theorem dropEntry_entry (hIn : fd < h.ptr.length) (i : Nat) :
    (dropEntry h fd loss).entry i = if i = fd then none else h.entry i := by
  rw [← entry_put hIn none i, LossHost.entry, LossHost.entry, dropEntry_ptr]
  rfl

/-- An entry with nothing pending is dropped. -/
theorem drop_settles (hEntry : h.entry fd = some loss) (hNone : ∀ key, h.pending fd key = 0) :
    Settles h (dropEntry h fd loss) := by
  have hIn := lt_of_entry hEntry
  have hQueue : ∀ q, loss.lossQueue = some q → ∀ key, pendingIn q key = 0 := fun q hq key => by
    have hSettled := hNone key
    rw [LossHost.pending, hEntry] at hSettled
    simpa [pendingOf, hq] using hSettled
  refine ⟨fun i key => ?_, fun i key => ?_, fun hSettled => ?_, fun hRefs => ?_⟩
  · have hPublished : (dropEntry h fd loss).published i key = h.published i key := by
      unfold dropEntry
      cases loss.lossQueue with
      | none => rfl
      | some q =>
          have hAct := published_act (h.put fd none) (.deleted q) i key
          rw [LossAct.published, add_zero] at hAct
          exact hAct
    rw [hPublished, LossHost.pending, dropEntry_entry hIn]
    by_cases hi : i = fd
    · rw [if_pos hi, hi, hNone]
      rfl
    · rw [if_neg hi]
      rfl
  · rw [LossHost.pending, dropEntry_entry hIn]
    split
    · exact Or.inl rfl
    · exact Or.inr rfl
  · unfold dropEntry
    cases hq : loss.lossQueue with
    | none => exact hSettled
    | some q =>
        refine deletesSettled_act (h := h.put fd none) hSettled ?_
        rintro _ ⟨⟩
        exact hQueue q hq
  · have hCount := nonNull_put hIn none
    have hPtr : (dropEntry h fd loss).nonNull = (h.put fd none).nonNull := by
      rw [LossHost.nonNull, dropEntry_ptr]
      rfl
    have hLess : (dropEntry h fd loss).refs = h.refs - 1 := by
      unfold dropEntry
      cases loss.lossQueue <;> rfl
    rw [hEntry, Option.isSome_some, Option.isSome_none, Bool.toNat_true, Bool.toNat_false] at hCount
    omega

theorem entry_of_nonNull (hNone : h.nonNull = 0) (i : Nat) : h.entry i = none := by
  by_contra hSome
  obtain ⟨loss, hLoss⟩ := Option.ne_none_iff_exists'.mp hSome
  have hIn := lt_of_entry hLoss
  rw [LossHost.entry, List.getElem?_eq_getElem hIn] at hLoss
  have hMem := List.getElem_mem hIn
  have hNot := List.countP_eq_zero.mp hNone _ hMem
  simp_all

/-- Without entries the array is cleared. -/
theorem clear_settles (hNone : h.nonNull = 0) : Settles h { h with pubEvents := 0, ptr := [] } := by
  refine ⟨fun i key => ?_, fun i key => Or.inl rfl, id, fun hRefs => hRefs.trans hNone⟩
  rw [LossHost.pending, LossHost.pending, entry_of_nonNull hNone i]
  rfl

theorem remove_settles (hEntry : h.entry fd = some loss) (hNone : ∀ key, h.pending fd key = 0)
    (hRefs : h.refs = h.nonNull) :
    let r := removeLossEntry h fd
    Settles h r ∧ r.entry fd = none ∧ (∀ i, h.entry i = none → r.entry i = none) ∧
      r.hostLossTimer = h.hostLossTimer := by
  have hDrop := drop_settles hEntry hNone
  have hIn := lt_of_entry hEntry
  rw [removeLossEntry_eq hEntry]
  dsimp only
  split
  · next hLast =>
      refine ⟨hDrop.trans (clear_settles ((hDrop.refs hRefs).symm.trans hLast)), rfl,
        fun _ _ => rfl, dropEntry_timer ..⟩
  · refine ⟨hDrop, ?_, fun i hi => ?_, dropEntry_timer ..⟩
    · rw [dropEntry_entry hIn, if_pos rfl]
    · rw [dropEntry_entry hIn]
      split
      · rfl
      · exact hi

variable (env) in
/-- One turn settles, and reports false only when the entry is gone. -/
theorem turn_settles {r : Bool × LossHost} (hRefs : r.2.refs = r.2.nonNull) (i : Nat) :
    let r' := pubTurn env r i
    Settles r.2 r'.2 ∧ (r'.1 = false → r.1 = false ∧ r'.2.entry i = none) ∧
      (∀ j, r.2.entry j = none → r'.2.entry j = none) ∧ r'.2.hostLossTimer = r.2.hostLossTimer := by
  obtain ⟨one, h⟩ := r
  unfold pubTurn
  dsimp only at hRefs ⊢
  cases hEntry : h.entry i with
  | none => exact ⟨Settles.refl, fun hOne => ⟨hOne, hEntry⟩, fun _ hj => hj, rfl⟩
  | some loss =>
      obtain ⟨hSend, hIdle, ⟨x, hEntries⟩, hTimer⟩ := send_settles env hEntry
      dsimp only
      generalize sendInboundDataLoss env h i loss = r at hSend hIdle hEntries hTimer ⊢
      obtain ⟨sent, h'⟩ := r
      have hNone : ∀ j, h.entry j = none → h'.entry j = none := fun j hj => by
        rw [hEntries, if_neg]
        · exact hj
        · rintro ⟨⟩
          rw [hEntry] at hj
          cases hj
      cases sent with
      | true => exact ⟨hSend, by rintro ⟨⟩, hNone, hTimer⟩
      | false =>
          have hHere : h'.entry i = some x := by rw [hEntries, if_pos rfl]
          obtain ⟨hRemove, hGone, hOthers, hSame⟩ :=
            remove_settles hHere (hIdle rfl) (hSend.refs hRefs)
          exact ⟨hSend.trans hRemove, fun hOne => ⟨hOne, hGone⟩, fun j hj => hOthers j (hNone j hj),
            hSame.trans hTimer⟩

variable (env) in
theorem turns_settle {r : Bool × LossHost} (hRefs : r.2.refs = r.2.nonNull) (is : List Nat) :
    let r' := is.foldl (pubTurn env) r
    Settles r.2 r'.2 ∧ (r'.1 = false → r.1 = false ∧ ∀ i ∈ is, r'.2.entry i = none) ∧
      (∀ j, r.2.entry j = none → r'.2.entry j = none) ∧ r'.2.hostLossTimer = r.2.hostLossTimer := by
  induction is generalizing r with
  | nil => exact ⟨Settles.refl, fun h => ⟨h, by simp⟩, fun _ hj => hj, rfl⟩
  | cons i is ih =>
      obtain ⟨hTurn, hHere, hKept, hTimer⟩ := turn_settles env hRefs i
      obtain ⟨hRest, hLater, hGone, hSame⟩ := ih (hTurn.refs hRefs)
      refine ⟨hTurn.trans hRest, fun hOne => ?_, fun j hj => hGone j (hKept j hj), hSame.trans hTimer⟩
      obtain ⟨hOne, hAll⟩ := hLater hOne
      obtain ⟨hStart, hEntry⟩ := hHere hOne
      refine ⟨hStart, fun j hj => ?_⟩
      rcases List.mem_cons.mp hj with rfl | hj
      · exact hGone j hEntry
      · exact hAll j hj

variable (env) in
/-- A whole round settles, and when it sends nothing no entry is left. -/
theorem round_settles (hRefs : h.refs = h.nonNull) :
    let r := pubInboundDataLoss env h
    Settles h r.2 ∧ (r.1 = false → ∀ i, r.2.entry i = none) ∧ r.2.hostLossTimer = h.hostLossTimer := by
  obtain ⟨hSettles, hAll, hGone, hTimer⟩ :=
    @turns_settle env (false, h) hRefs (List.range h.ptr.length)
  refine ⟨hSettles, fun hOne i => ?_, hTimer⟩
  by_cases hIn : i < h.ptr.length
  · exact (hAll hOne).2 i (List.mem_range.mpr hIn)
  · refine hGone i ?_
    rw [LossHost.entry, List.getElem?_eq_none (Nat.not_lt.mp hIn)]
    rfl

/-! ### One event, and runs -/

/-- The account of a host: what it published for a socket and a subject, and
what is pending, are the losses recorded. -/
structure LossKept (r : Nat → LossKey → BitVec 32) (h : LossHost) : Prop where
  account : ∀ fd key, h.published fd key + h.pending fd key = r fd key
  deletes : h.DeletesSettled
  refs : h.refs = h.nonNull
  timer : ∀ fd key, h.pending fd key ≠ 0 → h.hostLossTimer ≠ 0

theorem pendingOf_some (loss : RvPubLoss) (key : LossKey) :
    pendingOf (some loss) key = pendingIn (loss.lossQueue.getD .empty) key := by
  obtain ⟨queue⟩ := loss
  cases queue <;> rfl

theorem record_pending (el : Option RvDataLossElem) (msgLoss restart : BitVec 32) (pub : LossPublish)
    (pubHostId : Option Text) :
    (RvDataLossElem.record el msgLoss restart pub pubHostId).pending =
      el.elim 0 RvDataLossElem.pending + msgLoss := by
  cases el with
  | none => simp [RvDataLossElem.record, RvDataLossElem.pending]
  | some el =>
      simp only [RvDataLossElem.record, RvDataLossElem.pending, Option.elim_some]
      abel

theorem pendingIn_record (q : RvDataLossQueue) (msgLoss restart : BitVec 32) (pub : LossPublish)
    (pubHostId : Option Text) (key x : LossKey) :
    pendingIn (q.insert key (.record (q.find? key) msgLoss restart pub pubHostId)) x =
      pendingIn q x + if key = x then msgLoss else 0 := by
  unfold pendingIn
  rw [Table.find?_insert]
  by_cases hx : x = key
  · rw [if_pos hx, if_pos hx.symm, hx]
    exact record_pending ..
  · rw [if_neg hx, if_neg (Ne.symm hx), add_zero]

variable (env) in
/-- What a loss adds to the account. -/
theorem dataLoss_kept (hEntry : h.entry fd = some loss) (pub : LossPublish) (pubHostId : Option Text)
    (hDeletes : h.DeletesSettled) (hRefs : h.refs = h.nonNull) :
    let h' := dataLoss env h fd loss pub pubHostId
    (∀ i key, h'.published i key + h'.pending i key = h.published i key + h.pending i key +
      LossEvent.recorded env i key (.inbound fd pub pubHostId)) ∧
      h'.DeletesSettled ∧ h'.refs = h'.nonNull := by
  have hIn := lt_of_entry hEntry
  unfold dataLoss
  cases hLoss : lossOf env pub.pubStatus with
  | none =>
      refine ⟨fun i key => ?_, hDeletes, hRefs⟩
      simp [LossEvent.recorded, hLoss]
  | some l =>
      obtain ⟨msgLoss, restart⟩ := l
      dsimp only
      obtain ⟨loss', hLoss'⟩ : ∃ loss' : RvPubLoss, loss' = { loss with
          lossQueue := some ((loss.lossQueue.getD .empty).insert (lossKey env pub) (.record
            ((loss.lossQueue.getD .empty).find? (lossKey env pub)) msgLoss restart pub pubHostId)) } :=
        ⟨_, rfl⟩
      obtain ⟨h₁, hh₁⟩ : ∃ h₁ : LossHost, h₁ = { h.put fd (some loss') with
        idl := h.idl + msgLoss.toNat, pubEvents := h.pubEvents + 1 } := ⟨_, rfl⟩
      rw [← hLoss', ← hh₁]
      have hEntries : ∀ i, h₁.entry i = if i = fd then some loss' else h.entry i := fun i => by
        rw [hh₁]
        exact entry_put hIn (some loss') i
      have hAccount : ∀ i key, h₁.published i key + h₁.pending i key =
          h.published i key + h.pending i key +
            LossEvent.recorded env i key (.inbound fd pub pubHostId) := fun i key => by
        have hLog : h₁.published i key = h.published i key := by rw [hh₁]; rfl
        rw [hLog, LossHost.pending, hEntries, add_assoc]
        congr 1
        by_cases hi : i = fd
        · rw [if_pos hi, hi, LossHost.pending, hEntry, pendingOf_some, pendingOf_some, hLoss',
            LossEvent.recorded, hLoss]
          simp only [Option.getD_some, pendingIn_record, true_and, Option.elim_some]
        · rw [if_neg hi, LossEvent.recorded, if_neg (fun hBoth => hi hBoth.1.symm), add_zero]
          rfl
      have hCount : h₁.refs = h₁.nonNull := by
        have hPut := nonNull_put hIn (some loss')
        rw [hEntry] at hPut
        rw [hh₁]
        exact hRefs.trans (Nat.add_right_cancel hPut).symm
      have hKept : h₁.DeletesSettled := by
        rw [hh₁]
        exact hDeletes
      split
      · obtain ⟨hSend, -⟩ := send_settles env (show h₁.entry fd = some loss' by
          rw [hEntries, if_pos rfl])
        exact ⟨fun i key => (hSend.kept i key).trans (hAccount i key), hSend.deletes hKept,
          hSend.refs hCount⟩
      · exact ⟨hAccount, hKept, hCount⟩

theorem grow_entry (h : LossHost) (fd i : Nat) : (h.grow fd).entry i = h.entry i := by
  unfold LossHost.grow LossHost.entry
  dsimp only
  by_cases hIn : i < h.ptr.length
  · rw [List.getElem?_append_left hIn]
  · rw [List.getElem?_append_right (Nat.not_lt.mp hIn), List.getElem?_eq_none (Nat.not_lt.mp hIn),
      List.getElem?_replicate]
    split <;> rfl

theorem grow_settles (h : LossHost) (fd : Nat) : Settles h (h.grow fd) := by
  have hSame : ∀ i key, (h.grow fd).pending i key = h.pending i key := fun i key => by
    rw [LossHost.pending, grow_entry]
    rfl
  refine ⟨fun i key => by rw [hSame]; rfl, fun i key => Or.inr (hSame i key), id,
    fun hRefs => ?_⟩
  have hCount : (h.grow fd).nonNull = h.nonNull := by
    simp [LossHost.nonNull, LossHost.grow, List.countP_append, List.countP_replicate]
  exact hRefs.trans hCount.symm

theorem grow_length (h : LossHost) (fd : Nat) : fd < (h.grow fd).ptr.length := by
  simp only [LossHost.grow, List.length_append, List.length_replicate]
  omega

/-- A new entry has nothing pending. -/
theorem open_settles (hIn : fd < h.ptr.length) (hNone : h.entry fd = none) :
    Settles h { h.put fd (some {}) with refs := h.refs + 1 } := by
  have hSame : ∀ i key, (h.put fd (some {})).pending i key = h.pending i key := fun i key => by
    rw [LossHost.pending, entry_put hIn]
    by_cases hi : i = fd
    · rw [if_pos hi, LossHost.pending, hi, hNone]
      rfl
    · rw [if_neg hi]
      rfl
  refine ⟨fun i key => congrArg (h.published i key + ·) (hSame i key),
    fun i key => Or.inr (hSame i key), id, fun hRefs => ?_⟩
  · have hPut := nonNull_put hIn (some {})
    rw [hNone, Option.isSome_some, Option.isSome_none, Bool.toNat_true, Bool.toNat_false] at hPut
    exact (congrArg (· + 1) hRefs).trans hPut.symm

theorem armLossTimer_kept {r : Nat → LossKey → BitVec 32}
    (hAccount : ∀ fd key, h.published fd key + h.pending fd key = r fd key)
    (hDeletes : h.DeletesSettled) (hRefs : h.refs = h.nonNull) : LossKept r (armLossTimer h) := by
  unfold armLossTimer
  split
  · exact ⟨hAccount, hDeletes, hRefs, fun _ _ _ => Nat.succ_ne_zero _⟩
  · next hArmed => exact ⟨hAccount, hDeletes, hRefs, fun _ _ _ => hArmed⟩

variable (env) in
theorem inbound_kept {r : Nat → LossKey → BitVec 32} (hKept : LossKept r h) (fd : Nat)
    (pub : LossPublish) (pubHostId : Option Text) :
    LossKept (fun i key => r i key + LossEvent.recorded env i key (.inbound fd pub pubHostId))
      (inboundDataLoss env h fd pub pubHostId) := by
  have hGrow := grow_settles h fd
  unfold inboundDataLoss
  dsimp only
  cases hEntry : (h.grow fd).entry fd with
  | some loss =>
      obtain ⟨hAccount, hDeletes, hRefs⟩ := dataLoss_kept env hEntry pub pubHostId
        (hGrow.deletes hKept.deletes) (hGrow.refs hKept.refs)
      refine armLossTimer_kept (fun i key => ?_) hDeletes hRefs
      rw [hAccount, hGrow.kept, hKept.account]
  | none =>
      have hOpen := hGrow.trans (open_settles (grow_length h fd) hEntry)
      have hHere := entry_put (grow_length h fd) (some {}) fd
      rw [if_pos rfl] at hHere
      obtain ⟨hAccount, hDeletes, hRefs⟩ := dataLoss_kept env
        (h := { (h.grow fd).put fd (some {}) with refs := (h.grow fd).refs + 1 }) hHere pub pubHostId
        (hOpen.deletes hKept.deletes) (hOpen.refs hKept.refs)
      refine armLossTimer_kept (fun i key => ?_) hDeletes hRefs
      rw [hAccount, hOpen.kept, hKept.account]

variable (env) in
theorem timer_kept {r : Nat → LossKey → BitVec 32} (hKept : LossKept r h) (tid : Nat) :
    LossKept r (timerExpire env h tid).2 := by
  obtain ⟨hRound, hIdle, hTimer⟩ := round_settles env hKept.refs
  have hAccount := fun fd key => (hRound.kept fd key).trans (hKept.account fd key)
  unfold timerExpire
  split
  · split
    · unfold armStatusTimer
      split
      · exact ⟨hKept.account, hKept.deletes, hKept.refs, hKept.timer⟩
      · exact hKept
    · split
      · dsimp only
        split
        · refine ⟨hAccount, hRound.deletes hKept.deletes, hRound.refs hKept.refs, fun fd key hSome => ?_⟩
          rw [hTimer]
          refine hKept.timer fd key fun hBefore => hSome ?_
          rcases hRound.less fd key with hZero | hSame
          · exact hZero
          · exact hSame.trans hBefore
        · next hNone =>
            refine ⟨hAccount, hRound.deletes hKept.deletes, hRound.refs hKept.refs, fun fd key hSome => ?_⟩
            have hGone := hIdle (Bool.eq_false_iff.mpr hNone) fd
            refine absurd ?_ hSome
            rw [LossHost.pending]
            exact congrArg (pendingOf · key) hGone
      · exact hKept
  · exact hKept

/-- A host without losses, whatever its timers. -/
def LossHost.fresh (timerId hostStatusTimer hostDelayTimer hostLossTimer : Nat) : LossHost :=
  { timerId, hostStatusTimer, hostDelayTimer, hostLossTimer }

theorem fresh_kept (timerId hostStatusTimer hostDelayTimer hostLossTimer : Nat) :
    LossKept (fun _ _ => 0) (.fresh timerId hostStatusTimer hostDelayTimer hostLossTimer) :=
  ⟨fun _ _ => rfl, by rintro q ⟨⟩, rfl, fun _ _ hSome => absurd rfl hSome⟩

variable (env) in
theorem step_kept {r : Nat → LossKey → BitVec 32} (hKept : LossKept r h) (e : LossEvent) :
    LossKept (fun i key => r i key + LossEvent.recorded env i key e) (lossStep env h e) := by
  cases e with
  | inbound fd pub pubHostId => exact inbound_kept env hKept fd pub pubHostId
  | timer tid =>
      have hZero : (fun i key => r i key + LossEvent.recorded env i key (.timer tid)) = r :=
        funext fun i => funext fun key => add_zero _
      rw [hZero]
      exact timer_kept env hKept tid

variable (env) in
theorem run_kept {r : Nat → LossKey → BitVec 32} (hKept : LossKept r h) (es : List LossEvent) :
    LossKept (fun i key => r i key + recorded env es i key) (lossRun env h es) := by
  induction es generalizing r h with
  | nil => simpa [recorded, lossRun] using hKept
  | cons e es ih =>
      have hRest := ih (step_kept env hKept e)
      simpa [recorded, lossRun, add_assoc] using hRest

end Steps

/-- In every run of a host that is not stopped the losses published and the
losses pending are the ones recorded, no queue with pending losses is deleted,
`refs` counts the entries, and pending losses keep the timer. -/
theorem losses_conserved (env : LossEnv)
    (timerId hostStatusTimer hostDelayTimer hostLossTimer : Nat) (es : List LossEvent) :
    let h := lossRun env (.fresh timerId hostStatusTimer hostDelayTimer hostLossTimer) es
    (∀ fd key, h.published fd key + h.pending fd key = recorded env es fd key) ∧
      h.DeletesSettled ∧ h.refs = h.nonNull ∧ (∀ fd key, h.pending fd key ≠ 0 → h.hostLossTimer ≠ 0) := by
  have hKept := run_kept env
    (fresh_kept timerId hostStatusTimer hostDelayTimer hostLossTimer) es
  exact ⟨fun fd key => (hKept.account fd key).trans (zero_add _), hKept.deletes, hKept.refs, hKept.timer⟩

end Sassrv.Daemon
