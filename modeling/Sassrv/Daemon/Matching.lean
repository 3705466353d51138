import Sassrv.Client.Bridge
import Sassrv.Client.Subjects
import Sassrv.Lib.Transition
import Sassrv.SubMgr.Runs

/-! Which messages of the network `EvRvService::on_msg` hands to its client: the exact
subjects, the patterns by the hash of the text in front of their wildcard, and the
subjects of lost data of the host, one after the other up to the first that matches. All
subjects in the tables have the prefix of the service in front. -/
namespace Sassrv.Daemon.Matching
open SubMgr Client Transition

variable {Regex : Type}

/-- The libraries: the hash of a text from a seed, the seed of a prefix length,
`convert_rv`, of which the length of the prefix is used, and regular expressions, which
are made of what it converts a pattern to. -/
structure Env (Regex : Type) where
  crcC : Text → BitVec 32 → BitVec 32
  prefixSeed : Nat → BitVec 32
  convertRv : Text → Option Nat
  compile : Text → Option Regex
  pcre2Match : Regex → Text → Bool

/-- The prefix of a pattern is the text before its first wildcard, and a regular expression
matches what the pattern does. -/
structure Env.Lawful (env : Env Regex) : Prop where
  prefixlen : ∀ wild l, env.convertRv wild = some l → rvWildcard wild = some l
  regex : ∀ wild re sub, env.compile wild = some re →
    (env.pcre2Match re sub = true ↔ matchRvWildcard wild sub = true)

structure RvSubRoute where
  msgCnt : BitVec 32 := 0
  refcnt : BitVec 32 := 1

structure RvWildMatch (Regex : Type) where
  value : Text
  re : Option Regex
  msgCnt : BitVec 32 := 0
  refcnt : BitVec 32 := 1

/-- A hash and the text that has it. -/
abbrev Key := BitVec 32 × Text

instance : LawfulBEq Key := inferInstance

/-- The tables of a connection; `pre` is the prefix in `msg_in`. The list of a route is
the patterns that share a prefix, the last one first. -/
structure EvRvService (Regex : Type) where
  pre : Text := []
  subTab : Table Key RvSubRoute := .empty
  patTab : Table Key (List (RvWildMatch Regex)) := .empty

def EvRvService.setSub (c : EvRvService Regex) (key : Key) (rt : RvSubRoute) : EvRvService Regex :=
  { c with subTab := c.subTab.insert key rt }

def EvRvService.setRoute (c : EvRvService Regex) (key : Key) (route : List (RvWildMatch Regex)) :
    EvRvService Regex :=
  { c with patTab := c.patTab.insert key route }

/-- `set_prefix`: `_service.`, up to the 38 characters that there is room for. -/
def setPrefix (service : Text) : Text :=
  if service = [] then []
  else
    let name := if service.getLast? = some 46 then service.dropLast else service
    (if service.head? = some 95 then [] else [95]) ++ name.drop (name.length - 38) ++ [46]

/-- The subjects of lost data, with the prefix where the host has one. -/
structure RvHost where
  datalossInboundSub : Text := text "_RV.ERROR.SYSTEM.DATALOSS.INBOUND.BCAST"
  datalossOutboundSub : Text := text "_RV.ERROR.SYSTEM.DATALOSS.OUTBOUND.BCAST"

/-- The host of a service with a prefix. -/
def RvHost.ofService (service : Text) : RvHost where
  datalossInboundSub := 95 :: service ++ 46 :: text "_RV.ERROR.SYSTEM.DATALOSS.INBOUND.BCAST"
  datalossOutboundSub := 95 :: service ++ 46 :: text "_RV.ERROR.SYSTEM.DATALOSS.OUTBOUND.BCAST"

/-- A message of the network. `prefixes` is `hash` and `prefix`: the hash of the subject,
and hashes of the text in front of it with the length of each. -/
structure EvPublish where
  subject : Text
  subjHash : BitVec 32
  prefixes : List (BitVec 32 × Nat)
  deriving DecidableEq

def subKey (env : Env Regex) (subject : Text) : Key := (env.crcC subject 0, subject)

def prefixKey (env : Env Regex) (subject : Text) (prefixlen : Nat) : Key :=
  (env.crcC (subject.take prefixlen) (env.prefixSeed prefixlen), subject.take prefixlen)

/-- `sub_tab.put`. -/
def putSub (env : Env Regex) (c : EvRvService Regex) (subject : Text) : EvRvService Regex :=
  match c.subTab.find? (subKey env subject) with
  | some rt => c.setSub (subKey env subject) { rt with refcnt := rt.refcnt + 1 }
  | none => c.setSub (subKey env subject) {}

/-- The regular expression of a pattern; a pattern that is its prefix and `>` needs none. -/
def compilePattern (env : Env Regex) (subject : Text) (prefixlen : Nat) : Option (Option Regex) :=
  if prefixlen + 1 = subject.length ∧ subject[prefixlen]? = some 62 then some none
  else (env.compile subject).map some

/-- The pattern part of `add_sub`. -/
def putPattern (env : Env Regex) (c : EvRvService Regex) (subject : Text) : EvRvService Regex :=
  match env.convertRv subject with
  | none => c
  | some prefixlen =>
      let key := prefixKey env subject prefixlen
      let route := (c.patTab.find? key).getD []
      if route.any fun m => m.value = subject then
        c.setRoute key (route.modify (route.findIdx fun m => m.value = subject) fun m =>
          { m with refcnt := m.refcnt + 1 })
      else
        match compilePattern env subject prefixlen with
        | some re => c.setRoute key ({ value := subject, re := re } :: route)
        | none =>
            -- the new route is looked for under the whole pattern and stays
            let c := c.setRoute key route
            if route.isEmpty then { c with patTab := c.patTab.erase (key.1, subject) } else c

def addSub (env : Env Regex) (c : EvRvService Regex) (sub : Text) (isWild : Bool) :
    EvRvService Regex :=
  if isWild then putPattern env c (c.pre ++ sub) else putSub env c (c.pre ++ sub)

/-- `sub_tab.rem`. -/
def dropSub (env : Env Regex) (c : EvRvService Regex) (subject : Text) : EvRvService Regex :=
  match c.subTab.find? (subKey env subject) with
  | none => c
  | some rt =>
      if rt.refcnt - 1 = 0 then { c with subTab := c.subTab.erase (subKey env subject) }
      else c.setSub (subKey env subject) { rt with refcnt := rt.refcnt - 1 }

/-- The pattern part of `rem_sub`. -/
def dropPattern (env : Env Regex) (c : EvRvService Regex) (subject : Text) : EvRvService Regex :=
  match env.convertRv subject with
  | none => c
  | some prefixlen =>
      let key := prefixKey env subject prefixlen
      match c.patTab.find? key with
      | none => c
      | some route =>
          match route.find? fun m => m.value = subject with
          | none => c
          | some m =>
              let i := route.findIdx fun m => m.value = subject
              if m.refcnt - 1 = 0 then
                if (route.eraseIdx i).isEmpty then { c with patTab := c.patTab.erase key }
                else c.setRoute key (route.eraseIdx i)
              else c.setRoute key (route.set i { m with refcnt := m.refcnt - 1 })

def remSub (env : Env Regex) (c : EvRvService Regex) (sub : Text) (isWild : Bool) :
    EvRvService Regex :=
  if isWild then dropPattern env c (c.pre ++ sub) else dropSub env c (c.pre ++ sub)

/-- The test of one pattern against a subject; `prefixlen` is the length of its route. -/
def RvWildMatch.accepts (env : Env Regex) (m : RvWildMatch Regex) (prefixlen : Nat)
    (subject : Text) : Bool :=
  (m.re.all fun re => env.pcre2Match re subject) &&
    (prefixlen ≠ 0 || m.re.isSome || !isInboxSubject subject)

/-- One turn of the loop of `on_msg`: the connection with its count, if there is a match. -/
def matchEntry (env : Env Regex) (c : EvRvService Regex) (pub : EvPublish)
    (entry : BitVec 32 × Nat) : Option (EvRvService Regex) :=
  if pub.subjHash = entry.1 then
    (c.subTab.find? (pub.subjHash, pub.subject)).map fun rt =>
      c.setSub (pub.subjHash, pub.subject) { rt with msgCnt := rt.msgCnt + 1 }
  else
    let key := (entry.1, pub.subject.take entry.2)
    (c.patTab.find? key).bind fun route =>
      (route.findIdx? fun m => m.accepts env key.2.length pub.subject).map fun i =>
        c.setRoute key (route.modify i fun m => { m with msgCnt := m.msgCnt + 1 })

def matchEntries (env : Env Regex) (c : EvRvService Regex) (pub : EvPublish) :
    List (BitVec 32 × Nat) → Option (EvRvService Regex)
  | [] => none
  | entry :: rest =>
      match matchEntry env c pub entry with
      | some c' => some c'
      | none => matchEntries env c pub rest

/-- The test for one of the host's own subjects. -/
def isDataloss (env : Env Regex) (pub : EvPublish) (sub : Text) : Bool :=
  pub.subjHash = env.crcC sub 0 && pub.subject.length = sub.length && pub.subject = sub

/-- `on_msg`, with its calls of `fwd_msg`. -/
def onMsg (env : Env Regex) (host : RvHost) (c : EvRvService Regex) (pub : EvPublish) :
    EvRvService Regex × List EvPublish :=
  match matchEntries env c pub pub.prefixes with
  | some c => (c, [pub])
  | none =>
      if isDataloss env pub host.datalossInboundSub then (c, [pub])
      else if isDataloss env pub host.datalossOutboundSub then (c, [pub])
      else (c, [])

inductive Input where
  /-- An `L` message. -/
  | listen (sub : Text) (isWild : Bool)
  /-- A `C` message. -/
  | cancel (sub : Text) (isWild : Bool)
  | publish (pub : EvPublish)

def handle (env : Env Regex) (host : RvHost) (c : EvRvService Regex) :
    Input → EvRvService Regex × List EvPublish
  | .listen sub isWild => (addSub env c sub isWild, [])
  | .cancel sub isWild => (remSub env c sub isWild, [])
  | .publish pub => onMsg env host c pub

/-- Nothing, or a text that ends with a dot. -/
structure ServicePrefix where
  text : Text
  dotted : text = [] ∨ ∃ name, text = name ++ [46]

/-- A connection whose prefix is set. -/
def connection (env : Env Regex) (host : RvHost) (p : ServicePrefix) :
    System (EvRvService Regex) Input EvPublish where
  init := fun c => c = { pre := p.text }
  step := fun c input calls c' => handle env host c input = (c', calls)

def ServicePrefix.ofService (service : Text) : ServicePrefix where
  text := setPrefix service
  dotted := by
    unfold setPrefix
    split
    · exact .inl rfl
    · exact .inr ⟨_, rfl⟩

variable {env : Env Regex} {c c' : EvRvService Regex} {p : ServicePrefix} {host : RvHost}
  {pub : EvPublish} {key : Key} {route : List (RvWildMatch Regex)} {m : RvWildMatch Regex}
  {s w : Text} {l : Nat}

/-- The same text up to a dot in front of a pattern and of a subject changes nothing. -/
theorem matchRvWildcardFrom_dotted (segment : Bool) (q w s : Text) :
    matchRvWildcardFrom segment (q ++ 46 :: w) (q ++ 46 :: s) = matchRvWildcardFrom true w s := by
  induction q generalizing segment with
  | nil => simp [matchRvWildcardFrom]
  | cons x q ih =>
      have hMore : (q ++ 46 :: w).isEmpty = false := by simp
      rw [List.cons_append, List.cons_append, matchRvWildcardFrom, hMore]
      by_cases hStar : (x == 42 && segment && (false || (q ++ 46 :: w).head? == some 46)) = true
      · simp only [Bool.and_eq_true, beq_iff_eq, Bool.false_or] at hStar
        obtain ⟨⟨rfl, rfl⟩, hDot⟩ := hStar
        have hHead : ∃ more, q ++ 46 :: s = 46 :: more := by
          cases q with
          | nil => exact ⟨s, rfl⟩
          | cons y q => exact ⟨q ++ 46 :: s, by simpa using hDot⟩
        obtain ⟨more, hMore'⟩ := hHead
        have hSkip : (42 :: (q ++ 46 :: s)).dropWhile (· ≠ 46) = q ++ 46 :: s := by
          rw [List.dropWhile_cons_of_pos (by decide), hMore', List.dropWhile_cons_of_neg (by simp)]
        rw [if_neg (by simp), if_pos (by simp [hDot]), hSkip]
        exact ih false
      · simp only [Bool.and_false, Bool.false_eq_true, if_false, if_neg hStar, ne_eq,
          not_true_eq_false]
        exact ih _

theorem matchRvWildcard_pre (p : ServicePrefix) (w s : Text) :
    matchRvWildcard (p.text ++ w) (p.text ++ s) = matchRvWildcard w s := by
  rcases p.dotted with hNone | ⟨name, hDot⟩
  · rw [hNone]
    rfl
  · rw [hDot, List.append_assoc, List.append_assoc]
    exact matchRvWildcardFrom_dotted true name w s

/-- A pattern whose first wildcard is its last character `>`. -/
theorem matchRvWildcardFrom_tail {segment : Bool} {q t : Text}
    (h : rvWildcardFrom segment (q ++ [62]) = some q.length) :
    matchRvWildcardFrom segment (q ++ [62]) t = true ↔ ∃ rest, rest ≠ [] ∧ t = q ++ rest := by
  induction q generalizing segment t with
  | nil =>
      have hSegment : segment = true := by
        by_contra hNot
        rw [Bool.not_eq_true] at hNot
        subst hNot
        cases h
      subst hSegment
      cases t <;> simp [matchRvWildcardFrom]
  | cons x q ih =>
      rw [List.cons_append, rvWildcardFrom] at h
      split at h
      · cases h
      · next hHead =>
          obtain ⟨i, hi, hEq⟩ := Option.map_eq_some_iff.mp h
          obtain rfl : i = q.length := by simpa using hEq
          simp only [isWild, Bool.or_eq_true, not_or, Bool.not_eq_true] at hHead
          cases t with
          | nil => simp [matchRvWildcardFrom]
          | cons y t =>
              rw [List.cons_append, matchRvWildcardFrom, hHead.1, hHead.2]
              by_cases hSame : x = y
              · subst hSame
                simp [ih hi]
              · simp [hSame, Ne.symm hSame]

/-- A pattern in the list of its prefix, with the regular expression that it needs. -/
structure Fits (env : Env Regex) (pre : Text) (key : Key) (m : RvWildMatch Regex) (l : Nat)
    (w : Text) : Prop where
  value : m.value = pre ++ w
  prefixlen : env.convertRv m.value = some l
  key : key = prefixKey env m.value l
  re : compilePattern env m.value l = some m.re

/-- Every pattern is where a message looks for it. -/
def Placed (env : Env Regex) (c : EvRvService Regex) : Prop :=
  ∀ key route, c.patTab.find? key = some route → ∀ m ∈ route, ∃ l w, Fits env c.pre key m l w

theorem Placed.setRoute (h : Placed env c) (hRoute : ∀ m ∈ route, ∃ l w, Fits env c.pre key m l w) :
    Placed env (c.setRoute key route) := by
  intro key' route' hFind
  simp only [EvRvService.setRoute, Table.find?_insert] at hFind
  split at hFind
  · next hEq =>
      cases hFind
      rw [hEq]
      exact hRoute
  · exact h key' route' hFind

theorem Placed.erase (h : Placed env c) (key : Key) :
    Placed env { c with patTab := c.patTab.erase key } := by
  intro key' route' hFind
  simp only [Table.find?_erase] at hFind
  split at hFind
  · cases hFind
  · exact h key' route' hFind

theorem forall_modify {α : Type} {P : α → Prop} {f : α → α} (hf : ∀ a, P a → P (f a))
    {list : List α} (h : ∀ a ∈ list, P a) (i : Nat) : ∀ a ∈ list.modify i f, P a := by
  induction list generalizing i with
  | nil => simp
  | cons b rest ih =>
      obtain ⟨hb, hRest⟩ := List.forall_mem_cons.mp h
      cases i with
      | zero => exact List.forall_mem_cons.mpr ⟨hf b hb, hRest⟩
      | succ i => exact List.forall_mem_cons.mpr ⟨hb, ih hRest i⟩

/-- The counts of a pattern do not matter. -/
theorem Fits.counted (h : Fits env s key m l w) (msgCnt refcnt : BitVec 32) :
    Fits env s key { m with msgCnt := msgCnt, refcnt := refcnt } l w :=
  ⟨h.value, h.prefixlen, h.key, h.re⟩

theorem Placed.found (h : Placed env c) (key : Key) :
    ∀ m ∈ (c.patTab.find? key).getD [], ∃ l w, Fits env c.pre key m l w := by
  cases hFind : c.patTab.find? key with
  | none => simp
  | some route => exact h key route hFind

theorem Placed.putPattern (h : Placed env c) (sub : Text) :
    Placed env (putPattern env c (c.pre ++ sub)) := by
  unfold Matching.putPattern
  split
  · exact h
  · next l hConvert =>
      have hRoute := h.found (prefixKey env (c.pre ++ sub) l)
      dsimp only
      split
      · refine h.setRoute (forall_modify ?_ hRoute _)
        rintro m ⟨l, w, hFits⟩
        exact ⟨l, w, hFits.counted _ _⟩
      · split
        · next re hCompile =>
            refine h.setRoute (List.forall_mem_cons.mpr ⟨⟨l, sub, rfl, hConvert, rfl, hCompile⟩, hRoute⟩)
        · split
          · exact (h.setRoute hRoute).erase _
          · exact h.setRoute hRoute

theorem Placed.dropPattern (h : Placed env c) (sub : Text) :
    Placed env (dropPattern env c (c.pre ++ sub)) := by
  unfold Matching.dropPattern
  split
  · exact h
  · next l hConvert =>
      dsimp only
      split
      · exact h
      · next route hFind =>
          have hRoute := h _ route hFind
          split
          · exact h
          · next m hm =>
              split
              · split
                · exact h.erase _
                · exact h.setRoute fun m' hm' => hRoute m' (List.mem_of_mem_eraseIdx hm')
              · refine h.setRoute fun m' hm' => ?_
                rcases List.mem_or_eq_of_mem_set hm' with hOld | rfl
                · exact hRoute m' hOld
                · obtain ⟨l, w, hFits⟩ := hRoute m (List.mem_of_find?_eq_some hm)
                  exact ⟨l, w, hFits.counted _ _⟩

theorem Placed.matchEntry (h : Placed env c) {entry : BitVec 32 × Nat}
    (hMatch : matchEntry env c pub entry = some c') : Placed env c' ∧ c'.pre = c.pre := by
  unfold Matching.matchEntry at hMatch
  split at hMatch
  · obtain ⟨rt, -, rfl⟩ := Option.map_eq_some_iff.mp hMatch
    exact ⟨h, rfl⟩
  · obtain ⟨route, hFind, hIndex⟩ := Option.bind_eq_some_iff.mp hMatch
    obtain ⟨i, -, rfl⟩ := Option.map_eq_some_iff.mp hIndex
    refine ⟨h.setRoute (forall_modify ?_ (h _ route hFind) i), rfl⟩
    rintro m ⟨l, w, hFits⟩
    exact ⟨l, w, hFits.counted _ _⟩

theorem matchEntries_eq_some {entries : List (BitVec 32 × Nat)}
    (h : matchEntries env c pub entries = some c') :
    ∃ entry ∈ entries, matchEntry env c pub entry = some c' := by
  induction entries with
  | nil => cases h
  | cons entry rest ih =>
      rw [matchEntries] at h
      split at h
      · next hHere => exact ⟨entry, List.mem_cons_self, hHere.trans h⟩
      · obtain ⟨other, hMem, hMatch⟩ := ih h
        exact ⟨other, List.mem_cons_of_mem _ hMem, hMatch⟩

/-- What every state of the connection has. -/
structure Served (env : Env Regex) (p : ServicePrefix) (c : EvRvService Regex) : Prop where
  pre : c.pre = p.text
  placed : Placed env c

theorem Served.addSub (h : Served env p c) (sub : Text) (isWild : Bool) :
    Served env p (addSub env c sub isWild) := by
  unfold Matching.addSub
  split
  · refine ⟨?_, h.placed.putPattern sub⟩
    rw [← h.pre]
    unfold putPattern
    split
    · rfl
    · dsimp only
      split
      · rfl
      · split
        · rfl
        · split <;> rfl
  · unfold putSub
    split <;> exact ⟨h.pre, h.placed⟩

theorem Served.remSub (h : Served env p c) (sub : Text) (isWild : Bool) :
    Served env p (remSub env c sub isWild) := by
  unfold Matching.remSub
  split
  · refine ⟨?_, h.placed.dropPattern sub⟩
    rw [← h.pre]
    unfold dropPattern
    split
    · rfl
    · dsimp only
      split
      · rfl
      · split
        · rfl
        · split
          · split <;> rfl
          · rfl
  · unfold dropSub
    split
    · exact h
    · split <;> exact ⟨h.pre, h.placed⟩

theorem Served.onMsg (h : Served env p c) (host : RvHost) (pub : EvPublish) :
    Served env p (onMsg env host c pub).1 := by
  unfold Matching.onMsg
  split
  · next c' hSome =>
      obtain ⟨entry, -, hMatch⟩ := matchEntries_eq_some hSome
      obtain ⟨hPlaced, hPre⟩ := h.placed.matchEntry hMatch
      exact ⟨hPre.trans h.pre, hPlaced⟩
  · split
    · exact h
    · split <;> exact h

theorem connection_served (h : (connection env host p).Reachable c) : Served env p c := by
  refine h.invariant ?_ ?_
  · rintro _ rfl
    exact ⟨rfl, fun key route hFind => by cases hFind⟩
  · intro s input calls t inv hStep
    obtain rfl : (handle env host s input).1 = t := congrArg Prod.fst hStep
    cases input with
    | listen sub isWild => exact inv.addSub sub isWild
    | cancel sub isWild => exact inv.remSub sub isWild
    | publish pub => exact inv.onMsg host pub

/-- The pattern matches, but for `>` and the subject of an inbox. -/
def Wanted (w s : Text) : Prop :=
  matchRvWildcard w s = true ∧ ¬ (w = [62] ∧ isInboxSubject s = true)

/-- The one wildcard of the text is a `>` at its end. -/
def TailOnly (t : Text) : Prop := rvWildcard t = some (t.length - 1) ∧ t.getLast? = some 62

/-- What `on_msg` takes for a match besides: nothing behind the text of a pattern with a
`>` at its end, and an inbox under `>` behind a prefix. -/
def Stray (p : ServicePrefix) (w s : Text) : Prop :=
  (TailOnly (p.text ++ w) ∧ s = w.dropLast) ∨
    (w = [62] ∧ p.text ≠ [] ∧ isInboxSubject s = true)

theorem ServicePrefix.append_eq_tail {q : Text} (h : p.text ++ w = q ++ [62]) :
    w ≠ [] ∧ q = p.text ++ w.dropLast := by
  have hNe : w ≠ [] := by
    rintro rfl
    rw [List.append_nil] at h
    rcases p.dotted with hNone | ⟨name, hDot⟩
    · rw [hNone] at h
      simp at h
    · rw [hDot] at h
      have hLast := (List.append_inj' h rfl).2
      cases hLast
  refine ⟨hNe, ?_⟩
  have hBoth := congrArg List.dropLast h
  rw [List.dropLast_append_of_ne_nil hNe, List.dropLast_concat] at hBoth
  exact hBoth.symm

theorem ServicePrefix.append_eq_greater (h : p.text ++ w = [62]) : p.text = [] ∧ w = [62] := by
  obtain ⟨hNe, hNil⟩ := ServicePrefix.append_eq_tail (q := []) h
  have hText := (List.append_eq_nil_iff.mp hNil.symm).1
  rw [hText] at h
  exact ⟨hText, h⟩

theorem isInboxSubject_nil : isInboxSubject [] = false := rfl

theorem take_eq_iff {q t : Text} :
    (t.take q.length = q ∧ q.length ≤ t.length) ↔ ∃ rest, t = q ++ rest := by
  constructor
  · rintro ⟨hTake, -⟩
    have hSplit := List.take_append_drop q.length t
    rw [hTake] at hSplit
    exact ⟨t.drop q.length, hSplit.symm⟩
  · rintro ⟨rest, rfl⟩
    simp

/-- A pattern without a regular expression. -/
theorem accepts_tail (hValue : m.value = p.text ++ w) (hWild : rvWildcard m.value = some l)
    (hTail : l + 1 = m.value.length ∧ m.value[l]? = some 62) (hRe : m.re = none) :
    ((p.text ++ s).take l = m.value.take l ∧ l ≤ (p.text ++ s).length ∧
      m.accepts env l (p.text ++ s) = true) ↔ Wanted w s ∨ Stray p w s := by
  obtain ⟨q, hq, rfl⟩ : ∃ q, m.value = q ++ [62] ∧ l = q.length := by
    refine ⟨m.value.take l, ?_, by rw [List.length_take]; omega⟩
    have hAll := List.take_add_one (l := m.value) (i := l)
    rw [hTail.1, List.take_length, hTail.2] at hAll
    exact hAll
  have hText : p.text ++ w = q ++ [62] := hValue.symm.trans hq
  obtain ⟨hNe, hHead⟩ := ServicePrefix.append_eq_tail hText
  have hMatch : matchRvWildcard w s = true ↔ ∃ rest, rest ≠ [] ∧ p.text ++ s = q ++ rest := by
    rw [← matchRvWildcard_pre p, hText]
    exact matchRvWildcardFrom_tail (hq ▸ hWild)
  have hOnly : TailOnly (p.text ++ w) := by
    rw [hText]
    refine ⟨?_, by simp⟩
    rw [← hq, hWild, hq]
    simp
  have hTest : m.accepts env q.length (p.text ++ s) = true ↔
      (q = [] → isInboxSubject (p.text ++ s) = false) := by
    simp only [RvWildMatch.accepts, hRe, Option.all_none, Bool.true_and, Option.isSome_none,
      Bool.or_false, Bool.or_eq_true, decide_eq_true_eq, Bool.not_eq_true', ne_eq,
      List.length_eq_zero_iff]
    exact Decidable.or_iff_not_imp_left.trans (by rw [not_not])
  rw [hq, List.take_left, hTest, ← and_assoc, take_eq_iff]
  constructor
  · rintro ⟨⟨rest, hRest⟩, hInbox⟩
    by_cases hNil : rest = []
    · subst hNil
      rw [List.append_nil, hHead] at hRest
      exact .inr (.inl ⟨hOnly, List.append_cancel_left hRest⟩)
    · by_cases hGreater : w = [62] ∧ isInboxSubject s = true
      · obtain ⟨rfl, hIn⟩ := hGreater
        refine .inr (.inr ⟨rfl, fun hNone => ?_, hIn⟩)
        rw [hNone, List.nil_append] at hText hInbox
        have hEmpty : q ++ [62] = [] ++ [62] := hText.symm
        have hFalse := hInbox (List.append_inj_left' hEmpty rfl)
        rw [hIn] at hFalse
        cases hFalse
      · exact .inl ⟨hMatch.mpr ⟨rest, hNil, hRest⟩, hGreater⟩
  · rintro (⟨hWanted, hNot⟩ | ⟨-, rfl⟩ | ⟨rfl, hSome, hIn⟩)
    · obtain ⟨rest, -, hRest⟩ := hMatch.mp hWanted
      refine ⟨⟨rest, hRest⟩, fun hNil => ?_⟩
      rw [hNil, List.nil_append] at hText
      obtain ⟨hNone, rfl⟩ := ServicePrefix.append_eq_greater hText
      rw [hNone, List.nil_append]
      simpa using hNot
    · refine ⟨⟨[], by rw [hHead, List.append_nil]⟩, fun hNil => ?_⟩
      rw [← hHead, hNil]
      exact isInboxSubject_nil
    · have hPre : q = p.text := by simpa using hHead
      exact ⟨⟨s, by rw [hPre]⟩, fun hNil => absurd (hPre.symm.trans hNil) hSome⟩

/-- A pattern with a regular expression. -/
theorem accepts_regex {re : Regex} (lawful : env.Lawful) (hValue : m.value = p.text ++ w)
    (hWild : rvWildcard m.value = some l)
    (hTail : ¬ (l + 1 = m.value.length ∧ m.value[l]? = some 62))
    (hCompile : env.compile m.value = some re) (hRe : m.re = some re) :
    ((p.text ++ s).take l = m.value.take l ∧ l ≤ (p.text ++ s).length ∧
      m.accepts env l (p.text ++ s) = true) ↔ Wanted w s ∨ Stray p w s := by
  have hAccepts : m.accepts env l (p.text ++ s) = true ↔ matchRvWildcard w s = true := by
    rw [← matchRvWildcard_pre p, ← hValue, ← lawful.regex _ re _ hCompile]
    simp [RvWildMatch.accepts, hRe]
  rw [hAccepts]
  constructor
  · rintro ⟨-, -, hMatch⟩
    by_cases hGreater : w = [62] ∧ isInboxSubject s = true
    · obtain ⟨rfl, hIn⟩ := hGreater
      refine .inr (.inr ⟨rfl, fun hNone => hTail ?_, hIn⟩)
      rw [hValue, hNone] at hWild ⊢
      obtain rfl : 0 = l := Option.some.inj hWild
      exact ⟨rfl, rfl⟩
    · exact .inl ⟨hMatch, hGreater⟩
  · intro h
    have hMatch : matchRvWildcard w s = true := by
      rcases h with ⟨hMatch, -⟩ | ⟨⟨hOnly, hLast⟩, -⟩ | ⟨rfl, -, hIn⟩
      · exact hMatch
      · rw [← hValue] at hOnly hLast
        have hl : l = m.value.length - 1 := Option.some.inj (hWild.symm.trans hOnly)
        have hLt := rvWildcard_lt hWild
        rw [List.getLast?_eq_getElem?, ← hl] at hLast
        exact absurd ⟨by omega, hLast⟩ hTail
      · cases s with
        | nil => cases hIn
        | cons x t => rfl
    have hWhole := hMatch
    rw [← matchRvWildcard_pre p, ← hValue] at hWhole
    obtain ⟨hLength, hTake⟩ := matchRvWildcard_prefix hWild hWhole
    exact ⟨hTake, hLength.le, hMatch⟩

theorem Fits.accepts (lawful : env.Lawful) (h : Fits env p.text key m l w) :
    ((p.text ++ s).take l = m.value.take l ∧ l ≤ (p.text ++ s).length ∧
      m.accepts env l (p.text ++ s) = true) ↔ Wanted w s ∨ Stray p w s := by
  have hWild := lawful.prefixlen _ _ h.prefixlen
  have hCompile := h.re
  unfold compilePattern at hCompile
  split at hCompile
  · next hTail => exact accepts_tail h.value hWild hTail (Option.some.inj hCompile).symm
  · next hTail =>
      obtain ⟨re, hSome, hRe⟩ := Option.map_eq_some_iff.mp hCompile
      exact accepts_regex lawful h.value hWild hTail hSome hRe.symm

def EvRvService.HoldsSub (env : Env Regex) (c : EvRvService Regex) (s : Text) : Prop :=
  c.subTab.contains (subKey env (c.pre ++ s)) = true

def EvRvService.HoldsPattern (c : EvRvService Regex) (w : Text) : Prop :=
  ∃ key route, c.patTab.find? key = some route ∧ ∃ m ∈ route, m.value = c.pre ++ w

def RvHost.IsDataloss (host : RvHost) (subject : Text) : Prop :=
  subject = host.datalossInboundSub ∨ subject = host.datalossOutboundSub

instance (env : Env Regex) (c : EvRvService Regex) (s : Text) : Decidable (c.HoldsSub env s) :=
  inferInstanceAs (Decidable (_ = true))

instance (host : RvHost) (subject : Text) : Decidable (host.IsDataloss subject) :=
  inferInstanceAs (Decidable (_ ∨ _))

/-- The entries of a message have the subject and every prefix length of the patterns that
the subject is long enough for. -/
structure Covers (env : Env Regex) (c : EvRvService Regex) (pub : EvPublish) : Prop where
  subject : ∃ l, (pub.subjHash, l) ∈ pub.prefixes
  patterns : ∀ key route, c.patTab.find? key = some route → key.2.length ≤ pub.subject.length →
    ((prefixKey env pub.subject key.2.length).1, key.2.length) ∈ pub.prefixes

/-- The hash of the text before the wildcard is not by chance the one of the subject. -/
def Apart (env : Env Regex) (c : EvRvService Regex) (w s : Text) : Prop :=
  (prefixKey env (c.pre ++ w) ((rvWildcard (c.pre ++ w)).getD 0)).1 ≠ env.crcC (c.pre ++ s) 0

/-- What the client asked for: the subject itself, a pattern that it matches, or what was
lost. -/
def Due (env : Env Regex) (host : RvHost) (c : EvRvService Regex) (s : Text) : Prop :=
  c.HoldsSub env s ∨ (∃ w, c.HoldsPattern w ∧ Wanted w s) ∨ host.IsDataloss (c.pre ++ s)

/-- A pattern counts for `on_msg` by mistake only where another one does rightly, and one
that counts is not missed. -/
structure Fair (env : Env Regex) (p : ServicePrefix) (c : EvRvService Regex) (s : Text) : Prop where
  stray : ∀ w, c.HoldsPattern w → Apart env c w s → Stray p w s →
    ∃ w', c.HoldsPattern w' ∧ Wanted w' s
  found : ∀ w, c.HoldsPattern w → Wanted w s →
    ∃ w', c.HoldsPattern w' ∧ Apart env c w' s ∧ (Wanted w' s ∨ Stray p w' s)

/-- Regular expressions that are the patterns themselves. -/
def sampleEnv : Env Text where
  crcC := crc32c
  prefixSeed n := BitVec.ofNat 32 (n + 1)
  convertRv := rvWildcard
  compile := some
  pcre2Match := matchRvWildcard

theorem sampleEnv_lawful : sampleEnv.Lawful where
  prefixlen _ _ h := h
  regex wild re sub h := by
    cases h
    exact Iff.rfl

def sampleHost : RvHost := .ofService (text "7500")

end Sassrv.Daemon.Matching
