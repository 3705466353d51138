import Sassrv.Daemon.Matching
import Sassrv.Daemon.Network
import Sassrv.Lib.Collisions

/-! The routes that `add_sub`, `rem_sub` and `rem_all_sub` ask for. All subjects with one
hash share a route, so a call says whether the hash collides with what the connection has
already, or still has. A pattern is installed by libraries that may fail. -/
namespace Sassrv.Daemon.Routes
open SubMgr Client Matching Transition Collisions

variable {Regex : Type}

/-- What the libraries make of one pattern: its regular expression, if any, whether there
are match data for it and whether there is memory for the entry. -/
structure Installer (Regex : Type) where
  compile : Text → Option Regex
  matchData : Bool
  create : Bool

/-- The order in which the tables are iterated over. -/
structure Env (Regex : Type) extends Matching.Env Regex where
  visitSubs : Table Key RvSubRoute → List (Key × RvSubRoute)
  visitSubs_perm : ∀ t, (visitSubs t).Perm t.entries
  visitPats : Table Key (List (RvWildMatch Regex)) → List (Key × List (RvWildMatch Regex))
  visitPats_perm : ∀ t, (visitPats t).Perm t.entries

/-- What a connection asks of `sub_route` and of its host. -/
inductive Call where
  | addSub (subject : Text) (hash : BitVec 32) (collision : Bool)
  | notifySub (subject : Text) (hash : BitVec 32) (collision : Bool) (subCount : BitVec 32)
  | delSub (subject : Text) (hash : BitVec 32) (collision : Bool)
  | notifyUnsub (subject : Text) (hash : BitVec 32) (collision : Bool) (subCount : BitVec 32)
  | addPat (pattern : Text) (hash : BitVec 32) (collision : Bool)
  | notifyPat (pattern : Text) (hash : BitVec 32) (collision : Bool) (subCount : BitVec 32)
  | delPat (pattern : Text) (hash : BitVec 32) (collision : Bool)
  | notifyUnpat (pattern : Text) (hash : BitVec 32) (collision : Bool) (subCount : BitVec 32)
  | listenStart (sub : Text) (refcnt : BitVec 32)
  | listenStop (sub : Text)
  deriving DecidableEq

/-- A connection with its tables; `isDaemon` is `IS_RV_DAEMON`. -/
structure Connection (Regex : Type) extends EvRvService Regex where
  isDaemon : Bool := false
  host : Host := { networkStarted := true }

/-- What one of the tables does: the connection, the count, and the calls. -/
structure Entered (Regex : Type) where
  conn : Connection Regex
  refcnt : BitVec 32
  calls : List Call

/-- `hcnt`, the number of entries with a hash. -/
def hashCount {α : Type} (t : Table Key α) (h : BitVec 32) : Nat :=
  (t.entries.filter fun e => e.1.1 = h).length

def Connection.setSub (c : Connection Regex) (key : Key) (rt : RvSubRoute) : Connection Regex :=
  { c with subTab := c.subTab.insert key rt }

def Connection.setRoute (c : Connection Regex) (key : Key) (route : List (RvWildMatch Regex)) :
    Connection Regex :=
  { c with patTab := c.patTab.insert key route }

def Connection.eraseRoute (c : Connection Regex) (key : Key) : Connection Regex :=
  { c with patTab := c.patTab.erase key }

/-- The regular expression of a new pattern, none where `>` follows the prefix, if all that is
needed for it is there. -/
def install (o : Installer Regex) (subject : Text) (prefixlen : Nat) : Option (Option Regex) :=
  if prefixlen + 1 = subject.length ∧ subject[prefixlen]? = some 62 then
    if o.create then some none else none
  else (o.compile subject).bind fun re => if o.matchData && o.create then some (some re) else none

/-- `sub_tab.put` in `add_sub`. -/
def addExact (env : Env Regex) (c : Connection Regex) (subject : Text) : Entered Regex :=
  let key := subKey env.toEnv subject
  let coll : Bool := 0 < hashCount c.subTab key.1
  match c.subTab.find? key with
  | none => ⟨c.setSub key {}, 1, [.addSub subject key.1 coll]⟩
  | some rt =>
      ⟨c.setSub key { rt with refcnt := rt.refcnt + 1 }, rt.refcnt + 1,
        [.notifySub subject key.1 coll (rt.refcnt + 1)]⟩

/-- The pattern part of `add_sub`. -/
def addPattern (o : Installer Regex) (env : Env Regex) (c : Connection Regex) (subject : Text) :
    Entered Regex :=
  match env.convertRv subject with
  | none => ⟨c, 0, []⟩
  | some prefixlen =>
      let key := prefixKey env.toEnv subject prefixlen
      let coll : Bool := 0 < hashCount c.patTab key.1
      let route := (c.patTab.find? key).getD []
      match route.find? fun m => m.value = subject with
      | some m =>
          ⟨c.setRoute key (route.modify (route.findIdx fun m => m.value = subject) fun m =>
            { m with refcnt := m.refcnt + 1 }), m.refcnt + 1,
            [.notifyPat subject key.1 coll (m.refcnt + 1)]⟩
      | none =>
          match install o subject prefixlen with
          | some re =>
              ⟨c.setRoute key ({ value := subject, re := re } :: route), 1,
                [.addPat subject key.1 (coll || 0 < route.length)]⟩
          | none =>
              -- the new route is looked for under the whole pattern and stays
              let c := c.setRoute key route
              ⟨if route.length = 0 then c.eraseRoute (key.1, subject) else c, 1, []⟩

/-- `add_sub`. -/
def addSub (o : Installer Regex) (env : Env Regex) (c : Connection Regex) (sub : Text)
    (isWild : Bool) : Connection Regex × List Call :=
  let subject := c.pre ++ sub
  let r := if isWild then addPattern o env c subject else addExact env c subject
  let (host, refcnt) :=
    if r.refcnt ≠ 0 ∧ r.conn.isDaemon then r.conn.host.addRef subject else (r.conn.host, r.refcnt)
  ({ r.conn with host := host }, r.calls ++
    if refcnt ≠ 0 ∧ !isRestrictedSubject sub then [.listenStart sub refcnt] else [])

/-- `sub_tab.rem` in `rem_sub`. -/
def remExact (env : Env Regex) (c : Connection Regex) (subject : Text) : Entered Regex :=
  let key := subKey env.toEnv subject
  match c.subTab.find? key with
  | none => ⟨c, notFound, []⟩
  | some rt =>
      let coll : Bool := 1 < hashCount c.subTab key.1
      if rt.refcnt - 1 = 0 then
        ⟨{ c with subTab := c.subTab.erase key }, 0, [.delSub subject key.1 coll]⟩
      else
        ⟨c.setSub key { rt with refcnt := rt.refcnt - 1 }, rt.refcnt - 1,
          [.notifyUnsub subject key.1 coll (rt.refcnt - 1)]⟩

/-- The pattern part of `rem_sub`. -/
def remPattern (env : Env Regex) (c : Connection Regex) (subject : Text) : Entered Regex :=
  match env.convertRv subject with
  | none => ⟨c, notFound, []⟩
  | some prefixlen =>
      let key := prefixKey env.toEnv subject prefixlen
      match c.patTab.find? key with
      | none => ⟨c, notFound, []⟩
      | some route =>
          let coll : Bool := 1 < hashCount c.patTab key.1
          match route.find? fun m => m.value = subject with
          | none => ⟨c, notFound, []⟩
          | some m =>
              let i := route.findIdx fun m => m.value = subject
              if m.refcnt - 1 = 0 then
                let rest := route.eraseIdx i
                ⟨if rest.length = 0 then c.eraseRoute key else c.setRoute key rest, 0,
                  [.delPat subject key.1 (coll || 0 < rest.length)]⟩
              else
                ⟨c.setRoute key (route.set i { m with refcnt := m.refcnt - 1 }), m.refcnt - 1,
                  [.notifyUnpat subject key.1 coll (m.refcnt - 1)]⟩

/-- `rem_sub`. -/
def remSub (env : Env Regex) (c : Connection Regex) (sub : Text) (isWild : Bool) :
    Connection Regex × List Call :=
  let subject := c.pre ++ sub
  let r := if isWild then remPattern env c subject else remExact env c subject
  let (host, refcnt) :=
    if r.refcnt ≠ notFound ∧ r.conn.isDaemon then r.conn.host.remRefs subject 1
    else (r.conn.host, r.refcnt)
  ({ r.conn with host := host }, r.calls ++
    if refcnt = 0 ∧ !isRestrictedSubject sub then [.listenStop sub] else [])

/-- The references of one subject at the end of a connection. -/
def stopListen (c : Connection Regex) (e : Text × BitVec 32) : Connection Regex × List Call :=
  if c.pre.length < e.1.length then
    let (host, refcnt) := if c.isDaemon then c.host.remRefs e.1 e.2 else (c.host, 0)
    let sub := e.1.drop c.pre.length
    ({ c with host := host }, if refcnt = 0 ∧ !isRestrictedSubject sub then [.listenStop sub] else [])
  else (c, [])

def stopListens (c : Connection Regex) : List (Text × BitVec 32) → Connection Regex × List Call
  | [] => (c, [])
  | e :: rest =>
      let r := stopListen c e
      let more := stopListens r.1 rest
      (more.1, r.2 ++ more.2)

/-- `RvSubMap::rem_collision`: the count of all ones marks what was deleted. -/
def markSub (t : Table Key RvSubRoute) (key : Key) : Table Key RvSubRoute :=
  t.modify key fun rt => { rt with refcnt := notFound }

def subCollision (t : Table Key RvSubRoute) (h : BitVec 32) : Bool :=
  t.entries.any fun e => e.1.1 = h && e.2.refcnt ≠ notFound

/-- `RvPatternMap::rem_collision`. A pattern is once in its list. -/
def markPat (t : Table Key (List (RvWildMatch Regex))) (key : Key) (value : Text) :
    Table Key (List (RvWildMatch Regex)) :=
  t.modify key fun route =>
    route.map fun m => if m.value = value then { m with refcnt := notFound } else m

def patCollision (t : Table Key (List (RvWildMatch Regex))) (h : BitVec 32) : Bool :=
  t.entries.any fun e => e.1.1 = h && e.2.any fun m => m.refcnt ≠ notFound

def delSubs (t : Table Key RvSubRoute) : List Key → Table Key RvSubRoute × List Call
  | [] => (t, [])
  | key :: rest =>
      let t := markSub t key
      let r := delSubs t rest
      (r.1, .delSub key.2 key.1 (subCollision t key.1) :: r.2)

def delPats (env : Env Regex) (t : Table Key (List (RvWildMatch Regex))) :
    List (Key × Text) → Table Key (List (RvWildMatch Regex)) × List Call
  | [] => (t, [])
  | (key, value) :: rest =>
      match env.convertRv value with
      | none => delPats env t rest
      | some _ =>
          let t := markPat t key value
          let r := delPats env t rest
          (r.1, .delPat value key.1 (patCollision t key.1) :: r.2)

/-- The keys of the exact subjects, in the order of the table. -/
def subKeys (env : Env Regex) (c : Connection Regex) : List Key :=
  (env.visitSubs c.subTab).map Prod.fst

/-- The patterns with the keys of their lists. -/
def patKeys (env : Env Regex) (c : Connection Regex) : List (Key × Text) :=
  (env.visitPats c.patTab).flatMap fun e => e.2.map fun m => (e.1, m.value)

/-- `rem_all_sub`. -/
def remAllSub (quit : Bool) (env : Env Regex) (c : Connection Regex) : Connection Regex × List Call :=
  let stops :=
    if quit then (c, [])
    else stopListens c ((env.visitSubs c.subTab).map (fun e => (e.1.2, e.2.refcnt)) ++
      (env.visitPats c.patTab).flatMap fun e => e.2.map fun m => (m.value, m.refcnt))
  let subs := delSubs stops.1.subTab (subKeys env c)
  let pats := delPats env stops.1.patTab (patKeys env c)
  ({ stops.1 with subTab := subs.1, patTab := pats.1 }, stops.2 ++ subs.2 ++ pats.2)

variable {env : Env Regex} {o : Installer Regex} {c c' : Connection Regex} {sub : Text}
  {key : Key} {l : Nat}

/-- The pattern is not one of the connection's. -/
def New (c : Connection Regex) (key : Key) (subject : Text) : Prop :=
  ∀ route, c.patTab.find? key = some route → ∀ m ∈ route, m.value ≠ subject

/-- Nothing has happened, and a `C` message for the subject does nothing. -/
structure Atomic (env : Env Regex) (c : Connection Regex) (sub : Text)
    (r : Connection Regex × List Call) : Prop where
  patterns (key : Key) : r.1.patTab.find? key = c.patTab.find? key
  subjects : r.1.subTab = c.subTab
  references (subject : Text) : r.1.host.subMap.find? subject = c.host.subMap.find? subject
  calls : r.2 = []
  cancel : remSub env r.1 sub true = (r.1, [])

theorem New.find?_eq_none (h : New c key (c.pre ++ sub)) :
    (((c.patTab.find? key).getD []).find? fun m => m.value = c.pre ++ sub) = none := by
  rw [List.find?_eq_none]
  intro m hm
  cases hFind : c.patTab.find? key with
  | none =>
      rw [hFind] at hm
      cases hm
  | some route =>
      rw [hFind] at hm
      simpa using h route hFind m hm

/-- The tables after a pattern that could not be installed. -/
def leftBehind (c : Connection Regex) (key : Key) (subject : Text) : Connection Regex :=
  if ((c.patTab.find? key).getD []).length = 0 then
    (c.setRoute key ((c.patTab.find? key).getD [])).eraseRoute (key.1, subject)
  else c.setRoute key ((c.patTab.find? key).getD [])

theorem addPattern_fails {subject : Text} (hConvert : env.convertRv subject = some l)
    (hNone : (((c.patTab.find? (prefixKey env.toEnv subject l)).getD []).find? fun m =>
      m.value = subject) = none) (hFail : install o subject l = none) :
    addPattern o env c subject = ⟨leftBehind c (prefixKey env.toEnv subject l) subject, 1, []⟩ := by
  unfold addPattern
  rw [hConvert]
  dsimp only
  rw [hNone]
  dsimp only
  rw [hFail]
  rfl

theorem leftBehind_keeps (c : Connection Regex) (key : Key) (subject : Text) :
    (leftBehind c key subject).pre = c.pre ∧ (leftBehind c key subject).subTab = c.subTab ∧
      (leftBehind c key subject).isDaemon = c.isDaemon ∧
      (leftBehind c key subject).host = c.host := by
  unfold leftBehind
  split <;> exact ⟨rfl, rfl, rfl, rfl⟩

/-- The list of the prefix is left in the table unless it was there before. -/
theorem leftBehind_patterns {subject : Text} (hKey : (key.1, subject) ≠ key) :
    (∀ x, (leftBehind c key subject).patTab.find? x = c.patTab.find? x) ↔
      ∃ route, c.patTab.find? key = some route ∧
        (route = [] → c.patTab.find? (key.1, subject) = none) := by
  unfold leftBehind
  by_cases hEmpty : ((c.patTab.find? key).getD []).length = 0
  · have hNil := List.length_eq_zero_iff.mp hEmpty
    rw [if_pos hEmpty, hNil]
    simp only [Connection.eraseRoute, Connection.setRoute, Table.find?_erase, Table.find?_insert]
    constructor
    · intro h
      have hHere := h key
      rw [if_neg hKey.symm, if_pos rfl] at hHere
      refine ⟨[], hHere.symm, fun _ => ?_⟩
      have hThere := h (key.1, subject)
      rw [if_pos rfl] at hThere
      exact hThere.symm
    · rintro ⟨route, hRoute, hNone⟩ x
      have hRouteNil : route = [] := by
        rw [hRoute] at hNil
        exact hNil
      split
      · rename_i hx
        rw [hx, hNone hRouteNil]
      · split
        · rename_i hx
          rw [hx, hRoute, hRouteNil]
        · rfl
  · rw [if_neg hEmpty]
    obtain ⟨route, hRoute⟩ : ∃ route, c.patTab.find? key = some route := by
      cases hFind : c.patTab.find? key with
      | none =>
          rw [hFind] at hEmpty
          exact absurd rfl hEmpty
      | some route => exact ⟨route, rfl⟩
    refine iff_of_true (fun x => ?_) ⟨route, hRoute, fun hNil => ?_⟩
    · simp only [Connection.setRoute, Table.find?_insert, hRoute, Option.getD_some]
      split
      · rename_i hx
        rw [hx, hRoute]
      · rfl
    · rw [hRoute, hNil] at hEmpty
      exact absurd rfl hEmpty

/-- A `C` message for a pattern that the connection does not have. -/
theorem remSub_new (hConvert : env.convertRv (c.pre ++ sub) = some l)
    (hNew : New c (prefixKey env.toEnv (c.pre ++ sub) l) (c.pre ++ sub)) :
    remSub env c sub true = (c, []) := by
  have hNothing : remPattern env c (c.pre ++ sub) = ⟨c, notFound, []⟩ := by
    unfold remPattern
    rw [hConvert]
    dsimp only
    cases hFind : c.patTab.find? (prefixKey env.toEnv (c.pre ++ sub) l) with
    | none => rfl
    | some route =>
        have hNone : (route.find? fun m => m.value = c.pre ++ sub) = none := by
          rw [List.find?_eq_none]
          intro m hm
          simpa using hNew route hFind m hm
        dsimp only
        rw [hNone]
  unfold remSub
  dsimp only
  have hFound : notFound = 0#32 → isRestrictedSubject sub = true := fun h => absurd h (by decide)
  rw [if_pos rfl, hNothing]
  simpa using hFound

/-- Taking a reference changes the table of the host. -/
theorem addRef_changes (host : Host) (subject : Text) :
    (host.addRef subject).1.subMap.find? subject ≠ host.subMap.find? subject := by
  unfold Host.addRef
  dsimp only
  rw [Table.find?_insert_self]
  cases host.subMap.find? subject with
  | none => exact Option.some_ne_none _
  | some n =>
      intro hSame
      have hEq : n + 1 = n := Option.some.inj hSame
      bv_omega

/-- A connection that is no daemon announces it all the same. -/
theorem addSub_fails (hConvert : env.convertRv (c.pre ++ sub) = some l)
    (hNew : New c (prefixKey env.toEnv (c.pre ++ sub) l) (c.pre ++ sub))
    (hFail : install o (c.pre ++ sub) l = none) (hDaemon : c.isDaemon = false) :
    addSub o env c sub true =
      (leftBehind c (prefixKey env.toEnv (c.pre ++ sub) l) (c.pre ++ sub),
        if !isRestrictedSubject sub then [.listenStart sub 1] else []) := by
  have hEntered := addPattern_fails hConvert hNew.find?_eq_none hFail
  obtain ⟨-, -, hIsDaemon, -⟩ :=
    leftBehind_keeps c (prefixKey env.toEnv (c.pre ++ sub) l) (c.pre ++ sub)
  rw [hDaemon] at hIsDaemon
  unfold addSub
  dsimp only
  rw [if_pos rfl, hEntered]
  dsimp only
  rw [if_neg (by simp [hIsDaemon])]
  simp

/-- A pattern that could not be installed is counted and announced like any other, and its
prefix stays in the table. -/
theorem failed_pattern_atomic (env : Env Regex)
    (hPrefix : ∀ wild l, env.convertRv wild = some l → rvWildcard wild = some l)
    (o : Installer Regex) (c : Connection Regex) (sub : Text) (l : Nat)
    (hConvert : env.convertRv (c.pre ++ sub) = some l)
    (hNew : New c (prefixKey env.toEnv (c.pre ++ sub) l) (c.pre ++ sub))
    (hFail : install o (c.pre ++ sub) l = none) :
    Atomic env c sub (addSub o env c sub true) ↔
      c.isDaemon = false ∧ isRestrictedSubject sub = true ∧
        ∃ route, c.patTab.find? (prefixKey env.toEnv (c.pre ++ sub) l) = some route ∧
          (route = [] →
            c.patTab.find? ((prefixKey env.toEnv (c.pre ++ sub) l).1, c.pre ++ sub) = none) := by
  have hShort := rvWildcard_lt (hPrefix _ _ hConvert)
  have hEntered := addPattern_fails hConvert hNew.find?_eq_none hFail
  have hAfter := addSub_fails hConvert hNew hFail
  generalize hKey : prefixKey env.toEnv (c.pre ++ sub) l = key at hEntered hAfter hNew ⊢
  obtain ⟨hPre, hSubTab, hIsDaemon, hHost⟩ := leftBehind_keeps c key (c.pre ++ sub)
  have hOther : (key.1, c.pre ++ sub) ≠ key := by
    intro hSame
    have hText : c.pre ++ sub = (c.pre ++ sub).take l := by
      rw [← hKey] at hSame
      exact congrArg Prod.snd hSame
    have hLength := congrArg List.length hText
    rw [List.length_take] at hLength
    omega
  have hPatterns := leftBehind_patterns (c := c) hOther
  cases hDaemon : c.isDaemon with
  | true =>
      refine iff_of_false (fun hAtomic => ?_) (by simp)
      have hCounted : (addSub o env c sub true).1.host = (c.host.addRef (c.pre ++ sub)).1 := by
        unfold addSub
        simp [hEntered, hIsDaemon, hHost, hDaemon]
      have hSame := hAtomic.references (c.pre ++ sub)
      rw [hCounted] at hSame
      exact addRef_changes c.host _ hSame
  | false =>
      rw [hAfter hDaemon, ← hPatterns]
      constructor
      · intro hAtomic
        refine ⟨rfl, ?_, hAtomic.patterns⟩
        by_contra hPlain
        have hCalls : (if !isRestrictedSubject sub then [Call.listenStart sub 1] else []) = [] :=
          hAtomic.calls
        rw [Bool.not_eq_true] at hPlain
        simp [hPlain] at hCalls
      · rintro ⟨-, hRestricted, hSame⟩
        refine ⟨hSame, hSubTab, fun subject => by rw [hHost], by simp [hRestricted], ?_⟩
        refine remSub_new (l := l) (by rw [hPre, hConvert]) ?_
        rw [hPre, hKey]
        intro route hRoute
        exact hNew route (hSame key ▸ hRoute)

def sampleEnv : Env Text where
  toEnv := Matching.sampleEnv
  visitSubs := Table.entries
  visitSubs_perm _ := .refl _
  visitPats := Table.entries
  visitPats_perm _ := .refl _

def sampleKey : Key := prefixKey sampleEnv.toEnv (text "_RV.*.X") 4

/-- A connection that has the pattern `_RV.>`. -/
def sampleConnection : Connection Text :=
  ({} : Connection Text).setRoute sampleKey [{ value := text "_RV.>", re := none }]

def noCompile : Installer Text := ⟨fun _ => none, true, true⟩

theorem failed_pattern_atomic_restricted :
    Atomic sampleEnv sampleConnection (text "_RV.*.X")
      (addSub noCompile sampleEnv sampleConnection (text "_RV.*.X") true) := by
  have hConvert : sampleEnv.convertRv (text "_RV.*.X") = some 4 := by decide
  have hFail : install noCompile (text "_RV.*.X") 4 = none := by decide
  have hFind : sampleConnection.patTab.find? sampleKey =
      some [{ value := text "_RV.>", re := none }] := Table.find?_insert_self _ _ _
  refine (failed_pattern_atomic sampleEnv (fun _ _ h => h) noCompile sampleConnection
    (text "_RV.*.X") 4 hConvert ?_ hFail).mpr ⟨rfl, by decide, _, hFind, fun hNil => ?_⟩
  · intro route hRoute m hMem
    obtain rfl := Option.some.inj (hFind.symm.trans hRoute)
    rw [List.mem_singleton.mp hMem]
    decide
  · exact absurd hNil (List.cons_ne_nil _ _)

/-- The subscription fails and is announced. -/
theorem failed_pattern_announced : ¬ Atomic sampleEnv {} (text "A.*")
    (addSub noCompile sampleEnv {} (text "A.*") true) := by
  intro hAtomic
  have hConvert : sampleEnv.convertRv (text "A.*") = some 2 := by decide
  have hFail : install noCompile (text "A.*") 2 = none := by decide
  have hAfter := @addSub_fails Text sampleEnv noCompile {} (text "A.*") 2 hConvert
    (fun _ hRoute => by cases hRoute) hFail rfl
  have hCalls := hAtomic.calls
  rw [hAfter] at hCalls
  exact absurd hCalls (by decide)

end Sassrv.Daemon.Routes
