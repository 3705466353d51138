import Mathlib
import Sassrv.Daemon.Clients
import Sassrv.Daemon.RouteCollisions
import Sassrv.Daemon.Sharing

/-! The models of a connection beside each other. `Routes` has the calls of `add_sub` and
`rem_sub` and what may fail in them, `Matching` the tables that a message of the network is
looked up in, and `Service` the counts alone, with the session and the handshake. -/
namespace Sassrv.Daemon.Routes
open SubMgr Client Matching Transition Partial

variable {Regex : Type} {env : Env Regex} {o : Installer Regex} {c : Connection Regex} {l : Nat}
  {route : List (RvWildMatch Regex)} {x subject : Text}

/-! The tables of `Matching`. -/

/-- The libraries of `Matching`, which do not fail but on a pattern. -/
structure Installer.Plain (o : Installer Regex) (env : Env Regex) : Prop where
  compile : o.compile = env.compile
  matchData : o.matchData = true
  create : o.create = true

theorem Installer.Plain.install (h : o.Plain env) (subject : Text) (prefixlen : Nat) :
    install o subject prefixlen = compilePattern env.toEnv subject prefixlen := by
  unfold Routes.install compilePattern
  rw [h.create, h.matchData, h.compile, if_pos rfl, Option.map_eq_bind]
  rfl

theorem any_value (route : List (RvWildMatch Regex)) (subject : Text) :
    (route.any fun m => m.value = subject) = (route.find? fun m => m.value = subject).isSome := by
  rw [Bool.eq_iff_iff, List.any_eq_true, List.find?_isSome]

theorem addExact_conn (env : Env Regex) (c : Connection Regex) (subject : Text) :
    (addExact env c subject).conn.toEvRvService =
      Matching.putSub env.toEnv c.toEvRvService subject := by
  unfold addExact Matching.putSub
  dsimp only
  cases c.subTab.find? (subKey env.toEnv subject) <;> rfl

theorem addPattern_conn (h : o.Plain env) (c : Connection Regex) (subject : Text) :
    (addPattern o env c subject).conn.toEvRvService =
      Matching.putPattern env.toEnv c.toEvRvService subject := by
  unfold addPattern Matching.putPattern
  cases env.convertRv subject with
  | none => rfl
  | some l =>
      dsimp only
      rw [any_value, ← h.install]
      cases ((c.patTab.find? (prefixKey env.toEnv subject l)).getD []).find?
          fun m => m.value = subject with
      | some m => rfl
      | none =>
          cases install o subject l with
          | some re => rfl
          | none =>
              cases (c.patTab.find? (prefixKey env.toEnv subject l)).getD [] <;> rfl

/-- `add_sub` of both models leaves the same tables. -/
theorem addSub_matching (h : o.Plain env) (c : Connection Regex) (sub : Text) (isWild : Bool) :
    (addSub o env c sub isWild).1.toEvRvService =
      Matching.addSub env.toEnv c.toEvRvService sub isWild := by
  cases isWild with
  | true => exact addPattern_conn h c (c.pre ++ sub)
  | false => exact addExact_conn env c (c.pre ++ sub)

theorem remExact_conn (env : Env Regex) (c : Connection Regex) (subject : Text) :
    (remExact env c subject).conn.toEvRvService = dropSub env.toEnv c.toEvRvService subject := by
  unfold remExact dropSub
  dsimp only
  cases c.subTab.find? (subKey env.toEnv subject) with
  | none => rfl
  | some rt =>
      dsimp only
      split <;> rfl

theorem remPattern_conn (env : Env Regex) (c : Connection Regex) (subject : Text) :
    (remPattern env c subject).conn.toEvRvService =
      dropPattern env.toEnv c.toEvRvService subject := by
  unfold remPattern dropPattern
  cases env.convertRv subject with
  | none => rfl
  | some l =>
      dsimp only
      cases c.patTab.find? (prefixKey env.toEnv subject l) with
      | none => rfl
      | some route =>
          dsimp only
          cases route.find? fun m => m.value = subject with
          | none => rfl
          | some m =>
              dsimp only
              by_cases hZero : m.refcnt - 1 = 0
              · rw [if_pos hZero, if_pos hZero]
                cases route.eraseIdx (route.findIdx fun m => m.value = subject) <;> rfl
              · rw [if_neg hZero, if_neg hZero]
                rfl

/-- `rem_sub` of both models leaves the same tables. -/
theorem remSub_matching (env : Env Regex) (c : Connection Regex) (sub : Text) (isWild : Bool) :
    (remSub env c sub isWild).1.toEvRvService =
      Matching.remSub env.toEnv c.toEvRvService sub isWild := by
  cases isWild with
  | true => exact remPattern_conn env c (c.pre ++ sub)
  | false => exact remExact_conn env c (c.pre ++ sub)

/-! The counts of `Service`. -/

/-- `n` is the count of `x` with one more reference. -/
structure OneMore (before after : Text → Option (BitVec 32)) (x : Text) (n : BitVec 32) : Prop where
  count : n = ((before x).map (· + 1)).getD 1
  after : ∀ y, after y = if y = x then some n else before y

/-- `n` is the count of `x` with one reference less, if there was one. -/
structure OneLess (before after : Text → Option (BitVec 32)) (x : Text) (n : BitVec 32) : Prop where
  missing : before x = none → n = notFound ∧ ∀ y, after y = before y
  found : ∀ k, before x = some k → n = k - 1 ∧
    ∀ y, after y = if y = x then (if k - 1 = 0 then none else some (k - 1)) else before y

section
variable {before after after' : Text → Option (BitVec 32)} {n n' : BitVec 32}

theorem OneMore.unique (h : OneMore before after x n) (h' : OneMore before after' x n') :
    n = n' ∧ ∀ y, after y = after' y := by
  have hCount := h.count.trans h'.count.symm
  exact ⟨hCount, fun y => by rw [h.after, h'.after, hCount]⟩

theorem OneLess.unique (h : OneLess before after x n) (h' : OneLess before after' x n') :
    n = n' ∧ ∀ y, after y = after' y := by
  cases hBefore : before x with
  | none =>
      obtain ⟨hCount, hSame⟩ := h.missing hBefore
      obtain ⟨hCount', hSame'⟩ := h'.missing hBefore
      exact ⟨hCount.trans hCount'.symm, fun y => (hSame y).trans (hSame' y).symm⟩
  | some k =>
      obtain ⟨hCount, hAfter⟩ := h.found k hBefore
      obtain ⟨hCount', hAfter'⟩ := h'.found k hBefore
      exact ⟨hCount.trans hCount'.symm, fun y => (hAfter y).trans (hAfter' y).symm⟩

end

/-- The references of a connection to a subject. -/
def Connection.subRefs (env : Env Regex) (c : Connection Regex) (x : Text) : Option (BitVec 32) :=
  (c.subTab.find? (subKey env.toEnv x)).map RvSubRoute.refcnt

/-- The references to a pattern. -/
def Connection.patRefs (env : Env Regex) (c : Connection Regex) (x : Text) : Option (BitVec 32) :=
  (env.convertRv x).bind fun l =>
    (((c.patTab.find? (prefixKey env.toEnv x l)).getD []).find? fun m => m.value = x).map
      RvWildMatch.refcnt

theorem subKey_inj {y : Text} : subKey env.toEnv y = subKey env.toEnv x ↔ y = x :=
  ⟨congrArg Prod.snd, congrArg _⟩

theorem addExact_oneMore (env : Env Regex) (c : Connection Regex) (x : Text) :
    OneMore (c.subRefs env) ((addExact env c x).conn.subRefs env) x (addExact env c x).refcnt := by
  unfold addExact Connection.subRefs
  dsimp only
  cases hFind : c.subTab.find? (subKey env.toEnv x) with
  | none =>
      refine ⟨by simp [hFind], fun y => ?_⟩
      simp only [Connection.setSub, Table.find?_insert, subKey_inj]
      split <;> rfl
  | some rt =>
      refine ⟨by simp [hFind], fun y => ?_⟩
      simp only [Connection.setSub, Table.find?_insert, subKey_inj]
      split <;> rfl

theorem remExact_oneLess (env : Env Regex) (c : Connection Regex) (x : Text) :
    OneLess (c.subRefs env) ((remExact env c x).conn.subRefs env) x (remExact env c x).refcnt := by
  unfold remExact Connection.subRefs
  dsimp only
  cases hFind : c.subTab.find? (subKey env.toEnv x) with
  | none =>
      refine ⟨fun _ => ⟨rfl, fun _ => rfl⟩, fun k hk => ?_⟩
      rw [hFind] at hk
      cases hk
  | some rt =>
      refine ⟨fun hNone => (by rw [hFind] at hNone; cases hNone), fun k hk => ?_⟩
      rw [hFind] at hk
      obtain rfl := Option.some.inj hk
      dsimp only
      by_cases hZero : rt.refcnt - 1 = 0
      · rw [if_pos hZero]
        refine ⟨hZero.symm, fun y => ?_⟩
        simp only [Table.find?_erase, subKey_inj, hZero, if_true]
        split <;> rfl
      · rw [if_neg hZero]
        refine ⟨rfl, fun y => ?_⟩
        simp only [Connection.setSub, Table.find?_insert, subKey_inj, hZero, if_false]
        split <;> rfl

/-! The entries of a route. -/

section
variable {y : Text}

theorem find?_modify_value (route : List (RvWildMatch Regex)) {f : RvWildMatch Regex → RvWildMatch Regex}
    (hf : ∀ m, m.value = x → (f m).value = x) :
    ((route.modify (route.findIdx fun m => m.value = x) f).find? fun m => m.value = y) =
      if y = x then (route.find? fun m => m.value = x).map f
      else route.find? fun m => m.value = y := by
  induction route with
  | nil => simp
  | cons a rest ih =>
      by_cases ha : a.value = x
      · rw [List.findIdx_cons, decide_eq_true ha, cond_true, List.modify_zero_cons]
        by_cases hy : y = x
        · subst hy
          rw [if_pos rfl, List.find?_cons_of_pos (by simpa using hf a ha),
            List.find?_cons_of_pos (by simpa using ha)]
          rfl
        · rw [if_neg hy, List.find?_cons_of_neg (by simpa [hf a ha] using Ne.symm hy),
            List.find?_cons_of_neg (by simpa [ha] using Ne.symm hy)]
      · rw [List.findIdx_cons, decide_eq_false ha, cond_false, List.modify_succ_cons]
        by_cases hy : y = x
        · subst hy
          rw [if_pos rfl] at ih ⊢
          rw [List.find?_cons_of_neg (by simpa using ha), List.find?_cons_of_neg (by simpa using ha),
            ih]
        · rw [if_neg hy] at ih ⊢
          rw [List.find?_cons, List.find?_cons, ih]

theorem find?_eraseIdx_value {route : List (RvWildMatch Regex)}
    (hNodup : (route.map RvWildMatch.value).Nodup) :
    ((route.eraseIdx (route.findIdx fun m => m.value = x)).find? fun m => m.value = y) =
      if y = x then none else route.find? fun m => m.value = y := by
  by_cases hy : y = x
  · rw [if_pos hy, hy, find?_value_eq_none, eraseIdx_values]
    exact hNodup.not_mem_erase
  · rw [if_neg hy]
    induction route with
    | nil => rfl
    | cons a rest ih =>
        by_cases ha : a.value = x
        · rw [List.findIdx_cons, decide_eq_true ha, cond_true, List.eraseIdx_cons_zero,
            List.find?_cons_of_neg (by simpa [ha] using Ne.symm hy)]
        · rw [List.findIdx_cons, decide_eq_false ha, cond_false, List.eraseIdx_cons_succ,
            List.find?_cons, List.find?_cons, ih (List.nodup_cons.mp hNodup).2]

end

/-- The references to patterns when the route of one of them changes. -/
theorem patRefs_of_route {c' : Connection Regex} {n : Option (BitVec 32)}
    (hConvert : env.convertRv x = some l)
    (hTab : ∀ key, (c'.patTab.find? key).getD [] =
      if key = prefixKey env.toEnv x l then route else (c.patTab.find? key).getD [])
    (hRoute : ∀ y, (route.find? fun m => m.value = y).map RvWildMatch.refcnt = if y = x then n else
      (((c.patTab.find? (prefixKey env.toEnv x l)).getD []).find? fun m => m.value = y).map
        RvWildMatch.refcnt) (y : Text) :
    c'.patRefs env y = if y = x then n else c.patRefs env y := by
  unfold Connection.patRefs
  cases hOther : env.convertRv y with
  | none =>
      have hNe : y ≠ x := by
        rintro rfl
        cases hConvert.symm.trans hOther
      rw [if_neg hNe]
      rfl
  | some k =>
      simp only [Option.bind_some, hTab]
      by_cases hKey : prefixKey env.toEnv y k = prefixKey env.toEnv x l
      · rw [if_pos hKey, hRoute, hKey]
      · have hNe : y ≠ x := by
          rintro rfl
          exact hKey (by rw [Option.some.inj (hOther.symm.trans hConvert)])
        rw [if_neg hKey, if_neg hNe]

theorem getD_insert (t : Table Key (List (RvWildMatch Regex))) (key : Key)
    (route : List (RvWildMatch Regex)) (k : Key) :
    ((t.insert key route).find? k).getD [] = if k = key then route else (t.find? k).getD [] := by
  rw [Table.find?_insert]
  split <;> rfl

theorem getD_erase (t : Table Key (List (RvWildMatch Regex))) (key k : Key) :
    ((t.erase key).find? k).getD [] = if k = key then [] else (t.find? k).getD [] := by
  rw [Table.find?_erase]
  split <;> rfl

theorem patRefs_eq (hConvert : env.convertRv x = some l) : c.patRefs env x =
    (((c.patTab.find? (prefixKey env.toEnv x l)).getD []).find? fun m => m.value = x).map
      RvWildMatch.refcnt := by
  unfold Connection.patRefs
  rw [hConvert]
  rfl

/-- A pattern that can be installed. -/
theorem addPattern_oneMore (c : Connection Regex) (hConvert : env.convertRv x = some l)
    (hInstall : (install o x l).isSome = true) :
    OneMore (c.patRefs env) ((addPattern o env c x).conn.patRefs env) x
      (addPattern o env c x).refcnt := by
  have hEq := patRefs_eq (c := c) hConvert
  unfold addPattern
  rw [hConvert]
  dsimp only
  cases hFind : ((c.patTab.find? (prefixKey env.toEnv x l)).getD []).find? fun m => m.value = x with
  | some m =>
      rw [hFind] at hEq
      refine ⟨by rw [hEq]; rfl, patRefs_of_route hConvert (getD_insert _ _ _) fun y => ?_⟩
      dsimp only
      rw [find?_modify_value _ (f := fun m => { m with refcnt := m.refcnt + 1 }) fun _ h => h, hFind]
      split <;> rfl
  | none =>
      rw [hFind] at hEq
      obtain ⟨re, hRe⟩ := Option.isSome_iff_exists.mp hInstall
      rw [hRe]
      refine ⟨by rw [hEq]; rfl, patRefs_of_route hConvert (getD_insert _ _ _) fun y => ?_⟩
      by_cases hy : y = x
      · rw [if_pos hy, List.find?_cons_of_pos (by simp [hy])]
        rfl
      · rw [if_neg hy, List.find?_cons_of_neg (by simpa using Ne.symm hy)]

theorem remPattern_oneLess (hKept : Kept env (patNames c.patTab))
    (hConvert : env.convertRv x = some l) :
    OneLess (c.patRefs env) ((remPattern env c x).conn.patRefs env) x
      (remPattern env c x).refcnt := by
  have hEq := patRefs_eq (c := c) hConvert
  unfold remPattern
  rw [hConvert]
  dsimp only
  cases hRoute : c.patTab.find? (prefixKey env.toEnv x l) with
  | none =>
      rw [hRoute] at hEq
      exact ⟨fun _ => ⟨rfl, fun _ => rfl⟩, fun k hk => (by cases hEq.symm.trans hk)⟩
  | some route =>
      rw [hRoute, Option.getD_some] at hEq
      have hNodup : (route.map RvWildMatch.value).Nodup :=
        hKept.nodup (by rw [patNames_find?, hRoute]; rfl)
      dsimp only
      cases hFind : route.find? fun m => m.value = x with
      | none =>
          rw [hFind] at hEq
          exact ⟨fun _ => ⟨rfl, fun _ => rfl⟩, fun k hk => (by cases hEq.symm.trans hk)⟩
      | some m =>
          rw [hFind] at hEq
          refine ⟨fun hNone => (by cases hEq.symm.trans hNone), fun k hk => ?_⟩
          obtain rfl := Option.some.inj (hEq.symm.trans hk)
          dsimp only
          by_cases hZero : m.refcnt - 1 = 0
          · rw [if_pos hZero, if_pos hZero]
            have hErase : ∀ y, ((route.eraseIdx (route.findIdx fun m => m.value = x)).find?
                fun m => m.value = y).map RvWildMatch.refcnt = if y = x then none else
                (((c.patTab.find? (prefixKey env.toEnv x l)).getD []).find? fun m =>
                  m.value = y).map RvWildMatch.refcnt := by
              intro y
              rw [find?_eraseIdx_value hNodup, hRoute, Option.getD_some]
              split <;> rfl
            refine ⟨hZero.symm, patRefs_of_route hConvert (fun key => ?_) hErase⟩
            dsimp only
            split
            · next hEmpty =>
                rw [List.length_eq_zero_iff.mp hEmpty]
                exact getD_erase _ _ _
            · exact getD_insert _ _ _ _
          · rw [if_neg hZero, if_neg hZero]
            refine ⟨rfl, patRefs_of_route hConvert (getD_insert _ _ _) fun y => ?_⟩
            rw [List.set_eq_modify, hRoute, Option.getD_some,
              find?_modify_value _ (f := fun _ => { m with refcnt := m.refcnt - 1 })
                fun _ _ => by simpa using List.find?_some hFind, hFind]
            split <;> rfl

/-! The calls of `Service`. -/

section
variable {e : Daemon.Env} {s : Service} {m : Envelope}

theorem putSub_oneMore (s : Service) (x : Text) :
    OneMore s.subTab.find? (Daemon.putSub s x).1.subTab.find? x (Daemon.putSub s x).2 := by
  unfold Daemon.putSub
  cases hFind : s.subTab.find? x with
  | none => exact ⟨by rw [hFind]; rfl, fun y => Table.find?_insert ..⟩
  | some n => exact ⟨by rw [hFind]; rfl, fun y => Table.find?_insert ..⟩

theorem putPattern_oneMore (s : Service) {x : Text} (hConvert : e.converts x = true)
    (hCompile : e.compiles x = true) :
    OneMore s.patTab.find? (Daemon.putPattern e s x).1.patTab.find? x
      (Daemon.putPattern e s x).2 := by
  unfold Daemon.putPattern
  rw [if_pos hConvert]
  cases hFind : s.patTab.find? x with
  | none =>
      dsimp only
      rw [if_pos hCompile]
      exact ⟨by rw [hFind]; rfl, fun y => Table.find?_insert ..⟩
  | some n => exact ⟨by rw [hFind]; rfl, fun y => Table.find?_insert ..⟩

/-- One reference less in a table that counts them: the last one takes the entry with it. -/
theorem oneLess_of_table {t after : Table Text (BitVec 32)} {x : Text} {n left : BitVec 32}
    (hFind : t.find? x = some n) (hLast : n = 1 → after = t.erase x ∧ left = 0)
    (hMore : n ≠ 1 → after = t.insert x (n - 1) ∧ left = n - 1) :
    OneLess t.find? after.find? x left := by
  refine ⟨fun hNone => (by cases hFind.symm.trans hNone), fun k hk => ?_⟩
  obtain rfl := Option.some.inj (hFind.symm.trans hk)
  have hOne : n - 1 = 0 ↔ n = 1 := sub_eq_zero
  by_cases h : n = 1
  · obtain ⟨rfl, rfl⟩ := hLast h
    refine ⟨(hOne.mpr h).symm, fun y => ?_⟩
    rw [if_pos (hOne.mpr h), Table.find?_erase]
  · obtain ⟨rfl, rfl⟩ := hMore h
    refine ⟨rfl, fun y => ?_⟩
    rw [if_neg (mt hOne.mp h), Table.find?_insert]

theorem remSubTab_oneLess (s : Service) (x : Text) :
    OneLess s.subTab.find? (remSubTab s x).1.subTab.find? x (remSubTab s x).2 := by
  unfold remSubTab
  cases hFind : s.subTab.find? x with
  | none => exact ⟨fun _ => ⟨rfl, fun _ => rfl⟩, fun k hk => (by cases hFind.symm.trans hk)⟩
  | some n =>
      dsimp only
      refine oneLess_of_table hFind (fun h => ?_) (fun h => ?_)
      · rw [if_pos h]
        exact ⟨rfl, rfl⟩
      · rw [if_neg h]
        exact ⟨rfl, rfl⟩

theorem remPattern_table (s : Service) {x : Text} (hConvert : e.converts x = true) :
    OneLess s.patTab.find? (Daemon.remPattern e s x).1.patTab.find? x
      (Daemon.remPattern e s x).2 := by
  unfold Daemon.remPattern
  rw [if_pos hConvert]
  cases hFind : s.patTab.find? x with
  | none => exact ⟨fun _ => ⟨rfl, fun _ => rfl⟩, fun k hk => (by cases hFind.symm.trans hk)⟩
  | some n =>
      dsimp only
      refine oneLess_of_table hFind (fun h => ?_) (fun h => ?_)
      · rw [if_pos h]
        exact ⟨rfl, rfl⟩
      · rw [if_neg h]
        exact ⟨rfl, rfl⟩

/-- A connection with its counts alone. -/
structure Shows (env : Env Regex) (c : Connection Regex) (s : Service) : Prop where
  pre : s.pre = c.pre
  isDaemon : s.isDaemon = c.isDaemon
  host : s.host = some c.host
  subs : ∀ x, s.subTab.find? x = c.subRefs env x
  pats : ∀ x, s.patTab.find? x = c.patRefs env x

/-- The advisory that a call asks the host for. -/
def Call.sent : Call → Option Sent
  | .listenStart sub refcnt => some (.listenStart sub refcnt)
  | .listenStop sub => some (.listenStop sub)
  | _ => none

/-- The same of what one of the tables does. -/
structure ShowsEntered (env : Env Regex) (s : Service) (r : Entered Regex)
    (t : Service × BitVec 32) : Prop where
  shows : Shows env r.conn t.1
  refcnt : t.2 = r.refcnt
  sent : t.1.sent = s.sent
  calls : r.calls.filterMap Call.sent = []

/-- The libraries of a connection, as `Service` asks for them. -/
structure SameLibraries (env : Env Regex) (o : Installer Regex) (e : Daemon.Env) (x : Text) :
    Prop where
  converts : e.converts x = (env.convertRv x).isSome
  compiles : e.compiles x = true
  installs : ∀ l, env.convertRv x = some l → (install o x l).isSome = true

theorem Shows.subs_changed {r : Entered Regex} {t : Service × BitVec 32} (h : Shows env c s)
    (hConn : ∃ tab, r.conn = { c with subTab := tab }) (hServ : ∃ tab, t.1 = { s with subTab := tab })
    (hSame : t.2 = r.refcnt ∧ ∀ y, t.1.subTab.find? y = r.conn.subRefs env y)
    (hCalls : r.calls.filterMap Call.sent = []) : ShowsEntered env s r t := by
  obtain ⟨tab, hConn⟩ := hConn
  obtain ⟨tab', hServ⟩ := hServ
  obtain ⟨hCount, hAfter⟩ := hSame
  rw [hConn, hServ] at hAfter
  refine ⟨?_, hCount, by rw [hServ], hCalls⟩
  rw [hConn, hServ]
  exact ⟨h.pre, h.isDaemon, h.host, hAfter, h.pats⟩

theorem Shows.pats_changed {r : Entered Regex} {t : Service × BitVec 32} (h : Shows env c s)
    (hConn : ∃ tab, r.conn = { c with patTab := tab }) (hServ : ∃ tab, t.1 = { s with patTab := tab })
    (hSame : t.2 = r.refcnt ∧ ∀ y, t.1.patTab.find? y = r.conn.patRefs env y)
    (hCalls : r.calls.filterMap Call.sent = []) : ShowsEntered env s r t := by
  obtain ⟨tab, hConn⟩ := hConn
  obtain ⟨tab', hServ⟩ := hServ
  obtain ⟨hCount, hAfter⟩ := hSame
  rw [hConn, hServ] at hAfter
  refine ⟨?_, hCount, by rw [hServ], hCalls⟩
  rw [hConn, hServ]
  exact ⟨h.pre, h.isDaemon, h.host, h.subs, hAfter⟩

theorem putSub_shows (h : Shows env c s) (x : Text) :
    ShowsEntered env s (addExact env c x) (Daemon.putSub s x) := by
  have hMore := putSub_oneMore s x
  rw [funext h.subs] at hMore
  refine h.subs_changed ?_ ?_ (hMore.unique (addExact_oneMore env c x)) ?_
  · unfold addExact
    dsimp only
    split <;> exact ⟨_, rfl⟩
  · unfold Daemon.putSub
    split <;> exact ⟨_, rfl⟩
  · unfold addExact
    dsimp only
    split <;> rfl

theorem remSubTab_shows (h : Shows env c s) (x : Text) :
    ShowsEntered env s (remExact env c x) (remSubTab s x) := by
  have hLess := remSubTab_oneLess s x
  rw [funext h.subs] at hLess
  refine h.subs_changed ?_ ?_ (hLess.unique (remExact_oneLess env c x)) ?_
  · unfold remExact
    dsimp only
    split
    · exact ⟨c.subTab, rfl⟩
    · split <;> exact ⟨_, rfl⟩
  · unfold remSubTab
    split
    · exact ⟨s.subTab, rfl⟩
    · split <;> exact ⟨_, rfl⟩
  · unfold remExact
    dsimp only
    split
    · rfl
    · split <;> rfl

/-- A pattern without a conversion is not entered. -/
theorem putPattern_shows (h : Shows env c s) {x : Text} (hLibs : SameLibraries env o e x) :
    ShowsEntered env s (addPattern o env c x) (Daemon.putPattern e s x) := by
  cases hConvert : env.convertRv x with
  | none =>
      have hNot : ¬ e.converts x = true := by rw [hLibs.converts, hConvert]; simp
      unfold addPattern Daemon.putPattern
      rw [hConvert, if_neg hNot]
      exact ⟨h, rfl, rfl, rfl⟩
  | some l =>
      have hMore := putPattern_oneMore s (by rw [hLibs.converts, hConvert]; rfl) hLibs.compiles
      rw [funext h.pats] at hMore
      have hInstall := hLibs.installs l hConvert
      obtain ⟨re, hRe⟩ := Option.isSome_iff_exists.mp hInstall
      refine h.pats_changed ?_ ?_ (hMore.unique (addPattern_oneMore c hConvert hInstall)) ?_
      · unfold addPattern
        rw [hConvert]
        dsimp only
        split
        · exact ⟨_, rfl⟩
        · rw [hRe]
          exact ⟨_, rfl⟩
      · unfold Daemon.putPattern
        split
        · split
          · exact ⟨_, rfl⟩
          · split
            · exact ⟨_, rfl⟩
            · exact ⟨s.patTab, rfl⟩
        · exact ⟨s.patTab, rfl⟩
      · unfold addPattern
        rw [hConvert]
        dsimp only
        split
        · rfl
        · rw [hRe]
          rfl

theorem remPattern_shows (h : Shows env c s) (hKept : Kept env (patNames c.patTab)) {x : Text}
    (hSame : e.converts x = (env.convertRv x).isSome) :
    ShowsEntered env s (remPattern env c x) (Daemon.remPattern e s x) := by
  cases hConvert : env.convertRv x with
  | none =>
      have hNot : ¬ e.converts x = true := by rw [hSame, hConvert]; simp
      unfold remPattern Daemon.remPattern
      rw [hConvert, if_neg hNot]
      exact ⟨h, rfl, rfl, rfl⟩
  | some l =>
      have hLess := remPattern_table (e := e) s (by rw [hSame, hConvert]; rfl)
      rw [funext h.pats] at hLess
      refine h.pats_changed ?_ ?_ (hLess.unique (remPattern_oneLess hKept hConvert)) ?_
      · unfold remPattern
        rw [hConvert]
        dsimp only
        split
        · exact ⟨c.patTab, rfl⟩
        · split
          · exact ⟨c.patTab, rfl⟩
          · split
            · dsimp only
              split <;> exact ⟨_, rfl⟩
            · exact ⟨_, rfl⟩
      · unfold Daemon.remPattern
        split
        · split
          · exact ⟨s.patTab, rfl⟩
          · split <;> exact ⟨_, rfl⟩
        · exact ⟨s.patTab, rfl⟩
      · unfold remPattern
        rw [hConvert]
        dsimp only
        split
        · rfl
        · split
          · rfl
          · split <;> rfl

theorem remRefs_one (host : Host) (x : Text) : host.remRefs x 1 = host.remRef x := rfl

theorem Shows.setHost (h : Shows env c s) (host : Host) :
    Shows env { c with host := host } (s.setHost host) :=
  ⟨h.pre, h.isDaemon, rfl, h.subs, h.pats⟩

theorem Shows.setHost_self (h : Shows env c s) : s.setHost c.host = s := by
  unfold Service.setHost
  rw [← h.host]

theorem Shows.send (h : Shows env c s) (out : Sent) : Shows env c (s.send out) :=
  ⟨h.pre, h.isDaemon, h.host, h.subs, h.pats⟩

/-- What a call leaves in both models: the counts, and the advisories unless the subject is
restricted. -/
structure ShowsCall (env : Env Regex) (s s' : Service) (sub : Text)
    (r : Connection Regex × List Call) : Prop where
  shows : Shows env r.1 s'
  sent : ∃ out, s'.sent = s.sent ++ out ∧
    r.2.filterMap Call.sent = if isRestrictedSubject sub then [] else out

theorem addHostRef_shows (h : Shows env c s) (x : Text) (n : BitVec 32) :
    addHostRef s x n =
      .ok (s.setHost (if n ≠ 0 ∧ c.isDaemon then c.host.addRef x else (c.host, n)).1,
        (if n ≠ 0 ∧ c.isDaemon then c.host.addRef x else (c.host, n)).2) := by
  unfold addHostRef
  rw [h.isDaemon]
  by_cases hRefs : n ≠ 0 ∧ c.isDaemon = true
  · rw [if_pos hRefs, if_pos hRefs, Service.hostAt, h.host]
    rfl
  · rw [if_neg hRefs, if_neg hRefs, h.setHost_self]

theorem remHostRef_shows (h : Shows env c s) (x : Text) (n : BitVec 32) :
    remHostRef s x n =
      .ok (s.setHost (if n ≠ notFound ∧ c.isDaemon then c.host.remRefs x 1 else (c.host, n)).1,
        (if n ≠ notFound ∧ c.isDaemon then c.host.remRefs x 1 else (c.host, n)).2) := by
  unfold remHostRef
  rw [h.isDaemon]
  by_cases hRefs : n ≠ notFound ∧ c.isDaemon = true
  · rw [if_pos hRefs, if_pos hRefs, Service.hostAt, h.host, remRefs_one]
    rfl
  · rw [if_neg hRefs, if_neg hRefs, h.setHost_self]

theorem sendListenStart_shows (h : Shows env c s) (sub : Text) (n : BitVec 32) :
    ∃ s', sendListenStart s sub n = .ok s' ∧ Shows env c s' ∧
      s'.sent = s.sent ++ if n ≠ 0 then [.listenStart sub n] else [] := by
  unfold sendListenStart
  by_cases hZero : n ≠ 0
  · rw [if_pos hZero, if_pos hZero, Service.hostAt, h.host]
    exact ⟨_, rfl, h.send _, rfl⟩
  · rw [if_neg hZero, if_neg hZero]
    exact ⟨s, rfl, h, (List.append_nil _).symm⟩

theorem sendListenStop_shows (h : Shows env c s) (sub : Text) (n : BitVec 32) :
    ∃ s', sendListenStop s sub n = .ok s' ∧ Shows env c s' ∧
      s'.sent = s.sent ++ if n = 0 then [.listenStop sub] else [] := by
  unfold sendListenStop
  by_cases hZero : n = 0
  · rw [if_pos hZero, if_pos hZero, Service.hostAt, h.host]
    exact ⟨_, rfl, h.send _, rfl⟩
  · rw [if_neg hZero, if_neg hZero]
    exact ⟨s, rfl, h, (List.append_nil _).symm⟩

/-- The advisory of a subject that is not restricted. -/
theorem advisory_sent (p : Prop) [Decidable p] {call : Call} {out : Sent} (sub : Text)
    (hCall : call.sent = some out) :
    (if p ∧ !isRestrictedSubject sub then [call] else []).filterMap Call.sent =
      if isRestrictedSubject sub then [] else if p then [out] else [] := by
  by_cases hPlain : isRestrictedSubject sub = true
  · rw [if_pos hPlain, if_neg (by simp [hPlain])]
    rfl
  · rw [if_neg hPlain]
    by_cases h : p
    · rw [if_pos ⟨h, by simpa using hPlain⟩, if_pos h, List.filterMap_cons_some hCall]
      rfl
    · rw [if_neg fun hBoth => h hBoth.1, if_neg h]
      rfl

/-- `add_sub` in both models. -/
theorem addSub_shows (h : Shows env c s)
    (hLibs : m.isWild = true → SameLibraries env o e (c.pre ++ m.sub)) :
    ∃ s', Daemon.addSub e s m = .ok s' ∧
      ShowsCall env s s' m.sub (addSub o env c m.sub m.isWild) := by
  have hEnter : ShowsEntered env s (if m.isWild then addPattern o env c (c.pre ++ m.sub)
      else addExact env c (c.pre ++ m.sub)) (enterSub e s m) := by
    unfold enterSub
    rw [h.pre]
    cases hWild : m.isWild with
    | true => exact putPattern_shows h (hLibs hWild)
    | false => exact putSub_shows h _
  obtain ⟨hShows, hCount, hSent, hCalls⟩ := hEnter
  unfold Daemon.addSub addSub
  rw [h.pre, hCount, addHostRef_shows hShows]
  dsimp only
  generalize (if m.isWild = true then addPattern o env c (c.pre ++ m.sub)
    else addExact env c (c.pre ++ m.sub)) = r at hShows hCalls ⊢
  generalize (if r.refcnt ≠ 0 ∧ r.conn.isDaemon = true then r.conn.host.addRef (c.pre ++ m.sub)
    else (r.conn.host, r.refcnt)) = q
  obtain ⟨s', hSend, hNext, hMore⟩ := sendListenStart_shows (hShows.setHost q.1) m.sub q.2
  refine ⟨s', hSend, hNext, _, hMore.trans (congrArg (· ++ _) hSent), ?_⟩
  rw [List.filterMap_append, hCalls, List.nil_append]
  exact advisory_sent _ m.sub rfl

/-- `rem_sub` in both models. -/
theorem remSub_shows (h : Shows env c s) (hKept : Kept env (patNames c.patTab))
    (hSame : ∀ x, e.converts x = (env.convertRv x).isSome) :
    ∃ s', Daemon.remSub e s m = .ok s' ∧ ShowsCall env s s' m.sub (remSub env c m.sub m.isWild) := by
  have hLeave : ShowsEntered env s (if m.isWild then remPattern env c (c.pre ++ m.sub)
      else remExact env c (c.pre ++ m.sub)) (leaveSub e s m) := by
    unfold leaveSub
    rw [h.pre]
    cases hWild : m.isWild with
    | true => exact remPattern_shows h hKept (hSame _)
    | false => exact remSubTab_shows h _
  obtain ⟨hShows, hCount, hSent, hCalls⟩ := hLeave
  unfold Daemon.remSub remSub
  rw [h.pre, hCount, remHostRef_shows hShows]
  dsimp only
  generalize (if m.isWild = true then remPattern env c (c.pre ++ m.sub)
    else remExact env c (c.pre ++ m.sub)) = r at hShows hCalls ⊢
  generalize (if r.refcnt ≠ notFound ∧ r.conn.isDaemon = true then
    r.conn.host.remRefs (c.pre ++ m.sub) 1 else (r.conn.host, r.refcnt)) = q
  obtain ⟨s', hSend, hNext, hMore⟩ := sendListenStop_shows (hShows.setHost q.1) m.sub q.2
  refine ⟨s', hSend, hNext, _, hMore.trans (congrArg (· ++ _) hSent), ?_⟩
  rw [List.filterMap_append, hCalls, List.nil_append]
  exact advisory_sent _ m.sub rfl

end

end Sassrv.Daemon.Routes

/-! `respond_info` of one connection and of the network of all. -/
namespace Sassrv.Daemon
open SubMgr

section
variable {env : Env} {d : Net} {fd : Fd} {c : Conn} {h : RvHost} {service : Text}

/-- What a network keeps elsewhere: the host, and the count of what was asked. -/
def Service.put (s : Service) (host : Option Host) (asked : Nat) : Service :=
  { s with
    host := host
    asked := asked }

theorem sendStart_put (s : Service) (own : Option Host) (asked : Nat) (host : Host) :
    sendStart (s.put own asked) host = (sendStart s host).put own asked := by
  unfold sendStart
  cases hDaemon : s.isDaemon <;> cases hSession : s.isSession <;>
    cases hSent : s.sentSessionStart <;> simp [Service.put, Service.send, hDaemon, hSession, hSent]

theorem setSession_put (s : Service) (own : Option Host) (asked : Nat) (host : Host) :
    setSession env (s.put own asked) host = (setSession env s host).put own asked := by
  unfold setSession
  by_cases hConn : s.sentRvdconn = true
  · rw [if_pos (show (s.put own asked).sentRvdconn = true from hConn), if_pos hConn]
    by_cases hGob : 9 < s.session.length ∧ s.session.drop 9 = env.gob
    · have hPut : 9 < (s.put own asked).session.length ∧
          (s.put own asked).session.drop 9 = env.gob := hGob
      rw [if_pos hPut, if_pos hGob]
      rfl
    · have hPut : ¬ (9 < (s.put own asked).session.length ∧
          (s.put own asked).session.drop 9 = env.gob) := hGob
      rw [if_neg hPut, if_neg hGob]
      rfl
  · rw [if_neg (show ¬ (s.put own asked).sentRvdconn = true from hConn), if_neg hConn]

theorem replied_put (s : Service) (own : Option Host) (asked : Nat) (status : Int) (host : Host) :
    replied (s.put own asked) status host = (replied s status host).put own asked := by
  unfold replied
  by_cases hStatus : status ≠ 0
  · simp only [if_pos hStatus]
    rfl
  · simp only [if_neg hStatus]
    cases hSent : s.sentInitresp <;> simp [Service.put, Service.send, hSent]

theorem respondStarted_put (env : Env) (s : Service) (own : Option Host) (asked : Nat) (status : Int)
    (host : Host) : respondStarted env (s.put own asked) status host =
      (respondStarted env s status host).put own asked := by
  rw [respondStarted_eq, respondStarted_eq, replied_put]
  have hSession : (if status = 0 then setSession env ((replied s status host).put own asked) host
      else (replied s status host).put own asked) =
      (if status = 0 then setSession env (replied s status host) host
        else replied s status host).put own asked := by
    split
    · exact setSession_put _ own asked host
    · rfl
  dsimp only
  rw [hSession]
  generalize (if status = 0 then setSession env (replied s status host) host
    else replied s status host) = r
  by_cases hStarted : r.hostStarted = true
  · rw [if_pos (show (r.put own asked).hostStarted = true from hStarted), if_pos hStarted]
    exact sendStart_put r own asked host
  · rw [if_neg (show ¬ (r.put own asked).hostStarted = true from hStarted), if_neg hStarted]

/-- A connection without a session is told of the start by its service alone. -/
theorem sendStart_quiet {s : Service} (hDaemon : s.isDaemon = false) (hSession : s.isSession = false)
    (host : Host) : sendStart s host = { s with pre := host.service.getD s.pre } := by
  unfold sendStart
  simp [hDaemon, hSession]

theorem sendStart_pre (s : Service) (host : Host) :
    sendStart { s with pre := host.service.getD s.pre } host = sendStart s host := by
  unfold sendStart
  cases hDaemon : s.isDaemon <;> cases hSession : s.isSession <;>
    cases hSent : s.sentSessionStart <;> cases host.service <;>
    simp [Service.send, hDaemon, hSession, hSent]

/-- `respond_info` of a connection that its network has started already. -/
theorem respondStarted_start {s : Service} (hDaemon : s.isDaemon = false)
    (hSession : s.isSession = false) (status : Int) {host : Host}
    (hRuns : host.networkStarted = true) :
    respondStarted env (sendStart { s with hostStarted := true } host) status host =
      respondStarted env s status host := by
  have hQuiet : sendStart { s with hostStarted := true } host =
      { s with
        hostStarted := true
        pre := host.service.getD s.pre } :=
    sendStart_quiet (s := { s with hostStarted := true }) hDaemon hSession host
  have hReplied : replied { s with
      hostStarted := true
      pre := host.service.getD s.pre } status host =
      { replied s status host with pre := host.service.getD (replied s status host).pre } := by
    unfold replied
    dsimp only
    by_cases hStatus : status ≠ 0
    · rw [if_pos hStatus, if_pos hStatus]
      simp [Service.send, hRuns]
    · rw [if_neg hStatus, if_neg hStatus]
      cases hSent : s.sentInitresp <;> simp [Service.send, hRuns]
  have hSet : ∀ r : Service, setSession env { r with pre := host.service.getD r.pre } host =
      { setSession env r host with pre := host.service.getD (setSession env r host).pre } := by
    intro r
    unfold setSession
    by_cases hConn : r.sentRvdconn = true
    · simp only [hConn, if_true]
      split <;> rfl
    · rw [if_neg hConn, if_neg hConn]
  have hStarted : (if status = 0 then setSession env (replied s status host) host
      else replied s status host).hostStarted = true := by
    obtain ⟨-, -, -, hReply, -, -⟩ := replied_same s status host
    rw [hRuns, Bool.or_true] at hReply
    split
    · exact (setSession_same env (replied s status host) host).2.2.2.1.trans hReply
    · exact hReply
  have hMid : (if status = 0 then setSession env
        { replied s status host with pre := host.service.getD (replied s status host).pre } host
      else { replied s status host with pre := host.service.getD (replied s status host).pre }) =
      { (if status = 0 then setSession env (replied s status host) host
          else replied s status host) with
        pre := host.service.getD (if status = 0 then setSession env (replied s status host) host
          else replied s status host).pre } := by
    split
    · exact hSet _
    · rfl
  rw [hQuiet, respondStarted_eq, respondStarted_eq, hReplied]
  dsimp only
  rw [hMid]
  generalize (if status = 0 then setSession env (replied s status host) host
    else replied s status host) = r at hStarted ⊢
  rw [if_pos hStarted, if_pos hStarted, sendStart_pre]

/-! The start of a network, as one of its connections sees it. -/

/-- The connection after the start: as it was, or started with the host. -/
def Net.StartedWith (d : Net) (service : Text) (fd : Fd) (c : Conn) : Prop :=
  ∃ h, d.hosts.find? service = some h ∧ (d.conns.find? fd = some c ∨
    h.networkStarted = true ∧ d.conns.find? fd = some (c.start h.toHost))

theorem Net.startHost2_started (hConn : d.conns.find? fd = some c) (hAt : c.isAt service = true)
    (hHost : d.hosts.find? service = some h) (delaySecs : Nat) :
    (d.startHost2 service delaySecs).StartedWith service fd c := by
  unfold Net.startHost2
  rw [hHost]
  dsimp only
  split
  · exact ⟨_, Table.find?_insert_self _ _ _, .inl hConn⟩
  · refine ⟨_, Table.find?_insert_self _ _ _, .inr ⟨rfl, ?_⟩⟩
    simp only [Table.find?_map, hConn, Option.map_some, hAt, if_true]
    rfl

theorem Net.listenerStartHost_started (hConn : d.conns.find? fd = some c)
    (hAt : c.isAt service = true) (hHost : d.hosts.find? service = some h) (network : Text)
    (answers : Answers) : (d.listenerStartHost service network answers).1.StartedWith service fd c := by
  unfold Net.listenerStartHost
  rw [hHost]
  dsimp only
  split
  · split
    · exact ⟨_, Table.find?_insert_self _ _ _, .inl hConn⟩
    · dsimp only
      unfold Net.startHost
      rw [Table.find?_insert_self]
      dsimp only
      split
      · exact ⟨_, Table.find?_insert_self _ _ _, .inl hConn⟩
      · refine Net.startHost2_started ?_ hAt (Table.find?_insert_self _ _ _) _
        exact hConn
  · split <;> exact ⟨h, hHost, .inl hConn⟩

theorem Net.startNetwork_started (hConn : d.conns.find? fd = some c) (hosted : Conn) (info : Info)
    (answers : Answers) : (d.startNetwork fd hosted info answers).1.StartedWith info.serviceName fd
      { c with hostName := some info.serviceName } := by
  obtain ⟨h, hHost⟩ := d.startService_some info.serviceName hosted.hasServicePrefix
  have hConns := d.startService_conns info.serviceName hosted.hasServicePrefix
  have hPoint : ((d.startService info.serviceName hosted.hasServicePrefix).1.conns.modify fd
      fun c => { c with hostName := some info.serviceName }).find? fd =
        some { c with hostName := some info.serviceName } := by
    rw [Table.find?_modify_self, hConns, hConn]
    rfl
  have hAt : ({ c with hostName := some info.serviceName } : Conn).isAt info.serviceName = true :=
    decide_eq_true rfl
  unfold Net.startNetwork
  dsimp only
  split
  · exact ⟨h, hHost, .inl hPoint⟩
  · exact Net.listenerStartHost_started
      (d := { (d.startService info.serviceName hosted.hasServicePrefix).1 with
        conns := (d.startService info.serviceName hosted.hasServicePrefix).1.conns.modify fd
          fun c => { c with hostName := some info.serviceName } }) hPoint hAt hHost _ _

/-- `respond_info` of both models, for a connection that has no session of its own yet: the one
of the network is the one of the connection with the status and the host that the network
gives it. -/
theorem Net.respondInfo_load (hConn : d.conns.find? fd = some c) (hDaemon : c.isDaemon = false)
    (hSession : c.isSession = false) (info : Info) (answers : Answers) :
    ∃ c' status host s done, (d.respondInfo env fd c info answers).conns.find? fd = some c' ∧
      Daemon.respondInfo { env with
        gob := c.gob
        startNetwork := fun _ _ _ => (status, host) } (d.load c) info = .ok (s, done) ∧
      (d.respondInfo env fd c info answers).load c' = s.put s.host c'.asked := by
  obtain ⟨named, hNamed⟩ : ∃ e : Net, { d with conns := d.conns.modify fd fun c => { c with
    session := info.session.getD c.session } } = e := ⟨_, rfl⟩
  have hFind : named.conns.find? fd = some { c with session := info.session.getD c.session } := by
    rw [← hNamed, Table.find?_modify_self, hConn]
    rfl
  unfold Net.respondInfo Daemon.respondInfo
  dsimp only
  rw [hNamed]
  cases hReadable : info.readable with
  | false =>
      refine ⟨_, 0, { networkStarted := false }, _, _, hFind, rfl, ?_⟩
      rw [← hNamed]
      rfl
  | true =>
      obtain ⟨h, hHost, hFound⟩ := Net.startNetwork_started hFind c info answers
      generalize named.startNetwork fd c info answers = net at hHost hFound ⊢
      obtain ⟨started, status⟩ := net
      dsimp only at hHost hFound ⊢
      obtain ⟨c₂, hConn₂, hName, hGob, hSame⟩ : ∃ c₂ : Conn, started.conns.find? fd = some c₂ ∧
          c₂.hostName = some info.serviceName ∧ c₂.gob = c.gob ∧
          Daemon.respondStarted { env with gob := c₂.gob } c₂.toService (statusCode status)
            h.toHost = Daemon.respondStarted { env with gob := c.gob }
              { c.toService with session := info.session.getD c.session } (statusCode status)
              h.toHost := by
        rcases hFound with hFound | ⟨hRuns, hFound⟩
        · exact ⟨_, hFound, rfl, rfl, rfl⟩
        · exact ⟨_, hFound, rfl, rfl, respondStarted_start
            (s := { c.toService with session := info.session.getD c.session }) hDaemon hSession _
            hRuns⟩
      have hOwn : ∀ t : Table Text RvHost, t = (if h.networkStarted && !c₂.hostStarted then
          started.hosts.insert info.serviceName { h with activeClients := h.activeClients + 1 }
          else started.hosts) → (t.find? info.serviceName).map RvHost.toHost = some h.toHost := by
        rintro t rfl
        split
        · rw [Table.find?_insert_self]
          rfl
        · rw [hHost]
          rfl
      unfold Net.respondStarted
      rw [hHost, hConn₂]
      refine ⟨_, statusCode status, h.toHost, _, _, Table.find?_insert_self _ _ _, rfl, ?_⟩
      have hPut := respondStarted_put { env with gob := c.gob }
        { c.toService with session := info.session.getD c.session } (some h.toHost) (c.asked + 1)
        (statusCode status) h.toHost
      dsimp only [Net.load]
      simp only [if_true]
      rw [hName, Option.bind_some, hOwn _ rfl, hSame]
      exact congrArg (fun s : Service => s.put s.host _) hPut.symm

end

end Sassrv.Daemon
