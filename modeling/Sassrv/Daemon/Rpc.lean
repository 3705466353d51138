import Sassrv.Daemon.Digest
import Sassrv.Daemon.Service
import Sassrv.SubMgr.Reconcile

/-! `RvDaemonRpc`: what a daemon answers on its inbox, and the exchange in which a
subscription database asks it for the subjects of a session. -/
namespace Sassrv.Daemon.Rpc
open SubMgr Transition

/-- A value of a message, of the types that the daemon reads and writes. -/
inductive RpcValue where
  | string (t : Text)
  | subject (t : Text)
  | int (n : BitVec 32)
  deriving DecidableEq

/-- A field; its name is without the `'\0'` that may end it. -/
structure RpcField where
  name : Text
  value : RpcValue
  deriving DecidableEq

/-- A socket of the daemon, with what `get_userid` gives. -/
structure RpcSocket extends EvSocket where
  userid : Text

/-- `match_string`; the text is a literal of the source. -/
def matchString (s : Text) : RpcValue → Bool
  | .string t => decide (stripNul t = s)
  | _ => false

/-- `find` of the field reader: the first field with the name. -/
def findField (fields : List RpcField) (name : Text) : Option RpcValue :=
  (fields.find? fun f => f.name = name).map RpcField.value

/-- `upsert` into a `SubRouteDB`: a text that is there is not entered again. -/
def upsert (tab : List Text) (t : Text) : List Text := if t ∈ tab then tab else tab ++ [t]

def upserts (tab : List Text) (items : List Text) : List Text := items.foldl upsert tab

/-- What `send_subscriptions` gathers: `subs`, `pats` and `user`. -/
structure Gathered where
  subs : List Text := []
  pats : List Text := []
  user : Text := []

/-- One socket in the loop of `send_subscriptions`. The user is that of the first socket with
a subject that was not there yet. -/
def Gathered.socket (session : Text) (g : Gathered) (p : RpcSocket) : Gathered :=
  if 0 < p.session.length ∧ p.session = session then
    let subs := upserts g.subs p.subs
    let pats := upserts g.pats p.pats
    let added := (subs.length - g.subs.length) + (pats.length - g.pats.length)
    { subs := subs
      pats := pats
      user := if added ≠ 0 ∧ g.user.length = 0 then p.userid else g.user }
  else g

def gather (session : Text) (sockets : List RpcSocket) : Gathered :=
  sockets.foldl (Gathered.socket session) {}

section Answers

-- the order in which a table is gone through
variable (visit : List Text → List Text)

def sendSessions (sockets : List RpcSocket) : List RpcField :=
  let named := sockets.filter fun p => decide (0 < p.session.length)
  (visit (upserts [] (named.map fun p => p.session ++ [0]))).map fun s => ⟨[], .string s⟩

/-- The subjects of one of the tables that are not restricted. -/
def subjectFields (tab : List Text) : List RpcField :=
  ((visit tab).filter fun s => !isRestrictedSubject s).map fun s => ⟨[], .subject s⟩

def sendSubscriptions (sockets : List RpcSocket) (session : Text) : List RpcField :=
  let g := gather (stripNul session) sockets
  let user := if g.user.length = 0 then text "nobody" else g.user
  [⟨text "user", .string (user ++ [0])⟩] ++ subjectFields visit g.subs ++ subjectFields visit g.pats ++
    [⟨text "end", .int 1⟩]

/-- `on_msg`: the subject and the fields of the answer, if there is one. A message that
cannot be unpacked has no fields. -/
def onMsg (sockets : List RpcSocket) (reply : Text) (msg : Option (List RpcField)) :
    Option (Text × List RpcField) :=
  if reply.length = 0 then none
  else do
    let fields ← msg
    let op ← findField fields (text "op")
    if matchString (text "get") op then
      let what ← findField fields (text "what")
      if matchString (text "sessions") what then
        return (reply, sendSessions visit sockets)
      else if matchString (text "subscriptions") what then
        match ← findField fields (text "session") with
        | .string session => return (reply, sendSubscriptions visit sockets session)
        | _ => none
      else none
    else none

end Answers

/-- The message of `send_host_query`. -/
def hostRequest : List RpcField :=
  [⟨text "op", .string (text "get")⟩, ⟨text "what", .string (text "sessions")⟩]

/-- A field as the loops of `process_pub2` read it, with what `get_string` gives. -/
def RpcField.read (getString : RpcValue → Option Text) (f : RpcField) : ReplyField where
  name := f.name
  string := getString f.value

/-! What the answers list. -/

variable {tab : List Text} {t : Text}

theorem mem_upsert (tab : List Text) (a t : Text) : t ∈ upsert tab a ↔ t ∈ tab ∨ t = a := by
  unfold upsert
  split
  · next hIn =>
      refine (or_iff_left_of_imp ?_).symm
      rintro rfl
      exact hIn
  · simp

theorem mem_upserts (items tab : List Text) : t ∈ upserts tab items ↔ t ∈ tab ∨ t ∈ items := by
  induction items generalizing tab with
  | nil => simp [upserts]
  | cons a rest ih =>
      change t ∈ upserts (upsert tab a) rest ↔ _
      rw [ih, mem_upsert, List.mem_cons]
      tauto

theorem upserts_nodup (items : List Text) (h : tab.Nodup) : (upserts tab items).Nodup := by
  induction items generalizing tab with
  | nil => exact h
  | cons a rest ih =>
      change (upserts (upsert tab a) rest).Nodup
      apply ih
      unfold upsert
      split
      · exact h
      · next hNot =>
          rw [List.nodup_append]
          refine ⟨h, List.nodup_singleton a, ?_⟩
          rintro b hb c hc rfl
          cases List.mem_singleton.mp hc
          exact hNot hb

/-- A socket of the session has the subject. -/
def Offered (sockets : List RpcSocket) (session sub : Text) : Prop :=
  ∃ p ∈ sockets, 0 < p.session.length ∧ p.session = session ∧ (sub ∈ p.subs ∨ sub ∈ p.pats)

theorem Offered.mono {l r : List RpcSocket} {session sub : Text} (hSub : l ⊆ r)
    (h : Offered l session sub) : Offered r session sub := by
  obtain ⟨p, hp, hOurs⟩ := h
  exact ⟨p, hSub hp, hOurs⟩

variable {visit : List Text → List Text}

/-- The answer for the sessions has each session that a socket has, once. -/
theorem sendSessions_lists (hVisit : ∀ tab, (visit tab).Perm tab) (sockets : List RpcSocket) :
    (sendSessions visit sockets).Nodup ∧ ∀ f, f ∈ sendSessions visit sockets ↔
      ∃ p ∈ sockets, 0 < p.session.length ∧ f = ⟨[], .string (p.session ++ [0])⟩ := by
  constructor
  · refine List.Nodup.map (fun s t h => by cases h; rfl) ?_
    exact (hVisit _).nodup_iff.mpr (upserts_nodup _ List.nodup_nil)
  · intro f
    simp only [sendSessions, List.mem_map, (hVisit _).mem_iff, mem_upserts, List.not_mem_nil, false_or,
      List.mem_filter, decide_eq_true_eq]
    constructor
    · rintro ⟨-, ⟨p, ⟨hp, hLong⟩, rfl⟩, rfl⟩
      exact ⟨p, hp, hLong, rfl⟩
    · rintro ⟨p, hp, hLong, rfl⟩
      exact ⟨_, ⟨p, ⟨hp, hLong⟩, rfl⟩, rfl⟩

theorem onMsg_hostRequest (sockets : List RpcSocket) {reply : Text} (hReply : reply ≠ []) :
    onMsg visit sockets reply (some hostRequest) = some (reply, sendSessions visit sockets) := by
  have hLong : reply.length ≠ 0 := mt List.length_eq_zero_iff.mp hReply
  rw [onMsg, if_neg hLong]
  rfl

variable {env : SubMgr.Env} {getString : RpcValue → Option Text}

end Sassrv.Daemon.Rpc
