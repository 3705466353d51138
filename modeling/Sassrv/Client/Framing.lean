import Sassrv.Client.Connection

/-! The bytes of the daemon may come in any pieces: the records that `process` finds in
them, and all that follows from these, are the same. -/
namespace Sassrv.Client
open SubMgr Records

variable {env : Env} {c : EvRvClient} {buf : Text} {n : Nat}

theorem recordSize_eq_some (h : recordSize c buf = some n) :
    8 ≤ buf.length ∧ n ≤ buf.length ∧ n = recordLength c buf := by
  unfold recordSize at h
  split at h
  · cases h
  · next hHeader =>
      split at h
      · cases h
      · next hSize =>
          have hEq := Option.some.inj h
          exact ⟨by omega, by omega, hEq.symm⟩

theorem recordLength_append (c : EvRvClient) (more : Text) (h : 8 ≤ buf.length) :
    recordLength c (buf ++ more) = recordLength c buf := by
  have hWord : getU32 (buf ++ more) = getU32 buf := by
    unfold getU32
    rw [List.take_append_of_le_length (by omega)]
  unfold recordLength
  rw [hWord]

/-- A message that is dispatched without an error has its header. -/
theorem dispatchMsg_short {msg : Text} (h : msg.length < 8) : (dispatchMsg env c msg).2 ≠ 0 := by
  obtain ⟨status, hStatus⟩ := env.unpack_short msg h
  unfold dispatchMsg
  rw [hStatus]
  simp only [if_neg (show msg.length ≠ 8 by omega)]
  simp only [Int.ofNat_eq_natCast]
  omega

theorem acceptRecord_next {rec : Text} {t : EvRvClient} (h : acceptRecord env c rec = (t, .next)) :
    c.rvState = .versRecv ∨ c.rvState = .infoRecv ∨ 8 ≤ rec.length := by
  unfold acceptRecord at h
  split at h
  · next hState => exact .inl hState
  · next hState => exact .inr (.inl hState)
  · right
    right
    by_contra hShort
    have hStatus : (dispatchMsg env { c with dispatched := c.dispatched ++ [rec] } rec).2 ≠ 0 :=
      dispatchMsg_short (by omega)
    split at h
    · next hZero =>
        rw [hZero] at hStatus
        exact hStatus rfl
    · cases h

theorem reader_lawful (env : Env) : (reader env).Lawful where
  size_le h := (recordSize_eq_some h).2.1
  size_append {s buf n} more h := by
    obtain ⟨hHeader, hLe, hEq⟩ := recordSize_eq_some h
    have hSame : recordLength s (buf ++ more) = n := by
      rw [recordLength_append s more hHeader, hEq]
    have hLength : (buf ++ more).length = buf.length + more.length := List.length_append
    show recordSize s (buf ++ more) = some n
    unfold recordSize
    rw [hSame, if_neg (by omega), if_neg (by omega)]
  progress {s t buf n} hSize hAccept := by
    obtain ⟨hHeader, hLe, hEq⟩ := recordSize_eq_some hSize
    rcases acceptRecord_next hAccept with hState | hState | hLength
    · simp only [recordLength, hState] at hEq
      omega
    · simp only [recordLength, hState] at hEq
      omega
    · rw [List.length_take] at hLength
      omega

/-- Pieces of the stream, one read after the other. -/
def receiveAll (env : Env) (s : Socket) (chunks : List Text) : Option Socket :=
  chunks.foldlM (receive env) s

/-- The socket that a reading of its buffer leaves. -/
def Socket.after (out : Outcome EvRvClient UInt8) : Socket :=
  if out.verdict = .next then
    { client := out.state
      recv := out.rest }
  else
    { client := { out.state with rvState := .errClose }
      recv := out.rest
      closed := true }

theorem process_eq (env : Env) (s : Socket) (h : s.closed = false) :
    ∃ out fuel, (reader env).read fuel s.client s.recv = some out ∧
      process env s = some (Socket.after out) := by
  obtain ⟨out, hRead⟩ := (reader_lawful env).read_returns (Nat.lt_succ_self s.recv.length)
  refine ⟨out, _, hRead, ?_⟩
  unfold process Socket.after
  rw [hRead, Option.map_some]
  split
  · rw [h]
  · rfl

/-- Nothing is left to read once a reading has ended without a status. -/
theorem read_rest {fuel : Nat} {out : Outcome EvRvClient UInt8}
    (h : (reader env).read fuel c buf = some out) (hNext : out.verdict = .next) :
    recordSize out.state out.rest = none := by
  induction fuel generalizing c buf with
  | zero => cases h
  | succ fuel ih =>
      rw [Reader.read] at h
      split at h
      · next hSize =>
          cases h
          exact hSize
      · split at h
        · exact ih h
        · cases h
          cases hNext
        · cases h
          cases hNext

/-- The pieces against the whole: the same socket, but for what comes after a close. -/
theorem receiveAll_eq (env : Env) (chunks : List Text) {s : Socket} (hOpen : s.closed = false)
    (hRead : recordSize s.client s.recv = none) :
    ∃ out fuel pieces, (reader env).read fuel s.client (s.recv ++ chunks.flatten) = some out ∧
      receiveAll env s chunks = some pieces ∧ pieces.client = (Socket.after out).client ∧
      pieces.closed = (Socket.after out).closed ∧
      (out.verdict = .next → pieces.recv = (Socket.after out).recv) := by
  induction chunks generalizing s with
  | nil =>
      have hNone : (reader env).read 1 s.client s.recv = some ⟨s.client, s.recv, .next⟩ := by
        rw [Reader.read]
        have hSize : (reader env).size s.client s.recv = none := hRead
        rw [hSize]
      refine ⟨⟨s.client, s.recv, .next⟩, 1, s, ?_, rfl, rfl, hOpen, fun _ => rfl⟩
      rw [List.flatten_nil, List.append_nil]
      exact hNone
  | cons chunk rest ih =>
      obtain ⟨first, fuel, hFirst, hProcess⟩ :=
        process_eq env { s with recv := s.recv ++ chunk } hOpen
      have hReceive : receive env s chunk = some (Socket.after first) := by
        unfold receive
        rw [if_neg (by rw [hOpen]; simp)]
        exact hProcess
      unfold receiveAll
      rw [List.foldlM_cons, hReceive, List.flatten_cons, ← List.append_assoc]
      by_cases hNext : first.verdict = .next
      · have hAfter : Socket.after first = { client := first.state, recv := first.rest } := if_pos hNext
        rw [hAfter]
        obtain ⟨out, fuel', pieces, hMore, hPieces, hSame⟩ :=
          ih (s := { client := first.state, recv := first.rest }) rfl (read_rest hFirst hNext)
        obtain ⟨fuel'', hWhole⟩ := (reader_lawful env).read_append_open hFirst hNext hMore
        exact ⟨out, fuel'', pieces, hWhole, hPieces, hSame⟩
      · have hWhole := (reader_lawful env).read_append_ended rest.flatten hFirst hNext
        have hClosed : ∀ chunks : List Text,
            chunks.foldlM (receive env) (Socket.after first) = some (Socket.after first) := by
          have hEnd : (Socket.after first).closed = true := by
            unfold Socket.after
            rw [if_neg hNext]
          intro chunks
          induction chunks with
          | nil => rfl
          | cons chunk rest ih =>
              rw [List.foldlM_cons]
              have hStay : receive env (Socket.after first) chunk = some (Socket.after first) := by
                unfold receive
                rw [if_pos hEnd]
              rw [hStay]
              exact ih
        refine ⟨_, fuel, Socket.after first, hWhole, hClosed rest, ?_, ?_, ?_⟩
        · unfold Socket.after
          rw [if_neg hNext, if_neg hNext]
        · unfold Socket.after
          rw [if_neg hNext, if_neg hNext]
        · exact fun hOut => absurd hOut hNext

/-- However a stream is cut into reads, the same messages are dispatched, in the same
order, and the connection ends in the same state. -/
theorem process_chunk_independent (env : Env) (chunks : List Text) :
    ∃ whole pieces, receiveAll env {} [chunks.flatten] = some whole ∧
      receiveAll env {} chunks = some pieces ∧
      pieces.client.dispatched = whole.client.dispatched ∧
      pieces.client.rvState = whole.client.rvState ∧ pieces.client.sent = whole.client.sent ∧
      pieces.closed = whole.closed ∧ (whole.closed = false → pieces = whole) := by
  have hNone : recordSize ({} : Socket).client ({} : Socket).recv = none := rfl
  obtain ⟨out, fuel, pieces, hRead, hPieces, hClient, hClosed, hRecv⟩ :=
    receiveAll_eq env chunks rfl hNone
  obtain ⟨out', fuel', hRead', hProcess⟩ :=
    process_eq env { recv := chunks.flatten } rfl
  obtain rfl : out = out' := Reader.read_unique hRead hRead'
  refine ⟨Socket.after out, pieces, ?_, hPieces, ?_, ?_, ?_, hClosed, ?_⟩
  · simp only [receiveAll, List.foldlM_cons, List.foldlM_nil]
    have hReceive : receive env {} chunks.flatten = some (Socket.after out) := hProcess
    rw [hReceive]
    rfl
  · rw [hClient]
  · rw [hClient]
  · rw [hClient]
  · intro hOpen
    have hNext : out.verdict = .next := by
      by_contra hNot
      unfold Socket.after at hOpen
      rw [if_neg hNot] at hOpen
      cases hOpen
    cases pieces with
    | mk client recv closed =>
        cases hAfter : Socket.after out with
        | mk client' recv' closed' =>
            rw [hAfter] at hClient hClosed hRecv
            simp only [Socket.mk.injEq]
            exact ⟨hClient, hRecv hNext, hClosed⟩

end Sassrv.Client
