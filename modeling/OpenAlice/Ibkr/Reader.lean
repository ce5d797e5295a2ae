import OpenAlice.Ibkr.Comm

/-!
# The reader of messages

`EReader` of `packages/ibkr/src/reader.ts`.  A chunk of the socket is appended to a buffer, and
whole messages are taken off its front and handed to a callback, which may throw.  What the
callback does is a function of all payloads that it has been handed.

`deliver_frames` says what a buffer yields that begins with frames whose payloads are not empty.
-/

namespace OpenAlice.Ibkr

/-- The state of a reader, with the payloads that the callback has been handed. -/
structure Reader where
  buf : Bytes
  handed : List Bytes

def Reader.initial : Reader := ⟨[], []⟩

abbrev Callback := List Bytes → Bool

variable (throws : Callback)

/-- The loop of `processData`, for a number of rounds; each takes a message, and there are no
more messages than bytes. -/
def takeMessages : Nat → Reader → Reader
  | 0, reader => reader
  | rounds + 1, reader =>
    if reader.buf.isEmpty then reader
    else
      match readMsg reader.buf with
      | (_, [], _) => reader
      | (_, msg, rest) =>
        let handed := reader.handed ++ [msg]
        if throws handed then ⟨[], handed⟩ else takeMessages rounds ⟨rest, handed⟩

/-- `processData`, with what the socket has brought. -/
def processData (reader : Reader) (incoming : Bytes) : Reader :=
  if incoming.isEmpty then reader
  else
    let buf := reader.buf ++ incoming
    takeMessages throws buf.length ⟨buf, reader.handed⟩

def readChunks (chunks : List Bytes) : Reader := chunks.foldl (processData throws) .initial

/-! ## What is to be handed over -/

def stream (messages : List Bytes) : Bytes := messages.flatMap frame

/-- The messages whose last byte is among the first `n` bytes of their stream. -/
def arrived : Nat → List Bytes → List Bytes
  | _, [] => []
  | n, message :: rest =>
    if 4 + message.length ≤ n then message :: arrived (n - (4 + message.length)) rest else []

/-- Some messages up to the first at which the callback throws, where others have been handed
over before. -/
def untilThrow : List Bytes → List Bytes → List Bytes
  | _, [] => []
  | before, message :: rest =>
    if throws (before ++ [message]) then [message]
    else message :: untilThrow (before ++ [message]) rest

def throwsAt : List Bytes → List Bytes → Bool
  | _, [] => false
  | before, message :: rest =>
    throws (before ++ [message]) || throwsAt (before ++ [message]) rest

/-! ## Frames at the front of a buffer -/

theorem length_frame (payload : Bytes) : (frame payload).length = 4 + payload.length := by
  rw [frame, List.length_append]
  rfl

theorem readUInt32BE_header {n : Nat} (h : n < 4294967296) (rest : Bytes) :
    readUInt32BE (header n ++ rest) = n := by
  have ha := Data.Utf8.toNat_ofNat (show n / 16777216 < 256 by omega)
  have hb := Data.Utf8.toNat_ofNat (show n / 65536 % 256 < 256 by omega)
  have hc := Data.Utf8.toNat_ofNat (show n / 256 % 256 < 256 by omega)
  have hd := Data.Utf8.toNat_ofNat (show n % 256 < 256 by omega)
  simp only [header, List.cons_append, List.nil_append, readUInt32BE, ha, hb, hc, hd]
  omega

theorem readMsg_frame {payload : Bytes} (h : payload.length < 4294967296) (rest : Bytes) :
    readMsg (frame payload ++ rest) = (payload.length, payload, rest) := by
  have hlength : (frame payload ++ rest).length = 4 + payload.length + rest.length := by
    rw [List.length_append, length_frame]
  have hdrop : (frame payload ++ rest).drop 4 = payload ++ rest := by
    rw [frame, List.append_assoc]
    exact List.drop_left' rfl
  rw [readMsg, if_neg (by omega)]
  have hsize : readUInt32BE (frame payload ++ rest) = payload.length := by
    rw [frame, List.append_assoc, readUInt32BE_header h]
  simp only [hsize]
  rw [if_pos (by omega), hdrop, ← List.drop_drop, hdrop, List.take_left, List.drop_left]

theorem readMsg_partial (payload : Bytes) {buf tail more : Bytes} (h : payload.length < 4294967296)
    (hbuf : buf ++ tail = frame payload ++ more) (hshort : buf.length < 4 + payload.length) :
    (readMsg buf).2.1 = [] := by
  rw [readMsg]
  by_cases hheader : buf.length < 4
  · rw [if_pos hheader]
  have hfour : buf = header payload.length ++ buf.drop 4 := by
    have htake : buf.take 4 = header payload.length := by
      have h₁ : (buf ++ tail).take 4 = buf.take 4 := List.take_append_of_le_length (by omega)
      rw [← h₁, hbuf, frame, List.append_assoc]
      rfl
    rw [← htake, List.take_append_drop]
  have hsize : readUInt32BE buf = payload.length := by
    rw [hfour, readUInt32BE_header h]
  rw [if_neg hheader]
  simp only [hsize]
  rw [if_neg (by omega)]

theorem readMsg_empty {buf tail more : Bytes} (hbuf : buf ++ tail = frame [] ++ more) :
    (readMsg buf).2.1 = [] := by
  by_cases hshort : buf.length < 4
  · exact readMsg_partial [] (by decide) hbuf hshort
  obtain ⟨rest, rfl⟩ : ∃ rest, buf = frame [] ++ rest := by
    refine ⟨buf.drop 4, ?_⟩
    have htake : buf.take 4 = frame [] := by
      have h₁ : (buf ++ tail).take 4 = buf.take 4 := List.take_append_of_le_length (by omega)
      rw [← h₁, hbuf]
      rfl
    rw [← htake, List.take_append_drop]
  rw [readMsg_frame (by decide)]

/-! ## What a buffer yields -/

section Throws

variable {throws}

theorem throwsAt_append (before first second : List Bytes) :
    throwsAt throws before (first ++ second) =
      (throwsAt throws before first || throwsAt throws (before ++ first) second) := by
  induction first generalizing before with
  | nil => rw [List.nil_append, List.append_nil, throwsAt, Bool.false_or]
  | cons message rest ih =>
    rw [List.cons_append, throwsAt, throwsAt, ih, Bool.or_assoc, List.append_assoc,
      List.singleton_append]

theorem untilThrow_append {before first : List Bytes} (h : throwsAt throws before first = false)
    (second : List Bytes) :
    untilThrow throws before (first ++ second) =
      first ++ untilThrow throws (before ++ first) second := by
  induction first generalizing before with
  | nil => rw [List.nil_append, List.append_nil, List.nil_append]
  | cons message rest ih =>
    rw [throwsAt, Bool.or_eq_false_iff] at h
    rw [List.cons_append, untilThrow, h.1, ih h.2, List.append_assoc]
    rfl

theorem untilThrow_eq_self {before messages : List Bytes}
    (h : throwsAt throws before messages = false) :
    untilThrow throws before messages = messages := by
  have hall := untilThrow_append h []
  rwa [List.append_nil, untilThrow, List.append_nil] at hall

end Throws

theorem stream_append (first second : List Bytes) :
    stream (first ++ second) = stream first ++ stream second :=
  List.flatMap_append

theorem length_stream_cons (message : Bytes) (rest : List Bytes) :
    (stream (message :: rest)).length = 4 + message.length + (stream rest).length := by
  rw [stream, List.flatMap_cons, List.length_append, length_frame]
  rfl

theorem arrived_append (messages rest : List Bytes) (n : Nat) :
    arrived ((stream messages).length + n) (messages ++ rest) = messages ++ arrived n rest := by
  induction messages with
  | nil => rw [stream, List.flatMap_nil, List.length_nil, Nat.zero_add]; rfl
  | cons message messages ih =>
    rw [length_stream_cons, List.cons_append, arrived, if_pos (by omega), List.cons_append, ← ih]
    congr 2
    omega

theorem arrived_rest (n : Nat) (messages : List Bytes) :
    ∃ rest, messages = arrived n messages ++ rest ∧ (stream (arrived n messages)).length ≤ n ∧
      arrived (n - (stream (arrived n messages)).length) rest = [] := by
  induction messages generalizing n with
  | nil => exact ⟨[], rfl, Nat.zero_le n, rfl⟩
  | cons message messages ih =>
    rw [arrived]
    split_ifs with h
    · obtain ⟨rest, hrest, hlength, hnone⟩ := ih (n - (4 + message.length))
      refine ⟨rest, by rw [List.cons_append, ← hrest], ?_, ?_⟩
      · rw [length_stream_cons]
        omega
      · rw [length_stream_cons, ← Nat.sub_sub]
        exact hnone
    · refine ⟨message :: messages, rfl, Nat.zero_le n, ?_⟩
      rw [stream, List.flatMap_nil, List.length_nil, Nat.sub_zero, arrived, if_neg h]

theorem arrived_mono (messages : List Bytes) {n m : Nat} (h : n ≤ m) :
    ∃ more, arrived m messages = arrived n messages ++ more := by
  obtain ⟨rest, hrest, hlength, -⟩ := arrived_rest n messages
  refine ⟨arrived (m - (stream (arrived n messages)).length) rest, ?_⟩
  have happend := arrived_append (arrived n messages) rest
    (m - (stream (arrived n messages)).length)
  rw [← hrest, Nat.add_sub_cancel' (Nat.le_trans hlength h)] at happend
  exact happend

/-- A reader that waits for more: at the end, or at a frame without a payload. -/
def Waits (messages : List Bytes) : Prop := messages = [] ∨ ∃ rest, messages = [] :: rest

theorem takeMessages_of_nil {reader : Reader} (h : (readMsg reader.buf).2.1 = []) (rounds : Nat) :
    takeMessages throws rounds reader = reader := by
  cases rounds with
  | zero => rfl
  | succ rounds =>
    rw [takeMessages]
    split_ifs
    · rfl
    split
    · rfl
    rename_i size msg rest hmsg heq
    rw [heq] at h
    exact absurd h hmsg

theorem takeMessages_frame {payload : Bytes} (h : payload.length < 4294967296)
    (hnonempty : payload ≠ []) (rest : Bytes) (before : List Bytes) (rounds : Nat) :
    takeMessages throws (rounds + 1) ⟨frame payload ++ rest, before⟩ =
      if throws (before ++ [payload]) then ⟨[], before ++ [payload]⟩
      else takeMessages throws rounds ⟨rest, before ++ [payload]⟩ := by
  have hread := readMsg_frame h rest
  have hbuf : (frame payload ++ rest).isEmpty = false := rfl
  obtain ⟨byte, bytes, rfl⟩ := List.exists_cons_of_ne_nil hnonempty
  rw [takeMessages, hbuf, if_neg Bool.false_ne_true, hread]

/-- **What a buffer yields** that begins with frames whose payloads are not empty, up to the
first at which the callback throws. -/
theorem deliver_frames {messages after : List Bytes} (hwaits : Waits after)
    {buf tail : Bytes} {before : List Bytes} {rounds : Nat}
    (hsize : ∀ message ∈ messages, message.length < 4294967296)
    (hbuf : buf ++ tail = stream (messages ++ after))
    (hnonempty : ∀ message ∈ untilThrow throws before messages, message ≠ [])
    (hrounds : buf.length ≤ rounds) :
    takeMessages throws rounds ⟨buf, before⟩ =
      if throwsAt throws before (arrived buf.length messages) then
        ⟨[], before ++ untilThrow throws before (arrived buf.length messages)⟩
      else
        ⟨buf.drop (stream (arrived buf.length messages)).length,
          before ++ arrived buf.length messages⟩ := by
  induction messages generalizing buf before rounds with
  | nil =>
    have hempty : (readMsg buf).2.1 = [] := by
      rcases hwaits with rfl | ⟨rest, rfl⟩
      · rw [(List.append_eq_nil_iff.mp hbuf).1]
        rfl
      · exact readMsg_empty hbuf
    rw [takeMessages_of_nil throws hempty, arrived, throwsAt, if_neg Bool.false_ne_true, stream,
      List.flatMap_nil, List.append_nil]
    rfl
  | cons message messages ih =>
    have hmessage : message ≠ [] := by
      refine hnonempty message ?_
      rw [untilThrow]
      split_ifs <;> exact List.mem_cons_self
    rw [List.cons_append, stream, List.flatMap_cons, ← stream] at hbuf
    have hlength := hsize message List.mem_cons_self
    by_cases harrived : 4 + message.length ≤ buf.length
    · obtain ⟨rest, rfl⟩ : ∃ rest, buf = frame message ++ rest := by
        refine ⟨buf.drop (frame message).length, ?_⟩
        have htake : buf.take (frame message).length = frame message := by
          have h₁ : (buf ++ tail).take (frame message).length = buf.take (frame message).length :=
            List.take_append_of_le_length (by rw [length_frame]; exact harrived)
          rw [← h₁, hbuf, List.take_left]
        rw [← htake, List.length_take, length_frame, Nat.min_eq_left harrived,
          List.take_append_drop]
      rw [List.append_assoc, List.append_cancel_left_eq] at hbuf
      obtain ⟨rounds, rfl⟩ : ∃ k, rounds = k + 1 := by
        refine ⟨rounds - 1, ?_⟩
        omega
      have hfirst : arrived (frame message ++ rest).length (message :: messages) =
          message :: arrived rest.length messages := by
        rw [arrived, if_pos harrived]
        congr 2
        rw [List.length_append, length_frame]
        omega
      rw [takeMessages_frame throws hlength hmessage, hfirst, throwsAt, untilThrow]
      by_cases hthrows : throws (before ++ [message]) = true
      · rw [if_pos hthrows, hthrows, Bool.true_or, if_pos rfl, if_pos rfl]
      have hfalse : throws (before ++ [message]) = false := by
        rwa [Bool.not_eq_true] at hthrows
      have hlater : ∀ later ∈ untilThrow throws (before ++ [message]) messages, later ≠ [] := by
        intro later hmem
        refine hnonempty later ?_
        rw [untilThrow, if_neg hthrows]
        exact List.mem_cons_of_mem message hmem
      have hshorter : rest.length ≤ rounds := by
        rw [List.length_append, length_frame] at hrounds
        omega
      rw [if_neg hthrows, hfalse, Bool.false_or, if_neg Bool.false_ne_true,
        ih (fun m hm ↦ hsize m (List.mem_cons_of_mem _ hm)) hbuf hlater hshorter,
        List.append_assoc, List.singleton_append, List.append_assoc, List.singleton_append]
      congr 2
      rw [length_stream_cons, ← length_frame, ← List.drop_drop, List.drop_left]
    · have hpartial := readMsg_partial message hlength hbuf (by omega)
      rw [takeMessages_of_nil throws hpartial, arrived, if_neg harrived, throwsAt,
        if_neg Bool.false_ne_true, stream, List.flatMap_nil, List.append_nil]
      rfl

end OpenAlice.Ibkr
