import OpenAlice.Ibkr.Reader
import Mathlib.Data.List.Induction

/-!
# What the wire loses

The fields of a list of values are read back as they were printed unless one of them is an object
whose text has a NUL or a lone surrogate in it (`fieldsLossless_iff`): strings are checked, what
`String` makes of an object is not.  The reader hands over every message in its time unless one
of them has no payload (`delivered_iff`): it takes an empty message for one that has not arrived
as a whole, and waits.
-/

namespace OpenAlice.Ibkr

open OpenAlice.Data

/-! ## Fields -/

variable {N : Numbers}

/-- The fields that are sent for these values are read back as they were printed. -/
def FieldsLossless (fields : List (Field N)) : Prop :=
  ∀ sent, fields.mapM Field.make = some sent →
    readFields (Utf8.encode sent.flatten) = sent.map List.dropLast

def Value.IsSafe : Value N → Prop
  | .other text => (0 : UInt16) ∉ text ∧ Utf8.toWellFormed text = text
  | _ => True

section Printable

theorem plain_of_isPrintable {unit : UInt16} (h : isPrintable unit = true) :
    ¬ Utf8.IsHigh unit ∧ ¬ Utf8.IsLow unit ∧ unit ≠ 0 := by
  have hne : ∀ n, unit = .ofNat n → unit.toNat = n % 65536 := by
    rintro n rfl
    exact UInt16.toNat_ofNat'
  simp only [isPrintable, Bool.or_eq_true, Bool.and_eq_true, decide_eq_true_iff, beq_iff_eq] at h
  refine ⟨fun hhigh ↦ ?_, fun hlow ↦ ?_, ?_⟩
  · obtain ⟨h₁, -⟩ := hhigh
    omega
  · obtain ⟨h₁, -⟩ := hlow
    omega
  · intro hzero
    have := hne 0 hzero
    omega

theorem safe_of_printable {text : Text} (h : text.all isPrintable = true) :
    (0 : UInt16) ∉ text ∧ Utf8.toWellFormed text = text := by
  have hall := List.all_eq_true.mp h
  refine ⟨fun hzero ↦ (plain_of_isPrintable (hall 0 hzero)).2.2 rfl, ?_⟩
  exact Utf8.toWellFormed_plain fun unit hunit ↦
    ⟨(plain_of_isPrintable (hall unit hunit)).1, (plain_of_isPrintable (hall unit hunit)).2.1⟩

def OneField (text : Text) : Prop := lines 0 (Utf8.toWellFormed text) = [text]

theorem oneField_iff {text : Text} :
    OneField text ↔ (0 : UInt16) ∉ text ∧ Utf8.toWellFormed text = text := by
  constructor
  · intro h
    have hmem : text ∈ lines 0 (Utf8.toWellFormed text) := by
      rw [h]
      exact List.mem_singleton_self _
    have hsep : (0 : UInt16) ∉ text := notMem_of_mem_lines hmem
    have hjoin := intercalate_lines (0 : UInt16) (Utf8.toWellFormed text)
    rw [h, List.intercalate_singleton] at hjoin
    exact ⟨hsep, hjoin.symm⟩
  · rintro ⟨hsep, hwf⟩
    rw [OneField, hwf, lines_of_notMem hsep]

end Printable

theorem makeField_cases {value : Value N} {sent : Text} (h : makeField value = some sent) :
    ∃ text, sent = text ++ [0] ∧ (OneField text ↔ value.IsSafe) := by
  have printable : ∀ {text : Text}, text.all isPrintable = true → (OneField text ↔ True) :=
    fun htext ↦ iff_true_intro (oneField_iff.mpr (safe_of_printable htext))
  cases value with
  | none => cases h
  | decimal value =>
    cases h
    exact ⟨_, rfl, printable (N.toFixed_printable value)⟩
  | string text =>
    rw [makeField] at h
    split_ifs at h with htext
    cases h
    exact ⟨_, rfl, printable htext⟩
  | boolean value =>
    cases h
    refine ⟨_, rfl, printable ?_⟩
    cases value <;> decide
  | number value =>
    cases h
    exact ⟨_, rfl, printable (N.numberText_printable value)⟩
  | other text =>
    cases h
    exact ⟨_, rfl, oneField_iff⟩

theorem makeFieldHandleEmpty_cases {value : Value N} {sent : Text}
    (h : makeFieldHandleEmpty value = some sent) :
    ∃ text, sent = text ++ [0] ∧ (OneField text ↔ value.IsSafe) := by
  rw [makeFieldHandleEmpty.eq_def] at h
  split at h
  · split_ifs at h <;> have hfound := makeField_cases h <;> exact hfound
  · split_ifs at h <;> have hfound := makeField_cases h <;> exact hfound
  · exact makeField_cases h

theorem Field.make_cases {field : Field N} {sent : Text} (h : field.make = some sent) :
    ∃ text, sent = text ++ [0] ∧ (OneField text ↔ field.value.IsSafe) := by
  cases field with
  | plain value => exact makeField_cases h
  | handleEmpty value => exact makeFieldHandleEmpty_cases h

theorem readFields_texts (texts : List Text) :
    readFields (Utf8.encode (texts.map (· ++ [0])).flatten) =
      texts.flatMap fun text ↦ lines 0 (Utf8.toWellFormed text) := by
  have hzero : ¬ Utf8.IsHigh 0 ∧ ¬ Utf8.IsLow 0 := by decide
  have hlines : lines 0 (Utf8.toWellFormed (texts.map (· ++ [0])).flatten) =
      (texts.flatMap fun text ↦ lines 0 (Utf8.toWellFormed text)) ++ [[]] := by
    induction texts with
    | nil => rfl
    | cons text texts ih =>
      rw [List.map_cons, List.flatten_cons, List.append_assoc, List.singleton_append,
        Utf8.toWellFormed_append_cons hzero.1 hzero.2, lines_append_sep_cons, ih,
        List.flatMap_cons, List.append_assoc]
  rw [readFields, Utf8.decode_encode, hlines, List.dropLast_concat]

theorem flatMap_eq_self_iff {α : Type} {f : α → List α} (hne : ∀ a, f a ≠ []) {l : List α} :
    l.flatMap f = l ↔ ∀ a ∈ l, f a = [a] := by
  have hlength : ∀ l : List α, l.length ≤ (l.flatMap f).length := by
    intro l
    induction l with
    | nil => exact Nat.le_refl _
    | cons a l ih =>
      have := List.length_pos_iff.mpr (hne a)
      rw [List.flatMap_cons, List.length_append, List.length_cons]
      omega
  induction l with
  | nil => exact ⟨fun _ a ha ↦ absurd ha List.not_mem_nil, fun _ ↦ rfl⟩
  | cons a l ih =>
    rw [List.flatMap_cons, List.forall_mem_cons]
    constructor
    · intro h
      obtain ⟨b, rest, hb⟩ := List.exists_cons_of_ne_nil (hne a)
      have hall := congrArg List.length h
      have hrest := hlength l
      rw [hb, List.length_append, List.length_cons, List.length_cons] at hall
      have hnil : rest = [] := List.length_eq_zero_iff.mp (by omega)
      rw [hb, hnil, List.singleton_append] at h
      obtain ⟨hhead, htail⟩ := List.cons.inj h
      exact ⟨by rw [hb, hnil, hhead], ih.mp htail⟩
    · rintro ⟨ha, h⟩
      rw [ha, ih.mpr h, List.singleton_append]

theorem mapM_make_cases {fields : List (Field N)} {sent : List Text}
    (h : fields.mapM Field.make = some sent) :
    ∃ texts : List Text, sent = texts.map (· ++ [0]) ∧
      ((∀ text ∈ texts, OneField text) ↔ ∀ field ∈ fields, field.value.IsSafe) := by
  induction fields generalizing sent with
  | nil =>
    cases h
    exact ⟨[], rfl, by simp⟩
  | cons field fields ih =>
    rw [List.mapM_cons] at h
    obtain ⟨first, hfirst, h⟩ := Option.bind_eq_some_iff.mp h
    obtain ⟨rest, hrest, h⟩ := Option.bind_eq_some_iff.mp h
    cases h
    obtain ⟨text, rfl, htext⟩ := Field.make_cases hfirst
    obtain ⟨texts, rfl, htexts⟩ := ih hrest
    refine ⟨text :: texts, rfl, ?_⟩
    rw [List.forall_mem_cons, List.forall_mem_cons, htext, htexts]

/-- **The fields that come back** are those that were printed if and only if every value is
safe. -/
theorem fieldsLossless_iff {fields : List (Field N)} {sent : List Text}
    (h : fields.mapM Field.make = some sent) :
    FieldsLossless fields ↔ ∀ field ∈ fields, field.value.IsSafe := by
  obtain ⟨texts, rfl, hsafe⟩ := mapM_make_cases h
  have hprinted : (texts.map (· ++ [0])).map List.dropLast = texts := by
    rw [List.map_map]
    exact List.map_id'' (fun text ↦ List.dropLast_concat) texts
  have hread : FieldsLossless fields ↔
      (texts.flatMap fun text ↦ lines 0 (Utf8.toWellFormed text)) = texts := by
    constructor
    · intro hlossless
      rw [← readFields_texts, hlossless _ h, hprinted]
    intro hall sent hsent
    rw [h] at hsent
    cases hsent
    rw [readFields_texts, hall, hprinted]
  rw [hread, flatMap_eq_self_iff fun text ↦ lines_ne_nil _ _, ← hsafe]
  exact Iff.rfl

/-! ## Messages -/

variable (throws : Callback)

/-- The messages of a stream are handed over: whenever a chunk has come, and the callback has not
thrown before it, all messages whose last byte has come, up to the first at which the callback
throws; nothing that was in the buffer then is kept. -/
def Delivered (messages chunks : List Bytes) : Prop :=
  ∀ before chunk after, chunks = before ++ chunk :: after →
    throwsAt throws [] (arrived before.flatten.length messages) = false →
    let now := arrived (before ++ [chunk]).flatten.length messages
    (readChunks throws (before ++ [chunk])).handed = untilThrow throws [] now ∧
      (throwsAt throws [] now = true → (readChunks throws (before ++ [chunk])).buf = [])

section Reading

variable {throws} {messages after : List Bytes}

structure Reading (messages : List Bytes) (chunks : List Bytes) (reader : Reader) : Prop where
  rest : ∃ rest, messages = reader.handed ++ rest ∧ arrived reader.buf.length rest = []
  bytes : chunks.flatten = stream reader.handed ++ reader.buf

theorem Reading.initial : Reading messages [] .initial := by
  refine ⟨⟨messages, rfl, ?_⟩, rfl⟩
  cases messages with
  | nil => rfl
  | cons message messages => rw [arrived, if_neg (by simp [Reader.initial])]

theorem Reading.handed_eq {chunks : List Bytes} {reader : Reader}
    (h : Reading messages chunks reader) :
    reader.handed = arrived chunks.flatten.length messages := by
  obtain ⟨rest, hmessages, hrest⟩ := h.rest
  rw [h.bytes, List.length_append, hmessages, arrived_append, hrest, List.append_nil]

theorem Reading.step {chunks : List Bytes} {reader : Reader} {chunk tail : Bytes}
    (h : Reading messages chunks reader) (hwaits : Waits after)
    (hsize : ∀ message ∈ messages, message.length < 4294967296)
    (hstream : (chunks ++ [chunk]).flatten ++ tail = stream (messages ++ after))
    (hnonempty : ∀ message ∈ untilThrow throws [] messages, message ≠ [])
    (hquiet : throwsAt throws [] (arrived chunks.flatten.length messages) = false) :
    (throwsAt throws [] (arrived (chunks ++ [chunk]).flatten.length messages) = true →
      processData throws reader chunk =
        ⟨[], untilThrow throws [] (arrived (chunks ++ [chunk]).flatten.length messages)⟩) ∧
    (throwsAt throws [] (arrived (chunks ++ [chunk]).flatten.length messages) = false →
      Reading messages (chunks ++ [chunk]) (processData throws reader chunk)) := by
  obtain ⟨buf, handed⟩ := reader
  obtain ⟨rest, hmessages, hrest⟩ := h.rest
  have hhanded := h.handed_eq
  have hbytes := h.bytes
  dsimp only at hmessages hrest hhanded hbytes
  rw [← hhanded] at hquiet
  have hflatten : (chunks ++ [chunk]).flatten = stream handed ++ (buf ++ chunk) := by
    rw [List.flatten_append, List.flatten_singleton, hbytes, List.append_assoc]
  have hnow : arrived (chunks ++ [chunk]).flatten.length messages =
      handed ++ arrived (buf ++ chunk).length rest := by
    rw [hflatten, List.length_append, hmessages, arrived_append]
  have hthrows : throwsAt throws [] (handed ++ arrived (buf ++ chunk).length rest) =
      throwsAt throws handed (arrived (buf ++ chunk).length rest) := by
    rw [throwsAt_append, hquiet, Bool.false_or, List.nil_append]
  rw [hnow, hthrows]
  by_cases hchunk : chunk = []
  · subst hchunk
    rw [List.append_nil, hrest]
    refine ⟨fun hthrow ↦ absurd hthrow Bool.false_ne_true, fun _ ↦ ?_⟩
    refine ⟨⟨rest, hmessages, hrest⟩, ?_⟩
    rw [hflatten, List.append_nil]
    rfl
  · have hbuf : buf ++ chunk ++ tail = stream (rest ++ after) := by
      rw [hflatten, hmessages, List.append_assoc handed, stream_append, List.append_assoc,
        List.append_cancel_left_eq] at hstream
      exact hstream
    have hlater : ∀ message ∈ untilThrow throws handed rest, message ≠ [] := by
      intro message hmem
      refine hnonempty message ?_
      rw [hmessages, untilThrow_append hquiet]
      exact List.mem_append_right _ hmem
    have hsizes : ∀ message ∈ rest, message.length < 4294967296 := by
      intro message hmem
      exact hsize message (by rw [hmessages]; exact List.mem_append_right _ hmem)
    have hdeliver := deliver_frames throws hwaits hsizes hbuf hlater (Nat.le_refl _)
    have hprocess : processData throws ⟨buf, handed⟩ chunk =
        takeMessages throws (buf ++ chunk).length ⟨buf ++ chunk, handed⟩ := by
      rw [processData, if_neg (by rwa [List.isEmpty_iff])]
    rw [hprocess, hdeliver]
    constructor
    · intro hthrow
      rw [if_pos hthrow, untilThrow_append hquiet]
      rfl
    intro hno
    rw [if_neg (by rw [hno]; exact Bool.false_ne_true)]
    obtain ⟨left, hleft, hshort, hnone⟩ := arrived_rest (buf ++ chunk).length rest
    refine ⟨⟨left, ?_, ?_⟩, ?_⟩
    · rw [List.append_assoc, ← hleft, hmessages]
    · rw [List.length_drop]
      exact hnone
    · have htake : (buf ++ chunk).take (stream (arrived (buf ++ chunk).length rest)).length =
          stream (arrived (buf ++ chunk).length rest) := by
        have h₁ : (buf ++ chunk ++ tail).take
            (stream (arrived (buf ++ chunk).length rest)).length =
            (buf ++ chunk).take (stream (arrived (buf ++ chunk).length rest)).length :=
          List.take_append_of_le_length hshort
        have h₂ : stream (rest ++ after) =
            stream (arrived (buf ++ chunk).length rest) ++ stream (left ++ after) := by
          rw [← stream_append, ← List.append_assoc, ← hleft]
        rw [← h₁, hbuf, h₂, List.take_left]
      rw [hflatten, stream_append, List.append_assoc, List.append_cancel_left_eq]
      conv_lhs => rw [← List.take_append_drop
        (stream (arrived (buf ++ chunk).length rest)).length (buf ++ chunk)]
      rw [htake]

theorem readChunks_reading {chunks : List Bytes} {tail : Bytes} (hwaits : Waits after)
    (hsize : ∀ message ∈ messages, message.length < 4294967296)
    (hstream : chunks.flatten ++ tail = stream (messages ++ after))
    (hnonempty : ∀ message ∈ untilThrow throws [] messages, message ≠ [])
    (hquiet : throwsAt throws [] (arrived chunks.flatten.length messages) = false) :
    Reading messages chunks (readChunks throws chunks) := by
  induction chunks using List.reverseRecOn generalizing tail with
  | nil => exact .initial
  | append_singleton chunks chunk ih =>
    have hbefore : throwsAt throws [] (arrived chunks.flatten.length messages) = false := by
      obtain ⟨more, hmore⟩ := arrived_mono messages
        (show chunks.flatten.length ≤ (chunks ++ [chunk]).flatten.length by simp)
      rw [hmore, throwsAt_append, Bool.or_eq_false_iff] at hquiet
      exact hquiet.1
    have hearlier : chunks.flatten ++ (chunk ++ tail) = stream (messages ++ after) := by
      rw [← hstream, List.flatten_append, List.flatten_singleton, List.append_assoc]
    have hstep := ((ih hearlier hbefore).step hwaits hsize hstream hnonempty hbefore).2 hquiet
    rw [readChunks, List.foldl_append, List.foldl_cons, List.foldl_nil, ← readChunks]
    exact hstep

end Reading

theorem exists_empty {before messages : List Bytes} (h : [] ∈ untilThrow throws before messages) :
    ∃ pre post, messages = pre ++ [] :: post ∧ throwsAt throws before pre = false ∧
      ∀ message ∈ pre, message ≠ [] := by
  induction messages generalizing before with
  | nil => cases h
  | cons message rest ih =>
    by_cases hempty : message = []
    · subst hempty
      exact ⟨[], rest, rfl, rfl, fun m hm ↦ absurd hm List.not_mem_nil⟩
    rw [untilThrow] at h
    split_ifs at h with hthrows
    · exact absurd (List.mem_singleton.mp h).symm hempty
    obtain ⟨pre, post, rfl, hquiet, hpre⟩ :=
      ih ((List.mem_cons.mp h).resolve_left (Ne.symm hempty))
    refine ⟨message :: pre, post, rfl, ?_, ?_⟩
    · rw [throwsAt, hquiet, Bool.or_false, Bool.eq_false_iff]
      exact hthrows
    · exact List.forall_mem_cons.mpr ⟨hempty, hpre⟩

theorem exists_chunk {α : Type} {n : Nat} (hpos : 0 < n) {chunks : List (List α)}
    (h : n ≤ chunks.flatten.length) :
    ∃ before chunk after, chunks = before ++ chunk :: after ∧ before.flatten.length < n ∧
      n ≤ (before ++ [chunk]).flatten.length := by
  induction chunks generalizing n with
  | nil =>
    rw [List.flatten_nil, List.length_nil] at h
    omega
  | cons first chunks ih =>
    by_cases hfirst : n ≤ first.length
    · refine ⟨[], first, chunks, rfl, hpos, ?_⟩
      rwa [List.nil_append, List.flatten_singleton]
    rw [List.flatten_cons, List.length_append] at h
    obtain ⟨before, chunk, after, rfl, hlt, hle⟩ :=
      ih (n := n - first.length) (by omega) (by omega)
    refine ⟨first :: before, chunk, after, rfl, ?_, ?_⟩
    · rw [List.flatten_cons, List.length_append]
      omega
    · rw [List.cons_append, List.flatten_cons, List.length_append]
      omega

theorem arrived_before {n : Nat} {pre : List Bytes} (h : n < (stream pre).length + 4)
    (post : List Bytes) : arrived n (pre ++ [] :: post) = arrived n pre := by
  induction pre generalizing n with
  | nil =>
    rw [stream, List.flatMap_nil, List.length_nil] at h
    rw [List.nil_append, arrived, arrived, if_neg]
    rw [List.length_nil]
    omega
  | cons message pre ih =>
    rw [length_stream_cons] at h
    rw [List.cons_append, arrived, arrived]
    split_ifs with harrived
    · rw [ih (by omega)]
    · rfl

theorem throwsAt_arrived {messages : List Bytes} (h : throwsAt throws [] messages = false)
    (n : Nat) : throwsAt throws [] (arrived n messages) = false := by
  obtain ⟨rest, hrest, -⟩ := arrived_rest n messages
  rw [hrest, throwsAt_append, Bool.or_eq_false_iff] at h
  exact h.1

/-- **The messages are handed over** if and only if none of them is empty, up to the first at
which the callback throws. -/
theorem delivered_iff {messages chunks : List Bytes}
    (hsize : ∀ message ∈ messages, message.length < 4294967296)
    (hchunks : chunks.flatten = stream messages) :
    Delivered throws messages chunks ↔ ∀ message ∈ untilThrow throws [] messages, message ≠ [] := by
  constructor
  · rintro hdelivered message hmem rfl
    obtain ⟨pre, post, rfl, hquiet, hpre⟩ := exists_empty throws hmem
    have hlong : (stream pre).length + 4 ≤ chunks.flatten.length := by
      rw [hchunks, stream_append, List.length_append, length_stream_cons, List.length_nil]
      omega
    obtain ⟨before, chunk, after, rfl, hlt, hle⟩ := exists_chunk (by omega) hlong
    have hstart :
        throwsAt throws [] (arrived before.flatten.length (pre ++ [] :: post)) = false := by
      rw [arrived_before hlt]
      exact throwsAt_arrived throws hquiet _
    -- by the claim the empty message is among those that have been handed over
    have hhanded := (hdelivered before chunk after rfl hstart).1
    obtain ⟨k, hk⟩ := Nat.exists_eq_add_of_le hle
    have hnow : arrived (before ++ [chunk]).flatten.length (pre ++ [] :: post) =
        pre ++ [] :: arrived k post := by
      rw [hk, Nat.add_assoc, arrived_append, arrived, List.length_nil, if_pos (by omega)]
      congr 3
      omega
    rw [hnow, untilThrow_append hquiet] at hhanded
    -- but the reader waits at it
    have hreading : Reading pre (before ++ [chunk]) (readChunks throws (before ++ [chunk])) := by
      have hwaits : Waits ([] :: post) := .inr ⟨post, rfl⟩
      have hstream : (before ++ [chunk]).flatten ++ after.flatten = stream (pre ++ [] :: post) := by
        rw [← hchunks, ← List.flatten_append, List.append_assoc, List.singleton_append]
      refine readChunks_reading hwaits ?_ hstream ?_ ?_
      · exact fun m hm ↦ hsize m (List.mem_append_left _ hm)
      · rw [untilThrow_eq_self hquiet]
        exact hpre
      · exact throwsAt_arrived throws hquiet _
    obtain ⟨rest, hrest, -⟩ := hreading.rest
    have hlength := congrArg List.length hrest
    rw [hhanded, List.length_append, List.length_append, untilThrow] at hlength
    split_ifs at hlength <;> simp at hlength <;> omega
  · intro hnonempty before chunk after hsplit hquiet
    have hwaits : Waits ([] : List Bytes) := .inl rfl
    have hstream : (before ++ [chunk]).flatten ++ after.flatten = stream (messages ++ []) := by
      rw [← List.flatten_append, List.append_assoc, List.singleton_append, ← hsplit, hchunks,
        List.append_nil]
    have hearlier : before.flatten ++ (chunk ++ after.flatten) = stream (messages ++ []) := by
      rw [← hstream, List.flatten_append, List.flatten_singleton, List.append_assoc]
    have hreading := readChunks_reading hwaits hsize hearlier hnonempty hquiet
    obtain ⟨hthrow, hno⟩ := hreading.step hwaits hsize hstream hnonempty hquiet
    have hlast : readChunks throws (before ++ [chunk]) =
        processData throws (readChunks throws before) chunk := by
      rw [readChunks, List.foldl_append]
      rfl
    by_cases hnow : throwsAt throws [] (arrived (before ++ [chunk]).flatten.length messages) = true
    · rw [hlast, hthrow hnow]
      exact ⟨rfl, fun _ ↦ rfl⟩
    rw [Bool.not_eq_true] at hnow
    rw [hlast]
    refine ⟨?_, fun hcontra ↦ absurd (hcontra.symm.trans hnow) (by decide)⟩
    rw [(hno hnow).handed_eq, untilThrow_eq_self hnow]

/-! ## The codec -/

theorem printable_digits (n : Nat) :
    ((Nat.toDigits 10 n).map fun c ↦ UInt16.ofNat c.toNat).all isPrintable = true := by
  rw [List.all_map, List.all_eq_true]
  intro c hc
  have hdigit := Nat.isDigit_of_mem_toDigits (by omega) (by omega) hc
  rw [Char.isDigit, Bool.and_eq_true, decide_eq_true_iff, decide_eq_true_iff] at hdigit
  have h₁ : 48 ≤ c.toNat := hdigit.1
  have h₂ : c.toNat ≤ 57 := hdigit.2
  have hunit : (UInt16.ofNat c.toNat).toNat = c.toNat := by
    rw [UInt16.toNat_ofNat']
    omega
  simp only [Function.comp, isPrintable, hunit, Bool.or_eq_true, Bool.and_eq_true,
    decide_eq_true_iff]
  omega

/-- **The codec is lossless** for some values and some messages if and only if every value whose
text is not checked is safe, and no message is empty, up to the first at which the callback
throws. -/
theorem wire_lossless_iff {fields : List (Field N)} {sent : List Text}
    (hsent : fields.mapM Field.make = some sent) {messages chunks : List Bytes}
    (hsize : ∀ message ∈ messages, message.length < 4294967296)
    (hchunks : chunks.flatten = stream messages) :
    (FieldsLossless fields ∧ Delivered throws messages chunks) ↔
      (∀ field ∈ fields, field.value.IsSafe) ∧
        ∀ message ∈ untilThrow throws [] messages, message ≠ [] := by
  rw [fieldsLossless_iff hsent, delivered_iff throws hsize hchunks]

def digitNumbers : Numbers where
  Number := Nat
  Decimal := Nat
  numberText n := (Nat.toDigits 10 n).map fun c ↦ UInt16.ofNat c.toNat
  toFixed n := (Nat.toDigits 10 n).map fun c ↦ UInt16.ofNat c.toNat
  isUnset n := n == 2147483647
  isInfinity _ := false
  isUnsetDecimal _ := false
  numberText_printable := printable_digits
  toFixed_printable := printable_digits

/-- Two fields, one of them empty, in a message that comes in three chunks, and another
message. -/
theorem wire_lossless_iff_twoMessages : (FieldsLossless (N := digitNumbers)
        [.plain (.string [65, 66]), .handleEmpty (.number (2147483647 : Nat))] ∧
      Delivered (fun _ ↦ false) [[65, 66, 0, 0], [67]]
        [[0, 0, 0], [4, 65, 66], [0, 0, 0, 0, 0, 1, 67]]) ↔
      (∀ field ∈ ([.plain (.string [65, 66]), .handleEmpty (.number (2147483647 : Nat))] :
          List (Field digitNumbers)), field.value.IsSafe) ∧
        ∀ message ∈ untilThrow (fun _ ↦ false) [] [[65, 66, 0, 0], [67]], message ≠ [] := by
  have hsent : ([.plain (.string [65, 66]), .handleEmpty (.number (2147483647 : Nat))] :
      List (Field digitNumbers)).mapM Field.make = some [[65, 66, 0], [0]] := rfl
  exact wire_lossless_iff (fun _ ↦ false) hsent (by decide) (by decide)

/-- An empty message, with another one after it, is not handed over, and neither is the other. -/
theorem empty_message_lost :
    ¬ ∀ (N : Numbers) (fields : List (Field N)) (sent : List Text) (throws : Callback)
      (messages chunks : List Bytes), fields.mapM Field.make = some sent →
      (∀ message ∈ messages, message.length < 4294967296) → chunks.flatten = stream messages →
      FieldsLossless fields ∧ Delivered throws messages chunks := by
  intro h
  have hall := (h digitNumbers [] [] (fun _ ↦ false) [[], [65]] [[0, 0, 0, 0, 0, 0, 0, 1, 65]]
    rfl (by decide) (by decide)).2
  have hhanded := (hall [] [0, 0, 0, 0, 0, 0, 0, 1, 65] [] rfl rfl).1
  revert hhanded
  decide

end OpenAlice.Ibkr
