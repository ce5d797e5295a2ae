import OpenAlice.Data.JsonText
import OpenAlice.Workspaces.ProgressPublisher

/-!
# The progress of a turn

`projectTurnProgress` of `src/workspaces/headless-progress.ts`.  Every text of a turn is clipped,
and the oldest blocks are left out until the JSON of the progress fits.  A text is a list of units
of UTF-16; what `JSON.stringify` writes has no lone surrogates, and is a list of characters.
-/

namespace OpenAlice.Workspaces

open OpenAlice.Data OpenAlice.Run

/-! ## JSON -/

/-- `\u` and the four digits of a unit. -/
def escapeLone (unit : UInt16) : List Char :=
  let n := unit.toNat
  ['\\', 'u', Json.hexDigit (n / 4096), Json.hexDigit (n / 256 % 16),
    Json.hexDigit (n / 16 % 16), Json.hexDigit (n % 16)]

def escapeUnit (unit : UInt16) : List Char := Json.escape (Char.ofNat unit.toNat)

/-- A text between quotes, with its lone surrogates escaped. -/
def escapeUnits : List UInt16 → List Char
  | [] => []
  | [unit] => if Utf8.IsHigh unit ∨ Utf8.IsLow unit then escapeLone unit else escapeUnit unit
  | unit :: next :: rest =>
    if Utf8.IsHigh unit then
      if Utf8.IsLow next then Char.ofNat (Utf8.pair unit next) :: escapeUnits rest
      else escapeLone unit ++ escapeUnits (next :: rest)
    else if Utf8.IsLow unit then escapeLone unit ++ escapeUnits (next :: rest)
    else escapeUnit unit ++ escapeUnits (next :: rest)

def quoteUnits (text : List UInt16) : List Char := '"' :: (escapeUnits text ++ ['"'])

/-- `Buffer.byteLength(text, 'utf8')` -/
def byteLength (text : List Char) : Nat := (text.flatMap fun c ↦ Utf8.encodePoint c.toNat).length

/-- A number, as it is written. -/
structure NumberText where
  text : List Char
  isAscii : ∀ c ∈ text, c.toNat < 128
  length_le : text.length ≤ 25

/-! ## Progress -/

def maxProgressBlocks : Nat := 40
def maxProgressPayloadBytes : Nat := 32 * 1024
def maxProgressAssistantBytes : Nat := 4 * 1024
def maxProgressTextBytes : Nat := 4 * 1024
def maxProgressErrorBytes : Nat := 1 * 1024
def maxProgressLabelBytes : Nat := 256

inductive HeadlessProgressToolStatus where
  | running
  | completed
  | failed

inductive HeadlessProgressBlock where
  | text (text : List UInt16)
  | tool (id name : List UInt16) (status : HeadlessProgressToolStatus)
  | error (message : List UInt16)

structure ProgressMetrics where
  textBlocks : NumberText
  toolCalls : NumberText
  toolFailures : NumberText

/-- What the projection reads of a `HeadlessStructuredOutput`. -/
structure StructuredTurn where
  assistantText : Option (List UInt16)
  blocks : List HeadlessProgressBlock
  metrics : ProgressMetrics

structure HeadlessTurnProgress where
  updatedAt : NumberText
  assistantText : Option (List UInt16)
  blocks : List HeadlessProgressBlock
  metrics : ProgressMetrics

def cutAt (encoded : List UInt8) : Nat → Nat
  | 0 => 0
  | at' + 1 =>
    if encoded.getD (at' + 1) 0 &&& 0xC0 = 0x80 then cutAt encoded at' else at' + 1

def clipUtf8 (value : List UInt16) (maxBytes : Nat) : List UInt16 :=
  let encoded := Utf8.encode value
  if encoded.length ≤ maxBytes then value
  else Utf8.decode (encoded.take (cutAt encoded (maxBytes - 3))) ++ [0x2026]

def clipBlock : HeadlessProgressBlock → HeadlessProgressBlock
  | .text text => .text (clipUtf8 text maxProgressTextBytes)
  | .tool id name status =>
    .tool (clipUtf8 id maxProgressLabelBytes) (clipUtf8 name maxProgressLabelBytes) status
  | .error message => .error (clipUtf8 message maxProgressErrorBytes)

def statusName : HeadlessProgressToolStatus → String
  | .running => "running"
  | .completed => "completed"
  | .failed => "failed"

def blockJson : HeadlessProgressBlock → List Char
  | .text text => "\x7b\"type\":\"text\",\"text\":".toList ++ quoteUnits text ++ ['\x7d']
  | .tool id name status =>
    "\x7b\"type\":\"tool\",\"id\":".toList ++ quoteUnits id ++ ",\"name\":".toList ++
      quoteUnits name ++ ",\"status\":".toList ++ Json.quote (statusName status).toList ++ ['\x7d']
  | .error message =>
    "\x7b\"type\":\"error\",\"message\":".toList ++ quoteUnits message ++ ['\x7d']

def metricsJson (metrics : ProgressMetrics) : List Char :=
  "\x7b\"textBlocks\":".toList ++ metrics.textBlocks.text ++ ",\"toolCalls\":".toList ++
    metrics.toolCalls.text ++ ",\"toolFailures\":".toList ++ metrics.toolFailures.text ++ ['\x7d']

/-- The properties of a progress but for `updatedAt`. -/
def restJson (progress : HeadlessTurnProgress) : List Char :=
  "\"assistantText\":".toList ++ (progress.assistantText.map quoteUnits).getD "null".toList ++
    ",\"blocks\":[".toList ++ [','].intercalate (progress.blocks.map blockJson) ++
    "],\"metrics\":".toList ++ metricsJson progress.metrics ++ ['\x7d']

def progressJson (progress : HeadlessTurnProgress) : List Char :=
  "\x7b\"updatedAt\":".toList ++ progress.updatedAt.text ++ [','] ++ restJson progress

def progressFingerprint (progress : HeadlessTurnProgress) : List Char :=
  '\x7b' :: restJson progress

def Oversized (progress : HeadlessTurnProgress) : Prop :=
  maxProgressPayloadBytes < byteLength (progressJson progress)

instance (progress : HeadlessTurnProgress) : Decidable (Oversized progress) :=
  inferInstanceAs (Decidable (_ < _))

def payloadBlocks (build : List HeadlessProgressBlock → HeadlessTurnProgress) :
    List HeadlessProgressBlock → List HeadlessProgressBlock
  | [] => []
  | block :: blocks =>
    if Oversized (build (block :: blocks)) then payloadBlocks build blocks else block :: blocks

def buildProgress (structured : StructuredTurn) (now : NumberText)
    (blocks : List HeadlessProgressBlock) : HeadlessTurnProgress where
  updatedAt := now
  assistantText := structured.assistantText.map (clipUtf8 · maxProgressAssistantBytes)
  blocks := blocks
  metrics := structured.metrics

def blockLimited (blocks : List HeadlessProgressBlock) : List HeadlessProgressBlock :=
  if blocks.length ≤ maxProgressBlocks then blocks
  else blocks.drop (blocks.length - maxProgressBlocks)

def projectTurnProgress (structured : StructuredTurn) (now : NumberText) : HeadlessTurnProgress :=
  buildProgress structured now
    (payloadBlocks (buildProgress structured now) (blockLimited (structured.blocks.map clipBlock)))

/-! ## Lengths -/

theorem length_encodePoint_le (point : Nat) : (Utf8.encodePoint point).length ≤ 4 := by
  rw [Utf8.encodePoint]
  split_ifs <;> simp

theorem byteLength_append (a b : List Char) : byteLength
    (a ++ b) = byteLength a + byteLength b := by
  rw [byteLength, List.flatMap_append, List.length_append]
  rfl

theorem byteLength_cons_le (c : Char) (text : List Char) :
    byteLength (c :: text) ≤ 4 + byteLength text := by
  rw [byteLength, List.flatMap_cons, List.length_append]
  exact Nat.add_le_add_right (length_encodePoint_le c.toNat) _

theorem byteLength_ascii {text : List Char} (h : ∀ c ∈ text, c.toNat < 128) :
    byteLength text = text.length := by
  induction text with
  | nil => rfl
  | cons c text ih =>
    obtain ⟨hc, htext⟩ := List.forall_mem_cons.mp h
    rw [← List.singleton_append, byteLength_append, ih htext, List.length_append]
    simp [byteLength, Utf8.encodePoint, hc]

theorem hexDigit_ascii (n : Nat) : (Json.hexDigit n).toNat < 128 := by
  have hdigits : ∀ c ∈ "0123456789abcdef".toList, c.toNat < 128 := by simp
  rw [Json.hexDigit, List.getD_eq_getElem?_getD]
  cases h : "0123456789abcdef".toList[n]? with
  | none => decide
  | some c => exact hdigits c (List.mem_of_getElem? h)

theorem byteLength_escapeLone (unit : UInt16) : byteLength (escapeLone unit) = 6 := by
  rw [byteLength_ascii]
  · rfl
  · simp [escapeLone, hexDigit_ascii]

theorem byteLength_escape_le (c : Char) : byteLength (Json.escape c) ≤ 6 := by
  rw [Json.escape]
  split
  · rename_i e _
    have hslash : byteLength ['\\'] = 1 := rfl
    have he := byteLength_cons_le e []
    rw [← List.singleton_append, byteLength_append, hslash]
    have hnil : byteLength [] = 0 := rfl
    omega
  · split_ifs
    · rw [byteLength_ascii]
      · rfl
      · simp [hexDigit_ascii]
    · exact (byteLength_cons_le c []).trans (by decide)

theorem byteLength_escapeUnits_le (text : List UInt16) :
    byteLength (escapeUnits text) ≤ 6 * text.length := by
  fun_induction escapeUnits text with
  | case1 => rfl
  | case2 unit => exact (byteLength_escapeLone unit).le
  | case3 unit => exact byteLength_escape_le _
  | case4 unit next rest _ _ ih =>
    have hpair := byteLength_cons_le (Char.ofNat (Utf8.pair unit next)) (escapeUnits rest)
    simp only [List.length_cons]
    omega
  | case5 unit next rest _ _ ih =>
    rw [byteLength_append, byteLength_escapeLone, List.length_cons]
    omega
  | case6 unit next rest _ _ ih =>
    rw [byteLength_append, byteLength_escapeLone, List.length_cons]
    omega
  | case7 unit next rest _ _ ih =>
    have hunit : byteLength (escapeUnit unit) ≤ 6 := byteLength_escape_le _
    rw [byteLength_append, List.length_cons]
    omega

theorem byteLength_quoteUnits_le (text : List UInt16) :
    byteLength (quoteUnits text) ≤ 6 * text.length + 2 := by
  have hquote : byteLength ['"'] = 1 := rfl
  have htext := byteLength_escapeUnits_le text
  rw [quoteUnits, ← List.singleton_append, byteLength_append, byteLength_append, hquote]
  omega

/-! ## Clipped texts -/

theorem length_le_encode (text : List UInt16) : text.length ≤ (Utf8.encode text).length := by
  have hpoint (p : Nat) : 1 ≤ (Utf8.encodePoint p).length := by
    rw [Utf8.encodePoint]
    split_ifs <;> simp
  have hpair (high low : UInt16) : (Utf8.encodePoint (Utf8.pair high low)).length = 4 := by
    have hlarge : 0x10000 ≤ Utf8.pair high low :=
      (Nat.le_add_right _ _).trans (Nat.le_add_right _ _)
    rw [Utf8.encodePoint, if_neg (not_lt.mpr (le_trans (by decide) hlarge)),
      if_neg (not_lt.mpr (le_trans (by decide) hlarge)), if_neg (not_lt.mpr hlarge)]
    rfl
  rw [Utf8.encode]
  fun_induction Utf8.points text with
  | case1 => rfl
  | case2 => exact hpoint Utf8.replacement
  | case3 unit => simpa using hpoint unit.toNat
  | case4 unit next rest _ _ ih =>
    have hlength := hpair unit next
    simp only [List.flatMap_cons, List.length_append, List.length_cons]
    omega
  | case5 unit next rest _ _ ih =>
    have hlength := hpoint Utf8.replacement
    rw [List.flatMap_cons, List.length_append, List.length_cons]
    omega
  | case6 unit next rest _ _ ih =>
    have hlength := hpoint Utf8.replacement
    rw [List.flatMap_cons, List.length_append, List.length_cons]
    omega
  | case7 unit next rest _ _ ih =>
    have hlength := hpoint unit.toNat
    rw [List.flatMap_cons, List.length_append, List.length_cons]
    omega

theorem firstPoint_units (a : UInt8) (rest : List UInt8) :
    (Utf8.firstPoint a rest).1 < 0x10000 ∨ 1 ≤ (Utf8.firstPoint a rest).2 ∧ rest ≠ [] := by
  have ha := a.toNat_lt
  have hreplacement : Utf8.replacement < 0x10000 := by decide
  unfold Utf8.firstPoint
  dsimp only
  split_ifs with hone htwo hthree hfour
  · exact .inl (hone.trans (by decide))
  · split
    · split_ifs
      · exact .inr ⟨le_rfl, List.cons_ne_nil _ _⟩
      · exact .inl hreplacement
    · exact .inl hreplacement
  · fun_cases Utf8.tail₂
    all_goals first | exact .inr ⟨Nat.succ_pos _, List.cons_ne_nil _ _⟩ | exact .inl hreplacement
  · fun_cases Utf8.tail₃
    all_goals first | exact .inr ⟨Nat.succ_pos _, List.cons_ne_nil _ _⟩ | exact .inl hreplacement
  · exact .inl hreplacement

theorem length_units_le (p : Nat) : (Utf8.units p).length ≤ 2 := by
  rw [Utf8.units]
  split_ifs <;> simp

theorem length_pointsFrom_le (skip : Nat) (bytes : List UInt8) :
    ((Utf8.pointsFrom skip bytes).flatMap Utf8.units).length ≤ bytes.length - skip := by
  induction bytes generalizing skip with
  | nil => simp [Utf8.pointsFrom]
  | cons a rest ih =>
    cases skip with
    | zero =>
      have hrest := ih (Utf8.firstPoint a rest).2
      have htwo := length_units_le (Utf8.firstPoint a rest).1
      rw [Utf8.pointsFrom, List.flatMap_cons, List.length_append, List.length_cons]
      rcases firstPoint_units a rest with hone | ⟨hread, hne⟩
      · have hunit : (Utf8.units (Utf8.firstPoint a rest).1).length = 1 := by
          rw [Utf8.units, if_pos hone, List.length_singleton]
        omega
      · have hpos := List.length_pos_iff.mpr hne
        omega
    | succ skip =>
      rw [Utf8.pointsFrom, List.length_cons, Nat.add_sub_add_right]
      exact ih skip

theorem length_decode_le (bytes : List UInt8) : (Utf8.decode bytes).length ≤ bytes.length :=
  length_pointsFrom_le 0 bytes

theorem cutAt_le (encoded : List UInt8) (n : Nat) : cutAt encoded n ≤ n := by
  induction n with
  | zero => rfl
  | succ n ih =>
    rw [cutAt]
    split_ifs
    · exact ih.trans n.le_succ
    · exact le_rfl

theorem length_clipUtf8_le (value : List UInt16) {maxBytes : Nat} (h : 3 ≤ maxBytes) :
    (clipUtf8 value maxBytes).length ≤ maxBytes := by
  rw [clipUtf8]
  split_ifs with hfits
  · exact (length_le_encode value).trans hfits
  have hcut := cutAt_le (Utf8.encode value) (maxBytes - 3)
  have hread := length_decode_le
    ((Utf8.encode value).take (cutAt (Utf8.encode value) (maxBytes - 3)))
  rw [List.length_take] at hread
  rw [List.length_append, List.length_singleton]
  omega

/-! ## The payload -/

theorem blockLimited_newest (blocks : List HeadlessProgressBlock) :
    blockLimited blocks <:+ blocks ∧ (blockLimited blocks).length ≤ maxProgressBlocks ∧
      ∀ later, later <:+ blocks → later.length ≤ maxProgressBlocks →
        later <:+ blockLimited blocks := by
  rw [blockLimited]
  split_ifs with hcount
  · exact ⟨List.suffix_rfl, hcount, fun _ h _ ↦ h⟩
  have hlength : (blocks.drop (blocks.length - maxProgressBlocks)).length =
      maxProgressBlocks := by
    rw [List.length_drop]
    omega
  have hsuffix := List.drop_suffix (blocks.length - maxProgressBlocks) blocks
  exact ⟨hsuffix, hlength.le, fun later h hle ↦
    List.suffix_of_suffix_length_le h hsuffix (hle.trans hlength.ge)⟩

section Payload

variable (build : List HeadlessProgressBlock → HeadlessTurnProgress)

theorem payloadBlocks_suffix (blocks : List HeadlessProgressBlock) :
    payloadBlocks build blocks <:+ blocks := by
  induction blocks with
  | nil => exact List.suffix_rfl
  | cons block blocks ih =>
    rw [payloadBlocks]
    split_ifs
    · exact ih.trans (List.suffix_cons block blocks)
    · exact List.suffix_rfl

variable {build}

theorem payloadBlocks_fits (h : ¬ Oversized (build [])) (blocks : List HeadlessProgressBlock) :
    ¬ Oversized (build (payloadBlocks build blocks)) := by
  induction blocks with
  | nil => exact h
  | cons block blocks ih =>
    rw [payloadBlocks]
    split_ifs with hsize
    · exact ih
    · exact hsize

theorem oversized_of_lt {blocks later : List HeadlessProgressBlock} (hlater : later <:+ blocks)
    (h : (payloadBlocks build blocks).length < later.length) : Oversized (build later) := by
  induction blocks with
  | nil => simp [List.suffix_nil.mp hlater] at h
  | cons block blocks ih =>
    rw [payloadBlocks] at h
    split_ifs at h with hsize
    · rcases List.suffix_cons_iff.mp hlater with rfl | hlater
      · exact hsize
      · exact ih hlater h
    · exact absurd hlater.length_le (by omega)

end Payload

theorem fits_without_blocks (structured : StructuredTurn) (now : NumberText) :
    ¬ Oversized (buildProgress structured now []) := by
  have hnumber (n : NumberText) : byteLength n.text ≤ 25 :=
    (byteLength_ascii n.isAscii).le.trans n.length_le
  have htext : byteLength ((structured.assistantText.map
      (clipUtf8 · maxProgressAssistantBytes)).map quoteUnits |>.getD "null".toList) ≤
        6 * maxProgressAssistantBytes + 2 := by
    cases structured.assistantText with
    | none =>
      have hnull : byteLength "null".toList = 4 := by decide +kernel
      exact hnull.le.trans (by decide)
    | some text =>
      have hclip := length_clipUtf8_le text (show 3 ≤ maxProgressAssistantBytes by decide)
      have hquote := byteLength_quoteUnits_le (clipUtf8 text maxProgressAssistantBytes)
      exact hquote.trans (Nat.add_le_add_right (Nat.mul_le_mul_left 6 hclip) 2)
  have hkeys : byteLength "\x7b\"updatedAt\":".toList + byteLength [','] +
      byteLength "\"assistantText\":".toList + byteLength ",\"blocks\":[".toList +
      byteLength "],\"metrics\":".toList + byteLength "\x7b\"textBlocks\":".toList +
      byteLength ",\"toolCalls\":".toList + byteLength ",\"toolFailures\":".toList +
      2 * byteLength ['\x7d'] + byteLength [] ≤ 200 := by decide +kernel
  have hnow := hnumber now
  have hblocks := hnumber structured.metrics.textBlocks
  have hcalls := hnumber structured.metrics.toolCalls
  have hfailures := hnumber structured.metrics.toolFailures
  have hassistant : maxProgressAssistantBytes = 4096 := rfl
  have hpayload : maxProgressPayloadBytes = 32768 := rfl
  refine not_lt.mpr ?_
  unfold progressJson restJson metricsJson
  simp only [byteLength_append]
  simp only [buildProgress, List.map_nil, List.intercalate_nil]
  omega

structure KeepsNewest (structured : StructuredTurn) (progress : HeadlessTurnProgress) : Prop where
  fits : byteLength (progressJson progress) ≤ maxProgressPayloadBytes
  newest : progress.blocks <:+ structured.blocks.map clipBlock
  count : progress.blocks.length ≤ maxProgressBlocks
  most : ∀ blocks, blocks <:+ structured.blocks.map clipBlock → blocks.length ≤ maxProgressBlocks →
    progress.blocks.length < blocks.length → Oversized { progress with blocks }

theorem projectTurnProgress_keepsNewest (structured : StructuredTurn) (now : NumberText) :
    KeepsNewest structured (projectTurnProgress structured now) := by
  obtain ⟨hsuffix, hcount, hmost⟩ := blockLimited_newest (structured.blocks.map clipBlock)
  have hblocks := payloadBlocks_suffix (buildProgress structured now)
    (blockLimited (structured.blocks.map clipBlock))
  have hfits : ¬ Oversized (projectTurnProgress structured now) :=
    payloadBlocks_fits (fits_without_blocks structured now) _
  refine ⟨Nat.le_of_not_lt hfits, hblocks.trans hsuffix, hblocks.length_le.trans hcount, ?_⟩
  intro blocks h hle hlt
  have hover : Oversized (buildProgress structured now blocks) :=
    oversized_of_lt (hmost blocks h hle) hlt
  exact hover

/-- **Live progress is ordered, complete and bounded.** -/
theorem live_progress : (∀ s, Reach (Publisher.step progressFingerprint) Publisher.publishes {} s →
      Publisher.Ordered progressFingerprint s ∧
        ∀ s', s.step progressFingerprint .resolve = some s' → ∀ flush ∈ s'.flush,
          s'.published.getLast?.map progressFingerprint =
            flush.offered.getLast?.map progressFingerprint) ∧
      ∀ structured now, KeepsNewest structured (projectTurnProgress structured now) := by
  refine ⟨fun s hreach ↦ ?_, projectTurnProgress_keepsNewest⟩
  have hsound : Publisher.Sound progressFingerprint s :=
    hreach.invariant Publisher.Sound.initial fun _ _ _ h hok hst ↦ h.step hok hst
  exact ⟨hsound.ordered, fun _ hst ↦ hsound.resolved hst⟩

end OpenAlice.Workspaces
