import OpenAlice.Data.Json
import OpenAlice.Data.Utf8

/-!
# The texts of JSON values

`stringify` writes a value as `JSON.stringify(value, null, gap)` does.  The text of a value
tells the value, and where it ends: no two values have texts of which one begins the other,
unless they are numbers (`write_inj`).  So whatever reads these texts back can do nothing
but what `read` does, and does not read a text that was cut.
-/

namespace OpenAlice.Data.Json

/-! ## Strings -/

def short (c : Char) : Option Char :=
  if c = '"' then some '"'
  else if c = '\\' then some '\\'
  else if c = '\n' then some 'n'
  else if c = '\r' then some 'r'
  else if c = '\t' then some 't'
  else if c = Char.ofNat 8 then some 'b'
  else if c = Char.ofNat 12 then some 'f'
  else none

def long (c : Char) : Char :=
  if c = 'n' then '\n'
  else if c = 'r' then '\r'
  else if c = 't' then '\t'
  else if c = 'b' then Char.ofNat 8
  else if c = 'f' then Char.ofNat 12
  else c

def hexDigit (n : Nat) : Char := "0123456789abcdef".toList.getD n '0'

def digitValue (c : Char) : Nat := "0123456789abcdef".toList.idxOf c

def escape (c : Char) : List Char :=
  match short c with
  | some e => ['\\', e]
  | none =>
    if c.toNat < 32 then ['\\', 'u', '0', '0', hexDigit (c.toNat / 16), hexDigit (c.toNat % 16)]
    else [c]

/-- The character at the beginning of a text between quotes, and what follows it. -/
def unescape : List Char → Option (Char × List Char)
  | '\\' :: 'u' :: _ :: _ :: a :: b :: rest =>
    some (Char.ofNat (16 * digitValue a + digitValue b), rest)
  | '\\' :: e :: rest => some (long e, rest)
  | c :: rest => some (c, rest)
  | [] => none

def quote (text : List Char) : List Char := '"' :: (text.flatMap escape ++ ['"'])

theorem long_short {c e : Char} (h : short c = some e) : long e = c ∧ e ≠ 'u' := by
  unfold short at h
  split_ifs at h with h₁ h₂ h₃ h₄ h₅ h₆ h₇ <;> cases h <;> subst c <;> decide

theorem hex_control : ∀ n < 32, 16 * digitValue (hexDigit (n / 16)) + digitValue
    (hexDigit (n % 16)) = n := by
  decide

theorem short_eq_none {c : Char} (h : short c = none) : c ≠ '"' ∧ c ≠ '\\' := by
  unfold short at h
  split_ifs at h with h₁ h₂
  exact ⟨h₁, h₂⟩

theorem unescape_plain {c : Char} (h : c ≠ '\\') (rest : List Char) :
    unescape (c :: rest) = some (c, rest) := by
  rw [unescape.eq_def]
  split
  · rename_i heq
    cases heq
    exact absurd rfl h
  · rename_i heq
    cases heq
    exact absurd rfl h
  · rename_i heq
    cases heq
    rfl
  · rename_i heq
    cases heq

theorem unescape_short {e : Char} (h : e ≠ 'u') (rest : List Char) :
    unescape ('\\' :: e :: rest) = some (long e, rest) := by
  rw [unescape.eq_def]
  split
  · rename_i heq
    cases heq
    exact absurd rfl h
  · rename_i heq
    cases heq
    rfl
  · rename_i hne heq
    cases heq
    exact absurd rfl (hne e rest rfl)
  · rename_i heq
    cases heq

theorem unescape_escape (c : Char) (rest : List Char) :
    unescape (escape c ++ rest) = some (c, rest) := by
  unfold escape
  split
  · rename_i e he
    obtain ⟨hlong, hu⟩ := long_short he
    exact (unescape_short hu rest).trans (by rw [hlong])
  rename_i hnone
  split_ifs with hc
  · show some (Char.ofNat _, rest) = _
    rw [hex_control _ hc, Char.ofNat_toNat]
  · exact unescape_plain (short_eq_none hnone).2 rest

theorem escape_ne_quote (c : Char) (rest rest' : List Char) : escape c ++ rest ≠ '"' :: rest' := by
  unfold escape
  split
  · intro h
    cases h
  rename_i hnone
  split_ifs with hc
  · intro h
    cases h
  · intro h
    exact (short_eq_none hnone).1 (List.cons.inj h).1

theorem flatMap_escape_inj {text text' : List Char} {rest rest' : List Char}
    (h : text.flatMap escape ++ '"' :: rest = text'.flatMap escape ++ '"' :: rest') :
    text = text' ∧ rest = rest' := by
  induction text generalizing text' with
  | nil =>
    cases text' with
    | nil => exact ⟨rfl, (List.cons.inj h).2⟩
    | cons c text' =>
      rw [List.flatMap_cons, List.append_assoc] at h
      exact absurd h.symm (escape_ne_quote c _ _)
  | cons c text ih =>
    cases text' with
    | nil =>
      rw [List.flatMap_cons, List.append_assoc] at h
      exact absurd h (escape_ne_quote c _ _)
    | cons c' text' =>
      rw [List.flatMap_cons, List.flatMap_cons, List.append_assoc, List.append_assoc] at h
      have hread := congrArg unescape h
      rw [unescape_escape, unescape_escape] at hread
      obtain ⟨rfl, htail⟩ := Prod.mk.inj (Option.some.inj hread)
      obtain ⟨rfl, hrest⟩ := ih htail
      exact ⟨rfl, hrest⟩

theorem quote_inj {text text' rest rest' : List Char}
    (h : quote text ++ rest = quote text' ++ rest') : text = text' ∧ rest = rest' := by
  simp only [quote, List.cons_append, List.append_assoc, List.nil_append] at h
  exact flatMap_escape_inj (List.cons.inj h).2

/-! ## Values -/

def numeric (c : Char) : Bool :=
  c.isDigit || decide (c = '-') || decide (c = '+') || decide (c = '.') || decide (c = 'e') ||
    decide (c = 'E')

def line (gap depth : Nat) : List Char :=
  if gap = 0 then [] else '\n' :: List.replicate (gap * depth) ' '

def colon (gap : Nat) : List Char := if gap = 0 then [':'] else [':', ' ']

def comma (first : Bool) : List Char := if first then [] else [',']

def close (gap depth : Nat) (empty : Bool) : List Char := if empty then [] else line gap depth

mutual

def write (gap depth : Nat) : Json → List Char
  | .null => ['n', 'u', 'l', 'l']
  | .bool true => ['t', 'r', 'u', 'e']
  | .bool false => ['f', 'a', 'l', 's', 'e']
  | .number text => text.toList
  | .string value => quote value.toList
  | .array items =>
    '[' :: (writeItems gap (depth + 1) true items ++ close gap depth items.isEmpty ++ [']'])
  | .object fields =>
    '\x7b' :: (writeFields gap (depth + 1) true fields ++ close gap depth fields.isEmpty ++
      ['\x7d'])

def writeItems (gap depth : Nat) (first : Bool) : List Json → List Char
  | [] => []
  | item :: rest =>
    comma first ++ line gap depth ++ write gap depth item ++ writeItems gap depth false rest

def writeFields (gap depth : Nat) (first : Bool) : List (String × Json) → List Char
  | [] => []
  | (key, value) :: rest =>
    comma first ++ line gap depth ++ quote key.toList ++ colon gap ++ write gap depth value ++
      writeFields gap depth false rest

end

/-- `JSON.stringify(value, null, gap)` -/
def stringify (gap : Nat) (value : Json) : List Char := write gap 0 value

mutual

def Plain : Json → Prop
  | .number text => text.toList ≠ [] ∧ ∀ c ∈ text.toList, numeric c = true
  | .array items => PlainItems items
  | .object fields => PlainFields fields
  | _ => True

def PlainItems : List Json → Prop
  | [] => True
  | item :: rest => Plain item ∧ PlainItems rest

def PlainFields : List (String × Json) → Prop
  | [] => True
  | (_, value) :: rest => Plain value ∧ PlainFields rest

end

theorem plainItems_iff {items : List Json} : PlainItems items ↔ ∀ item ∈ items, item.Plain := by
  induction items with
  | nil => simp [PlainItems]
  | cons item items ih => rw [PlainItems, ih, List.forall_mem_cons]

theorem plainFields_iff {fields : List (String × Json)} :
    PlainFields fields ↔ ∀ field ∈ fields, field.2.Plain := by
  induction fields with
  | nil => simp [PlainFields]
  | cons field fields ih =>
    obtain ⟨key, value⟩ := field
    rw [PlainFields, ih, List.forall_mem_cons]

theorem plain_number {text : String} {l : List Char} (h : text.toList = l) (hne : l ≠ [])
    (hall : l.all numeric = true) : (number text).Plain :=
  ⟨h ▸ hne, fun c hc ↦ List.all_eq_true.mp hall c (h ▸ hc)⟩

theorem plain_given {key : String} {value : Option Json} (h : ∀ v ∈ value, v.Plain) :
    ∀ field ∈ given key value, field.2.Plain := by
  intro field hfield
  obtain ⟨v, hv, rfl⟩ := Option.map_eq_some_iff.mp (Option.mem_toList.mp hfield)
  exact h v hv

/-! ## A text tells its value -/

def Stops (rest : List Char) : Prop := ∀ c ∈ rest.head?, numeric c = false

/-- What follows the last element: neither a comma nor a character of a number. -/
def Ends (rest : List Char) : Prop := ∃ c t, rest = c :: t ∧ c ≠ ',' ∧ numeric c = false

theorem Ends.stops {rest : List Char} (h : Ends rest) : Stops rest := by
  obtain ⟨c, t, rfl, _, hc⟩ := h
  rintro _ ⟨⟩
  exact hc

def kind : Json → Nat
  | .null => 0
  | .bool _ => 1
  | .number _ => 2
  | .string _ => 3
  | .array _ => 4
  | .object _ => 5

/-- The kind of a value whose text begins with some character. -/
def kindOf (c : Char) : Nat :=
  if c = 'n' then 0
  else if c = 't' ∨ c = 'f' then 1
  else if c = '"' then 3
  else if c = '[' then 4
  else if c = '\x7b' then 5
  else 2

theorem kindOf_numeric {c : Char} (h : numeric c = true) : kindOf c = 2 ∧ c ≠ ']' ∧ c ≠ '\x7d' := by
  have hne : ∀ c', numeric c' = false → c ≠ c' := by
    rintro c' hc' rfl
    rw [h] at hc'
    cases hc'
  refine ⟨?_, hne _ (by decide), hne _ (by decide)⟩
  rw [kindOf, if_neg (hne _ (by decide)), if_neg, if_neg (hne _ (by decide)),
    if_neg (hne _ (by decide)), if_neg (hne _ (by decide))]
  rintro (hc | hc)
  · exact hne 't' (by decide) hc
  · exact hne 'f' (by decide) hc

variable {gap depth : Nat}

theorem write_lead {v : Json} (h : v.Plain) :
    ∃ c t, write gap depth v = c :: t ∧ kindOf c = v.kind ∧ c ≠ ']' ∧ c ≠ '\x7d' := by
  cases v with
  | null => exact ⟨'n', _, rfl, by decide, by decide, by decide⟩
  | bool b =>
    cases b with
    | true => exact ⟨'t', _, rfl, by decide, by decide, by decide⟩
    | false => exact ⟨'f', _, rfl, by decide, by decide, by decide⟩
  | string s => exact ⟨'"', _, rfl, rfl, by decide, by decide⟩
  | array items => exact ⟨'[', _, rfl, rfl, by decide, by decide⟩
  | object fields => exact ⟨'\x7b', _, rfl, rfl, by decide, by decide⟩
  | number text =>
    obtain ⟨hne, hall⟩ := h
    cases htext : text.toList with
    | nil => exact absurd htext hne
    | cons c t =>
      exact ⟨c, t, htext, kindOf_numeric (hall c (htext ▸ List.mem_cons_self))⟩

theorem append_inj_of_all {p : Char → Bool} {l l' rest rest' : List Char}
    (hl : ∀ c ∈ l, p c = true) (hl' : ∀ c ∈ l', p c = true)
    (hrest : ∀ c ∈ rest.head?, p c = false) (hrest' : ∀ c ∈ rest'.head?, p c = false)
    (h : l ++ rest = l' ++ rest') : l = l' ∧ rest = rest' := by
  induction l generalizing l' with
  | nil =>
    cases l' with
    | nil => exact ⟨rfl, h⟩
    | cons c l' =>
      rw [List.nil_append, List.cons_append] at h
      have hc := hrest c (h ▸ rfl)
      rw [hl' c List.mem_cons_self] at hc
      cases hc
  | cons c l ih =>
    cases l' with
    | nil =>
      rw [List.nil_append, List.cons_append] at h
      have hc := hrest' c (h ▸ rfl)
      rw [hl c List.mem_cons_self] at hc
      cases hc
    | cons c' l' =>
      obtain ⟨rfl, htail⟩ := List.cons.inj h
      obtain ⟨rfl, hrests⟩ := ih (fun c hc ↦ hl c (List.mem_cons_of_mem _ hc))
        (fun c hc ↦ hl' c (List.mem_cons_of_mem _ hc)) htail
      exact ⟨rfl, hrests⟩

theorem ends_line {c : Char} (hc : c ≠ ',') (hn : numeric c = false) (rest : List Char) :
    Ends (line gap depth ++ c :: rest) := by
  unfold line
  split_ifs
  · exact ⟨c, rest, rfl, hc, hn⟩
  · exact ⟨'\n', _, rfl, by decide, by decide⟩

theorem ne_line {c : Char} {rest text : List Char} (hc : c ≠ '\n') (h : text.head? ≠ some c) :
    c :: rest ≠ line gap depth ++ text := by
  unfold line
  intro heq
  split_ifs at heq
  · rw [List.nil_append] at heq
    exact h (heq ▸ rfl)
  · exact hc (List.cons.inj heq).1

theorem ne_item {v : Json} (h : v.Plain) (rest rest' : List Char) :
    ']' :: rest ≠ line gap depth ++ (write gap depth v ++ rest') := by
  obtain ⟨c, t, hw, _, hc, _⟩ := (write_lead h : ∃ c t, write gap depth v = c :: t ∧ _)
  refine ne_line (by decide) ?_
  rw [hw]
  intro heq
  exact hc (Option.some.inj heq)

theorem ne_field (key rest rest' : List Char) :
    '\x7d' :: rest ≠ line gap depth ++ (quote key ++ rest') := by
  refine ne_line (by decide) ?_
  intro heq
  cases heq

theorem stops_items {items : List Json} {rest : List Char} (h : Ends rest) :
    Stops (writeItems gap depth false items ++ rest) := by
  cases items with
  | nil => exact h.stops
  | cons item items =>
    rintro _ ⟨⟩
    decide

theorem stops_fields {fields : List (String × Json)} {rest : List Char} (h : Ends rest) :
    Stops (writeFields gap depth false fields ++ rest) := by
  cases fields with
  | nil => exact h.stops
  | cons field fields =>
    rintro _ ⟨⟩
    decide

theorem ends_ne_comma {rest rest' : List Char} (h : Ends rest) : rest ≠ ',' :: rest' := by
  obtain ⟨c, t, rfl, hc, _⟩ := h
  rintro heq
  exact hc (List.cons.inj heq).1

mutual

/-- **The text of a value tells the value, and where it ends.** -/
theorem write_inj {gap depth : Nat} : ∀ (v v' : Json) {rest rest' : List Char}, v.Plain → v'.Plain →
    (v.kind = 2 → Stops rest) → (v'.kind = 2 → Stops rest') →
    write gap depth v ++ rest = write gap depth v' ++ rest' → v = v' ∧ rest = rest'
  | v, v', rest, rest', hv, hv', hrest, hrest', h => by
    have hkind : v.kind = v'.kind := by
      obtain ⟨c, t, hw, hk, _⟩ := (write_lead hv : ∃ c t, write gap depth v = c :: t ∧ _)
      obtain ⟨c', t', hw', hk', _⟩ := (write_lead hv' : ∃ c t, write gap depth v' = c :: t ∧ _)
      rw [hw, hw'] at h
      rw [← hk, ← hk', (List.cons.inj h).1]
    cases v with
    | null =>
      cases v' with
      | null => exact ⟨rfl, List.append_cancel_left h⟩
      | _ => cases hkind
    | bool b =>
      cases v' with
      | bool b' =>
        cases b <;> cases b'
        · exact ⟨rfl, List.append_cancel_left h⟩
        · cases h
        · cases h
        · exact ⟨rfl, List.append_cancel_left h⟩
      | _ => cases hkind
    | number text =>
      cases v' with
      | number text' =>
        obtain ⟨htext, hrests⟩ := append_inj_of_all hv.2 hv'.2 (hrest rfl) (hrest' rfl) h
        exact ⟨congrArg number (String.toList_inj.mp htext), hrests⟩
      | _ => cases hkind
    | string text =>
      cases v' with
      | string text' =>
        obtain ⟨htext, hrests⟩ := quote_inj h
        exact ⟨congrArg string (String.toList_inj.mp htext), hrests⟩
      | _ => cases hkind
    | array items =>
      cases v' with
      | array items' =>
        simp only [write, List.cons_append, List.append_assoc, List.nil_append,
          List.cons.injEq, true_and] at h
        cases items with
        | nil =>
          cases items' with
          | nil => exact ⟨rfl, (List.cons.inj h).2⟩
          | cons item' items' =>
            simp only [writeItems, comma, List.append_assoc] at h
            exact absurd h (ne_item hv'.1 _ _)
        | cons item items =>
          cases items' with
          | nil =>
            simp only [writeItems, comma, List.append_assoc] at h
            exact absurd h.symm (ne_item hv.1 _ _)
          | cons item' items' =>
            have hend : ∀ rest, Ends (line gap depth ++ ']' :: rest) :=
              ends_line (by decide) (by decide)
            simp only [writeItems, comma, List.append_assoc] at h
            obtain ⟨rfl, htail⟩ := write_inj item item' hv.1 hv'.1
              (fun _ ↦ stops_items (hend rest)) (fun _ ↦ stops_items (hend rest'))
              (List.append_cancel_left h)
            obtain ⟨rfl, hrests⟩ := writeItems_inj items items' hv.2 hv'.2 (hend rest)
              (hend rest') htail
            exact ⟨rfl, (List.cons.inj (List.append_cancel_left hrests)).2⟩
      | _ => cases hkind
    | object fields =>
      cases v' with
      | object fields' =>
        simp only [write, List.cons_append, List.append_assoc, List.nil_append,
          List.cons.injEq, true_and] at h
        cases fields with
        | nil =>
          cases fields' with
          | nil => exact ⟨rfl, (List.cons.inj h).2⟩
          | cons field' fields' =>
            obtain ⟨key', v'⟩ := field'
            simp only [writeFields, comma, List.append_assoc] at h
            exact absurd h (ne_field _ _ _)
        | cons field fields =>
          obtain ⟨key, v⟩ := field
          cases fields' with
          | nil =>
            simp only [writeFields, comma, List.append_assoc] at h
            exact absurd h.symm (ne_field _ _ _)
          | cons field' fields' =>
            obtain ⟨key', v'⟩ := field'
            have hend : ∀ rest, Ends (line gap depth ++ '\x7d' :: rest) :=
              ends_line (by decide) (by decide)
            simp only [writeFields, comma, List.append_assoc] at h
            obtain ⟨hkey, hvalue⟩ := quote_inj (List.append_cancel_left h)
            cases String.toList_inj.mp hkey
            obtain ⟨rfl, htail⟩ := write_inj v v' hv.1 hv'.1
              (fun _ ↦ stops_fields (hend rest)) (fun _ ↦ stops_fields (hend rest'))
              (List.append_cancel_left hvalue)
            obtain ⟨rfl, hrests⟩ := writeFields_inj fields fields' hv.2 hv'.2 (hend rest)
              (hend rest') htail
            exact ⟨rfl, (List.cons.inj (List.append_cancel_left hrests)).2⟩
      | _ => cases hkind

theorem writeItems_inj {gap depth : Nat} : ∀ (items items' : List Json) {rest rest' : List Char},
    PlainItems items → PlainItems items' → Ends rest → Ends rest' →
    writeItems gap depth false items ++ rest = writeItems gap depth false items' ++ rest' →
    items = items' ∧ rest = rest'
  | [], [], _, _, _, _, _, _, h => ⟨rfl, h⟩
  | [], _ :: _, _, _, _, _, hrest, _, h => absurd h (ends_ne_comma hrest)
  | _ :: _, [], _, _, _, _, _, hrest', h => absurd h.symm (ends_ne_comma hrest')
  | item :: items, item' :: items', _, _, hp, hp', hrest, hrest', h => by
    simp only [writeItems, comma, List.append_assoc, Bool.false_eq_true, if_false,
      List.cons_append, List.nil_append, List.cons.injEq, true_and] at h
    obtain ⟨rfl, htail⟩ := write_inj item item' hp.1 hp'.1 (fun _ ↦ stops_items hrest)
      (fun _ ↦ stops_items hrest') (List.append_cancel_left h)
    obtain ⟨rfl, hrests⟩ := writeItems_inj items items' hp.2 hp'.2 hrest hrest' htail
    exact ⟨rfl, hrests⟩

theorem writeFields_inj {gap depth : Nat} :
    ∀ (fields fields' : List (String × Json)) {rest rest' : List Char},
    PlainFields fields → PlainFields fields' → Ends rest → Ends rest' →
    writeFields gap depth false fields ++ rest = writeFields gap depth false fields' ++ rest' →
    fields = fields' ∧ rest = rest'
  | [], [], _, _, _, _, _, _, h => ⟨rfl, h⟩
  | [], _ :: _, _, _, _, _, hrest, _, h => absurd h (ends_ne_comma hrest)
  | _ :: _, [], _, _, _, _, _, hrest', h => absurd h.symm (ends_ne_comma hrest')
  | (key, v) :: fields, (key', v') :: fields', _, _, hp, hp', hrest, hrest', h => by
    simp only [writeFields, comma, List.append_assoc, Bool.false_eq_true, if_false,
      List.cons_append, List.nil_append, List.cons.injEq, true_and] at h
    obtain ⟨hkey, hvalue⟩ := quote_inj (List.append_cancel_left h)
    cases String.toList_inj.mp hkey
    obtain ⟨rfl, htail⟩ := write_inj v v' hp.1 hp'.1 (fun _ ↦ stops_fields hrest)
      (fun _ ↦ stops_fields hrest') (List.append_cancel_left hvalue)
    obtain ⟨rfl, hrests⟩ := writeFields_inj fields fields' hp.2 hp'.2 hrest hrest' htail
    exact ⟨rfl, hrests⟩

end

/-! ## Bytes -/

def bytesOf (text : List Char) : List UInt8 := text.flatMap fun c ↦ Utf8.encodePoint c.toNat

theorem isScalar_toNat (c : Char) : Utf8.IsScalar c.toNat := by
  rcases c.valid with h | h
  · exact .inl h
  · exact .inr ⟨h.1, h.2⟩

theorem decodePoints_bytesOf (text : List Char) (rest : List UInt8) :
    Utf8.decodePoints (bytesOf text ++ rest) = text.map Char.toNat ++ Utf8.decodePoints rest := by
  induction text with
  | nil => rfl
  | cons c text ih =>
    rw [bytesOf, List.flatMap_cons, List.append_assoc,
      Utf8.decodePoints_encodePoint (isScalar_toNat c)]
    exact congrArg (c.toNat :: ·) ih

theorem begins_of_bytesOf {text text' : List Char} (h : bytesOf text <+: bytesOf text') :
    text <+: text' := by
  obtain ⟨rest, hrest⟩ := h
  have hpoints := congrArg Utf8.decodePoints hrest
  rw [decodePoints_bytesOf] at hpoints
  have hall := decodePoints_bytesOf text' []
  rw [List.append_nil] at hall
  rw [hall] at hpoints
  have hbegins : text.map Char.toNat <+: text'.map Char.toNat := by
    refine ⟨Utf8.decodePoints rest, hpoints.trans ?_⟩
    exact List.append_nil _
  exact (List.prefix_map_iff_of_injective fun _ _ ↦ Char.toNat_inj.mp).mp hbegins

def bytes (gap : Nat) (v : Json) : List UInt8 := bytesOf (stringify gap v)

theorem bytes_inj {v v' : Json} (hv : v.Plain) (hv' : v'.Plain)
    (h : bytes gap v = bytes gap v') : v = v' := by
  have hwhole : write gap 0 v ++ [] = write gap 0 v' ++ [] := by
    obtain ⟨rest, hrest⟩ := begins_of_bytesOf (h ▸ List.prefix_refl _ : bytes gap v <+: bytes gap v')
    obtain ⟨rest', hrest'⟩ :=
      begins_of_bytesOf (h ▸ List.prefix_refl _ : bytes gap v' <+: bytes gap v)
    have hlen := congrArg List.length hrest
    have hlen' := congrArg List.length hrest'
    rw [List.length_append] at hlen hlen'
    have hnil : rest = [] := List.eq_nil_of_length_eq_zero (by omega)
    rw [hnil] at hrest
    exact hrest.trans (List.append_nil _).symm
  have stops : Stops [] := by
    rintro _ ⟨⟩
  exact (write_inj v v' hv hv' (fun _ ↦ stops) (fun _ ↦ stops) hwhole).1

open Classical in
/-- `JSON.parse`, as far as it reads what was written. -/
noncomputable def read (gap : Nat) (text : List UInt8) : Option Json :=
  if h : ∃ v : Json, v.Plain ∧ bytes gap v = text then some h.choose else none

theorem read_bytes {v : Json} (h : v.Plain) : read gap (bytes gap v) = some v := by
  have hex : ∃ v' : Json, v'.Plain ∧ bytes gap v' = bytes gap v := ⟨v, h, rfl⟩
  rw [read, dif_pos hex, bytes_inj hex.choose_spec.1 h hex.choose_spec.2]

end OpenAlice.Data.Json
