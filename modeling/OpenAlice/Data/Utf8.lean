import Mathlib.Data.List.Basic

/-!
# Texts in UTF-16 and in UTF-8

A text is a list of units of UTF-16, as in JavaScript, where a surrogate may stand alone.
`encode` writes it in UTF-8 with U+FFFD for every lone surrogate; `decode` reads bytes back, with
U+FFFD for every longest part of a sequence that breaks off.  What has been encoded decodes to
itself when no surrogate is alone (`decode_encode`).

Nothing here knows what the texts are.
-/

namespace OpenAlice.Data.Utf8

/-! ## Points -/

def replacement : Nat := 0xFFFD

def IsHigh (unit : UInt16) : Prop := 0xD800 ≤ unit.toNat ∧ unit.toNat < 0xDC00

def IsLow (unit : UInt16) : Prop := 0xDC00 ≤ unit.toNat ∧ unit.toNat < 0xE000

instance (unit : UInt16) : Decidable (IsHigh unit) := inferInstanceAs (Decidable (_ ∧ _))

instance (unit : UInt16) : Decidable (IsLow unit) := inferInstanceAs (Decidable (_ ∧ _))

def pair (high low : UInt16) : Nat :=
  0x10000 + (high.toNat - 0xD800) * 0x400 + (low.toNat - 0xDC00)

def points : List UInt16 → List Nat
  | [] => []
  | [unit] => if IsHigh unit ∨ IsLow unit then [replacement] else [unit.toNat]
  | unit :: next :: rest =>
    if IsHigh unit then
      if IsLow next then pair unit next :: points rest
      else replacement :: points (next :: rest)
    else if IsLow unit then replacement :: points (next :: rest)
    else unit.toNat :: points (next :: rest)

def units (point : Nat) : List UInt16 :=
  if point < 0x10000 then [.ofNat point]
  else [.ofNat (0xD800 + (point - 0x10000) / 0x400), .ofNat (0xDC00 + (point - 0x10000) % 0x400)]

def toWellFormed (text : List UInt16) : List UInt16 := (points text).flatMap units

def IsScalar (point : Nat) : Prop := point < 0xD800 ∨ 0xE000 ≤ point ∧ point < 0x110000

/-! ## Bytes -/

def encodePoint (point : Nat) : List UInt8 :=
  if point < 0x80 then [.ofNat point]
  else if point < 0x800 then [.ofNat (0xC0 + point / 64), .ofNat (0x80 + point % 64)]
  else if point < 0x10000 then
    [.ofNat (0xE0 + point / 4096), .ofNat (0x80 + point / 64 % 64), .ofNat (0x80 + point % 64)]
  else
    [.ofNat (0xF0 + point / 262144), .ofNat (0x80 + point / 4096 % 64),
      .ofNat (0x80 + point / 64 % 64), .ofNat (0x80 + point % 64)]

def encode (text : List UInt16) : List UInt8 := (points text).flatMap encodePoint

def within (lower upper : Nat) (byte : UInt8) : Bool :=
  lower ≤ byte.toNat && byte.toNat ≤ upper

def second (first : Nat) : Nat × Nat :=
  if first = 0xE0 then (0xA0, 0xBF)
  else if first = 0xED then (0x80, 0x9F)
  else if first = 0xF0 then (0x90, 0xBF)
  else if first = 0xF4 then (0x80, 0x8F)
  else (0x80, 0xBF)

def bits (byte : UInt8) : Nat := byte.toNat - 0x80

/-- Two bytes that continue a sequence, with the number of them that belong to it. -/
def tail₂ (first : Nat) (point : UInt8 → UInt8 → Nat) : List UInt8 → Nat × Nat
  | b :: rest =>
    if within (second first).1 (second first).2 b then
      match rest with
      | c :: _ => if within 0x80 0xBF c then (point b c, 2) else (replacement, 1)
      | [] => (replacement, 1)
    else (replacement, 0)
  | [] => (replacement, 0)

/-- Three bytes that continue a sequence, with the number of them that belong to it. -/
def tail₃ (first : Nat) (point : UInt8 → UInt8 → UInt8 → Nat) : List UInt8 → Nat × Nat
  | b :: rest =>
    if within (second first).1 (second first).2 b then
      match rest with
      | c :: rest =>
        if within 0x80 0xBF c then
          match rest with
          | d :: _ => if within 0x80 0xBF d then (point b c d, 3) else (replacement, 2)
          | [] => (replacement, 2)
        else (replacement, 1)
      | [] => (replacement, 1)
    else (replacement, 0)
  | [] => (replacement, 0)

/-- The point that begins with a byte, and how many of the bytes after it belong to it. -/
def firstPoint (a : UInt8) (rest : List UInt8) : Nat × Nat :=
  let n := a.toNat
  if n < 0x80 then (n, 0)
  else if 0xC2 ≤ n ∧ n ≤ 0xDF then
    match rest with
    | b :: _ => if within 0x80 0xBF b then ((n - 0xC0) * 64 + bits b, 1) else (replacement, 0)
    | [] => (replacement, 0)
  else if 0xE0 ≤ n ∧ n ≤ 0xEF then
    tail₂ n (fun b c ↦ (n - 0xE0) * 4096 + bits b * 64 + bits c) rest
  else if 0xF0 ≤ n ∧ n ≤ 0xF4 then
    tail₃ n (fun b c d ↦ (n - 0xF0) * 262144 + bits b * 4096 + bits c * 64 + bits d) rest
  else (replacement, 0)

/-- The points of some bytes, after a number of bytes that have been read. -/
def pointsFrom : Nat → List UInt8 → List Nat
  | _, [] => []
  | skip + 1, _ :: rest => pointsFrom skip rest
  | 0, a :: rest => (firstPoint a rest).1 :: pointsFrom (firstPoint a rest).2 rest

def decodePoints (bytes : List UInt8) : List Nat := pointsFrom 0 bytes

def decode (bytes : List UInt8) : List UInt16 := (decodePoints bytes).flatMap units

/-! ## Round trip -/

theorem toNat_ofNat {n : Nat} (h : n < 256) : (UInt8.ofNat n).toNat = n := by
  rw [UInt8.toNat_ofNat']
  exact Nat.mod_eq_of_lt h

theorem within_ofNat {lower upper n : Nat} (h : n < 256) (hlower : lower ≤ n) (hupper : n ≤ upper) :
    within lower upper (.ofNat n) = true := by
  rw [within, toNat_ofNat h, Bool.and_eq_true, decide_eq_true_iff, decide_eq_true_iff]
  exact ⟨hlower, hupper⟩

theorem bits_ofNat {n : Nat} (h : n < 64) : bits (.ofNat (0x80 + n)) = n := by
  have hbyte := toNat_ofNat (show 0x80 + n < 256 by omega)
  unfold bits
  omega

theorem pointsFrom_append (read rest : List UInt8) :
    pointsFrom read.length (read ++ rest) = pointsFrom 0 rest := by
  induction read with
  | nil => rfl
  | cons a read ih => exact ih

theorem decodePoints_encodePoint {point : Nat} (h : IsScalar point) (rest : List UInt8) :
    decodePoints (encodePoint point ++ rest) = point :: decodePoints rest := by
  have hmax : point < 0x110000 := by rcases h with h | h <;> omega
  -- It is enough that the first byte and those after it are read as this point.
  suffices hfirst : ∃ a read, encodePoint point = a :: read ∧
      firstPoint a (read ++ rest) = (point, read.length) by
    obtain ⟨a, read, hencode, hread⟩ := hfirst
    rw [hencode, List.cons_append, decodePoints, pointsFrom, hread, pointsFrom_append]
    rfl
  rw [encodePoint]
  split_ifs with h₁ h₂ h₃
  · refine ⟨.ofNat point, [], rfl, ?_⟩
    simp only [firstPoint, toNat_ofNat (show point < 256 by omega), if_pos h₁, List.length_nil]
  · have ha := toNat_ofNat (show 0xC0 + point / 64 < 256 by omega)
    have hb : within 0x80 0xBF (.ofNat (0x80 + point % 64)) = true :=
      within_ofNat (by omega) (by omega) (by omega)
    refine ⟨.ofNat (0xC0 + point / 64), [.ofNat (0x80 + point % 64)], rfl, ?_⟩
    simp only [firstPoint, ha, List.singleton_append, hb, if_true,
      if_neg (show ¬ 0xC0 + point / 64 < 0x80 by omega),
      if_pos (show 0xC2 ≤ 0xC0 + point / 64 ∧ 0xC0 + point / 64 ≤ 0xDF by omega),
      bits_ofNat (show point % 64 < 64 by omega), Prod.mk.injEq]
    exact ⟨by omega, rfl⟩
  · have ha := toNat_ofNat (show 0xE0 + point / 4096 < 256 by omega)
    have hb : within (second (0xE0 + point / 4096)).1 (second (0xE0 + point / 4096)).2
        (.ofNat (0x80 + point / 64 % 64)) = true := by
      refine within_ofNat (by omega) ?_ ?_ <;> unfold second <;> split_ifs <;>
        rcases h with h | h <;> dsimp only <;> omega
    have hc : within 0x80 0xBF (.ofNat (0x80 + point % 64)) = true :=
      within_ofNat (by omega) (by omega) (by omega)
    refine ⟨.ofNat (0xE0 + point / 4096),
      [.ofNat (0x80 + point / 64 % 64), .ofNat (0x80 + point % 64)], rfl, ?_⟩
    simp only [firstPoint, ha, List.cons_append, List.nil_append,
      if_neg (show ¬ 0xE0 + point / 4096 < 0x80 by omega),
      if_neg (show ¬ (0xC2 ≤ 0xE0 + point / 4096 ∧ 0xE0 + point / 4096 ≤ 0xDF) by omega),
      if_pos (show 0xE0 ≤ 0xE0 + point / 4096 ∧ 0xE0 + point / 4096 ≤ 0xEF by omega),
      tail₂, hb, hc, if_true, bits_ofNat (show point / 64 % 64 < 64 by omega),
      bits_ofNat (show point % 64 < 64 by omega), Prod.mk.injEq]
    exact ⟨by omega, rfl⟩
  · have ha := toNat_ofNat (show 0xF0 + point / 262144 < 256 by omega)
    have hb : within (second (0xF0 + point / 262144)).1 (second (0xF0 + point / 262144)).2
        (.ofNat (0x80 + point / 4096 % 64)) = true := by
      refine within_ofNat (by omega) ?_ ?_ <;> unfold second <;> split_ifs <;> dsimp only <;> omega
    have hc : within 0x80 0xBF (.ofNat (0x80 + point / 64 % 64)) = true :=
      within_ofNat (by omega) (by omega) (by omega)
    have hd : within 0x80 0xBF (.ofNat (0x80 + point % 64)) = true :=
      within_ofNat (by omega) (by omega) (by omega)
    refine ⟨.ofNat (0xF0 + point / 262144), [.ofNat (0x80 + point / 4096 % 64),
      .ofNat (0x80 + point / 64 % 64), .ofNat (0x80 + point % 64)], rfl, ?_⟩
    simp only [firstPoint, ha, List.cons_append, List.nil_append,
      if_neg (show ¬ 0xF0 + point / 262144 < 0x80 by omega),
      if_neg (show ¬ (0xC2 ≤ 0xF0 + point / 262144 ∧ 0xF0 + point / 262144 ≤ 0xDF) by omega),
      if_neg (show ¬ (0xE0 ≤ 0xF0 + point / 262144 ∧ 0xF0 + point / 262144 ≤ 0xEF) by omega),
      if_pos (show 0xF0 ≤ 0xF0 + point / 262144 ∧ 0xF0 + point / 262144 ≤ 0xF4 by omega),
      tail₃, hb, hc, hd, if_true, bits_ofNat (show point / 4096 % 64 < 64 by omega),
      bits_ofNat (show point / 64 % 64 < 64 by omega),
      bits_ofNat (show point % 64 < 64 by omega), Prod.mk.injEq]
    exact ⟨by omega, rfl⟩

theorem decodePoints_flatMap {ps : List Nat} (h : ∀ p ∈ ps, IsScalar p) :
    decodePoints (ps.flatMap encodePoint) = ps := by
  induction ps with
  | nil => rfl
  | cons p ps ih =>
    rw [List.flatMap_cons, decodePoints_encodePoint (h p List.mem_cons_self),
      ih fun q hq ↦ h q (List.mem_cons_of_mem p hq)]

theorem isScalar_toNat {unit : UInt16} (hhigh : ¬ IsHigh unit) (hlow : ¬ IsLow unit) :
    IsScalar unit.toNat := by
  rw [IsHigh] at hhigh
  rw [IsLow] at hlow
  have hunit := unit.toNat_lt
  rw [IsScalar]
  omega

theorem isScalar_pair {high low : UInt16} (hhigh : IsHigh high) (hlow : IsLow low) :
    IsScalar (pair high low) := by
  obtain ⟨h₁, h₂⟩ := hhigh
  obtain ⟨h₃, h₄⟩ := hlow
  unfold IsScalar pair
  omega

theorem isScalar_points (text : List UInt16) : ∀ p ∈ points text, IsScalar p := by
  have hreplacement : IsScalar replacement := by
    rw [IsScalar, replacement]
    omega
  fun_induction points text with
  | case1 => exact fun p hp ↦ absurd hp List.not_mem_nil
  | case2 unit h => exact fun p hp ↦ List.mem_singleton.mp hp ▸ hreplacement
  | case3 unit h =>
    exact fun p hp ↦ List.mem_singleton.mp hp ▸
      isScalar_toNat (fun hhigh ↦ h (.inl hhigh)) fun hlow ↦ h (.inr hlow)
  | case4 unit next rest hhigh hlow ih =>
    exact List.forall_mem_cons.mpr ⟨isScalar_pair hhigh hlow, ih⟩
  | case5 unit next rest hhigh hlow ih => exact List.forall_mem_cons.mpr ⟨hreplacement, ih⟩
  | case6 unit next rest hhigh hlow ih => exact List.forall_mem_cons.mpr ⟨hreplacement, ih⟩
  | case7 unit next rest hhigh hlow ih =>
    exact List.forall_mem_cons.mpr ⟨isScalar_toNat hhigh hlow, ih⟩

/-- **A text that is written is read**, but for lone surrogates. -/
theorem decode_encode (text : List UInt16) : decode (encode text) = toWellFormed text := by
  rw [decode, encode, decodePoints_flatMap (isScalar_points text), toWellFormed]

/-! ## Well-formed texts -/

section Points

variable {unit next : UInt16}

theorem points_cons_cons (unit next : UInt16) (text : List UInt16) : points (unit :: next :: text) =
      if IsHigh unit then
        if IsLow next then pair unit next :: points text
        else replacement :: points (next :: text)
      else if IsLow unit then replacement :: points (next :: text)
      else unit.toNat :: points (next :: text) :=
  rfl

theorem points_plain (hhigh : ¬ IsHigh unit) (hlow : ¬ IsLow unit) (text : List UInt16) :
    points (unit :: text) = unit.toNat :: points text := by
  cases text with
  | nil => exact if_neg (not_or.mpr ⟨hhigh, hlow⟩)
  | cons next rest => rw [points_cons_cons, if_neg hhigh, if_neg hlow]

theorem points_low (hhigh : ¬ IsHigh unit) (hlow : IsLow unit) (text : List UInt16) :
    points (unit :: text) = replacement :: points text := by
  cases text with
  | nil => exact if_pos (.inr hlow)
  | cons next rest => rw [points_cons_cons, if_neg hhigh, if_pos hlow]

theorem points_pair (hhigh : IsHigh unit) (hlow : IsLow next) (text : List UInt16) :
    points (unit :: next :: text) = pair unit next :: points text := by
  rw [points_cons_cons, if_pos hhigh, if_pos hlow]

theorem points_high (hhigh : IsHigh unit) (hlow : ¬ IsLow next) (text : List UInt16) :
    points (unit :: next :: text) = replacement :: points (next :: text) := by
  rw [points_cons_cons, if_pos hhigh, if_neg hlow]

theorem points_append_cons (hhigh : ¬ IsHigh unit) (hlow : ¬ IsLow unit) (text rest : List UInt16) :
    points (text ++ unit :: rest) = points text ++ unit.toNat :: points rest := by
  fun_induction points text with
  | case1 => exact points_plain hhigh hlow rest
  | case2 first h =>
    by_cases hfirst : IsHigh first
    · rw [List.singleton_append, points_high hfirst hlow, points_plain hhigh hlow]
      rfl
    · rw [List.singleton_append, points_low hfirst (h.resolve_left hfirst), points_plain hhigh hlow]
      rfl
  | case3 first h =>
    obtain ⟨hfirst, hfirst'⟩ := not_or.mp h
    rw [List.singleton_append, points_plain hfirst hfirst', points_plain hhigh hlow]
    rfl
  | case4 first next after hfirst hnext ih =>
    rw [List.cons_append, List.cons_append, points_pair hfirst hnext, ih, List.cons_append]
  | case5 first next after hfirst hnext ih =>
    rw [List.cons_append, List.cons_append, points_high hfirst hnext, ← List.cons_append, ih,
      List.cons_append]
  | case6 first next after hfirst hfirst' ih =>
    rw [List.cons_append, points_low hfirst hfirst', ih, List.cons_append]
  | case7 first next after hfirst hfirst' ih =>
    rw [List.cons_append, points_plain hfirst hfirst', ih, List.cons_append]

end Points

theorem units_toNat (unit : UInt16) : units unit.toNat = [unit] := by
  rw [units, if_pos unit.toNat_lt, UInt16.ofNat_toNat]

theorem toWellFormed_append_cons {unit : UInt16} (hhigh : ¬ IsHigh unit) (hlow : ¬ IsLow unit)
    (text rest : List UInt16) :
    toWellFormed (text ++ unit :: rest) = toWellFormed text ++ unit :: toWellFormed rest := by
  rw [toWellFormed, points_append_cons hhigh hlow, List.flatMap_append, List.flatMap_cons,
    units_toNat]
  rfl

theorem toWellFormed_plain {text : List UInt16} (h : ∀ unit ∈ text, ¬ IsHigh unit ∧ ¬ IsLow unit) :
    toWellFormed text = text := by
  induction text with
  | nil => rfl
  | cons unit text ih =>
    obtain ⟨hhigh, hlow⟩ := h unit List.mem_cons_self
    have hrest := ih fun u hu ↦ h u (List.mem_cons_of_mem unit hu)
    rw [toWellFormed] at hrest ⊢
    rw [points_plain hhigh hlow, List.flatMap_cons, units_toNat, hrest, List.singleton_append]

end OpenAlice.Data.Utf8
