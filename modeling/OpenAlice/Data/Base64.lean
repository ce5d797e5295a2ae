import Mathlib.Data.List.Basic

/-!
# Bytes written in base 64

`encode64` writes three bytes as four digits and pads the last group with `=`; `decode64`
reads groups of four digits and passes over every character that is not a digit, the padding
among them.  What is encoded decodes to itself (`decode64_encode64`), and so it does when
characters are put around it that are not digits.

Nothing here knows what the bytes are.
-/

namespace OpenAlice.Data

def digit64 (n : Nat) : Char :=
  if n < 26 then Char.ofNat (65 + n)
  else if n < 52 then Char.ofNat (71 + n)
  else if n < 62 then Char.ofNat (n - 4)
  else if n = 62 then '+' else '/'

def value64 (c : Char) : Option Nat :=
  if 65 ≤ c.toNat ∧ c.toNat ≤ 90 then some (c.toNat - 65)
  else if 97 ≤ c.toNat ∧ c.toNat ≤ 122 then some (c.toNat - 71)
  else if 48 ≤ c.toNat ∧ c.toNat ≤ 57 then some (c.toNat + 4)
  else if c = '+' ∨ c = '-' then some 62
  else if c = '/' ∨ c = '_' then some 63
  else none

def sextets : List UInt8 → List Nat
  | [] => []
  | [a] => [a.toNat / 4, a.toNat % 4 * 16]
  | [a, b] => [a.toNat / 4, a.toNat % 4 * 16 + b.toNat / 16, b.toNat % 16 * 4]
  | a :: b :: c :: rest =>
    a.toNat / 4 :: (a.toNat % 4 * 16 + b.toNat / 16) :: (b.toNat % 16 * 4 + c.toNat / 64) ::
      c.toNat % 64 :: sextets rest

/-- The bytes of some values; bits that do not fill a byte are dropped. -/
def octets : List Nat → List UInt8
  | p :: q :: r :: s :: rest =>
    UInt8.ofNat (p * 4 + q / 16) :: UInt8.ofNat (q % 16 * 16 + r / 4) ::
      UInt8.ofNat (r % 4 * 64 + s) :: octets rest
  | [p, q, r] => [UInt8.ofNat (p * 4 + q / 16), UInt8.ofNat (q % 16 * 16 + r / 4)]
  | [p, q] => [UInt8.ofNat (p * 4 + q / 16)]
  | _ => []

def padding64 (length : Nat) : List Char := List.replicate ((3 - length % 3) % 3) '='

def encode64 (bytes : List UInt8) : List Char :=
  (sextets bytes).map digit64 ++ padding64 bytes.length

def decode64 (text : List Char) : List UInt8 := octets (text.filterMap value64)

theorem value64_digit64 : ∀ n < 64, value64 (digit64 n) = some n := by
  decide

theorem sextets_lt (bytes : List UInt8) : ∀ n ∈ sextets bytes, n < 64 := by
  induction bytes using sextets.induct with
  | case1 => exact List.forall_mem_nil _
  | case2 a =>
    have ha := a.toNat_lt
    simp only [sextets, List.forall_mem_cons]
    exact ⟨by omega, by omega, List.forall_mem_nil _⟩
  | case3 a b =>
    have ha := a.toNat_lt
    have hb := b.toNat_lt
    simp only [sextets, List.forall_mem_cons]
    exact ⟨by omega, by omega, by omega, List.forall_mem_nil _⟩
  | case4 a b c rest ih =>
    have ha := a.toNat_lt
    have hb := b.toNat_lt
    have hc := c.toNat_lt
    simp only [sextets, List.forall_mem_cons]
    exact ⟨by omega, by omega, by omega, by omega, ih⟩

theorem ofNat_eq_self {a : UInt8} {n : Nat} (h : n = a.toNat) : UInt8.ofNat n = a := by
  rw [h, UInt8.ofNat_toNat]

theorem octets_sextets (bytes : List UInt8) : octets (sextets bytes) = bytes := by
  induction bytes using sextets.induct with
  | case1 => rfl
  | case2 a =>
    have ha := a.toNat_lt
    simp only [sextets, octets]
    rw [ofNat_eq_self (a := a) (by omega)]
  | case3 a b =>
    have ha := a.toNat_lt
    have hb := b.toNat_lt
    simp only [sextets, octets]
    rw [ofNat_eq_self (a := a) (by omega), ofNat_eq_self (a := b) (by omega)]
  | case4 a b c rest ih =>
    have ha := a.toNat_lt
    have hb := b.toNat_lt
    have hc := c.toNat_lt
    simp only [sextets, octets, ih]
    rw [ofNat_eq_self (a := a) (by omega), ofNat_eq_self (a := b) (by omega),
      ofNat_eq_self (a := c) (by omega)]

theorem filterMap_map_digit64 {values : List Nat} (h : ∀ n ∈ values, n < 64) :
    (values.map digit64).filterMap value64 = values := by
  induction values with
  | nil => rfl
  | cons n values ih =>
    rw [List.forall_mem_cons] at h
    rw [List.map_cons, List.filterMap_cons_some (value64_digit64 n h.1), ih h.2]

theorem filterMap_value64_of_none {text : List Char} (h : ∀ c ∈ text, value64 c = none) :
    text.filterMap value64 = [] :=
  List.filterMap_eq_nil_iff.mpr h

theorem decode64_surround {before after : List Char} (hbefore : ∀ c ∈ before, value64 c = none)
    (hafter : ∀ c ∈ after, value64 c = none) (text : List Char) :
    decode64 (before ++ text ++ after) = decode64 text := by
  rw [decode64, List.filterMap_append, List.filterMap_append, filterMap_value64_of_none hbefore,
    filterMap_value64_of_none hafter, List.nil_append, List.append_nil, decode64]

@[simp] theorem decode64_encode64 (bytes : List UInt8) : decode64 (encode64 bytes) = bytes := by
  have hpadding : ∀ c ∈ padding64 bytes.length, value64 c = none := by
    intro c hc
    rw [List.eq_of_mem_replicate hc]
    rfl
  rw [decode64, encode64, List.filterMap_append, filterMap_map_digit64 (sextets_lt bytes),
    filterMap_value64_of_none hpadding, List.append_nil, octets_sextets]

end OpenAlice.Data
