import Mathlib.Data.List.Basic

/-!
# What happens one after the other, and at the same time

`Parts α` is a piece of work that is put together of single events, one after the other or at the
same time.  `Completes parts l` says that the events can happen in the order `l`.

Nothing here knows what the events are.
-/

universe u

namespace OpenAlice.Data

variable {α : Type u}

inductive Merges : List α → List α → List α → Prop
  | nil : Merges [] [] []
  | first {a : α} {l m n : List α} : Merges l m n → Merges (a :: l) m (a :: n)
  | second {a : α} {l m n : List α} : Merges l m n → Merges l (a :: m) (a :: n)

theorem Merges.perm {l m n : List α} (h : Merges l m n) : n.Perm (l ++ m) := by
  induction h with
  | nil => exact .nil
  | first _ ih => exact ih.cons _
  | second _ ih => exact (ih.cons _).trans List.perm_middle.symm

theorem merges_append (l m : List α) : Merges l m (l ++ m) := by
  induction l with
  | nil =>
    induction m with
    | nil => exact .nil
    | cons a m ih => exact .second ih
  | cons a l ih => exact .first ih

/-- Events one after the other and at the same time. -/
inductive Parts (α : Type u) where
  | nothing
  | one (a : α)
  | seq (first second : Parts α)
  | par (first second : Parts α)

namespace Parts

def toList : Parts α → List α
  | nothing => []
  | one a => [a]
  | seq first second => first.toList ++ second.toList
  | par first second => first.toList ++ second.toList

/-- An order in which the events can happen. -/
inductive Completes : Parts α → List α → Prop
  | nothing : Completes nothing []
  | one (a : α) : Completes (one a) [a]
  | seq {first second : Parts α} {l m : List α} : Completes first l → Completes second m →
      Completes (seq first second) (l ++ m)
  | par {first second : Parts α} {l m n : List α} : Completes first l → Completes second m →
      Merges l m n → Completes (par first second) n

theorem Completes.perm {parts : Parts α} {l : List α} (h : Completes parts l) :
    l.Perm parts.toList := by
  induction h with
  | nothing => exact .nil
  | one a => exact .refl _
  | seq _ _ ih ih' => exact ih.append ih'
  | par _ _ hmerges ih ih' => exact hmerges.perm.trans (ih.append ih')

theorem completes_toList : ∀ parts : Parts α, Completes parts parts.toList
  | nothing => .nothing
  | one a => .one a
  | seq first second => .seq (completes_toList first) (completes_toList second)
  | par first second =>
    .par (completes_toList first) (completes_toList second) (merges_append _ _)

end Parts

end OpenAlice.Data
