import OpenAlice.Data.Keyed
import Mathlib.Algebra.Group.Basic
import Mathlib.Tactic.Abel

/-!
# Totals over keyed values

What the values of a keyed list come to, when each counts for something.  A key that is set takes
what it had out of the total and puts its new value in; a key that is deleted takes its value out.
-/

universe u v w

namespace OpenAlice.Data

variable {α : Type u} {β : Type v} {M : Type w} [AddCommGroup M] (f : β → M)

def totalOf : List (α × β) → M
  | [] => 0
  | entry :: rest => f entry.2 + totalOf rest

def worthOf (value : Option β) : M := value.elim 0 f

@[simp] theorem worthOf_none : worthOf f (none : Option β) = 0 := rfl

@[simp] theorem worthOf_some (value : β) : worthOf f (some value) = f value := rfl

variable [DecidableEq α] {key : α} {value : β} {entries : List (α × β)}

theorem totalOf_setKey : totalOf f (setKey entries key value) =
      totalOf f entries - worthOf f (entries.lookup key) + f value := by
  induction entries with
  | nil => rw [setKey, List.lookup_nil, worthOf_none, totalOf, totalOf, totalOf, sub_zero, add_comm]
  | cons entry rest ih =>
    rw [setKey, List.lookup_cons]
    split_ifs with h
    · rw [h, beq_self_eq_true, worthOf_some, totalOf, totalOf]
      abel
    · rw [beq_false_of_ne (Ne.symm h), totalOf, totalOf, ih]
      abel

theorem totalOf_changeKey {g : β → β} (h : ∀ value, f (g value) = f value) :
    totalOf f (changeKey entries key g) = totalOf f entries := by
  induction entries with
  | nil => rfl
  | cons entry rest ih =>
    rw [changeKey] at ih
    rw [changeKey, List.map_cons, totalOf, totalOf, ih]
    split_ifs
    · rw [h]
    · rfl

theorem totalOf_deleteKey_of_not_mem (h : key ∉ entries.map Prod.fst) :
    totalOf f (deleteKey entries key) = totalOf f entries := by
  have hall : ∀ entry ∈ entries, decide (entry.1 ≠ key) = true := by
    intro entry hentry
    refine decide_eq_true fun heq ↦ h ?_
    exact heq ▸ List.mem_map_of_mem hentry
  rw [deleteKey, List.filter_eq_self.mpr hall]

theorem totalOf_deleteKey (h : (entries.map Prod.fst).Nodup) :
    totalOf f (deleteKey entries key) = totalOf f entries - worthOf f (entries.lookup key) := by
  induction entries with
  | nil => rw [List.lookup_nil, worthOf_none, sub_zero, deleteKey, List.filter_nil]
  | cons entry rest ih =>
    rw [List.map_cons, List.nodup_cons] at h
    by_cases hkey : entry.1 = key
    · have hrest : totalOf f (deleteKey rest key) = totalOf f rest :=
        totalOf_deleteKey_of_not_mem f (hkey ▸ h.1)
      have hdrop : deleteKey (entry :: rest) key = deleteKey rest key := by
        refine List.filter_cons_of_neg fun hne ↦ ?_
        exact of_decide_eq_true hne hkey
      rw [hdrop, hrest, List.lookup_cons, hkey, beq_self_eq_true, worthOf_some, totalOf]
      abel
    · have hkeep : deleteKey (entry :: rest) key = entry :: deleteKey rest key := by
        exact List.filter_cons_of_pos (decide_eq_true hkey)
      rw [hkeep, List.lookup_cons, beq_false_of_ne (Ne.symm hkey), totalOf, totalOf, ih h.2]
      abel

end OpenAlice.Data
