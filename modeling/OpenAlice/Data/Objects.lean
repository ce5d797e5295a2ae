import Mathlib.Data.List.Basic

/-!
# Objects and references to them

What is held by reference is a number, and a store says what the objects hold.  New objects
get the next numbers.
-/

universe u

namespace OpenAlice.Data

variable {α : Type u}

/-- Objects from number `next` on that hold the elements of a list. -/
def filled (objects : Nat → α) (next : Nat) (l : List α) (o : Nat) : α :=
  if o < next then objects o else l.getD (o - next) (objects o)

def newObjects (next : Nat) (l : List α) : List Nat := List.range' next l.length

variable {objects : Nat → α} {next : Nat} {l : List α} {refs : List Nat}

theorem map_filled : (newObjects next l).map (filled objects next l) = l := by
  refine List.ext_getElem ?_ ?_
  · rw [List.length_map]
    exact List.length_range'
  intro n hn hn'
  have hge : ¬ next + n < next := by omega
  simp only [newObjects, filled, List.getElem_map, List.getElem_range', Nat.one_mul, if_neg hge,
    Nat.add_sub_cancel_left, List.getD_eq_getElem?_getD, List.getElem?_eq_getElem hn',
    Option.getD_some]

theorem map_filled_old (h : ∀ o ∈ refs, o < next) :
    refs.map (filled objects next l) = refs.map objects :=
  List.map_congr_left fun o ho ↦ if_pos (h o ho)

theorem lt_of_mem_newObjects {o : Nat} (h : o ∈ newObjects next l) : o < next + l.length :=
  (List.mem_range'_1.mp h).2

end OpenAlice.Data
