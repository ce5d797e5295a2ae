import Mathlib.Data.List.Basic

/-!
# Linked logs

A log whose entries name their predecessor: every entry has a key and a parent,
which is the key of an entry or nothing.  `Linked parent key p l` says that the
parents of `l` follow one another starting from `p`, and `tip key p l` is the
parent the next entry has to name.
-/

universe u v

namespace OpenAlice.Data

variable {α : Type u} {κ : Type v}

/-- The parents of the entries follow one another, starting from `p`. -/
def Linked (parent : α → Option κ) (key : α → κ) : Option κ → List α → Prop
  | _, [] => True
  | p, a :: l => parent a = p ∧ Linked parent key (some (key a)) l

/-- The parent an entry after `l` has to name. -/
def tip (key : α → κ) : Option κ → List α → Option κ
  | p, [] => p
  | _, a :: l => tip key (some (key a)) l

variable {parent : α → Option κ} {key : α → κ} {p : Option κ} {l : List α} {a b : α}

@[simp] theorem linked_nil : Linked parent key p [] := trivial

@[simp] theorem linked_cons :
    Linked parent key p (a :: l) ↔ parent a = p ∧ Linked parent key (some (key a)) l := Iff.rfl

@[simp] theorem tip_append : tip key p (l ++ [a]) = some (key a) := by
  induction l generalizing p with
  | nil => rfl
  | cons b l ih => exact ih

theorem tip_eq_getLast : tip key none l = l.getLast?.map key := by
  rcases List.eq_nil_or_concat l with rfl | ⟨l, a, rfl⟩
  · rfl
  · rw [List.concat_eq_append, tip_append, List.getLast?_concat, Option.map_some]

theorem linked_append :
    Linked parent key p (l ++ [a]) ↔ Linked parent key p l ∧ parent a = tip key p l := by
  induction l generalizing p with
  | nil => simp [tip]
  | cons b l ih =>
    simp only [List.cons_append, linked_cons, ih, tip]
    rw [and_assoc]

theorem linked_map {β : Type u} {parent' : β → Option κ} {key' : β → κ} {f : α → β}
    (hp : ∀ a, parent' (f a) = parent a) (hk : ∀ a, key' (f a) = key a) :
    Linked parent' key' p (l.map f) ↔ Linked parent key p l := by
  induction l generalizing p with
  | nil => simp
  | cons a l ih => rw [List.map_cons, linked_cons, linked_cons, hp, hk, ih]

theorem Linked.first (h : Linked parent key p l) (ha : l[0]? = some a) : parent a = p := by
  cases l with
  | nil => cases ha
  | cons b l =>
    cases ha
    exact h.1

theorem Linked.next (h : Linked parent key p l) {i : Nat} (ha : l[i]? = some a)
    (hb : l[i + 1]? = some b) : parent b = some (key a) := by
  induction l generalizing p i with
  | nil => cases ha
  | cons c l ih =>
    cases i with
    | zero =>
      cases ha
      exact h.2.first hb
    | succ i => exact ih h.2 ha hb

theorem linked_of (hfirst : ∀ a, l[0]? = some a → parent a = p)
    (hnext : ∀ (i : Nat) (a b : α), l[i]? = some a → l[i + 1]? = some b →
      parent b = some (key a)) : Linked parent key p l := by
  induction l generalizing p with
  | nil => trivial
  | cons c l ih =>
    refine ⟨hfirst c rfl, ih ?_ ?_⟩
    · exact fun a ha ↦ hnext 0 c a rfl ha
    · exact fun i a b ha hb ↦ hnext (i + 1) a b ha hb

end OpenAlice.Data
