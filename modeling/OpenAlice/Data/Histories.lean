import Mathlib.Data.List.Basic

/-!
# Histories

A history is the list of what has happened, the latest last.  `Along` says something of every member
of it and of what came before that member; `latest` is the last thing of a kind in it.

Both are followed one step at a time, by what is appended.
-/

universe u v

namespace OpenAlice.Data

variable {α : Type u} {β : Type v}

def Along (P : List α → α → Prop) (members : List α) : Prop :=
  ∀ before member after, members = before ++ member :: after → P before member

/-- The last member of a kind, as `f` reads it. -/
def latest (f : α → Option β) (members : List α) : Option β := members.reverse.findSome? f

section Along

variable {P : List α → α → Prop} {history history' : List α} {entry : α}

theorem along_nil : Along P [] := by
  intro before entry after h
  exact absurd h.symm (List.append_ne_nil_of_right_ne_nil before (List.cons_ne_nil entry after))

theorem along_concat : Along P (history ++ [entry]) ↔ Along P history ∧ P history entry := by
  constructor
  · intro h
    refine ⟨fun before e after heq ↦ h before e (after ++ [entry]) ?_, h history entry [] rfl⟩
    rw [heq, List.append_assoc, List.cons_append]
  rintro ⟨hold, hlast⟩ before e after heq
  rcases List.eq_nil_or_concat after with rfl | ⟨after, last, rfl⟩
  · obtain ⟨rfl, he⟩ := List.append_inj' heq rfl
    obtain rfl := List.head_eq_of_cons_eq he
    exact hlast
  · rw [List.concat_eq_append, ← List.cons_append, ← List.append_assoc] at heq
    exact hold before e after (List.append_inj' heq rfl).1

theorem Along.of_mem (h : Along P history) (hmem : entry ∈ history) : ∃ before, P before entry := by
  obtain ⟨before, after, rfl⟩ := List.append_of_mem hmem
  exact ⟨before, h before entry after rfl⟩

end Along

section Latest

variable {f : α → Option β} {history history' : List α} {entry : α} {b : β}

theorem latest_concat : latest f (history ++ [entry]) = (f entry).or (latest f history) := by
  rw [latest, List.reverse_append, List.reverse_singleton, List.singleton_append,
    List.findSome?_cons]
  cases f entry <;> rfl

theorem latest_concat_of_none (h : f entry = none) :
    latest f (history ++ [entry]) = latest f history := by
  rw [latest_concat, h, Option.none_or]

theorem latest_concat_of_some (h : f entry = some b) : latest f (history ++ [entry]) = some b := by
  rw [latest_concat, h, Option.some_or]

theorem latest_append :
    latest f (history ++ history') = (latest f history').or (latest f history) := by
  rw [latest, List.reverse_append, List.findSome?_append]
  rfl

theorem latest_isSome_iff : (latest f history).isSome = true ↔ ∃ a ∈ history,
    (f a).isSome = true := by
  rw [latest, List.findSome?_isSome_iff]
  simp only [List.mem_reverse]

theorem mem_of_latest (h : latest f history = some b) : ∃ a ∈ history, f a = some b := by
  obtain ⟨a, ha, hb⟩ := List.exists_of_findSome?_eq_some h
  exact ⟨a, List.mem_reverse.mp ha, hb⟩

end Latest

end OpenAlice.Data
