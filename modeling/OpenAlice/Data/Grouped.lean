import Mathlib.Data.List.Induction
import Mathlib.Data.List.Perm.Basic

/-!
# Grouping by a key

`groupsOf key l` is what a map from keys to lists holds after the elements of `l` have been added to
it one after the other: a group for each key, in the order in which the keys first came.

Grouping moves elements past elements of other keys only.  `SameOrder key` says that of two lists:
for each key they have the same elements in the same order.

Nothing here knows what the elements are.
-/

universe u v

namespace OpenAlice.Data

variable {α : Type u} {κ : Type v}

/-! ## The same order for each key -/

def SameOrder [DecidableEq κ] (key : α → κ) (l l' : List α) : Prop :=
  ∀ k, l.filter (key · = k) = l'.filter (key · = k)

namespace SameOrder

variable [DecidableEq κ] {key : α → κ} {l l' l'' m m' : List α}

theorem refl (l : List α) : SameOrder key l l := fun _ ↦ rfl

theorem trans (h : SameOrder key l l') (h' : SameOrder key l' l'') : SameOrder key l l'' :=
  fun k ↦ (h k).trans (h' k)

theorem append (h : SameOrder key l l') (h' : SameOrder key m m') :
    SameOrder key (l ++ m) (l' ++ m') := by
  intro k
  rw [List.filter_append, List.filter_append, h k, h' k]

theorem swap (h : ∀ a ∈ l, ∀ b ∈ m, key a ≠ key b) : SameOrder key (l ++ m) (m ++ l) := by
  intro k
  rw [List.filter_append, List.filter_append]
  by_cases hl : ∃ a ∈ l, key a = k
  · obtain ⟨a, ha, rfl⟩ := hl
    have hm : m.filter (key · = key a) = [] := by
      refine List.filter_eq_nil_iff.mpr fun b hb heq ↦ ?_
      exact h a ha b hb (of_decide_eq_true heq).symm
    rw [hm, List.append_nil, List.nil_append]
  · have hnil : l.filter (key · = k) = [] := by
      refine List.filter_eq_nil_iff.mpr fun a ha heq ↦ ?_
      exact hl ⟨a, ha, of_decide_eq_true heq⟩
    rw [hnil, List.append_nil, List.nil_append]

theorem mem_iff (h : SameOrder key l l') {a : α} : a ∈ l ↔ a ∈ l' := by
  have hfilter : ∀ l : List α, a ∈ l ↔ a ∈ l.filter (key · = key a) := by
    intro l
    rw [List.mem_filter, decide_eq_true rfl]
    exact (and_iff_left rfl).symm
  rw [hfilter l, hfilter l', h (key a)]

theorem perm (h : SameOrder key l l') : l.Perm l' := by
  classical
  refine List.perm_iff_count.mpr fun a ↦ ?_
  have hcount : ∀ l : List α, (l.filter (key · = key a)).count a = l.count a :=
    fun l ↦ List.count_filter (decide_eq_true rfl)
  rw [← hcount l, ← hcount l', h (key a)]

end SameOrder

/-! ## Groups -/

def addToGroup [DecidableEq κ] (k : κ) (a : α) : List (κ × List α) → List (κ × List α)
  | [] => [(k, [a])]
  | group :: rest =>
    if group.1 = k then (k, group.2 ++ [a]) :: rest else group :: addToGroup k a rest

def groupsOf [DecidableEq κ] (key : α → κ) (l : List α) : List (κ × List α) :=
  l.foldl (fun groups a ↦ addToGroup (key a) a groups) []

def ungroup (groups : List (κ × List α)) : List α := groups.flatMap Prod.snd

structure Grouped (key : α → κ) (groups : List (κ × List α)) : Prop where
  nodup : (groups.map Prod.fst).Nodup
  key : ∀ group ∈ groups, ∀ a ∈ group.2, key a = group.1
  ne_nil : ∀ group ∈ groups, group.2 ≠ []

section Groups

variable {key : α → κ} {groups : List (κ × List α)} {group : κ × List α} {l : List α} {a : α}

theorem grouped_nil : Grouped key ([] : List (κ × List α)) where
  nodup := .nil
  key _ h := by cases h
  ne_nil _ h := by cases h

theorem Grouped.tail (h : Grouped key (group :: groups)) : Grouped key groups where
  nodup := (List.nodup_cons.mp h.nodup).2
  key g hg := h.key g (List.mem_cons_of_mem _ hg)
  ne_nil g hg := h.ne_nil g (List.mem_cons_of_mem _ hg)

@[simp] theorem ungroup_cons : ungroup (group :: groups) = group.2 ++ ungroup groups :=
  List.flatMap_cons

theorem Grouped.key_mem (h : Grouped key groups) (ha : a ∈ ungroup groups) :
    key a ∈ groups.map Prod.fst := by
  obtain ⟨group, hgroup, ha⟩ := List.mem_flatMap.mp ha
  exact h.key group hgroup a ha ▸ List.mem_map_of_mem hgroup

theorem Grouped.head_ne (h : Grouped key (group :: groups)) (ha : a ∈ ungroup groups) :
    key a ≠ group.1 := by
  rintro heq
  exact (List.nodup_cons.mp h.nodup).1 (heq ▸ h.tail.key_mem ha)

section Add

variable [DecidableEq κ]

theorem mem_keys_addToGroup {k k' : κ} :
    k' ∈ (addToGroup k a groups).map Prod.fst ↔ k' = k ∨ k' ∈ groups.map Prod.fst := by
  induction groups with
  | nil => simp [addToGroup]
  | cons group rest ih =>
    rw [addToGroup]
    split_ifs with hk
    · simp [hk]
    · rw [List.map_cons, List.mem_cons, ih, List.map_cons, List.mem_cons]
      exact or_left_comm

theorem Grouped.add (h : Grouped key groups) (a : α) :
    Grouped key (addToGroup (key a) a groups) := by
  induction groups with
  | nil => exact ⟨by simp [addToGroup], by simp [addToGroup], by simp [addToGroup]⟩
  | cons group rest ih =>
    rw [addToGroup]
    have hrest := ih h.tail
    split_ifs with hk
    · refine ⟨?_, ?_, ?_⟩
      · exact hk ▸ h.nodup
      · refine List.forall_mem_cons.mpr ⟨fun b hb ↦ ?_, h.tail.key⟩
        rcases List.mem_append.mp hb with hb | hb
        · exact (h.key group List.mem_cons_self b hb).trans hk
        · rw [List.mem_singleton.mp hb]
      · exact List.forall_mem_cons.mpr ⟨by simp, h.tail.ne_nil⟩
    · refine ⟨List.nodup_cons.mpr ⟨?_, hrest.nodup⟩, ?_, ?_⟩
      · rw [mem_keys_addToGroup, not_or]
        exact ⟨hk, (List.nodup_cons.mp h.nodup).1⟩
      · exact List.forall_mem_cons.mpr ⟨h.key group List.mem_cons_self, hrest.key⟩
      · exact List.forall_mem_cons.mpr ⟨h.ne_nil group List.mem_cons_self, hrest.ne_nil⟩

theorem Grouped.sameOrder_add (h : Grouped key groups) (a : α) :
    SameOrder key (ungroup (addToGroup (key a) a groups)) (ungroup groups ++ [a]) := by
  induction groups with
  | nil => exact .refl _
  | cons group rest ih =>
    rw [addToGroup]
    split_ifs with hk
    · rw [ungroup_cons, ungroup_cons, List.append_assoc, List.append_assoc]
      refine (SameOrder.refl _).append (.swap fun b hb c hc ↦ ?_)
      rw [List.mem_singleton.mp hb]
      exact fun heq ↦ h.head_ne hc (heq.symm.trans hk.symm)
    · rw [ungroup_cons, ungroup_cons, List.append_assoc]
      exact (SameOrder.refl _).append (ih h.tail)

theorem groupsOf_spec (key : α → κ) (l : List α) :
    Grouped key (groupsOf key l) ∧ SameOrder key (ungroup (groupsOf key l)) l := by
  induction l using List.reverseRecOn with
  | nil => exact ⟨grouped_nil, .refl _⟩
  | append_singleton l a ih =>
    rw [groupsOf, List.foldl_append]
    exact ⟨ih.1.add a, (ih.1.sameOrder_add a).trans (ih.2.append (.refl [a]))⟩

end Add

end Groups

end OpenAlice.Data
