import Mathlib.Data.List.Basic

/-!
# Values by their keys, in order

A list of keys with values, looked up from the front: what an object is that keeps its keys in
the order in which they came.  A key that is set anew keeps its place.

Nothing here knows what the keys and values are.
-/

universe u v

namespace OpenAlice.Data

variable {α : Type u} {β : Type v} [DecidableEq α]

def setKey (entries : List (α × β)) (key : α) (value : β) : List (α × β) :=
  match entries with
  | [] => [(key, value)]
  | entry :: rest =>
    if entry.1 = key then (key, value) :: rest else entry :: setKey rest key value

def changeKey (entries : List (α × β)) (key : α) (f : β → β) : List (α × β) :=
  entries.map fun entry ↦ if entry.1 = key then (key, f entry.2) else entry

def deleteKey (entries : List (α × β)) (key : α) : List (α × β) :=
  entries.filter fun entry ↦ entry.1 ≠ key

variable {key key' : α} {value : β}

@[simp] theorem lookup_setKey_self (entries : List (α × β)) :
    (setKey entries key value).lookup key = some value := by
  induction entries with
  | nil => exact List.lookup_cons_self
  | cons entry rest ih =>
    rw [setKey]
    split_ifs with h
    · exact List.lookup_cons_self
    · rw [List.lookup_cons, beq_false_of_ne (Ne.symm h)]
      exact ih

theorem lookup_setKey_of_ne (h : key' ≠ key) (entries : List (α × β)) :
    (setKey entries key value).lookup key' = entries.lookup key' := by
  induction entries with
  | nil =>
    rw [setKey, List.lookup_cons, beq_false_of_ne h]
  | cons entry rest ih =>
    rw [setKey]
    split_ifs with heq
    · rw [List.lookup_cons, List.lookup_cons, heq, beq_false_of_ne h]
    · rw [List.lookup_cons, List.lookup_cons, ih]

variable {entries : List (α × β)}

theorem lookup_of_not_mem (h : key ∉ entries.map Prod.fst) : entries.lookup key = none := by
  rw [List.lookup_eq_none_iff]
  intro entry hentry
  exact bne_iff_ne.mpr fun heq ↦ h (heq ▸ List.mem_map_of_mem hentry)

section Values

variable {γ : Type v} (f : β → γ)

theorem lookup_map_values (entries : List (α × β)) (key : α) :
    (entries.map (Prod.map id f)).lookup key = (entries.lookup key).map f := by
  induction entries with
  | nil => rfl
  | cons entry rest ih =>
    rw [List.map_cons, Prod.map, List.lookup_cons, List.lookup_cons, ih, id]
    cases key == entry.1 <;> rfl

theorem setKey_map_values (entries : List (α × β)) (key : α) (value : β) :
    setKey (entries.map (Prod.map id f)) key (f value) =
      (setKey entries key value).map (Prod.map id f) := by
  induction entries with
  | nil => rfl
  | cons entry rest ih =>
    rw [List.map_cons, setKey, setKey, ih]
    split_ifs <;> first | rfl | contradiction

end Values

section Change

variable {f : β → β}

theorem keys_changeKey (entries : List (α × β)) :
    (changeKey entries key f).map Prod.fst = entries.map Prod.fst := by
  rw [changeKey, List.map_map]
  refine List.map_congr_left fun entry _ ↦ ?_
  rw [Function.comp_apply]
  split_ifs with h
  · exact h.symm
  · rfl

theorem lookup_changeKey_self (entries : List (α × β)) :
    (changeKey entries key f).lookup key = (entries.lookup key).map f := by
  induction entries with
  | nil => rfl
  | cons entry rest ih =>
    rw [changeKey] at ih
    rw [changeKey, List.map_cons, List.lookup_cons, List.lookup_cons, ih]
    split_ifs with h
    · rw [h, beq_self_eq_true]
      rfl
    · rw [beq_false_of_ne (Ne.symm h)]

theorem lookup_changeKey_of_ne (h : key' ≠ key) (entries : List (α × β)) :
    (changeKey entries key f).lookup key' = entries.lookup key' := by
  induction entries with
  | nil => rfl
  | cons entry rest ih =>
    rw [changeKey] at ih
    rw [changeKey, List.map_cons, List.lookup_cons, List.lookup_cons, ih]
    split_ifs with heq
    · simp only [heq, beq_false_of_ne h]
    · rfl

end Change

@[simp] theorem lookup_deleteKey_self (entries : List (α × β)) :
    (deleteKey entries key).lookup key = none := by
  rw [List.lookup_eq_none_iff]
  intro entry hentry
  have hne := of_decide_eq_true (List.mem_filter.mp hentry).2
  exact bne_iff_ne.mpr (Ne.symm hne)

theorem lookup_deleteKey_of_ne (h : key' ≠ key) (entries : List (α × β)) :
    (deleteKey entries key).lookup key' = entries.lookup key' := by
  induction entries with
  | nil => rfl
  | cons entry rest ih =>
    rw [deleteKey, List.filter_cons]
    split_ifs with heq
    · rw [deleteKey] at ih
      rw [List.lookup_cons, List.lookup_cons, ih]
    have hkey : entry.1 = key := by simpa using heq
    rw [List.lookup_cons, hkey, beq_false_of_ne h]
    exact ih

theorem mem_setKey {entry : α × β}
    (h : entry ∈ setKey entries key value) : entry = (key, value) ∨ entry ∈ entries := by
  induction entries with
  | nil => exact .inl (List.mem_singleton.mp h)
  | cons first rest ih =>
    rw [setKey] at h
    split_ifs at h with hkey
    · rcases List.mem_cons.mp h with rfl | hrest
      · exact .inl rfl
      · exact .inr (List.mem_cons_of_mem _ hrest)
    rcases List.mem_cons.mp h with rfl | hrest
    · exact .inr List.mem_cons_self
    · exact (ih hrest).imp_right (List.mem_cons_of_mem _)

theorem mem_keys_setKey (h : key' ∈ (setKey entries key value).map Prod.fst) :
    key' = key ∨ key' ∈ entries.map Prod.fst := by
  obtain ⟨entry, hentry, rfl⟩ := List.mem_map.mp h
  rcases mem_setKey hentry with rfl | hentry
  · exact .inl rfl
  · exact .inr (List.mem_map_of_mem hentry)

theorem keys_setKey_of_mem (h : key ∈ entries.map Prod.fst) :
    (setKey entries key value).map Prod.fst = entries.map Prod.fst := by
  induction entries with
  | nil => exact absurd h List.not_mem_nil
  | cons entry rest ih =>
    rw [List.map_cons, List.mem_cons] at h
    rw [setKey]
    split_ifs with hkey
    · rw [List.map_cons, List.map_cons, hkey]
    · rw [List.map_cons, List.map_cons, ih (h.resolve_left (Ne.symm hkey))]

theorem mem_of_lookup (h : entries.lookup key = some value) : (key, value) ∈ entries := by
  obtain ⟨before, after, rfl, -⟩ := List.lookup_eq_some_iff.mp h
  exact List.mem_append_right _ List.mem_cons_self

theorem nodup_setKey (h : (entries.map Prod.fst).Nodup) :
    ((setKey entries key value).map Prod.fst).Nodup := by
  induction entries with
  | nil => exact List.nodup_cons.mpr ⟨List.not_mem_nil, List.nodup_nil⟩
  | cons first rest ih =>
    rw [List.map_cons, List.nodup_cons] at h
    rw [setKey]
    split_ifs with hkey
    · rw [List.map_cons, List.nodup_cons]
      exact ⟨hkey ▸ h.1, h.2⟩
    rw [List.map_cons, List.nodup_cons]
    refine ⟨fun hmem ↦ ?_, ih h.2⟩
    obtain ⟨entry, hentry, heq⟩ := List.mem_map.mp hmem
    rcases mem_setKey hentry with rfl | hentry
    · exact hkey heq.symm
    · exact h.1 (heq ▸ List.mem_map_of_mem hentry)

theorem nodup_deleteKey (h : (entries.map Prod.fst).Nodup) :
    ((deleteKey entries key).map Prod.fst).Nodup :=
  h.sublist (List.filter_sublist.map _)

theorem find?_values {keyOf : β → α} (h : ∀ entry ∈ entries, keyOf entry.2 = entry.1) (key : α) :
    (entries.map Prod.snd).find? (fun value ↦ decide (keyOf value = key)) = entries.lookup key := by
  induction entries with
  | nil => rfl
  | cons entry rest ih =>
    rw [List.forall_mem_cons] at h
    rw [List.map_cons, List.find?_cons, List.lookup_cons, h.1, ih h.2]
    by_cases hkey : entry.1 = key
    · rw [decide_eq_true hkey, beq_iff_eq.mpr hkey.symm]
    · rw [decide_eq_false hkey, beq_false_of_ne (Ne.symm hkey)]

theorem lookup_foldl_deleteKey (keys : List α) (entries : List (α × β)) (key : α) :
    (keys.foldl deleteKey entries).lookup key =
      if key ∈ keys then none else entries.lookup key := by
  induction keys generalizing entries with
  | nil => exact (if_neg List.not_mem_nil).symm
  | cons first keys ih =>
    rw [List.foldl_cons, ih]
    by_cases hfirst : key = first
    · subst hfirst
      rw [lookup_deleteKey_self, ite_self, if_pos List.mem_cons_self]
    · rw [lookup_deleteKey_of_ne hfirst]
      simp only [List.mem_cons, hfirst, false_or]

end OpenAlice.Data
