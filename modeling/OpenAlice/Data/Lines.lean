import Mathlib.Data.List.Basic

/-!
# Lists split at a separator

`lines sep text` is `text` split at every `sep`; a text without one is a single line, and so
is the empty text.  `decodeLines` keeps what the lines decode to.  A text that is `Complete`
is empty or ends in the separator: what is appended to it stands on lines of its own.

Nothing here knows what the text is.
-/

universe u v

namespace OpenAlice.Data

variable {α : Type u} {β : Type v}

def Complete (sep : α) (text : List α) : Prop := text = [] ∨ text.getLast? = some sep

section Complete

variable {sep : α} {text : List α}

theorem complete_nil : Complete sep [] := .inl rfl

theorem complete_concat (text : List α) : Complete sep (text ++ [sep]) := .inr List.getLast?_concat

theorem Complete.cases (h : Complete sep text) : text = [] ∨ ∃ before, text = before ++ [sep] := by
  refine h.imp_right fun hlast ↦ ?_
  obtain ⟨before, hbefore⟩ := List.getLast?_eq_some_iff.mp hlast
  exact ⟨before, hbefore⟩

end Complete

variable [DecidableEq α]

def lines (sep : α) : List α → List (List α)
  | [] => [[]]
  | a :: text =>
    if a = sep then [] :: lines sep text
    else ((lines sep text).head?.elim [a] (a :: ·)) :: (lines sep text).tail

def decodeLines (sep : α) (decode : List α → Option β) (text : List α) : List β :=
  (lines sep text).filterMap decode

variable {sep : α} {decode : List α → Option β} {text text' : List α}

@[simp] theorem lines_nil : lines sep [] = [[]] := rfl

@[simp] theorem lines_sep_cons : lines sep (sep :: text) = [] :: lines sep text := if_pos rfl

theorem lines_cons_of_ne {a : α} (h : a ≠ sep) : lines sep (a :: text) =
      ((lines sep text).head?.elim [a] (a :: ·)) :: (lines sep text).tail := if_neg h

theorem lines_eq_splitOn (sep : α) (text : List α) : lines sep text = text.splitOn sep := by
  induction text with
  | nil => rfl
  | cons a text ih =>
    rw [List.splitOn_cons_eq_if_modifyHead]
    by_cases ha : a = sep
    · subst ha
      rw [lines_sep_cons, ih, if_pos (beq_self_eq_true a)]
    rw [lines_cons_of_ne ha, ih, if_neg (by rwa [beq_iff_eq])]
    obtain ⟨line, rest, hline⟩ := List.exists_cons_of_ne_nil (List.splitOn_ne_nil sep text)
    rw [hline]
    rfl

theorem lines_ne_nil (sep : α) (text : List α) : lines sep text ≠ [] := by
  rw [lines_eq_splitOn]
  exact List.splitOn_ne_nil sep text

theorem lines_append_sep_cons (text text' : List α) :
    lines sep (text ++ sep :: text') = lines sep text ++ lines sep text' := by
  rw [lines_eq_splitOn, lines_eq_splitOn, lines_eq_splitOn]
  exact List.splitOn_append_cons_self text text'

theorem lines_of_notMem (h : sep ∉ text) : lines sep text = [text] := by
  rw [lines_eq_splitOn]
  exact List.splitOn_eq_singleton h

theorem intercalate_lines (sep : α) (text : List α) : [sep].intercalate
    (lines sep text) = text := by
  rw [lines_eq_splitOn]
  exact List.intercalate_splitOn sep

theorem lines_intercalate {ls : List (List α)} (hsep : ∀ line ∈ ls, sep ∉ line) (hne : ls ≠ []) :
    lines sep ([sep].intercalate ls) = ls := by
  rw [lines_eq_splitOn]
  exact List.splitOn_intercalate sep hsep hne

theorem notMem_of_mem_lines {line : List α} (h : line ∈ lines sep text) : sep ∉ line := by
  induction text generalizing line with
  | nil =>
    rw [List.mem_singleton.mp h]
    exact List.not_mem_nil
  | cons a text ih =>
    by_cases ha : a = sep
    · subst ha
      rw [lines_sep_cons] at h
      rcases List.mem_cons.mp h with rfl | h
      · exact List.not_mem_nil
      · exact ih h
    · rw [lines_cons_of_ne ha] at h
      obtain ⟨first, rest, hlines⟩ := List.exists_cons_of_ne_nil (lines_ne_nil sep text)
      rw [hlines] at h ih
      rcases List.mem_cons.mp h with rfl | h
      · exact List.not_mem_cons_of_ne_of_not_mem (Ne.symm ha) (ih List.mem_cons_self)
      · exact ih (List.mem_cons_of_mem first h)

theorem mem_of_mem_lines {line : List α} (h : line ∈ lines sep text) {a : α} (ha : a ∈ line) :
    a ∈ text := by
  induction text generalizing line with
  | nil =>
    rw [List.mem_singleton.mp h] at ha
    exact ha
  | cons b text ih =>
    by_cases hb : b = sep
    · subst hb
      rw [lines_sep_cons] at h
      rcases List.mem_cons.mp h with rfl | h
      · exact nomatch ha
      · exact List.mem_cons_of_mem b (ih h ha)
    · rw [lines_cons_of_ne hb] at h
      obtain ⟨first, rest, hlines⟩ := List.exists_cons_of_ne_nil (lines_ne_nil sep text)
      rw [hlines] at h ih
      rcases List.mem_cons.mp h with rfl | h
      · rcases List.mem_cons.mp ha with rfl | ha
        · exact List.mem_cons_self
        · exact List.mem_cons_of_mem b (ih List.mem_cons_self ha)
      · exact List.mem_cons_of_mem b (ih (List.mem_cons_of_mem first h) ha)

/-- **What is appended to a complete text** stands on lines of its own. -/
theorem decodeLines_append (hnil : decode [] = none) (h : Complete sep text) (text' : List α) :
    decodeLines sep decode (text ++ text') =
      decodeLines sep decode text ++ decodeLines sep decode text' := by
  have hempty : decodeLines sep decode [] = [] := by
    rw [decodeLines, lines_nil, List.filterMap_cons_none hnil, List.filterMap_nil]
  rcases h.cases with rfl | ⟨before, rfl⟩
  · rw [List.nil_append, hempty, List.nil_append]
  have hone : decodeLines sep decode (before ++ [sep]) = decodeLines sep decode before := by
    rw [decodeLines, lines_append_sep_cons, List.filterMap_append]
    exact (congrArg _ hempty).trans (List.append_nil _)
  rw [hone, List.append_assoc, List.singleton_append, decodeLines, lines_append_sep_cons,
    List.filterMap_append]
  rfl

theorem decodeLines_of_notMem (h : sep ∉ text) :
    decodeLines sep decode text = (decode text).toList := by
  rw [decodeLines, lines_of_notMem h, List.filterMap_cons, List.filterMap_nil]
  cases decode text <;> rfl

theorem decodeLines_line (hnil : decode [] = none) (h : sep ∉ text) :
    decodeLines sep decode (text ++ [sep]) = (decode text).toList := by
  rw [decodeLines, lines_append_sep_cons, List.filterMap_append, ← decodeLines, ← decodeLines,
    decodeLines_of_notMem h, decodeLines_of_notMem List.not_mem_nil, hnil]
  exact List.append_nil _

end OpenAlice.Data
