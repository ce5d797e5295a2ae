import OpenAlice.Data.Lines
import Mathlib.Data.List.Induction
import Mathlib.Data.List.TakeWhile

/-!
# Texts up to the spaces around their lines

`trimBy space text` is `text` without the spaces at its ends, and `inked sep space text` are
the lines of `text` that are not blank, each without the spaces around it.  Trimming a text or
taking blank lines from it does not change what is inked, so that counting the inked lines
tells two texts apart where the texts themselves are hard to write down.

Nothing here knows what the text is.
-/

universe u

namespace OpenAlice.Data

variable {α : Type u}

def trimBy (space : α → Bool) (text : List α) : List α :=
  ((text.dropWhile space).reverse.dropWhile space).reverse

/-! ## Trimming -/

section Trim

variable {space : α → Bool} {text : List α} {a : α}

theorem trimBy_cons (h : space a = true) (text : List α) :
    trimBy space (a :: text) = trimBy space text := by
  rw [trimBy, List.dropWhile_cons_of_pos h, trimBy]

theorem trimBy_concat (h : space a = true) (text : List α) :
    trimBy space (text ++ [a]) = trimBy space text := by
  induction text with
  | nil => rw [List.nil_append, trimBy_cons h]
  | cons b text ih =>
    cases hb : space b with
    | true => rw [List.cons_append, trimBy_cons hb, trimBy_cons hb, ih]
    | false =>
      have hneg : ¬ space b = true := by rw [hb]; exact Bool.false_ne_true
      rw [trimBy, List.cons_append, List.dropWhile_cons_of_neg hneg, ← List.cons_append,
        List.reverse_append, List.reverse_singleton, List.singleton_append,
        List.dropWhile_cons_of_pos h, trimBy, List.dropWhile_cons_of_neg hneg]

theorem trimBy_surround {before after : List α} (hbefore : ∀ b ∈ before, space b = true)
    (hafter : ∀ b ∈ after, space b = true) (text : List α) :
    trimBy space (before ++ text ++ after) = trimBy space text := by
  induction before with
  | nil =>
    induction after using List.reverseRecOn with
    | nil => rw [List.nil_append, List.append_nil]
    | append_singleton after b ih =>
      rw [← List.append_assoc, trimBy_concat (hafter b (by simp))]
      exact ih fun c hc ↦ hafter c (List.mem_append_left _ hc)
  | cons b before ih =>
    rw [List.cons_append, List.cons_append, trimBy_cons (hbefore b List.mem_cons_self)]
    exact ih fun c hc ↦ hbefore c (List.mem_cons_of_mem b hc)

theorem exists_trimBy (space : α → Bool) (text : List α) :
    ∃ before after, text = before ++ trimBy space text ++ after ∧
      (∀ b ∈ before, space b = true) ∧ ∀ b ∈ after, space b = true := by
  refine ⟨text.takeWhile space, ((text.dropWhile space).reverse.takeWhile space).reverse,
    ?_, ?_, ?_⟩
  · rw [trimBy, List.append_assoc, ← List.reverse_append, List.takeWhile_append_dropWhile,
      List.reverse_reverse, List.takeWhile_append_dropWhile]
  · exact fun b hb ↦ List.mem_takeWhile_imp hb
  · exact fun b hb ↦ List.mem_takeWhile_imp (List.mem_reverse.mp hb)

theorem length_trimBy_le (space : α → Bool) (text : List α) :
    (trimBy space text).length ≤ text.length := by
  obtain ⟨before, after, htext, -, -⟩ := exists_trimBy space text
  have hlength := congrArg List.length htext
  rw [List.length_append, List.length_append] at hlength
  omega

theorem trimBy_eq_nil_iff : trimBy space text = [] ↔ ∀ b ∈ text, space b = true := by
  constructor
  · intro h b hb
    obtain ⟨before, after, htext, hbefore, hafter⟩ := exists_trimBy space text
    rw [h, List.append_nil] at htext
    rw [htext] at hb
    exact (List.mem_append.mp hb).elim (hbefore b) (hafter b)
  · intro h
    have hall := trimBy_surround h (List.forall_mem_nil _) ([] : List α)
    rwa [List.append_nil, List.append_nil] at hall

@[simp] theorem trimBy_trimBy (space : α → Bool) (text : List α) :
    trimBy space (trimBy space text) = trimBy space text := by
  obtain ⟨before, after, htext, hbefore, hafter⟩ := exists_trimBy space text
  conv_rhs => rw [htext]
  exact (trimBy_surround hbefore hafter _).symm

theorem trimBy_of_ends {b : α} (ha : space a = false) (hb : space b = false)
    (hfirst : ∃ rest, text = a :: rest) (hlast : ∃ rest, text = rest ++ [b]) :
    trimBy space text = text := by
  obtain ⟨rest, hrest⟩ := hfirst
  obtain ⟨middle, hlast⟩ := hlast
  rw [trimBy, hrest, List.dropWhile_cons_of_neg (by rw [ha]; exact Bool.false_ne_true), ← hrest,
    hlast, List.reverse_append, List.reverse_singleton, List.singleton_append,
    List.dropWhile_cons_of_neg (by rw [hb]; exact Bool.false_ne_true), List.reverse_cons,
    List.reverse_reverse]

theorem head_of_trimBy_eq {rest : List α} (h : trimBy space (a :: rest) = a :: rest) :
    space a = false := by
  by_contra ha
  have hlength := congrArg List.length h
  rw [trimBy_cons ((Bool.not_eq_false _).mp ha), List.length_cons] at hlength
  have := length_trimBy_le space rest
  omega

theorem last_of_trimBy_eq {rest : List α} (h : trimBy space (rest ++ [a]) = rest ++ [a]) :
    space a = false := by
  by_contra ha
  have hlength := congrArg List.length h
  rw [trimBy_concat ((Bool.not_eq_false _).mp ha), List.length_append, List.length_singleton]
    at hlength
  have := length_trimBy_le space rest
  omega

theorem ends_of_trimBy_eq (h : trimBy space text = text) (hne : text ≠ []) :
    (∃ a rest, text = a :: rest ∧ space a = false) ∧
      ∃ b rest, text = rest ++ [b] ∧ space b = false := by
  constructor
  · obtain ⟨a, rest, rfl⟩ := List.exists_cons_of_ne_nil hne
    exact ⟨a, rest, rfl, head_of_trimBy_eq h⟩
  obtain ⟨rest, b, rfl⟩ := (List.eq_nil_or_concat text).resolve_left hne
  rw [List.concat_eq_append] at h ⊢
  exact ⟨b, rest, rfl, last_of_trimBy_eq h⟩

theorem trimBy_flatMap {f : α → List α} (hspace : ∀ a, space a = true → f a = [a])
    (hink : ∀ a, space a = false → trimBy space (f a) = f a ∧ f a ≠ []) (text : List α) :
    trimBy space (text.flatMap f) = (trimBy space text).flatMap f := by
  have hspaces : ∀ l : List α, (∀ b ∈ l, space b = true) → l.flatMap f = l := by
    intro l hl
    rw [List.flatMap_congr fun b hb ↦ hspace b (hl b hb)]
    exact List.flatMap_singleton' l
  obtain ⟨before, after, htext, hbefore, hafter⟩ := exists_trimBy space text
  have hcore := trimBy_trimBy space text
  generalize trimBy space text = core at htext hcore ⊢
  subst htext
  rw [List.flatMap_append, List.flatMap_append, hspaces before hbefore, hspaces after hafter,
    trimBy_surround hbefore hafter]
  by_cases hne : core = []
  · rw [hne]
    rfl
  obtain ⟨⟨a, rest, hfirst, ha⟩, b, rest', hlast, hb⟩ := ends_of_trimBy_eq hcore hne
  obtain ⟨⟨x, head, hx, hxink⟩, -⟩ := ends_of_trimBy_eq (hink a ha).1 (hink a ha).2
  obtain ⟨-, y, tail, hy, hyink⟩ := ends_of_trimBy_eq (hink b hb).1 (hink b hb).2
  refine trimBy_of_ends hxink hyink ⟨head ++ rest.flatMap f, ?_⟩ ⟨rest'.flatMap f ++ tail, ?_⟩
  · rw [hfirst, List.flatMap_cons, hx, List.cons_append]
  · rw [hlast, List.flatMap_append, List.flatMap_singleton, hy, List.append_assoc]

theorem trimBy_append {text' : List α} (h : trimBy space text = text)
    (h' : trimBy space text' = text') (hne : text ≠ []) (hne' : text' ≠ []) (middle : List α) :
    trimBy space (text ++ middle ++ text') = text ++ middle ++ text' := by
  obtain ⟨a, rest, rfl⟩ := List.exists_cons_of_ne_nil hne
  cases text' using List.reverseRecOn with
  | nil => exact (hne' rfl).elim
  | append_singleton front b =>
    refine trimBy_of_ends (head_of_trimBy_eq h) (last_of_trimBy_eq h') ⟨_, rfl⟩
      ⟨a :: rest ++ middle ++ front, ?_⟩
    rw [List.append_assoc _ front]

end Trim

/-! ## Inked lines -/

section Inked

variable [DecidableEq α]

def inked (sep : α) (space : α → Bool) (text : List α) : List (List α) :=
  ((lines sep text).map (trimBy space)).filter (· ≠ [])

variable {sep a : α} {space : α → Bool} {text text' : List α}

@[simp] theorem inked_nil : inked sep space [] = [] := rfl

theorem inked_append_sep_cons (text text' : List α) :
    inked sep space (text ++ sep :: text') = inked sep space text ++ inked sep space text' := by
  rw [inked, lines_append_sep_cons, List.map_append, List.filter_append]
  rfl

theorem inked_sep_cons (text : List α) : inked sep space (sep :: text) = inked sep space text :=
  inked_append_sep_cons [] text

theorem inked_of_notMem (h : sep ∉ text) :
    inked sep space text = if trimBy space text = [] then [] else [trimBy space text] := by
  rw [inked, lines_of_notMem h, List.map_singleton]
  split_ifs with hblank
  · rw [hblank]
    rfl
  · exact List.filter_cons_of_pos (decide_eq_true hblank)

theorem inked_intercalate {ls : List (List α)} (hsep : ∀ line ∈ ls, sep ∉ line) :
    inked sep space ([sep].intercalate ls) = (ls.map (trimBy space)).filter (· ≠ []) := by
  cases ls with
  | nil => rfl
  | cons line ls => rw [inked, lines_intercalate hsep (List.cons_ne_nil _ _)]

theorem exists_last_line (sep : α) (text : List α) :
    ∃ before line, sep ∉ line ∧ (text = line ∨ text = before ++ sep :: line) := by
  by_cases h : sep ∈ text
  · obtain ⟨after, before, htext, hafter⟩ := List.eq_append_cons_of_mem (List.mem_reverse.mpr h)
    refine ⟨before.reverse, after.reverse, by rwa [List.mem_reverse], .inr ?_⟩
    rw [← List.reverse_reverse text, htext, List.reverse_append, List.reverse_cons,
      List.append_assoc, List.singleton_append]
  · exact ⟨[], text, h, .inl rfl⟩

theorem takeWhile_inked {p : List α → Bool} (hp : p [] = true) (text : List α) :
    (((lines sep text).takeWhile fun line ↦ p (trimBy space line)).map (trimBy space)).filter
      (· ≠ []) = (inked sep space text).takeWhile p := by
  rw [inked, List.takeWhile_filter, List.takeWhile_map]
  congr 3
  funext line
  by_cases hline : trimBy space line = []
  · rw [Function.comp_apply, hline, hp, Bool.or_true]
  · rw [Function.comp_apply, decide_eq_true hline, Bool.not_true, Bool.false_or]

theorem tail_dropWhile_inked {p : List α → Bool} (hp : p [] = true) (text : List α) :
    ((((lines sep text).dropWhile fun line ↦ p (trimBy space line)).tail).map (trimBy space)).filter
      (· ≠ []) = ((inked sep space text).dropWhile p).tail := by
  have hink : (((lines sep text).dropWhile fun line ↦ p (trimBy space line)).map
      (trimBy space)).filter (· ≠ []) = (inked sep space text).dropWhile p := by
    rw [inked, List.dropWhile_filter, List.dropWhile_map]
    congr 3
    funext line
    by_cases hline : trimBy space line = []
    · rw [Function.comp_apply, hline, hp, Bool.or_true]
    · rw [Function.comp_apply, decide_eq_true hline, Bool.not_true, Bool.false_or]
  rw [← hink]
  cases hdrop : (lines sep text).dropWhile fun line ↦ p (trimBy space line) with
  | nil => rfl
  | cons line after =>
    -- The line to stop at is not blank.
    have hline : trimBy space line ≠ [] := by
      intro hblank
      have hne : (lines sep text).dropWhile (fun line ↦ p (trimBy space line)) ≠ [] := by
        rw [hdrop]
        exact List.cons_ne_nil _ _
      have hp' := List.head_dropWhile_not (fun line ↦ p (trimBy space line)) hne
      simp only [hdrop, List.head_cons, hblank, hp] at hp'
      exact nomatch hp'
    rw [List.tail_cons, List.map_cons, List.filter_cons, if_pos (decide_eq_true hline),
      List.tail_cons]

section Space

variable (hsep : space sep = true)

theorem inked_cons (ha : space a = true) (text : List α) :
    inked sep space (a :: text) = inked sep space text := by
  by_cases h : a = sep
  · subst h
    exact inked_sep_cons text
  obtain ⟨line, rest, hlines⟩ := List.exists_cons_of_ne_nil (lines_ne_nil sep text)
  rw [inked, lines_cons_of_ne h, inked, hlines]
  simp only [List.head?_cons, Option.elim_some, List.tail_cons, List.map_cons, trimBy_cons ha]

theorem inked_concat (ha : space a = true) (text : List α) :
    inked sep space (text ++ [a]) = inked sep space text := by
  by_cases h : a = sep
  · subst h
    rw [inked_append_sep_cons, inked_nil, List.append_nil]
  have hone : ∀ line, sep ∉ line → inked sep space (line ++ [a]) = inked sep space line := by
    intro line hline
    have hline' : sep ∉ line ++ [a] := by
      rw [List.mem_append, List.mem_singleton, not_or]
      exact ⟨hline, Ne.symm h⟩
    rw [inked_of_notMem hline', inked_of_notMem hline, trimBy_concat ha]
  obtain ⟨before, line, hline, rfl | rfl⟩ := exists_last_line sep text
  · exact hone _ hline
  · rw [List.append_assoc, List.cons_append, inked_append_sep_cons, inked_append_sep_cons,
      hone line hline]

@[simp] theorem inked_trimBy (text : List α) :
    inked sep space (trimBy space text) = inked sep space text := by
  obtain ⟨before, after, htext, hbefore, hafter⟩ := exists_trimBy space text
  have hfront : ∀ b t, (∀ c ∈ b, space c = true) →
      inked sep space (b ++ t) = inked sep space t := by
    intro b t hb
    induction b with
    | nil => rfl
    | cons c b ih =>
      rw [List.cons_append, inked_cons (hb c List.mem_cons_self)]
      exact ih fun d hd ↦ hb d (List.mem_cons_of_mem c hd)
  have hback : ∀ b t, (∀ c ∈ b, space c = true) → inked sep space (t ++ b) = inked sep space t := by
    intro b t hb
    induction b using List.reverseRecOn with
    | nil => rw [List.append_nil]
    | append_singleton b c ih =>
      rw [← List.append_assoc, inked_concat (hb c (by simp))]
      exact ih fun d hd ↦ hb d (List.mem_append_left _ hd)
  conv_rhs => rw [htext, hback _ _ hafter, hfront _ _ hbefore]

end Space

theorem inked_eq_nil_iff (hsep : space sep = true) :
    inked sep space text = [] ↔ trimBy space text = [] := by
  constructor
  · intro h
    rw [trimBy_eq_nil_iff]
    induction text with
    | nil => exact fun b hb ↦ nomatch hb
    | cons c text ih =>
      have hc : space c = true := by
        by_cases heq : c = sep
        · rwa [heq]
        by_contra hc
        obtain ⟨line, rest, hlines⟩ := List.exists_cons_of_ne_nil (lines_ne_nil sep text)
        rw [inked, lines_cons_of_ne heq, hlines] at h
        have hblank := List.filter_eq_nil_iff.mp h _ List.mem_cons_self
        rw [decide_eq_true_eq, not_not, trimBy_eq_nil_iff] at hblank
        exact hc (hblank c List.mem_cons_self)
      rw [inked_cons hc] at h
      intro b hb
      rcases List.mem_cons.mp hb with rfl | hb
      · exact hc
      · exact ih h b hb
  · intro h
    rw [← inked_trimBy, h, inked_nil]

end Inked

end OpenAlice.Data
