import Mathlib.Data.List.Infix

/-!
# Scanning a text

What a regular expression does whose choices are never undone.  A *matcher* looks at what is left of
a text, and gives what it makes of it.  `search` takes the leftmost place at which it matches,
`upTo` everything before the first place at which what follows matches, and `replaceAll` replaces
every match.  `strip` matches a fixed text, up to how units are folded.

The rules say where nothing matches: `Clear m s` when `m` matches at no place of `s`, whatever follows
it.  A text that is put together is clear when its parts are (`Clear.append`).  `Free p s` says less,
that the text `p` does not occur in `s`; with a unit behind it that is not in `p`, `s` is clear.

Nothing here knows what the units are.
-/

universe u v

namespace OpenAlice.Data

variable {α : Type u} {β : Type v}

/-! ## Searching -/

/-- What a matcher makes of the leftmost place at which it matches; the end is a place too. -/
def search (m : List α → Option β) : List α → Option β
  | [] => m []
  | a :: s => (m (a :: s)).or (search m s)

/-- What is before the first place at which `stop` matches, and what `stop` makes of it. -/
def upTo (stop : List α → Option β) : List α → Option (List α × β)
  | [] => (stop []).map ([], ·)
  | a :: s =>
    match stop (a :: s) with
    | some result => some ([], result)
    | none => (upTo stop s).map fun found ↦ (a :: found.1, found.2)

/-- Replace every match by what a matcher gives for it, next to what is left behind it. -/
def replaceAll (m : List α → Option (List α × List α)) : List α → List α
  | [] => []
  | a :: s =>
    match m (a :: s) with
    | some (out, rest) => if rest.length ≤ s.length then out ++ replaceAll m rest else out
    | none => a :: replaceAll m s
termination_by s => s.length

section Search

variable {m : List α → Option β} {s before : List α}

theorem search_eq_none (h : ∀ t, t <:+ s → m t = none) : search m s = none := by
  induction s with
  | nil => exact h [] List.suffix_rfl
  | cons a s ih =>
    rw [search, h _ List.suffix_rfl, Option.none_or]
    exact ih fun t ht ↦ h t (ht.trans (List.suffix_cons a s))

theorem upTo_eq_none (h : ∀ t, t <:+ s → m t = none) : upTo m s = none := by
  induction s with
  | nil => rw [upTo, h [] List.suffix_rfl, Option.map_none]
  | cons a s ih =>
    rw [upTo, h _ List.suffix_rfl]
    exact Option.map_eq_none_iff.mpr (ih fun t ht ↦ h t (ht.trans (List.suffix_cons a s)))

/-- A matcher matches at no place of a text, whatever follows it. -/
def Clear (m : List α → Option β) (s : List α) : Prop :=
  ∀ t, t ≠ [] → t <:+ s → ∀ r, m (t ++ r) = none

theorem clear_nil : Clear m [] := fun _ hne ht ↦ absurd (List.suffix_nil.mp ht) hne

/-- Texts that are put together, where the first is known to be followed by the second. -/
theorem clear_append_of {t : List α}
    (hs : ∀ a, a ≠ [] → a <:+ s → ∀ r, m (a ++ (t ++ r)) = none) (ht : Clear m t) :
    Clear m (s ++ t) := by
  induction s with
  | nil => exact ht
  | cons a s ih =>
    intro r hne hr tail
    rw [List.cons_append] at hr
    rcases List.suffix_cons_iff.mp hr with rfl | hr
    · rw [← List.cons_append, List.append_assoc]
      exact hs _ (List.cons_ne_nil a s) List.suffix_rfl tail
    · refine ih (fun q hq hqs ↦ ?_) r hne hr tail
      exact hs q hq (hqs.trans (List.suffix_cons a s))

theorem Clear.append {t : List α} (hs : Clear m s) (ht : Clear m t) : Clear m (s ++ t) :=
  clear_append_of (fun a hne ha r ↦ hs a hne ha (t ++ r)) ht

theorem Clear.mono {γ : Type v} {m' : List α → Option γ} (h : Clear m s)
    (hm : ∀ r, m r = none → m' r = none) : Clear m' s :=
  fun t hne ht r ↦ hm _ (h t hne ht r)

theorem clear_flatMap {γ : Type v} {f : γ → List α} {l : List γ} (h : ∀ a ∈ l, Clear m (f a)) :
    Clear m (l.flatMap f) := by
  induction l with
  | nil => exact clear_nil
  | cons a l ih =>
    rw [List.forall_mem_cons] at h
    rw [List.flatMap_cons]
    exact h.1.append (ih h.2)

theorem Clear.search_append (h : Clear m before) (s : List α) :
    search m (before ++ s) = search m s := by
  induction before with
  | nil => rfl
  | cons a before ih =>
    rw [List.cons_append, search, ← List.cons_append,
      h _ (List.cons_ne_nil a before) List.suffix_rfl, Option.none_or]
    exact ih fun t hne ht ↦ h t hne (ht.trans (List.suffix_cons a before))

theorem Clear.eq_none (h : Clear m s) (hnil : m [] = none) {t : List α} (ht : t <:+ s) :
    m t = none := by
  by_cases hne : t = []
  · exact hne ▸ hnil
  · rw [← List.append_nil t]
    exact h t hne ht []

theorem search_of_some {b : β} (h : m s = some b) : search m s = some b := by
  cases s with
  | nil => exact h
  | cons a s => rw [search, h, Option.some_or]

theorem upTo_append {stop : List α → Option β} {b : β}
    (h : ∀ t, t ≠ [] → t <:+ before → stop (t ++ s) = none) (hstop : stop s = some b) :
    upTo stop (before ++ s) = some (before, b) := by
  induction before with
  | nil =>
    cases s with
    | nil => rw [List.nil_append, upTo, hstop, Option.map_some]
    | cons a s => rw [List.nil_append, upTo, hstop]
  | cons a before ih =>
    have hnone := h _ (List.cons_ne_nil a before) List.suffix_rfl
    rw [List.cons_append] at hnone
    rw [List.cons_append, upTo, hnone]
    simp only [ih fun t hne ht ↦ h t hne (ht.trans (List.suffix_cons a before)), Option.map_some]

end Search

section Replace

variable {m : List α → Option (List α × List α)} {s : List α}

theorem replaceAll_of_none {a : α} (h : m (a :: s) = none) :
    replaceAll m (a :: s) = a :: replaceAll m s := by
  rw [replaceAll, h]

theorem replaceAll_of_some {a : α} {out rest : List α} (h : m (a :: s) = some (out, rest))
    (hrest : rest.length ≤ s.length) : replaceAll m (a :: s) = out ++ replaceAll m rest := by
  rw [replaceAll, h]
  exact if_pos hrest

theorem replaceAll_eq_self (h : ∀ t, t <:+ s → m t = none) : replaceAll m s = s := by
  induction s with
  | nil => rw [replaceAll]
  | cons a s ih =>
    rw [replaceAll_of_none (h _ List.suffix_rfl)]
    exact congrArg (a :: ·) (ih fun t ht ↦ h t (ht.trans (List.suffix_cons a s)))

theorem Clear.replaceAll_append {before : List α} (h : Clear m before) (s : List α) :
    replaceAll m (before ++ s) = before ++ replaceAll m s := by
  induction before with
  | nil => rfl
  | cons a before ih =>
    have hnone := h _ (List.cons_ne_nil a before) List.suffix_rfl s
    rw [List.cons_append] at hnone
    rw [List.cons_append, replaceAll_of_none hnone,
      ih fun t hne ht ↦ h t hne (ht.trans (List.suffix_cons a before)), List.cons_append]

end Replace

/-! ## Fixed texts -/

variable [DecidableEq α]

def strip (fold : α → α) : List α → List α → Option (List α)
  | [], s => some s
  | _ :: _, [] => none
  | b :: p, a :: s => if fold a = b then strip fold p s else none

def Free (fold : α → α) (p s : List α) : Prop := ∀ t, t <:+ s → strip fold p t = none

instance (fold : α → α) (p s : List α) : Decidable (Free fold p s) :=
  decidable_of_iff (∀ t ∈ s.tails, strip fold p t = none)
    (forall_congr' fun t ↦ imp_congr_left (List.mem_tails t s))

def clash (fold : α → α) : List α → List α → Bool
  | b :: p, a :: s => fold a != b || clash fold p s
  | _, _ => false

variable {fold : α → α} {p s t : List α} {a b : α}

theorem strip_append (h : t.map fold = p) (s : List α) : strip fold p (t ++ s) = some s := by
  induction t generalizing p with
  | nil =>
    subst h
    rfl
  | cons a t ih =>
    subst h
    rw [List.map_cons, List.cons_append, strip, if_pos rfl]
    exact ih rfl

theorem strip_cons_of_eq (h : fold a = b) : strip fold (b :: p)
    (a :: s) = strip fold p s := if_pos h

theorem strip_cons_of_ne (h : fold a ≠ b) : strip fold (b :: p) (a :: s) = none := if_neg h

theorem strip_of_clash (h : clash fold p t = true) (s : List α) : strip fold p (t ++ s) = none := by
  induction t generalizing p with
  | nil => cases p <;> cases h
  | cons a t ih =>
    cases p with
    | nil => cases h
    | cons b p =>
      rw [clash, Bool.or_eq_true, bne_iff_ne] at h
      rw [List.cons_append, strip]
      split_ifs with heq
      · exact ih (h.resolve_left fun hne ↦ hne heq)
      · rfl

/-- A unit that is not in a fixed text ends what can be matched. -/
theorem strip_joint (ha : fold a ∉ p) (h : strip fold p t = none) :
    strip fold p (t ++ a :: s) = none := by
  induction t generalizing p with
  | nil =>
    cases p with
    | nil => cases h
    | cons b p => exact strip_cons_of_ne fun heq ↦ ha (heq ▸ List.mem_cons_self)
  | cons c t ih =>
    cases p with
    | nil => cases h
    | cons b p =>
      rw [strip] at h
      rw [List.cons_append, strip]
      split_ifs at h ⊢
      · exact ih (fun hmem ↦ ha (List.mem_cons_of_mem b hmem)) h
      · rfl

theorem Free.suffix (h : Free fold p s) (ht : t <:+ s) : Free fold p t :=
  fun r hr ↦ h r (hr.trans ht)

theorem strip_congr {fold' : α → α} (h : ∀ b ∈ p, ∀ a, fold a = b ↔ fold' a = b) (s : List α) :
    strip fold p s = strip fold' p s := by
  induction p generalizing s with
  | nil => rfl
  | cons b p ih =>
    rw [List.forall_mem_cons] at h
    cases s with
    | nil => rfl
    | cons a s => rw [strip, strip, if_congr (h.1 a) (ih h.2 s) rfl]

theorem strip_suffix {r : List α} (h : strip fold p s = some r) : r <:+ s := by
  induction p generalizing s with
  | nil =>
    obtain rfl : s = r := Option.some.inj h
    exact List.suffix_rfl
  | cons b p ih =>
    cases s with
    | nil => cases h
    | cons a s =>
      rw [strip] at h
      split_ifs at h
      exact (ih h).trans (List.suffix_cons a s)

theorem strip_of_forall (hb : b ∈ p) (h : ∀ a ∈ s, fold a ≠ b) : strip fold p s = none := by
  induction p generalizing s with
  | nil => exact absurd hb List.not_mem_nil
  | cons c p ih =>
    cases s with
    | nil => rfl
    | cons a s =>
      rw [List.forall_mem_cons] at h
      rw [strip]
      split_ifs with heq
      · refine ih ((List.mem_cons.mp hb).resolve_left fun hbc ↦ ?_) h.2
        exact h.1 (heq.trans hbc.symm)
      · rfl

theorem free_of_forall (hb : b ∈ p) (h : ∀ a ∈ s, fold a ≠ b) : Free fold p s :=
  fun _ ht ↦ strip_of_forall hb fun a ha ↦ h a (ht.subset ha)

theorem clear_of_forall (h : ∀ a ∈ s, fold a ≠ b) : Clear (strip fold (b :: p)) s := by
  intro t hne ht r
  obtain ⟨a, t, rfl⟩ := List.exists_cons_of_ne_nil hne
  rw [List.cons_append]
  exact strip_cons_of_ne (h a (ht.subset List.mem_cons_self))

theorem clear_of_clash (hclash : clash fold (b :: p) (a :: s) = true) (h : ∀ c ∈ s, fold c ≠ b) :
    Clear (strip fold (b :: p)) (a :: s) := by
  intro t hne ht r
  rcases List.suffix_cons_iff.mp ht with rfl | ht
  · exact strip_of_clash hclash r
  · exact clear_of_forall h t hne ht r

theorem Free.clear (h : Free fold p s) (ha : fold a ∉ p) : Clear (strip fold p) (s ++ [a]) := by
  have hsingle : ∀ r, strip fold p (a :: r) = none := by
    intro r
    exact strip_joint ha (t := []) (h _ List.nil_suffix)
  induction s with
  | nil =>
    intro t hne ht r
    obtain rfl : t = [a] := (List.suffix_cons_iff.mp ht).resolve_right fun hnil ↦
      hne (List.suffix_nil.mp hnil)
    exact hsingle r
  | cons c s ih =>
    intro t hne ht r
    rw [List.cons_append] at ht
    rcases List.suffix_cons_iff.mp ht with rfl | ht
    · rw [List.cons_append, List.append_assoc, List.singleton_append, ← List.cons_append]
      exact strip_joint ha (h _ List.suffix_rfl)
    · exact ih (h.suffix (List.suffix_cons c s)) t hne ht r

end OpenAlice.Data
