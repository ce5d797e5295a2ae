import OpenAlice.Data.Patched
import OpenAlice.Data.Trimmed
import OpenAlice.Workspaces.Adapters.OwnedToml

/-!
# The lines of a TOML file by their keys

A line assigns at most one key (`keyOf`), and a file is its top level and what follows from the first
section on.  In these terms `findTopLevelLine` finds the line of a key, and `apply` exchanges it,
drops it or adds one at the end of the top level (`applyLine_eq`).  Written lines are read back as
they are, when their texts have no line breaks and not all of them are blank.
-/

namespace OpenAlice.Workspaces.Adapters

open Data Scheduling

/-! ## Keys -/

def keyOf (line : Line) : Option Line :=
  let body := line.dropWhile isSpace
  let key := body.takeWhile isKeyChar
  if isSafeKey key ∧ ((body.drop key.length).dropWhile isSpace).head? = some '=' then some key
  else none

theorem isKeyChar_of_isSpace {c : Char} (h : isSpace c = true) : isKeyChar c = false := by
  have hspace : c.toNat ≤ 32 ∨ 127 < c.toNat := by
    simp only [isSpace, List.contains_cons, List.contains_nil, Bool.or_eq_true, beq_iff_eq,
      Bool.and_eq_true, decide_eq_true_eq, Bool.false_eq_true, or_false] at h
    omega
  refine Bool.eq_false_iff.mpr fun hkey ↦ ?_
  have hword : 32 < c.toNat ∧ c.toNat ≤ 127 := by
    rw [isKeyChar] at hkey
    delta Char.isAlphanum Char.isAlpha Char.isUpper Char.isLower Char.isDigit at hkey
    simp only [Bool.or_eq_true, Bool.and_eq_true, decide_eq_true_eq, ge_iff_le,
      UInt32.le_iff_toNat_le] at hkey
    rcases hkey with (((⟨h₁, h₂⟩ | ⟨h₁, h₂⟩) | ⟨h₁, h₂⟩) | rfl) | rfl
    · exact ⟨lt_of_lt_of_le (by decide) h₁, le_trans h₂ (by decide)⟩
    · exact ⟨lt_of_lt_of_le (by decide) h₁, le_trans h₂ (by decide)⟩
    · exact ⟨lt_of_lt_of_le (by decide) h₁, le_trans h₂ (by decide)⟩
    · decide
    · decide
  omega

theorem isKeyChar_eq : isKeyChar '=' = false := by decide

theorem all_isKeyChar {key : Line} (h : isSafeKey key = true) : ∀ c ∈ key, isKeyChar c = true := by
  rw [isSafeKey, Bool.and_eq_true] at h
  exact List.all_eq_true.mp h.2

theorem takeWhile_key {key rest : Line} (hkey : ∀ c ∈ key, isKeyChar c = true)
    (hrest : (rest.dropWhile isSpace).head? = some '=') :
    (key ++ rest).takeWhile isKeyChar = key := by
  rw [List.takeWhile_append_of_pos hkey]
  cases rest with
  | nil => exact List.append_nil _
  | cons c rest =>
    have hc : isKeyChar c = false := by
      rw [List.dropWhile_cons] at hrest
      split_ifs at hrest with hspace
      · exact isKeyChar_of_isSpace hspace
      · exact Option.some.inj hrest ▸ isKeyChar_eq
    rw [List.takeWhile_cons_of_neg (by rw [hc]; exact Bool.false_ne_true), List.append_nil]

theorem assigns_iff {key : Line} (hsafe : isSafeKey key = true) (line : Line) :
    assigns key line = true ↔ keyOf line = some key := by
  rw [assigns, Bool.and_eq_true, decide_eq_true_iff, List.isPrefixOf_iff_prefix, keyOf]
  constructor
  · rintro ⟨⟨rest, hbody⟩, heq⟩
    rw [← hbody, List.drop_left] at heq
    have htake := takeWhile_key (all_isKeyChar hsafe) heq
    simp only [← hbody, htake, List.drop_left]
    exact if_pos ⟨hsafe, heq⟩
  · intro h
    split_ifs at h with hcond
    cases h
    exact ⟨List.takeWhile_prefix _, hcond.2⟩

theorem keyOf_injected {desired : OwnedTomlEntry} {line : Line}
    (hsafe : isSafeKey desired.key = true) (h : desired.injected = some line) :
    keyOf line = some desired.key := by
  rw [OwnedTomlEntry.injected, Option.map_eq_some_iff] at h
  obtain ⟨value, -, rfl⟩ := h
  refine (assigns_iff hsafe _).mp ?_
  have hhead : ∃ c rest, desired.key = c :: rest ∧ isSpace c = false := by
    cases hkey : desired.key with
    | nil =>
      rw [hkey] at hsafe
      cases hsafe
    | cons c rest =>
      refine ⟨c, rest, rfl, Bool.eq_false_iff.mpr fun hspace ↦ ?_⟩
      have hc := all_isKeyChar hsafe c (hkey ▸ List.mem_cons_self)
      rw [isKeyChar_of_isSpace hspace] at hc
      cases hc
  obtain ⟨c, rest, hkey, hc⟩ := hhead
  have hbody : (desired.key ++ " = ".toList ++ value).dropWhile isSpace =
      desired.key ++ (" = ".toList ++ value) := by
    rw [List.append_assoc, hkey, List.cons_append]
    exact List.dropWhile_cons_of_neg (by rw [hc]; exact Bool.false_ne_true)
  rw [assigns, Bool.and_eq_true, hbody, List.drop_left, List.isPrefixOf_iff_prefix]
  exact ⟨List.prefix_append _ _, by rfl⟩

theorem isSection_of_keyOf {line key : Line} (h : keyOf line = some key) :
    isSection line = false := by
  rw [keyOf] at h
  split_ifs at h with hcond
  refine Bool.eq_false_iff.mpr fun hsection ↦ ?_
  have hhead : (line.dropWhile isSpace).head? = some '[' := of_decide_eq_true hsection
  obtain ⟨rest, hbody⟩ := List.head?_eq_some_iff.mp hhead
  rw [hbody] at hcond
  exact absurd hcond.1 (by simp [isSafeKey, isKeyChar])

/-! ## The top level -/

/-- What comes before the first section, and what follows. -/
structure TopLevel (top rest : List Line) : Prop where
  top : ∀ line ∈ top, isSection line = false
  rest : ∀ line, rest.head? = some line → isSection line = true

def lineOf (top : List Line) (key : Line) : Option Line := top.find? (keyOf · = some key)

def Once (top : List Line) (key : Line) : Prop := (top.map keyOf).count (some key) ≤ 1

def putLine (top : List Line) (key : Line) (saved : Option Line) : List Line :=
  match saved with
  | none => dropKey keyOf key top
  | some line => if lineOf top key = none then top ++ [line] else exchangeKey keyOf key line top

section TopLevel

variable {top rest : List Line} {key line : Line} {saved : Option Line}

theorem TopLevel.sectionIndex (h : TopLevel top rest) : sectionIndex
    (top ++ rest) = top.length := by
  have htop : top.findIdx isSection = top.length :=
    List.findIdx_eq_length.mpr fun line hline ↦ h.top line hline
  have hrest : rest.findIdx isSection = 0 := by
    cases rest with
    | nil => rfl
    | cons line rest => rw [List.findIdx_cons, h.rest line rfl]; rfl
  rw [Adapters.sectionIndex, List.findIdx_append, htop, if_neg (lt_irrefl _), hrest, Nat.zero_add]

theorem lineOf_eq_none_iff : lineOf top key = none ↔ Lacks keyOf top key := by
  rw [lineOf, List.find?_eq_none]
  exact forall₂_congr fun line _ ↦ by rw [decide_eq_true_iff]

theorem keyOf_of_lineOf (h : lineOf top key = some line) : line ∈ top ∧ keyOf line = some key :=
  ⟨List.mem_of_find?_eq_some h,
    of_decide_eq_true (List.find?_some (p := fun line ↦ decide (keyOf line = some key)) h)⟩

theorem split_of_lineOf (hline : lineOf top key = some line) :
    ∃ before after, top = before ++ line :: after ∧ Lacks keyOf before key ∧
      keyOf line = some key := by
  obtain ⟨hkey, before, after, rfl, hbefore⟩ := List.find?_eq_some_iff_append.mp hline
  refine ⟨before, after, rfl, fun other hother heq ↦ ?_, of_decide_eq_true hkey⟩
  have hnot := hbefore other hother
  rw [decide_eq_true heq] at hnot
  cases hnot

theorem count_of_lacks (h : Lacks keyOf top key) : (top.map keyOf).count (some key) = 0 := by
  refine List.count_eq_zero_of_not_mem fun hmem ↦ ?_
  obtain ⟨line, hline, hkey⟩ := List.mem_map.mp hmem
  exact h line hline hkey

theorem once_of_lacks (h : Lacks keyOf top key) : Once top key := by
  rw [Once, count_of_lacks h]
  exact Nat.zero_le 1

theorem Once.split (h : Once top key) (hline : lineOf top key = some line) :
    ∃ before after, top = before ++ line :: after ∧ Lacks keyOf before key ∧
      Lacks keyOf after key := by
  obtain ⟨before, after, rfl, hlacks, hkey⟩ := split_of_lineOf hline
  refine ⟨before, after, rfl, hlacks, fun other hother heq ↦ ?_⟩
  rw [Once, List.map_append, List.map_cons, hkey, List.count_append, List.count_cons_self] at h
  have hpos : 0 < (after.map keyOf).count (some key) :=
    List.count_pos_iff.mpr (heq ▸ List.mem_map_of_mem hother)
  omega

theorem mem_matches (h : TopLevel top rest) (hsafe : isSafeKey key = true) (i : Nat) :
    i ∈ ((List.range (Adapters.sectionIndex (top ++ rest))).filter fun i ↦
      ((top ++ rest)[i]?).any (assigns key)) ↔
      ∃ line, top[i]? = some line ∧ keyOf line = some key := by
  rw [List.mem_filter, List.mem_range, h.sectionIndex]
  constructor
  · rintro ⟨hi, hany⟩
    rw [List.getElem?_append_left hi, Option.any_eq_true] at hany
    obtain ⟨line, hline, hassigns⟩ := hany
    exact ⟨line, hline, (assigns_iff hsafe line).mp hassigns⟩
  rintro ⟨line, hline, hkey⟩
  have hi := (List.getElem?_eq_some_iff.mp hline).1
  rw [List.getElem?_append_left hi, hline]
  exact ⟨hi, (assigns_iff hsafe line).mpr hkey⟩

theorem find_of_lacks (h : TopLevel top rest) (hsafe : isSafeKey key = true)
    (hlacks : Lacks keyOf top key) : findTopLevelLine (top ++ rest) key = some none := by
  have hnil : ((List.range (Adapters.sectionIndex (top ++ rest))).filter fun i ↦
      ((top ++ rest)[i]?).any (assigns key)) = [] := by
    refine List.eq_nil_iff_forall_not_mem.mpr fun i hi ↦ ?_
    obtain ⟨line, hline, hkey⟩ := (mem_matches h hsafe i).mp hi
    exact hlacks line (List.mem_of_getElem? hline) hkey
  rw [findTopLevelLine, hnil]

theorem eq_singleton_of_mem {l : List Nat} {n : Nat} (hnodup : l.Nodup)
    (h : ∀ i, i ∈ l ↔ i = n) : l = [n] := by
  have hsame := List.eq_replicate_of_mem fun i hi ↦ (h i).mp hi
  have hpos := List.length_pos_of_mem ((h n).mpr rfl)
  rw [hsame, List.nodup_replicate] at hnodup
  rw [hsame, le_antisymm hnodup hpos]
  rfl

theorem find_of_split {before after : List Line} (h : TopLevel (before ++ line :: after) rest)
    (hsafe : isSafeKey key = true) (hkey : keyOf line = some key)
    (hbefore : Lacks keyOf before key) (hafter : Lacks keyOf after key) :
    findTopLevelLine (before ++ line :: after ++ rest) key = some (some before.length) := by
  have hone : ((List.range (Adapters.sectionIndex (before ++ line :: after ++ rest))).filter
      fun i ↦ ((before ++ line :: after ++ rest)[i]?).any (assigns key)) = [before.length] := by
    refine eq_singleton_of_mem (List.nodup_range.filter _) fun i ↦ ?_
    rw [mem_matches h hsafe]
    constructor
    · rintro ⟨other, hother, hotherKey⟩
      rcases lt_trichotomy i before.length with hlt | rfl | hgt
      · rw [List.getElem?_append_left hlt] at hother
        exact absurd hotherKey (hbefore other (List.mem_of_getElem? hother))
      · rfl
      · obtain ⟨n, rfl⟩ := Nat.exists_eq_add_of_lt hgt
        rw [List.getElem?_append_right (by omega), Nat.add_assoc, Nat.add_sub_cancel_left,
          List.getElem?_cons_succ] at hother
        exact absurd hotherKey (hafter other (List.mem_of_getElem? hother))
    · rintro rfl
      exact ⟨line, by simp, hkey⟩
  rw [findTopLevelLine, hone]

/-- **`snapshot`** finds the line of a key. -/
theorem snapshot_eq (h : TopLevel top rest) (hsafe : isSafeKey key = true) (honce : Once top key) :
    snapshot (top ++ rest) key = some (lineOf top key) := by
  cases hline : lineOf top key with
  | none =>
    rw [snapshot, find_of_lacks h hsafe (lineOf_eq_none_iff.mp hline)]
    rfl
  | some line =>
    obtain ⟨before, after, rfl, hbefore, hafter⟩ := honce.split hline
    rw [snapshot, find_of_split h hsafe (keyOf_of_lineOf hline).2 hbefore hafter]
    simp

theorem insertIdx_length (top rest : List Line) (line : Line) :
    (top ++ rest).insertIdx top.length line = top ++ line :: rest := by
  induction top with
  | nil => rfl
  | cons first top ih =>
    rw [List.cons_append, List.length_cons, List.insertIdx_succ_cons, ih, List.cons_append]

/-- **`apply`** exchanges, drops or adds the line of a key. -/
theorem applyLine_eq (h : TopLevel top rest) (hsafe : isSafeKey key = true) (honce : Once top key) :
    applyLine (top ++ rest) key saved = some (putLine top key saved ++ rest) := by
  cases hline : lineOf top key with
  | none =>
    have hlacks := lineOf_eq_none_iff.mp hline
    rw [applyLine, find_of_lacks h hsafe hlacks]
    cases saved with
    | none => rw [putLine, dropKey_of_lacks hlacks]; rfl
    | some line =>
      rw [putLine, if_pos hline]
      simp only [Option.map_some, h.sectionIndex, insertIdx_length, List.append_assoc,
        List.cons_append, List.nil_append]
  | some line =>
    obtain ⟨before, after, rfl, hbefore, hafter⟩ := honce.split hline
    have hkey := (keyOf_of_lineOf hline).2
    rw [applyLine, find_of_split h hsafe hkey hbefore hafter]
    cases saved with
    | none =>
      have hdrop : dropKey keyOf key (before ++ line :: after) = before ++ after := by
        rw [dropKey, List.filter_append, ← dropKey, ← dropKey, dropKey_of_lacks hbefore,
          dropKey_cons_self hkey, dropKey_of_lacks hafter]
      rw [putLine, hdrop]
      simp [List.eraseIdx_append_of_length_le]
    | some new =>
      have hexchange : exchangeKey keyOf key new (before ++ line :: after) =
          before ++ new :: after := by
        rw [exchangeKey, List.map_append, ← exchangeKey, ← exchangeKey,
          exchangeKey_of_lacks hbefore, exchangeKey_cons_self hkey,
          exchangeKey_of_lacks hafter]
      rw [putLine, hline, if_neg (by simp), hexchange]
      simp

theorem once_of_find {index : Option Nat} (h : TopLevel top rest) (hsafe : isSafeKey key = true)
    (hfind : findTopLevelLine (top ++ rest) key = some index) : Once top key := by
  cases hline : lineOf top key with
  | none => exact once_of_lacks (lineOf_eq_none_iff.mp hline)
  | some line =>
    obtain ⟨before, after, rfl, hbefore, hkey⟩ := split_of_lineOf hline
    have hafter : Lacks keyOf after key := by
      intro other hother hotherKey
      obtain ⟨n, hn⟩ := List.mem_iff_getElem?.mp hother
      have hfirst := (mem_matches h hsafe before.length).mpr ⟨line, by simp, hkey⟩
      have hsecond := (mem_matches h hsafe (before.length + (n + 1))).mpr
        ⟨other, by rw [List.getElem?_append_right (Nat.le_add_right _ _),
          Nat.add_sub_cancel_left, List.getElem?_cons_succ, hn], hotherKey⟩
      rw [findTopLevelLine] at hfind
      split at hfind
      · rename_i hnil
        rw [hnil] at hfirst
        cases hfirst
      · rename_i i hone
        rw [hone, List.mem_singleton] at hfirst hsecond
        omega
      · cases hfind
    rw [Once, List.map_append, List.map_cons, List.count_append, hkey, List.count_cons_self,
      count_of_lacks hbefore, count_of_lacks hafter]

end TopLevel

/-! ## What becomes of the keys -/

section Put

variable {top : List Line} {key key' line : Line} {saved : Option Line}

theorem Once.lineOf_eq (h : Once top key) (hmem : line ∈ top) (hkey : keyOf line = some key) :
    lineOf top key = some line := by
  cases hline : lineOf top key with
  | none => exact absurd hkey (lineOf_eq_none_iff.mp hline line hmem)
  | some found =>
    obtain ⟨before, after, rfl, hbefore, hafter⟩ := h.split hline
    rcases List.mem_append.mp hmem with hmem | hmem
    · exact absurd hkey (hbefore line hmem)
    rcases List.mem_cons.mp hmem with rfl | hmem
    · rfl
    · exact absurd hkey (hafter line hmem)

theorem lineOf_putLine_self (hsaved : ∀ line, saved = some line → keyOf line = some key) :
    lineOf (putLine top key saved) key = saved := by
  cases saved with
  | none => exact lineOf_eq_none_iff.mpr (lacks_dropKey_self top)
  | some line =>
    have hkey := hsaved line rfl
    rw [putLine]
    split_ifs with hnone
    · rw [lineOf, List.find?_append, ← lineOf, hnone, Option.none_or, List.find?_cons_of_pos]
      exact decide_eq_true hkey
    have hall : ∀ other ∈ exchangeKey keyOf key line top, keyOf other = some key →
        other = line := by
      intro other hother hotherKey
      obtain ⟨old, -, rfl⟩ := List.mem_map.mp hother
      split_ifs with hold
      · rfl
      · rw [if_neg hold] at hotherKey
        exact absurd hotherKey hold
    cases hfound : lineOf (exchangeKey keyOf key line top) key with
    | none =>
      have hlacks := lineOf_eq_none_iff.mp hfound
      refine absurd (lineOf_eq_none_iff.mpr fun old hold heq ↦ ?_) hnone
      refine hlacks line ?_ hkey
      exact List.mem_map.mpr ⟨old, hold, if_pos heq⟩
    | some other =>
      obtain ⟨hmem, hotherKey⟩ := keyOf_of_lineOf hfound
      rw [hall other hmem hotherKey]

theorem filter_putLine (hsaved : ∀ line, saved = some line → keyOf line = some key)
    (p : Line → Bool) (hp : ∀ line, keyOf line = some key → p line = false) :
    (putLine top key saved).filter p = top.filter p := by
  have hneg : ∀ line, keyOf line = some key → ¬ p line = true :=
    fun line hkey ↦ by rw [hp line hkey]; exact Bool.false_ne_true
  cases saved with
  | none =>
    rw [putLine, dropKey, List.filter_filter]
    refine List.filter_congr fun line _ ↦ ?_
    by_cases hkey : keyOf line = some key
    · rw [hp line hkey, Bool.false_and]
    · rw [decide_eq_true hkey, Bool.and_true]
  | some line =>
    have hline := hneg line (hsaved line rfl)
    rw [putLine]
    split_ifs with hnone
    · rw [List.filter_append, List.filter_cons_of_neg hline, List.filter_nil, List.append_nil]
    clear hnone
    induction top with
    | nil => rfl
    | cons old top ih =>
      by_cases hkey : keyOf old = some key
      · rw [exchangeKey_cons_self hkey, List.filter_cons_of_neg hline, ih,
          List.filter_cons_of_neg (hneg old hkey)]
      · rw [exchangeKey_cons_of_ne hkey, List.filter_cons, List.filter_cons, ih]

theorem filter_putLine_of_ne (hsaved : ∀ line, saved = some line → keyOf line = some key)
    (hne : key' ≠ key) :
    (putLine top key saved).filter (keyOf · = some key') = top.filter (keyOf · = some key') :=
  filter_putLine hsaved _ fun _ hkey ↦
    decide_eq_false fun heq ↦ hne (Option.some.inj (heq.symm.trans hkey))

theorem lineOf_eq_head? (top : List Line) (key : Line) :
    lineOf top key = (top.filter (keyOf · = some key)).head? := by
  rw [lineOf, List.head?_filter]

theorem once_iff : Once top key ↔ (top.filter (keyOf · = some key)).length ≤ 1 := by
  rw [Once, List.count, List.countP_map, List.countP_eq_length_filter]
  refine iff_of_eq (congrArg (fun l : List Line ↦ l.length ≤ 1) ?_)
  refine List.filter_congr fun line _ ↦ ?_
  rw [Function.comp_apply, Bool.beq_eq_decide_eq]

theorem lineOf_putLine_of_ne (hsaved : ∀ line, saved = some line → keyOf line = some key)
    (hne : key' ≠ key) : lineOf (putLine top key saved) key' = lineOf top key' := by
  rw [lineOf_eq_head?, filter_putLine_of_ne hsaved hne, lineOf_eq_head?]

theorem once_putLine_of_ne (hsaved : ∀ line, saved = some line → keyOf line = some key)
    (hne : key' ≠ key) (h : Once top key') : Once (putLine top key saved) key' := by
  rw [once_iff, filter_putLine_of_ne hsaved hne]
  exact once_iff.mp h

theorem once_putLine_self (hsaved : ∀ line, saved = some line → keyOf line = some key)
    (h : Once top key) : Once (putLine top key saved) key := by
  cases saved with
  | none =>
    have hnil : (dropKey keyOf key top).filter (keyOf · = some key) = [] :=
      List.filter_eq_nil_iff.mpr fun line hline heq ↦
        lacks_dropKey_self top line hline (of_decide_eq_true heq)
    rw [once_iff, putLine, hnil]
    exact Nat.zero_le _
  | some line =>
    have hkey := hsaved line rfl
    rw [putLine]
    split_ifs with hnone
    · have hnil : top.filter (keyOf · = some key) = [] :=
        List.filter_eq_nil_iff.mpr fun old hold heq ↦
          lineOf_eq_none_iff.mp hnone old hold (of_decide_eq_true heq)
      rw [once_iff, List.filter_append, hnil, List.nil_append]
      exact List.length_filter_le _ _
    · rw [Once, map_key_exchangeKey hkey]
      exact h

theorem mem_putLine (h : line ∈ putLine top key saved) : line ∈ top ∨ saved = some line := by
  cases saved with
  | none => exact .inl (List.mem_filter.mp h).1
  | some new =>
    rw [putLine] at h
    split_ifs at h
    · rcases List.mem_append.mp h with h | h
      · exact .inl h
      · exact .inr (congrArg some (List.mem_singleton.mp h).symm)
    obtain ⟨old, hold, rfl⟩ := List.mem_map.mp h
    split_ifs
    · exact .inr rfl
    · exact .inl hold

theorem sublist_putLine (p : Line → Bool)
    (hp : ∀ line ∈ top, p line = true → keyOf line ≠ some key) :
    (top.filter p).Sublist (putLine top key saved) := by
  cases saved with
  | none =>
    rw [putLine, dropKey]
    refine List.sublist_filter_iff.mpr ⟨top.filter p, List.filter_sublist, ?_⟩
    refine (List.filter_eq_self.mpr fun line hline ↦ ?_).symm
    exact decide_eq_true (hp line (List.mem_filter.mp hline).1 (List.mem_filter.mp hline).2)
  | some line =>
    rw [putLine]
    split_ifs with hnone
    · exact List.filter_sublist.trans (List.sublist_append_left _ _)
    clear hnone
    induction top with
    | nil => exact .slnil
    | cons old top ih =>
      obtain ⟨hold, hp⟩ := List.forall_mem_cons.mp hp
      by_cases hkey : keyOf old = some key
      · rw [exchangeKey_cons_self hkey, List.filter_cons_of_neg fun h ↦ hold h hkey]
        exact .cons _ (ih hp)
      rw [exchangeKey_cons_of_ne hkey, List.filter_cons]
      split_ifs
      · exact .cons_cons _ (ih hp)
      · exact .cons _ (ih hp)

theorem Patched.putLine {base : List Line} {owned : Line → Prop}
    (h : Patched keyOf base owned base top) (hk : owned key)
    (hsaved : ∀ line, saved = some line → keyOf line = some key)
    (hdrop : saved = none → lineOf base key = none) :
    Patched keyOf base owned base (putLine top key saved) := by
  cases saved with
  | none => exact h.drop (lineOf_eq_none_iff.mp (hdrop rfl))
  | some line =>
    rw [Adapters.putLine]
    split_ifs with hnone
    · exact h.concat hk (hsaved line rfl) (h.lacks (lineOf_eq_none_iff.mp hnone))
    · exact h.exchange hk (hsaved line rfl)

end Put

/-! ## Texts -/

def IsLine (line : Line) : Prop := '\n' ∉ line ∧ line.getLast? ≠ some '\r'

/-- A file with nothing but blanks is removed. -/
def Inked (lines : List Line) : Prop := lines = [] ∨ ∃ line ∈ lines, trim line ≠ []

section Texts

variable {lines : List Line} {line key : Line}

theorem withoutReturn_of_isLine (h : IsLine line) : withoutReturn line = line := if_neg h.2

theorem splitToml_writeLines (hlines : ∀ line ∈ lines, IsLine line) (hinked : Inked lines) :
    splitToml (writeLines lines) = lines := by
  rw [writeLines]
  split_ifs with hblank
  · rcases hinked with rfl | ⟨line, hline, hne⟩
    · rfl
    · exact absurd (of_decide_eq_true (List.all_eq_true.mp hblank line hline)) hne
  have hne : lines ≠ [] := by
    rintro rfl
    exact hblank rfl
  have hpieces : Data.lines '\n' (['\n'].intercalate lines ++ ['\n']) = lines ++ [[]] := by
    rw [lines_append_sep_cons, lines_intercalate (fun line hline ↦ (hlines line hline).1) hne]
    rfl
  have hsplit : splitLines (['\n'].intercalate lines ++ ['\n']) = lines ++ [[]] := by
    rw [splitLines]
    simp only [hpieces, List.dropLast_concat, List.getLast?_concat, Option.toList_some]
    rw [List.map_congr_left fun line hline ↦ withoutReturn_of_isLine (hlines line hline),
      List.map_id']
  obtain ⟨c, raw, hraw⟩ := List.exists_cons_of_ne_nil
    (List.append_ne_nil_of_right_ne_nil (['\n'].intercalate lines) (List.cons_ne_nil '\n' []))
  rw [hraw] at hsplit ⊢
  simp only [splitToml, hsplit, List.getLast?_concat, List.dropLast_concat, if_true]

theorem trim_of_keyOf (h : keyOf line = some key) : trim line ≠ [] := by
  intro hblank
  have hspace : line.dropWhile isSpace = [] :=
    List.dropWhile_eq_nil_iff.mpr (trimBy_eq_nil_iff.mp hblank)
  rw [keyOf, hspace] at h
  cases h

end Texts

end OpenAlice.Workspaces.Adapters
