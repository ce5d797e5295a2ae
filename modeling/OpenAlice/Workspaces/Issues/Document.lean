import OpenAlice.Data.Trimmed
import OpenAlice.Scheduling.Scanner

/-!
# The text of an Issue file

An Issue file is YAML between two lines `---` and the What below them, of
`src/workspaces/issues/declaration.ts`; comments from before they had a file of their own stand
in the What, below the line `## Comments`.  It is read line by line, and written by putting the
three texts together: `serializeIssue` of `mutate.ts`, less the call of `yaml`.

`reads_iff` says when what is written is read as it was meant.
-/

namespace OpenAlice.Workspaces.Issues

open OpenAlice.Data OpenAlice.Scheduling

abbrev Text := List Char

/-! ## Reading -/

/-- What `split(/\r?\n/)` and `join('\n')` make of a text. -/
def lf : Text → Text
  | [] => []
  | c :: text => if c = '\r' ∧ text.head? = some '\n' then lf text else c :: lf text

/-- `split(/\r?\n/)` -/
def splitLines (text : Text) : List Text := lines '\n' (lf text)

/-- `join('\n')` -/
def joinLines (ls : List Text) : Text := ['\n'].intercalate ls

def fence : Text := ['-', '-', '-']

/-- `lines[i].trim() === '---'` -/
def isFence (line : Text) : Bool := trim line = fence

/-- `## Comments` -/
def commentsHeading : Text := ['#', '#', ' ', 'C', 'o', 'm', 'm', 'e', 'n', 't', 's']

/-- `/^##\s+Comments\s*$/` -/
def isCommentsHeading : Text → Bool
  | '#' :: '#' :: c :: rest =>
    let word := rest.dropWhile isSpace
    isSpace c && word.take 8 = commentsHeading.drop 3 && (word.drop 8).all isSpace
  | _ => false

structure SplitDocument where
  frontmatter : Text
  body : Text
deriving DecidableEq

/-- `replace(/^\uFEFF/, '')` -/
def stripBom : Text → Text
  | [] => []
  | c :: text => if c.toNat = 0xFEFF then text else c :: text

def splitFrontmatter (raw : Text) : Option SplitDocument :=
  match splitLines (stripBom raw) with
  | [] => none
  | first :: rest =>
    if !isFence first then none
    else
      match rest.dropWhile fun line ↦ !isFence line with
      | [] => none
      | _ :: after =>
        some ⟨joinLines (rest.takeWhile fun line ↦ !isFence line), trim (joinLines after)⟩

structure LegacyDocument where
  what : Text
  legacyComments : Text

def splitLegacyIssueDocument (body : Text) : LegacyDocument :=
  let ls := splitLines body
  match ls.dropWhile fun line ↦ !isCommentsHeading (trim line) with
  | [] => ⟨trim body, []⟩
  | _ :: after =>
    ⟨trim (joinLines (ls.takeWhile fun line ↦ !isCommentsHeading (trim line))),
      trim (joinLines after)⟩

def contextHeading : Text :=
  ['\n', '\n', '#', '#', ' ', 'C', 'o', 'n', 't', 'e', 'x', 't', '\n', '\n']

def mergeLegacyWhat (legacyWhat : Option Text) (markdownWhat title : Text) : Text :=
  let explicit := (legacyWhat.map trim).getD []
  let markdown := trim markdownWhat
  if explicit ≠ [] ∧ markdown ≠ [] ∧ explicit ≠ markdown then explicit ++ contextHeading ++ markdown
  else if explicit ≠ [] then explicit
  else if markdown ≠ [] then markdown
  else trim title

/-! ## Writing -/

def trimEnd (text : Text) : Text := (text.reverse.dropWhile isSpace).reverse

def commentsMark : Text := '\n' :: '\n' :: commentsHeading ++ ['\n', '\n']

def markdownOf (what legacyComments : Text) : Text :=
  if legacyComments = [] then what else what ++ commentsMark ++ legacyComments

/-- `serializeIssue`, from the text of the frontmatter. -/
def serializeDocument (yaml what legacyComments : Text) : Text :=
  let trimmed := markdownOf (trim what) (trim legacyComments)
  fence ++ '\n' :: trimEnd yaml ++ '\n' :: fence ++ '\n' ::
    if trimmed = [] then [] else '\n' :: trimmed ++ ['\n']

/-! ## Line breaks -/

section LineBreaks

variable {c : Char} {text text' : Text}

@[simp] theorem lf_nil : lf [] = [] := rfl

@[simp] theorem lf_break (text : Text) : lf ('\n' :: text) = '\n' :: lf text :=
  if_neg fun h ↦ nomatch h.1

theorem lf_cons (text : Text) (h : ¬ (c = '\r' ∧ text.head? = some '\n')) : lf
    (c :: text) = c :: lf text :=
  if_neg h

theorem lf_crlf (text : Text) (h : c = '\r' ∧ text.head? = some '\n') : lf (c :: text) = lf text :=
  if_pos h

theorem lf_sublist (text : Text) : (lf text).Sublist text := by
  induction text with
  | nil => exact .slnil
  | cons c text ih =>
    rw [lf]
    split_ifs
    · exact ih.cons c
    · exact ih.cons_cons c

theorem lf_append (h : text.getLast? ≠ some '\r') (text' : Text) :
    lf (text ++ '\n' :: text') = lf text ++ '\n' :: lf text' := by
  induction text with
  | nil => exact lf_break text'
  | cons c text ih =>
    cases text with
    | nil =>
      rw [List.singleton_append, lf_cons _, lf_break, lf_cons _, lf_nil, List.singleton_append]
      · exact fun hc ↦ nomatch hc.2
      · rintro ⟨rfl, -⟩
        exact h rfl
    | cons d text =>
      have hih := ih (by rwa [List.getLast?_cons_cons] at h)
      by_cases hc : c = '\r' ∧ (d :: text).head? = some '\n'
      · rw [lf_crlf _ hc, ← hih]
        exact lf_crlf (d :: text ++ '\n' :: text') hc
      · rw [lf_cons _ hc]
        exact (lf_cons (d :: text ++ '\n' :: text') hc).trans (congrArg (c :: ·) hih)

theorem lf_eq_of_trim (h : trim (lf text) = text) : lf text = text := by
  refine (lf_sublist text).eq_of_length (le_antisymm (lf_sublist text).length_le ?_)
  conv_lhs => rw [← h]
  exact length_trimBy_le isSpace (lf text)

theorem lf_eq_of_trim_lf (h : trim (lf (lf text)) = text) : lf text = text := by
  refine (lf_sublist text).eq_of_length (le_antisymm (lf_sublist text).length_le ?_)
  conv_lhs => rw [← h]
  exact (length_trimBy_le isSpace _).trans (lf_sublist _).length_le

theorem lines_lf (text : Text) :
    List.Forall₂ (fun line line' ↦ line' = line ∨ line' = line ++ ['\r']) (lines '\n' (lf text))
      (lines '\n' text) := by
  induction text with
  | nil => exact .cons (.inl rfl) .nil
  | cons c text ih =>
    rw [lf]
    split_ifs with h
    · obtain ⟨rfl, hhead⟩ := h
      obtain ⟨rest, rfl⟩ : ∃ rest, text = '\n' :: rest := by
        cases text with
        | nil => exact nomatch hhead
        | cons d rest => exact ⟨rest, congrArg (· :: rest) (Option.some.inj hhead)⟩
      rw [lf_break, lines_sep_cons, lines_sep_cons] at ih
      rw [lf_break, lines_sep_cons, lines_cons_of_ne (by decide), lines_sep_cons]
      exact .cons (.inr rfl) (List.forall₂_cons.mp ih).2
    · by_cases hc : c = '\n'
      · subst hc
        rw [lines_sep_cons, lines_sep_cons]
        exact .cons (.inl rfl) ih
      rw [lines_cons_of_ne hc, lines_cons_of_ne hc]
      obtain ⟨line, rest, hlines⟩ := List.exists_cons_of_ne_nil (lines_ne_nil '\n' (lf text))
      obtain ⟨line', rest', hlines'⟩ := List.exists_cons_of_ne_nil (lines_ne_nil '\n' text)
      rw [hlines, hlines'] at ih ⊢
      obtain ⟨hline, hrest⟩ := List.forall₂_cons.mp ih
      exact .cons (hline.imp (congrArg (c :: ·)) (congrArg (c :: ·))) hrest

theorem lf_concat (h : c ≠ '\n') (text : Text) : lf (text ++ [c]) = lf text ++ [c] := by
  induction text with
  | nil => exact lf_cons [] fun hc ↦ nomatch hc.2
  | cons d text ih =>
    have hhead : (d = '\r' ∧ (text ++ [c]).head? = some '\n') ↔
        d = '\r' ∧ text.head? = some '\n' := by
      cases text with
      | nil => simp [h]
      | cons e text => rfl
    by_cases hd : d = '\r' ∧ text.head? = some '\n'
    · rw [lf_crlf text hd, ← ih]
      exact lf_crlf (text ++ [c]) (hhead.mpr hd)
    · rw [lf_cons text hd]
      exact (lf_cons (text ++ [c]) (mt hhead.mp hd)).trans (congrArg (d :: ·) ih)

/-- A text that ends in no space does not end in half a line break. -/
theorem getLast?_of_trim (h : trim text = text) : text.getLast? ≠ some '\r' := by
  intro hlast
  obtain ⟨rest, rfl⟩ := List.getLast?_eq_some_iff.mp hlast
  exact nomatch (last_of_trimBy_eq h).symm.trans (show isSpace '\r' = true by decide)

theorem trim_lf (h : trim text = text) : trim (lf text) = lf text := by
  cases text using List.reverseRecOn with
  | nil => rfl
  | append_singleton text c =>
    have hc := last_of_trimBy_eq h
    rw [lf_concat fun hn ↦ by rw [hn] at hc; exact absurd hc (by decide)]
    cases text with
    | nil => exact trimBy_of_ends hc hc ⟨[], rfl⟩ ⟨[], rfl⟩
    | cons d text =>
      have hd := head_of_trimBy_eq h
      rw [lf_cons text fun hr ↦ by rw [hr.1] at hd; exact absurd hd (by decide)]
      exact trimBy_of_ends hd hc ⟨_, rfl⟩ ⟨_, rfl⟩

end LineBreaks

/-! ## Inked lines -/

def inkedLines (text : Text) : List Text := inked '\n' isSpace text

section InkedLines

variable {text : Text}

theorem isSpace_break : isSpace '\n' = true := by decide

theorem isSpace_return : isSpace '\r' = true := by decide

@[simp] theorem inkedLines_nil : inkedLines [] = [] := rfl

theorem inkedLines_append (text text' : Text) :
    inkedLines (text ++ '\n' :: text') = inkedLines text ++ inkedLines text' :=
  inked_append_sep_cons text text'

@[simp] theorem inkedLines_break (text : Text) : inkedLines ('\n' :: text) = inkedLines text :=
  inked_sep_cons text

@[simp] theorem inkedLines_trim (text : Text) : inkedLines (trim text) = inkedLines text :=
  inked_trimBy text

theorem inkedLines_eq_nil_iff : inkedLines text = [] ↔ trim text = [] :=
  inked_eq_nil_iff isSpace_break

@[simp] theorem inkedLines_lf (text : Text) : inkedLines (lf text) = inkedLines text := by
  have hmap : ∀ ls ls' : List Text,
      List.Forall₂ (fun line line' ↦ line' = line ∨ line' = line ++ ['\r']) ls ls' →
        ls.map (trimBy isSpace) = ls'.map (trimBy isSpace) := by
    intro ls ls' h
    induction h with
    | nil => rfl
    | cons hline _ ih =>
      rw [List.map_cons, List.map_cons, ih]
      rcases hline with rfl | rfl
      · rfl
      · rw [trimBy_concat isSpace_return]
  rw [inkedLines, inked, hmap _ _ (lines_lf text)]
  rfl

theorem inkedLines_join {ls : List Text} (h : ∀ line ∈ ls, '\n' ∉ line) :
    inkedLines (joinLines ls) = (ls.map trim).filter (· ≠ []) :=
  inked_intercalate h

theorem joinLines_splitLines (text : Text) : joinLines (splitLines text) = lf text :=
  intercalate_lines '\n' (lf text)

theorem notMem_of_mem_splitLines {line : Text} (h : line ∈ splitLines text) : '\n' ∉ line :=
  notMem_of_mem_lines h

theorem inkedLines_takeWhile {p : Text → Bool} (hp : p [] = true) (text : Text) :
    inkedLines (joinLines ((splitLines text).takeWhile fun line ↦ p (trim line))) =
      (inkedLines text).takeWhile p := by
  rw [inkedLines_join fun line hline ↦
    notMem_of_mem_splitLines ((List.takeWhile_sublist _).subset hline), ← inkedLines_lf text]
  exact takeWhile_inked hp (lf text)

theorem inkedLines_dropWhile {p : Text → Bool} (hp : p [] = true) (text : Text) :
    inkedLines (joinLines ((splitLines text).dropWhile fun line ↦ p (trim line)).tail) =
      ((inkedLines text).dropWhile p).tail := by
  rw [inkedLines_join fun line hline ↦ notMem_of_mem_splitLines
    ((List.dropWhile_sublist _).subset (List.mem_of_mem_tail hline)), ← inkedLines_lf text]
  exact tail_dropWhile_inked hp (lf text)

end InkedLines

/-! ## What is read of what is written -/

section Reading

variable {yaml what comments title body : Text}

def HasFence (yaml : Text) : Prop := ∃ line ∈ splitLines (trimEnd yaml), isFence line = true

def ReadsBody (body title what comments : Text) : Prop :=
  mergeLegacyWhat none (splitLegacyIssueDocument body).what title = what ∧
    (splitLegacyIssueDocument body).legacyComments = comments

/-- **A What and comments that can be told apart** in the body: the line breaks are LF, and no
line of the What is the heading of the comments.  A What that is nothing but this heading is
lost; it can still be read, where it is the title too. -/
def Separable (title what comments : Text) : Prop :=
  (∀ line ∈ inkedLines what, isCommentsHeading line = false) ∧ lf what = what ∧
      lf comments = comments ∨
    (∃ heading, isCommentsHeading heading = true ∧ inkedLines what = [heading]) ∧
      what = trim title ∧ comments = []

def tailOf (trimmed : Text) : Text := if trimmed = [] then [] else '\n' :: trimmed ++ ['\n']

theorem isFence_fence : isFence fence = true := by decide

theorem getLast?_trimEnd (text : Text) : (trimEnd text).getLast? ≠ some '\r' := by
  intro h
  rw [trimEnd, List.getLast?_reverse] at h
  have hspace := List.head?_dropWhile_not isSpace text.reverse
  rw [h] at hspace
  exact nomatch hspace.symm.trans isSpace_return

theorem splitLines_serialize (yaml what comments : Text) :
    splitLines (stripBom (serializeDocument yaml what comments)) =
      fence :: (splitLines (trimEnd yaml) ++
        fence :: splitLines (tailOf (markdownOf (trim what) (trim comments)))) := by
  have hyaml : (fence ++ '\n' :: trimEnd yaml).getLast? ≠ some '\r' := by
    rw [List.getLast?_append_of_ne_nil _ (List.cons_ne_nil _ _)]
    cases hfm : trimEnd yaml with
    | nil => decide
    | cons c rest =>
      rw [List.getLast?_cons_cons, ← hfm]
      exact getLast?_trimEnd yaml
  have hfence : (fence ++ '\n' :: trimEnd yaml ++ '\n' :: fence).getLast? ≠ some '\r' := by
    rw [List.getLast?_append_of_ne_nil _ (List.cons_ne_nil _ _)]
    decide
  have hlf : lf (stripBom (serializeDocument yaml what comments)) =
      fence ++ '\n' :: lf (trimEnd yaml) ++ '\n' :: fence ++
        '\n' :: lf (tailOf (markdownOf (trim what) (trim comments))) := by
    change lf (fence ++ '\n' :: trimEnd yaml ++ '\n' :: fence ++
      '\n' :: tailOf (markdownOf (trim what) (trim comments))) = _
    rw [lf_append hfence, lf_append hyaml, lf_append (by decide)]
    rfl
  rw [splitLines, hlf, lines_append_sep_cons, lines_append_sep_cons, lines_append_sep_cons,
    List.append_assoc, List.append_assoc]
  rfl

/-- **Where no line of the frontmatter looks like its end**, the fence written is the one found. -/
theorem splitFrontmatter_serialize (h : ¬ HasFence yaml) :
    splitFrontmatter (serializeDocument yaml what comments) =
      some ⟨lf (trimEnd yaml), trim (lf (tailOf (markdownOf (trim what) (trim comments))))⟩ := by
  have hall : ∀ line ∈ splitLines (trimEnd yaml), (!isFence line) = true := by
    intro line hline
    rw [Bool.not_eq_true']
    exact Bool.eq_false_iff.mpr fun hfence ↦ h ⟨line, hline, hfence⟩
  rw [splitFrontmatter, splitLines_serialize]
  simp only [isFence_fence, Bool.not_true, Bool.false_eq_true, if_false,
    List.dropWhile_append_of_pos hall, List.takeWhile_append_of_pos hall,
    List.dropWhile_cons, List.takeWhile_cons, List.append_nil, joinLines_splitLines]

/-- **Where one does**, the frontmatter ends there, and what is left of it is in the body. -/
theorem splitFrontmatter_serialize_of_hasFence (h : HasFence yaml) : ∃ frontmatter body rest,
      splitFrontmatter (serializeDocument yaml what comments) = some ⟨frontmatter, body⟩ ∧
        inkedLines body =
          rest ++ fence :: inkedLines (tailOf (markdownOf (trim what) (trim comments))) := by
  set tail := tailOf (markdownOf (trim what) (trim comments)) with htail
  cases hdrop : (splitLines (trimEnd yaml)).dropWhile fun line ↦ !isFence line with
  | nil =>
    obtain ⟨line, hline, hfence⟩ := h
    have hnot := List.dropWhile_eq_nil_iff.mp hdrop line hline
    rw [hfence] at hnot
    exact nomatch hnot
  | cons line after =>
    have hsplit : (splitLines (trimEnd yaml) ++ fence :: splitLines tail).dropWhile
        (fun line ↦ !isFence line) = line :: (after ++ fence :: splitLines tail) := by
      rw [List.dropWhile_append, hdrop]
      rfl
    refine ⟨joinLines ((splitLines (trimEnd yaml) ++ fence :: splitLines tail).takeWhile
      fun line ↦ !isFence line), trim (joinLines (after ++ fence :: splitLines tail)),
      (after.map trim).filter (· ≠ []), ?_, ?_⟩
    · rw [splitFrontmatter, splitLines_serialize, ← htail]
      simp only [isFence_fence, Bool.not_true, Bool.false_eq_true, if_false, hsplit]
    have hnotMem : ∀ l ∈ after ++ fence :: splitLines tail, '\n' ∉ l := by
      intro l hl
      rcases List.mem_append.mp hl with hl | hl
      · have hmem : l ∈ (splitLines (trimEnd yaml)).dropWhile fun line ↦ !isFence line := by
          rw [hdrop]
          exact List.mem_cons_of_mem line hl
        exact notMem_of_mem_splitLines ((List.dropWhile_sublist _).subset hmem)
      rcases List.mem_cons.mp hl with rfl | hl
      · decide
      · exact notMem_of_mem_splitLines hl
    rw [inkedLines_trim, inkedLines_join hnotMem, List.map_append, List.filter_append,
      List.map_cons, List.filter_cons_of_pos (by decide), ← inkedLines_lf tail]
    rfl

/-! ### The body -/

theorem inkedLines_commentsHeading : inkedLines commentsHeading = [commentsHeading] := by decide

theorem inkedLines_what (body : Text) : inkedLines (splitLegacyIssueDocument body).what =
      (inkedLines body).takeWhile fun line ↦ !isCommentsHeading line := by
  have htake := inkedLines_takeWhile (p := fun line ↦ !isCommentsHeading line) rfl body
  rw [← htake, splitLegacyIssueDocument]
  cases hdrop : (splitLines body).dropWhile fun line ↦ !isCommentsHeading (trim line) with
  | nil =>
    have hall := List.takeWhile_append_dropWhile (l := splitLines body)
      (p := fun line ↦ !isCommentsHeading (trim line))
    rw [hdrop, List.append_nil] at hall
    rw [hall, joinLines_splitLines, inkedLines_lf]
    exact inkedLines_trim body
  | cons line after => exact inkedLines_trim _

theorem inkedLines_legacyComments (body : Text) :
    inkedLines (splitLegacyIssueDocument body).legacyComments =
      ((inkedLines body).dropWhile fun line ↦ !isCommentsHeading line).tail := by
  have hdropTail := inkedLines_dropWhile (p := fun line ↦ !isCommentsHeading line) rfl body
  rw [← hdropTail, splitLegacyIssueDocument]
  cases hdrop : (splitLines body).dropWhile fun line ↦ !isCommentsHeading (trim line) with
  | nil => rfl
  | cons line after => exact inkedLines_trim _

theorem trim_splitLegacy (body : Text) :
    trim (splitLegacyIssueDocument body).what = (splitLegacyIssueDocument body).what ∧
      trim (splitLegacyIssueDocument body).legacyComments =
        (splitLegacyIssueDocument body).legacyComments := by
  rw [splitLegacyIssueDocument]
  cases (splitLines body).dropWhile fun line ↦ !isCommentsHeading (trim line) with
  | nil => exact ⟨trimBy_trimBy isSpace _, rfl⟩
  | cons line after => exact ⟨trimBy_trimBy isSpace _, trimBy_trimBy isSpace _⟩

theorem mergeLegacyWhat_none (what title : Text) :
    mergeLegacyWhat none what title = if trim what = [] then trim title else trim what := by
  simp [mergeLegacyWhat]

theorem inkedLines_markdownOf (what comments : Text) : inkedLines (markdownOf what comments) =
      inkedLines what ++
        if comments = [] then [] else commentsHeading :: inkedLines comments := by
  rw [markdownOf]
  split_ifs with h
  · rw [List.append_nil]
  have hmark : what ++ commentsMark ++ comments =
      what ++ '\n' :: ('\n' :: (commentsHeading ++ '\n' :: ('\n' :: comments))) := by
    simp [commentsMark]
  rw [hmark, inkedLines_append, inkedLines_break, inkedLines_append, inkedLines_break,
    inkedLines_commentsHeading, List.singleton_append]

theorem trim_lf_tailOf {text : Text} (h : text.getLast? ≠ some '\r') :
    trim (lf (tailOf text)) = trim (lf text) := by
  rw [tailOf]
  split_ifs with hnil
  · rw [hnil]
  · rw [List.cons_append, lf_break, lf_append h, lf_nil]
    exact (trimBy_cons isSpace_break _).trans (trimBy_concat isSpace_break _)

theorem getLast?_markdownOf (hwhat : trim what = what) (hcomments : trim comments = comments) :
    (markdownOf what comments).getLast? ≠ some '\r' := by
  rw [markdownOf]
  split_ifs with hnil
  · exact getLast?_of_trim hwhat
  · rw [List.getLast?_append_of_ne_nil _ hnil]
    exact getLast?_of_trim hcomments

theorem inkedLines_tailOf (text : Text) : inkedLines (tailOf text) = inkedLines text := by
  rw [tailOf]
  split_ifs with hnil
  · rw [hnil]
  · rw [List.cons_append, inkedLines_break, inkedLines_append, inkedLines_nil, List.append_nil]

theorem notHeading_of_inked {text : Text}
    (h : ∀ line ∈ inkedLines text, isCommentsHeading line = false) {line : Text}
    (hline : line ∈ lines '\n' text) : (!isCommentsHeading (trim line)) = true := by
  rw [Bool.not_eq_true']
  by_cases hblank : trim line = []
  · rw [hblank]
    rfl
  · exact h _ (List.mem_filter.mpr ⟨List.mem_map_of_mem hline, decide_eq_true hblank⟩)

theorem splitLegacy_of_lines {before after : List Text} {line : Text}
    (h : splitLines body = before ++ line :: after)
    (hbefore : ∀ l ∈ before, (!isCommentsHeading (trim l)) = true)
    (hline : isCommentsHeading (trim line) = true) :
    splitLegacyIssueDocument body = ⟨trim (joinLines before), trim (joinLines after)⟩ := by
  rw [splitLegacyIssueDocument, h]
  simp only [List.dropWhile_append_of_pos hbefore, List.takeWhile_append_of_pos hbefore,
    List.dropWhile_cons, List.takeWhile_cons, hline, Bool.not_true, Bool.false_eq_true, if_false,
    List.append_nil]

theorem splitLegacy_of_notHeading (h : ∀ line ∈ inkedLines body, isCommentsHeading line = false) :
    splitLegacyIssueDocument body = ⟨trim body, []⟩ := by
  have hdrop : (splitLines body).dropWhile (fun line ↦ !isCommentsHeading (trim line)) = [] := by
    refine List.dropWhile_eq_nil_iff.mpr fun line hline ↦ notHeading_of_inked ?_ hline
    rwa [inkedLines_lf]
  rw [splitLegacyIssueDocument]
  simp only [hdrop]

def commentsSection (comments : Text) : Text :=
  commentsHeading ++ '\n' :: '\n' :: comments

theorem markdownOf_of_ne (hne : comments ≠ []) (what : Text) :
    markdownOf what comments = what ++ '\n' :: '\n' :: commentsSection comments := by
  rw [markdownOf, if_neg hne]
  simp [commentsMark, commentsSection]

theorem lf_commentsSection (comments : Text) :
    lf (commentsSection comments) = commentsSection (lf comments) := by
  rw [commentsSection, lf_append (by decide), lf_break]
  rfl

theorem lines_commentsSection (comments : Text) :
    lines '\n' (commentsSection comments) = commentsHeading :: [] :: lines '\n' comments := by
  rw [commentsSection, lines_append_sep_cons, lines_sep_cons]
  rfl

theorem trim_commentsSection (hcomments : trim comments = comments) (hne : comments ≠ []) :
    trim (commentsSection comments) = commentsSection comments := by
  have hheading : trim commentsHeading = commentsHeading := by decide
  have h := trimBy_append hheading hcomments (by decide) hne ['\n', '\n']
  rwa [List.append_assoc] at h

theorem joinLines_nil_cons (text : Text) :
    trim (joinLines ([] :: lines '\n' text)) = trim text := by
  rw [← lines_sep_cons, joinLines, intercalate_lines]
  exact trimBy_cons isSpace_break text

theorem joinLines_concat_nil (text : Text) :
    trim (joinLines (lines '\n' text ++ [[]])) = trim text := by
  have hlines : lines '\n' text ++ [[]] = lines '\n' (text ++ ['\n']) := by
    rw [lines_append_sep_cons, lines_nil]
  rw [hlines, joinLines, intercalate_lines]
  exact trimBy_concat isSpace_break text

theorem splitLegacy_markdownOf (hwhat : trim what = what) (hcomments : trim comments = comments)
    (hne : comments ≠ []) (h : ∀ line ∈ inkedLines what, isCommentsHeading line = false) :
    splitLegacyIssueDocument (trim (lf (markdownOf what comments))) =
      ⟨trim (lf (lf what)), trim (lf (lf comments))⟩ := by
  have hheading : isCommentsHeading (trim commentsHeading) = true := by decide
  rw [markdownOf_of_ne hne]
  cases hcase : what with
  | nil =>
    have hbody : trim (lf ([] ++ '\n' :: '\n' :: commentsSection comments)) =
        commentsSection (lf comments) := by
      rw [List.nil_append, lf_break, lf_break, ← lf_commentsSection]
      refine Eq.trans ?_ (trim_lf (trim_commentsSection hcomments hne))
      exact (trimBy_cons isSpace_break _).trans (trimBy_cons isSpace_break _)
    have hlines : splitLines (commentsSection (lf comments)) =
        [] ++ commentsHeading :: [] :: lines '\n' (lf (lf comments)) := by
      rw [splitLines, lf_commentsSection, lines_commentsSection, List.nil_append]
    rw [hbody, splitLegacy_of_lines hlines (List.forall_mem_nil _) hheading, joinLines_nil_cons]
    rfl
  | cons a rest =>
    rw [← hcase]
    have hbody : trim (lf (what ++ '\n' :: '\n' :: commentsSection comments)) =
        lf what ++ '\n' :: '\n' :: commentsSection (lf comments) := by
      have htrim := trimBy_append hwhat (trim_commentsSection hcomments hne)
        (by rw [hcase]; exact List.cons_ne_nil a rest) (by simp [commentsSection]) ['\n', '\n']
      rw [List.append_assoc, List.cons_append, List.singleton_append] at htrim
      rw [trim_lf htrim, lf_append (getLast?_of_trim hwhat), lf_break, lf_commentsSection]
    have hlines : splitLines (lf what ++ '\n' :: '\n' :: commentsSection (lf comments)) =
        (lines '\n' (lf (lf what)) ++ [[]]) ++
          commentsHeading :: [] :: lines '\n' (lf (lf comments)) := by
      rw [splitLines, lf_append (getLast?_of_trim (trim_lf hwhat)), lf_break, lf_commentsSection,
        lines_append_sep_cons, lines_sep_cons, lines_commentsSection, List.append_assoc,
        List.singleton_append]
    rw [hbody, splitLegacy_of_lines hlines ?_ hheading, joinLines_nil_cons, joinLines_concat_nil]
    intro line hline
    rcases List.mem_append.mp hline with hline | hline
    · have hinked : ∀ l ∈ inkedLines (lf (lf what)), isCommentsHeading l = false := by
        rwa [inkedLines_lf, inkedLines_lf]
      exact notHeading_of_inked hinked hline
    · rw [List.mem_singleton.mp hline]
      rfl

theorem trim_eq_nil_of_inked {text : Text} (h : trim text = text) (hnil : inkedLines text = []) :
    text = [] :=
  h.symm.trans (inkedLines_eq_nil_iff.mp hnil)

theorem what_of_readsBody (h : ReadsBody body title what comments)
    (hne : inkedLines (splitLegacyIssueDocument body).what ≠ []) :
    (splitLegacyIssueDocument body).what = what := by
  have htrim := (trim_splitLegacy body).1
  rw [← h.1, mergeLegacyWhat_none, if_neg, htrim]
  rw [htrim]
  rintro hnil
  rw [hnil] at hne
  exact hne rfl

/-- **What is left of a frontmatter that looks like its end** does not read as anything. -/
theorem not_readsBody_of_fence {rest : List Text}
    (h : inkedLines body = rest ++ fence :: inkedLines (markdownOf what comments)) :
    ¬ ReadsBody body title what comments := by
  intro hreads
  have hwhat := inkedLines_what body
  have hcomments := inkedLines_legacyComments body
  rw [hreads.2, h] at hcomments
  rw [h] at hwhat
  rw [inkedLines_markdownOf] at hwhat hcomments
  by_cases hrest : ∃ line ∈ rest, isCommentsHeading line = true
  · -- The comments would hold what is written below.
    obtain ⟨line, hline, hheading⟩ := hrest
    cases hdrop : rest.dropWhile fun line ↦ !isCommentsHeading line with
    | nil =>
      have hnot := List.dropWhile_eq_nil_iff.mp hdrop line hline
      rw [hheading] at hnot
      exact nomatch hnot
    | cons first after =>
      rw [List.dropWhile_append, hdrop] at hcomments
      have hlength := congrArg List.length hcomments
      by_cases hnil : comments = []
      · subst hnil
        simp at hlength
      · simp [hnil] at hlength
        omega
  · -- The What would hold the fence.
    have hall : ∀ line ∈ rest, (!isCommentsHeading line) = true := fun line hline ↦ by
      rw [Bool.not_eq_true']
      exact Bool.eq_false_iff.mpr fun hheading ↦ hrest ⟨line, hline, hheading⟩
    have hfence : (!isCommentsHeading fence) = true := by decide
    rw [List.takeWhile_append_of_pos hall, List.takeWhile_cons, if_pos hfence] at hwhat
    have heq := what_of_readsBody hreads (by rw [hwhat]; simp)
    rw [heq] at hwhat
    have hno : ∀ line ∈ inkedLines what, (!isCommentsHeading line) = true := by
      rw [hwhat]
      intro line hline
      rcases List.mem_append.mp hline with hline | hline
      · exact hall line hline
      rcases List.mem_cons.mp hline with rfl | hline
      · exact hfence
      · exact List.mem_takeWhile_imp (p := fun line ↦ !isCommentsHeading line) hline
    rw [List.takeWhile_append_of_pos hno] at hwhat
    have hlength := congrArg List.length hwhat
    simp at hlength
    omega

theorem mergeLegacyWhat_iff {text : Text} (hwhat : trim what = what)
    (htitle : what = [] → trim title = []) (hinked : inkedLines text = inkedLines what)
    (hlf : trim text = what → lf what = what) (hback : lf what = what → trim text = what) :
    mergeLegacyWhat none text title = what ↔ lf what = what := by
  rw [mergeLegacyWhat_none]
  split_ifs with hnil
  · have hempty : what = [] := by
      refine trim_eq_nil_of_inked hwhat ?_
      rwa [← hinked, inkedLines_eq_nil_iff]
    subst hempty
    exact iff_of_true (htitle rfl) rfl
  · exact ⟨hlf, hback⟩

theorem readsBody_markdownOf_of_notHeading (hwhat : trim what = what)
    (hcomments : trim comments = comments) (htitle : what = [] → trim title = [])
    (hno : ∀ line ∈ inkedLines what, isCommentsHeading line = false) :
    ReadsBody (trim (lf (markdownOf what comments))) title what comments ↔
      lf what = what ∧ lf comments = comments := by
  by_cases hnil : comments = []
  · subst hnil
    rw [markdownOf, if_pos rfl, trim_lf hwhat, ReadsBody, splitLegacy_of_notHeading]
    · rw [trim_lf hwhat]
      refine and_congr (mergeLegacyWhat_iff hwhat htitle (inkedLines_lf what) ?_ ?_) Iff.rfl
      · exact lf_eq_of_trim
      · intro hlf
        rw [hlf, hwhat]
    · rwa [inkedLines_lf]
  · rw [ReadsBody, splitLegacy_markdownOf hwhat hcomments hnil hno]
    refine and_congr (mergeLegacyWhat_iff hwhat htitle ?_ ?_ ?_) ⟨lf_eq_of_trim_lf, ?_⟩
    · rw [inkedLines_trim, inkedLines_lf, inkedLines_lf]
    · intro h
      refine lf_eq_of_trim_lf (Eq.trans ?_ h)
      exact (trimBy_trimBy isSpace _).symm
    · intro hlf
      rw [hlf, hlf, hwhat, hwhat]
    · intro hlf
      change trim (lf (lf comments)) = comments
      rw [hlf, hlf, hcomments]

theorem readsBody_markdownOf_of_heading
    (hheading : ∃ line ∈ inkedLines what, isCommentsHeading line = true) :
    ReadsBody (trim (lf (markdownOf what comments))) title what comments ↔
      (∃ heading, isCommentsHeading heading = true ∧ inkedLines what = [heading]) ∧
        what = trim title ∧ comments = [] := by
  set body := trim (lf (markdownOf what comments)) with hbody
  have hinked : inkedLines body = inkedLines what ++
      if comments = [] then [] else commentsHeading :: inkedLines comments := by
    rw [hbody, inkedLines_trim, inkedLines_lf, inkedLines_markdownOf]
  have hreadWhat := inkedLines_what body
  have hreadComments := inkedLines_legacyComments body
  rw [hinked] at hreadWhat hreadComments
  -- The first heading is in the What.
  obtain ⟨first, after, hdrop⟩ : ∃ first after,
      (inkedLines what).dropWhile (fun line ↦ !isCommentsHeading line) = first :: after := by
    refine List.exists_cons_of_ne_nil fun hnil ↦ ?_
    obtain ⟨line, hline, hheading⟩ := hheading
    have hnot := List.dropWhile_eq_nil_iff.mp hnil line hline
    rw [hheading] at hnot
    exact nomatch hnot
  set taken := (inkedLines what).takeWhile fun line ↦ !isCommentsHeading line with htaken
  have hsplit : taken ++ first :: after = inkedLines what := by
    rw [← hdrop]
    exact List.takeWhile_append_dropWhile
  have hfirst : isCommentsHeading first = true := by
    have hnot := List.head?_dropWhile_not (fun line ↦ !isCommentsHeading line) (inkedLines what)
    rw [hdrop] at hnot
    exact (Bool.not_eq_false' _).mp hnot
  have htake : (inkedLines what ++
      if comments = [] then [] else commentsHeading :: inkedLines comments).takeWhile
        (fun line ↦ !isCommentsHeading line) = taken := by
    rw [List.takeWhile_append, if_neg]
    rw [← htaken, ← hsplit, List.length_append, List.length_cons]
    omega
  rw [htake] at hreadWhat
  rw [List.dropWhile_append, hdrop] at hreadComments
  simp only [List.isEmpty_cons, Bool.false_eq_true, if_false, List.cons_append, List.tail_cons]
    at hreadComments
  constructor
  · intro hreads
    rw [hreads.2] at hreadComments
    have hempty : comments = [] := by
      by_contra hne
      have hlength := congrArg List.length hreadComments
      rw [if_neg hne, List.length_append, List.length_cons] at hlength
      omega
    subst hempty
    rw [if_pos rfl, List.append_nil] at hreadComments
    have hnil : taken = [] := by
      by_contra hne
      have heq := what_of_readsBody hreads (by rwa [hreadWhat])
      rw [heq, ← hsplit] at hreadWhat
      have hlength := congrArg List.length hreadWhat
      rw [List.length_append, List.length_cons] at hlength
      omega
    rw [hnil] at hsplit hreadWhat
    refine ⟨⟨first, hfirst, ?_⟩, ?_, rfl⟩
    · rw [← hsplit, ← hreadComments]
      rfl
    have hmerge := hreads.1
    rw [mergeLegacyWhat_none, if_pos (inkedLines_eq_nil_iff.mp hreadWhat)] at hmerge
    exact hmerge.symm
  · rintro ⟨⟨heading, hheading, hone⟩, htitle, rfl⟩
    rw [hone] at hsplit
    obtain ⟨hnil, rfl, rfl⟩ : taken = [] ∧ first = heading ∧ after = [] := by
      cases htk : taken with
      | nil =>
        rw [htk] at hsplit
        cases hsplit
        exact ⟨rfl, rfl, rfl⟩
      | cons line rest =>
        rw [htk] at hsplit
        have hlength := congrArg List.length hsplit
        rw [List.length_append, List.length_cons, List.length_cons, List.length_singleton]
          at hlength
        omega
    rw [hnil] at hreadWhat
    refine ⟨?_, ?_⟩
    · rw [mergeLegacyWhat_none, if_pos (inkedLines_eq_nil_iff.mp hreadWhat), ← htitle]
    · exact trim_eq_nil_of_inked (trim_splitLegacy body).2 hreadComments

theorem readsBody_markdownOf_iff (hwhat : trim what = what) (hcomments : trim comments = comments)
    (htitle : what = [] → trim title = []) :
    ReadsBody (trim (lf (markdownOf what comments))) title what comments ↔
      Separable title what comments := by
  by_cases hno : ∀ line ∈ inkedLines what, isCommentsHeading line = false
  · rw [readsBody_markdownOf_of_notHeading hwhat hcomments htitle hno]
    refine ⟨fun h ↦ .inl ⟨hno, h⟩, fun h ↦ ?_⟩
    rcases h with ⟨-, h⟩ | ⟨⟨heading, hheading, hone⟩, -⟩
    · exact h
    have hnot := hno heading (by rw [hone]; exact List.mem_singleton_self heading)
    rw [hheading] at hnot
    exact nomatch hnot
  · simp only [not_forall, Bool.not_eq_false, exists_prop] at hno
    rw [readsBody_markdownOf_of_heading hno]
    refine ⟨.inr, fun h ↦ ?_⟩
    rcases h with ⟨hnone, -⟩ | h
    · obtain ⟨line, hline, hheading⟩ := hno
      rw [hnone line hline] at hheading
      exact nomatch hheading
    · exact h

/-- **When a document is read** as it was written: no line of its YAML looks like the end of the
frontmatter, the frontmatter reads as it should with its line breaks and its end trimmed, and
What and comments can be told apart. -/
theorem reads_iff (yaml : Text) (hwhat : trim what = what) (hcomments : trim comments = comments)
    (htitle : what = [] → trim title = []) (reads : Text → Prop) :
    (∃ document, splitFrontmatter (serializeDocument yaml what comments) = some document ∧
      reads document.frontmatter ∧ ReadsBody document.body title what comments) ↔
        ¬ HasFence yaml ∧ reads (lf (trimEnd yaml)) ∧ Separable title what comments := by
  by_cases hfence : HasFence yaml
  · refine iff_of_false ?_ fun h ↦ h.1 hfence
    rintro ⟨document, hdocument, -, hreads⟩
    obtain ⟨frontmatter, body, rest, hsplit, hinked⟩ := splitFrontmatter_serialize_of_hasFence hfence
    rw [hsplit] at hdocument
    cases hdocument
    rw [hwhat, hcomments, inkedLines_tailOf] at hinked
    exact not_readsBody_of_fence hinked hreads
  · rw [splitFrontmatter_serialize hfence, hwhat, hcomments,
      trim_lf_tailOf (getLast?_markdownOf hwhat hcomments),
      ← readsBody_markdownOf_iff hwhat hcomments htitle]
    simp only [Option.some.injEq, exists_eq_left', hfence, not_false_eq_true, true_and]

end Reading

end OpenAlice.Workspaces.Issues
