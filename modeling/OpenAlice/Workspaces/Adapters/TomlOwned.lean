import OpenAlice.Workspaces.Adapters.TomlLines

/-!
# The lines of a TOML file that are owned

What the entries of the state say of the file (`Owns`): its top level is the user's one, patched
under the keys of the entries, and each entry holds the line that the user had and the line that the
file has now.  An entry can be put, forgotten when it changes nothing, and given back; when all of
them are given back, the file is the user's one.
-/

namespace OpenAlice.Workspaces.Adapters

open Data

/-! ## The user's file -/

/-- A user's file: its lines, and which of them go on with a value of several lines. -/
structure UserToml where
  marked : List (Line × Bool)
  isLine : ∀ entry ∈ marked, IsLine entry.1

namespace UserToml

variable (user : UserToml)

def lines : List Line := user.marked.map Prod.fst

def markedTop : List (Line × Bool) := user.marked.takeWhile fun entry ↦ !isSection entry.1

def top : List Line := user.markedTop.map Prod.fst

def rest : List Line := user.lines.dropWhile (!isSection ·)

def within : List Line := (user.markedTop.filter Prod.snd).map Prod.fst

/-- All but the assignments of the keys at the top level. -/
def others (keys : List Line) : List Line :=
  (user.markedTop.filter fun entry ↦ entry.2 || keys.all fun key ↦ keyOf entry.1 ≠ some key).map
    Prod.fst ++ user.rest

end UserToml

def topOf (lines : List Line) : List Line := lines.takeWhile (!isSection ·)

def restOf (lines : List Line) : List Line := lines.dropWhile (!isSection ·)

theorem topLevel_span (lines : List Line) : TopLevel (topOf lines) (restOf lines) where
  top line h := by
    have hnot := List.mem_takeWhile_imp h
    rwa [Bool.not_eq_true'] at hnot
  rest line h := by
    have hfirst := List.head?_dropWhile_not (!isSection ·) lines
    rw [restOf] at h
    rw [h] at hfirst
    exact Bool.not_eq_eq_eq_not.mp hfirst

theorem topOf_append_restOf (lines : List Line) : topOf lines ++ restOf lines = lines :=
  List.takeWhile_append_dropWhile

theorem TopLevel.topOf_eq {top rest : List Line} (h : TopLevel top rest) :
    topOf (top ++ rest) = top := by
  rw [topOf, List.takeWhile_append_of_pos fun line hline ↦ by rw [h.top line hline]; rfl]
  cases rest with
  | nil => exact List.append_nil _
  | cons line rest =>
    rw [List.takeWhile_cons_of_neg (by rw [h.rest line rfl]; exact Bool.false_ne_true),
      List.append_nil]

theorem TopLevel.restOf_eq {top rest : List Line} (h : TopLevel top rest) :
    restOf (top ++ rest) = rest :=
  List.append_cancel_left ((congrArg (· ++ restOf (top ++ rest)) h.topOf_eq).symm.trans
    (topOf_append_restOf _))

namespace UserToml

variable {user : UserToml}

theorem top_eq : user.top = topOf user.lines := by
  rw [top, markedTop, topOf, lines, List.takeWhile_map]
  rfl

theorem top_append_rest : user.top ++ user.rest = user.lines := by
  rw [top_eq]
  exact topOf_append_restOf _

theorem topLevel : TopLevel user.top user.rest := by
  rw [top_eq]
  exact topLevel_span _

theorem isLine_of_mem {line : Line} (h : line ∈ user.lines) : IsLine line := by
  obtain ⟨entry, hentry, rfl⟩ := List.mem_map.mp h
  exact user.isLine entry hentry

theorem others_eq {keys : List Line}
    (h : ∀ line ∈ user.within, ∀ key ∈ keys, keyOf line ≠ some key) :
    user.others keys =
      user.top.filter (fun line ↦ keys.all fun key ↦ keyOf line ≠ some key) ++ user.rest := by
  rw [others, top, List.filter_map]
  refine congrArg (fun l : List (Line × Bool) ↦ l.map Prod.fst ++ user.rest) ?_
  refine List.filter_congr fun entry hentry ↦ ?_
  rw [Function.comp_apply]
  cases hmark : entry.2 with
  | false => exact Bool.false_or _
  | true =>
    have hmem : entry.1 ∈ user.within := List.mem_map_of_mem (List.mem_filter.mpr ⟨hentry, hmark⟩)
    rw [Bool.true_or]
    exact (List.all_eq_true.mpr fun key hkey ↦ decide_eq_true (h _ hmem key hkey)).symm

end UserToml

/-! ## What is owned -/

structure Held (user : UserToml) (top : List Line) (entry : OwnedTomlStateEntry) : Prop where
  safe : isSafeKey entry.key = true
  previous : entry.previous = lineOf user.top entry.key
  injected : lineOf top entry.key = entry.injected
  kept : entry.injected = none → entry.previous = none
  onceBefore : Once user.top entry.key
  once : Once top entry.key
  outside : ∀ line ∈ user.within, keyOf line ≠ some entry.key

structure Owns (user : UserToml) (owned : OwnedTomlStateEntry → Prop) (top : List Line) : Prop where
  patched : Patched keyOf user.top (fun key ↦ ∃ entry, owned entry ∧ entry.key = key) user.top top
  unique : ∀ entry entry', owned entry → owned entry' → entry.key = entry'.key → entry = entry'
  held : ∀ entry, owned entry → Held user top entry
  isLine : ∀ line ∈ top, IsLine line

theorem owns_none (user : UserToml) : Owns user (fun _ ↦ False) user.top where
  patched := (patched_refl user.top).mono fun _ h ↦ h.elim
  unique _ _ h := h.elim
  held _ h := h.elim
  isLine line h := by
    refine user.isLine_of_mem ?_
    rw [← user.top_append_rest]
    exact List.mem_append_left _ h

namespace Owns

variable {user : UserToml} {owned owned' : OwnedTomlStateEntry → Prop} {top : List Line}
  {entry : OwnedTomlStateEntry} {key line : Line}

theorem eq_of_none (h : Owns user owned top) (hnone : ∀ entry, ¬ owned entry) : top = user.top :=
  h.patched.eq_of_none fun _ ⟨entry, hentry, _⟩ ↦ hnone entry hentry

theorem mem_or (h : Owns user owned top) (hline : line ∈ top) :
    line ∈ user.top ∨ ∃ key, keyOf line = some key := by
  have hsame := h.patched.filter_eq (fun line ↦ decide (keyOf line = none))
    fun a k _ ha ↦ by rw [ha]; rfl
  cases hkey : keyOf line with
  | some key => exact .inr ⟨key, rfl⟩
  | none =>
    have hmem : line ∈ top.filter (fun line ↦ decide (keyOf line = none)) :=
      List.mem_filter.mpr ⟨hline, decide_eq_true hkey⟩
    rw [hsame] at hmem
    exact .inl (List.mem_filter.mp hmem).1

theorem topLevel (h : Owns user owned top) : TopLevel top user.rest where
  top line hline := by
    rcases h.mem_or hline with hmem | ⟨key, hkey⟩
    · exact user.topLevel.top line hmem
    · exact isSection_of_keyOf hkey
  rest := user.topLevel.rest

theorem filter_eq (h : Owns user owned top) (hkey : ∀ entry, owned entry → entry.key ≠ key) :
    top.filter (keyOf · = some key) = user.top.filter (keyOf · = some key) := by
  refine h.patched.filter_eq _ ?_
  rintro a _ ⟨entry, hentry, rfl⟩ ha
  exact decide_eq_false fun heq ↦ hkey entry hentry (Option.some.inj (ha.symm.trans heq))

theorem lineOf_eq (h : Owns user owned top) (hkey : ∀ entry, owned entry → entry.key ≠ key) :
    lineOf top key = lineOf user.top key := by
  rw [lineOf_eq_head?, h.filter_eq hkey, lineOf_eq_head?]

theorem once (h : Owns user owned top) (honce : Once user.top key) : Once top key := by
  by_cases hkey : ∃ entry, owned entry ∧ entry.key = key
  · obtain ⟨entry, hentry, rfl⟩ := hkey
    exact (h.held entry hentry).once
  · rw [once_iff, h.filter_eq fun entry hentry heq ↦ hkey ⟨entry, hentry, heq⟩]
    exact once_iff.mp honce

theorem inked (h : Owns user owned top) (hinked : Inked user.lines) : Inked (top ++ user.rest) := by
  rw [← user.top_append_rest] at hinked
  by_cases hnew : ∃ line ∈ top, ∃ key, keyOf line = some key
  · obtain ⟨line, hline, key, hkey⟩ := hnew
    exact .inr ⟨line, List.mem_append_left _ hline, trim_of_keyOf hkey⟩
  -- Without an assignment, no line is a new one.
  rw [h.patched.eq_of_lacks fun key _ line hline hkey ↦ hnew ⟨line, hline, key, hkey⟩]
  exact hinked

theorem keyOf_previous (h : Owns user owned top) (hentry : owned entry) (line : Line)
    (hline : entry.previous = some line) : keyOf line = some entry.key :=
  (keyOf_of_lineOf ((h.held entry hentry).previous.symm.trans hline)).2

/-! ### The steps -/

theorem put (h : Owns user owned top) (new : OwnedTomlStateEntry) (hsafe : isSafeKey new.key = true)
    (hprevious : new.previous = lineOf user.top new.key)
    (hkey : ∀ line, new.injected = some line → keyOf line = some new.key)
    (hline : ∀ line, new.injected = some line → IsLine line)
    (hkept : new.injected = none → new.previous = none) (honce : Once user.top new.key)
    (houtside : ∀ line ∈ user.within, keyOf line ≠ some new.key) :
    Owns user (fun entry ↦ entry = new ∨ (owned entry ∧ entry.key ≠ new.key))
      (putLine top new.key new.injected) where
  patched := by
    refine Patched.putLine (h.patched.mono ?_) ⟨new, .inl rfl, rfl⟩ hkey
      fun hnone ↦ hprevious.symm.trans (hkept hnone)
    rintro _ ⟨entry, hentry, rfl⟩
    by_cases heq : entry.key = new.key
    · exact ⟨new, .inl rfl, heq.symm⟩
    · exact ⟨entry, .inr ⟨hentry, heq⟩, rfl⟩
  unique := by
    rintro entry entry' (rfl | ⟨hentry, hne⟩) (rfl | ⟨hentry', hne'⟩) heq
    · rfl
    · exact absurd heq.symm hne'
    · exact absurd heq hne
    · exact h.unique entry entry' hentry hentry' heq
  held := by
    rintro entry (rfl | ⟨hentry, hne⟩)
    · exact ⟨hsafe, hprevious, lineOf_putLine_self hkey, hkept, honce,
        once_putLine_self hkey (h.once honce), houtside⟩
    have hheld := h.held entry hentry
    exact ⟨hheld.safe, hheld.previous, (lineOf_putLine_of_ne hkey hne).trans hheld.injected,
      hheld.kept, hheld.onceBefore, once_putLine_of_ne hkey hne hheld.once, hheld.outside⟩
  isLine line hmem := by
    rcases mem_putLine hmem with hmem | hsaved
    · exact h.isLine line hmem
    · exact hline line hsaved

theorem forget (h : Owns user owned top) (hle : ∀ entry, owned' entry → owned entry)
    (hsame : ∀ entry, owned entry → ¬ owned' entry → entry.injected = entry.previous) :
    Owns user owned' top where
  patched := by
    have hdropped : ∀ key, (∃ entry, owned entry ∧ entry.key = key) →
        (¬ ∃ entry, owned' entry ∧ entry.key = key) →
        lineOf top key = lineOf user.top key ∧ Once user.top key ∧ Once top key := by
      rintro _ ⟨entry, hentry, rfl⟩ hnot
      have hheld := h.held entry hentry
      refine ⟨?_, hheld.onceBefore, hheld.once⟩
      rw [hheld.injected, ← hheld.previous]
      exact hsame entry hentry fun hentry' ↦ hnot ⟨entry, hentry', rfl⟩
    refine (h.patched.forget ?_ ?_).mono fun key hkey ↦ hkey.2
    · intro key hkey hnot a ha b hb haKey hbKey
      obtain ⟨hline, hbefore, hnow⟩ := hdropped key hkey hnot
      rw [hnow.lineOf_eq hb hbKey, hbefore.lineOf_eq ha haKey] at hline
      exact Option.some.inj hline
    intro key hkey hnot hlacks
    rw [← lineOf_eq_none_iff, (hdropped key hkey hnot).1]
    exact lineOf_eq_none_iff.mpr hlacks
  unique entry entry' hentry hentry' := h.unique entry entry' (hle _ hentry) (hle _ hentry')
  held entry hentry := h.held entry (hle _ hentry)
  isLine := h.isLine

theorem giveBack (h : Owns user owned top) (hentry : owned entry) :
    Owns user (fun other ↦ owned other ∧ other ≠ entry) (putLine top entry.key entry.previous) where
  patched := by
    have hheld := h.held entry hentry
    have hleft : ∀ key, (∃ other, owned other ∧ other.key = key) ∧ key ≠ entry.key →
        ∃ other, (owned other ∧ other ≠ entry) ∧ other.key = key := by
      rintro _ ⟨⟨other, hother, rfl⟩, hne⟩
      exact ⟨other, ⟨hother, fun heq ↦ hne (congrArg _ heq)⟩, rfl⟩
    cases hprevious : entry.previous with
    | none =>
      have hlacks : Lacks keyOf user.top entry.key :=
        lineOf_eq_none_iff.mp (hheld.previous.symm.trans hprevious)
      exact (h.patched.release ⟨entry, hentry, rfl⟩ hlacks).mono hleft
    | some line =>
      have hline : lineOf user.top entry.key = some line := hheld.previous.symm.trans hprevious
      have hthere : lineOf top entry.key ≠ none := by
        rw [hheld.injected]
        intro hnone
        rw [hheld.kept hnone] at hprevious
        cases hprevious
      rw [putLine, if_neg hthere]
      refine (h.patched.restore ⟨entry, hentry, rfl⟩ (keyOf_of_lineOf hline).2 ?_ ?_).mono hleft
      · intro b hb hkey
        rw [hheld.onceBefore.lineOf_eq hb hkey] at hline
        exact Option.some.inj hline
      · rw [← lineOf_eq_none_iff, hline]
        exact Option.some_ne_none _
  unique other other' hother hother' := h.unique other other' hother.1 hother'.1
  held other hother := by
    have hheld := h.held other hother.1
    have hne : other.key ≠ entry.key := fun heq ↦ hother.2 (h.unique _ _ hother.1 hentry heq)
    have hkey := h.keyOf_previous hentry
    exact ⟨hheld.safe, hheld.previous, (lineOf_putLine_of_ne hkey hne).trans hheld.injected,
      hheld.kept, hheld.onceBefore, once_putLine_of_ne hkey hne hheld.once, hheld.outside⟩
  isLine line hmem := by
    rcases mem_putLine hmem with hmem | hsaved
    · exact h.isLine line hmem
    rw [(h.held entry hentry).previous] at hsaved
    refine user.isLine_of_mem ?_
    rw [← user.top_append_rest]
    exact List.mem_append_left _ (keyOf_of_lineOf hsaved).1

end Owns

end OpenAlice.Workspaces.Adapters
