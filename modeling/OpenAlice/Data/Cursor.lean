import Mathlib.Data.List.Sublists
import Mathlib.Data.List.Nodup

/-!
# Pages before a cursor

A list that grows at its end is read from there on, in pages: a page holds the last elements before
the one whose key is the cursor, newest first, and the last of them is the next cursor.  Each page
is taken from a view, which is what of the list is to be seen when the page is read.

`Walked` is what holds between two pages, whatever happens to the list and to the view in between,
as long as the cursor is in the view when the next page is read.

Nothing here knows what the elements are.
-/

universe u v w

namespace OpenAlice.Data

variable {α : Type u} {κ : Type v}

/-! ## A page -/

section Page

variable [DecidableEq κ] (key : α → κ)

def beforeCursor (view : List α) (cursor : Option κ) : List α :=
  match cursor with
  | none => view
  | some k =>
    match view.findIdx? fun element ↦ key element = k with
    | some i => view.take i
    | none => []

def pageBefore (view : List α) (cursor : Option κ) (limit : Nat) : List α × Bool :=
  let scope := beforeCursor key view cursor
  let window := scope.drop (scope.length - limit)
  (window.reverse, window.length < scope.length)

end Page

def cursorBehind (key : α → κ) (cursor : Option κ) (page : List α) : Option κ :=
  (page.getLast?.map key).or cursor

variable {key : α → κ} {view older newer log yielded : List α} {cursor : Option κ} {limit : Nat}
  {k : κ}

theorem cursorBehind_map {γ : Type w} (f : γ → α) (cursor : Option κ) (page : List γ) :
    cursorBehind key cursor (page.map f) =
      cursorBehind (fun element ↦ key (f element)) cursor page := by
  rw [cursorBehind, cursorBehind, List.getLast?_map, Option.map_map]
  rfl

section Page

variable [DecidableEq κ]

theorem beforeCursor_map {γ : Type w} (f : γ → α) (view : List γ) (cursor : Option κ) :
    beforeCursor key (view.map f) cursor =
      (beforeCursor (fun element ↦ key (f element)) view cursor).map f := by
  cases cursor with
  | none => rfl
  | some k =>
    rw [beforeCursor, beforeCursor, List.findIdx?_map]
    simp only [Function.comp_def]
    cases view.findIdx? fun element ↦ decide (key (f element) = k) with
    | none => rfl
    | some i => exact (List.map_take ..).symm

theorem pageBefore_map {γ : Type w} (f : γ → α) (view : List γ) (cursor : Option κ) (limit : Nat) :
    pageBefore key (view.map f) cursor limit =
      ((pageBefore (fun element ↦ key (f element)) view cursor limit).1.map f,
        (pageBefore (fun element ↦ key (f element)) view cursor limit).2) := by
  simp only [pageBefore, beforeCursor_map, List.length_map, ← List.map_drop, List.map_reverse]

theorem pageBefore_of_not_mem (h : k ∉ view.map key) (limit : Nat) :
    pageBefore key view (some k) limit = ([], false) := by
  have hnone : view.findIdx? (fun element ↦ decide (key element = k)) = none := by
    rw [List.findIdx?_eq_none_iff]
    intro element helement
    exact decide_eq_false fun heq ↦ h (heq ▸ List.mem_map_of_mem helement)
  have hscope : beforeCursor key view (some k) = [] := by rw [beforeCursor, hnone]
  rw [pageBefore, hscope, List.drop_nil]
  rfl

theorem pageBefore_ne_nil (hlimit : 1 ≤ limit)
    (hmore : (pageBefore key view cursor limit).2 = true) :
    (pageBefore key view cursor limit).1 ≠ [] := by
  rw [pageBefore] at hmore ⊢
  generalize beforeCursor key view cursor = scope at hmore ⊢
  simp only [decide_eq_true_eq, List.length_drop] at hmore
  intro hnil
  have hlength := congrArg List.length (List.reverse_eq_nil_iff.mp hnil)
  rw [List.length_drop, List.length_nil] at hlength
  omega

theorem beforeCursor_append {element : α} (h : key element ∉ older.map key) (newer : List α) :
    beforeCursor key (older ++ element :: newer) (some (key element)) = older := by
  have hold : ∀ e ∈ older, decide (key e = key element) = false := fun e he ↦
    decide_eq_false fun heq ↦ h (heq ▸ List.mem_map_of_mem he)
  have hfind : (older ++ element :: newer).findIdx? (fun e ↦ decide (key e = key element)) =
      some older.length := by
    rw [List.findIdx?_append, List.findIdx?_eq_none_iff.mpr hold, List.findIdx?_cons,
      decide_eq_true rfl, if_pos rfl, Option.none_or, Option.map_some, Nat.zero_add]
  simp only [beforeCursor, hfind]
  exact List.take_left

end Page

/-! ## Between two pages -/

/-- **What has been read**: the list is cut at the cursor; what was yielded is from there on, newest
first, and of the steady elements it has all those, or all at the end.  From the first page on,
everything is from the pool, which is what the list was then. -/
structure Walked (key : α → κ) (log : List α) (steady : α → Prop) (cursor : Option κ)
    (yielded : List α) (done : Bool) (pool : List α) : Prop where
  cut : ∃ older newer, log = older ++ newer ∧ yielded.reverse.Sublist newer ∧
    (newer.head?.map key = cursor) ∧
    (∀ element, steady element → element ∈ yielded ∨ done = false ∧ element ∈ older) ∧
    (newer ≠ [] → yielded ⊆ pool ∧ older ⊆ pool)

namespace Walked

variable {steady steady' : α → Prop} {done : Bool} {pool : List α}

theorem start (h : ∀ element, steady element → element ∈ log) :
    Walked key log steady none [] false pool :=
  ⟨log, [], (List.append_nil log).symm, .slnil, rfl,
    fun element hsteady ↦ .inr ⟨rfl, h element hsteady⟩, fun hne ↦ absurd rfl hne⟩

theorem append (h : Walked key log steady cursor yielded done pool) (element : α) :
    Walked key (log ++ [element]) steady cursor yielded done pool := by
  obtain ⟨older, newer, rfl, hyielded, hcursor, hsteady, hpool⟩ := h.cut
  cases newer with
  | nil =>
    refine ⟨older ++ [element], [], ?_, hyielded, hcursor, fun e he ↦ ?_, fun hne ↦ absurd rfl hne⟩
    · rw [List.append_nil, List.append_nil]
    · exact (hsteady e he).imp_right fun hold ↦ ⟨hold.1, List.mem_append_left _ hold.2⟩
  | cons first newer =>
    refine ⟨older, first :: newer ++ [element], List.append_assoc .., ?_, hcursor, hsteady,
      fun _ ↦ hpool (List.cons_ne_nil first newer)⟩
    exact hyielded.trans (List.sublist_append_left _ _)

theorem mono (h : Walked key log steady cursor yielded done pool)
    (hmono : ∀ element, steady' element → steady element) :
    Walked key log steady' cursor yielded done pool := by
  obtain ⟨older, newer, hlog, hyielded, hcursor, hsteady, hpool⟩ := h.cut
  exact ⟨older, newer, hlog, hyielded, hcursor,
    fun element he ↦ hsteady element (hmono element he), hpool⟩

theorem beforeCursor_sublist [DecidableEq κ] (hnodup : ((older ++ newer).map key).Nodup)
    (hview : view.Sublist (older ++ newer)) (hcursor : newer.head?.map key = cursor)
    (hmem : ∀ k, cursor = some k → k ∈ view.map key) :
    (beforeCursor key view cursor).Sublist older ∧
      ∀ element ∈ view, element ∈ older → element ∈ beforeCursor key view cursor := by
  obtain ⟨front, back, rfl, hfront, hback⟩ := List.sublist_append_iff.mp hview
  rw [List.map_append, List.nodup_append] at hnodup
  obtain ⟨-, hnewer, hdisjoint⟩ := hnodup
  cases newer with
  | nil =>
    obtain rfl := List.sublist_nil.mp hback
    cases hcursor
    rw [List.append_nil]
    exact ⟨hfront, fun element helement _ ↦ helement⟩
  | cons first newer =>
    cases hcursor
    -- the cursor is in the view, and it is not among the older elements
    have hnotold : ∀ e ∈ older, key e ≠ key first := fun e he ↦
      hdisjoint _ (List.mem_map_of_mem he) _ (.head _)
    obtain ⟨e, he, hkey⟩ := List.mem_map.mp (hmem (key first) rfl)
    have heback : e ∈ back := (List.mem_append.mp he).resolve_left fun hefront ↦
      hnotold e (hfront.subset hefront) hkey
    obtain ⟨rest, rfl⟩ : ∃ rest, back = first :: rest := by
      cases hback with
      | cons _ hback =>
        rw [List.map_cons, List.nodup_cons] at hnewer
        have hnew : key e ∈ newer.map key := List.mem_map_of_mem (hback.subset heback)
        exact absurd (hkey ▸ hnew) hnewer.1
      | cons_cons _ _ => exact ⟨_, rfl⟩
    have hnotfront : key first ∉ front.map key := by
      intro hmem
      obtain ⟨e, he, hkey⟩ := List.mem_map.mp hmem
      exact hnotold e (hfront.subset he) hkey
    rw [List.head?_cons, Option.map_some, beforeCursor_append hnotfront]
    refine ⟨hfront, fun element helement hold ↦ ?_⟩
    refine (List.mem_append.mp helement).resolve_right fun hnew ↦ ?_
    exact hdisjoint _ (List.mem_map_of_mem hold) _ (List.mem_map_of_mem (hback.subset hnew)) rfl

/-- **A page is read** from a view that has the steady elements and the cursor. -/
theorem read [DecidableEq κ] (h : Walked key log steady cursor yielded done pool)
    (hnodup : (log.map key).Nodup) (hview : view.Sublist log)
    (hin : ∀ element, steady element → element ∈ view)
    (hmem : ∀ k, cursor = some k → k ∈ view.map key) (hlimit : 1 ≤ limit) :
    Walked key log steady (cursorBehind key cursor (pageBefore key view cursor limit).1)
      (yielded ++ (pageBefore key view cursor limit).1)
      (!(pageBefore key view cursor limit).2) (if cursor = none then log else pool) := by
  obtain ⟨older, newer, rfl, hyielded, hcursor, hsteady, hpool⟩ := h.cut
  obtain ⟨hscope, hcovers⟩ := beforeCursor_sublist hnodup hview hcursor hmem
  have hfrom : yielded ⊆ (if cursor = none then older ++ newer else pool) ∧
      older ⊆ (if cursor = none then older ++ newer else pool) := by
    cases newer with
    | nil =>
      rw [← hcursor, List.head?_nil, Option.map_none, if_pos rfl]
      refine ⟨fun element helement ↦ ?_, List.subset_append_left older []⟩
      exact List.mem_append_right older (hyielded.subset (List.mem_reverse.mpr helement))
    | cons first newer =>
      rw [← hcursor, List.head?_cons, Option.map_some, if_neg (Option.some_ne_none _)]
      exact hpool (List.cons_ne_nil first newer)
  rw [pageBefore]
  generalize beforeCursor key view cursor = scope at hscope hcovers ⊢
  have hsplit := List.take_append_drop (scope.length - limit) scope
  simp only
  generalize hwindow : scope.drop (scope.length - limit) = window at hsplit
  generalize hrest : scope.take (scope.length - limit) = rest at hsplit
  have hlength : window.length = min limit scope.length := by
    rw [← hwindow, List.length_drop]
    omega
  cases window with
  | nil =>
    -- nothing is left, or the page would not be empty
    have hnil : scope = [] := by
      rw [List.length_nil] at hlength
      exact List.length_eq_zero_iff.mp (by omega)
    refine ⟨older, newer, rfl, ?_, hcursor, fun element he ↦ ?_, fun _ ↦ ?_⟩
    · rw [List.reverse_nil, List.append_nil]
      exact hyielded
    · rw [List.reverse_nil, List.append_nil]
      refine .inl ((hsteady element he).resolve_right fun hold ↦ ?_)
      have hmem := hcovers element (hin element he) hold.2
      rw [hnil] at hmem
      cases hmem
    · rw [List.reverse_nil, List.append_nil]
      exact hfrom
  | cons first window =>
    rw [← hsplit] at hscope hcovers
    obtain ⟨part, others, hold, hpart, hothers⟩ := List.append_sublist_iff.mp hscope
    obtain ⟨between, last, hothers', hfirst, hlast⟩ := List.cons_sublist_iff.mp hothers
    obtain ⟨left, right, hbetween⟩ := List.append_of_mem hfirst
    have holder : older = (part ++ left) ++ first :: (right ++ last) := by
      rw [hold, hothers', hbetween]
      simp only [List.append_assoc, List.cons_append]
    have hnew : (first :: window).Sublist (first :: (right ++ last)) :=
      (hlast.trans (List.sublist_append_right right last)).cons_cons first
    have hwindowOld : (first :: window) ⊆ older := by
      rw [holder]
      exact List.subset_append_of_subset_right _ hnew.subset
    refine ⟨part ++ left, first :: (right ++ last) ++ newer, ?_, ?_, ?_, fun element he ↦ ?_,
      fun _ ↦ ⟨?_, ?_⟩⟩
    · rw [holder, List.append_assoc]
    · rw [List.reverse_append, List.reverse_reverse]
      exact hnew.append hyielded
    · rw [cursorBehind, List.getLast?_reverse]
      rfl
    · rw [List.mem_append, List.mem_reverse]
      rcases hsteady element he with hread | ⟨-, hin'⟩
      · exact .inl (.inl hread)
      rcases List.mem_append.mp (hcovers element (hin element he) hin') with hmem | hmem
      · refine .inr ⟨?_, List.mem_append_left _ (hpart.subset hmem)⟩
        rw [Bool.not_eq_false', decide_eq_true_eq, ← hsplit, List.length_append]
        exact Nat.lt_add_of_pos_left (List.length_pos_of_mem hmem)
      · exact .inl (.inr hmem)
    · refine List.append_subset.mpr ⟨hfrom.1, fun element helement ↦ ?_⟩
      exact hfrom.2 (hwindowOld (List.mem_reverse.mp helement))
    · refine List.Subset.trans ?_ hfrom.2
      rw [holder]
      exact List.subset_append_left ..

theorem sublist (h : Walked key log steady cursor yielded done pool) :
    yielded.reverse.Sublist log := by
  obtain ⟨older, newer, rfl, hyielded, -⟩ := h.cut
  exact hyielded.trans (List.sublist_append_right older newer)

theorem complete (h : Walked key log steady cursor yielded done pool) (hdone : done = true)
    {element : α} (hsteady : steady element) : element ∈ yielded := by
  obtain ⟨older, newer, -, -, -, hall, -⟩ := h.cut
  refine (hall element hsteady).resolve_right fun hleft ↦ ?_
  rw [hdone] at hleft
  cases hleft.1

theorem subset_pool (h : Walked key log steady cursor yielded done pool) (hne : yielded ≠ []) :
    yielded ⊆ pool := by
  obtain ⟨older, newer, -, hyielded, -, -, hpool⟩ := h.cut
  refine (hpool ?_).1
  rintro rfl
  exact hne (List.reverse_eq_nil_iff.mp (List.sublist_nil.mp hyielded))

end Walked

end OpenAlice.Data
