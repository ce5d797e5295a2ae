import Mathlib.Algebra.Order.Group.Int
import OpenAlice.Core.JournalOrder

/-!
# Pages of the event log

`query` of `src/core/event-log.ts` cuts the matching entries into pages from the end: the first page
has the newest.  The bounds of a page are computed by subtraction, and the second one becomes
negative on the pages behind the last; `slice` then counts it from the end of the list, and such a
page shows old entries again.  The pages partition the log when no page behind the last one does
that, which `EvenPages` says of the number of entries.
-/

namespace OpenAlice.Core

open OpenAlice.Data

universe u

variable {J : Type u} (codec : EntryCodec J)

/-! ## `query` -/

/-- `slice(start, stop)`: a negative end counts from the end of the list. -/
def slice {α : Type u} (start : Nat) (stop : Int) (l : List α) : List α :=
  (l.take (if 0 ≤ stop then stop.toNat else (l.length + stop).toNat)).drop start

/-- The options of `query`. -/
structure QueryOpts where
  page : Option Int := none
  pageSize : Option Int := none
  type : Option String := none

structure EventLogQueryResult (J : Type u) where
  entries : List (EventLogEntry J)
  total : Nat
  page : Nat
  pageSize : Nat
  totalPages : Nat

def query (file : List Char) (opts : QueryOpts := {}) : EventLogQueryResult J :=
  let page := (max 1 (opts.page.getD 1)).toNat
  let pageSize := (max 1 (opts.pageSize.getD 100)).toNat
  let all := read codec file { type := opts.type }
  let total := all.length
  -- `Math.ceil(total / pageSize)`
  let totalPages := max 1 ((total + (pageSize - 1)) / pageSize)
  let start := total - page * pageSize
  let stop := (total : Int) - (page - 1) * pageSize
  { entries := (slice start stop all).reverse, total, page, pageSize, totalPages }

/-! ## Pages from the end -/

section Pages

variable {α : Type u} {l : List α} {size : Nat}

theorem slice_reverse (l : List α) {skip : Nat} (size : Nat) (h : skip ≤ l.length) :
    (slice (l.length - (skip + size)) ((l.length : Int) - skip) l).reverse =
      (l.reverse.drop skip).take size := by
  have hstop : (0 : Int) ≤ (l.length : Int) - skip := by omega
  have hnat : ((l.length : Int) - skip).toNat = l.length - skip := by omega
  rw [slice, if_pos hstop, hnat, List.drop_reverse, List.take_reverse, List.length_take,
    Nat.min_eq_left (Nat.sub_le _ _), Nat.sub_sub]

theorem slice_behind (l : List α) {skip : Nat} (size : Nat) (h : l.length < skip) :
    slice (l.length - (skip + size)) ((l.length : Int) - skip) l =
      l.take (2 * l.length - skip) := by
  have hstop : ¬ (0 : Int) ≤ (l.length : Int) - skip := by omega
  have hnat : ((l.length : Int) + ((l.length : Int) - skip)).toNat = 2 * l.length - skip := by omega
  have hstart : l.length - (skip + size) = 0 := by omega
  rw [slice, if_neg hstop, hnat, hstart, List.drop_zero]

theorem flatMap_pages (l : List α) (size n : Nat) :
    ((List.range n).flatMap fun i ↦ (l.drop (i * size)).take size) = l.take (n * size) := by
  induction n with
  | zero => rw [Nat.zero_mul]; rfl
  | succ n ih =>
    rw [List.range_succ, List.flatMap_append, ih, List.flatMap_singleton, Nat.succ_mul,
      List.take_add]

end Pages

/-! ## What the pages are -/

def matching (file : List Char) (type : Option String) : List (EventLogEntry J) :=
  (entriesOf codec file).filter fun entry ↦
    0 < entry.seq && ({ type } : ReadOpts).matchesType entry.type

theorem readLoop_type (type : Option String) (results : List (EventLogEntry J))
    (ls : List (List Char)) :
    readLoop codec { type } results ls =
      results ++ (ls.filterMap (parseLine codec)).filter fun entry ↦
        0 < entry.seq && ({ type } : ReadOpts).matchesType entry.type := by
  induction ls generalizing results with
  | nil => exact (List.append_nil _).symm
  | cons line ls ih =>
    rw [readLoop, List.filterMap_cons]
    cases parseLine codec line with
    | none => exact ih results
    | some entry =>
      by_cases hseq : entry.seq ≤ 0
      · simp only [hseq, if_true]
        rw [ih, List.filter_cons_of_neg (by simp [Nat.le_zero.mp hseq])]
      have hpos : 0 < entry.seq := Nat.lt_of_not_le hseq
      simp only [hseq, if_false]
      rw [List.filter_cons, decide_eq_true hpos, Bool.true_and]
      cases ({ type } : ReadOpts).matchesType entry.type with
      | false => exact ih results
      | true => exact (ih _).trans (List.append_assoc _ _ _)

/-- What `query` cuts into pages. -/
theorem read_type (file : List Char) (type : Option String) :
    read codec file { type } = matching codec file type := readLoop_type codec type [] _

def pageOf (file : List Char) (type : Option String) (pageSize page : Nat) :
    EventLogQueryResult J :=
  query codec file { page := some page, pageSize := some pageSize, type }

/-- **The pages partition the log.** -/
structure Partitions (file : List Char) (type : Option String) (pageSize : Nat) : Prop where
  /-- Every matching entry once, newest first. -/
  all : (List.range (pageOf codec file type pageSize 1).totalPages).flatMap
      (fun i ↦ (pageOf codec file type pageSize (i + 1)).entries) =
    (matching codec file type).reverse
  full : ∀ page, 1 ≤ page → page < (pageOf codec file type pageSize 1).totalPages →
    (pageOf codec file type pageSize page).entries.length = pageSize
  behind : ∀ page, (pageOf codec file type pageSize 1).totalPages < page →
    (pageOf codec file type pageSize page).entries = []

/-- No page behind the last one begins less than twice the number of entries from the end: there are
none, or they fill one page, or not half of one. -/
def EvenPages (total pageSize : Nat) : Prop :=
  total = 0 ∨ total = pageSize ∨ 2 * total ≤ pageSize

variable {codec} {file : List Char} {type : Option String} {pageSize : Nat}

theorem pageOf_totalPages (hsize : 0 < pageSize) (page : Nat) :
    (pageOf codec file type pageSize page).totalPages =
      max 1 (((matching codec file type).length + (pageSize - 1)) / pageSize) := by
  have hnat : (max 1 (pageSize : Int)).toNat = pageSize := by omega
  simp only [pageOf, query, Option.getD_some, hnat, read_type]

theorem pageOf_entries (hsize : 0 < pageSize) (i : Nat) :
    (pageOf codec file type pageSize (i + 1)).entries =
      (slice ((matching codec file type).length - (i * pageSize + pageSize))
        (((matching codec file type).length : Int) - ((i * pageSize : Nat) : Int))
        (matching codec file type)).reverse := by
  have hnat : (max 1 (pageSize : Int)).toNat = pageSize := by omega
  have hpage : (max 1 (((i + 1 : Nat)) : Int)).toNat = i + 1 := by omega
  have hskip : (((i + 1 : Nat) : Int) - 1) * (pageSize : Int) = ((i * pageSize : Nat) : Int) := by
    push_cast
    rw [Int.add_sub_cancel]
  simp only [pageOf, query, Option.getD_some, hnat, hpage, read_type, hskip, Nat.succ_mul]

theorem pageOf_inside (hsize : 0 < pageSize) {i : Nat}
    (h : i * pageSize ≤ (matching codec file type).length) :
    (pageOf codec file type pageSize (i + 1)).entries =
      ((matching codec file type).reverse.drop (i * pageSize)).take pageSize := by
  rw [pageOf_entries hsize, slice_reverse _ _ h]

theorem pageOf_behind (hsize : 0 < pageSize) {i : Nat}
    (h : (matching codec file type).length ≤ i * pageSize) :
    (pageOf codec file type pageSize (i + 1)).entries = [] ↔
      i * pageSize = (matching codec file type).length ∨
        2 * (matching codec file type).length ≤ i * pageSize := by
  rcases Nat.eq_or_lt_of_le h with heq | hlt
  · rw [pageOf_inside hsize heq.symm.le]
    refine iff_of_true ?_ (.inl heq.symm)
    rw [List.drop_eq_nil_of_le (by rw [List.length_reverse]; exact h), List.take_nil]
  rw [pageOf_entries hsize, slice_behind _ _ hlt, List.reverse_eq_nil_iff, List.take_eq_nil_iff,
    ← List.length_eq_zero_iff]
  omega

theorem totalPages_bounds (total : Nat) (hsize : 0 < pageSize) {pages : Nat}
    (h : pages = max 1 ((total + (pageSize - 1)) / pageSize)) :
    1 ≤ pages ∧ (pages - 1) * pageSize ≤ total ∧ total ≤ pages * pageSize ∧
      (0 < total → (pages - 1) * pageSize < total) := by
  have hdiv := Nat.div_add_mod (total + (pageSize - 1)) pageSize
  have hmod := Nat.mod_lt (total + (pageSize - 1)) hsize
  rw [Nat.mul_comm] at hdiv
  rcases Nat.eq_zero_or_pos ((total + (pageSize - 1)) / pageSize) with hzero | hpos
  · rw [hzero] at h hdiv
    obtain rfl : pages = 1 := h
    rw [Nat.sub_self, Nat.zero_mul, Nat.one_mul]
    omega
  rw [Nat.max_eq_right hpos] at h
  rw [← h] at hdiv hpos
  have hlast : (pages - 1) * pageSize + pageSize = pages * pageSize := by
    rw [← Nat.succ_mul, Nat.succ_eq_add_one, Nat.sub_add_cancel hpos]
  omega

/-- **When the pages partition the log.** -/
theorem pages_partition (codec : EntryCodec J) (file : List Char) (type : Option String)
    (hsize : 0 < pageSize) :
    Partitions codec file type pageSize ↔ EvenPages (matching codec file type).length pageSize := by
  obtain ⟨pages, hpages⟩ : ∃ pages, pages = (pageOf codec file type pageSize 1).totalPages :=
    ⟨_, rfl⟩
  have hbounds := totalPages_bounds (matching codec file type).length hsize
    (hpages.trans (pageOf_totalPages hsize 1))
  obtain ⟨hone, hlast, hend, hpos⟩ := hbounds
  have hinside : ∀ i < pages, i * pageSize ≤ (matching codec file type).length := fun i hi ↦
    (Nat.mul_le_mul_right _ (Nat.le_sub_one_of_lt hi)).trans hlast
  constructor
  · intro h
    have hbehind : ∀ i, pages ≤ i → i * pageSize = (matching codec file type).length ∨
        2 * (matching codec file type).length ≤ i * pageSize := fun i hi ↦
      (pageOf_behind hsize (hend.trans (Nat.mul_le_mul_right _ hi))).mp
        (h.behind (i + 1) (hpages ▸ Nat.lt_succ_of_le hi))
    rcases Nat.eq_zero_or_pos (matching codec file type).length with hzero | htotal
    · exact .inl hzero
    have hbegin := hpos htotal
    rcases hbehind pages le_rfl with heq | hfar
    · -- The last page is full: the one after the next decides.
      have hnext := hbehind (pages + 1) (Nat.le_succ _)
      rw [Nat.succ_mul] at hnext
      have hfull : pageSize ≤ pages * pageSize := Nat.le_mul_of_pos_left _ hone
      exact .inr (.inl (by omega))
    · have hsingle : pages = 1 := by
        by_contra hne
        have htwo : pageSize ≤ (pages - 1) * pageSize := Nat.le_mul_of_pos_left _ (by omega)
        have hsplit : (pages - 1) * pageSize + pageSize = pages * pageSize := by
          rw [← Nat.succ_mul, Nat.succ_eq_add_one, Nat.sub_add_cancel hone]
        omega
      rw [hsingle, Nat.one_mul] at hfar
      exact .inr (.inr hfar)
  · intro h
    refine ⟨?_, ?_, ?_⟩
    · rw [← hpages]
      refine (List.flatMap_congr fun i hi ↦
        pageOf_inside hsize (hinside i (List.mem_range.mp hi))).trans ?_
      rw [flatMap_pages, List.take_of_length_le]
      rwa [List.length_reverse]
    · intro page hpage hlt
      obtain ⟨i, rfl⟩ := Nat.exists_eq_add_of_le' hpage
      rw [← hpages] at hlt
      have hnext := hinside (i + 1) hlt
      rw [Nat.succ_mul] at hnext
      rw [pageOf_inside hsize (by omega), List.length_take, List.length_drop, List.length_reverse]
      omega
    · intro page hpage
      rw [← hpages] at hpage
      obtain ⟨i, rfl⟩ := Nat.exists_eq_add_of_le' (hone.trans hpage.le)
      have hi : pages ≤ i := Nat.le_of_lt_succ hpage
      have hmul := Nat.mul_le_mul_right pageSize hi
      refine (pageOf_behind hsize (hend.trans hmul)).mpr ?_
      have hfirst : pageSize ≤ i * pageSize := Nat.le_mul_of_pos_left _ (hone.trans hi)
      rcases h with hzero | hsame | hhalf
      · exact .inr (by omega)
      · rcases Nat.eq_or_lt_of_le (hone.trans hi) with rfl | htwo
        · exact .inl (by omega)
        · have hdouble := Nat.mul_le_mul_right pageSize htwo
          exact .inr (by omega)
      · exact .inr (by omega)

/-! ### Logs -/

/-- A log of `n` entries. -/
noncomputable def ticks : Nat → List Char
  | 0 => []
  | n + 1 => ticks n ++ lineOf sampleCodec (tickEntry (n + 1) "tick")

theorem complete_ticks : ∀ n, Complete '\n' (ticks n)
  | 0 => complete_nil
  | n + 1 => by
      rw [ticks, lineOf, ← List.append_assoc]
      exact complete_concat _

theorem length_matching_ticks (n : Nat) : (matching sampleCodec (ticks n) none).length = n := by
  induction n with
  | zero => rfl
  | succ n ih =>
    rw [matching, ticks, entriesOf_line (complete_ticks n), List.filter_append, List.length_append]
    exact congrArg (· + 1) ih

theorem pages_partition_two :
    Partitions sampleCodec (ticks 2) none 2 ↔ EvenPages (matching sampleCodec (ticks 2) none).length 2 :=
  pages_partition sampleCodec (ticks 2) none (by decide)

/-- **A page behind the last one shows old entries.**  Three entries are two pages of two; the third
page has the two oldest entries. -/
theorem third_page : ¬ Partitions sampleCodec (ticks 3) none 2 := by
  intro h
  have hlength := length_matching_ticks 3
  have hpages : (pageOf sampleCodec (ticks 3) none 2 1).totalPages = 2 := by
    rw [pageOf_totalPages (by decide), hlength]
    rfl
  have hempty := h.behind (2 + 1) (by rw [hpages]; decide)
  rw [pageOf_behind (by decide) (by rw [hlength]; decide), hlength] at hempty
  exact absurd hempty (by decide)

end OpenAlice.Core
