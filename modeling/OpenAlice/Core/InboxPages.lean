import OpenAlice.Core.InboxKept
import OpenAlice.Data.Cursor

/-!
# Reading the inbox in pages

`read` of `src/core/inbox-store.ts`, called again and again with the id of the last entry of the
page before, while other calls append, delete and mark entries.  The file store reads two files one
after the other, and the other calls can go on between the two; the store in memory reads at once.

The cursor is looked for among the entries that match the filter.  As long as it is there whenever a
page is read (`cursorStep`), the pages hold every entry that matched throughout, once and newest
first.  Where it is not, the page is empty, and says that there is no more.

`steady`, `pool`, `pages` and the log of the entries that were there or were appended are read by no
step.
-/

namespace OpenAlice.Core

open OpenAlice.Data OpenAlice.Run

/-! ## A page -/

/-- `InboxEntry` as `read` shows it. -/
structure ShownEntry extends InboxEntry where
  readAt : Option Int := none

/-- `InboxReadOpts`, but for the cursor; no workspace is the empty text. -/
structure InboxReadOpts where
  workspaceId : String := ""
  unread : Bool := false
  limit : Nat := 100

/-- `!e.readAt` -/
def ShownEntry.isUnread (e : ShownEntry) : Bool := e.readAt.all (· = 0)

def InboxReadOpts.keeps (opts : InboxReadOpts) (e : ShownEntry) : Bool :=
  (opts.workspaceId = "" || e.workspaceId = opts.workspaceId) && (!opts.unread || e.isUnread)

/-- The part of `read` behind the files, which the two stores share.  An empty cursor is none. -/
def readPage (opts : InboxReadOpts) (before : Option String) (all : List ShownEntry) :
    List ShownEntry × Bool :=
  pageBefore (fun e ↦ e.id) (all.filter opts.keeps) (before.filter (· ≠ "")) opts.limit

def entriesIn (lines : List InboxLine) : List InboxEntry :=
  lines.filterMap fun
    | .entry entry => some entry
    | .malformed _ => none

/-- A line that is no JSON, on which `read` throws. -/
def InboxLine.isMalformed : InboxLine → Bool
  | .entry _ => false
  | .malformed _ => true

def shown (state : ReadState) (entry : InboxEntry) : ShownEntry :=
  { entry with readAt := (state.lookup entry.id).filter (0 < ·) }

/-! ## A caller that turns the pages -/

structure Traversal where
  before : Option String := none
  yielded : List ShownEntry := []
  /-- `hasMore` was false. -/
  done : Bool := false
  /-- The entries that matched from the first call on. -/
  steady : List InboxEntry
  pool : List InboxEntry := []
  pages : Nat := 0

def Traversal.take (t : Traversal) (log : List InboxEntry) (page : List ShownEntry × Bool) :
    Traversal :=
  { t with
    before := cursorBehind (fun e ↦ e.id) t.before page.1
    yielded := t.yielded ++ page.1
    done := !page.2
    pool := if t.before = none then log else t.pool
    pages := t.pages + 1 }

def Traversal.observe (t : Traversal) (matching : List InboxEntry) : Traversal :=
  { t with steady := t.steady.filter (· ∈ matching) }

/-- **Every entry that matched throughout, once, newest first**, in no more pages than there were
entries, but for a last one that is empty. -/
structure PagedOnce (log : List InboxEntry) (t : Traversal) : Prop where
  newestFirst : (t.yielded.map ShownEntry.toInboxEntry).Sublist log.reverse
  once : (t.yielded.map fun e ↦ e.id).Nodup
  complete : t.done = true → ∀ e ∈ t.steady, e ∈ t.yielded.map ShownEntry.toInboxEntry
  bounded : t.pages ≤ t.pool.length + 1

/-! ## The file store -/

structure Reading where
  traversal : Traversal
  lines : Option (List InboxLine) := none

/-- The store with its other calls, and the caller. -/
structure Paging where
  inbox : World InboxStore InboxTask
  reading : Option Reading := none
  entries₀ : List InboxEntry

inductive PagingEvent where
  | inbox (event : Event InboxCall Unit)
  | begin
  /-- A call of `read` reads the entries file. -/
  | readFile
  | readReadState

def shownIn (opts : InboxReadOpts) (lines : List InboxLine) (state : ReadState) : List ShownEntry :=
  ((entriesIn lines).map (shown state)).filter opts.keeps

def matchingIn (opts : InboxReadOpts) (s : InboxStore) : List InboxEntry :=
  (shownIn opts s.entries s.readState).map ShownEntry.toInboxEntry

def pagingStep (opts : InboxReadOpts) (P : Paging) : PagingEvent → Option Paging
  | .inbox event =>
    (inboxProg.step P.inbox event).map fun inbox ↦
      { P with
        inbox
        reading := P.reading.map fun r ↦
          { r with traversal := r.traversal.observe (matchingIn opts inbox.shared) } }
  | .begin => some { P with reading := some { traversal := { steady := matchingIn opts P.inbox.shared } } }
  | .readFile =>
    P.reading.bind fun r ↦
      if r.traversal.done || r.lines.isSome then none
      else some { P with reading := some { r with lines := some P.inbox.shared.entries } }
  | .readReadState =>
    P.reading.bind fun r ↦ r.lines.map fun lines ↦
      if lines.any InboxLine.isMalformed then
        -- the call rejects, and the caller may make it again
        { P with reading := some { r with lines := none } }
      else
        let page := readPage opts r.traversal.before
          ((entriesIn lines).map (shown P.inbox.shared.readState))
        let traversal := r.traversal.take (P.entries₀ ++ P.inbox.shared.log) page
        { P with reading := some { traversal } }

def newIdStep (lines₀ : List InboxLine) (P : Paging) : PagingEvent → Prop
  | .inbox event => freshStep lines₀ P.inbox event ∧
      ∀ input id ts, event = .call (.append input id ts) → id ≠ ""
  | _ => True

/-- The last entry of the page before still matches when the next page is read. -/
def cursorStep (opts : InboxReadOpts) (P : Paging) : PagingEvent → Prop
  | .readReadState => ∀ r ∈ P.reading, ∀ lines ∈ r.lines, ∀ id ∈ r.traversal.before,
      id ∈ (shownIn opts lines P.inbox.shared.readState).map fun e ↦ e.id
  | _ => True

instance (opts : InboxReadOpts) (P : Paging) : (e : PagingEvent) → Decidable (cursorStep opts P e)
  | .inbox _ | .begin | .readFile => inferInstanceAs (Decidable True)
  | .readReadState =>
    inferInstanceAs (Decidable (∀ r ∈ P.reading, ∀ lines ∈ r.lines, ∀ id ∈ r.traversal.before,
      id ∈ (shownIn opts lines P.inbox.shared.readState).map fun e ↦ e.id))

/-! ## The store in memory -/

/-- `createMemoryInboxStore`, with the entries that were there or were appended, and the caller. -/
structure MemoryInbox where
  entries : List ShownEntry
  log : List InboxEntry
  traversal : Option Traversal := none

inductive MemoryEvent where
  | append (input : InboxInput) (id : String) (ts : Int)
  | delete (id : String)
  | markRead (id : String) (readAt : Int)
  | markUnread (id : String)
  | begin
  | read

namespace MemoryInbox

def matching (opts : InboxReadOpts) (entries : List ShownEntry) : List InboxEntry :=
  (entries.filter opts.keeps).map ShownEntry.toInboxEntry

def update (opts : InboxReadOpts) (s : MemoryInbox) (entries : List ShownEntry) : MemoryInbox :=
  { s with
    entries
    traversal := s.traversal.map fun t ↦ t.observe (matching opts entries) }

def mark (id : String) (readAt : Option Int) : List ShownEntry → List ShownEntry
  | [] => []
  | e :: entries => if e.id = id then { e with readAt } :: entries else e :: mark id readAt entries

def step (opts : InboxReadOpts) (s : MemoryInbox) : MemoryEvent → Option MemoryInbox
  | .append input id ts =>
    match validateInput input with
    | .error _ => some s
    | .ok () =>
      let entry : InboxEntry := { input with id, ts }
      some { s.update opts (s.entries ++ [{ toInboxEntry := entry }]) with log := s.log ++ [entry] }
  | .delete id => some (s.update opts (s.entries.eraseP fun e ↦ e.id = id))
  | .markRead id readAt => some (s.update opts (mark id (some readAt) s.entries))
  | .markUnread id => some (s.update opts (mark id none s.entries))
  | .begin => some { s with traversal := some { steady := matching opts s.entries } }
  | .read =>
    s.traversal.bind fun t ↦
      if t.done then none
      else some { s with traversal := some (t.take s.log (readPage opts t.before s.entries)) }

/-- The id of an append is a new one, and not empty; the last entry of the page before still
matches when the next page is read. -/
def orderlyStep (opts : InboxReadOpts) (s : MemoryInbox) : MemoryEvent → Prop
  | .append _ id _ => id ∉ s.log.map InboxEntry.id ∧ id ≠ ""
  | .read => ∀ t ∈ s.traversal, ∀ id ∈ t.before,
      id ∈ (s.entries.filter opts.keeps).map fun e ↦ e.id
  | _ => True

end MemoryInbox

/-! ## A caller between two pages -/

/-- The pages hold what they should, so far. -/
structure Traversal.Sound (log : List InboxEntry) (t : Traversal) : Prop where
  walked : Walked InboxEntry.id log (· ∈ t.steady) t.before
    (t.yielded.map ShownEntry.toInboxEntry) t.done t.pool
  pages : t.pages ≤ t.yielded.length + t.done.toNat

namespace Traversal

variable {opts : InboxReadOpts} {log : List InboxEntry} {t : Traversal} {all : List ShownEntry}

theorem Sound.observe (h : t.Sound log) (matching : List InboxEntry) :
    (t.observe matching).Sound log :=
  ⟨h.walked.mono fun _ hmem ↦ (List.mem_filter.mp hmem).1, h.pages⟩

theorem Sound.append (h : t.Sound log) (entry : InboxEntry) : t.Sound (log ++ [entry]) :=
  ⟨h.walked.append entry, h.pages⟩

theorem Sound.before_filter (h : t.Sound log) (hnamed : "" ∉ log.map InboxEntry.id) :
    t.before.filter (· ≠ "") = t.before := by
  obtain ⟨older, newer, rfl, -, hcursor, -⟩ := h.walked.cut
  cases newer with
  | nil =>
    rw [← hcursor]
    rfl
  | cons first newer =>
    rw [← hcursor]
    have hne : first.id ≠ "" := by
      intro heq
      refine hnamed (heq ▸ List.mem_map_of_mem (List.mem_append_right _ (.head _)))
    exact Option.filter_some_pos (decide_eq_true hne)

/-- **A page is returned**, of what is shown of some of the log. -/
theorem Sound.take (h : t.Sound log) (hdone : t.done = false) (hlimit : 1 ≤ opts.limit)
    (hnodup : (log.map InboxEntry.id).Nodup) (hnamed : "" ∉ log.map InboxEntry.id)
    (hall : (all.map ShownEntry.toInboxEntry).Sublist log)
    (hsteady : ∀ e ∈ t.steady, e ∈ (all.filter opts.keeps).map ShownEntry.toInboxEntry)
    (hcursor : ∀ id, t.before = some id → id ∈ (all.filter opts.keeps).map fun e ↦ e.id) :
    (t.take log (readPage opts t.before all)).Sound log := by
  have hview : ((all.filter opts.keeps).map ShownEntry.toInboxEntry).Sublist log :=
    (List.filter_sublist.map _).trans hall
  have hmem : ∀ id, t.before = some id →
      id ∈ ((all.filter opts.keeps).map ShownEntry.toInboxEntry).map InboxEntry.id := by
    intro id hid
    rw [List.map_map]
    exact hcursor id hid
  rw [readPage, h.before_filter hnamed]
  have hread := h.walked.read hnodup hview hsteady hmem hlimit
  rw [pageBefore_map, cursorBehind_map, ← List.map_append] at hread
  refine ⟨hread, ?_⟩
  have hpages := h.pages
  rw [hdone, Bool.toNat_false, Nat.add_zero] at hpages
  simp only [Traversal.take, List.length_append]
  cases hlast : (pageBefore (fun e ↦ e.id) (all.filter opts.keeps) t.before opts.limit).2 with
  | false =>
    rw [Bool.not_false, Bool.toNat_true]
    omega
  | true =>
    have hpos := List.length_pos_of_ne_nil (pageBefore_ne_nil hlimit hlast)
    rw [Bool.not_true, Bool.toNat_false]
    omega

theorem Sound.pagedOnce (h : t.Sound log) (hnodup : (log.map InboxEntry.id).Nodup) :
    PagedOnce log t := by
  have hsub := h.walked.sublist.reverse
  rw [List.reverse_reverse] at hsub
  have honce : ((t.yielded.map ShownEntry.toInboxEntry).map InboxEntry.id).Nodup := by
    have hids := hsub.map InboxEntry.id
    rw [List.map_reverse] at hids
    exact hids.nodup (List.nodup_reverse.mpr hnodup)
  refine ⟨hsub, ?_, fun hdone e he ↦ h.walked.complete hdone he, ?_⟩
  · rw [List.map_map] at honce
    exact honce
  have hpages := h.pages
  have hlength : t.yielded.length ≤ t.pool.length := by
    cases hyielded : t.yielded with
    | nil => exact Nat.zero_le _
    | cons first rest =>
      rw [← hyielded]
      have hne : t.yielded.map ShownEntry.toInboxEntry ≠ [] := by
        rw [hyielded]
        exact List.cons_ne_nil _ _
      have hsubset := List.subperm_of_subset honce.of_map (h.walked.subset_pool hne)
      rw [← List.length_map ShownEntry.toInboxEntry]
      exact hsubset.length_le
  have hlast := Bool.toNat_le t.done
  omega

end Traversal

/-! ## The files keep the order -/

section Files

variable {lines₀ : List InboxLine} {W W' : World InboxStore InboxTask} {s : InboxStore} {i : Nat}
  {task task' : InboxTask} {lines : List InboxLine}

def allLines (lines₀ : List InboxLine) (s : InboxStore) : List InboxLine :=
  lines₀ ++ s.log.map InboxLine.entry

def allEntries (lines₀ : List InboxLine) (s : InboxStore) : List InboxEntry :=
  entriesIn lines₀ ++ s.log

theorem entriesIn_allLines : entriesIn (allLines lines₀ s) = allEntries lines₀ s := by
  rw [allLines, allEntries, entriesIn, List.filterMap_append, List.filterMap_map]
  exact congrArg (entriesIn lines₀ ++ ·) (List.filterMap_some ..)

theorem mem_entriesIn {e : InboxEntry} : e ∈ entriesIn lines ↔ InboxLine.entry e ∈ lines := by
  rw [entriesIn, List.mem_filterMap]
  constructor
  · rintro ⟨line, hline, heq⟩
    cases line with
    | entry entry =>
      cases heq
      exact hline
    | malformed text => cases heq
  · exact fun h ↦ ⟨.entry e, h, rfl⟩

theorem ids_allEntries :
    (allEntries lines₀ s).map InboxEntry.id = idsOf lines₀ ++ s.log.map InboxEntry.id := by
  rw [allEntries, List.map_append, entriesIn, List.map_filterMap]
  refine congrArg (· ++ _) ?_
  rw [idsOf]
  refine List.filterMap_congr fun line _ ↦ ?_
  cases line <;> rfl

/-- **The files in order**: whatever is deleted and lost, what the entries file holds, and what is
about to be written to it, are lines in the order in which they came. -/
structure InOrder (lines₀ : List InboxLine) (W : World InboxStore InboxTask) : Prop where
  issued : Issued (idsOf lines₀) (W.tasks.map InboxTask.issued) W.shared.log
  named : ∀ task ∈ W.tasks, ∀ entry landed, task.issued = some (entry, landed) → entry.id ≠ ""
  entries : W.shared.entries.Sublist (allLines lines₀ W.shared)
  tmp : ∀ kept, W.shared.tmp = some kept → kept.Sublist (allLines lines₀ W.shared)
  kept : ∀ id kept, InboxTask.deleteWrite id kept ∈ W.tasks →
    kept.Sublist (allLines lines₀ W.shared)

namespace InOrder

theorem quiet (h : InOrder lines₀ W) (hi : W.tasks[i]? = some task)
    (hissued : task'.issued = task.issued) (hlog : s.log = W.shared.log)
    (hentries : s.entries.Sublist (allLines lines₀ W.shared))
    (htmp : ∀ kept, s.tmp = some kept → kept.Sublist (allLines lines₀ W.shared))
    (hkept : ∀ id kept, task' = .deleteWrite id kept → kept.Sublist (allLines lines₀ W.shared)) :
    InOrder lines₀ ⟨s, W.tasks.set i task'⟩ := by
  have hall : allLines lines₀ s = allLines lines₀ W.shared := by rw [allLines, hlog, allLines]
  refine ⟨?_, fun k hk entry landed hentry ↦ ?_, hall ▸ hentries, hall ▸ htmp,
    fun id kept hmem ↦ ?_⟩
  · rw [map_set_of_eq InboxTask.issued hi hissued, hlog]
    exact h.issued
  · rcases mem_of_mem_set hk with rfl | hk
    · exact h.named task (List.mem_of_getElem? hi) entry landed (hissued ▸ hentry)
    · exact h.named k hk entry landed hentry
  · rw [hall]
    rcases mem_of_mem_set hmem with heq | hmem
    · exact hkept id kept heq.symm
    · exact h.kept id kept hmem

theorem land (h : InOrder lines₀ W) {entry : InboxEntry}
    (hi : W.tasks[i]? = some (.appendFile entry)) :
    InOrder lines₀ ⟨{ W.shared with
          entries := W.shared.entries ++ [.entry entry], log := W.shared.log ++ [entry] },
        W.tasks.set i (.appended entry)⟩ := by
  have hall : lines₀ ++ (W.shared.log ++ [entry]).map InboxLine.entry =
      allLines lines₀ W.shared ++ [.entry entry] := by
    rw [allLines, List.map_append, List.map_singleton, List.append_assoc]
  have hgrows := List.sublist_append_left (allLines lines₀ W.shared) [InboxLine.entry entry]
  refine ⟨?_, fun k hk entry' landed hentry ↦ ?_, ?_, fun kept hkept ↦ ?_, fun id kept hmem ↦ ?_⟩
  · rw [List.map_set]
    exact h.issued.land (map_getElem? InboxTask.issued hi)
  · rcases mem_of_mem_set hk with rfl | hk
    · cases hentry
      exact h.named _ (List.mem_of_getElem? hi) entry false rfl
    · exact h.named k hk entry' landed hentry
  · rw [allLines, hall]
    exact h.entries.append (.refl _)
  · rw [allLines, hall]
    exact (h.tmp kept hkept).trans hgrows
  · rw [allLines, hall]
    rcases mem_of_mem_set hmem with heq | hmem
    · cases heq
    · exact (h.kept id kept hmem).trans hgrows

theorem start (h : InOrder lines₀ W) (c : InboxCall) (hfresh : freshStep lines₀ W (.call c))
    (hnamed : ∀ input id ts, c = .append input id ts → id ≠ "") :
    InOrder lines₀ ⟨(inboxStart W.shared W.tasks.length c).1,
      W.tasks ++ [(inboxStart W.shared W.tasks.length c).2]⟩ := by
  have hissued := h.issued.start (s := W.shared) W.tasks.length c fun input id ts hc ↦ by
    rw [hc] at hfresh
    exact hfresh
  have hnew : (∀ entry landed, (inboxStart W.shared W.tasks.length c).2.issued =
        some (entry, landed) → entry.id ≠ "") ∧
      ∀ id kept, (inboxStart W.shared W.tasks.length c).2 ≠ .deleteWrite id kept := by
    cases c with
    | append input id ts =>
      rw [inboxStart]
      cases validateInput input with
      | error error => exact ⟨by rintro _ _ ⟨⟩, by rintro _ _ ⟨⟩⟩
      | ok _ =>
        refine ⟨?_, by rintro _ _ ⟨⟩⟩
        rintro _ _ ⟨⟩
        exact hnamed input id ts rfl
    | delete | markRead | markUnread => exact ⟨by rintro _ _ ⟨⟩, by rintro _ _ ⟨⟩⟩
  rw [inboxStart_shared]
  refine ⟨hissued, fun k hk entry landed hentry ↦ ?_, h.entries, h.tmp, fun id kept hmem ↦ ?_⟩
  · rcases List.mem_append.mp hk with hk | hk
    · exact h.named k hk entry landed hentry
    · rw [List.mem_singleton.mp hk] at hentry
      exact hnew.1 entry landed hentry
  rcases List.mem_append.mp hmem with hmem | hmem
  · exact h.kept id kept hmem
  · exact absurd (List.mem_singleton.mp hmem).symm (hnew.2 id kept)

theorem step (h : InOrder lines₀ W) {e : Event InboxCall Unit} (hfresh : freshStep lines₀ W e)
    (hnamed : ∀ input id ts, e = .call (.append input id ts) → id ≠ "")
    (hstep : inboxProg.step W e = some W') : InOrder lines₀ W' := by
  cases e with
  | call c =>
    cases Prog.step_call hstep
    exact h.start c hfresh fun input id ts hc ↦ hnamed input id ts (congrArg Event.call hc)
  | resume i u =>
    obtain ⟨task, s', task', hi, hresume, rfl⟩ := Prog.step_resume hstep
    cases task with
    | rejected | appended | returned => cases hresume
    | appendDir entry =>
      cases hresume
      exact h.quiet hi rfl rfl h.entries h.tmp (by rintro _ _ ⟨⟩)
    | appendFile entry =>
      cases hresume
      exact h.land hi
    | deleteRead id =>
      cases hresume
      split_ifs
      · refine h.quiet hi rfl rfl h.entries h.tmp ?_
        rintro _ _ ⟨⟩
        exact List.filter_sublist.trans h.entries
      · exact h.quiet hi rfl rfl h.entries h.tmp (by rintro _ _ ⟨⟩)
    | deleteWrite id kept =>
      cases hresume
      refine h.quiet hi rfl rfl h.entries ?_ (by rintro _ _ ⟨⟩)
      rintro _ ⟨⟩
      exact h.kept id kept (List.mem_of_getElem? hi)
    | deleteRename id =>
      simp only [inboxProg, inboxResume] at hresume
      cases htmp : W.shared.tmp with
      | none =>
        rw [htmp] at hresume
        cases hresume
        exact h.quiet hi rfl rfl h.entries h.tmp (by rintro _ _ ⟨⟩)
      | some kept =>
        rw [htmp] at hresume
        cases hresume
        exact h.quiet hi rfl rfl (h.tmp kept htmp) (by rintro _ ⟨⟩) (by rintro _ _ ⟨⟩)
    | deleteRenamed id =>
      cases hresume
      exact h.quiet hi rfl rfl h.entries h.tmp (by rintro _ _ ⟨⟩)
    | markExists id change =>
      cases hresume
      split_ifs
      · exact h.quiet hi rfl rfl h.entries h.tmp (by rintro _ _ ⟨⟩)
      · exact h.quiet hi rfl rfl h.entries h.tmp (by rintro _ _ ⟨⟩)
    | markFound id change =>
      cases hresume
      exact h.quiet hi rfl rfl h.entries h.tmp (by rintro _ _ ⟨⟩)
    | waiting removed =>
      simp only [inboxProg, inboxResume] at hresume
      cases hqueue : W.shared.queue with
      | nil =>
        rw [hqueue] at hresume
        cases hresume
      | cons p rest =>
        simp only [hqueue] at hresume
        split_ifs at hresume
        · cases hresume
          exact h.quiet hi rfl rfl h.entries h.tmp (by rintro _ _ ⟨⟩)
        · cases hresume
          exact h.quiet hi rfl rfl h.entries h.tmp (by rintro _ _ ⟨⟩)
    | writing removed state =>
      cases hresume
      exact h.quiet hi rfl rfl h.entries h.tmp (by rintro _ _ ⟨⟩)

theorem log_step {e : Event InboxCall Unit} (hstep : inboxProg.step W e = some W') :
    W'.shared.log = W.shared.log ∨ ∃ entry, W'.shared.log = W.shared.log ++ [entry] := by
  cases e with
  | call c =>
    cases Prog.step_call hstep
    exact .inl (congrArg InboxStore.log (inboxStart_shared W.shared W.tasks.length c))
  | resume i u =>
    obtain ⟨task, s', task', hi, hresume, rfl⟩ := Prog.step_resume hstep
    simp only [inboxProg, inboxResume] at hresume
    cases task with
    | appendFile entry =>
      cases hresume
      exact .inr ⟨entry, rfl⟩
    | deleteRename id =>
      cases htmp : W.shared.tmp <;> rw [htmp] at hresume <;> cases hresume <;> exact .inl rfl
    | waiting removed =>
      cases hqueue : W.shared.queue with
      | nil =>
        rw [hqueue] at hresume
        cases hresume
      | cons p rest =>
        simp only [hqueue] at hresume
        split_ifs at hresume <;> cases hresume <;> exact .inl rfl
    | _ => cases hresume <;> exact .inl rfl

theorem ids (h : InOrder lines₀ W) (hnodup : (idsOf lines₀).Nodup) (hnamed : "" ∉ idsOf lines₀) :
    ((allEntries lines₀ W.shared).map InboxEntry.id).Nodup ∧
      "" ∉ (allEntries lines₀ W.shared).map InboxEntry.id := by
  have hlanded : ∀ entry ∈ W.shared.log, ∃ i : Nat,
      (W.tasks.map InboxTask.issued)[i]? = some (some (entry, true)) := fun entry ↦
    (h.issued.landed entry).mp
  rw [ids_allEntries]
  constructor
  · refine List.nodup_append.mpr ⟨hnodup, h.issued.nodup, ?_⟩
    rintro id hid id' hid' rfl
    obtain ⟨entry, hentry, rfl⟩ := List.mem_map.mp hid'
    obtain ⟨i, hi⟩ := hlanded entry hentry
    exact h.issued.fresh i entry true hi hid
  · intro hmem
    rcases List.mem_append.mp hmem with hmem | hmem
    · exact hnamed hmem
    obtain ⟨entry, hentry, hid⟩ := List.mem_map.mp hmem
    obtain ⟨i, hi⟩ := hlanded entry hentry
    obtain ⟨task, htask, hissued⟩ := List.mem_map.mp (List.mem_of_getElem? hi)
    exact h.named task htask entry true hissued hid

end InOrder

end Files

/-! ## Pages of the file store -/

section Pages

variable {opts : InboxReadOpts} {lines₀ lines : List InboxLine} {readState : ReadState}
  {P P' : Paging} {s : InboxStore}

theorem mem_matching {e : InboxEntry} : e ∈ matchingIn opts s ↔
      InboxLine.entry e ∈ s.entries ∧ opts.keeps (shown s.readState e) = true := by
  rw [matchingIn, shownIn, List.mem_map]
  constructor
  · rintro ⟨entry, hentry, rfl⟩
    obtain ⟨hmem, hkeeps⟩ := List.mem_filter.mp hentry
    obtain ⟨e, he, rfl⟩ := List.mem_map.mp hmem
    exact ⟨mem_entriesIn.mp he, hkeeps⟩
  rintro ⟨hmem, hkeeps⟩
  refine ⟨shown s.readState e, List.mem_filter.mpr ⟨?_, hkeeps⟩, rfl⟩
  exact List.mem_map_of_mem (mem_entriesIn.mpr hmem)

theorem entriesIn_sublist (h : lines.Sublist (allLines lines₀ s)) :
    (((entriesIn lines).map (shown readState)).map ShownEntry.toInboxEntry).Sublist
      (allEntries lines₀ s) := by
  rw [List.map_map, ← entriesIn_allLines]
  have hmap : (entriesIn lines).map (ShownEntry.toInboxEntry ∘ shown readState) = entriesIn lines :=
    List.map_id _
  rw [hmap]
  exact h.filterMap _

/-- What is true of the caller: what is steady matches, and is in the file that it has read. -/
structure ReadingSound (opts : InboxReadOpts) (lines₀ : List InboxLine) (s : InboxStore)
    (r : Reading) : Prop where
  traversal : r.traversal.Sound (allEntries lines₀ s)
  steady : ∀ e ∈ r.traversal.steady, e ∈ matchingIn opts s
  inOrder : ∀ lines, r.lines = some lines → lines.Sublist (allLines lines₀ s)
  read : ∀ lines, r.lines = some lines →
    r.traversal.done = false ∧ ∀ e ∈ r.traversal.steady, InboxLine.entry e ∈ lines

/-- **The invariant of the pages.** -/
structure PagingSound (opts : InboxReadOpts) (lines₀ : List InboxLine) (P : Paging) : Prop where
  there : P.entries₀ = entriesIn lines₀
  inbox : InOrder lines₀ P.inbox
  reading : ∀ r, P.reading = some r → ReadingSound opts lines₀ P.inbox.shared r

theorem ReadingSound.observe {s' : InboxStore} {r : Reading} (h : ReadingSound opts lines₀ s r)
    (hlog : s'.log = s.log ∨ ∃ entry, s'.log = s.log ++ [entry]) :
    ReadingSound opts lines₀ s'
      { r with traversal := r.traversal.observe (matchingIn opts s') } := by
  have hgrows : (allLines lines₀ s).Sublist (allLines lines₀ s') := by
    rcases hlog with hlog | ⟨entry, hlog⟩
    · rw [allLines, allLines, hlog]
    · rw [allLines, allLines, hlog, List.map_append, ← List.append_assoc]
      exact List.sublist_append_left ..
  refine ⟨?_, fun e he ↦ ?_, fun lines hlines ↦ (h.inOrder lines hlines).trans hgrows,
    fun lines hlines ↦ ⟨(h.read lines hlines).1, fun e he ↦ ?_⟩⟩
  · refine Traversal.Sound.observe ?_ _
    rcases hlog with hlog | ⟨entry, hlog⟩
    · rw [allEntries, hlog]
      exact h.traversal
    · rw [allEntries, hlog, ← List.append_assoc]
      exact h.traversal.append entry
  · exact of_decide_eq_true (List.mem_filter.mp he).2
  · exact (h.read lines hlines).2 e (List.mem_filter.mp he).1

theorem PagingSound.step (h : PagingSound opts lines₀ P) (hlimit : 1 ≤ opts.limit)
    (hnodup : (idsOf lines₀).Nodup) (hnamed : "" ∉ idsOf lines₀) {e : PagingEvent}
    (hnew : newIdStep lines₀ P e) (hcursor : cursorStep opts P e)
    (hstep : pagingStep opts P e = some P') : PagingSound opts lines₀ P' := by
  cases e with
  | inbox event =>
    obtain ⟨inbox, hinbox, rfl⟩ := Option.map_eq_some_iff.mp hstep
    refine ⟨h.there, h.inbox.step hnew.1 hnew.2 hinbox, fun r' hr' ↦ ?_⟩
    obtain ⟨r, hr, rfl⟩ := Option.map_eq_some_iff.mp hr'
    exact (h.reading r hr).observe (InOrder.log_step hinbox)
  | begin =>
    cases hstep
    refine ⟨h.there, h.inbox, ?_⟩
    rintro r ⟨⟩
    refine ⟨⟨Walked.start fun e he ↦ ?_, Nat.le_refl 0⟩, fun e he ↦ he, by rintro _ ⟨⟩, by rintro _ ⟨⟩⟩
    rw [← entriesIn_allLines, mem_entriesIn]
    exact h.inbox.entries.subset (mem_matching.mp he).1
  | readFile =>
    obtain ⟨r, hr, hread⟩ := Option.bind_eq_some_iff.mp hstep
    split_ifs at hread with hbusy
    cases hread
    rw [Bool.or_eq_true, not_or, Bool.not_eq_true] at hbusy
    obtain ⟨htraversal, hsteady, -, -⟩ := h.reading r hr
    refine ⟨h.there, h.inbox, ?_⟩
    rintro r' ⟨⟩
    refine ⟨htraversal, hsteady, ?_, ?_⟩
    · rintro lines ⟨⟩
      exact h.inbox.entries
    rintro lines ⟨⟩
    refine ⟨hbusy.1, fun e he ↦ ?_⟩
    exact (mem_matching.mp (hsteady e he)).1
  | readReadState =>
    obtain ⟨r, hr, hread⟩ := Option.bind_eq_some_iff.mp hstep
    obtain ⟨lines, hlines, hread⟩ := Option.map_eq_some_iff.mp hread
    obtain ⟨htraversal, hsteady, hinOrder, hin⟩ := h.reading r hr
    split_ifs at hread
    · -- the call has rejected
      cases hread
      refine ⟨h.there, h.inbox, ?_⟩
      rintro r' ⟨⟩
      exact ⟨htraversal, hsteady, by rintro _ ⟨⟩, by rintro _ ⟨⟩⟩
    · cases hread
      refine ⟨h.there, h.inbox, ?_⟩
      rintro r' ⟨⟩
      obtain ⟨hids, hempty⟩ := h.inbox.ids hnodup hnamed
      obtain ⟨hdone, hinFile⟩ := hin lines hlines
      refine ⟨h.there ▸ htraversal.take hdone hlimit hids hempty
        (entriesIn_sublist (hinOrder lines hlines)) ?_ (hcursor r hr lines hlines), hsteady, by rintro _ ⟨⟩, by rintro _ ⟨⟩⟩
      intro e he
      refine List.mem_map.mpr ⟨shown P.inbox.shared.readState e, List.mem_filter.mpr ⟨?_, ?_⟩, rfl⟩
      · exact List.mem_map_of_mem (mem_entriesIn.mpr (hinFile e he))
      · exact (mem_matching.mp (hsteady e he)).2

def Paging.initial (lines₀ : List InboxLine) (readState : ReadState) : Paging where
  inbox := ⟨{ entries := lines₀, readState }, []⟩
  entries₀ := entriesIn lines₀

theorem PagingSound.initial (opts : InboxReadOpts) (lines₀ : List InboxLine)
    (readState : ReadState) : PagingSound opts lines₀ (.initial lines₀ readState) := by
  refine ⟨rfl, ⟨⟨?_, ?_, fun entry ↦ ⟨by rintro ⟨⟩, ?_⟩, List.Pairwise.nil⟩, by rintro _ ⟨⟩, ?_,
    by rintro _ ⟨⟩, by rintro _ _ ⟨⟩⟩, by rintro _ ⟨⟩⟩
  · rintro _ _ _ ⟨⟩
  · rintro _ _ _ _ _ _ ⟨⟩
  · rintro ⟨i, ⟨⟩⟩
  · have hall : allLines lines₀ (Paging.initial lines₀ readState).inbox.shared = lines₀ :=
      List.append_nil lines₀
    rw [hall]
    exact .refl lines₀

theorem paging_sound (hlimit : 1 ≤ opts.limit) (hnodup : (idsOf lines₀).Nodup)
    (hnamed : "" ∉ idsOf lines₀)
    (h : Reach (pagingStep opts) (fun P e ↦ newIdStep lines₀ P e ∧ cursorStep opts P e)
      (.initial lines₀ readState) P) : PagingSound opts lines₀ P :=
  h.invariant (.initial opts lines₀ readState) fun _ _ _ hP hok hstep ↦
    hP.step hlimit hnodup hnamed hok.1 hok.2 hstep

end Pages

/-! ## Pages of the store in memory -/

namespace MemoryInbox

variable {opts : InboxReadOpts} {s s' : MemoryInbox} {entries : List ShownEntry}

/-- **The invariant of the store in memory.** -/
structure Sound (opts : InboxReadOpts) (s : MemoryInbox) : Prop where
  inOrder : (s.entries.map ShownEntry.toInboxEntry).Sublist s.log
  nodup : (s.log.map InboxEntry.id).Nodup
  named : "" ∉ s.log.map InboxEntry.id
  traversal : ∀ t, s.traversal = some t →
    t.Sound s.log ∧ ∀ e ∈ t.steady, e ∈ matching opts s.entries

theorem Sound.update (h : Sound opts s)
    (hentries : (entries.map ShownEntry.toInboxEntry).Sublist s.log) :
    Sound opts (s.update opts entries) := by
  refine ⟨hentries, h.nodup, h.named, fun t' ht' ↦ ?_⟩
  obtain ⟨t, ht, rfl⟩ := Option.map_eq_some_iff.mp ht'
  refine ⟨(h.traversal t ht).1.observe _, fun e he ↦ ?_⟩
  exact of_decide_eq_true (List.mem_filter.mp he).2

theorem map_mark (id : String) (readAt : Option Int) (entries : List ShownEntry) :
    (mark id readAt entries).map ShownEntry.toInboxEntry = entries.map ShownEntry.toInboxEntry := by
  induction entries with
  | nil => rfl
  | cons e entries ih =>
    rw [mark]
    split_ifs with h
    · rfl
    · rw [List.map_cons, List.map_cons, ih]

theorem Sound.append (h : Sound opts s) {entry : InboxEntry}
    (hnew : entry.id ∉ s.log.map InboxEntry.id) (hnamed : entry.id ≠ "") :
    Sound opts { s.update opts (s.entries ++ [{ toInboxEntry := entry }]) with log := s.log ++ [entry] } := by
  refine ⟨?_, ?_, ?_, fun t' ht' ↦ ?_⟩
  · show ((s.entries ++ [_]).map ShownEntry.toInboxEntry).Sublist (s.log ++ [entry])
    rw [List.map_append]
    exact h.inOrder.append (.refl _)
  · rw [List.map_append, List.nodup_append]
    refine ⟨h.nodup, List.pairwise_singleton _ _, ?_⟩
    rintro id hid id' hid' rfl
    rw [List.map_singleton, List.mem_singleton] at hid'
    exact hnew (hid' ▸ hid)
  · rw [List.map_append, List.mem_append, not_or]
    refine ⟨h.named, fun hmem ↦ hnamed ?_⟩
    rw [List.map_singleton, List.mem_singleton] at hmem
    exact hmem.symm
  · obtain ⟨t, ht, rfl⟩ := Option.map_eq_some_iff.mp ht'
    refine ⟨((h.traversal t ht).1.observe _).append entry, fun e he ↦ ?_⟩
    exact of_decide_eq_true (List.mem_filter.mp he).2

theorem Sound.step (h : Sound opts s) (hlimit : 1 ≤ opts.limit) {e : MemoryEvent}
    (hok : orderlyStep opts s e) (hstep : step opts s e = some s') : Sound opts s' := by
  cases e with
  | append input id ts =>
    rw [MemoryInbox.step] at hstep
    cases hvalid : validateInput input with
    | error error =>
      rw [hvalid] at hstep
      cases hstep
      exact h
    | ok _ =>
      rw [hvalid] at hstep
      cases hstep
      have hentry : ({ input with id, ts } : InboxEntry).id = id := rfl
      exact h.append (hentry ▸ hok.1) (hentry ▸ hok.2)
  | delete id =>
    cases hstep
    exact h.update ((List.eraseP_sublist.map _).trans h.inOrder)
  | markRead id readAt =>
    cases hstep
    exact h.update (map_mark id (some readAt) s.entries ▸ h.inOrder)
  | markUnread id =>
    cases hstep
    exact h.update (map_mark id none s.entries ▸ h.inOrder)
  | begin =>
    cases hstep
    refine ⟨h.inOrder, h.nodup, h.named, ?_⟩
    rintro t ⟨⟩
    refine ⟨⟨Walked.start fun e he ↦ ?_, Nat.le_refl 0⟩, fun e he ↦ he⟩
    obtain ⟨entry, hentry, rfl⟩ := List.mem_map.mp he
    exact h.inOrder.subset (List.mem_map_of_mem (List.mem_filter.mp hentry).1)
  | read =>
    obtain ⟨t, ht, hread⟩ := Option.bind_eq_some_iff.mp hstep
    split_ifs at hread with hdone
    cases hread
    rw [Bool.not_eq_true] at hdone
    obtain ⟨htraversal, hsteady⟩ := h.traversal t ht
    refine ⟨h.inOrder, h.nodup, h.named, ?_⟩
    rintro t' ⟨⟩
    exact ⟨htraversal.take hdone hlimit h.nodup h.named h.inOrder hsteady (hok t ht), hsteady⟩

def initial (entries : List ShownEntry) : MemoryInbox where
  entries
  log := entries.map ShownEntry.toInboxEntry

theorem memory_sound (hlimit : 1 ≤ opts.limit)
    (hnodup : ((entries.map ShownEntry.toInboxEntry).map InboxEntry.id).Nodup)
    (hnamed : "" ∉ (entries.map ShownEntry.toInboxEntry).map InboxEntry.id)
    (h : Reach (MemoryInbox.step opts) (orderlyStep opts) (initial entries) s) : Sound opts s :=
  h.invariant ⟨.refl _, hnodup, hnamed, by rintro _ ⟨⟩⟩ fun _ _ _ hs hok hstep ↦
    hs.step hlimit hok hstep

end MemoryInbox

/-! ## Both stores -/

/-- **Turning the pages of the inbox** yields every entry that matched throughout, once and newest
first, whatever else is done, as long as the last entry of each page still matches when the next
page is read.  Behind an entry that does not, there is no more. -/
theorem inbox_pages (opts : InboxReadOpts) (hlimit : 1 ≤ opts.limit) :
    (∀ lines₀ readState P, (idsOf lines₀).Nodup → "" ∉ idsOf lines₀ →
      Reach (pagingStep opts) (fun P e ↦ newIdStep lines₀ P e ∧ cursorStep opts P e)
        (.initial lines₀ readState) P →
      ∀ r, P.reading = some r → PagedOnce (allEntries lines₀ P.inbox.shared) r.traversal) ∧
    (∀ entries s, ((entries.map ShownEntry.toInboxEntry).map InboxEntry.id).Nodup →
      "" ∉ (entries.map ShownEntry.toInboxEntry).map InboxEntry.id →
      Reach (MemoryInbox.step opts) (MemoryInbox.orderlyStep opts) (.initial entries) s →
      ∀ t, s.traversal = some t → PagedOnce s.log t) ∧
    ∀ all id, id ≠ "" → id ∉ (all.filter opts.keeps).map (fun e ↦ e.id) →
      readPage opts (some id) all = ([], false) := by
  refine ⟨fun lines₀ readState P hnodup hnamed h r hr ↦ ?_, fun entries s hnodup hnamed h t ht ↦ ?_,
    fun all id hid hmem ↦ ?_⟩
  · have hsound := paging_sound hlimit hnodup hnamed h
    exact (hsound.reading r hr).traversal.pagedOnce (hsound.inbox.ids hnodup hnamed).1
  · have hsound := MemoryInbox.memory_sound hlimit hnodup hnamed h
    exact (hsound.traversal t ht).1.pagedOnce hsound.nodup
  · have hcursor : (some id).filter (· ≠ "") = some id :=
      Option.filter_some_pos (decide_eq_true hid)
    rw [readPage, hcursor]
    exact pageBefore_of_not_mem hmem opts.limit

/-! ## Runs to evaluate -/

def sampleLines (ids : List String) : List InboxLine :=
  ids.map fun id ↦ .entry (sampleEntry id)

def oneByOne : InboxReadOpts where
  unread := true
  limit := 1

def markedBehind : List PagingEvent :=
  [.begin, .readFile, .readReadState, .readFile, .readReadState, .inbox (.call (.markRead "c" 5)),
    .inbox (.resume 0 ()), .inbox (.resume 0 ()), .inbox (.resume 0 ()), .inbox (.resume 0 ()),
    .readFile, .readReadState]

theorem newIdStep_of_mark {lines₀ : List InboxLine} {P : Paging} {e : PagingEvent}
    (h : ∀ input id ts, e ≠ .inbox (.call (.append input id ts))) : newIdStep lines₀ P e := by
  cases e with
  | inbox event =>
    refine ⟨?_, fun input id ts heq ↦ absurd (congrArg PagingEvent.inbox heq) (h input id ts)⟩
    cases event with
    | resume i u => trivial
    | call c =>
      cases c with
      | append input id ts => exact absurd rfl (h input id ts)
      | delete | markRead | markUnread => trivial
  | begin | readFile | readReadState => trivial

/-- All three are yielded, although one of them is marked in between. -/
theorem inbox_pages_markedBehind : ∃ (P : Paging)
    (r : Reading), P.reading = some r ∧ r.traversal.done = true ∧
    r.traversal.yielded.map (fun e ↦ e.id) = ["c", "b", "a"] ∧
    PagedOnce (allEntries (sampleLines ["a", "b", "c"]) P.inbox.shared) r.traversal := by
  have hlimit : 1 ≤ oneByOne.limit := Nat.le_refl 1
  have hnew : ∀ e ∈ markedBehind, ∀ P, newIdStep (sampleLines ["a", "b", "c"]) P e := by
    intro e he P
    refine newIdStep_of_mark fun input id ts ↦ ?_
    rintro rfl
    simp [markedBehind] at he
  have hcursor : ExecOk (pagingStep oneByOne) (cursorStep oneByOne)
      (.initial (sampleLines ["a", "b", "c"]) []) markedBehind := by
    decide +kernel
  have hrun : Reach (pagingStep oneByOne) _ _ _ :=
    .of_execOk rfl ((execOk_of_forall hnew _).and hcursor)
  exact ⟨_, _, rfl, rfl, rfl, (inbox_pages oneByOne hlimit).1 _ _ _ (by decide +kernel)
    (by decide +kernel) hrun _ rfl⟩

/-- The last entry of the first page is marked before the second. -/
def markedCursor : List PagingEvent :=
  [.begin, .readFile, .readReadState, .inbox (.call (.markRead "b" 5)), .inbox (.resume 0 ()),
    .inbox (.resume 0 ()), .inbox (.resume 0 ()), .inbox (.resume 0 ()), .readFile, .readReadState]

/-- **The pages end early**: the other entry has been unread all along. -/
theorem markedCursor_ends : ¬ ∀ (opts : InboxReadOpts) lines₀ readState P, 1 ≤ opts.limit →
    (idsOf lines₀).Nodup → "" ∉ idsOf lines₀ →
    Reach (pagingStep opts) (newIdStep lines₀) (.initial lines₀ readState) P →
    ∀ r, P.reading = some r → PagedOnce (allEntries lines₀ P.inbox.shared) r.traversal := by
  intro hall
  have hnew : ∀ e ∈ markedCursor, ∀ P, newIdStep (sampleLines ["a", "b"]) P e := by
    intro e he P
    refine newIdStep_of_mark fun input id ts ↦ ?_
    rintro rfl
    simp [markedCursor] at he
  have hrun : Reach (pagingStep oneByOne) _ (.initial (sampleLines ["a", "b"]) []) _ :=
    .of_exec_of_forall markedCursor rfl hnew
  have hpaged := hall oneByOne _ _ _ (Nat.le_refl 1) (by decide +kernel) (by decide +kernel) hrun _ rfl
  have hcomplete := hpaged.complete rfl
  revert hcomplete
  decide +kernel

end OpenAlice.Core
