import Mathlib.Data.List.Nodup
import OpenAlice.Core.InboxStore

/-!
# What becomes of inbox entries

A delete that has read the entries file writes back what it has read.  What was appended in
between is lost, and what another delete has removed in between comes back; and since the two
share a temporary file, one of them renames what the other has written.  `loneStep` is the
condition that nothing is appended and no other delete starts to rewrite in between.

An entry that is marked as read stays in the read state when the call takes its place in the
queue behind the delete of the entry.  `presentStep` is the condition that it does not.

The invariant is in four parts, each about one side of the calls: the entries that were
issued, the rewriting of the entries file, the queue, and the read state.
-/

namespace OpenAlice.Core

open OpenAlice.Run

/-! ## Sides of a call -/

namespace InboxTask

def issued : InboxTask → Option (InboxEntry × Bool)
  | .appendDir entry | .appendFile entry => some (entry, false)
  | .appended entry => some (entry, true)
  | _ => none

/-- The id a delete is about to remove, with what is to be written to the temporary file. -/
def rewrite : InboxTask → Option (String × Option (List InboxLine))
  | .deleteWrite id kept => some (id, some kept)
  | .deleteRename id => some (id, none)
  | _ => none

def removed : InboxTask → Option String
  | .deleteRenamed id => some id
  | .waiting removed | .writing removed _ | .returned true removed => removed
  | _ => none

inductive Stand where
  | renamed (id : String)
  | waiting
  | writing (state : ReadState)

def stand : InboxTask → Option Stand
  | .deleteRenamed id => some (.renamed id)
  | .waiting _ => some .waiting
  | .writing _ state => some (.writing state)
  | _ => none

def finished : InboxTask → Bool
  | .rejected _ | .appended _ | .returned .. => true
  | _ => false

end InboxTask

/-! ## What should hold -/

def Settled (W : World InboxStore InboxTask) : Prop := ∀ task ∈ W.tasks, task.finished = true

def idsOf (lines : List InboxLine) : List String :=
  lines.filterMap fun
    | .entry entry => some entry.id
    | .malformed _ => none

def InboxLine.remains (removed : List (Option String)) : InboxLine → Bool
  | .entry e => !removed.contains (some e.id)
  | .malformed _ => true

/-- The ids of the deletes that have resolved with `true`. -/
def deletedIds (tasks : List InboxTask) : List (Option String) :=
  tasks.map fun
    | .returned true removed => removed
    | _ => none

/-- What the files hold when all calls are over. -/
structure InboxKept (lines₀ : List InboxLine) (W : World InboxStore InboxTask) : Prop where
  /-- The entries that were there and those that were appended, in that order, but for the
  deleted ones. -/
  entries : W.shared.entries =
    (lines₀ ++ W.shared.log.map InboxLine.entry).filter (InboxLine.remains (deletedIds W.tasks))
  once : (idsOf W.shared.entries).Nodup
  appended : ∀ entry, entry ∈ W.shared.log ↔ InboxTask.appended entry ∈ W.tasks
  readState : ∀ id, W.shared.readState.has id = true → id ∈ idsOf W.shared.entries

/-! ## The conditions on the steps -/

def freshStep (lines₀ : List InboxLine) (W : World InboxStore InboxTask) :
    Event InboxCall Unit → Prop
  | .call (.append _ id _) => id ∉ idsOf lines₀ ∧
      ∀ task ∈ W.tasks, ∀ entry landed, task.issued = some (entry, landed) → entry.id ≠ id
  | _ => True

/-- No delete has read the entries file and not yet renamed its own over it. -/
def NoRewrite (W : World InboxStore InboxTask) : Prop := ∀ task ∈ W.tasks, task.rewrite = none

/-- **Nobody writes beside a delete**: where an entry reaches the file, or a delete finds its
entry there, no delete is rewriting it. -/
def loneStep (W : World InboxStore InboxTask) : Event InboxCall Unit → Prop
  | .resume i _ =>
    (∀ entry, W.tasks[i]? = some (.appendFile entry) → NoRewrite W) ∧
      ∀ id, W.tasks[i]? = some (.deleteRead id) → id ∈ idsOf W.shared.entries → NoRewrite W
  | _ => True

/-- **Nobody marks a deleted entry**: where the call that marks an entry as read takes its
place in the queue, the entry is still there, or its delete not yet in the queue. -/
def presentStep (W : World InboxStore InboxTask) : Event InboxCall Unit → Prop
  | .resume i _ => ∀ id readAt, W.tasks[i]? = some (.markFound id (.set readAt)) →
      id ∈ idsOf W.shared.entries ∨ InboxTask.deleteRenamed id ∈ W.tasks
  | _ => True

def orderlyStep (lines₀ : List InboxLine) (W : World InboxStore InboxTask)
    (e : Event InboxCall Unit) : Prop :=
  freshStep lines₀ W e ∧ loneStep W e ∧ presentStep W e

/-! ## Lines and ids -/

section Lines

variable {id : String} {lines : List InboxLine}

theorem any_isEntry : lines.any (InboxLine.isEntry id) = true ↔ id ∈ idsOf lines := by
  rw [List.any_eq_true, idsOf, List.mem_filterMap]
  refine exists_congr fun line ↦ and_congr_right fun _ ↦ ?_
  cases line with
  | entry e => rw [InboxLine.isEntry, decide_eq_true_eq, Option.some.injEq]
  | malformed text => exact ⟨nofun, nofun⟩

theorem mem_idsOf_without {id' : String} :
    id' ∈ idsOf (lines.filter fun line ↦ !line.isEntry id) ↔ id' ∈ idsOf lines ∧ id' ≠ id := by
  simp only [idsOf, List.mem_filterMap, List.mem_filter]
  constructor
  · rintro ⟨line, ⟨hline, hnot⟩, hid⟩
    refine ⟨⟨line, hline, hid⟩, ?_⟩
    cases line with
    | entry e =>
      cases hid
      simpa [InboxLine.isEntry] using hnot
    | malformed text => cases hid
  · rintro ⟨⟨line, hline, hid⟩, hne⟩
    refine ⟨line, ⟨hline, ?_⟩, hid⟩
    cases line with
    | entry e =>
      cases hid
      simpa [InboxLine.isEntry] using hne
    | malformed text => rfl

theorem idsOf_append (lines lines' : List InboxLine) :
    idsOf (lines ++ lines') = idsOf lines ++ idsOf lines' := List.filterMap_append ..

theorem idsOf_entries (log : List InboxEntry) :
    idsOf (log.map InboxLine.entry) = log.map InboxEntry.id := by
  rw [idsOf, List.filterMap_map]
  exact List.filterMap_eq_map ▸ rfl

theorem idsOf_filter_sublist (p : InboxLine → Bool) (lines : List InboxLine) :
    (idsOf (lines.filter p)).Sublist (idsOf lines) :=
  List.filter_sublist.filterMap _

end Lines

/-! ## Issued entries -/

/-- The ids of the appended entries are new and different ones. -/
structure Issued (ids₀ : List String) (issued : List (Option (InboxEntry × Bool)))
    (log : List InboxEntry) : Prop where
  fresh : ∀ (i : Nat) entry landed, issued[i]? = some (some (entry, landed)) → entry.id ∉ ids₀
  distinct : ∀ (i j : Nat) entry entry' landed landed', issued[i]? = some (some (entry, landed)) →
    issued[j]? = some (some (entry', landed')) → entry.id = entry'.id → i = j
  landed : ∀ entry, entry ∈ log ↔ ∃ i : Nat, issued[i]? = some (some (entry, true))
  nodup : (log.map InboxEntry.id).Nodup

theorem proj_none {α : Type*} {l : List (Option α)} {i : Nat} {a : α}
    (h : (l ++ [none])[i]? = some (some a)) : l[i]? = some (some a) := by
  rcases World.task_append h with h | ⟨-, h⟩
  · exact h
  · exact nomatch h

namespace Issued

variable {ids₀ : List String} {issued : List (Option (InboxEntry × Bool))} {log : List InboxEntry}

theorem other (h : Issued ids₀ issued log) : Issued ids₀ (issued ++ [none]) log where
  fresh i entry landed hi := h.fresh i entry landed (proj_none hi)
  distinct i j entry entry' landed landed' hi hj :=
    h.distinct i j entry entry' landed landed' (proj_none hi) (proj_none hj)
  landed entry := by
    rw [h.landed]
    refine exists_congr fun i ↦ ⟨fun hi ↦ ?_, proj_none⟩
    exact (List.getElem?_append_left (List.getElem?_eq_some_iff.mp hi).1).trans hi
  nodup := h.nodup

theorem append (h : Issued ids₀ issued log) {entry : InboxEntry} (hfresh : entry.id ∉ ids₀)
    (hnew : ∀ entry' landed, some (entry', landed) ∈ issued → entry'.id ≠ entry.id) :
    Issued ids₀ (issued ++ [some (entry, false)]) log where
  fresh i entry' landed hi := by
    rcases World.task_append hi with hi | ⟨-, hi⟩
    · exact h.fresh i entry' landed hi
    · cases hi
      exact hfresh
  distinct i j entry₁ entry₂ landed₁ landed₂ hi hj hid := by
    rcases World.task_append hi with hi | ⟨hi, hi'⟩ <;>
      rcases World.task_append hj with hj | ⟨hj, hj'⟩
    · exact h.distinct i j entry₁ entry₂ landed₁ landed₂ hi hj hid
    · cases hj'
      exact (hnew _ _ (List.mem_of_getElem? hi) hid).elim
    · cases hi'
      exact (hnew _ _ (List.mem_of_getElem? hj) hid.symm).elim
    · exact hi.trans hj.symm
  landed entry' := by
    rw [h.landed]
    refine exists_congr fun i ↦ ⟨fun hi ↦ ?_, fun hi ↦ ?_⟩
    · exact (List.getElem?_append_left (List.getElem?_eq_some_iff.mp hi).1).trans hi
    rcases World.task_append hi with hi | ⟨-, hi⟩
    · exact hi
    · exact nomatch hi
  nodup := h.nodup

theorem notMem_log (h : Issued ids₀ issued log) {n : Nat} {entry : InboxEntry}
    (hn : issued[n]? = some (some (entry, false))) : entry.id ∉ log.map InboxEntry.id := by
  intro hmem
  obtain ⟨entry', hentry', hid⟩ := List.mem_map.mp hmem
  obtain ⟨i, hi⟩ := (h.landed entry').mp hentry'
  obtain rfl := h.distinct i n entry' entry true false hi hn hid
  exact nomatch hi.symm.trans hn

theorem land (h : Issued ids₀ issued log) {n : Nat} {entry : InboxEntry}
    (hn : issued[n]? = some (some (entry, false))) :
    Issued ids₀ (issued.set n (some (entry, true))) (log ++ [entry]) := by
  have hlen : n < issued.length := (List.getElem?_eq_some_iff.mp hn).1
  -- The issued entries are those of before.
  have hback : ∀ (i : Nat) entry' landed,
      (issued.set n (some (entry, true)))[i]? = some (some (entry', landed)) →
        ∃ landed', issued[i]? = some (some (entry', landed')) := by
    intro i entry' landed hi
    rcases World.task_set hi with ⟨rfl, heq⟩ | ⟨-, hi⟩
    · cases heq
      exact ⟨_, hn⟩
    · exact ⟨_, hi⟩
  refine ⟨?_, ?_, ?_, ?_⟩
  · intro i entry' landed hi
    obtain ⟨landed', hi⟩ := hback i entry' landed hi
    exact h.fresh i entry' landed' hi
  · intro i j entry₁ entry₂ landed₁ landed₂ hi hj hid
    obtain ⟨_, hi⟩ := hback i _ _ hi
    obtain ⟨_, hj⟩ := hback j _ _ hj
    exact h.distinct i j _ _ _ _ hi hj hid
  · intro entry'
    rw [List.mem_append, List.mem_singleton, h.landed]
    constructor
    · rintro (⟨i, hi⟩ | rfl)
      · refine ⟨i, (List.getElem?_set_ne ?_).trans hi⟩
        rintro rfl
        exact nomatch hn.symm.trans hi
      · exact ⟨n, List.getElem?_set_self hlen⟩
    · rintro ⟨i, hi⟩
      rcases World.task_set hi with ⟨rfl, heq⟩ | ⟨-, hi⟩
      · cases heq
        exact .inr rfl
      · exact .inl ⟨i, hi⟩
  · rw [List.map_append, List.nodup_append]
    refine ⟨h.nodup, List.pairwise_singleton _ _, fun a ha b hb ↦ ?_⟩
    rw [List.map_singleton] at hb
    rw [List.mem_singleton.mp hb]
    rintro rfl
    exact h.notMem_log hn ha

end Issued

/-! ## The rewriting of the entries file -/

/-- The entries file is what was there and was appended but for the removed entries, and the
delete that is about to rewrite it, if there is one, has read what it holds. -/
structure Rewriting (lines₀ : List InboxLine) (s : InboxStore)
    (rewrites : List (Option (String × Option (List InboxLine)))) (removed : List (Option String)) :
    Prop where
  entries : s.entries = (lines₀ ++ s.log.map InboxLine.entry).filter (InboxLine.remains removed)
  known : ∀ id, some id ∈ removed → id ∈ idsOf (lines₀ ++ s.log.map InboxLine.entry)
  unique : ∀ (i j : Nat) r r', rewrites[i]? = some (some r) → rewrites[j]? = some (some r') → i = j
  found : ∀ r, some r ∈ rewrites → r.1 ∈ idsOf s.entries
  kept : ∀ id kept, some (id, some kept) ∈ rewrites →
    kept = s.entries.filter fun line ↦ !line.isEntry id
  tmp : ∀ id, some (id, none) ∈ rewrites →
    s.tmp = some (s.entries.filter fun line ↦ !line.isEntry id)

theorem remains_congr {removed removed' : List (Option String)}
    (h : ∀ id, some id ∈ removed' ↔ some id ∈ removed) :
    InboxLine.remains removed' = InboxLine.remains removed := by
  funext line
  cases line with
  | entry e =>
    have hmem := h e.id
    simp only [InboxLine.remains, List.contains_eq_mem]
    rw [decide_eq_decide.mpr hmem]
  | malformed text => rfl

theorem some_mem_concat_none {α : Type*} {l : List (Option α)} {a : α} :
    some a ∈ l ++ [none] ↔ some a ∈ l := by simp

theorem mem_of_mem_set {α : Type*} {l : List α} {n : Nat} {a b : α} (h : b ∈ l.set n a) :
    b = a ∨ b ∈ l := (List.mem_or_eq_of_mem_set h).symm

namespace Rewriting

variable {lines₀ : List InboxLine} {s : InboxStore}
  {rewrites : List (Option (String × Option (List InboxLine)))} {removed : List (Option String)}

theorem other (h : Rewriting lines₀ s rewrites removed) :
    Rewriting lines₀ s (rewrites ++ [none]) (removed ++ [none]) where
  entries := by
    rw [remains_congr fun id ↦ some_mem_concat_none]
    exact h.entries
  known id hid := h.known id (some_mem_concat_none.mp hid)
  unique i j r r' hi hj := h.unique i j r r' (proj_none hi) (proj_none hj)
  found r hr := h.found r (some_mem_concat_none.mp hr)
  kept id kept hr := h.kept id kept (some_mem_concat_none.mp hr)
  tmp id hr := h.tmp id (some_mem_concat_none.mp hr)

theorem congr (h : Rewriting lines₀ s rewrites removed) {s' : InboxStore}
    (hentries : s'.entries = s.entries) (hlog : s'.log = s.log) (htmp : s'.tmp = s.tmp) :
    Rewriting lines₀ s' rewrites removed := by
  obtain ⟨h₁, h₂, h₃, h₄, h₅, h₆⟩ := h
  refine ⟨?_, ?_, h₃, ?_, ?_, ?_⟩
  · rwa [hentries, hlog]
  · rwa [hlog]
  · rwa [hentries]
  · rwa [hentries]
  · rwa [hentries, htmp]

theorem land (h : Rewriting lines₀ s rewrites removed) (hnone : ∀ r, some r ∉ rewrites)
    {entry : InboxEntry} (hfresh : entry.id ∉ idsOf lines₀)
    (hnew : entry.id ∉ s.log.map InboxEntry.id) :
    Rewriting lines₀ { s with entries := s.entries ++ [.entry entry], log := s.log ++ [entry] }
      rewrites removed where
  entries := by
    have hremains : InboxLine.remains removed (.entry entry) = true := by
      rw [InboxLine.remains, Bool.not_eq_true', List.contains_eq_mem, decide_eq_false_iff_not]
      intro hmem
      have hknown := h.known _ hmem
      rw [idsOf_append, idsOf_entries, List.mem_append] at hknown
      exact hknown.elim hfresh hnew
    have hone : [InboxLine.entry entry].filter (InboxLine.remains removed) = [.entry entry] :=
      List.filter_cons_of_pos hremains
    calc s.entries ++ [.entry entry]
        = (lines₀ ++ s.log.map InboxLine.entry).filter (InboxLine.remains removed) ++
            [InboxLine.entry entry].filter (InboxLine.remains removed) := by rw [hone, h.entries]
      _ = _ := by rw [← List.filter_append, List.append_assoc, List.map_append]; rfl
  known id hid := by
    simp only
    rw [List.map_append, ← List.append_assoc, idsOf_append]
    exact List.mem_append_left _ (h.known id hid)
  unique := h.unique
  found r hr := (hnone r hr).elim
  kept id kept hr := (hnone _ hr).elim
  tmp id hr := (hnone _ hr).elim

theorem read (h : Rewriting lines₀ s rewrites removed) (hnone : ∀ r, some r ∉ rewrites)
    {id : String} (hid : id ∈ idsOf s.entries) (n : Nat) :
    Rewriting lines₀ s
      (rewrites.set n (some (id, some (s.entries.filter fun line ↦ !line.isEntry id)))) removed where
  entries := h.entries
  known := h.known
  unique i j r r' hi hj := by
    have honly : ∀ (i : Nat) r, (rewrites.set n
        (some (id, some (s.entries.filter fun line ↦ !line.isEntry id))))[i]? = some (some r) →
          i = n := by
      intro i r hi
      rcases World.task_set hi with ⟨rfl, -⟩ | ⟨-, hi⟩
      · rfl
      · exact (hnone r (List.mem_of_getElem? hi)).elim
    exact (honly i r hi).trans (honly j r' hj).symm
  found r hr := by
    rcases mem_of_mem_set hr with hr | hr
    · cases hr
      exact hid
    · exact (hnone r hr).elim
  kept id' kept hr := by
    rcases mem_of_mem_set hr with hr | hr
    · cases hr
      rfl
    · exact (hnone _ hr).elim
  tmp id' hr := by
    rcases mem_of_mem_set hr with hr | hr
    · cases hr
    · exact (hnone _ hr).elim

theorem only (h : Rewriting lines₀ s rewrites removed) {n : Nat}
    {r : String × Option (List InboxLine)}
    (hn : rewrites[n]? = some (some r)) {b r' : Option (String × Option (List InboxLine))}
    (hr : r' ∈ rewrites.set n b) (hne : r' ≠ none) : r' = b := by
  obtain ⟨i, hi⟩ := List.mem_iff_getElem?.mp hr
  rcases World.task_set hi with ⟨-, rfl⟩ | ⟨hin, hi⟩
  · rfl
  · obtain ⟨x, rfl⟩ := Option.ne_none_iff_exists'.mp hne
    exact (hin (h.unique i n x r hi hn)).elim

theorem write (h : Rewriting lines₀ s rewrites removed) {n : Nat} {id : String}
    {kept : List InboxLine} (hn : rewrites[n]? = some (some (id, some kept))) :
    Rewriting lines₀ { s with tmp := some kept } (rewrites.set n (some (id, none))) removed where
  entries := h.entries
  known := h.known
  unique i j r r' hi hj := by
    have hback : ∀ (i : Nat) r, (rewrites.set n (some (id, none)))[i]? = some (some r) →
        ∃ r', rewrites[i]? = some (some r') := by
      intro i r hi
      rcases World.task_set hi with ⟨rfl, -⟩ | ⟨-, hi⟩
      · exact ⟨_, hn⟩
      · exact ⟨_, hi⟩
    obtain ⟨_, hi⟩ := hback i r hi
    obtain ⟨_, hj⟩ := hback j r' hj
    exact h.unique i j _ _ hi hj
  found r hr := by
    cases h.only hn hr nofun
    exact h.found (id, some kept) (List.mem_of_getElem? hn)
  kept id' kept' hr := by
    cases h.only hn hr nofun
  tmp id' hr := by
    cases h.only hn hr nofun
    exact congrArg some (h.kept id kept (List.mem_of_getElem? hn))

theorem rename (h : Rewriting lines₀ s rewrites removed) {n : Nat} {id : String}
    (hn : rewrites[n]? = some (some (id, none))) (hremoved : removed[n]? = some none) :
    Rewriting lines₀ { s with entries := s.entries.filter fun line ↦ !line.isEntry id, tmp := none }
      (rewrites.set n none) (removed.set n (some id)) where
  entries := by
    simp only
    rw [h.entries, List.filter_filter]
    congr 1
    funext line
    cases line with
    | entry e =>
      have hmem : some e.id ∈ removed.set n (some id) ↔ e.id = id ∨ some e.id ∈ removed := by
        constructor
        · intro hmem
          exact (mem_of_mem_set hmem).imp_left Option.some.inj
        rintro (rfl | hmem)
        · exact List.mem_set (List.getElem?_eq_some_iff.mp hremoved).1 _
        obtain ⟨i, hi⟩ := List.mem_iff_getElem?.mp hmem
        refine List.mem_of_getElem? ((List.getElem?_set_ne ?_).trans hi)
        rintro rfl
        cases hremoved.symm.trans hi
      simp only [InboxLine.remains, InboxLine.isEntry, List.contains_eq_mem]
      by_cases hid : e.id = id
      · rw [decide_eq_true (hmem.mpr (.inl hid)), decide_eq_true hid]
        rfl
      have hiff : some e.id ∈ removed.set n (some id) ↔ some e.id ∈ removed :=
        hmem.trans (or_iff_right hid)
      rw [decide_eq_decide.mpr hiff, decide_eq_false hid]
      rfl
    | malformed text => rfl
  known id' hid' := by
    rcases mem_of_mem_set hid' with hid' | hid'
    · cases hid'
      have hfound := h.found _ (List.mem_of_getElem? hn)
      rw [h.entries] at hfound
      exact (idsOf_filter_sublist _ _).subset hfound
    · exact h.known id' hid'
  unique i j r r' hi hj := by
    rcases World.task_set hi with ⟨-, hi⟩ | ⟨-, hi⟩
    · cases hi
    rcases World.task_set hj with ⟨-, hj⟩ | ⟨-, hj⟩
    · cases hj
    · exact h.unique i j r r' hi hj
  found r hr := by cases h.only hn hr (Option.some_ne_none _)
  kept id' kept hr := by cases h.only hn hr (Option.some_ne_none _)
  tmp id' hr := by cases h.only hn hr (Option.some_ne_none _)

end Rewriting

/-! ## The queue -/

structure Queued (queue : List Place) (readState : ReadState)
    (stands : List (Option InboxTask.Stand)) : Prop where
  nodup : (queue.map Place.task).Nodup
  placed : ∀ p ∈ queue, stands[p.task]? = some (some .waiting) ∨
    ∃ state, stands[p.task]? = some (some (.writing state))
  writing : ∀ (i : Nat) state, stands[i]? = some (some (.writing state)) →
    ∃ p rest, queue = p :: rest ∧ p.task = i ∧ state = readState.change p.id p.change

namespace Queued

variable {queue : List Place} {readState : ReadState} {stands : List (Option InboxTask.Stand)}

theorem other (h : Queued queue readState stands) : Queued queue readState (stands ++ [none]) where
  nodup := h.nodup
  placed p hp := by
    refine (h.placed p hp).imp (fun hi ↦ ?_) fun ⟨state, hi⟩ ↦ ⟨state, ?_⟩ <;>
      exact (List.getElem?_append_left (List.getElem?_eq_some_iff.mp hi).1).trans hi
  writing i state hi := h.writing i state (proj_none hi)

theorem outside (h : Queued queue readState stands) {n : Nat} {a b : Option InboxTask.Stand}
    (hn : stands[n]? = some a) (ha : a ≠ some .waiting ∧ ∀ state, a ≠ some (.writing state))
    (hb : ∀ state, b ≠ some (.writing state)) : Queued queue readState (stands.set n b) where
  nodup := h.nodup
  placed p hp := by
    have hne : n ≠ p.task := by
      rintro rfl
      rcases h.placed p hp with hi | ⟨state, hi⟩
      · exact ha.1 (Option.some.inj (hn.symm.trans hi))
      · exact ha.2 state (Option.some.inj (hn.symm.trans hi))
    rw [List.getElem?_set_ne hne]
    exact h.placed p hp
  writing i state hi := by
    rcases World.task_set hi with ⟨-, hi⟩ | ⟨-, hi⟩
    · exact (hb state hi.symm).elim
    · exact h.writing i state hi

theorem enqueue (h : Queued queue readState stands) {n : Nat} {a : Option InboxTask.Stand}
    (hn : stands[n]? = some a) (ha : a ≠ some .waiting ∧ ∀ state, a ≠ some (.writing state))
    (id : String) (change : Change) :
    Queued (queue ++ [⟨n, id, change⟩]) readState (stands.set n (some .waiting)) := by
  have hset := h.outside hn ha (b := some .waiting) nofun
  refine ⟨?_, ?_, ?_⟩
  · rw [List.map_append, List.nodup_append]
    refine ⟨h.nodup, List.pairwise_singleton _ _, ?_⟩
    rintro i hi j hj rfl
    obtain ⟨p, hp, rfl⟩ := List.mem_map.mp hi
    have htask : p.task = n := List.mem_singleton.mp hj
    rcases h.placed p hp with hi | ⟨state, hi⟩
    · exact ha.1 (Option.some.inj (hn.symm.trans (htask ▸ hi)))
    · exact ha.2 state (Option.some.inj (hn.symm.trans (htask ▸ hi)))
  · intro p hp
    rcases List.mem_append.mp hp with hp | hp
    · exact hset.placed p hp
    · rw [List.mem_singleton.mp hp]
      exact .inl (List.getElem?_set_self (List.getElem?_eq_some_iff.mp hn).1)
  · intro i state hi
    obtain ⟨p, rest, rfl, hp⟩ := hset.writing i state hi
    exact ⟨p, rest ++ [⟨n, id, change⟩], rfl, hp⟩

theorem startWrite {p : Place} {rest : List Place} (h : Queued (p :: rest) readState stands)
    {n : Nat}
    (hp : p.task = n) (hn : stands[n]? = some (some .waiting)) :
    Queued (p :: rest) readState
      (stands.set n (some (.writing (readState.change p.id p.change)))) where
  nodup := h.nodup
  placed q hq := by
    by_cases hne : n = q.task
    · rw [← hne]
      exact .inr ⟨_, List.getElem?_set_self (List.getElem?_eq_some_iff.mp hn).1⟩
    · rw [List.getElem?_set_ne hne]
      exact h.placed q hq
  writing i state hi := by
    rcases World.task_set hi with ⟨rfl, heq⟩ | ⟨-, hi⟩
    · cases heq
      exact ⟨p, rest, rfl, hp, rfl⟩
    · exact h.writing i state hi

theorem leave {p : Place} {rest : List Place} (h : Queued (p :: rest) readState stands)
    (readState' : ReadState) {n : Nat} (hp : p.task = n)
    {b : Option InboxTask.Stand} (hb : ∀ state, b ≠ some (.writing state)) :
    Queued rest readState' (stands.set n b) where
  nodup := (List.nodup_cons.mp h.nodup).2
  placed q hq := by
    have hne : n ≠ q.task := by
      rintro rfl
      exact (List.nodup_cons.mp h.nodup).1 (hp ▸ List.mem_map_of_mem hq)
    rw [List.getElem?_set_ne hne]
    exact h.placed q (List.mem_cons_of_mem p hq)
  writing i state hi := by
    rcases World.task_set hi with ⟨-, hi⟩ | ⟨hin, hi⟩
    · exact (hb state hi.symm).elim
    obtain ⟨q, rest', hqueue, hq, -⟩ := h.writing i state hi
    cases hqueue
    exact (hin (hq.symm.trans hp)).elim

end Queued

/-! ## The read state -/

/-- The entry is there, or its time will be removed behind its delete. -/
def Cleared (safe : String → Prop) (queue : List Place) (id : String) : Prop :=
  safe id ∨ ∃ p ∈ queue, p.id = id ∧ p.change = .unset

/-- Whoever sets a time in the queue sets that of an entry that is there, or will be removed
again behind it. -/
def Covered (safe : String → Prop) : List Place → Prop
  | [] => True
  | p :: queue => (p.change ≠ .unset → Cleared safe queue p.id) ∧ Covered safe queue

section ReadState

variable {safe safe' : String → Prop} {queue added : List Place} {id : String}

theorem Cleared.append (h : Cleared safe queue id)
    (hsafe : ∀ id, safe id → Cleared safe' added id) : Cleared safe' (queue ++ added) id := by
  rcases h with h | ⟨p, hp, h⟩
  · exact (hsafe id h).imp_right fun ⟨p, hp, h⟩ ↦ ⟨p, List.mem_append_right _ hp, h⟩
  · exact .inr ⟨p, List.mem_append_left _ hp, h⟩

theorem Covered.append (h : Covered safe queue) (hadded : Covered safe' added)
    (hsafe : ∀ id, safe id → Cleared safe' added id) : Covered safe' (queue ++ added) := by
  induction queue with
  | nil => exact hadded
  | cons p queue ih => exact ⟨fun hset ↦ (h.1 hset).append hsafe, ih h.2⟩

theorem has_change {readState : ReadState} {change : Change} {id' : String}
    (h : (readState.change id change).has id' = true) :
    (change ≠ .unset ∧ id' = id) ∨ (readState.has id' = true ∧ id' ≠ id) := by
  have hfilter : ∀ id', ReadState.has (readState.filter fun r ↦ r.1 ≠ id) id' = true →
      readState.has id' = true ∧ id' ≠ id := by
    intro id' hhas
    obtain ⟨r, hr, hid⟩ := List.any_eq_true.mp hhas
    obtain ⟨hr, hne⟩ := List.mem_filter.mp hr
    rw [decide_eq_true_eq] at hid hne
    exact ⟨List.any_eq_true.mpr ⟨r, hr, decide_eq_true hid⟩, hid ▸ hne⟩
  cases change with
  | unset => exact .inr (hfilter id' h)
  | set readAt =>
    rw [ReadState.change, ReadState.has, List.any_cons, Bool.or_eq_true, decide_eq_true_eq] at h
    rcases h with rfl | h
    · exact .inl ⟨nofun, rfl⟩
    · exact .inr (hfilter id' h)

/-- **Whose time is in the read state**, at whatever is done there. -/
structure Marks (safe : String → Prop) (queue : List Place) (readState : ReadState) : Prop where
  covered : Covered safe queue
  reads : ∀ id, readState.has id = true → Cleared safe queue id

theorem Marks.append {readState : ReadState} (h : Marks safe queue readState)
    (hadded : Covered safe' added) (hsafe : ∀ id, safe id → Cleared safe' added id) :
    Marks safe' (queue ++ added) readState :=
  ⟨h.covered.append hadded hsafe, fun id hid ↦ (h.reads id hid).append hsafe⟩

theorem Marks.mono {readState : ReadState} (h : Marks safe queue readState)
    (hsafe : ∀ id, safe id → safe' id) : Marks safe' queue readState := by
  have happend : Marks safe' (queue ++ []) readState :=
    h.append trivial fun id hid ↦ .inl (hsafe id hid)
  rwa [List.append_nil] at happend

theorem Marks.leave {p : Place} {readState readState' : ReadState}
    (h : Marks safe (p :: queue) readState)
    (hread : ∀ id, readState'.has id = true →
      (p.change ≠ .unset ∧ id = p.id) ∨ (readState.has id = true ∧ id ≠ p.id)) :
    Marks safe queue readState' := by
  refine ⟨h.covered.2, fun id hid ↦ ?_⟩
  rcases hread id hid with ⟨hset, rfl⟩ | ⟨hold, hne⟩
  · exact h.covered.1 hset
  refine (h.reads id hold).imp_right ?_
  rintro ⟨q, hq, hqid, hunset⟩
  rcases List.mem_cons.mp hq with rfl | hq
  · exact (hne hqid.symm).elim
  · exact ⟨q, hq, hqid, hunset⟩

end ReadState

/-! ## All of it -/

/-- The entry is in the file, or its delete not yet in the queue. -/
def Safe (W : World InboxStore InboxTask) (id : String) : Prop :=
  id ∈ idsOf W.shared.entries ∨ InboxTask.deleteRenamed id ∈ W.tasks

/-- **The invariant of the inbox.** -/
structure InboxSound (lines₀ : List InboxLine) (W : World InboxStore InboxTask) : Prop where
  issued : Issued (idsOf lines₀) (W.tasks.map InboxTask.issued) W.shared.log
  rewriting : Rewriting lines₀ W.shared (W.tasks.map InboxTask.rewrite) (W.tasks.map InboxTask.removed)
  queued : Queued W.shared.queue W.shared.readState (W.tasks.map InboxTask.stand)
  marks : Marks (Safe W) W.shared.queue W.shared.readState

section Steps

variable {lines₀ : List InboxLine} {W W' : World InboxStore InboxTask} {s : InboxStore} {i : Nat}
  {task task' : InboxTask}

theorem map_set_of_eq {α : Type*} (f : InboxTask → α) (hi : W.tasks[i]? = some task)
    (h : f task' = f task) : (W.tasks.set i task').map f = W.tasks.map f := by
  apply List.ext_getElem?
  intro j
  rw [List.getElem?_map, List.getElem?_map, List.getElem?_set]
  split
  · rename_i hij
    subst hij
    rw [hi, if_pos (List.getElem?_eq_some_iff.mp hi).1]
    exact congrArg some h
  · rfl

theorem noRewrite_iff : NoRewrite W ↔ ∀ r, some r ∉ W.tasks.map InboxTask.rewrite := by
  simp only [NoRewrite, List.mem_map, not_exists, not_and]
  constructor
  · intro h r task htask heq
    exact nomatch (h task htask).symm.trans heq
  · intro h task htask
    refine Option.eq_none_iff_forall_ne_some.mpr fun r heq ↦ h r task htask heq

theorem safe_of_ne (hentries : idsOf W.shared.entries ⊆ idsOf s.entries)
    (hi : W.tasks[i]? = some task) (hne : ∀ id, task ≠ .deleteRenamed id) {id : String}
    (h : Safe W id) : Safe ⟨s, W.tasks.set i task'⟩ id := by
  refine h.imp (fun hid ↦ hentries hid) fun hmem ↦ ?_
  obtain ⟨j, hj⟩ := List.mem_iff_getElem?.mp hmem
  refine List.mem_of_getElem? ((List.getElem?_set_ne ?_).trans hj)
  rintro rfl
  exact hne id (Option.some.inj (hi.symm.trans hj))

theorem InboxSound.quiet (h : InboxSound lines₀ W) (hi : W.tasks[i]? = some task)
    (hissued : task'.issued = task.issued) (hrewrite : task'.rewrite = task.rewrite)
    (hremoved : task'.removed = task.removed) (hstand : task.stand = none)
    (hstand' : task'.stand = none) : InboxSound lines₀ ⟨W.shared, W.tasks.set i task'⟩ where
  issued := by
    rw [map_set_of_eq InboxTask.issued hi]
    · exact h.issued
    · exact hissued
  rewriting := by
    rw [map_set_of_eq InboxTask.rewrite hi, map_set_of_eq InboxTask.removed hi]
    · exact h.rewriting
    · exact hremoved
    · exact hrewrite
  queued := by
    rw [map_set_of_eq InboxTask.stand hi]
    · exact h.queued
    · exact (hstand'.trans hstand.symm)
  marks := by
    refine h.marks.mono fun id hid ↦ safe_of_ne (fun _ h ↦ h) hi ?_ hid
    rintro id rfl
    exact nomatch hstand

theorem map_getElem? {α : Type*} (f : InboxTask → α) (hi : W.tasks[i]? = some task) :
    (W.tasks.map f)[i]? = some (f task) := by
  rw [List.getElem?_map, hi]
  rfl

theorem InboxSound.land (h : InboxSound lines₀ W) {entry : InboxEntry}
    (hi : W.tasks[i]? = some (.appendFile entry)) (hlone : NoRewrite W) :
    InboxSound lines₀ ⟨{ W.shared with
          entries := W.shared.entries ++ [.entry entry], log := W.shared.log ++ [entry] },
        W.tasks.set i (.appended entry)⟩ where
  issued := by
    rw [List.map_set]
    exact h.issued.land (map_getElem? InboxTask.issued hi)
  rewriting := by
    rw [map_set_of_eq InboxTask.rewrite hi, map_set_of_eq InboxTask.removed hi]
    · have hissued := map_getElem? InboxTask.issued hi
      exact h.rewriting.land (noRewrite_iff.mp hlone) (h.issued.fresh i entry false hissued)
        (h.issued.notMem_log hissued)
    · rfl
    · rfl
  queued := by
    rw [map_set_of_eq InboxTask.stand hi]
    · exact h.queued
    · rfl
  marks := by
    refine h.marks.mono fun id hid ↦ safe_of_ne ?_ hi nofun hid
    rw [idsOf_append]
    exact List.subset_append_left _ _

theorem InboxSound.read (h : InboxSound lines₀ W) {id : String}
    (hi : W.tasks[i]? = some (.deleteRead id)) (hid : id ∈ idsOf W.shared.entries)
    (hlone : NoRewrite W) :
    InboxSound lines₀ ⟨W.shared, W.tasks.set i
      (.deleteWrite id (W.shared.entries.filter fun line ↦ !line.isEntry id))⟩ where
  issued := by
    rw [map_set_of_eq InboxTask.issued hi]
    · exact h.issued
    · rfl
  rewriting := by
    rw [List.map_set, map_set_of_eq InboxTask.removed hi]
    · exact h.rewriting.read (noRewrite_iff.mp hlone) hid i
    · rfl
  queued := by
    rw [map_set_of_eq InboxTask.stand hi]
    · exact h.queued
    · rfl
  marks := h.marks.mono fun _ hid ↦ safe_of_ne (fun _ h ↦ h) hi nofun hid

theorem InboxSound.write (h : InboxSound lines₀ W) {id : String} {kept : List InboxLine}
    (hi : W.tasks[i]? = some (.deleteWrite id kept)) :
    InboxSound lines₀ ⟨{ W.shared with tmp := some kept }, W.tasks.set i (.deleteRename id)⟩ where
  issued := by
    rw [map_set_of_eq InboxTask.issued hi]
    · exact h.issued
    · rfl
  rewriting := by
    rw [List.map_set, map_set_of_eq InboxTask.removed hi]
    · exact h.rewriting.write (map_getElem? InboxTask.rewrite hi)
    · rfl
  queued := by
    rw [map_set_of_eq InboxTask.stand hi]
    · exact h.queued
    · rfl
  marks := h.marks.mono fun _ hid ↦ safe_of_ne (fun _ h ↦ h) hi nofun hid

theorem InboxSound.rename (h : InboxSound lines₀ W) {id : String}
    (hi : W.tasks[i]? = some (.deleteRename id)) :
    InboxSound lines₀ ⟨{ W.shared with
          entries := W.shared.entries.filter fun line ↦ !line.isEntry id, tmp := none },
        W.tasks.set i (.deleteRenamed id)⟩ where
  issued := by
    rw [map_set_of_eq InboxTask.issued hi]
    · exact h.issued
    · rfl
  rewriting := by
    rw [List.map_set, List.map_set]
    exact h.rewriting.rename (map_getElem? InboxTask.rewrite hi) (map_getElem? InboxTask.removed hi)
  queued := by
    rw [List.map_set]
    exact h.queued.outside (map_getElem? InboxTask.stand hi) ⟨nofun, nofun⟩ nofun
  marks := by
    refine h.marks.mono fun id' hid' ↦ ?_
    by_cases heq : id' = id
    · subst heq
      exact .inr (List.mem_set (List.getElem?_eq_some_iff.mp hi).1 _)
    refine safe_of_ne (W := ⟨{ W.shared with
        entries := W.shared.entries.filter fun line ↦ !line.isEntry id, tmp := none }, W.tasks⟩)
      (fun _ h ↦ h) hi nofun ?_
    exact hid'.imp_left fun hmem ↦ mem_idsOf_without.mpr ⟨hmem, heq⟩

theorem InboxSound.cleanUp (h : InboxSound lines₀ W) {id : String}
    (hi : W.tasks[i]? = some (.deleteRenamed id)) :
    InboxSound lines₀ ⟨{ W.shared with queue := W.shared.queue ++ [⟨i, id, .unset⟩] },
        W.tasks.set i (.waiting (some id))⟩ where
  issued := by
    rw [map_set_of_eq InboxTask.issued hi]
    · exact h.issued
    · rfl
  rewriting := by
    rw [map_set_of_eq InboxTask.rewrite hi, map_set_of_eq InboxTask.removed hi]
    · exact h.rewriting.congr rfl rfl rfl
    · rfl
    · rfl
  queued := by
    rw [List.map_set]
    exact h.queued.enqueue (map_getElem? InboxTask.stand hi) ⟨nofun, nofun⟩ id .unset
  marks := by
    refine h.marks.append ⟨fun hset ↦ (hset rfl).elim, trivial⟩ fun id' hid' ↦ ?_
    by_cases heq : id' = id
    · exact .inr ⟨_, List.mem_singleton_self _, heq.symm, rfl⟩
    refine .inl (hid'.imp_right fun hmem ↦ ?_)
    obtain ⟨j, hj⟩ := List.mem_iff_getElem?.mp hmem
    refine List.mem_of_getElem? ((List.getElem?_set_ne ?_).trans hj)
    rintro rfl
    cases hi.symm.trans hj
    exact heq rfl

theorem InboxSound.mark (h : InboxSound lines₀ W) {id : String} {change : Change}
    (hi : W.tasks[i]? = some (.markFound id change)) (hpresent : change ≠ .unset → Safe W id) :
    InboxSound lines₀ ⟨{ W.shared with queue := W.shared.queue ++ [⟨i, id, change⟩] },
        W.tasks.set i (.waiting none)⟩ where
  issued := by
    rw [map_set_of_eq InboxTask.issued hi]
    · exact h.issued
    · rfl
  rewriting := by
    rw [map_set_of_eq InboxTask.rewrite hi, map_set_of_eq InboxTask.removed hi]
    · exact h.rewriting.congr rfl rfl rfl
    · rfl
    · rfl
  queued := by
    rw [List.map_set]
    exact h.queued.enqueue (map_getElem? InboxTask.stand hi) ⟨nofun, nofun⟩ id change
  marks := by
    refine h.marks.append ⟨fun hset ↦ .inl ?_, trivial⟩ fun id' hid' ↦ .inl ?_
    · exact safe_of_ne (fun _ h ↦ h) hi nofun (hpresent hset)
    · exact safe_of_ne (fun _ h ↦ h) hi nofun hid'

theorem InboxSound.startWrite (h : InboxSound lines₀ W) {removed : Option String}
    {p : Place} {rest : List Place} (hi : W.tasks[i]? = some (.waiting removed))
    (hqueue : W.shared.queue = p :: rest) (hp : p.task = i) :
    InboxSound lines₀ ⟨W.shared, W.tasks.set i
      (.writing removed (W.shared.readState.change p.id p.change))⟩ where
  issued := by
    rw [map_set_of_eq InboxTask.issued hi]
    · exact h.issued
    · rfl
  rewriting := by
    rw [map_set_of_eq InboxTask.rewrite hi, map_set_of_eq InboxTask.removed hi]
    · exact h.rewriting
    · rfl
    · rfl
  queued := by
    have hqueued := h.queued
    rw [hqueue] at hqueued
    rw [List.map_set, hqueue]
    exact hqueued.startWrite hp (map_getElem? InboxTask.stand hi)
  marks := h.marks.mono fun _ hid ↦ safe_of_ne (fun _ h ↦ h) hi nofun hid

theorem InboxSound.leave (h : InboxSound lines₀ W) {p : Place} {rest : List Place}
    {readState : ReadState} {removed : Option String} (hi : W.tasks[i]? = some task)
    (hissued : task.issued = none) (hrewrite : task.rewrite = none)
    (hremoved : task.removed = removed)
    (hrenamed : ∀ id, task ≠ .deleteRenamed id)
    (hqueue : W.shared.queue = p :: rest) (hp : p.task = i)
    (hread : ∀ id, readState.has id = true →
      (p.change ≠ .unset ∧ id = p.id) ∨ (W.shared.readState.has id = true ∧ id ≠ p.id)) :
    InboxSound lines₀ ⟨{ W.shared with readState := readState, queue := rest },
        W.tasks.set i (.returned true removed)⟩ where
  issued := by
    rw [map_set_of_eq InboxTask.issued hi]
    · exact h.issued
    · exact hissued.symm
  rewriting := by
    rw [map_set_of_eq InboxTask.rewrite hi, map_set_of_eq InboxTask.removed hi]
    · exact h.rewriting.congr rfl rfl rfl
    · exact hremoved.symm
    · exact hrewrite.symm
  queued := by
    have hqueued := h.queued
    rw [hqueue] at hqueued
    rw [List.map_set]
    exact hqueued.leave readState hp nofun
  marks := by
    have hmarks := h.marks
    rw [hqueue] at hmarks
    exact (hmarks.leave hread).mono fun _ hid ↦ safe_of_ne (fun _ h ↦ h) hi hrenamed hid

theorem inboxStart_shared (s : InboxStore) (i : Nat) (c : InboxCall) :
    (inboxStart s i c).1 = s := by
  cases c with
  | append input id ts =>
    rw [inboxStart]
    cases validateInput input <;> rfl
  | delete | markRead | markUnread => rfl

theorem Issued.start {s : InboxStore} {log : List InboxEntry} {ids₀ : List String}
    {tasks : List InboxTask} (h : Issued ids₀ (tasks.map InboxTask.issued) log) (i : Nat)
    (c : InboxCall)
    (hfresh : ∀ input id ts, c = .append input id ts → id ∉ ids₀ ∧
      ∀ task ∈ tasks, ∀ entry landed, task.issued = some (entry, landed) → entry.id ≠ id) :
    Issued ids₀ ((tasks ++ [(inboxStart s i c).2]).map InboxTask.issued) log := by
  rw [List.map_append, List.map_singleton]
  cases c with
  | append input id ts =>
    rw [inboxStart]
    cases validateInput input with
    | error error => exact h.other
    | ok _ =>
      obtain ⟨hnew, hother⟩ := hfresh input id ts rfl
      refine h.append hnew fun entry' landed hmem ↦ ?_
      obtain ⟨task, htask, hissued⟩ := List.mem_map.mp hmem
      exact hother task htask entry' landed hissued
  | delete | markRead | markUnread => exact h.other

theorem InboxSound.start (h : InboxSound lines₀ W) (c : InboxCall)
    (hfresh : freshStep lines₀ W (.call c)) :
    InboxSound lines₀ ⟨(inboxStart W.shared W.tasks.length c).1,
      W.tasks ++ [(inboxStart W.shared W.tasks.length c).2]⟩ := by
  have hissued := h.issued.start (s := W.shared) W.tasks.length c fun input id ts hc ↦ by
    rw [hc] at hfresh
    exact hfresh
  rw [inboxStart_shared]
  set new := (inboxStart W.shared W.tasks.length c).2 with hnew
  have hquiet : new.rewrite = none ∧ new.removed = none ∧ new.stand = none := by
    cases c with
    | append input id ts =>
      rw [hnew, inboxStart]
      cases validateInput input <;> exact ⟨rfl, rfl, rfl⟩
    | delete | markRead | markUnread => exact ⟨rfl, rfl, rfl⟩
  refine ⟨hissued, ?_, ?_, ?_⟩
  · rw [List.map_append, List.map_append, List.map_singleton, List.map_singleton, hquiet.1,
      hquiet.2.1]
    exact h.rewriting.other
  · rw [List.map_append, List.map_singleton, hquiet.2.2]
    exact h.queued.other
  · exact h.marks.mono fun id hid ↦ hid.imp_right (List.mem_append_left _)

theorem InboxSound.step (h : InboxSound lines₀ W) {e : Event InboxCall Unit}
    (hok : orderlyStep lines₀ W e) (hstep : inboxProg.step W e = some W') :
    InboxSound lines₀ W' := by
  obtain ⟨hfresh, hlone, hpresent⟩ := hok
  cases e with
  | call c =>
    cases Prog.step_call hstep
    exact h.start c hfresh
  | resume i u =>
    obtain ⟨task, s', task', hi, hresume, rfl⟩ := Prog.step_resume hstep
    cases task with
    | rejected | appended | returned => cases hresume
    | appendDir entry =>
      cases hresume
      exact h.quiet hi rfl rfl rfl rfl rfl
    | appendFile entry =>
      cases hresume
      exact h.land hi (hlone.1 entry hi)
    | deleteRead id =>
      cases hresume
      split_ifs with hfound
      · rw [any_isEntry] at hfound
        exact h.read hi hfound (hlone.2 id hi hfound)
      · exact h.quiet hi rfl rfl rfl rfl rfl
    | deleteWrite id kept =>
      cases hresume
      exact h.write hi
    | deleteRename id =>
      have htmp := h.rewriting.tmp id (List.mem_of_getElem? (map_getElem? InboxTask.rewrite hi))
      simp only [inboxProg, inboxResume, htmp] at hresume
      cases hresume
      exact h.rename hi
    | deleteRenamed id =>
      cases hresume
      exact h.cleanUp hi
    | markExists id change =>
      cases hresume
      split_ifs
      · exact h.quiet hi rfl rfl rfl rfl rfl
      · exact h.quiet hi rfl rfl rfl rfl rfl
    | markFound id change =>
      cases hresume
      refine h.mark hi fun hset ↦ ?_
      cases change with
      | set readAt => exact hpresent id readAt hi
      | unset => exact (hset rfl).elim
    | waiting removed =>
      simp only [inboxProg, inboxResume] at hresume
      cases hqueue : W.shared.queue with
      | nil =>
        rw [hqueue] at hresume
        cases hresume
      | cons p rest =>
        simp only [hqueue] at hresume
        split_ifs at hresume with hp hskip
        · cases hresume
          refine h.leave hi rfl rfl rfl nofun hqueue (not_not.mp hp) fun id hid ↦ .inr ⟨hid, ?_⟩
          rintro rfl
          rw [Bool.not_eq_true'] at hskip
          exact nomatch hskip.2.symm.trans hid
        · cases hresume
          exact h.startWrite hi hqueue (not_not.mp hp)
    | writing removed state =>
      cases hresume
      obtain ⟨p, rest, hqueue, hp, rfl⟩ :=
        h.queued.writing i state (map_getElem? InboxTask.stand hi)
      rw [hqueue]
      exact h.leave hi rfl rfl rfl nofun hqueue hp fun id hid ↦ has_change hid

end Steps

/-! ## Every run -/

structure AtRest (s : InboxStore) : Prop where
  ids : (idsOf s.entries).Nodup
  readState : ∀ id, s.readState.has id = true → id ∈ idsOf s.entries
  queue : s.queue = []
  log : s.log = []

theorem AtRest.sound {s : InboxStore} (h : AtRest s) : InboxSound s.entries ⟨s, []⟩ where
  issued := by
    refine ⟨nofun, nofun, fun entry ↦ ?_, ?_⟩
    · rw [h.log]
      exact ⟨nofun, fun ⟨i, hi⟩ ↦ nomatch hi⟩
    · rw [h.log]
      exact List.Pairwise.nil
  rewriting := by
    refine ⟨?_, nofun, nofun, nofun, nofun, nofun⟩
    simp only [h.log, List.map_nil, List.append_nil]
    refine (List.filter_eq_self.mpr fun line _ ↦ ?_).symm
    cases line <;> rfl
  queued := by
    rw [h.queue]
    exact ⟨List.Pairwise.nil, nofun, nofun⟩
  marks := by
    rw [h.queue]
    exact ⟨trivial, fun id hid ↦ .inl (.inl (h.readState id hid))⟩

/-- **The inbox loses nothing and resurrects nothing**: when the calls of a run that is in order
are all over, the files hold what they should. -/
theorem inbox_kept {s : InboxStore} {W : World InboxStore InboxTask} (h₀ : AtRest s)
    (h : Reach inboxProg.step (orderlyStep s.entries) ⟨s, []⟩ W) (hsettled : Settled W) :
    InboxKept s.entries W := by
  have hsound : InboxSound s.entries W :=
    h.invariant h₀.sound fun _ _ _ hI hok hstep ↦ hI.step hok hstep
  have hremoved : W.tasks.map InboxTask.removed = deletedIds W.tasks := by
    refine List.map_congr_left fun task htask ↦ ?_
    have hfinished := hsettled task htask
    cases task with
    | returned result removed => cases result <;> rfl
    | rejected | appended => rfl
    | _ => cases hfinished
  refine ⟨hremoved ▸ hsound.rewriting.entries, ?_, ?_, ?_⟩
  · rw [hsound.rewriting.entries]
    refine List.Nodup.sublist (idsOf_filter_sublist _ _) ?_
    rw [idsOf_append, idsOf_entries, List.nodup_append]
    refine ⟨h₀.ids, hsound.issued.nodup, fun a ha b hb heq ↦ ?_⟩
    obtain ⟨entry, hentry, rfl⟩ := List.mem_map.mp hb
    obtain ⟨i, hi⟩ := (hsound.issued.landed entry).mp hentry
    exact hsound.issued.fresh i entry true hi (heq ▸ ha)
  · intro entry
    rw [hsound.issued.landed]
    constructor
    · rintro ⟨i, hi⟩
      rw [List.getElem?_map, Option.map_eq_some_iff] at hi
      obtain ⟨task, hi, hissued⟩ := hi
      have hfinished := hsettled task (List.mem_of_getElem? hi)
      cases task with
      | appended entry' =>
        cases hissued
        exact List.mem_of_getElem? hi
      | rejected | returned => cases hissued
      | _ => cases hfinished
    · intro hmem
      obtain ⟨i, hi⟩ := List.mem_iff_getElem?.mp hmem
      exact ⟨i, map_getElem? InboxTask.issued hi⟩
  · intro id hid
    rcases hsound.marks.reads id hid with (hmem | hmem) | ⟨p, hp, -⟩
    · exact hmem
    · exact nomatch hsettled _ hmem
    · have hover : ∀ stand, (W.tasks.map InboxTask.stand)[p.task]? ≠ some (some stand) := by
        intro stand hi
        rw [List.getElem?_map, Option.map_eq_some_iff] at hi
        obtain ⟨task, hi, hstand⟩ := hi
        have hfinished := hsettled task (List.mem_of_getElem? hi)
        cases task with
        | rejected | appended | returned => cases hstand
        | _ => cases hfinished
      rcases hsound.queued.placed p hp with hi | ⟨state, hi⟩
      · exact (hover _ hi).elim
      · exact (hover _ hi).elim

/-! ## Runs to evaluate -/

def sampleEntry (id : String) : InboxEntry := { workspaceId := "w1", comments := "report", id, ts := 0 }

def sampleInbox : InboxStore where
  entries := [.entry (sampleEntry "a")]

theorem sampleInbox_atRest : AtRest sampleInbox where
  ids := List.pairwise_singleton _ _
  readState := nofun
  queue := rfl
  log := rfl

theorem orderlyStep_of_quiet {lines₀ : List InboxLine} {W : World InboxStore InboxTask} {i : Nat}
    {task : InboxTask} (hi : W.tasks[i]? = some task) (happend : ∀ entry, task ≠ .appendFile entry)
    (hread : ∀ id, task ≠ .deleteRead id)
    (hmark : ∀ id readAt, task ≠ .markFound id (.set readAt)) :
    orderlyStep lines₀ W (.resume i ()) := by
  refine ⟨trivial, ⟨fun entry h ↦ ?_, fun id h ↦ ?_⟩, fun id readAt h ↦ ?_⟩
  · exact (happend entry (Option.some.inj (hi.symm.trans h))).elim
  · exact (hread id (Option.some.inj (hi.symm.trans h))).elim
  · exact (hmark id readAt (Option.some.inj (hi.symm.trans h))).elim

def deleteAlone : List (Event InboxCall Unit) :=
  [.call (.delete "a"), .resume 0 (), .resume 0 (), .resume 0 (), .resume 0 (), .resume 0 ()]

theorem inbox_kept_deleteAlone : ∃ W : World InboxStore InboxTask,
    W.shared.entries = [] ∧ InboxKept sampleInbox.entries W := by
  refine ⟨after inboxProg.step ⟨sampleInbox, []⟩ deleteAlone, by decide +kernel,
    inbox_kept sampleInbox_atRest (.of_after deleteAlone (by decide +kernel) fun n e he ↦ ?_)
      (by unfold Settled; decide +kernel)⟩
  match n, he with
  | 0, he =>
    cases he
    exact ⟨trivial, trivial, trivial⟩
  | 1, he =>
    cases he
    have hnone : NoRewrite (after inboxProg.step ⟨sampleInbox, []⟩ (deleteAlone.take 1)) := by
      unfold NoRewrite
      decide +kernel
    exact ⟨trivial, ⟨fun _ _ ↦ hnone, fun _ _ _ ↦ hnone⟩, nofun⟩
  | 2, he | 3, he | 4, he | 5, he =>
    cases he
    exact orderlyStep_of_quiet rfl nofun nofun nofun

def appendBeside : List (Event InboxCall Unit) :=
  [.call (.delete "a"), .call (.append { workspaceId := "w1", comments := "report" } "b" 0),
    .resume 1 (), .resume 0 (), .resume 1 (), .resume 0 (), .resume 0 (), .resume 0 (), .resume 0 ()]

/-- **An entry is lost** at the end of `appendBeside`. -/
theorem appendBeside_loses : ¬ ∀ (s : InboxStore) (W : World InboxStore InboxTask), AtRest s →
    Reach inboxProg.step (freshStep s.entries) ⟨s, []⟩ W → Settled W → InboxKept s.entries W := by
  intro h
  have hkept := h sampleInbox (after inboxProg.step ⟨sampleInbox, []⟩ appendBeside) sampleInbox_atRest
    (.of_after appendBeside (by decide +kernel) ?_) (by unfold Settled; decide +kernel)
  · have hentries := hkept.entries
    revert hentries
    decide +kernel
  intro n e he
  match n, he with
  | 1, he =>
    cases he
    refine ⟨by decide, fun task htask entry landed hissued ↦ ?_⟩
    have htasks : (after inboxProg.step ⟨sampleInbox, []⟩ (appendBeside.take 1)).tasks =
        [.deleteRead "a"] := by decide +kernel
    rw [htasks] at htask
    obtain rfl := List.mem_singleton.mp htask
    cases hissued
  | 0, he | 2, he | 3, he | 4, he | 5, he | 6, he | 7, he | 8, he =>
    cases he
    trivial

end OpenAlice.Core
