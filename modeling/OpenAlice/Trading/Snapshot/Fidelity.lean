import Mathlib.Data.List.Induction
import Mathlib.Data.List.Nodup
import Mathlib.Data.List.Pairwise
import OpenAlice.Trading.Snapshot.Store

/-!
# What the snapshot store gives back

A chunk is named after the number of entries of the index, and a chunk that a deletion
empties is taken out of the index, so that the name of a new chunk may be the name of
one that is still there.  And a deletion stops at the first chunk that has the time.
`writeStep` is the condition that neither happens; the store gives back what it should
throughout a sequence of calls exactly when every call meets it.
-/

namespace OpenAlice.Trading.Snapshot

variable {τ β : Type}

def linesOf (D : Dir τ β) (chunks : List (SnapshotChunk τ)) : List (UTASnapshot τ β) :=
  chunks.flatMap fun c ↦ (D.files c.file).getD []

def contents (D : Dir τ β) : List (UTASnapshot τ β) := linesOf D D.readIndex

def chunkFiles (D : Dir τ β) : List String := D.readIndex.map SnapshotChunk.file

/-- An `append` opens a chunk. -/
def opensChunk (D : Dir τ β) : Bool := D.readIndex.getLast?.all fun last ↦ CHUNK_SIZE ≤ last.count

def Holds (D : Dir τ β) (timestamp : τ) (c : SnapshotChunk τ) : Prop :=
  ∃ lines, D.files c.file = some lines ∧ ∃ snap ∈ lines, snap.timestamp = timestamp

/-- The name of a new chunk is not taken, and the snapshots of a time that is deleted
are all in one chunk. -/
def writeStep (D : Dir τ β) : WriteCall τ β → Prop
  | .append _ => opensChunk D = true → chunkName (D.readIndex.length + 1) ∉ chunkFiles D
  | .deleteByTimestamp timestamp => ∀ c ∈ D.readIndex, ∀ c' ∈ D.readIndex,
      Holds D timestamp c → Holds D timestamp c' → c = c'

/-! ## The directory -/

namespace Dir

variable (D : Dir τ β) (chunks : List (SnapshotChunk τ)) (file : String)

@[simp] theorem readIndex_saveIndex : (D.saveIndex chunks).readIndex = chunks := rfl

@[simp] theorem files_saveIndex : (D.saveIndex chunks).files = D.files := rfl

@[simp] theorem readIndex_writeFile (lines : List (UTASnapshot τ β)) :
    (D.writeFile file lines).readIndex = D.readIndex := rfl

@[simp] theorem files_writeFile (lines : List (UTASnapshot τ β)) :
    (D.writeFile file lines).files = Function.update D.files file (some lines) := rfl

@[simp] theorem files_unlink : (D.unlink file).files = Function.update D.files file none := rfl

@[simp] theorem files_appendFile (snapshot : UTASnapshot τ β) : (D.appendFile file snapshot).files =
      Function.update D.files file (some ((D.files file).getD [] ++ [snapshot])) := rfl

end Dir

variable {D : Dir τ β}

theorem linesOf_update {D' : Dir τ β} {chunks : List (SnapshotChunk τ)} {file : String}
    {lines : Option (List (UTASnapshot τ β))} (hD' : D'.files = Function.update D.files file lines)
    (h : file ∉ chunks.map SnapshotChunk.file) : linesOf D' chunks = linesOf D chunks := by
  apply List.flatMap_congr
  intro c hc
  have hne : c.file ≠ file := by
    rintro rfl
    exact h (List.mem_map_of_mem hc)
  rw [hD', Function.update_of_ne hne]

theorem linesOf_append (chunks chunks' : List (SnapshotChunk τ)) :
    linesOf D (chunks ++ chunks') = linesOf D chunks ++ linesOf D chunks' := List.flatMap_append

theorem linesOf_cons {c : SnapshotChunk τ} {lines : List (UTASnapshot τ β)}
    (h : D.files c.file = some lines) (chunks : List (SnapshotChunk τ)) :
    linesOf D (c :: chunks) = lines ++ linesOf D chunks := by
  rw [linesOf, List.flatMap_cons, h]
  rfl

theorem linesOf_singleton {c : SnapshotChunk τ} {lines : List (UTASnapshot τ β)}
    (h : D.files c.file = some lines) : linesOf D [c] = lines := by
  rw [linesOf_cons h]
  exact List.append_nil lines

variable [LinearOrder τ]

structure Covers (c : SnapshotChunk τ) (lines : List (UTASnapshot τ β)) : Prop where
  nonempty : lines ≠ []
  count : lines.length = c.count
  bounds : ∀ snap ∈ lines, c.startTime ≤ snap.timestamp ∧ snap.timestamp ≤ c.endTime

/-- The index is right about the chunk files. -/
structure Sound (D : Dir τ β) : Prop where
  distinct : (chunkFiles D).Nodup
  covered : ∀ c ∈ D.readIndex, ∃ lines, D.files c.file = some lines ∧ Covers c lines
  listed : ∀ file lines, D.files file = some lines → file ∈ chunkFiles D
  sorted : (contents D).Pairwise (·.timestamp ≤ ·.timestamp)

theorem sound_empty : Sound (Dir.empty : Dir τ β) where
  distinct := List.nodup_nil
  covered _ hc := nomatch hc
  listed _ _ h := nomatch h
  sorted := List.Pairwise.nil

/-! ## Reading -/

theorem readLines_all (results lines : List (UTASnapshot τ β)) :
    readLines {} results lines = (results ++ lines, false) := by
  induction lines generalizing results with
  | nil => rw [readLines, List.append_nil]
  | cons snap lines ih =>
    simp only [readLines, Option.any_none, Bool.or_self, if_false, Bool.false_eq_true]
    rw [ih, List.append_assoc]
    rfl

theorem readChunks_all {chunks : List (SnapshotChunk τ)}
    (h : ∀ c ∈ chunks, ∃ lines, D.files c.file = some lines) (results : List (UTASnapshot τ β)) :
    readChunks D {} results chunks =
      some (results ++ chunks.flatMap fun c ↦ ((D.files c.file).getD []).reverse) := by
  induction chunks generalizing results with
  | nil => rw [readChunks, List.flatMap_nil, List.append_nil]
  | cons c chunks ih =>
    obtain ⟨lines, hlines⟩ := h c List.mem_cons_self
    simp only [readChunks, Option.any_none, Bool.or_self, if_false, Bool.false_eq_true, hlines,
      readLines_all]
    rw [ih (fun c' hc' ↦ h c' (List.mem_cons_of_mem c hc')), List.flatMap_cons, hlines,
      List.append_assoc]
    rfl

/-- **`readRange` with no options** reads what is in the chunks, newest first. -/
theorem Sound.reads (h : Sound D) : readRange D {} = some (contents D).reverse := by
  have hthere : ∀ c ∈ D.readIndex.reverse, ∃ lines, D.files c.file = some lines := by
    intro c hc
    obtain ⟨lines, hlines, _⟩ := h.covered c (List.mem_reverse.mp hc)
    exact ⟨lines, hlines⟩
  rw [readRange, readChunks_all hthere, contents, linesOf, List.reverse_flatMap, List.nil_append]
  rfl

/-! ## Changing one chunk -/

/-- **One chunk is changed**, added or taken out: an entry in the place of another, and
the lines of its file. -/
theorem Sound.replace (h : Sound D) {D' : Dir τ β} {before later : List (SnapshotChunk τ)}
    {old new : Option (SnapshotChunk τ)} {file : String} {lines : Option (List (UTASnapshot τ β))}
    (hindex : D.readIndex = before ++ (old.toList ++ later))
    (hindex' : D'.readIndex = before ++ (new.toList ++ later))
    (hfiles : D'.files = Function.update D.files file lines) (hold : ∀ c ∈ old, c.file = file)
    (hnew : ∀ c ∈ new, c.file = file ∧ ∃ lines', lines = some lines' ∧ Covers c lines')
    (hnone : new = none → lines = none)
    (hbefore : file ∉ before.map SnapshotChunk.file) (hlater : file ∉ later.map SnapshotChunk.file)
    (hsorted : (linesOf D before ++ (lines.getD [] ++ linesOf D later)).Pairwise
      (·.timestamp ≤ ·.timestamp)) :
    Sound D' ∧ contents D' = linesOf D before ++ (lines.getD [] ++ linesOf D later) := by
  have hmiddle : linesOf D' new.toList = lines.getD [] := by
    cases new with
    | none =>
      rw [hnone rfl]
      rfl
    | some c =>
      obtain ⟨hfile, lines', rfl, _⟩ := hnew c rfl
      refine linesOf_singleton ?_
      rw [hfiles, hfile, Function.update_self, Option.getD_some]
  have hcontents : contents D' = linesOf D before ++ (lines.getD [] ++ linesOf D later) := by
    rw [contents, hindex', linesOf_append, linesOf_append, hmiddle, linesOf_update hfiles hbefore,
      linesOf_update hfiles hlater]
  refine ⟨⟨?_, ?_, ?_, ?_⟩, hcontents⟩
  · have hrest : ((before ++ later).map SnapshotChunk.file).Nodup := by
      have hsub : (before ++ later).Sublist D.readIndex := by
        rw [hindex]
        exact (List.Sublist.refl _).append (List.sublist_append_right _ _)
      exact h.distinct.sublist (hsub.map _)
    rw [chunkFiles, hindex']
    cases new with
    | none => exact hrest
    | some c =>
      show ((before ++ c :: later).map SnapshotChunk.file).Nodup
      rw [List.map_append] at hrest
      rw [List.map_append, List.map_cons, List.nodup_middle, List.nodup_cons, List.mem_append,
        (hnew c rfl).1]
      exact ⟨not_or.mpr ⟨hbefore, hlater⟩, hrest⟩
  · have hstays : ∀ c ∈ D.readIndex, c.file ∉ [file] →
        ∃ lines, D'.files c.file = some lines ∧ Covers c lines := by
      intro c hc hne
      obtain ⟨lines', hlines', hcovers⟩ := h.covered c hc
      exact ⟨lines', by rw [hfiles, Function.update_of_ne (by simpa using hne), hlines'], hcovers⟩
    intro c hc
    rw [hindex', List.mem_append, List.mem_append] at hc
    rcases hc with hc | hc | hc
    · refine hstays c (hindex ▸ List.mem_append_left _ hc) ?_
      rintro hf
      exact hbefore (List.mem_singleton.mp hf ▸ List.mem_map_of_mem hc)
    · obtain ⟨hfile, lines', rfl, hcovers⟩ := hnew c (Option.mem_toList.mp hc)
      exact ⟨lines', by rw [hfiles, hfile, Function.update_self], hcovers⟩
    · refine hstays c (hindex ▸ List.mem_append_right _ (List.mem_append_right _ hc)) ?_
      rintro hf
      exact hlater (List.mem_singleton.mp hf ▸ List.mem_map_of_mem hc)
  · intro name lines' hlines'
    rw [chunkFiles, hindex', List.map_append, List.map_append, List.mem_append, List.mem_append]
    by_cases hname : name = file
    · subst hname
      cases new with
      | none =>
        rw [hfiles, hnone rfl, Function.update_self] at hlines'
        cases hlines'
      | some c => exact .inr (.inl (by simp [(hnew c rfl).1]))
    · rw [hfiles, Function.update_of_ne hname] at hlines'
      have hmem := h.listed name lines' hlines'
      rw [chunkFiles, hindex, List.map_append, List.map_append, List.mem_append, List.mem_append] at hmem
      rcases hmem with hm | hm | hm
      · exact .inl hm
      · obtain ⟨c, hc, rfl⟩ := List.mem_map.mp hm
        exact absurd (hold c (Option.mem_toList.mp hc)) hname
      · exact .inr (.inr hm)
  · rw [hcontents]
    exact hsorted

/-! ## Appending -/

variable {snapshot : UTASnapshot τ β}

theorem Sound.append_sorted (h : Sound D)
    (hlast : ∀ snap ∈ contents D, snap.timestamp ≤ snapshot.timestamp) :
    (contents D ++ [snapshot]).Pairwise (·.timestamp ≤ ·.timestamp) := by
  rw [List.pairwise_append]
  refine ⟨h.sorted, List.pairwise_singleton _ _, ?_⟩
  intro snap hsnap snapshot' hs
  rw [List.mem_singleton.mp hs]
  exact hlast snap hsnap

theorem Sound.opened (h : Sound D)
    (hlast : ∀ snap ∈ contents D, snap.timestamp ≤ snapshot.timestamp)
    (hname : chunkName (D.readIndex.length + 1) ∉ chunkFiles D) :
    Sound (openChunk D snapshot) ∧ contents (openChunk D snapshot) = contents D ++ [snapshot] := by
  have hnone : D.files (chunkName (D.readIndex.length + 1)) = none := by
    rw [Option.eq_none_iff_forall_ne_some]
    exact fun lines hlines ↦ hname (h.listed _ lines hlines)
  have hfiles : (openChunk D snapshot).files =
      Function.update D.files (chunkName (D.readIndex.length + 1)) (some [snapshot]) := by
    simp [openChunk, hnone]
  have hindex : D.readIndex = D.readIndex ++ ((none : Option (SnapshotChunk τ)).toList ++ []) := by simp
  have hindex' : (openChunk D snapshot).readIndex = D.readIndex ++
      ((some ⟨chunkName (D.readIndex.length + 1), 1, snapshot.timestamp, snapshot.timestamp⟩ :
        Option (SnapshotChunk τ)).toList ++ []) := rfl
  refine h.replace hindex hindex' hfiles (by simp) ?_ (by simp) hname (by simp) ?_
  · rintro c ⟨⟩
    exact ⟨rfl, [snapshot], rfl, by simp, rfl, by simp⟩
  · exact h.append_sorted hlast

theorem Sound.extend (h : Sound D) {chunks : List (SnapshotChunk τ)}
    {last : SnapshotChunk τ} (hindex : D.readIndex = chunks ++ [last])
    (hlast : ∀ snap ∈ contents D, snap.timestamp ≤ snapshot.timestamp) :
    let D' := (D.appendFile last.file snapshot).saveIndex
      (chunks ++ [{ last with count := last.count + 1, endTime := snapshot.timestamp }])
    Sound D' ∧ contents D' = contents D ++ [snapshot] := by
  intro D'
  obtain ⟨lines, hlines, hcovers⟩ := h.covered last (by simp [hindex])
  have hcontents : contents D = linesOf D chunks ++ lines := by
    rw [contents, hindex, linesOf_append, linesOf_singleton hlines]
  have hother : last.file ∉ chunks.map SnapshotChunk.file := by
    have hdistinct := h.distinct
    rw [chunkFiles, hindex, List.map_append, List.nodup_append] at hdistinct
    exact fun hmem ↦ hdistinct.2.2 _ hmem last.file (by simp) rfl
  have hfiles : D'.files = Function.update D.files last.file (some (lines ++ [snapshot])) := by
    simp [D', hlines]
  have hindex' : D'.readIndex = chunks ++
      ((some { last with count := last.count + 1, endTime := snapshot.timestamp } :
        Option (SnapshotChunk τ)).toList ++ []) := rfl
  have hindex₀ : D.readIndex = chunks ++ ((some last).toList ++ []) := hindex
  have hold : ∀ c ∈ some last, c.file = last.file := by
    rintro c ⟨⟩
    rfl
  rw [hcontents, List.append_assoc, ← List.append_nil (lines ++ [snapshot])]
  refine h.replace hindex₀ hindex' hfiles hold ?_ (by simp) hother (by simp) ?_
  · rintro c ⟨⟩
    have hbelow : ∀ snap ∈ lines, snap.timestamp ≤ snapshot.timestamp := by
      intro snap hsnap
      refine hlast snap ?_
      rw [hcontents]
      exact List.mem_append_right _ hsnap
    obtain ⟨first, hfirst⟩ := List.exists_mem_of_ne_nil lines hcovers.nonempty
    refine ⟨rfl, lines ++ [snapshot], rfl, by simp, by simp [hcovers.count], ?_⟩
    intro snap hsnap
    rcases List.mem_append.mp hsnap with hsnap | hsnap
    · exact ⟨(hcovers.bounds snap hsnap).1, hbelow snap hsnap⟩
    · rw [List.mem_singleton.mp hsnap]
      exact ⟨(hcovers.bounds first hfirst).1.trans (hbelow first hfirst), le_refl _⟩
  · have hsorted := h.append_sorted hlast
    rw [hcontents, List.append_assoc, ← List.append_nil (lines ++ [snapshot])] at hsorted
    exact hsorted

/-- **An `append`** that does not take a name twice. -/
theorem Sound.appended (h : Sound D)
    (hlast : ∀ snap ∈ contents D, snap.timestamp ≤ snapshot.timestamp)
    (hok : writeStep D (.append snapshot)) :
    Sound (doAppend D snapshot) ∧ contents (doAppend D snapshot) = contents D ++ [snapshot] := by
  unfold doAppend
  split
  · rename_i hnil
    exact h.opened hlast (hok (by simp [opensChunk, hnil]))
  rename_i last hsome
  split
  · rename_i hfull
    exact h.opened hlast (hok (by simp [opensChunk, hsome, hfull]))
  · exact h.extend (List.dropLast_append_getLast? last hsome).symm hlast

/-! ## Deleting -/

theorem Sound.rewrite (h : Sound D) {passed later : List (SnapshotChunk τ)} {c : SnapshotChunk τ}
    {lines kept : List (UTASnapshot τ β)} (hindex : D.readIndex = passed ++ c :: later)
    (hlines : D.files c.file = some lines) (hkept : kept.Sublist lines) :
    Sound (rewriteChunk D passed c later kept) ∧
      contents (rewriteChunk D passed c later kept) = linesOf D passed ++ (kept ++ linesOf D later) := by
  have hdistinct := h.distinct
  rw [chunkFiles, hindex, List.map_append, List.map_cons, List.nodup_append] at hdistinct
  obtain ⟨_, hrest, hapart⟩ := hdistinct
  have hpassed : c.file ∉ passed.map SnapshotChunk.file := fun hmem ↦
    hapart _ hmem c.file List.mem_cons_self rfl
  have hlater : c.file ∉ later.map SnapshotChunk.file := (List.nodup_cons.mp hrest).1
  have hindex₀ : D.readIndex = passed ++ ((some c).toList ++ later) := hindex
  have hold : ∀ c' ∈ some c, c'.file = c.file := by
    rintro c' ⟨⟩
    rfl
  have hlinesub : (kept ++ linesOf D later).Sublist (linesOf D (c :: later)) := by
    rw [linesOf_cons hlines]
    exact hkept.append (List.Sublist.refl _)
  have hsorted : (linesOf D passed ++ (kept ++ linesOf D later)).Pairwise
      (·.timestamp ≤ ·.timestamp) := by
    refine h.sorted.sublist ?_
    rw [contents, hindex, linesOf_append]
    exact (List.Sublist.refl _).append hlinesub
  cases kept with
  | nil =>
    have hindex' : (rewriteChunk D passed c later []).readIndex =
      passed ++ ((none : Option (SnapshotChunk τ)).toList ++ later) := rfl
    exact h.replace hindex₀ hindex' rfl hold (by simp) (by simp) hpassed hlater hsorted
  | cons first rest =>
    have hindex' : (rewriteChunk D passed c later (first :: rest)).readIndex =
      passed ++ ((some { c with
        count := (first :: rest).length
        startTime := first.timestamp
        endTime := ((first :: rest).getLast (List.cons_ne_nil first rest)).timestamp } :
          Option (SnapshotChunk τ)).toList ++ later) := rfl
    refine h.replace hindex₀ hindex' rfl hold ?_ (by simp) hpassed hlater hsorted
    rintro c' ⟨⟩
    have hkeptSorted : (first :: rest).Pairwise (·.timestamp ≤ ·.timestamp) :=
      hsorted.sublist ((List.sublist_append_left _ _).trans (List.sublist_append_right _ _))
    refine ⟨rfl, first :: rest, rfl, by simp, rfl, fun snap hsnap ↦ ⟨?_, ?_⟩⟩
    · rcases List.mem_cons.mp hsnap with rfl | hsnap
      · exact le_refl _
      · exact (List.pairwise_cons.mp hkeptSorted).1 snap hsnap
    · exact hkeptSorted.rel_getLast_of_rel_getLast_getLast hsnap (le_refl _)

theorem linesOf_filter {chunks : List (SnapshotChunk τ)} {timestamp : τ}
    (h : ∀ c ∈ chunks, ¬ Holds D timestamp c) :
    ((linesOf D chunks).filter fun snap ↦ snap.timestamp ≠ timestamp) = linesOf D chunks := by
  rw [List.filter_eq_self]
  intro snap hsnap
  obtain ⟨c, hc, hmem⟩ := List.mem_flatMap.mp hsnap
  rw [decide_eq_true_eq]
  intro he
  cases hlines : D.files c.file with
  | none =>
    rw [hlines] at hmem
    cases hmem
  | some lines =>
    rw [hlines] at hmem
    exact h c hc ⟨lines, hlines, snap, hmem, he⟩

/-- **The loop of `doDelete`** finds no chunk that has the time, or rewrites the first
one. -/
theorem deleteFrom_spec {timestamp : τ} {later : List (SnapshotChunk τ)}
    (h : ∀ c ∈ later, ∃ lines, D.files c.file = some lines ∧ Covers c lines)
    (passed : List (SnapshotChunk τ)) :
    (∀ c ∈ later, ¬ Holds D timestamp c) ∧ deleteFrom D timestamp passed later = some (D, false) ∨
      ∃ before c rest lines, later = before ++ c :: rest ∧ (∀ c' ∈ before, ¬ Holds D timestamp c') ∧
        D.files c.file = some lines ∧ Holds D timestamp c ∧
          deleteFrom D timestamp passed later = some (rewriteChunk D (passed ++ before) c rest
            (lines.filter fun snap ↦ snap.timestamp ≠ timestamp), true) := by
  induction later generalizing passed with
  | nil => exact .inl ⟨by simp, rfl⟩
  | cons c later ih =>
    obtain ⟨lines, hlines, hcovers⟩ := h c List.mem_cons_self
    by_cases hholds : Holds D timestamp c
    · right
      refine ⟨[], c, later, lines, rfl, by simp, hlines, hholds, ?_⟩
      obtain ⟨lines', hlines', snap, hsnap, hat⟩ := hholds
      cases hlines.symm.trans hlines'
      have hbounds := hcovers.bounds snap hsnap
      rw [hat] at hbounds
      have hinside : ¬ (timestamp < c.startTime ∨ c.endTime < timestamp) :=
        not_or.mpr ⟨not_lt.mpr hbounds.1, not_lt.mpr hbounds.2⟩
      have hfewer : (lines.filter fun snap ↦ snap.timestamp ≠ timestamp).length ≠ lines.length := by
        intro heq
        rw [List.length_filter_eq_length_iff] at heq
        simpa [hat] using heq snap hsnap
      rw [deleteFrom, if_neg hinside]
      simp only [hlines, if_neg hfewer, List.append_nil]
    · have hgoes : deleteFrom D timestamp passed (c :: later) =
          deleteFrom D timestamp (passed ++ [c]) later := by
        rw [deleteFrom]
        split
        · rfl
        have hall : (lines.filter fun snap ↦ snap.timestamp ≠ timestamp).length = lines.length := by
          rw [List.length_filter_eq_length_iff]
          intro snap hsnap
          rw [decide_eq_true_eq]
          exact fun hat ↦ hholds ⟨lines, hlines, snap, hsnap, hat⟩
        simp only [hlines, if_pos hall]
      rw [hgoes]
      rcases ih (fun c' hc' ↦ h c' (List.mem_cons_of_mem c hc')) (passed ++ [c]) with
        ⟨hnone, hd⟩ | ⟨before, c', rest, lines', rfl, hbefore, hlines', hholds', hd⟩
      · left
        exact ⟨List.forall_mem_cons.mpr ⟨hholds, hnone⟩, hd⟩
      right
      refine ⟨c :: before, c', rest, lines', rfl, List.forall_mem_cons.mpr ⟨hholds, hbefore⟩, hlines',
        hholds', ?_⟩
      rw [hd, List.append_assoc]
      rfl

theorem Sound.deletes (h : Sound D) (timestamp : τ) :
    (∀ c ∈ D.readIndex, ¬ Holds D timestamp c) ∧ write D (.deleteByTimestamp timestamp) = D ∨
      ∃ before c rest lines, D.readIndex = before ++ c :: rest ∧
        (∀ c' ∈ before, ¬ Holds D timestamp c') ∧ D.files c.file = some lines ∧ Holds D timestamp c ∧
          write D (.deleteByTimestamp timestamp) = rewriteChunk D before c rest
            (lines.filter fun snap ↦ snap.timestamp ≠ timestamp) := by
  rcases deleteFrom_spec h.covered [] with ⟨hnone, hd⟩ | ⟨before, c, rest, lines, hi, hb, hl, hc, hd⟩
  · exact .inl ⟨hnone, by rw [write, doDelete, hd]; rfl⟩
  · exact .inr ⟨before, c, rest, lines, hi, hb, hl, hc, by rw [write, doDelete, hd]; rfl⟩

/-- **A `deleteByTimestamp`** of a time that is in one chunk. -/
theorem Sound.deleted (h : Sound D) {timestamp : τ}
    (hok : writeStep D (.deleteByTimestamp timestamp)) :
    Sound (write D (.deleteByTimestamp timestamp)) ∧
      contents (write D (.deleteByTimestamp timestamp)) =
        (contents D).filter fun snap ↦ snap.timestamp ≠ timestamp := by
  rcases h.deletes timestamp with ⟨hnone, hD'⟩ | ⟨before, c, rest, lines, hi, hb, hl, hc, hD'⟩
  · rw [hD', contents, linesOf_filter hnone]
    exact ⟨h, rfl⟩
  obtain ⟨hsound, hcontents⟩ := h.rewrite hi hl List.filter_sublist
  have hrest : ∀ c' ∈ rest, ¬ Holds D timestamp c' := by
    intro c' hc' hholds
    have hsame := hok c (by simp [hi]) c' (by simp [hi, hc']) hc hholds
    have hdistinct := h.distinct
    rw [chunkFiles, hi, List.map_append, List.map_cons, List.nodup_append] at hdistinct
    exact (List.nodup_cons.mp hdistinct.2.1).1 (hsame ▸ List.mem_map_of_mem hc')
  rw [hD']
  refine ⟨hsound, ?_⟩
  rw [hcontents, contents, hi, linesOf_append, linesOf_cons hl, List.filter_append, List.filter_append,
    linesOf_filter hb, linesOf_filter hrest]

/-! ## Every call -/

structure Faithful (D : Dir τ β) (snapshots : List (UTASnapshot τ β)) : Prop where
  reads : readRange D {} = some snapshots.reverse
  distinct : (chunkFiles D).Nodup
  counted : ∀ c ∈ D.readIndex, ∃ lines, D.files c.file = some lines ∧ lines.length = c.count

theorem Sound.faithful (h : Sound D) : Faithful D (contents D) where
  reads := h.reads
  distinct := h.distinct
  counted c hc := by
    obtain ⟨lines, hlines, hcovers⟩ := h.covered c hc
    exact ⟨lines, hlines, hcovers.count⟩

/-- A time an `append` comes at is not before those of the snapshots there. -/
def InOrder (D : Dir τ β) : WriteCall τ β → Prop
  | .append snapshot => ∀ snap ∈ contents D, snap.timestamp ≤ snapshot.timestamp
  | .deleteByTimestamp _ => True

theorem Sound.write (h : Sound D) {call : WriteCall τ β} (hlast : InOrder D call)
    (hok : writeStep D call) :
    Sound (write D call) ∧ contents (write D call) = logged (contents D) call := by
  cases call with
  | append snapshot => exact h.appended hlast hok
  | deleteByTimestamp timestamp => exact h.deleted hok

theorem Sound.not_faithful (h : Sound D) {call : WriteCall τ β} (hok : ¬ writeStep D call) :
    ¬ Faithful (Snapshot.write D call) (logged (contents D) call) := by
  intro hfaithful
  apply hok
  cases call with
  | append snapshot =>
    intro hopens hname
    have hopened : Snapshot.write D (.append snapshot) = openChunk D snapshot := by
      show doAppend D snapshot = openChunk D snapshot
      unfold doAppend
      split
      · rfl
      rename_i last hsome
      rw [opensChunk, hsome, Option.all_some, decide_eq_true_eq] at hopens
      exact if_pos hopens
    have hdistinct := hfaithful.distinct
    rw [hopened, chunkFiles, openChunk, Dir.readIndex_saveIndex, List.map_append, List.nodup_append]
      at hdistinct
    exact hdistinct.2.2 _ hname _ (List.mem_singleton_self _) rfl
  | deleteByTimestamp timestamp =>
    intro c₁ hc₁ c₂ hc₂ hholds₁ hholds₂
    rcases h.deletes timestamp with ⟨hnone, _⟩ | ⟨before, c, rest, lines, hi, hb, hl, _, hD'⟩
    · exact absurd hholds₁ (hnone c₁ hc₁)
    obtain ⟨hsound, hcontents⟩ := h.rewrite hi hl List.filter_sublist
    -- what is read back has no snapshot of the time, so no chunk behind the first has one
    have hread := hfaithful.reads
    rw [hD', hsound.reads, Option.some.injEq, List.reverse_inj, hcontents] at hread
    have hfirst : ∀ c' ∈ D.readIndex, Holds D timestamp c' → c' = c := by
      intro c' hc' hholds
      rw [hi, List.mem_append, List.mem_cons] at hc'
      rcases hc' with hc' | rfl | hc'
      · exact absurd hholds (hb c' hc')
      · rfl
      · obtain ⟨lines', hlines', snap, hsnap, hat⟩ := hholds
        have hmem : snap ∈ linesOf D rest := by
          refine List.mem_flatMap.mpr ⟨c', hc', ?_⟩
          rw [hlines']
          exact hsnap
        have hkept : snap ∈ logged (contents D) (.deleteByTimestamp timestamp) := by
          rw [← hread]
          exact List.mem_append_right _ (List.mem_append_right _ hmem)
        exact absurd hat (by simpa using (List.mem_filter.mp hkept).2)
    rw [hfirst c₁ hc₁ hholds₁, hfirst c₂ hc₂ hholds₂]

def appended (calls : List (WriteCall τ β)) : List τ :=
  calls.filterMap fun
    | .append snapshot => some snapshot.timestamp
    | .deleteByTimestamp _ => none

variable {calls : List (WriteCall τ β)}

theorem written_concat (call : WriteCall τ β) :
    written (calls ++ [call]) = Snapshot.write (written calls) call := List.foldl_concat ..

theorem live_concat (call : WriteCall τ β) : live (calls ++ [call]) = logged (live calls) call :=
  List.foldl_concat ..

omit [LinearOrder τ] in
theorem appended_append (calls' : List (WriteCall τ β)) :
    appended (calls ++ calls') = appended calls ++ appended calls' := List.filterMap_append

theorem appended_of_live {snap : UTASnapshot τ β} (h : snap ∈ live calls) :
    snap.timestamp ∈ appended calls := by
  induction calls using List.reverseRecOn with
  | nil => cases h
  | append_singleton calls call ih =>
    rw [live_concat] at h
    rw [appended_append, List.mem_append]
    cases call with
    | append snapshot =>
      rcases List.mem_append.mp h with h | h
      · exact .inl (ih h)
      · rw [List.mem_singleton.mp h]
        exact .inr List.mem_cons_self
    | deleteByTimestamp timestamp => exact .inl (ih (List.mem_filter.mp h).1)

theorem sound_written (hsorted : (appended calls).Pairwise (· ≤ ·))
    (hok : ∀ before call after, calls = before ++ call :: after → writeStep (written before) call) :
    Sound (written calls) ∧ contents (written calls) = live calls := by
  induction calls using List.reverseRecOn with
  | nil => exact ⟨sound_empty, rfl⟩
  | append_singleton calls call ih =>
    rw [appended_append, List.pairwise_append] at hsorted
    obtain ⟨hsound, hcontents⟩ := ih hsorted.1 fun before call' after he ↦
      hok before call' (after ++ [call]) (by rw [he, List.append_assoc]; rfl)
    have hlast : InOrder (written calls) call := by
      cases call with
      | append snapshot =>
        intro snap hsnap
        rw [hcontents] at hsnap
        exact hsorted.2.2 _ (appended_of_live hsnap) _ List.mem_cons_self
      | deleteByTimestamp timestamp => trivial
    obtain ⟨hsound', hcontents'⟩ := hsound.write hlast (hok calls call [] rfl)
    rw [written_concat, live_concat]
    exact ⟨hsound', by rw [hcontents', hcontents]⟩

/-- **The snapshot store is faithful** throughout a sequence of calls, its snapshots
appended in the order of their times, exactly when no call opens a chunk under a name that
is taken and no call deletes a time that is in two chunks. -/
theorem store_faithful_iff (calls : List (WriteCall τ β))
    (hsorted : (appended calls).Pairwise (· ≤ ·)) :
    (∀ before, before <+: calls → Faithful (written before) (live before)) ↔
      ∀ before call after, calls = before ++ call :: after → writeStep (written before) call := by
  constructor
  · intro hfaithful
    induction calls using List.reverseRecOn with
    | nil =>
      intro before call after he
      simp at he
    | append_singleton calls last ih =>
      rw [appended_append, List.pairwise_append] at hsorted
      have hok := ih hsorted.1 fun before hb ↦ hfaithful before (hb.trans (List.prefix_append _ _))
      intro before call after he
      rcases List.eq_nil_or_concat after with rfl | ⟨after', last', rfl⟩
      · obtain ⟨rfl, hlast⟩ := List.append_inj' he rfl
        cases hlast
        obtain ⟨hsound, hcontents⟩ := sound_written hsorted.1 hok
        by_contra hnot
        apply hsound.not_faithful hnot
        rw [hcontents, ← written_concat, ← live_concat]
        exact hfaithful _ (List.prefix_refl _)
      · have he' : calls ++ [last] = (before ++ call :: after') ++ [last'] := by simpa using he
        obtain ⟨he'', _⟩ := List.append_inj' he' rfl
        exact hok before call after' he''
  · rintro hok before ⟨rest, rfl⟩
    rw [appended_append, List.pairwise_append] at hsorted
    obtain ⟨hsound, hcontents⟩ := sound_written hsorted.1 fun before' call after he ↦
      hok before' call (after ++ rest) (by rw [he, List.append_assoc]; rfl)
    rw [← hcontents]
    exact hsound.faithful

/-! ## Stores to evaluate -/

def atNoon : UTASnapshot String Unit := ⟨"2026-01-01T12:00:00.000Z", ()⟩

def atOne : UTASnapshot String Unit := ⟨"2026-01-01T13:00:00.000Z", ()⟩

def firstDeleted : List (WriteCall String Unit) :=
  [.append atNoon, .append atOne, .deleteByTimestamp atNoon.timestamp]

/-- The second snapshot is what the store gives back, and what it should. -/
theorem store_faithful_firstDeleted :
    live firstDeleted = [atOne] ∧ ∀ before, before <+: firstDeleted → Faithful (written before) (live before) := by
  refine ⟨by decide +kernel, (store_faithful_iff firstDeleted (by decide +kernel)).mpr ?_⟩
  intro before call after he
  rcases before with _ | ⟨a, _ | ⟨b, _ | ⟨c, rest⟩⟩⟩
  · cases he
    exact fun _ ↦ by decide +kernel
  · cases he
    exact fun hopens ↦ absurd hopens (by decide +kernel)
  · cases he
    have hindex : (written [.append atNoon, .append atOne]).readIndex =
        [⟨"chunk-0001.jsonl", 2, atNoon.timestamp, atOne.timestamp⟩] := by decide +kernel
    intro c hc c' hc' _ _
    rw [hindex, List.mem_singleton] at hc hc'
    rw [hc, hc']
  · simp [firstDeleted] at he

def chunkDeleted : List (WriteCall String Unit) :=
  List.replicate 50 (.append atNoon) ++ [.append atOne, .deleteByTimestamp atNoon.timestamp] ++
    List.replicate 50 (.append atOne)

/-- The third chunk gets the name of the second. -/
theorem not_store_faithful : ¬ ∀ calls : List (WriteCall String Unit),
    (appended calls).Pairwise (· ≤ ·) →
      ∀ before, before <+: calls → Faithful (written before) (live before) := by
  intro h
  have hfaithful := h chunkDeleted (by decide +kernel) chunkDeleted (List.prefix_refl _)
  have hfiles : chunkFiles (written chunkDeleted) = ["chunk-0002.jsonl", "chunk-0002.jsonl"] := by
    decide +kernel
  have hdistinct := hfaithful.distinct
  rw [hfiles] at hdistinct
  revert hdistinct
  decide

end OpenAlice.Trading.Snapshot
