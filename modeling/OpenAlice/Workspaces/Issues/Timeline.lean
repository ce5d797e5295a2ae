import OpenAlice.Core.ProvenanceStore

/-!
# The timeline of an Issue

`issueProvenanceRecords` of `src/workspaces/issues/board.ts`: the records of an Issue, newest
first, without the updates that stand right behind a newer one of the same origin, not longer ago
than the window.  Of such an *activity* the newest update is shown, with its own mutation; the
store merges the mutations of nearby updates, the timeline does not.

`activities` groups the records as the loop does (`foldl_compactRecord`), and `composed` is what
mutations come to for a field.  The timeline shows every change exactly when the newest update of
each activity says all that the older ones say (`showsChanges_iff`).
-/

namespace OpenAlice.Workspaces.Issues

open OpenAlice.Core OpenAlice.Data

/-! ## The projection -/

/-- A `ProvenanceRecord` with its `id`. -/
structure StoredRecord extends ProvenanceRecord where
  id : String

structure IssueProvenanceRecord where
  id : String
  action : ProvenanceAction
  origin : ArtifactOrigin
  «at» : Int
  mutation : Option Mutation

def standsFor (newer record : StoredRecord) : Bool :=
  let elapsed := newer.at - record.at
  newer.action == .updated && record.action == .updated &&
    artifactOriginsMatch newer.origin record.origin &&
    decide (0 ≤ elapsed ∧ elapsed ≤ activityUpdateCoalesceMs)

def compactRecord (compacted : List StoredRecord) (record : StoredRecord) : List StoredRecord :=
  match compacted.getLast? with
  | some newer => if standsFor newer record then compacted else compacted ++ [record]
  | none => compacted ++ [record]

def shownRecord (record : StoredRecord) : IssueProvenanceRecord :=
  { id := record.id
    action := record.action
    origin := record.origin
    «at» := record.at
    mutation := record.mutation }

def newestFirst (records : List StoredRecord) : List StoredRecord :=
  sortRank (fun record ↦ -record.at) records

def issueProvenanceRecords (records : List StoredRecord) : List IssueProvenanceRecord :=
  ((newestFirst records).foldl compactRecord []).map shownRecord

/-! ## What it should show -/

def changesTo (mutations : List Mutation) (field : String) : List FieldChange :=
  mutations.flatten.filter fun change ↦ change.field = field

def composed (mutations : List Mutation) (field : String) :
    Option (Option String) × Option (Option String) :=
  ((changesTo mutations field).head?.map FieldChange.before,
    (changesTo mutations field).getLast?.map FieldChange.after)

def mutationsOf (records : List StoredRecord) : List Mutation :=
  records.reverse.filterMap fun record ↦ record.mutation

/-- An update, and the older ones that it stands for, newest first; any other record alone. -/
structure Activity where
  newest : StoredRecord
  older : List StoredRecord := []

def Activity.records (activity : Activity) : List StoredRecord := activity.newest :: activity.older

def activitiesFrom (current : Activity) : List StoredRecord → List Activity
  | [] => [current]
  | record :: records =>
    if standsFor current.newest record then
      activitiesFrom { current with older := current.older ++ [record] } records
    else current :: activitiesFrom { newest := record } records

def activities (records : List StoredRecord) : List Activity :=
  match newestFirst records with
  | [] => []
  | newest :: older => activitiesFrom { newest } older

/-- **The timeline shows every change**: composing what is shown gives, for every field, what
composing all that is recorded gives; every other record than an update is there; and an update
that stands for older ones says what they come to together. -/
structure ShowsChanges (records : List StoredRecord) : Prop where
  composed : ∀ field,
    composed ((issueProvenanceRecords records).reverse.filterMap (·.mutation)) field =
      composed (mutationsOf (newestFirst records)) field
  others : ((issueProvenanceRecords records).filter (·.action ≠ .updated)).Perm
    ((records.filter (·.action ≠ .updated)).map shownRecord)
  compacted : ∀ activity ∈ activities records, ∀ field,
    Issues.composed (mutationsOf [activity.newest]) field =
      Issues.composed (mutationsOf activity.records) field

/-- The newest update of an activity changes each field that the older ones change, and from the
text that the oldest of these has it change from. -/
def Covers (activity : Activity) : Prop :=
  ∀ field, ∀ first ∈ (changesTo (mutationsOf activity.older) field).head?,
    ∃ change ∈ (changesTo (mutationsOf [activity.newest]) field).head?,
      change.before = first.before

/-! ## Composing -/

variable {records older : List StoredRecord} {record : StoredRecord} {current activity : Activity}
  {earlier later : List Mutation} {field : String}

theorem changesTo_append (earlier later : List Mutation) (field : String) :
    changesTo (earlier ++ later) field = changesTo earlier field ++ changesTo later field := by
  rw [changesTo, List.flatten_append, List.filter_append]
  rfl

theorem composed_append (earlier later : List Mutation) (field : String) :
    composed (earlier ++ later) field = ((composed earlier field).1.or (composed later field).1,
        (composed later field).2.or (composed earlier field).2) := by
  rw [composed, changesTo_append, List.head?_append, List.getLast?_append, Option.map_or,
    Option.map_or]
  rfl

theorem mutationsOf_append (records older : List StoredRecord) :
    mutationsOf (records ++ older) = mutationsOf older ++ mutationsOf records := by
  rw [mutationsOf, List.reverse_append, List.filterMap_append]
  rfl

/-! ## Activities -/

theorem activitiesFrom_append (current : Activity) (records : List StoredRecord) :
    (activitiesFrom current records).flatMap Activity.records = current.records ++ records := by
  induction records generalizing current with
  | nil => rw [activitiesFrom, List.flatMap_singleton, List.append_nil]
  | cons record records ih =>
    rw [activitiesFrom]
    split_ifs
    · rw [ih, Activity.records, Activity.records, List.cons_append, List.cons_append,
        List.append_assoc]
      rfl
    · rw [List.flatMap_cons, ih]
      rfl

theorem compactRecord_concat (compacted : List StoredRecord) (newer record : StoredRecord) :
    compactRecord (compacted ++ [newer]) record =
      if standsFor newer record then compacted ++ [newer]
      else compacted ++ [newer] ++ [record] := by
  rw [compactRecord, List.getLast?_concat]

/-- **The loop keeps the newest record of every activity.** -/
theorem foldl_compactRecord (compacted : List StoredRecord) (current : Activity)
    (records : List StoredRecord) :
    records.foldl compactRecord (compacted ++ [current.newest]) =
      compacted ++ (activitiesFrom current records).map Activity.newest := by
  induction records generalizing compacted current with
  | nil => rfl
  | cons record records ih =>
    rw [List.foldl_cons, compactRecord_concat, activitiesFrom]
    split_ifs
    · exact ih compacted { current with older := current.older ++ [record] }
    have hnext := ih (compacted ++ [current.newest]) { newest := record }
    rw [List.append_assoc _ _ (List.map _ _)] at hnext
    exact hnext

theorem updated_of_mem_older (hcurrent : ∀ record ∈ current.older, record.action = .updated)
    (hactivity : activity ∈ activitiesFrom current records) :
    ∀ record ∈ activity.older, record.action = .updated := by
  induction records generalizing current with
  | nil =>
    obtain rfl := List.mem_singleton.mp hactivity
    exact hcurrent
  | cons record records ih =>
    rw [activitiesFrom] at hactivity
    split_ifs at hactivity with hstands
    · refine ih (fun other hother ↦ ?_) hactivity
      rcases List.mem_append.mp hother with hother | hother
      · exact hcurrent other hother
      obtain rfl := List.mem_singleton.mp hother
      rw [standsFor, Bool.and_eq_true, Bool.and_eq_true, Bool.and_eq_true] at hstands
      exact eq_of_beq hstands.1.1.2
    · rcases List.mem_cons.mp hactivity with rfl | hactivity
      · exact hcurrent
      · exact ih (fun other hother ↦ absurd hother List.not_mem_nil) hactivity

theorem activities_records (records : List StoredRecord) :
    (activities records).flatMap Activity.records = newestFirst records := by
  rw [activities]
  split
  · rename_i hnil
    exact hnil.symm
  rename_i newest older hcons
  rw [activitiesFrom_append, hcons]
  rfl

theorem issueProvenanceRecords_eq (records : List StoredRecord) : issueProvenanceRecords records =
      ((activities records).map Activity.newest).map shownRecord := by
  rw [issueProvenanceRecords, activities]
  split
  · rename_i hnil
    rw [hnil]
    rfl
  rename_i newest older hcons
  rw [hcons, List.foldl_cons]
  exact congrArg _ (foldl_compactRecord [] { newest } older)

theorem updated_of_mem_activities (hactivity : activity ∈ activities records) :
    ∀ record ∈ activity.older, record.action = .updated := by
  rw [activities] at hactivity
  split at hactivity
  · exact absurd hactivity List.not_mem_nil
  · exact updated_of_mem_older (fun other hother ↦ absurd hother List.not_mem_nil) hactivity

/-! ## What is shown -/

theorem others_shown (records : List StoredRecord) :
    ((issueProvenanceRecords records).filter (·.action ≠ .updated)).Perm
      ((records.filter (·.action ≠ .updated)).map shownRecord) := by
  have hkept : (newestFirst records).filter (·.action ≠ .updated) =
      ((activities records).map Activity.newest).filter (·.action ≠ .updated) := by
    rw [← activities_records, List.filter_flatMap]
    have hactivity : ∀ activity ∈ activities records,
        activity.records.filter (·.action ≠ .updated) =
          [activity.newest].filter (·.action ≠ .updated) := by
      intro activity hactivity
      have holder : activity.older.filter (·.action ≠ .updated) = [] := by
        rw [List.filter_eq_nil_iff]
        intro record hrecord hother
        exact of_decide_eq_true hother (updated_of_mem_activities hactivity record hrecord)
      rw [Activity.records, ← List.singleton_append, List.filter_append, holder, List.append_nil]
    rw [List.flatMap_congr hactivity, ← List.filter_flatMap, List.map_eq_flatMap]
  rw [issueProvenanceRecords_eq, List.filter_map]
  refine List.Perm.map shownRecord ?_
  have hperm : (sortRank (fun record : StoredRecord ↦ -record.at) records).Perm records :=
    sortRank_perm records
  exact hkept ▸ hperm.filter (·.action ≠ .updated)

theorem ends_eq_iff (earlier later : List FieldChange) :
    (∀ first ∈ earlier.head?, ∃ change ∈ later.head?, change.before = first.before) ↔
      (later.head?.map FieldChange.before, later.getLast?.map FieldChange.after) =
        ((earlier ++ later).head?.map FieldChange.before,
          (earlier ++ later).getLast?.map FieldChange.after) := by
  cases earlier with
  | nil =>
    rw [List.nil_append]
    exact ⟨fun _ ↦ rfl, fun _ first hfirst ↦ nomatch hfirst⟩
  | cons first earlier =>
    cases later with
    | nil =>
      rw [List.append_nil, List.getLast?_nil, Option.map_none, Prod.mk.injEq]
      constructor
      · intro hcovers
        obtain ⟨change, hchange, -⟩ := hcovers first rfl
        cases hchange
      · rintro ⟨heq, -⟩
        cases heq
    | cons change later =>
      have hlast : (first :: earlier ++ change :: later).getLast? = (change :: later).getLast? :=
        List.getLast?_append_of_ne_nil _ (List.cons_ne_nil _ _)
      rw [hlast, Prod.mk.injEq, and_iff_left rfl]
      simp [eq_comm]

theorem covers_iff (activity : Activity) : Covers activity ↔
    ∀ field, composed (mutationsOf [activity.newest]) field =
      composed (mutationsOf activity.records) field := by
  have hrecords : mutationsOf activity.records =
      mutationsOf activity.older ++ mutationsOf [activity.newest] :=
    mutationsOf_append [activity.newest] activity.older
  refine forall_congr' fun field ↦ ?_
  rw [ends_eq_iff, ← changesTo_append, ← hrecords]
  rfl

theorem composed_newest {groups : List Activity}
    (h : ∀ activity ∈ groups, ∀ field, composed (mutationsOf [activity.newest]) field =
      composed (mutationsOf activity.records) field) (field : String) :
    composed (mutationsOf (groups.map Activity.newest)) field =
      composed (mutationsOf (groups.flatMap Activity.records)) field := by
  induction groups with
  | nil => rfl
  | cons activity groups ih =>
    rw [List.forall_mem_cons] at h
    have hnewest := mutationsOf_append [activity.newest] (groups.map Activity.newest)
    rw [List.map_cons, List.flatMap_cons, mutationsOf_append, ← List.singleton_append, hnewest,
      composed_append, composed_append, ih h.2, h.1 field]

/-- **The timeline shows every change** exactly when, in each activity, the newest update changes
every field that the older ones change, and from the text that they begin with. -/
theorem showsChanges_iff (records : List StoredRecord) :
    ShowsChanges records ↔ ∀ activity ∈ activities records, Covers activity := by
  constructor
  · intro hshows activity hactivity
    exact (covers_iff activity).mpr (hshows.compacted activity hactivity)
  intro hcovers
  have hcompacted : ∀ activity ∈ activities records, ∀ field,
      composed (mutationsOf [activity.newest]) field =
        composed (mutationsOf activity.records) field :=
    fun activity hactivity ↦ (covers_iff activity).mp (hcovers activity hactivity)
  refine ⟨fun field ↦ ?_, others_shown records, hcompacted⟩
  have hshown := composed_newest hcompacted field
  rw [activities_records] at hshown
  rw [issueProvenanceRecords_eq, ← List.map_reverse, List.filterMap_map]
  exact hshown

/-- A title set and, a minute later, a status: the timeline has the status only. -/
theorem title_not_shown : ¬ ∀ (records : List StoredRecord) (field : String),
    composed ((issueProvenanceRecords records).reverse.filterMap (·.mutation)) field =
      composed (mutationsOf (newestFirst records)) field := by
  intro hall
  have htitle := hall
    [{ artifact := .issue "ws" "audit", action := .updated, origin := .human, «at» := 0,
       mutation := some [⟨"title", some "Audit", some "Audit the audit"⟩], id := "p-1" },
     { artifact := .issue "ws" "audit", action := .updated, origin := .human, «at» := 60000,
       mutation := some [⟨"status", some "open", some "done"⟩], id := "p-2" }] "title"
  exact absurd htitle (by decide +kernel)

end OpenAlice.Workspaces.Issues
