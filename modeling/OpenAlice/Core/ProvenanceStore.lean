import OpenAlice.Data.Keyed
import OpenAlice.Data.Ranked
import Mathlib.Algebra.Order.Group.Int
import Mathlib.Order.OrderDual

/-!
# The provenance store

`ArtifactProvenanceStore` of `src/core/provenance-store.ts`: the records of who did what to
which artifact.  `append` drops a record whose fingerprint is there already, may merge it into
the latest record of its artifact, and otherwise adds it at the end.

The store is its list of records in memory, which is what `append` works on; a record's own
`id` is left out, as nothing reads it.  Texts are lists of characters, each of one code unit.

`append_cases` says what an append can do to the records, and `find?_mergeProvenanceMutation`
what merging does to the change of one field.
-/

namespace OpenAlice.Core

open OpenAlice.Data

/-! ## Records -/

/-- The concrete occurrence of a session. -/
inductive Execution where
  | headless (taskId : String)
  | interactive (sessionRecordId : String)

inductive ArtifactOrigin where
  | session (workspaceId resumeId agent : String) (execution : Option Execution)
  | human
  | external (system : String)
  | unknown (reason : String)

inductive ArtifactRef where
  | inbox (inboxEntryId : String)
  | issue (workspaceId issueId : String)
  | report (workspaceId path : String) (revision : Option String)
  | tradeDecision (accountId decisionId : String)
deriving DecidableEq

inductive ProvenanceAction where
  | created | updated | commented | sent | decided | reconstructed
deriving DecidableEq

/-- `ProvenanceFieldChange`. -/
structure FieldChange where
  field : String
  before : Option String := none
  after : Option String := none
deriving DecidableEq

/-- `ProvenanceMutation`, by its fields. -/
abbrev Mutation := List FieldChange

structure ProvenanceRecord where
  artifact : ArtifactRef
  action : ProvenanceAction
  origin : ArtifactOrigin
  «at» : Int
  fingerprint : Option String := none
  mutation : Option Mutation := none

def artifactOriginsMatch : ArtifactOrigin → ArtifactOrigin → Bool
  | .human, .human => true
  | .external system, .external system' => system = system'
  | .unknown reason, .unknown reason' => reason = reason'
  | .session workspaceId resumeId agent execution,
      .session workspaceId' resumeId' agent' execution' =>
      if workspaceId ≠ workspaceId' ∨ resumeId ≠ resumeId' ∨ agent ≠ agent' then false
      else
        match execution, execution' with
        | some (.headless taskId), some (.headless taskId') => taskId = taskId'
        | some (.interactive recordId), some (.interactive recordId') => recordId = recordId'
        | none, none => true
        | _, _ => false
  | _, _ => false

def artifactMatches : ArtifactRef → ArtifactRef → Bool
  | .inbox entryId, .inbox entryId' => entryId = entryId'
  | .issue workspaceId issueId, .issue workspaceId' issueId' =>
    workspaceId = workspaceId' && issueId = issueId'
  | .report workspaceId path revision, .report workspaceId' path' revision' =>
    workspaceId = workspaceId' && path = path' &&
      (revision' = none || revision = revision')
  | .tradeDecision accountId decisionId, .tradeDecision accountId' decisionId' =>
    accountId = accountId' && decisionId = decisionId'
  | _, _ => false

/-! ## Merging -/

def mergedChange (earlier : Option FieldChange) (change : FieldChange) : FieldChange :=
  match earlier with
  | some earlier => { field := change.field, before := earlier.before, after := change.after }
  | none => change

def FieldChange.returns (change : FieldChange) : Bool :=
  change.before.isSome && change.before == change.after

/-- One turn of the loop of `mergeProvenanceMutation`. -/
def mergeField (fields : List (String × FieldChange)) (change : FieldChange) :
    List (String × FieldChange) :=
  let merged := mergedChange (fields.lookup change.field) change
  if merged.returns then deleteKey fields change.field else setKey fields change.field merged

def mergeProvenanceMutation (previous : Option Mutation) (next : Mutation) : Mutation :=
  let fields := (previous.getD []).foldl (fun fields change ↦ setKey fields change.field change) []
  (next.foldl mergeField fields).map Prod.snd

/-! ## Appending -/

/-- `latest`, with the place of the record: the first of those with the latest time. -/
def latest (records : List ProvenanceRecord) (artifact : ArtifactRef)
    (action : Option ProvenanceAction) : Option (ProvenanceRecord × Nat) :=
  (sortRank (fun entry ↦ -entry.1.at) (records.zipIdx.filter fun entry ↦
    artifactMatches entry.1.artifact artifact &&
      (action.isNone || some entry.1.action == action))).head?

def coalescesWith (records : List ProvenanceRecord) (candidate : ProvenanceRecord)
    (coalesceWithinMs : Int) : Option Nat :=
  match latest records candidate.artifact none with
  | some (previous, k) =>
    let elapsed := candidate.at - previous.at
    if previous.action = candidate.action ∧
        artifactOriginsMatch previous.origin candidate.origin = true ∧
        0 ≤ elapsed ∧ elapsed ≤ coalesceWithinMs then some k
    else none
  | none => none

def mergeInto (candidate previous : ProvenanceRecord) : ProvenanceRecord :=
  { previous with
    «at» := candidate.at
    mutation :=
      match candidate.mutation with
      | some mutation =>
        let merged := mergeProvenanceMutation previous.mutation mutation
        if merged = [] then none else some merged
      | none => previous.mutation }

def recorded (records : List ProvenanceRecord) (fingerprint : Option String) : Bool :=
  fingerprint.isSome && records.any fun record ↦ record.fingerprint == fingerprint

/-- `append`, with the window `0` when none is given. -/
def append (records : List ProvenanceRecord) (candidate : ProvenanceRecord)
    (coalesceWithinMs : Int) : List ProvenanceRecord :=
  if recorded records candidate.fingerprint then records
  else
    match if 0 < coalesceWithinMs then coalescesWith records candidate coalesceWithinMs else none with
    | some k => records.modify k (mergeInto candidate)
    | none => records ++ [candidate]

abbrev activityUpdateCoalesceMs : Int := 900000

/-! ## What merging does -/

def changeOf (mutation : Mutation) (field : String) : Option FieldChange :=
  mutation.find? fun change ↦ decide (change.field = field)

def mergedOf (earlier : Option FieldChange) (change : FieldChange) : Option FieldChange :=
  if (mergedChange earlier change).returns then none else some (mergedChange earlier change)

/-- Entries that stand under the names of their fields, each once. -/
structure ByField (fields : List (String × FieldChange)) : Prop where
  named : ∀ entry ∈ fields, entry.2.field = entry.1
  nodup : (fields.map Prod.fst).Nodup

variable {fields : List (String × FieldChange)}

theorem byField_nil : ByField [] := ⟨fun _ h ↦ absurd h List.not_mem_nil, List.nodup_nil⟩

theorem ByField.set (h : ByField fields) {change : FieldChange} {field : String}
    (hfield : change.field = field) : ByField (setKey fields field change) := by
  refine ⟨fun entry hentry ↦ ?_, nodup_setKey h.nodup⟩
  rcases mem_setKey hentry with rfl | hentry
  · exact hfield
  · exact h.named entry hentry

theorem ByField.delete (h : ByField fields) (field : String) : ByField (deleteKey fields field) :=
  ⟨fun entry hentry ↦ h.named entry (List.mem_of_mem_filter hentry), nodup_deleteKey h.nodup⟩

theorem mergedChange_field {earlier : Option FieldChange} {change : FieldChange} :
    (mergedChange earlier change).field = change.field := by
  cases earlier <;> rfl

theorem ByField.merge (h : ByField fields) (change : FieldChange) :
    ByField (mergeField fields change) := by
  rw [mergeField]
  split_ifs
  · exact h.delete _
  · exact h.set mergedChange_field

theorem lookup_mergeField (fields : List (String × FieldChange)) (change : FieldChange)
    (field : String) : (mergeField fields change).lookup field =
      if change.field = field then mergedOf (fields.lookup field) change
      else fields.lookup field := by
  rw [mergeField]
  by_cases hfield : change.field = field
  · subst hfield
    rw [if_pos rfl, mergedOf]
    split_ifs
    · exact lookup_deleteKey_self fields
    · exact lookup_setKey_self fields
  · rw [if_neg hfield]
    split_ifs
    · exact lookup_deleteKey_of_ne (Ne.symm hfield) fields
    · exact lookup_setKey_of_ne (Ne.symm hfield) fields

theorem changeOf_cons (change : FieldChange) (mutation : Mutation) (field : String) :
    changeOf (change :: mutation) field =
      if change.field = field then some change else changeOf mutation field := by
  rw [changeOf, List.find?_cons]
  by_cases hfield : change.field = field
  · rw [decide_eq_true hfield, if_pos hfield]
  · rw [decide_eq_false hfield, if_neg hfield]
    rfl

theorem changeOf_eq_none {mutation : Mutation} {field : String}
    (h : field ∉ mutation.map FieldChange.field) : changeOf mutation field = none := by
  rw [changeOf, List.find?_eq_none]
  intro change hchange heq
  exact h (of_decide_eq_true heq ▸ List.mem_map_of_mem hchange)

theorem byField_foldl_set {mutation : Mutation} (hnodup : (mutation.map FieldChange.field).Nodup)
    (h : ByField fields) :
    ByField (mutation.foldl (fun fields change ↦ setKey fields change.field change) fields) ∧
      ∀ field, (mutation.foldl (fun fields change ↦ setKey fields change.field change)
        fields).lookup field = (changeOf mutation field).or (fields.lookup field) := by
  induction mutation generalizing fields with
  | nil => exact ⟨h, fun _ ↦ rfl⟩
  | cons change mutation ih =>
    rw [List.map_cons, List.nodup_cons] at hnodup
    obtain ⟨hby, hlookup⟩ := ih hnodup.2 (h.set (rfl : change.field = change.field))
    refine ⟨hby, fun field ↦ ?_⟩
    rw [List.foldl_cons, hlookup, changeOf_cons]
    by_cases hfield : change.field = field
    · subst hfield
      rw [if_pos rfl, changeOf_eq_none hnodup.1, lookup_setKey_self]
      rfl
    · rw [if_neg hfield, lookup_setKey_of_ne (Ne.symm hfield)]

theorem byField_foldl_merge {next : Mutation} (hnodup : (next.map FieldChange.field).Nodup)
    (h : ByField fields) : ByField (next.foldl mergeField fields) ∧
      ∀ field, (next.foldl mergeField fields).lookup field =
        match changeOf next field with
        | some change => mergedOf (fields.lookup field) change
        | none => fields.lookup field := by
  induction next generalizing fields with
  | nil => exact ⟨h, fun _ ↦ rfl⟩
  | cons change next ih =>
    rw [List.map_cons, List.nodup_cons] at hnodup
    obtain ⟨hby, hlookup⟩ := ih hnodup.2 (h.merge change)
    refine ⟨hby, fun field ↦ ?_⟩
    rw [List.foldl_cons, hlookup, changeOf_cons, lookup_mergeField]
    by_cases hfield : change.field = field
    · subst hfield
      rw [if_pos rfl, if_pos rfl, changeOf_eq_none hnodup.1]
    · rw [if_neg hfield, if_neg hfield]

/-- **What merging does to a field**: a later change is merged into an earlier one, and both
disappear when the field returns to its first text. -/
theorem changeOf_merge {previous : Option Mutation} {next : Mutation}
    (hprevious : ((previous.getD []).map FieldChange.field).Nodup)
    (hnext : (next.map FieldChange.field).Nodup) (field : String) :
    changeOf (mergeProvenanceMutation previous next) field =
      match changeOf next field with
      | some change => mergedOf (changeOf (previous.getD []) field) change
      | none => changeOf (previous.getD []) field := by
  obtain ⟨hby, hlookup⟩ := byField_foldl_set hprevious byField_nil
  obtain ⟨hmerged, hfield⟩ := byField_foldl_merge hnext hby
  rw [mergeProvenanceMutation, changeOf]
  rw [find?_values hmerged.named, hfield, hlookup, List.lookup_nil, Option.or_none]

theorem nodup_merge {previous : Option Mutation} {next : Mutation}
    (hprevious : ((previous.getD []).map FieldChange.field).Nodup)
    (hnext : (next.map FieldChange.field).Nodup) :
    ((mergeProvenanceMutation previous next).map FieldChange.field).Nodup := by
  obtain ⟨hby, -⟩ := byField_foldl_set hprevious byField_nil
  obtain ⟨hmerged, -⟩ := byField_foldl_merge hnext hby
  have hkeys : (mergeProvenanceMutation previous next).map FieldChange.field =
      ((next.foldl mergeField ((previous.getD []).foldl
        (fun fields change ↦ setKey fields change.field change) [])).map Prod.fst) := by
    rw [mergeProvenanceMutation, List.map_map]
    exact List.map_congr_left fun entry hentry ↦ hmerged.named entry hentry
  rw [hkeys]
  exact hmerged.nodup

/-! ## What an append does -/

variable {records : List ProvenanceRecord} {candidate previous : ProvenanceRecord}
  {artifact : ArtifactRef} {k : Nat}

theorem latest_spec {action : Option ProvenanceAction}
    (h : latest records artifact action = some (previous, k)) :
    records[k]? = some previous ∧ artifactMatches previous.artifact artifact = true := by
  have hmem := mem_sortRank.mp (List.mem_of_mem_head? h)
  obtain ⟨hmem, hmatch⟩ := List.mem_filter.mp hmem
  refine ⟨?_, (Bool.and_eq_true_iff.mp hmatch).1⟩
  exact List.mem_zipIdx_iff_getElem?.mp hmem

theorem coalescesWith_spec {within : Int} (h : coalescesWith records candidate within = some k) :
    ∃ previous, records[k]? = some previous ∧
      artifactMatches previous.artifact candidate.artifact = true := by
  rw [coalescesWith] at h
  cases hlatest : latest records candidate.artifact none with
  | none =>
    rw [hlatest] at h
    cases h
  | some entry =>
    obtain ⟨previous, k'⟩ := entry
    rw [hlatest] at h
    obtain ⟨-, hk⟩ := Option.ite_none_right_eq_some.mp h
    cases hk
    exact ⟨previous, latest_spec hlatest⟩

/-- **What an append does**: nothing, or it merges into a record of the artifact, or it adds
the record. -/
theorem append_cases (records : List ProvenanceRecord) (candidate : ProvenanceRecord)
    (within : Int) :
    recorded records candidate.fingerprint = true ∧ append records candidate within = records ∨
      recorded records candidate.fingerprint = false ∧
        ((∃ k previous, 0 < within ∧ coalescesWith records candidate within = some k ∧
            records[k]? = some previous ∧
            artifactMatches previous.artifact candidate.artifact = true ∧
            append records candidate within = records.modify k (mergeInto candidate)) ∨
          append records candidate within = records ++ [candidate]) := by
  rw [append]
  cases hrecorded : recorded records candidate.fingerprint with
  | true => exact .inl ⟨rfl, rfl⟩
  | false =>
    refine .inr ⟨rfl, ?_⟩
    rw [if_neg Bool.false_ne_true]
    by_cases hwithin : 0 < within
    · rw [if_pos hwithin]
      cases hk : coalescesWith records candidate within with
      | none => exact .inr rfl
      | some k =>
        obtain ⟨previous, hget, hmatch⟩ := coalescesWith_spec hk
        exact .inl ⟨k, previous, hwithin, rfl, hget, hmatch, rfl⟩
    · rw [if_neg hwithin]
      exact .inr rfl

end OpenAlice.Core
