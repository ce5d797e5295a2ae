import Mathlib.Data.List.Nodup
import OpenAlice.Workspaces.SessionFile

/-!
# The roster of a workspace

What the calls of `SessionRegistry` in `src/workspaces/session-registry.ts` are for: each
of them changes a list of records, all at once.  The list stays distinct as long as no
update gives a record the resume id of another.
-/

namespace OpenAlice.Workspaces

/-- The properties that an update sets; an optional one may be set to `undefined`. -/
structure SessionPatch where
  resumeId : Option String := none
  lastActiveAt : Option String := none
  state : Option SessionState := none
  surface : Option (Option Surface) := none
  resumeHint : Option (Option String) := none
  scrollbackFile : Option (Option String) := none
  title : Option (Option String) := none
  fallbackTitle : Option (Option String) := none
  sourceRunId : Option (Option String) := none
deriving DecidableEq

/-- `Object.assign(rec, patch)` -/
def SessionPatch.assign (patch : SessionPatch) (r : SessionRecord) : SessionRecord :=
  { r with
    resumeId := patch.resumeId.getD r.resumeId
    lastActiveAt := patch.lastActiveAt.getD r.lastActiveAt
    state := patch.state.getD r.state
    surface := patch.surface.getD r.surface
    resumeHint := patch.resumeHint.getD r.resumeHint
    scrollbackFile := patch.scrollbackFile.getD r.scrollbackFile
    title := patch.title.getD r.title
    fallbackTitle := patch.fallbackTitle.getD r.fallbackTitle
    sourceRunId := patch.sourceRunId.getD r.sourceRunId }

inductive SessionCall where
  | ensureLoaded
  | create (record : SessionRecord)
  | update (id : String) (patch : SessionPatch)
  | remove (id : String)
  | removeAllFor
deriving DecidableEq

def SessionCall.effect (records : List SessionRecord) : SessionCall → List SessionRecord
  | .ensureLoaded => records
  | .create record => records ++ [record]
  | .update id patch => records.map fun r ↦ if r.id = id then patch.assign r else r
  | .remove id => records.filter fun r ↦ r.id ≠ id
  | .removeAllFor => []

/-! ## Distinct records -/

variable {records : List SessionRecord}

theorem Unique.nil : Unique [] := ⟨List.nodup_nil, List.nodup_nil⟩

theorem Unique.append {record : SessionRecord} (h : Unique records)
    (hid : ∀ r ∈ records, r.id ≠ record.id)
    (hresume : ∀ r ∈ records, r.resumeId ≠ record.resumeId) :
    Unique (records ++ [record]) where
  ids := by
    rw [List.map_append, List.map_singleton, List.nodup_append]
    refine ⟨h.ids, List.nodup_singleton _, ?_⟩
    intro x hx y hy
    obtain ⟨r, hr, rfl⟩ := List.mem_map.mp hx
    rw [List.mem_singleton.mp hy]
    exact hid r hr
  resumeIds := by
    rw [List.map_append, List.map_singleton, List.nodup_append]
    refine ⟨h.resumeIds, List.nodup_singleton _, ?_⟩
    intro x hx y hy
    obtain ⟨r, hr, rfl⟩ := List.mem_map.mp hx
    rw [List.mem_singleton.mp hy]
    exact hresume r hr

theorem Unique.filter (h : Unique records) (p : SessionRecord → Bool) :
    Unique (records.filter p) where
  ids := (List.filter_sublist.map SessionRecord.id).nodup h.ids
  resumeIds := (List.filter_sublist.map SessionRecord.resumeId).nodup h.resumeIds

theorem Unique.eq_of_id (h : Unique records) {r r' : SessionRecord} (hr : r ∈ records)
    (hr' : r' ∈ records) (heq : r.id = r'.id) : r = r' :=
  List.inj_on_of_nodup_map h.ids hr hr' heq

def SessionPatch.Own (patch : SessionPatch) (records : List SessionRecord) (id : String) : Prop :=
  ∀ resumeId, patch.resumeId = some resumeId → ∀ r ∈ records, r.resumeId = resumeId → r.id = id

theorem Unique.update {id : String} {patch : SessionPatch} (h : Unique records)
    (hown : patch.Own records id) :
    Unique (records.map fun r ↦ if r.id = id then patch.assign r else r) where
  ids := by
    have hsame : (records.map fun r ↦ if r.id = id then patch.assign r else r).map
        SessionRecord.id = records.map SessionRecord.id := by
      rw [List.map_map]
      refine List.map_congr_left ?_
      intro r _
      show SessionRecord.id (if r.id = id then patch.assign r else r) = r.id
      split_ifs <;> rfl
    rw [hsame]
    exact h.ids
  resumeIds := by
    rw [List.map_map]
    refine List.Nodup.map_on ?_ (List.Nodup.of_map _ h.ids)
    intro r hr r' hr' heq
    have hresume : ∀ r : SessionRecord, (patch.assign r).resumeId = patch.resumeId.getD r.resumeId :=
      fun r ↦ rfl
    have hunchanged : r.resumeId = r'.resumeId → r = r' := List.inj_on_of_nodup_map h.resumeIds hr hr'
    simp only [Function.comp_apply] at heq
    split_ifs at heq with hid hid' hid'
    · exact h.eq_of_id hr hr' (hid.trans hid'.symm)
    · rw [hresume] at heq
      cases hp : patch.resumeId with
      | none =>
        rw [hp] at heq
        exact hunchanged heq
      | some resumeId =>
        rw [hp] at heq
        exact absurd (hown resumeId hp r' hr' heq.symm) hid'
    · rw [hresume] at heq
      cases hp : patch.resumeId with
      | none =>
        rw [hp] at heq
        exact hunchanged heq
      | some resumeId =>
        rw [hp] at heq
        exact absurd (hown resumeId hp r hr heq) hid
    · exact hunchanged heq

end OpenAlice.Workspaces
