import OpenAlice.Workspaces.Issues.ChangeTracker

/-!
# Where recorded changes lead

A record of the trail names the fields of an Issue that have changed, with their texts before
and after, cut to what a record holds.  `LeadsTo` says of two snapshots that the record is right
about them: that is so of what `issueMutation` makes of them (`mutationFields_leadsTo`), and of
two such records merged into one (`LeadsTo.merge`), unless a text that was cut returns: then
the texts are taken for equal, and the change of the field is lost.
-/

namespace OpenAlice.Workspaces.Issues

open OpenAlice.Data OpenAlice.Core

/-- **Recorded changes lead from one snapshot to another**: a field that is there had the
recorded text before and has the recorded text after, and any other field is as it was.  Of the
What it is recorded only that it changed. -/
structure LeadsTo (mutation : Mutation) (s s' : IssueAuditSnapshot) : Prop where
  nodup : (mutation.map FieldChange.field).Nodup
  changed : ∀ field ∈ auditFields, ∀ change, changeOf mutation field.1 = some change →
    change.before = (field.2 s).map compactAuditValue ∧
      change.after = (field.2 s').map compactAuditValue
  kept : ∀ field ∈ auditFields, changeOf mutation field.1 = none → field.2 s = field.2 s'
  whatChanged : ∀ change, changeOf mutation "what" = some change → change.before = none
  whatKept : changeOf mutation "what" = none → s.whatHash = s'.whatHash

/-- Changes lead from one snapshot to another, one after the other. -/
inductive Composes (s : IssueAuditSnapshot) : List Mutation → IssueAuditSnapshot → Prop
  /-- No change. -/
  | nil : Composes s [] s
  | concat {mutations : List Mutation} {mutation : Mutation} {t u : IssueAuditSnapshot} :
      Composes s mutations t → LeadsTo mutation t u → Composes s (mutations ++ [mutation]) u

def isCut (text : String) : Bool := text.length = 1000 && text.toList.getLast? = some '…'

def keepsTexts (previous next : Mutation) : Prop :=
  ∀ field change text, changeOf next field = some change →
    (mergedChange (changeOf previous field) change).before = some text →
      change.after = some text → isCut text = false

variable {s s' t u : IssueAuditSnapshot} {mutation : Mutation}

/-! ## Changes of one step -/

theorem compact_eq_of_not_cut {value : String} (h : isCut (compactAuditValue value) = false) :
    compactAuditValue value = value := by
  rw [compactAuditValue]
  split_ifs with hlength
  · rfl
  rw [compactAuditValue, if_neg hlength, isCut, Bool.and_eq_false_iff] at h
  have hlist : 1000 < value.toList.length := by
    rw [String.length_toList]
    exact Nat.lt_of_not_le hlength
  rcases h with h | h
  · refine absurd ?_ (of_decide_eq_false h)
    rw [String.length_ofList, List.length_append, List.length_take, List.length_singleton]
    omega
  · refine absurd ?_ (of_decide_eq_false h)
    rw [String.toList_ofList, List.getLast?_concat]

theorem eq_of_compact_eq {value value' : Option String} {text : String}
    (hcut : isCut text = false) (h : value.map compactAuditValue = some text)
    (h' : value'.map compactAuditValue = some text) : value = value' := by
  obtain ⟨a, rfl, ha⟩ := Option.map_eq_some_iff.mp h
  obtain ⟨b, rfl, hb⟩ := Option.map_eq_some_iff.mp h'
  subst ha
  have ha := compact_eq_of_not_cut hcut
  rw [← hb] at hcut
  rw [← ha, ← hb, compact_eq_of_not_cut hcut]

theorem leadsTo_nil (s : IssueAuditSnapshot) : LeadsTo [] s s where
  nodup := List.nodup_nil
  changed := fun _ _ _ h ↦ absurd h (Option.some_ne_none _).symm
  kept := fun _ _ _ ↦ rfl
  whatChanged := fun _ h ↦ absurd h (Option.some_ne_none _).symm
  whatKept := fun _ ↦ rfl

theorem valueField_field {field : String × (IssueAuditSnapshot → Option String)}
    {change : FieldChange} (h : valueField s s' field = some change) : change.field = field.1 := by
  rw [valueField] at h
  obtain ⟨-, hchange⟩ := Option.ite_none_left_eq_some.mp h
  rw [← Option.some.inj hchange]

variable {fields : List (String × (IssueAuditSnapshot → Option String))}

theorem mem_filterMap_field {name : String}
    (h : name ∈ (fields.filterMap (valueField s s')).map FieldChange.field) :
    name ∈ fields.map Prod.fst := by
  obtain ⟨change, hchange, rfl⟩ := List.mem_map.mp h
  obtain ⟨field, hfield, hvalue⟩ := List.mem_filterMap.mp hchange
  rw [valueField_field hvalue]
  exact List.mem_map_of_mem hfield

theorem changeOf_filterMap (hnodup : (fields.map Prod.fst).Nodup) : ∀ field ∈ fields,
      changeOf (fields.filterMap (valueField s s')) field.1 = valueField s s' field := by
  induction fields with
  | nil => exact fun field h ↦ absurd h List.not_mem_nil
  | cons first fields ih =>
    rw [List.map_cons, List.nodup_cons] at hnodup
    have hne : ∀ field ∈ fields, first.1 ≠ field.1 := fun field hmem heq ↦
      hnodup.1 (by rw [heq]; exact List.mem_map_of_mem hmem)
    rw [List.forall_mem_cons]
    cases hfirst : valueField s s' first with
    | none =>
      rw [List.filterMap_cons_none hfirst]
      exact ⟨changeOf_eq_none fun h ↦ hnodup.1 (mem_filterMap_field h), ih hnodup.2⟩
    | some change =>
      rw [List.filterMap_cons_some hfirst]
      refine ⟨?_, fun field hmem ↦ ?_⟩
      · rw [changeOf_cons, valueField_field hfirst, if_pos rfl]
      · rw [changeOf_cons, valueField_field hfirst, if_neg (hne field hmem)]
        exact ih hnodup.2 field hmem

theorem auditFields_nodup : (auditFields.map Prod.fst).Nodup := by decide

theorem what_not_mem_auditFields : "what" ∉ auditFields.map Prod.fst := by decide

theorem changeOf_append (mutation mutation' : Mutation) (field : String) :
    changeOf (mutation ++ mutation') field =
      (changeOf mutation field).or (changeOf mutation' field) :=
  List.find?_append

theorem changeOf_mutationFields (s s' : IssueAuditSnapshot) :
    ∀ field ∈ auditFields, changeOf (mutationFields s s') field.1 = valueField s s' field := by
  intro field hfield
  have hne : "what" ≠ field.1 := fun heq ↦
    what_not_mem_auditFields (by rw [heq]; exact List.mem_map_of_mem hfield)
  rw [mutationFields, changeOf_append, changeOf_filterMap auditFields_nodup field hfield]
  split_ifs
  · exact Option.or_none
  · rw [changeOf_cons, if_neg hne]
    exact Option.or_none

theorem changeOf_mutationFields_what (s s' : IssueAuditSnapshot) :
    changeOf (mutationFields s s') "what" =
      if s.whatHash = s'.whatHash then none else some { field := "what" } := by
  have hnone : changeOf (auditFields.filterMap (valueField s s')) "what" = none :=
    changeOf_eq_none fun h ↦ what_not_mem_auditFields (mem_filterMap_field h)
  rw [mutationFields, changeOf_append, hnone]
  split_ifs <;> rfl

theorem nodup_filterMap (hnodup : (fields.map Prod.fst).Nodup) :
    ((fields.filterMap (valueField s s')).map FieldChange.field).Nodup := by
  induction fields with
  | nil => exact List.nodup_nil
  | cons first fields ih =>
    rw [List.map_cons, List.nodup_cons] at hnodup
    cases hfirst : valueField s s' first with
    | none =>
      rw [List.filterMap_cons_none hfirst]
      exact ih hnodup.2
    | some change =>
      rw [List.filterMap_cons_some hfirst, List.map_cons, valueField_field hfirst, List.nodup_cons]
      exact ⟨fun h ↦ hnodup.1 (mem_filterMap_field h), ih hnodup.2⟩

theorem nodup_mutationFields (s s' : IssueAuditSnapshot) :
    ((mutationFields s s').map FieldChange.field).Nodup := by
  rw [mutationFields, List.map_append, List.nodup_append]
  refine ⟨nodup_filterMap auditFields_nodup, ?_, ?_⟩
  · split_ifs
    · exact List.nodup_nil
    · exact List.nodup_cons.mpr ⟨List.not_mem_nil, List.nodup_nil⟩
  intro a ha b hb heq
  split_ifs at hb with hwhat
  · exact absurd hb List.not_mem_nil
  rw [List.map_singleton, List.mem_singleton] at hb
  subst heq
  rw [hb] at ha
  exact what_not_mem_auditFields (mem_filterMap_field ha)

/-- **What differs leads from one snapshot to the other.** -/
theorem mutationFields_leadsTo (s s' : IssueAuditSnapshot) : LeadsTo
    (mutationFields s s') s s' where
  nodup := nodup_mutationFields s s'
  changed := by
    intro field hfield change h
    rw [changeOf_mutationFields s s' field hfield, valueField] at h
    obtain ⟨-, hchange⟩ := Option.ite_none_left_eq_some.mp h
    rw [← Option.some.inj hchange]
    exact ⟨rfl, rfl⟩
  kept := by
    intro field hfield h
    rw [changeOf_mutationFields s s' field hfield, valueField] at h
    by_contra hne
    rw [if_neg hne] at h
    exact Option.some_ne_none _ h
  whatChanged := by
    intro change h
    rw [changeOf_mutationFields_what] at h
    obtain ⟨-, hchange⟩ := Option.ite_none_left_eq_some.mp h
    rw [← Option.some.inj hchange]
  whatKept := by
    intro h
    rw [changeOf_mutationFields_what] at h
    by_contra hne
    rw [if_neg hne] at h
    exact Option.some_ne_none _ h

theorem Composes.nil_inv (h : Composes s [] u) : u = s := by
  generalize hall : ([] : List Mutation) = all at h
  cases h with
  | nil => rfl
  | concat =>
    exact absurd hall.symm (List.append_ne_nil_of_right_ne_nil _ (List.cons_ne_nil _ _))

theorem Composes.concat_inv {mutations : List Mutation}
    (h : Composes s (mutations ++ [mutation]) u) :
    ∃ t, Composes s mutations t ∧ LeadsTo mutation t u := by
  generalize hall : mutations ++ [mutation] = all at h
  cases h with
  | nil => exact absurd hall (List.append_ne_nil_of_right_ne_nil _ (List.cons_ne_nil _ _))
  | concat hinit hlast =>
    obtain ⟨rfl, heq⟩ := List.append_inj' hall rfl
    cases heq
    exact ⟨_, hinit, hlast⟩

theorem issueMutation_eq_none_iff : issueMutation s s' = none ↔ s = s' := by
  constructor
  · intro h
    have hnil : mutationFields s s' = [] := by
      by_contra hne
      rw [issueMutation, if_neg hne] at h
      exact Option.some_ne_none _ h
    have hleads := mutationFields_leadsTo s s'
    rw [hnil] at hleads
    have hkept := fun field hfield ↦ hleads.kept field hfield rfl
    have hwhat := hleads.whatKept rfl
    simp only [auditFields, List.forall_mem_cons, Option.some.injEq] at hkept
    cases s
    cases s'
    simp_all
  · rintro rfl
    have hnil : mutationFields s s = [] := by
      rw [mutationFields, if_pos rfl, List.append_nil, List.filterMap_eq_nil_iff]
      exact fun field _ ↦ if_pos rfl
    exact if_pos hnil

theorem issueMutation_eq_some (h : issueMutation s s' = some mutation) :
    mutation = mutationFields s s' ∧ s ≠ s' := by
  refine ⟨?_, fun heq ↦ ?_⟩
  · rw [issueMutation] at h
    exact (Option.some.inj (Option.ite_none_left_eq_some.mp h).2).symm
  · rw [issueMutation_eq_none_iff.mpr heq] at h
    exact Option.some_ne_none _ h.symm

/-! ## Merged changes -/

/-- **Merged changes lead where the two lead**, if no text that was cut returns. -/
theorem LeadsTo.merge {previous : Option Mutation} {next : Mutation}
    (h : LeadsTo (previous.getD []) s t) (h' : LeadsTo next t u)
    (hkeeps : keepsTexts (previous.getD []) next) :
    LeadsTo (mergeProvenanceMutation previous next) s u := by
  have hmerge (field : String) := changeOf_merge h.nodup h'.nodup field
  -- the text before the merged change is that of the first snapshot
  have hbefore : ∀ field ∈ auditFields, ∀ change, changeOf next field.1 = some change →
      (mergedChange (changeOf (previous.getD []) field.1) change).before =
          (field.2 s).map compactAuditValue ∧
        (mergedChange (changeOf (previous.getD []) field.1) change).after =
          (field.2 u).map compactAuditValue := by
    intro field hfield change hchange
    obtain ⟨hb, ha⟩ := h'.changed field hfield change hchange
    cases hearlier : changeOf (previous.getD []) field.1 with
    | none =>
      rw [h.kept field hfield hearlier]
      exact ⟨hb, ha⟩
    | some earlier => exact ⟨(h.changed field hfield earlier hearlier).1, ha⟩
  refine ⟨nodup_merge h.nodup h'.nodup, ?_, ?_, ?_, ?_⟩
  · intro field hfield change hchange
    rw [hmerge] at hchange
    cases hnext : changeOf next field.1 with
    | none =>
      rw [hnext] at hchange
      rw [← h'.kept field hfield hnext]
      exact h.changed field hfield change hchange
    | some later =>
      rw [hnext] at hchange
      obtain ⟨-, heq⟩ := Option.ite_none_left_eq_some.mp hchange
      rw [← Option.some.inj heq]
      exact hbefore field hfield later hnext
  · intro field hfield hnone
    rw [hmerge] at hnone
    cases hnext : changeOf next field.1 with
    | none =>
      rw [hnext] at hnone
      rw [h.kept field hfield hnone, h'.kept field hfield hnext]
    | some later =>
      rw [hnext] at hnone
      have hreturns : (mergedChange (changeOf (previous.getD []) field.1) later).returns = true := by
        by_contra hne
        exact Option.some_ne_none _ ((if_neg hne).symm.trans hnone)
      obtain ⟨hb, ha⟩ := hbefore field hfield later hnext
      obtain ⟨hsome, heq⟩ := Bool.and_eq_true_iff.mp hreturns
      obtain ⟨text, htext⟩ := Option.isSome_iff_exists.mp hsome
      have hafter := (beq_iff_eq.mp heq).symm.trans htext
      have hlater : later.after = some text := by
        rw [← hafter]
        cases changeOf (previous.getD []) field.1 <;> rfl
      exact eq_of_compact_eq (hkeeps _ later text hnext htext hlater) (hb.symm.trans htext)
        (ha.symm.trans hafter)
  · intro change hchange
    rw [hmerge] at hchange
    cases hnext : changeOf next "what" with
    | none =>
      rw [hnext] at hchange
      exact h.whatChanged change hchange
    | some later =>
      rw [hnext] at hchange
      obtain ⟨-, heq⟩ := Option.ite_none_left_eq_some.mp hchange
      rw [← Option.some.inj heq]
      cases hearlier : changeOf (previous.getD []) "what" with
      | none => exact h'.whatChanged later hnext
      | some earlier => exact h.whatChanged earlier hearlier
  · intro hnone
    rw [hmerge] at hnone
    cases hnext : changeOf next "what" with
    | none =>
      rw [hnext] at hnone
      rw [h.whatKept hnone, h'.whatKept hnext]
    | some later =>
      rw [hnext] at hnone
      have hbefore : (mergedChange (changeOf (previous.getD []) "what") later).before = none := by
        cases hearlier : changeOf (previous.getD []) "what" with
        | none => exact h'.whatChanged later hnext
        | some earlier => exact h.whatChanged earlier hearlier
      have hstays : ¬ (mergedChange (changeOf (previous.getD []) "what") later).returns = true := by
        rw [FieldChange.returns, hbefore]
        exact Bool.false_ne_true
      exact absurd ((if_neg hstays).symm.trans hnone) (Option.some_ne_none _)

end OpenAlice.Workspaces.Issues
