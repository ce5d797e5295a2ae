import OpenAlice.Core.ProvenanceStore

/-!
# The net change of edits that are merged

The mutations of an artifact, merged by `mergeProvenanceMutation` in whatever grouping, should say
for every field what it was before the first and what it is after the last of them, and nothing of a
field that is what it was.  They do, but for fields that were unset, have been set, and are unset
again: a change without texts is kept, as if only the content had changed.  `Restores` is the
condition that there are none.
-/

namespace OpenAlice.Core

open OpenAlice.Data

/-! ## Edits -/

abbrev Fields := String → Option String

def Touches (mutation : Mutation) (field : String) : Prop :=
  field ∈ mutation.map FieldChange.field

structure Edits (contentOnly : String → Bool) (s : Fields) (mutation : Mutation) (t : Fields) :
    Prop where
  nodup : (mutation.map FieldChange.field).Nodup
  content : ∀ change ∈ mutation, contentOnly change.field = true →
    change.before = none ∧ change.after = none
  value : ∀ change ∈ mutation, contentOnly change.field = false →
    change.before = s change.field ∧ change.after = t change.field
  same : ∀ field, contentOnly field = false → ¬ Touches mutation field → t field = s field

/-- Edits one after another. -/
inductive History (contentOnly : String → Bool) : Fields → List Mutation → Fields → Prop
  | nil {s : Fields} : History contentOnly s [] s
  | cons {s t u : Fields} {mutation : Mutation} {mutations : List Mutation} :
      Edits contentOnly s mutation t → History contentOnly t mutations u →
      History contentOnly s (mutation :: mutations) u

inductive Grouping where
  | single (mutation : Mutation)
  | merge (earlier later : Grouping)

namespace Grouping

def mutations : Grouping → List Mutation
  | single mutation => [mutation]
  | merge earlier later => earlier.mutations ++ later.mutations

def merged : Grouping → Mutation
  | single mutation => mergeProvenanceMutation none mutation
  | merge earlier later => mergeProvenanceMutation (some earlier.merged) later.merged

end Grouping

def TouchedIn (mutations : List Mutation) (field : String) : Prop :=
  ∃ mutation ∈ mutations, Touches mutation field

/-- **The net change**: a value field has one entry with its first and its last text when they
differ, and none otherwise; a field of content has one when it was touched. -/
structure NetChange (contentOnly : String → Bool) (s : Fields) (mutations : List Mutation)
    (t : Fields) (net : Mutation) : Prop where
  nodup : (net.map FieldChange.field).Nodup
  changed : ∀ field, contentOnly field = false → s field ≠ t field →
    changeOf net field = some ⟨field, s field, t field⟩
  returned : ∀ field, contentOnly field = false → s field = t field → changeOf net field = none
  content : ∀ field, contentOnly field = true → TouchedIn mutations field →
    changeOf net field = some ⟨field, none, none⟩

def Restores (contentOnly : String → Bool) (s : Fields) (mutations : List Mutation) (t : Fields) :
    Prop :=
  ∀ field, contentOnly field = false → TouchedIn mutations field →
    ¬ (s field = none ∧ t field = none)

/-! ## One field -/

section Field

variable {contentOnly : String → Bool} {s t u : Fields} {mutation : Mutation}
  {mutations later : List Mutation} {field : String} {next : Mutation}

theorem touchedIn_append :
    TouchedIn (mutations ++ later) field ↔ TouchedIn mutations field ∨ TouchedIn later field := by
  simp only [TouchedIn, List.mem_append, or_and_right, exists_or]

theorem History.split (h : History contentOnly s (mutations ++ later) u) :
    ∃ t, History contentOnly s mutations t ∧ History contentOnly t later u := by
  induction mutations generalizing s with
  | nil => exact ⟨s, .nil, h⟩
  | cons mutation mutations ih =>
    cases h with
    | cons hedit h =>
      obtain ⟨t, hfirst, hlater⟩ := ih h
      exact ⟨t, .cons hedit hfirst, hlater⟩

theorem History.same (h : History contentOnly s mutations t) (hvalue : contentOnly field = false)
    (htouched : ¬ TouchedIn mutations field) : t field = s field := by
  induction h with
  | nil => rfl
  | @cons s t u mutation mutations hedit _ ih =>
    have hfirst : ¬ Touches mutation field := fun h ↦ htouched ⟨mutation, .head _, h⟩
    have hrest : ¬ TouchedIn mutations field := fun ⟨other, hmem, h⟩ ↦
      htouched ⟨other, .tail _ hmem, h⟩
    exact (ih hrest).trans (hedit.same field hvalue hfirst)

theorem changeOf_of_touches (h : Touches mutation field) :
    ∃ change ∈ mutation, change.field = field ∧ changeOf mutation field = some change := by
  cases hfind : changeOf mutation field with
  | none =>
    obtain ⟨change, hmem, rfl⟩ := List.mem_map.mp h
    rw [changeOf, List.find?_eq_none] at hfind
    exact absurd (decide_eq_true rfl) (hfind change hmem)
  | some change =>
    refine ⟨change, List.mem_of_find?_eq_some hfind, ?_, rfl⟩
    have hfield := List.find?_some hfind
    exact of_decide_eq_true hfield

/-- What is left of a value field that was first `first` and is `last`. -/
def netOf (field : String) (first last : Option String) : Option FieldChange :=
  if first = last ∧ first ≠ none then none else some ⟨field, first, last⟩

theorem mergedOf_eq (earlier : Option FieldChange) (change : FieldChange) :
    mergedOf earlier change =
      netOf change.field ((earlier.map FieldChange.before).getD change.before) change.after := by
  have hreturns : ∀ merged : FieldChange,
      merged.returns = true ↔ merged.before = merged.after ∧ merged.before ≠ none := by
    intro merged
    rw [FieldChange.returns, Bool.and_eq_true, beq_iff_eq, and_comm, ← Option.isSome_iff_ne_none]
  rw [mergedOf, netOf]
  cases earlier with
  | none =>
    rw [mergedChange, Option.map_none, Option.getD_none]
    exact if_congr (hreturns _) rfl rfl
  | some earlier =>
    rw [mergedChange, Option.map_some, Option.getD_some]
    exact if_congr (hreturns _) rfl rfl

theorem before_netOf (field : String) (first last : Option String) :
    ((netOf field first last).map FieldChange.before).getD last = first := by
  rw [netOf]
  split_ifs with h
  · exact h.1.symm
  · rfl

theorem netOf_trans (field : String) (first middle last : Option String) :
    (match netOf field middle last with
      | some change => mergedOf (netOf field first middle) change
      | none => netOf field first middle) = netOf field first last := by
  cases hlater : netOf field middle last with
  | none =>
    rw [netOf] at hlater
    split_ifs at hlater with hreturned
    rw [hreturned.1]
  | some change =>
    rw [netOf] at hlater
    split_ifs at hlater
    cases hlater
    exact (mergedOf_eq _ _).trans (congrArg (netOf field · last) (before_netOf field first middle))

theorem changeOf_merge_none (h : (mutation.map FieldChange.field).Nodup) (field : String) :
    changeOf (mergeProvenanceMutation none mutation) field =
      (changeOf mutation field).bind (mergedOf none) := by
  have hnone : ((none : Option Mutation).getD []).map FieldChange.field = [] := rfl
  refine (changeOf_merge (hnone ▸ List.nodup_nil) h field).trans ?_
  cases changeOf mutation field with
  | none => rfl
  | some change => rfl

theorem changeOf_merge_some {earlier : Mutation} (hearlier : (earlier.map FieldChange.field).Nodup)
    (hlater : (mutation.map FieldChange.field).Nodup) (field : String) :
    changeOf (mergeProvenanceMutation (some earlier) mutation) field =
      match changeOf mutation field with
      | some change => mergedOf (changeOf earlier field) change
      | none => changeOf earlier field := by
  have hsome : ((some earlier).getD []).map FieldChange.field = earlier.map FieldChange.field := rfl
  refine (changeOf_merge (hsome ▸ hearlier) hlater field).trans ?_
  cases changeOf mutation field with
  | none => rfl
  | some change => rfl

end Field

/-! ## Groupings -/

section Grouping

variable {contentOnly : String → Bool} {s t : Fields} {field : String}

theorem nodup_merged (g : Grouping) (h : History contentOnly s g.mutations t) :
    (g.merged.map FieldChange.field).Nodup := by
  induction g generalizing s t with
  | single mutation =>
    cases h with
    | cons hedit _ => exact nodup_merge List.nodup_nil hedit.nodup
  | merge earlier later hearlier hlater =>
    obtain ⟨u, hfirst, hsecond⟩ := History.split h
    exact nodup_merge (hearlier hfirst) (hlater hsecond)

def keptText (contentOnly : String → Bool) (s : Fields) (field : String) : Option String :=
  if contentOnly field then none else s field

theorem Edits.kept {mutation : Mutation} (h : Edits contentOnly s mutation t) {change : FieldChange}
    (hchange : change ∈ mutation) :
    change.before = keptText contentOnly s change.field ∧
      change.after = keptText contentOnly t change.field := by
  rw [keptText, keptText]
  cases hcontent : contentOnly change.field with
  | false => exact h.value change hchange hcontent
  | true => exact h.content change hchange hcontent

theorem History.kept {mutations : List Mutation} (h : History contentOnly s mutations t)
    (htouched : ¬ TouchedIn mutations field) :
    keptText contentOnly t field = keptText contentOnly s field := by
  rw [keptText, keptText]
  cases hcontent : contentOnly field with
  | false => exact h.same hcontent htouched
  | true => rfl

theorem changeOf_merged (g : Grouping) (h : History contentOnly s g.mutations t) :
    (TouchedIn g.mutations field → changeOf g.merged field =
      netOf field (keptText contentOnly s field) (keptText contentOnly t field)) ∧
      (¬ TouchedIn g.mutations field → changeOf g.merged field = none) := by
  induction g generalizing s t with
  | single mutation =>
    cases h with
    | cons hedit hnil =>
      cases hnil
      constructor
      · rintro ⟨other, hmem, htouches⟩
        obtain rfl := List.mem_singleton.mp hmem
        obtain ⟨change, hchange, rfl, hfind⟩ := changeOf_of_touches htouches
        obtain ⟨hbefore, hafter⟩ := hedit.kept hchange
        rw [Grouping.merged, changeOf_merge_none hedit.nodup, hfind, Option.bind_some,
          mergedOf_eq, ← hbefore, ← hafter]
        rfl
      · intro htouched
        have hnone := changeOf_eq_none fun hmem ↦ htouched ⟨mutation, .head _, hmem⟩
        rw [Grouping.merged, changeOf_merge_none hedit.nodup, hnone, Option.bind_none]
  | merge earlier later hearlier hlater =>
    obtain ⟨u, hfirst, hsecond⟩ := History.split h
    obtain ⟨hein, heout⟩ := hearlier hfirst
    obtain ⟨hlin, hlout⟩ := hlater hsecond
    rw [Grouping.merged, changeOf_merge_some (nodup_merged earlier hfirst)
      (nodup_merged later hsecond), Grouping.mutations, touchedIn_append]
    by_cases hl : TouchedIn later.mutations field
    · refine ⟨fun _ ↦ ?_, fun hnot ↦ absurd (.inr hl) hnot⟩
      rw [hlin hl]
      by_cases he : TouchedIn earlier.mutations field
      · rw [hein he]
        exact netOf_trans field _ _ _
      rw [heout he, ← hfirst.kept he]
      cases hlater : netOf field (keptText contentOnly u field) (keptText contentOnly t field) with
      | none => rfl
      | some change =>
        rw [netOf] at hlater
        split_ifs at hlater with hreturned
        cases hlater
        exact (mergedOf_eq none _).trans (if_neg hreturned)
    · rw [hlout hl, hsecond.kept hl]
      exact ⟨fun h ↦ hein (h.resolve_right hl), fun h ↦ heout fun he ↦ h (.inl he)⟩

theorem changeOf_merged_value (g : Grouping) (h : History contentOnly s g.mutations t)
    (hvalue : contentOnly field = false) (htouched : TouchedIn g.mutations field) :
    changeOf g.merged field = netOf field (s field) (t field) := by
  have hnet := (changeOf_merged g h).1 htouched
  rwa [keptText, keptText, hvalue] at hnet

theorem changeOf_merged_content (g : Grouping) (h : History contentOnly s g.mutations t)
    (hcontent : contentOnly field = true) (htouched : TouchedIn g.mutations field) :
    changeOf g.merged field = some ⟨field, none, none⟩ := by
  have hnet := (changeOf_merged g h).1 htouched
  rwa [keptText, keptText, hcontent] at hnet

/-- **Merged edits report the net change**, exactly when no value field that was changed is unset
before and after. -/
theorem merged_netChange (contentOnly : String → Bool) (g : Grouping)
    (h : History contentOnly s g.mutations t) :
    NetChange contentOnly s g.mutations t g.merged ↔ Restores contentOnly s g.mutations t := by
  constructor
  · intro hnet field hvalue htouched hunset
    have hnone := hnet.returned field hvalue (hunset.1.trans hunset.2.symm)
    rw [changeOf_merged_value g h hvalue htouched, netOf, if_neg fun hset ↦ hset.2 hunset.1] at hnone
    cases hnone
  intro hrestores
  refine ⟨nodup_merged g h, fun field hvalue hne ↦ ?_, fun field hvalue heq ↦ ?_,
    fun field hcontent ↦ changeOf_merged_content g h hcontent⟩
  · have htouched : TouchedIn g.mutations field := by
      by_contra hnot
      exact hne (h.same hvalue hnot).symm
    rw [changeOf_merged_value g h hvalue htouched, netOf, if_neg fun hsame ↦ hne hsame.1]
  · by_cases htouched : TouchedIn g.mutations field
    · rw [changeOf_merged_value g h hvalue htouched, netOf, if_pos]
      exact ⟨heq, fun hnone ↦ hrestores field hvalue htouched ⟨hnone, heq.symm.trans hnone⟩⟩
    · exact (changeOf_merged g h).2 htouched

end Grouping

/-! ## Two edits of a field -/

theorem Edits.set {contentOnly : String → Bool} {s : Fields} {field : String}
    (hvalue : contentOnly field = false) (text : Option String) :
    Edits contentOnly s [⟨field, s field, text⟩] (Function.update s field text) := by
  refine ⟨List.nodup_singleton _, fun change hchange hcontent ↦ ?_, fun change hchange _ ↦ ?_,
    fun other _ hother ↦ ?_⟩
  · obtain rfl := List.mem_singleton.mp hchange
    rw [hvalue] at hcontent
    cases hcontent
  · obtain rfl := List.mem_singleton.mp hchange
    exact ⟨rfl, (Function.update_self field text s).symm⟩
  · have hne : other ≠ field := by
      rintro rfl
      exact hother (.head _)
    exact Function.update_of_ne hne text s

def twice (field : String) (first middle last : Option String) : Grouping :=
  .merge (.single [⟨field, first, middle⟩]) (.single [⟨field, middle, last⟩])

theorem twice_history {contentOnly : String → Bool} {field : String}
    (hvalue : contentOnly field = false) (s : Fields) (middle last : Option String) :
    History contentOnly s (twice field (s field) middle last).mutations
      (Function.update (Function.update s field middle) field last) := by
  have hsecond := Edits.set (s := Function.update s field middle) hvalue last
  rw [Function.update_self] at hsecond
  exact .cons (.set hvalue middle) (.cons hsecond .nil)

def isWhat (field : String) : Bool := field = "what"

/-- A model that is unset, set and unset again: the entry stays. -/
theorem unset_stays : ¬ ∀ (s t : Fields) (g : Grouping), History isWhat s g.mutations t →
      NetChange isWhat s g.mutations t g.merged := by
  intro hall
  have hnet := hall _ _ _ (twice_history (by decide : isWhat "model" = false) (fun _ ↦ none)
    (some "opus") none)
  have hnone := hnet.returned "model" (by decide) (by rw [Function.update_self])
  exact absurd hnone (by decide)

theorem merged_netChange_title :
    NetChange isWhat (fun _ ↦ some "a") (twice "title" (some "a") (some "b") (some "c")).mutations
        (Function.update (Function.update (fun _ ↦ some "a") "title" (some "b")) "title" (some "c"))
        (twice "title" (some "a") (some "b") (some "c")).merged ↔
      Restores isWhat (fun _ ↦ some "a") (twice "title" (some "a") (some "b") (some "c")).mutations
        (Function.update (Function.update (fun _ ↦ some "a") "title" (some "b")) "title"
          (some "c")) :=
  merged_netChange isWhat _ (twice_history (by decide) (fun _ ↦ some "a") (some "b") (some "c"))

end OpenAlice.Core
