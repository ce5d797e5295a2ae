import OpenAlice.Workspaces.Issues.Mutate

/-!
# What a patch of an Issue asks for

A patch asks for values of some keys.  `Patched` says, key by key, what the mapping in the file
should be after it, and `applyPatch` says it of the record.  They are what is asked for, and no
functions of the source.

`patched_of_patchData` says that the mapping is what was asked for, and `record_patched` that the
record read of such a mapping is, too, but for one case: an Issue without an assignee has another
owner when it is scheduled.
-/

namespace OpenAlice.Workspaces.Issues

open OpenAlice.Data OpenAlice.Scheduling

/-! ## What a patch asks for -/

def asked (value : Option (Option Text)) (old : Option Plain) : Option Plain :=
  match value with
  | none => old
  | some value => value.map .str

namespace IssueFieldPatch

variable (patch : IssueFieldPatch)

def givesSession : Bool := patch.assignee.any fun assignee ↦ isSession (trim assignee)

def unlessSession {α : Type} (old : Option α) : Option α := if patch.givesSession then none else old

def givesCredential : Bool := (patch.credential.bind id).isSome

def givesCredentialSource : Bool := (patch.credentialSource.bind id).isSome

def askedPrompt (prompt : Option Text) : Option Text :=
  prompt.bind fun template ↦ if trim template = [] then none else some (trim template)

def givesDesk : Bool := patch.connectorDesk.isSome || patch.telegramConnector.isSome

end IssueFieldPatch

def askedCatchUp (catchUp : Bool) : Plain → Plain
  | .map entries =>
    .map (if catchUp then deleteKey entries "catchUp" else setKey entries "catchUp" (.bool false))
  | value => value

def withCatchUp (catchUp : Bool) : Schedule → Schedule
  | .cron cron timezone _ => .cron cron timezone (if catchUp then none else some false)
  | schedule => schedule

def flaggedDesk : Option Plain → Option Plain
  | some (.bool true) => some (.str "telegram".toList)
  | _ => none

/-- **What the mapping in the file is after a patch**, key by key.  A key that is not among those
of an Issue is what its author wrote; those that are read for the sake of old files only stand
for others. -/
structure Patched (env : IssueEnv) (patch : IssueFieldPatch) (current : IssueRecord)
    (data data' : Mapping) : Prop where
  title : data'.lookup "title" = data.lookup "title"
  status : data'.lookup "status" = (patch.status.map Plain.str).or (data.lookup "status")
  priority : data'.lookup "priority" = (patch.priority.map Plain.str).or (data.lookup "priority")
  assignee : data'.lookup "assignee" = (patch.assignee.map fun a ↦ Plain.str (trim a)).or
    ((normalizeAssignee current data).lookup "assignee")
  agent : data'.lookup "agent" =
    asked (patch.agent.map (Option.map trim)) (patch.unlessSession (data.lookup "agent"))
  credential : data'.lookup "credential" = if patch.givesCredentialSource then none else
    asked (patch.credential.map (Option.map trim)) (patch.unlessSession (data.lookup "credential"))
  credentialSource : data'.lookup "credentialSource" = asked patch.credentialSource
    (if patch.givesCredential then none else patch.unlessSession (data.lookup "credentialSource"))
  model : data'.lookup "model" =
    asked (patch.model.map (Option.map trim)) (patch.unlessSession (data.lookup "model"))
  effort : data'.lookup "effort" = asked patch.effort (patch.unlessSession (data.lookup "effort"))
  timeout : data'.lookup "timeout" = asked patch.timeout (data.lookup "timeout")
  commentPrompt : data'.lookup "commentPrompt" =
    asked (patch.commentPrompt.map IssueFieldPatch.askedPrompt) (data.lookup "commentPrompt")
  connectorDesk : data'.lookup "connectorDesk" = if patch.givesDesk then patch.desk.map .str else
    (data.lookup "connectorDesk").or (flaggedDesk (data.lookup "telegramConnector"))
  when? : data'.lookup "when" =
    ((patch.when?.bind fun value ↦ ((readWhen env value).toOption.map schedulePlain)).or
      (data.lookup "when")).map fun value ↦ patch.catchUp.elim value (askedCatchUp · value)
  telegramConnector : data'.lookup "telegramConnector" = none
  what : data'.lookup "what" = none
  execution : data'.lookup "execution" = data.lookup "execution"
  other : ∀ key, key ∉ ["title", "status", "priority", "assignee", "agent", "credential",
    "credentialSource", "model", "effort", "timeout", "commentPrompt", "connectorDesk", "when",
    "telegramConnector", "what", "execution"] → data'.lookup key = data.lookup key

/-- **What the record is after a patch.** -/
def applyPatch (env : IssueEnv) (patch : IssueFieldPatch) (issue : IssueRecord) : IssueRecord where
  id := issue.id
  title := issue.title
  status := (patch.status.bind fun name ↦ issueStatuses.lookup name).getD issue.status
  priority := (patch.priority.bind fun name ↦ issuePriorities.lookup name).getD issue.priority
  assignee := (patch.assignee.map trim).getD issue.assignee
  when? := ((patch.when?.bind fun value ↦ (readWhen env value).toOption).or issue.when?).map
    fun schedule ↦ patch.catchUp.elim schedule (withCatchUp · schedule)
  agent := (patch.agent.map (Option.map trim)).getD (patch.unlessSession issue.agent)
  credential := if patch.givesCredentialSource then none else
    (patch.credential.map (Option.map trim)).getD (patch.unlessSession issue.credential)
  credentialSource := (patch.credentialSource.map fun v ↦ v.bind fun name ↦ credentialSources.lookup name).getD
    (if patch.givesCredential then none else patch.unlessSession issue.credentialSource)
  model := (patch.model.map (Option.map trim)).getD (patch.unlessSession issue.model)
  effort := (patch.effort.map fun v ↦ v.bind fun name ↦ modelReasoningEfforts.lookup name).getD
    (patch.unlessSession issue.effort)
  timeout := (patch.timeout.map fun v ↦ v.bind fun name ↦ issueTimeouts.lookup name).getD issue.timeout
  commentPrompt := (patch.commentPrompt.map IssueFieldPatch.askedPrompt).getD issue.commentPrompt
  connectorDesk := if patch.givesDesk then patch.desk else issue.connectorDesk
  what := (patch.what.map trim).getD issue.what

/-! ## The keys that a patch sets -/

section Keys

variable {env : IssueEnv} {allowDesk : Bool} {patch : IssueFieldPatch} {current : IssueRecord}
  {data data' : Mapping}

theorem patchName_lookup {α : Type} {names : List (Text × α)} {key : String} {value : Option Text}
    (h : patchName data key names value = .ok data') (k : String) :
    data'.lookup k =
      if k = key then (value.map Plain.str).or (data.lookup k) else data.lookup k := by
  cases value with
  | none =>
    cases h
    rw [Option.map_none, Option.none_or, ite_self]
  | some name =>
    rw [patchName] at h
    split_ifs at h
    · cases h
    cases h
    split_ifs with hk
    · rw [hk, lookup_setKey_self]
      rfl
    · exact lookup_setKey_of_ne hk data

theorem patchText_lookup {key error : String} {value : Option (Option Text)}
    (h : patchText data key error value = .ok data') (k : String) :
    data'.lookup k =
      if k = key then asked (value.map (Option.map trim)) (data.lookup k) else data.lookup k := by
  match value, h with
  | none, h =>
    cases h
    exact (ite_self _).symm
  | some none, h =>
    cases h
    split_ifs with hk
    · rw [hk, lookup_deleteKey_self]
      rfl
    · exact lookup_deleteKey_of_ne hk data
  | some (some text), h =>
    rw [patchText] at h
    split_ifs at h
    · cases h
    cases h
    split_ifs with hk
    · rw [hk, lookup_setKey_self]
      rfl
    · exact lookup_setKey_of_ne hk data

theorem patchChoice_lookup {α : Type} {names : List (Text × α)} {key error : String}
    {value : Option (Option Text)} (h : patchChoice data key names error value = .ok data')
    (k : String) :
    data'.lookup k = if k = key then asked value (data.lookup k) else data.lookup k := by
  match value, h with
  | none, h =>
    cases h
    exact (ite_self _).symm
  | some none, h =>
    cases h
    split_ifs with hk
    · rw [hk, lookup_deleteKey_self]
      rfl
    · exact lookup_deleteKey_of_ne hk data
  | some (some text), h =>
    rw [patchChoice] at h
    split_ifs at h
    · cases h
    cases h
    split_ifs with hk
    · rw [hk, lookup_setKey_self]
      rfl
    · exact lookup_setKey_of_ne hk data

theorem normalizeAssignee_lookup (k : String) (hk : k ≠ "assignee") :
    (normalizeAssignee current data).lookup k = data.lookup k := by
  rw [normalizeAssignee]
  split
  · split_ifs
    · exact lookup_setKey_of_ne hk data
    · rfl
  · rfl

theorem patchAssignee_lookup (h : patchAssignee patch data = .ok data') (k : String) :
    data'.lookup k =
      if k = "assignee" then (patch.assignee.map fun a ↦ Plain.str (trim a)).or (data.lookup k)
      else if k ∈ runtimeKeys then patch.unlessSession (data.lookup k) else data.lookup k := by
  have hassignee : "assignee" ∉ runtimeKeys := by decide
  cases hgiven : patch.assignee with
  | none =>
    rw [patchAssignee, hgiven] at h
    cases h
    simp only [Option.map_none, Option.none_or, IssueFieldPatch.unlessSession,
      IssueFieldPatch.givesSession, hgiven, Option.any_none, Bool.false_eq_true, if_false, ite_self]
  | some value =>
    rw [patchAssignee, hgiven] at h
    simp only at h
    split at h
    · cases h
    split_ifs at h with hvalid hsession
    · cases h
    · cases h
      rw [lookup_foldl_deleteKey]
      split_ifs with hk hmem hmem
      · rw [hmem] at hk
        exact absurd hk hassignee
      · simp only [IssueFieldPatch.unlessSession, IssueFieldPatch.givesSession, hgiven,
          Option.any_some, hsession, if_true]
      · rw [hmem, lookup_setKey_self]
        rfl
      · exact lookup_setKey_of_ne hmem data
    · cases h
      split_ifs with hk hmem
      · rw [hk, lookup_setKey_self]
        rfl
      · rw [lookup_setKey_of_ne hk]
        simp only [IssueFieldPatch.unlessSession, IssueFieldPatch.givesSession, hgiven,
          Option.any_some, hsession, Bool.false_eq_true, if_false]
      · exact lookup_setKey_of_ne hk data

theorem patchCredential_lookup (h : patchCredential patch data = .ok data') (k : String) :
    data'.lookup k =
      if k = "credential" then asked (patch.credential.map (Option.map trim)) (data.lookup k)
      else if k = "credentialSource" ∧ patch.givesCredential = true then none
      else data.lookup k := by
  obtain ⟨data₁, h₁, h⟩ := bind_ok h
  cases h
  rw [← IssueFieldPatch.givesCredential]
  cases hgives : patch.givesCredential with
  | false =>
    simp only [Bool.false_eq_true, if_false, and_false]
    exact patchText_lookup h₁ k
  | true =>
    simp only [if_true, and_true]
    by_cases hk : k = "credentialSource"
    · subst hk
      rw [lookup_deleteKey_self]
      rfl
    · rw [lookup_deleteKey_of_ne hk, patchText_lookup h₁ k, if_neg hk]

theorem patchCredentialSource_lookup (h : patchCredentialSource patch data = .ok data')
    (k : String) :
    data'.lookup k =
      if k = "credentialSource" then asked patch.credentialSource (data.lookup k)
      else if k = "credential" ∧ patch.givesCredentialSource = true then none
      else data.lookup k := by
  obtain ⟨data₁, h₁, h⟩ := bind_ok h
  cases h
  rw [← IssueFieldPatch.givesCredentialSource]
  cases hgives : patch.givesCredentialSource with
  | false =>
    simp only [Bool.false_eq_true, if_false, and_false]
    exact patchChoice_lookup h₁ k
  | true =>
    simp only [if_true, and_true]
    by_cases hk : k = "credential"
    · subst hk
      rw [lookup_deleteKey_self]
      rfl
    · rw [lookup_deleteKey_of_ne hk, patchChoice_lookup h₁ k, if_neg hk]

theorem parseIssueCommentPrompt_ok {value template : Text}
    (h : parseIssueCommentPrompt value = .ok template) : template = trim value ∧ template ≠ [] := by
  rw [parseIssueCommentPrompt] at h
  split_ifs at h with hnil
  cases h
  exact ⟨rfl, hnil⟩

theorem patchCommentPrompt_lookup (h : patchCommentPrompt patch data = .ok data') (k : String) :
    data'.lookup k =
      if k = "commentPrompt" then
        asked (patch.commentPrompt.map IssueFieldPatch.askedPrompt) (data.lookup k)
      else data.lookup k := by
  cases hgiven : patch.commentPrompt with
  | none =>
    rw [patchCommentPrompt, hgiven] at h
    cases h
    exact (ite_self _).symm
  | some value =>
    rw [patchCommentPrompt, hgiven] at h
    simp only at h
    split_ifs at h with hblank
    · cases h
      split_ifs with hk
      · rw [hk, lookup_deleteKey_self]
        cases value with
        | none => rfl
        | some prompt =>
          rw [Option.getD_some] at hblank
          rw [Option.map_some, asked, IssueFieldPatch.askedPrompt, Option.bind_some, if_pos hblank]
          rfl
      · exact lookup_deleteKey_of_ne hk data
    · split at h
      · cases h
      rename_i template htemplate
      cases h
      obtain ⟨rfl, hne⟩ := parseIssueCommentPrompt_ok htemplate
      split_ifs with hk
      · rw [hk, lookup_setKey_self]
        cases value with
        | none => exact (hblank rfl).elim
        | some prompt =>
          have hprompt : trim prompt ≠ [] := hne
          rw [Option.map_some, asked, IssueFieldPatch.askedPrompt, Option.bind_some,
            if_neg hprompt]
          rfl
      · exact lookup_setKey_of_ne hk data

theorem flaggedDesk_of_ne {value : Option Plain} (h : value ≠ some (.bool true)) :
    flaggedDesk value = none := by
  rw [flaggedDesk]
  exact h

theorem patchDesk_lookup (h : patchDesk allowDesk patch data = .ok data') (k : String) :
    data'.lookup k =
      if k = "telegramConnector" then none
      else if k = "connectorDesk" then
        if patch.givesDesk then patch.desk.map Plain.str
        else (data.lookup k).or (flaggedDesk (data.lookup "telegramConnector"))
      else data.lookup k := by
  rw [patchDesk] at h
  split_ifs at h with hgives hallow
  · cases h
  · have hgives' : patch.givesDesk = true := by
      rw [IssueFieldPatch.givesDesk, Bool.or_eq_true]
      exact hgives
    cases h
    rw [if_pos hgives']
    cases hdesk : patch.desk with
    | none =>
      simp only [Option.map_none]
      by_cases hk : k = "connectorDesk"
      · subst hk
        rw [lookup_deleteKey_self]
        rfl
      rw [lookup_deleteKey_of_ne hk, if_neg hk]
      split_ifs with ht
      · rw [ht, lookup_deleteKey_self]
      · exact lookup_deleteKey_of_ne ht data
    | some desk =>
      simp only [Option.map_some]
      by_cases hk : k = "connectorDesk"
      · subst hk
        rw [lookup_setKey_self]
        rfl
      rw [lookup_setKey_of_ne hk, if_neg hk]
      split_ifs with ht
      · rw [ht, lookup_deleteKey_self]
      · exact lookup_deleteKey_of_ne ht data
  · have hgives' : ¬ patch.givesDesk = true := by
      rw [IssueFieldPatch.givesDesk, Bool.or_eq_true]
      exact hgives
    rw [if_neg hgives']
    split at h
    · rename_i htelegram hdesk
      cases h
      by_cases ht : k = "telegramConnector"
      · rw [ht, lookup_deleteKey_self]
        rfl
      rw [lookup_deleteKey_of_ne ht, if_neg ht, htelegram]
      split_ifs with hk
      · rw [hk, lookup_setKey_self, hdesk]
        rfl
      · exact lookup_setKey_of_ne hk data
    · rename_i hnot
      cases h
      by_cases ht : k = "telegramConnector"
      · rw [ht, lookup_deleteKey_self]
        rfl
      rw [lookup_deleteKey_of_ne ht, if_neg ht]
      split_ifs with hk
      · subst hk
        cases hdesk : data.lookup "connectorDesk" with
        | some desk => rfl
        | none =>
          exact (flaggedDesk_of_ne fun htelegram ↦ hnot htelegram hdesk).symm
      · rfl

theorem patchWhen_lookup (h : patchWhen env patch data = .ok data') (k : String) : data'.lookup k =
      if k = "when" then
        (patch.when?.bind fun value ↦ (readWhen env value).toOption.map schedulePlain).or
          (data.lookup k)
      else data.lookup k := by
  cases hgiven : patch.when? with
  | none =>
    rw [patchWhen, hgiven] at h
    cases h
    exact (ite_self _).symm
  | some value =>
    rw [patchWhen, hgiven] at h
    simp only at h
    split at h
    · cases h
    rename_i schedule hschedule
    cases h
    split_ifs with hk
    · rw [hk, lookup_setKey_self, Option.bind_some, hschedule]
      rfl
    · exact lookup_setKey_of_ne hk data

theorem patchCatchUp_lookup (h : patchCatchUp patch data = .ok data') (k : String) :
    data'.lookup k =
      if k = "when" then
        (data.lookup k).map fun value ↦ patch.catchUp.elim value (askedCatchUp · value)
      else data.lookup k := by
  cases hgiven : patch.catchUp with
  | none =>
    rw [patchCatchUp, hgiven] at h
    cases h
    simp
  | some catchUp =>
    rw [patchCatchUp, hgiven] at h
    simp only at h
    split at h
    · rename_i entries hentries
      split at h
      · rename_i kind _
        by_cases hkind : kind = "cron".toList
        · rw [if_pos hkind] at h
          cases h
          by_cases hk : k = "when"
          · rw [if_pos hk, hk, lookup_setKey_self, hentries]
            rfl
          · rw [if_neg hk]
            exact lookup_setKey_of_ne hk data
        · rw [if_neg hkind] at h
          cases h
      · cases h
    · cases h

theorem patched_of_patchData (h : patchData env allowDesk patch current data = .ok data') :
    Patched env patch current data (deleteKey data' "what") := by
  obtain ⟨d₁, h₁, h⟩ := bind_ok h
  obtain ⟨d₂, h₂, h⟩ := bind_ok h
  obtain ⟨d₃, h₃, h⟩ := bind_ok h
  obtain ⟨d₄, h₄, h⟩ := bind_ok h
  obtain ⟨d₅, h₅, h⟩ := bind_ok h
  obtain ⟨d₆, h₆, h⟩ := bind_ok h
  obtain ⟨d₇, h₇, h⟩ := bind_ok h
  obtain ⟨d₈, h₈, h⟩ := bind_ok h
  obtain ⟨d₉, h₉, h⟩ := bind_ok h
  obtain ⟨d₁₀, h₁₀, h⟩ := bind_ok h
  obtain ⟨d₁₁, h₁₁, h⟩ := bind_ok h
  obtain ⟨d₁₂, h₁₂, h⟩ := bind_ok h
  have hlookup : ∀ k, k ≠ "what" → (deleteKey data' "what").lookup k = data'.lookup k :=
    fun k hk ↦ lookup_deleteKey_of_ne hk data'
  have hname := fun k ↦ patchName_lookup h₁ k
  have hpriority := fun k ↦ patchName_lookup h₂ k
  have hassignee := fun k ↦ patchAssignee_lookup h₃ k
  have hagent := fun k ↦ patchText_lookup h₄ k
  have hcredential := fun k ↦ patchCredential_lookup h₅ k
  have hsource := fun k ↦ patchCredentialSource_lookup h₆ k
  have hmodel := fun k ↦ patchText_lookup h₇ k
  have heffort := fun k ↦ patchChoice_lookup h₈ k
  have htimeout := fun k ↦ patchChoice_lookup h₉ k
  have hprompt := fun k ↦ patchCommentPrompt_lookup h₁₀ k
  have hdesk := fun k ↦ patchDesk_lookup h₁₁ k
  have hwhen := fun k ↦ patchWhen_lookup h₁₂ k
  have hcatchUp := fun k ↦ patchCatchUp_lookup h k
  constructor
  case other =>
    intro k hk
    simp only [List.mem_cons, List.not_mem_nil, or_false, not_or] at hk
    simp [hlookup, hcatchUp, hwhen, hdesk, hprompt, htimeout, heffort, hmodel, hsource,
      hcredential, hagent, hassignee, hpriority, hname, runtimeKeys, normalizeAssignee_lookup, hk]
  -- Most steps leave most keys alone.
  all_goals simp [hlookup, hcatchUp, hwhen, hdesk, hprompt, htimeout, heffort, hmodel, hsource,
      hcredential, hagent, hassignee, hpriority, hname, runtimeKeys, normalizeAssignee_lookup]

theorem Patched.lookup_eq {data₁ data₂ : Mapping} (h₁ : Patched env patch current data data₁)
    (h₂ : Patched env patch current data data₂) (key : String) :
    data₁.lookup key = data₂.lookup key := by
  by_cases hkey : key ∈ ["title", "status", "priority", "assignee", "agent", "credential",
      "credentialSource", "model", "effort", "timeout", "commentPrompt", "connectorDesk", "when",
      "telegramConnector", "what", "execution"]
  · simp only [List.mem_cons, List.not_mem_nil, or_false] at hkey
    rcases hkey with rfl | rfl | rfl | rfl | rfl | rfl | rfl | rfl | rfl | rfl | rfl | rfl | rfl |
      rfl | rfl | rfl
    · exact h₁.title.trans h₂.title.symm
    · exact h₁.status.trans h₂.status.symm
    · exact h₁.priority.trans h₂.priority.symm
    · exact h₁.assignee.trans h₂.assignee.symm
    · exact h₁.agent.trans h₂.agent.symm
    · exact h₁.credential.trans h₂.credential.symm
    · exact h₁.credentialSource.trans h₂.credentialSource.symm
    · exact h₁.model.trans h₂.model.symm
    · exact h₁.effort.trans h₂.effort.symm
    · exact h₁.timeout.trans h₂.timeout.symm
    · exact h₁.commentPrompt.trans h₂.commentPrompt.symm
    · exact h₁.connectorDesk.trans h₂.connectorDesk.symm
    · exact h₁.when?.trans h₂.when?.symm
    · exact h₁.telegramConnector.trans h₂.telegramConnector.symm
    · exact h₁.what.trans h₂.what.symm
    · exact h₁.execution.trans h₂.execution.symm
  · exact (h₁.other key hkey).trans (h₂.other key hkey).symm

theorem Patched.congr {data₁ data₂ : Mapping} (h : Patched env patch current data data₁)
    (heq : ∀ key, data₂.lookup key = data₁.lookup key) : Patched env patch current data data₂ where
  title := (heq _).trans h.title
  status := (heq _).trans h.status
  priority := (heq _).trans h.priority
  assignee := (heq _).trans h.assignee
  agent := (heq _).trans h.agent
  credential := (heq _).trans h.credential
  credentialSource := (heq _).trans h.credentialSource
  model := (heq _).trans h.model
  effort := (heq _).trans h.effort
  timeout := (heq _).trans h.timeout
  commentPrompt := (heq _).trans h.commentPrompt
  connectorDesk := (heq _).trans h.connectorDesk
  when? := (heq _).trans h.when?
  telegramConnector := (heq _).trans h.telegramConnector
  what := (heq _).trans h.what
  execution := (heq _).trans h.execution
  other := fun key hkey ↦ (heq key).trans (h.other key hkey)

end Keys

/-! ## The fields that are read -/

section Fields

variable {env : IssueEnv} {data data' : Mapping} {fields fields' : IssueFields}

theorem atKey_ok {α : Type} {key : String} {read : Option Plain → Checked α} {a : α}
    (h : atKey data key read = .ok a) : read (data.lookup key) = .ok a := by
  rw [atKey] at h
  cases hread : read (data.lookup key) with
  | error e =>
    rw [hread] at h
    cases h
  | ok b =>
    rw [hread] at h
    cases h
    rfl

/-- **Each field is read of its key.** -/
structure FieldsOf (env : IssueEnv) (data : Mapping) (fields : IssueFields) : Prop where
  title : required readText (data.lookup "title") = .ok fields.title
  status : defaulted .todo (readEnum issueStatuses) (data.lookup "status") = .ok fields.status
  priority : defaulted .none (readEnum issuePriorities) (data.lookup "priority") =
    .ok fields.priority
  assignee : optional readAssignee (data.lookup "assignee") = .ok fields.assignee
  when? : optional (readWhen env) (data.lookup "when") = .ok fields.when?
  what : optional readText (data.lookup "what") = .ok fields.what
  agent : optional readText (data.lookup "agent") = .ok fields.agent
  credential : optional readText (data.lookup "credential") = .ok fields.credential
  credentialSource : optional (readEnum credentialSources) (data.lookup "credentialSource") =
    .ok fields.credentialSource
  model : optional readText (data.lookup "model") = .ok fields.model
  effort : optional readEffort (data.lookup "effort") = .ok fields.effort
  timeout : optional (readEnum issueTimeouts) (data.lookup "timeout") = .ok fields.timeout
  commentPrompt : optional readText (data.lookup "commentPrompt") = .ok fields.commentPrompt
  connectorDesk : optional readConnectorDesk (data.lookup "connectorDesk") =
    .ok fields.connectorDesk
  telegramConnector : optional readTrue (data.lookup "telegramConnector") =
    .ok fields.telegramConnector

theorem fieldsOf_readFields (h : readFields env data = .ok fields) : FieldsOf env data fields := by
  obtain ⟨⟨title, status, priority, assignee, when?, what, agent, credential, credentialSource,
    model, effort, timeout, commentPrompt, connectorDesk, telegramConnector, execution⟩, hread, rfl⟩ :=
    map_ok h
  obtain ⟨h₁, h⟩ := both_ok hread
  obtain ⟨h₂, h⟩ := both_ok h
  obtain ⟨h₃, h⟩ := both_ok h
  obtain ⟨h₄, h⟩ := both_ok h
  obtain ⟨h₅, h⟩ := both_ok h
  obtain ⟨h₆, h⟩ := both_ok h
  obtain ⟨h₇, h⟩ := both_ok h
  obtain ⟨h₈, h⟩ := both_ok h
  obtain ⟨h₉, h⟩ := both_ok h
  obtain ⟨h₁₀, h⟩ := both_ok h
  obtain ⟨h₁₁, h⟩ := both_ok h
  obtain ⟨h₁₂, h⟩ := both_ok h
  obtain ⟨h₁₃, h⟩ := both_ok h
  obtain ⟨h₁₄, h⟩ := both_ok h
  obtain ⟨h₁₅, -⟩ := both_ok h
  exact ⟨atKey_ok h₁, atKey_ok h₂, atKey_ok h₃, atKey_ok h₄, atKey_ok h₅, atKey_ok h₆, atKey_ok h₇,
    atKey_ok h₈, atKey_ok h₉, atKey_ok h₁₀, atKey_ok h₁₁, atKey_ok h₁₂, atKey_ok h₁₃, atKey_ok h₁₄,
    atKey_ok h₁₅⟩

theorem fieldsOf_checkFrontmatter (h : checkFrontmatter env data = .ok fields) :
    FieldsOf env data fields := by
  rw [checkFrontmatter] at h
  obtain ⟨read, hread, h⟩ := bind_ok h
  split_ifs at h
  cases h
  exact fieldsOf_readFields hread

theorem parseIssueContent_ok {id raw : Text} {issue : IssueRecord}
    (h : parseIssueContent env id raw = .ok issue) :
    ∃ split data fields, splitFrontmatter raw = some split ∧
      env.parseYaml split.frontmatter = .ok (.map data) ∧ checkFrontmatter env data = .ok fields ∧
        issue = fields.record id
          (mergeLegacyWhat fields.what (splitLegacyIssueDocument split.body).what fields.title) := by
  rw [parseIssueContent] at h
  split at h
  · cases h
  rename_i split hsplit
  split at h
  · cases h
  · rename_i data hdata
    split at h
    · cases h
    rename_i fields hfields
    cases h
    exact ⟨split, data, fields, hsplit, hdata, hfields, rfl⟩
  · cases h

/-! ### One field after a patch -/

variable {patch : IssueFieldPatch} {current : IssueRecord}

theorem ok_unique {ε α : Type} {x : Except ε α} {a b : α} (h : x = .ok a) (h' : x = .ok b) :
    a = b :=
  Except.ok.inj (h.symm.trans h')

variable {old : Option Plain}

theorem defaulted_patched {α : Type} {names : List (Text × α)} {value₀ a a' : α}
    {value : Option Text}
    (h : defaulted value₀ (readEnum names) old = .ok a)
    (h' : defaulted value₀ (readEnum names) ((value.map Plain.str).or old) = .ok a') :
    a' = (value.bind fun name ↦ names.lookup name).getD a := by
  cases value with
  | none =>
    rw [Option.map_none, Option.none_or] at h'
    exact ok_unique h' h
  | some name =>
    simp only [Option.map_some, Option.some_or, defaulted, readEnum] at h'
    cases hname : names.lookup name with
    | none =>
      rw [hname] at h'
      cases h'
    | some b =>
      rw [hname] at h'
      cases h'
      rw [Option.bind_some, hname]
      rfl

theorem optional_unlessSession {α : Type} {read : Plain → Checked α}
    {a : Option α} (h : optional read old = .ok a) :
    optional read (patch.unlessSession old) = .ok (patch.unlessSession a) := by
  rw [IssueFieldPatch.unlessSession, IssueFieldPatch.unlessSession]
  split_ifs
  · rfl
  · exact h

theorem optional_asked {α : Type} {read : Plain → Checked α} {f : Text → Option α}
    (hread : ∀ text b, read (.str text) = .ok b → f text = some b)
    {value : Option (Option Text)} {a a' : Option α} (h : optional read old = .ok a)
    (h' : optional read (asked value old) = .ok a') :
    a' = (value.map fun v ↦ v.bind f).getD a := by
  match value, h' with
  | none, h' => exact ok_unique h' h
  | some none, h' => exact (ok_unique h' rfl : a' = none)
  | some (some text), h' =>
    obtain ⟨b, hb, rfl⟩ := map_ok h'
    rw [Option.map_some, Option.bind_some, hread text b hb]
    rfl

theorem readText_ok {text b : Text} (h : readText (.str text) = .ok b) : some text = some b := by
  rw [readText] at h
  split_ifs at h
  · cases h
  · exact congrArg some (Except.ok.inj h)

theorem readEnum_ok {α : Type} {names : List (Text × α)} {text : Text} {b : α}
    (h : readEnum names (.str text) = .ok b) : names.lookup text = some b := by
  rw [readEnum] at h
  cases hname : names.lookup text with
  | none =>
    rw [hname] at h
    cases h
  | some c =>
    rw [hname] at h
    cases h
    rfl

theorem readEffort_ok {text : Text} {b : Effort} (h : readEffort (.str text) = .ok b) :
    modelReasoningEfforts.lookup text = some b := by
  rw [readEffort] at h
  cases hname : modelReasoningEfforts.lookup text with
  | none =>
    rw [hname] at h
    cases h
  | some c =>
    rw [hname] at h
    cases h
    rfl

theorem optional_askedText {value : Option (Option Text)}
    {a a' : Option Text} (h : optional readText old = .ok a)
    (h' : optional readText (asked value old) = .ok a') : a' = value.getD a := by
  have hasked := optional_asked (f := some) (fun _ _ ↦ readText_ok) h h'
  rw [hasked]
  cases value with
  | none => rfl
  | some v => cases v <;> rfl

/-! ### The schedule after a patch -/

inductive WhenOf (env : IssueEnv) (entries : Mapping) : Schedule → Prop
  | at {t : Text} : entries.lookup "kind" = some (.str "at".toList) →
      required readText (entries.lookup "at") = .ok t → WhenOf env entries (.at (String.ofList t))
  | every {t : Text} : entries.lookup "kind" = some (.str "every".toList) →
      required readText (entries.lookup "every") = .ok t →
        WhenOf env entries (.every (String.ofList t))
  | cron {t : Text} {timezone : Option Text} {catchUp : Option Bool} :
      entries.lookup "kind" = some (.str "cron".toList) →
      required readText (entries.lookup "cron") = .ok t →
      optional (readTimezone env) (entries.lookup "timezone") = .ok timezone →
      optional readBool (entries.lookup "catchUp") = .ok catchUp →
        WhenOf env entries (.cron (String.ofList t) (timezone.map String.ofList) catchUp)

variable {entries : Mapping}

theorem whenOf_readWhen {schedule : Schedule}
    (h : readWhen env (.map entries) = .ok schedule) : WhenOf env entries schedule := by
  rw [readWhen] at h
  split at h
  · rename_i kind hkind
    split_ifs at h with hat hevery hcron
    · obtain ⟨t, ht, rfl⟩ := map_ok h
      exact .at (by rw [hkind, hat]) (atKey_ok ht)
    · obtain ⟨t, ht, rfl⟩ := map_ok h
      exact .every (by rw [hkind, hevery]) (atKey_ok ht)
    · obtain ⟨⟨t, timezone, catchUp⟩, ht, rfl⟩ := map_ok h
      obtain ⟨ht, hrest⟩ := both_ok ht
      obtain ⟨htimezone, hcatchUp⟩ := both_ok hrest
      exact .cron (by rw [hkind, hcron]) (atKey_ok ht) (atKey_ok htimezone) (atKey_ok hcatchUp)
  · cases h

theorem WhenOf.unique {schedule schedule' : Schedule}
    (h : WhenOf env entries schedule) (h' : WhenOf env entries schedule') :
    schedule = schedule' := by
  cases h with
  | «at» hkind ht =>
    cases h' with
    | «at» _ ht' => rw [ok_unique ht ht']
    | every hkind' _ => cases hkind.symm.trans hkind'
    | cron hkind' _ _ _ => cases hkind.symm.trans hkind'
  | every hkind ht =>
    cases h' with
    | «at» hkind' _ => cases hkind.symm.trans hkind'
    | every _ ht' => rw [ok_unique ht ht']
    | cron hkind' _ _ _ => cases hkind.symm.trans hkind'
  | cron hkind ht htimezone hcatchUp =>
    cases h' with
    | «at» hkind' _ => cases hkind.symm.trans hkind'
    | every hkind' _ => cases hkind.symm.trans hkind'
    | cron _ ht' htimezone' hcatchUp' =>
      rw [ok_unique ht ht', ok_unique htimezone htimezone', ok_unique hcatchUp hcatchUp']

theorem readText_self {value : Plain} {t : Text} (h : readText value = .ok t) : value = .str t := by
  cases value with
  | str text => rw [Option.some.inj (readText_ok h)]
  | _ => cases h

theorem readTimezone_self {value : Plain} {t : Text} (h : readTimezone env value = .ok t) :
    value = .str t := by
  cases value with
  | str text => exact congrArg Plain.str (Checked.passing_ok h)
  | _ => cases h

theorem required_readText {t : Text} (h : required readText old = .ok t) :
    required readText (some (.str (String.ofList t).toList)) = .ok t := by
  cases old with
  | none => cases h
  | some value =>
    rw [String.toList_ofList]
    exact readText_self h ▸ h

theorem WhenOf.plain {schedule : Schedule} (h : WhenOf env entries schedule) :
    ∃ entries', schedulePlain schedule = .map entries' ∧ WhenOf env entries' schedule := by
  cases h with
  | «at» hkind ht => exact ⟨_, rfl, .at rfl (required_readText ht)⟩
  | every hkind ht => exact ⟨_, rfl, .every rfl (required_readText ht)⟩
  | @cron t timezone catchUp hkind ht htimezone hcatchUp =>
    have hzone : ∀ z, timezone = some z →
        optional (readTimezone env) (some (.str (String.ofList z).toList)) = .ok (some z) := by
      rintro z rfl
      rw [String.toList_ofList]
      cases hold : entries.lookup "timezone" with
      | none =>
        rw [hold] at htimezone
        cases htimezone
      | some value =>
        rw [hold] at htimezone
        obtain ⟨b, hb, hz⟩ := map_ok htimezone
        cases hz
        rw [readTimezone_self hb] at hb
        rw [optional, hb]
        rfl
    refine ⟨_, rfl, ?_⟩
    cases timezone with
    | none =>
      cases catchUp with
      | none => exact .cron rfl (required_readText ht) rfl rfl
      | some c => exact .cron rfl (required_readText ht) rfl rfl
    | some z =>
      cases catchUp with
      | none => exact .cron rfl (required_readText ht) (hzone z rfl) rfl
      | some c => exact .cron rfl (required_readText ht) (hzone z rfl) rfl

theorem WhenOf.catchUp {schedule : Schedule} (h : WhenOf env entries schedule) (catchUp : Bool) :
    ∃ entries', askedCatchUp catchUp (.map entries) = .map entries' ∧
      WhenOf env entries' (withCatchUp catchUp schedule) := by
  refine ⟨_, rfl, ?_⟩
  have hother : ∀ k, k ≠ "catchUp" → (if catchUp then deleteKey entries "catchUp"
        else setKey entries "catchUp" (.bool false)).lookup k = entries.lookup k := by
    intro k hk
    split_ifs
    · exact lookup_deleteKey_of_ne hk entries
    · exact lookup_setKey_of_ne hk entries
  have hself : optional readBool ((if catchUp then deleteKey entries "catchUp"
      else setKey entries "catchUp" (.bool false)).lookup "catchUp") =
        .ok (if catchUp then none else some false) := by
    split_ifs
    · rw [lookup_deleteKey_self]
      rfl
    · rw [lookup_setKey_self]
      rfl
  cases h with
  | «at» hkind ht =>
    exact .at ((hother _ (by decide)).trans hkind) (by rwa [hother _ (by decide)])
  | every hkind ht =>
    exact .every ((hother _ (by decide)).trans hkind) (by rwa [hother _ (by decide)])
  | cron hkind ht htimezone hcatchUp =>
    exact .cron ((hother _ (by decide)).trans hkind) (by rwa [hother _ (by decide)])
      (by rwa [hother _ (by decide)]) hself

def Scheduled (env : IssueEnv) (old : Option Plain) (schedule : Option Schedule) : Prop :=
  old = none ∧ schedule = none ∨ ∃ entries s, old = some (.map entries) ∧ schedule = some s ∧
    WhenOf env entries s

theorem scheduled_of_optional {a : Option Schedule}
    (h : optional (readWhen env) old = .ok a) : Scheduled env old a := by
  cases old with
  | none =>
    cases h
    exact .inl ⟨rfl, rfl⟩
  | some value =>
    obtain ⟨schedule, hread, rfl⟩ := map_ok h
    cases value with
    | map entries => exact .inr ⟨entries, schedule, rfl, rfl, whenOf_readWhen hread⟩
    | _ => cases hread

theorem Scheduled.unique {a a' : Option Schedule} (h : Scheduled env old a)
    (h' : Scheduled env old a') : a = a' := by
  rcases h with ⟨rfl, rfl⟩ | ⟨entries, s, rfl, rfl, hs⟩ <;>
    rcases h' with ⟨ho, rfl⟩ | ⟨entries', s', ho, rfl, hs'⟩ <;> cases ho
  · rfl
  · rw [hs.unique hs']

theorem when_patched {old : Option Plain} {a a' : Option Schedule}
    (h : optional (readWhen env) old = .ok a)
    (h' : optional (readWhen env) (((patch.when?.bind fun value ↦
      (readWhen env value).toOption.map schedulePlain).or old).map
        fun value ↦ patch.catchUp.elim value (askedCatchUp · value)) = .ok a') :
    a' = ((patch.when?.bind fun value ↦ (readWhen env value).toOption).or a).map
      fun schedule ↦ patch.catchUp.elim schedule (withCatchUp · schedule) := by
  have hbase : Scheduled env
      ((patch.when?.bind fun value ↦ (readWhen env value).toOption.map schedulePlain).or old)
      ((patch.when?.bind fun value ↦ (readWhen env value).toOption).or a) := by
    have hold := scheduled_of_optional h
    cases patch.when? with
    | none => exact hold
    | some value =>
      rw [Option.bind_some, Option.bind_some]
      cases hread : readWhen env value with
      | error e => exact hold
      | ok schedule =>
        cases value with
        | map entries =>
          obtain ⟨entries', hplain, hwhen⟩ := (whenOf_readWhen hread).plain
          exact .inr ⟨entries', schedule, congrArg some hplain, rfl, hwhen⟩
        | _ => cases hread
  refine (scheduled_of_optional h').unique ?_
  rcases hbase with ⟨hold, hschedule⟩ | ⟨entries, s, hold, hschedule, hwhen⟩
  · rw [hold, hschedule]
    exact .inl ⟨rfl, rfl⟩
  rw [hold, hschedule, Option.map_some, Option.map_some]
  cases patch.catchUp with
  | none => exact .inr ⟨entries, s, rfl, rfl, hwhen⟩
  | some catchUp =>
    obtain ⟨entries', hentries, hwhen'⟩ := hwhen.catchUp catchUp
    exact .inr ⟨entries', _, congrArg some hentries, rfl, hwhen'⟩

/-! ### The assignee and the connector after a patch -/

theorem readAssignee_ok {text b : Text} (h : readAssignee (.str text) = .ok b) :
    b = text ∧ isFileAssignee text = true := by
  rw [readAssignee] at h
  split_ifs at h with hfile
  · cases h
    exact ⟨rfl, hfile⟩
  · cases h

theorem deprecated_workspace :
    deprecatedIssueAssigneeReplacement deprecatedWorkspaceAssignee ≠ none := by decide

theorem deprecated_new :
    deprecatedIssueAssigneeReplacement deprecatedNewAssignee ≠ none := by decide

theorem owner_of_some {assignee : Text} (h : fields.assignee = some assignee)
    (hworkspace : assignee ≠ deprecatedWorkspaceAssignee)
    (hnew : assignee ≠ deprecatedNewAssignee) :
    fields.owner = assignee := by
  rw [IssueFields.owner, h]
  simp only
  rw [if_neg hworkspace, if_neg hnew]

theorem ne_deprecated {assignee : Text} (h : deprecatedIssueAssigneeReplacement assignee = none) :
    assignee ≠ deprecatedWorkspaceAssignee ∧ assignee ≠ deprecatedNewAssignee := by
  constructor
  · rintro rfl
    exact deprecated_workspace h
  · rintro rfl
    exact deprecated_new h

theorem owner_ne_deprecated (fields : IssueFields) :
    fields.owner ≠ deprecatedWorkspaceAssignee ∧ fields.owner ≠ deprecatedNewAssignee := by
  rw [IssueFields.owner]
  split
  · split_ifs <;> decide
  split_ifs with hworkspace hwhen hnew
  · decide
  · decide
  · decide
  · exact ⟨hworkspace, hnew⟩

/-- The Issue has an assignee that does not depend on its schedule, or its schedule stays. -/
def KeepsOwner (patch : IssueFieldPatch) (current : IssueRecord) (data : Mapping) : Prop :=
  patch.assignee = none → patch.when?.isSome = true → data.lookup "assignee" = none →
    current.when?.isSome = true

theorem patchAssignee_valid {value : Text} (hgiven : patch.assignee = some value)
    (h : patchAssignee patch data = .ok data') :
    deprecatedIssueAssigneeReplacement (trim value) = none := by
  rw [patchAssignee, hgiven] at h
  simp only at h
  split at h
  · cases h
  · assumption

/-- **The assignee after a patch**: what was asked for, or what it was before, unless the Issue
has none and is scheduled now. -/
theorem owner_patched (hpatched : Patched env patch current data data')
    (hfields : FieldsOf env data fields) (hfields' : FieldsOf env data' fields')
    (hcurrent : current.assignee = fields.owner) (hwhen : current.when? = fields.when?)
    (hvalid : ∀ value, patch.assignee = some value →
      deprecatedIssueAssigneeReplacement (trim value) = none)
    (hwhen' : patch.when?.isSome = true → fields'.when?.isSome = true)
    (hkept : patch.when? = none → fields'.when?.isSome = fields.when?.isSome) :
    fields'.owner = (patch.assignee.map trim).getD fields.owner ↔ KeepsOwner patch current data := by
  have hread := hpatched.assignee ▸ hfields'.assignee
  cases hgiven : patch.assignee with
  | some value =>
    rw [hgiven] at hread
    obtain ⟨b, hb, hsome⟩ := map_ok hread
    obtain ⟨rfl, -⟩ := readAssignee_ok hb
    obtain ⟨hworkspace, hnew⟩ := ne_deprecated (hvalid value hgiven)
    refine iff_of_true (owner_of_some hsome.symm hworkspace hnew) ?_
    intro hnone
    exact nomatch hgiven.symm.trans hnone
  | none =>
    rw [hgiven, Option.map_none, Option.none_or] at hread
    rw [Option.map_none, Option.getD_none]
    cases hold : data.lookup "assignee" with
    | none =>
      -- Both owners are the default, which depends on the schedule.
      have hnormal : (normalizeAssignee current data).lookup "assignee" = none := by
        rw [normalizeAssignee, hold]
        exact hold
      rw [hnormal] at hread
      have hnone' := ok_unique hread rfl
      have hnone := ok_unique (hold ▸ hfields.assignee) rfl
      have howner : ∀ {f : IssueFields}, f.assignee = none → f.owner =
          if f.when?.isSome then newThenResumeAssignee else unassignedAssignee := by
        intro f hf
        rw [IssueFields.owner, hf]
      rw [howner hnone, howner hnone', KeepsOwner, hwhen]
      cases hw : patch.when? with
      | none =>
        rw [hkept hw]
        exact iff_of_true rfl fun _ hsome ↦ nomatch hsome
      | some value =>
        have hscheduled : fields'.when?.isSome = true := hwhen' (hw ▸ rfl)
        rw [hscheduled]
        cases hfw : fields.when?.isSome with
        | true => exact iff_of_true rfl fun _ _ _ ↦ rfl
        | false =>
          exact iff_of_false (by decide) fun h ↦ nomatch h hgiven rfl hold
    | some old =>
      refine iff_of_true ?_ fun _ _ hnone ↦ nomatch hold.symm.trans hnone
      obtain ⟨text, htext, hassignee⟩ := map_ok (hold ▸ hfields.assignee)
      cases old with
      | str assignee =>
        obtain ⟨rfl, -⟩ := readAssignee_ok htext
        rw [normalizeAssignee, hold] at hread
        simp only at hread
        split_ifs at hread with halias
        · -- An alias is written as what it stands for, which is none itself.
          rw [lookup_setKey_self] at hread
          obtain ⟨b, hb, hsome⟩ := map_ok hread
          obtain ⟨rfl, -⟩ := readAssignee_ok hb
          obtain ⟨hworkspace, hnew⟩ := owner_ne_deprecated fields
          rw [hcurrent] at hsome
          exact owner_of_some hsome.symm hworkspace hnew
        · rw [hold] at hread
          have hsame := ok_unique hread (hold ▸ hfields.assignee)
          obtain ⟨hworkspace, hnew⟩ := ne_deprecated (Option.not_isSome_iff_eq_none.mp halias)
          rw [owner_of_some hassignee.symm hworkspace hnew]
          exact owner_of_some (hsame.trans hassignee.symm) hworkspace hnew
      | _ => cases htext

theorem readConnectorDesk_self {value : Plain} {t : Text} (h : readConnectorDesk value = .ok t) :
    value = .str t := by
  cases value with
  | str text => exact congrArg Plain.str (Checked.passing_ok h)
  | _ => cases h

theorem desk_patched (hpatched : Patched env patch current data data')
    (hfields : FieldsOf env data fields) (hfields' : FieldsOf env data' fields') :
    fields'.desk = if patch.givesDesk then patch.desk else fields.desk := by
  have hflag : fields'.telegramConnector = none :=
    ok_unique (hpatched.telegramConnector ▸ hfields'.telegramConnector) rfl
  have hread := hpatched.connectorDesk ▸ hfields'.connectorDesk
  have hself : ∀ {desk : Option Text}, optional readConnectorDesk (desk.map Plain.str) =
      .ok fields'.connectorDesk → fields'.connectorDesk = desk := by
    intro desk h
    cases desk with
    | none => exact ok_unique h rfl
    | some desk =>
      obtain ⟨b, hb, hsome⟩ := map_ok h
      cases readConnectorDesk_self hb
      exact hsome.symm
  have hdesk : fields'.desk = fields'.connectorDesk := by
    rw [IssueFields.desk, hflag, Option.map_none, Option.or_none]
  rw [hdesk]
  split_ifs at hread ⊢ with hgives
  · exact hself hread
  rw [IssueFields.desk]
  cases hold : data.lookup "connectorDesk" with
  | some value =>
    rw [hold, Option.some_or] at hread
    have hsame := ok_unique hread (hold ▸ hfields.connectorDesk)
    obtain ⟨b, -, hsome⟩ := map_ok (hold ▸ hfields.connectorDesk)
    rw [hsame, ← hsome]
    rfl
  | none =>
    rw [hold, Option.none_or] at hread
    have hnone : fields.connectorDesk = none := ok_unique (hold ▸ hfields.connectorDesk) rfl
    rw [hnone, Option.none_or]
    cases htelegram : data.lookup "telegramConnector" with
    | none =>
      rw [htelegram] at hread
      have hflag' : fields.telegramConnector = none :=
        ok_unique (htelegram ▸ hfields.telegramConnector) rfl
      rw [hflag']
      exact ok_unique hread rfl
    | some value =>
      obtain ⟨⟨⟩, hvalue, hsome⟩ := map_ok (htelegram ▸ hfields.telegramConnector)
      obtain rfl : value = .bool true := by
        rw [readTrue.eq_def] at hvalue
        split at hvalue
        · rfl
        · cases hvalue
      rw [htelegram] at hread
      rw [← hsome]
      exact @hself (some "telegram".toList) hread

/-- **The record after a patch** is the record that was asked for, if its owner is kept. -/
theorem record_patched (hpatched : Patched env patch current data data')
    (hfields : FieldsOf env data fields) (hfields' : FieldsOf env data' fields') {id what : Text}
    (hcurrent : current = fields.record id current.what)
    (hvalid : ∀ value, patch.assignee = some value →
      deprecatedIssueAssigneeReplacement (trim value) = none)
    (hvalidWhen : ∀ value, patch.when? = some value → ∃ schedule, readWhen env value = .ok schedule)
    (hwhat : what = (patch.what.map trim).getD current.what) :
    fields'.record id what = applyPatch env patch current ↔ KeepsOwner patch current data := by
  have hwhen := when_patched hfields.when? (hpatched.when? ▸ hfields'.when?)
  have howner : fields'.owner = (patch.assignee.map trim).getD fields.owner ↔
      KeepsOwner patch current data := by
    refine owner_patched hpatched hfields hfields' ?_ ?_ hvalid ?_ ?_
    · rw [hcurrent]
      rfl
    · rw [hcurrent]
      rfl
    · intro hsome
      obtain ⟨value, hvalue⟩ := Option.isSome_iff_exists.mp hsome
      obtain ⟨schedule, hschedule⟩ := hvalidWhen value hvalue
      rw [hwhen, hvalue, Option.bind_some, hschedule, Option.isSome_map]
      rfl
    · intro hnone
      rw [hwhen, hnone, Option.bind_none, Option.none_or, Option.isSome_map]
  rw [← howner, hcurrent]
  constructor
  · intro h
    exact congrArg IssueRecord.assignee h
  intro hassignee
  simp only [IssueFields.record, applyPatch, IssueRecord.mk.injEq, true_and]
  refine ⟨?title, ?status, ?priority, hassignee, hwhen, ?agent, ?credential, ?credentialSource,
    ?model, ?effort, ?timeout, ?commentPrompt, desk_patched hpatched hfields hfields', hwhat⟩
  case title => exact ok_unique (hpatched.title ▸ hfields'.title) hfields.title
  case status => exact defaulted_patched hfields.status (hpatched.status ▸ hfields'.status)
  case priority =>
    exact defaulted_patched hfields.priority (hpatched.priority ▸ hfields'.priority)
  case agent =>
    exact optional_askedText (optional_unlessSession hfields.agent)
      (hpatched.agent ▸ hfields'.agent)
  case credential =>
    have hread := hpatched.credential ▸ hfields'.credential
    split_ifs at hread ⊢
    · exact ok_unique hread rfl
    · exact optional_askedText (optional_unlessSession hfields.credential) hread
  case credentialSource =>
    refine optional_asked (fun _ _ ↦ readEnum_ok) ?_
      (hpatched.credentialSource ▸ hfields'.credentialSource)
    split_ifs
    · rfl
    · exact optional_unlessSession hfields.credentialSource
  case model =>
    exact optional_askedText (optional_unlessSession hfields.model)
      (hpatched.model ▸ hfields'.model)
  case effort =>
    exact optional_asked (fun _ _ ↦ readEffort_ok) (optional_unlessSession hfields.effort)
      (hpatched.effort ▸ hfields'.effort)
  case timeout =>
    exact optional_asked (fun _ _ ↦ readEnum_ok) hfields.timeout
      (hpatched.timeout ▸ hfields'.timeout)
  case commentPrompt =>
    exact optional_askedText hfields.commentPrompt (hpatched.commentPrompt ▸ hfields'.commentPrompt)

end Fields

end OpenAlice.Workspaces.Issues
