import OpenAlice.Workspaces.Issues.Patched

/-!
# What an edit of an Issue writes is what is read

What `updateIssueFields` and `createIssue` write goes through the text of the file
(`Document.lean`), where the YAML, the What and the comments are told apart by their lines.
`issue_roundTrips_iff` says exactly when the file reads as it was asked to: as what a patch asks
for (`Patched.lean`), or what a new Issue was given.
-/

namespace OpenAlice.Workspaces.Issues

open OpenAlice.Data OpenAlice.Scheduling

/-! ## Updates -/

section Update

variable {env : IssueEnv} {allowDesk : Bool} {patch : IssueFieldPatch} {current : IssueRecord}
  {id raw : Text} {file : Option Text} {data data' : Mapping} {split : SplitDocument}
  {written : Written}

def ReadsMapping (env : IssueEnv) (text : Text) (data : Mapping) : Prop :=
  ∃ data', env.parseYaml text = .ok (.map data') ∧ ∀ key, data'.lookup key = data.lookup key

structure ReadsFile (env : IssueEnv) (id raw : Text) (split : SplitDocument) (data : Mapping)
    (issue : IssueRecord) : Prop where
  document : splitFrontmatter raw = some split
  mapping : env.parseYaml split.frontmatter = .ok (.map data)
  record : parseIssueContent env id raw = .ok issue

def SplitDocument.comments (split : SplitDocument) : Text :=
  (splitLegacyIssueDocument split.body).legacyComments

/-- **The file reads as it was asked to**: every key and every field is what the patch asks for,
or what it was, and so are the comments. -/
def UpdateRoundTrips (env : IssueEnv) (id raw content : Text) (patch : IssueFieldPatch) : Prop :=
  ∀ split data current, ReadsFile env id raw split data current →
    ∃ split' data', ReadsFile env id content split' data' (applyPatch env patch current) ∧
      Patched env patch current data data' ∧ split'.comments = split.comments

/-- **When it does.**  No line of the YAML looks like the end of the frontmatter, and it says the
same with its line breaks and its end trimmed; What and comments can be told apart; and an Issue
without an assignee is not scheduled for the first time. -/
def UpdateKept (env : IssueEnv) (allowDesk : Bool) (id raw : Text) (patch : IssueFieldPatch) :
    Prop :=
  ∀ split data current data', ReadsFile env id raw split data current →
    patchData env allowDesk patch current data = .ok data' →
      ¬ HasFence (env.stringifyYaml (deleteKey data' "what")) ∧
        ReadsMapping env (lf (trimEnd (env.stringifyYaml (deleteKey data' "what"))))
          (deleteKey data' "what") ∧
        Separable current.title ((patch.what.map trim).getD current.what) split.comments ∧
        KeepsOwner patch current data

theorem updateIssueFields_ok (h : updateIssueFields env allowDesk id file patch = .ok written) :
    ∃ raw split data current data' what, file = some raw ∧ ReadsFile env id raw split data current ∧
      patchData env allowDesk patch current data = .ok data' ∧ patchWhat patch current = .ok what ∧
      written.content = serializeIssue env (deleteKey data' "what") what split.comments ∧
      parseIssueContent env id written.content = .ok written.issue := by
  rw [updateIssueFields.eq_def] at h
  split_ifs at h
  cases file with
  | none => cases h
  | some raw =>
    simp only at h
    cases hsplit : splitFrontmatter raw with
    | none =>
      rw [hsplit] at h
      cases h
    | some split =>
      rw [hsplit] at h
      simp only at h
      cases hparse : parseIssueContent env id raw with
      | error e =>
        rw [hparse] at h
        cases h
      | ok current =>
        obtain ⟨split', data, fields, hsplit', hdata, -, -⟩ := parseIssueContent_ok hparse
        cases hsplit.symm.trans hsplit'
        rw [hparse, parseFrontmatterObject, hdata] at h
        obtain ⟨data', hdata', h⟩ := bind_ok h
        obtain ⟨what, hwhat, h⟩ := bind_ok h
        rw [readBack] at h
        split at h
        · cases h
        rename_i issue hissue
        cases h
        exact ⟨raw, split, data, current, data', what, rfl, ⟨hsplit, hdata, hparse⟩, hdata',
          hwhat, rfl, hissue⟩

theorem patchData_valid (h : patchData env allowDesk patch current data = .ok data') :
    (∀ value, patch.assignee = some value →
      deprecatedIssueAssigneeReplacement (trim value) = none) ∧
    ∀ value, patch.when? = some value → ∃ schedule, readWhen env value = .ok schedule := by
  obtain ⟨d₁, -, h⟩ := bind_ok h
  obtain ⟨d₂, -, h⟩ := bind_ok h
  obtain ⟨d₃, hassignee, h⟩ := bind_ok h
  obtain ⟨d₄, -, h⟩ := bind_ok h
  obtain ⟨d₅, -, h⟩ := bind_ok h
  obtain ⟨d₆, -, h⟩ := bind_ok h
  obtain ⟨d₇, -, h⟩ := bind_ok h
  obtain ⟨d₈, -, h⟩ := bind_ok h
  obtain ⟨d₉, -, h⟩ := bind_ok h
  obtain ⟨d₁₀, -, h⟩ := bind_ok h
  obtain ⟨d₁₁, -, h⟩ := bind_ok h
  obtain ⟨d₁₂, hwhen, -⟩ := bind_ok h
  refine ⟨fun value hvalue ↦ patchAssignee_valid hvalue hassignee, fun value hvalue ↦ ?_⟩
  rw [patchWhen, hvalue] at hwhen
  cases hread : readWhen env value with
  | error e =>
    simp only [hread] at hwhen
    cases hwhen
  | ok schedule => exact ⟨schedule, rfl⟩

theorem trim_mergeLegacyWhat (legacyWhat : Option Text) (markdownWhat title : Text) :
    trim (mergeLegacyWhat legacyWhat markdownWhat title) =
        mergeLegacyWhat legacyWhat markdownWhat title ∧
      (mergeLegacyWhat legacyWhat markdownWhat title = [] → trim title = []) := by
  have hexplicit : trim ((legacyWhat.map trim).getD []) = (legacyWhat.map trim).getD [] := by
    cases legacyWhat with
    | none => rfl
    | some legacyWhat => exact trimBy_trimBy isSpace legacyWhat
  rw [mergeLegacyWhat]
  split_ifs with hboth hone hmarkdown
  · exact ⟨trimBy_append hexplicit (trimBy_trimBy isSpace _) hboth.1 hboth.2.1 contextHeading,
      fun hnil ↦ absurd (List.append_eq_nil_iff.mp (List.append_eq_nil_iff.mp hnil).1).1 hboth.1⟩
  · exact ⟨hexplicit, fun hnil ↦ absurd hnil hone⟩
  · exact ⟨trimBy_trimBy isSpace _, fun hnil ↦ absurd hnil hmarkdown⟩
  · exact ⟨trimBy_trimBy isSpace _, id⟩

theorem ReadsFile.fields (h : ReadsFile env id raw split data current) :
    ∃ fields, FieldsOf env data fields ∧ current = fields.record id current.what ∧ current.what =
        mergeLegacyWhat fields.what (splitLegacyIssueDocument split.body).what current.title := by
  obtain ⟨split', data', fields, hsplit, hdata, hcheck, hrecord⟩ := parseIssueContent_ok h.record
  obtain rfl : split' = split := Option.some.inj (hsplit.symm.trans h.document)
  obtain rfl : data' = data := by
    cases ok_unique hdata h.mapping
    rfl
  refine ⟨fields, fieldsOf_checkFrontmatter hcheck, ?_, ?_⟩ <;> rw [hrecord] <;> rfl

theorem ReadsFile.unique (h : ReadsFile env id raw split data current) {split' : SplitDocument}
    {data' : Mapping} {current' : IssueRecord}
    (h' : ReadsFile env id raw split' data' current') :
    split' = split ∧ data' = data ∧ current' = current := by
  obtain rfl : split' = split := Option.some.inj (h'.document.symm.trans h.document)
  obtain rfl : data' = data := by
    cases ok_unique h'.mapping h.mapping
    rfl
  exact ⟨rfl, rfl, ok_unique h'.record h.record⟩

theorem patchWhat_ok (h : ReadsFile env id raw split data current) {what : Text}
    (hwhat : patchWhat patch current = .ok what) :
    what = (patch.what.map trim).getD current.what ∧ trim what = what ∧
      (what = [] → trim current.title = []) := by
  rw [patchWhat] at hwhat
  cases hgiven : patch.what with
  | none =>
    rw [hgiven] at hwhat
    cases hwhat
    obtain ⟨fields, -, -, hmerge⟩ := h.fields
    refine ⟨rfl, ?_⟩
    rw [hmerge]
    exact trim_mergeLegacyWhat _ _ _
  | some value =>
    rw [hgiven] at hwhat
    simp only at hwhat
    split_ifs at hwhat with hnil
    · cases hwhat
    · cases hwhat
      exact ⟨rfl, trimBy_trimBy isSpace value, fun h ↦ absurd h hnil⟩

theorem ReadsFile.patched (h : ReadsFile env id raw split data current) {content : Text}
    {split' : SplitDocument} {issue : IssueRecord}
    (h' : ReadsFile env id content split' data' issue)
    (hpatched : Patched env patch current data data')
    (hvalid : ∀ value, patch.assignee = some value →
      deprecatedIssueAssigneeReplacement (trim value) = none)
    (hvalidWhen : ∀ value, patch.when? = some value →
      ∃ schedule, readWhen env value = .ok schedule) :
    issue = applyPatch env patch current ↔
      mergeLegacyWhat none (splitLegacyIssueDocument split'.body).what current.title =
        (patch.what.map trim).getD current.what ∧ KeepsOwner patch current data := by
  obtain ⟨fields, hfields, hcurrent, -⟩ := h.fields
  obtain ⟨fields', hfields', hissue, hmerge⟩ := h'.fields
  have hlegacy : fields'.what = none := ok_unique (hpatched.what ▸ hfields'.what) rfl
  have htitle : issue.title = current.title := by
    rw [hissue, hcurrent]
    exact ok_unique (hpatched.title ▸ hfields'.title) hfields.title
  rw [hlegacy, htitle] at hmerge
  rw [← hmerge]
  constructor
  · intro heq
    have hwhat : issue.what = (patch.what.map trim).getD current.what := by
      conv_lhs => rw [heq]
      rfl
    refine ⟨hwhat, (record_patched hpatched hfields hfields' hcurrent hvalid hvalidWhen hwhat).mp ?_⟩
    exact hissue.symm.trans heq
  · rintro ⟨hwhat, hkeeps⟩
    exact hissue.trans
      ((record_patched hpatched hfields hfields' hcurrent hvalid hvalidWhen hwhat).mpr hkeeps)

/-- **An update that is accepted reads as it was asked to** exactly when its texts can be told
apart, and it does not schedule an Issue that has no assignee. -/
theorem update_roundTrips_iff
    (h : updateIssueFields env allowDesk id (some raw) patch = .ok written) :
    UpdateRoundTrips env id raw written.content patch ↔ UpdateKept env allowDesk id raw patch := by
  obtain ⟨raw', split, data, current, data', what, hraw, hfile, hpatch, hwhat, hcontent, hissue⟩ :=
    updateIssueFields_ok h
  cases hraw
  have hpatched := patched_of_patchData hpatch
  obtain ⟨hvalid, hvalidWhen⟩ := patchData_valid hpatch
  obtain ⟨hasked, htrim, htitle⟩ := patchWhat_ok hfile hwhat
  have hreads := reads_iff (env.stringifyYaml (deleteKey data' "what")) htrim
    (trim_splitLegacy split.body).2 htitle
    fun text ↦ ReadsMapping env text (deleteKey data' "what")
  constructor
  · intro hround split₁ data₁ current₁ data₂ hfile₁ hpatch₁
    obtain ⟨rfl, rfl, rfl⟩ := hfile.unique hfile₁
    obtain rfl := ok_unique hpatch hpatch₁
    obtain ⟨split', m, hfile', hm, hcomments⟩ := hround _ _ _ hfile₁
    obtain ⟨hmerge, hkeeps⟩ := (hfile.patched hfile' hm hvalid hvalidWhen).mp rfl
    have hdocument := hreads.mp ⟨split', by rw [← hfile'.document, hcontent]; rfl,
      ⟨m, hfile'.mapping, hm.lookup_eq hpatched⟩, hmerge.trans hasked.symm, hcomments⟩
    rw [← hasked]
    exact ⟨hdocument.1, hdocument.2.1, hdocument.2.2, hkeeps⟩
  · intro hkept split₁ data₁ current₁ hfile₁
    obtain ⟨rfl, rfl, rfl⟩ := hfile.unique hfile₁
    obtain ⟨hfence, hreadsYaml, hseparable, hkeeps⟩ := hkept _ _ _ _ hfile₁ hpatch
    rw [← hasked] at hseparable
    obtain ⟨split', hsplit', ⟨m, hm, hlookup⟩, hmerge, hcomments⟩ :=
      hreads.mpr ⟨hfence, hreadsYaml, hseparable⟩
    have hfile' : ReadsFile env id written.content split' m written.issue :=
      ⟨by rw [hcontent]; exact hsplit', hm, hissue⟩
    have hm' := hpatched.congr hlookup
    have heq := (hfile.patched hfile' hm' hvalid hvalidWhen).mpr ⟨hmerge.trans hasked, hkeeps⟩
    exact ⟨split', m, heq ▸ hfile', hm', hcomments⟩

end Update

/-! ## New Issues -/

/-- **What the mapping in the file of a new Issue is**, key by key. -/
structure Created (input : CreateIssueInput) (data : Mapping) : Prop where
  title : data.lookup "title" = some (.str (trim input.title))
  status : data.lookup "status" = input.status.map .str
  priority : data.lookup "priority" = input.priority.map .str
  assignee : data.lookup "assignee" = input.assignee.map .str
  when? : data.lookup "when" = input.when?
  agent : data.lookup "agent" = input.agent.map .str
  credential : data.lookup "credential" = input.credential.map .str
  credentialSource : data.lookup "credentialSource" = input.credentialSource.map .str
  model : data.lookup "model" = input.model.map .str
  effort : data.lookup "effort" = input.effort.map .str
  timeout : data.lookup "timeout" = input.timeout.map .str
  commentPrompt : data.lookup "commentPrompt" = (input.commentPrompt.map trim).map .str
  connectorDesk : data.lookup "connectorDesk" = input.desk.map .str
  other : ∀ key, key ∉ ["title", "status", "priority", "assignee", "when", "agent", "credential",
    "credentialSource", "model", "effort", "timeout", "commentPrompt", "connectorDesk"] →
      data.lookup key = none

/-- **What the record of a new Issue is.** -/
def newRecord (env : IssueEnv) (id : Text) (input : CreateIssueInput) : IssueRecord where
  id := id
  title := trim input.title
  status := (input.status.bind fun name ↦ issueStatuses.lookup name).getD .todo
  priority := (input.priority.bind fun name ↦ issuePriorities.lookup name).getD .none
  assignee := input.assignee.getD
    (if input.when?.isSome then newThenResumeAssignee else unassignedAssignee)
  when? := input.when?.bind fun value ↦ (readWhen env value).toOption
  agent := input.agent
  credential := input.credential
  credentialSource := input.credentialSource.bind fun name ↦ credentialSources.lookup name
  model := input.model
  effort := input.effort.bind fun name ↦ modelReasoningEfforts.lookup name
  timeout := input.timeout.bind fun name ↦ issueTimeouts.lookup name
  commentPrompt := input.commentPrompt.map trim
  connectorDesk := input.desk
  what := input.firstWhat

section Create

variable {env : IssueEnv} {allowDesk : Bool} {input : CreateIssueInput} {id : Text}
  {existing : Option Text} {data data' : Mapping} {fields : IssueFields} {written : Written}

theorem lookup_given (key : String) (value : Option Plain) (data : Mapping) (k : String) :
    (given key value data).lookup k =
      if k = key then value.or (data.lookup k) else data.lookup k := by
  cases value with
  | none =>
    rw [Option.none_or, ite_self]
    rfl
  | some value =>
    split_ifs with hk
    · rw [hk]
      exact lookup_setKey_self data
    · exact lookup_setKey_of_ne hk data

theorem lookup_single (key : String) (value : Plain) (k : String) :
    List.lookup k [(key, value)] = if k = key then some value else none :=
  lookup_given key (some value) [] k

theorem created_newData (input : CreateIssueInput) :
    Created input (newData input (input.commentPrompt.map trim)) := by
  constructor
  case other =>
    intro k hk
    simp only [List.mem_cons, List.not_mem_nil, or_false, not_or] at hk
    simp [newData, lookup_given, lookup_single, hk]
  all_goals simp [newData, lookup_given, lookup_single]

theorem Created.lookup_eq (h : Created input data) (h' : Created input data') (key : String) :
    data.lookup key = data'.lookup key := by
  by_cases hkey : key ∈ ["title", "status", "priority", "assignee", "when", "agent", "credential",
      "credentialSource", "model", "effort", "timeout", "commentPrompt", "connectorDesk"]
  · simp only [List.mem_cons, List.not_mem_nil, or_false] at hkey
    rcases hkey with rfl | rfl | rfl | rfl | rfl | rfl | rfl | rfl | rfl | rfl | rfl | rfl | rfl
    · exact h.title.trans h'.title.symm
    · exact h.status.trans h'.status.symm
    · exact h.priority.trans h'.priority.symm
    · exact h.assignee.trans h'.assignee.symm
    · exact h.when?.trans h'.when?.symm
    · exact h.agent.trans h'.agent.symm
    · exact h.credential.trans h'.credential.symm
    · exact h.credentialSource.trans h'.credentialSource.symm
    · exact h.model.trans h'.model.symm
    · exact h.effort.trans h'.effort.symm
    · exact h.timeout.trans h'.timeout.symm
    · exact h.commentPrompt.trans h'.commentPrompt.symm
    · exact h.connectorDesk.trans h'.connectorDesk.symm
  · exact (h.other key hkey).trans (h'.other key hkey).symm

theorem Created.congr (h : Created input data) (heq : ∀ key, data'.lookup key = data.lookup key) :
    Created input data' where
  title := (heq _).trans h.title
  status := (heq _).trans h.status
  priority := (heq _).trans h.priority
  assignee := (heq _).trans h.assignee
  when? := (heq _).trans h.when?
  agent := (heq _).trans h.agent
  credential := (heq _).trans h.credential
  credentialSource := (heq _).trans h.credentialSource
  model := (heq _).trans h.model
  effort := (heq _).trans h.effort
  timeout := (heq _).trans h.timeout
  commentPrompt := (heq _).trans h.commentPrompt
  connectorDesk := (heq _).trans h.connectorDesk
  other := fun key hkey ↦ (heq key).trans (h.other key hkey)

/-! ### The record of a new Issue -/

theorem defaulted_given {α : Type} {names : List (Text × α)} {value₀ a : α} {value : Option Text}
    (h : defaulted value₀ (readEnum names) (value.map Plain.str) = .ok a) :
    a = (value.bind fun name ↦ names.lookup name).getD value₀ := by
  have hnone : defaulted value₀ (readEnum names) none = .ok value₀ := rfl
  refine defaulted_patched hnone ?_
  rwa [Option.or_none]

theorem optional_given {α : Type} {read : Plain → Checked α} {f : Text → Option α}
    (hread : ∀ text b, read (.str text) = .ok b → f text = some b) {value : Option Text}
    {a : Option α} (h : optional read (value.map Plain.str) = .ok a) : a = value.bind f := by
  cases value with
  | none => exact ok_unique h rfl
  | some text =>
    obtain ⟨b, hb, rfl⟩ := map_ok h
    exact (hread text b hb).symm

theorem optional_givenText {value a : Option Text}
    (h : optional readText (value.map Plain.str) = .ok a) : a = value := by
  rw [optional_given (fun _ _ ↦ readText_ok) h, Option.bind_fun_some]

theorem record_created (hcreated : Created input data) (hfields : FieldsOf env data fields)
    (hassignee : checkAssignee input.assignee = .ok ()) :
    fields.record id input.firstWhat = newRecord env id input := by
  have hwhen : fields.when? = input.when?.bind fun value ↦ (readWhen env value).toOption := by
    have hread := hcreated.when? ▸ hfields.when?
    cases hgiven : input.when? with
    | none =>
      rw [hgiven] at hread
      exact ok_unique hread rfl
    | some value =>
      rw [hgiven] at hread
      obtain ⟨schedule, hschedule, hsome⟩ := map_ok hread
      rw [← hsome, Option.bind_some, hschedule]
      rfl
  have hscheduled : fields.when?.isSome = input.when?.isSome := by
    have hread := hcreated.when? ▸ hfields.when?
    cases hgiven : input.when? with
    | none =>
      rw [hgiven] at hread
      rw [ok_unique hread rfl]
      rfl
    | some value =>
      rw [hgiven] at hread
      obtain ⟨schedule, hschedule, hsome⟩ := map_ok hread
      rw [← hsome]
      rfl
  have howner : fields.owner = input.assignee.getD
      (if input.when?.isSome then newThenResumeAssignee else unassignedAssignee) := by
    have hread := hcreated.assignee ▸ hfields.assignee
    cases hgiven : input.assignee with
    | none =>
      rw [hgiven] at hread
      have hnone : fields.assignee = none := ok_unique hread rfl
      rw [IssueFields.owner, hnone, hscheduled]
      rfl
    | some assignee =>
      rw [hgiven] at hread
      obtain ⟨b, hb, hsome⟩ := map_ok hread
      obtain ⟨rfl, -⟩ := readAssignee_ok hb
      rw [hgiven, checkAssignee] at hassignee
      split at hassignee
      · cases hassignee
      rename_i hno
      obtain ⟨hworkspace, hnew⟩ := ne_deprecated hno
      exact owner_of_some hsome.symm hworkspace hnew
  have hdesk : fields.desk = input.desk := by
    have hflag : fields.telegramConnector = none :=
      ok_unique (hcreated.other "telegramConnector" (by decide) ▸ hfields.telegramConnector) rfl
    have hread := hcreated.connectorDesk ▸ hfields.connectorDesk
    rw [IssueFields.desk, hflag, Option.map_none, Option.or_none]
    refine (optional_given (f := some) (fun text b hb ↦ ?_) hread).trans (Option.bind_fun_some _)
    cases readConnectorDesk_self hb
    rfl
  simp only [IssueFields.record, newRecord, IssueRecord.mk.injEq, true_and, and_true]
  refine ⟨?title, ?status, ?priority, howner, hwhen, ?agent, ?credential, ?credentialSource,
    ?model, ?effort, ?timeout, ?commentPrompt, hdesk⟩
  case title =>
    have hread := hcreated.title ▸ hfields.title
    exact (Option.some.inj (readText_ok hread)).symm
  case status => exact defaulted_given (hcreated.status ▸ hfields.status)
  case priority => exact defaulted_given (hcreated.priority ▸ hfields.priority)
  case agent => exact optional_givenText (hcreated.agent ▸ hfields.agent)
  case credential => exact optional_givenText (hcreated.credential ▸ hfields.credential)
  case credentialSource =>
    exact optional_given (fun _ _ ↦ readEnum_ok)
      (hcreated.credentialSource ▸ hfields.credentialSource)
  case model => exact optional_givenText (hcreated.model ▸ hfields.model)
  case effort =>
    exact optional_given (fun _ _ ↦ readEffort_ok) (hcreated.effort ▸ hfields.effort)
  case timeout => exact optional_given (fun _ _ ↦ readEnum_ok) (hcreated.timeout ▸ hfields.timeout)
  case commentPrompt =>
    exact optional_givenText (hcreated.commentPrompt ▸ hfields.commentPrompt)

/-- **The file of a new Issue reads as what it was given.** -/
def CreateRoundTrips (env : IssueEnv) (id content : Text) (input : CreateIssueInput) : Prop :=
  ∃ split data, ReadsFile env id content split data (newRecord env id input) ∧
    Created input data ∧ split.comments = []

/-- **When it does.** -/
def CreateKept (env : IssueEnv) (input : CreateIssueInput) : Prop :=
  ¬ HasFence (env.stringifyYaml (newData input (input.commentPrompt.map trim))) ∧
    ReadsMapping env (lf (trimEnd (env.stringifyYaml (newData input (input.commentPrompt.map trim)))))
      (newData input (input.commentPrompt.map trim)) ∧
    Separable (trim input.title) input.firstWhat []

theorem createIssue_ok (h : createIssue env allowDesk id existing input = .ok written) :
    existing = none ∧ checkAssignee input.assignee = .ok () ∧
      written.content = serializeIssue env (newData input (input.commentPrompt.map trim))
        input.firstWhat [] ∧
      parseIssueContent env id written.content = .ok written.issue := by
  rw [createIssue] at h
  cases existing with
  | some file => cases h
  | none =>
    obtain ⟨⟨⟩, hassignee, h⟩ := bind_ok h
    obtain ⟨commentPrompt, hprompt, h⟩ := bind_ok h
    obtain rfl : commentPrompt = input.commentPrompt.map trim := by
      cases hgiven : input.commentPrompt with
      | none =>
        rw [hgiven] at hprompt
        cases hprompt
        rfl
      | some prompt =>
        rw [hgiven, checkCommentPrompt] at hprompt
        split at hprompt
        · cases hprompt
        rename_i template htemplate
        cases hprompt
        exact congrArg some (parseIssueCommentPrompt_ok htemplate).1
    split_ifs at h
    · cases h
    split at h
    · cases h
    rw [readBack] at h
    split at h
    · cases h
    rename_i issue hissue
    cases h
    exact ⟨rfl, hassignee, rfl, hissue⟩

theorem trim_firstWhat (input : CreateIssueInput) : trim input.firstWhat = input.firstWhat ∧
    (input.firstWhat = [] → trim (trim input.title) = []) := by
  rw [CreateIssueInput.firstWhat]
  split_ifs with hwhat hbody
  · exact ⟨trimBy_trimBy isSpace _, fun hnil ↦ absurd hnil hwhat⟩
  · exact ⟨trimBy_trimBy isSpace _, fun hnil ↦ absurd hnil hbody⟩
  · refine ⟨trimBy_trimBy isSpace _, fun hnil ↦ ?_⟩
    rw [hnil]
    rfl

/-- **A new Issue that is accepted reads as what it was given** exactly when its texts can be
told apart. -/
theorem create_roundTrips_iff (h : createIssue env allowDesk id existing input = .ok written) :
    CreateRoundTrips env id written.content input ↔ CreateKept env input := by
  obtain ⟨-, hassignee, hcontent, hissue⟩ := createIssue_ok h
  have hcreated := created_newData input
  obtain ⟨htrim, htitle⟩ := trim_firstWhat input
  have hreads := reads_iff (env.stringifyYaml (newData input (input.commentPrompt.map trim)))
    htrim (show trim [] = [] from rfl) htitle
    fun text ↦ ReadsMapping env text (newData input (input.commentPrompt.map trim))
  -- What is read of the title, and of the What.
  have hrecord : ∀ {split data issue}, ReadsFile env id written.content split data issue →
      Created input data → (issue = newRecord env id input ↔
        mergeLegacyWhat none (splitLegacyIssueDocument split.body).what (trim input.title) =
          input.firstWhat) := by
    intro split data issue hfile hdata
    obtain ⟨fields, hfields, hissue, hmerge⟩ := hfile.fields
    have hlegacy : fields.what = none :=
      ok_unique (hdata.other "what" (by decide) ▸ hfields.what) rfl
    have htitle : issue.title = trim input.title := by
      have hread := hdata.title ▸ hfields.title
      rw [hissue]
      exact (Option.some.inj (readText_ok hread)).symm
    rw [hlegacy, htitle] at hmerge
    rw [← hmerge]
    constructor
    · rintro rfl
      rfl
    intro hwhat
    rw [hissue, hwhat]
    exact record_created hdata hfields hassignee
  rw [CreateKept, ← hreads]
  constructor
  · rintro ⟨split, data, hfile, hdata, hcomments⟩
    exact ⟨split, by rw [← hfile.document, hcontent]; rfl,
      ⟨data, hfile.mapping, hdata.lookup_eq hcreated⟩, (hrecord hfile hdata).mp rfl, hcomments⟩
  rintro ⟨split, hsplit, ⟨data, hdata, hlookup⟩, hmerge, hcomments⟩
  have hfile : ReadsFile env id written.content split data written.issue :=
    ⟨by rw [hcontent]; exact hsplit, hdata, hissue⟩
  have hdata' := hcreated.congr hlookup
  exact ⟨split, data, (hrecord hfile hdata').mpr hmerge ▸ hfile, hdata', hcomments⟩

end Create

/-! ## Files to evaluate

A `yaml` that writes every mapping in a way of its own, and the one of a new Issue with nothing
but a title as `yaml` does. -/

def codeNat (n : Nat) : Text := List.replicate n '1' ++ ['0']

def codeText (text : Text) : Text := codeNat text.length ++ text

mutual

def codePlain : Plain → Text
  | .null => codeNat 0
  | .bool b => codeNat 1 ++ codeNat b.toNat
  | .number literal => codeNat 2 ++ codeText literal.toList
  | .str text => codeNat 3 ++ codeText text
  | .seq items => codeNat 4 ++ codeItems items
  | .map entries => codeNat 5 ++ codeEntries entries

def codeItems : List Plain → Text
  | [] => codeNat 0
  | item :: items => codeNat 1 ++ (codePlain item ++ codeItems items)

def codeEntries : List (String × Plain) → Text
  | [] => codeNat 0
  | (key, value) :: entries =>
    codeNat 1 ++ (codeText key.toList ++ (codePlain value ++ codeEntries entries))

end

theorem codeNat_inj {n m : Nat} {rest rest' : Text} (h : codeNat n ++ rest = codeNat m ++ rest') :
    n = m ∧ rest = rest' := by
  induction n generalizing m with
  | zero =>
    cases m with
    | zero =>
      cases h
      exact ⟨rfl, rfl⟩
    | succ m => cases h
  | succ n ih =>
    cases m with
    | zero => cases h
    | succ m =>
      obtain ⟨rfl, hrest⟩ := ih (List.cons_inj_right '1' |>.mp h)
      exact ⟨rfl, hrest⟩

theorem codeText_inj {text text' rest rest' : Text}
    (h : codeText text ++ rest = codeText text' ++ rest') : text = text' ∧ rest = rest' := by
  rw [codeText, codeText, List.append_assoc, List.append_assoc] at h
  obtain ⟨hlength, h⟩ := codeNat_inj h
  exact List.append_inj h hlength

theorem codeBool_inj {b b' : Bool} (h : b.toNat = b'.toNat) : b = b' := by
  revert b b'
  decide

mutual

theorem codePlain_inj (a b : Plain) (rest rest' : Text)
    (h : codePlain a ++ rest = codePlain b ++ rest') : a = b ∧ rest = rest' := by
  cases a <;> cases b <;> simp only [codePlain, List.append_assoc] at h <;>
    replace h := codeNat_inj h <;> first | omega | replace h := h.2
  case null.null => exact ⟨rfl, h⟩
  case bool.bool b b' =>
    obtain ⟨hbool, hrest⟩ := codeNat_inj h
    exact ⟨by rw [codeBool_inj hbool], hrest⟩
  case number.number literal literal' =>
    obtain ⟨hliteral, hrest⟩ := codeText_inj h
    exact ⟨by rw [String.toList_inj.mp hliteral], hrest⟩
  case str.str text text' =>
    obtain ⟨htext, hrest⟩ := codeText_inj h
    exact ⟨by rw [htext], hrest⟩
  case seq.seq items items' =>
    obtain ⟨hitems, hrest⟩ := codeItems_inj items items' rest rest' h
    exact ⟨by rw [hitems], hrest⟩
  case map.map entries entries' =>
    obtain ⟨hentries, hrest⟩ := codeEntries_inj entries entries' rest rest' h
    exact ⟨by rw [hentries], hrest⟩

theorem codeItems_inj (a b : List Plain) (rest rest' : Text)
    (h : codeItems a ++ rest = codeItems b ++ rest') : a = b ∧ rest = rest' := by
  cases a <;> cases b <;> simp only [codeItems, List.append_assoc] at h <;>
    replace h := codeNat_inj h <;> first | omega | replace h := h.2
  case nil.nil => exact ⟨rfl, h⟩
  case cons.cons item items item' items' =>
    obtain ⟨hitem, hrest⟩ := codePlain_inj item item' _ _ h
    obtain ⟨hitems, hrest⟩ := codeItems_inj items items' _ _ hrest
    exact ⟨by rw [hitem, hitems], hrest⟩

theorem codeEntries_inj (a b : List (String × Plain)) (rest rest' : Text)
    (h : codeEntries a ++ rest = codeEntries b ++ rest') : a = b ∧ rest = rest' := by
  cases a <;> cases b <;> simp only [codeEntries, List.append_assoc] at h <;>
    replace h := codeNat_inj h <;> first | omega | replace h := h.2
  case nil.nil => exact ⟨rfl, h⟩
  case cons.cons entry entries entry' entries' =>
    obtain ⟨key, value⟩ := entry
    obtain ⟨key', value'⟩ := entry'
    obtain ⟨hkey, hrest⟩ := codeText_inj h
    obtain rfl : key = key' := String.toList_inj.mp hkey
    obtain ⟨rfl, htail⟩ := codePlain_inj value value' _ _ hrest
    obtain ⟨rfl, hend⟩ := codeEntries_inj entries entries' _ _ htail
    exact ⟨rfl, hend⟩

end

def planData : Mapping := [("title", .str "Plan".toList)]

/-- What `yaml` writes for it. -/
def planYaml : Text := "title: Plan".toList

def sampleStringify (data : Mapping) : Text :=
  if codeEntries data = codeEntries planData then planYaml ++ ['\n'] else '#' :: codeEntries data

theorem codeEntries_injective {a b : Mapping} (h : codeEntries a = codeEntries b) : a = b :=
  (codeEntries_inj a b [] [] (by rw [h])).1

theorem sampleStringify_injective {a b : Mapping} (h : sampleStringify a = sampleStringify b) :
    a = b := by
  rw [sampleStringify, sampleStringify] at h
  split_ifs at h with ha hb hb
  · exact (codeEntries_injective ha).trans (codeEntries_injective hb).symm
  · cases h
  · cases h
  · exact codeEntries_injective (List.cons_inj_right '#' |>.mp h)

open Classical in
/-- What is written is read back, and the one line that `yaml` writes also without its end. -/
noncomputable def sampleEnv : IssueEnv where
  parseYaml text :=
    if trimEnd text = planYaml then .ok (.map planData)
    else if h : ∃ data, sampleStringify data = text then .ok (.map h.choose)
    else .error "not a mapping"
  stringifyYaml := sampleStringify
  isValidScheduleTimezone _ := true

theorem trimEnd_sampleStringify {data : Mapping} (h : trimEnd (sampleStringify data) = planYaml) :
    data = planData := by
  rw [sampleStringify] at h
  split_ifs at h with hcode
  · exact codeEntries_injective hcode
  rw [trimEnd, List.reverse_cons, List.dropWhile_append] at h
  split_ifs at h
  · cases h
  · rw [List.reverse_append] at h
    cases h

theorem sampleEnv_parse (data : Mapping) :
    sampleEnv.parseYaml (sampleEnv.stringifyYaml data) = .ok (.map data) := by
  show (if _ then _ else _) = _
  split_ifs with hplan hexists
  · rw [trimEnd_sampleStringify hplan]
  · rw [sampleStringify_injective hexists.choose_spec]
  · exact absurd ⟨data, rfl⟩ hexists

def planFile (body : String) : Text := "---\ntitle: Plan\n---\n".toList ++ body.toList

def planInput (what : String) : CreateIssueInput :=
  { title := "Plan".toList, what := some what.toList }

noncomputable def planRecord (what : String) : IssueRecord :=
  newRecord sampleEnv "plan".toList (planInput what)

theorem plan_reads : ReadsFile sampleEnv "plan".toList (planFile "") ⟨planYaml, []⟩ planData
    (planRecord "") where
  document := by decide
  mapping := rfl
  record := rfl

theorem readsMapping_planYaml : ReadsMapping sampleEnv (lf (trimEnd (planYaml ++ ['\n'])))
    planData :=
  ⟨planData, rfl, fun _ ↦ rfl⟩

theorem not_hasFence_planYaml : ¬ HasFence (planYaml ++ ['\n']) := by
  rw [HasFence]
  decide

theorem separable_doIt : Separable "Plan".toList "Do it.".toList [] :=
  Or.inl ⟨by decide, by decide, rfl⟩

/-! ## Every edit -/

/-- **An edit of an Issue that is accepted** reads as it was asked to exactly when no line of its
YAML looks like the end of the frontmatter, the YAML says the same with its line breaks and its
end trimmed, What and comments can be told apart, and an Issue without an assignee is not
scheduled for the first time. -/
theorem issue_roundTrips_iff (env : IssueEnv) (allowDesk : Bool) (id : Text) (written : Written) :
    (∀ raw patch, updateIssueFields env allowDesk id (some raw) patch = .ok written →
      (UpdateRoundTrips env id raw written.content patch ↔ UpdateKept env allowDesk id raw patch)) ∧
    ∀ input, createIssue env allowDesk id none input = .ok written →
      (CreateRoundTrips env id written.content input ↔ CreateKept env input) :=
  ⟨fun _ _ ↦ update_roundTrips_iff, fun _ ↦ create_roundTrips_iff⟩

/-- A What that is an ordinary text is kept, by an update and by a new Issue. -/
theorem plan_roundTrips :
    UpdateRoundTrips sampleEnv "plan".toList (planFile "") (planFile "\nDo it.\n")
        { what := some "Do it.".toList } ∧
      CreateRoundTrips sampleEnv "plan".toList (planFile "\nDo it.\n") (planInput "Do it.") := by
  obtain ⟨hupdate, hcreate⟩ := issue_roundTrips_iff sampleEnv false "plan".toList
    ⟨planFile "\nDo it.\n", planRecord "Do it."⟩
  refine ⟨(hupdate (planFile "") _ rfl).mpr ?_, (hcreate (planInput "Do it.") rfl).mpr ?_⟩
  · intro split data current data' hfile hpatch
    obtain ⟨rfl, rfl, rfl⟩ := plan_reads.unique hfile
    obtain rfl : planData = data' := Except.ok.inj hpatch
    exact ⟨not_hasFence_planYaml, readsMapping_planYaml, separable_doIt, fun _ hwhen ↦ nomatch hwhen⟩
  · exact ⟨not_hasFence_planYaml, readsMapping_planYaml, separable_doIt⟩

theorem plan_create_comments :
    createIssue sampleEnv false "plan".toList none (planInput "Do it.\n## Comments\nLater.") =
      .ok ⟨planFile "\nDo it.\n## Comments\nLater.\n", planRecord "Do it."⟩ := rfl

/-- A What with a line `## Comments` is cut there, and what follows is read as comments. -/
theorem comments_in_what :
    (∀ data, sampleEnv.parseYaml (sampleEnv.stringifyYaml data) = .ok (.map data)) ∧
      ∃ written, createIssue sampleEnv false "plan".toList none
          (planInput "Do it.\n## Comments\nLater.") = .ok written ∧
        ¬ CreateRoundTrips sampleEnv "plan".toList written.content
          (planInput "Do it.\n## Comments\nLater.") := by
  refine ⟨sampleEnv_parse, _, plan_create_comments, fun h ↦ ?_⟩
  obtain ⟨-, -, hseparable⟩ := (create_roundTrips_iff plan_create_comments).mp h
  rcases hseparable with ⟨hlines, -⟩ | ⟨⟨heading, -, hone⟩, -⟩
  · exact absurd (hlines commentsHeading (by decide)) (by decide)
  have hlength := congrArg List.length hone
  rw [List.length_singleton] at hlength
  exact absurd hlength (by decide)

end OpenAlice.Workspaces.Issues
