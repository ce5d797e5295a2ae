import OpenAlice.Data.Keyed
import OpenAlice.Workspaces.Issues.Declaration

/-!
# Issue mutations

`updateIssueFields` and `createIssue` of `src/workspaces/issues/mutate.ts`: what they make of the
file they have read, if it is there, and of a request.  What they write is a function of these;
the reading and writing itself is not part of this module.

A patch is the JSON that a route or a tool was given, so that a value of an enumeration is any
text until it is checked.  In a value that may be `null`, `none` stands for a key that was not
given, and `some none` for `null`.
-/

namespace OpenAlice.Workspaces.Issues

open OpenAlice.Data OpenAlice.Scheduling

/-! ## Requests and results -/

structure IssueFieldPatch where
  status : Option Text := none
  priority : Option Text := none
  assignee : Option Text := none
  agent : Option (Option Text) := none
  credential : Option (Option Text) := none
  credentialSource : Option (Option Text) := none
  model : Option (Option Text) := none
  effort : Option (Option Text) := none
  timeout : Option (Option Text) := none
  what : Option Text := none
  commentPrompt : Option (Option Text) := none
  catchUp : Option Bool := none
  when? : Option Plain := none
  connectorDesk : Option (Option Text) := none
  telegramConnector : Option (Option Unit) := none

structure CreateIssueInput where
  id : Option Text := none
  title : Text
  status : Option Text := none
  priority : Option Text := none
  assignee : Option Text := none
  when? : Option Plain := none
  what : Option Text := none
  agent : Option Text := none
  credential : Option Text := none
  credentialSource : Option Text := none
  model : Option Text := none
  effort : Option Text := none
  timeout : Option Text := none
  commentPrompt : Option Text := none
  body : Option Text := none
  connectorDesk : Option Text := none
  telegramConnector : Bool := false

/-- Why nothing is written. -/
inductive Refusal where
  | notFound
  | conflict (id : Text)
  | invalid (error : IssueError)

structure Written where
  content : Text
  issue : IssueRecord

/-- `{ ok: false, reason: 'invalid', error }` -/
def refuse {α : Type} (error : String) : Except Refusal α := .error (.invalid (.message error))

/-- `ID_RE` -/
def isIssueId : Text → Bool
  | [] => false
  | c :: rest => c.isAlphanum && rest.all fun d ↦ d.isAlphanum || d = '_' || d = '-'

def slugify (title : Text) : Text :=
  ['-'].intercalate
    (((toLower title).splitOnP fun c ↦ !(c.isLower || c.isDigit)).filter (· ≠ []))

def serializeIssue (env : IssueEnv) (frontmatter : Mapping) (what legacyComments : Text) : Text :=
  serializeDocument (env.stringifyYaml frontmatter) what legacyComments

def parseFrontmatterObject (env : IssueEnv) (frontmatter : Text) : Option Mapping :=
  match env.parseYaml frontmatter with
  | .ok (.map data) => some data
  | _ => none

/-! ## Patches of single keys -/

section Patches

variable (env : IssueEnv) (allowDesk : Bool) (patch : IssueFieldPatch) (current : IssueRecord)
  (data : Mapping)

/-- Deprecated aliases are read, and written no more. -/
def normalizeAssignee : Mapping :=
  match data.lookup "assignee" with
  | some (.str assignee) =>
    if (deprecatedIssueAssigneeReplacement assignee).isSome then
      setKey data "assignee" (.str current.assignee)
    else data
  | _ => data

def patchName {α : Type} (key : String) (names : List (Text × α)) (value : Option Text) :
    Except Refusal Mapping :=
  match value with
  | none => .ok data
  | some name =>
    if (names.lookup name).isNone then refuse ("invalid " ++ key ++ ": " ++ String.ofList name)
    else .ok (setKey data key (.str name))

def patchStatus : Except Refusal Mapping := patchName data "status" issueStatuses patch.status

def patchPriority : Except Refusal Mapping :=
  patchName data "priority" issuePriorities patch.priority

def runtimeKeys : List String := ["agent", "credential", "credentialSource", "model", "effort"]

def patchAssignee : Except Refusal Mapping :=
  match patch.assignee with
  | none => .ok data
  | some value =>
    let assignee := trim value
    match deprecatedIssueAssigneeReplacement assignee with
    | some replacement =>
      refuse (String.ofList assignee ++ " is deprecated; use " ++ String.ofList replacement)
    | none =>
      if !isAssignee assignee then
        refuse ("assignee must be @new-each-run, @new-then-resume, @human, @unassigned, " ++
          "or an exact @resumeId")
      else
        let data := setKey data "assignee" (.str assignee)
        .ok (if isSession assignee then runtimeKeys.foldl deleteKey data else data)

def patchText (key : String) (error : String) (value : Option (Option Text)) :
    Except Refusal Mapping :=
  match value with
  | none => .ok data
  | some none => .ok (deleteKey data key)
  | some (some text) =>
    if trim text = [] then refuse error else .ok (setKey data key (.str (trim text)))

def patchAgent : Except Refusal Mapping :=
  patchText data "agent" "agent must be a non-empty string or null" patch.agent

/-- A credential takes the place of the runtime's own login. -/
def patchCredential : Except Refusal Mapping := do
  let data ← patchText data "credential" "credential must be a non-empty vault slug or null"
    patch.credential
  return if (patch.credential.bind id).isSome then deleteKey data "credentialSource" else data

def patchChoice {α : Type} (key : String) (names : List (Text × α)) (error : String)
    (value : Option (Option Text)) : Except Refusal Mapping :=
  match value with
  | none => .ok data
  | some none => .ok (deleteKey data key)
  | some (some name) =>
    if (names.lookup name).isNone then refuse error else .ok (setKey data key (.str name))

/-- The runtime's own login takes the place of a credential. -/
def patchCredentialSource : Except Refusal Mapping := do
  let data ← patchChoice data "credentialSource" credentialSources
    "credentialSource must be native or null" patch.credentialSource
  return if (patch.credentialSource.bind id).isSome then deleteKey data "credential" else data

def patchModel : Except Refusal Mapping :=
  patchText data "model" "model must be a non-empty string or null" patch.model

def patchEffort : Except Refusal Mapping :=
  patchChoice data "effort" modelReasoningEfforts "invalid effort" patch.effort

def patchTimeout : Except Refusal Mapping :=
  patchChoice data "timeout" issueTimeouts "timeout must be 15m, 30m, 45m, or 60m" patch.timeout

def patchCommentPrompt : Except Refusal Mapping :=
  match patch.commentPrompt with
  | none => .ok data
  | some value =>
    if trim (value.getD []) = [] then .ok (deleteKey data "commentPrompt")
    else
      match parseIssueCommentPrompt (value.getD []) with
      | .error error => refuse error
      | .ok template => .ok (setKey data "commentPrompt" (.str template))

def IssueFieldPatch.desk : Option Text :=
  match patch.connectorDesk with
  | some desk => desk.filter (· ≠ [])
  | none => if patch.telegramConnector = some none then none else some "telegram".toList

def patchDesk : Except Refusal Mapping :=
  if patch.connectorDesk.isSome ∨ patch.telegramConnector.isSome then
    if !allowDesk then refuse "connectorDesk can only be changed from Connector Settings"
    else
      let data := deleteKey data "telegramConnector"
      .ok (match patch.desk with
        | none => deleteKey data "connectorDesk"
        | some desk => setKey data "connectorDesk" (.str desk))
  else
    match data.lookup "telegramConnector", data.lookup "connectorDesk" with
    | some (.bool true), none =>
      .ok (deleteKey (setKey data "connectorDesk" (.str "telegram".toList)) "telegramConnector")
    | _, _ => .ok (deleteKey data "telegramConnector")

/-- `when.data`: what `zod` keeps of a schedule. -/
def schedulePlain : Schedule → Plain
  | .at at₀ => .map [("kind", .str "at".toList), ("at", .str at₀.toList)]
  | .every every => .map [("kind", .str "every".toList), ("every", .str every.toList)]
  | .cron cron timezone catchUp =>
    .map ([("kind", .str "cron".toList), ("cron", .str cron.toList)] ++
      (timezone.map fun t ↦ ("timezone", Plain.str t.toList)).toList ++
      (catchUp.map fun c ↦ ("catchUp", Plain.bool c)).toList)

def patchWhen : Except Refusal Mapping :=
  match patch.when? with
  | none => .ok data
  | some value =>
    match readWhen env value with
    | .error _ => refuse "invalid when"
    | .ok schedule => .ok (setKey data "when" (schedulePlain schedule))

def patchCatchUp : Except Refusal Mapping :=
  match patch.catchUp with
  | none => .ok data
  | some catchUp =>
    match data.lookup "when" with
    | some (.map entries) =>
      match entries.lookup "kind" with
      | some (.str kind) =>
        if kind = "cron".toList then
          .ok (setKey data "when" (.map (if catchUp then deleteKey entries "catchUp"
            else setKey entries "catchUp" (.bool false))))
        else refuse "catchUp is only valid on a cron schedule"
      | _ => refuse "catchUp is only valid on a cron schedule"
    | _ => refuse "catchUp is only valid on a cron schedule"

def patchWhat : Except Refusal Text :=
  match patch.what with
  | none => .ok current.what
  | some what =>
    if trim what = [] then refuse "what must be non-empty markdown" else .ok (trim what)

def patchData : Except Refusal Mapping := do
  let data := normalizeAssignee current data
  let data ← patchStatus patch data
  let data ← patchPriority patch data
  let data ← patchAssignee patch data
  let data ← patchAgent patch data
  let data ← patchCredential patch data
  let data ← patchCredentialSource patch data
  let data ← patchModel patch data
  let data ← patchEffort patch data
  let data ← patchTimeout patch data
  let data ← patchCommentPrompt patch data
  let data ← patchDesk allowDesk patch data
  let data ← patchWhen env patch data
  patchCatchUp patch data

end Patches

/-! ## The mutations -/

section Mutations

variable (env : IssueEnv) (allowDesk : Bool)

def readBack (id content : Text) : Except Refusal Written :=
  match parseIssueContent env id content with
  | .error error => .error (.invalid error)
  | .ok issue => .ok { content, issue }

/-- `updateIssueFields`, once the file is read. -/
def updateIssueFields (id : Text) (raw : Option Text) (patch : IssueFieldPatch) :
    Except Refusal Written :=
  if !isIssueId id then .error .notFound
  else
    match raw with
    | none => .error .notFound
    | some raw =>
      match splitFrontmatter raw with
      | none => refuse "missing YAML frontmatter"
      | some split =>
        match parseIssueContent env id raw with
        | .error error => .error (.invalid error)
        | .ok current =>
          match parseFrontmatterObject env split.frontmatter with
          | none => refuse "frontmatter is not a mapping"
          | some data => do
              let data ← patchData env allowDesk patch current data
              let what ← patchWhat patch current
              readBack env id (serializeIssue env (deleteKey data "what") what
                (splitLegacyIssueDocument split.body).legacyComments)

def createId (input : CreateIssueInput) : Except Refusal Text :=
  let title := trim input.title
  if title = [] then refuse "title is required"
  else
    let given := trim (input.id.getD [])
    let id := if given = [] then slugify title else given
    if !isIssueId id then
      refuse ("cannot derive a valid id from title \"" ++ String.ofList title ++
        "\" (pass an explicit id)")
    else .ok id

def given (key : String) (value : Option Plain) (data : Mapping) : Mapping :=
  value.elim data (setKey data key)

def CreateIssueInput.desk (input : CreateIssueInput) : Option Text :=
  (input.connectorDesk.or
    (if input.telegramConnector then some "telegram".toList else none)).filter (· ≠ [])

def CreateIssueInput.firstWhat (input : CreateIssueInput) : Text :=
  let what := trim (input.what.getD [])
  let body := trim (input.body.getD [])
  if what ≠ [] then what else if body ≠ [] then body else trim input.title

def checkAssignee (value : Option Text) : Except Refusal Unit :=
  match value with
  | none => .ok ()
  | some assignee =>
    match deprecatedIssueAssigneeReplacement assignee with
    | some replacement =>
      refuse (String.ofList assignee ++ " is deprecated; use " ++ String.ofList replacement)
    | none =>
      if !isAssignee assignee then
        refuse ("assignee must be @new-each-run, @new-then-resume, @human, @unassigned, " ++
          "or an exact @resumeId")
      else .ok ()

def checkCommentPrompt (value : Option Text) : Except Refusal (Option Text) :=
  match value with
  | none => .ok none
  | some prompt =>
    match parseIssueCommentPrompt prompt with
    | .error error => refuse error
    | .ok template => .ok (some template)

def newData (input : CreateIssueInput) (commentPrompt : Option Text) : Mapping :=
  given "connectorDesk" (input.desk.map .str) <|
  given "commentPrompt" (commentPrompt.map .str) <|
  given "timeout" (input.timeout.map .str) <|
  given "effort" (input.effort.map .str) <|
  given "model" (input.model.map .str) <|
  given "credentialSource" (input.credentialSource.map .str) <|
  given "credential" (input.credential.map .str) <|
  given "agent" (input.agent.map .str) <|
  given "when" input.when? <|
  given "assignee" (input.assignee.map .str) <|
  given "priority" (input.priority.map .str) <|
  given "status" (input.status.map .str) [("title", .str (trim input.title))]

/-- `createIssue`, from when the file of `id` was looked for. -/
def createIssue (id : Text) (existing : Option Text) (input : CreateIssueInput) :
    Except Refusal Written := do
  if existing.isSome then .error (.conflict id)
  else
    checkAssignee input.assignee
    let commentPrompt ← checkCommentPrompt input.commentPrompt
    if input.desk.isSome ∧ !allowDesk then
      refuse "connectorDesk can only be set from Connector Settings"
    else
      match checkFrontmatter env (newData input commentPrompt) with
      | .error issues => .error (.invalid (.schema issues))
      | .ok _ =>
        readBack env id (serializeIssue env (newData input commentPrompt) input.firstWhat [])

end Mutations

end OpenAlice.Workspaces.Issues
