import Mathlib.Algebra.GroupWithZero.Nat
import OpenAlice.Data.Checked
import OpenAlice.Workspaces.Issues.Document

/-!
# Issue declarations

`parseIssueContent` of `src/workspaces/issues/declaration.ts`, with the schema of the
frontmatter and the template of a comment prompt, of `comment-prompt.ts`.

`yaml` and the time zones the runtime knows are parameters.  What `zod` says of a field by
itself is a `Fault`; the texts are those of the source.  The files of a Workspace are read one by
one and stand for themselves, and the size of a file is no concern of the parser.
-/

namespace OpenAlice.Workspaces.Issues

open OpenAlice.Data OpenAlice.Scheduling

/-! ## Plain data -/

/-- What `yaml` reads and writes. -/
inductive Plain where
  | null
  | bool (b : Bool)
  | number (literal : String)
  | str (text : Text)
  | seq (items : List Plain)
  | map (entries : List (String × Plain))

abbrev Mapping := List (String × Plain)

structure IssueEnv where
  /-- `parse` of `yaml`; what it throws is its message. -/
  parseYaml : Text → Except String Plain
  /-- `stringify` of `yaml`. -/
  stringifyYaml : Mapping → Text
  isValidScheduleTimezone : Text → Bool

/-! ## Enumerations -/

inductive IssueStatus where
  | backlog | todo | inProgress | done | canceled
deriving DecidableEq

inductive IssuePriority where
  | urgent | high | medium | low | none
deriving DecidableEq

inductive IssueTimeout where
  | min15 | min30 | min45 | min60

/-- `ModelReasoningEffort` -/
inductive Effort where
  | none | minimal | low | medium | high | xhigh | max | ultra

def issueStatuses : List (Text × IssueStatus) :=
  [("backlog".toList, .backlog), ("todo".toList, .todo), ("in_progress".toList, .inProgress),
    ("done".toList, .done), ("canceled".toList, .canceled)]

def issuePriorities : List (Text × IssuePriority) :=
  [("urgent".toList, .urgent), ("high".toList, .high), ("medium".toList, .medium),
    ("low".toList, .low), ("none".toList, .none)]

def issueTimeouts : List (Text × IssueTimeout) :=
  [("15m".toList, .min15), ("30m".toList, .min30), ("45m".toList, .min45), ("60m".toList, .min60)]

def modelReasoningEfforts : List (Text × Effort) :=
  [("none".toList, .none), ("minimal".toList, .minimal), ("low".toList, .low),
    ("medium".toList, .medium), ("high".toList, .high), ("xhigh".toList, .xhigh),
    ("max".toList, .max), ("ultra".toList, .ultra)]

/-- `credentialSource` has one value. -/
inductive CredentialSource where
  | native

/-- `'native'` -/
def credentialSources : List (Text × CredentialSource) := [("native".toList, .native)]

/-! ## Assignees -/

def newEachRunAssignee : Text := "@new-each-run".toList
def newThenResumeAssignee : Text := "@new-then-resume".toList
def humanAssignee : Text := "@human".toList
def unassignedAssignee : Text := "@unassigned".toList
def deprecatedWorkspaceAssignee : Text := "@workspace".toList
def deprecatedNewAssignee : Text := "@new".toList

/-- `resumeIdFromSignature(value) !== null` -/
def isSession (value : Text) : Bool :=
  "@resume-".toList.isPrefixOf value && !value.any isSpace

/-- `issueAssigneeSchema` -/
def isAssignee (value : Text) : Bool :=
  [newEachRunAssignee, newThenResumeAssignee, humanAssignee, unassignedAssignee].contains value ||
    isSession value && value.length > 8

/-- `issueAssigneeFileSchema` -/
def isFileAssignee (value : Text) : Bool :=
  isAssignee value || [deprecatedWorkspaceAssignee, deprecatedNewAssignee].contains value

/-- `toLowerCase`, as far as plain letters come out of it. -/
def toLower (text : Text) : Text :=
  text.flatMap fun c ↦
    if c.toNat = 0x212A then ['k']
    else if c.toNat = 0x130 then ['i', Char.ofNat 0x307]
    else [c.toLower]

def deprecatedIssueAssigneeReplacement (value : Text) : Option Text :=
  let lower := toLower (trim value)
  if lower = "@workspace".toList ∨ lower = "workspace".toList then some newEachRunAssignee
  else if lower = "@new".toList ∨ lower = "new".toList then some newThenResumeAssignee
  else none

/-! ## Comment prompts -/

/-- `length`: a character above the basic plane counts twice. -/
def utf16Length (text : Text) : Nat :=
  (text.map fun c ↦ if 0x10000 ≤ c.toNat then 2 else 1).sum

def issueCommentPromptTokens : List Text :=
  ["comment".toList, "title".toList, "id".toList, "workspaceId".toList, "author".toList,
    "what".toList]

def tokenAt (text : Text) : Option Text :=
  let token := text.takeWhile Char.isAlphanum
  if token.head?.any Char.isAlpha ∧ (text.dropWhile Char.isAlphanum).head? = some '\x7d' then
    some token
  else none

/-- The matches of `TOKEN_RE`. -/
def tokensOf : Text → List Text
  | [] => []
  | c :: text =>
    if c = '\x7b' then (tokenAt text).toList ++ tokensOf text else tokensOf text

def parseIssueCommentPrompt (value : Text) : Except String Text :=
  let template := trim value
  let unknown := (tokensOf template).eraseDups.filter fun t ↦ !issueCommentPromptTokens.contains t
  if template = [] then .error "commentPrompt must be a non-empty template or omitted"
  else if 8000 < utf16Length template then
    .error "commentPrompt must be at most 8000 characters"
  else if unknown ≠ [] then
    .error ("commentPrompt has unknown tokens: " ++ ", ".intercalate
      ((unknown.map String.ofList).mergeSort.map fun token ↦ "\x7b" ++ token ++ "\x7d"))
  else if !(tokensOf template).contains "comment".toList then
    .error "commentPrompt must include \x7bcomment\x7d"
  else .ok template

/-! ## The schema -/

/-- What is wrong with a value: what `zod` finds by itself, or what the source says. -/
inductive Fault where
  | invalidType
  | tooSmall
  | tooBig
  | invalidValue
  | custom (message : String)

/-- `z.ZodIssue` -/
structure SchemaIssue where
  path : List String
  fault : Fault

abbrev Checked (α : Type) := Except (List SchemaIssue) α

namespace Checked

def fail {α : Type} (fault : Fault) : Checked α := .error [⟨[], fault⟩]

def passing {α : Type} (issues : List SchemaIssue) (a : α) : Checked α :=
  if issues = [] then .ok a else .error issues

theorem passing_ok {α : Type} {issues : List SchemaIssue} {a b : α} (h : passing issues a = .ok b) :
    a = b := by
  rw [passing] at h
  split_ifs at h
  exact Except.ok.inj h

end Checked

def atKey {α : Type} (entries : Mapping) (key : String) (read : Option Plain → Checked α) :
    Checked α :=
  (read (entries.lookup key)).mapError
    (List.map fun issue ↦ { issue with path := key :: issue.path })

def required {α : Type} (read : Plain → Checked α) : Option Plain → Checked α
  | none => .fail .invalidType
  | some value => read value

def optional {α : Type} (read : Plain → Checked α) : Option Plain → Checked (Option α)
  | none => .ok none
  | some value => (read value).map some

/-- `default(value)` -/
def defaulted {α : Type} (value : α) (read : Plain → Checked α) : Option Plain → Checked α
  | none => .ok value
  | some value => read value

/-- `z.string().min(1)` -/
def readText : Plain → Checked Text
  | .str text => if text = [] then .fail .tooSmall else .ok text
  | _ => .fail .invalidType

/-- `z.boolean()` -/
def readBool : Plain → Checked Bool
  | .bool b => .ok b
  | _ => .fail .invalidType

/-- `z.enum(names)` -/
def readEnum {α : Type} (names : List (Text × α)) : Plain → Checked α
  | .str text => (names.lookup text).elim (.fail .invalidValue) .ok
  | _ => .fail .invalidValue

/-- `z.custom(isModelReasoningEffort)` -/
def readEffort : Plain → Checked Effort
  | .str text =>
    (modelReasoningEfforts.lookup text).elim
      (.fail (.custom "effort must be none, minimal, low, medium, high, xhigh, or max")) .ok
  | _ => .fail (.custom "effort must be none, minimal, low, medium, high, xhigh, or max")

/-- `issueAssigneeFileSchema` -/
def readAssignee : Plain → Checked Text
  | .str text => if isFileAssignee text then .ok text else .fail .invalidValue
  | _ => .fail .invalidValue

/-- `/^[a-z][a-z0-9-]*$/` -/
def isConnectorId : Text → Bool
  | [] => false
  | c :: rest => c.isLower && rest.all fun d ↦ d.isLower || d.isDigit || d = '-'

/-- `connectorDesk` -/
def readConnectorDesk : Plain → Checked Text
  | .str text =>
    .passing
      ((if isConnectorId text then []
          else [⟨[], .custom "connectorDesk must be a connector id"⟩]) ++
        if utf16Length text ≤ 64 then [] else [⟨[], .tooBig⟩])
      text
  | _ => .fail .invalidType

/-- `z.literal(true)` -/
def readTrue : Plain → Checked Unit
  | .bool true => .ok ()
  | _ => .fail .invalidValue

/-- `z.never()` -/
def readNever : Plain → Checked Unit := fun _ ↦ .fail .invalidType

section Schema

variable (env : IssueEnv)

def readTimezone : Plain → Checked Text
  | .str text =>
    .passing
      ((if text = [] then [⟨[], .tooSmall⟩] else []) ++
        if env.isValidScheduleTimezone text then []
        else [⟨[], .custom "timezone must be `local` or a valid IANA timezone"⟩])
      text
  | _ => .fail .invalidType

/-- `issueWhenSchema` -/
def readWhen : Plain → Checked Schedule
  | .map entries =>
    match entries.lookup "kind" with
    | some (.str kind) =>
      if kind = "at".toList then
        (atKey entries "at" (required readText)).map fun t ↦ .at (String.ofList t)
      else if kind = "every".toList then
        (atKey entries "every" (required readText)).map fun t ↦ .every (String.ofList t)
      else if kind = "cron".toList then
        (both (atKey entries "cron" (required readText))
          (both (atKey entries "timezone" (optional (readTimezone env)))
            (atKey entries "catchUp" (optional readBool)))).map
          fun (cron, timezone, catchUp) ↦
            .cron (String.ofList cron) (timezone.map String.ofList) catchUp
      else .error [⟨["kind"], .invalidValue⟩]
    | _ => .error [⟨["kind"], .invalidValue⟩]
  | _ => .fail .invalidType

/-- The keys of the frontmatter, as they are declared. -/
structure IssueFields where
  title : Text
  status : IssueStatus
  priority : IssuePriority
  assignee : Option Text
  when? : Option Schedule
  what : Option Text
  agent : Option Text
  credential : Option Text
  credentialSource : Option CredentialSource
  model : Option Text
  effort : Option Effort
  timeout : Option IssueTimeout
  commentPrompt : Option Text
  connectorDesk : Option Text
  telegramConnector : Option Unit

/-- `issueFrontmatterObjectSchema` -/
def readFields (data : Mapping) : Checked IssueFields :=
  (both (atKey data "title" (required readText))
    (both (atKey data "status" (defaulted .todo (readEnum issueStatuses)))
    (both (atKey data "priority" (defaulted .none (readEnum issuePriorities)))
    (both (atKey data "assignee" (optional readAssignee))
    (both (atKey data "when" (optional (readWhen env)))
    (both (atKey data "what" (optional readText))
    (both (atKey data "agent" (optional readText))
    (both (atKey data "credential" (optional readText))
    (both (atKey data "credentialSource" (optional (readEnum credentialSources)))
    (both (atKey data "model" (optional readText))
    (both (atKey data "effort" (optional readEffort))
    (both (atKey data "timeout" (optional (readEnum issueTimeouts)))
    (both (atKey data "commentPrompt" (optional readText))
    (both (atKey data "connectorDesk" (optional readConnectorDesk))
    (both (atKey data "telegramConnector" (optional readTrue))
      (atKey data "execution" (optional readNever))))))))))))))))).map
    fun (title, status, priority, assignee, when?, what, agent, credential, credentialSource,
        model, effort, timeout, commentPrompt, connectorDesk, telegramConnector, _) ↦
      { title, status, priority, assignee, when?, what, agent, credential, credentialSource,
        model, effort, timeout, commentPrompt, connectorDesk, telegramConnector }

/-- The assignee that is meant: an alias stands for another, and an Issue without one has a
default that depends on whether it is scheduled. -/
def IssueFields.owner (fields : IssueFields) : Text :=
  match fields.assignee with
  | none => if fields.when?.isSome then newThenResumeAssignee else unassignedAssignee
  | some assignee =>
    if assignee = deprecatedWorkspaceAssignee then
      if fields.when?.isSome then newEachRunAssignee else unassignedAssignee
    else if assignee = deprecatedNewAssignee then newThenResumeAssignee
    else assignee

def IssueFields.desk (fields : IssueFields) : Option Text :=
  fields.connectorDesk.or (fields.telegramConnector.map fun _ ↦ "telegram".toList)

/-- The first `superRefine`. -/
def refineDesk (fields : IssueFields) : List SchemaIssue :=
  if fields.telegramConnector.isSome ∧ fields.connectorDesk.any (· ≠ "telegram".toList) then
    [⟨["connectorDesk"], .custom "telegramConnector cannot combine with a different connectorDesk"⟩]
  else []

def refineOverride (field : String) (present : Bool) : List SchemaIssue :=
  if present then
    [⟨[field], .custom ("session assignee owns its runtime; remove the " ++ field ++ " override")⟩]
  else []

/-- The second `superRefine`. -/
def refineFields (fields : IssueFields) : List SchemaIssue :=
  let assignee := fields.owner
  (if fields.credential.isSome ∧ fields.credentialSource.isSome then
    [⟨["credentialSource"], .custom "credential and credentialSource are mutually exclusive"⟩]
    else []) ++
  (if fields.when?.isSome ∧ (assignee = humanAssignee ∨ assignee = unassignedAssignee) then
    [⟨["assignee"], .custom
      "scheduled issues must use @new-each-run, @new-then-resume, or an exact @resumeId"⟩]
    else []) ++
  (if fields.when?.isNone ∧ (assignee = newEachRunAssignee ∨ assignee = newThenResumeAssignee) then
    [⟨["assignee"], .custom (String.ofList assignee ++ " needs a schedule")⟩]
    else []) ++
  (if isSession assignee then
    refineOverride "agent" fields.agent.isSome ++
      refineOverride "credential" fields.credential.isSome ++
      refineOverride "credentialSource" fields.credentialSource.isSome ++
      refineOverride "model" fields.model.isSome ++
      refineOverride "effort" fields.effort.isSome
    else []) ++
  (match fields.commentPrompt.map parseIssueCommentPrompt with
    | some (.error error) => [⟨["commentPrompt"], .custom error⟩]
    | _ => [])

/-- `issueFrontmatterSchema.safeParse` -/
def checkFrontmatter (data : Mapping) : Checked IssueFields := do
  let fields ← readFields env data
  if refineDesk fields ≠ [] then .error (refineDesk fields)
  else if refineFields fields ≠ [] then .error (refineFields fields)
  else .ok fields

/-! ## Records -/

structure IssueRecord where
  id : Text
  title : Text
  status : IssueStatus
  priority : IssuePriority
  assignee : Text
  when? : Option Schedule
  agent : Option Text
  credential : Option Text
  credentialSource : Option CredentialSource
  model : Option Text
  effort : Option Effort
  timeout : Option IssueTimeout
  commentPrompt : Option Text
  connectorDesk : Option Text
  what : Text

inductive IssueError where
  | message (text : String)
  | schema (issues : List SchemaIssue)

def IssueFields.record (fields : IssueFields) (id what : Text) : IssueRecord where
  id := id
  title := fields.title
  status := fields.status
  priority := fields.priority
  assignee := fields.owner
  when? := fields.when?
  agent := fields.agent
  credential := fields.credential
  credentialSource := fields.credentialSource
  model := fields.model
  effort := fields.effort
  timeout := fields.timeout
  commentPrompt := fields.commentPrompt
  connectorDesk := fields.desk
  what := what

def parseIssueContent (id raw : Text) : Except IssueError IssueRecord :=
  match splitFrontmatter raw with
  | none => .error (.message "missing YAML frontmatter (expected a leading `---` block)")
  | some split =>
    match env.parseYaml split.frontmatter with
    | .error error => .error (.message ("invalid YAML frontmatter: " ++ error))
    | .ok (.map data) =>
      match checkFrontmatter env data with
      | .error issues => .error (.schema issues)
      | .ok fields =>
        .ok (fields.record id
          (mergeLegacyWhat fields.what (splitLegacyIssueDocument split.body).what fields.title))
    | .ok _ => .error (.message "frontmatter is not a mapping")

end Schema

end OpenAlice.Workspaces.Issues
