import OpenAlice.Core.ProvenanceStore
import OpenAlice.Run.Basic

/-!
# The change tracker

`src/workspaces/issues/change-tracker.ts`: Issue files may be edited outside of OpenAlice, so a
tracker keeps a snapshot of every Issue and compares each later scan with it.  What differs is
appended to the provenance store, as edits through OpenAlice are when they are made
(`src/webui/routes/issues.ts`, `src/tool/issue-tools.ts`); a fingerprint of the resulting state
is to keep the tracker from recording such an edit again.

The files are not part of the state.  A pass is given the Issues that some scan has read, an
edit through OpenAlice the snapshots of what it found and of what it wrote, and either may be
out of date: an edit made directly in a file is a difference between what is found now and
what was recorded before.  Passes wait for each other; a pass takes one Issue after another
and suspends at each append, so that edits through OpenAlice can come between.

`digest` is the hash of a snapshot's JSON.  `audits` and `repeated` are read by no step.
-/

namespace OpenAlice.Workspaces.Issues

open OpenAlice.Data OpenAlice.Run OpenAlice.Core

/-! ## Snapshots and their changes -/

structure IssueAuditSnapshot where
  title : String
  status : String
  priority : String
  assignee : String
  schedule : Option String := none
  agent : Option String := none
  credential : Option String := none
  credentialSource : Option String := none
  model : Option String := none
  effort : Option String := none
  timeout : Option String := none
  commentPrompt : Option String := none
  whatHash : String
deriving DecidableEq

def compactAuditValue (value : String) : String :=
  if value.length ≤ 1000 then value else String.ofList (value.toList.take 999 ++ ['…'])

/-- The fields whose texts are recorded, under the names of the record. -/
def auditFields : List (String × (IssueAuditSnapshot → Option String)) :=
  [("title", fun s ↦ some s.title), ("status", fun s ↦ some s.status),
    ("priority", fun s ↦ some s.priority), ("assignee", fun s ↦ some s.assignee),
    ("schedule", IssueAuditSnapshot.schedule), ("runtime", IssueAuditSnapshot.agent),
    ("credential", IssueAuditSnapshot.credential),
    ("credential source", IssueAuditSnapshot.credentialSource),
    ("model", IssueAuditSnapshot.model), ("effort", IssueAuditSnapshot.effort),
    ("timeout", IssueAuditSnapshot.timeout),
    ("commentPrompt", IssueAuditSnapshot.commentPrompt)]

def valueField (left right : IssueAuditSnapshot)
    (field : String × (IssueAuditSnapshot → Option String)) : Option FieldChange :=
  if field.2 left = field.2 right then none
  else some { field := field.1
              before := (field.2 left).map compactAuditValue
              after := (field.2 right).map compactAuditValue }

/-- The fields of `issueMutation`. -/
def mutationFields (left right : IssueAuditSnapshot) : Mutation :=
  auditFields.filterMap (valueField left right) ++
    if left.whatHash = right.whatHash then [] else [{ field := "what" }]

def issueMutation (left right : IssueAuditSnapshot) : Option Mutation :=
  if mutationFields left right = [] then none else some (mutationFields left right)

def issueMutationFingerprint (digest : IssueAuditSnapshot → String)
    (workspaceId issueId : String) (snapshot : IssueAuditSnapshot) : String :=
  "issue-state:" ++ workspaceId ++ ":" ++ issueId ++ ":" ++ digest snapshot

/-! ## The tracker beside the store -/

abbrev Snapshots := List (String × IssueAuditSnapshot)

/-- `observeNow`, where it has come to. -/
structure Pass where
  workspaceId : String
  origin : ArtifactOrigin
  «at» : Int
  previous : Snapshots
  current : Snapshots
  rest : Snapshots
  dirty : Bool

/-- What is known of an Issue that the tracker has a snapshot of. -/
structure Audit where
  /-- The first snapshot. -/
  baseline : IssueAuditSnapshot
  since : Nat
  /-- The state after the last edit through OpenAlice or the last pass, whatever came later. -/
  last : IssueAuditSnapshot
  seen : IssueAuditSnapshot
  /-- The edits that were recorded through OpenAlice since, unless they have led back there. -/
  attributed : List (ArtifactOrigin × Mutation)

def Audit.first (since : Nat) (snapshot : IssueAuditSnapshot) : Audit where
  baseline := snapshot
  since := since
  last := snapshot
  seen := snapshot
  attributed := []

structure Trail where
  records : List ProvenanceRecord := []
  workspaces : List (String × Snapshots) := []
  pass : Option Pass := none
  audits : String → String → Option Audit := fun _ _ ↦ none
  /-- The Issues of which a pass has recorded an edit again, under another origin. -/
  repeated : List (String × String) := []

/-- What can happen. -/
inductive TrailEvent where
  | edit (workspaceId issueId : String) (before after : IssueAuditSnapshot)
      (origin : ArtifactOrigin) («at» : Int)
  /-- Anything else is recorded: a comment, a creation, another artifact. -/
  | activity (record : ProvenanceRecord)
  | observe (workspaceId : String) (issues : Snapshots) (origin : ArtifactOrigin) («at» : Int)
  | next
  | finish

/-- The edit is in force, and a change of a pass has the same field and text under another
origin. -/
def repeats (origin : ArtifactOrigin) (mutation : Mutation)
    (edit : ArtifactOrigin × Mutation) : Bool :=
  !artifactOriginsMatch edit.1 origin && edit.2.any fun change ↦
    mutation.any fun change' ↦ change.field = change'.field && change.after = change'.after

variable (digest : IssueAuditSnapshot → String)

def editRecord (workspaceId issueId : String) (before after : IssueAuditSnapshot)
    (origin : ArtifactOrigin) («at» : Int) : ProvenanceRecord where
  artifact := .issue workspaceId issueId
  action := .updated
  origin := origin
  «at» := «at»
  mutation := issueMutation before after
  fingerprint := (issueMutation before after).map fun _ ↦
    issueMutationFingerprint digest workspaceId issueId after

def Pass.changeRecord (p : Pass) (issueId : String) (after : IssueAuditSnapshot)
    (mutation : Mutation) : ProvenanceRecord where
  artifact := .issue p.workspaceId issueId
  action := .updated
  origin := p.origin
  «at» := p.at
  mutation := some mutation
  fingerprint := some (issueMutationFingerprint digest p.workspaceId issueId after)

def Pass.createdRecord (p : Pass) (issueId : String) : ProvenanceRecord where
  artifact := .issue p.workspaceId issueId
  action := .created
  origin := p.origin
  «at» := p.at
  fingerprint := some ("issue:" ++ p.workspaceId ++ ":" ++ issueId ++ ":created")

def setAudit (audits : String → String → Option Audit) (workspaceId issueId : String)
    (audit : Option Audit) : String → String → Option Audit :=
  fun workspaceId' issueId' ↦
    if workspaceId' = workspaceId ∧ issueId' = issueId then audit else audits workspaceId' issueId'

def Audit.edited (audit : Audit) (mutation : Mutation) (after : IssueAuditSnapshot)
    (origin : ArtifactOrigin) (isRecorded : Bool) : Audit :=
  { audit with
    last := after
    attributed :=
      if after = audit.seen then []
      else if isRecorded then audit.attributed else audit.attributed ++ [(origin, mutation)] }

def Audit.observed (audit : Audit) (after : IssueAuditSnapshot) : Audit :=
  { audit with last := after, seen := after, attributed := [] }

def Trail.takeIssue (t : Trail) (p : Pass) (issueId : String) (after : IssueAuditSnapshot)
    (rest : Snapshots) : Trail :=
  match p.previous.lookup issueId with
  | none =>
    let records :=
      if (latest t.records (.issue p.workspaceId issueId) (some .created)).isSome then t.records
      else append t.records (p.createdRecord issueId) 0
    { t with
      records := records
      pass := some { p with rest := rest, dirty := true }
      audits := setAudit t.audits p.workspaceId issueId (some (.first records.length after)) }
  | some before =>
    match issueMutation before after with
    | none => { t with pass := some { p with rest := rest } }
    | some mutation =>
      let record := p.changeRecord digest issueId after mutation
      let audit := t.audits p.workspaceId issueId
      { t with
        records := append t.records record activityUpdateCoalesceMs
        pass := some { p with rest := rest, dirty := true }
        audits := setAudit t.audits p.workspaceId issueId (audit.map (·.observed after))
        repeated :=
          if !recorded t.records record.fingerprint &&
              (audit.elim [] Audit.attributed).any (repeats p.origin mutation) then
            (p.workspaceId, issueId) :: t.repeated
          else t.repeated }

def trailStep (t : Trail) : TrailEvent → Option Trail
  | .edit workspaceId issueId before after origin «at» =>
    let record := editRecord digest workspaceId issueId before after origin «at»
    some { t with
      records := append t.records record activityUpdateCoalesceMs
      audits :=
        match issueMutation before after with
        | none => t.audits
        | some mutation =>
          setAudit t.audits workspaceId issueId ((t.audits workspaceId issueId).map
            (·.edited mutation after origin (recorded t.records record.fingerprint))) }
  | .activity record =>
    if record.action = .updated ∨ record.mutation.isSome then none
    else some { t with records := append t.records record 0 }
  | .observe workspaceId issues origin «at» =>
    if t.pass.isSome ∨ ¬ (issues.map Prod.fst).Nodup then none
    else
      match t.workspaces.lookup workspaceId with
      | none =>
        some { t with
          workspaces := setKey t.workspaces workspaceId issues
          audits := fun workspaceId' issueId ↦
            if workspaceId' = workspaceId then
              (issues.lookup issueId).map (.first t.records.length)
            else t.audits workspaceId' issueId }
      | some previous =>
        some { t with pass := some {
          workspaceId, origin, «at», previous, current := issues, rest := issues
          dirty := previous.length != issues.length } }
  | .next =>
    match t.pass with
    | some p =>
      match p.rest with
      | (issueId, after) :: rest => some (t.takeIssue digest p issueId after rest)
      | [] => none
    | none => none
  | .finish =>
    match t.pass with
    | some p =>
      if p.rest ≠ [] then none
      else if p.dirty then
        some { t with
          workspaces := setKey t.workspaces p.workspaceId p.current
          pass := none
          audits := fun workspaceId issueId ↦
            if workspaceId = p.workspaceId ∧ p.current.lookup issueId = none then none
            else t.audits workspaceId issueId }
      else some { t with pass := none }
    | none => none

end OpenAlice.Workspaces.Issues
