import Mathlib.Data.List.Dedup
import Mathlib.Data.List.Sort
import OpenAlice.Transfer.Secrets
import OpenAlice.Workspaces.Upgrade.Snapshot

/-!
# Template upgrades

`TemplateUpgradeManager` of `src/workspaces/template-upgrade.ts`: a three-way merge of the last
applied template (base), the workspace (local) and today's template (incoming), path by path.

`recoverWorkspace` and `applyLocked` take the workspace to what it is afterwards, next to what they
return or throw.  The template is materialised in a directory of its own, whose tree is a parameter,
and so are the digest of a plan, the answers of `git` and whether a session is active.  `git` leaves
the files alone.  The bookkeeping below `.alice/template-upgrade` is `state`, `baseline` and
`transaction`; its writes do not fail.

What the plan shows of the files, and dates, ids of commits in the state and log lines, which
nothing reads, are left out.
-/

namespace OpenAlice.Workspaces.Upgrade

open OpenAlice.Data OpenAlice.Transfer

/-! ## What is kept -/

structure TemplateMeta where
  name : String
  displayName : Option String := none
  version : String
  upgradeStrategy : Option String := none

structure WorkspaceMeta where
  id : String
  template : Option String := none
  spawnedFromVersion : Option String := none

/-- `state.json`, when it can be read. -/
structure TemplateUpgradeState where
  template : String
  appliedVersion : String

structure UpgradeJournal where
  template : String
  toVersion : String
  planDigest : String
  touchedPaths : List Path

structure Transaction where
  journal : UpgradeJournal
  before : Option Snapshot
  incoming : Option Snapshot

structure Desk where
  tree : WorkspaceTree
  state : Option TemplateUpgradeState := none
  /-- `baseline.json.gz` -/
  baseline : Option Snapshot := none
  transaction : Option Transaction := none
  /-- The message of the last commit. -/
  headMessage : String := ""
  /-- `git diff --cached --name-only` -/
  staged : List Path := []
  /-- The files of the root commit, and their texts where `git show` has one. -/
  rootCommit : Option (List (Path × Option String)) := none

/-! ## Plans -/

inductive FileStatus where
  | ready
  | preserved
  | conflict
  | unchanged
deriving DecidableEq

inductive Resolution where
  | workspace
  | template
deriving DecidableEq

inductive FileOperation where
  | add
  | update
  | remove
  | keep
  | none

/-- `TemplateUpgradeFilePlan` -/
structure FilePlan where
  path : Path
  status : FileStatus
  operation : FileOperation
  canUseTemplate : Bool

inductive PlanSource where
  | recordedBaseline
  | legacyRootCommit

inductive Blocker where
  | activeSessions
  | stagedChanges
deriving DecidableEq

/-- `TemplateUpgradePlan` -/
structure UpgradePlan where
  workspaceId : String
  template : String
  fromVersion : String
  toVersion : String
  planDigest : String
  source : PlanSource
  blockers : List Blocker
  files : List FilePlan

structure DigestInput where
  workspaceId : String
  template : String
  fromVersion : String
  toVersion : String
  baseline : Snapshot
  incoming : Snapshot
  «local» : Snapshot

inductive UpgradeErrorCode where
  | notFound
  | unsupported
  | alreadyCurrent
  | busy
  | stagedChanges
  | stalePlan
  | unresolvedConflict
  | invalidResolution
deriving DecidableEq

/-- What `apply` throws: an error with a code, or one of the system. -/
inductive UpgradeError where
  | coded (code : UpgradeErrorCode) (message : String)
  | thrown (message : String)
deriving DecidableEq

structure Manager where
  sys : Platform
  /-- `templates.get` -/
  templates : String → Option TemplateMeta
  materialized : TemplateMeta → String → WorkspaceTree
  digestPlan : DigestInput → String
  /-- `workspaceRuntimeActivity(id).busy` -/
  busy : String → Bool

/-- What `git` answers in one call: the error that `runGit` throws, if it does. -/
structure GitAnswers where
  add : Option String := none
  commit : Option String := none
  /-- `rev-parse HEAD` -/
  head : Except String String

variable (M : Manager)

def operationFor («local» incoming : SnapshotFile) : FileOperation :=
  if incoming.kind = .missing then .remove
  else if «local».kind = .missing then .add
  else .update

def classifyFile (path : Path) (base «local» incoming : SnapshotFile) : FilePlan :=
  let operation := operationFor «local» incoming
  if sameFile «local» incoming then
    { path, status := .unchanged, operation := .none, canUseTemplate := true }
  else
    let localChanged := !sameFile «local» base
    let incomingChanged := !sameFile incoming base
    if !localChanged && incomingChanged then
      { path, status := .ready, operation, canUseTemplate := true }
    else if localChanged && !incomingChanged then
      { path, status := .preserved, operation := .keep, canUseTemplate := true }
    else
      { path, status := .conflict, operation
        canUseTemplate := «local».kind != .other && incoming.kind != .other }

def resolveUpgradeableTemplate (workspace : WorkspaceMeta) : Except UpgradeError TemplateMeta :=
  match workspace.template with
  | none => .error (.coded .unsupported "This legacy Workspace has no template lineage")
  | some name =>
    match M.templates name with
    | none => .error (.coded .unsupported ("Template " ++ name ++ " is unavailable"))
    | some template =>
      if template.upgradeStrategy = some "managed-context" then .ok template
      else .error (.coded .unsupported
        (template.displayName.getD template.name ++ " does not support in-place upgrade"))

def materializeTemplate (template : TemplateMeta) (workspaceId : String) : Snapshot :=
  readManagedWorkspaceSnapshot M.sys (M.materialized template workspaceId)

def readLegacyRootBaseline (desk : Desk) : Except UpgradeError Snapshot :=
  match desk.rootCommit with
  | none => .error (.thrown "Workspace has no root commit for legacy template baseline")
  | some files =>
    .ok ((files.filter fun file ↦ isManagedTemplatePath file.1).map fun file ↦
      (file.1, match file.2 with
        | some content => fileContent M.sys content
        | none => otherFile M.sys "non-text or non-blob entry in root commit"))

def stateOf (desk : Desk) (template : TemplateMeta) : Option TemplateUpgradeState :=
  desk.state.filter fun state ↦ state.template == template.name

def baselineOf (desk : Desk) (template : TemplateMeta) :
    Except UpgradeError (Snapshot × PlanSource) :=
  match (stateOf desk template).bind fun _ ↦ desk.baseline with
  | some files => .ok (files, .recordedBaseline)
  | none => (readLegacyRootBaseline M desk).map fun files ↦ (files, .legacyRootCommit)

/-- The order of `sort`. -/
def pathLe (left right : Path) : Prop :=
  unitsLe (utf16 (Path.text left)) (utf16 (Path.text right)) = true

instance : DecidableRel pathLe := fun _ _ ↦ inferInstanceAs (Decidable (_ = true))

def planPaths (baseline «local» incoming : Snapshot) : List Path :=
  ((baseline.map Prod.fst ++ «local».map Prod.fst ++ incoming.map Prod.fst).dedup.filter
    isManagedTemplatePath).insertionSort pathLe

def buildPlan (workspace : WorkspaceMeta) (desk : Desk) (template : TemplateMeta)
    (incoming : Snapshot) : Except UpgradeError UpgradePlan :=
  (baselineOf M desk template).map fun (baseline, source) ↦
    let localSnapshot := readManagedWorkspaceSnapshot M.sys desk.tree
    let paths := planPaths baseline localSnapshot incoming
    let fromVersion := match stateOf desk template with
      | some state => state.appliedVersion
      | none => workspace.spawnedFromVersion.getD "unknown"
    { workspaceId := workspace.id
      template := template.name
      fromVersion
      toVersion := template.version
      source
      planDigest := M.digestPlan
        { workspaceId := workspace.id, template := template.name, fromVersion
          toVersion := template.version, baseline, incoming
          «local» := paths.map fun path ↦ (path, readLocalFile M.sys desk.tree path) }
      blockers :=
        (if M.busy workspace.id then [.activeSessions] else []) ++
          if desk.staged = [] then [] else [.stagedChanges]
      files := paths.map fun path ↦
        classifyFile path (baseline.at path) (readLocalFile M.sys desk.tree path)
          (incoming.at path) }

/-! ## Writing a snapshot -/

/-- The loop of `writeSnapshotFile` over some paths, up to the first that throws. -/
def writeAll (T : WorkspaceTree) (snapshot : Snapshot) :
    List Path → WorkspaceTree × Option String
  | [] => (T, none)
  | path :: rest =>
    match writeSnapshotFile M.sys T path (snapshot.at path) with
    | (T', none) => writeAll T' snapshot rest
    | (T', some error) => (T', some error)

def persistAppliedState (desk : Desk) (template version : String) (baseline : Snapshot) : Desk :=
  { desk with
    baseline := some baseline
    state := some { template, appliedVersion := version } }

def trailer (planDigest : String) : String := "OpenAlice-Template-Upgrade: " ++ planDigest

def commitMessage (plan : UpgradePlan) : String :=
  "template(" ++ plan.template ++ "): upgrade " ++ plan.fromVersion ++ " -> " ++ plan.toVersion ++
    "\n\n" ++ trailer plan.planDigest

/-- `text.includes(part)` -/
def includes (text part : String) : Bool :=
  decide (part.toList <:+: text.toList)

/-- `recoverWorkspace`, and the error if it throws. -/
def recoverWorkspace (desk : Desk) : Desk × Option String :=
  match desk.transaction with
  | none => (desk, none)
  | some ⟨journal, before, incoming⟩ =>
    match includes desk.headMessage (trailer journal.planDigest), incoming with
    | true, some files =>
      match M.templates journal.template with
      | none => (desk, some ("cannot recover missing template: " ++ journal.template))
      | some template =>
        ({ persistAppliedState desk template.name journal.toVersion files with
          transaction := none }, none)
    | _, _ =>
      match before with
      | none => (desk, some "template upgrade recovery snapshot is missing")
      | some files =>
        match writeAll M desk.tree files journal.touchedPaths with
        | (tree, some error) => ({ desk with tree }, some error)
        | (tree, none) =>
          ({ desk with
            tree
            staged := desk.staged.filter fun path ↦ path ∉ journal.touchedPaths
            transaction := none }, none)

/-! ## Applying -/

/-- `ApplyTemplateUpgradeInput` -/
structure ApplyInput where
  planDigest : String
  resolutions : Path → Option Resolution := fun _ ↦ none

/-- `TemplateUpgradeResult` -/
structure UpgradeResult where
  workspaceId : String
  fromVersion : String
  toVersion : String
  commit : String
  changedPaths : List Path
  keptPaths : List Path
deriving DecidableEq

/-- The loop over the files of a plan: the paths that take the template, and those that are kept. -/
def choose (resolutions : Path → Option Resolution) :
    List FilePlan → List Path → List Path → Except UpgradeError (List Path × List Path)
  | [], changedPaths, keptPaths => .ok (changedPaths, keptPaths)
  | file :: rest, changedPaths, keptPaths =>
    match file.status with
    | .unchanged => choose resolutions rest changedPaths keptPaths
    | .preserved => choose resolutions rest changedPaths (keptPaths ++ [file.path])
    | .ready => choose resolutions rest (changedPaths ++ [file.path]) keptPaths
    | .conflict =>
      match resolutions file.path with
      | none =>
        .error (.coded .unresolvedConflict
          ("Choose how to resolve " ++ Path.text file.path ++ " before applying."))
      | some .workspace => choose resolutions rest changedPaths (keptPaths ++ [file.path])
      | some .template =>
        if file.canUseTemplate then
          choose resolutions rest (changedPaths ++ [file.path]) keptPaths
        else
          .error (.coded .invalidResolution (Path.text file.path ++
            " is not a regular file and cannot be replaced safely. " ++
            "Keep the Workspace copy or repair it manually."))

def blockerMessage (blockers : List Blocker) : String :=
  if .activeSessions ∈ blockers then
    "Pause the Workspace sessions and headless work before upgrading its shared instructions."
  else
    "Commit or unstage the current staged files before upgrading " ++
      "so the template gets its own clean Git commit."

/-- What `applyLocked` does inside of its `try`, and the commit or the error. -/
def attempt (git : GitAnswers) (desk : Desk) (plan : UpgradePlan) (incoming : Snapshot)
    (changedPaths : List Path) : Desk × Except String String :=
  match writeAll M desk.tree incoming changedPaths with
  | (tree, some error) => ({ desk with tree }, .error error)
  | (tree, none) =>
    let desk := { desk with tree }
    match (if changedPaths = [] then none else git.add) with
    | some error => (desk, .error error)
    | none =>
      match git.commit with
      | some error => ({ desk with staged := changedPaths }, .error error)
      | none =>
        let desk := { desk with headMessage := commitMessage plan }
        match git.head with
        | .error error => (desk, .error error)
        | .ok commit =>
          ({ persistAppliedState desk plan.template plan.toVersion incoming with
            transaction := none }, .ok commit)

/-- `applyLocked`, from where the workspace has been recovered. -/
def applyRecovered (git : GitAnswers) (workspace : WorkspaceMeta) (template : TemplateMeta)
    (input : ApplyInput) (desk : Desk) : Except UpgradeError UpgradeResult × Desk :=
  let incoming := materializeTemplate M template workspace.id
  match buildPlan M workspace desk template incoming with
  | .error error => (.error error, desk)
  | .ok plan =>
    if plan.blockers ≠ [] then
      let code := if .activeSessions ∈ plan.blockers then .busy else .stagedChanges
      (.error (.coded code (blockerMessage plan.blockers)), desk)
    else if plan.planDigest ≠ input.planDigest then
      (.error (.coded .stalePlan ("The Workspace changed after this preview. " ++
        "Review the refreshed plan before applying.")), desk)
    else if plan.fromVersion = plan.toVersion then
      (.error (.coded .alreadyCurrent "Workspace is already on this template version"), desk)
    else
      match choose input.resolutions plan.files [] [] with
      | .error error => (.error error, desk)
      | .ok (changedPaths, keptPaths) =>
        let before := changedPaths.map fun path ↦ (path, readLocalFile M.sys desk.tree path)
        let journal := ⟨template.name, plan.toVersion, plan.planDigest, changedPaths⟩
        let prepared :=
          { desk with transaction := some ⟨journal, some before, some incoming⟩ }
        match attempt M git prepared plan incoming changedPaths with
        | (desk, .ok commit) =>
          (.ok ⟨workspace.id, plan.fromVersion, plan.toVersion, commit, changedPaths,
            keptPaths⟩, desk)
        | (desk, .error error) => (.error (.thrown error), (recoverWorkspace M desk).1)

/-- `applyLocked`; the workspace is what `registry.get` found. -/
def applyLocked (git : GitAnswers) (workspace : Option WorkspaceMeta) (input : ApplyInput)
    (desk : Desk) : Except UpgradeError UpgradeResult × Desk :=
  match workspace with
  | none => (.error (.coded .notFound "Workspace not found"), desk)
  | some workspace =>
    match resolveUpgradeableTemplate M workspace with
    | .error error => (.error error, desk)
    | .ok template =>
      match recoverWorkspace M desk with
      | (desk, some error) => (.error (.thrown error), desk)
      | (desk, none) => applyRecovered M git workspace template input desk

/-- `plan`; the preview of an upgrade. -/
def plan (workspace : Option WorkspaceMeta) (desk : Desk) : Except UpgradeError UpgradePlan × Desk :=
  match workspace with
  | none => (.error (.coded .notFound "Workspace not found"), desk)
  | some workspace =>
    match resolveUpgradeableTemplate M workspace with
    | .error error => (.error error, desk)
    | .ok template =>
      match recoverWorkspace M desk with
      | (desk, some error) => (.error (.thrown error), desk)
      | (desk, none) =>
        (buildPlan M workspace desk template (materializeTemplate M template workspace.id),
          desk)

end OpenAlice.Workspaces.Upgrade
