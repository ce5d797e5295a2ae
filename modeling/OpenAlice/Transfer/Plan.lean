import OpenAlice.Transfer.Files
import OpenAlice.Transfer.Secrets

/-!
# The plan of a transfer

`planProjectTransfer` of `packages/cli/src/project-transfer.ts`: the walk over the home, what
it leaves out and why, what it rewrites, and the manifest that comes of it.

The walk appends to three lists of its context; here it returns what it appends.  The operations
of the file system do not fail but where a path cannot be read.
-/

namespace OpenAlice.Transfer

open OpenAlice.Data OpenAlice.Core OpenAlice.Scheduling

/-! ## The manifest -/

/-- `ProjectTransferEntryKind` -/
inductive EntryKind where
  | directory
  | file
  | symlink
deriving DecidableEq

/-- `ProjectTransferEntry` -/
structure Entry where
  path : Path
  kind : EntryKind
  mode : Nat
  size : Nat
  sha256 : Option String
  sourceSize : Option Nat
  sourceSha256 : Option String
  linkTarget : Option String
  transform : Option Transform
deriving DecidableEq

/-- Why something is left out. -/
inductive ExclusionReason where
  | sessionPlane
  | runtimeState
  | machineLocal
  | credentialPlane
  | untrackedSessionDossier
deriving DecidableEq

/-- `ProjectTransferExclusion` -/
structure Exclusion where
  reason : ExclusionReason
  files : Nat
  bytes : Nat
  examples : List Path

/-- `ProjectTransferScheduledIssue` -/
structure ScheduledIssue where
  workspaceId : String
  issueId : String
  path : Path
  assignee : String

/-- `ProjectTransferIssuePolicy` -/
inductive IssuePolicy where
  | keepBlocked
  | newThenResume
deriving DecidableEq

/-- `ProjectTransferCredentialMode` -/
inductive CredentialMode where
  | included
  | omitted

def transferPlanError (message : String) : TransferError := ⟨"ETRANSFERPLAN", message⟩

/-! ## Paths -/

/-- `[\u0000-\u001f\u007f-\u009f]` -/
def isControl (c : Char) : Bool := c.toNat ≤ 0x1F || (0x7F ≤ c.toNat && c.toNat ≤ 0x9F)

/-- A name that a manifest path may contain. -/
def isSafeName (name : String) : Bool :=
  !(name = "" || name = "." || name = ".." || decide (255 < (utf16 name).length) ||
    name.toList.any fun c ↦ c = '\\' || isControl c)

/-- `validateManifestPath`.  An absolute path begins with an empty part. -/
def isManifestPath (path : Path) : Bool := !path.isEmpty && path.all isSafeName

/-- The names of the files that hold the sessions of the launcher. -/
def sessionPlane : List String :=
  ["sessions", "resume-identities.json", "headless-tasks.json", "headless-logs",
    "agent-conversations.jsonl", "agent-runtime.jsonl", "scrollback", "workspace-manager-sessions"]

def exclusionReason (path : Path) : Option ExclusionReason :=
  match path with
  | "state" :: _ | "runtime" :: _ | "logs" :: _ => some .runtimeState
  | ["sealing.key"] => some .machineLocal
  | ["provider-keys.json"] => some .credentialPlane
  | "workspaces" :: "state" :: file :: _ =>
    if sessionPlane.contains file then some .sessionPlane else none
  | "data" :: "config" :: file :: _ =>
    if ["accounts.json", "connectors.json"].contains file then some .credentialPlane
    else if ["ports.json", "auth.json"].contains file then some .machineLocal
    else none
  | "data" :: "control" :: _ => some .runtimeState
  | _ => none

/-- `MARKET_DATA`, where `strip-market-provider-keys` applies. -/
def marketDataFile : Path := configPath "market-data.json"

def transferTransform (path : Path) (rewriteOwner : Bool) : Option Transform :=
  if path = ["workspaces", "workspaces.json"] then some .workspaceRegistryPaths
  else if path = ["workspaces", "state", "workspace-catalog.json"] then
    some .workspaceCatalogPaths
  else if path = aiProviderFile then some .stripAiCredentials
  else if path = marketDataFile then some .stripMarketProviderKeys
  else if rewriteOwner then some .rewriteIssueOwner
  else none

def workspaceSessionDossier (path : Path) : Option (Path × Path) :=
  match path with
  | "workspaces" :: group :: workspace :: ".alice" :: "sessions" :: first :: rest =>
    if (group = "workspaces" ∨ group = "departed-workspaces") ∧
        (Path.text (first :: rest)).toList.all (fun c ↦ !isLineTerminator c) then
      some (["workspaces", group, workspace], ".alice" :: "sessions" :: first :: rest)
    else none
  | _ => none

def isIssuePath (path : Path) : Bool :=
  match path with
  | ["workspaces", group, _, ".alice", "issues", file] =>
    (group = "workspaces" || group = "departed-workspaces") &&
      file.toList.reverse.take 3 == "dm.".toList && 3 < file.toList.length
  | _ => false

/-- `assertSafeSymlink`: the target, resolved from its text, is in the home. -/
def isSafeSymlink (home path : Path) (target : String) : Bool :=
  let resolved := ((splitSlash target).foldl (normalizePart true)
    (home ++ path.dropLast).reverse).reverse
  !isAbsolute target && !target.toList.any isControl && home.isPrefixOf resolved

/-! ## Scheduled Issues -/

def inspectScheduledIssue (codec : Codec) (path : Path) (bytes : Bytes) :
    Option ScheduledIssue :=
  let text := codec.decode bytes
  if 64 * 1024 < (codec.encode text).length then none
  else do
    let matter ← frontmatter text.toList
    if matter.content.isEmpty then none
    else do
      let _ ← atLine (keyAndColon "when".toList) [] true matter.content
      let (_, line) ← atLine ownerLine [] true matter.content
      let file := (path.getLast?.getD "").toList
      some {
        workspaceId := path[2]?.getD "unknown"
        issueId := String.ofList (file.take (file.length - 3))
        path
        assignee := String.ofList line.owner }

/-! ## The walk -/

/-- What is left out at a place. -/
structure Excluded where
  reason : ExclusionReason
  path : Path
  files : Nat
  bytes : Nat

structure Walked where
  entries : List Entry
  exclusions : List Excluded
  scheduledIssues : List ScheduledIssue

namespace Walked

def empty : Walked := ⟨[], [], []⟩

def append (first second : Walked) : Walked :=
  ⟨first.entries ++ second.entries, first.exclusions ++ second.exclusions,
    first.scheduledIssues ++ second.scheduledIssues⟩

def entry (e : Entry) : Walked := ⟨[e], [], []⟩

def excluded (reason : ExclusionReason) (path : Path) (files bytes : Nat) : Walked :=
  ⟨[], [⟨reason, path, files, bytes⟩], []⟩

end Walked

/-- `WalkContext`, as far as it is read. -/
structure WalkContext where
  codec : Codec
  home : Path
  issuePolicy : Option IssuePolicy
  isGitTracked : Path → Path → Bool
  destinationHome : String

mutual

def measureTree : Node → Nat × Nat
  | .file _ bytes => (1, bytes.length)
  | .directory _ children => measureChildren children
  | _ => (1, 0)

def measureChildren : Children → Nat × Nat
  | .nil => (0, 0)
  | .cons _ node rest =>
    ((measureTree node).1 + (measureChildren rest).1,
      (measureTree node).2 + (measureChildren rest).2)

end

/-- `info.mode & 0o777` -/
def permissions (mode : Nat) : Nat := mode % 0o1000

variable (context : WalkContext)

def scheduledIssueOf (path : Path) (bytes : Bytes) : Option ScheduledIssue :=
  if isIssuePath path then inspectScheduledIssue context.codec path bytes else none

def fileTransform (path : Path) (bytes : Bytes) : Option Transform :=
  transferTransform path
    ((scheduledIssueOf context path bytes).isSome && context.issuePolicy == some .newThenResume)

def portableBytes (path : Path) (bytes : Bytes) : Except TransferError Bytes :=
  match fileTransform context path bytes with
  | none => .ok bytes
  | some t => transformProjectTransferFile context.codec t bytes context.destinationHome

def fileEntry (path : Path) (mode : Nat) (bytes portable : Bytes) : Entry where
  path
  kind := .file
  mode := permissions mode
  size := portable.length
  sha256 := some (context.codec.sha256 portable)
  sourceSize := (fileTransform context path bytes).map fun _ ↦ bytes.length
  sourceSha256 := (fileTransform context path bytes).map fun _ ↦ context.codec.sha256 bytes
  linkTarget := none
  transform := fileTransform context path bytes

def walkFile (path : Path) (mode : Nat) (bytes : Bytes) : Except TransferError Walked :=
  (portableBytes context path bytes).map fun portable ↦
    ⟨[fileEntry context path mode bytes portable], [], (scheduledIssueOf context path bytes).toList⟩

def walkSymlink (path : Path) (mode : Nat) (target : String) : Except TransferError Walked :=
  if isSafeSymlink context.home path target then
    .ok (.entry {
      path, kind := .symlink, mode := permissions mode, size := 0, sha256 := none,
      sourceSize := none, sourceSha256 := none, linkTarget := some target, transform := none })
  else .error (transferPlanError
    ("Symlink " ++ path.text ++ " escapes the AliceProject home."))

def walkDirectory (path : Path) (mode : Nat) : Walked :=
  if path.isEmpty then .empty
  else .entry {
    path, kind := .directory, mode := permissions mode, size := 0, sha256 := none,
    sourceSize := none, sourceSha256 := none, linkTarget := none, transform := none }

/-- What keeps a path out of the manifest: it is unsafe, excluded, or the dossier of a Session
that git does not track. -/
inductive Gate where
  | refused (error : TransferError)
  | excluded (reason : ExclusionReason)
  | untracked
  | portable

/-- The checks of `walkPortableTree` before it looks at what stands there. -/
def gate (path : Path) : Gate :=
  if !path.isEmpty && !isManifestPath path then
    .refused (transferPlanError
      ("Unsafe transfer path: " ++ context.codec.stringify (.string path.text)))
  else
    match exclusionReason path with
    | some reason => .excluded reason
    | none =>
      match workspaceSessionDossier path with
      | some (root, gitPath) =>
        if context.isGitTracked root gitPath then .portable else .untracked
      | none => .portable

def pastGate (path : Path) (node : Node) (portable : Except TransferError Walked) :
    Except TransferError Walked :=
  match gate context path with
  | .refused error => .error error
  | .excluded reason => .ok (.excluded reason path (measureTree node).1 (measureTree node).2)
  | .untracked =>
    match node with
    | .directory _ _ => .ok (.excluded .untrackedSessionDossier path 0 0)
    | .file _ bytes => .ok (.excluded .untrackedSessionDossier path 1 bytes.length)
    | _ => .ok (.excluded .untrackedSessionDossier path 1 0)
  | .portable => portable

mutual

def walkPortableTree (path : Path) : Node → Except TransferError Walked
  | .symlink mode target =>
    pastGate context path (.symlink mode target) (walkSymlink context path mode target)
  | .directory mode children =>
    pastGate context path (.directory mode children)
      ((walkChildren path children).map (walkDirectory path mode).append)
  | .file mode bytes => pastGate context path (.file mode bytes) (walkFile context path mode bytes)
  | .other => pastGate context path .other (.error (transferPlanError
      ("Unsupported filesystem entry: " ++ path.text)))

def walkChildren (path : Path) : Children → Except TransferError Walked
  | .nil => .ok .empty
  | .cons name node rest => do
      let first ← walkPortableTree (path ++ [name]) node
      let others ← walkChildren path rest
      .ok (first.append others)

end

def addExclusion (exclusions : List (ExclusionReason × Exclusion)) (excluded : Excluded) :
    List (ExclusionReason × Exclusion) :=
  let current := (exclusions.lookup excluded.reason).getD ⟨excluded.reason, 0, 0, []⟩
  setKey exclusions excluded.reason {
    current with
    files := current.files + excluded.files
    bytes := current.bytes + excluded.bytes
    examples := if current.examples.length < 3 then current.examples ++ [excluded.path]
      else current.examples }

/-! ## The plan -/

/-- `AliceProjectProduct` -/
inductive Product where
  | trader
  | nano

structure Blocker where
  code : String
  message : String

/-- `ProjectTransferPlan`, whose `schemaVersion` is always the same. -/
structure Plan where
  transferId : String
  generatedAt : String
  sourceProjectId : String
  sourceKey : String
  sourceDisplayName : String
  sourceHome : Path
  product : Product
  machineKey : String
  destinationProjectId : String
  destinationKey : String
  destinationDisplayName : String
  destinationHome : String
  requiredFreeBytes : Nat
  credentialMode : CredentialMode
  issuePolicy : Option IssuePolicy
  entries : List Entry
  files : Nat
  directories : Nat
  symlinks : Nat
  bytes : Nat
  excluded : List Exclusion
  credentials : CredentialSummary
  scheduledIssues : List ScheduledIssue
  blockers : List Blocker
  readyToApply : Bool

/-- `PlanProjectTransferInput`, without the source home. -/
structure PlanInput where
  sourceId : String
  sourceKey : String
  sourceDisplayName : String
  destinationMachineKey : String
  destinationProjectKey : String
  destinationDisplayName : Option String
  destinationHome : String
  credentials : Option CredentialMode
  scheduledIssues : Option IssuePolicy
  /-- `AQ_LAUNCHER_ROOT`, resolved, when it is set and not blank. -/
  launcherRoot : Option String
  isGitTracked : Path → Path → Bool

/-- The identifier and the time of a plan. -/
structure Stamp where
  transferId : String
  generatedAt : String

/-- `/^[a-z][a-z0-9_-]{0,31}$/` -/
def isProjectKey (key : String) : Bool :=
  match key.toList with
  | [] => false
  | c :: rest => c.isLower && decide (rest.length ≤ 31) &&
      rest.all fun c ↦ c.isLower || c.isDigit || c == '_' || c == '-'

/-- `/^alice-project-[a-z0-9][a-z0-9_-]{7,95}$/` -/
def isProjectId (id : String) : Bool :=
  match dropPrefix? "alice-project-".toList id.toList with
  | some (c :: rest) => (c.isLower || c.isDigit) &&
      decide (7 ≤ rest.length ∧ rest.length ≤ 95) &&
      rest.all fun c ↦ c.isLower || c.isDigit || c == '_' || c == '-'
  | _ => false

/-- `trim` of a text. -/
def trimText (text : String) : String := String.ofList (trim text.toList)

/-- `deriveAliceProjectIdFromCanonicalHome` -/
def deriveAliceProjectId (codec : Codec) (home : String) : String :=
  "alice-project-" ++ String.ofList
    ((codec.sha256 (codec.encode ("openalice/alice-project/v1\x00" ++ home))).toList.take 24)

/-- `resolveAliceProjectIdentity`, with the identifier in the environment: the identifier, the
key and the displayed name. -/
def resolveAliceProjectIdentity (explicitId key displayName : String) :
    Except TransferError (String × String × String) :=
  if !isProjectKey (trimText key) then .error ⟨"",
    "AliceProject key must begin with a lowercase letter and use only letters, numbers, \"_\", or \"-\"."⟩
  else if !isProjectId (trimText explicitId) then
    .error ⟨"", "OPENALICE_PROJECT_ID is not a valid AliceProject id."⟩
  else if (utf16 (trimText displayName)).length < 1 ∨ 80 < (utf16 (trimText displayName)).length then
    .error ⟨"", "AliceProject display name must contain 1-80 characters."⟩
  else .ok (trimText explicitId, trimText key, trimText displayName)

/-- `parseAliceProjectProductStamp` -/
def parseProductStamp (value : Json) : Option Product :=
  let record := value.recordValue
  match Json.get record "version", Json.get record "product" with
  | some (.number one), some (.string product) =>
    if one = "1" then
      if product = "trader" then some .trader
      else if product = "nano" then some .nano
      else none
    else none
  | _, _ => none

def readAliceProjectProduct (codec : Codec) (source : Source) : Except TransferError Product :=
  let path := configPath "alice-project.json"
  let invalid : TransferError :=
    ⟨"", "Invalid AliceProject product stamp at " ++ source.absolute path⟩
  match source.readFile path with
  | .error _ =>
    .error ⟨"", "Could not read AliceProject product stamp at " ++ source.absolute path⟩
  | .ok none => .ok .trader
  | .ok (some bytes) =>
    match codec.parse (codec.decode bytes) with
    | .error _ => .error invalid
    | .ok value =>
      match parseProductStamp value with
      | some product => .ok product
      | none => .error invalid

def totalBytes (entries : List Entry) : Nat := entries.foldl (fun sum entry ↦ sum + entry.size) 0

/-- `5%` of the bytes, rounded up, or 64 MiB. -/
def reserve (bytes : Nat) : Nat := max (64 * 1024 * 1024) ((bytes + 19) / 20)

def splitRootBlockers (input : PlanInput) (source : Source) : List Blocker :=
  match input.launcherRoot with
  | some root =>
    if root ≠ source.absolute ["workspaces"] then [⟨"ESPLITROOT",
      "AQ_LAUNCHER_ROOT points outside the selected AliceProject; split-root transfer is not supported."⟩]
    else []
  | none => []

def issuePolicyBlockers (input : PlanInput) (scheduledIssues : Nat) : List Blocker :=
  if 0 < scheduledIssues ∧ input.scheduledIssues = none then [⟨"EISSUEPOLICY",
    toString scheduledIssues ++
      " scheduled Issue(s) use an exact Session owner; choose keep-blocked or new-then-resume."⟩]
  else []

def walkContext (codec : Codec) (input : PlanInput) (source : Source) : WalkContext where
  codec
  home := source.home
  issuePolicy := input.scheduledIssues
  isGitTracked := input.isGitTracked
  destinationHome := normalize input.destinationHome

def sortEntries (codec : Codec) (entries : List Entry) : List Entry :=
  entries.mergeSort fun left right ↦ codec.localeLe left.path.text right.path.text

def sortIssues (codec : Codec) (issues : List ScheduledIssue) : List ScheduledIssue :=
  issues.mergeSort fun left right ↦ codec.localeLe left.path.text right.path.text

def countKind (kind : EntryKind) (entries : List Entry) : Nat :=
  (entries.filter (·.kind = kind)).length

def credentialBytes (codec : Codec) (bundle : CredentialBundle) : CredentialMode → Nat
  | .included => (codec.encode (codec.stringify bundle.json)).length
  | .omitted => 0

def planOf (codec : Codec) (input : PlanInput) (stamp : Stamp) (source : Source)
    (bundle : CredentialBundle) (walked : Walked) (product : Product)
    (identity : String × String × String) : Plan :=
  let entries := sortEntries codec walked.entries
  let credentialMode := input.credentials.getD .included
  let blockers := splitRootBlockers input source ++
    issuePolicyBlockers input walked.scheduledIssues.length
  { transferId := stamp.transferId
    generatedAt := stamp.generatedAt
    sourceProjectId := input.sourceId
    sourceKey := input.sourceKey
    sourceDisplayName := input.sourceDisplayName
    sourceHome := source.home
    product
    machineKey := input.destinationMachineKey
    destinationProjectId := identity.1
    destinationKey := identity.2.1
    destinationDisplayName := identity.2.2
    destinationHome := normalize input.destinationHome
    requiredFreeBytes := totalBytes entries + credentialBytes codec bundle credentialMode +
      reserve (totalBytes entries)
    credentialMode
    issuePolicy := input.scheduledIssues
    entries
    files := countKind .file entries
    directories := countKind .directory entries
    symlinks := countKind .symlink entries
    bytes := totalBytes entries
    excluded := (walked.exclusions.foldl addExclusion []).map Prod.snd
    credentials := summarizeProjectTransferCredentials bundle
    scheduledIssues := sortIssues codec walked.scheduledIssues
    blockers
    readyToApply := blockers.isEmpty }

def planProjectTransfer (codec : Codec) (input : PlanInput) (stamp : Stamp) (source : Source) :
    Except TransferError Plan := do
  let bundle ← readProjectTransferCredentialBundle codec source
  let walked ← walkPortableTree (walkContext codec input source) [] source.tree
  let product ← readAliceProjectProduct codec source
  let identity ← resolveAliceProjectIdentity
    (deriveAliceProjectId codec (normalize input.destinationHome)) input.destinationProjectKey
    (input.destinationDisplayName.getD input.sourceDisplayName)
  .ok (planOf codec input stamp source bundle walked product identity)

end OpenAlice.Transfer
