import OpenAlice.Data.Trees
import OpenAlice.Transfer.Home

/-!
# Snapshots of the managed paths

The part of `src/workspaces/template-upgrade.ts` that reads the managed paths of a workspace and
writes them.

A path is the list of its names; no name has a slash, a backslash or a NUL in it but where
`isManagedTemplatePath` says so.  A file is its text, as `readFile(path, 'utf8')` gives it.  A write
that fails leaves the tree it got to, next to its error.

SHA-256 and what the system does with a write through a link or into a special entry are parameters.
-/

namespace OpenAlice.Workspaces.Upgrade

open OpenAlice.Data OpenAlice.Transfer

/-- What stands at a path and is no directory. -/
inductive Entry where
  | file (content : String)
  | symlink (target : String)
  | special
deriving DecidableEq

/-- The files of a workspace, without those of `.git` and `.alice/template-upgrade`. -/
abbrev WorkspaceTree := Tree String Entry

/-- What the platform does. -/
structure Platform where
  /-- `createHash('sha256')`, in hexadecimal. -/
  sha256 : String → String
  /-- `writeFile` to a link or a special entry: the tree afterwards, and the error if it threw. -/
  writeThrough : WorkspaceTree → Path → String → WorkspaceTree × Option String

/-! ## Entries -/

inductive SnapshotKind where
  | missing
  | file
  | other
deriving DecidableEq

/-- `TemplateSnapshotFile` -/
structure SnapshotFile where
  kind : SnapshotKind
  content : Option String := none
  fingerprint : String
  detail : Option String := none
deriving DecidableEq

/-- `TemplateSnapshot`: a record of paths. -/
abbrev Snapshot := List (Path × SnapshotFile)

variable (sys : Platform)

def fileContent (content : String) : SnapshotFile where
  kind := .file
  content := content
  fingerprint := "file:" ++ sys.sha256 content

def missingFile : SnapshotFile where
  kind := .missing
  fingerprint := "missing"

def otherFile (detail : String) : SnapshotFile where
  kind := .other
  detail := detail
  fingerprint := "other:" ++ sys.sha256 detail

def sameFile (left right : SnapshotFile) : Bool :=
  left.kind == right.kind && left.fingerprint == right.fingerprint

/-- `snapshot[path] ?? missingFile()` -/
def Snapshot.at (snapshot : Snapshot) (path : Path) : SnapshotFile :=
  (snapshot.lookup path).getD missingFile

/-! ## Managed paths -/

def managedRootFiles : List Path := [["README.md"], ["AGENTS.md"], ["CLAUDE.md"]]

def managedTreeRoots : List Path :=
  [[".agents", "skills"], [".claude", "skills"], [".pi", "skills"]]

def isPlainPart (part : String) : Bool :=
  part != "" && part != "." && part != ".." && !part.toList.contains (Char.ofNat 0)

def isBelow (root path : Path) : Bool := root.isPrefixOf path && root != path

def isManagedTemplatePath (path : Path) : Bool :=
  path.all isPlainPart &&
    (managedRootFiles.contains path || managedTreeRoots.any fun root ↦ isBelow root path)

/-! ## Reading -/

/-- `parentPathIssue`, along the paths above. -/
def issueAlong (T : WorkspaceTree) : List Path → Option String
  | [] => none
  | parent :: rest =>
    match T.node parent with
    | none => none
    | some .directory => issueAlong T rest
    | some (.leaf (.symlink _)) => some (Path.text parent ++ " is a symlink")
    | some (.leaf _) => some (Path.text parent ++ " is not a directory")

def parentPathIssue (T : WorkspaceTree) (path : Path) : Option String :=
  issueAlong T path.dropLast.inits.tail

/-- What `readLocalFile` makes of an entry. -/
def Entry.snapshot : Entry → SnapshotFile
  | .file content => fileContent sys content
  | .symlink target => otherFile sys ("symlink -> " ++ target)
  | .special => otherFile sys "special entry"

def readLocalFile (T : WorkspaceTree) (path : Path) : SnapshotFile :=
  match parentPathIssue T path with
  | some issue => otherFile sys issue
  | none =>
    match T.node path with
    | none => missingFile
    | some .directory => otherFile sys "directory"
    | some (.leaf entry) => entry.snapshot sys

def directoryPathIssue (T : WorkspaceTree) (path : Path) : Option String :=
  match parentPathIssue T (path ++ ["__entry__"]) with
  | some issue => some issue
  | none => if T.node path = none then some "missing" else none

def walkFiles (T : WorkspaceTree) (root : Path) : List Path :=
  T.leaves.filter fun path ↦ isBelow root path

def readManagedWorkspaceSnapshot (T : WorkspaceTree) : Snapshot :=
  let roots := managedRootFiles.filter fun path ↦ (readLocalFile sys T path).kind != .missing
  let walked := managedTreeRoots.flatMap fun root ↦
    if (directoryPathIssue T root).isSome then []
    else (walkFiles T root).filter isManagedTemplatePath
  (roots ++ walked).map fun path ↦ (path, readLocalFile sys T path)

/-! ## Writing -/

def tempPath (path : Path) : Path :=
  path.dropLast ++ [path.getLastD "" ++ ".openalice-template-upgrade.tmp"]

def writeFile (T : WorkspaceTree) (path : Path) (content : String) :
    WorkspaceTree × Option String :=
  match T.node path with
  | some .directory => (T, some "EISDIR: illegal operation on a directory, open")
  | some (.leaf (.symlink _)) | some (.leaf .special) => sys.writeThrough T path content
  | _ =>
    match T.put path (.file content) with
    | some T' => (T', none)
    | none => (T, some "ENOENT: no such file or directory, open")

/-- `rename` of an entry. -/
def rename (T : WorkspaceTree) (oldPath newPath : Path) : WorkspaceTree × Option String :=
  match T.leafAt oldPath with
  | none => (T, some "ENOENT: no such file or directory, rename")
  | some entry =>
    match (T.remove oldPath).put newPath entry with
    | some T' => (T', none)
    | none => (T, some "EISDIR: illegal operation on a directory, rename")

/-- `pruneManagedParents`, over the paths upwards: `rm` without `recursive` refuses a directory. -/
def pruneAlong (T : WorkspaceTree) : List Path → WorkspaceTree
  | [] => T
  | current :: rest =>
    if managedTreeRoots.any fun root ↦ isBelow root current then
      match T.node current with
      | some (.leaf _) => pruneAlong (T.remove current) rest
      | _ => T
    else T

def pruneManagedParents (T : WorkspaceTree) (start : Path) : WorkspaceTree :=
  pruneAlong T start.inits.reverse

def writeSnapshotFile (T : WorkspaceTree) (path : Path) (file : SnapshotFile) :
    WorkspaceTree × Option String :=
  if !isManagedTemplatePath path then
    (T, some ("refusing unmanaged template path: " ++ Path.text path))
  else
    match parentPathIssue T path with
    | some issue => (T, some ("refusing unsafe template path " ++ Path.text path ++ ": " ++ issue))
    | none =>
      match file.kind with
      | .other => (T, some ("cannot restore non-file entry: " ++ Path.text path))
      | .missing => (pruneManagedParents (T.remove path) path.dropLast, none)
      | .file =>
        match T.mkdirs path.dropLast with
        | none => (T, some "ENOTDIR: not a directory, mkdir")
        | some T₁ =>
          match writeFile sys T₁ (tempPath path) (file.content.getD "") with
          | (T₂, some error) => (T₂, some error)
          | (T₂, none) => rename T₂ (tempPath path) path

end OpenAlice.Workspaces.Upgrade
