import OpenAlice.Core.Sealing
import OpenAlice.Data.Json
import OpenAlice.Data.Keyed
import OpenAlice.Data.Links

/-!
# The home of an AliceProject

The file tree that `packages/cli/src/project-transfer.ts` reads.

A directory holds its children in the order that `sort` gives their names; no name is there
twice, and none contains a slash.  A path is the list of the names between its slashes.  A
tree is read in two ways: `lookup` is `lstat`, which stops at a symbolic link, and `readFile`
follows links as the system does.

The encodings of the platform (SHA-256, UTF-8, `JSON`, AES-256-GCM) and the order of
`localeCompare` are a parameter.
-/

namespace OpenAlice.Transfer

open OpenAlice.Data OpenAlice.Core

structure Codec where
  /-- `createHash('sha256')`, in hexadecimal. -/
  sha256 : Bytes → String
  /-- `bytes.toString('utf8')` -/
  decode : Bytes → String
  /-- `Buffer.from(text, 'utf8')` -/
  encode : String → Bytes
  /-- `JSON.parse`, with the message of its error. -/
  parse : String → Except String Json
  /-- `JSON.stringify(value)` -/
  stringify : Json → String
  /-- `JSON.stringify(value, null, 2)` -/
  stringifyIndented : Json → String
  /-- `createDecipheriv`, from the key, the vector, the tag and the data, when they
  authenticate. -/
  decrypt : Key → Bytes → Bytes → Bytes → Option Bytes
  /-- `left.localeCompare(right) <= 0` -/
  localeLe : String → String → Bool

structure TransferError where
  code : String
  message : String

/-! ## Trees -/

abbrev Path := List String

def Path.text (path : Path) : String := "/".intercalate path

mutual

/-- What stands at a place of the home. -/
inductive Node where
  | file (mode : Nat) (bytes : Bytes)
  | directory (mode : Nat) (children : Children)
  | symlink (mode : Nat) (target : String)
  | other

inductive Children where
  | nil
  | cons (name : String) (node : Node) (rest : Children)

end

mutual

/-- What `lstat` finds at a path. -/
def Node.lookup : Path → Node → Option Node
  | [], node => some node
  | name :: rest, .directory _ children => children.lookup name rest
  | _ :: _, _ => none

def Children.lookup (name : String) (rest : Path) : Children → Option Node
  | .nil => none
  | .cons child node others =>
    if child = name then node.lookup rest else others.lookup name rest

end

def Children.names : Children → List String
  | .nil => []
  | .cons name _ rest => name :: rest.names

mutual

def Node.Distinct : Node → Prop
  | .directory _ children => children.Distinct
  | _ => True

def Children.Distinct : Children → Prop
  | .nil => True
  | .cons name node rest => name ∉ rest.names ∧ node.Distinct ∧ rest.Distinct

end

/-! ## Links -/

def moveOf (part : String) : Move String :=
  if part = "" ∨ part = "." then .stay else if part = ".." then .up else .down part

def splitSlash (text : String) : List String := (lines '/' text.toList).map String.ofList

def isAbsolute (text : String) : Bool := text.toList.head? == some '/'

def linkMoves (target : String) : Option (List (Move String)) :=
  if isAbsolute target then none else some ((splitSlash target).map moveOf)

def Node.standing : Node → Standing String
  | .file _ _ | .other => .leaf
  | .directory _ _ => .directory
  | .symlink _ target => .link (linkMoves target)

/-- A home: where it is, below the root, its tree, and what is read when the links of a path
lead out of it. -/
structure Source where
  home : Path
  tree : Node
  /-- `readFile` of a path that leaves the home; `none` stands for `ENOENT`. -/
  outside : Path → Except String (Option Bytes)
  distinct : tree.Distinct

def Source.absolute (source : Source) (path : Path) : String :=
  "/" ++ Path.text (source.home ++ path)

def maxSymlinks : Nat := 40

/-- `readFile`; `none` stands for `ENOENT`, an error for any other. -/
def Source.readFile (source : Source) (path : Path) : Except String (Option Bytes) :=
  match resolve (fun place ↦ (source.tree.lookup place).map Node.standing) maxSymlinks []
      (path.map .down) with
  | .found place =>
    match source.tree.lookup place with
    | some (.file _ bytes) => .ok (some bytes)
    | some (.directory _ _) => .error "EISDIR: illegal operation on a directory, read"
    | some _ => .error "ENXIO: no such device or address"
    | none => .ok none
  | .missing _ _ => .ok none
  | .notDirectory => .error "ENOTDIR: not a directory"
  | .escaped => source.outside path
  | .tooManyLinks => .error "ELOOP: too many symbolic links encountered"

end OpenAlice.Transfer
