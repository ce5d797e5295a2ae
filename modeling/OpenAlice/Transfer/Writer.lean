import OpenAlice.Transfer.Plan

/-!
# The stream of a transfer

`assertTransferPlan` and `writeProjectTransferStream` of
`packages/cli/src/project-transfer-stream.ts`: a line that names the format, the plan, one
record for each entry with the bytes of a file after it, the credentials where they are
included, and a last record.

What is written is a list of pieces, of which the plan is one, so that it can be told from the
rest of the stream.  A stream that ends in an error has the pieces that were written before.
The home is read as it stands, and no signal aborts the writer.
-/

namespace OpenAlice.Transfer

open OpenAlice.Data OpenAlice.Core

def natJson (n : Nat) : Json := .number (toString n)

/-! ## The checks of a plan -/

def transferStreamError (message : String) : TransferError := ⟨"ETRANSFERSTREAM", message⟩

def maxEntries : Nat := 250000

def maxFileBytes : Nat := 64 * 1024 * 1024 * 1024

def maxTotalBytes : Nat := 4 * 1024 * 1024 * 1024 * 1024

def maxCredentialBytes : Nat := 16 * 1024 * 1024

def maxSafeInteger : Nat := 9007199254740991

/-- `/^[a-zA-Z0-9-]{1,128}$/u` -/
def isTransferId (id : String) : Bool :=
  decide (1 ≤ id.toList.length ∧ id.toList.length ≤ 128) &&
    id.toList.all fun c ↦ c.isAlphanum || c == '-'

/-- `/^[a-f0-9]{64}$/u` -/
def isSha256 (text : String) : Bool :=
  text.toList.length == 64 && text.toList.all fun c ↦ c.isDigit || ('a' ≤ c && c ≤ 'f')

def dirname (path : String) : String :=
  let absolute := isAbsolute path
  let upToSlash := (path.toList.reverse.dropWhile (· == '/')).dropWhile (· != '/')
  let stop := upToSlash.length - 1
  if path = "" then "."
  else if upToSlash.length < 2 then if absolute then "/" else "."
  else if absolute && stop == 1 then "//"
  else String.ofList (path.toList.take stop)

def validateTransferEntry (entry : Entry) : Except TransferError Unit :=
  if !isManifestPath entry.path then
    .error (transferPlanError ("Unsafe transfer path: " ++ entry.path.text))
  else if 0o777 < entry.mode then .error (transferStreamError "Invalid entry mode.")
  else if maxFileBytes < entry.size then .error (transferStreamError "Invalid entry size.")
  else if entry.kind = .file then
    if (entry.sha256.map isSha256).getD false then .ok ()
    else .error (transferStreamError "Invalid entry checksum.")
  else if entry.size ≠ 0 ∨ entry.sha256 ≠ none then
    .error (transferStreamError ("Non-file entry carries file bytes: " ++ entry.path.text))
  else if entry.kind = .symlink ∧ entry.linkTarget = none then
    .error (transferStreamError ("Symlink target is missing: " ++ entry.path.text))
  else .ok ()

structure Counted where
  paths : List Path
  files : Nat
  directories : Nat
  symlinks : Nat
  total : Nat

def countEntry (links : List Path) (counted : Counted) (entry : Entry) :
    Except TransferError Counted := do
  validateTransferEntry entry
  if counted.paths.contains entry.path then
    .error (transferStreamError ("Duplicate transfer path: " ++ entry.path.text))
  else if links.any fun link ↦ link.isPrefixOf entry.path && link != entry.path then
    .error (transferStreamError ("Transfer path traverses a symlink: " ++ entry.path.text))
  else if maxTotalBytes < counted.total + entry.size then
    .error (transferStreamError "Transfer manifest is too large.")
  else .ok {
    paths := entry.path :: counted.paths
    files := counted.files + (if entry.kind = .file then 1 else 0)
    directories := counted.directories + (if entry.kind = .directory then 1 else 0)
    symlinks := counted.symlinks + (if entry.kind = .symlink then 1 else 0)
    total := counted.total + entry.size }

def linkPaths (entries : List Entry) : List Path :=
  (entries.filter (·.kind = .symlink)).map Entry.path

def assertTransferPlan (plan : Plan) : Except TransferError Unit :=
  if !isTransferId plan.transferId then .error (transferStreamError "Invalid transfer id.")
  else if !isAbsolute plan.destinationHome then
    .error (transferStreamError "Transfer homes must be absolute paths.")
  else if dirname plan.destinationHome = plan.destinationHome ∨
      plan.destinationHome.toList.any isControl then
    .error (transferStreamError "Destination Home is unsafe.")
  else if maxSafeInteger < plan.requiredFreeBytes then
    .error (transferStreamError "Invalid required free bytes.")
  else if maxEntries < plan.entries.length then
    .error (transferStreamError "Transfer manifest has too many entries.")
  else do
    let counted ← plan.entries.foldlM (countEntry (linkPaths plan.entries)) ⟨[], 0, 0, 0, 0⟩
    if counted.total ≠ plan.bytes then
      .error (transferStreamError "Transfer manifest byte total is inconsistent.")
    else if counted.files ≠ plan.files ∨ counted.directories ≠ plan.directories ∨
        counted.symlinks ≠ plan.symlinks then
      .error (transferStreamError "Transfer manifest entry totals are inconsistent.")
    else .ok ()

/-! ## The writer -/

/-- What is written in one go: the first two lines, or some bytes. -/
inductive Piece where
  | head (plan : Plan)
  | bytes (content : Bytes)

/-- What a writer has written, and how it ended: with a number of bytes, or in an error. -/
structure Written where
  pieces : List Piece
  result : Except TransferError Nat

namespace Written

def failed (error : TransferError) : Written := ⟨[], .error error⟩

/-- One part after another, unless the first ended in an error. -/
def followedBy (first second : Written) : Written :=
  match first.result with
  | .error error => ⟨first.pieces, .error error⟩
  | .ok n => ⟨first.pieces ++ second.pieces, second.result.map (n + ·)⟩

end Written

variable (codec : Codec)

def recordLine (fields : List (String × Json)) : Piece :=
  .bytes (codec.encode (codec.stringify (.object fields) ++ "\n"))

def changed (what : String) (entry : Entry) : TransferError :=
  transferStreamError ("Portable " ++ what ++ " changed after planning: " ++ entry.path.text)

def writeFile (destinationHome : String) (entry : Entry) (bytes : Bytes) : Written :=
  match entry.transform with
  | some transform =>
    if entry.sourceSize ≠ some bytes.length ∨
        entry.sourceSha256 ≠ some (codec.sha256 bytes) then
      .failed (changed "file" entry)
    else
      match transformProjectTransferFile codec transform bytes destinationHome with
      | .error error => .failed error
      | .ok portable =>
        if entry.size ≠ portable.length ∨ entry.sha256 ≠ some (codec.sha256 portable) then
          .failed (changed "file" entry)
        else ⟨[.bytes portable], .ok portable.length⟩
  | none =>
    if bytes.length ≠ entry.size then .failed (changed "file" entry)
    else
      -- The bytes are on their way before their digest is known.
      ⟨[.bytes bytes], if entry.sha256 ≠ some (codec.sha256 bytes) then
        .error (changed "file" entry) else .ok bytes.length⟩

def writeEntry (source : Source) (destinationHome : String) (index : Nat) (entry : Entry) :
    Written :=
  let header := recordLine codec [("type", .string "entry"), ("index", natJson index)]
  match source.tree.lookup entry.path, entry.kind with
  | none, _ => .failed ⟨"ENOENT", "ENOENT: no such file or directory"⟩
  | some (.directory _ _), .directory => ⟨[header], .ok 0⟩
  | some _, .directory => .failed (changed "directory" entry)
  | some (.symlink _ target), .symlink =>
    if some target = entry.linkTarget then ⟨[header], .ok 0⟩
    else .failed (changed "symlink" entry)
  | some _, .symlink => .failed (changed "symlink" entry)
  | some (.file _ bytes), .file =>
    (Written.mk [header] (.ok 0)).followedBy (writeFile codec destinationHome entry bytes)
  | some _, .file => ⟨[header], .error (changed "file" entry)⟩

def writeEntries (source : Source) (destinationHome : String) : Nat → List Entry → Written
  | _, [] => ⟨[], .ok 0⟩
  | index, entry :: rest =>
    (writeEntry codec source destinationHome index entry).followedBy
      (writeEntries source destinationHome (index + 1) rest)

def writeCredentials (source : Source) : CredentialMode → Written
  | .omitted => ⟨[], .ok 0⟩
  | .included =>
    match readProjectTransferCredentialBundle codec source with
    | .error error => .failed error
    | .ok bundle =>
      let bytes := codec.encode (codec.stringify bundle.json)
      if maxCredentialBytes < bytes.length then
        .failed (transferStreamError "Credential payload is too large.")
      else ⟨[recordLine codec [("type", .string "credentials"), ("size", natJson bytes.length),
        ("sha256", .string (codec.sha256 bytes))], .bytes bytes], .ok 0⟩

def writeProjectTransferStream (source : Source) (plan : Plan) : Written :=
  match assertTransferPlan plan with
  | .error error => .failed error
  | .ok () =>
    if !plan.readyToApply then
      .failed (transferStreamError "Transfer plan has unresolved blockers.")
    else
      (Written.mk [.head plan] (.ok 0)).followedBy
        ((writeEntries codec source plan.destinationHome 0 plan.entries).followedBy
          ((writeCredentials codec source plan.credentialMode).followedBy
            ⟨[recordLine codec [("type", .string "end")]], .ok 0⟩))

end OpenAlice.Transfer
