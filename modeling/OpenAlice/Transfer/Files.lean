import OpenAlice.Transfer.Home

/-!
# What is rewritten on the way

`transformProjectTransferFile` of `packages/cli/src/project-transfer-files.ts`: the directories
of the Workspaces move to the destination, the credentials and the keys of providers are
replaced by nothing, and the owner of a scheduled Issue becomes `@new-then-resume`.

The regular expressions are written out as what they match.  Where one of them backtracks, the
places it tries are listed in its order.
-/

namespace OpenAlice.Transfer

open OpenAlice.Data OpenAlice.Core OpenAlice.Scheduling

/-- `ProjectTransferTransform` -/
inductive Transform where
  | workspaceRegistryPaths
  | workspaceCatalogPaths
  | stripAiCredentials
  | stripMarketProviderKeys
  | rewriteIssueOwner
deriving DecidableEq

def transferTransformError (message : String) : TransferError := ⟨"ETRANSFORM", message⟩

/-! ## Paths of the destination -/

def normalizePart (absolute : Bool) (before : List String) (part : String) : List String :=
  if part = "" ∨ part = "." then before
  else if part = ".." then
    match before with
    | [] => if absolute then [] else [".."]
    | last :: rest => if last = ".." then ".." :: before else rest
  else part :: before

def normalize (path : String) : String :=
  let absolute := isAbsolute path
  let parts := ((splitSlash path).foldl (normalizePart absolute) []).reverse
  let trailing := path.toList.getLast? == some '/'
  if path = "" then "."
  else if parts.isEmpty then if absolute then "/" else if trailing then "./" else "."
  else (if absolute then "/" else "") ++ "/".intercalate parts ++ (if trailing then "/" else "")

/-- `join`, of parts that are not empty. -/
def join (parts : List String) : String :=
  normalize ("/".intercalate (parts.filter (· ≠ "")))

/-! ## Workspaces -/

/-- A letter or a digit, in either case; the flags `iu` fold two more characters. -/
def isIdLetter (c : Char) : Bool :=
  c.isAlphanum || c.toNat == 0x17F || c.toNat == 0x212A

/-- `/^[a-z0-9][a-z0-9_-]{0,127}$/iu` -/
def isSafeId (id : String) : Bool :=
  match id.toList with
  | [] => false
  | c :: rest =>
    isIdLetter c && decide (rest.length ≤ 127) &&
      rest.all fun c ↦ isIdLetter c || c == '_' || c == '-'

def requireSafeId (value : Option Json) (label : String) : Except TransferError String :=
  match value.bind Json.asString with
  | some id =>
    if isSafeId id then .ok id
    else .error (transferTransformError (label ++ " contains an unsafe id."))
  | none => .error (transferTransformError (label ++ " contains an unsafe id."))

/-- The entries of `root['workspaces']`, rewritten one by one; anything but an array becomes
an empty one. -/
def rewriteWorkspaces (root : List (String × Json))
    (rewrite : List (String × Json) → Except TransferError (List (String × Json))) :
    Except TransferError Json :=
  match Json.get root "workspaces" with
  | some (.array items) => do
      let workspaces ← items.mapM fun entry ↦ (rewrite entry.recordValue).map .object
      .ok (.object (setKey root "workspaces" (.array workspaces)))
  | _ => .ok (.object (setKey root "workspaces" (.array [])))

def rewriteWorkspaceRegistry (destinationHome : String) (value : Json) :
    Except TransferError Json :=
  rewriteWorkspaces value.recordValue fun workspace ↦ do
    let id ← requireSafeId (Json.get workspace "id") "Workspace"
    .ok (setKey workspace "dir" (.string (join [destinationHome, "workspaces", "workspaces", id])))

def rewriteWorkspaceCatalog (destinationHome : String) (value : Json) :
    Except TransferError Json :=
  rewriteWorkspaces value.recordValue fun workspace ↦ do
    let id ← requireSafeId (Json.get workspace "id") "Workspace Catalog"
    let active := setKey workspace "activeDir"
      (.string (join [destinationHome, "workspaces", "workspaces", id]))
    match (Json.get workspace "departedDir").bind Json.asString with
    | some _ => .ok (setKey active "departedDir"
        (.string (join [destinationHome, "workspaces", "departed-workspaces", id])))
    | none => .ok active

/-- A record with a property emptied: `{ ...recordValue(value), [key]: {} }`. -/
def strip (key : String) (value : Json) : Json :=
  .object (setKey value.recordValue key (.object []))

/-! ## The owner of a scheduled Issue -/

def isLineTerminator (c : Char) : Bool :=
  [0xA, 0xD, 0x2028, 0x2029].contains c.toNat

def dropPrefix? (start : List Char) (text : List Char) : Option (List Char) :=
  if text.take start.length = start then some (text.drop start.length) else none

/-- The ways in which `\s*\n` matches at the start of a text, the longest first: what is
matched and what comes after it. -/
def spacesAndNewline (text : List Char) : List (List Char × List Char) :=
  let spaces := text.takeWhile isSpace
  ((List.range spaces.length).reverse.filter fun n ↦ spaces[n]? = some '\n').map fun n ↦
    (text.take (n + 1), text.drop (n + 1))

/-- `/\n---(?:\s*\n|$)/` at the start of a text. -/
def closingFence (text : List Char) : Option (List Char × List Char) :=
  (dropPrefix? "\n---".toList text).bind fun rest ↦
    match spacesAndNewline rest with
    | (matched, after) :: _ => some ("\n---".toList ++ matched, after)
    | [] => if rest.isEmpty then some ("\n---".toList, []) else none

def untilFence : List Char → Option (List Char × List Char × List Char)
  | [] => none
  | c :: text =>
    match closingFence (c :: text) with
    | some (fence, after) => some ([], fence, after)
    | none => (untilFence text).map fun (before, fence, after) ↦ (c :: before, fence, after)

structure Frontmatter where
  opening : List Char
  content : List Char
  closing : List Char
  body : List Char

/-- `/^(---\s*\n)([\s\S]*?)(\n---(?:\s*\n|$))/u` -/
def frontmatter (text : List Char) : Option Frontmatter :=
  (dropPrefix? "---".toList text).bind fun rest ↦
    (spacesAndNewline rest).findSome? fun (spaces, rest) ↦
      (untilFence rest).map fun (content, closing, body) ↦
        ⟨"---".toList ++ spaces, content, closing, body⟩

def atLine {α : Type} (here : List Char → Option α) (before : List Char) (start : Bool) :
    List Char → Option (List Char × α)
  | [] => if start then (here []).map (before.reverse, ·) else none
  | c :: text =>
    match if start then here (c :: text) else none with
    | some found => some (before.reverse, found)
    | none => atLine here (c :: before) (isLineTerminator c) text

/-- `key\s*:` at the start of a text: what is matched and what comes after it. -/
def keyAndColon (key : List Char) (text : List Char) : Option (List Char × List Char) :=
  (dropPrefix? key text).bind fun rest ↦
    let spaces := rest.takeWhile isSpace
    match rest.dropWhile isSpace with
    | ':' :: after => some (key ++ spaces ++ [':'], after)
    | _ => none

/-- A quote is passed over: `["']?`. -/
def skipQuote : List Char → List Char
  | c :: text => if c = '"' ∨ c = Char.ofNat 39 then text else c :: text
  | [] => []

/-- `(\s*)$` with the flag `m`: the longest white space that ends at the end of a line, and
what comes after it. -/
def trailingSpaces (text : List Char) : Option (List Char × List Char) :=
  let spaces := text.takeWhile isSpace
  if (text.dropWhile isSpace).isEmpty then some (spaces, [])
  else
    match (List.range spaces.length).reverse.find? fun n ↦
        (spaces[n]?.map isLineTerminator).getD false with
    | some n => some (text.take n, text.drop n)
    | none => none

structure OwnerLine where
  /-- `assignee\s*:\s*` -/
  label : List Char
  /-- `@resume-[^\s"']+` -/
  owner : List Char
  trailing : List Char
  after : List Char

/-- `/^assignee\s*:\s*["']?(@resume-[^\s"']+)["']?\s*$/mu` at the start of a line. -/
def ownerLine (text : List Char) : Option OwnerLine := do
  let (label, rest) ← keyAndColon "assignee".toList text
  let spaces := rest.takeWhile isSpace
  let named ← dropPrefix? "@resume-".toList (skipQuote (rest.dropWhile isSpace))
  let isName := fun (c : Char) ↦ !(isSpace c || c == '"' || c == Char.ofNat 39)
  let name := named.takeWhile isName
  if name.isEmpty then none
  else do
    let (trailing, after) ← trailingSpaces (skipQuote (named.dropWhile isName))
    some ⟨label ++ spaces, "@resume-".toList ++ name, trailing, after⟩

def rewriteIssueOwner (value : String) : Except TransferError String :=
  match frontmatter value.toList with
  | none => .error (transferTransformError "Scheduled Issue frontmatter changed after planning.")
  | some matter =>
    if matter.opening.isEmpty ∨ matter.closing.isEmpty then
      .error (transferTransformError "Scheduled Issue frontmatter changed after planning.")
    else
      let rewritten := match atLine ownerLine [] true matter.content with
        | some (before, line) =>
          before ++ line.label ++ "\"@new-then-resume\"".toList ++ line.trailing ++ line.after
        | none => matter.content
      if rewritten = matter.content then
        .error (transferTransformError "Scheduled Issue exact owner changed after planning.")
      else .ok (String.ofList (matter.opening ++ rewritten ++ matter.closing ++ matter.body))

/-! ## The transforms -/

def transformJson (codec : Codec) (bytes : Bytes)
    (operation : Json → Except TransferError Json) : Except TransferError Bytes :=
  match codec.parse (codec.decode bytes) with
  | .error _ => .error
      (transferTransformError "Portable configuration changed into invalid JSON after planning.")
  | .ok value => (operation value).map fun result ↦
      codec.encode (codec.stringifyIndented result ++ "\n")

def transformProjectTransferFile (codec : Codec) (transform : Transform) (bytes : Bytes)
    (destinationHome : String) : Except TransferError Bytes :=
  match transform with
  | .workspaceRegistryPaths =>
    transformJson codec bytes (rewriteWorkspaceRegistry destinationHome)
  | .workspaceCatalogPaths =>
    transformJson codec bytes (rewriteWorkspaceCatalog destinationHome)
  | .stripAiCredentials => transformJson codec bytes fun value ↦ .ok (strip "credentials" value)
  | .stripMarketProviderKeys =>
    transformJson codec bytes fun value ↦ .ok (strip "providerKeys" value)
  | .rewriteIssueOwner => (rewriteIssueOwner (codec.decode bytes)).map codec.encode

end OpenAlice.Transfer
