import OpenAlice.Data.Lines
import OpenAlice.Scheduling.Scanner

/-!
# Settings injected into a TOML file

`src/workspaces/adapters/owned-toml-config.ts`.  The file is taken as lines: an owned key is a line
that looks like an assignment of it and comes before the first line that looks like the header of
a section.  Its state, a file of its own, says for each key that the last call wrote which line was
there before, and which one was injected.

The state is JSON, and what is read of it is what was written.
-/

namespace OpenAlice.Workspaces.Adapters

open Data Scheduling

abbrev Line := List Char

def isKeyChar (c : Char) : Bool := c.isAlphanum || c = '_' || c = '-'

def isSafeKey (key : Line) : Bool :=
  key.head?.any (fun c ↦ c.isAlpha || c = '_') && key.all isKeyChar

/-- `assignmentPattern` -/
def assigns (key line : Line) : Bool :=
  key.isPrefixOf (line.dropWhile isSpace) &&
    (((line.dropWhile isSpace).drop key.length).dropWhile isSpace).head? = some '='

def isSection (line : Line) : Bool := (line.dropWhile isSpace).head? = some '['

def sectionIndex (lines : List Line) : Nat := lines.findIdx isSection

/-- `findTopLevelLine`, which throws for two. -/
def findTopLevelLine (lines : List Line) (key : Line) : Option (Option Nat) :=
  match (List.range (sectionIndex lines)).filter fun i ↦ (lines[i]?).any (assigns key) with
  | [] => some none
  | [i] => some (some i)
  | _ => none

def snapshot (lines : List Line) (key : Line) : Option (Option Line) :=
  (findTopLevelLine lines key).map fun index ↦ index.bind (lines[·]?)

/-- `apply` -/
def applyLine (lines : List Line) (key : Line) (saved : Option Line) : Option (List Line) :=
  (findTopLevelLine lines key).map fun index ↦
    match saved, index with
    | none, none => lines
    | none, some i => lines.eraseIdx i
    | some line, some i => lines.set i line
    | some line, none => lines.insertIdx (sectionIndex lines) line

/-- A line without the `\r` of its line break. -/
def withoutReturn (line : Line) : Line :=
  if line.getLast? = some '\r' then line.dropLast else line

/-- `split(/\r?\n/)` -/
def splitLines (raw : List Char) : List Line :=
  let pieces := lines '\n' raw
  pieces.dropLast.map withoutReturn ++ pieces.getLast?.toList

def splitToml (raw : Option (List Char)) : List Line :=
  match raw with
  | none | some [] => []
  | some raw =>
    let lines := splitLines raw
    if lines.getLast? = some [] then lines.dropLast else lines

structure OwnedTomlStateEntry where
  key : Line
  previous : Option Line
  injected : Option Line

/-- An empty value counts as none. -/
structure OwnedTomlEntry where
  key : Line
  value : Option (List Char)

structure TomlFiles where
  config : Option (List Char)
  state : Option (List OwnedTomlStateEntry) := none

def writeLines (lines : List Line) : Option (List Char) :=
  if lines.all fun line ↦ trim line = [] then none else some (['\n'].intercalate lines ++ ['\n'])

def OwnedTomlEntry.injected (desired : OwnedTomlEntry) : Option Line :=
  (desired.value.filter (· ≠ [])).map fun value ↦ desired.key ++ " = ".toList ++ value

/-- One entry of `writeOwnedTomlConfig`. -/
def writeEntry (state : Option (List OwnedTomlStateEntry)) (legacyOwnedKeys : List Line)
    (desired : OwnedTomlEntry) (s : List Line × List OwnedTomlStateEntry) :
    Option (List Line × List OwnedTomlStateEntry) := do
  if isSafeKey desired.key = false then none
  -- A map of the entries has the last one of a key.
  let prior := (state.getD []).reverse.find? (·.key = desired.key)
  let previous ← match prior with
    | some entry => some entry.previous
    | none =>
      if state = none ∧ desired.key ∈ legacyOwnedKeys then some none
      else snapshot s.1 desired.key
  let lines ← applyLine s.1 desired.key desired.injected
  return (lines, s.2 ++ [⟨desired.key, previous, desired.injected⟩])

/-- `writeOwnedTomlConfig`: the lines and the entries that it writes, unless it throws. -/
def writeOwned (files : TomlFiles) (legacyOwnedKeys : List Line) (entries : List OwnedTomlEntry) :
    Option (List Line × List OwnedTomlStateEntry) :=
  entries.foldlM (fun s desired ↦ writeEntry files.state legacyOwnedKeys desired s)
    (splitToml files.config, [])

/-- `writeOwnedTomlConfig`, which may crash between the two files. -/
def writeOwnedTomlConfig (files : TomlFiles) (legacyOwnedKeys : List Line)
    (entries : List OwnedTomlEntry) (crash : Bool) : TomlFiles :=
  match writeOwned files legacyOwnedKeys entries with
  | none => files
  | some (lines, next) => ⟨writeLines lines, if crash then files.state else some next⟩

/-- One entry of `resetOwnedTomlConfig`. -/
def resetEntry (lines : List Line) (entry : OwnedTomlStateEntry) : Option (List Line) := do
  if (← snapshot lines entry.key) = entry.injected then applyLine lines entry.key entry.previous
  else return lines

def resetOwnedTomlConfig (files : TomlFiles) (legacyOwnedKeys : List Line) : Option TomlFiles :=
  match files.state, files.config with
  | some _, none => some ⟨none, none⟩
  | some entries, config =>
    (entries.foldlM resetEntry (splitToml config)).map fun lines ↦ ⟨writeLines lines, none⟩
  | none, config =>
    (legacyOwnedKeys.foldlM (fun lines key ↦ applyLine lines key none) (splitToml config)).map
      fun lines ↦ ⟨writeLines lines, none⟩

end OpenAlice.Workspaces.Adapters
