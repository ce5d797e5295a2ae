import OpenAlice.Data.Files
import OpenAlice.Data.Objects
import OpenAlice.Run.Tasks
import OpenAlice.Workspaces.SessionRoster

/-!
# The session registry

`SessionRegistry` of `src/workspaces/session-registry.ts`, for one workspace.  A call first
sees to it that the file is loaded, then changes the records in memory, and writes all of
them: it makes the directory, writes one temporary file that all calls share, and renames
it over the file.

The records are objects: `records.values()` copies the references, and what is written is
what the objects hold when the directory has been made.  So an object has a number, and a
map from ids to objects is the list of their numbers in the order of their insertion; the
id of an object never changes.

A call suspends after `ensureLoaded` and at every file operation, which takes effect at the
step that answers it.  A file is read at once.

`flushes` and `log` are read by no step.
-/

namespace OpenAlice.Workspaces

open OpenAlice.Data OpenAlice.Run

abbrev FileText := List UInt8

/-- What the platform computes. -/
structure RosterCodec where
  /-- `JSON.stringify(value, null, 2)`, as it is written. -/
  stringify : Json → FileText
  /-- `JSON.parse` of what was read, with the message of its error. -/
  parse : FileText → Except String Json
  parse_stringify : ∀ records, parse (stringify (fileShape records)) = .ok (fileShape records)

/-- The names in the directory of the sessions, as far as the workspace is concerned. -/
inductive SessionPath where
  | file
  | tmp
deriving DecidableEq

/-! ## Loading -/

section Loading

variable (codec : RosterCodec)

def loadText (text : FileText) : Except String (List SessionRecord) := do
  validateFile (← codec.parse text)

/-- What `ensureLoaded` puts into memory; there need not be a file. -/
def loadFile (files : Files SessionPath UInt8) : Except String (List SessionRecord) :=
  match files.read .file with
  | none => .ok []
  | some text => loadText codec text

end Loading

/-! ## The registry -/

structure Registry where
  files : Files SessionPath UInt8
  objects : Nat → SessionRecord := fun _ ↦ ⟨"", "", "", "", "", "", "", .paused, none, none, none,
    none, none, none⟩
  nextObject : Nat := 0
  /-- `byWs.get(wsId)` -/
  roster : Option (List Nat) := none
  /-- `loaded.has(wsId)` -/
  loaded : Bool := false
  flushes : Nat := 0
  /-- The calls that have changed memory, or have found nothing to change, in that order. -/
  log : List (Nat × SessionCall) := []

def Registry.allocate (s : Registry) (records : List SessionRecord) : Registry × List Nat :=
  ({ s with
      objects := filled s.objects s.nextObject records
      nextObject := s.nextObject + records.length },
    newObjects s.nextObject records)

/-- `byWs.set(wsId, map)`, with the records that a file holds. -/
def Registry.fill (s : Registry) (records : List SessionRecord) : Registry :=
  { (s.allocate records).1 with roster := some (s.allocate records).2, loaded := true }

def Registry.contents (s : Registry) (objects : List Nat) : List SessionRecord :=
  objects.map s.objects

def Registry.records (s : Registry) : Option (List SessionRecord) := s.roster.map s.contents

/-- How a call rejects. -/
inductive SessionError where
  | thrown (message : String)
  | file
deriving DecidableEq

inductive SessionTask where
  /-- In `readFile`, before the file is opened. -/
  | opening (call : SessionCall)
  /-- In `readFile`, with the file open. -/
  | reading (call : SessionCall) (i : Nat)
  /-- After `ensureLoaded`. -/
  | loaded (call : SessionCall)
  /-- In `mkdir`, with the objects that it is going to write. -/
  | making (call : SessionCall) (result : List SessionRecord) (objects : List Nat) (flush : Nat)
  /-- In `writeFile` or `rename`, with the text that it writes. -/
  | replacing (call : SessionCall) (result : List SessionRecord) (text : FileText)
      (r : Files.Replacing) (flush : Nat)
  | resolved (call : SessionCall) (result : List SessionRecord)
  | rejected (error : SessionError)
deriving DecidableEq

/-- `flush` up to its first suspension, at the end of a call that returns `result`. -/
def Registry.flush (s : Registry) (call : SessionCall) (result : List SessionRecord) :
    Registry × SessionTask :=
  match s.roster with
  | none => (s, .resolved call result)
  | some objects =>
    ({ s with flushes := s.flushes + 1 }, .making call result objects (s.flushes + 1))

def Registry.note (s : Registry) (i : Nat) (call : SessionCall) : Registry :=
  { s with log := s.log ++ [(i, call)] }

/-- `ensureLoaded` up to its first suspension. -/
def sessionStart (s : Registry) (_ : Nat) (call : SessionCall) : Registry × SessionTask :=
  if s.loaded then (s, .loaded call)
  else match s.files.entry .file with
    | none => ({ s with roster := some [], loaded := true }, .loaded call)
    | some _ => (s, .opening call)

/-- The part of a call after `ensureLoaded`, up to its next suspension. -/
def sessionBody (s : Registry) (i : Nat) (call : SessionCall) : Registry × SessionTask :=
  let done := s.note i call
  match s.roster with
  | none =>
    match call with
    | .create _ => (s, .rejected (.thrown "Cannot read properties of undefined (reading 'has')"))
    | _ => (done, .resolved call [])
  | some objects =>
    match call with
    | .ensureLoaded => (done, .resolved call [])
    | .create record =>
      if (s.contents objects).any (·.id = record.id) then
        (s, .rejected (.thrown s!"session record already exists: {record.id}"))
      else if (s.contents objects).any (·.resumeId = record.resumeId) then
        (s, .rejected (.thrown
          s!"session record already exists for resume identity: {record.resumeId}"))
      else
        let (s', new) := done.allocate [record]
        { s' with roster := some (objects ++ new) }.flush call []
    | .update id patch =>
      match objects.find? fun o ↦ (s.objects o).id = id with
      | none => (done, .resolved call [])
      | some o =>
        let record := patch.assign (s.objects o)
        { done with objects := Function.update s.objects o record }.flush call [record]
    | .remove id =>
      match objects.find? fun o ↦ (s.objects o).id = id with
      | none => (done, .resolved call [])
      | some o => { done with roster := some (objects.filter (· ≠ o)) }.flush call [s.objects o]
    | .removeAllFor =>
      if objects = [] then (done, .resolved call [])
      else { done with roster := some [] }.flush call (s.contents objects)

def SessionTask.after (call : SessionCall) (result : List SessionRecord) (text : FileText)
    (flush : Nat) : Files.Progress → SessionTask
  | .going r => .replacing call result text r flush
  | .replaced => .resolved call result
  | .failed => .rejected .file

variable (codec : RosterCodec)

def sessionResume (s : Registry) (i : Nat) :
    SessionTask → Files.Answer → Option (Registry × SessionTask)
  | .opening call, .done _ =>
    match s.files.entry .file with
    | none => some (s, .rejected .file)
    | some i => some (s, .reading call i)
  | .reading call file, .done _ =>
    match loadText codec (s.files.text file) with
    | .error message => some (s, .rejected (.thrown message))
    | .ok records => some (s.fill records, .loaded call)
  | .loaded call, .done _ => some (sessionBody s i call)
  | .making call result objects flush, .done _ =>
    some (s, .replacing call result (codec.stringify (fileShape (s.contents objects))) .opening
      flush)
  | .replacing call result text r flush, a =>
    (Files.replaceStep .tmp .file text s.files r a).map fun (files, p) ↦
      ({ s with files }, .after call result text flush p)
  | .opening _, .failed | .reading _ _, .failed | .making _ _ _ _, .failed =>
    some (s, .rejected .file)
  | .loaded _, .failed | .resolved _ _, _ | .rejected _, _ => none

def sessionProg : Prog Registry SessionTask SessionCall Files.Answer where
  start := sessionStart
  resume := sessionResume codec

def freshRegistry (files : Files SessionPath UInt8) : World Registry SessionTask where
  shared := { files }
  tasks := []

def SessionTask.settled : SessionTask → Bool
  | .resolved _ _ | .rejected _ => true
  | _ => false

def SessionTask.ran : SessionTask → Option SessionCall
  | .making call _ _ _ | .replacing call _ _ _ _ | .resolved call _ => some call
  | _ => none

def SessionTask.flush : SessionTask → Option Nat
  | .making _ _ _ flush | .replacing _ _ _ _ flush => some flush
  | _ => none

end OpenAlice.Workspaces
