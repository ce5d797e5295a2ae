import OpenAlice.Run.Tasks
import OpenAlice.Scheduling.Scanner

/-!
# The inbox store

`createInboxStore` of `src/core/inbox-store.ts`.  `append` adds a line to the entries file.
`delete` reads the file, writes what it keeps to a temporary file that all deletes share, and
renames it over the entries file.  Which entries are read stands in another file, which is
read and rewritten under a queue: whoever is at its head reads the file, and writes it back.

A file is the list of its lines; one that does not exist is read like an empty one.  A file
operation takes effect at a step of its call.  What a call does next is part of that step,
except where it takes its place in the queue: other calls can run between the read or rename
and that.  The temporary file of the read state is used by the head of the queue only, and is
left out.

`log` and the calls that have returned are read by no step.
-/

namespace OpenAlice.Core

open OpenAlice.Run

/-! ## Entries -/

/-- `InboxInput`, as far as it is validated. -/
structure InboxInput where
  workspaceId : String
  /-- The paths of `docs`; none is like an empty list. -/
  docs : List String := []
  comments : String := ""
deriving DecidableEq

structure InboxEntry extends InboxInput where
  id : String
  ts : Int
deriving DecidableEq

def validateInput (input : InboxInput) : Except String Unit := do
  if input.workspaceId = "" then
    throw "InboxStore.append: workspaceId is required"
  if input.docs = [] ∧ Scheduling.trim input.comments.toList = [] then
    throw "InboxStore.append: at least one of docs or comments must be present"
  if input.docs.any (· = "") then
    throw "InboxStore.append: each doc must have a non-empty `path` string"

inductive InboxLine where
  | entry (entry : InboxEntry)
  | malformed (text : String)
deriving DecidableEq

def InboxLine.isEntry (id : String) : InboxLine → Bool
  | .entry e => e.id = id
  | .malformed _ => false

/-- `read` of the read state: ids and times. -/
abbrev ReadState := List (String × Int)

/-- What is done to the read state: a time is set, or removed. -/
inductive Change where
  | set (readAt : Int)
  | unset
deriving DecidableEq

/-- `id in state.read` -/
def ReadState.has (read : ReadState) (id : String) : Bool := read.any fun r ↦ r.1 = id

/-- `state.read[id] = readAt`, or `delete state.read[id]`. -/
def ReadState.change (read : ReadState) (id : String) : Change → ReadState
  | .set readAt => (id, readAt) :: read.filter fun r ↦ r.1 ≠ id
  | .unset => read.filter fun r ↦ r.1 ≠ id

/-! ## The store -/

/-- A place in the queue of the read state: the call, and what it does there. -/
structure Place where
  task : Nat
  id : String
  change : Change

/-- The files, and the queue of the read state. -/
structure InboxStore where
  entries : List InboxLine := []
  /-- The temporary file of the deletes. -/
  tmp : Option (List InboxLine) := none
  readState : ReadState := []
  /-- `readStateQueue`, from the call whose turn it is. -/
  queue : List Place := []
  /-- The entries that were appended, in that order. -/
  log : List InboxEntry := []

/-- The calls; `append` comes with the id and the time its entry gets. -/
inductive InboxCall where
  | append (input : InboxInput) (id : String) (ts : Int)
  | delete (id : String)
  | markRead (id : String) (readAt : Int)
  | markUnread (id : String)

inductive InboxTask where
  | rejected (error : String)
  | appendDir (entry : InboxEntry)
  | appendFile (entry : InboxEntry)
  | appended (entry : InboxEntry)
  | deleteRead (id : String)
  | deleteWrite (id : String) (kept : List InboxLine)
  | deleteRename (id : String)
  | deleteRenamed (id : String)
  | markExists (id : String) (change : Change)
  | markFound (id : String) (change : Change)
  /-- In the queue; a delete comes with the id it has removed. -/
  | waiting (removed : Option String)
  | writing (removed : Option String) (state : ReadState)
  | returned (result : Bool) (removed : Option String)
deriving DecidableEq

def inboxStart (s : InboxStore) (_ : Nat) : InboxCall → InboxStore × InboxTask
  | .append input id ts =>
    match validateInput input with
    | .error error => (s, .rejected error)
    | .ok () => (s, .appendDir { input with id, ts })
  | .delete id => (s, .deleteRead id)
  | .markRead id readAt => (s, .markExists id (.set readAt))
  | .markUnread id => (s, .markExists id .unset)

def inboxResume (s : InboxStore) (i : Nat) (task : InboxTask) (_ : Unit) :
    Option (InboxStore × InboxTask) :=
  match task with
  | .appendDir entry => some (s, .appendFile entry)
  | .appendFile entry =>
    some ({ s with entries := s.entries ++ [.entry entry], log := s.log ++ [entry] },
      .appended entry)
  | .deleteRead id =>
    some (s, if s.entries.any (InboxLine.isEntry id) then
      .deleteWrite id (s.entries.filter fun line ↦ !line.isEntry id)
      else .returned false none)
  | .deleteWrite id kept => some ({ s with tmp := some kept }, .deleteRename id)
  | .deleteRename id =>
    match s.tmp with
    | none => some (s, .rejected "ENOENT")
    | some kept => some ({ s with entries := kept, tmp := none }, .deleteRenamed id)
  | .deleteRenamed id =>
    some ({ s with queue := s.queue ++ [⟨i, id, .unset⟩] }, .waiting (some id))
  | .markExists id change =>
    some (s, if s.entries.any (InboxLine.isEntry id) then .markFound id change
      else .returned false none)
  | .markFound id change => some ({ s with queue := s.queue ++ [⟨i, id, change⟩] }, .waiting none)
  | .waiting removed =>
    match s.queue with
    | [] => none
    | place :: queue =>
      if place.task ≠ i then none
      else if place.change = .unset ∧ !s.readState.has place.id then
        some ({ s with queue }, .returned true removed)
      else some (s, .writing removed (s.readState.change place.id place.change))
  | .writing removed state =>
    some ({ s with readState := state, queue := s.queue.tail }, .returned true removed)
  | .rejected _ | .appended _ | .returned .. => none

def inboxProg : Prog InboxStore InboxTask InboxCall Unit where
  start := inboxStart
  resume := inboxResume

end OpenAlice.Core
