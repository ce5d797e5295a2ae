import Mathlib.Data.List.Sort
import Mathlib.Logic.Function.Basic

/-!
# The transcript watcher

`src/workspaces/transcript-watcher.ts`, for one key: the sessions of one runtime in one directory.  A
runtime is watched through the events of the directory or through its list of native sessions; both
are here, side by side.

The watcher keeps an object for the key, with the registrations that wait (`PerKey`, `PollEntry`).
The object can be dropped and made anew while an event or a tick still has the one from before, so
the objects are numbered in the order they are made.  `stat` and `listOnDisk` take their time: what
waits for them is part of the state, and goes on in any order, with any result.  What a registration
found on disk is an input of the moment at which it is entered.
-/

namespace OpenAlice.Workspaces

/-- `OnDiskSession`.  Its moment is a number: the texts compare as the moments do. -/
structure OnDiskSession (Id : Type) where
  sessionId : Id
  mtime : Nat

/-- `Pending`.  What was there at the registration: names of files, or native ids. -/
structure Pending (Session ι : Type) where
  session : Session
  existingBefore : List ι

structure Watcher (File Id Session Record : Type) where
  /-- `agentSessionId` of each session. -/
  agentSessionId : Session → Option Id
  /-- `resumeHint` of each record, in the memory of the registry. -/
  resumeHint : Record → Option Id
  /-- The calls of `sessionRegistry.update` that are under way. -/
  updates : List (Record × Id) := []
  /-- `pending` of each `PerKey`. -/
  watched : Nat → List (Pending Session File) := fun _ ↦ []
  /-- The one that `entries` has. -/
  entry : Option Nat := none
  /-- `pending` of each `PollEntry`. -/
  polled : Nat → List (Pending Session Id) := fun _ ↦ []
  /-- The one that `pollEntries` has. -/
  pollEntry : Option Nat := none
  next : Nat := 0
  /-- The events that wait for `stat`, each with the object it found. -/
  statting : List (Nat × File) := []
  /-- The ticks that wait for `listOnDisk`, each with the object it found. -/
  listing : List Nat := []

/-- What happens to the watcher. -/
inductive WatchEvent (File Id Session : Type) where
  /-- `register` of a watched runtime comes to its end. -/
  | registerWatched (session : Session) (existing : List File)
  /-- `registerSubprocess` comes to its end. -/
  | registerSubprocess (session : Session) (existing : List Id)
  | onEvent (filename : File)
  | statted (i : Nat) (found : Bool)
  /-- `pollOnce`; whether the time is over. -/
  | pollOnce (expired : Bool)
  | listed (i : Nat) (list : Option (List (OnDiskSession Id)))
  | unregister (session : Session)
  | disposeAll
  | updated (i : Nat)
  /-- An update fails before that, or its record is gone. -/
  | updateLost (i : Nat)

variable {File Id Session Record : Type}

namespace Watcher

section Bind

variable [DecidableEq Session] (recordId : Session → Record)

def setAgentSessionId (w : Watcher File Id Session Record) (session : Session) (id : Id) :
    Watcher File Id Session Record :=
  if (w.agentSessionId session).isSome then w
  else { w with agentSessionId := Function.update w.agentSessionId session (some id) }

def bind (w : Watcher File Id Session Record) (session : Session) (id : Id) :
    Watcher File Id Session Record :=
  let w := w.setAgentSessionId session id
  { w with updates := w.updates ++ [(recordId session, id)] }

def waits {ι : Type} (w : Watcher File Id Session Record) (p : Pending Session ι) : Bool :=
  (w.agentSessionId p.session).isNone

def takeOut {ι : Type} (session : Session) (objects : Nat → List (Pending Session ι))
    (current : Option Nat) : (Nat → List (Pending Session ι)) × Option Nat :=
  match current with
  | none => (objects, none)
  | some e =>
    if (objects e).any fun p ↦ p.session = session then
      let pending := (objects e).eraseP fun p ↦ p.session = session
      (Function.update objects e pending, if pending = [] then none else some e)
    else (objects, some e)

def unregister (w : Watcher File Id Session Record) (session : Session) :
    Watcher File Id Session Record :=
  let (watched, entry) := takeOut session w.watched w.entry
  let (polled, pollEntry) := takeOut session w.polled w.pollEntry
  { w with watched, entry, polled, pollEntry }

variable [DecidableEq File] [DecidableEq Id] (extractSessionId : File → Option Id)

/-- The loop of `onEvent`. -/
def claimFile (filename : File) :
    List (Pending Session File) → Watcher File Id Session Record → Watcher File Id Session Record
  | [], w => w
  | p :: rest, w =>
    if filename ∈ p.existingBefore ∨ w.waits p = false then claimFile filename rest w
    else
      match extractSessionId filename with
      | none => w
      | some id => (w.bind recordId p.session id).unregister p.session

/-- The loop of `pollOnce`; `claimed` is `claimedThisRound`. -/
def assign (byOldest : List Id) :
    List (Pending Session Id) → (claimed : List Id) → Watcher File Id Session Record →
      Watcher File Id Session Record
  | [], _, w => w
  | p :: rest, claimed, w =>
    if w.waits p = false then assign byOldest rest claimed w
    else
      match byOldest.find? fun id ↦ id ∉ p.existingBefore ∧ id ∉ claimed with
      | none => assign byOldest rest claimed w
      | some id => assign byOldest rest (id :: claimed) (w.bind recordId p.session id)

end Bind

def enter {ι : Type} (p : Pending Session ι) (objects : Nat → List (Pending Session ι))
    (current : Option Nat) (next : Nat) : (Nat → List (Pending Session ι)) × Option Nat × Nat :=
  match current with
  | none => (Function.update objects next [p], some next, next + 1)
  | some e => (Function.update objects e (objects e ++ [p]), some e, next)

def byOldest (list : List (OnDiskSession Id)) : List Id :=
  (list.insertionSort fun a b ↦ a.mtime ≤ b.mtime).map OnDiskSession.sessionId

def update [DecidableEq Record] (w : Watcher File Id Session Record) (record : Record) (id : Id) :
    Watcher File Id Session Record :=
  { w with resumeHint := Function.update w.resumeHint record (some id) }

theorem update_resumeHint [DecidableEq Record] (w : Watcher File Id Session Record)
    (record : Record) (id : Id) :
    (w.update record id).resumeHint = Function.update w.resumeHint record (some id) := rfl

variable [DecidableEq File] [DecidableEq Id] [DecidableEq Session] [DecidableEq Record]
variable (recordId : Session → Record) (fileRe : File → Bool) (extractSessionId : File → Option Id)

def step (w : Watcher File Id Session Record) :
    WatchEvent File Id Session → Option (Watcher File Id Session Record)
  | .registerWatched session existing =>
    let (watched, entry, next) := enter ⟨session, existing⟩ w.watched w.entry w.next
    some { w with watched, entry, next }
  | .registerSubprocess session existing =>
    let (polled, pollEntry, next) := enter ⟨session, existing⟩ w.polled w.pollEntry w.next
    some { w with polled, pollEntry, next }
  | .onEvent filename =>
    match w.entry with
    | none => some w
    | some e =>
      if w.watched e = [] ∨ fileRe filename = false then some w
      else some { w with statting := w.statting ++ [(e, filename)] }
  | .statted i found =>
    match w.statting[i]? with
    | none => none
    | some (e, filename) =>
      let w' := if found then claimFile recordId extractSessionId filename (w.watched e) w else w
      some { w' with statting := w.statting.eraseIdx i }
  | .pollOnce expired =>
    match w.pollEntry with
    | none => some w
    | some e =>
      let live := (w.polled e).filter w.waits
      let w := { w with polled := Function.update w.polled e live }
      if live = [] ∨ expired then some { w with pollEntry := none }
      else some { w with listing := w.listing ++ [e] }
  | .listed i list =>
    match w.listing[i]? with
    | none => none
    | some e =>
      let w' := match list with
        | none => w
        | some list => assign recordId (byOldest list) (w.polled e) [] w
      some { w' with listing := w.listing.eraseIdx i }
  | .unregister session => some (w.unregister session)
  | .disposeAll => some { w with entry := none, pollEntry := none }
  | .updated i =>
    match w.updates[i]? with
    | none => none
    | some (record, id) => some ({ w with updates := w.updates.eraseIdx i }.update record id)
  | .updateLost i => some { w with updates := w.updates.eraseIdx i }

end Watcher

end OpenAlice.Workspaces
