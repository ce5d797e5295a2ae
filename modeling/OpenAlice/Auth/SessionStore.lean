import OpenAlice.Data.Files
import OpenAlice.Data.Objects
import OpenAlice.Run.Tasks

/-!
# The store of logins

`loadCache`, `flush` and the calls of `src/services/auth/session-store.ts`.  A call sees to
it that the file is loaded, changes the sessions in memory, and flushes them: it waits for
the write that it finds under way, if any, and then starts one of its own, which makes the
directory, writes the temporary file that all writes share, renames it over the file, and
sets its mode.

The sessions are objects: a write copies the references, and what it writes is what the
objects hold when the directory has been made.  So an object has a number.

A call suspends at every file operation, which takes effect at the step that answers it,
and where it waits for the write of another call.  A file is read at once.  The end of a
load and what its call does next are one step, since nothing can run in between; so are the
end of a write and `writePromise = null` of the call that has started it.  What a call that
waits does when that write has ended is a step of its own.

The process may crash at any point; then only the files are left.

What begins with `issued` in `SessionStore`, and the `Effect` of a call, are read by no step.
-/

namespace OpenAlice.Auth

open OpenAlice.Data OpenAlice.Run

structure SessionRecord where
  sid : String
  createdAt : String
  lastSeenAt : String
  expiresAt : String
  userAgent : Option String := none
  ip : Option String := none
deriving DecidableEq

structure SessionCodec where
  /-- `new Date(time).toISOString()` -/
  toISOString : Int → String
  /-- `new Date(text).getTime()`, unless it is `NaN`. -/
  getTime : String → Option Int
  /-- `JSON.stringify(snapshot, null, 2) + '\n'`, as it is written. -/
  stringify : List SessionRecord → List UInt8
  /-- The sessions in a text, when it is `JSON`, of version 1, with an array of sessions. -/
  parse : List UInt8 → Option (List SessionRecord)
  parse_stringify : ∀ sessions, parse (stringify sessions) = some sessions

inductive SessionsPath where
  | file
  | tmp
deriving DecidableEq

def defaultTtlMs : Int := 7 * 24 * 60 * 60 * 1000

def touchThrottleMs : Int := 30000

/-- The calls; `createSession` comes with the id that it draws. -/
inductive SessionCall where
  | createSession (sid : String) (userAgent ip : Option String) (ttlMs : Option Int)
  | validateAndTouch (sid : String) (ttlMs : Option Int)
  | revokeSession (sid : String)
  | revokeAllSessions
deriving DecidableEq

/-! ## What is in memory -/

/-- What a call has done to the sessions. -/
structure Effect where
  /-- The sessions that it has revoked. -/
  revokes : List String := []
  creates : Option String := none
  /-- The session that it has created or touched, with the place of what it has made of it in
  the history of the session. -/
  sets : Option (String × Nat) := none
deriving DecidableEq

inductive Promise where
  | pending
  | fulfilled
  | rejected

/-- The files, and the variables of the module. -/
structure SessionStore where
  files : Files SessionsPath UInt8
  /-- What an object holds. -/
  objects : Nat → SessionRecord := fun _ ↦ ⟨"", "", "", "", none, none⟩
  nextObject : Nat := 0
  /-- The objects of `cache.sessions`. -/
  cache : Option (List Nat) := none
  /-- The promises of all writes that were started. -/
  writes : List Promise := []
  writePromise : Option Nat := none
  issued : List String := []
  /-- The ids that were taken out of memory, because they were revoked or have expired. -/
  removed : List String := []
  history : String → List SessionRecord := fun _ ↦ []

/-- Where a call stands. -/
inductive SessionTask where
  /-- In `readFile`, before the file is opened. -/
  | opening (call : SessionCall)
  /-- In `readFile`, with the file open. -/
  | reading (call : SessionCall) (i : Nat)
  /-- In `await writePromise`, for the write of another call. -/
  | waiting (effect : Effect) (result : Option SessionRecord) (write : Nat)
  /-- In `mkdir`, with the objects of its snapshot. -/
  | making (effect : Effect) (result : Option SessionRecord) (write : Nat) (objects : List Nat)
  /-- In `writeFile` or `rename`, with the text that it writes. -/
  | replacing (effect : Effect) (result : Option SessionRecord) (write : Nat) (text : List UInt8)
      (r : Files.Replacing)
  /-- In `chmod`. -/
  | chmodding (effect : Effect) (result : Option SessionRecord) (write : Nat)
  | resolved (effect : Effect) (result : Option SessionRecord)
  | rejected
  | lost
deriving DecidableEq

namespace SessionStore

def contents (s : SessionStore) (objects : List Nat) : List SessionRecord :=
  objects.map s.objects

def allocate (s : SessionStore) (sessions : List SessionRecord) : SessionStore × List Nat :=
  ({ s with
      objects := filled s.objects s.nextObject sessions
      nextObject := s.nextObject + sessions.length },
    newObjects s.nextObject sessions)

/-- `cache = …`, at the end of `loadCache`. -/
def fill (s : SessionStore) (sessions : List SessionRecord) : SessionStore :=
  { (s.allocate sessions).1 with cache := some (s.allocate sessions).2 }

def startWrite (s : SessionStore) (objects : List Nat) (effect : Effect)
    (result : Option SessionRecord) : SessionStore × SessionTask :=
  ({ s with writes := s.writes ++ [.pending], writePromise := some s.writes.length },
    .making effect result s.writes.length objects)

/-- `flush` up to its first suspension, at the end of a call that returns `result`. -/
def flush (s : SessionStore) (effect : Effect) (result : Option SessionRecord) :
    SessionStore × SessionTask :=
  match s.cache with
  | none => (s, .resolved effect result)
  | some objects =>
    match s.writePromise with
    | some write => (s, .waiting effect result write)
    | none => s.startWrite objects effect result

end SessionStore

variable (codec : SessionCodec)

def expired (now : Int) (sess : SessionRecord) : Bool :=
  (codec.getTime sess.expiresAt).any fun expiresAt ↦ expiresAt < now

def throttled (now : Int) (sess : SessionRecord) : Bool :=
  !(codec.getTime sess.lastSeenAt).any fun lastSeen ↦ now - lastSeen > touchThrottleMs

/-- What `createSession` creates. -/
def newSession (now : Int) (sid : String) (userAgent ip : Option String) (ttlMs : Option Int) :
    SessionRecord where
  sid
  createdAt := codec.toISOString now
  lastSeenAt := codec.toISOString now
  expiresAt := codec.toISOString (now + ttlMs.getD defaultTtlMs)
  userAgent
  ip

def touched (now : Int) (ttlMs : Option Int) (sess : SessionRecord) : SessionRecord :=
  { sess with
    lastSeenAt := codec.toISOString now
    expiresAt := codec.toISOString (now + ttlMs.getD defaultTtlMs) }

namespace SessionStore

/-- What a call has made of a session gets the next place in its history. -/
def record (s : SessionStore) (sess : SessionRecord) : SessionStore :=
  { s with history := Function.update s.history sess.sid (s.history sess.sid ++ [sess]) }

def sets (s : SessionStore) (sid : String) : Option (String × Nat) :=
  some (sid, (s.history sid).length)

/-- `file.sessions.push(record)` -/
def push (s : SessionStore) (objects : List Nat) (sess : SessionRecord) : SessionStore :=
  let (s', new) := (s.record sess).allocate [sess]
  { s' with cache := some (objects ++ new), issued := sess.sid :: s.issued }

/-- `file.sessions.splice(idx, 1)`, for a session that has expired. -/
def splice (s : SessionStore) (objects : List Nat) (o : Nat) : SessionStore :=
  { s with cache := some (objects.erase o), removed := (s.objects o).sid :: s.removed }

def touch (s : SessionStore) (o : Nat) (sess : SessionRecord) : SessionStore :=
  { s.record sess with objects := Function.update s.objects o sess }

def without (s : SessionStore) (objects : List Nat) (sid : String) : List Nat :=
  objects.filter fun o ↦ (s.objects o).sid ≠ sid

def revoke (s : SessionStore) (objects : List Nat) (sid : String) : SessionStore :=
  { s with
    cache := some (s.without objects sid)
    issued := sid :: s.issued
    removed := sid :: s.removed }

def revokeAll (s : SessionStore) : SessionStore :=
  { s with cache := some [], removed := s.issued ++ s.removed }

end SessionStore

/-- A call after `loadCache`, up to its next suspension. -/
def sessionBody (s : SessionStore) (objects : List Nat) (now : Int) :
    SessionCall → SessionStore × SessionTask
  | .createSession sid userAgent ip ttlMs =>
    let sess := newSession codec now sid userAgent ip ttlMs
    (s.push objects sess).flush { creates := some sid, sets := s.sets sid } (some sess)
  | .validateAndTouch sid ttlMs =>
    match objects.find? fun o ↦ (s.objects o).sid = sid with
    | none => (s, .resolved {} none)
    | some o =>
      let sess := s.objects o
      if expired codec now sess then (s.splice objects o).flush {} none
      else if throttled codec now sess then (s, .resolved {} (some sess))
      else
        (s.touch o (touched codec now ttlMs sess)).flush { sets := s.sets sid }
          (some (touched codec now ttlMs sess))
  | .revokeSession sid =>
    if (s.without objects sid).length ≠ objects.length then
      (s.revoke objects sid).flush { revokes := [sid] } none
    else (s.revoke objects sid, .resolved { revokes := [sid] } none)
  | .revokeAllSessions =>
    if objects = [] then (s, .resolved { revokes := s.issued } none)
    else s.revokeAll.flush { revokes := s.issued } none

/-- What `loadCache` makes of a text. -/
def loadText (text : List UInt8) : List SessionRecord := (codec.parse text).getD []

/-- A call up to its first suspension. -/
def sessionStart (s : SessionStore) (_ : Nat) : SessionCall × Int → SessionStore × SessionTask
  | (call, now) =>
    match s.cache with
    | none => (s, .opening call)
    | some objects => sessionBody codec s objects now call

/-- The end of `loadCache`, and what its call does next. -/
def loadEnd (s : SessionStore) (sessions : List SessionRecord) (now : Int) (call : SessionCall) :
    SessionStore × SessionTask :=
  sessionBody codec (s.fill sessions) (s.allocate sessions).2 now call

def SessionStore.settle (s : SessionStore) (write : Nat) (p : Promise) : SessionStore :=
  { s with writes := s.writes.set write p }

def SessionTask.after (effect : Effect) (result : Option SessionRecord) (write : Nat)
    (text : List UInt8) : Files.Progress → SessionTask
  | .going r => .replacing effect result write text r
  | .replaced => .chmodding effect result write
  | .failed => .rejected

def SessionStore.settleFailed (s : SessionStore) (write : Nat) : Files.Progress → SessionStore
  | .failed => s.settle write .rejected
  | _ => s

def sessionResume (s : SessionStore) (_ : Nat) :
    SessionTask → Files.Answer × Int → Option (SessionStore × SessionTask)
  | .opening call, (.done _, now) =>
    match s.files.entry .file with
    | none => some (loadEnd codec s [] now call)
    | some i => some (s, .reading call i)
  | .reading call i, (.done _, now) =>
    some (loadEnd codec s (loadText codec (s.files.text i)) now call)
  | .opening call, (.failed, now) | .reading call _, (.failed, now) =>
    some (loadEnd codec s [] now call)
  | .waiting effect result write, (.done _, _) =>
    match s.writes[write]? with
    | some .fulfilled => s.cache.map fun objects ↦ s.startWrite objects effect result
    | some .rejected => some (s, .rejected)
    | _ => none
  | .making effect result write objects, (.done _, _) =>
    some (s, .replacing effect result write (codec.stringify (s.contents objects)) .opening)
  | .making _ _ write _, (.failed, _) => some (s.settle write .rejected, .rejected)
  | .replacing effect result write text r, (a, _) =>
    (Files.replaceStep .tmp .file text s.files r a).map fun (files, p) ↦
      ({ s with files }.settleFailed write p, .after effect result write text p)
  | .chmodding effect result write, _ =>
    some ({ s.settle write .fulfilled with writePromise := none }, .resolved effect result)
  | .waiting _ _ _, (.failed, _) | .resolved _ _, _ | .rejected, _ | .lost, _ => none

def sessionProg : Prog SessionStore SessionTask (SessionCall × Int) (Files.Answer × Int) where
  start := sessionStart codec
  resume := sessionResume codec

/-! ## Processes -/

inductive SessionEvent where
  | run (e : Event (SessionCall × Int) (Files.Answer × Int))
  | crash

def SessionTask.lose : SessionTask → SessionTask
  | .resolved effect result => .resolved effect result
  | .rejected => .rejected
  | _ => .lost

def sessionStep (W : World SessionStore SessionTask) :
    SessionEvent → Option (World SessionStore SessionTask)
  | .run e => (sessionProg codec).step W e
  | .crash => some
      { shared := { W.shared with cache := none, writePromise := none }
        tasks := W.tasks.map SessionTask.lose }

def loadFile (files : Files SessionsPath UInt8) : List SessionRecord :=
  match files.read .file with
  | none => []
  | some text => loadText codec text

def freshStore (files : Files SessionsPath UInt8) : World SessionStore SessionTask where
  shared := { files, issued := (loadFile codec files).map SessionRecord.sid }
  tasks := []

end OpenAlice.Auth
