import OpenAlice.Run.Tasks
import OpenAlice.Trading.Git.TradingGit

/-!
# `TradingGit` as cooperative tasks

The methods of the class, each cut at its `await`s: `push` suspends at every
`executeOperation`, at `getGitState` and at `onCommit`; `reject` at
`getGitState` and at `onCommit`; `recordReconcile`, `recordObservedOrders` and
`sync` at `onCommit`.  `gitProg` is their `Prog`, so that a run of
`(gitProg pf).step` is an arbitrary interleaving of calls in which every
callback may answer anything or throw.

The shared state carries, next to the object itself, the history of what the
object did to the outside: it is written by the steps and read by none of them.
-/

namespace OpenAlice.Trading.Git

open OpenAlice.Run TradingGit

/-- A call on the object.  The timestamps are what `new Date()` answers during
the first stretch of the call. -/
inductive Call where
  | add (operation : Operation)
  | commit (message : String) (now : Timestamp)
  | write (kind : WriteKind) (expectedPendingHash : String)
  | recordReconcile (params : ReconcileParams) (now : Timestamp)
  | recordObservedOrders (observed : List ObservedOrder) (stateAfter : GitState) (now : Timestamp)
  | sync (updates : List OrderStatusUpdate) (currentState : GitState) (hashedAt now : Timestamp)
  | setCurrentRound (round : Nat)

/-- `push(expectedPendingHash)`. -/
abbrev Call.push (expectedPendingHash : String) : Call := .write .push expectedPendingHash

abbrev Call.reject (reason : Option String) (expectedPendingHash : String) : Call :=
  .write (.reject reason) expectedPendingHash

def Call.isClient : Call → Bool
  | .add _ | .commit .. | .write .. => true
  | _ => false

/-- What a callback of the configuration answers.  `now` is what `new Date()`
answers in the stretch that follows. -/
inductive Answer where
  /-- `executeOperation` resolved. -/
  | reply (raw : RawReply)
  /-- `getGitState` resolved. -/
  | state (s : GitState) (now : Timestamp)
  /-- `onCommit` resolved. -/
  | persisted
  | threw (message : String)
deriving DecidableEq

/-- The locals of a write once its operations have been dealt with. -/
structure Pending where
  kind : WriteKind
  operations : List Operation
  message : String
  hash : CommitHash
  results : List OperationResult
deriving DecidableEq

inductive Outcome where
  | added (r : AddResult)
  | prepared (r : CommitPrepareResult)
  | pushed (r : PushResult)
  | rejected (r : RejectResult)
  | recorded (hash : CommitHash)
  | synced (r : SyncResult)
  | roundSet
  | threw (e : GitError)
deriving DecidableEq

/-- A call, at the `await` it is suspended at. -/
inductive Task where
  /-- A push waiting for `executeOperation` on operation number
  `results.length`. -/
  | executing (operations : List Operation) (message : String) (hash : CommitHash)
      (results : List OperationResult)
  /-- A write waiting for `getGitState`. -/
  | snapshotting (p : Pending)
  /-- A write waiting for `onCommit`. -/
  | persisting (p : Pending)
  /-- Another writer waiting for `onCommit`, with what it will return. -/
  | recording (outcome : Outcome)
  /-- A call that has settled. -/
  | done (outcome : Outcome)
deriving DecidableEq

/-- What the object did, in order. -/
inductive Act where
  /-- `add` staged an operation. -/
  | staged (operation : Operation)
  /-- `commit` returned a hash for the staged operations. -/
  | prepared (hash : CommitHash) (operations : List Operation)
  /-- A write passed its checks. -/
  | began (task : Nat) (kind : WriteKind) (hash : CommitHash)
  /-- `executeOperation` was called. -/
  | dispatched (task : Nat) (operation : Operation)
  | appended (task : Nat) (hash : CommitHash)
  /-- A write emptied the staging area. -/
  | cleared (task : Nat)
deriving DecidableEq

structure Ledger where
  git : TradingGit
  history : List Act
deriving DecidableEq

def Ledger.note (L : Ledger) (acts : List Act) : Ledger :=
  { L with history := L.history ++ acts }

variable (pf : Platform)

def startWrite (L : Ledger) (i : Nat) (kind : WriteKind) (g : TradingGit)
    (operations : List Operation) (message : String) (hash : CommitHash) : Ledger × Task :=
  match kind, operations with
  | .push, op :: _ =>
    ({ L with git := g }.note [.began i kind hash, .dispatched i op],
      .executing operations message hash [])
  | .push, [] =>
    ({ L with git := g }.note [.began i kind hash],
      .snapshotting ⟨kind, operations, message, hash, []⟩)
  | .reject reason, _ =>
    ({ L with git := g }.note [.began i kind hash],
      .snapshotting ⟨kind, operations, rejectMessage message reason, hash,
        rejectResults operations reason⟩)

def start (L : Ledger) (i : Nat) : Call → Ledger × Task
  | .add op =>
    match L.git.add op with
    | .ok (g, r) => ({ L with git := g }.note [.staged op], .done (.added r))
    | .error e => (L, .done (.threw e))
  | .commit message now =>
    match L.git.commit pf message now with
    | .ok (g, r) =>
      ({ L with git := g }.note [.prepared r.hash g.stagingArea], .done (.prepared r))
    | .error e => (L, .done (.threw e))
  | .write kind expected =>
    match L.git.openWrite kind expected with
    | .ok (g, operations, message, hash) => startWrite L i kind g operations message hash
    | .error e => (L, .done (.threw e))
  | .recordReconcile params now =>
    let (g, hash) := L.git.recordReconcile pf params now
    ({ L with git := g }, .recording (.recorded hash))
  | .recordObservedOrders observed stateAfter now =>
    let (g, hash) := L.git.recordObservedOrders pf observed stateAfter now
    ({ L with git := g }, .recording (.recorded hash))
  | .sync updates currentState hashedAt now =>
    if updates = [] then (L, .done (.synced ⟨L.git.head.getD "", 0, []⟩))
    else
      let (g, hash) := L.git.sync pf updates currentState hashedAt now
      ({ L with git := g }, .recording (.synced ⟨hash, updates.length, updates⟩))
  | .setCurrentRound round => ({ L with git := L.git.setCurrentRound round }, .done .roundSet)

/-- The loop of `executePush` after one more result: dispatch the next
operation, or ask for the snapshot. -/
def nextOperation (L : Ledger) (i : Nat) (operations : List Operation) (message : String)
    (hash : CommitHash) (results : List OperationResult) : Ledger × Task :=
  match operations[results.length]? with
  | some op => (L.note [.dispatched i op], .executing operations message hash results)
  | none => (L, .snapshotting ⟨.push, operations, message, hash, results⟩)

def Pending.outcome (p : Pending) : Outcome :=
  match p.kind with
  | .push =>
    .pushed ⟨p.hash, p.message, p.operations.length, p.results.filter (·.success),
      p.results.filter (!·.success)⟩
  | .reject _ => .rejected ⟨p.hash, p.message, p.operations.length⟩

/-- Leaving a write through its `finally` with an error. -/
def failWrite (L : Ledger) (message : String) : Ledger × Task :=
  ({ L with git := L.git.endWrite }, .done (.threw (.error message)))

def resume (L : Ledger) (i : Nat) : Task → Answer → Option (Ledger × Task)
  | .executing operations message hash results, .reply raw =>
    (operations[results.length]?).map fun op ↦
      nextOperation L i operations message hash (results ++ [parseOperationResult op raw])
  | .executing operations message hash results, .threw text =>
    (operations[results.length]?).map fun op ↦
      nextOperation L i operations message hash (results ++ [thrownResult op text])
  | .snapshotting p, .state s now =>
    some ({ L with git := L.git.append p.hash p.message p.operations p.results s now }.note
      [.appended i p.hash], .persisting p)
  | .snapshotting _, .threw text => some (failWrite L text)
  | .persisting p, .persisted =>
    some ({ L with git := L.git.clearStaging.endWrite }.note [.cleared i], .done p.outcome)
  | .persisting _, .threw text => some (failWrite L text)
  | .recording outcome, .persisted => some (L, .done outcome)
  | .recording _, .threw text => some (L, .done (.threw (.error text)))
  | _, _ => none

def gitProg : Prog Ledger Task Call Answer where
  start := start pf
  resume := resume

abbrev GitWorld := World Ledger Task

abbrev GitEvent := Event Call Answer

/-- No call has been made yet on an object in state `g`. -/
def GitWorld.initial (g : TradingGit) : GitWorld := ⟨⟨g, []⟩, []⟩

/-- A write between passing its checks and its `finally`. -/
def Task.writing : Task → Bool
  | .executing .. | .snapshotting _ | .persisting _ => true
  | .recording _ | .done _ => false

end OpenAlice.Trading.Git
