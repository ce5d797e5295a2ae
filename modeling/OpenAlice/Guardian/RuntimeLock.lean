import OpenAlice.Run.Tasks

/-!
# The runtime lock

`acquireRuntimeLock`, `inspectRuntimeLock`, `claimAndRemove`, `writeOwnerAtomic` and the heartbeat
and release of a lock, of `packages/guardian-runtime/src/runtime-lock.ts`.  The lock is a
directory.  Whoever makes it writes its owner file into it, under a name of its own first, which is
then renamed.  A directory whose owner is not running, or that has no owner for longer than the
initialization grace, is claimed by making another directory in it, and renamed away.

A file operation takes effect at a step of its call, and the calls of all processes take their
steps in any order.  A process can crash between any two of them, and its calls take no more steps.
How old a directory is, and what the process table says of an owner, come with the step that asks
for it: a process that runs is never taken for another, and one that does not can be.  What
`recoverRuntimeOwner` does is to end a process; it says whether it could.

What stands in a directory that was renamed away is used by no call, and the second removal of a
temporary file that was renamed has no effect; both are left out, and so is the inspection that the
error of the last attempt is made of.  An owner is told from others by its token, for which the
number of its call stands.  `maker` and the call in `claim` are read by no step.
-/

namespace OpenAlice.Guardian

open OpenAlice.Run

/-! ## Processes -/

/-- What an owner file says of a process. -/
structure Proc where
  /-- None in old files. -/
  machineId : Option String
  pid : Nat
  processStartedAt : Option Int
deriving DecidableEq

/-- `RuntimeLockOwner`, as far as it is used. -/
structure Owner where
  token : Nat
  proc : Proc
deriving DecidableEq

/-- `ProcessController`, as far as it is asked. -/
structure Controller where
  machineId : String
  isAlive : Nat → Bool
  startedAt : Nat → Option Int

def Controller.isSameProcess (controller : Controller) (proc : Proc) : Bool :=
  controller.isAlive proc.pid &&
    match proc.processStartedAt with
    | none => true
    | some expected =>
      match controller.startedAt proc.pid with
      | none => true
      | some actual => decide ((actual - expected).natAbs ≤ 2000)

/-- The owner is on another machine, or running: the lock is `active`. -/
def Controller.takesForRunning (controller : Controller) (proc : Proc) : Bool :=
  proc.machineId.any (· ≠ controller.machineId) || controller.isSameProcess proc

/-! ## The lock directory -/

structure LockDir where
  /-- `dev:ino:birthtimeMs` -/
  identity : Nat
  maker : Nat
  /-- `owner.json`, if it can be read. -/
  owner : Option Owner := none
  temps : List Nat := []
  /-- `reclaiming`, and the call that has made it. -/
  claim : Option Nat := none

/-- What all processes share. -/
structure LockState where
  dir : Option LockDir := none
  /-- So many directories were made. -/
  made : Nat := 0
  dead : List Proc := []

def LockState.readOwner (s : LockState) : Option Owner := s.dir.bind LockDir.owner

def LockDir.writeTemp (d : LockDir) (token : Nat) : LockDir := { d with temps := token :: d.temps }

def LockDir.renameTemp (d : LockDir) (owner : Owner) : LockDir :=
  { d with owner := some owner, temps := d.temps.erase owner.token }

def LockDir.claimBy (d : LockDir) (i : Nat) : LockDir := { d with claim := some i }

def LockDir.unclaim (d : LockDir) : LockDir := { d with claim := none }

/-! ## Calls -/

/-- `state` of an inspection. -/
inductive InspectionState where
  | missing | initializing | active | stale | invalid
deriving DecidableEq

/-- What an inspection is for: an attempt to acquire the lock, or by itself. -/
inductive Purpose where
  | acquire (attempt : Nat)
  | inspect
deriving DecidableEq

inductive Ending where
  /-- `acquireRuntimeLock` throws. -/
  | failed
  /-- `onOwnershipLost` is called. -/
  | lost
  | released
  | inspected (state : InspectionState)
  | crashed
deriving DecidableEq

/-- Where a call stands: what it does next. -/
inductive LockPhase where
  /-- `mkdir` of the lock directory. -/
  | making (attempt : Nat)
  /-- The owner file is written under its own name. -/
  | writing
  /-- It is renamed. -/
  | publishing
  | stating (purpose : Purpose)
  /-- The owner file is read; the directory is older than the grace, or not. -/
  | reading (purpose : Purpose) (identity : Nat) (aged : Bool)
  | judging (purpose : Purpose) (identity : Nat) (owner : Owner)
  | recovering (attempt : Nat) (owner : Owner)
  /-- `mkdir` of the claim. -/
  | claiming (attempt : Nat) (identity : Nat) (owner : Option Owner)
  | checking (attempt : Nat) (identity : Nat) (owner : Option Owner)
  /-- The owner file is read again. -/
  | verifying (attempt : Nat) (identity : Nat) (owner : Option Owner)
  | quarantining (attempt : Nat) (identity : Nat)
  /-- `rm` of the claim; then the next attempt, or the call throws. -/
  | unclaiming (attempt : Option Nat)
  /-- The lock is held, and no heartbeat is under way. -/
  | held
  /-- A heartbeat reads the owner file; `release` was called meanwhile, or not. -/
  | beatReading (released : Bool)
  | beatWriting (released : Bool)
  | beatRenaming (released : Bool)
  /-- `release` reads the owner file. -/
  | releasing
  /-- `rm` of the lock directory. -/
  | removing
  | over (ending : Ending)
deriving DecidableEq

structure LockTask where
  proc : Proc
  takeover : Bool := false
  phase : LockPhase

inductive LockCall where
  | acquire (proc : Proc) (takeover : Bool)
  | inspect (proc : Proc)
  | crash (proc : Proc)

inductive LockAnswer where
  | done
  | stat (aged : Bool)
  | judged (running : Bool)
  /-- `recoverRuntimeOwner` returns, or throws. -/
  | recovered (ok : Bool)
  | beat
  | release
deriving DecidableEq

def retry (attempt : Nat) : LockPhase :=
  if attempt + 1 < 40 then .making (attempt + 1) else .over .failed

def inspected (takeover : Bool) (identity : Nat) (owner : Option Owner) (state : InspectionState) :
    Purpose → LockPhase
  | .inspect => .over (.inspected state)
  | .acquire attempt =>
    match state with
    | .missing => retry attempt
    | .initializing => retry attempt
    | .active =>
      match takeover, owner with
      | true, some owner => .recovering attempt owner
      | _, _ => .over .failed
    | .stale => .claiming attempt identity owner
    | .invalid => .claiming attempt identity owner

def unchanged (owner latest : Option Owner) : Bool :=
  match owner with
  | some owner => latest.any fun latest ↦ latest.token = owner.token
  | none => latest.isNone

/-- A heartbeat that fails: `loseOwnership`, unless the lock is released anyway. -/
def beatFailed (released : Bool) : LockPhase := if released then .releasing else .over .lost

/-- From one operation to the next. -/
def stepPhase (s : LockState) (i : Nat) (task : LockTask) :
    LockPhase → LockAnswer → Option (LockState × LockPhase)
  | .making attempt, .done =>
    match s.dir with
    | none => some ({ s with dir := some { identity := s.made, maker := i }, made := s.made + 1 },
        .writing)
    | some _ => some (s, .stating (.acquire attempt))
  | .writing, .done =>
    match s.dir with
    | none => some (s, .over .failed)
    | some d => some ({ s with dir := some (d.writeTemp i) }, .publishing)
  | .publishing, .done =>
    match s.dir with
    | none => some (s, .over .failed)
    | some d =>
      if i ∈ d.temps then some ({ s with dir := some (d.renameTemp ⟨i, task.proc⟩) }, .held)
      else some (s, .over .failed)
  | .stating purpose, .stat aged =>
    match s.dir with
    | none => some (s, inspected task.takeover 0 none .missing purpose)
    | some d => some (s, .reading purpose d.identity aged)
  | .reading purpose identity aged, .done =>
    match s.readOwner with
    | some owner => some (s, .judging purpose identity owner)
    | none => some (s, inspected task.takeover identity none
        (if aged then .invalid else .initializing) purpose)
  | .judging purpose identity owner, .judged running =>
    if running then some (s, inspected task.takeover identity (some owner) .active purpose)
    else if owner.proc ∈ s.dead then
      some (s, inspected task.takeover identity (some owner) .stale purpose)
    else none
  | .recovering attempt _, .recovered ok => some (s, if ok then retry attempt else .over .failed)
  | .claiming attempt identity owner, .done =>
    match s.dir with
    | none => some (s, retry attempt)
    | some d =>
      if d.claim.isSome then some (s, retry attempt)
      else some ({ s with dir := some (d.claimBy i) }, .checking attempt identity owner)
  | .checking attempt identity owner, .done =>
    match s.dir with
    | none => some (s, .unclaiming none)
    | some d =>
      some (s, if d.identity = identity then .verifying attempt identity owner
        else .unclaiming (some attempt))
  | .verifying attempt identity owner, .done =>
    some (s, if unchanged owner s.readOwner then .quarantining attempt identity
      else .unclaiming (some attempt))
  | .quarantining attempt _, .done =>
    match s.dir with
    | none => some (s, .unclaiming none)
    | some _ => some ({ s with dir := none }, retry attempt)
  | .unclaiming attempt, .done =>
    some ({ s with dir := s.dir.map LockDir.unclaim }, attempt.elim (.over .failed) retry)
  | .held, .beat => some (s, .beatReading false)
  | .held, .release => some (s, .releasing)
  | .beatReading false, .release => some (s, .beatReading true)
  | .beatWriting false, .release => some (s, .beatWriting true)
  | .beatRenaming false, .release => some (s, .beatRenaming true)
  | .beatReading released, .done =>
    some (s, if s.readOwner.any fun owner ↦ owner.token = i then .beatWriting released
      else beatFailed released)
  | .beatWriting released, .done =>
    match s.dir with
    | none => some (s, beatFailed released)
    | some d => some ({ s with dir := some (d.writeTemp i) }, .beatRenaming released)
  | .beatRenaming released, .done =>
    match s.dir with
    | none => some (s, beatFailed released)
    | some d =>
      if i ∈ d.temps then
        some ({ s with dir := some (d.renameTemp ⟨i, task.proc⟩) },
          if released then .releasing else .held)
      else some (s, beatFailed released)
  | .releasing, .done =>
    some (s, if s.readOwner.any fun owner ↦ owner.token = i then .removing else .over .released)
  | .removing, .done => some ({ s with dir := none }, .over .released)
  | _, _ => none

section

-- The equations are made here, once, and not by each of the proofs that run side by side.
attribute [local simp] stepPhase

end

def startLock (s : LockState) (_ : Nat) : LockCall → LockState × LockTask
  | .acquire proc takeover =>
    (s, { proc, takeover, phase := if proc ∈ s.dead then .over .crashed else .making 0 })
  | .inspect proc =>
    (s, { proc, phase := if proc ∈ s.dead then .over .crashed else .stating .inspect })
  | .crash proc => ({ s with dead := proc :: s.dead }, { proc, phase := .over .crashed })

def resumeLock (s : LockState) (i : Nat) (task : LockTask) (answer : LockAnswer) :
    Option (LockState × LockTask) :=
  if task.proc ∈ s.dead then none
  else (stepPhase s i task task.phase answer).map fun q ↦ (q.1, { task with phase := q.2 })

def runtimeLock : Prog LockState LockTask LockCall LockAnswer where
  start := startLock
  resume := resumeLock

def noLock : World LockState LockTask := ⟨{}, []⟩

end OpenAlice.Guardian
