import Mathlib.Data.List.Dedup
import Mathlib.Data.List.Sort
import Mathlib.Order.Basic
import OpenAlice.Run.Basic

/-!
# The workspace operation guard

`WorkspaceOperationGuard` of `src/workspaces/workspace-operation-guard.ts`: a lease covers
one workspace or several, and a caller that finds one of its workspaces busy may wait in
the queues of the busy ones.

Two things live outside the class and are kept beside it here: the leases that were handed
out, with their `released` flags, and the calls of `acquireWhenAvailable` and
`acquireManyWhenAvailable`.  A call that waits is told by a ticket in each queue it waits
in.  A release resolves the head of the queue; the call behind it resumes in a later
microtask, and any other call may run before it.  A ticket that is resolved after its call
has gone on, because another of its workspaces was released first, does nothing.

Workspace ids are any type with the order in which `sort` puts them.
-/

namespace OpenAlice.Workspaces

universe u

variable {Id : Type u}

/-! ## The state -/

structure Lease (Id : Type u) where
  ids : List Id
  operation : String
  released : Bool := false

/-- The resolver a call has put into a queue: whose it is, and of which of its waits. -/
structure Ticket where
  caller : Nat
  turn : Nat

/-- Where a waiting call stands. -/
inductive Phase where
  /-- Suspended. -/
  | waiting
  | woken
  | served
deriving DecidableEq

/-- A call of `acquireWhenAvailable` or `acquireManyWhenAvailable`. -/
structure Caller (Id : Type u) where
  ids : List Id
  operation : String
  turn : Nat := 0
  phase : Phase

structure Guard (Id : Type u) where
  active : Id → Option String := fun _ ↦ none
  waiters : Id → List Ticket := fun _ ↦ []
  callers : List (Caller Id) := []
  leases : List (Lease Id) := []

def Guard.live (g : Guard Id) (t : Ticket) : Bool :=
  (g.callers[t.caller]?).any fun c ↦ c.phase = .waiting ∧ c.turn = t.turn

/-! ## The operations -/

def resolve (t : Ticket) (callers : List (Caller Id)) : List (Caller Id) :=
  callers.modify t.caller fun c ↦
    if c.phase = .waiting ∧ c.turn = t.turn then { c with phase := .woken } else c

section Operations

variable [LinearOrder Id]

/-- `[...new Set(ids)].sort()` -/
def sortedIds (ids : List Id) : List Id :=
  ids.dedup.insertionSort (· ≤ ·)

/-- `acquire`, up to the lease it returns. -/
def Guard.acquire (g : Guard Id) (id : Id) (operation : String) : Option (Guard Id) :=
  if (g.active id).isSome then none
  else some { g with active := Function.update g.active id (some operation) }

/-- `release` of one workspace: the head of its queue is resolved. -/
def Guard.releaseOne (operation : String) (g : Guard Id) (id : Id) : Guard Id :=
  if g.active id = some operation then
    { g with
      active := Function.update g.active id none
      waiters := Function.update g.waiters id (g.waiters id).tail
      callers := (g.waiters id).head?.elim g.callers (resolve · g.callers) }
  else g

/-- The loop of `acquireMany`: `acquired` are the claims made so far, the latest first, which
a collision releases. -/
def Guard.claim (operation : String) (g : Guard Id) (acquired : List Id) :
    List Id → Guard Id × Bool
  | [] => (g, true)
  | id :: ids =>
    match g.acquire id operation with
    | some g' => g'.claim operation (id :: acquired) ids
    | none => (acquired.foldl (Guard.releaseOne operation) g, false)

/-- `acquireMany` of ids that are sorted. -/
def Guard.acquireMany (g : Guard Id) (ids : List Id) (operation : String) : Guard Id × Bool :=
  g.claim operation [] ids

def Guard.lend (g : Guard Id) (ids : List Id) (operation : String) : Guard Id :=
  { g with leases := g.leases ++ [{ ids, operation }] }

/-- `release` of a lease, once. -/
def Guard.release (g : Guard Id) (n : Nat) : Guard Id :=
  match g.leases[n]? with
  | none => g
  | some l =>
    if l.released then g
    else
      l.ids.reverse.foldl (Guard.releaseOne l.operation)
        { g with leases := g.leases.set n { l with released := true } }

/-- One turn of the loops of `acquireWhenAvailable` and `acquireManyWhenAvailable`, for call
number `n`: it gets its lease, or suspends in the queues of its busy workspaces.  There is a
busy one: a claim that collides leaves the workspace it collided on as it is. -/
def Guard.attempt (g : Guard Id) (n : Nat) (c : Caller Id) : Guard Id :=
  match g.acquireMany c.ids c.operation with
  | (g', true) =>
    ({ g' with callers := g'.callers.set n { c with phase := .served } } : Guard Id).lend c.ids
      c.operation
  | (g', false) =>
    { g' with
      callers := g'.callers.set n { c with turn := c.turn + 1, phase := .waiting }
      waiters := fun id ↦
        if id ∈ c.ids ∧ (g'.active id).isSome then g'.waiters id ++ [⟨n, c.turn + 1⟩]
        else g'.waiters id }

/-- The state with the claims of `ids`. -/
def Guard.hold (g : Guard Id) (ids : List Id) (operation : String) : Guard Id :=
  { g with active := fun id ↦ if id ∈ ids then some operation else g.active id }

/-- The state in which call `n` has its lease. -/
def Guard.serve (g : Guard Id) (n : Nat) (c : Caller Id) : Guard Id :=
  ({ g.hold c.ids c.operation with
      callers := g.callers.set n { c with phase := .served } } : Guard Id).lend c.ids c.operation

/-- The state in which call `n` waits for its busy workspaces. -/
def Guard.suspend (g : Guard Id) (n : Nat) (c : Caller Id) : Guard Id :=
  { g with
    callers := g.callers.set n { c with turn := c.turn + 1, phase := .waiting }
    waiters := fun id ↦
      if id ∈ c.ids ∧ (g.active id).isSome then g.waiters id ++ [⟨n, c.turn + 1⟩]
      else g.waiters id }

/-- What can happen next. -/
inductive GuardEvent (Id : Type u) where
  | acquire (id : Id) (operation : String)
  | acquireMany (ids : List Id) (operation : String)
  | acquireWhenAvailable (id : Id) (operation : String)
  | acquireManyWhenAvailable (ids : List Id) (operation : String)
  | release (lease : Nat)
  | resume (caller : Nat)

def Guard.call (g : Guard Id) (ids : List Id) (operation : String) : Guard Id :=
  let c : Caller Id := { ids, operation, phase := .woken }
  ({ g with callers := g.callers ++ [c] } : Guard Id).attempt g.callers.length c

/-- The machine.  A single workspace is a group of one (`acquireMany_singleton`). -/
def Guard.step (g : Guard Id) : GuardEvent Id → Option (Guard Id)
  | .acquire id operation =>
    some (match g.acquire id operation with
      | some g' => g'.lend [id] operation
      | none => g)
  | .acquireMany ids operation =>
    some (match g.acquireMany (sortedIds ids) operation with
      | (g', true) => g'.lend (sortedIds ids) operation
      | (g', false) => g')
  | .acquireWhenAvailable id operation => some (g.call [id] operation)
  | .acquireManyWhenAvailable ids operation => some (g.call (sortedIds ids) operation)
  | .release n => some (g.release n)
  | .resume n =>
    match g.callers[n]? with
    | some c => if c.phase = .woken then some (g.attempt n c) else none
    | none => none

end Operations

end OpenAlice.Workspaces
