import OpenAlice.Trading.Account.RiskEnvelope
import OpenAlice.Trading.Git.Approval

/-!
# Placing an order in one call

`executeOneShotOrder` of `services/uta/src/domain/trading/order-entry.ts`: a callback stages one
operation, and the account commits and pushes what is staged.  The three happen in one stretch,
up to the first operation that the push dispatches; the rest is a push like any other, of
`OpenAlice.Trading.Account.Push`.

Staging and committing through the account also keep the identifiers of the sub-accounts that
were chosen, which `commit` writes into its message.
-/

namespace OpenAlice.Trading.OrderEntry

open OpenAlice.Run OpenAlice.Trading.Git OpenAlice.Trading.Push

inductive StageCallback where
  | throws (subAccountId : Option String) (text : String)
  | stages (subAccountId : Option String) (operation : Operation)

def StageCallback.operations : StageCallback → List Operation
  | .throws .. => []
  | .stages _ operation => [operation]

inductive OrderEntryPhase where
  | stage
  | commit
  | push

inductive OrderEntryResult where
  | ok (result : PushResult)
  | failed (phase : OrderEntryPhase) (error : String)

structure EntryAccount where
  account : Account
  stagedSubAccountIds : List String := []

namespace EntryAccount

abbrev git (A : EntryAccount) : TradingGit := A.account.ledger.git

def acted (A : EntryAccount) (g : TradingGit) (act : Act) (ids : List String) : EntryAccount :=
  let L : Ledger := { A.account.ledger with git := g }
  ⟨{ A.account with ledger := L.note [act] }, ids⟩

/-- `_stagedSubAccountIds.push` -/
def chose (A : EntryAccount) (subAccountId : Option String) : EntryAccount :=
  { A with stagedSubAccountIds := A.stagedSubAccountIds ++ (truthy subAccountId).toList }

/-- A stage callback: `stagePlaceOrder` and its like end with `git.add`. -/
def stage (A : EntryAccount) : StageCallback → EntryAccount × Except GitError Unit
  | .throws subAccountId text => (A.chose subAccountId, .error (.error text))
  | .stages subAccountId operation =>
    let A := A.chose subAccountId
    match A.git.add operation with
    | .ok (g, _) => (A.acted g (.staged operation) A.stagedSubAccountIds, .ok ())
    | .error e => (A, .error e)

def stampSubAccount (A : EntryAccount) (message : String) : String :=
  let ids := A.stagedSubAccountIds.eraseDups
  if ids.isEmpty then message else message ++ " [sub:" ++ ",".intercalate ids ++ "]"

/-- `commit` of the account. -/
def commit (pf : Platform) (A : EntryAccount) (message : String) (now : Timestamp) :
    EntryAccount × Except GitError CommitPrepareResult :=
  match A.git.commit pf (A.stampSubAccount message) now with
  | .ok (g, r) => (A.acted g (.prepared r.hash g.stagingArea) [], .ok r)
  | .error e => (A, .error e)

end EntryAccount

def errorMessage : GitError → String
  | .pendingHashConflict message | .error message => message

/-- A call, at the `await` it is suspended at. -/
inductive EntryTask where
  /-- A one-shot order that failed before its push. -/
  | failed (phase : OrderEntryPhase) (error : String)
  | pushing (stage : Stage)
  | settled
  | other (task : PushTask)

def EntryTask.result : EntryTask → Option OrderEntryResult
  | .failed phase error => some (.failed phase error)
  | .pushing (.done (.pushed r)) => some (.ok r)
  | .pushing (.done (.threw e)) => some (.failed .push (errorMessage e))
  | _ => none

inductive EntryCall where
  | oneShot (stage : StageCallback) (message : String) (now : Timestamp)
  | stage (stage : StageCallback)
  | commit (message : String) (now : Timestamp)
  /-- A push, a reject, what a sync or a reconciliation records, a change of health. -/
  | other (c : AccountCall)

variable (cfg : PushConfig)

/-- `executeOneShotOrder`, up to its first suspension. -/
def executeOneShotOrder (A : EntryAccount) (i : Nat) (stage : StageCallback) (message : String)
    (now : Timestamp) : EntryAccount × EntryTask :=
  match A.stage stage with
  | (A, .error e) => (A, .failed .stage (errorMessage e))
  | (A, .ok _) =>
    match A.commit cfg.toPlatform message now with
    | (A, .error e) => (A, .failed .commit (errorMessage e))
    | (A, .ok prepared) =>
      let q := enterPush cfg A.account i prepared.hash
      ({ A with account := q.1 }, .pushing q.2)

def start (A : EntryAccount) (i : Nat) : EntryCall → EntryAccount × EntryTask
  | .oneShot stage message now => executeOneShotOrder cfg A i stage message now
  | .stage stage => ((A.stage stage).1, .settled)
  | .commit message now => ((A.commit cfg.toPlatform message now).1, .settled)
  | .other c =>
    let q := Push.start cfg A.account i c
    ({ A with account := q.1 }, .other q.2)

/-- The identifiers that are left after a stretch: `reject` of the account drops them when the
ledger's has returned. -/
def keptIds (ids : List String) : Stage → List String
  | .ledger (.done (.rejected _)) => []
  | _ => ids

def resume (A : EntryAccount) (i : Nat) : EntryTask → PushAnswer → Option (EntryAccount × EntryTask)
  | .pushing stage, a =>
    (advance cfg A.account i false stage a).map fun q ↦ ({ A with account := q.1 }, .pushing q.2)
  | .other task, a =>
    (Push.resume cfg A.account i task a).map fun q ↦
      (⟨q.1, keptIds A.stagedSubAccountIds q.2.stage⟩, .other q.2)
  | _, _ => none

def entryProg : Prog EntryAccount EntryTask EntryCall PushAnswer where
  start := start cfg
  resume := resume cfg

abbrev EntryWorld := World EntryAccount EntryTask

def EntryWorld.initial (g : TradingGit) : EntryWorld := ⟨{ account := { ledger := ⟨g, []⟩ } }, []⟩

end OpenAlice.Trading.OrderEntry
