import OpenAlice.Data.Keyed
import OpenAlice.Trading.Git.Export
import OpenAlice.Trading.Risk.Controller

/-!
# The guards of an account

`createGuardPipeline` and the guards of `services/uta/src/domain/trading/guards`.  Every guard is
asked in its turn, and the first that refuses ends the matter; one that was asked may remember it.

A guard that a third party registered is a name and a memory, and `custom` says what it answers.
A number of the options is the rational number that it is.  An order that is staged holds the
sentinel where nothing was given, which `stripUnset` takes for nothing.
-/

namespace OpenAlice.Trading.Guards

open OpenAlice.Data
open OpenAlice.Trading.Risk (AccountInfo)

structure GuardContext where
  operation : Operation
  positions : List Position
  account : AccountInfo

structure GuardEnv (κ : Type) where
  /-- The rounding of `decimal.js`. -/
  round : Decimal → Decimal
  /-- `Decimal.prototype.toFixed` with one digit. -/
  toFixed1 : Decimal → String
  number : ℚ → String
  custom : String → κ → GuardContext → κ × Option String

inductive Guard (κ : Type) where
  /-- `MaxPositionSizeGuard` -/
  | maxPositionSize (maxPercent : ℚ)
  /-- `CooldownGuard` -/
  | cooldown (minIntervalMs : ℚ) (lastTradeTime : List (String × Timestamp))
  /-- `SymbolWhitelistGuard` -/
  | symbolWhitelist (allowed : List String)
  | custom (name : String) (memory : κ)

def Guard.name {κ : Type} : Guard κ → String
  | .maxPositionSize _ => "max-position-size"
  | .cooldown .. => "cooldown"
  | .symbolWhitelist _ => "symbol-whitelist"
  | .custom name _ => name

variable {κ : Type} (env : GuardEnv κ)

/-! ## MaxPositionSizeGuard -/

def existingRow (positions : List Position) (symbol : String) : Option Position :=
  positions.find? fun p ↦ p.contract.symbol == symbol

def addedValue (order : Order) (existing : Option Position) : Decimal :=
  let cashQty := (stripUnset order.cashQty).getD 0
  if 0 < cashQty then cashQty
  else
    match stripUnset order.totalQuantity, existing with
    | some qty, some row => env.round (qty * row.marketPrice)
    | _, _ => 0

def percentOfEquity (value netLiq : Decimal) : Decimal :=
  if 0 < netLiq then env.round (env.round (value / netLiq) * 100) else 0

/-- `MaxPositionSizeGuard.check` -/
def checkPositionSize (maxPercent : ℚ) (ctx : GuardContext) : Option String :=
  match ctx.operation with
  | .placeOrder contract order _ =>
    let existing := existingRow ctx.positions contract.symbol
    let currentValue := (existing.map Position.marketValue).getD 0
    let added := addedValue env order existing
    if added = 0 then none
    else
      let projectedValue := env.round (currentValue + added)
      let percent := percentOfEquity env projectedValue ctx.account.netLiquidation
      if maxPercent < percent then
        some ("Position for " ++ contract.symbol ++ " would be " ++ env.toFixed1 percent ++
          "% of equity (limit: " ++ env.number maxPercent ++ "%)")
      else none
  | _ => none

/-! ## CooldownGuard -/

def remainingSeconds (minIntervalMs elapsed : ℚ) : Int := ((minIntervalMs - elapsed) / 1000).ceil

/-- `CooldownGuard.check`, and what the guard remembers behind it. -/
def checkCooldown (minIntervalMs : ℚ) (lastTradeTime : List (String × Timestamp)) (now : Timestamp)
    (ctx : GuardContext) : List (String × Timestamp) × Option String :=
  match ctx.operation with
  | .placeOrder .. =>
    let symbol := ctx.operation.symbol
    match lastTradeTime.lookup symbol with
    | some lastTime =>
      let elapsed : ℚ := now - lastTime
      if elapsed < minIntervalMs then
        (lastTradeTime, some ("Cooldown active for " ++ symbol ++ ": " ++
          toString (remainingSeconds minIntervalMs elapsed) ++ "s remaining"))
      else (setKey lastTradeTime symbol now, none)
    | none => (setKey lastTradeTime symbol now, none)
  | _ => (lastTradeTime, none)

/-! ## SymbolWhitelistGuard -/

/-- `SymbolWhitelistGuard.check` -/
def checkWhitelist (allowed : List String) (ctx : GuardContext) : Option String :=
  let symbol := ctx.operation.symbol
  if symbol = "unknown" then none
  else if symbol ∈ allowed then none
  else some ("Symbol " ++ symbol ++ " is not in the allowed list")

/-! ## The pipeline -/

/-- `check`, and the guard behind it. -/
def Guard.check (now : Timestamp) (ctx : GuardContext) : Guard κ → Guard κ × Option String
  | .maxPositionSize maxPercent => (.maxPositionSize maxPercent, checkPositionSize env maxPercent ctx)
  | .cooldown minIntervalMs lastTradeTime =>
    let q := checkCooldown minIntervalMs lastTradeTime now ctx
    (.cooldown minIntervalMs q.1, q.2)
  | .symbolWhitelist allowed => (.symbolWhitelist allowed, checkWhitelist allowed ctx)
  | .custom name memory =>
    let q := env.custom name memory ctx
    (.custom name q.1, q.2)

structure Refusal where
  place : Nat
  rejection : String
deriving DecidableEq

def askGuards (now : Timestamp) (ctx : GuardContext) :
    Nat → List (Guard κ) → List (Guard κ) × Option Refusal
  | _, [] => ([], none)
  | place, guard :: rest =>
    match guard.check env now ctx with
    | (guard, some rejection) => (guard :: rest, some ⟨place, rejection⟩)
    | (guard, none) =>
      let q := askGuards now ctx (place + 1) rest
      (guard :: q.1, q.2)

inductive Verdict where
  | threw
  /-- `{ success: false, error }` -/
  | rejected (refusal : Refusal) (error : String)
  | dispatched
deriving DecidableEq

/-- An operation that is run, with the time at which it is, and what the account answers when it can
be read. -/
structure Asked where
  operation : Operation
  now : Timestamp
  account : Option (List Position × AccountInfo)
deriving DecidableEq

/-- The function that `createGuardPipeline` makes. -/
def guardPipeline (guards : List (Guard κ)) (asked : Asked) : List (Guard κ) × Verdict :=
  if guards = [] then ([], .dispatched)
  else
    match asked.account with
    | none => (guards, .threw)
    | some (positions, account) =>
      match askGuards env asked.now ⟨asked.operation, positions, account⟩ 0 guards with
      | (guards', none) => (guards', .dispatched)
      | (guards', some refusal) =>
        let name := (guards[refusal.place]?.map Guard.name).getD ""
        (guards', .rejected refusal ("[guard:" ++ name ++ "] " ++ refusal.rejection))

structure Entry where
  asked : Asked
  verdict : Verdict
deriving DecidableEq

def pipelineStep (s : List (Guard κ) × List Entry) (asked : Asked) : List (Guard κ) × List Entry :=
  let q := guardPipeline env s.1 asked
  (q.1, s.2 ++ [⟨asked, q.2⟩])

def pipelineRun (guards : List (Guard κ)) (asked : List Asked) : List (Guard κ) × List Entry :=
  asked.foldl (pipelineStep env) (guards, [])

end OpenAlice.Trading.Guards
