import OpenAlice.Analysis.Evaluator
import OpenAlice.Data.Concurrent

/-!
# The provenance of an evaluation

`recordProvenance` of `evaluator.ts`, and the fetches that it is called with.

`Evaluator` says what a script evaluates to; here is what it leaves out: the metadata and the dates
of the series, and the moments at which they come.  An expression fetches its series one after the
other, except that the arguments of a function are evaluated at the same time (`fetchesOf`), so the
fetches of a program complete in any order that this allows.  An evaluation that fails has no output:
only what succeeds is here.
-/

namespace OpenAlice.Analysis

open Data

variable {K : Type}

/-! ## Series -/

/-- `DataSourceMeta`, and the freshness of `BarMeta`. -/
structure DataSourceMeta where
  symbol : String
  «from» : String
  «to» : String
  bars : Nat
  source : Option String := none
  sourceId : Option String := none
  barId : Option String := none
  interval : Option String := none
  provider : Option String := none
  barCapability : Option String := none
  asOf : Option String := none
  isLatestActual : Option Bool := none
  staleTradingDays : Option Nat := none
deriving DecidableEq

structure BarsResult (K : Type) where
  bars : List (String × Bar K)
  «meta» : DataSourceMeta

/-- `BarService`, as the call of `bars` at some place of the script finds it. -/
structure BarService (K : Type) where
  getBars : Pos → (barId : String) → (assetClass : Option String) → GetBarsOpts K →
    Except String (BarsResult K)

def BarService.deps (service : BarService K) (firstToFail : Pos → Nat) : CalcDeps K where
  getBars pos barId assetClass opts :=
    (service.getBars pos barId assetClass opts).map fun r ↦ r.bars.map Prod.snd
  firstToFail := firstToFail

structure Fetch where
  interval : String
  «meta» : DataSourceMeta
  axis : List String

/-- What `fetchBars` gives to `recordProvenance`. -/
def fetchOf (interval : String) (r : BarsResult K) : Fetch :=
  ⟨interval, r.meta, r.bars.map Prod.fst⟩

/-! ## Recording -/

/-- An object with entries.  What is assigned to `__proto__` becomes no entry, but can be read. -/
structure Entries (α : Type) where
  own : List (String × α) := []
  proto : Option α := none
  own_ne : "__proto__" ∉ own.map Prod.fst := by simp

namespace Entries

variable {α : Type}

/-- `entries[key]`, for a key that was assigned to. -/
def get (entries : Entries α) (key : String) : Option α :=
  if key = "__proto__" then entries.proto else entries.own.lookup key

/-- `entries[key] = value` -/
def set (entries : Entries α) (key : String) (value : α) : Entries α :=
  if h : key = "__proto__" then { entries with proto := some value }
  else
    { entries with
      own := setKey entries.own key value
      own_ne := fun hmem ↦ (mem_keys_setKey hmem).elim (fun heq ↦ h heq.symm) entries.own_ne }

/-- `delete entries[key]` -/
def delete (entries : Entries α) (key : String) : Entries α :=
  { entries with
    own := deleteKey entries.own key
    own_ne := fun hmem ↦ entries.own_ne ((List.filter_sublist.map _).subset hmem) }

/-- `entries[new] = entries[key]; delete entries[key]` -/
def rename (entries : Entries α) (key new : String) : Entries α :=
  match entries.get key with
  | none => entries
  | some value => (entries.set new value).delete key

end Entries

/-- `dataRange`, `dates` and `intervalsByBarId`. -/
structure Provenance where
  dataRange : Entries DataSourceMeta := {}
  dates : Entries (List String) := {}
  intervalsByBarId : List (String × List String) := []

def intervalKey (barId interval : String) : String := barId ++ "@" ++ interval

def Fetch.dated (f : Fetch) : DataSourceMeta := { f.meta with interval := some f.interval }

/-- `meta.barId`, unless it counts as false. -/
def Fetch.barId (f : Fetch) : Option String := f.meta.barId.filter (· ≠ "")

/-- `dataRange[key] = meta`, and `dates[key] = axis` if there is one. -/
def Provenance.assign (s : Provenance) (withDates : Bool) (key : String) (f : Fetch) : Provenance :=
  { s with
    dataRange := s.dataRange.set key f.dated
    dates := if withDates then s.dates.set key f.axis else s.dates }

def recordProvenance (withDates : Bool) (s : Provenance) (f : Fetch) : Provenance :=
  match f.barId with
  | none => s
  | some barId =>
    match s.intervalsByBarId.lookup barId with
    | none =>
      { s.assign withDates barId f with
        intervalsByBarId := setKey s.intervalsByBarId barId [f.interval] }
    | some intervals =>
      if f.interval ∈ intervals then
        s.assign withDates
          (if intervals.length = 1 then barId else intervalKey barId f.interval) f
      else
        -- The compact key is given up when a second interval appears.
        let upgraded : Provenance :=
          match intervals with
          | [firstInterval] =>
            { s with
              dataRange := s.dataRange.rename barId (intervalKey barId firstInterval)
              dates :=
                if withDates then s.dates.rename barId (intervalKey barId firstInterval)
                else s.dates }
          | _ => s
        { upgraded.assign withDates (intervalKey barId f.interval) f with
          intervalsByBarId :=
            setKey s.intervalsByBarId barId (intervals ++ [f.interval]) }

def provenanceOf (withDates : Bool) (fetches : List Fetch) : Provenance :=
  fetches.foldl (recordProvenance withDates) {}

/-! ## The fetches of a program -/

section Fetches

variable [Field K] [LinearOrder K] [FloorRing K]
variable (lang : Language K) (service : BarService K) (firstToFail : Pos → Nat)
variable (env : List (String × V K))

/-- The arguments of `bars`. -/
def barsArguments (args : Items K) (pos : Pos) :
    Run K (String × Option String × GetBarsOpts K) := do
  let deps := service.deps firstToFail
  let barId ← evalPositional lang deps env args 0
  let barId ← .of (asStr barId "bars" 1 pos.line)
  let interval ← evalPositional lang deps env args 1
  let interval ← .of (asStr interval "bars" 2 pos.line)
  let count ← evalKeyword lang deps env args "count"
  let count ← .of (count.mapM (asNum · "count" pos.line))
  let asOf ← evalKeyword lang deps env args "asOf"
  let asOf ← .of (asOf.mapM (asStr · "asOf" 1 pos.line))
  let start ← evalKeyword lang deps env args "start"
  let start ← .of (start.mapM (asStr · "start" 1 pos.line))
  let «end» ← evalKeyword lang deps env args "end"
  let «end» ← .of («end».mapM (asStr · "end" 1 pos.line))
  let asset ← evalKeyword lang deps env args "asset"
  let assetClass ← .of (asset.mapM (asStr · "asset" 1 pos.line))
  return (barId, assetClass, { interval, count, asOf, start, «end» })

/-- The fetch of a call of `bars`, if it succeeds. -/
def ownFetch (args : Items K) (pos : Pos) : Parts Fetch :=
  match (barsArguments lang service firstToFail env args pos).result with
  | .error _ => .nothing
  | .ok (barId, assetClass, opts) =>
    match service.getBars pos barId assetClass opts with
    | .error _ => .nothing
    | .ok r => .one (fetchOf opts.interval r)

mutual

def fetchesOf : Expr K → Parts Fetch
  | .num _ _ | .str _ _ | .name _ _ => .nothing
  | .unary operand _ => fetchesOf operand
  | .binary _ left right _ => .seq (fetchesOf left) (fetchesOf right)
  | .attr obj _ _ => fetchesOf obj
  | .index obj index _ => .seq (fetchesOf obj) (fetchesOf index)
  | .list elements _ => fetchesInOrder elements
  | .dict entries _ => fetchesInOrder entries
  | .call callee args pos =>
    if callee = "bars" then
      .seq (fetchesPositional args 0) <| .seq (fetchesPositional args 1) <|
        .seq (fetchesKeyword args "count") <| .seq (fetchesKeyword args "asOf") <|
        .seq (fetchesKeyword args "start") <| .seq (fetchesKeyword args "end") <|
        .seq (fetchesKeyword args "asset") (ownFetch lang service firstToFail env args pos)
    else fetchesAtOnce args

def fetchesInOrder : Items K → Parts Fetch
  | .nil => .nothing
  | .cons _ value rest => .seq (fetchesOf value) (fetchesInOrder rest)

/-- `Promise.all` -/
def fetchesAtOnce : Items K → Parts Fetch
  | .nil => .nothing
  | .cons _ value rest => .par (fetchesOf value) (fetchesAtOnce rest)

def fetchesPositional : Items K → Nat → Parts Fetch
  | .nil, _ => .nothing
  | .cons none value _, 0 => fetchesOf value
  | .cons none _ rest, i + 1 => fetchesPositional rest i
  | .cons (some _) _ rest, i => fetchesPositional rest i

def fetchesKeyword : Items K → String → Parts Fetch
  | .nil, _ => .nothing
  | .cons name value rest, key =>
    if name = some key ∧ rest.has key = false then fetchesOf value else fetchesKeyword rest key

end

end Fetches

section Program

variable [Field K] [LinearOrder K] [FloorRing K]
variable (lang : Language K) (service : BarService K) (firstToFail : Pos → Nat)

def fetchesOfBindings (result : Expr K) :
    List (String × Expr K) → List (String × V K) → Parts Fetch
  | [], env => fetchesOf lang service firstToFail env result
  | (name, value) :: bindings, env =>
    match (evalExpr lang (service.deps firstToFail) env value).result with
    | .error _ => .nothing
    | .ok v =>
      .seq (fetchesOf lang service firstToFail env value)
        (fetchesOfBindings result bindings (setKey env name v))

def fetchesOfProgram (program : Program K) : Parts Fetch :=
  fetchesOfBindings lang service firstToFail program.result program.bindings []

structure CalcOutput (K : Type) where
  value : CalcValue K
  dataRange : List (String × DataSourceMeta)
  dates : Option (List (String × List String))

/-- `evaluate` may have this output, when its fetches complete in this order. -/
inductive Outputs (withDates : Bool) (program : Program K) (order : List Fetch) :
    CalcOutput K → Prop
  | mk {value : CalcValue K} :
      (evaluate lang (service.deps firstToFail) program).result = .ok value →
      (fetchesOfProgram lang service firstToFail program).Completes order →
      Outputs withDates program order
        { value
          dataRange := (provenanceOf withDates order).dataRange.own
          dates := if withDates then some (provenanceOf withDates order).dates.own else none }

end Program

/-! ## The fetch of a call -/

namespace Run

variable {α β : Type}

end Run

section Call

variable [Field K] [LinearOrder K] [FloorRing K]
variable {lang : Language K} {service : BarService K} {firstToFail : Pos → Nat}
  {env : List (String × V K)}

end Call

end OpenAlice.Analysis
