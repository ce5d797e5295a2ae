import OpenAlice.Analysis.Functions
import OpenAlice.Data.Keyed

/-!
# The evaluator

`evaluator.ts` and `index.ts` of the quant calculator.  An evaluation (`Run`) has a result and, kept
beside it, the calls of the registry that it came to, in their order: the trace that its
properties are about.

The arguments of a function are evaluated at the same time.  When several of them fail, the one
that fails first decides, and nothing is seen of the others; which one that is depends on the
bar service and is left open (`CalcDeps.firstToFail`).  So does what the bar service answers, at each
place of the script: it may answer differently every time.

`dataRange` and `dates` of the output are left out, and so is all of a bar's metadata.
-/

namespace OpenAlice.Analysis

open Data

/-! ## Evaluations -/

structure Call (K : Type) where
  property : Property
  args : List (V K)

/-- An evaluation: the calls of the registry that it came to, and its result. -/
structure Run (K α : Type) where
  calls : List (Call K)
  result : Except Stop α

namespace Run

variable {K α β : Type}

def andThen (x : Run K α) (f : α → Run K β) : Run K β :=
  match x.result with
  | .ok a => ⟨x.calls ++ (f a).calls, (f a).result⟩
  | .error stop => ⟨x.calls, .error stop⟩

instance : Monad (Run K) where
  pure a := ⟨[], .ok a⟩
  bind := andThen

def of (result : Except Stop α) : Run K α := ⟨[], result⟩

def inOrder : List (Run K α) → Run K (List α)
  | [] => pure []
  | x :: runs => do
    let a ← x
    let as ← inOrder runs
    return a :: as

def all (first : Nat) (runs : List (Run K α)) : Run K (List α) :=
  let failed := runs.filter fun x ↦ x.result matches .error _
  match failed[first % failed.length]? with
  | some x => do return [← x]
  | none => inOrder runs

end Run

/-! ## The bar service -/

structure GetBarsOpts (K : Type) where
  interval : String
  count : Option K := none
  asOf : Option String := none
  start : Option String := none
  «end» : Option String := none

/-- `CalcDeps`, and what is open of its timing. -/
structure CalcDeps (K : Type) where
  /-- `getBars`, as the call of `bars` at some place of the script finds it; it may reject with
  a message. -/
  getBars : Pos → (barId : String) → (assetClass : Option String) → GetBarsOpts K →
    Except String (List (Bar K))
  firstToFail : Pos → Nat

def anywhere (test : List Char → Bool) (text : List Char) : Bool := text.tails.any test

def isWordChar (c : Char) : Bool := isIdentPart c

/-- `\b` around a word: some run of word characters is this word. -/
def hasWord (word text : List Char) : Bool := (text.splitOnP fun c ↦ !isWordChar c).contains word

def barFetchSuggestion (detail : String) : String :=
  let text := detail.toList.map Char.toLower
  let has (part : String) : Bool := anywhere (fun rest ↦ part.toList.isPrefixOf rest) text
  let starts (part : String) : Bool := part.toList.isPrefixOf text
  let rateLimit (rest : List Char) : Bool := "rate".toList.isPrefixOf rest &&
    ("limit".toList.isPrefixOf (rest.drop 4) ||
      ((rest[4]?).any (· ∉ ['\n', '\r', Char.ofNat 0x2028, Char.ofNat 0x2029]) &&
        "limit".toList.isPrefixOf (rest.drop 5)))
  if starts "rate_limited:" || anywhere rateLimit text || has "too many requests" ||
      hasWord "429".toList text then
    "Not a script error — the data source throttled/blocked this client. Wait a few minutes and " ++
      "retry, or switch source (an \"fmp|<symbol>\" barId if an FMP key is set, or a connected " ++
      "broker barId)."
  else if starts "network_unreachable:" || has "cannot reach" || has "unreachable" ||
      hasWord "dns".toList text || has "proxy" then
    "Not a script error — the data source was unreachable from this network. Do not retry " ++
      "blindly; try a different source, or surface the network/VPN issue to the user."
  else
    "Not a script error in the math — check the barId is one returned by " ++
      "searchBars/searchContracts (vendor barIds also need asset=). If the source genuinely has " ++
      "no data for this symbol/interval, try another source."

/-! ## Coercions -/

variable {K : Type}

def asLeaf (v : V K) (line : Nat) : Except Stop (CalcValue K) :=
  match v with
  | .num v => .ok (.num v)
  | .str v => .ok (.str v)
  | .record v => .ok (.dict (v.map fun (key, x) ↦ (key, .num x)))
  | .list items => .ok (.list items)
  | .dict map => .ok (.dict map)
  | _ => failOn line .type ("A panel entry must be a single value — reduce a series with [-1] or " ++
      "an indicator (e.g. sma(s.close, 50))")

def asNum (v : V K) (ctx : String) (line : Nat) : Except Stop K :=
  match v with
  | .num v => .ok v
  | .col _ => failOn line .type ("Expected a number for " ++ ctx ++ ", got a series column")
  | .series _ => failOn line .type ("Expected a number for " ++ ctx ++ ", got a series")
  | .str _ => failOn line .type ("Expected a number for " ++ ctx ++ ", got a string")
  | _ => failOn line .type ("Expected a number for " ++ ctx ++ ", got a record")

def asStr (v : V K) (fn : String) (argIdx line : Nat) : Except Stop String :=
  match v with
  | .str v => .ok v
  | _ => failOn line .type (fn ++ " arg " ++ toString argIdx ++ " must be a string")

def failIn {α : Type} (pos : Pos) (kind : CalcErrorKind) (message : String)
    (suggestion : Option String := none) : Except Stop α :=
  .error (.diagnostic
    { kind, message, line := some pos.line, col := some pos.col, suggestion })

def SERIES_COLUMNS : List String := ["open", "high", "low", "close", "volume"]

def MAX_PANEL : Nat := 200

/-- `Number(b[name] ?? 0)` -/
def Bar.column [Zero K] (name : String) (b : Bar K) : K :=
  if name = "open" then b.open
  else if name = "high" then b.high
  else if name = "low" then b.low
  else if name = "close" then b.close
  else b.volume.getD 0

def Series.column [Zero K] (name : String) (r : Series K) : Col K :=
  ⟨r.bars.map (Bar.column name), fun h ↦ r.nonempty (List.map_eq_nil_iff.mp h)⟩

def Items.named : Items K → Bool
  | .nil => false
  | .cons name _ rest => name.isSome || rest.named

def Items.positional : Items K → Nat
  | .nil => 0
  | .cons none _ rest => rest.positional + 1
  | .cons (some _) _ rest => rest.positional

def Items.has (key : String) : Items K → Bool
  | .nil => false
  | .cons name _ rest => name = some key || rest.has key

/-- `map[key] = value`: a key of that name sets no entry. -/
def setEntry (map : List (String × CalcValue K)) (key : String) (value : CalcValue K) :
    List (String × CalcValue K) :=
  if key = "__proto__" then map else setKey map key value

/-! ## Expressions -/

variable [Field K] [LinearOrder K] [FloorRing K]

def lookupName (env : List (String × V K)) (id : String) (pos : Pos) : Except Stop (V K) :=
  let undeclared := failIn pos .undeclaredName
    ("\"" ++ id ++ "\" is not defined. Declared: [" ++
      (if env = [] then "none" else ", ".intercalate (env.map Prod.fst)) ++ "]")
    (suggest id (env.map Prod.fst))
  match env.lookup id with
  | none | some (.foreign false) => undeclared
  | some v => .ok v

def BinaryOp.apply (op : BinaryOp) (l r : K) (line : Nat) : Except Stop K :=
  match op with
  | .add => .ok (l + r)
  | .sub => .ok (l - r)
  | .mul => .ok (l * r)
  | .div => if r = 0 then failOn line .type "Division by zero" else calculate (Analysis.div l r)

def columnOf (obj : V K) (name : String) (pos : Pos) : Except Stop (V K) :=
  match obj with
  | .series r =>
    if name ∈ SERIES_COLUMNS then .ok (.col (r.column name))
    else failIn pos .reflex ("Unknown series column \"." ++ name ++ "\"")
      (some ("columns are: " ++ ", ".intercalate SERIES_COLUMNS))
  | _ => failIn pos .type ("\"." ++ name ++ "\" is only valid on a bars(...) series")
      (if name = "iloc" then some "use [-1] for the latest value" else none)

def elementAt (lang : Language K) (obj : V K) (idx : K) (pos : Pos) : Except Stop K :=
  if idx ≠ ⌊idx⌋ then failOn pos.line .type "Index must be an integer"
  else
    match obj with
    | .col c =>
      let at' := if idx < 0 then (c.values.length : K) + idx else idx
      if at' < 0 ∨ (c.values.length : K) ≤ at' then
        failOn pos.line .insufficientBars ("Index " ++ lang.text idx ++
          " out of range — the series has " ++ toString c.values.length ++ " bars")
      else calculate (elem c.values at')
    | .num _ => failIn pos .reflex "Cannot index a scalar"
        (some ("Indicators (sma/ema/rsi/…) already return the latest value — drop the [-1]. " ++
          "Only raw columns like s.close are series."))
    | _ => failIn pos .type "Indexing is only valid on a series column (e.g. s.close[-1])"

def element (lang : Language K) (obj index : V K) (pos : Pos) : Except Stop K := do
  let idx ← asNum index "[]" pos.line
  elementAt lang obj idx pos

def panelSize (count : Nat) (pos : Pos) : Except Stop Unit :=
  if MAX_PANEL < count then
    failOn pos.line .type ("A panel takes at most " ++ toString MAX_PANEL ++ " entries, got " ++
      toString count)
  else .ok ()

def fetchBars (deps : CalcDeps K) (pos : Pos) (barId : String) (assetClass : Option String)
    (opts : GetBarsOpts K) : Except Stop (V K) :=
  match deps.getBars pos barId assetClass opts with
  | .error detail => failIn pos .dataSource ("bars(\"" ++ barId ++ "\") failed: " ++ detail)
      (some (barFetchSuggestion detail))
  | .ok bars =>
    if h : bars = [] then
      failIn pos .insufficientBars
        ("bars(\"" ++ barId ++ "\", \"" ++ opts.interval ++ "\") returned no data")
    else .ok (.series ⟨bars, h⟩)

def callProperty (lang : Language K) (property : Property) (args : List (V K)) (line : Nat) :
    Run K (V K) :=
  ⟨[⟨property, args⟩], property.call lang args line⟩

section Evaluate

variable (lang : Language K) (deps : CalcDeps K) (env : List (String × V K))

mutual

def evalExpr : Expr K → Run K (V K)
  | .num value _ => pure (.num value)
  | .str value _ => pure (.str value)
  | .name id pos => .of (lookupName env id pos)
  | .unary operand pos => do
    let o ← evalExpr operand
    return .num (-(← .of (asNum o "-" pos.line)))
  | .binary op left right pos => do
    let l ← evalExpr left
    let l ← .of (asNum l op.text pos.line)
    let r ← evalExpr right
    let r ← .of (asNum r op.text pos.line)
    return .num (← .of (op.apply l r pos.line))
  | .attr obj name pos => do
    let obj ← evalExpr obj
    .of (columnOf obj name pos)
  | .index obj index pos => do
    let obj ← evalExpr obj
    let idx ← evalExpr index
    return .num (← .of (element lang obj idx pos))
  | .list elements pos => do
    .of (panelSize elements.length pos)
    return .list (← evalElements elements)
  | .dict entries pos => do
    .of (panelSize entries.length pos)
    return .dict (← evalEntries entries [])
  | .call callee args pos =>
    if callee = "bars" then
      -- `evalBars`
      if args.positional < 2 then
        .of (failIn pos .arity "bars(barId, interval, ...) needs a barId and an interval"
          (some "e.g. bars(\"alpaca-paper|AAPL\", \"1d\", count=250)"))
      else do
        let barId ← evalPositional args 0
        let barId ← .of (asStr barId "bars" 1 pos.line)
        let interval ← evalPositional args 1
        let interval ← .of (asStr interval "bars" 2 pos.line)
        let count ← evalKeyword args "count"
        let count ← .of (count.mapM (asNum · "count" pos.line))
        let asOf ← evalKeyword args "asOf"
        let asOf ← .of (asOf.mapM (asStr · "asOf" 1 pos.line))
        let start ← evalKeyword args "start"
        let start ← .of (start.mapM (asStr · "start" 1 pos.line))
        let «end» ← evalKeyword args "end"
        let «end» ← .of («end».mapM (asStr · "end" 1 pos.line))
        let asset ← evalKeyword args "asset"
        let assetClass ← .of (asset.mapM (asStr · "asset" 1 pos.line))
        .of (fetchBars deps pos barId assetClass { interval, count, asOf, start, «end» })
    else
      -- `evalFunction`
      match FUNCTIONS callee with
      | none => .of (failIn pos .unknownFunction ("Unknown function \"" ++ callee ++ "\"")
          (suggest callee (Indicator.all.map Indicator.name ++ ["bars"])))
      | some spec =>
        if args.named then
          .of (failIn pos .type (callee ++ "(...) takes positional arguments only"))
        else do
          let args ← .all (deps.firstToFail pos) (evalArgs args)
          callProperty lang spec args pos.line

def evalElements : Items K → Run K (List (CalcValue K))
  | .nil => pure []
  | .cons _ value rest => do
    let v ← evalExpr value
    let leaf ← .of (asLeaf v value.pos.line)
    return leaf :: (← evalElements rest)

def evalEntries : Items K → List (String × CalcValue K) → Run K (List (String × CalcValue K))
  | .nil, map => pure map
  | .cons name value rest, map => do
    let v ← evalExpr value
    let leaf ← .of (asLeaf v value.pos.line)
    evalEntries rest (setEntry map (name.getD "") leaf)

def evalArgs : Items K → List (Run K (V K))
  | .nil => []
  | .cons _ value rest => evalExpr value :: evalArgs rest

def evalPositional : Items K → Nat → Run K (V K)
  | .nil, _ => .of (.error (.exception .throws))
  | .cons none value _, 0 => evalExpr value
  | .cons none _ rest, i + 1 => evalPositional rest i
  | .cons (some _) _ rest, i => evalPositional rest i

def evalKeyword : Items K → String → Run K (Option (V K))
  | .nil, _ => pure none
  | .cons name value rest, key =>
    if name = some key ∧ rest.has key = false then do return some (← evalExpr value)
    else evalKeyword rest key

end

end Evaluate

/-! ## Scripts -/

def output (out : V K) (line : Nat) : Except Stop (CalcValue K) :=
  match out with
  | .num v => .ok (.num v)
  | .str v => .ok (.str v)
  | .record v => .ok (.dict (v.map fun (key, x) ↦ (key, .num x)))
  | .list items => .ok (.list items)
  | .dict map => .ok (.dict map)
  | _ => failOn line .type ("The result is " ++
      (match out with
        | .series _ => "a series"
        | _ => "a series column") ++
      ", not a value — reduce it with [-1] or an indicator (e.g. sma(s.close, 50)), or return a " ++
      "panel like \x7b \"1h\": rsi(s.close, 14) \x7d")

def evalBindings (lang : Language K) (deps : CalcDeps K) :
    List (String × Expr K) → List (String × V K) → Run K (List (String × V K))
  | [], env => pure env
  | (name, value) :: bindings, env => do
    let v ← evalExpr lang deps env value
    evalBindings lang deps bindings (setKey env name v)

def evaluate (lang : Language K) (deps : CalcDeps K) (program : Program K) :
    Run K (CalcValue K) := do
  let env ← evalBindings lang deps program.bindings []
  let out ← evalExpr lang deps env program.result
  .of (output out program.result.pos.line)

mutual

def round (lang : Language K) : CalcValue K → CalcValue K
  | .num v => .num (lang.toFixed v)
  | .str v => .str v
  | .list items => .list (roundItems lang items)
  | .dict map => .dict (roundEntries lang map)

/-- `v.map(round)` -/
def roundItems (lang : Language K) : List (CalcValue K) → List (CalcValue K)
  | [] => []
  | x :: items => round lang x :: roundItems lang items

/-- `Object.entries(v).map(round)` -/
def roundEntries (lang : Language K) :
    List (String × CalcValue K) → List (String × CalcValue K)
  | [] => []
  | (key, x) :: map => (key, round lang x) :: roundEntries lang map

end

inductive RunResult (K : Type) where
  | value (value : CalcValue K)
  | error (diagnostic : CalcDiagnostic)

def runOf (lang : Language K) (deps : CalcDeps K) (script : List Char) : Run K (CalcValue K) := do
  let program ← .of (parse script)
  evaluate lang deps program

def runScript (lang : Language K) (deps : CalcDeps K) (script : List Char) :
    Except Stop (RunResult K) :=
  match (runOf lang deps script).result with
  | .ok value => .ok (.value (round lang value))
  | .error (.diagnostic d) => .ok (.error d)
  | .error stop => .error stop

end OpenAlice.Analysis
