import OpenAlice.Analysis.Parser

/-!
# The function registry

The values that the evaluator of the quant calculator computes with, and the functions that a script
may call (`buildFunctions` in `evaluator.ts`): each checks the number of its arguments, their kinds
and the length of the series, with a diagnostic where a check fails, and calls the indicator.

The registry is a plain object, so a script also reaches what every object inherits
(`Inherited`).  What such a function returns is no value of the calculator (`V.foreign`); the
evaluator sees of it only whether it counts as true.

A series has bars: the evaluator stops where there are none.
-/

namespace OpenAlice.Analysis

variable {K : Type}

/-! ## Values -/

/-- The keys of a dict in the order in which they were set. -/
inductive CalcValue (K : Type) where
  | num (v : K)
  | str (v : String)
  | list (items : List (CalcValue K))
  | dict (map : List (String × CalcValue K))

/-- `OhlcvBar` -/
structure Bar (K : Type) where
  «open» : K
  high : K
  low : K
  close : K
  volume : Option K

structure Series (K : Type) where
  bars : List (Bar K)
  nonempty : bars ≠ []

structure Col (K : Type) where
  values : List K
  nonempty : values ≠ []

/-- `V`, or a value of the language that is none. -/
inductive V (K : Type) where
  | num (v : K)
  | str (v : String)
  | col (col : Col K)
  | series (r : Series K)
  | record (v : List (String × K))
  | list (items : List (CalcValue K))
  | dict (map : List (String × CalcValue K))
  | foreign (truthy : Bool)

structure Language (K : Type) where
  /-- `Math.sqrt` -/
  sqrt : K → K
  text : K → String
  /-- `Number(v.toFixed(precision))` -/
  toFixed : K → K

/-! ## Checks -/

def failOn {α : Type} (line : Nat) (kind : CalcErrorKind) (message : String) : Except Stop α :=
  .error (.diagnostic { kind, message, line := some line })

def col (a : Option (V K)) (fn : String) (i line : Nat) : Except Stop (Col K) :=
  match a with
  | some (.col c) => .ok c
  | _ => failOn line .type
      (fn ++ " arg " ++ toString i ++ " must be a series column (e.g. s.close)")

def num (a : Option (V K)) (fn : String) (i line : Nat) : Except Stop K :=
  match a with
  | some (.num v) => .ok v
  | _ => failOn line .type (fn ++ " arg " ++ toString i ++ " must be a number")

/-- `a ? num(a) : undefined` -/
def optional (a : Option (V K)) (fn : String) (i line : Nat) : Except Stop (Option K) :=
  match a with
  | none | some (.foreign false) => .ok none
  | some v => (num (some v) fn i line).map some

def arity (args : List (V K)) (least most : Nat) (fn : String) (line : Nat) : Except Stop Unit :=
  if args.length < least ∨ most < args.length then
    failOn line .arity (fn ++ " expects " ++
      (if least = most then toString least else toString least ++ "-" ++ toString most) ++
      " argument" ++ (if most = 1 then "" else "s") ++ ", got " ++ toString args.length)
  else .ok ()

def needBars [Field K] [LinearOrder K] (text : K → String) (c : Col K) (period : K) (fn : String)
    (line : Nat) : Except Stop Unit :=
  if (c.values.length : K) < period then
    failOn line .insufficientBars (fn ++ "(period=" ++ text period ++ ") needs ≥" ++ text period ++
      " bars, but the series has " ++ toString c.values.length ++
      ". Raise count= on bars(...) or shorten the period.")
  else .ok ()

def calculate {α : Type} (x : Except Fault α) : Except Stop α := x.mapError .exception

/-! ## Functions -/

/-- The keys of `FUNCTIONS`. -/
inductive Indicator where
  | sma | ema | stdev | max | min | sum | average | rsi | bbands | macd | atr | rvol | obv | mfi
  | vwap | median | roc | zscore | slope | correlation | highest | lowest

def Indicator.name : Indicator → String
  | .sma => "sma"
  | .ema => "ema"
  | .stdev => "stdev"
  | .max => "max"
  | .min => "min"
  | .sum => "sum"
  | .average => "average"
  | .rsi => "rsi"
  | .bbands => "bbands"
  | .macd => "macd"
  | .atr => "atr"
  | .rvol => "rvol"
  | .obv => "obv"
  | .mfi => "mfi"
  | .vwap => "vwap"
  | .median => "median"
  | .roc => "roc"
  | .zscore => "zscore"
  | .slope => "slope"
  | .correlation => "correlation"
  | .highest => "highest"
  | .lowest => "lowest"

/-- `Object.keys(FUNCTIONS)` -/
def Indicator.all : List Indicator :=
  [.sma, .ema, .stdev, .max, .min, .sum, .average, .rsi, .bbands, .macd, .atr, .rvol, .obv, .mfi,
    .vwap, .median, .roc, .zscore, .slope, .correlation, .highest, .lowest]

section Families

variable [Field K] [LinearOrder K]

def ofColumn (indicator : List K → Except Fault K) (f : String) (a : List (V K)) (l : Nat) :
    Except Stop (V K) := do
  arity a 1 1 f l
  let c ← col a[0]? f 1 l
  return .num (← calculate (indicator c.values))

/-- A function of a column and a period, for which some bars are `needed`. -/
def ofWindow (text : K → String) (needed : K → K) (indicator : List K → K → Except Fault K)
    (f : String) (a : List (V K)) (l : Nat) : Except Stop (V K) := do
  arity a 2 2 f l
  let c ← col a[0]? f 1 l
  let p ← num a[1]? f 2 l
  needBars text c (needed p) f l
  return .num (← calculate (indicator c.values p))

def ofRecent (text : K → String) (default : K) (indicator : List K → K → Except Fault K)
    (f : String) (a : List (V K)) (l : Nat) : Except Stop (V K) := do
  arity a 1 2 f l
  let c ← col a[0]? f 1 l
  let p := (← optional a[1]? f 2 l).getD default
  needBars text c (p + 1) f l
  return .num (← calculate (indicator c.values p))

end Families

variable [Field K] [LinearOrder K] [FloorRing K]

/-- The functions of `FUNCTIONS`. -/
def Indicator.apply (lang : Language K) (indicator : Indicator) (a : List (V K)) (l : Nat) :
    Except Stop (V K) :=
  let f := indicator.name
  match indicator with
  | .sma => ofWindow lang.text id SMA f a l
  | .ema => ofWindow lang.text id EMA f a l
  | .stdev => ofColumn (STDEV lang.sqrt) f a l
  | .max => ofColumn MAX f a l
  | .min => ofColumn MIN f a l
  | .sum => ofColumn SUM f a l
  | .average => ofColumn AVERAGE f a l
  | .rsi => ofRecent lang.text 14 RSI f a l
  | .bbands => do
    arity a 2 3 f l
    let c ← col a[0]? f 1 l
    let p ← num a[1]? f 2 l
    let s := (← optional a[2]? f 3 l).getD 2
    needBars lang.text c p f l
    let (upper, middle, lower) ← calculate (BBANDS lang.sqrt c.values p s)
    return .record [("upper", upper), ("middle", middle), ("lower", lower)]
  | .macd => do
    arity a 4 4 f l
    let c ← col a[0]? f 1 l
    let fa ← num a[1]? f 2 l
    let sl ← num a[2]? f 3 l
    let si ← num a[3]? f 4 l
    needBars lang.text c (sl + si) f l
    let (macdValue, signal, histogram) ← calculate (MACD c.values fa sl si)
    return .record [("macd", macdValue), ("signal", signal), ("histogram", histogram)]
  | .atr => do
    arity a 4 4 f l
    let h ← col a[0]? f 1 l
    let lo ← col a[1]? f 2 l
    let c ← col a[2]? f 3 l
    let p ← num a[3]? f 4 l
    needBars lang.text c p f l
    return .num (← calculate (ATR h.values lo.values c.values p))
  | .rvol => ofRecent lang.text 20 RVOL f a l
  | .obv => do
    arity a 2 2 f l
    let c ← col a[0]? f 1 l
    let v ← col a[1]? f 2 l
    return .num (← calculate (OBV c.values v.values))
  | .mfi => do
    arity a 4 5 f l
    let h ← col a[0]? f 1 l
    let lo ← col a[1]? f 2 l
    let c ← col a[2]? f 3 l
    let v ← col a[3]? f 4 l
    let p := (← optional a[4]? f 5 l).getD 14
    needBars lang.text c (p + 1) f l
    return .num (← calculate (MFI h.values lo.values c.values v.values p))
  | .vwap => do
    arity a 4 4 f l
    let h ← col a[0]? f 1 l
    let lo ← col a[1]? f 2 l
    let c ← col a[2]? f 3 l
    let v ← col a[3]? f 4 l
    return .num (← calculate (VWAP h.values lo.values c.values v.values))
  | .median => ofColumn MEDIAN f a l
  | .roc => ofWindow lang.text (· + 1) ROC f a l
  | .zscore => do
    arity a 1 2 f l
    let c ← col a[0]? f 1 l
    let p ← optional a[1]? f 2 l
    -- A period of zero counts as none.
    match p with
    | some p => if p = 0 then pure () else needBars lang.text c p f l
    | none => pure ()
    return .num (← calculate (ZSCORE lang.sqrt c.values p))
  | .slope => ofWindow lang.text id SLOPE f a l
  | .correlation => do
    arity a 2 2 f l
    let c ← col a[0]? f 1 l
    let d ← col a[1]? f 2 l
    return .num (← calculate (CORRELATION lang.sqrt c.values d.values))
  | .highest => ofWindow lang.text id HIGHEST f a l
  | .lowest => ofWindow lang.text id LOWEST f a l

/-! ## What every object inherits -/

/-- What comes of calling an inherited property without an object to call it on. -/
inductive Inherited where
  /-- A `TypeError` -/
  | throws
  | returns (truthy : Bool)

/-- The properties of `Object.prototype`. -/
def inherited : List (String × Inherited) :=
  [("constructor", .returns true), ("toString", .returns true), ("isPrototypeOf", .returns false),
    ("hasOwnProperty", .throws), ("propertyIsEnumerable", .throws), ("toLocaleString", .throws),
    ("valueOf", .throws), ("__defineGetter__", .throws), ("__defineSetter__", .throws),
    ("__lookupGetter__", .throws), ("__lookupSetter__", .throws), ("__proto__", .throws)]

/-- What a name finds in the registry. -/
inductive Property where
  | own (indicator : Indicator)
  | inherited (property : Inherited)

/-- `FUNCTIONS[callee]` -/
def FUNCTIONS (callee : String) : Option Property :=
  match Indicator.all.find? (·.name = callee) with
  | some indicator => some (.own indicator)
  | none => (inherited.lookup callee).map .inherited

/-- `spec(callee, args, line)` -/
def Property.call (lang : Language K) (property : Property) (args : List (V K)) (line : Nat) :
    Except Stop (V K) :=
  match property with
  | .own indicator => indicator.apply lang args line
  | .inherited .throws => .error (.exception .throws)
  | .inherited (.returns truthy) => .ok (.foreign truthy)

end OpenAlice.Analysis
