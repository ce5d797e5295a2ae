import OpenAlice.Analysis.Functions

/-!
# The back-test

`simulate.ts`: a walk over dated bars from an entry date on, with one exit rule.  Prices are
elements of an ordered field, the arithmetic of a `number` without rounding; where the source
rounds, with `toFixed`, so does the model.

Of the dates only their texts are known, which are compared as the source compares them.  The
days that the bars are asked for before the entry are counted and not subtracted from a date
(`BarQuery.start`).  The bar service is a function of what it is asked.

A percentage of the price zero is not finite in JavaScript, so an entry at that price ends the
computation.
-/

namespace OpenAlice.Analysis

variable {K : Type}

inductive ExitRule (K : Type) where
  | trailingStop (pct : K)
  | maBreak (period : Nat)
  | stop (pct : K)
  | target (pct : K)
  | hold

/-- `OhlcvBar`, with its date. -/
structure DatedBar (K : Type) extends Bar K where
  date : String

/-- The metadata that `simulate` reads. -/
structure BarsMeta where
  symbol : String
  barId : Option String
  source : String
  «from» : String
  «to» : String
  asOf : Option String

structure BarQuery where
  interval : String
  start : String × Nat
  «end» : Option String

structure SimulateOpts (K : Type) where
  entryDate : String
  exit : ExitRule K
  interval : Option String := none
  asOf : Option String := none

structure Point (K : Type) where
  date : String
  price : K

structure Exit (K : Type) extends Point K where
  reason : String

structure SimulateResult (K : Type) where
  symbol : String
  barId : Option String
  source : String
  interval : String
  asOf : String
  rule : ExitRule K
  entry : Point K
  exit : Option (Exit K)
  «open» : Bool
  barsHeld : Nat
  returnPct : K
  mfePct : K
  maePct : K
  peak : Point K
  trough : Point K
  path : List (Point K)
  note : Option String

variable [Field K] [LinearOrder K] [FloorRing K]

/-! ## Rounding -/

/-- `Number(x.toFixed(digits))`: of two nearest numbers the one further from zero. -/
def toFixed (digits : Nat) (x : K) : K :=
  let unit : K := ((10 ^ digits : Nat) : K)
  if ((10 ^ 21 : Nat) : K) ≤ |x| then x
  else if x < 0 then -(⌊-x * unit + 1 / 2⌋ / unit)
  else ⌊x * unit + 1 / 2⌋ / unit

def pct (a b : K) : K := toFixed 2 ((a - b) / b * ((100 : Nat) : K))

def px (v : K) : K := toFixed 4 v

/-! ## The walk -/

def lastCloses (closes : List K) (i period : Nat) : List K :=
  (closes.take (i + 1)).drop (i + 1 - period)

/-- `rollingSma`; the average of no closes is no number, and nothing is below it. -/
def rollingSma (closes : List K) (i period : Nat) : Option K :=
  if i + 1 < period ∨ period = 0 then none
  else some (total (lastCloses closes i period) / period)

structure Walk (K : Type) where
  peakClose : K
  peak : Point K
  trough : Point K
  mfe : K
  mae : K

def Walk.initial (entry : DatedBar K) : Walk K where
  peakClose := entry.close
  peak := ⟨entry.date, entry.close⟩
  trough := ⟨entry.date, entry.close⟩
  mfe := 0
  mae := 0

def Walk.see (entryPrice : K) (w : Walk K) (b : DatedBar K) : Walk K where
  peakClose := if w.peakClose < b.close then b.close else w.peakClose
  peak := if w.peak.price < b.high then ⟨b.date, px b.high⟩ else w.peak
  trough := if b.low < w.trough.price then ⟨b.date, px b.low⟩ else w.trough
  mfe := max w.mfe (pct b.high entryPrice)
  mae := min w.mae (pct b.low entryPrice)

def percent (p : K) : K := p / ((100 : Nat) : K)

/-- The reason to exit at bar number `i`, if there is one. -/
def exitReason (lang : Language K) (rule : ExitRule K) (closes : List K) (entryPrice peakClose : K)
    (i : Nat) (close : K) : Option String :=
  match rule with
  | .trailingStop p =>
    if close ≤ peakClose * (1 - percent p) then
      some ("close " ++ lang.text (px close) ++ " fell " ++ lang.text p ++ "% from peak " ++
        lang.text (px peakClose))
    else none
  | .maBreak period =>
    match rollingSma closes i period with
    | some ma =>
      if close < ma then
        some ("close " ++ lang.text (px close) ++ " broke below SMA" ++ toString period ++ " " ++
          lang.text (px ma))
      else none
    | none => none
  | .stop p =>
    if close ≤ entryPrice * (1 - percent p) then
      some ("close " ++ lang.text (px close) ++ " hit −" ++ lang.text p ++ "% stop")
    else none
  | .target p =>
    if entryPrice * (1 + percent p) ≤ close then
      some ("close " ++ lang.text (px close) ++ " hit +" ++ lang.text p ++ "% target")
    else none
  | .hold => none

/-- The loop, from bar number `i` on. -/
def walkFrom (lang : Language K) (rule : ExitRule K) (closes : List K) (entryPrice : K)
    (entryIdx : Nat) : Nat → List (DatedBar K) → Walk K → Walk K × Option (Exit K)
  | _, [], w => (w, none)
  | i, b :: rest, w =>
    let w := w.see entryPrice b
    -- the bar that was entered at its close is not exited
    if i = entryIdx then walkFrom lang rule closes entryPrice entryIdx (i + 1) rest w
    else
      match exitReason lang rule closes entryPrice w.peakClose i b.close with
      | some reason => (w, some ⟨⟨b.date, px b.close⟩, reason⟩)
      | none => walkFrom lang rule closes entryPrice entryIdx (i + 1) rest w

/-! ## The result -/

def day (date : String) : String := String.ofList (date.toList.take 10)

def bufferDays (rule : ExitRule K) : Nat :=
  let lookback := match rule with
    | .maBreak period => period
    | _ => 0
  -- `Math.ceil((lookback + 10) * 1.6)`
  ((lookback + 10) * 8 + 4) / 5

def closePoint (b : DatedBar K) : Point K := ⟨b.date, px b.close⟩

/-- Whether a bar of the hold belongs to the path: every `step`-th does, and the last. -/
def sampled (step count : Nat) (q : DatedBar K × Nat) : Bool :=
  decide (q.2 % step = 0) || decide (q.2 = count - 1)

def samples (step : Nat) (held : List (DatedBar K)) : List (Point K) :=
  (held.zipIdx.filter (sampled step held.length)).map fun q ↦ closePoint q.1

/-- `step` -/
def stride (count : Nat) : Nat := max 1 ((count + 19) / 20)

/-- The bars of the hold, from one number to another. -/
def heldBars (bars : List (DatedBar K)) (entryIdx lastHeldIdx : Nat) : List (DatedBar K) :=
  (bars.take (lastHeldIdx + 1)).drop entryIdx

def report (barsMeta : BarsMeta) (opts : SimulateOpts K) (interval asOf : String)
    (bars : List (DatedBar K)) (entryIdx : Nat) (entryBar : DatedBar K) (walk : Walk K)
    (exit : Option (Exit K)) : SimulateResult K :=
  let lastHeldIdx := match exit with
    | some exit => bars.findIdx fun b ↦ b.date = exit.date
    | none => bars.length - 1
  let exitPrice := match exit with
    | some exit => exit.price
    | none => ((bars.getLast?).map fun b ↦ b.close).getD entryBar.close
  let held := heldBars bars entryIdx lastHeldIdx
  let slipped := day entryBar.date ≠ day opts.entryDate
  let notes :=
    (if slipped then ["Requested entryDate " ++ opts.entryDate ++
      " was not a trading day; entered the next session " ++ day entryBar.date ++ "."] else []) ++
    (if exit.isNone then ["Still open at asOf " ++ asOf ++
      " — return is mark-to-market, not realized."] else [])
  { symbol := barsMeta.symbol
    barId := barsMeta.barId
    source := barsMeta.source
    interval
    asOf
    rule := opts.exit
    entry := ⟨entryBar.date, px entryBar.close⟩
    exit
    «open» := exit.isNone
    barsHeld := lastHeldIdx - entryIdx
    returnPct := pct exitPrice entryBar.close
    mfePct := walk.mfe
    maePct := walk.mae
    peak := walk.peak
    trough := walk.trough
    path := samples (stride held.length) held
    note := if notes = [] then none else some (" ".intercalate notes) }

def barQuery (opts : SimulateOpts K) : BarQuery where
  interval := opts.interval.getD "1d"
  start := (opts.entryDate, bufferDays opts.exit)
  «end» := opts.asOf.filter fun asOf ↦ asOf ≠ ""

def entryIndex (bars : List (DatedBar K)) (entryDate : String) : Nat :=
  bars.findIdx fun b ↦ decide (entryDate ≤ day b.date)

/-- `simulate`, with what `new Date()` says today is: an error in the place of a result, or the
result. -/
def simulate (lang : Language K) (getBars : BarQuery → List (DatedBar K) × BarsMeta)
    (today : String) (opts : SimulateOpts K) : Except Fault (Except String (SimulateResult K)) :=
  let interval := opts.interval.getD "1d"
  let (bars, barsMeta) := getBars (barQuery opts)
  let asOf := (barsMeta.asOf.or opts.asOf).getD today
  let entryIdx := entryIndex bars opts.entryDate
  match bars[entryIdx]? with
  | none => .ok (.error ("No bars on/after " ++ opts.entryDate ++ " for " ++
      barsMeta.barId.getD barsMeta.symbol ++ " (window " ++ barsMeta.from ++ "…" ++ barsMeta.to ++
      "). Check the date and source."))
  | some entryBar =>
    if entryBar.close = 0 then .error .noNumber
    else
      let (walk, exit) := walkFrom lang opts.exit (bars.map fun b ↦ b.close) entryBar.close
        entryIdx entryIdx (bars.drop entryIdx) (.initial entryBar)
      .ok (.ok (report barsMeta opts interval asOf bars entryIdx entryBar walk exit))

end OpenAlice.Analysis
