import Mathlib.Algebra.Order.Field.Basic
import Mathlib.Algebra.Order.Floor.Ring
import Mathlib.Data.List.Sort

/-!
# Indicators

The functions of `src/domain/analysis/indicator/functions`, over any ordered field: the
arithmetic of a `number` without rounding.  What has no value there ends the computation: a
division by zero, the square root of a negative number, the largest of no numbers, and an element
that is read outside of an array (`Fault.noNumber`).  So does an `Error` that a function throws
itself (`Fault.throws`); its text is left out.

Periods are numbers, as the scripts choose them.  So the bounds of a slice are truncated towards
zero, and a loop counts from its first index in steps of one, which need not be whole numbers.
-/

namespace OpenAlice.Analysis

/-- What keeps a computation from its result. -/
inductive Fault where
  /-- An `Error` is thrown. -/
  | throws
  | noNumber

/-! ## Numerals

The numerals that several modules use, each with one proof that it is at least two. -/

scoped instance atLeastTwo_two : Nat.AtLeastTwo 2 := ⟨by decide⟩

scoped instance atLeastTwo_three : Nat.AtLeastTwo 3 := ⟨by decide⟩

scoped instance atLeastTwo_fourteen : Nat.AtLeastTwo 14 := ⟨by decide⟩

scoped instance atLeastTwo_twenty : Nat.AtLeastTwo 20 := ⟨by decide⟩

variable {K : Type} [Field K] [LinearOrder K] [FloorRing K]

/-! ## Arithmetic -/

/-- `/` -/
def div (x y : K) : Except Fault K := if y = 0 then .error .noNumber else .ok (x / y)

/-- `Math.sqrt` -/
def root (sqrt : K → K) (x : K) : Except Fault K :=
  if x < 0 then .error .noNumber else .ok (sqrt x)

/-- `v[i]`, where the index is a whole number anyway. -/
def nth (v : List K) (i : Nat) : Except Fault K :=
  match v[i]? with
  | some x => .ok x
  | none => .error .noNumber

/-- `v[i]` -/
def elem (v : List K) (i : K) : Except Fault K :=
  if 0 ≤ i ∧ i = ⌊i⌋ then nth v ⌊i⌋.toNat else .error .noNumber

/-- `reduce((acc, val) => acc + val, 0)` -/
def total (v : List K) : K := v.foldl (fun acc val ↦ acc + val) 0

/-- `ToIntegerOrInfinity` -/
def truncate (x : K) : Int := if 0 ≤ x then ⌊x⌋ else ⌈x⌉

def bound (length : Nat) (x : K) : Nat :=
  if truncate x < 0 then (length + truncate x).toNat else min (truncate x).toNat length

/-- `v.slice(start)` -/
def sliceFrom (v : List K) (start : K) : List K := v.drop (bound v.length start)

/-- `v.slice(0, stop)` -/
def sliceTo (v : List K) (stop : K) : List K := v.take (bound v.length stop)

/-- `v.slice(start, stop)` -/
def slice (v : List K) (start stop : K) : List K :=
  (v.take (bound v.length stop)).drop (bound v.length start)

/-- `for (let i = first; i < stop; i++)` -/
def loop {β : Type} (first : K) (stop : Nat) (body : β → K → Except Fault β) (state : β) :
    Except Fault β :=
  (List.range ⌈(stop : K) - first⌉.toNat).foldlM (fun state (j : Nat) ↦ body state (first + j)) state

/-- `Math.max(...v)` -/
def largest : List K → Except Fault K
  | [] => .error .noNumber
  | x :: v => .ok (v.foldl max x)

/-- `Math.min(...v)` -/
def smallest : List K → Except Fault K
  | [] => .error .noNumber
  | x :: v => .ok (v.foldl min x)

def squares (mean : K) (v : List K) : K := v.foldl (fun acc val ↦ acc + (val - mean) ^ 2) 0

/-! ## `statistics.ts` -/

def SMA (v : List K) (period : K) : Except Fault K :=
  if (v.length : K) < period then .error .throws
  else div (total (sliceFrom v (-period))) period

def EMA (v : List K) (period : K) : Except Fault K :=
  if (v.length : K) < period then .error .throws
  else do
    let multiplier ← div 2 (period + 1)
    let ema ← div (total (sliceTo v period)) period
    loop period v.length (fun ema i ↦ do return ((← elem v i) - ema) * multiplier + ema) ema

def STDEV (sqrt : K → K) (v : List K) : Except Fault K :=
  if v = [] then .error .throws
  else do
    let mean ← div (total v) v.length
    let variance ← div (squares mean v) v.length
    root sqrt variance

def MAX (v : List K) : Except Fault K := if v = [] then .error .throws else largest v

def MIN (v : List K) : Except Fault K := if v = [] then .error .throws else smallest v

def SUM (v : List K) : Except Fault K := .ok (total v)

def AVERAGE (v : List K) : Except Fault K :=
  if v = [] then .error .throws else div (total v) v.length

def MEDIAN (v : List K) : Except Fault K :=
  let sorted := v.insertionSort (· ≤ ·)
  if sorted = [] then .error .throws
  else
    let mid := sorted.length / 2
    if sorted.length % 2 = 1 then nth sorted mid
    else do return ((← nth sorted (mid - 1)) + (← nth sorted mid)) / 2

def ROC (v : List K) (period : K) : Except Fault K :=
  if (v.length : K) < period + 1 then .error .throws
  else do
    let cur ← elem v (v.length - 1)
    let prior ← elem v (v.length - 1 - period)
    if prior = 0 then return 0
    else return (← div (cur - prior) prior) * 100

def ZSCORE (sqrt : K → K) (all : List K) (period : Option K) : Except Fault K :=
  if all = [] then .error .throws
  else do
    let v : List K := match period with
      | some p => if p = 0 then all else sliceFrom all (-p)
      | none => all
    let mean ← div (total v) v.length
    let variance ← div (squares mean v) v.length
    let sd ← root sqrt variance
    let last ← nth all (all.length - 1)
    if sd = 0 then return 0 else div (last - mean) sd

def SLOPE (data : List K) (period : K) : Except Fault K :=
  let v := sliceFrom data (-period)
  let n : K := v.length
  if n < 2 then .error .throws
  else
    let sumX := n * (n - 1) / 2
    let sumXX := (n - 1) * n * (2 * n - 1) / 6
    let sumY := total v
    let sumXY := v.zipIdx.foldl (fun a y ↦ a + (y.2 : K) * y.1) 0
    let denom := n * sumXX - sumX * sumX
    if denom = 0 then .ok 0 else div (n * sumXY - sumX * sumY) denom

def CORRELATION (sqrt : K → K) (av bv : List K) : Except Fault K :=
  let n := min av.length bv.length
  if n < 2 then .error .throws
  else do
    let A := sliceFrom av (-(n : K))
    let B := sliceFrom bv (-(n : K))
    let meanA ← div (total A) n
    let meanB ← div (total B) n
    let (cov, varA, varB) ← (List.range n).foldlM (fun (cov, varA, varB) i ↦ do
      let da := (← nth A i) - meanA
      let db := (← nth B i) - meanB
      return (cov + da * db, varA + da * da, varB + db * db)) ((0, 0, 0) : K × K × K)
    let denom ← root sqrt (varA * varB)
    if denom = 0 then return 0 else div cov denom

def HIGHEST (data : List K) (period : K) : Except Fault K :=
  if sliceFrom data (-period) = [] then .error .throws else largest (sliceFrom data (-period))

def LOWEST (data : List K) (period : K) : Except Fault K :=
  if sliceFrom data (-period) = [] then .error .throws else smallest (sliceFrom data (-period))

/-! ## `technical.ts` -/

/-- `v[i] - v[i - 1]`, from the second element on. -/
def changesOf (v : List K) : List K := v.tail.zipWith (· - ·) v

def RSI (v : List K) (period : K) : Except Fault K :=
  if (v.length : K) < period + 1 then .error .throws
  else do
    let gains := (changesOf v).map fun c ↦ if 0 < c then c else 0
    let losses := (changesOf v).map fun c ↦ if c < 0 then -c else 0
    let avgGain ← div (total (sliceTo gains period)) period
    let avgLoss ← div (total (sliceTo losses period)) period
    let (avgGain, avgLoss) ← loop period gains.length (fun (avgGain, avgLoss) i ↦ do
      let avgGain ← div (avgGain * (period - 1) + (← elem gains i)) period
      let avgLoss ← div (avgLoss * (period - 1) + (← elem losses i)) period
      return (avgGain, avgLoss)) (avgGain, avgLoss)
    if avgLoss = 0 then return 100
    else
      let rs ← div avgGain avgLoss
      return 100 - (← div 100 (1 + rs))

def BBANDS (sqrt : K → K) (v : List K) (period stdDevMultiplier : K) :
    Except Fault (K × K × K) :=
  if (v.length : K) < period then .error .throws
  else do
    let slice := sliceFrom v (-period)
    let middle ← div (total slice) period
    let variance ← div (squares middle slice) period
    let stdDev ← root sqrt variance
    return (middle + stdDev * stdDevMultiplier, middle, middle - stdDev * stdDevMultiplier)

def MACD (v : List K) (fastPeriod slowPeriod signalPeriod : K) : Except Fault (K × K × K) :=
  if (v.length : K) < slowPeriod + signalPeriod then .error .throws
  else do
    let fastEMA ← EMA v fastPeriod
    let slowEMA ← EMA v slowPeriod
    let macdValue := fastEMA - slowEMA
    -- `for (let i = slowPeriod; i <= v.length; i++)`
    let macdHistory ← (List.range (⌊(v.length : K) - slowPeriod⌋ + 1).toNat).mapM fun (j : Nat) ↦ do
      let slice := sliceTo v (slowPeriod + j)
      let fast ← EMA slice fastPeriod
      let slow ← EMA slice slowPeriod
      return fast - slow
    let signalValue ← EMA macdHistory signalPeriod
    return (macdValue, signalValue, macdValue - signalValue)

def trueRanges (h l c : List K) : Except Fault (List K) :=
  (List.range (h.length - 1)).mapM fun j ↦ do
    let high ← nth h (j + 1)
    let low ← nth l (j + 1)
    let close ← nth c j
    return max (high - low) (max |high - close| |low - close|)

def ATR (h l c : List K) (period : K) : Except Fault K :=
  if h.length ≠ l.length ∨ l.length ≠ c.length ∨ (h.length : K) < period + 1 then .error .throws
  else do
    let trueRanges ← trueRanges h l c
    let atr ← div (total (sliceTo trueRanges period)) period
    loop period trueRanges.length
      (fun atr i ↦ do div (atr * (period - 1) + (← elem trueRanges i)) period) atr

def RVOL (v : List K) (period : K) : Except Fault K :=
  if (v.length : K) < period + 1 then .error .throws
  else do
    let latest ← nth v (v.length - 1)
    let avg ← div (total (slice v (-period - 1) (-1))) period
    if avg = 0 then .error .throws else div latest avg

def OBV (c vol : List K) : Except Fault K :=
  if c.length ≠ vol.length ∨ c.length < 2 then .error .throws
  else
    (List.range (c.length - 1)).foldlM (fun obv j ↦ do
      let close ← nth c (j + 1)
      let before ← nth c j
      if before < close then return obv + (← nth vol (j + 1))
      else if close < before then return obv - (← nth vol (j + 1))
      else return obv) 0

def typical (h l c : List K) : Except Fault (List K) :=
  (List.range h.length).mapM fun i ↦ do return ((← nth h i) + (← nth l i) + (← nth c i)) / 3

def moneyFlow (typical vol : List K) (period : K) : Except Fault (K × K) :=
  loop ((typical.length : K) - period) typical.length (fun (positiveFlow, negativeFlow) i ↦ do
    let price ← elem typical i
    let rawFlow := price * (← elem vol i)
    let before ← elem typical (i - 1)
    if before < price then return (positiveFlow + rawFlow, negativeFlow)
    else if price < before then return (positiveFlow, negativeFlow + rawFlow)
    else return (positiveFlow, negativeFlow)) (0, 0)

def MFI (h l c vol : List K) (period : K) : Except Fault K :=
  if h.length ≠ l.length ∨ l.length ≠ c.length ∨ c.length ≠ vol.length ∨
      (h.length : K) < period + 1 then .error .throws
  else do
    let typical ← typical h l c
    let (positiveFlow, negativeFlow) ← moneyFlow typical vol period
    if negativeFlow = 0 then return 100
    else
      let moneyRatio ← div positiveFlow negativeFlow
      return 100 - (← div 100 (1 + moneyRatio))

def VWAP (h l c vol : List K) : Except Fault K :=
  if h.length ≠ l.length ∨ l.length ≠ c.length ∨ c.length ≠ vol.length ∨ h.length < 1 then
    .error .throws
  else do
    let (priceVolume, totalVolume) ← (List.range h.length).foldlM
      (fun (priceVolume, totalVolume) i ↦ do
        let typical := ((← nth h i) + (← nth l i) + (← nth c i)) / 3
        let volume ← nth vol i
        return (priceVolume + typical * volume, totalVolume + volume)) ((0, 0) : K × K)
    if totalVolume = 0 then .error .throws else div priceVolume totalVolume

end OpenAlice.Analysis
