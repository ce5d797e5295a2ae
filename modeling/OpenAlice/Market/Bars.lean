import OpenAlice.Data.Ranked
import Mathlib.Algebra.GroupWithZero.Nat
import Mathlib.Algebra.Order.Ring.Nat
import Mathlib.Data.Prod.Lex

/-!
# Bars

`getBars` of `src/domain/market-data/bars/bar-service.ts`: a request names a data vendor or a
broker account, the source is asked for the bars of a window, and what it answers is shaped,
sorted and truncated.  A vendor row keeps its fields; a broker row becomes numbers
(`barToOhlcv`).

A day is its number from 1970-01-01, and a bar's date is a day with or without a time of day:
`YYYY-MM-DD` or `YYYY-MM-DD HH:mm:ss`, which the source compares as texts and here compare by
day, then by time, a day without a time first (years have four digits).  A moment is in
milliseconds, as in `Date`, of a process that runs in UTC; `none` is the time value of an
invalid `Date`, and the rows of a broker have valid ones.  Calendar days are
computed exactly where the source multiplies by 1.6, 7.5, 0.2 and 0.05.

What the clients and the accounts answer is a parameter.  `N` are the numbers of a bar, which
this layer only passes on.
-/

namespace OpenAlice.Market

open OpenAlice.Data

/-! ## Days and dates -/

abbrev msPerDay : Int := 86400000

/-- The weekday of a day, `0` for Sunday: `getUTCDay`. -/
def weekday (day : Int) : Int := (day + 4) % 7

def isWeekday (day : Int) : Bool := decide (weekday day ≠ 0) && decide (weekday day ≠ 6)

structure BarDate where
  day : Int
  time : Option (Fin 86400) := none
deriving DecidableEq

/-- How `localeCompare` orders the texts of dates. -/
def BarDate.rank (date : BarDate) : Int ×ₗ Nat :=
  toLex (date.day, match date.time with
    | none => 0
    | some second => second + 1)

/-! ## Requests -/

inductive AssetClass where
  | equity | crypto | currency | commodity

inductive BarCapability where
  | free | delayed | subscription | iex | realtime

structure GetBarsOpts where
  interval : String
  count : Option Nat := none
  start : Option Int := none
  «end» : Option Int := none
  asOf : Option Int := none

inductive BarSourceRef where
  | symbol (symbol : String) (assetClass : AssetClass)
  | barId (barId : String) (assetClass : Option AssetClass)

structure BarRef where
  sourceId : String
  nativeSymbol : String

/-- Split at the first `|`. -/
def parseBarId (barId : String) : Option BarRef :=
  let sourceId := barId.toList.takeWhile (· != '|')
  match barId.toList.dropWhile (· != '|') with
  | _ :: c :: nativeSymbol =>
    if sourceId = [] then none else some ⟨.ofList sourceId, .ofList (c :: nativeSymbol)⟩
  | _ => none

def formatBarId (sourceId nativeSymbol : String) : String := sourceId ++ "|" ++ nativeSymbol

/-! ## The window -/

/-- The match of an interval against `^(\d+)([dwhm])$`. -/
def intervalParts (interval : String) : Option (Nat × Char) :=
  let digits := interval.toList.takeWhile Char.isDigit
  match interval.toList.dropWhile Char.isDigit with
  | [unit] =>
    if digits ≠ [] ∧ unit ∈ ['d', 'w', 'h', 'm'] then
      some (Nat.ofDigitChars 10 digits 0, unit)
    else none
  | _ => none

def getCalendarDays (interval : String) : Nat :=
  match intervalParts interval with
  | some (n, 'd') => n * 730
  | some (n, 'w') => n * 1825
  | some (n, 'h') => n * 90
  | some (n, 'm') => n * 30
  | _ => 365

/-- `perBarDays`, in twentieths of a day. -/
def perBarDays (interval : String) : Nat :=
  match intervalParts interval with
  | some (n, 'd') => n * 32
  | some (n, 'w') => n * 150
  | some (n, 'h') => n * 4
  | some (n, 'm') => n * 1
  | _ => 32

def windowDays (opts : GetBarsOpts) : Nat :=
  match opts.count with
  | some count =>
    max (getCalendarDays opts.interval) ((count * perBarDays opts.interval + 19) / 20 + 5)
  | none => getCalendarDays opts.interval

/-- The earliest moment that a `Date` can hold. -/
abbrev minTime : Int := -8640000000000000

/-- The moment at which the window of a request without a start opens. -/
def windowStart (opts : GetBarsOpts) (now : Int) : Int :=
  (((opts.asOf <|> opts.end).map (· * msPerDay)).getD now) - windowDays opts * msPerDay

/-- `startDateFor`; `toISOString` throws when the start is not a date. -/
def startDateFor (opts : GetBarsOpts) (now : Int) : Except String Int :=
  match opts.start with
  | some start => .ok start
  | none =>
    if windowStart opts now < minTime then .error "Invalid time value"
    else .ok (windowStart opts now / msPerDay)

/-! ## Rows and bars -/

/-- `OhlcvBar`, also the row of a vendor.  A number is missing where a vendor row has none, and
where the text of a broker row is not a number. -/
structure OhlcvBar (N : Type) where
  date : BarDate
  «open» : Option N
  high : Option N
  low : Option N
  close : Option N
  volume : Option N
deriving DecidableEq

/-- `Bar` of the protocol, with the fields that the wire carried. -/
structure WireBar where
  timestamp : Int
  «open» : Option String
  high : Option String
  low : Option String
  close : Option String
  volume : Option String

variable {N : Type}

def isFullBar (d : OhlcvBar N) : Bool :=
  d.close.isSome && d.open.isSome && d.high.isSome && d.low.isSome

def barIntervals : List String := ["1m", "5m", "15m", "30m", "1h", "4h", "1d", "1w"]

def toBarInterval (interval : String) : String :=
  if barIntervals.contains interval then interval else "1d"

def secondOf (timestamp : Int) : Fin 86400 :=
  ⟨(timestamp % msPerDay / 1000).toNat, by
    have hlt : timestamp % msPerDay < 86400000 := Int.emod_lt_of_pos timestamp (by decide)
    omega⟩

def dateOf (timestamp : Int) (interval : String) : BarDate :=
  if interval = "1d" ∨ interval = "1w" ∨ timestamp % msPerDay = 0 then
    { day := timestamp / msPerDay }
  else { day := timestamp / msPerDay, time := some (secondOf timestamp) }

/-- `barToOhlcv`, with `Number` a parameter. -/
def barToOhlcv (number : String → Option N) (interval : String) (bar : WireBar) : OhlcvBar N where
  date := dateOf bar.timestamp interval
  «open» := bar.open.bind number
  high := bar.high.bind number
  low := bar.low.bind number
  close := bar.close.bind number
  volume := if bar.volume = some "" then none else bar.volume.bind number

inductive BarSourceKind where
  | vendor | uta

structure BarMeta where
  symbol : String
  «from» : Option BarDate
  «to» : Option BarDate
  bars : Nat
  source : Option BarSourceKind := none
  sourceId : Option String := none
  barId : Option String := none
  provider : Option String := none
  barCapability : Option BarCapability := none
  asOf : Option Int := none
  isLatestActual : Option Bool := none
  staleTradingDays : Option Nat := none

structure BarsResult (N : Type) where
  bars : List (OhlcvBar N)
  «meta» : BarMeta

/-- `buildMeta`, without the fields that its callers add. -/
def buildMeta (symbol : String) (bars : List (OhlcvBar N)) : BarMeta where
  symbol := symbol
  «from» := bars.head?.map OhlcvBar.date
  «to» := bars.getLast?.map OhlcvBar.date
  bars := bars.length

/-- The weekdays of `n` days from a day on, that day not included. -/
def countWeekdays (day : Int) : Nat → Nat
  | 0 => 0
  | n + 1 => (if isWeekday (day + 1) then 1 else 0) + countWeekdays (day + 1) n

def tradingDaysBetween (fromDay toDay : Int) : Nat :=
  countWeekdays fromDay (toDay - fromDay).toNat

/-- `computeFreshness`, written into the meta data. -/
def computeFreshness (m : BarMeta) (last : Option BarDate) (opts : GetBarsOpts) (now : Int) :
    BarMeta :=
  match last with
  | none => m
  | some last =>
    let anchor := (opts.end <|> opts.asOf).getD (now / msPerDay)
    let gap := tradingDaysBetween last.day anchor
    { m with asOf := some anchor, isLatestActual := some (gap == 0),
             staleTradingDays := some gap }

abbrev maxBars : Nat := 5000

/-- `slice(-count)`: everything, when `count` is `0`. -/
def sliceLast (count : Nat) (data : List (OhlcvBar N)) : List (OhlcvBar N) :=
  if count = 0 then data else data.rtake count

def OhlcvBar.rank (bar : OhlcvBar N) : Int ×ₗ Nat := bar.date.rank

def finalize (data : List (OhlcvBar N)) (count : Option Nat) : List (OhlcvBar N) :=
  let sorted := sortRank OhlcvBar.rank data
  let out := if sorted.length > maxBars then sliceLast maxBars sorted else sorted
  match count with
  | some count => if out.length > count then sliceLast count out else out
  | none => out

/-! ## Sources -/

/-- What a client is asked: `p(..)`. -/
structure VendorQuery where
  symbol : String
  start_date : Int
  provider : String
  end_date : Option Int
  interval : Option String := none

/-- `BarParams`, with the time values of its dates. -/
structure BarParams where
  interval : String
  start : Option (Option Int)
  «end» : Option Int
  limit : Option Nat

/-- `UtaBarGateway`, as `getBars` uses it. -/
structure UtaBarGateway where
  has : String → Except String Bool
  /-- An account answers `getHistorical`. -/
  get : String → Except String (Option (String → BarParams → Except String (List WireBar)))
  getBarCapabilities : Option (Except String (List (String × BarCapability)))

/-- `BarServiceDeps`, as `getBars` uses it.  What rejects is an error. -/
structure BarServiceDeps (N : Type) where
  equityClient : VendorQuery → Except String (List (OhlcvBar N))
  cryptoClient : VendorQuery → Except String (List (OhlcvBar N))
  currencyClient : VendorQuery → Except String (List (OhlcvBar N))
  commodityClient : VendorQuery → Except String (List (OhlcvBar N))
  utaManager : UtaBarGateway
  vendorProviders : AssetClass → String
  /-- `Number` of a text, `none` for `NaN`. -/
  number : String → Option N

def vendorCapability : List (String × BarCapability) :=
  [("yfinance", .delayed), ("fmp", .delayed), ("eastmoney", .delayed), ("twse", .delayed)]

variable (deps : BarServiceDeps N)

def askVendor (provider : String) (assetClass : AssetClass) (symbol : String)
    (opts : GetBarsOpts) (start_date : Int) : Except String (List (OhlcvBar N)) :=
  let p : VendorQuery := { symbol, start_date, provider, end_date := opts.end }
  match assetClass with
  | .equity => deps.equityClient { p with interval := some opts.interval }
  | .crypto => deps.cryptoClient { p with interval := some opts.interval }
  | .currency => deps.currencyClient { p with interval := some opts.interval }
  | .commodity => deps.commodityClient p

def vendorRows (opts : GetBarsOpts) (raw : List (OhlcvBar N)) : List (OhlcvBar N) :=
  match opts.end with
  | some end_date => (raw.filter isFullBar).filter fun b ↦ decide (b.date.day ≤ end_date)
  | none => raw.filter isFullBar

/-- The answer of `getVendorBars` for the rows of the client. -/
def vendorResult (provider symbol : String) (opts : GetBarsOpts) (now : Int)
    (raw : List (OhlcvBar N)) : BarsResult N :=
  let filtered := finalize (vendorRows opts raw) opts.count
  { bars := filtered
    «meta» := computeFreshness
      { buildMeta symbol filtered with
        source := some .vendor, sourceId := some provider
        barId := some (formatBarId provider symbol), provider := some provider
        barCapability := vendorCapability.lookup provider }
      (filtered.getLast?.map OhlcvBar.date) opts now }

def getVendorBars (provider : String) (assetClass : AssetClass) (symbol : String)
    (opts : GetBarsOpts) (now : Int) : Except String (BarsResult N) := do
  let start_date ← startDateFor opts now
  let raw ← askVendor deps provider assetClass symbol opts start_date
  return vendorResult provider symbol opts now raw

def effectiveCap (sourceId : String) : Except String BarCapability :=
  match deps.utaManager.getBarCapabilities with
  | none => .ok .realtime
  | some caps => do
      match (← caps).lookup sourceId with
      | some cap => .ok cap
      | none =>
        .error ("UTA source \"" ++ sourceId ++ "\" does not advertise historical-bar support.")

def startTime (day : Int) : Option Int :=
  if -719528 ≤ day ∧ day ≤ 2932896 then some (day * msPerDay) else none

def utaParams (opts : GetBarsOpts) (now : Int) : Except String BarParams := do
  let start ← match opts.start with
    | some start => .ok (some start)
    | none => if opts.count.isSome then (startDateFor opts now).map some else .ok none
  return { interval := toBarInterval opts.interval
           start := start.map startTime
           «end» := (opts.end <|> opts.asOf).map (· * msPerDay)
           limit := opts.count }

def utaRows (opts : GetBarsOpts) (wireBars : List WireBar) : List (OhlcvBar N) :=
  wireBars.map (barToOhlcv deps.number (toBarInterval opts.interval))

/-- The answer of `getUtaBars` for the rows of the account. -/
def utaResult (sourceId barId : String) (cap : BarCapability) (opts : GetBarsOpts) (now : Int)
    (wireBars : List WireBar) : BarsResult N :=
  let bars := finalize (utaRows deps opts wireBars) opts.count
  let symbol := ((parseBarId barId).map BarRef.nativeSymbol).getD barId
  { bars := bars
    «meta» := computeFreshness
      { buildMeta symbol bars with
        source := some .uta, sourceId := some sourceId, barId := some barId
        barCapability := some cap }
      (bars.getLast?.map OhlcvBar.date) opts now }

def getUtaBars (sourceId barId : String) (opts : GetBarsOpts) (now : Int) :
    Except String (BarsResult N) := do
  match ← deps.utaManager.get sourceId with
  | none =>
    .error ("UTA source \"" ++ sourceId ++ "\" not found for barId \"" ++ barId ++ "\"")
  | some getHistorical =>
    let cap ← effectiveCap deps sourceId
    let params ← utaParams opts now
    let wireBars ← getHistorical barId params
    return utaResult deps sourceId barId cap opts now wireBars

def getBars (ref : BarSourceRef) (opts : GetBarsOpts) (now : Int) :
    Except String (BarsResult N) :=
  match ref with
  | .symbol symbol assetClass =>
    getVendorBars deps (deps.vendorProviders assetClass) assetClass symbol opts now
  | .barId barId assetClass =>
    match parseBarId barId with
    | none =>
      .error ("Invalid barId \"" ++ barId ++ "\" (expected \"sourceId|nativeSymbol\")")
    | some parsed => do
        if ← deps.utaManager.has parsed.sourceId then
          getUtaBars deps parsed.sourceId barId opts now
        else
          match assetClass with
          | some assetClass =>
            getVendorBars deps parsed.sourceId assetClass parsed.nativeSymbol opts now
          | none =>
            .error ("Vendor barId \"" ++ barId ++ "\" needs an assetClass to route. Pass " ++
              "\x7b barId, assetClass \x7d or use \x7b symbol, assetClass \x7d.")

end OpenAlice.Market
