import OpenAlice.Data.Ranked
import Mathlib.Algebra.Order.Floor.Semiring
import Mathlib.Data.Rat.Floor

/-!
# Symbol search

`aggregateSymbolSearch` of `src/domain/market-data/aggregate-search.ts`, with `SymbolIndex.search`
and `CommodityCatalog.search`: the local index and the catalog are searched with the query as a
regular expression, the vendors are asked online, and what they all give is ranked by how well it
matches.

Regular expressions, `trim` and the conversions of letter case are JavaScript's, and a parameter.
`E` is what a row carries besides the fields that are read here.
-/

namespace OpenAlice.Market

open OpenAlice.Data

/-! ## Texts -/

/-- What the search uses of JavaScript's texts. -/
structure TextEngine where
  /-- The test of `new RegExp(pattern, 'i')`, unless that throws. -/
  regExp : String → Option (String → Bool)
  toLowerCase : String → String
  toUpperCase : String → String
  trim : String → String

def patternChars : List Char :=
  ['.', '*', '+', '?', '^', '$', '\x7b', '\x7d', '(', ')', '|', '[', ']', '\\']

/-- `q.replace(/[.*+?^${}()|[\]\\]/g, '\\$&')` -/
def escapePattern (q : String) : String :=
  String.ofList (q.toList.flatMap fun c ↦ if patternChars.contains c then ['\\', c] else [c])

/-- `/[a-z0-9]/i` -/
def isAlphanumeric (c : Char) : Bool := c.isAlpha || c.isDigit

/-- `text.includes(part)` -/
def includes (text part : String) : Bool :=
  text.toList.tails.any part.toList.isPrefixOf

variable {E : Type} (js : TextEngine)

/-- The test that `search` makes of its pattern, which is a part of a text where it is no regular
expression. -/
def patternTest (pattern : String) : String → Bool :=
  match js.regExp pattern with
  | some test => test
  | none => fun s ↦ includes (js.toLowerCase s) (js.toLowerCase pattern)

/-! ## Sources -/

structure SymbolEntry (E : Type) where
  symbol : String
  name : String
  extra : E

structure CommodityCatalogEntry (E : Type) where
  id : String
  name : String
  aliases : List String
  extra : E

structure VendorRow (E : Type) where
  symbol : Option String := none
  id : Option String := none
  name : Option String := none
  aliases : List String := []
  extra : E

def SymbolEntry.matches (pattern : String) (entry : SymbolEntry E) : Bool :=
  patternTest js pattern entry.symbol || patternTest js pattern entry.name

def CommodityCatalogEntry.matches (pattern : String) (entry : CommodityCatalogEntry E) : Bool :=
  patternTest js pattern entry.id || patternTest js pattern entry.name ||
    entry.aliases.any (patternTest js pattern)

/-- The loop of both `search`es: the entries that match, up to `limit` of them. -/
def searchLoop {α : Type} (test : α → Bool) (limit : Nat) : List α → List α → List α
  | results, [] => results
  | results, entry :: entries =>
    if test entry then
      let results := results ++ [entry]
      if limit ≤ results.length then results else searchLoop test limit results entries
    else searchLoop test limit results entries

structure MarketSearchResult (E : Type) where
  symbol : Option String := none
  id : Option String := none
  name : Option String := none
  aliases : List String := []
  assetClass : String
  sourceId : Option String := none
  extra : E
deriving DecidableEq

/-- `MarketSearchDeps`, with what the vendors answer to this query: `none` where one fails. -/
structure MarketSearchDeps (E : Type) where
  symbolIndex : List (SymbolEntry E)
  commodityCatalog : List (CommodityCatalogEntry E)
  equityVendors : List (String × Option (List (VendorRow E)))
  crypto : Option (List (VendorRow E))
  currency : Option (List (VendorRow E))

/-! ## Scores -/

/-- `matchScore`.  An escaped query is always a regular expression. -/
def matchScore (query : String) (r : MarketSearchResult E) : Nat :=
  let q := js.toLowerCase query
  let sym := js.toLowerCase ((r.symbol.or r.id).getD "")
  let name := js.toLowerCase (r.name.getD "")
  let aliases := r.aliases.map js.toLowerCase
  if sym = q ∨ name = q then 100
  else if q ∈ aliases then 90
  else if sym ≠ "" ∧ q.toList <+: sym.toList then 80
  else if q.toList <+: name.toList ∧
      ((name.toList.drop q.toList.length).head?.map isAlphanumeric).getD false = false then 70
  else if ((js.regExp ("\\b" ++ escapePattern q ++ "\\b")).map (· name)).getD false then 50
  else if includes name q then 30
  else 10

/-! ## The search -/

def primaryEquity (deps : MarketSearchDeps E) : String :=
  (deps.equityVendors.head?.map Prod.fst).getD "yfinance"

def equityResult (deps : MarketSearchDeps E) (entry : SymbolEntry E) : MarketSearchResult E :=
  { symbol := some entry.symbol
    name := some entry.name
    assetClass := "equity"
    sourceId := some (primaryEquity deps)
    extra := entry.extra }

def commodityResult (entry : CommodityCatalogEntry E) : MarketSearchResult E :=
  { id := some entry.id
    name := some entry.name
    aliases := entry.aliases
    assetClass := "commodity"
    extra := entry.extra }

def rowResult (assetClass : String) (row : VendorRow E) : MarketSearchResult E :=
  { symbol := row.symbol
    id := row.id
    name := row.name
    aliases := row.aliases
    assetClass := assetClass
    extra := row.extra }

def onlineResult (vendor : String) (row : VendorRow E) : MarketSearchResult E :=
  { rowResult "equity" row with
    symbol := some (row.symbol.getD "")
    sourceId := some vendor }

def equityKey (r : MarketSearchResult E) : String :=
  r.sourceId.getD "" ++ "|" ++ js.toUpperCase (r.symbol.getD "")

/-- One turn of the loop over the rows of a vendor: those without a symbol, and those of a key that
has been seen, are left out. -/
def addOnline (state : List String × List (MarketSearchResult E)) (r : MarketSearchResult E) :
    List String × List (MarketSearchResult E) :=
  if r.symbol.getD "" = "" ∨ equityKey js r ∈ state.1 then state
  else (equityKey js r :: state.1, state.2 ++ [r])

def onlineRows (deps : MarketSearchDeps E) : List (MarketSearchResult E) :=
  deps.equityVendors.flatMap fun (vendor, rows) ↦ (rows.getD []).map (onlineResult vendor)

def equityOnlineResults (deps : MarketSearchDeps E) (seenEquity : List String) :
    List (MarketSearchResult E) :=
  ((onlineRows deps).foldl (addOnline js) (seenEquity, [])).2

def cryptoResults (deps : MarketSearchDeps E) : List (MarketSearchResult E) :=
  (deps.crypto.getD []).map (rowResult "crypto")

def currencyResults (deps : MarketSearchDeps E) : List (MarketSearchResult E) :=
  ((deps.currency.getD []).filter fun row ↦
    (row.symbol.map fun sym ↦ decide ("USD".toList <:+ sym.toList)).getD false).map
      (rowResult "currency")

/-- All that is ranked, from the hits of the index and of the catalog on. -/
def merge (deps : MarketSearchDeps E) (equity : List (SymbolEntry E))
    (commodity : List (CommodityCatalogEntry E)) : List (MarketSearchResult E) :=
  let equityResults := equity.map (equityResult deps)
  equityResults ++ equityOnlineResults js deps (equityResults.map (equityKey js)) ++
    cryptoResults deps ++ currencyResults deps ++ commodity.map commodityResult

def ranked (q : String) (all : List (MarketSearchResult E)) : List (MarketSearchResult E) :=
  sortRank (fun r ↦ -(matchScore js q r : Int)) all

/-- `limit` as it is used; `none` is a number that is not finite. -/
def boundedLimit (limit : Option ℚ) : Nat :=
  (max 1 (min 100 ((limit.map Int.floor).getD 20))).toNat

def aggregateSymbolSearch (deps : MarketSearchDeps E) (query : String) (limit : Option ℚ) :
    List (MarketSearchResult E) :=
  let q := js.trim query
  if q = "" then []
  else
    let limit := boundedLimit limit
    let equity := searchLoop (SymbolEntry.matches js q) limit [] deps.symbolIndex
    let commodity :=
      searchLoop (CommodityCatalogEntry.matches js q) limit [] deps.commodityCatalog
    (ranked js q (merge js deps equity commodity)).take limit

end OpenAlice.Market
